import HalfPrecision.CommandLine.Arguments
import HalfPrecision.Inspect.Display
import HalfPrecision.Inspect.Entry
import HalfPrecision.Platform

/-!
# The inspector

The inspector shows each value of its command line in a block: the text as it was entered, its
description, and an empty line. It stops at the first text that is no value. Its log goes to the
error output, as far as the chosen level lets it through. Without a level nothing is inspected, and
without a layout there is none for bit patterns.
-/

namespace HalfPrecision.CommandLine

def programName : String := "halfp-inspect"

/-- The names of layouts as a choice. -/
def layoutChoice : String := "\x7b" ++ ",".intercalate layoutNames ++ "\x7d"

/-- Lines of text, each with its end. -/
def lines (l : List String) : String := String.join (l.map (· ++ "\n"))

def usage : String := lines [
  "usage: " ++ programName ++ " [-h]",
  "                     [--from " ++ layoutChoice ++ "]",
  "                     [--log-level LOG_LEVEL]",
  "                     values [values ...]"]

def help : String := usage ++ lines [
  "",
  "Show values as half, single and double bit patterns",
  "",
  "positional arguments:",
  "  values                Decimal floats or 0x bit patterns",
  "",
  "options:",
  "  -h, --help            show this help message and exit",
  "  --from " ++ layoutChoice,
  "                        Layout of 0x bit patterns (default: half)",
  "  --log-level LOG_LEVEL",
  "                        Logging level"]

/-- The usage and an error. -/
def complaint (message : String) : String :=
  usage ++ programName ++ ": error: " ++ message ++ "\n"

open Inspect

/-- How a run of the inspector ends. -/
inductive Ending where
  | status (code : Nat)
  | noLevel
  | unknownLevel (name : String)
  | noLayout
  | probeFailed (failure : ProbeFailure)
  | notDescribed (error : DecodeError)
deriving DecidableEq

namespace Ending

/-- The exit code; a run that breaks off has failed. -/
def exitCode : Ending → Nat
  | status code => code
  | _ => 1

/-- What there is to say of a run that breaks off. -/
def message? : Ending → Option String
  | status _ => none
  | noLevel => some "No logging level"
  | noLayout => some "No layout for bit patterns"
  | unknownLevel name => some ("Unknown level: " ++ Text.quoted name)
  | probeFailed failure => some failure.text
  | notDescribed error => some error.message

end Ending

/-- All that a run of the inspector leaves behind. -/
structure Transcript where
  ending : Ending
  stdout : String := ""
  stderr : String := ""
deriving DecidableEq

/-- The lines of a log. -/
def logText (log : List Log.Record) : String := lines (log.map Log.Record.line)

/-- What is logged of an entered value. -/
def entryRecord (text : String) (L : Layout) (bits : Nat) : Log.Record where
  level := .debug
  source := .inspector
  message := s!"Parsed {text} as {L.name} pattern 0x" ++ String.ofList (Text.numeral 16 bits)

/-- What is logged where conversions are not available. -/
def unavailableRecord : Log.Record where
  level := .error
  source := .inspector
  message := "Native floating point is not IEEE-754"

/-- Put output in front of that of a run. -/
def Transcript.after (rest : Transcript) (stdout stderr : String) : Transcript :=
  { rest with stdout := stdout ++ rest.stdout, stderr := stderr ++ rest.stderr }

/-- The block of a described value. -/
def block (text : String) (description : List String) : String :=
  text ++ "\n" ++ lines (description.map ("  " ++ ·)) ++ "\n"

/-- Read an entered value. A run that reads a bit pattern without a layout breaks off. -/
def enter (text : String) (L : Option Layout) : Except Transcript (Nat × Layout) :=
  let refused (e : EntryError) : Transcript :=
    { ending := .status 2, stderr := complaint e.message }
  match L with
  | some layout => (parse text layout).mapError refused
  | none =>
      match Entry.ofText (Text.strip text.toList) with
      | .error e => .error (refused e)
      | .ok (.pattern _) => .error { ending := .noLayout }
      | .ok (.value double) => .ok (double, .double)

/-- Show values up to the first text that is none. -/
def inspectAll (p : Platform) (threshold : Log.Level) (L : Option Layout) :
    List String → Transcript
  | [] => { ending := .status 0 }
  | text :: rest =>
      match enter text L with
      | .error ended => ended
      | .ok (bits, own) =>
          let logged := logText (Log.visible threshold [entryRecord text own bits])
          match describe p own bits with
          | .error e => { ending := .notDescribed e, stdout := text ++ "\n", stderr := logged }
          | .ok description =>
              (inspectAll p threshold L rest).after (block text description) logged

/-- Show values once the level of the log is known. -/
def inspectAt (cell : ProbeCell) (threshold : Log.Level) (settings : Settings) : Transcript :=
  let probed := cell.get
  match probed.answer with
  | .error failure => { ending := .probeFailed failure }
  | .ok p =>
      let logged (more : List Log.Record) :=
        logText (Log.visible threshold (probed.log ++ more))
      if p.ieee754 then
        (inspectAll p threshold settings.source settings.values).after "" (logged [])
      else { ending := .status 1, stderr := logged [unavailableRecord] }

/-- Show the values of a command line. -/
def inspect (cell : ProbeCell) (settings : Settings) : Transcript :=
  match settings.logLevel with
  | none => { ending := .noLevel }
  | some name =>
      match Log.Level.ofName? name with
      | none => { ending := .unknownLevel name }
      | some threshold => inspectAt cell threshold settings

/-- Run the inspector on a command line. -/
def run (cell : ProbeCell) (arguments : List String) : Transcript :=
  match Request.ofArguments arguments with
  | .error e => { ending := .status 2, stderr := complaint e.message }
  | .ok .help => { ending := .status 0, stdout := help }
  | .ok (.inspect settings) => inspect cell settings

end HalfPrecision.CommandLine
