import HalfPrecision.CommandLine.Inspection

/-!
# The inspector as a program

The run is computed in full and then printed, so nothing is decided here.
-/

open HalfPrecision CommandLine

def main (arguments : List String) : IO UInt32 := do
  let transcript := run (.ofPlatform .native) arguments
  IO.print transcript.stdout
  IO.eprint transcript.stderr
  match transcript.ending.message? with
  | some message => IO.eprintln message
  | none => pure ()
  return UInt32.ofNat transcript.ending.exitCode
