/-!
# Log records

A record is a level, the part of the library that speaks, and a message. A threshold lets through
the records of its level and above.
-/

namespace HalfPrecision.Log

inductive Level where
  | all
  | debug
  | info
  | warning
  | error
  | critical
deriving DecidableEq, Repr

namespace Level

def label : Level → String
  | all => "NOTSET"
  | debug => "DEBUG"
  | info => "INFO"
  | warning => "WARNING"
  | error => "ERROR"
  | critical => "CRITICAL"

def rank : Level → Nat
  | all => 0
  | debug => 1
  | info => 2
  | warning => 3
  | error => 4
  | critical => 5

/-- The capital of a letter where it is a letter of ASCII. Besides the letters of ASCII the dotless
i and the long s have one. -/
def capital (c : Char) : Char :=
  if c.toNat = 0x131 then 'I'
  else if c.toNat = 0x17F then 'S'
  else c.toUpper

/-- The names of the levels; two levels have a second one. -/
def names : List (String × Level) := [
  ("CRITICAL", critical), ("FATAL", critical), ("ERROR", error), ("WARN", warning),
  ("WARNING", warning), ("INFO", info), ("DEBUG", debug), ("NOTSET", all)]

/-- The level that a text names, in any case. -/
def ofName? (name : String) : Option Level :=
  names.lookup (String.ofList (name.toList.map capital))

end Level

/-- The parts of the library that keep a log. -/
inductive Source where
  | platform
  | arrays
  | inspector
deriving DecidableEq, Repr

def Source.label : Source → String
  | platform => "halfp_platform"
  | arrays => "halfp_convert"
  | inspector => "halfp_inspect"

structure Record where
  level : Level
  source : Source
  message : String
deriving DecidableEq, Repr

/-- A record as a line of text. -/
def Record.line (record : Record) : String := record.level.label ++ " - " ++ record.message

/-- The records that a threshold lets through. -/
def visible (threshold : Level) (log : List Record) : List Record :=
  log.filter fun record => threshold.rank ≤ record.level.rank

end HalfPrecision.Log
