import ReleasePublisher.Text.Quoted

/-!
# Log records

A record tells what was done: its level, the part of the program that did it, a message, and named
values. It does not depend on whether anyone reads it.

## Main definitions

* `LogLevel`, `LogRecord`: a record and its level
* `LogRecord.line r`: the record as it is written
-/

namespace ReleasePublisher

/-- How much a record matters. -/
inductive LogLevel where
  | error
  | warn
  | info
  | debug
  | trace
  deriving DecidableEq, Repr

namespace LogLevel

/-- The level as a number: the more detail, the greater. -/
def detail : LogLevel → Nat
  | error => 1
  | warn => 2
  | info => 3
  | debug => 4
  | trace => 5

/-- The name of a level. -/
def name : LogLevel → String
  | error => "ERROR"
  | warn => "WARN"
  | info => "INFO"
  | debug => "DEBUG"
  | trace => "TRACE"

end LogLevel

/-- A record of the log. -/
structure LogRecord where
  level : LogLevel
  /-- The part of the program that writes the record. -/
  target : String
  message : String
  /-- Names with values as they are written. -/
  values : List (String × String)
  deriving DecidableEq, Repr

/-- The record as it is written. -/
def LogRecord.line (r : LogRecord) : String :=
  r.level.name ++ " " ++ r.message ++
    String.join (r.values.map fun (n, v) => " " ++ n ++ "=" ++ v)

end ReleasePublisher
