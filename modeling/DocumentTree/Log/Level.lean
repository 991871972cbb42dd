import DocumentTree.Text.Basic
import DocumentTree.Value.Display

/-!
# Log levels

A level is a number; the usual ones have names. A level may be asked for by number or by name, or
left open, in which case the debug switch of the environment decides.

## Main definitions

* `isDebugSetting` — whether a setting of the environment turns debugging on.
* `Level.ofName?`, `Level.name` — the number of a named level, and the name of a number.
* `Level.resolve` — the level that is asked for.
-/

namespace DocumentTree

/-- Whether the setting of the debug switch turns it on: the word for true, in any case. -/
def isDebugSetting (setting : Option String) : Bool :=
  match setting with
  | none => false
  | some s => (Text.trim s.toList).map Char.toLower = ['t', 'r', 'u', 'e']

/-- Whether debugging is on for a log, which may not be there: by the switch, or because the log
takes records for debugging. -/
def isDebugEnabled (setting : Option String) (logTakesDebug : Option Bool) : Bool :=
  isDebugSetting setting || logTakesDebug.getD false

namespace Level

/-- The level of debugging. -/
def debug : Int := 10

/-- The level of information. -/
def info : Int := 20

/-- The level of warnings. -/
def warning : Int := 30

/-- The number of a named level. -/
def ofName? (name : Text) : Option Int :=
  match String.ofList name with
  | "NOTSET" => some 0
  | "DEBUG" => some debug
  | "INFO" => some info
  | "WARN" => some warning
  | "WARNING" => some warning
  | "ERROR" => some 40
  | "CRITICAL" => some 50
  | "FATAL" => some 50
  | _ => none

/-- The name of a level. -/
def name (level : Int) : String :=
  if level = 0 then "NOTSET"
  else if level = debug then "DEBUG"
  else if level = info then "INFO"
  else if level = warning then "WARNING"
  else if level = 40 then "ERROR"
  else if level = 50 then "CRITICAL"
  else "Level " ++ String.ofList (integerText level)

/-- The level that a value asks for. A number is itself, and so is a truth value; a name counts in
any case, and an unknown one asks for information. -/
def resolve (setting : Option String) (given : Value) : Value :=
  match given with
  | .null => .int (if isDebugSetting setting then debug else warning)
  | .int i => .int i
  | .bool b => .bool b
  | v => .int ((ofName? (Text.asciiCapitals v.plain.toList)).getD info)

/-- The number of a resolved level. -/
def number : Value → Int
  | .int i => i
  | .bool b => if b then 1 else 0
  | _ => info

end Level

end DocumentTree
