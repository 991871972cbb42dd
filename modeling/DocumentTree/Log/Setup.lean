import DocumentTree.Config.FileSystem
import DocumentTree.Log.Level

/-!
# Logs

A log writes its records to the console, and on request to a file as well. Its level decides which
records are written. Records for tracing carry the time and the source; the time is not known to the
record itself, so the written form takes it from outside.

## Main definitions

* `LogRecord`, `Log` — a record, and a log with its level and form.
* `Log.accepts`, `Log.line` — whether a record is written, and how.
* `FileOutcome`, `Log.openingRecord?` — what became of the file, and the record that says so.
* `Log.console`, `Log.file?` — everything that is written.
-/

namespace DocumentTree

/-- A record of a log. -/
structure LogRecord where
  /-- The level. -/
  level : Int
  /-- The name it is logged under. -/
  source : String
  /-- The wording. -/
  message : String

/-- What became of the request for a file. -/
inductive FileOutcome where
  /-- No file was asked for. -/
  | notAsked
  /-- The file at a path is written. -/
  | opened (path : String)
  /-- The file at a path cannot be written, for a reason. -/
  | failed (path reason : String)

/-- What becomes of the request for a file below a top directory. Its name is shown as it was given,
the obstacle with its path resolved. -/
def FileOutcome.ofRequest (fs : FileSystem) : Option String → FileOutcome
  | none => notAsked
  | some name =>
    if name = "" then notAsked
    else
      let shown := fs.top ++ "/" ++ name
      match (Path.ofString name).resolve?.bind fs.obstacle? with
      | some reason => failed shown reason
      | none => opened shown

/-- A log. -/
structure Log where
  /-- The level, a number or a truth value. -/
  level : Value
  /-- Whether records carry the time and the source. -/
  trace : Bool
  /-- The file beside the console. -/
  file : FileOutcome

namespace Log

/-- The form of a line, with placeholders. -/
def format (l : Log) : String :=
  if l.trace then "[%(asctime)s] [%(levelname)s] [%(name)s] %(message)s"
  else "%(levelname)s: %(message)s"

/-- The form of the time, where it is shown. -/
def timeFormat? (l : Log) : Option String :=
  if l.trace then some "%Y-%m-%d %H:%M:%S" else none

/-- Whether a record is written. A level that is not positive never is. -/
def accepts (l : Log) (r : LogRecord) : Bool :=
  0 < r.level && Level.number l.level ≤ r.level

/-- A record as written, with the time it was made. -/
def line (l : Log) (time : String) (r : LogRecord) : String :=
  if l.trace then
    "[" ++ time ++ "] [" ++ Level.name r.level ++ "] [" ++ r.source ++ "] " ++ r.message ++ "\n"
  else Level.name r.level ++ ": " ++ r.message ++ "\n"

/-- The record on what became of the file. -/
def openingRecord? (l : Log) : Option LogRecord :=
  match l.file with
  | .notAsked => none
  | .opened path => some ⟨Level.info, "root", "Logging to file: " ++ path⟩
  | .failed path reason =>
    some ⟨Level.warning, "root", "Could not create log file " ++ path ++ ": " ++ reason⟩

/-- The lines of records, the one on the file first. -/
def lines (l : Log) (time : String) (records : List LogRecord) : String :=
  String.join (((l.openingRecord?.toList ++ records).filter l.accepts).map (l.line time))

/-- The text on the console. -/
def console (l : Log) (time : String) (records : List LogRecord) : String :=
  l.lines time records

/-- The text of the file, if it is written. It holds what the console shows. -/
def file? (l : Log) (time : String) (records : List LogRecord) : Option String :=
  match l.file with
  | .opened _ => some (l.lines time records)
  | _ => none

end Log

end DocumentTree
