import DocumentTree.Config.FileSystem
import DocumentTree.Config.Reader
import DocumentTree.Markdown.Options
import DocumentTree.Text.LowerCase

/-!
# Configuration files

Options of the Markdown output can be kept in a file of their own, in TOML, YAML or JSON, or in a
table of the project file. The format is chosen by the file's name. If the file holds a `markdown`
table, that table holds the options.

Without a file named by the caller or the environment, the nearest one is taken: each directory is
searched from the starting one upward, and in it the dedicated files come before the project file,
which counts only if its table is not empty.

## Main definitions

* `Format`, `FileKind` — the formats of configuration files, and what a name says of them.
* `ConfigError`, `LoadError` — why a file cannot be used, and its wording.
* `FileSystem.loadWith`, `FileSystem.load` — the settings in a file.
* `FileSystem.findConfigWith`, `FileSystem.findConfig` — the nearest file.
* `FileSystem.loadOptionsWith`, `FileSystem.loadOptions` — options from the file that applies.
-/

namespace DocumentTree

open Markdown (Options OptionsError)

/-- The formats of configuration files. -/
inductive Format where
  | toml
  | json
  | yaml
  deriving DecidableEq

/-- The name of a format. -/
def Format.name : Format → String
  | toml => "TOML"
  | json => "JSON"
  | yaml => "YAML"

/-- What a document of a format has to hold. -/
def Format.wanted : Format → String
  | json => "an object"
  | toml | yaml => "a mapping"

/-- Why a configuration file cannot be used. Each error carries the path of the file. -/
inductive ConfigError where
  /-- There is nothing at the path. -/
  | missing (path : String)
  /-- There is a directory at the path. -/
  | notAFile (path : String)
  /-- The file name ends in none of the known suffixes. -/
  | unsupported (path suffix : String)
  /-- The file is not well formed. -/
  | malformed (format : Format) (path : String)
  /-- The project file is not well formed. -/
  | malformedProject (path : String)
  /-- The document is no mapping. -/
  | notAMapping (format : Format) (path : String) (found : Value)
  /-- The table of options is no table. -/
  | sectionNotATable (path : String) (found : Value)
  /-- The table of the project file is no table. -/
  | projectSectionNotATable (path : String) (found : Value)
  /-- The settings are refused. -/
  | badOptions (path : String) (error : OptionsError)

namespace ConfigError

/-- The path of the file. -/
def path : ConfigError → String
  | missing path | notAFile path | unsupported path _ | malformed _ path
  | malformedProject path | notAMapping _ path _ | sectionNotATable path _
  | projectSectionNotATable path _ | badOptions path _ => path

/-- The wording of the error; `detail` says what is malformed. -/
def message (detail : String) : ConfigError → String
  | missing path => "Configuration file does not exist: " ++ path
  | notAFile path => "Configuration path is not a file: " ++ path
  | unsupported _ suffix =>
    "Unsupported config file format: " ++ suffix ++ ". Use .json, .toml, or .yaml"
  | malformed format path => s!"Invalid {format.name} in config file {path}: {detail}"
  | malformedProject path => s!"Invalid TOML in pyproject.toml {path}: {detail}"
  | notAMapping format _ found =>
    s!"{format.name} config file must contain {format.wanted}, got {found.typeName}"
  | sectionNotATable path found =>
    "'markdown' section in " ++ path ++ " must be a table, got " ++ found.typeName
  | projectSectionNotATable path found =>
    "[tool.mdtree] section in " ++ path ++ " must be a table, got " ++ found.typeName
  | badOptions path error =>
    "Invalid renderer options in " ++ path ++ ": " ++ error.message?.getD ""

end ConfigError

/-- Why settings cannot be loaded. -/
inductive LoadError where
  /-- The file cannot be used. -/
  | config (error : ConfigError)
  /-- The bytes of the file are no UTF-8. -/
  | undecodable (path : String)
  /-- What the project file holds for all tools is no table. -/
  | toolsNotATable (path : String)

/-! ## Names of files -/

/-- What the name of a file says of its contents. -/
inductive FileKind where
  /-- A project file, which has a table for this program. -/
  | project
  /-- A file of its own, in a format. -/
  | dedicated (format : Format)
  deriving DecidableEq

/-- The name of project files. -/
def projectName : String := "pyproject.toml"

/-- The suffix of a file name, in lower case. -/
def Path.lowerSuffix (p : Path) : String :=
  String.ofList (Text.lower p.suffix.toList)

/-- What the name at the end of a path says, if it is a name of configuration files. -/
def Path.kind? (p : Path) : Option FileKind :=
  if String.ofList (Text.lower p.fileName.toList) = projectName then some .project
  else if p.lowerSuffix = ".toml" then some (.dedicated .toml)
  else if p.lowerSuffix = ".yaml" ∨ p.lowerSuffix = ".yml" then some (.dedicated .yaml)
  else if p.lowerSuffix = ".json" then some (.dedicated .json)
  else none

namespace FileSystem

/-! ## Reading a file -/

/-- What a reader makes of the bytes of a file. What to say of a text that is not well
formed depends on the file. -/
def readBytes {α : Type} (fs : FileSystem) (reader : Reader α) (malformed : ConfigError) (p : Path)
    (bytes : ByteArray) : Except LoadError α :=
  (reader.read bytes).mapError fun
    | .undecodable => .undecodable (fs.shown p)
    | .malformed => .config malformed

/-- The mapping that a document holds. An empty YAML document holds an empty one. -/
def mappingOf (fs : FileSystem) (p : Path) (format : Format) (v : Value) :
    Except LoadError Entries :=
  match v with
  | .map entries => .ok entries
  | v =>
    if format = .yaml ∧ v matches .null then .ok []
    else .error (.config (.notAMapping format (fs.shown p) v))

/-- The mapping in a file of a format. -/
def readMapping (readers : Readers) (fs : FileSystem) (p : Path) (format : Format)
    (bytes : ByteArray) : Except LoadError Entries :=
  let malformed := .malformed format (fs.shown p)
  match format with
  | .toml => fs.readBytes readers.toml malformed p bytes
  | .json => do fs.mappingOf p .json (← fs.readBytes readers.json malformed p bytes)
  | .yaml => do fs.mappingOf p .yaml (← fs.readBytes readers.yaml malformed p bytes)

/-- The table of this program in the document of a project file; it is empty when it is missing. -/
def projectTable (fs : FileSystem) (p : Path) (document : Entries) : Except LoadError Entries :=
  match document.get? "tool" with
  | none => .ok []
  | some (.map tools) =>
    match Entries.get "mdtree" tools with
    | .null => .ok []
    | .map entries => .ok entries
    | v => .error (.config (.projectSectionNotATable (fs.shown p) v))
  | some _ => .error (.toolsNotATable (fs.shown p))

/-- The table of this program in a project file. -/
def readProject (readers : Readers) (fs : FileSystem) (p : Path) (bytes : ByteArray) :
    Except LoadError Entries := do
  fs.projectTable p (← fs.readBytes readers.toml (.malformedProject (fs.shown p)) p bytes)

/-- The mapping in a file, in the format that its name says. -/
def readByName (readers : Readers) (fs : FileSystem) (p : Path) (bytes : ByteArray) :
    Except LoadError Entries :=
  match p.kind? with
  | some .project => fs.readProject readers p bytes
  | some (.dedicated format) => fs.readMapping readers p format bytes
  | none => .error (.config (.unsupported (fs.shown p) p.lowerSuffix))

/-- The settings in a mapping: those of its table for this output, if it has one. -/
def settingsOf (fs : FileSystem) (p : Path) (mapping : Entries) : Except LoadError Entries :=
  match mapping.get "markdown" with
  | .null => .ok mapping
  | .map entries => .ok entries
  | v => .error (.config (.sectionNotATable (fs.shown p) v))

/-- The settings in the file at a path. -/
def loadWith (readers : Readers) (fs : FileSystem) (p : Path) : Except LoadError Entries :=
  match fs.find? p with
  | none => .error (.config (.missing (fs.shown p)))
  | some (.directory _) => .error (.config (.notAFile (fs.shown p)))
  | some (.file bytes) => do fs.settingsOf p (← fs.readByName readers p bytes)

/-- The settings in the file at a path, by the restricted readers. -/
def load (fs : FileSystem) (p : Path) : Except LoadError Entries :=
  fs.loadWith .restricted p

/-! ## Finding a file -/

/-- The names of dedicated files, in the order in which they are tried. -/
def dedicatedNames : List String :=
  [".mdtree.toml", ".mdtree.yaml", ".mdtree.yml", ".mdtree.json"]

/-- Whether the project file in a directory has a table that is not empty. One that cannot be used
is passed over. -/
def hasProject (readers : Readers) (fs : FileSystem) (p : Path) : Except LoadError Bool :=
  match fs.find? p with
  | some (.file bytes) =>
    match fs.readProject readers p bytes with
    | .ok entries => .ok (!entries.isEmpty)
    | .error (.config _) => .ok false
    | .error e => .error e
  | _ => .ok false

/-- The file that applies in a directory. -/
def findIn (readers : Readers) (fs : FileSystem) (directory : Path) :
    Except LoadError (Option Path) := do
  match dedicatedNames.find? fun name => fs.isFile (directory ++ [name]) with
  | some name => return some (directory ++ [name])
  | none =>
    let project := directory ++ [projectName]
    return if ← fs.hasProject readers project then some project else none

/-- The first file that applies in one of some directories. -/
def findInFirst (readers : Readers) (fs : FileSystem) :
    List Path → Except LoadError (Option Path)
  | [] => .ok none
  | directory :: rest => do
    match ← fs.findIn readers directory with
    | some p => return some p
    | none => findInFirst readers fs rest

/-- The nearest file from a directory upward. -/
def findConfigWith (readers : Readers) (fs : FileSystem) (start : Path) :
    Except LoadError (Option Path) :=
  match start.resolve? with
  | none => .ok none
  | some start => fs.findInFirst readers start.upward

/-- The nearest file from a directory upward, by the restricted readers. -/
def findConfig (fs : FileSystem) (start : Path) : Except LoadError (Option Path) :=
  fs.findConfigWith .restricted start

/-! ## Options -/

/-- Options from the settings in a file. -/
def optionsAt (readers : Readers) (fs : FileSystem) (p : Path) : Except LoadError Options := do
  let settings ← fs.loadWith readers p
  (Options.ofMapping settings).result.mapError fun e => .config (.badOptions (fs.shown p) e)

/-- The options that apply: from the file that the caller names, else from the one that the
environment names, else from the nearest one, else the default ones. -/
def loadOptionsWith (readers : Readers) (fs : FileSystem) (named environment : Option Path)
    (working : Path) : Except LoadError Options :=
  match named.or environment with
  | some p => fs.optionsAt readers p
  | none => do
    match ← fs.findConfigWith readers working with
    | some p => fs.optionsAt readers p
    | none => return {}

/-- The options that apply, by the restricted readers. -/
def loadOptions (fs : FileSystem) (named environment : Option Path) (working : Path) :
    Except LoadError Options :=
  fs.loadOptionsWith .restricted named environment working

end FileSystem

end DocumentTree
