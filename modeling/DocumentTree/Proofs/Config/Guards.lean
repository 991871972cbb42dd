import DocumentTree.Config.Load
import DocumentTree.Proofs.Outcome

/-!
# How loading fails

Whoever loads configuration is told to expect one kind of error, which carries the path of the file.
All that a document may hold instead of a mapping is refused with such an error, and so are texts
that are not well formed and settings that are not allowed. Two kinds of files get past the guards:
files whose bytes are no UTF-8, and project files that are well formed but hold no table where the
tables of all tools belong.

The statements are about any readers of the three formats.

## Main definitions

* `IsGuarded path x` — a result, or an error of configuration about the file at a path.
* `Readers.Handles` — what the guards expect of the bytes of a file.

## Main statements

* `isGuarded_bind_iff` — steps in a row are guarded when each is.
* `loading_is_guarded_iff` — which files are loaded or refused with an error of configuration.
-/

namespace DocumentTree

open Markdown (Options OptionsError)

variable {α β : Type} {path : String} {readers : Readers} {fs : FileSystem} {p : Path}
  {bytes : ByteArray} {kind : FileKind} {format : Format} {document : Entries}

/-! ## Guarded computations -/

/-- A result, or an error of configuration about the file at a path. -/
def IsGuarded (path : String) (x : Except LoadError α) : Prop :=
  ∀ e, x = .error e → ∃ c : ConfigError, e = .config c ∧ c.path = path

theorem isGuarded_ok (a : α) : IsGuarded path (.ok a) :=
  nofun

@[simp] theorem isGuarded_error_iff {e : LoadError} :
    IsGuarded path (.error e : Except LoadError α) ↔
      ∃ c : ConfigError, e = .config c ∧ c.path = path :=
  ⟨fun h => h e rfl, fun h _ he => by rwa [← Except.error.inj he]⟩

/-- Steps in a row are guarded when the first is, and each that its result leads to. -/
theorem isGuarded_bind_iff {x : Except LoadError α} {f : α → Except LoadError β} :
    IsGuarded path (x >>= f) ↔ IsGuarded path x ∧ ∀ a, x = .ok a → IsGuarded path (f a) := by
  cases x with
  | error e => simp
  | ok a => simp [isGuarded_ok]

/-! ## What the guards expect -/

/-- The reader of a format takes some bytes for text. -/
def Readers.Decodes (readers : Readers) (bytes : ByteArray) : Format → Prop
  | .toml => readers.toml.read bytes ≠ .error .undecodable
  | .json => readers.json.read bytes ≠ .error .undecodable
  | .yaml => readers.yaml.read bytes ≠ .error .undecodable

/-- What a document of a project file holds for all tools is a table, if it holds anything. -/
def HasToolTable (document : Entries) : Prop :=
  ∀ v, document.get? "tool" = some v → ∃ tools, v = .map tools

/-- What the guards expect of the bytes of a file: that they are text, and that a project file which
is well formed holds a table for all tools. -/
def Readers.Handles (readers : Readers) (bytes : ByteArray) : FileKind → Prop
  | .project => readers.Decodes bytes .toml ∧
      ∀ document, readers.toml.read bytes = .ok document → HasToolTable document
  | .dedicated format => readers.Decodes bytes format

/-- The file at a path is what the guards expect, if there is one of a known kind. -/
def FileSystem.IsHandled (readers : Readers) (fs : FileSystem) (p : Path) : Prop :=
  ∀ bytes kind, fs.find? p = some (.file bytes) → p.kind? = some kind → readers.Handles bytes kind

/-- UTF-8 is text for every reader. -/
theorem Readers.decodes_of_utf8 (h : (String.fromUTF8? bytes).isSome) (format : Format) :
    readers.Decodes bytes format := by
  have hsome : String.fromUTF8? bytes ≠ none := Option.ne_none_iff_isSome.mpr h
  cases format with
  | toml => exact fun hread => hsome (readers.toml.not_utf8 bytes hread)
  | json => exact fun hread => hsome (readers.json.not_utf8 bytes hread)
  | yaml => exact fun hread => hsome (readers.yaml.not_utf8 bytes hread)

namespace FileSystem

/-! ## Each step of loading -/

theorem isGuarded_readBytes_iff {reader : Reader α} {malformed : ConfigError}
    (h : malformed.path = fs.shown p) :
    IsGuarded (fs.shown p) (fs.readBytes reader malformed p bytes) ↔
      reader.read bytes ≠ .error .undecodable := by
  rw [readBytes]
  cases reader.read bytes with
  | ok a => exact iff_of_true (isGuarded_ok a) nofun
  | error fault =>
    cases fault with
    | undecodable => simp [Except.mapError]
    | malformed => simp [Except.mapError, h]

theorem readBytes_eq_ok_iff {reader : Reader α} {malformed : ConfigError} {a : α} :
    fs.readBytes reader malformed p bytes = .ok a ↔ reader.read bytes = .ok a :=
  mapError_eq_ok

/-- Whatever a document holds, it is a mapping or refused. -/
theorem isGuarded_mappingOf (v : Value) : IsGuarded (fs.shown p) (fs.mappingOf p format v) := by
  fun_cases mappingOf fs p format v with
  | case1 entries => exact isGuarded_ok entries
  | case2 => exact isGuarded_ok []
  | case3 => exact isGuarded_error_iff.mpr ⟨_, rfl, rfl⟩

theorem isGuarded_settingsOf (mapping : Entries) :
    IsGuarded (fs.shown p) (fs.settingsOf p mapping) := by
  rw [settingsOf]
  split
  · exact isGuarded_ok _
  · exact isGuarded_ok _
  · exact isGuarded_error_iff.mpr ⟨_, rfl, rfl⟩

theorem isGuarded_readMapping_iff :
    IsGuarded (fs.shown p) (fs.readMapping readers p format bytes) ↔
      readers.Decodes bytes format := by
  cases format with
  | toml => exact isGuarded_readBytes_iff rfl
  | json | yaml =>
    simp only [readMapping]
    rw [isGuarded_bind_iff, isGuarded_readBytes_iff rfl]
    exact and_iff_left fun v _ => isGuarded_mappingOf v

theorem isGuarded_projectTable_iff :
    IsGuarded (fs.shown p) (fs.projectTable p document) ↔ HasToolTable document := by
  rw [projectTable, HasToolTable]
  split
  · rename_i hnone
    rw [hnone]
    exact iff_of_true (isGuarded_ok _) nofun
  · rename_i tools htools
    rw [htools]
    refine iff_of_true ?_ fun v hv => ⟨tools, (Option.some.inj hv).symm⟩
    split
    · exact isGuarded_ok _
    · exact isGuarded_ok _
    · exact isGuarded_error_iff.mpr ⟨_, rfl, rfl⟩
  · rename_i v hother hv
    rw [hv]
    refine iff_of_false (by simp) fun htable => ?_
    obtain ⟨tools, rfl⟩ := htable v rfl
    exact hother tools rfl

theorem isGuarded_readProject_iff :
    IsGuarded (fs.shown p) (fs.readProject readers p bytes) ↔ readers.Handles bytes .project := by
  rw [readProject, isGuarded_bind_iff, isGuarded_readBytes_iff rfl]
  refine and_congr_right fun _ => forall_congr' fun document => ?_
  rw [readBytes_eq_ok_iff, isGuarded_projectTable_iff]

theorem isGuarded_readByName_iff :
    IsGuarded (fs.shown p) (fs.readByName readers p bytes) ↔
      ∀ kind, p.kind? = some kind → readers.Handles bytes kind := by
  rw [readByName]
  split
  · rename_i hkind
    simp [hkind, isGuarded_readProject_iff]
  · rename_i format hkind
    simp [hkind, isGuarded_readMapping_iff, Readers.Handles]
  · rename_i hkind
    simp [hkind, ConfigError.path]

/-! ## Settings and options -/

theorem isGuarded_loadWith_iff :
    IsGuarded (fs.shown p) (fs.loadWith readers p) ↔ fs.IsHandled readers p := by
  rw [loadWith, IsHandled]
  split
  · rename_i hfile
    simp [hfile, ConfigError.path]
  · rename_i hfile
    simp [hfile, ConfigError.path]
  · rename_i bytes hfile
    rw [isGuarded_bind_iff, isGuarded_readByName_iff,
      and_iff_left fun mapping _ => isGuarded_settingsOf mapping]
    constructor
    · intro h other kind hother hkind
      obtain rfl : bytes = other := by simpa [hfile] using hother
      exact h kind hkind
    · exact fun h kind hkind => h bytes kind hfile hkind

/-- Settings that are refused are refused with an error of configuration. -/
theorem isGuarded_optionsAt_iff :
    IsGuarded (fs.shown p) (fs.optionsAt readers p) ↔ fs.IsHandled readers p := by
  rw [optionsAt, isGuarded_bind_iff, isGuarded_loadWith_iff]
  refine and_iff_left fun settings _ => ?_
  cases (Options.ofMapping settings).result with
  | ok o => exact isGuarded_ok o
  | error e => exact isGuarded_error_iff.mpr ⟨_, rfl, rfl⟩

end FileSystem

/-- **How loading fails.** The settings at a path, and the options from them, are loaded or refused
with an error of configuration about this path just where the file is what the guards expect: where
its bytes are text and, if it is a project file, what it holds for all tools is a table. -/
theorem loading_is_guarded_iff (readers : Readers) (fs : FileSystem) (p : Path)
    (environment : Option Path) (working : Path) :
    (IsGuarded (fs.shown p) (fs.loadWith readers p) ↔ fs.IsHandled readers p) ∧
    (IsGuarded (fs.shown p) (fs.loadOptionsWith readers (some p) environment working) ↔
      fs.IsHandled readers p) ∧
    ((∀ bytes, fs.find? p = some (.file bytes) → (String.fromUTF8? bytes).isSome ∧
        (p.kind? = some .project →
          ∀ document, readers.toml.read bytes = .ok document → HasToolTable document)) →
      fs.IsHandled readers p) := by
  refine ⟨FileSystem.isGuarded_loadWith_iff, FileSystem.isGuarded_optionsAt_iff, ?_⟩
  intro h bytes kind hfile hkind
  obtain ⟨hutf8, htools⟩ := h bytes hfile
  cases kind with
  | project => exact ⟨Readers.decodes_of_utf8 hutf8 .toml, htools hkind⟩
  | dedicated format => exact Readers.decodes_of_utf8 hutf8 format

/-- A project file that holds a number for this program is what the guards expect, and is refused
with an error of configuration. -/
theorem odd_section_is_guarded :
    let bytes := "[tool]\nmdtree = 1\n".toUTF8
    let fs : FileSystem := ⟨"top", .directory [("pyproject.toml", .file bytes)]⟩
    let p : Path := ["pyproject.toml"]
    (∀ content, fs.find? p = some (.file content) →
      (String.fromUTF8? content).isSome ∧ (p.kind? = some .project →
        ∀ document, Readers.restricted.toml.read content = .ok document → HasToolTable document)) ∧
    IsGuarded (fs.shown p) (fs.loadWith .restricted p) ∧
    IsGuarded (fs.shown p) (fs.loadOptionsWith .restricted (some p) none []) := by
  intro bytes fs p
  have hfind : fs.find? p = some (.file bytes) := rfl
  have hread : Readers.restricted.toml.read bytes =
      .ok [(.str "tool", .map [(.str "mdtree", .int 1)])] := by decide +kernel
  have hexpected : ∀ content, fs.find? p = some (.file content) →
      (String.fromUTF8? content).isSome ∧ (p.kind? = some .project → ∀ document,
        Readers.restricted.toml.read content = .ok document → HasToolTable document) := by
    intro content hfile
    obtain rfl : bytes = content := Entry.file.inj (Option.some.inj (hfind.symm.trans hfile))
    refine ⟨by decide +kernel, fun _ document hdocument v hv => ?_⟩
    obtain rfl := Except.ok.inj (hread.symm.trans hdocument)
    exact ⟨_, (Option.some.inj hv).symm⟩
  obtain ⟨hload, hoptions, hhandled⟩ := loading_is_guarded_iff .restricted fs p none []
  exact ⟨hexpected, hload.mpr (hhandled hexpected), hoptions.mpr (hhandled hexpected)⟩

/-- A byte that starts no character gets past the guards, and so does a number in place of the
tables of all tools, in a file that is UTF-8. -/
theorem odd_bytes_and_odd_tools_are_not_guarded :
    ¬ (∀ (fs : FileSystem) (p : Path), IsGuarded (fs.shown p) (fs.load p)) ∧
    ¬ ∀ (fs : FileSystem) (p : Path) (bytes : ByteArray), fs.find? p = some (.file bytes) →
      (String.fromUTF8? bytes).isSome → IsGuarded (fs.shown p) (fs.load p) := by
  constructor
  · intro hclaim
    let fs : FileSystem := ⟨"top", .directory [("a.json", .file ⟨#[0xff]⟩)]⟩
    have hhandled := FileSystem.isGuarded_loadWith_iff.mp (hclaim fs ["a.json"])
    exact hhandled _ (.dedicated .json) rfl (by decide +kernel) (by decide +kernel)
  · intro hclaim
    let bytes := "tool = 3\n".toUTF8
    let fs : FileSystem := ⟨"top", .directory [("pyproject.toml", .file bytes)]⟩
    have hguarded := hclaim fs ["pyproject.toml"] bytes rfl (by decide +kernel)
    have hhandled := FileSystem.isGuarded_loadWith_iff.mp hguarded
    have hread : Readers.restricted.toml.read bytes = .ok [(.str "tool", .int 3)] := by
      decide +kernel
    obtain ⟨-, htools⟩ := hhandled bytes .project rfl (by decide +kernel)
    obtain ⟨tools, hmap⟩ := htools _ hread (.int 3) rfl
    cases hmap

end DocumentTree
