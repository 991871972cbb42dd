import DocumentTree.Proofs.Config.Guards
import Mathlib.Data.List.Induction

/-!
# Which configuration file is found

Without a file that is named, the search goes from the starting directory upward. In each directory
it tries the names of dedicated files in a fixed order and then the project file, which counts only
if its table for this program is not empty. What is found is the first candidate in the order of the
directories and, in one directory, of the names. A project file that is not well formed or has no
table is no candidate, and it stops nothing: the search goes on behind it.

The search is stated once as it runs, directory by directory until there is none above, and once as
what it finds.

## Main definitions

* `IsFirst q l a` — an element is the first one of a list with a property.
* `configNames` — the names of configuration files in order.
* `IsCandidate` — a name of a directory stands for a file that applies.
* `IsNearest` — a path is that of the first candidate.
* `Search` — the search upward from a directory, with what it ends with.

## Main statements

* `search_iff` — the search ends, and its end is that of a pass over the directories.
* `nearest_candidate_is_found` — what is found is the first candidate.
-/

namespace DocumentTree

variable {readers : Readers} {fs : FileSystem} {p directory : Path} {name : String}
  {bytes : ByteArray} {chain : List Path} {r : Option Path}

/-! ## The first element with a property -/

section First

variable {α : Type} {q : α → Prop} {a b : α} {l : List α}

/-- An element is the first one of a list with a property. -/
def IsFirst (q : α → Prop) (l : List α) (a : α) : Prop :=
  ∃ before after, l = before ++ a :: after ∧ q a ∧ ∀ b ∈ before, ¬ q b

theorem not_isFirst_nil : ¬ IsFirst q [] a := by
  rintro ⟨before, after, h, -⟩
  cases before <;> cases h

theorem isFirst_cons_of_pos (ha : q a) : IsFirst q (a :: l) b ↔ b = a := by
  constructor
  · rintro ⟨before, after, h, -, hnone⟩
    cases before with
    | nil => exact (List.cons.inj h).1.symm
    | cons c before =>
      obtain ⟨rfl, -⟩ := List.cons.inj h
      exact absurd ha (hnone _ List.mem_cons_self)
  · rintro rfl
    exact ⟨[], l, rfl, ha, nofun⟩

theorem isFirst_cons_of_neg (ha : ¬ q a) : IsFirst q (a :: l) b ↔ IsFirst q l b := by
  constructor
  · rintro ⟨before, after, h, hb, hnone⟩
    cases before with
    | nil =>
      obtain ⟨rfl, -⟩ := List.cons.inj h
      exact absurd hb ha
    | cons c before =>
      exact ⟨before, after, (List.cons.inj h).2, hb, fun d hd => hnone d (by simp [hd])⟩
  · rintro ⟨before, after, rfl, hb, hnone⟩
    exact ⟨a :: before, after, rfl, hb, by simpa [ha] using hnone⟩

/-- There is a first element with a property just where there is one. -/
theorem exists_isFirst_iff : (∃ a, IsFirst q l a) ↔ ∃ a ∈ l, q a := by
  induction l with
  | nil => simp [not_isFirst_nil]
  | cons c l ih =>
    by_cases hc : q c
    · simp [isFirst_cons_of_pos hc, hc]
    · simp [isFirst_cons_of_neg hc, hc, ih]

theorem IsFirst.holds (ha : IsFirst q l a) : q a := by
  obtain ⟨-, -, -, ha, -⟩ := ha
  exact ha

theorem IsFirst.unique (ha : IsFirst q l a) (hb : IsFirst q l b) : a = b := by
  induction l with
  | nil => exact absurd ha not_isFirst_nil
  | cons c l ih =>
    by_cases hc : q c
    · rw [isFirst_cons_of_pos hc] at ha hb
      rw [ha, hb]
    · rw [isFirst_cons_of_neg hc] at ha hb
      exact ih ha hb

/-- What is first in a list is first in a longer one. -/
theorem IsFirst.append (ha : IsFirst q l a) (m : List α) : IsFirst q (l ++ m) a := by
  obtain ⟨before, after, rfl, ha, hnone⟩ := ha
  exact ⟨before, after ++ m, by simp, ha, hnone⟩

/-- Behind elements without a property, only the last one can be the first that has it. -/
theorem isFirst_concat_iff (h : ∀ b ∈ l, ¬ q b) : IsFirst q (l ++ [a]) b ↔ b = a ∧ q a := by
  induction l with
  | nil =>
    by_cases ha : q a
    · simp [isFirst_cons_of_pos ha, ha]
    · simp [isFirst_cons_of_neg ha, not_isFirst_nil, ha]
  | cons c l ih =>
    rw [List.forall_mem_cons] at h
    rw [List.cons_append, isFirst_cons_of_neg h.1, ih h.2]

/-- A test that decides a property finds the first element that has it. -/
theorem find?_eq_some_iff_isFirst {test : α → Bool} (h : ∀ b ∈ l, (q b ↔ test b = true)) :
    l.find? test = some a ↔ IsFirst q l a := by
  induction l with
  | nil => simp [not_isFirst_nil]
  | cons c l ih =>
    rw [List.forall_mem_cons] at h
    by_cases hc : q c
    · rw [isFirst_cons_of_pos hc, List.find?_cons_of_pos (h.1.mp hc), Option.some.injEq, eq_comm]
    · rw [isFirst_cons_of_neg hc, List.find?_cons_of_neg (mt h.1.mpr hc), ih h.2]

theorem IsFirst.some_eq_some_iff (ha : IsFirst q l a) : some a = some b ↔ IsFirst q l b := by
  constructor
  · rintro ⟨⟩
    exact ha
  · exact fun hb => congrArg some (ha.unique hb)

end First

/-! ## Candidates -/

/-- A project file has a table for this program that is not empty. -/
def Readers.HasSection (readers : Readers) (bytes : ByteArray) : Prop :=
  ∃ document tools entries, readers.toml.read bytes = .ok document ∧
    document.get? "tool" = some (.map tools) ∧ Entries.get? "mdtree" tools = some (.map entries) ∧
    entries ≠ []

namespace FileSystem

/-- The names of configuration files, in the order in which they count in one directory. -/
def configNames : List String :=
  [".mdtree.toml", ".mdtree.yaml", ".mdtree.yml", ".mdtree.json", "pyproject.toml"]

theorem configNames_eq : configNames = dedicatedNames ++ [projectName] := rfl

/-- A name of a directory stands for a file that applies: any file, but of project files only those
with a table for this program. -/
def IsCandidate (readers : Readers) (fs : FileSystem) (directory : Path) (name : String) : Prop :=
  ∃ bytes, fs.find? (directory ++ [name]) = some (.file bytes) ∧
    (name = projectName → readers.HasSection bytes)

/-- A directory has a candidate. -/
def HasCandidate (readers : Readers) (fs : FileSystem) (directory : Path) : Prop :=
  ∃ name ∈ configNames, fs.IsCandidate readers directory name

/-- A path is that of the first candidate: in the first of some directories that have any, it has
the first name that stands for one. -/
def IsNearest (readers : Readers) (fs : FileSystem) (chain : List Path) (p : Path) : Prop :=
  ∃ directory name, IsFirst (fs.HasCandidate readers) chain directory ∧
    IsFirst (fs.IsCandidate readers directory) configNames name ∧ p = directory ++ [name]

/-- The project file in a directory is UTF-8 and, if it is well formed, holds a table for all tools
or nothing for them. -/
def IsSearchable (readers : Readers) (fs : FileSystem) (directory : Path) : Prop :=
  ∀ bytes, fs.find? (directory ++ [projectName]) = some (.file bytes) →
    (String.fromUTF8? bytes).isSome ∧
    ∀ document, readers.toml.read bytes = .ok document → HasToolTable document

theorem exists_isNearest_iff :
    (∃ p, fs.IsNearest readers chain p) ↔ ∃ d ∈ chain, fs.HasCandidate readers d := by
  rw [← exists_isFirst_iff]
  constructor
  · rintro ⟨p, directory, name, hdirectory, -, -⟩
    exact ⟨directory, hdirectory⟩
  · rintro ⟨directory, hdirectory⟩
    obtain ⟨name, hname⟩ := exists_isFirst_iff.mpr hdirectory.holds
    exact ⟨_, directory, name, hdirectory, hname, rfl⟩

/-- A directory with a candidate hides those farther up. -/
theorem isNearest_cons_of_pos (h : fs.HasCandidate readers directory) :
    fs.IsNearest readers (directory :: chain) p ↔
      ∃ name, IsFirst (fs.IsCandidate readers directory) configNames name ∧
        p = directory ++ [name] := by
  simp [IsNearest, isFirst_cons_of_pos h]

/-- A directory without a candidate hides nothing. -/
theorem isNearest_cons_of_neg (h : ¬ fs.HasCandidate readers directory) :
    fs.IsNearest readers (directory :: chain) p ↔ fs.IsNearest readers chain p := by
  simp only [IsNearest, isFirst_cons_of_neg h]

/-! ## One directory -/

/-- A dedicated file is a candidate wherever there is one. -/
theorem isCandidate_iff_isFile (h : name ∈ dedicatedNames) :
    fs.IsCandidate readers directory name ↔ fs.isFile (directory ++ [name]) = true := by
  have hname : name ≠ projectName := by
    rintro rfl
    exact absurd h (by decide)
  rw [isFile]
  constructor
  · rintro ⟨bytes, hfile, -⟩
    rw [hfile]
  · intro hfile
    split at hfile
    · rename_i bytes hbytes
      exact ⟨bytes, hbytes, fun heq => absurd heq hname⟩
    · cases hfile

theorem projectTable_eq_ok_iff {document entries : Entries} (hne : entries ≠ []) :
    fs.projectTable p document = .ok entries ↔
      ∃ tools, document.get? "tool" = some (.map tools) ∧
        Entries.get? "mdtree" tools = some (.map entries) := by
  rw [projectTable]
  split
  · rename_i hnone
    simp [hnone, Ne.symm hne]
  · rename_i tools htools
    rw [htools, Entries.get]
    simp only [Option.some.injEq, Value.map.injEq, exists_eq_left']
    cases Entries.get? "mdtree" tools with
    | none => simp [Ne.symm hne]
    | some v => cases v <;> simp [Ne.symm hne]
  · rename_i v hother hv
    have hmap : ∀ tools, v ≠ .map tools := hother
    simp [hv, hmap]

/-- A project file has a table for this program where reading it gives one. -/
theorem hasSection_iff :
    readers.HasSection bytes ↔
      ∃ entries, fs.readProject readers p bytes = .ok entries ∧ entries ≠ [] := by
  simp only [readProject, bind_eq_ok, readBytes_eq_ok_iff]
  constructor
  · rintro ⟨document, tools, entries, hread, htools, htable, hne⟩
    have hsection : fs.projectTable p document = .ok entries :=
      (projectTable_eq_ok_iff hne).mpr ⟨tools, htools, htable⟩
    exact ⟨entries, ⟨document, hread, hsection⟩, hne⟩
  · rintro ⟨entries, ⟨document, hread, htable⟩, hne⟩
    obtain ⟨tools, htools, htable⟩ := (projectTable_eq_ok_iff hne).mp htable
    exact ⟨document, tools, entries, hread, htools, htable, hne⟩

/-- Whether a project file counts is found out wherever the search can go on. -/
theorem exists_hasProject_eq (h : fs.IsSearchable readers directory) :
    ∃ b, fs.hasProject readers (directory ++ [projectName]) = .ok b ∧
      (b = true ↔ fs.IsCandidate readers directory projectName) := by
  rw [hasProject]
  split
  · rename_i bytes hfile
    have hcandidate : fs.IsCandidate readers directory projectName ↔ readers.HasSection bytes := by
      constructor
      · rintro ⟨content, hcontent, hsection⟩
        obtain rfl : bytes = content := Entry.file.inj (Option.some.inj (hfile.symm.trans hcontent))
        exact hsection rfl
      · exact fun hsection => ⟨bytes, hfile, fun _ => hsection⟩
    obtain ⟨hutf8, htools⟩ := h bytes hfile
    have hguarded : IsGuarded _ (fs.readProject readers (directory ++ [projectName]) bytes) :=
      isGuarded_readProject_iff.mpr ⟨Readers.decodes_of_utf8 hutf8 .toml, htools⟩
    rw [hcandidate, hasSection_iff]
    cases hread : fs.readProject readers (directory ++ [projectName]) bytes with
    | ok entries => exact ⟨_, rfl, by simp⟩
    | error e =>
      obtain ⟨c, rfl, -⟩ := hguarded e hread
      exact ⟨false, rfl, by simp⟩
  · rename_i hnone
    refine ⟨false, rfl, iff_of_false nofun ?_⟩
    rintro ⟨bytes, hfile, -⟩
    exact hnone bytes hfile

/-- **In one directory** the first name that stands for a candidate is found. -/
theorem exists_findIn_eq (h : fs.IsSearchable readers directory) :
    ∃ r, fs.findIn readers directory = .ok r ∧
      ∀ p, r = some p ↔
        ∃ name, IsFirst (fs.IsCandidate readers directory) configNames name ∧
          p = directory ++ [name] := by
  -- It is enough to say which name is the first, or that there is none.
  suffices hfirst : ∃ first : Option String,
      fs.findIn readers directory = .ok (first.map fun name => directory ++ [name]) ∧
        ∀ name, first = some name ↔ IsFirst (fs.IsCandidate readers directory) configNames name by
    obtain ⟨first, heq, hspec⟩ := hfirst
    refine ⟨_, heq, fun p => ?_⟩
    rw [Option.map_eq_some_iff]
    exact exists_congr fun name => and_congr (hspec name) eq_comm
  have hfiles : ∀ n ∈ dedicatedNames,
      (fs.IsCandidate readers directory n ↔ fs.isFile (directory ++ [n]) = true) :=
    fun _ hn => isCandidate_iff_isFile hn
  rw [findIn]
  split
  · rename_i name hname
    have hfirst := ((find?_eq_some_iff_isFirst hfiles).mp hname).append [projectName]
    exact ⟨some name, rfl, fun _ => hfirst.some_eq_some_iff⟩
  · rename_i hnone
    have hdedicated : ∀ n ∈ dedicatedNames, ¬ fs.IsCandidate readers directory n := by
      intro n hn
      rw [hfiles n hn]
      exact List.find?_eq_none.mp hnone n hn
    obtain ⟨b, hb, hproject⟩ := exists_hasProject_eq h
    refine ⟨if b then some projectName else none, ?_, fun name => ?_⟩
    · simp only [hb, ok_bind]
      cases b <;> rfl
    · rw [configNames_eq, isFirst_concat_iff hdedicated, ← hproject]
      cases b <;> simp [eq_comm]

/-! ## The directories above -/

/-- **In the directories of a chain** the first candidate is found. -/
theorem exists_findInFirst_eq (h : ∀ d ∈ chain, fs.IsSearchable readers d) :
    ∃ r, fs.findInFirst readers chain = .ok r ∧
      ∀ p, r = some p ↔ fs.IsNearest readers chain p := by
  induction chain with
  | nil =>
    refine ⟨none, rfl, fun p => iff_of_false nofun ?_⟩
    rintro ⟨directory, name, hdirectory, -⟩
    exact not_isFirst_nil hdirectory
  | cons d chain ih =>
    rw [List.forall_mem_cons] at h
    obtain ⟨r, hr, hspec⟩ := exists_findIn_eq h.1
    rw [findInFirst, hr]
    cases r with
    | some found =>
      obtain ⟨name, hname, -⟩ := (hspec found).mp rfl
      have hd : fs.HasCandidate readers d := exists_isFirst_iff.mp ⟨name, hname⟩
      exact ⟨some found, rfl, fun p => (hspec p).trans (isNearest_cons_of_pos hd).symm⟩
    | none =>
      obtain ⟨r, hr, hlater⟩ := ih h.2
      have hd : ¬ fs.HasCandidate readers d := by
        rw [HasCandidate, ← exists_isFirst_iff]
        rintro ⟨name, hname⟩
        cases (hspec _).mpr ⟨name, hname, rfl⟩
      exact ⟨r, hr, fun p => (hlater p).trans (isNearest_cons_of_neg hd).symm⟩

/-! ## The search -/

/-- The search upward from a directory: it ends where a file applies, and at the top, which has no
directory above; from any other directory it goes on in the one above. -/
inductive Search (readers : Readers) (fs : FileSystem) : Path → Option Path → Prop where
  | found {directory p : Path} : fs.findIn readers directory = .ok (some p) →
      Search readers fs directory (some p)
  | top : fs.findIn readers [] = .ok none → Search readers fs [] none
  | above {directory : Path} {step : String} {r : Option Path} :
      fs.findIn readers (directory ++ [step]) = .ok none → Search readers fs directory r →
      Search readers fs (directory ++ [step]) r

theorem findInFirst_cons_eq_ok_iff :
    fs.findInFirst readers (directory :: chain) = .ok r ↔
      (∃ p, fs.findIn readers directory = .ok (some p) ∧ r = some p) ∨
        fs.findIn readers directory = .ok none ∧ fs.findInFirst readers chain = .ok r := by
  rw [findInFirst, bind_eq_ok]
  constructor
  · rintro ⟨found, hfound, hr⟩
    cases found with
    | some p => exact .inl ⟨p, hfound, (Except.ok.inj hr).symm⟩
    | none => exact .inr ⟨hfound, hr⟩
  · rintro (⟨p, hfound, rfl⟩ | ⟨hfound, hr⟩)
    · exact ⟨some p, hfound, rfl⟩
    · exact ⟨none, hfound, hr⟩

end FileSystem

namespace Path

/-- Above a directory there is its parent, and what is above that. -/
theorem upward_concat (directory : Path) (step : String) :
    upward (directory ++ [step]) = (directory ++ [step]) :: upward directory := by
  rw [upward, upward, List.length_append, List.length_singleton, List.range_succ,
    List.reverse_append, List.reverse_singleton, List.singleton_append, List.map_cons]
  refine congrArg₂ List.cons (List.take_of_length_le (by simp)) (List.map_congr_left fun n hn => ?_)
  have hlength : n ≤ directory.length := Nat.lt_succ_iff.mp (by simpa using hn)
  rw [List.take_append_of_le_length hlength]

theorem exists_upward_eq_cons (directory : Path) :
    ∃ above, upward directory = directory :: above := by
  cases directory using List.reverseRecOn with
  | nil => exact ⟨[], rfl⟩
  | append_singleton directory step => exact ⟨_, upward_concat directory step⟩

end Path

namespace FileSystem

/-- **The search ends**, and with what a pass over the directories gives, from the starting one up
to the top. -/
theorem search_iff :
    fs.Search readers directory r ↔ fs.findInFirst readers directory.upward = .ok r := by
  constructor
  · intro h
    induction h with
    | found h =>
      obtain ⟨above, hupward⟩ := Path.exists_upward_eq_cons _
      rw [hupward]
      exact findInFirst_cons_eq_ok_iff.mpr (.inl ⟨_, h, rfl⟩)
    | top h => exact findInFirst_cons_eq_ok_iff.mpr (.inr ⟨h, rfl⟩)
    | above h _ ih =>
      rw [Path.upward_concat]
      exact findInFirst_cons_eq_ok_iff.mpr (.inr ⟨h, ih⟩)
  · intro h
    induction directory using List.reverseRecOn with
    | nil =>
      rcases findInFirst_cons_eq_ok_iff.mp h with ⟨p, hfound, rfl⟩ | ⟨hnone, hr⟩
      · exact .found hfound
      · obtain rfl := Except.ok.inj hr
        exact .top hnone
    | append_singleton directory step ih =>
      rw [Path.upward_concat] at h
      rcases findInFirst_cons_eq_ok_iff.mp h with ⟨p, hfound, rfl⟩ | ⟨hnone, hr⟩
      · exact .found hfound
      · exact .above hnone (ih hr)

end FileSystem

/-- **Which configuration file is found.** Where the project files on the way up can be searched,
the search ends, and what it finds is the first candidate: in the nearest directory that has one,
the first of the names. It finds nothing just where there is no candidate at all. -/
theorem nearest_candidate_is_found (readers : Readers) (fs : FileSystem) (start directory : Path)
    (hstart : start.resolve? = some directory)
    (hchain : ∀ d ∈ directory.upward, fs.IsSearchable readers d) :
    ∃ found, fs.Search readers directory found ∧ fs.findConfigWith readers start = .ok found ∧
      (∀ p, found = some p ↔ fs.IsNearest readers directory.upward p) ∧
      (found = none ↔ ∀ d ∈ directory.upward, ¬ fs.HasCandidate readers d) := by
  obtain ⟨found, hfound, hspec⟩ := FileSystem.exists_findInFirst_eq hchain
  refine ⟨found, FileSystem.search_iff.mpr hfound, ?_, hspec, ?_⟩
  · rw [FileSystem.findConfigWith, hstart]
    exact hfound
  · have hnone : found = none ↔ ¬ ∃ p, fs.IsNearest readers directory.upward p := by
      rw [Option.eq_none_iff_forall_ne_some, not_exists]
      exact forall_congr' fun p => not_congr (hspec p)
    rw [hnone, FileSystem.exists_isNearest_iff]
    simp

/-- Below a project file that has a table, one that has none and one that is not well formed. -/
theorem table_at_top_is_found :
    let malformed := "bad = [".toUTF8
    let bare := "[project]\n".toUTF8
    let full := "[tool.mdtree]\nx = 1\n".toUTF8
    let fs : FileSystem := ⟨"top", .directory [("pyproject.toml", .file full),
      ("a", .directory [("pyproject.toml", .file malformed),
        ("b", .directory [("pyproject.toml", .file bare)])])]⟩
    let start : Path := ["a", "..", "a", "b"]
    start.resolve? = some ["a", "b"] ∧
    (∀ d ∈ Path.upward ["a", "b"], fs.IsSearchable .restricted d) ∧
    fs.findConfigWith .restricted start = .ok (some ["pyproject.toml"]) ∧
    fs.IsNearest .restricted (Path.upward ["a", "b"]) ["pyproject.toml"] := by
  intro malformed bare full fs start
  have hstart : start.resolve? = some ["a", "b"] := by decide
  have hmalformed : Readers.restricted.toml.read malformed = .error .malformed := by decide +kernel
  have hbare : Readers.restricted.toml.read bare = .ok [(.str "project", .map [])] := by
    decide +kernel
  have hfull : Readers.restricted.toml.read full =
      .ok [(.str "tool", .map [(.str "mdtree", .map [(.str "x", .int 1)])])] := by decide +kernel
  have hchain : ∀ d ∈ Path.upward ["a", "b"], fs.IsSearchable .restricted d := by
    have hupward : Path.upward ["a", "b"] = [["a", "b"], ["a"], []] := by decide
    rw [hupward]
    intro d hd content hcontent
    simp only [List.mem_cons, List.not_mem_nil, or_false] at hd
    rcases hd with rfl | rfl | rfl
    · obtain rfl : bare = content := Entry.file.inj (Option.some.inj hcontent)
      refine ⟨by decide +kernel, fun document hdocument v hv => ?_⟩
      obtain rfl := Except.ok.inj (hbare.symm.trans hdocument)
      cases hv
    · obtain rfl : malformed = content := Entry.file.inj (Option.some.inj hcontent)
      exact ⟨by decide +kernel, fun document hdocument => by cases hmalformed.symm.trans hdocument⟩
    · obtain rfl : full = content := Entry.file.inj (Option.some.inj hcontent)
      refine ⟨by decide +kernel, fun document hdocument v hv => ?_⟩
      obtain rfl := Except.ok.inj (hfull.symm.trans hdocument)
      exact ⟨_, (Option.some.inj hv).symm⟩
  obtain ⟨found, -, hfind, hnearest, -⟩ :=
    nearest_candidate_is_found .restricted fs start ["a", "b"] hstart hchain
  have hfound : (fs.findConfigWith .restricted start).toOption =
      some (some ["pyproject.toml"]) := by decide +kernel
  rw [hfind] at hfound
  obtain rfl := Option.some.inj hfound
  exact ⟨hstart, hchain, hfind, (hnearest _).mp rfl⟩

end DocumentTree
