import DocumentTree.Document.Json
import DocumentTree.Proofs.Document.FieldFaults

/-!
# Why data is refused

Data is read as a node exactly where nothing is wrong with any value that stands for a node in it,
at whatever depth. What can be wrong with such a value is a fault: it is no map, it names no kind,
what stands for its children holds none, or something is wrong with its fields. Where data is
refused, it is for one of its faults.

Some faults are announced as errors of the data, and the others come to light as failures of the
reader, which looks at fields before it knows that they are there, and at levels before it knows
that they are numbers. What any other field holds is no fault.

## Main definitions

* `Stands v w` — a value stands for a node somewhere in another.
* `Fault`, `DocumentFault` — what is wrong with a value, and with a document.
* `DecodeError.IsAnnounced` — the errors of the data, as opposed to failures of the reader.
-/

namespace DocumentTree

variable {entries : Entries} {e : DecodeError}

namespace RawNode

/-! ## Values that stand for nodes -/

/-- A value stands for a node in another one: it is this value, or stands in one of the items under
its children. -/
inductive Stands : Value → Value → Prop
  | self (v : Value) : Stands v v
  | inside {entries : Entries} {kind : NodeKind} {field : String} {items : List Value}
    {item w : Value} :
    (entries.get "node_type").kind? = some kind → field ∈ kind.form.children? →
    entries.get? field = some (.list items) → item ∈ items → Stands item w →
    Stands (.map entries) w

/-- Why a value holds no children: it has no items, or items that are no maps. -/
def noChildren? : Value → Option DecodeError
  | .list _ | .map [] => none
  | .map (_ :: _) => some .notAMap
  | .str s => if s = "" then none else some .notAMap
  | _ => some .notASequence

/-- What is wrong with a value that stands for a node, apart from the nodes in it. -/
inductive Fault : Value → DecodeError → Prop
  /-- It is no map. -/
  | notAMap {v : Value} : (∀ entries, v ≠ .map entries) → Fault v .notAMap
  /-- It names nothing. -/
  | noKind {entries : Entries} : (entries.get "node_type").isTruthy = false →
    Fault (.map entries) .noKind
  /-- What stands for its kind cannot be a key. -/
  | noKey {entries : Entries} : (entries.get "node_type").isTruthy = true →
    (entries.get "node_type").isKey = false → Fault (.map entries) .noKey
  /-- What stands for its kind can be a key, but names no kind. -/
  | unknownKind {entries : Entries} : (entries.get "node_type").isTruthy = true →
    (entries.get "node_type").isKey = true → (entries.get "node_type").kind? = none →
    Fault (.map entries) (.unknownKind (entries.get "node_type"))
  /-- Something is wrong with the entries of its kind. -/
  | kind {entries : Entries} {kind : NodeKind} {e : DecodeError} :
    (entries.get "node_type").kind? = some kind → KindFault kind entries e →
    Fault (.map entries) e
  /-- What stands for its children holds none. -/
  | children {entries : Entries} {kind : NodeKind} {field : String} {v : Value} {e : DecodeError} :
    (entries.get "node_type").kind? = some kind → field ∈ kind.form.children? →
    entries.get? field = some v → e ∈ noChildren? v → Fault (.map entries) e

/-- Something is wrong with a value that stands for a node in a value. -/
def HasFault (v : Value) (e : DecodeError) : Prop :=
  ∃ w, Stands v w ∧ Fault w e

/-- Something is wrong with what stands under a field as children. -/
def UnderFault (field : String) (entries : Entries) (e : DecodeError) : Prop :=
  ∃ v, entries.get? field = some v ∧
    (e ∈ noChildren? v ∨ ∃ items, v = .list items ∧ ∃ item ∈ items, HasFault item e)

/-- What names a kind is its name. -/
theorem eq_of_kind? {v : Value} {kind : NodeKind} (h : v.kind? = some kind) :
    v = .str kind.name := by
  cases v with
  | str name => exact congrArg Value.str (NodeKind.ofName?_eq_some_iff.mp h)
  | _ => cases h

theorem isTruthy_of_kind? {v : Value} {kind : NodeKind} (h : v.kind? = some kind) :
    v.isTruthy = true := by
  rw [eq_of_kind? h]
  cases kind <;> rfl

theorem isKey_of_kind? {v : Value} {kind : NodeKind} (h : v.kind? = some kind) :
    v.isKey = true := by
  rw [eq_of_kind? h]
  rfl

/-- The faults of a map that names its kind are those of its entries and of its children. -/
theorem hasFault_map_iff {kind : NodeKind} (hkind : (entries.get "node_type").kind? = some kind) :
    HasFault (.map entries) e ↔
      KindFault kind entries e ∨ ∃ field ∈ kind.form.children?, UnderFault field entries e := by
  constructor
  · rintro ⟨w, hstands, hfault⟩
    cases hstands with
    | self =>
      cases hfault with
      | notAMap h => exact absurd rfl (h entries)
      | noKind h => simp [isTruthy_of_kind? hkind] at h
      | noKey _ h => simp [isKey_of_kind? hkind] at h
      | unknownKind _ _ h => simp [hkind] at h
      | kind hname h =>
        obtain rfl := Option.some.inj (hkind.symm.trans hname)
        exact .inl h
      | children hname hfield hget h =>
        obtain rfl := Option.some.inj (hkind.symm.trans hname)
        exact .inr ⟨_, hfield, _, hget, .inl h⟩
    | inside hname hfield hget hitem hstands =>
      obtain rfl := Option.some.inj (hkind.symm.trans hname)
      exact .inr ⟨_, hfield, _, hget, .inr ⟨_, rfl, _, hitem, w, hstands, hfault⟩⟩
  · rintro (h | ⟨field, hfield, v, hget, h | ⟨items, rfl, item, hitem, w, hstands, hfault⟩⟩)
    · exact ⟨_, .self _, .kind hkind h⟩
    · exact ⟨_, .self _, .children hkind hfield hget h⟩
    · exact ⟨w, .inside hkind hfield hget hitem hstands, hfault⟩

/-- A map is refused for its faults if what stands under its fields is. -/
theorem failsFor_ofEntries (hunder : ∀ field,
      FailsFor ((branchesOf entries).under field) (UnderFault field entries)) :
    FailsFor (ofEntries entries (branchesOf entries)) (HasFault (.map entries)) := by
  unfold ofEntries
  by_cases htruthy : (entries.get "node_type").isTruthy = true
  · rw [if_neg (by simp [htruthy])]
    by_cases hkey : (entries.get "node_type").isKey = true
    · rw [if_neg (by simp [hkey])]
      split
      · rename_i kind hkind
        have hkindOf := failsFor_ofKind kind entries (branchesOf entries)
        constructor
        · intro e he
          refine (hasFault_map_iff hkind).mpr ((hkindOf.of_error e he).imp_right ?_)
          rintro ⟨field, hfield, herror⟩
          exact ⟨field, hfield, (hunder field).of_error e herror⟩
        · intro n hn e he
          rcases (hasFault_map_iff hkind).mp he with h | ⟨field, hfield, h⟩
          · exact hkindOf.of_ok n hn e (.inl h)
          · cases hchildren : (branchesOf entries).under field with
            | ok ns => exact (hunder field).of_ok ns hchildren e h
            | error e' => exact hkindOf.of_ok n hn e' (.inr ⟨field, hfield, hchildren⟩)
      · rename_i hkind
        exact .error ⟨_, .self _, .unknownKind htruthy hkey hkind⟩
    · rw [if_pos (by simpa using hkey)]
      exact .error ⟨_, .self _, .noKey htruthy (by simpa using hkey)⟩
  · rw [if_pos (by simpa using htruthy)]
    exact .error ⟨_, .self _, .noKind (by simpa using htruthy)⟩

mutual

/-- **A value is refused for its faults**, and read where it has none. -/
theorem failsFor_ofValue : (v : Value) → FailsFor (ofValue v) (HasFault v)
  | .map entries => failsFor_ofEntries (failsFor_under entries)
  | .null => .error ⟨_, .self _, .notAMap nofun⟩
  | .bool _ => .error ⟨_, .self _, .notAMap nofun⟩
  | .int _ => .error ⟨_, .self _, .notAMap nofun⟩
  | .float _ => .error ⟨_, .self _, .notAMap nofun⟩
  | .str _ => .error ⟨_, .self _, .notAMap nofun⟩
  | .list _ => .error ⟨_, .self _, .notAMap nofun⟩
  | .object .. => .error ⟨_, .self _, .notAMap nofun⟩

theorem failsFor_under : (entries : List (Key × Value)) → (field : String) →
    FailsFor ((branchesOf entries).under field) (UnderFault field entries)
  | [], field => .ok _ (by simp [UnderFault, Entries.get?])
  | (key, v) :: rest, field => by
    have hv := failsFor_childrenOf v
    have hrest := failsFor_under rest field
    rw [branchesOf, Branches.under]
    split
    · rename_i hkey
      exact hv.congr fun e => by simp [UnderFault, Entries.get?, hkey]
    · rename_i hkey
      exact hrest.congr fun e => by simp [UnderFault, Entries.get?, hkey]

theorem failsFor_childrenOf : (v : Value) → FailsFor (childrenOf v) fun e =>
    e ∈ noChildren? v ∨ ∃ items, v = .list items ∧ ∃ item ∈ items, HasFault item e
  | .list items => (failsFor_ofValues items).congr fun e => by simp [noChildren?]
  | .map [] => .ok _ (by simp [noChildren?])
  | .map (_ :: _) => .error (by simp [noChildren?])
  | .str s => by
    rw [childrenOf]
    split
    · rename_i hs
      exact .ok _ (by simp [noChildren?, hs])
    · rename_i hs
      exact .error (by simp [noChildren?, hs])
  | .null => .error (by simp [noChildren?])
  | .bool _ => .error (by simp [noChildren?])
  | .int _ => .error (by simp [noChildren?])
  | .float _ => .error (by simp [noChildren?])
  | .object .. => .error (by simp [noChildren?])

theorem failsFor_ofValues : (vs : List Value) →
    FailsFor (ofValues vs) fun e => ∃ v ∈ vs, HasFault v e
  | [] => .ok _ (by simp)
  | v :: vs => by
    rw [ofValues]
    refine ((failsFor_ofValue v).bind fun _ _ => (failsFor_ofValues vs).bind fun _ _ =>
      FailsFor.pure _).congr fun e => ?_
    simp

end

/-! ## Documents -/

/-- What is wrong with data that stands for a node with the version in front. -/
inductive DocumentFault : Value → DecodeError → Prop
  /-- It is a list. -/
  | list {items : List Value} : DocumentFault (.list items) .notASequence
  /-- It is neither a map nor a list. -/
  | notAMap {v : Value} : (∀ entries, v ≠ .map entries) → (∀ items, v ≠ .list items) →
    DocumentFault v .notAMap
  /-- The version is another one. -/
  | version {entries : Entries} {given : Value} : entries.get? "schema_version" = some given →
    isVersion given = false → DocumentFault (.map entries) (.unsupportedVersion given)
  /-- Something is wrong with a value that stands for a node in it. -/
  | node {entries : Entries} {e : DecodeError} :
    (∀ given, entries.get? "schema_version" = some given → isVersion given = true) →
    HasFault (.map (entries.erase "schema_version")) e → DocumentFault (.map entries) e

/-- With the version that there is, or none, the faults are those of the nodes. -/
theorem documentFault_map_iff
    (hversion : ∀ given, entries.get? "schema_version" = some given → isVersion given = true) :
    DocumentFault (.map entries) e ↔ HasFault (.map (entries.erase "schema_version")) e := by
  constructor
  · rintro (_ | h | h | h)
    · exact absurd rfl (h entries)
    · rename_i hgiven
      rw [hversion _ h] at hgiven
      cases hgiven
    · assumption
  · exact .node hversion

/-- **Data is refused for its faults**, and read where it has none. -/
theorem failsFor_ofVersioned (v : Value) : FailsFor (ofVersioned v) (DocumentFault v) := by
  cases v with
  | map entries =>
    have hnode := failsFor_ofValue (.map (Entries.erase "schema_version" entries))
    rw [ofVersioned]
    cases hget : Entries.get? "schema_version" entries with
    | none =>
      have hversion : isVersion (.int Node.version) = true := by decide
      simp only [Option.getD_none, hversion, if_true]
      exact hnode.congr fun e => (documentFault_map_iff (by simp [hget])).symm
    | some given =>
      simp only [Option.getD_some]
      split
      · rename_i hversion
        exact hnode.congr fun e => (documentFault_map_iff (by simp [hget, hversion])).symm
      · rename_i hversion
        exact .error (.version hget (by simpa using hversion))
  | list items => exact .error .list
  | _ => exact .error (.notAMap nofun nofun)

end RawNode

/-! ## What is announced -/

/-- An error that data is announced to be refused with: its version is not supported, or it is no
document. The others are failures of the reader: a needed field is missing, something else is in
the place of a node, of children, of metadata or of a level, or something that can be no key is in
the place of one. -/
def DecodeError.IsAnnounced : DecodeError → Prop
  | unsupportedVersion _ | noKind | unknownKind _ | levelOutOfRange _
  | metadata (.notAPair ..) => True
  | missing _ | notAMap | notASequence | noKey | wrongType _ | metadata .notASequence
  | metadata .noKey => False

/-- Errors over texts that are no JSON are announced, too. -/
def JsonError.IsAnnounced : JsonError → Prop
  | malformed => True
  | decode e => e.IsAnnounced

namespace RawNode

/-- A text denotes a node, or it is refused with an announced error. -/
def IsReadOrAnnounced (t : Text) : Prop :=
  (∃ n, ofJson t = .ok n) ∨ ∃ error, ofJson t = .error error ∧ error.IsAnnounced

theorem ofJson_of_read? {t : Text} {v : Value} (h : Json.read? t = some v) :
    ofJson t = (ofVersioned v).mapError .decode := by
  rw [ofJson, h]

/-- **JSON is read, or refused for a fault.** A text that is no JSON is refused as announced. JSON
data denotes a node exactly where no value that stands for a node in it has a fault, at whatever
depth, and is refused for one of its faults otherwise. So where all its faults are announced it is
read or refused as announced. Where it has faults and none of them is announced, it is refused with
an error that is not announced either. -/
theorem json_is_read_or_refused_for_faults (t : Text) :
    (Json.read? t = none → IsReadOrAnnounced t) ∧
    ∀ v, Json.read? t = some v →
      (((∃ n, ofJson t = .ok n) ∧ ∀ e, ¬ DocumentFault v e) ∨
        ∃ e, ofJson t = .error (.decode e) ∧ DocumentFault v e) ∧
      ((∀ e, DocumentFault v e → e.IsAnnounced) → IsReadOrAnnounced t) ∧
      ((∃ e, DocumentFault v e) → (∀ e, DocumentFault v e → ¬ e.IsAnnounced) →
        ¬ IsReadOrAnnounced t) := by
  constructor
  · intro hread
    exact .inr ⟨.malformed, by rw [ofJson, hread], trivial⟩
  intro v hread
  have hfails := failsFor_ofVersioned v
  have hjson := ofJson_of_read? hread
  cases hresult : ofVersioned v with
  | ok n =>
    rw [hresult] at hjson
    have hnone := hfails.of_ok n hresult
    exact ⟨.inl ⟨⟨n, hjson⟩, hnone⟩, fun _ => .inl ⟨n, hjson⟩, fun ⟨e, he⟩ => absurd he (hnone e)⟩
  | error e =>
    rw [hresult] at hjson
    have hfault := hfails.of_error e hresult
    refine ⟨.inr ⟨e, hjson, hfault⟩, fun h => .inr ⟨_, hjson, h e hfault⟩, fun _ hother => ?_⟩
    rintro (⟨n, hn⟩ | ⟨error, herror, hannounced⟩)
    · rw [hjson] at hn
      cases hn
    · obtain rfl := Except.error.inj (hjson.symm.trans herror)
      exact hother e hfault hannounced

/-- A text whose content is a number is read. -/
example : (ofJson "\x7b\"node_type\": \"Text\", \"content\": 5\x7d".toList).isOk = true := by
  decide +kernel

/-- A document that has nothing but children has the faults of its children. -/
theorem hasFault_document_iff {children : List Value}
    (hkind : entries.get "node_type" = .str "Document") (hmetadata : entries.get? "metadata" = none)
    (hchildren : entries.get? "children" = some (.list children)) :
    HasFault (.map entries) e ↔ ∃ v ∈ children, HasFault v e := by
  have hname : (entries.get "node_type").kind? = some .document := by
    rw [hkind]
    rfl
  rw [hasFault_map_iff hname]
  simp [KindFault, NodeKind.form, LevelFault, MetadataFault, UnderFault, hmetadata, hchildren,
    noChildren?]

/-- A document with one child, as data. -/
def documentOver (child : Entries) : Value :=
  .map [("node_type", .str "Document"), ("children", .list [.map child])]

theorem documentFault_documentOver (child : Entries) :
    DocumentFault (documentOver child) e ↔ HasFault (.map child) e := by
  have hversion : Entries.get? "schema_version"
      [("node_type", .str "Document"), ("children", .list [.map child])] = none := rfl
  have hchildren : Entries.get? "children" (Entries.erase "schema_version"
      [("node_type", .str "Document"), ("children", .list [.map child])]) =
        some (.list [.map child]) := rfl
  rw [documentOver, documentFault_map_iff (by simp [hversion]),
    hasFault_document_iff rfl rfl hchildren]
  simp

/-- The JSON text of a document with one child. -/
def documentText (child : String) : Text :=
  ("\x7b\"node_type\": \"Document\", \"children\": [" ++ child ++ "]\x7d").toList

/-- The JSON text of a heading below the six levels. -/
def levelTooHigh : String :=
  "\x7b\"node_type\": \"Heading\", \"level\": 7.5\x7d"

theorem nested_faults_decide_the_refusal :
    (Json.read? "\x7b\"node_type\": ".toList = none ∧
      IsReadOrAnnounced "\x7b\"node_type\": ".toList) ∧
    (∃ v, Json.read? (documentText levelTooHigh) = some v ∧
      (∀ e, DocumentFault v e → e.IsAnnounced) ∧
      IsReadOrAnnounced (documentText levelTooHigh)) ∧
    (∃ v, Json.read? (documentText "\x7b\"node_type\": \"Text\"\x7d") = some v ∧
      (∃ e, DocumentFault v e) ∧ (∀ e, DocumentFault v e → ¬ e.IsAnnounced) ∧
      ¬ IsReadOrAnnounced (documentText "\x7b\"node_type\": \"Text\"\x7d")) := by
  let level : Value := .float (.ofRatio false 15 2)
  let heading : Entries := [("node_type", .str "Heading"), ("level", level)]
  have hlevel : ∀ e, DocumentFault (documentOver heading) e ↔ e = .levelOutOfRange level :=
    fun e => by
    have hkind : (Entries.get "node_type" heading).kind? = some .heading := rfl
    have hentry : Entries.get? "level" heading = some level := rfl
    have hmetadata : Entries.get? "metadata" heading = none := rfl
    have hcontent : Entries.get? "content" heading = none := rfl
    have hwithin : level.within? 1 6 = some false := by decide +kernel
    rw [documentFault_documentOver, hasFault_map_iff hkind]
    simp [KindFault, NodeKind.form, LevelFault, MetadataFault, FieldForm.IsMissing,
      FieldForm.needed, UnderFault, hentry, hmetadata, hcontent, hwithin]
  have hmissing : ∀ e, DocumentFault (documentOver [("node_type", .str "Text")]) e ↔
      e = .missing "content" := fun e => by
    have hkind : (Entries.get "node_type" [("node_type", .str "Text")]).kind? = some .text := rfl
    rw [documentFault_documentOver, hasFault_map_iff hkind]
    simp [KindFault, NodeKind.form, LevelFault, MetadataFault, FieldForm.IsMissing,
      FieldForm.needed, Entries.get?]
  have hnoJson : Json.read? "\x7b\"node_type\": ".toList = none := by decide +kernel
  have hlevelJson : Json.read? (documentText levelTooHigh) = some (documentOver heading) := by
    decide +kernel
  have hmissingJson : Json.read? (documentText "\x7b\"node_type\": \"Text\"\x7d") =
      some (documentOver [("node_type", .str "Text")]) := by decide +kernel
  refine ⟨⟨hnoJson, (json_is_read_or_refused_for_faults _).1 hnoJson⟩,
    ⟨_, hlevelJson, ?_⟩, ⟨_, hmissingJson, ?_⟩⟩
  · have hannounced : ∀ e, DocumentFault (documentOver heading) e → e.IsAnnounced := fun e he => by
      rw [(hlevel e).mp he]
      trivial
    exact ⟨hannounced, ((json_is_read_or_refused_for_faults _).2 _ hlevelJson).2.1 hannounced⟩
  · have hfault := (hmissing _).mpr rfl
    have hother : ∀ e, DocumentFault (documentOver [("node_type", .str "Text")]) e →
        ¬ e.IsAnnounced := fun e he => by
      rw [(hmissing e).mp he]
      exact id
    exact ⟨⟨_, hfault⟩, hother,
      ((json_is_read_or_refused_for_faults _).2 _ hmissingJson).2.2 ⟨_, hfault⟩ hother⟩

/-- A text without its content is refused with an error that is not announced. -/
theorem some_json_is_refused_unannounced : ¬ ∀ t, IsReadOrAnnounced t := by
  intro h
  have hresult : ofJson "\x7b\"node_type\": \"Text\"\x7d".toList =
      .error (.decode (.missing "content")) := by
    have hread : Json.read? "\x7b\"node_type\": \"Text\"\x7d".toList =
        some (.map [("node_type", .str "Text")]) := by decide +kernel
    rw [ofJson_of_read? hread]
    rfl
  rcases h "\x7b\"node_type\": \"Text\"\x7d".toList with ⟨n, hn⟩ | ⟨error, herror, hannounced⟩
  · rw [hresult] at hn
    cases hn
  · obtain rfl := Except.error.inj (hresult.symm.trans herror)
    exact hannounced

end RawNode

end DocumentTree
