import DocumentTree.Traced
import DocumentTree.Value.Display

/-!
# Options of the Markdown output

Nine settings, each with a few allowed values. Options come in as free-form data under their long
names or, in a mapping, under aliases in mixed case; they are checked before anything is built, so a
value of type `Options` holds allowed settings only.

## Main definitions

* `Options` — allowed settings.
* `RawOptions` — settings not yet checked; `RawOptions.check` checks them.
* `Options.ofMapping`, `Options.ofFields`, `Options.update` — options from data.
* `GivenOptions.resolve` — options from what a caller gives, with overrides.
* `OptionsError` — why settings are refused, and its wording.
-/

namespace DocumentTree.Markdown

/-- The marker of bullet lists. -/
inductive Bullet where
  | dash
  | star
  | plus
  deriving DecidableEq, Repr

/-- The spacing behind a list marker: one space, or up to the next tab stop. -/
inductive ListIndent where
  | oneSpace
  | tabWidth
  deriving DecidableEq, Repr

/-- The character of thematic breaks. -/
inductive Rule where
  | dash
  | star
  | underscore
  deriving DecidableEq, Repr

/-- The character of emphasis. -/
inductive Stress where
  | star
  | underscore
  deriving DecidableEq, Repr

/-- The character of code fences. -/
inductive Fence where
  | backtick
  | tilde
  deriving DecidableEq, Repr

/-- The character of a bullet. -/
def Bullet.char : Bullet → Char
  | dash => '-'
  | star => '*'
  | plus => '+'

/-- The character of a rule. -/
def Rule.char : Rule → Char
  | dash => '-'
  | star => '*'
  | underscore => '_'

/-- The character of a stress mark. -/
def Stress.char : Stress → Char
  | star => '*'
  | underscore => '_'

/-- The character of a fence. -/
def Fence.char : Fence → Char
  | backtick => '`'
  | tilde => '~'

/-- The name of an indent. -/
def ListIndent.name : ListIndent → String
  | oneSpace => "one-space"
  | tabWidth => "tab-width"

/-- Allowed settings. -/
structure Options where
  /-- The marker of bullet lists. -/
  bulletMarker : Bullet := .dash
  /-- The spacing behind list markers. -/
  listIndent : ListIndent := .oneSpace
  /-- The character of thematic breaks. -/
  ruleStyle : Rule := .dash
  /-- Whether code blocks without a language are fenced; they are indented otherwise. -/
  useFences : Bool := true
  /-- The mark of emphasis. -/
  emphasisMarker : Stress := .star
  /-- The mark that is doubled for strong emphasis. -/
  strongMarker : Stress := .star
  /-- The character of code fences. -/
  codeFenceChar : Fence := .backtick
  /-- Whether text is escaped. -/
  escapeSpecial : Bool := true
  /-- Whether pipes in cells are escaped. -/
  tablePipeEscape : Bool := true
  deriving DecidableEq, Repr

/-! ## Fields -/

/-- The settings, in the order in which they are listed. -/
inductive Field where
  | bulletMarker
  | listIndent
  | ruleStyle
  | useFences
  | emphasisMarker
  | strongMarker
  | codeFenceChar
  | escapeSpecial
  | tablePipeEscape
  deriving DecidableEq, Repr

namespace Field

/-- All settings in order. -/
def all : List Field :=
  [bulletMarker, listIndent, ruleStyle, useFences, emphasisMarker, strongMarker, codeFenceChar,
    escapeSpecial, tablePipeEscape]

/-- The name of a setting. -/
def name : Field → String
  | bulletMarker => "bullet_marker"
  | listIndent => "list_indent"
  | ruleStyle => "rule_style"
  | useFences => "use_fences"
  | emphasisMarker => "emphasis_marker"
  | strongMarker => "strong_marker"
  | codeFenceChar => "code_fence_char"
  | escapeSpecial => "escape_special"
  | tablePipeEscape => "table_pipe_escape"

/-- The name of a setting in mixed case, which mappings may use as well. -/
def aliasName : Field → String
  | bulletMarker => "bulletMarker"
  | listIndent => "listIndent"
  | ruleStyle => "ruleStyle"
  | useFences => "useFences"
  | emphasisMarker => "emphasisMarker"
  | strongMarker => "strongMarker"
  | codeFenceChar => "codeFenceChar"
  | escapeSpecial => "escapeSpecial"
  | tablePipeEscape => "tablePipeEscape"

/-- The setting with a name. -/
def ofName? (key : Key) : Option Field :=
  all.find? fun f => key = f.name

/-- The setting with a name or an alias. -/
def ofKey? (key : Key) : Option Field :=
  all.find? fun f => key = f.name || key = f.aliasName

/-- The values that a setting allows, in the order in which messages list them; a flag allows the
two truth values and has no such list. -/
def choices : Field → List String
  | bulletMarker => ["-", "*", "+"]
  | listIndent => ["one-space", "tab-width"]
  | ruleStyle => ["-", "*", "_"]
  | emphasisMarker => ["*", "_"]
  | strongMarker => ["*", "_"]
  | codeFenceChar => ["`", "~"]
  | useFences | escapeSpecial | tablePipeEscape => []

end Field

/-- Why settings are refused. -/
inductive OptionsError where
  /-- A setting is none of its choices. -/
  | notAChoice (field : Field) (given : Value)
  /-- A flag is no truth value. -/
  | notAFlag (field : Field) (given : Value)
  /-- A setting is given by name, and there is none of this name. -/
  | unknownField (name : Key)
  /-- The options are neither options nor a mapping. -/
  | notOptions (given : Value)

/-- The wording of the error, where it has one. -/
def OptionsError.message? : OptionsError → Option String
  | notAChoice field given =>
    let choices := field.choices.map fun s => (Value.str s).quotedString
    some (field.name ++ " must be one of " ++ ", ".intercalate choices ++ ", got "
      ++ given.quotedString)
  | notAFlag field given => some (field.name ++ " must be a bool, got " ++ given.typeName)
  | unknownField _ => none
  | notOptions given =>
    some ("markdown expected options of type 'MarkdownRendererOptions' but received '"
      ++ given.typeName ++ "'.")

/-! ## Checking -/

/-- Settings as data, not yet checked. -/
abbrev RawOptions := Field → Value

namespace RawOptions

/-- The settings with another value for one of them. -/
def set (raw : RawOptions) (field : Field) (v : Value) : RawOptions :=
  fun f => if f = field then v else raw f

/-- The choice that a setting makes among values with names. -/
def choice {α : Type} (raw : RawOptions) (field : Field) (options : List (String × α)) :
    Except OptionsError α :=
  match raw field with
  | .str s =>
    match options.find? fun option => option.1 = s with
    | some option => .ok option.2
    | none => .error (.notAChoice field (raw field))
  | v => .error (.notAChoice field v)

/-- A setting that is a flag. -/
def flag (raw : RawOptions) (field : Field) : Except OptionsError Bool :=
  match raw field with
  | .bool b => .ok b
  | v => .error (.notAFlag field v)

/-- The options that the settings are, if all are allowed. Choices are checked before flags. -/
def check (raw : RawOptions) : Except OptionsError Options := do
  let bulletMarker ←
    raw.choice .bulletMarker [("-", Bullet.dash), ("*", Bullet.star), ("+", Bullet.plus)]
  let listIndent ←
    raw.choice .listIndent [("one-space", ListIndent.oneSpace), ("tab-width", ListIndent.tabWidth)]
  let ruleStyle ←
    raw.choice .ruleStyle [("-", Rule.dash), ("*", Rule.star), ("_", Rule.underscore)]
  let emphasisMarker ←
    raw.choice .emphasisMarker [("*", Stress.star), ("_", Stress.underscore)]
  let strongMarker ← raw.choice .strongMarker [("*", Stress.star), ("_", Stress.underscore)]
  let codeFenceChar ← raw.choice .codeFenceChar [("`", Fence.backtick), ("~", Fence.tilde)]
  let useFences ← raw.flag .useFences
  let escapeSpecial ← raw.flag .escapeSpecial
  let tablePipeEscape ← raw.flag .tablePipeEscape
  return { bulletMarker, listIndent, ruleStyle, useFences, emphasisMarker, strongMarker,
           codeFenceChar, escapeSpecial, tablePipeEscape }

end RawOptions

namespace Options

/-- The value of a setting. -/
def field (o : Options) : RawOptions
  | .bulletMarker => .str o.bulletMarker.char.toString
  | .listIndent => .str o.listIndent.name
  | .ruleStyle => .str o.ruleStyle.char.toString
  | .useFences => .bool o.useFences
  | .emphasisMarker => .str o.emphasisMarker.char.toString
  | .strongMarker => .str o.strongMarker.char.toString
  | .codeFenceChar => .str o.codeFenceChar.char.toString
  | .escapeSpecial => .bool o.escapeSpecial
  | .tablePipeEscape => .bool o.tablePipeEscape

/-- The settings as a map, in order. -/
def toEntries (o : Options) : Entries :=
  Field.all.map fun f => (.str f.name, o.field f)

/-- The options with settings replaced by name. Every name must be that of a setting. -/
def update (o : Options) (settings : Entries) : Except OptionsError Options := do
  let raw ← settings.foldlM (fun raw (setting : Key × Value) =>
    match Field.ofName? setting.1 with
    | some f => .ok (RawOptions.set raw f setting.2)
    | none => .error (.unknownField setting.1)) o.field
  RawOptions.check raw

/-- Options from settings by name. -/
def ofFields (settings : Entries) : Except OptionsError Options :=
  update {} settings

/-- The keys of a mapping that name no setting. -/
def unknownKeys (mapping : Entries) : List Key :=
  (mapping.filter fun entry => (Field.ofKey? entry.1).isNone).map Prod.fst

/-- The settings that a mapping gives: of several entries for one setting the last one counts. -/
def rawOfMapping (mapping : Entries) : RawOptions :=
  mapping.foldl (fun raw entry =>
    match Field.ofKey? entry.1 with
    | some f => raw.set f entry.2
    | none => raw) ({} : Options).field

/-- Options from a mapping, whose keys are names or aliases. Other keys are ignored and reported. -/
def ofMapping (mapping : Entries) : Traced Key OptionsError Options :=
  ⟨unknownKeys mapping, (rawOfMapping mapping).check⟩

/-- The wording of the report on an ignored key. -/
def ignoredKeyMessage (key : Key) : String :=
  "Ignoring unknown option '" ++ key.plain ++ "'"

end Options

/-- Options as a caller gives them. -/
inductive GivenOptions where
  /-- As free-form data: null for the default, or a mapping. -/
  | data (v : Value)
  /-- As options that are built already. -/
  | built (o : Options)

/-- The options that a caller gives, with single settings overriding them. The ignored keys of a
mapping are reported. -/
def GivenOptions.resolve (given : GivenOptions) (overrides : Entries) :
    Traced Key OptionsError Options := do
  let base ←
    match given with
    | .data .null => pure {}
    | .data (.map mapping) => Options.ofMapping mapping
    | .data v => .refuse (.notOptions v)
    | .built o => pure o
  if overrides.isEmpty then pure base else .lift (base.update overrides)

/-- The options for a writer that takes no mapping. -/
def GivenOptions.direct (given : GivenOptions) : Except OptionsError Options :=
  match given with
  | .data .null => .ok {}
  | .data v => .error (.notOptions v)
  | .built o => .ok o

end DocumentTree.Markdown
