import DocumentTree.Json.Reader
import DocumentTree.Toml.Reader
import DocumentTree.Yaml.Reader

/-!
# Readers of configuration formats

A file holds bytes. A reader of a format makes a value of them, or reports why it makes none: either
they are no UTF-8, or the text is not well formed. Configuration is loaded in the same way whatever
the readers make of a file, so they are an argument of loading. The readers that come with this
library take all of JSON, but only a part of TOML and of YAML.

## Main definitions

* `ReadFault`, `Reader` — reading the bytes of a file.
* `Reader.ofText` — the reader that a reader of texts gives.
* `Readers` — one reader for each format.
* `Readers.restricted` — readers for the part of the formats that configuration is written in.
-/

namespace DocumentTree

/-- Why a reader makes nothing of the bytes of a file. -/
inductive ReadFault where
  /-- The bytes are no UTF-8. -/
  | undecodable
  /-- The text is not well formed. -/
  | malformed
  deriving DecidableEq

/-- A reader of the bytes of files. -/
structure Reader (α : Type) where
  /-- What the reader makes of some bytes. -/
  read : ByteArray → Except ReadFault α
  /-- It takes no UTF-8 for other bytes. -/
  not_utf8 : ∀ bytes, read bytes = .error .undecodable → String.fromUTF8? bytes = none

/-- The reader that decodes the bytes before it reads the text. -/
def Reader.ofText {α : Type} (read? : Text → Option α) : Reader α where
  read bytes :=
    match String.fromUTF8? bytes with
    | none => .error .undecodable
    | some s =>
      match read? s.toList with
      | none => .error .malformed
      | some v => .ok v
  not_utf8 bytes h := by
    split at h
    · assumption
    · split at h <;> cases h

/-- A reader for each format. A TOML document is always a map; the others hold any value. -/
structure Readers where
  toml : Reader Entries
  json : Reader Value
  yaml : Reader Value

/-- Readers for the part of the formats that configuration is written in. What a document of TOML or
YAML holds beyond this part is reported like text that is not well formed, so they agree with
complete readers on the documents of this part only. -/
def Readers.restricted : Readers where
  toml := .ofText Toml.readRestricted?
  json := .ofText Json.read?
  yaml := .ofText Yaml.readRestricted?

end DocumentTree
