import CircuitPicture.Config
import CircuitPicture.Toml.Document

/-! # Configuration from TOML

A document has a section for the picture, one for the vocabulary and one for the box names, each of
them optional. A section is a table, or an array that lists its values by position; other entries
are skipped, but a box name must belong to a primitive. -/

namespace CircuitPicture

open Toml

namespace Config

/-- Whether the entries that have none of these names can be skipped: nothing is wrong with the
numbers in them. -/
def canSkipOthers (names : List String) (entries : Entries) : Bool :=
  entries.all fun entry => names.contains entry.1 || entry.2.isReadable

def fields? (names : List String) : Value → Option (List (Option Value))
  | .table _ entries =>
    if canSkipOthers names entries then some (names.map fun name => entries.lookup name) else none
  | .array _ items => some (names.zipIdx.map fun field => items[field.2]?)
  | .dateTime _ => some (names.map fun _ => none)
  | _ => none

/-- The decoded value, or the standard one if there is none to decode. -/
def orElse {α : Type} (decode : Value → Option α) (standard : α) : Option Value → Option α
  | none => some standard
  | some value => decode value

def string? : Value → Option String
  | .string text => some text
  | _ => none

def boolean? : Value → Option Bool
  | .boolean value => some value
  | _ => none

/-- The vocabulary by its name, which may also be the key of an empty table or array. -/
def kind? : Value → Option Vocabulary
  | .string name => Vocabulary.ofName? name
  | .table _ [(name, .table _ [])] => Vocabulary.ofName? name
  | .table _ [(name, .array _ [])] => Vocabulary.ofName? name
  | _ => none

def picture? (value : Value) : Option PictureSettings :=
  match fields? ["unit_length", "standalone", "preamble"] value with
  | some [unitLength, standalone, preamble] => do
    let unitLength ← orElse string? PictureSettings.standard.unitLength unitLength
    let standalone ← orElse boolean? PictureSettings.standard.standalone standalone
    let preamble ← orElse (fun v => (string? v).map some) none preamble
    return ⟨unitLength, standalone, preamble⟩
  | _ => none

def vocabulary? (value : Value) : Option Vocabulary :=
  match fields? ["kind"] value with
  | some [kind] => orElse kind? Vocabulary.standard kind
  | _ => none

def names? : Value → Option BoxNames
  | .table _ entries =>
    entries.foldlM (fun names entry => do
      let primitive ← Primitive.ofKey? entry.1
      let name ← string? entry.2
      return names.insert primitive name) BoxNames.standard
  | _ => none

/-- The configuration of a document, which is not validated. -/
def ofEntries? (entries : Entries) : Option Config := do
  guard (canSkipOthers ["picture", "vocabulary", "primitives"] entries)
  let picture ← orElse picture? PictureSettings.standard (entries.lookup "picture")
  let vocabulary ← orElse vocabulary? Vocabulary.standard (entries.lookup "vocabulary")
  let names ← orElse names? BoxNames.standard (entries.lookup "primitives")
  return ⟨picture, vocabulary, names⟩

def ofToml? (text : String) : Option Config := (Toml.parse? text).bind ofEntries?

end Config

end CircuitPicture
