import CircuitPicture.BoxNames
import CircuitPicture.Vocabulary
import CircuitPicture.Text.WhiteSpace

/-! # Configuration

What a picture looks like apart from the circuit: the unit, the document around it, the vocabulary
and the names of the boxes. -/

namespace CircuitPicture

structure PictureSettings where
  /-- The length of one picture unit, any LaTeX dimension. -/
  unitLength : String
  standalone : Bool
  /-- The file that the document reads first, expected to define the boxes. -/
  preamble : Option String
deriving DecidableEq, Repr

namespace PictureSettings

def standard : PictureSettings := ⟨".2in", false, none⟩

end PictureSettings

structure Config where
  picture : PictureSettings
  vocabulary : Vocabulary
  names : BoxNames

inductive ConfigFault where
  | blankUnitLength
  | badName (error : InvalidName)
deriving DecidableEq, Repr

namespace ConfigFault

def message : ConfigFault → String
  | blankUnitLength => "picture.unit_length must not be empty"
  | badName error => error.message

end ConfigFault

namespace Config

def standard : Config := ⟨.standard, .standard, .standard⟩

def withVocabulary (c : Config) (v : Vocabulary) : Config := { c with vocabulary := v }

def withStandalone (c : Config) (standalone : Bool) : Config :=
  { c with picture := { c.picture with standalone := standalone } }

def validate (c : Config) : Except ConfigFault Unit :=
  if isBlank c.picture.unitLength then .error .blankUnitLength
  else
    match c.names.validate with
    | .ok () => .ok ()
    | .error e => .error (.badName e)

end Config

end CircuitPicture
