import CircuitPicture.Primitive

/-! # Box names

A box name becomes a LaTeX command, so it is a word of ASCII letters. Names set one by one are
checked at once (`assign`, `set`); names that come from a configuration file are checked together
(`validate`). -/

namespace CircuitPicture

/-- Whether a name can stand for a box: it is a word of ASCII letters. -/
def isBoxName (name : String) : Bool :=
  !name.toList.isEmpty && name.toList.all Char.isAlpha

structure InvalidName where
  name : String
  primitive : Primitive
deriving DecidableEq, Repr

namespace InvalidName

def message (e : InvalidName) : String :=
  "invalid box name `" ++ e.name ++ "` for primitive `" ++ e.primitive.defaultName ++
    "`: use ASCII letters only"

end InvalidName

/-- The box names that differ from the default ones. -/
structure BoxNames where
  override : Primitive → Option String

namespace BoxNames

def standard : BoxNames := ⟨fun _ => none⟩

def name (names : BoxNames) (p : Primitive) : String := (names.override p).getD p.defaultName

/-- The names with that of `p` replaced, whatever the name is. -/
def insert (names : BoxNames) (p : Primitive) (name : String) : BoxNames :=
  ⟨fun q => if q = p then some name else names.override q⟩

def check (p : Primitive) (name : String) : Except InvalidName Unit :=
  if isBoxName name then .ok () else .error ⟨name, p⟩

/-- Gives `p` a name in place, unless the name is refused. -/
def assign (p : Primitive) (name : String) : ExceptT InvalidName (StateM BoxNames) Unit := do
  MonadExcept.ofExcept (check p name)
  modify fun names => names.insert p name

/-- The names after `p` has been given a name. -/
def set (names : BoxNames) (p : Primitive) (name : String) : Except InvalidName BoxNames :=
  let (result, names) := assign p name names
  result.map fun () => names

/-- The bad name that a primitive has been given, if it has been given one. -/
def fault? (names : BoxNames) (p : Primitive) : Option InvalidName :=
  (names.override p).bind fun name => if isBoxName name then none else some ⟨name, p⟩

/-- The first bad name, in the order of `Primitive.all`. -/
def firstInvalid? (names : BoxNames) : Option InvalidName := Primitive.all.findSome? names.fault?

def validate (names : BoxNames) : Except InvalidName Unit :=
  match names.firstInvalid? with
  | none => .ok ()
  | some e => .error e

def isStandard (names : BoxNames) : Bool := Primitive.all.all fun p => (names.override p).isNone

theorem assign_eq (names : BoxNames) (p : Primitive) (name : String) : assign p name names =
    if isBoxName name then (.ok (), names.insert p name) else (.error ⟨name, p⟩, names) := by
  unfold assign check
  split <;> rfl

end BoxNames

end CircuitPicture
