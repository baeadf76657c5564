import CircuitPicture.IoError

/-! # File trees

Files and directories by their place below the root. A path is a text; following it from a directory
leads to a place or ends in the error that the operating system reports. -/

namespace CircuitPicture

/-- The names from the root down to a file or directory. -/
abbrev Place := List String

inductive Device where
  | null
  | full
  | output
deriving DecidableEq, Repr

inductive FileEntry where
  | file (content : ByteArray)
  | directory
  | device (d : Device)
deriving BEq

structure Path where
  isAbsolute : Bool
  steps : List String
  /-- Whether the path ends in a slash, which only a directory may. -/
  endsInSlash : Bool
deriving DecidableEq, Repr

namespace Path

/-- The longest name in a directory, in bytes. -/
def maxName : Nat := 255

/-- The longest path, in bytes. -/
def maxLength : Nat := 4095

/-- Slashes cut a path into its steps, any number of them in a row. -/
def ofText (text : String) : Except IoError Path :=
  let runs := text.toList.splitBy fun a b => (a == '/') == (b == '/')
  if text.toList.contains '\x00' then .error .nulInPath
  else if text.isEmpty then .error .notFound
  else if maxLength < text.utf8ByteSize then .error .nameTooLong
  else .ok {
    isAbsolute := text.toList.head? == some '/'
    steps := (runs.filter fun run => run.head? != some '/').map String.ofList
    endsInSlash := text.toList.getLast? == some '/' }

/-- The place that the path starts from if relative paths start from `directory`. -/
def start (p : Path) (directory : Place) : Place := if p.isAbsolute then [] else directory

end Path

structure FileTree where
  entries : List (Place × FileEntry)

namespace FileTree

/-- What stands at a place. The root is always there. -/
def lookup? (t : FileTree) (place : Place) : Option FileEntry :=
  if place = [] then some .directory else t.entries.lookup place

def put (t : FileTree) (place : Place) (entry : FileEntry) : FileTree :=
  ⟨(place, entry) :: t.entries.filter fun e => e.1 != place⟩

def checkDirectory (t : FileTree) (place : Place) : Except IoError Unit :=
  match t.lookup? place with
  | some .directory => .ok ()
  | some _ => .error .notDirectory
  | none => .error .notFound

/-- Follows steps, each of which has to start in a directory. -/
def walk (t : FileTree) : Place → List String → Except IoError Place
  | here, [] => .ok here
  | here, step :: rest => do
    t.checkDirectory here
    if step = "." then t.walk here rest
    else if step = ".." then t.walk here.dropLast rest
    else if Path.maxName < step.utf8ByteSize then .error .nameTooLong
    else t.walk (here ++ [step]) rest

def find (t : FileTree) (directory : Place) (text : String) : Except IoError FileEntry := do
  let path ← Path.ofText text
  let place ← t.walk (path.start directory) path.steps
  if path.endsInSlash then t.checkDirectory place
  match t.lookup? place with
  | some entry => return entry
  | none => .error .notFound

/-- The place of the file that a path names, whether or not there is one; it may not be a
directory. -/
def findForWriting (t : FileTree) (directory : Place) (text : String) : Except IoError Place := do
  let path ← Path.ofText text
  let parent ← t.walk (path.start directory) path.steps.dropLast
  t.checkDirectory parent
  match path.steps.getLast? with
  | none => .error .isDirectory
  | some name =>
    if path.endsInSlash || name == "." || name == ".." then .error .isDirectory
    else if Path.maxName < name.utf8ByteSize then .error .nameTooLong
    else
      match t.lookup? (parent ++ [name]) with
      | some .directory => .error .isDirectory
      | _ => return parent ++ [name]

theorem lookup_filter_ne {place other : Place} (h : other ≠ place)
    (entries : List (Place × FileEntry)) :
    (entries.filter fun e => e.1 != place).lookup other = entries.lookup other := by
  induction entries with
  | nil => rfl
  | cons e entries ih =>
    obtain ⟨key, entry⟩ := e
    by_cases hkey : key = place
    · have : (other == place) = false := by simpa using h
      simpa [hkey, List.lookup_cons, this] using ih
    · simp [hkey, List.lookup_cons, ih]

theorem lookup?_put (t : FileTree) {place : Place} (entry : FileEntry) (h : place ≠ [])
    (other : Place) :
    (t.put place entry).lookup? other = if other = place then some entry else t.lookup? other := by
  unfold lookup? put
  by_cases hroot : other = []
  · simp [hroot, h.symm]
  · by_cases hplace : other = place
    · simp [hplace, h]
    · have hother : (other == place) = false := by simpa using hplace
      simp [hroot, hplace, List.lookup_cons, hother, lookup_filter_ne hplace]

end FileTree

end CircuitPicture
