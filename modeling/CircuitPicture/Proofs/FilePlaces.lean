import CircuitPicture.FileTree

/-! # Places of files

A path that a file may be written at names a place below a directory (`Leads`). A file that is put
there is found under the same path, since all directories stay what they are (`find_put`). -/

namespace CircuitPicture

namespace FileTree

variable {t : FileTree} {place : Place}

theorem put_put (t : FileTree) (place : Place) (a b : FileEntry) :
    (t.put place a).put place b = t.put place b := by
  have hfilter (entries : List (Place × FileEntry)) :
      (((place, a) :: entries.filter fun e => e.1 != place).filter fun e => e.1 != place) =
        entries.filter fun e => e.1 != place := by
    simp
  rw [put, put, hfilter]
  rfl

theorem lookup?_put_self (t : FileTree) (entry : FileEntry) (h : place ≠ []) :
    (t.put place entry).lookup? place = some entry := by
  rw [lookup?_put t entry h, if_pos rfl]

theorem lookup?_put_ne (t : FileTree) (entry : FileEntry) (h : place ≠ []) {other : Place}
    (hother : other ≠ place) : (t.put place entry).lookup? other = t.lookup? other := by
  rw [lookup?_put t entry h, if_neg hother]

theorem checkDirectory_eq_ok_iff {here : Place} :
    t.checkDirectory here = .ok () ↔ t.lookup? here = some .directory := by
  rw [checkDirectory]
  cases t.lookup? here with
  | none => simp
  | some entry => cases entry <;> simp

theorem exists_of_bind_eq_ok {ε α β : Type} {x : Except ε α} {f : α → Except ε β} {b : β}
    (h : x >>= f = .ok b) : ∃ a, x = .ok a ∧ f a = .ok b := by
  cases x with
  | error e => cases h
  | ok a => exact ⟨a, rfl, h⟩

/-! ## Where a path leads -/

/-- Where one step leads from a directory. -/
def enter? (here : Place) (step : String) : Option Place :=
  if step = "." then some here
  else if step = ".." then some here.dropLast
  else if Path.maxName < step.utf8ByteSize then none
  else some (here ++ [step])

/-- The text is a path to the file of the given name in the directory `parent`. -/
structure Leads (t : FileTree) (directory : Place) (text : String) (parent : Place)
    (name : String) (path : Path) : Prop where
  ofText : Path.ofText text = .ok path
  walk : t.walk (path.start directory) path.steps.dropLast = .ok parent
  isDirectory : t.checkDirectory parent = .ok ()
  lastStep : path.steps.getLast? = some name
  enters : enter? parent name = some (parent ++ [name])
  noSlash : path.endsInSlash = false

theorem exists_leads {directory : Place} {text : String}
    (h : t.findForWriting directory text = .ok place) :
    t.lookup? place ≠ some .directory ∧
      ∃ parent name path, place = parent ++ [name] ∧ t.Leads directory text parent name path := by
  obtain ⟨path, hpath, h⟩ := exists_of_bind_eq_ok h
  obtain ⟨parent, hparent, h⟩ := exists_of_bind_eq_ok h
  obtain ⟨_, hcheck, h⟩ := exists_of_bind_eq_ok h
  cases hname : path.steps.getLast? with
  | none =>
    rw [hname] at h
    cases h
  | some name =>
    rw [hname] at h
    dsimp only at h
    split at h
    · cases h
    · rename_i hproper
      have hnames : path.endsInSlash = false ∧ name ≠ "." ∧ name ≠ ".." := by
        simpa [and_assoc] using hproper
      split at h
      · cases h
      · rename_i hshort
        have henter : enter? parent name = some (parent ++ [name]) := by
          rw [enter?, if_neg hnames.2.1, if_neg hnames.2.2, if_neg hshort]
        split at h
        · cases h
        · rename_i hentry
          cases h
          exact ⟨hentry, parent, name, path, rfl,
            ⟨hpath, hparent, hcheck, hname, henter, hnames.1⟩⟩

theorem ne_root_of_findForWriting {directory : Place} {text : String}
    (h : t.findForWriting directory text = .ok place) : place ≠ [] := by
  obtain ⟨-, parent, name, -, rfl, -⟩ := exists_leads h
  exact List.concat_ne_nil name parent

theorem checkDirectory_put {here : Place} (entry : FileEntry) (hplace : place ≠ [])
    (hentry : t.lookup? place ≠ some .directory) (h : t.checkDirectory here = .ok ()) :
    (t.put place entry).checkDirectory here = .ok () := by
  rw [checkDirectory_eq_ok_iff] at h ⊢
  have hne : here ≠ place := by
    rintro rfl
    exact hentry h
  rw [lookup?_put_ne t entry hplace hne, h]

theorem walk_cons {here stop : Place} {step : String} {rest : List String} :
    t.walk here (step :: rest) = .ok stop ↔
      t.checkDirectory here = .ok () ∧
        ∃ next, enter? here step = some next ∧ t.walk next rest = .ok stop := by
  rw [walk, enter?]
  cases t.checkDirectory here with
  | error e => constructor <;> intro h <;> simp [bind, Except.bind] at h
  | ok _ =>
    by_cases hstay : step = "."
    · simp [hstay, bind, Except.bind]
    · by_cases hup : step = ".."
      · simp [hup, bind, Except.bind]
      · by_cases hlong : Path.maxName < step.utf8ByteSize
        · simp [hstay, hup, hlong, bind, Except.bind]
        · simp [hstay, hup, hlong, bind, Except.bind]

theorem walk_put {here stop : Place} {steps : List String} (entry : FileEntry)
    (hplace : place ≠ []) (hentry : t.lookup? place ≠ some .directory)
    (h : t.walk here steps = .ok stop) : (t.put place entry).walk here steps = .ok stop := by
  induction steps generalizing here with
  | nil => exact h
  | cons step rest ih =>
    rw [walk_cons] at h ⊢
    obtain ⟨hcheck, next, hnext, hrest⟩ := h
    exact ⟨checkDirectory_put entry hplace hentry hcheck, next, hnext, ih hrest⟩

theorem walk_concat {here parent stop : Place} {steps : List String} {name : String}
    (h : t.walk here steps = .ok parent) (hcheck : t.checkDirectory parent = .ok ())
    (hname : enter? parent name = some stop) : t.walk here (steps ++ [name]) = .ok stop := by
  induction steps generalizing here with
  | nil =>
    cases h
    exact walk_cons.2 ⟨hcheck, stop, hname, rfl⟩
  | cons step rest ih =>
    obtain ⟨hhere, next, hnext, hrest⟩ := walk_cons.1 h
    exact walk_cons.2 ⟨hhere, next, hnext, ih hrest⟩

namespace Leads

variable {directory : Place} {text name : String} {parent : Place} {path : Path}

theorem put (h : t.Leads directory text parent name path) (entry : FileEntry)
    (hentry : t.lookup? (parent ++ [name]) ≠ some .directory) :
    (t.put (parent ++ [name]) entry).Leads directory text parent name path where
  ofText := h.ofText
  walk := walk_put entry (List.concat_ne_nil name parent) hentry h.walk
  isDirectory := checkDirectory_put entry (List.concat_ne_nil name parent) hentry h.isDirectory
  lastStep := h.lastStep
  enters := h.enters
  noSlash := h.noSlash

/-- What stands where a path leads is found under the path. -/
theorem find_eq (h : t.Leads directory text parent name path) :
    t.find directory text = match t.lookup? (parent ++ [name]) with
      | some entry => .ok entry
      | none => .error .notFound := by
  have hsteps : path.steps.dropLast ++ [name] = path.steps := by
    obtain ⟨front, hfront⟩ := List.getLast?_eq_some_iff.1 h.lastStep
    rw [hfront, List.dropLast_concat]
  have hwalk := walk_concat h.walk h.isDirectory h.enters
  rw [hsteps] at hwalk
  simp only [find, h.ofText, hwalk, h.noSlash, bind, Except.bind, pure, Except.pure]
  rfl

end Leads

theorem find_of_findForWriting {directory : Place} {text : String}
    (h : t.findForWriting directory text = .ok place) :
    t.find directory text = match t.lookup? place with
      | some entry => .ok entry
      | none => .error .notFound := by
  obtain ⟨-, parent, name, path, rfl, hpath⟩ := exists_leads h
  exact hpath.find_eq

/-- A file that has been put where a path leads is what the path leads to. -/
theorem find_put {directory : Place} {text : String} (content : ByteArray)
    (h : t.findForWriting directory text = .ok place) :
    (t.put place (.file content)).find directory text = .ok (.file content) := by
  obtain ⟨hentry, parent, name, path, rfl, hpath⟩ := exists_leads h
  have hfind := (hpath.put (.file content) hentry).find_eq
  rwa [lookup?_put_self t (.file content) (List.concat_ne_nil name parent)] at hfind

end FileTree

end CircuitPicture
