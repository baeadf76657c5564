import CircuitPicture.Proofs.RunStages
import Mathlib.Tactic.SplitIfs

/-! # Errors of a host

Which errors a computation may end in follows from those of its parts (`RaisesOnly.bind`). The file
operations of a host end in errors that have words of their own, whatever path they are given. -/

namespace CircuitPicture

/-- Every error that a computation may end in is of the kind `kind`. -/
def RaisesOnly {ε α : Type} (kind : ε → Prop) (x : Except ε α) : Prop :=
  ∀ e, x = .error e → kind e

namespace RaisesOnly

variable {ε ε' α β : Type} {kind : ε → Prop} {x : Except ε α}

theorem ok (y : α) : RaisesOnly kind (.ok y : Except ε α) := nofun

theorem error {e : ε} (he : kind e) : RaisesOnly kind (.error e : Except ε α) := by
  rintro _ ⟨⟩
  exact he

theorem bind {f : α → Except ε β} (hx : RaisesOnly kind x) (hf : ∀ y, RaisesOnly kind (f y)) :
    RaisesOnly kind (x >>= f) := by
  cases x with
  | ok y => exact hf y
  | error e => exact error (hx e rfl)

theorem mapError {kind' : ε' → Prop} {f : ε → ε'} (hx : RaisesOnly kind x)
    (hf : ∀ e, kind e → kind' (f e)) : RaisesOnly kind' (x.mapError f) := by
  cases x with
  | ok y => exact ok y
  | error e => exact error (hf e (hx e rfl))

end RaisesOnly

/-- An error that a host can end in, which has words of its own. -/
def IoError.IsWorded : IoError → Prop
  | .other _ => False
  | _ => True

open RaisesOnly

theorem Path.ofText_raises (text : String) : RaisesOnly IoError.IsWorded (Path.ofText text) := by
  rw [Path.ofText]
  split_ifs
  · exact error trivial
  · exact error trivial
  · exact error trivial
  · exact ok _

namespace FileTree

variable (t : FileTree)

theorem checkDirectory_raises (place : Place) :
    RaisesOnly IoError.IsWorded (t.checkDirectory place) := by
  rw [checkDirectory]
  split
  · exact ok ()
  · exact error trivial
  · exact error trivial

theorem walk_raises (here : Place) (steps : List String) :
    RaisesOnly IoError.IsWorded (t.walk here steps) := by
  induction steps generalizing here with
  | nil => exact ok here
  | cons step rest ih =>
    refine (t.checkDirectory_raises here).bind fun _ => ?_
    split_ifs
    · exact ih here
    · exact ih here.dropLast
    · exact error trivial
    · exact ih (here ++ [step])

theorem find_raises (directory : Place) (text : String) :
    RaisesOnly IoError.IsWorded (t.find directory text) := by
  refine (Path.ofText_raises text).bind fun path => ?_
  refine (t.walk_raises _ path.steps).bind fun place => ?_
  dsimp only
  split_ifs
  · refine (t.checkDirectory_raises place).bind fun _ => ?_
    split
    · exact ok _
    · exact error trivial
  · split
    · exact ok _
    · exact error trivial

theorem findForWriting_raises (directory : Place) (text : String) :
    RaisesOnly IoError.IsWorded (t.findForWriting directory text) := by
  refine (Path.ofText_raises text).bind fun path => ?_
  refine (t.walk_raises _ path.steps.dropLast).bind fun parent => ?_
  refine (t.checkDirectory_raises parent).bind fun _ => ?_
  split
  · exact error trivial
  · split_ifs
    · exact error trivial
    · exact error trivial
    · split
      · exact error trivial
      · exact ok _

end FileTree

namespace Host

variable (h : Host) (path : String)

theorem read_raises : RaisesOnly IoError.IsWorded (h.read path) := by
  rw [read]
  split
  · exact ok _
  · exact error trivial
  · exact ok _
  · rename_i e hfind
    exact error (h.tree.find_raises h.directory path e hfind)

theorem text_raises : RaisesOnly IoError.IsWorded (h.text path) := by
  rw [text]
  split
  · rename_i e hread
    exact error (h.read_raises path e hread)
  · split
    · exact ok _
    · exact error trivial

theorem create_raises : RaisesOnly IoError.IsWorded (h.create path).1 := by
  rw [create]
  split
  · rename_i e hplace
    exact error (h.tree.findForWriting_raises h.directory path e hplace)
  · split
    · exact ok _
    · exact ok _

end Host

end CircuitPicture
