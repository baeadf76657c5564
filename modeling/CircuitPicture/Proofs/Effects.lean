import CircuitPicture.Picture

/-! # What reaches a sink

A call on an exporter brings a text to a sink, in many pieces, and may break off between them. What
can become of the text is a relation between the sinks before and after (`Effect`), and an action
with such an effect (`Emits`) is put together from actions that have it for parts of the text. -/

namespace CircuitPicture

variable {σ : Type}

/-- What bringing bytes to a sink may come to: a relation of the sink before, the bytes, the result
and the sink after. -/
structure Effect (σ : Type) where
  rel : σ → ByteArray → Except IoError Unit → σ → Prop
  empty : ∀ s, rel s .empty (.ok ()) s
  append_ok : ∀ {s t u a b result}, rel s a (.ok ()) t → rel t b result u → rel s (a ++ b) result u
  append_error : ∀ {s t a b cause}, rel s a (.error cause) t → rel s (a ++ b) (.error cause) t

namespace Effect

def Describes (E : Effect σ) (bytes : ByteArray) (action : ExceptT IoError (StateM σ) Unit) :
    Prop :=
  ∀ s, E.rel s bytes (action s).1 (action s).2

end Effect

section Actions

variable {ε τ α β : Type} {a : ExceptT ε (StateM τ) α} {f : α → ExceptT ε (StateM τ) β} {s t : τ}

theorem bind_of_ok {x : α} (h : a s = (.ok x, t)) : (a >>= f) s = f x t := by
  change ExceptT.bind a f s = _
  simp only [ExceptT.bind, ExceptT.mk, bind, StateT.bind, h, ExceptT.bindCont]

theorem bind_of_error {e : ε} (h : a s = (.error e, t)) : (a >>= f) s = (.error e, t) := by
  change ExceptT.bind a f s = _
  simp only [ExceptT.bind, ExceptT.mk, bind, StateT.bind, h, ExceptT.bindCont]
  rfl

theorem adapt_eq {ε' : Type} {result : Except ε α} (f : ε → ε') (h : a s = (result, t)) :
    ExceptT.adapt f a s = (result.mapError f, t) := by
  change ((a s).1.mapError f, (a s).2) = _
  rw [h]

end Actions

namespace Canvas

/-- How an action ends that brings bytes to the sink: in the phase `stop`, or with an error in one
of the phases in which it may break off. -/
inductive Outcome (E : Effect σ) (mayBreak : Phase → Prop) (bytes : ByteArray) (stop : Phase)
    (s : σ) : Except ExportError Unit × Canvas σ → Prop
  | done {t : σ} (effect : E.rel s bytes (.ok ()) t) :
      Outcome E mayBreak bytes stop s (.ok (), ⟨stop, t⟩)
  | broken {t : σ} {phase : Phase} {cause : IoError} (possible : mayBreak phase)
      (effect : E.rel s bytes (.error cause) t) :
      Outcome E mayBreak bytes stop s (.error (.io cause), ⟨phase, t⟩)

def Emits (E : Effect σ) (mayBreak : Phase → Prop) (start : Phase) (text : String) (stop : Phase)
    (action : ExportM (Canvas σ) Unit) : Prop :=
  ∀ s, Outcome E mayBreak text.toUTF8 stop s (action ⟨start, s⟩)

namespace Emits

variable {E : Effect σ} {mayBreak : Phase → Prop}

theorem nothing {start stop : Phase} {action : ExportM (Canvas σ) Unit}
    (h : ∀ s, action ⟨start, s⟩ = (.ok (), ⟨stop, s⟩)) :
    Emits E mayBreak start "" stop action := by
  intro s
  rw [h]
  exact .done (E.empty s)

theorem bind {start middle stop : Phase} {s t : String} {a b : ExportM (Canvas σ) Unit}
    (ha : Emits E mayBreak start s middle a) (hb : Emits E mayBreak middle t stop b) :
    Emits E mayBreak start (s ++ t) stop (a >>= fun _ => b) := by
  intro sink
  have hbytes : (s ++ t).toUTF8 = s.toUTF8 ++ t.toUTF8 := String.toByteArray_append
  have hfirst := ha sink
  rw [hbytes]
  generalize haction : a ⟨start, sink⟩ = first at hfirst
  cases hfirst with
  | @done sink' effect =>
    have hsecond := hb sink'
    rw [bind_of_ok haction]
    generalize b ⟨middle, sink'⟩ = second at hsecond
    cases hsecond with
    | done effect' => exact .done (E.append_ok effect effect')
    | broken possible effect' => exact .broken possible (E.append_ok effect effect')
  | broken possible effect =>
    rw [bind_of_error haction]
    exact .broken possible (E.append_error effect)

theorem forM {α : Type} {phase : Phase} {f : α → ExportM (Canvas σ) Unit} {text : α → String}
    (h : ∀ x, Emits E mayBreak phase (text x) phase (f x)) (xs : List α) :
    Emits E mayBreak phase (String.join (xs.map text)) phase (xs.forM f) := by
  induction xs with
  | nil => exact nothing fun _ => rfl
  | cons x xs ih =>
    rw [List.map_cons, String.join_cons]
    exact (h x).bind ih

theorem onSinkDo {phase : Phase} {text : String} {action : ExceptT IoError (StateM σ) Unit}
    (h : E.Describes text.toUTF8 action) (hphase : mayBreak phase) :
    Emits E mayBreak phase text phase (onSinkDo action) := by
  intro s
  have hs := h s
  have haction : Canvas.onSinkDo action ⟨phase, s⟩ =
      ((action s).1.mapError .io, ⟨phase, (action s).2⟩) := rfl
  rw [haction]
  generalize (action s).2 = t at hs ⊢
  cases hresult : (action s).1 with
  | ok =>
    rw [hresult] at hs
    exact .done hs
  | error cause =>
    rw [hresult] at hs
    exact .broken hphase hs

theorem expect {phase : Phase} (call : ExportCall) (h : phase = call.phase) :
    Emits E mayBreak phase "" phase (Canvas.expect call) :=
  nothing fun s => by rw [Canvas.expect, if_pos h]

theorem setPhase (start stop : Phase) : Emits E mayBreak start "" stop (Canvas.setPhase stop) :=
  nothing fun _ => rfl

end Emits

end Canvas

/-! ## The calls of an exporter -/

namespace Picture
open Canvas

variable {E : Effect σ} (mayBreak : Phase → Prop) {w : Writer σ}

theorem emits_lines (hw : ∀ text : String, E.Describes text.toUTF8 (w.write text)) {phase : Phase}
    (hphase : mayBreak phase) (ls : List Pieces) :
    Emits E mayBreak phase (String.join (ls.map String.join)) phase (writeLines w ls) := by
  refine Emits.forM (fun line => ?_) ls
  have h := Emits.forM (fun piece => Emits.onSinkDo (hw piece) hphase) line
  rwa [List.map_id'] at h

theorem emits_start (hw : ∀ text : String, E.Describes text.toUTF8 (w.write text))
    (hphase : mayBreak .ready) (settings : PictureSettings) (names : BoxNames)
    (bounds : Bounds Float) :
    Emits E mayBreak .ready (String.join ((header settings bounds).map String.join)) .opened
      ((exporter w settings names).start bounds) := by
  have h := (Emits.expect .start rfl).bind
    ((emits_lines mayBreak hw hphase (header settings bounds)).bind (Emits.setPhase .ready .opened))
  rwa [String.empty_append, String.append_empty] at h

theorem emits_place (hw : ∀ text : String, E.Describes text.toUTF8 (w.write text))
    (hphase : mayBreak .opened) (settings : PictureSettings) (names : BoxNames)
    (p : Placement Float) :
    Emits E mayBreak .opened (String.join (putLine names p)) .opened
      ((exporter w settings names).place p) := by
  have h := (Emits.expect .place rfl).bind (emits_lines mayBreak hw hphase [putLine names p])
  rwa [List.map_singleton, String.join_cons, String.join_nil, String.append_empty,
    String.empty_append] at h

/-- The end of a picture, without the flush behind it. -/
theorem emits_footer (hw : ∀ text : String, E.Describes text.toUTF8 (w.write text))
    (hphase : mayBreak .opened) (settings : PictureSettings) :
    Emits E mayBreak .opened (String.join ((footer settings).map String.join)) .opened (do
      Canvas.expect .finish
      Canvas.writeLines w (footer settings)) := by
  have h := (Emits.expect .finish rfl).bind (emits_lines mayBreak hw hphase (footer settings))
  rwa [String.empty_append] at h

end Picture

end CircuitPicture
