import CircuitPicture.Failure
import CircuitPicture.Proofs.SinkWriting

/-! # Pictures on failing sinks

The bytes of a picture reach the sink in order, and writing ends where the sink does. Only a sink
that has taken the whole picture is asked to flush (`write_eq`). -/

namespace CircuitPicture

namespace Picture
open Canvas

/-- The text of a picture that receives the bounds and the placements. -/
def wholeText (settings : PictureSettings) (names : BoxNames) (bounds : Bounds Float)
    (placements : List (Placement Float)) : String :=
  String.join ((header settings bounds ++ placements.map (putLine names) ++ footer settings).map
    String.join)

/-- All of a picture but the flush at its end. -/
def beforeFlush {σ : Type} (w : Writer σ) (settings : PictureSettings) (names : BoxNames)
    (l : Layout) : ExportM (Canvas σ) Unit := do
  (exporter w settings names).start l.bounds
  l.placements.forM (exporter w settings names).place
  Canvas.expect .finish
  Canvas.writeLines w (footer settings)

theorem exportLayout_eq {σ : Type} (w : Writer σ) (settings : PictureSettings) (names : BoxNames)
    (l : Layout) :
    (exporter w settings names).exportLayout l = (do
      beforeFlush w settings names l
      Canvas.onSinkDo w.flush
      Canvas.setPhase .closed) := by
  simp only [Exporter.exportLayout, beforeFlush, exporter, bind_assoc]

theorem emits_beforeFlush {σ : Type} {E : Effect σ} {w : Writer σ}
    (hw : ∀ text : String, E.Describes text.toUTF8 (w.write text)) (settings : PictureSettings)
    (names : BoxNames) (l : Layout) :
    Emits E (fun _ => True) .ready (wholeText settings names l.bounds l.placements) .opened
      (beforeFlush w settings names l) := by
  have h := (emits_start (fun _ => True) hw trivial settings names l.bounds).bind
    ((Emits.forM (emits_place (fun _ => True) hw trivial settings names) l.placements).bind
      (emits_footer (fun _ => True) hw trivial settings))
  rwa [wholeText, List.map_append, List.map_append, String.join_append, String.join_append,
    List.map_map, String.append_assoc]

def text (config : Config) (grid : Grid) : String :=
  wholeText config.picture config.names (Layout.bounds ⟨grid, config.vocabulary⟩)
    (Layout.placements ⟨grid, config.vocabulary⟩)

theorem text_ne_empty (config : Config) (grid : Grid) : text config grid ≠ "" := by
  have hfooter : footer config.picture =
      ["\\end\x7bpicture\x7d\n"] :: (footer config.picture).tail := rfl
  intro h
  rw [text, wholeText, List.map_append, String.join_append, hfooter,
    String.append_eq_empty_iff] at h
  simp at h

/-- A picture reaches the sink as one text, and a sink that has taken all of it is flushed. -/
theorem writeTo_eq {σ : Type} {E : Effect σ} {w : Writer σ}
    (hw : ∀ text : String, E.Describes text.toUTF8 (w.write text)) (config : Config) (grid : Grid)
    (s : σ) : ∃ result t, E.rel s (text config grid).toUTF8 result t ∧
      writeTo w config grid s = match result with
        | .ok () => ((w.flush t).1.mapError .io, (w.flush t).2)
        | .error cause => (.error (.io cause), t) := by
  have hpicture := emits_beforeFlush hw config.picture config.names ⟨grid, config.vocabulary⟩ s
  rw [writeTo, onSink, exportLayout_eq]
  generalize haction : beforeFlush w config.picture config.names ⟨grid, config.vocabulary⟩
    ⟨.ready, s⟩ = outcome at hpicture
  cases hpicture with
  | @done t effect =>
    refine ⟨.ok (), t, effect, ?_⟩
    rw [bind_of_ok haction]
    have hflush : onSinkDo w.flush ⟨.opened, t⟩ =
        ((w.flush t).1.mapError .io, ⟨.opened, (w.flush t).2⟩) := rfl
    cases hresult : (w.flush t).1 with
    | ok =>
      rw [hresult] at hflush
      rw [bind_of_ok hflush]
      rfl
    | error cause =>
      rw [hresult] at hflush
      rw [bind_of_error hflush]
      rfl
  | @broken t phase cause _ effect =>
    refine ⟨.error cause, t, effect, ?_⟩
    rw [bind_of_error haction]

/-- Writing a picture and flushing the sink, as one step. -/
theorem write_eq (config : Config) (grid : Grid) (sink : Sink) :
    write config grid sink =
      (if sink.room (text config grid).toUTF8.size = (text config grid).toUTF8.size then
          if sink.flushFails then .error (.io .flushFailed) else .ok ()
        else .error (.io sink.overflow),
        sink.take (text config grid).toUTF8) := by
  obtain ⟨result, t, ⟨rfl, hresult⟩, hwrite⟩ := writeTo_eq Sink.cutOff_write config grid sink
  rw [write]
  by_cases hroom : sink.room (text config grid).toUTF8.size = (text config grid).toUTF8.size
  · rw [if_pos hroom] at hresult ⊢
    subst hresult
    have hflush : Sink.writer.flush (sink.take (text config grid).toUTF8) =
        (if sink.flushFails then .error .flushFailed else .ok (),
          sink.take (text config grid).toUTF8) := rfl
    rw [hwrite, hflush]
    cases sink.flushFails <;> rfl
  · rw [if_neg hroom] at hresult ⊢
    subst hresult
    exact hwrite

theorem render_eq (config : Config) (grid : Grid) :
    render config grid = .ok (text config grid) := by
  have hvalid : (text config grid).toUTF8.IsValidUTF8 := (text config grid).isValidUTF8
  have hdecode : String.fromUTF8? (text config grid).toUTF8 = some (text config grid) := by
    rw [String.fromUTF8?, dif_pos hvalid]
    rfl
  rw [render, write_eq, Sink.room_unlimited, if_pos rfl, Sink.unlimited, Sink.take_unbounded,
    ByteArray.empty_append]
  simp only [Bool.false_eq_true, if_false, hdecode]

/-- A sink that still takes `n` bytes receives the first `n` bytes of the picture that is made in
memory. Writing succeeds if and only if the picture fits and the sink can be flushed, and else fails
with the error of the sink. -/
theorem write_eq_prefix_render (config : Config) (grid : Grid) (received : ByteArray) (n : Nat)
    (overflow : IoError) (flushFails : Bool) :
    ∃ picture, render config grid = .ok picture ∧
      let bytes := picture.toUTF8
      let sink : Sink := ⟨received, some (received.size + n), overflow, flushFails⟩
      let result := (write config grid sink).1.mapError Failure.exporting
      (write config grid sink).2 =
        { sink with received := received ++ bytes.extract 0 (min n bytes.size) } ∧
      (result = .ok () ↔ bytes.size ≤ n ∧ flushFails = false) ∧
      (n < bytes.size → result = .error (.exporting (.io overflow))) ∧
      (bytes.size ≤ n → flushFails = true → result = .error (.exporting (.io .flushFailed))) := by
  refine ⟨text config grid, render_eq config grid, ?_⟩
  intro bytes sink result
  have hbytes : (text config grid).toUTF8 = bytes := rfl
  have hroom : sink.room bytes.size = min bytes.size n := by
    rw [Sink.room_bounded, Nat.add_sub_cancel_left]
  have hresult : result = if n < bytes.size then .error (.exporting (.io overflow))
      else if flushFails then .error (.exporting (.io .flushFailed)) else .ok () := by
    change (write config grid sink).1.mapError Failure.exporting = _
    rw [write_eq, hbytes, hroom]
    by_cases hlt : n < bytes.size
    · rw [if_neg (by omega), if_pos hlt]
      rfl
    · rw [if_pos (by omega), if_neg hlt]
      cases flushFails <;> rfl
  refine ⟨?_, ?_, fun hlt => ?_, fun hle hflush => ?_⟩
  · rw [write_eq, Sink.take_bounded, Nat.add_sub_cancel_left, Nat.min_comm]
  · rw [hresult]
    split
    · simp; omega
    · cases flushFails <;> simp; omega
  · rw [hresult, if_pos hlt]
  · rw [hresult, if_neg (by omega), if_pos hflush]

end Picture

end CircuitPicture
