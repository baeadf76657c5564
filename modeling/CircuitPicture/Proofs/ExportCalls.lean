import CircuitPicture.Proofs.ExporterSession
import CircuitPicture.Proofs.LayoutCells

/-! # The calls of an export

An export can be watched without being disturbed: `Exporter.recorded` passes every call on to
another exporter and writes down how it went. What it has written down is a `Transcript` of the
calls that make the picture, whatever the exporter does (`exportLayout_calls`). -/

namespace CircuitPicture

section Loops

variable {ε τ α : Type} {f : α → ExceptT ε (StateM τ) Unit} {x : α} {s t : τ}

theorem forM_of_ok (h : f x s = (.ok (), t)) (xs : List α) : (x :: xs).forM f s = xs.forM f t :=
  bind_of_ok h

theorem forM_of_error {e : ε} (h : f x s = (.error e, t)) (xs : List α) :
    (x :: xs).forM f s = (.error e, t) :=
  bind_of_error h

end Loops

variable {σ : Type}

/-- A call and its result. -/
structure Reply where
  request : Request
  result : Except ExportError Unit

namespace Exporter

/-- Passes a call on and writes down its result. -/
def record (request : Request) (call : ExportM σ Unit) : ExportM (σ × List Reply) Unit :=
  fun (state, replies) =>
    let (result, state) := call state
    (result, (state, replies ++ [⟨request, result⟩]))

/-- The exporter with a record of the calls that are made on it. -/
def recorded (exporter : Exporter σ) : Exporter (σ × List Reply) where
  start bounds := record (.start bounds) (exporter.start bounds)
  place placement := record (.place placement) (exporter.place placement)
  finish := record .finish exporter.finish

theorem perform_recorded (exporter : Exporter σ) (request : Request) (state : σ)
    (replies : List Reply) {result : Except ExportError Unit} {after : σ}
    (h : request.perform exporter state = (result, after)) :
    request.perform exporter.recorded (state, replies) =
      (result, (after, replies ++ [⟨request, result⟩])) := by
  have hrecord : request.perform exporter.recorded =
      record request (request.perform exporter) := by
    cases request <;> rfl
  rw [hrecord, record, h]

/-- An export makes the calls of a picture in turn. -/
theorem exportLayout_eq_forM (exporter : Exporter σ) (l : Layout) : exporter.exportLayout l =
    (Request.ofPicture l.bounds l.placements).forM fun request => request.perform exporter := by
  simp [exportLayout, Request.ofPicture, Request.perform, List.forM_append]

end Exporter

/-- The replies to calls that are made in turn up to the first one that fails, and the result of
them all. -/
inductive Transcript : List Request → List Reply → Except ExportError Unit → Prop
  | done : Transcript [] [] (.ok ())
  | failed (request : Request) (rest : List Request) (e : ExportError) :
      Transcript (request :: rest) [⟨request, .error e⟩] (.error e)
  | passed (request : Request) {rest : List Request} {replies : List Reply}
      {result : Except ExportError Unit} (later : Transcript rest replies result) :
      Transcript (request :: rest) (⟨request, .ok ()⟩ :: replies) result

/-- Watching calls changes neither their results nor the exporter. -/
theorem Exporter.forM_recorded (exporter : Exporter σ) (requests : List Request) (state : σ)
    (before : List Reply) :
    let result := (requests.forM fun request => request.perform exporter) state
    ∃ replies, (requests.forM fun request => request.perform exporter.recorded) (state, before) =
        (result.1, (result.2, before ++ replies)) ∧ Transcript requests replies result.1 := by
  induction requests generalizing state before with
  | nil => exact ⟨[], by rw [List.append_nil]; rfl, .done⟩
  | cons request rest ih =>
    cases hcall : request.perform exporter state with
    | mk result after =>
      have hrecorded := exporter.perform_recorded request state before hcall
      cases result with
      | ok =>
        obtain ⟨replies, hrest, htranscript⟩ := ih after (before ++ [⟨request, .ok ()⟩])
        refine ⟨⟨request, .ok ()⟩ :: replies, ?_, ?_⟩
        · rw [forM_of_ok hcall, forM_of_ok hrecorded, hrest, List.append_assoc,
            List.singleton_append]
        · rw [forM_of_ok hcall]
          exact .passed request htranscript
      | error e =>
        refine ⟨[⟨request, .error e⟩], ?_, ?_⟩
        · rw [forM_of_error hcall, forM_of_error hrecorded]
        · rw [forM_of_error hcall]
          exact .failed request rest e

namespace Transcript

variable {requests : List Request} {replies : List Reply} {result : Except ExportError Unit}

theorem isPrefix (h : Transcript requests replies result) :
    replies.map Reply.request <+: requests := by
  induction h with
  | done => exact List.prefix_rfl
  | failed request rest e => exact List.prefix_append [request] rest
  | passed request later ih => exact (List.prefix_cons_inj request).2 ih

/-- Only the last call can have failed. -/
theorem pairwise_ok (h : Transcript requests replies result) :
    replies.Pairwise fun earlier _ => earlier.result = .ok () := by
  induction h with
  | done => exact .nil
  | failed => exact List.pairwise_singleton _ _
  | passed request later ih => exact ih.cons fun _ _ => rfl

theorem getLast? (h : Transcript requests replies result) (hne : requests ≠ []) :
    replies.getLast?.map Reply.result = some result := by
  induction h with
  | done => exact absurd rfl hne
  | failed => rfl
  | @passed request rest replies result later ih =>
    cases later with
    | done => rfl
    | failed => rfl
    | passed next later => simpa using ih (List.cons_ne_nil _ _)

theorem eq_ok_iff (h : Transcript requests replies result) :
    result = .ok () ↔ replies = requests.map fun request => ⟨request, .ok ()⟩ := by
  induction h with
  | done => simp
  | failed => simp
  | passed request later ih => simpa using ih

/-- If exactly the call with the number `k` fails, it is the last one, and without such a call all
of them are made. -/
theorem length_eq (h : Transcript requests replies result) {k : Nat}
    (hk : ∀ i reply, replies[i]? = some reply → (reply.result = .ok () ↔ i ≠ k)) :
    replies.length = min (k + 1) requests.length := by
  induction h generalizing k with
  | done => simp
  | failed request rest e =>
    obtain rfl : 0 = k := by simpa using hk 0 _ rfl
    simp
  | passed request later ih =>
    have hpos : 0 ≠ k := (hk 0 _ rfl).1 rfl
    obtain ⟨k, rfl⟩ := Nat.exists_eq_succ_of_ne_zero hpos.symm
    have hlater := ih fun i reply hreply => by simpa using hk (i + 1) reply hreply
    simp only [List.length_cons, hlater]
    omega

end Transcript

/-- An export makes the calls of the picture in turn and stops after the first one that fails, whose
result is its own. If the call with the number `k` is the one that fails, `k + 1` calls are made, or
all of them if there are no more. -/
theorem exportLayout_calls (exporter : Exporter σ) (l : Layout) (state : σ) :
    let due := Request.ofPicture l.bounds l.placements
    due.length = l.placementCount + 2 ∧
    ∃ result after replies,
      exporter.exportLayout l state = (result, after) ∧
      exporter.recorded.exportLayout l (state, []) = (result, (after, replies)) ∧
      replies.map Reply.request <+: due ∧
      (replies.Pairwise fun earlier _ => earlier.result = .ok ()) ∧
      replies.getLast?.map Reply.result = some result ∧
      (result = .ok () ↔ replies = due.map fun request => ⟨request, .ok ()⟩) ∧
      ∀ k, (∀ i reply, replies[i]? = some reply → (reply.result = .ok () ↔ i ≠ k)) →
        replies.length = min (k + 1) (l.placementCount + 2) := by
  intro due
  have hlength : due.length = l.placementCount + 2 := by
    simp [due, Request.ofPicture, Layout.length_placements]
  obtain ⟨replies, hrecorded, htranscript⟩ := exporter.forM_recorded due state []
  rw [← Exporter.exportLayout_eq_forM, ← Exporter.exportLayout_eq_forM,
    List.nil_append] at hrecorded
  rw [← Exporter.exportLayout_eq_forM] at htranscript
  refine ⟨hlength, _, _, replies, rfl, hrecorded, htranscript.isPrefix, htranscript.pairwise_ok,
    htranscript.getLast? (List.cons_ne_nil _ _), htranscript.eq_ok_iff, fun k hk => ?_⟩
  rw [← hlength]
  exact htranscript.length_eq hk

end CircuitPicture
