import CircuitPicture.Proofs.PictureLines
import CircuitPicture.Proofs.PictureStream
import CircuitPicture.Proofs.SinkWriting
import Mathlib.Tactic.ByContra

/-! # Calls in any order

An exporter may be called in any order, on a sink that may fail at any byte and may change between
calls (`Outlet`, `Step`). A call is refused as a whole or writes the front of its own text
(`Attempt.Sound`), and the calls that succeed are the beginning of a picture (`Progress`). -/

namespace CircuitPicture

open Canvas

variable {σ : Type}

/-- A writer whose sink shows what it has received: of a text the front, and all of it if writing
succeeds. -/
structure Outlet (σ : Type) extends Writer σ where
  received : σ → ByteArray
  received_write : ∀ text s, ∃ front rest, text.toUTF8 = front ++ rest ∧
    received (write text s).2 = received s ++ front ∧ ((write text s).1 = .ok () → rest = .empty)
  received_flush : ∀ s, received (flush s).2 = received s

namespace Outlet

def effect (w : Outlet σ) : Effect σ where
  rel s bytes result t := ∃ front rest, bytes = front ++ rest ∧
    w.received t = w.received s ++ front ∧ (result = .ok () → rest = .empty)
  empty s := ⟨.empty, .empty, ByteArray.append_empty.symm, ByteArray.append_empty.symm,
    fun _ => rfl⟩
  append_ok := by
    rintro s t u a b result ⟨front, rest, rfl, ht, hrest⟩ ⟨front', rest', rfl, hu, hrest'⟩
    obtain rfl := hrest rfl
    refine ⟨front ++ front', rest', ?_, ?_, hrest'⟩
    · rw [ByteArray.append_empty, ByteArray.append_assoc]
    · rw [hu, ht, ByteArray.append_assoc]
  append_error := by
    rintro s t a b cause ⟨front, rest, rfl, ht, _⟩
    exact ⟨front, rest ++ b, ByteArray.append_assoc, ht, fun h => nomatch h⟩

theorem effect_write (w : Outlet σ) (text : String) :
    w.effect.Describes text.toUTF8 (w.write text) :=
  w.received_write text

theorem effect_flush (w : Outlet σ) : w.effect.Describes "".toUTF8 w.flush := by
  intro s
  refine ⟨.empty, .empty, ByteArray.append_empty.symm, ?_, fun _ => rfl⟩
  rw [w.received_flush, ByteArray.append_empty]

end Outlet

namespace Sink

theorem room_le (s : Sink) (bytes : Nat) : s.room bytes ≤ bytes := by
  obtain ⟨received, limit, overflow, flushFails⟩ := s
  cases limit with
  | none => exact Nat.le_refl bytes
  | some limit => exact Nat.min_le_left _ _

/-- A sink that takes a bounded number of bytes. -/
def outlet : Outlet Sink where
  toWriter := writer
  received := received
  received_write text s := by
    have hwrite := write_eq text s
    have hroom := s.room_le text.toUTF8.size
    change ∃ front rest, _ ∧ (write text s).2.received = _ ∧ ((write text s).1 = _ → _)
    rw [hwrite]
    refine ⟨text.toUTF8.extract 0 (s.room text.toUTF8.size),
      text.toUTF8.extract (s.room text.toUTF8.size) text.toUTF8.size, ?_, rfl, ?_⟩
    · rw [ByteArray.extract_append_extract, Nat.zero_min, Nat.max_eq_right hroom,
        ByteArray.extract_zero_size]
    · intro hok
      by_cases h : s.room text.toUTF8.size = text.toUTF8.size
      · rw [h, ByteArray.extract_same]
      · rw [if_neg h] at hok
        cases hok
  received_flush _ := rfl

end Sink

/-- A call on an exporter and what it is called with. -/
inductive Request where
  | start (bounds : Bounds Float)
  | place (placement : Placement Float)
  | finish

namespace Request

def call : Request → ExportCall
  | start _ => .start
  | place _ => .place
  | finish => .finish

/-- The phase in which the call leaves the exporter if it succeeds. -/
def next : Request → Phase
  | start _ => .opened
  | place _ => .opened
  | finish => .closed

def perform {τ : Type} (exporter : Exporter τ) : Request → ExportM τ Unit
  | start bounds => exporter.start bounds
  | place placement => exporter.place placement
  | finish => exporter.finish

/-- The lines that the call has to write, each without its line feed. -/
def lines (settings : PictureSettings) (names : BoxNames) : Request → List String
  | start bounds => Picture.headLines settings bounds
  | place placement => [Picture.putText names placement]
  | finish => Picture.footLines settings

def text (settings : PictureSettings) (names : BoxNames) (r : Request) : String :=
  Picture.unlines (r.lines settings names)

def texts (settings : PictureSettings) (names : BoxNames) (rs : List Request) : String :=
  String.join (rs.map (text settings names))

theorem toUTF8_texts_append (settings : PictureSettings) (names : BoxNames)
    (rs rs' : List Request) : (texts settings names (rs ++ rs')).toUTF8 =
      (texts settings names rs).toUTF8 ++ (texts settings names rs').toUTF8 := by
  rw [texts, List.map_append, String.join_append]
  exact String.toByteArray_append

/-- The calls that make a picture. -/
def ofPicture (bounds : Bounds Float) (placements : List (Placement Float)) : List Request :=
  .start bounds :: placements.map .place ++ [.finish]

theorem emits (w : Outlet σ) (settings : PictureSettings) (names : BoxNames) (r : Request) :
    Emits w.effect (fun phase => phase = r.call.phase) r.call.phase (r.text settings names) r.next
      (r.perform (Picture.exporter w.toWriter settings names)) := by
  cases r with
  | start bounds =>
    have hstart := Picture.emits_start (fun phase => phase = .ready) w.effect_write rfl settings
      names bounds
    rwa [Picture.join_header] at hstart
  | place placement =>
    have hplace := Picture.emits_place (fun phase => phase = .opened) w.effect_write rfl settings
      names placement
    rwa [Picture.join_putLine, ← Picture.unlines_singleton] at hplace
  | finish =>
    have hflush : Emits w.effect (fun phase => phase = .opened) .opened "" .opened
        (onSinkDo w.flush) := Emits.onSinkDo w.effect_flush rfl
    have hfinish := (Picture.emits_footer (fun phase => phase = .opened) w.effect_write rfl
      settings).bind (hflush.bind (Emits.setPhase .opened .closed))
    rw [String.append_empty, String.append_empty, bind_assoc, Picture.join_footer] at hfinish
    exact hfinish

theorem perform_out_of_turn (w : Writer σ) (settings : PictureSettings) (names : BoxNames)
    (r : Request) {canvas : Canvas σ} (h : canvas.phase ≠ r.call.phase) :
    r.perform (Picture.exporter w settings names) canvas =
      (.error (.outOfTurn r.call canvas.phase), canvas) := by
  have hexpect : Canvas.expect r.call canvas =
      (.error (.outOfTurn r.call canvas.phase), canvas) := by
    rw [Canvas.expect, if_neg h]
  cases r <;> exact bind_of_error hexpect

end Request

/-- A call and how it went. -/
structure Attempt (σ : Type) where
  request : Request
  before : Canvas σ
  result : Except ExportError Unit
  after : Canvas σ

namespace Attempt

/-- The call ended in an error that is not the sink's. -/
def IsRefused (a : Attempt σ) : Prop := ∃ e, a.result = .error e ∧ e.cause? = none

def accepted? (a : Attempt σ) : Option Request :=
  match a.result with
  | .ok () => some a.request
  | .error _ => none

/-- A call out of turn is refused and does nothing. Any other one writes the front of its text, and
all of it if it succeeds; if it fails the phase stays what it was. -/
structure Sound (w : Outlet σ) (settings : PictureSettings) (names : BoxNames) (a : Attempt σ) :
    Prop where
  refused_iff : a.IsRefused ↔ a.before.phase ≠ a.request.call.phase
  after_of_refused : a.IsRefused → a.after = a.before
  phase_of_failed : a.result ≠ .ok () → a.after.phase = a.before.phase
  phase_of_accepted : a.result = .ok () → a.after.phase = a.request.next
  received : ∃ front rest, (a.request.text settings names).toUTF8 = front ++ rest ∧
    w.received a.after.sink = w.received a.before.sink ++ front ∧
    (a.result = .ok () → rest = .empty)

theorem not_refused_of_ok {a : Attempt σ} (h : a.result = .ok ()) : ¬ a.IsRefused := by
  rintro ⟨e, he, _⟩
  rw [h] at he
  cases he

theorem not_refused_of_io {a : Attempt σ} {cause : IoError} (h : a.result = .error (.io cause)) :
    ¬ a.IsRefused := by
  rintro ⟨e, he, hcause⟩
  rw [h] at he
  cases he
  cases hcause

theorem sound_of_outcome {w : Outlet σ} {settings : PictureSettings} {names : BoxNames}
    {request : Request} {s : σ} {outcome : Except ExportError Unit × Canvas σ}
    (h : Outcome w.effect (fun phase => phase = request.call.phase)
      (request.text settings names).toUTF8 request.next s outcome) :
    Sound w settings names ⟨request, ⟨request.call.phase, s⟩, outcome.1, outcome.2⟩ := by
  cases h with
  | @done t effect =>
    obtain ⟨front, rest, cut, received, hrest⟩ := effect
    exact {
      refused_iff := ⟨fun h => absurd h (not_refused_of_ok rfl), fun h => absurd rfl h⟩
      after_of_refused := fun h => absurd h (not_refused_of_ok rfl)
      phase_of_failed := fun h => absurd rfl h
      phase_of_accepted := fun _ => rfl
      received := ⟨front, rest, cut, received, fun _ => hrest rfl⟩ }
  | @broken t phase cause possible effect =>
    obtain ⟨front, rest, cut, received, _⟩ := effect
    exact {
      refused_iff := ⟨fun h => absurd h (not_refused_of_io rfl), fun h => absurd rfl h⟩
      after_of_refused := fun h => absurd h (not_refused_of_io rfl)
      phase_of_failed := fun _ => possible
      phase_of_accepted := fun h => nomatch h
      received := ⟨front, rest, cut, received, fun h => nomatch h⟩ }

theorem sound_of_out_of_turn (w : Outlet σ) (settings : PictureSettings) (names : BoxNames)
    {request : Request} {before : Canvas σ} (h : before.phase ≠ request.call.phase) :
    Sound w settings names
      ⟨request, before, .error (.outOfTurn request.call before.phase), before⟩ where
  refused_iff := ⟨fun _ => h, fun _ => ⟨_, rfl, rfl⟩⟩
  after_of_refused _ := rfl
  phase_of_failed _ := rfl
  phase_of_accepted h := nomatch h
  received := ⟨.empty, _, ByteArray.empty_append.symm, ByteArray.append_empty.symm,
    fun h => nomatch h⟩

def perform (w : Outlet σ) (settings : PictureSettings) (names : BoxNames) (request : Request)
    (before : Canvas σ) : Attempt σ where
  request := request
  before := before
  result := (request.perform (Picture.exporter w.toWriter settings names) before).1
  after := (request.perform (Picture.exporter w.toWriter settings names) before).2

theorem perform_sound (w : Outlet σ) (settings : PictureSettings) (names : BoxNames)
    (request : Request) (before : Canvas σ) :
    (perform w settings names request before).Sound w settings names := by
  by_cases hphase : before.phase = request.call.phase
  · obtain ⟨phase, s⟩ := before
    subst hphase
    exact sound_of_outcome (request.emits w settings names s)
  · have hsound := sound_of_out_of_turn w settings names hphase
    rwa [perform, request.perform_out_of_turn w.toWriter settings names hphase]

/-- A call that is not refused and on which the sink does not fail succeeds. -/
theorem ok_of_not_refused {a : Attempt σ} (hrefused : ¬ a.IsRefused)
    (hio : ∀ cause, a.result ≠ .error (.io cause)) : a.result = .ok () := by
  cases hresult : a.result with
  | ok => rfl
  | error e =>
    cases hcause : e.cause? with
    | none => exact absurd ⟨e, hresult, hcause⟩ hrefused
    | some cause =>
      cases e with
      | outOfTurn => cases hcause
      | refused => cases hcause
      | io error => exact absurd hresult (hio error)

theorem accepted?_of_ok {a : Attempt σ} (h : a.result = .ok ()) :
    a.accepted? = some a.request := by
  rw [accepted?, h]

theorem accepted?_of_ne {a : Attempt σ} (h : a.result ≠ .ok ()) : a.accepted? = none := by
  cases hresult : a.result with
  | ok => exact absurd hresult h
  | error e => rw [accepted?, hresult]

/-- On a sink that does not fail, what has succeeded is what has been received. -/
theorem Sound.received_of_no_io {w : Outlet σ} {settings : PictureSettings} {names : BoxNames}
    {a : Attempt σ} (ha : a.Sound w settings names)
    (hio : ∀ cause, a.result ≠ .error (.io cause)) :
    w.received a.after.sink = w.received a.before.sink ++
      (Request.texts settings names a.accepted?.toList).toUTF8 := by
  by_cases hrefused : a.IsRefused
  · have hne : a.result ≠ .ok () := fun hok => not_refused_of_ok hok hrefused
    rw [ha.after_of_refused hrefused, accepted?_of_ne hne]
    exact ByteArray.append_empty.symm
  · have hok := ok_of_not_refused hrefused hio
    obtain ⟨front, rest, cut, received, hrest⟩ := ha.received
    rw [hrest hok, ByteArray.append_empty] at cut
    rw [received, accepted?_of_ok hok, Option.toList_some, Request.texts, List.map_singleton,
      String.join_cons, String.join_nil, String.append_empty, cut]

end Attempt

/-! ## Sessions -/

/-- The calls that succeeded, in order. -/
def accepted (attempts : List (Attempt σ)) : List Request :=
  attempts.flatMap fun a => a.accepted?.toList

@[simp] theorem accepted_nil : accepted ([] : List (Attempt σ)) = [] := rfl

@[simp] theorem accepted_cons (a : Attempt σ) (attempts : List (Attempt σ)) :
    accepted (a :: attempts) = a.accepted?.toList ++ accepted attempts := List.flatMap_cons

/-- The calls that have succeeded by the time a phase is reached. -/
inductive Progress : Phase → List Request → Prop
  | ready : Progress .ready []
  | opened (bounds : Bounds Float) (placements : List (Placement Float)) :
      Progress .opened (.start bounds :: placements.map .place)
  | closed (bounds : Bounds Float) (placements : List (Placement Float)) :
      Progress .closed (Request.ofPicture bounds placements)

namespace Progress

theorem step {w : Outlet σ} {settings : PictureSettings} {names : BoxNames} {a : Attempt σ}
    (ha : a.Sound w settings names) {done : List Request} (h : Progress a.before.phase done) :
    Progress a.after.phase (done ++ a.accepted?.toList) := by
  by_cases hok : a.result = .ok ()
  · have hphase : a.before.phase = a.request.call.phase := by
      by_contra hne
      exact Attempt.not_refused_of_ok hok (ha.refused_iff.2 hne)
    rw [ha.phase_of_accepted hok, Attempt.accepted?_of_ok hok]
    rw [hphase] at h
    cases hrequest : a.request with
    | start bounds =>
      rw [hrequest] at h
      cases h with
      | ready => exact opened bounds []
    | place placement =>
      rw [hrequest] at h
      cases h with
      | opened bounds placements =>
        have hmore := opened bounds (placements ++ [placement])
        rwa [List.map_append, ← List.cons_append] at hmore
    | finish =>
      rw [hrequest] at h
      cases h with
      | opened bounds placements => exact closed bounds placements
  · rw [ha.phase_of_failed hok, Attempt.accepted?_of_ne hok, Option.toList_none, List.append_nil]
    exact h

theorem isPrefix {phase : Phase} {done : List Request} (h : Progress phase done) :
    ∃ bounds placements, done <+: Request.ofPicture bounds placements := by
  cases h with
  | ready => exact ⟨⟨⟨0, 0⟩, ⟨0, 0⟩⟩, [], List.nil_prefix⟩
  | opened bounds placements => exact ⟨bounds, placements, List.prefix_append _ _⟩
  | closed bounds placements => exact ⟨bounds, placements, List.prefix_refl _⟩

end Progress

/-- A call, and what happens to the sink before it: it may behave differently from then on, but
keeps what it has received. -/
structure Step (w : Outlet σ) where
  request : Request
  change : σ → σ
  received_change : ∀ s, w.received (change s) = w.received s

section Session

variable {w : Outlet σ} (settings : PictureSettings) (names : BoxNames)

namespace Step

def attempt (step : Step w) (canvas : Canvas σ) : Attempt σ :=
  .perform w settings names step.request ⟨canvas.phase, step.change canvas.sink⟩

theorem sound (step : Step w) (canvas : Canvas σ) :
    (step.attempt settings names canvas).Sound w settings names :=
  Attempt.perform_sound w settings names step.request _

theorem received_before (step : Step w) (canvas : Canvas σ) :
    w.received (step.attempt settings names canvas).before.sink = w.received canvas.sink :=
  step.received_change canvas.sink

end Step

/-- The calls of some steps with how they went, and what has become of the canvas. -/
def session (canvas : Canvas σ) : List (Step w) → List (Attempt σ) × Canvas σ
  | [] => ([], canvas)
  | step :: steps =>
    let attempt := step.attempt settings names canvas
    let rest := session attempt.after steps
    (attempt :: rest.1, rest.2)

theorem session_sound (canvas : Canvas σ) (steps : List (Step w)) :
    ∀ a ∈ (session settings names canvas steps).1, a.Sound w settings names := by
  induction steps generalizing canvas with
  | nil => simp [session]
  | cons step steps ih =>
    intro a ha
    rcases List.mem_cons.1 ha with rfl | ha
    · exact step.sound settings names canvas
    · exact ih _ a ha

theorem session_progress {canvas : Canvas σ} {done : List Request} (steps : List (Step w))
    (h : Progress canvas.phase done) :
    Progress (session settings names canvas steps).2.phase
      (done ++ accepted (session settings names canvas steps).1) := by
  induction steps generalizing canvas done with
  | nil => simpa [session] using h
  | cons step steps ih =>
    have hrest := ih (Progress.step (step.sound settings names canvas) h)
    simpa [session] using hrest

/-- No call is due in the phase in which a picture ends. -/
theorem refused_of_closed {canvas : Canvas σ} (steps : List (Step w))
    (h : canvas.phase = .closed) :
    ∀ a ∈ (session settings names canvas steps).1, a.IsRefused := by
  induction steps generalizing canvas with
  | nil => simp [session]
  | cons step steps ih =>
    have hsound := step.sound settings names canvas
    have hrefused : (step.attempt settings names canvas).IsRefused := by
      refine hsound.refused_iff.2 ?_
      change canvas.phase ≠ step.request.call.phase
      rw [h]
      cases step.request <;> exact Phase.noConfusion
    have hafter : (step.attempt settings names canvas).after.phase = .closed := by
      rw [hsound.after_of_refused hrefused]
      exact h
    intro a ha
    rcases List.mem_cons.1 ha with rfl | ha
    · exact hrefused
    · exact ih hafter a ha

theorem session_closed (canvas : Canvas σ) (steps : List (Step w)) :
    (session settings names canvas steps).1.Pairwise fun earlier later =>
      earlier.request = .finish → earlier.result = .ok () → later.IsRefused := by
  induction steps generalizing canvas with
  | nil => exact List.Pairwise.nil
  | cons step steps ih =>
    refine List.pairwise_cons.2 ⟨?_, ih _⟩
    intro later hlater hfinish hok
    have hnext := (step.sound settings names canvas).phase_of_accepted hok
    exact refused_of_closed settings names steps (hnext.trans (congrArg Request.next hfinish))
      later hlater

theorem session_received {canvas : Canvas σ} (steps : List (Step w))
    (h : ∀ a ∈ (session settings names canvas steps).1, ∀ cause,
      a.result ≠ .error (.io cause)) :
    w.received (session settings names canvas steps).2.sink = w.received canvas.sink ++
      (Request.texts settings names (accepted (session settings names canvas steps).1)).toUTF8 := by
  induction steps generalizing canvas with
  | nil => exact ByteArray.append_empty.symm
  | cons step steps ih =>
    have hfirst := (step.sound settings names canvas).received_of_no_io
      (h _ List.mem_cons_self)
    have hrest := ih fun a ha => h a (List.mem_cons_of_mem _ ha)
    rw [session, accepted_cons, Request.toUTF8_texts_append, ← ByteArray.append_assoc,
      ← step.received_before settings names canvas, ← hfirst]
    exact hrest

/-- In any session every call is refused if and only if it is out of turn, and else writes the front
of its lines, all of them if it succeeds. The calls that succeed are the beginning of a picture, and
a sink that never failed has received their lines and nothing else. -/
theorem session_orderly (sink : σ) (steps : List (Step w)) :
    let attempts := (session settings names (.onSink sink) steps).1
    let last := (session settings names (.onSink sink) steps).2
    (∀ a ∈ attempts, a.Sound w settings names) ∧
    (∃ bounds placements, accepted attempts <+: Request.ofPicture bounds placements) ∧
    (attempts.Pairwise fun earlier later =>
      earlier.request = .finish → earlier.result = .ok () → later.IsRefused) ∧
    ((∀ a ∈ attempts, ∀ cause, a.result ≠ .error (.io cause)) →
      w.received last.sink =
        w.received sink ++ (Request.texts settings names (accepted attempts)).toUTF8) := by
  intro attempts last
  have hstart : Progress (Canvas.onSink sink).phase [] := .ready
  have hprogress := session_progress settings names steps hstart
  exact ⟨session_sound settings names _ steps, hprogress.isPrefix,
    session_closed settings names _ steps, session_received settings names steps⟩

end Session

end CircuitPicture
