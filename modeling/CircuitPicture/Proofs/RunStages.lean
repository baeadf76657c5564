import CircuitPicture.Host
import CircuitPicture.Run
import CircuitPicture.Proofs.Effects

/-! # Stages of a run

Up to its output a run only looks at the host (`shows_prepare`). Each of its stages is judged here
on the host as it is, whether or not the others fail; the first one that fails decides what comes of
the run. -/

namespace CircuitPicture

/-- The command line is wrong only if it names a vocabulary that does not exist. Otherwise the
vocabulary is the one that it names, if it names one, and a document is asked for by either side. -/
theorem Config.override_cases (c : Config) (vocabulary : Option String) (standalone : Bool) :
    (∃ name, vocabulary = some name ∧ Vocabulary.ofName? name = none ∧
      c.override vocabulary standalone = .error (.unsupportedVocabulary name)) ∨
    ∃ v, v.name = vocabulary.getD c.vocabulary.name ∧ c.override vocabulary standalone =
      .ok ((c.withVocabulary v).withStandalone (c.picture.standalone || standalone)) := by
  have hdocument (d : Config) : (if standalone then d.withStandalone true else d) =
      d.withStandalone (d.picture.standalone || standalone) := by
    cases standalone with
    | false =>
      rw [Bool.or_false]
      rfl
    | true =>
      rw [Bool.or_true]
      rfl
  rw [override.eq_def]
  cases vocabulary with
  | none => exact .inr ⟨c.vocabulary, rfl, congrArg Except.ok (hdocument c)⟩
  | some name =>
    dsimp only
    cases hname : Vocabulary.ofName? name with
    | none => exact .inl ⟨name, rfl, hname, rfl⟩
    | some v =>
      exact .inr ⟨v, Vocabulary.ofName?_eq_some_iff.1 hname,
        congrArg Except.ok (hdocument (c.withVocabulary v))⟩

namespace Host

def text (h : Host) (path : String) : Except IoError String :=
  match h.read path with
  | .error e => .error e
  | .ok bytes =>
    match String.fromUTF8? bytes with
    | some text => .ok text
    | none => .error .invalidText

/-- The file that decides on the configuration: the one that is named, else the first that is
there. -/
def configPath? (h : Host) (platform named : Option String) : Option String :=
  named <|> (Config.localPath :: platform.toList).find? h.isPresent

def configIn (h : Host) (path : String) : Except Failure Config := do
  let text ← (h.text path).mapError .io
  (Config.ofText text).mapError .config

def config (h : Host) (platform named : Option String) : Except Failure Config :=
  match h.configPath? platform named with
  | none => .ok .standard
  | some path => if h.isPresent path then h.configIn path else .error (.config (.missing path))

/-- The configuration that is in force in the end. -/
def effectiveConfig (h : Host) (platform : Option String) (a : Arguments) :
    Except Failure Config := do
  let config ← h.config platform a.config
  (config.override a.vocabulary a.standalone).mapError .config

def grid (h : Host) (path : String) : Except Failure Grid := do
  let source ← (h.text path).mapError .io
  (Grid.parse source).mapError fun e => .parse e source

/-- What a run makes its picture from. -/
def prepared (h : Host) (platform : Option String) (a : Arguments) :
    Except Failure (Config × Grid) := do
  let config ← h.effectiveConfig platform a
  let grid ← h.grid a.input
  return (config, grid)

theorem mapError_bind_eq_ok_iff {ε ε' ε'' α β : Type} {x : Except ε α} {f : ε → ε''}
    {read : α → Except ε' β} {g : α → ε' → ε''} {y : β} :
    (x.mapError f >>= fun a => (read a).mapError (g a)) = .ok y ↔
      ∃ a, x = .ok a ∧ read a = .ok y := by
  constructor
  · intro h
    cases x with
    | error e => cases h
    | ok a =>
      refine ⟨a, rfl, ?_⟩
      have hread : (read a).mapError (g a) = .ok y := h
      cases ha : read a with
      | error e =>
        rw [ha] at hread
        cases hread
      | ok b =>
        rw [ha] at hread
        cases hread
        rfl
  · rintro ⟨a, rfl, ha⟩
    change (read a).mapError (g a) = .ok y
    rw [ha]
    rfl

theorem configIn_eq_ok_iff {h : Host} {path : String} {c : Config} :
    h.configIn path = .ok c ↔ ∃ text, h.text path = .ok text ∧ Config.ofText text = .ok c :=
  mapError_bind_eq_ok_iff

/-! ## Actions that only look -/

/-- The action has this outcome, and the host stays as it is. -/
def Shows {ε α : Type} (h : Host) (action : ExceptT ε (StateM Host) α) (outcome : Except ε α) :
    Prop :=
  action h = (outcome, h)

variable {h : Host}

namespace Shows

variable {ε α β : Type} {action : ExceptT ε (StateM Host) α} {outcome : Except ε α}

theorem ofExcept (x : Except ε α) : h.Shows (MonadExcept.ofExcept x) x := by
  cases x <;> rfl

theorem adapt {ε' : Type} (f : ε → ε') (ha : h.Shows action outcome) :
    h.Shows (ExceptT.adapt f action) (outcome.mapError f) :=
  adapt_eq f ha

theorem bind {next : α → ExceptT ε (StateM Host) β} {outcomes : α → Except ε β}
    (ha : h.Shows action outcome) (hnext : ∀ x, h.Shows (next x) (outcomes x)) :
    h.Shows (action >>= next) (outcome >>= outcomes) := by
  cases outcome with
  | ok x => exact (bind_of_ok ha).trans (hnext x)
  | error e => exact bind_of_error ha

end Shows

theorem shows_readText (path : String) : h.Shows (files.readText path) (h.text path) := by
  have hread : files.readText path h =
      (match h.read path with
        | .error e => (pure (.error e) : StateM Host (Except IoError String))
        | .ok bytes =>
          match String.fromUTF8? bytes with
          | some text => pure (.ok text)
          | none => pure (.error .invalidText)) h := rfl
  rw [Shows, hread, text]
  cases h.read path with
  | error e => rfl
  | ok bytes =>
    dsimp only
    cases String.fromUTF8? bytes <;> rfl

theorem Shows.ifPresent (path : String) {a b : ExceptT Failure (StateM Host) Config}
    {x y : Except Failure Config} (ha : h.Shows a x) (hb : h.Shows b y) :
    h.Shows (do if ← files.isPresent path then a else b)
      (if h.isPresent path then x else y) := by
  have hpresent : h.Shows (liftM (files.isPresent path) : ExceptT Failure (StateM Host) Bool)
      (.ok (h.isPresent path)) := rfl
  have hbranch (present : Bool) :
      h.Shows (if present then a else b) (if present then x else y) := by
    cases present
    · exact hb
    · exact ha
  exact hpresent.bind hbranch

theorem shows_readPresent (path : String) :
    h.Shows (Config.readPresent files path) (h.configIn path) :=
  ((shows_readText path).adapt Failure.io).bind fun _ => .ofExcept _

theorem shows_readFirst (paths : List String) :
    h.Shows (Config.readFirst files paths)
      (match paths.find? h.isPresent with
        | none => .ok .standard
        | some path => h.configIn path) := by
  induction paths with
  | nil => rfl
  | cons path paths ih =>
    have hfirst := Shows.ifPresent path (shows_readPresent path) ih
    rw [List.find?_cons]
    cases hpath : h.isPresent path with
    | true => rwa [if_pos hpath] at hfirst
    | false => rwa [if_neg (by rw [hpath]; decide)] at hfirst

theorem shows_load (platform named : Option String) :
    h.Shows (Config.load files platform named) (h.config platform named) := by
  cases named with
  | some path => exact Shows.ifPresent path (shows_readPresent path) (.ofExcept (.error _))
  | none =>
    have hfirst := shows_readFirst (h := h) (Config.localPath :: platform.toList)
    have hpath : h.configPath? platform none =
        (Config.localPath :: platform.toList).find? h.isPresent := rfl
    rw [config, hpath]
    cases hfind : (Config.localPath :: platform.toList).find? h.isPresent with
    | none => rwa [hfind] at hfirst
    | some path =>
      have hpresent : h.isPresent path = true := List.find?_some hfind
      dsimp only
      rw [if_pos hpresent]
      rwa [hfind] at hfirst

theorem shows_prepare (platform : Option String) (a : Arguments) :
    h.Shows (prepare files platform a) (h.prepared platform a) := by
  rw [prepared, effectiveConfig, grid, bind_assoc]
  refine (shows_load platform a.config).bind fun base => ?_
  refine (Shows.ofExcept _).bind fun config => ?_
  rw [bind_assoc]
  refine ((shows_readText a.input).adapt Failure.io).bind fun source => ?_
  exact (Shows.ofExcept _).bind fun grid => .ofExcept (.ok (config, grid))

theorem create_of_no_place {path : String} {e : IoError}
    (he : h.tree.findForWriting h.directory path = .error e) : h.create path = (.error e, h) := by
  rw [create, he]

theorem create_eq_of_error {path : String} {e : IoError} (he : (h.create path).1 = .error e) :
    h.create path = (.error e, h) := by
  cases hplace : h.tree.findForWriting h.directory path with
  | error cause =>
    rw [create_of_no_place hplace] at he ⊢
    cases he
    rfl
  | ok place =>
    rw [create, hplace] at he
    dsimp only at he
    split at he <;> cases he

/-- Not even an output that cannot be opened leaves a trace. -/
theorem shows_deliver (config : Config) (grid : Grid) {path : String} {e : IoError}
    (he : h.create path = (.error e, h)) :
    h.Shows (deliver files config grid (some path)) (.error (.io e)) := by
  have hopen : h.Shows (files.create path) (.error e) := he
  exact bind_of_error (hopen.adapt Failure.io)

end Host

/-! ## Stages and their faults -/

inductive Stage where
  | configuration
  | overrides
  | input
  | circuit
  | output
deriving DecidableEq, Repr

namespace Stage

/-- The stages before the output, as a run goes through them. -/
def preparing : List Stage := [configuration, overrides, input, circuit]

def inOrder : List Stage := preparing ++ [output]

def errorOf? {ε α : Type} : Except ε α → Option ε
  | .error e => some e
  | .ok _ => none

/-- How a stage fails on a host. A text that cannot be read is no fault of the circuit. -/
def fault? (h : Host) (platform : Option String) (a : Arguments) : Stage → Option Failure
  | configuration => errorOf? (h.config platform a.config)
  | overrides => (a.vocabulary.filter fun name => Vocabulary.ofName? name = none).map fun name =>
      .config (.unsupportedVocabulary name)
  | input => (errorOf? (h.text a.input)).map .io
  | circuit => (h.text a.input).toOption.bind fun source =>
      (errorOf? (Grid.parse source)).map fun e => .parse e source
  | output => a.output.bind fun path => (errorOf? (h.create path).1).map .io

def firstFault? (h : Host) (platform : Option String) (a : Arguments) : Option Failure :=
  inOrder.findSome? (fault? h platform a)

variable {h : Host} {platform : Option String} {a : Arguments}

theorem errorOf?_bind {ε α β : Type} {x : Except ε α} {f : α → Except ε β} {later : Option ε}
    (hf : ∀ y, x = .ok y → errorOf? (f y) = later) :
    errorOf? (x >>= f) = (errorOf? x).or later := by
  cases x with
  | error e => rfl
  | ok y => exact hf y rfl

theorem errorOf?_mapError {ε ε' α : Type} (f : ε → ε') (x : Except ε α) :
    errorOf? (x.mapError f) = (errorOf? x).map f := by
  cases x <;> rfl

/-- Only the vocabulary can be overridden in a wrong way, whatever configuration it is meant for. -/
theorem errorOf?_override (c : Config) :
    errorOf? ((c.override a.vocabulary a.standalone).mapError .config) =
      overrides.fault? h platform a := by
  rw [fault?]
  obtain ⟨name, hname, hunknown, hoverride⟩ | ⟨v, hv, hoverride⟩ :=
    c.override_cases a.vocabulary a.standalone
  · rw [hoverride, hname, Option.filter_some, decide_eq_true hunknown]
    rfl
  · rw [hoverride]
    cases hname : a.vocabulary with
    | none => rfl
    | some name =>
      rw [hname, Option.getD_some] at hv
      rw [Option.filter_some, Vocabulary.ofName?_eq_some_iff.2 hv]
      rfl

theorem errorOf?_effectiveConfig :
    errorOf? (h.effectiveConfig platform a) =
      (configuration.fault? h platform a).or (overrides.fault? h platform a) :=
  errorOf?_bind fun base _ => errorOf?_override base

theorem errorOf?_grid (platform : Option String) :
    errorOf? (h.grid a.input) = (input.fault? h platform a).or (circuit.fault? h platform a) := by
  rw [fault?, fault?, Host.grid]
  cases h.text a.input with
  | error e => rfl
  | ok source => exact errorOf?_mapError _ _

/-- What a run is made from is missing if and only if a stage fails, and then the first one that
does says why. -/
theorem errorOf?_prepared :
    errorOf? (h.prepared platform a) = preparing.findSome? (fault? h platform a) := by
  have hgrid (config : Config) (_ : h.effectiveConfig platform a = .ok config) :
      errorOf? (do
        let grid ← h.grid a.input
        return (config, grid)) = errorOf? (h.grid a.input) := by
    cases h.grid a.input <;> rfl
  have hparts := errorOf?_bind hgrid
  rw [errorOf?_effectiveConfig, errorOf?_grid platform, Option.or_assoc] at hparts
  refine hparts.trans ?_
  simp only [preparing, List.findSome?_cons, List.findSome?_nil]
  cases configuration.fault? h platform a <;> cases overrides.fault? h platform a <;>
    cases input.fault? h platform a <;> cases circuit.fault? h platform a <;> rfl

theorem firstFault?_eq : firstFault? h platform a =
    (errorOf? (h.prepared platform a)).or (output.fault? h platform a) := by
  rw [firstFault?, inOrder, List.findSome?_append, ← errorOf?_prepared, List.findSome?_singleton]

theorem exists_of_output_fault {e : Failure} (he : output.fault? h platform a = some e) :
    ∃ path cause, a.output = some path ∧ h.create path = (.error cause, h) ∧ e = .io cause := by
  rw [fault?, Option.bind_eq_some_iff] at he
  obtain ⟨path, hpath, he⟩ := he
  cases hcreate : (h.create path).1 with
  | error cause =>
    rw [hcreate] at he
    cases he
    exact ⟨path, cause, hpath, Host.create_eq_of_error hcreate, rfl⟩
  | ok target =>
    rw [hcreate] at he
    cases he

end Stage

theorem run_of_prepared {h : Host} {platform : Option String} {a : Arguments}
    {parts : Config × Grid} (hparts : h.prepared platform a = .ok parts) :
    run Host.files platform a h = deliver Host.files parts.1 parts.2 a.output h := by
  have hprepare := Host.shows_prepare (h := h) platform a
  rw [hparts] at hprepare
  exact bind_of_ok hprepare

theorem run_of_unprepared {h : Host} {platform : Option String} {a : Arguments} {e : Failure}
    (he : h.prepared platform a = .error e) : run Host.files platform a h = (.error e, h) := by
  have hprepare := Host.shows_prepare (h := h) platform a
  rw [he] at hprepare
  exact bind_of_error hprepare

/-- A run fails with the fault of the first stage that has one, and then the host is what it was. -/
theorem run_of_fault (h : Host) (platform : Option String) (a : Arguments) {e : Failure}
    (hfault : Stage.firstFault? h platform a = some e) :
    run Host.files platform a h = (.error e, h) := by
  rw [Stage.firstFault?, Stage.inOrder, List.findSome?_append, ← Stage.errorOf?_prepared] at hfault
  cases hprepared : h.prepared platform a with
  | error e' =>
    rw [hprepared] at hfault
    cases hfault
    exact run_of_unprepared hprepared
  | ok parts =>
    have houtput : Stage.output.fault? h platform a = some e := by
      simpa [Stage.errorOf?, hprepared] using hfault
    obtain ⟨path, cause, hpath, hcreate, rfl⟩ := Stage.exists_of_output_fault houtput
    rw [run_of_prepared hprepared, hpath]
    exact Host.shows_deliver parts.1 parts.2 hcreate

/-- A vocabulary that does not exist is reported before an input that is not there. -/
theorem run_of_fault_vocabulary :
    let h : Host := ⟨⟨[]⟩, [], .empty⟩
    let a : Arguments := ⟨"in.qc", some "in.qc", none, some "full", false, "warn"⟩
    Stage.firstFault? h none a = some (.config (.unsupportedVocabulary "full")) ∧
      Stage.input.fault? h none a = some (.io .notFound) ∧
      run Host.files none a h = (.error (.config (.unsupportedVocabulary "full")), h) := by
  intro h a
  have hfault : Stage.firstFault? h none a = some (.config (.unsupportedVocabulary "full")) := by
    decide
  exact ⟨hfault, by decide, run_of_fault h none a hfault⟩

end CircuitPicture
