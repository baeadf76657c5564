import CircuitPicture.Proofs.ConfigValidity
import CircuitPicture.Proofs.HostErrors
import CircuitPicture.Proofs.RunOutput

/-! # Messages of a run

A run that fails prints one message and nothing else. The words of the program stand in one line; a
text of the user's is quoted as it is, line feeds included, and so such a text alone decides whether
the message is one line (`Host.Explains`). -/

namespace CircuitPicture

/-! ## Lines -/

def IsLine (text : String) : Prop := '\n' ∉ text.toList

instance : DecidablePred IsLine := fun _ => inferInstanceAs (Decidable (¬ _))

theorem isLine_append {s t : String} : IsLine (s ++ t) ↔ IsLine s ∧ IsLine t := by
  simp only [IsLine, String.toList_append, List.mem_append, not_or]

/-- Words in front of a text do not decide whether it is one line. -/
theorem IsLine.append_iff {words text : String} (hwords : IsLine words) :
    IsLine (words ++ text) ↔ IsLine text := by
  rw [isLine_append, and_iff_right hwords]

theorem IsLine.append_iff_left {text words : String} (hwords : IsLine words) :
    IsLine (text ++ words) ↔ IsLine text := by
  rw [isLine_append, and_iff_left hwords]

theorem isLine_defaultName (p : Primitive) : IsLine p.defaultName := by
  cases p <;> decide

theorem UsageError.isLine_message (e : UsageError) : IsLine e.message := by
  have hreason : IsLine e.reason := by cases e <;> decide
  have husage : IsLine (". " ++ Help.usage) := by decide
  rw [UsageError.message, String.append_assoc, hreason.append_iff]
  exact husage

theorem ParseError.isLine_noLines : IsLine (ParseError.text ⟨[.noLines]⟩) := by decide

theorem ParseError.isLine_irregular (first : Line) (others : List Line) :
    IsLine (ParseError.text ⟨[.irregular first others]⟩) := by
  have htext : ParseError.text ⟨[.irregular first others]⟩ =
      "error[E101]: qubit lines must all be the same length" := rfl
  rw [htext]
  decide

theorem IoError.IsWorded.isLine_message {e : IoError} (he : e.IsWorded) : IsLine e.message := by
  cases e with
  | other message => exact he.elim
  | _ => decide

/-! ## Texts of the user -/

/-- The text that the message of a wrong configuration quotes as it was given. -/
def ConfigError.quoted? : ConfigError → Option String
  | missing path => some path
  | invalid (.badName e) => some e.name
  | unsupportedVocabulary name => some name
  | _ => none

def Failure.quoted? : Failure → Option String
  | config e => e.quoted?
  | _ => none

namespace Host

/-- The texts of the user that a run has looked at when it fails. -/
inductive Gives (h : Host) (platform : Option String) (a : Arguments) : String → Prop
  | configPath {path : String} (given : a.config = some path) : Gives h platform a path
  | vocabulary {name : String} (given : a.vocabulary = some name) : Gives h platform a name
  | boxName {path source name : String} {config : Config} {p : Primitive}
      (decisive : h.configPath? platform a.config = some path) (text : h.text path = .ok source)
      (decoded : Config.ofToml? source = some config)
      (given : config.names.override p = some name) : Gives h platform a name

/-- The message of the failure is one line unless a text that the user gave and that it quotes is
not. How a file is no TOML is not said here. -/
structure Explains (h : Host) (platform : Option String) (a : Arguments) (f : Failure) : Prop where
  isLine_iff : f ≠ .config .malformed → (IsLine f.message ↔ ∀ text ∈ f.quoted?, IsLine text)
  given : ∀ text ∈ f.quoted?, h.Gives platform a text

variable {h : Host} {platform : Option String} {a : Arguments}

theorem Explains.of_line {f : Failure} (hline : IsLine f.message) (hquoted : f.quoted? = none) :
    h.Explains platform a f where
  isLine_iff _ := by simp [hquoted, hline]
  given := by simp [hquoted]

theorem Explains.of_quoted {f : Failure} {text : String}
    (hmessage : IsLine f.message ↔ IsLine text) (hquoted : f.quoted? = some text)
    (hgiven : h.Gives platform a text) : h.Explains platform a f where
  isLine_iff _ := by simpa [hquoted] using hmessage
  given := by simpa [hquoted] using hgiven

theorem explains_malformed : h.Explains platform a (.config .malformed) where
  isLine_iff hne := absurd rfl hne
  given := nofun

theorem explains_io {e : IoError} (he : e.IsWorded) : h.Explains platform a (.io e) := by
  have hwords : IsLine "I/O error: " := by decide
  exact .of_line (hwords.append_iff.2 he.isLine_message) rfl

theorem explains_exporting {e : IoError} (he : e.IsWorded) :
    h.Explains platform a (.exporting (.io e)) := by
  have hwords : IsLine ("Export error: " ++ "I/O error: ") := by decide
  have hmessage : Failure.message (.exporting (.io e)) =
      "Export error: " ++ "I/O error: " ++ e.message := (String.append_assoc ..).symm
  exact .of_line (hmessage ▸ hwords.append_iff.2 he.isLine_message) rfl

theorem explains_parse {source : String} {e : ParseError} (he : Grid.parse source = .error e) :
    h.Explains platform a (.parse e source) := by
  obtain ⟨-, hparse⟩ | ⟨-, -, g, hparse, -⟩ | ⟨-, -, first, other, others, hparse⟩ :=
    Grid.parse_cases source
  · cases hparse.symm.trans he
    exact .of_line ParseError.isLine_noLines rfl
  · cases hparse.symm.trans he
  · cases hparse.symm.trans he
    exact .of_line (ParseError.isLine_irregular first (other :: others)) rfl

theorem isLine_config_iff (e : ConfigError) :
    IsLine (Failure.message (.config e)) ↔ IsLine e.message := by
  have hwords : IsLine "Configuration error: " := by decide
  exact hwords.append_iff

theorem explains_missing {path : String} (hgiven : h.Gives platform a path) :
    h.Explains platform a (.config (.missing path)) := by
  have hwords : IsLine "Missing configuration file: " := by decide
  have hmessage : IsLine (ConfigError.missing path).message ↔ IsLine path := hwords.append_iff
  exact .of_quoted ((isLine_config_iff _).trans hmessage) rfl hgiven

theorem explains_unsupportedVocabulary {name : String} (hgiven : h.Gives platform a name) :
    h.Explains platform a (.config (.unsupportedVocabulary name)) := by
  have hwords : IsLine ("Validation error: " ++ Vocabulary.unsupported ++ ": `") := by decide
  have hend : IsLine "`" := by decide
  have hmessage : IsLine (ConfigError.unsupportedVocabulary name).message ↔ IsLine name :=
    hend.append_iff_left.trans hwords.append_iff
  exact .of_quoted ((isLine_config_iff _).trans hmessage) rfl hgiven

theorem explains_invalid {fault : ConfigFault}
    (hgiven : ∀ e, fault = .badName e → h.Gives platform a e.name) :
    h.Explains platform a (.config (.invalid fault)) := by
  cases fault with
  | blankUnitLength => exact .of_line (by decide) rfl
  | badName e =>
    have hvalidation : IsLine "Validation error: " := by decide
    have hname : IsLine "invalid box name `" := by decide
    have hprimitive : IsLine "` for primitive `" := by decide
    have hend : IsLine "`: use ASCII letters only" := by decide
    have hmessage : IsLine (ConfigError.invalid (.badName e)).message ↔ IsLine e.name :=
      calc
        IsLine (ConfigError.invalid (.badName e)).message ↔ IsLine e.message :=
          hvalidation.append_iff
        _ ↔ IsLine ("invalid box name `" ++ e.name) :=
          hend.append_iff_left.trans
            ((isLine_defaultName e.primitive).append_iff_left.trans hprimitive.append_iff_left)
        _ ↔ IsLine e.name := hname.append_iff
    exact .of_quoted ((isLine_config_iff _).trans hmessage) rfl (hgiven e rfl)

/-! ## Failures of the stages -/

open RaisesOnly

theorem configIn_raises {path : String}
    (hpath : h.configPath? platform a.config = some path) :
    RaisesOnly (h.Explains platform a) (h.configIn path) := by
  rw [configIn]
  cases htext : h.text path with
  | error e => exact error (explains_io (h.text_raises path e htext))
  | ok source =>
    have hread : RaisesOnly (h.Explains platform a) ((Config.ofText source).mapError .config) := by
      obtain ⟨-, hmalformed⟩ | ⟨c, fault, htoml, hfault, hinvalid⟩ | ⟨c, -, -, hok⟩ :=
        Config.ofText_cases source
      · rw [hmalformed]
        exact error explains_malformed
      · rw [hinvalid]
        refine error (explains_invalid fun e he => ?_)
        rw [he] at hfault
        exact .boxName hpath htext htoml (Config.override_of_validate_eq_error hfault)
      · rw [hok]
        exact ok c
    exact hread

theorem config_raises : RaisesOnly (h.Explains platform a) (h.config platform a.config) := by
  rw [config]
  cases hpath : h.configPath? platform a.config with
  | none => exact ok _
  | some path =>
    dsimp only
    split_ifs with hpresent
    · exact configIn_raises hpath
    -- A file that was only looked for is there if it is the one that decides.
    · refine error (explains_missing (.configPath ?_))
      rw [configPath?] at hpath
      cases hnamed : a.config with
      | some named =>
        rw [hnamed] at hpath
        exact hpath
      | none =>
        rw [hnamed] at hpath
        have hfind : (Config.localPath :: platform.toList).find? h.isPresent = some path := hpath
        exact absurd (List.find?_some hfind) hpresent

theorem override_raises (c : Config) :
    RaisesOnly (h.Explains platform a)
      ((c.override a.vocabulary a.standalone).mapError .config) := by
  obtain ⟨name, hname, -, hfailed⟩ | ⟨v, -, hdone⟩ := c.override_cases a.vocabulary a.standalone
  · rw [hfailed]
    exact error (explains_unsupportedVocabulary (.vocabulary hname))
  · rw [hdone]
    exact ok _

theorem grid_raises (path : String) : RaisesOnly (h.Explains platform a) (h.grid path) := by
  refine ((h.text_raises path).mapError fun e he => explains_io he).bind fun source => ?_
  cases hparse : Grid.parse source with
  | ok grid => exact ok grid
  | error e => exact error (explains_parse hparse)

theorem prepared_raises : RaisesOnly (h.Explains platform a) (h.prepared platform a) :=
  (config_raises.bind fun c => override_raises c).bind fun config =>
    (grid_raises a.input).bind fun grid => ok (config, grid)

theorem run_cases (h : Host) (platform : Option String) (a : Arguments) :
    (∃ h', run files platform a h = (.ok (), h')) ∨
      ∃ f, run files platform a h = (.error f, h) ∧ h.Explains platform a f := by
  cases hprepared : h.prepared platform a with
  | error f => exact .inr ⟨f, run_of_unprepared hprepared, prepared_raises f hprepared⟩
  | ok parts =>
    cases houtput : Stage.output.fault? h platform a with
    | some f =>
      obtain ⟨path, cause, hpath, hcreate, rfl⟩ := Stage.exists_of_output_fault houtput
      have hcause : cause.IsWorded := h.create_raises path cause (by rw [hcreate])
      refine .inr ⟨_, ?_, explains_io hcause⟩
      rw [run_of_prepared hprepared, hpath]
      exact shows_deliver parts.1 parts.2 hcreate
    | none =>
      have hfault : Stage.firstFault? h platform a = none := by
        rw [Stage.firstFault?_eq, hprepared, houtput]
        rfl
      obtain hdone | hfull := run_of_no_fault h platform a hfault
      · exact .inl hdone
      · exact .inr ⟨_, hfull, explains_exporting trivial⟩

end Host

/-! ## What the program prints -/

namespace Host

def printLine (h : Host) (text : String) : Host :=
  { h with printed := h.printed ++ (text ++ "\n").toUTF8 }

variable {h : Host} {platform : Option String} {arguments : List String}

theorem execute_of_error {e : UsageError} (he : Invocation.ofArguments arguments = .error e) :
    execute files platform arguments h = (2, h.printLine e.message) := by
  rw [execute, he]
  rfl

theorem execute_of_run {a : Arguments} {result : Except Failure Unit} {h' : Host}
    (ha : Invocation.ofArguments arguments = .ok (.run a))
    (hrun : run files platform a h = (result, h')) :
    execute files platform arguments h =
      match result with
      | .ok () => (0, h')
      | .error f => (1, h'.printLine f.message) := by
  rw [execute, ha]
  change StateT.bind (run files platform a) _ h = _
  simp only [StateT.bind, hrun]
  cases result <;> rfl

theorem execute_of_request {request : Invocation} (h : Host) (platform : Option String)
    (hrequest : Invocation.ofArguments arguments = .ok request) (hother : ∀ a, request ≠ .run a) :
    ∃ text, execute files platform arguments h = (0, h.printLine text) := by
  rw [execute, hrequest]
  cases request with
  | run a => exact absurd rfl (hother a)
  | shortHelp => exact ⟨Help.shortText, rfl⟩
  | longHelp => exact ⟨Help.longText, rfl⟩
  | version => exact ⟨Help.version, rfl⟩

end Host

/-- An exit code other than 0 comes with one message, and the host is the same but for it: a line
for arguments that are not understood (2), and the message of its failure for a run (1), which
quotes the texts of the user as they are. The exit code of a run is 0 if and only if it succeeds. -/
theorem execute_messages (h : Host) (platform : Option String) (arguments : List String) :
    (∃ e, Invocation.ofArguments arguments = .error e ∧ IsLine e.message ∧
      execute Host.files platform arguments h = (2, h.printLine e.message)) ∨
    (∃ a f, Invocation.ofArguments arguments = .ok (.run a) ∧
      run Host.files platform a h = (.error f, h) ∧ h.Explains platform a f ∧
      execute Host.files platform arguments h = (1, h.printLine f.message)) ∨
    (∃ a h', Invocation.ofArguments arguments = .ok (.run a) ∧
      run Host.files platform a h = (.ok (), h') ∧
      execute Host.files platform arguments h = (0, h')) ∨
    ∃ request text, Invocation.ofArguments arguments = .ok request ∧
      (∀ a, request ≠ .run a) ∧
      execute Host.files platform arguments h = (0, h.printLine text) := by
  cases hrequest : Invocation.ofArguments arguments with
  | error e => exact .inl ⟨e, rfl, e.isLine_message, Host.execute_of_error hrequest⟩
  | ok request =>
    right
    by_cases hother : ∀ a, request ≠ .run a
    · obtain ⟨text, htext⟩ := Host.execute_of_request h platform hrequest hother
      exact .inr (.inr ⟨request, text, rfl, hother, htext⟩)
    · obtain ⟨a, ha⟩ := Classical.not_forall.1 hother
      obtain rfl := Classical.not_not.1 ha
      obtain ⟨h', hrun⟩ | ⟨f, hrun, hexplains⟩ := Host.run_cases h platform a
      · exact .inr (.inl ⟨a, h', rfl, hrun, Host.execute_of_run hrequest hrun⟩)
      · exact .inl ⟨a, f, rfl, hrun, hexplains, Host.execute_of_run hrequest hrun⟩

/-- The name of a vocabulary is quoted with its line feed. -/
theorem execute_vocabulary_two_lines :
    let h : Host := ⟨⟨[(["in.qc"], .file "H".toUTF8)]⟩, [], .empty⟩
    let text := "Configuration error: Validation error: Unsupported vocabulary: `a\nb`"
    execute Host.files none ["in.qc", "--vocabulary", "a\nb"] h = (1, h.printLine text) ∧
      ¬ IsLine text := by
  intro h text
  exact ⟨rfl, by decide⟩

end CircuitPicture
