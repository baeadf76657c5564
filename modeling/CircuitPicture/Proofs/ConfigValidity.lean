import CircuitPicture.Proofs.NamesInForce
import CircuitPicture.Proofs.RunStages

/-! # Valid configurations

A configuration file may hold any texts, but they are checked once, when the file has been read
(`Config.ofText_cases`), and the command line changes nothing that is checked. So a configuration is
valid wherever it comes from (`Host.validate_config`). -/

namespace CircuitPicture

theorem isBlank_eq_false_iff {text : String} :
    isBlank text = false ↔ ∃ c ∈ text.toList, isWhiteSpace c = false := by
  simp [isBlank]

namespace Config

theorem validate_eq_ok_iff {c : Config} :
    c.validate = .ok () ↔
      (∃ char ∈ c.picture.unitLength.toList, isWhiteSpace char = false) ∧
        ∀ p, isBoxName (c.names.name p) = true := by
  rw [← isBlank_eq_false_iff, ← BoxNames.validate_eq_ok_iff, validate]
  cases isBlank c.picture.unitLength with
  | true => simp
  | false => cases c.names.validate <;> simp

theorem override_of_validate_eq_error {c : Config} {e : InvalidName}
    (h : c.validate = .error (.badName e)) : c.names.override e.primitive = some e.name := by
  rw [validate] at h
  split at h
  · cases h
  · cases hnames : c.names.validate with
    | ok _ =>
      rw [hnames] at h
      cases h
    | error e' =>
      rw [hnames] at h
      cases h
      exact BoxNames.override_of_validate_eq_error hnames

theorem validate_standard : standard.validate = .ok () := rfl

theorem validate_override {c c' : Config} {vocabulary : Option String} {standalone : Bool}
    (h : c.override vocabulary standalone = .ok c') : c'.validate = c.validate := by
  obtain ⟨_, -, -, hfailed⟩ | ⟨v, -, hdone⟩ := c.override_cases vocabulary standalone
  · cases hfailed.symm.trans h
  · cases hdone.symm.trans h
    rfl

theorem ofText_cases (text : String) :
    (ofToml? text = none ∧ ofText text = .error .malformed) ∨
    (∃ c fault, ofToml? text = some c ∧ c.validate = .error fault ∧
      ofText text = .error (.invalid fault)) ∨
    ∃ c, ofToml? text = some c ∧ c.validate = .ok () ∧ ofText text = .ok c := by
  rw [ofText]
  cases htoml : ofToml? text with
  | none => exact .inl ⟨rfl, rfl⟩
  | some c =>
    right
    cases hvalid : c.validate with
    | error fault => exact .inl ⟨c, fault, rfl, hvalid, by simp only [hvalid]⟩
    | ok _ => exact .inr ⟨c, rfl, hvalid, by simp only [hvalid]⟩

theorem validate_of_ofText {text : String} {c : Config} (h : ofText text = .ok c) :
    c.validate = .ok () := by
  obtain ⟨-, hfailed⟩ | ⟨_, _, -, -, hfailed⟩ | ⟨c', -, hvalid, hread⟩ := ofText_cases text
  · cases hfailed.symm.trans h
  · cases hfailed.symm.trans h
  · cases hread.symm.trans h
    exact hvalid

end Config

namespace Host

/-- Wherever a configuration comes from, it is valid. -/
theorem validate_config {h : Host} {platform named : Option String} {c : Config}
    (hconfig : h.config platform named = .ok c) : c.validate = .ok () := by
  rw [config] at hconfig
  cases hpath : h.configPath? platform named with
  | none =>
    rw [hpath] at hconfig
    cases hconfig
    exact Config.validate_standard
  | some path =>
    rw [hpath] at hconfig
    dsimp only at hconfig
    split at hconfig
    · obtain ⟨text, -, hread⟩ := configIn_eq_ok_iff.1 hconfig
      exact Config.validate_of_ofText hread
    · cases hconfig

end Host

end CircuitPicture
