import CircuitPicture.Config.Decode
import Mathlib.Data.List.Basic

/-! # Names in force

A name is checked when it is assigned, so after any calls the name of a primitive is the last one
that was accepted for it, else the one it had before (`override_assignAll`). Names from a file are
entered unchecked, and validation finds the bad ones among them (`names_in_force`). -/

namespace CircuitPicture

theorem isBoxName_iff {name : String} :
    isBoxName name = true ↔ name ≠ "" ∧ ∀ c ∈ name.toList, c.isAlpha = true := by
  simp [isBoxName]

/-- A word of ASCII letters, but not the empty one. -/
def IsWord (name : String) : Prop :=
  name ≠ "" ∧ ∀ c ∈ name.toList, 'A' ≤ c ∧ c ≤ 'Z' ∨ 'a' ≤ c ∧ c ≤ 'z'

theorem isBoxName_iff_isWord {name : String} : isBoxName name = true ↔ IsWord name := by
  have halpha (c : Char) : c.isAlpha = true ↔ 'A' ≤ c ∧ c ≤ 'Z' ∨ 'a' ≤ c ∧ c ≤ 'z' := by
    change (decide ('A' ≤ c ∧ c ≤ 'Z') || (decide ('a' ≤ c) && decide (c ≤ 'z'))) = true ↔ _
    simp only [Bool.or_eq_true, Bool.and_eq_true, decide_eq_true_eq]
  simp only [isBoxName_iff, IsWord, halpha]

instance : DecidablePred IsWord := fun _ => decidable_of_iff _ isBoxName_iff_isWord

theorem isWord_defaultName (p : Primitive) : IsWord p.defaultName := by
  cases p <;> decide

namespace BoxNames

variable {names : BoxNames} {p : Primitive}

/-! ## Validation -/

theorem fault?_eq_none_iff :
    names.fault? p = none ↔ ∀ name, names.override p = some name → IsWord name := by
  cases h : names.override p <;> simp [fault?, h, isBoxName_iff_isWord]

theorem fault?_eq_some_iff {e : InvalidName} : names.fault? p = some e ↔
    p = e.primitive ∧ names.override p = some e.name ∧ ¬ IsWord e.name := by
  constructor
  · intro h
    obtain ⟨name, hname, hbad⟩ := Option.bind_eq_some_iff.1 h
    split at hbad
    · cases hbad
    · rename_i hword
      cases hbad
      exact ⟨rfl, hname, fun h => hword (isBoxName_iff_isWord.2 h)⟩
  · rintro ⟨rfl, hname, hword⟩
    rw [fault?, hname, Option.bind_some, if_neg fun h => hword (isBoxName_iff_isWord.1 h)]

theorem validate_eq_ok_iff_override : names.validate = .ok () ↔
    ∀ p name, names.override p = some name → IsWord name := by
  have hfirst : names.validate = .ok () ↔ names.firstInvalid? = none := by
    rw [validate]
    cases names.firstInvalid? <;> simp
  rw [hfirst, firstInvalid?, List.findSome?_eq_none_iff]
  simp only [fault?_eq_none_iff, Primitive.mem_all, forall_const]

/-- The bad name that is reported is that of the first primitive that has one. -/
theorem validate_eq_error_iff {e : InvalidName} : names.validate = .error e ↔
    ∃ before after, Primitive.all = before ++ e.primitive :: after ∧
      names.override e.primitive = some e.name ∧ ¬ IsWord e.name ∧
      ∀ q ∈ before, ∀ name, names.override q = some name → IsWord name := by
  have hfirst : names.validate = .error e ↔ names.firstInvalid? = some e := by
    rw [validate]
    cases names.firstInvalid? <;> simp
  rw [hfirst, firstInvalid?, List.findSome?_eq_some_iff]
  simp only [fault?_eq_none_iff, fault?_eq_some_iff]
  constructor
  · rintro ⟨before, p, after, hall, ⟨rfl, hname, hbad⟩, hbefore⟩
    exact ⟨before, after, hall, hname, hbad, hbefore⟩
  · rintro ⟨before, after, hall, hname, hbad, hbefore⟩
    exact ⟨before, e.primitive, after, hall, ⟨rfl, hname, hbad⟩, hbefore⟩

/-- Only names that were set can be bad, as the default ones are not. -/
theorem validate_eq_ok_iff : names.validate = .ok () ↔ ∀ p, isBoxName (names.name p) = true := by
  rw [validate_eq_ok_iff_override]
  refine forall_congr' fun p => ?_
  cases h : names.override p <;>
    simp [BoxNames.name, h, isBoxName_iff_isWord, isWord_defaultName]

theorem isWord_name (h : names.validate = .ok ()) (p : Primitive) : IsWord (names.name p) :=
  isBoxName_iff_isWord.1 (validate_eq_ok_iff.1 h p)

@[simp] theorem override_standard (p : Primitive) : standard.override p = none := rfl

theorem validate_standard : standard.validate = .ok () :=
  validate_eq_ok_iff_override.2 nofun

theorem override_of_validate_eq_error {e : InvalidName} (h : names.validate = .error e) :
    names.override e.primitive = some e.name := by
  obtain ⟨_, _, -, hname, -⟩ := validate_eq_error_iff.1 h
  exact hname

/-! ## Names that are assigned one after the other -/

theorem assign_eq_ite (names : BoxNames) (p : Primitive) (name : String) : assign p name names =
    if IsWord name then (.ok (), names.insert p name) else (.error ⟨name, p⟩, names) := by
  simp only [assign_eq, isBoxName_iff_isWord]

theorem override_insert (names : BoxNames) (p q : Primitive) (name : String) :
    (names.insert p name).override q = if q = p then some name else names.override q := rfl

/-- Assigns names in turn, also after a call that failed, and gives the results of the calls. -/
def assignAll (names : BoxNames) :
    List (Primitive × String) → List (Except InvalidName Unit) × BoxNames
  | [] => ([], names)
  | call :: calls =>
    let (result, names) := assign call.1 call.2 names
    let (results, names) := assignAll names calls
    (result :: results, names)

/-- The last name that is accepted for a primitive. -/
def lastAccepted (p : Primitive) (calls : List (Primitive × String)) : Option String :=
  (calls.filter fun call => call.1 = p ∧ IsWord call.2).getLast?.map Prod.snd

theorem lastAccepted_cons (p : Primitive) (call : Primitive × String)
    (calls : List (Primitive × String)) : lastAccepted p (call :: calls) =
      (lastAccepted p calls).or (if call.1 = p ∧ IsWord call.2 then some call.2 else none) := by
  rw [lastAccepted, lastAccepted, List.filter_cons]
  by_cases h : call.1 = p ∧ IsWord call.2
  · rw [if_pos (decide_eq_true h), if_pos h, List.getLast?_cons]
    cases (calls.filter fun call => call.1 = p ∧ IsWord call.2).getLast? <;> rfl
  · rw [if_neg (by simpa using h), if_neg h, Option.or_none]

@[simp] theorem assignAll_nil (names : BoxNames) : names.assignAll [] = ([], names) := rfl

@[simp] theorem assignAll_cons (names : BoxNames) (call : Primitive × String)
    (calls : List (Primitive × String)) : names.assignAll (call :: calls) =
      ((assign call.1 call.2 names).1 :: (assignAll (assign call.1 call.2 names).2 calls).1,
        (assignAll (assign call.1 call.2 names).2 calls).2) := rfl

theorem override_assign (names : BoxNames) (p q : Primitive) (name : String) :
    (assign p name names).2.override q =
      (if p = q ∧ IsWord name then some name else none).or (names.override q) := by
  rw [assign_eq_ite]
  by_cases hword : IsWord name
  · by_cases hp : p = q
    · simp [hword, hp, override_insert]
    · simp [hword, hp, override_insert, Ne.symm hp]
  · simp [hword]

theorem override_assignAll (names : BoxNames) (calls : List (Primitive × String)) (p : Primitive) :
    (names.assignAll calls).2.override p = (lastAccepted p calls).or (names.override p) := by
  induction calls generalizing names with
  | nil => rfl
  | cons call calls ih =>
    rw [assignAll_cons, ih, override_assign, lastAccepted_cons, Option.or_assoc]

theorem results_assignAll (names : BoxNames) (calls : List (Primitive × String)) :
    (names.assignAll calls).1 = calls.map fun call =>
      if IsWord call.2 then .ok () else .error ⟨call.2, call.1⟩ := by
  induction calls generalizing names with
  | nil => rfl
  | cons call calls ih =>
    rw [assignAll_cons, ih, assign_eq_ite, List.map_cons]
    split <;> rfl

theorem name_assignAll (names : BoxNames) (calls : List (Primitive × String)) (p : Primitive) :
    (names.assignAll calls).2.name p =
      ((lastAccepted p calls).or (names.override p)).getD p.defaultName := by
  rw [BoxNames.name, override_assignAll]

theorem lastAccepted_filter (p : Primitive) (calls : List (Primitive × String)) :
    lastAccepted p (calls.filter fun call => call.1 = p) = lastAccepted p calls := by
  have hsame (call : Primitive × String) :
      (decide (call.1 = p ∧ IsWord call.2) && decide (call.1 = p)) =
        decide (call.1 = p ∧ IsWord call.2) := by
    by_cases h : call.1 = p <;> simp [h]
  rw [lastAccepted, lastAccepted, List.filter_filter]
  simp only [hsame]

/-- An accepted name puts right the name of its primitive, and all others stay as they are. -/
theorem validate_assign_iff {name : String} (h : IsWord name) (names : BoxNames) (p : Primitive) :
    (assign p name names).2.validate = .ok () ↔
      ∀ q, q ≠ p → ∀ other, names.override q = some other → IsWord other := by
  rw [validate_eq_ok_iff_override]
  refine forall_congr' fun q => ?_
  by_cases hq : p = q
  · simp [override_assign, h, hq]
  · simp [override_assign, hq, Ne.symm hq]

theorem validate_assign (h : names.validate = .ok ()) (p : Primitive) (name : String) :
    (assign p name names).2.validate = .ok () := by
  by_cases hword : IsWord name
  · exact (validate_assign_iff hword names p).2 fun q _ => validate_eq_ok_iff_override.1 h q
  · rwa [assign_eq_ite, if_neg hword]

theorem validate_assignAll (h : names.validate = .ok ()) (calls : List (Primitive × String)) :
    (names.assignAll calls).2.validate = .ok () := by
  induction calls generalizing names with
  | nil => exact h
  | cons call calls ih => exact ih (validate_assign h call.1 call.2)

/-! ## Names from a table -/

/-- The entries of a configuration table that names boxes. -/
def tableEntries (renamed : List (Primitive × String)) : Toml.Entries :=
  renamed.map fun entry => (entry.1.key, .string entry.2)

def insertAll (names : BoxNames) (renamed : List (Primitive × String)) : BoxNames :=
  renamed.foldl (fun names entry => names.insert entry.1 entry.2) names

theorem names?_tableEntries (origin : Toml.TableOrigin) (renamed : List (Primitive × String)) :
    Config.names? (.table origin (tableEntries renamed)) = some (standard.insertAll renamed) := by
  rw [Config.names?, tableEntries, insertAll]
  generalize standard = names
  induction renamed generalizing names with
  | nil => rfl
  | cons entry renamed ih =>
    rw [List.map_cons, List.foldlM_cons, Primitive.ofKey?_key]
    exact ih _

/-- No name is entered over another one, so each of them stays. -/
theorem override_insertAll {renamed : List (Primitive × String)}
    (h : (renamed.map Prod.fst).Nodup) (names : BoxNames) (p : Primitive) (name : String) :
    (names.insertAll renamed).override p = some name ↔
      (p, name) ∈ renamed ∨ p ∉ renamed.map Prod.fst ∧ names.override p = some name := by
  induction renamed generalizing names with
  | nil => simp [insertAll]
  | cons entry renamed ih =>
    obtain ⟨q, entered⟩ := entry
    obtain ⟨hfresh, hrest⟩ := List.nodup_cons.1 h
    change ((names.insert q entered).insertAll renamed).override p = some name ↔ _
    rw [ih hrest, override_insert]
    by_cases hp : p = q
    · subst hp
      have habsent : (p, name) ∉ renamed := fun hmem =>
        hfresh (List.mem_map.2 ⟨(p, name), hmem, rfl⟩)
      simp_all [eq_comm]
    · simp [hp]

theorem ext_override {names' : BoxNames}
    (h : ∀ p name, names.override p = some name ↔ names'.override p = some name) :
    names = names' := by
  obtain ⟨override⟩ := names
  obtain ⟨override'⟩ := names'
  exact congrArg BoxNames.mk (funext fun p => Option.ext (h p))

/-- In which order a table names boxes makes no difference. -/
theorem names?_perm {renamed renamed' : List (Primitive × String)} (hperm : renamed.Perm renamed')
    (h : (renamed.map Prod.fst).Nodup) (origin origin' : Toml.TableOrigin) :
    ∃ names, Config.names? (.table origin (tableEntries renamed)) = some names ∧
      Config.names? (.table origin' (tableEntries renamed')) = some names ∧
      ∀ p name, names.override p = some name ↔ (p, name) ∈ renamed := by
  have h' : (renamed'.map Prod.fst).Nodup := (hperm.map Prod.fst).nodup_iff.1 h
  have hentered (p : Primitive) (name : String) :
      (standard.insertAll renamed).override p = some name ↔ (p, name) ∈ renamed := by
    simp [override_insertAll h]
  have hsame : standard.insertAll renamed' = standard.insertAll renamed := by
    refine ext_override fun p name => ?_
    simp [override_insertAll h', hentered, hperm.mem_iff]
  refine ⟨standard.insertAll renamed, names?_tableEntries origin renamed, ?_, hentered⟩
  rw [names?_tableEntries, hsame]

/-- After any calls a primitive has the last name that was accepted for it, else the one it had,
else its default one. Validation names the first bad name in the order of `Primitive.all`, whatever
was entered unchecked, and an accepted name in its place repairs it. -/
theorem names_in_force (names : BoxNames) (calls : List (Primitive × String)) :
    let last := (names.assignAll calls).2
    (∀ p name (before : BoxNames), ((assign p name before).1 = .ok () ↔ IsWord name) ∧
      ((assign p name before).1 ≠ .ok () → (assign p name before).2 = before)) ∧
    (names.assignAll calls).1 = calls.map (fun call =>
      if IsWord call.2 then .ok () else .error ⟨call.2, call.1⟩) ∧
    (∀ p, last.name p = ((lastAccepted p calls).or (names.override p)).getD p.defaultName ∧
      last.name p = (names.assignAll (calls.filter fun call => call.1 = p)).2.name p) ∧
    (last.validate = .ok () ↔ ∀ p name, last.override p = some name → IsWord name) ∧
    (∀ e, last.validate = .error e ↔
      ∃ before after, Primitive.all = before ++ e.primitive :: after ∧
        last.override e.primitive = some e.name ∧ ¬ IsWord e.name ∧
        ∀ p ∈ before, ∀ name, last.override p = some name → IsWord name) ∧
    (∀ (renamed renamed' : List (Primitive × String)) (origin origin' : Toml.TableOrigin),
      renamed.Perm renamed' → (renamed.map Prod.fst).Nodup →
      ∃ entered, Config.names? (.table origin (tableEntries renamed)) = some entered ∧
        Config.names? (.table origin' (tableEntries renamed')) = some entered ∧
        ∀ p name, entered.override p = some name ↔ (p, name) ∈ renamed) ∧
    (names = standard ∨ names.validate = .ok () →
      last.validate = .ok () ∧ ∀ p ∈ Primitive.all, IsWord (last.name p)) ∧
    ∀ p name, IsWord name → ((assign p name names).2.validate = .ok () ↔
      ∀ q, q ≠ p → ∀ other, names.override q = some other → IsWord other) := by
  intro last
  refine ⟨fun p name before => ?_, results_assignAll names calls, fun p => ⟨?_, ?_⟩,
    validate_eq_ok_iff_override, fun e => validate_eq_error_iff,
    fun renamed renamed' origin origin' hperm h => names?_perm hperm h origin origin', fun h => ?_,
    fun p name h => validate_assign_iff h names p⟩
  · rw [assign_eq_ite]
    by_cases h : IsWord name <;> simp [h]
  · exact name_assignAll names calls p
  · rw [name_assignAll, name_assignAll, lastAccepted_filter]
  · have hvalid : names.validate = .ok () := by
      rcases h with rfl | h
      · exact validate_standard
      · exact h
    have hlast : last.validate = .ok () := validate_assignAll hvalid calls
    exact ⟨hlast, fun p _ => isWord_name hlast p⟩

end BoxNames

end CircuitPicture
