import CircuitPicture.Decimal.Shortest
import Mathlib.Tactic.Ring

/-! # Finding the shortest decimal

The search returns the nearest point of the first grid that has one among the numbers that round to
the double (`coarsest_spec`). A double half way between two points of the next coarser grid is found
itself (`decimal_of_halfway`), so a number with few binary places is written with all its decimal
places (`decimal_of_places`). -/

namespace CircuitPicture.Shortest

namespace Interval

variable {i : Interval}

theorem low_le_of_contains {n : Nat} (h : i.contains n = true) : i.low ≤ n ∧ n ≤ i.high := by
  unfold contains at h
  split at h <;> simp at h <;> omega

theorem contains_value (hlow : i.low < i.value) (hhigh : i.value < i.high) :
    i.contains i.value = true := by
  unfold contains
  split <;> simp <;> omega

theorem contains_of_between {a b c : Nat} (ha : i.contains a = true) (hc : i.contains c = true)
    (hab : a ≤ b) (hbc : b ≤ c) : i.contains b = true := by
  unfold contains at ha hc ⊢
  split at ha <;> simp_all <;> omega

/-- How far a number is away from the double. -/
def distance (i : Interval) (n : Nat) : Nat := (i.value - n) + (n - i.value)

/-- The point `digits` of a grid is in the interval, and no other one there is nearer to the
double. -/
structure IsNearest (i : Interval) (grid digits : Nat) : Prop where
  contains : i.contains (digits * grid) = true
  distance_le : ∀ n, i.contains (n * grid) = true →
    i.distance (digits * grid) ≤ i.distance (n * grid)

theorem below_le_value (grid : Nat) : i.value / grid * grid ≤ i.value := Nat.div_mul_le_self _ _

theorem value_lt_above {grid : Nat} (hgrid : 0 < grid) :
    i.value < (i.value / grid + 1) * grid := by
  rw [Nat.mul_comm]
  exact Nat.lt_mul_div_succ _ hgrid

/-- No point of a grid lies between the two around the double. -/
theorem le_below_or_above_le (grid n : Nat) :
    n * grid ≤ i.value / grid * grid ∨ (i.value / grid + 1) * grid ≤ n * grid := by
  rcases Nat.lt_or_ge (i.value / grid) n with hlt | hge
  · exact .inr (Nat.mul_le_mul_right _ hlt)
  · exact .inl (Nat.mul_le_mul_right _ hge)

section Grid

variable {grid digits : Nat} (hgrid : 0 < grid) (hvalue : i.contains i.value = true)
include hgrid hvalue

theorem not_contains_of_onGrid?_eq_none (h : i.onGrid? grid = none) (n : Nat) :
    i.contains (n * grid) = false := by
  obtain ⟨hbelow, habove⟩ : i.contains (i.value / grid * grid) = false ∧
      i.contains ((i.value / grid + 1) * grid) = false := by
    unfold onGrid? at h
    dsimp only at h
    split at h
    · split at h <;> cases h
    · cases h
    · cases h
    · exact ⟨‹_›, ‹_›⟩
  rw [← Bool.not_eq_true]
  intro hin
  rcases le_below_or_above_le (i := i) grid n with hle | hle
  · simp [contains_of_between hin hvalue hle (below_le_value grid)] at hbelow
  · simp [contains_of_between hvalue hin (value_lt_above hgrid).le hle] at habove

theorem isNearest_of_onGrid? (h : i.onGrid? grid = some digits) : i.IsNearest grid digits := by
  have hbelow := below_le_value (i := i) grid
  have habove := value_lt_above (i := i) hgrid
  have hpoints := le_below_or_above_le (i := i) grid
  -- a point of the grid on the far side of one that does not lie in the interval does not either
  have hlower (n : Nat) (hin : i.contains (n * grid) = true)
      (hle : n * grid ≤ i.value / grid * grid) : i.contains (i.value / grid * grid) = true :=
    contains_of_between hin hvalue hle hbelow
  have hupper (n : Nat) (hin : i.contains (n * grid) = true)
      (hle : (i.value / grid + 1) * grid ≤ n * grid) :
      i.contains ((i.value / grid + 1) * grid) = true :=
    contains_of_between hvalue hin habove.le hle
  unfold onGrid? at h
  dsimp only at h
  split at h
  · rename_i hin hin'
    split at h <;> cases h
    · refine ⟨hin, fun n hn => ?_⟩
      have := hpoints n
      unfold distance
      omega
    · refine ⟨hin', fun n hn => ?_⟩
      have := hpoints n
      unfold distance
      omega
  · rename_i hin hout
    cases h
    refine ⟨hin, fun n hn => ?_⟩
    have hle := (hpoints n).resolve_right fun hle => by simp [hupper n hn hle] at hout
    unfold distance
    omega
  · rename_i hout hin
    cases h
    refine ⟨hin, fun n hn => ?_⟩
    have hle := (hpoints n).resolve_left fun hle => by simp [hlower n hn hle] at hout
    unfold distance
    omega
  · cases h

end Grid

/-- The search ends with the nearest point of the coarsest grid that has one in the interval. -/
theorem coarsest_spec (hvalue : i.contains i.value = true) (n : Nat) :
    i.IsNearest (10 ^ (i.coarsest n).2) (i.coarsest n).1 ∧
      ∀ j, (i.coarsest n).2 < j → j ≤ n → ∀ p, i.contains (p * 10 ^ j) = false := by
  induction n with
  | zero =>
    have hone : i.value * 10 ^ 0 = i.value := by rw [Nat.pow_zero, Nat.mul_one]
    have hself : i.distance i.value = 0 := by simp [distance]
    refine ⟨⟨?_, fun p _ => ?_⟩, fun j hj hle => by omega⟩
    · rwa [coarsest, hone]
    · rw [coarsest, hone, hself]
      exact Nat.zero_le _
  | succ n ih =>
    have hgrid : 0 < 10 ^ (n + 1) := Nat.pow_pos (by decide)
    rw [coarsest, Nat.pow_eq]
    split
    · rename_i digits hfound
      exact ⟨isNearest_of_onGrid? hgrid hvalue hfound, fun j hj hle => by omega⟩
    · rename_i hnone
      refine ⟨ih.1, fun j hj hle => ?_⟩
      rcases Nat.eq_or_lt_of_le hle with rfl | hlt
      · exact not_contains_of_onGrid?_eq_none hgrid hvalue hnone
      · exact ih.2 j hj (Nat.le_of_lt_succ hlt)

/-- Points of a coarser grid are at least half a step of it away from a point half way between two
of them. -/
theorem not_contains_of_halfway {digits k j : Nat} (hhalf : digits % 10 = 5)
    (hvalue : i.value = digits * 10 ^ k) (hlow : i.value < i.low + 5 * 10 ^ k)
    (hhigh : i.high < i.value + 5 * 10 ^ k) (hj : k < j) (n : Nat) :
    i.contains (n * 10 ^ j) = false := by
  rw [← Bool.not_eq_true]
  intro hin
  obtain ⟨hlow', hhigh'⟩ := low_le_of_contains hin
  obtain ⟨d, rfl⟩ := Nat.exists_eq_add_of_lt hj
  have hpoint : n * 10 ^ (k + d + 1) = 10 * (n * 10 ^ d) * 10 ^ k := by
    rw [Nat.pow_succ, Nat.pow_add]
    ring
  have hbelow : 10 * (n * 10 ^ d) < digits + 5 := by
    refine Nat.lt_of_mul_lt_mul_right (a := 10 ^ k) ?_
    rw [← hpoint, Nat.add_mul, ← hvalue]
    omega
  have habove : digits < 10 * (n * 10 ^ d) + 5 := by
    refine Nat.lt_of_mul_lt_mul_right (a := 10 ^ k) ?_
    rw [Nat.add_mul, ← hpoint, ← hvalue]
    omega
  omega

theorem coarsest_of_halfway {digits k n : Nat} (hn : k ≤ n) (hhalf : digits % 10 = 5)
    (hvalue : i.value = digits * 10 ^ k) (hin : i.contains i.value = true)
    (hlow : i.value < i.low + 5 * 10 ^ k) (hhigh : i.high < i.value + 5 * 10 ^ k) :
    i.coarsest n = (digits, k) := by
  obtain ⟨hnearest, hnone⟩ := coarsest_spec hin n
  generalize i.coarsest n = found at hnearest hnone ⊢
  obtain ⟨digits', k'⟩ := found
  dsimp only at hnearest hnone
  have hself : i.distance (digits * 10 ^ k) = 0 := by simp [distance, hvalue]
  rw [hvalue] at hin
  -- a finer grid is not reached, and on a coarser one there is nothing to be found
  obtain rfl : k' = k := by
    rcases Nat.lt_trichotomy k' k with hlt | heq | hgt
    · simp [hnone k hlt hn digits] at hin
    · exact heq
    · have hout := not_contains_of_halfway hhalf hvalue hlow hhigh hgt digits'
      simp [hnearest.contains] at hout
  have hdistance : i.distance (digits' * 10 ^ k') = 0 :=
    Nat.le_zero.1 (hself ▸ hnearest.distance_le digits hin)
  have hdigits : digits' * 10 ^ k' = digits * 10 ^ k' := by
    unfold distance at hdistance
    omega
  rw [Nat.mul_right_cancel (Nat.pow_pos (by decide)) hdigits]

end Interval

theorem low_interval {m : Nat} (hm : 0 < m) :
    (interval m).low < 4 * m ∧ 4 * m ≤ (interval m).low + 2 := by
  simp only [interval]
  split <;> omega

/-- A double that is on a decimal grid, half way between two points of the next coarser one, has
its own digits on that grid, if no other number that rounds to it is as far away as those points. -/
theorem decimal_of_halfway {m digits k places : Nat} {q : Int} (hm : 0 < m) (hq : 2 - q = places)
    (hplaces : 0 < places) (hk : 0 < k) (hhalf : digits % 10 = 5)
    (hvalue : 4 * m * 5 ^ places = digits * 10 ^ k) (hradius : 2 * 5 ^ places < 5 * 10 ^ k) :
    decimal m q = (digits, (k : Int) - places) := by
  have hunit : 0 < 5 ^ places := Nat.pow_pos (by decide)
  obtain ⟨hlow, hlow'⟩ := low_interval hm
  rw [decimal, hq, Int.toNat_natCast, if_neg (by omega), Nat.pow_eq]
  dsimp only
  generalize hi : (interval m).scale (5 ^ places) = i
  have hivalue : i.value = digits * 10 ^ k := by
    rw [← hvalue, ← hi]
    rfl
  have hilow : i.low < i.value ∧ i.value ≤ i.low + 2 * 5 ^ places := by
    rw [← hi]
    simp only [Interval.scale, interval] at hlow hlow' ⊢
    rw [← Nat.add_mul]
    exact ⟨Nat.mul_lt_mul_of_pos_right hlow hunit, Nat.mul_le_mul_right _ hlow'⟩
  have hihigh : i.high = i.value + 2 * 5 ^ places := by
    rw [← hi]
    exact Nat.add_mul _ _ _
  have hin : i.contains i.value = true := Interval.contains_value hilow.1 (by omega)
  have hlength : k ≤ (Nat.toDigits 10 i.high).length := by
    by_contra hshort
    have hhigh : i.high < 10 ^ k :=
      (Nat.length_toDigits_le_iff (by decide) hk).1 (Nat.le_of_not_le hshort)
    have hdigits : 10 ^ k ≤ digits * 10 ^ k := Nat.le_mul_of_pos_left _ (by omega)
    omega
  rw [Interval.coarsest_of_halfway hlength hhalf hivalue hin (by omega) (by omega)]

theorem odd_mul_five_pow {h a : Nat} (hodd : h % 2 = 1) (ha : 0 < a) : h * 5 ^ a % 10 = 5 := by
  obtain ⟨a, rfl⟩ := Nat.exists_eq_succ_of_ne_zero (Nat.ne_of_gt ha)
  have hpow : 5 ^ a % 2 = 1 := by rw [Nat.pow_mod, Nat.one_pow]
  have hproduct : h * 5 ^ a % 2 = 1 := by rw [Nat.mul_mod, hodd, hpow]
  rw [Nat.pow_succ, ← Nat.mul_assoc]
  omega

/-- The number `h / 2 ^ a` has `a` decimal places. It is written with all of them if the spacing of
the doubles around it, which is `2 ^ (-a - b)`, is fine enough. -/
theorem decimal_of_places {h a b : Nat} (hodd : h % 2 = 1) (ha : 0 < a)
    (hfine : 5 ^ a < 10 * 2 ^ b) : decimal (h * 2 ^ b) (-a - b) = (h * 5 ^ a, -(a : Int)) := by
  have hten : 10 ^ (b + 2) = 4 * 2 ^ b * 5 ^ (b + 2) := by
    rw [Nat.mul_comm 4, ← Nat.pow_add 2 b 2, ← Nat.mul_pow]
  have hplaces : 5 ^ (a + b + 2) = 5 ^ a * 5 ^ (b + 2) := by
    rw [Nat.add_assoc, Nat.pow_add]
  have hvalue : 4 * (h * 2 ^ b) * 5 ^ (a + b + 2) = h * 5 ^ a * 10 ^ (b + 2) := by
    rw [hten, hplaces]
    ring
  have hradius : 2 * 5 ^ (a + b + 2) < 5 * 10 ^ (b + 2) := by
    rw [hten, hplaces, ← Nat.mul_assoc, ← Nat.mul_assoc]
    exact Nat.mul_lt_mul_of_pos_right (by omega) (Nat.pow_pos (by decide))
  rw [decimal_of_halfway (Nat.mul_pos (by omega) (Nat.two_pow_pos b)) (by push_cast; ring)
    (by omega) (by omega) (odd_mul_five_pow hodd ha) hvalue hradius]
  congr 1
  push_cast
  ring

end CircuitPicture.Shortest
