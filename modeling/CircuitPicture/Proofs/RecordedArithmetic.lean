import CircuitPicture.Proofs.DoubleValues
import CircuitPicture.Proofs.NumberTypes
import Mathlib.Algebra.Order.Field.Basic
import Mathlib.Tactic.Linarith
import Mathlib.Tactic.LinearCombination

/-! # Recorded arithmetic

A number is computed twice, exactly and in doubles, and remembers all results on the way to it
(`Recorded`). Nothing is rounded in sums, differences and products of quarters that stay small
enough (`Holds.add`, `Holds.sub`, `Holds.mul`). -/

namespace CircuitPicture
open Double

/-- A number that was computed as a rational number and as a double, and before it the results of
all operations that led to it, in both forms. -/
structure Recorded where
  exact : Rat
  double : Float
  before : List (Rat × Float)

namespace Recorded

/-- All results of the computation, its last one included. -/
def results (c : Recorded) : List (Rat × Float) := c.before ++ [(c.exact, c.double)]

instance : Scalar Recorded where
  add a b := ⟨a.exact + b.exact, a.double + b.double, a.results ++ b.results⟩
  sub a b := ⟨a.exact - b.exact, a.double - b.double, a.results ++ b.results⟩
  mul a b := ⟨a.exact * b.exact, a.double * b.double, a.results ++ b.results⟩
  ofNat n := ⟨Scalar.ofNat n, Scalar.ofNat n, []⟩
  quarters k := ⟨Scalar.quarters k, Scalar.quarters k, []⟩

theorem exact_hom : ScalarHom exact where
  add _ _ := rfl
  sub _ _ := rfl
  mul _ _ := rfl
  ofNat _ := rfl
  quarters _ := rfl

theorem double_hom : ScalarHom double where
  add _ _ := rfl
  sub _ _ := rfl
  mul _ _ := rfl
  ofNat _ := rfl
  quarters _ := rfl

end Recorded

/-- A result that is a multiple of 1/4 below `2 ^ 51`, and that its double stands for. -/
structure Unrounded (exact : Rat) (double : Float) : Prop where
  quarters : ∃ k : Int, exact = k / 4
  lt : |exact| < 2 ^ 51
  value : value? double = some exact

theorem unrounded_quarter {k : Int} (hk : k.natAbs < 2 ^ 53) : Unrounded (k / 4) (quarter k) where
  quarters := ⟨k, rfl⟩
  lt := by
    have habs : (|k| : Int) < 2 ^ 53 := by
      rw [Int.abs_eq_natAbs]
      omega
    have habs' : |(k : Rat)| < 2 ^ 53 := by exact_mod_cast habs
    rw [abs_div, abs_of_pos (by norm_num : (0 : Rat) < 4), div_lt_iff₀ (by norm_num)]
    linarith
  value := value?_quarter hk

namespace Recorded

/-- The number is `k / 4`, and so far nothing has been rounded. -/
structure Holds (c : Recorded) (k : Int) : Prop where
  exact : c.exact = k / 4
  double : c.double = quarter k
  lt : k.natAbs < 2 ^ 53
  before : ∀ r ∈ c.before, Unrounded r.1 r.2

/-- The number is a quarter, and nothing has been rounded on the way to it. -/
def Exact (c : Recorded) : Prop := ∃ k, c.Holds k

namespace Holds

variable {a b : Recorded}

theorem of_eq {j k : Int} (h : a.Holds j) (hjk : j = k) : a.Holds k := hjk ▸ h

theorem results {k : Int} (h : a.Holds k) : ∀ r ∈ a.results, Unrounded r.1 r.2 := by
  intro r hr
  rcases List.mem_append.1 hr with hbefore | hlast
  · exact h.before r hbefore
  · rw [List.mem_singleton.1 hlast, h.exact, h.double]
    exact unrounded_quarter h.lt

theorem results_append {j k : Int} (ha : a.Holds j) (hb : b.Holds k) :
    ∀ r ∈ a.results ++ b.results, Unrounded r.1 r.2 :=
  List.forall_mem_append.2 ⟨ha.results, hb.results⟩

theorem add {j k : Int} (ha : a.Holds j) (hb : b.Holds k) (hlt : (j + k).natAbs < 2 ^ 53) :
    (a + b).Holds (j + k) where
  exact := by
    change a.exact + b.exact = _
    rw [ha.exact, hb.exact]
    push_cast
    ring
  double := by
    change a.double + b.double = _
    rw [ha.double, hb.double, quarter_add ha.lt hb.lt hlt]
  lt := hlt
  before := ha.results_append hb

theorem sub {j k : Int} (ha : a.Holds j) (hb : b.Holds k) (hlt : (j - k).natAbs < 2 ^ 53) :
    (a - b).Holds (j - k) where
  exact := by
    change a.exact - b.exact = _
    rw [ha.exact, hb.exact]
    push_cast
    ring
  double := by
    change a.double - b.double = _
    rw [ha.double, hb.double, quarter_sub ha.lt hb.lt hlt]
  lt := hlt
  before := ha.results_append hb

theorem mul {j k l : Nat} (ha : a.Holds j) (hb : b.Holds k) (hprod : j * k = 4 * l)
    (hlt : l < 2 ^ 53) : (a * b).Holds l where
  exact := by
    have hprod' : (j : Rat) * k = 4 * l := by exact_mod_cast hprod
    change a.exact * b.exact = _
    rw [ha.exact, hb.exact]
    push_cast
    linear_combination hprod' / 16
  double := by
    have hj := ha.lt
    have hk := hb.lt
    change a.double * b.double = _
    rw [ha.double, hb.double]
    exact quarter_mul (by omega) (by omega) hlt hprod
  lt := by omega
  before := ha.results_append hb

end Holds

theorem holds_ofNat {n : Nat} (hn : n < 2 ^ 51) :
    (Scalar.ofNat n : Recorded).Holds (4 * n : Nat) where
  exact := by
    change (n : Rat) = _
    push_cast
    ring
  double := (ofNat_eq_quarter hn).trans (by push_cast; rfl)
  lt := by omega
  before := nofun

/-- The numbers that the raster and the stamps are made of. -/
theorem holds_quarters {k : Int} (hk : k ∈ [-9, -6, 0, 3, 6, 9]) :
    (Scalar.quarters k : Recorded).Holds k where
  exact := rfl
  double := by
    change (Scalar.quarters k : Float) = quarter k
    simp only [List.mem_cons, List.not_mem_nil, or_false] at hk
    rcases hk with rfl | rfl | rfl | rfl | rfl | rfl <;> decide +kernel
  lt := by
    simp only [List.mem_cons, List.not_mem_nil, or_false] at hk
    omega
  before := nofun

end Recorded

end CircuitPicture
