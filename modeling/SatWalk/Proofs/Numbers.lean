import Mathlib.Algebra.Order.Field.Basic
import Mathlib.Algebra.Order.Ring.Rat
import Mathlib.Tactic.Linarith
import Mathlib.Tactic.Positivity
import SatWalk.Config
import SatWalk.Walk

namespace SatWalk

namespace MachineReal

variable {R : Type} [MachineReal R]

def IsNumber (x : R) : Prop := same x x = true

instance (x : R) : Decidable (IsNumber x) := inferInstanceAs (Decidable (same x x = true))

def IsCold (x : R) : Prop := IsNumber x ∧ less zero x = false

def IsBase (x : R) : Prop := IsNumber x ∧ less x one = false

def IsUsable (x : R) : Prop := (toRat? x).isSome = true ∧ less zero x = true

/-- Arithmetic that rounds without passing zero or one. -/
class LawfulArithmetic (R : Type) [MachineReal R] : Prop where
  number_one : IsNumber (one : R)
  cold_nearest : ∀ {q : Rat} {x : R}, nearest? q = some x → q ≤ 0 → IsCold x
  base_nearest : ∀ {q : Rat} {x : R}, nearest? q = some x → 1 ≤ q → IsBase x
  cold_neg : ∀ {t : R}, IsUsable t → IsCold (neg t)
  cold_mul : ∀ {q : Rat} {t x : R}, IsUsable t → 0 ≤ q → nearest? q = some x → IsCold (mul (neg t) x)
  base_div : ∀ {q : Rat} {c x : R}, IsUsable c → 0 ≤ q → nearest? q = some x → IsBase (div (add c x) c)

end MachineReal

open MachineReal

section
variable {R : Type} [MachineReal R]

namespace Scalar

theorem usable_real {x : R} (h : (real x).isUsable? = some true) : IsUsable x := by
  simp only [isUsable?, Option.some.injEq, Bool.and_eq_true] at h
  exact h

theorem usable_int {n : Int} (h : (int n : Scalar R).isUsable? = some true) : 0 < n := by
  obtain ⟨x, -, hx⟩ := Option.map_eq_some_iff.1 h
  exact of_decide_eq_true hx

end Scalar

namespace Weighting

variable {w : Weighting R} {b : Nat} {x : R}

theorem isSome_weight {bound : Rat}
    (hnear : ∀ q : Rat, 0 ≤ q → q ≤ bound → (nearest? q : Option R).isSome)
    {t : R} (ht : w.temperature = .real t) (hc : w.offset.isUsable? = some true)
    (hb : 1 + (b : Rat) ≤ bound) : (w.weight? b).isSome := by
  have hcount : (nearest? (b : Rat) : Option R).isSome :=
    hnear _ (Nat.cast_nonneg b) ((le_add_of_nonneg_left zero_le_one).trans hb)
  unfold weight?
  cases w.family with
  | exponential =>
    simp only [cooled?, ht, Option.isSome_map]
    exact hcount
  | powerLaw =>
    have hratio : (w.ratio? b).isSome := by
      unfold ratio?
      cases hoffset : w.offset with
      | int c =>
        rw [hoffset] at hc
        have hpos : (1 : Rat) ≤ c := by exact_mod_cast Scalar.usable_int hc
        have hvalue : ((c + b : Int) : Rat) / (c : Rat) = 1 + b / c := by
          push_cast
          rw [add_div, div_self (by linarith)]
        apply hnear
        · rw [hvalue]
          positivity
        · rw [hvalue]
          have hle : (b : Rat) / c ≤ b := div_le_self (Nat.cast_nonneg b) hpos
          linarith
      | real c =>
        simp only [Option.isSome_map]
        exact hcount
    obtain ⟨x, hx⟩ := Option.isSome_iff_exists.1 hratio
    simp only [hx, negatedTemperature?, ht]
    rfl
  | uniform => rfl

variable [LawfulArithmetic R]

theorem cold_cooled (ht : w.temperature.isUsable? = some true) (h : w.cooled? b = some x) :
    IsCold x := by
  unfold cooled? at h
  cases htemp : w.temperature with
  | int t =>
    rw [htemp] at ht h
    have hpos : 0 < t := Scalar.usable_int ht
    apply LawfulArithmetic.cold_nearest h
    have hneg : -t ≤ 0 := by omega
    have hprod : -t * (b : Int) ≤ 0 := Int.mul_nonpos_of_nonpos_of_nonneg hneg (Int.natCast_nonneg b)
    exact_mod_cast hprod
  | real t =>
    rw [htemp] at ht h
    obtain ⟨y, hy, rfl⟩ := Option.map_eq_some_iff.1 h
    exact LawfulArithmetic.cold_mul (Scalar.usable_real ht) (Nat.cast_nonneg b) hy

theorem base_ratio (hc : w.offset.isUsable? = some true) (h : w.ratio? b = some x) : IsBase x := by
  unfold ratio? at h
  cases hoffset : w.offset with
  | int c =>
    rw [hoffset] at hc h
    have hpos : 0 < c := Scalar.usable_int hc
    apply LawfulArithmetic.base_nearest h
    have hposq : (0 : Rat) < c := by exact_mod_cast hpos
    rw [le_div_iff₀ hposq, one_mul]
    push_cast
    exact le_add_of_nonneg_right (Nat.cast_nonneg b)
  | real c =>
    rw [hoffset] at hc h
    obtain ⟨y, hy, rfl⟩ := Option.map_eq_some_iff.1 h
    exact LawfulArithmetic.base_div (Scalar.usable_real hc) (Nat.cast_nonneg b) hy

theorem cold_negatedTemperature (ht : w.temperature.isUsable? = some true)
    (h : w.negatedTemperature? = some x) : IsCold x := by
  unfold negatedTemperature? at h
  cases htemp : w.temperature with
  | int t =>
    rw [htemp] at ht h
    have hpos : 0 < t := Scalar.usable_int ht
    apply LawfulArithmetic.cold_nearest h
    have hneg : -t ≤ 0 := by omega
    exact_mod_cast hneg
  | real t =>
    rw [htemp] at ht h
    cases h
    exact LawfulArithmetic.cold_neg (Scalar.usable_real ht)

theorem number_weight (hexp : ∀ x : R, IsCold x → IsNumber (exp x))
    (hpow : ∀ x y : R, IsBase x → IsCold y → IsNumber (pow x y))
    (ht : w.temperature.isUsable? = some true) (hc : w.offset.isUsable? = some true)
    (h : w.weight? b = some x) : IsNumber x := by
  unfold weight? at h
  cases hfamily : w.family with
  | exponential =>
    rw [hfamily] at h
    obtain ⟨y, hy, rfl⟩ := Option.map_eq_some_iff.1 h
    exact hexp y (cold_cooled ht hy)
  | powerLaw =>
    rw [hfamily] at h
    obtain ⟨y, hy, hpower⟩ := Option.bind_eq_some_iff.1 h
    obtain ⟨z, hz, rfl⟩ := Option.map_eq_some_iff.1 hpower
    exact hpow y z (base_ratio hc hy) (cold_negatedTemperature ht hz)
  | uniform =>
    rw [hfamily] at h
    cases h
    exact LawfulArithmetic.number_one

end Weighting

omit [MachineReal R] in
theorem Weighting.number_toValue (x : Scalar R) : Weighting.number x.toValue = .ok x := by
  cases x <;> rfl

omit [MachineReal R] in
theorem Family.of_name (f : Family) : Family.of (.text f.name : Value R) = .ok f := by
  cases f <;> rfl

theorem Scalar.isNegative_of_usable (hpos : ∀ x : R, IsUsable x → MachineReal.less x zero = false)
    {x : Scalar R} (h : x.isUsable? = some true) : x.isNegative = false := by
  cases x with
  | int n =>
    have hn := usable_int h
    exact decide_eq_false (by omega)
  | real x => exact hpos x (usable_real h)

theorem Scalar.isAtMostZero_of_usable
    (hpos : ∀ x : R, IsUsable x → MachineReal.less x zero = false ∧ toRat? x ≠ some 0) {x : Scalar R}
    (h : x.isUsable? = some true) : x.isAtMostZero = false := by
  have hneg := isNegative_of_usable (fun x hx => (hpos x hx).1) h
  have hsame : x.same (.int 0) = false := by
    cases x with
    | int n =>
      have hn := usable_int h
      exact beq_false_of_ne (by omega)
    | real x => exact beq_false_of_ne (hpos x (usable_real h)).2
  rw [isAtMostZero, hneg, hsame]
  rfl

theorem Config.weighting_of
    (hpos : ∀ x : R, IsUsable x → MachineReal.less x zero = false ∧ toRat? x ≠ some 0) (c : Config R) :
    Weighting.of (.text c.family.name) c.temperature.toValue c.offset.toValue = .ok c.weighting := by
  have htemperature := Scalar.isNegative_of_usable (fun x hx => (hpos x hx).1) c.temperature_usable
  have hoffset := Scalar.isAtMostZero_of_usable hpos c.offset_usable
  simp only [Weighting.of, Weighting.number_toValue, bind, Except.bind, htemperature, hoffset,
    Family.of_name]
  rfl

end

end SatWalk
