import Mathlib.Algebra.Order.Field.Basic
import Mathlib.Algebra.Order.Field.Power
import Mathlib.Algebra.Order.Field.Rat
import Mathlib.Tactic.Linarith
import Mathlib.Tactic.Ring
import SatWalk.Binary64

namespace SatWalk

namespace Binary64

theorem roundQuotient_bounds (num den : Nat) :
    num / den ≤ roundQuotient num den ∧ roundQuotient num den ≤ num / den + 1 := by
  simp only [roundQuotient]
  split <;> omega

theorem le_roundQuotient {num den n : Nat} (hden : 0 < den) (h : n * den ≤ num) :
    n ≤ roundQuotient num den :=
  ((Nat.le_div_iff_mul_le hden).2 h).trans (roundQuotient_bounds num den).1

theorem roundQuotient_le {num den n : Nat} (hden : 0 < den) (h : num < n * den) :
    roundQuotient num den ≤ n := by
  have hlt : num / den < n := (Nat.div_lt_iff_lt_mul hden).2 h
  have hle := (roundQuotient_bounds num den).2
  omega

theorem roundQuotient_lt_iff {num den n : Nat} (hden : 0 < den) (hn : n % 2 = 0) :
    roundQuotient num den < n ↔ 2 * num + den < 2 * (n * den) := by
  have hsplit : den * (num / den) + num % den = num := Nat.div_add_mod num den
  have hrem : num % den < den := Nat.mod_lt num hden
  have hround := roundQuotient_bounds num den
  rw [Nat.mul_comm n den]
  obtain hlt | rfl | hgt := Nat.lt_trichotomy (num / den + 1) n
  · have hmul : den * (num / den + 2) ≤ den * n := Nat.mul_le_mul_left den hlt
    rw [Nat.mul_add] at hmul
    omega
  · have hodd : num / den % 2 = 1 := by omega
    simp only [roundQuotient, hodd, and_true]
    rw [Nat.mul_add, Nat.mul_one]
    split <;> omega
  · have hmul : den * n ≤ den * (num / den) := Nat.mul_le_mul_left den (by omega)
    omega

def mantissaAt (s : Int) (num den : Nat) : Nat :=
  if 0 ≤ s then roundQuotient num (den <<< s.toNat) else roundQuotient (num <<< (-s).toNat) den

theorem two_zpow_toNat {s : Int} (hs : 0 ≤ s) : (2 : Rat) ^ s = ((2 ^ s.toNat : Nat) : Rat) := by
  obtain ⟨n, rfl⟩ := Int.eq_ofNat_of_zero_le hs
  rw [Int.toNat_natCast, zpow_natCast, Nat.cast_pow, Nat.cast_ofNat]

theorem mul_zpow_le_iff {s : Int} (hs : ¬ 0 ≤ s) (x y : Rat) :
    x * (2 : Rat) ^ s ≤ y ↔ x ≤ y * ((2 ^ (-s).toNat : Nat) : Rat) := by
  rw [← two_zpow_toNat (by omega), zpow_neg, ← div_eq_mul_inv, le_div_iff₀ (zpow_pos (by norm_num) s)]

theorem le_mantissaAt {s : Int} {num den n : Nat} (hden : 0 < den)
    (h : (n : Rat) * den * (2 : Rat) ^ s ≤ num) : n ≤ mantissaAt s num den := by
  unfold mantissaAt
  split
  · next hs =>
    apply le_roundQuotient (by rw [Nat.shiftLeft_eq]; positivity)
    rw [two_zpow_toNat hs] at h
    rw [Nat.shiftLeft_eq, ← Nat.mul_assoc]
    exact_mod_cast h
  · next hs =>
    apply le_roundQuotient hden
    rw [mul_zpow_le_iff hs] at h
    rw [Nat.shiftLeft_eq]
    exact_mod_cast h

theorem mantissaAt_le {s : Int} {num den n : Nat} (hden : 0 < den)
    (h : (num : Rat) < n * den * (2 : Rat) ^ s) : mantissaAt s num den ≤ n := by
  unfold mantissaAt
  split
  · next hs =>
    apply roundQuotient_le (by rw [Nat.shiftLeft_eq]; positivity)
    rw [two_zpow_toNat hs] at h
    rw [Nat.shiftLeft_eq, ← Nat.mul_assoc]
    exact_mod_cast h
  · next hs =>
    apply roundQuotient_le hden
    rw [← not_le, mul_zpow_le_iff hs, not_le] at h
    rw [Nat.shiftLeft_eq]
    exact_mod_cast h

theorem log2_bounds {n : Nat} (hn : 0 < n) :
    (2 : Rat) ^ (n.log2 : Int) ≤ n ∧ (n : Rat) < (2 : Rat) ^ ((n.log2 : Int) + 1) := by
  constructor
  · rw [zpow_natCast]
    exact_mod_cast Nat.log2_self_le (Nat.ne_of_gt hn)
  · rw [← Nat.cast_one, ← Nat.cast_add, zpow_natCast]
    exact_mod_cast Nat.lt_log2_self

theorem quotient_bounds {num den : Nat} (hnum : 0 < num) (hden : 0 < den) :
    (den : Rat) * (2 : Rat) ^ ((num.log2 : Int) - den.log2 - 1) ≤ num ∧
      (num : Rat) < den * (2 : Rat) ^ ((num.log2 : Int) - den.log2 + 1) := by
  obtain ⟨hnlo, hnhi⟩ := log2_bounds hnum
  obtain ⟨hdlo, hdhi⟩ := log2_bounds hden
  have hne : (2 : Rat) ≠ 0 := by norm_num
  constructor
  · calc (den : Rat) * (2 : Rat) ^ ((num.log2 : Int) - den.log2 - 1)
        ≤ (2 : Rat) ^ ((den.log2 : Int) + 1) * (2 : Rat) ^ ((num.log2 : Int) - den.log2 - 1) :=
          mul_le_mul_of_nonneg_right hdhi.le (zpow_nonneg (by norm_num) _)
      _ = (2 : Rat) ^ (num.log2 : Int) := by
          rw [← zpow_add₀ hne]
          congr 1
          omega
      _ ≤ num := hnlo
  · calc (num : Rat) < (2 : Rat) ^ ((num.log2 : Int) + 1) := hnhi
      _ = (2 : Rat) ^ (den.log2 : Int) * (2 : Rat) ^ ((num.log2 : Int) - den.log2 + 1) := by
          rw [← zpow_add₀ hne]
          congr 1
          omega
      _ ≤ den * (2 : Rat) ^ ((num.log2 : Int) - den.log2 + 1) :=
          mul_le_mul_of_nonneg_right hdlo (zpow_nonneg (by norm_num) _)

theorem reached_iff (k : Int) (num den : Nat) :
    (if 0 ≤ k then den <<< k.toNat ≤ num else den ≤ num <<< (-k).toNat) ↔
      (den : Rat) * (2 : Rat) ^ k ≤ num := by
  split
  · next hk =>
    rw [two_zpow_toNat hk, Nat.shiftLeft_eq]
    exact_mod_cast Iff.rfl
  · next hk =>
    rw [mul_zpow_le_iff hk, Nat.shiftLeft_eq]
    exact_mod_cast Iff.rfl

theorem scaleOf_spec {num den : Nat} (hnum : 0 < num) (hden : 0 < den) :
    ∃ e : Int, scaleOf num den = max (e - 52) minScale ∧ (den : Rat) * (2 : Rat) ^ e ≤ num ∧
      (num : Rat) < den * (2 : Rat) ^ (e + 1) := by
  obtain ⟨hlo, hhi⟩ := quotient_bounds hnum hden
  simp only [scaleOf]
  generalize (num.log2 : Int) - den.log2 = k at hlo hhi
  have hreached := reached_iff k num den
  by_cases h : (den : Rat) * (2 : Rat) ^ k ≤ num
  · refine ⟨k, ?_, h, hhi⟩
    rw [if_pos (hreached.2 h)]
  · refine ⟨k - 1, ?_, hlo, ?_⟩
    · rw [if_neg (hreached.not.2 h)]
    · rw [sub_add_cancel]
      exact not_le.1 h

theorem bitsOf_eq {num den : Nat} (hnum : 0 < num) : bitsOf num den =
    (scaleOf num den - minScale).toNat * hidden + mantissaAt (scaleOf num den) num den := by
  rw [bitsOf, if_neg (Nat.ne_of_gt hnum)]
  rfl

def limit : Nat := (2 ^ 54 - 1) * 2 ^ 970

theorem mantissaAt_scaleOf_le {num den : Nat} (hden : 0 < den) {e : Int}
    (hscale : scaleOf num den = max (e - 52) minScale) (hhi : (num : Rat) < den * (2 : Rat) ^ (e + 1)) :
    mantissaAt (scaleOf num den) num den ≤ 2 * hidden := by
  apply mantissaAt_le hden
  apply hhi.trans_le
  have hpow : (2 : Rat) ^ (e + 1) ≤ (2 : Rat) ^ (53 : Int) * (2 : Rat) ^ scaleOf num den := by
    rw [← zpow_add₀ (by norm_num)]
    exact zpow_le_zpow_right₀ (by norm_num) (by omega)
  calc (den : Rat) * (2 : Rat) ^ (e + 1)
      ≤ den * ((2 : Rat) ^ (53 : Int) * (2 : Rat) ^ scaleOf num den) :=
        mul_le_mul_of_nonneg_left hpow (Nat.cast_nonneg den)
    _ = ((2 * hidden : Nat) : Rat) * den * (2 : Rat) ^ scaleOf num den := by
        rw [hidden]
        push_cast
        ring

theorem le_mantissaAt_scaleOf {num den : Nat} (hden : 0 < den) {e : Int}
    (hscale : scaleOf num den = e - 52) (hlo : (den : Rat) * (2 : Rat) ^ e ≤ num) :
    hidden ≤ mantissaAt (scaleOf num den) num den := by
  apply le_mantissaAt hden
  rw [hscale]
  apply le_trans (le_of_eq _) hlo
  have hsplit : (2 : Rat) ^ e = (2 : Rat) ^ (52 : Int) * (2 : Rat) ^ (e - 52) := by
    rw [← zpow_add₀ (by norm_num)]
    congr 1
    omega
  rw [hsplit, hidden]
  push_cast
  ring

theorem lt_top_iff (num den j : Nat) : 2 * num + den <<< (j + 1) < 2 * (2 * hidden * (den <<< (j + 1))) ↔
    num < (2 ^ 54 - 1) * 2 ^ j * den := by
  have htop : den <<< (j + 1) = 2 * (2 ^ j * den) := by
    rw [Nat.shiftLeft_eq, Nat.mul_comm, Nat.pow_succ', Nat.mul_assoc]
  rw [htop, Nat.mul_assoc (2 ^ 54 - 1)]
  generalize 2 ^ j * den = x
  simp only [hidden]
  omega

theorem top_bounds (j : Nat) : (2 : Rat) ^ ((53 : Int) + j) < ((2 ^ 54 - 1) * 2 ^ j : Nat) ∧
    (((2 ^ 54 - 1) * 2 ^ j : Nat) : Rat) < (2 : Rat) ^ ((54 : Int) + j) := by
  rw [zpow_add₀ (by norm_num), zpow_add₀ (by norm_num), zpow_natCast]
  push_cast
  constructor <;> norm_num

theorem limit_pos : 0 < limit := by
  unfold limit
  positivity

theorem bitsOf_lt_iff {num den : Nat} (hden : 0 < den) :
    bitsOf num den < 2047 * hidden ↔ num < limit * den := by
  obtain rfl | hnum := Nat.eq_zero_or_pos num
  · rw [bitsOf, if_pos rfl]
    exact iff_of_true (by decide) (Nat.mul_pos limit_pos hden)
  obtain ⟨e, hscale, hlo, hhi⟩ := scaleOf_spec hnum hden
  have hle := mantissaAt_scaleOf_le hden hscale hhi
  have hden' : (0 : Rat) < den := Nat.cast_pos.2 hden
  have hrat : num < limit * den ↔ (num : Rat) < den * limit := by
    rw [mul_comm limit]
    exact_mod_cast Iff.rfl
  rw [bitsOf_eq hnum]
  -- only among the largest numbers does it matter how the mantissa is rounded
  obtain hsmall | rfl | hlarge := lt_trichotomy e 1023
  · apply iff_of_true
    · simp only [hidden, minScale] at *
      omega
    · rw [hrat]
      calc (num : Rat) < den * (2 : Rat) ^ (e + 1) := hhi
        _ ≤ den * (2 : Rat) ^ (1023 : Int) :=
          mul_le_mul_of_nonneg_left (zpow_le_zpow_right₀ (by norm_num) hsmall) hden'.le
        _ ≤ den * limit := mul_le_mul_of_nonneg_left (top_bounds 970).1.le hden'.le
  · have htop : 2 * num + den <<< 971 < 2 * (2 * hidden * (den <<< 971)) ↔ num < limit * den :=
      lt_top_iff num den 970
    have hs : scaleOf num den = (971 : Nat) := hscale
    rw [← htop, ← roundQuotient_lt_iff (by rw [Nat.shiftLeft_eq]; positivity) (by decide), hs]
    change _ + roundQuotient num (den <<< 971) < _ ↔ _
    simp only [hidden, minScale]
    omega
  · have hs : scaleOf num den = e - 52 := by
      simp only [minScale] at hscale
      omega
    have hge := le_mantissaAt_scaleOf hden hs hlo
    apply iff_of_false
    · simp only [hidden, minScale] at *
      omega
    · rw [hrat, not_lt]
      calc den * (limit : Rat) ≤ den * (2 : Rat) ^ (1024 : Int) :=
          mul_le_mul_of_nonneg_left (top_bounds 970).2.le hden'.le
        _ ≤ den * (2 : Rat) ^ e :=
          mul_le_mul_of_nonneg_left (zpow_le_zpow_right₀ (by norm_num) hlarge) hden'.le
        _ ≤ num := hlo

theorem le_bitsOf {num den : Nat} (hden : 0 < den) (h : den ≤ num) :
    1023 * hidden ≤ bitsOf num den := by
  have hnum : 0 < num := Nat.lt_of_lt_of_le hden h
  obtain ⟨e, hscale, hlo, hhi⟩ := scaleOf_spec hnum hden
  have he : 0 < e + 1 := by
    have hlt : (den : Rat) * (2 : Rat) ^ (0 : Int) < den * (2 : Rat) ^ (e + 1) := by
      rw [zpow_zero, mul_one]
      apply lt_of_le_of_lt _ hhi
      exact_mod_cast h
    exact (zpow_lt_zpow_iff_right₀ (by norm_num)).1 (lt_of_mul_lt_mul_left hlt (Nat.cast_nonneg den))
  have hs : scaleOf num den = e - 52 := by
    simp only [minScale] at hscale
    omega
  have hmantissa := le_mantissaAt_scaleOf hden hs hlo
  rw [bitsOf_eq hnum]
  simp only [hidden, minScale] at *
  omega

theorem isSome_nearest_iff (q : Rat) : (nearest? q).isSome ↔ |q| < limit := by
  have habs : |q| = q.num.natAbs / q.den := by
    rw [Nat.cast_natAbs, Int.cast_abs]
    nth_rewrite 1 [← Rat.num_div_den q]
    rw [abs_div, Nat.abs_cast]
  rw [habs, div_lt_iff₀ (Nat.cast_pos.2 q.den_pos), nearest?]
  have hrange : bitsOf q.num.natAbs q.den < 2047 * hidden ↔ q.num.natAbs < limit * q.den :=
    bitsOf_lt_iff q.den_pos
  split
  · next h => exact iff_of_true rfl (by exact_mod_cast hrange.1 h)
  · next h => exact iff_of_false Bool.false_ne_true (by exact_mod_cast hrange.not.1 h)

theorem isSome_nearest {q : Rat} (h₀ : 0 ≤ q) (h : q < 2 ^ 1022) : (nearest? q).isSome := by
  rw [isSome_nearest_iff, abs_of_nonneg h₀]
  rw [← zpow_natCast] at h
  exact h.trans ((zpow_lt_zpow_right₀ (by norm_num) (by norm_num)).trans (top_bounds 970).1)

end Binary64

end SatWalk
