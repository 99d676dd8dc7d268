import SatWalk.Proofs.Doubles

/-!
Doubles obey the laws that weights rest on. Rounding does not take a value below one whose mantissa
has full width, so a sum with a number that is not negative stays at least what it was, and its
quotient by that at least one.
-/

namespace SatWalk

namespace Double

open Float.Model (UnpackedFloat Format totalExponent)
open Float.Model.UnpackedFloat

theorem mantissa_shiftRight (em : ExtendedMantissa) (k : Nat) :
    (em >>> k).mantissa = em.mantissa / 2 ^ k := by
  induction k with
  | zero => exact (Nat.div_one _).symm
  | succ k ih =>
    change (em >>> k).mantissa / 2 = _
    rw [ih, Nat.div_div_eq_div_mul, Nat.pow_succ]

theorem roundedMantissa_bounds (em : ExtendedMantissa) :
    em.mantissa ≤ em.roundedMantissa ∧ em.roundedMantissa ≤ em.mantissa + 1 := by
  obtain ⟨m, roundBit, stickyBit⟩ := em
  cases roundBit <;> cases stickyBit <;>
    simp only [ExtendedMantissa.roundedMantissa, ExtendedMantissa.accuracy,
      Accuracy.roundToNearestEven] <;>
    omega

theorem mantissa_shifted (m : Nat) (acc : Accuracy) (k : Nat) :
    (ExtendedMantissa.ofMantissaAndAccuracy m acc >>> k).mantissa = m / 2 ^ k := by
  rw [mantissa_shiftRight]
  cases acc with
  | exact => rfl
  | inexact o => cases o <;> rfl

theorem shiftRight_exact (n k : Nat) :
    (⟨n * 2 ^ k, false, false⟩ : ExtendedMantissa) >>> k = ⟨n, false, false⟩ := by
  induction k generalizing n with
  | zero =>
    rw [Nat.pow_zero, Nat.mul_one]
    rfl
  | succ k ih =>
    rw [Nat.pow_succ', ← Nat.mul_assoc]
    change ((⟨n * 2 * 2 ^ k, false, false⟩ : ExtendedMantissa) >>> k).shiftRightOne = _
    rw [ih, ExtendedMantissa.shiftRightOne, Nat.mul_div_cancel _ two_pos, Nat.mul_mod_left]
    rfl

theorem roundedMantissa_le {m n k : Nat} {acc : Accuracy}
    (h : m < n * 2 ^ k ∨ acc = .exact ∧ m ≤ n * 2 ^ k) :
    (ExtendedMantissa.ofMantissaAndAccuracy m acc >>> k).roundedMantissa ≤ n := by
  have hbelow : m < n * 2 ^ k →
      (ExtendedMantissa.ofMantissaAndAccuracy m acc >>> k).roundedMantissa ≤ n := by
    intro hlt
    have hquotient := (Nat.div_lt_iff_lt_mul (Nat.two_pow_pos k)).2 hlt
    have hhigh := (roundedMantissa_bounds (ExtendedMantissa.ofMantissaAndAccuracy m acc >>> k)).2
    rw [mantissa_shifted] at hhigh
    omega
  obtain hlt | ⟨rfl, hle⟩ := h
  · exact hbelow hlt
  · obtain hlt | rfl := Nat.lt_or_eq_of_le hle
    · exact hbelow hlt
    · rw [ExtendedMantissa.ofMantissaAndAccuracy, shiftRight_exact]
      exact le_rfl

theorem targetExponent_eq (m : Nat) (e : Int) :
    Format.binary64.targetExponent (totalExponent m e) = max (m.log2 + e - 52) (-1074) := by
  have hbits : (Format.binary64.mantissaBits : Int) = 53 := by decide
  have hmin : Format.binary64.minExponent = -1074 := by decide
  rw [Format.targetExponent, totalExponent, hbits, hmin]
  omega

theorem shift_rounded {r : Nat} {t : Int} (hr : r ≤ 2 ^ 53) (ht : -1074 ≤ t) :
    shiftToTargetExponent .binary64 r t .exact =
      if r = 2 ^ 53 then (⟨2 ^ 52, false, false⟩, t + 1) else (⟨r, false, false⟩, t) := by
  simp only [shiftToTargetExponent, shiftToExponent, targetExponent_eq]
  split
  · next hcarry =>
    have hamount : (max ((r.log2 : Int) + t - 52) (-1074) - t).toNat = 1 := by
      rw [hcarry, Nat.log2_two_pow]
      omega
    rw [hamount, hcarry]
    rfl
  · next hcarry =>
    have hlog : r.log2 ≤ 52 := by
      obtain rfl | hpos := Nat.eq_zero_or_pos r
      · decide
      · have hlt := (Nat.log2_lt (Nat.ne_of_gt hpos)).2 (show r < 2 ^ 53 by omega)
        omega
    have hamount : (max ((r.log2 : Int) + t - 52) (-1074) - t).toNat = 0 := by omega
    rw [hamount, Int.natCast_zero, Int.add_zero]
    rfl

theorem exists_rounded {m : Nat} {e : Int} (acc : Accuracy) (hm : 52 ≤ m.log2 ∨ e ≤ -1074) :
    ∃ (k r : Nat), e + k = max (m.log2 + e - 52) (-1074) ∧ m / 2 ^ k ≤ r ∧ r ≤ 2 ^ 53 ∧
      (∀ n, m < n * 2 ^ k ∨ acc = .exact ∧ m ≤ n * 2 ^ k → r ≤ n) ∧
      ∀ s, roundWithAccuracy .binary64 s m e acc =
        if h : r = 0 then .zero s
        else if r = 2 ^ 53 then .finite s (2 ^ 52) (e + k + 1) (by decide)
        else .finite s r (e + k) (Nat.pos_of_ne_zero h) := by
  obtain ⟨k, hk⟩ : ∃ k : Nat, (max ((m.log2 : Int) + e - 52) (-1074) - e).toNat = k := ⟨_, rfl⟩
  have htarget : e + k = max ((m.log2 : Int) + e - 52) (-1074) := by omega
  have hfirst : shiftToTargetExponent .binary64 m e acc =
      (ExtendedMantissa.ofMantissaAndAccuracy m acc >>> k, e + k) := by
    simp only [shiftToTargetExponent, shiftToExponent, targetExponent_eq, hk]
  have hbounds := roundedMantissa_bounds (ExtendedMantissa.ofMantissaAndAccuracy m acc >>> k)
  rw [mantissa_shifted] at hbounds
  have hwidth : m / 2 ^ k < 2 ^ 53 := by
    rw [Nat.div_lt_iff_lt_mul (Nat.two_pow_pos k), ← Nat.pow_add]
    apply Nat.lt_of_lt_of_le Nat.lt_log2_self
    exact Nat.pow_le_pow_right (by decide) (by omega)
  have hr : (ExtendedMantissa.ofMantissaAndAccuracy m acc >>> k).roundedMantissa ≤ 2 ^ 53 := by omega
  refine ⟨k, _, htarget, hbounds.1, hr, fun n => roundedMantissa_le, ?_⟩
  intro s
  simp only [roundWithAccuracy, hfirst, shift_rounded hr (show -1074 ≤ e + (k : Int) by omega)]
  by_cases hcarry : (ExtendedMantissa.ofMantissaAndAccuracy m acc >>> k).roundedMantissa = 2 ^ 53
  · simp only [if_pos hcarry]
    rw [dif_neg (by decide), dif_neg (by rw [hcarry]; decide)]
  · simp only [if_neg hcarry]

def WideFrom (s : Sign) (m : Nat) (e : Int) (u : UnpackedFloat) : Prop :=
  ∃ m' e', ∃ h : Wide m' e', u = .finite s m' e' h.pos ∧ (e < e' ∨ e = e' ∧ m ≤ m')

theorem WideFrom.stored {m : Nat} {e : Int} {u : UnpackedFloat} (h : WideFrom .positive m e u) :
    AtLeast m e (stored u) := by
  obtain ⟨m', e', hw, rfl, hle⟩ := h
  obtain hstored | hstored := hw.stored_or
  · rw [hstored]
    exact .infinity
  · rw [hstored]
    exact .finite hw.pos hle

theorem Wide.le_shifted {m₀ m k : Nat} {e₀ e : Int} (h₀ : Wide m₀ e₀)
    (htarget : e + k = max (m.log2 + e - 52) (-1074)) (hle : e ≤ e₀ → m₀ * 2 ^ (e₀ - e).toNat ≤ m) :
    e₀ < e + k ∧ 2 ^ 52 ≤ m / 2 ^ k ∨ e₀ = e + k ∧ m₀ ≤ m / 2 ^ k := by
  have he₀ := h₀.le
  have hpos₀ := h₀.pos
  -- A value of full width that is shifted by as much as the exponents differ keeps its logarithm.
  have hlog : e ≤ e₀ → 2 ^ 52 ≤ m₀ → 52 + (e₀ - e).toNat ≤ m.log2 := by
    intro he hfull
    have hpow : 2 ^ (52 + (e₀ - e).toNat) ≤ m := by
      rw [Nat.pow_add]
      exact (Nat.mul_le_mul_right _ hfull).trans (hle he)
    have hpos : 0 < m := Nat.lt_of_lt_of_le (Nat.two_pow_pos _) hpow
    exact (Nat.le_log2 (Nat.ne_of_gt hpos)).2 hpow
  have htop : e₀ ≤ e + k := by
    obtain hfull | hsmallest := h₀.full
    · by_cases he : e ≤ e₀
      · have := hlog he hfull
        omega
      · omega
    · omega
  obtain heq | hlt := Int.le_iff_eq_or_lt.1 htop
  · refine .inr ⟨heq, ?_⟩
    have hk : (e₀ - e).toNat = k := by omega
    rw [Nat.le_div_iff_mul_le (Nat.two_pow_pos k), ← hk]
    exact hle (by omega)
  · refine .inl ⟨hlt, ?_⟩
    have hm0 : m ≠ 0 := by
      rintro rfl
      rw [Nat.log2_zero] at htarget
      omega
    rw [Nat.le_div_iff_mul_le (Nat.two_pow_pos k), ← Nat.pow_add, ← Nat.le_log2 hm0]
    omega

theorem roundWithAccuracy_wideFrom (s : Sign) {m₀ m : Nat} {e₀ e : Int} (acc : Accuracy)
    (h₀ : Wide m₀ e₀) (hm : 52 ≤ m.log2 ∨ e ≤ -1074) (hle : e ≤ e₀ → m₀ * 2 ^ (e₀ - e).toNat ≤ m) :
    WideFrom s m₀ e₀ (roundWithAccuracy .binary64 s m e acc) := by
  obtain ⟨k, r, htarget, hlow, hhigh, -, hround⟩ := exists_rounded acc hm
  have hpos₀ := h₀.pos
  have hreach : e₀ < e + k ∧ 2 ^ 52 ≤ r ∨ e₀ = e + k ∧ m₀ ≤ r := by
    apply (h₀.le_shifted htarget hle).imp
    · exact And.imp_right hlow.trans'
    · exact And.imp_right hlow.trans'
  have hr0 : r ≠ 0 := by omega
  have hfull : 2 ^ 52 ≤ r ∨ e + k = -1074 := by
    obtain ⟨-, hr⟩ | ⟨heq, hr⟩ := hreach
    · exact .inl hr
    · exact h₀.full.imp hr.trans' heq.symm.trans
  rw [hround s, dif_neg hr0]
  by_cases hcarry : r = 2 ^ 53
  · rw [if_pos hcarry]
    refine ⟨2 ^ 52, e + k + 1, ⟨by decide, by decide, .inl le_rfl, by omega⟩, rfl, ?_⟩
    exact .inl (by omega)
  · rw [if_neg hcarry]
    refine ⟨r, e + k, ⟨Nat.pos_of_ne_zero hr0, by omega, hfull, by omega⟩, rfl, ?_⟩
    exact hreach.imp And.left id

theorem signed_roundWithAccuracy (s : Sign) (m : Nat) (e : Int) (acc : Accuracy) :
    Signed s (roundWithAccuracy .binary64 s m e acc) := by
  simp only [roundWithAccuracy]
  split
  · exact .zero
  · exact .finite _ _ _

theorem signed_mul {m : Nat} {e : Int} {h : 0 < m} {v : UnpackedFloat} (hv : Finite .positive v) :
    Signed .negative (UnpackedFloat.mul .binary64 (.finite .negative m e h) v) := by
  cases hv with
  | zero => exact .zero
  | finite _ _ => exact signed_roundWithAccuracy _ _ _ _

theorem log2_mul_two_pow {m : Nat} (hm : 0 < m) (k : Nat) : (m * 2 ^ k).log2 = m.log2 + k := by
  have hpos : 0 < m * 2 ^ k := Nat.mul_pos hm (Nat.two_pow_pos k)
  rw [Nat.log2_eq_iff (Nat.ne_of_gt hpos)]
  constructor
  · rw [Nat.pow_add]
    exact Nat.mul_le_mul_right _ (Nat.log2_self_le (Nat.ne_of_gt hm))
  · rw [Nat.add_right_comm, Nat.pow_add]
    exact Nat.mul_lt_mul_of_pos_right Nat.lt_log2_self (Nat.two_pow_pos k)

theorem round_eq {m : Nat} (hpos : 0 < m) (e : Int) :
    ∃ k : Nat, (52 ≤ (m * 2 ^ k).log2 ∨ e - k ≤ -1074) ∧ UnpackedFloat.round .binary64 .positive m e =
      roundWithAccuracy .binary64 .positive (m * 2 ^ k) (e - k) .exact := by
  obtain ⟨k, hk⟩ : ∃ k : Nat, (e - max ((m.log2 : Int) + e - 52) (-1074)).toNat = k := ⟨_, rfl⟩
  refine ⟨k, ?_, ?_⟩
  · rw [log2_mul_two_pow hpos]
    omega
  · simp only [UnpackedFloat.round, decreaseExponent, targetExponent_eq, hk, Nat.shiftLeft_eq]

theorem round_wideFrom {m₀ m : Nat} {e₀ e : Int} (h₀ : Wide m₀ e₀) (he : e ≤ e₀)
    (hle : m₀ * 2 ^ (e₀ - e).toNat ≤ m) :
    WideFrom .positive m₀ e₀ (UnpackedFloat.round .binary64 .positive m e) := by
  have hpos : 0 < m := Nat.lt_of_lt_of_le (Nat.mul_pos h₀.pos (Nat.two_pow_pos _)) hle
  obtain ⟨k, hwidth, hround⟩ := round_eq hpos e
  rw [hround]
  apply roundWithAccuracy_wideFrom .positive .exact h₀ hwidth
  intro _
  have hsplit : (e₀ - (e - k)).toNat = (e₀ - e).toNat + k := by omega
  rw [hsplit, Nat.pow_add, ← Nat.mul_assoc]
  exact Nat.mul_le_mul_right _ hle

theorem normalize_natCast {m : Nat} (hm : 0 < m) (e : Int) :
    UnpackedFloat.normalize .binary64 m e .positive =
      UnpackedFloat.round .binary64 .positive m e := by
  have hgt : compare (m : Int) 0 = .gt := Int.compare_eq_gt.2 (by omega)
  simp only [UnpackedFloat.normalize, hgt, Int.toNat_natCast]

theorem add_wideFrom {m₀ : Nat} {e₀ : Int} (h₀ : Wide m₀ e₀) {v : UnpackedFloat}
    (hv : Finite .positive v) :
    WideFrom .positive m₀ e₀ (UnpackedFloat.add .binary64 (.finite .positive m₀ e₀ h₀.pos) v) := by
  cases hv with
  | zero => exact ⟨m₀, e₀, h₀, rfl, .inr ⟨rfl, le_rfl⟩⟩
  | @finite m₁ e₁ h₁ he₁ =>
    have hsum : UnpackedFloat.add .binary64 (.finite .positive m₀ e₀ h₀.pos)
        (.finite .positive m₁ e₁ h₁.pos) = UnpackedFloat.round .binary64 .positive
          (m₀ * 2 ^ (e₀ - min e₀ e₁).toNat + m₁ * 2 ^ (e₁ - min e₀ e₁).toNat) (min e₀ e₁) := by
      have hpos : 0 < m₀ * 2 ^ (e₀ - min e₀ e₁).toNat := Nat.mul_pos h₀.pos (Nat.two_pow_pos _)
      simp only [UnpackedFloat.add, decreaseExponent, Nat.shiftLeft_eq, Sign.apply, ← Int.natCast_add]
      exact normalize_natCast (Nat.lt_of_lt_of_le hpos (Nat.le_add_right _ _)) _
    rw [hsum]
    apply round_wideFrom h₀ (Int.min_le_left e₀ e₁)
    exact Nat.le_add_right _ _

theorem Wide.aligned_le {m₀ m : Nat} {e₀ e : Int} (h₀ : Wide m₀ e₀) (h : Wide m e)
    (hle : e₀ < e ∨ e₀ = e ∧ m₀ ≤ m) :
    (m₀.log2 : Int) + e₀ ≤ m.log2 + e ∧ m₀ ≤ m * 2 ^ (e - e₀).toNat := by
  obtain hlt | ⟨rfl, hm⟩ := hle
  · have hle₀ := h₀.le
    have hlt₀ := h₀.lt
    have hwidth₀ := h₀.log2_le
    have hfull : 2 ^ 52 ≤ m := h.full.resolve_right (by omega)
    have hlog := h.log2_eq hfull
    have hpow : 2 ^ 1 ≤ 2 ^ (e - e₀).toNat := Nat.pow_le_pow_right (by decide) (by omega)
    refine ⟨by omega, ?_⟩
    calc m₀ ≤ m * 2 ^ 1 := by omega
      _ ≤ m * 2 ^ (e - e₀).toNat := Nat.mul_le_mul_left _ hpow
  · have hlog : m₀.log2 ≤ m.log2 :=
      (Nat.le_log2 (Nat.ne_of_gt h.pos)).2 ((Nat.log2_self_le (Nat.ne_of_gt h₀.pos)).trans hm)
    refine ⟨by omega, ?_⟩
    rwa [Int.sub_self, Int.toNat_zero, Nat.pow_zero, Nat.mul_one]

theorem div_eq {m₀ m : Nat} (h₀ : 0 < m₀) (h : 0 < m) (e₀ e : Int) :
    ∃ (t : Int) (k : Nat), t = min (e - e₀) (max ((m.log2 : Int) + e - m₀.log2 - e₀ - 53) (-1074)) ∧
      (e - e₀ - t).toNat = k ∧
      UnpackedFloat.div .binary64 (.finite .positive m e h) (.finite .positive m₀ e₀ h₀) =
        roundWithAccuracy .binary64 .positive (m * 2 ^ k / m₀) t
          (accuracyOfFraction (m * 2 ^ k % m₀) m₀) := by
  have hbits : (Format.binary64.mantissaBits : Int) = 53 := by decide
  have hmin : Format.binary64.minExponent = -1074 := by decide
  have htarget : min (e - e₀)
      (Format.binary64.targetExponent (totalExponent m e - totalExponent m₀ e₀)) =
        min (e - e₀) (max ((m.log2 : Int) + e - m₀.log2 - e₀ - 53) (-1074)) := by
    rw [Format.targetExponent, totalExponent, totalExponent, hbits, hmin]
    omega
  refine ⟨_, _, rfl, rfl, ?_⟩
  simp only [UnpackedFloat.div, divCore, htarget, Nat.shiftLeft_eq]
  rfl

theorem wide_one : Wide (2 ^ 52) (-52) := ⟨by decide, by decide, .inl le_rfl, by decide⟩

theorem div_wideFrom {m₀ m : Nat} {e₀ e : Int} (h₀ : Wide m₀ e₀) (h : Wide m e)
    (hle : e₀ < e ∨ e₀ = e ∧ m₀ ≤ m) : WideFrom .positive (2 ^ 52) (-52)
      (UnpackedFloat.div .binary64 (.finite .positive m e h.pos) (.finite .positive m₀ e₀ h₀.pos)) := by
  have hwidth := h.log2_le
  have hwidth₀ := h₀.log2_le
  obtain ⟨hlog, hreach⟩ := h₀.aligned_le h hle
  obtain ⟨t, k, ht, hk, hdiv⟩ := div_eq h₀.pos h.pos e₀ e
  have hq : 2 ^ 52 ≤ m * 2 ^ k / m₀ := by
    rw [Nat.le_div_iff_mul_le h₀.pos]
    calc 2 ^ 52 * m₀ ≤ 2 ^ 52 * 2 ^ (m₀.log2 + 1) := Nat.mul_le_mul_left _ Nat.lt_log2_self.le
      _ = 2 ^ (m.log2 + k) := by
        rw [← Nat.pow_add]
        congr 1
        omega
      _ ≤ m * 2 ^ k := by
        rw [Nat.pow_add]
        exact Nat.mul_le_mul_right _ (Nat.log2_self_le (Nat.ne_of_gt h.pos))
  rw [hdiv]
  apply roundWithAccuracy_wideFrom .positive _ wide_one
  · exact .inl ((Nat.le_log2 (by omega)).2 hq)
  · intro hsmall
    rw [← Nat.pow_add, Nat.le_div_iff_mul_le h₀.pos]
    have hsplit : k = (e - e₀).toNat + (52 + (-52 - t).toNat) := by omega
    calc 2 ^ (52 + (-52 - t).toNat) * m₀
        ≤ 2 ^ (52 + (-52 - t).toNat) * (m * 2 ^ (e - e₀).toNat) := Nat.mul_le_mul_left _ hreach
      _ = m * 2 ^ k := by rw [Nat.mul_comm, Nat.mul_assoc, ← Nat.pow_add, ← hsplit]

theorem neg_unpack {t : Float} {m : Nat} {e : Int} (hw : Wide m e) (he : e ≤ 971)
    (ht : t.toModel.unpack = .finite .positive m e hw.pos) :
    (-t).toModel.unpack = .finite .negative m e hw.pos := by
  apply Eq.trans _ (hw.stored he .negative)
  change stored (UnpackedFloat.neg t.toModel.unpack) = _
  rw [ht]
  rfl

theorem isCold_neg {t : Float} (ht : MachineReal.IsUsable t) : MachineReal.IsCold (-t) := by
  obtain ⟨m, e, hw, he, hunpack⟩ := usable_unpack ht
  apply Signed.isCold
  rw [neg_unpack hw he hunpack]
  exact .finite m e hw.pos

variable {x : Float}

theorem isCold_neg_mul {t : Float} (ht : MachineReal.IsUsable t)
    (hx : Finite .positive x.toModel.unpack) : MachineReal.IsCold (-t * x) := by
  obtain ⟨m, e, hw, he, hunpack⟩ := usable_unpack ht
  apply Signed.isCold
  change Signed .negative (stored (UnpackedFloat.mul .binary64 (-t).toModel.unpack x.toModel.unpack))
  rw [neg_unpack hw he hunpack]
  exact (signed_mul hx).stored

theorem isBase_add_div {c : Float} (hc : MachineReal.IsUsable c)
    (hx : Finite .positive x.toModel.unpack) : MachineReal.IsBase ((c + x) / c) := by
  obtain ⟨m₀, e₀, h₀, -, hunpack⟩ := usable_unpack hc
  obtain ⟨m, e, h, hsum, hle⟩ := add_wideFrom h₀ hx
  have hadd : (c + x).toModel.unpack = stored (.finite .positive m e h.pos) := by
    rw [← hsum, ← hunpack]
    rfl
  apply AtLeast.isBase
  change AtLeast _ _ (stored (UnpackedFloat.div .binary64 (c + x).toModel.unpack c.toModel.unpack))
  rw [hadd, hunpack]
  obtain hstored | hstored := h.stored_or
  · rw [hstored]
    change AtLeast _ _ (stored (.infinity .positive))
    rw [stored, pack, stored_infinity]
    exact .infinity
  · rw [hstored]
    exact (div_wideFrom h₀ h hle).stored

end Double

open Double in
instance : MachineReal.LawfulArithmetic Float where
  number_one := by
    apply Signed.isNumber (s := .positive)
    rw [unpack_one]
    exact .finite _ _ _
  cold_nearest h hq := isCold_nearest hq h
  base_nearest h hq := (atLeast_nearest hq h).isBase
  cold_neg := isCold_neg
  cold_mul ht hq hx := isCold_neg_mul ht (finite_nearest hq hx)
  base_div hc hq hx := isBase_add_div hc (finite_nearest hq hx)

end SatWalk
