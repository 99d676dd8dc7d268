import SatWalk.Proofs.DoubleOrder

namespace SatWalk

namespace Double

open Float.Model (UnpackedFloat Format totalExponent)
open Float.Model.UnpackedFloat
open MachineReal (AtMost IsNumber)

inductive UpTo (m : Nat) (e : Int) : UnpackedFloat → Prop
  | zero (s : Sign) : UpTo m e (.zero s)
  | finite {m' : Nat} {e' : Int} (h : Wide m' e') (hle : e' < e ∨ e' = e ∧ m' ≤ m) :
    UpTo m e (.finite .positive m' e' h.pos)

theorem log2_le_of_le {m m₀ j : Nat} (h₀ : 0 < m₀) (h : m ≤ m₀ * 2 ^ j) : m.log2 ≤ m₀.log2 + j := by
  obtain rfl | hm := Nat.eq_zero_or_pos m
  · rw [Nat.log2_zero]
    exact Nat.zero_le _
  · rw [← log2_mul_two_pow h₀, Nat.le_log2 (Nat.mul_pos h₀ (Nat.two_pow_pos j)).ne']
    exact (Nat.log2_self_le hm.ne').trans h

theorem roundWithAccuracy_upTo {m₀ m : Nat} {e₀ e : Int} {acc : Accuracy} (h₀ : Wide m₀ e₀)
    (hm : 52 ≤ m.log2 ∨ e ≤ -1074) (he : e ≤ e₀)
    (hle : m < m₀ * 2 ^ (e₀ - e).toNat ∨ acc = .exact ∧ m ≤ m₀ * 2 ^ (e₀ - e).toNat) :
    UpTo m₀ e₀ (roundWithAccuracy .binary64 .positive m e acc) := by
  obtain ⟨k, r, htarget, hlow, hhigh, hbelow, hround⟩ := exists_rounded acc hm
  have hlog : m.log2 ≤ m₀.log2 + (e₀ - e).toNat :=
    log2_le_of_le h₀.pos (hle.elim Nat.le_of_lt And.right)
  have hlog₀ := h₀.log2_le
  have hmin := h₀.le
  have hlt₀ := h₀.lt
  have hreach : e + k = e₀ → r ≤ m₀ := by
    intro heq
    apply hbelow
    rwa [show k = (e₀ - e).toNat by omega]
  rw [hround]
  by_cases hr : r = 0
  · rw [dif_pos hr]
    exact .zero _
  rw [dif_neg hr]
  by_cases hcarry : r = 2 ^ 53
  · rw [if_pos hcarry]
    have hwide : Wide (2 ^ 52) (e + k + 1) := ⟨by decide, by decide, .inl le_rfl, by omega⟩
    have hfull₀ := h₀.full
    exact .finite hwide (by omega)
  · rw [if_neg hcarry]
    have hfull : 2 ^ 52 ≤ r ∨ e + k = -1074 := by
      by_cases hsmallest : e + k = -1074
      · exact .inr hsmallest
      · have hlogm : 52 + k ≤ m.log2 := by omega
        have hm0 : m ≠ 0 := by
          rintro rfl
          rw [Nat.log2_zero] at hlogm
          omega
        rw [Nat.le_log2 hm0, Nat.pow_add] at hlogm
        exact .inl (((Nat.le_div_iff_mul_le (Nat.two_pow_pos k)).2 hlogm).trans hlow)
    have hwide : Wide r (e + k) := ⟨Nat.pos_of_ne_zero hr, by omega, hfull, by omega⟩
    exact .finite hwide (by omega)

theorem UpTo.stored {m : Nat} {e : Int} {u : UnpackedFloat} (h : UpTo m e u) (he : e ≤ 971) :
    Double.stored u = u := by
  cases h with
  | zero s => cases s <;> rfl
  | finite h hle => exact h.stored (by omega) .positive

theorem mul_upTo {m₀ m₁ m₂ : Nat} {e₀ e₁ e₂ : Int} (h₀ : Wide m₀ e₀) (h₁ : Wide m₁ e₁) (h₂ : Wide m₂ e₂)
    (he : e₁ + e₂ ≤ e₀) (hle : m₁ * m₂ ≤ m₀ * 2 ^ (e₀ - (e₁ + e₂)).toNat) :
    UpTo m₀ e₀ (UnpackedFloat.mul .binary64 (.finite .positive m₁ e₁ h₁.pos)
      (.finite .positive m₂ e₂ h₂.pos)) := by
  apply roundWithAccuracy_upTo h₀ _ he (.inr ⟨rfl, hle⟩)
  have hpos : m₁ * m₂ ≠ 0 := (Nat.mul_pos h₁.pos h₂.pos).ne'
  rw [Nat.le_log2 hpos]
  obtain hfull | hsmallest₁ := h₁.full
  · exact .inl (hfull.trans (Nat.le_mul_of_pos_right m₁ h₂.pos))
  · obtain hfull | hsmallest₂ := h₂.full
    · exact .inl (hfull.trans (Nat.le_mul_of_pos_left m₂ h₁.pos))
    · exact .inr (by omega)

theorem round_upTo {m₀ m : Nat} {e₀ e : Int} (h₀ : Wide m₀ e₀) (hpos : 0 < m) (he : e ≤ e₀)
    (hle : m ≤ m₀ * 2 ^ (e₀ - e).toNat) :
    UpTo m₀ e₀ (UnpackedFloat.round .binary64 .positive m e) := by
  obtain ⟨k, hwidth, hround⟩ := round_eq hpos e
  rw [hround]
  apply roundWithAccuracy_upTo h₀ hwidth (by omega)
  refine .inr ⟨rfl, ?_⟩
  have hsplit : (e₀ - (e - k)).toNat = (e₀ - e).toNat + k := by omega
  rw [hsplit, Nat.pow_add, ← Nat.mul_assoc]
  exact Nat.mul_le_mul_right _ hle

theorem wide_last : Wide (2 ^ 53 - 1) 0 := ⟨by decide, by decide, .inl (by decide), by decide⟩

theorem wide_lastFraction : Wide (2 ^ 53 - 1) (-53) := ⟨by decide, by decide, .inl (by decide), by decide⟩

theorem wide_denominator : Wide (2 ^ 52) 1 := ⟨by decide, by decide, .inl le_rfl, by decide⟩

theorem ofNat_eq {k : Nat} (hk : k < 2 ^ 53) :
    Float.ofNat k = k.toUInt64.toFloat * Float.ofBits 4607182418800017408 := by
  have hfast : k < 2 ^ 53 ∧ 0 ≤ 22 := ⟨hk, by decide⟩
  change Float.ofScientific k false 0 = _
  unfold Float.ofScientific
  rw [dif_pos hfast]
  rfl

theorem toUInt64_upTo {k : Nat} (hk : k < 2 ^ 53) :
    UpTo (2 ^ 53 - 1) 0 k.toUInt64.toFloat.toModel.unpack := by
  have hvalue : k.toUInt64.toNat = k := Nat.mod_eq_of_lt (by omega)
  have hunpack : k.toUInt64.toFloat.toModel.unpack =
      stored (UnpackedFloat.normalize .binary64 k 0 .positive) := by
    change stored (UnpackedFloat.ofNat .binary64 k.toUInt64.toNat) = _
    rw [hvalue]
    rfl
  rw [hunpack]
  obtain rfl | hpos := Nat.eq_zero_or_pos k
  · exact .zero _
  · have hround : UpTo (2 ^ 53 - 1) 0 (UnpackedFloat.normalize .binary64 k 0 .positive) := by
      rw [normalize_natCast hpos]
      apply round_upTo wide_last hpos le_rfl
      rw [Int.sub_self, Int.toNat_zero, Nat.pow_zero, Nat.mul_one]
      omega
    rw [hround.stored (by decide)]
    exact hround

theorem ofNat_upTo {k : Nat} (hk : k < 2 ^ 53) : UpTo (2 ^ 53 - 1) 0 (Float.ofNat k).toModel.unpack := by
  have hunit : (Float.ofBits 4607182418800017408).toModel.unpack =
      .finite .positive (2 ^ 52) (-52) wide_one.pos := rfl
  have hmul : (Float.ofNat k).toModel.unpack = stored (UnpackedFloat.mul .binary64
      k.toUInt64.toFloat.toModel.unpack (Float.ofBits 4607182418800017408).toModel.unpack) := by
    rw [ofNat_eq hk]
    rfl
  have hproduct : UpTo (2 ^ 53 - 1) 0 (UnpackedFloat.mul .binary64 k.toUInt64.toFloat.toModel.unpack
      (Float.ofBits 4607182418800017408).toModel.unpack) := by
    have hvalue := toUInt64_upTo hk
    rw [hunit]
    generalize k.toUInt64.toFloat.toModel.unpack = u at hvalue
    cases hvalue with
    | zero s => exact .zero _
    | @finite m e h hle =>
      apply mul_upTo wide_last h wide_one (by omega)
      have hlt := h.lt
      apply Nat.mul_le_mul (by omega)
      exact Nat.pow_le_pow_right (by decide) (by omega)
  rw [hmul, hproduct.stored (by decide)]
  exact hproduct

theorem unpack_denominator : (Float.ofNat (2 * Binary64.hidden)).toModel.unpack =
    .finite .positive (2 ^ 52) 1 wide_denominator.pos := by
  have hbits : Float.ofNat (2 * Binary64.hidden) = Float.ofBits 4845873199050653696 := by
    apply Float.toBits_inj.1
    decide +kernel
  rw [hbits]
  rfl

theorem div_upTo {u : UnpackedFloat} (hu : UpTo (2 ^ 53 - 1) 0 u) :
    UpTo (2 ^ 53 - 1) (-53)
      (UnpackedFloat.div .binary64 u (.finite .positive (2 ^ 52) 1 wide_denominator.pos)) := by
  cases hu with
  | zero s => exact .zero _
  | @finite m e h hle =>
    obtain ⟨t, k, ht, hk, hdiv⟩ := div_eq wide_denominator.pos h.pos 1 e
    have hwidth := h.log2_le
    have hlt := h.lt
    have hlog : (2 ^ 52 : Nat).log2 = 52 := Nat.log2_two_pow
    rw [hlog] at ht
    have hbound : m * 2 ^ k ≤ (2 ^ 53 - 1) * 2 ^ (-53 - t).toNat * 2 ^ 52 := by
      rw [Nat.mul_assoc, ← Nat.pow_add]
      apply Nat.mul_le_mul (by omega)
      exact Nat.pow_le_pow_right (by decide) (by omega)
    have hfull : 52 ≤ (m * 2 ^ k / 2 ^ 52).log2 ∨ t ≤ -1074 := by
      by_cases hsmall : t ≤ -1074
      · exact .inr hsmall
      have hquotient : 2 ^ 52 ≤ m * 2 ^ k / 2 ^ 52 := by
        rw [Nat.le_div_iff_mul_le (Nat.two_pow_pos 52), ← Nat.pow_add]
        calc 2 ^ (52 + 52) ≤ 2 ^ (m.log2 + k) := Nat.pow_le_pow_right (by decide) (by omega)
          _ ≤ m * 2 ^ k := by
            rw [Nat.pow_add]
            exact Nat.mul_le_mul_right _ (Nat.log2_self_le h.pos.ne')
      exact .inl ((Nat.le_log2 (by omega)).2 hquotient)
    rw [hdiv]
    apply roundWithAccuracy_upTo wide_lastFraction hfull (by omega)
    by_cases hexact : m * 2 ^ k % 2 ^ 52 = 0
    · refine .inr ⟨if_pos hexact, ?_⟩
      apply Nat.div_le_of_le_mul
      rwa [Nat.mul_comm (2 ^ 52)]
    -- An inexact quotient is cut off below the bound.
    · left
      rw [Nat.div_lt_iff_lt_mul (Nat.two_pow_pos 52)]
      apply Nat.lt_of_le_of_ne hbound
      intro heq
      rw [heq, Nat.mul_mod_left] at hexact
      exact hexact rfl

theorem unpack_mul (x y : Float) : (MachineReal.mul x y).toModel.unpack =
    stored (UnpackedFloat.mul .binary64 x.toModel.unpack y.toModel.unpack) := rfl

variable {x y : Float}

theorem UpTo.nonNegative {m : Nat} {e : Int} {u : UnpackedFloat} (h : UpTo m e u) (he : e ≤ 971) :
    NonNegative u := by
  cases h with
  | zero s => exact .zero s
  | finite h hle => exact .finite h (by omega)

theorem UpTo.rank_le {m : Nat} {e : Int} {u : UnpackedFloat} (h : UpTo m e u) :
    rank u ≤ positiveRank m e := by
  cases h with
  | zero s => exact (positiveRank_pos m e).le
  | finite h hle => exact positiveRank_le.2 hle

theorem mul_atMost (hx₀ : AtMost MachineReal.zero x) (hx₁ : MachineReal.less x MachineReal.one = true)
    (hy : MachineReal.IsUsable y) : AtMost (MachineReal.mul x y) y := by
  obtain ⟨m, e, hw, he, hunpack⟩ := usable_unpack hy
  have hproduct : UpTo m e
      (UnpackedFloat.mul .binary64 x.toModel.unpack (.finite .positive m e hw.pos)) := by
    obtain ⟨-, -, hlt⟩ := less_iff.1 hx₁
    have hx := nonNegative_unpack hx₀
    rw [unpack_one] at hlt
    generalize x.toModel.unpack = u at hx hlt
    cases hx with
    | zero s => exact .zero _
    | infinity => exact absurd hlt (positiveRank_lt_topRank _ _).not_gt
    | @finite m₁ e₁ h₁ he₁ =>
      have hone := positiveRank_lt.1 hlt
      have hlt₁ := h₁.lt
      apply mul_upTo hw h₁ hw (by omega)
      rw [Nat.mul_comm]
      apply Nat.mul_le_mul_left
      -- One has the smallest mantissa of its exponent, so a number below it has a smaller exponent.
      have hexponent : e₁ < -52 := by
        have hfull := h₁.full
        omega
      exact hlt₁.le.trans (Nat.pow_le_pow_right (by decide) (by omega))
  rw [atMost_iff, isNumber_iff, isNumber_iff, unpack_mul, hunpack, hproduct.stored he]
  exact ⟨(hproduct.nonNegative he).ne_notANumber, nofun, hproduct.rank_le⟩

theorem fraction_bounds {k : Nat} (hk : k < fractions) :
    AtMost MachineReal.zero (MachineReal.fraction k : Float) ∧
      MachineReal.less (MachineReal.fraction k) (MachineReal.one : Float) = true := by
  have hquotient := div_upTo (ofNat_upTo hk)
  have hunpack : (MachineReal.fraction k : Float).toModel.unpack =
      UnpackedFloat.div .binary64 (Float.ofNat k).toModel.unpack
        (.finite .positive (2 ^ 52) 1 wide_denominator.pos) := by
    rw [← hquotient.stored (by decide), ← unpack_denominator]
    rfl
  have hnumber := (hquotient.nonNegative (by decide)).ne_notANumber
  rw [atMost_iff, less_iff, isNumber_iff, isNumber_iff, isNumber_iff, hunpack, unpack_zero, unpack_one]
  refine ⟨⟨nofun, hnumber, (hquotient.nonNegative (by decide)).rank_nonneg⟩, hnumber, nofun, ?_⟩
  exact hquotient.rank_le.trans_lt (positiveRank_lt.2 (by decide))

end Double

open Double in
instance : MachineReal.LawfulOrder Float where
  number_zero := isNumber_iff.2 (by rw [unpack_zero]; nofun)
  atMost_trans hxy hyz := by
    rw [atMost_iff] at hxy hyz ⊢
    exact ⟨hxy.1, hyz.2.1, hxy.2.2.trans hyz.2.2⟩
  not_less_of_atMost hle := by
    rw [Bool.eq_false_iff]
    exact fun hlt => (less_iff.1 hlt).2.2.not_ge (atMost_iff.1 hle).2.2
  same_add_zero := same_add_zero
  atMost_add := atMost_add
  mul_atMost := mul_atMost
  fraction_bounds := fraction_bounds

end SatWalk
