import SatWalk.Proofs.DoubleArithmetic
import SatWalk.Proofs.Sums

namespace SatWalk

namespace Double

open Float.Model (UnpackedFloat Format totalExponent)
open Float.Model.UnpackedFloat
open MachineReal (AtMost IsNumber)

def positiveRank (m : Nat) (e : Int) : ℤ ×ₗ ℤ ×ₗ ℤ := toLex (1, toLex (e, (m : ℤ)))

def topRank : ℤ ×ₗ ℤ ×ₗ ℤ := toLex (2, toLex (0, 0))

def rank : UnpackedFloat → ℤ ×ₗ ℤ ×ₗ ℤ
  | .infinity .negative => -topRank
  | .finite .negative m e _ => -positiveRank m e
  | .zero _ | .notANumber => 0
  | .finite .positive m e _ => positiveRank m e
  | .infinity .positive => topRank

theorem positiveRank_lt {m₁ m₂ : Nat} {e₁ e₂ : Int} :
    positiveRank m₁ e₁ < positiveRank m₂ e₂ ↔ e₁ < e₂ ∨ e₁ = e₂ ∧ m₁ < m₂ := by
  simp [positiveRank, Prod.Lex.toLex_lt_toLex]

theorem positiveRank_le {m₁ m₂ : Nat} {e₁ e₂ : Int} :
    positiveRank m₁ e₁ ≤ positiveRank m₂ e₂ ↔ e₁ < e₂ ∨ e₁ = e₂ ∧ m₁ ≤ m₂ := by
  simp [positiveRank, Prod.Lex.toLex_le_toLex]

theorem positiveRank_pos (m : Nat) (e : Int) : 0 < positiveRank m e := by
  apply Prod.Lex.toLex_lt_toLex.2
  exact .inl one_pos

theorem positiveRank_lt_topRank (m : Nat) (e : Int) : positiveRank m e < topRank := by
  apply Prod.Lex.toLex_lt_toLex.2
  exact .inl one_lt_two

theorem topRank_pos : 0 < topRank := (positiveRank_pos 0 0).trans (positiveRank_lt_topRank 0 0)

theorem compares_finite (m₁ m₂ : Nat) (e₁ e₂ : Int) :
    ((compare e₁ e₂).then (compare m₁ m₂)).Compares (positiveRank m₁ e₁) (positiveRank m₂ e₂) := by
  obtain he | rfl | he := lt_trichotomy e₁ e₂
  · rw [Int.compare_eq_lt.2 he, Ordering.lt_then]
    exact positiveRank_lt.2 (.inl he)
  · rw [Int.compare_eq_eq.2 rfl, Ordering.eq_then]
    obtain hm | rfl | hm := lt_trichotomy m₁ m₂
    · rw [Nat.compare_eq_lt.2 hm]
      exact positiveRank_lt.2 (.inr ⟨rfl, hm⟩)
    · rw [Nat.compare_eq_eq.2 rfl]
      exact rfl
    · rw [Nat.compare_eq_gt.2 hm]
      exact positiveRank_lt.2 (.inr ⟨rfl, hm⟩)
  · rw [Int.compare_eq_gt.2 he, Ordering.gt_then]
    exact positiveRank_lt.2 (.inl he)

theorem compare_numbers {u v : UnpackedFloat} (hu : u ≠ .notANumber) (hv : v ≠ .notANumber) :
    UnpackedFloat.compare u v = some (cmp (rank u) (rank v)) := by
  rcases u with (_ | _) | _ | _ | ⟨_ | _, m₁, e₁, h₁⟩ <;>
    rcases v with (_ | _) | _ | _ | ⟨_ | _, m₂, e₂, h₂⟩
  case finite.positive.finite.positive =>
    exact congrArg some (compares_finite m₁ m₂ e₁ e₂).cmp_eq.symm
  case finite.negative.finite.negative =>
    have hneg : StrictAnti (Neg.neg : ℤ ×ₗ ℤ ×ₗ ℤ → ℤ ×ₗ ℤ ×ₗ ℤ) := fun _ _ => neg_lt_neg
    have hswap := hneg.cmp_map_eq (positiveRank m₁ e₁) (positiveRank m₂ e₂)
    rw [UnpackedFloat.compare, ← (compares_finite m₁ m₂ e₁ e₂).cmp_eq, cmp_swap, ← hswap]
    rfl
  all_goals first
    | exact absurd rfl hu
    | exact absurd rfl hv
    | rfl

theorem compare_eq_some_iff {u v : UnpackedFloat} {o : Ordering} :
    UnpackedFloat.compare u v = some o ↔
      u ≠ .notANumber ∧ v ≠ .notANumber ∧ cmp (rank u) (rank v) = o := by
  constructor
  · intro h
    have hu : u ≠ .notANumber := by
      rintro rfl
      cases h
    have hv : v ≠ .notANumber := by
      rintro rfl
      cases u <;> cases h
    rw [compare_numbers hu hv] at h
    exact ⟨hu, hv, Option.some.inj h⟩
  · rintro ⟨hu, hv, rfl⟩
    exact compare_numbers hu hv

variable {x y : Float}

theorem isNumber_iff : IsNumber x ↔ x.toModel.unpack ≠ .notANumber := by
  apply (beq_iff_ne_notANumber_and_eq _ _).trans
  simp

theorem less_iff : MachineReal.less x y = true ↔
    IsNumber x ∧ IsNumber y ∧ rank x.toModel.unpack < rank y.toModel.unpack := by
  rw [less_eq, beq_iff_eq, compare_eq_some_iff, isNumber_iff, isNumber_iff, cmp_eq_lt_iff]

theorem same_eq (x y : Float) : MachineReal.same x y =
    (UnpackedFloat.compare x.toModel.unpack y.toModel.unpack == some .eq) := rfl

theorem same_iff : MachineReal.same x y = true ↔
    IsNumber x ∧ IsNumber y ∧ rank x.toModel.unpack = rank y.toModel.unpack := by
  rw [same_eq, beq_iff_eq, compare_eq_some_iff, isNumber_iff, isNumber_iff, cmp_eq_eq_iff]

theorem atMost_iff :
    AtMost x y ↔ IsNumber x ∧ IsNumber y ∧ rank x.toModel.unpack ≤ rank y.toModel.unpack := by
  rw [AtMost, less_iff, same_iff, le_iff_lt_or_eq]
  tauto

theorem wide_unpack {s : Sign} {m : Nat} {e : Int} {h : 0 < m} (hx : x.toModel.unpack = .finite s m e h) :
    Wide m e ∧ e ≤ 971 := by
  change unpack .binary64 x.toBits.toBitVec = _ at hx
  by_cases hexponent : @unpackExponent .binary64 x.toBits.toBitVec = -1#11
  · simp only [unpack] at hx
    rw [if_pos hexponent] at hx
    split at hx <;> cases hx
  · have hfinite := finite_unpack hexponent
    rw [hx] at hfinite
    cases hfinite with
    | finite hw he => exact ⟨hw, he⟩

inductive NonNegative : UnpackedFloat → Prop
  | zero (s : Sign) : NonNegative (.zero s)
  | finite {m : Nat} {e : Int} (h : Wide m e) (he : e ≤ 971) : NonNegative (.finite .positive m e h.pos)
  | infinity : NonNegative (.infinity .positive)

theorem nonNegative_unpack (h : AtMost MachineReal.zero x) : NonNegative x.toModel.unpack := by
  obtain ⟨-, hnumber, hle⟩ := atMost_iff.1 h
  rw [isNumber_iff] at hnumber
  rw [unpack_zero] at hle
  cases hx : x.toModel.unpack with
  | notANumber => exact absurd hx hnumber
  | zero s => exact .zero s
  | infinity s =>
    cases s with
    | positive => exact .infinity
    | negative =>
      rw [hx] at hle
      exact absurd hle (not_le.2 (neg_neg_of_pos topRank_pos))
  | finite s m e hm =>
    cases s with
    | positive =>
      obtain ⟨hw, he⟩ := wide_unpack hx
      exact .finite hw he
    | negative =>
      rw [hx] at hle
      exact absurd hle (not_le.2 (neg_neg_of_pos (positiveRank_pos m e)))

theorem NonNegative.ne_notANumber {u : UnpackedFloat} (h : NonNegative u) : u ≠ .notANumber := by
  rintro rfl
  cases h

theorem NonNegative.stored {u : UnpackedFloat} (h : NonNegative u) : stored u = u := by
  cases h with
  | zero s => cases s <;> rfl
  | finite h he => exact h.stored he .positive
  | infinity => exact stored_infinity .positive

theorem AtLeast.rank_le {m : Nat} {e : Int} {u : UnpackedFloat} (h : AtLeast m e u) :
    u ≠ .notANumber ∧ positiveRank m e ≤ rank u := by
  cases h with
  | infinity => exact ⟨nofun, (positiveRank_lt_topRank m e).le⟩
  | finite h hle => exact ⟨nofun, positiveRank_le.2 hle⟩

theorem NonNegative.rank_nonneg {u : UnpackedFloat} (h : NonNegative u) : 0 ≤ rank u := by
  cases h with
  | zero s => exact le_rfl
  | finite h he => exact (positiveRank_pos _ _).le
  | infinity => exact topRank_pos.le

theorem NonNegative.add_zero {u : UnpackedFloat} (hu : NonNegative u) (s : Sign) :
    NonNegative (UnpackedFloat.add .binary64 u (.zero s)) ∧
      rank (UnpackedFloat.add .binary64 u (.zero s)) = rank u := by
  cases hu with
  | zero s' => cases s <;> cases s' <;> exact ⟨.zero _, rfl⟩
  | finite h he => exact ⟨.finite h he, rfl⟩
  | infinity => exact ⟨.infinity, rfl⟩

theorem rank_le_add {u v : UnpackedFloat} (hu : NonNegative u) (hv : NonNegative v) :
    stored (UnpackedFloat.add .binary64 u v) ≠ .notANumber ∧
      rank u ≤ rank (stored (UnpackedFloat.add .binary64 u v)) := by
  -- In all cases but one the sum is one of the terms, and nothing is rounded.
  have hkept : ∀ w, NonNegative w → UnpackedFloat.add .binary64 u v = w → rank u ≤ rank w →
      stored (UnpackedFloat.add .binary64 u v) ≠ .notANumber ∧
        rank u ≤ rank (stored (UnpackedFloat.add .binary64 u v)) := by
    rintro w hw rfl hle
    rw [hw.stored]
    exact ⟨hw.ne_notANumber, hle⟩
  cases hv with
  | zero s =>
    obtain ⟨hsum, hrank⟩ := hu.add_zero s
    exact hkept _ hsum rfl hrank.ge
  | infinity =>
    have hsum : UnpackedFloat.add .binary64 u (.infinity .positive) = .infinity .positive := by
      cases hu <;> rfl
    apply hkept _ .infinity hsum
    cases hu with
    | zero s => exact NonNegative.infinity.rank_nonneg
    | finite h he => exact (positiveRank_lt_topRank _ _).le
    | infinity => exact le_rfl
  | finite h he =>
    cases hu with
    | zero s => exact hkept _ (.finite h he) rfl (NonNegative.finite h he).rank_nonneg
    | infinity => exact hkept _ .infinity rfl le_rfl
    | finite h₀ he₀ => exact (add_wideFrom h₀ (.finite h he)).stored.rank_le

theorem unpack_add (x y : Float) : (MachineReal.add x y).toModel.unpack =
    stored (UnpackedFloat.add .binary64 x.toModel.unpack y.toModel.unpack) := rfl

theorem same_add_zero (hx : AtMost MachineReal.zero x) (hy : MachineReal.same MachineReal.zero y = true) :
    MachineReal.same (MachineReal.add x y) x = true := by
  have hx' := nonNegative_unpack hx
  obtain ⟨s, hzero⟩ : ∃ s, y.toModel.unpack = .zero s := by
    obtain ⟨-, -, hrank⟩ := same_iff.1 hy
    have hy' := nonNegative_unpack (.inr hy)
    generalize y.toModel.unpack = v at hrank hy'
    cases hy' with
    | zero s => exact ⟨s, rfl⟩
    | finite h he => exact absurd hrank (positiveRank_pos _ _).ne
    | infinity => exact absurd hrank topRank_pos.ne
  obtain ⟨hsum, hrank⟩ := hx'.add_zero s
  rw [same_iff, isNumber_iff, isNumber_iff, unpack_add, hzero, hsum.stored]
  exact ⟨hsum.ne_notANumber, hx'.ne_notANumber, hrank⟩

theorem atMost_add (hx : AtMost MachineReal.zero x) (hy : AtMost MachineReal.zero y) :
    AtMost x (MachineReal.add x y) := by
  have hx' := nonNegative_unpack hx
  obtain ⟨hnumber, hle⟩ := rank_le_add hx' (nonNegative_unpack hy)
  rw [atMost_iff, isNumber_iff, isNumber_iff, unpack_add]
  exact ⟨hx'.ne_notANumber, hnumber, hle⟩

end Double

open Double in
instance : MachineReal.LawfulComparison Float where
  number_of_less h := ⟨(less_iff.1 h).1, (less_iff.1 h).2.1⟩
  number_of_same h := ⟨(same_iff.1 h).1, (same_iff.1 h).2.1⟩
  less_self x := by
    rw [Bool.eq_false_iff]
    exact fun h => lt_irrefl _ (less_iff.1 h).2.2

end SatWalk
