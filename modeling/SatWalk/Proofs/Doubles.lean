import Mathlib
import SatWalk.Proofs.Numbers
import SatWalk.Proofs.Rounding

namespace SatWalk

namespace Double

open Float.Model (UnpackedFloat Format totalExponent)
open Float.Model.UnpackedFloat

def stored (u : UnpackedFloat) : UnpackedFloat := unpack .binary64 (pack .binary64 u)

inductive Signed (s : Sign) : UnpackedFloat → Prop
  | zero : Signed s (.zero s)
  | infinity : Signed s (.infinity s)
  | finite (m : Nat) (e : Int) (h : 0 < m) : Signed s (.finite s m e h)

theorem stored_infinity (s : Sign) : unpack .binary64 (packedInfinity .binary64 s) = .infinity s := by
  cases s <;> rfl

structure Wide (m : Nat) (e : Int) : Prop where
  pos : 0 < m
  lt : m < 2 ^ 53
  full : 2 ^ 52 ≤ m ∨ e = -1074
  le : -1074 ≤ e

theorem Wide.log2_le {m : Nat} {e : Int} (h : Wide m e) : m.log2 ≤ 52 := by
  have hlt := (Nat.log2_lt (Nat.ne_of_gt h.pos)).2 h.lt
  omega

theorem Wide.log2_eq {m : Nat} {e : Int} (h : Wide m e) (hm : 2 ^ 52 ≤ m) : m.log2 = 52 :=
  (Nat.log2_eq_iff (Nat.ne_of_gt h.pos)).2 ⟨hm, h.lt⟩

inductive Finite (s : Sign) : UnpackedFloat → Prop
  | zero : Finite s (.zero s)
  | finite {m : Nat} {e : Int} (h : Wide m e) (he : e ≤ 971) : Finite s (.finite s m e h.pos)

theorem bias_eq : (Format.binary64.exponentBias : Int) = 1023 := by decide

theorem toNat_append_one (v : BitVec 52) : (1#1 ++ v).toNat = 2 ^ 52 + v.toNat := by
  rw [BitVec.toNat_append, ← Nat.shiftLeft_add_eq_or_of_lt v.isLt]
  rfl

theorem finite_unpack {b : BitVec 64} (h : @unpackExponent .binary64 b ≠ -1#11) :
    Finite (Sign.ofBitVec (@unpackSign .binary64 b)) (unpack .binary64 b) := by
  have hm : (@unpackMantissa .binary64 b).toNat < 2 ^ 52 := BitVec.isLt _
  have he : (@unpackExponent .binary64 b).toNat < 2048 := BitVec.isLt _
  have hbias := bias_eq
  simp only [unpack]
  rw [if_neg h]
  split
  · next hzero =>
    split
    · exact .zero
    · next hne =>
      have hpos : (@unpackMantissa .binary64 b).toNat ≠ 0 := fun h0 =>
        hne (BitVec.eq_of_toNat_eq h0)
      rw [hzero]
      exact .finite ⟨Nat.pos_of_ne_zero hpos, by omega, .inr rfl, by decide⟩ (by decide)
  · next hzero =>
    have hpos : (@unpackExponent .binary64 b).toNat ≠ 0 := fun h0 =>
      hzero (BitVec.eq_of_toNat_eq h0)
    have htop : (@unpackExponent .binary64 b).toNat ≠ 2047 := fun h1 =>
      h (BitVec.eq_of_toNat_eq h1)
    have hmantissa := toNat_append_one (@unpackMantissa .binary64 b)
    exact .finite ⟨by omega, by omega, .inl (by omega), by omega⟩ (by omega)

theorem Finite.signed {s : Sign} {u : UnpackedFloat} (h : Finite s u) : Signed s u := by
  cases h with
  | zero => exact .zero
  | finite h he => exact .finite _ _ h.pos

theorem finite_unpack_packComponents (s : Sign) {e : BitVec 11} (he : e ≠ -1#11) (m : BitVec 52) :
    Finite s (unpack .binary64 (packComponents .binary64 s e m)) := by
  have hfinite := finite_unpack (b := packComponents .binary64 s e m) (by
    rw [unpackExponent_packComponents]
    exact he)
  rwa [unpackSign_packComponents, Sign.ofBitVec_toBitVec] at hfinite

theorem stored_finite (s : Sign) (m : Nat) (e : Int) (h : 0 < m) : stored (.finite s m e h) =
    if 2047 ≤ (e + 1075).toNat then .infinity s
    else if m.log2 = 52 then
      unpack .binary64 (packComponents .binary64 s (BitVec.ofNat 11 (e + 1075).toNat) (BitVec.ofNat 52 m))
    else unpack .binary64 (packComponents .binary64 s 0#11 (BitVec.ofNat 52 m)) := by
  have hbiased : (e + (Format.binary64.exponentBias : Int) +
      (Format.binary64.mantissaBitsWithoutImplicit : Int)).toNat = (e + 1075).toNat := by
    have hwidth : (Format.binary64.mantissaBitsWithoutImplicit : Int) = 52 := by decide
    rw [bias_eq, hwidth]
    omega
  have htop : 2 ^ Format.binary64.exponentBits ≤ (e + 1075).toNat + 1 ↔ 2047 ≤ (e + 1075).toNat := by
    have hpow : 2 ^ Format.binary64.exponentBits = 2048 := by decide
    rw [hpow]
    omega
  have hfull : m.log2 + 1 = Format.binary64.mantissaBits ↔ m.log2 = 52 := by
    have hbits : Format.binary64.mantissaBits = 53 := by decide
    rw [hbits]
    omega
  simp only [stored, pack, hbiased, htop, hfull]
  split
  · exact stored_infinity s
  · split <;> rfl

theorem Signed.stored {s : Sign} {u : UnpackedFloat} (h : Signed s u) : Signed s (stored u) := by
  cases h with
  | zero => cases s <;> exact .zero
  | infinity =>
    rw [Double.stored, pack, stored_infinity]
    exact .infinity
  | finite m e h =>
    rw [stored_finite]
    split
    · exact .infinity
    · next hexp =>
      split
      · apply Finite.signed
        apply finite_unpack_packComponents
        intro heq
        have htop := congrArg BitVec.toNat heq
        have hones : (-1#11).toNat = 2047 := by decide
        rw [hones, BitVec.toNat_ofNat] at htop
        omega
      · exact (finite_unpack_packComponents s (by decide) _).signed

theorem unpack_zero : (MachineReal.zero : Float).toModel.unpack = .zero .positive := rfl

theorem unpack_one :
    (MachineReal.one : Float).toModel.unpack = .finite .positive (2 ^ 52) (-52) (by decide) := rfl

theorem less_eq (x y : Float) : MachineReal.less x y =
    (UnpackedFloat.compare x.toModel.unpack y.toModel.unpack == some .lt) := by
  rw [Bool.eq_iff_iff]
  apply decide_eq_true_iff.trans
  exact decide_eq_true_iff

theorem Signed.isNumber {s : Sign} {x : Float} (h : Signed s x.toModel.unpack) :
    MachineReal.IsNumber x := by
  have hnumber : x.toModel.unpack ≠ .notANumber := by
    generalize x.toModel.unpack = u at h
    rintro rfl
    cases h
  exact (beq_iff_ne_notANumber_and_eq _ _).2 ⟨hnumber, hnumber, .inl rfl⟩

theorem Signed.isCold {x : Float} (h : Signed .negative x.toModel.unpack) : MachineReal.IsCold x := by
  refine ⟨h.isNumber, ?_⟩
  rw [less_eq, unpack_zero]
  generalize x.toModel.unpack = u at h
  cases h <;> rfl

theorem isCold_zero {x : Float} (h : x.toModel.unpack = .zero .positive) : MachineReal.IsCold x := by
  have hsigned : Signed .positive x.toModel.unpack := h ▸ .zero
  refine ⟨hsigned.isNumber, ?_⟩
  rw [less_eq, unpack_zero, h]
  rfl

inductive AtLeast (m : Nat) (e : Int) : UnpackedFloat → Prop
  | infinity : AtLeast m e (.infinity .positive)
  | finite {m' : Nat} {e' : Int} (h : 0 < m') (hle : e < e' ∨ e = e' ∧ m ≤ m') :
    AtLeast m e (.finite .positive m' e' h)

theorem AtLeast.isBase {x : Float} (h : AtLeast (2 ^ 52) (-52) x.toModel.unpack) :
    MachineReal.IsBase x := by
  have hsigned : Signed .positive x.toModel.unpack := by
    generalize x.toModel.unpack = u at h
    cases h with
    | infinity => exact .infinity
    | finite h hle => exact .finite _ _ h
  refine ⟨hsigned.isNumber, ?_⟩
  rw [less_eq, unpack_one]
  generalize x.toModel.unpack = u at h
  cases h with
  | infinity => rfl
  | @finite m e h hle =>
    simp only [UnpackedFloat.compare]
    obtain hlt | ⟨rfl, hm⟩ := hle
    · rw [Int.compare_eq_gt.2 hlt]
      rfl
    · rw [Int.compare_eq_eq.2 rfl, Ordering.eq_then]
      obtain hlt | heq := Nat.lt_or_eq_of_le hm
      · rw [Nat.compare_eq_gt.2 hlt]
        rfl
      · rw [Nat.compare_eq_eq.2 heq.symm]
        rfl

theorem unpack_normal (s : Sign) {e : Nat} (hpos : 0 < e) (hlt : e < 2047) (m : BitVec 52) :
    ∃ h, unpack .binary64 (packComponents .binary64 s (BitVec.ofNat 11 e) m) =
      .finite s (2 ^ 52 + m.toNat) (e - 1075) h := by
  have hexp : (BitVec.ofNat 11 e).toNat = e := by rw [BitVec.toNat_ofNat, Nat.mod_eq_of_lt (by omega)]
  have hones : BitVec.ofNat 11 e ≠ -1#11 := by
    intro heq
    have htop : e = 2047 := hexp ▸ congrArg BitVec.toNat heq
    omega
  have hzero : BitVec.ofNat 11 e ≠ 0#11 := by
    intro heq
    have hbottom : e = 0 := hexp ▸ congrArg BitVec.toNat heq
    omega
  refine ⟨by omega, ?_⟩
  simp only [unpack, unpackExponent_packComponents, unpackMantissa_packComponents,
    unpackSign_packComponents, Sign.ofBitVec_toBitVec]
  rw [if_neg hones, if_neg hzero, UnpackedFloat.finite.injEq]
  refine ⟨rfl, toNat_append_one m, ?_⟩
  rw [hexp, bias_eq]
  omega

theorem Wide.stored {m : Nat} {e : Int} (h : Wide m e) (he : e ≤ 971) (s : Sign) :
    stored (.finite s m e h.pos) = .finite s m e h.pos := by
  have hle := h.le
  rw [stored_finite, if_neg (by omega)]
  split
  · next hlog =>
    obtain ⟨hlo, hhi⟩ := (Nat.log2_eq_iff (Nat.ne_of_gt h.pos)).1 hlog
    have hexp : 0 < (e + 1075).toNat ∧ (e + 1075).toNat < 2047 := by omega
    obtain ⟨_, hunpack⟩ := unpack_normal s hexp.1 hexp.2 (BitVec.ofNat 52 m)
    rw [hunpack, UnpackedFloat.finite.injEq, BitVec.toNat_ofNat]
    refine ⟨rfl, ?_, ?_⟩ <;> omega
  · next hlog =>
    have hfraction : (BitVec.ofNat 52 m).toNat = m := by
      have hlt : m < 2 ^ 52 := (Nat.log2_lt (Nat.ne_of_gt h.pos)).1 (by have := h.log2_le; omega)
      rw [BitVec.toNat_ofNat, Nat.mod_eq_of_lt hlt]
    have hne : BitVec.ofNat 52 m ≠ 0#52 := by
      intro heq
      have hnone : m = 0 := hfraction ▸ congrArg BitVec.toNat heq
      exact Nat.ne_of_gt h.pos hnone
    have hsmallest : e = -1074 := h.full.resolve_left fun hm => hlog (h.log2_eq hm)
    simp only [unpack, unpackExponent_packComponents, unpackMantissa_packComponents,
      unpackSign_packComponents, Sign.ofBitVec_toBitVec]
    rw [if_neg (by decide), if_pos trivial, dif_neg hne, UnpackedFloat.finite.injEq]
    refine ⟨rfl, hfraction, ?_⟩
    rw [bias_eq, hsmallest]
    rfl

theorem Finite.stored {s : Sign} {u : UnpackedFloat} (h : Finite s u) : stored u = u := by
  cases h with
  | zero => cases s <;> rfl
  | finite h he => exact h.stored he s

theorem Wide.stored_or {m : Nat} {e : Int} (h : Wide m e) :
    Double.stored (.finite .positive m e h.pos) = .infinity .positive ∨
      Double.stored (.finite .positive m e h.pos) = .finite .positive m e h.pos := by
  by_cases he : e ≤ 971
  · exact .inr (h.stored he .positive)
  · rw [stored_finite, if_pos (by omega)]
    exact .inl rfl

theorem toNat_packComponents (s : Sign) (e : BitVec 11) (m : BitVec 52) :
    (packComponents .binary64 s e m).toNat =
      (s.toBitVec.toNat * 2 ^ 11 + e.toNat) * 2 ^ 52 + m.toNat := by
  rw [packComponents, BitVec.toNat_append, BitVec.toNat_append,
    ← Nat.shiftLeft_add_eq_or_of_lt (BitVec.isLt _), ← Nat.shiftLeft_add_eq_or_of_lt (BitVec.isLt _),
    Nat.shiftLeft_eq, Nat.shiftLeft_eq]

def signOf (q : Rat) : Sign := if q < 0 then .negative else .positive

theorem ofNat_bits (q : Rat) {bits : Nat} (h : bits < 2047 * 2 ^ 52) :
    BitVec.ofNat 64 (if q < 0 then (1 <<< 63) + bits else bits) = packComponents .binary64
      (signOf q) (BitVec.ofNat 11 (bits / 2 ^ 52)) (BitVec.ofNat 52 bits) := by
  have hexponent : (BitVec.ofNat 11 (bits / 2 ^ 52)).toNat = bits / 2 ^ 52 := by
    rw [BitVec.toNat_ofNat, Nat.mod_eq_of_lt (by omega)]
  have hfraction : (BitVec.ofNat 52 bits).toNat = bits % 2 ^ 52 := BitVec.toNat_ofNat _ _
  apply BitVec.eq_of_toNat_eq
  rw [toNat_packComponents, hexponent, hfraction, BitVec.toNat_ofNat, signOf]
  split
  · have hsign : (Sign.toBitVec .negative).toNat = 1 := rfl
    rw [hsign]
    omega
  · have hsign : (Sign.toBitVec .positive).toNat = 0 := rfl
    rw [hsign]
    omega

theorem nearest_unpack {q : Rat} {x : Float} (h : Binary64.nearest? q = some x) :
    ∃ bits, Binary64.bitsOf q.num.natAbs q.den = bits ∧ bits < 2047 * 2 ^ 52 ∧
      Finite (signOf q) x.toModel.unpack ∧ x.toModel.unpack = unpack .binary64 (packComponents .binary64
        (signOf q) (BitVec.ofNat 11 (bits / 2 ^ 52)) (BitVec.ofNat 52 bits)) := by
  simp only [Binary64.nearest?] at h
  split at h
  · next hbits =>
    rw [Option.some.injEq] at h
    subst h
    refine ⟨_, rfl, hbits, ?_⟩
    generalize Binary64.bitsOf q.num.natAbs q.den = bits at hbits ⊢
    have hne : BitVec.ofNat 11 (bits / 2 ^ 52) ≠ -1#11 := by
      intro heq
      have htop := congrArg BitVec.toNat heq
      have hones : (-1#11).toNat = 2047 := by decide
      rw [hones, BitVec.toNat_ofNat] at htop
      simp only [Binary64.hidden] at hbits
      omega
    have hfinite := finite_unpack_packComponents (signOf q) hne (BitVec.ofNat 52 bits)
    have hvalue : (Float.ofBits (UInt64.ofNat
        (if q < 0 then (1 <<< 63) + bits else bits))).toModel.unpack = unpack .binary64
          (packComponents .binary64 (signOf q) (BitVec.ofNat 11 (bits / 2 ^ 52))
            (BitVec.ofNat 52 bits)) := by
      apply Eq.trans _ hfinite.stored
      rw [← ofNat_bits q hbits]
      rfl
    exact ⟨hvalue ▸ hfinite, hvalue⟩
  · cases h

theorem finite_nearest {q : Rat} {x : Float} (hq : 0 ≤ q) (h : Binary64.nearest? q = some x) :
    Finite .positive x.toModel.unpack := by
  obtain ⟨bits, -, -, hfinite, -⟩ := nearest_unpack h
  rwa [signOf, if_neg (not_lt.2 hq)] at hfinite

theorem isCold_nearest {q : Rat} {x : Float} (hq : q ≤ 0) (h : Binary64.nearest? q = some x) :
    MachineReal.IsCold x := by
  obtain ⟨bits, hbits, -, hfinite, hx⟩ := nearest_unpack h
  obtain hlt | rfl := lt_or_eq_of_le hq
  · rw [signOf, if_pos hlt] at hfinite
    exact hfinite.signed.isCold
  · apply isCold_zero
    rw [hx, ← hbits]
    rfl

theorem atLeast_nearest {q : Rat} {x : Float} (hq : 1 ≤ q) (h : Binary64.nearest? q = some x) :
    AtLeast (2 ^ 52) (-52) x.toModel.unpack := by
  obtain ⟨bits, hbits, hlt, -, hx⟩ := nearest_unpack h
  have hone : 1023 * 2 ^ 52 ≤ bits := by
    rw [← hbits]
    apply Binary64.le_bitsOf q.den_pos
    have hnum := (Rat.le_iff 1 q).1 hq
    rw [Rat.num_one, Rat.den_one] at hnum
    omega
  have hexponent : 0 < bits / 2 ^ 52 ∧ bits / 2 ^ 52 < 2047 := by omega
  have hpositive : signOf q = .positive := if_neg (not_lt.2 (zero_le_one.trans hq))
  obtain ⟨hpos, hunpack⟩ := unpack_normal (signOf q) hexponent.1 hexponent.2 (BitVec.ofNat 52 bits)
  rw [hx, hunpack, hpositive]
  exact .finite hpos (by omega)

theorem isFinite_fields_iff (x : Float) : (Binary64.fields x).isFinite = true ↔
    @unpackExponent .binary64 x.toBits.toBitVec ≠ -1#11 := by
  have hexponent : (@unpackExponent .binary64 x.toBits.toBitVec).toNat = (x.toBits.toNat >>> 52) % 2048 :=
    BitVec.extractLsb'_toNat 52 11 x.toBits.toBitVec
  have hones : (-1#11).toNat = 2047 := by decide
  rw [Binary64.Fields.isFinite, bne_iff_ne, ne_eq, ne_eq, ← BitVec.toNat_inj, hones, hexponent]
  rfl

theorem isSome_toRat (x : Float) : (MachineReal.toRat? x).isSome = (Binary64.fields x).isFinite := by
  simp only [MachineReal.toRat?, Binary64.toRat?]
  split
  · next h => exact h.symm
  · next h => exact (Bool.eq_false_of_not_eq_true h).symm

theorem isSome_toRat_iff (x : Float) : (MachineReal.toRat? x).isSome ↔ x.isFinite := by
  rw [isSome_toRat, isFinite_fields_iff]
  change _ ↔ (unpack .binary64 x.toBits.toBitVec).isFinite
  constructor
  · intro h
    have hfinite := finite_unpack h
    generalize unpack .binary64 x.toBits.toBitVec = u at hfinite ⊢
    cases hfinite <;> rfl
  · intro h heq
    rw [unpack, if_pos heq] at h
    split at h <;> cases h

theorem usable_unpack {x : Float} (h : MachineReal.IsUsable x) :
    ∃ m e, ∃ hw : Wide m e, e ≤ 971 ∧ x.toModel.unpack = .finite .positive m e hw.pos := by
  obtain ⟨hsome, hless⟩ := h
  rw [isSome_toRat, isFinite_fields_iff] at hsome
  have hfinite := finite_unpack hsome
  rw [less_eq, unpack_zero] at hless
  change Finite _ x.toModel.unpack at hfinite
  generalize Sign.ofBitVec _ = s at hfinite
  generalize x.toModel.unpack = u at hfinite hless
  cases hfinite with
  | zero => cases hless
  | finite hw he =>
    cases s with
    | negative => cases hless
    | positive => exact ⟨_, _, hw, he, rfl⟩

theorem usable_not_less {x : Float} (h : MachineReal.IsUsable x) :
    MachineReal.less x MachineReal.zero = false := by
  obtain ⟨m, e, hw, -, hunpack⟩ := usable_unpack h
  rw [less_eq, unpack_zero, hunpack]
  rfl

theorem bits_of_zero {x : Float} (h : MachineReal.toRat? x = some 0) :
    x.toBits.toBitVec = 0#64 ∨ x.toBits.toBitVec = 9223372036854775808#64 := by
  have hmagnitude : (Binary64.fields x).magnitude = 0 := by
    simp only [MachineReal.toRat?, Binary64.toRat?] at h
    split at h
    · simp only [Option.some.injEq] at h
      split at h
      · exact neg_eq_zero.1 h
      · exact h
    · cases h
  have hmantissa : (Binary64.fields x).mantissa = 0 := by
    obtain hzero | hzero := mul_eq_zero.1 hmagnitude
    · exact_mod_cast hzero
    · exact absurd hzero (zpow_ne_zero _ two_ne_zero)
  have hlow : x.toBits.toNat % 2 ^ 63 = 0 := by
    simp only [Binary64.Fields.mantissa, Binary64.fields, Binary64.hidden, Nat.shiftRight_eq_div_pow]
      at hmantissa
    by_cases hexponent : x.toBits.toNat / 2 ^ 52 % 2048 = 0
    · rw [if_pos hexponent] at hmantissa
      omega
    · rw [if_neg hexponent] at hmantissa
      omega
  have hlt : x.toBits.toNat < 2 ^ 64 := x.toBits.toNat_lt
  have hbits : x.toBits.toBitVec.toNat = 0 ∨ x.toBits.toBitVec.toNat = 9223372036854775808 := by
    change x.toBits.toNat = 0 ∨ x.toBits.toNat = 9223372036854775808
    omega
  exact hbits.imp (fun h => BitVec.eq_of_toNat_eq h) fun h => BitVec.eq_of_toNat_eq h

theorem usable_ne_zero {x : Float} (h : MachineReal.IsUsable x) : MachineReal.toRat? x ≠ some 0 := by
  intro hzero
  obtain ⟨m, e, hw, -, hunpack⟩ := usable_unpack h
  change unpack .binary64 x.toBits.toBitVec = _ at hunpack
  obtain hbits | hbits := bits_of_zero hzero
  · rw [hbits] at hunpack
    cases hunpack
  · rw [hbits] at hunpack
    cases hunpack

end Double

theorem Config.weighting_of_double (c : Config Float) :
    Weighting.of (.text c.family.name) c.temperature.toValue c.offset.toValue = .ok c.weighting :=
  weighting_of (fun _ h => ⟨Double.usable_not_less h, Double.usable_ne_zero h⟩) c

end SatWalk
