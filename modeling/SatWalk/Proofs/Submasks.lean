import Mathlib.Data.Nat.Bitwise
import SatWalk.Proofs.Combinations

namespace SatWalk

namespace Mask

variable {m sub t : Nat}

def walk (m sub : Nat) : List Nat :=
  if _h : sub = 0 then [0] else sub :: walk m ((sub - 1) &&& m)
termination_by sub
decreasing_by exact Nat.lt_of_le_of_lt Nat.and_le_left (by omega)

theorem le_pred_and (hsub : sub &&& m = sub) (ht : t &&& m = t) (hlt : t < sub) :
    t ≤ (sub - 1) &&& m := by
  induction sub using Nat.strongRecOn generalizing m t with
  | _ sub ih =>
    have hsub₂ : sub / 2 &&& m / 2 = sub / 2 := by rw [← Nat.and_div_two, hsub]
    have ht₂ : t / 2 &&& m / 2 = t / 2 := by rw [← Nat.and_div_two, ht]
    have hlow : ((sub - 1) &&& m) % 2 = 1 ↔ (sub - 1) % 2 = 1 ∧ m % 2 = 1 := Nat.and_mod_two_eq_one
    have hhigh : ((sub - 1) &&& m) / 2 = (sub - 1) / 2 &&& m / 2 := Nat.and_div_two
    have htlow : t % 2 = 1 → m % 2 = 1 := by
      intro h
      rw [← ht, Nat.and_mod_two_eq_one] at h
      exact h.2
    rcases Nat.mod_two_eq_zero_or_one sub with heven | hodd
    · have hpred : (sub - 1) / 2 = sub / 2 - 1 := by omega
      have hhalf := ih (sub / 2) (by omega) hsub₂ ht₂ (by omega)
      rw [hpred] at hhigh
      omega
    · have hpred : (sub - 1) / 2 = sub / 2 := by omega
      rw [hpred, hsub₂] at hhigh
      omega

theorem mem_walk (hsub : sub &&& m = sub) : t ∈ walk m sub ↔ t &&& m = t ∧ t ≤ sub := by
  fun_induction walk m sub with
  | case1 =>
    rw [List.mem_singleton]
    constructor
    · rintro rfl
      exact ⟨Nat.zero_and m, Nat.le_refl 0⟩
    · rintro ⟨-, hle⟩
      exact Nat.le_zero.1 hle
  | case2 sub h ih =>
    have hnext : (sub - 1) &&& m &&& m = (sub - 1) &&& m := by rw [Nat.and_assoc, Nat.and_self]
    have hle : (sub - 1) &&& m ≤ sub - 1 := Nat.and_le_left
    rw [List.mem_cons, ih hnext]
    constructor
    · rintro (rfl | ⟨ht, hlt⟩)
      · exact ⟨hsub, Nat.le_refl t⟩
      · exact ⟨ht, by omega⟩
    · rintro ⟨ht, hlt⟩
      obtain rfl | hlt := Nat.eq_or_lt_of_le hlt
      · exact .inl rfl
      · exact .inr ⟨ht, le_pred_and hsub ht hlt⟩

theorem nodup_walk (hsub : sub &&& m = sub) : (walk m sub).Nodup := by
  fun_induction walk m sub with
  | case1 => exact List.nodup_singleton 0
  | case2 sub h ih =>
    have hnext : (sub - 1) &&& m &&& m = (sub - 1) &&& m := by rw [Nat.and_assoc, Nat.and_self]
    have hle : (sub - 1) &&& m ≤ sub - 1 := Nat.and_le_left
    rw [List.nodup_cons, mem_walk hnext]
    refine ⟨?_, ih hnext⟩
    rintro ⟨-, hself⟩
    omega

def free (w kill save : Nat) : Nat := Nat.ldiff (2 ^ w - 1) (kill ||| save)

theorem mem_avoiding_iff {w kill save t : Nat} :
    t ∈ avoiding w kill save ↔ t &&& free w kill save = t := by
  rw [mem_avoiding, land_eq_left_iff, Nat.one_shiftLeft]
  simp only [free, Nat.testBit_ldiff, Nat.testBit_two_pow_sub_one, Nat.testBit_or, has_natCast,
    Bool.and_eq_true, decide_eq_true_eq, Bool.not_eq_true', Bool.or_eq_false_iff]
  constructor
  · rintro ⟨hlt, hbits⟩ i hi
    exact ⟨lt_of_testBit hlt hi, hbits i hi⟩
  · intro hbits
    refine ⟨?_, fun i hi => (hbits i hi).2⟩
    apply Nat.lt_pow_two_of_testBit
    intro i hi
    by_contra hbit
    have hlt := (hbits i (Bool.eq_true_of_not_eq_false hbit)).1
    omega

theorem walk_perm_avoiding (w kill save : Nat) :
    (walk (free w kill save) (free w kill save)).Perm (avoiding w kill save) := by
  have hself : free w kill save &&& free w kill save = free w kill save := Nat.and_self _
  apply (List.perm_ext_iff_of_nodup (nodup_walk hself) (nodup_avoiding w kill save)).2
  intro t
  rw [mem_walk hself, mem_avoiding_iff]
  constructor
  · exact And.left
  · exact fun ht => ⟨ht, ht ▸ Nat.and_le_right⟩

end Mask

namespace Profile

def walked (w kill save : Nat) : List Nat :=
  if kill &&& save = 0 then
    (Mask.walk (Mask.free w kill save) (Mask.free w kill save)).map (kill ||| ·)
  else []

theorem walked_perm (w kill save : Nat) : (walked w kill save).Perm (breakingFrom w kill save) := by
  have hdisjoint : Mask.disjoint kill save = true ↔ kill &&& save = 0 := beq_iff_eq
  simp only [walked, breakingFrom, hdisjoint]
  split
  · have hjoin : ∀ t ∈ Mask.avoiding w kill save, kill + t = kill ||| t :=
      fun t ht => Mask.add_eq_or (Mask.and_eq_zero_of_mem_avoiding ht)
    rw [List.map_congr_left hjoin]
    exact (Mask.walk_perm_avoiding w kill save).map _
  · exact .nil

end Profile

theorem BreakCount.sum_walked {w : Nat} (hw : w < 63) {ps : Profiles} (h : ∀ e ∈ ps, e.1.Fits w) :
    sum (fun p => .ok ((Profile.walked w p.kill.toNat p.save.toNat).map Int.ofNat))
      (Array.replicate (1 <<< w) 0) ps = combinations w ps := by
  let ts := fun p : Profile => Profile.walked w p.kill.toNat p.save.toNat
  have hperm : ∀ e ∈ ps, (ts e.1).Perm (Profile.breakingFrom w e.1.kill.toNat e.1.save) := by
    intro e he
    obtain ⟨kill, save, hp, -, -⟩ := h e he
    rw [hp]
    exact Profile.walked_perm w kill save
  obtain ⟨counts, hcounts, hsize, hget⟩ := combinations_counts hw h
  obtain ⟨out, hout, hsize', hget'⟩ :=
    @sum_breaking w ps h (fun p => .ok ((ts p).map Int.ofNat)) ts (fun e he => rfl) hperm
  rw [hout, hcounts]
  congr 1
  apply Array.ext_getElem?
  intro t
  by_cases ht : t < 2 ^ w
  · rw [hget' t ht, hget t ht]
  · rw [Array.getElem?_eq_none (by omega), Array.getElem?_eq_none (by omega)]

end SatWalk
