import Mathlib.Algebra.Ring.Nat
import Mathlib.Data.List.Nodup
import SatWalk.FlipChoice
import SatWalk.Mask
import SatWalk.Proofs.Occurrences

namespace SatWalk

variable {α : Type} {as : List α} {t : Int}

theorem mem_select {a : α} : a ∈ select as t ↔ ∃ i : Nat, as[i]? = some a ∧ Mask.has t i = true := by
  induction as generalizing t with
  | nil => simp [select]
  | cons b bs ih =>
    have hsplit : (∃ i : Nat, (b :: bs)[i]? = some a ∧ Mask.has t i = true) ↔
        (b = a ∧ t % 2 = 1) ∨ ∃ i : Nat, bs[i]? = some a ∧ Mask.has (t / 2) i = true := by
      constructor
      · rintro ⟨i, hi, hbit⟩
        cases i with
        | zero =>
          rw [Mask.has_zero, decide_eq_true_eq] at hbit
          exact .inl ⟨Option.some.inj hi, hbit⟩
        | succ i => exact .inr ⟨i, hi, Mask.has_succ t i ▸ hbit⟩
      · rintro (⟨rfl, hbit⟩ | ⟨i, hi, hbit⟩)
        · exact ⟨0, rfl, by rw [Mask.has_zero, decide_eq_true_eq]; exact hbit⟩
        · exact ⟨i + 1, hi, (Mask.has_succ t i).symm ▸ hbit⟩
    rw [hsplit, select]
    split
    · next ht => simp only [List.mem_cons, ih, ht, and_true, eq_comm (a := a)]
    · next ht => simp only [ih, ht, and_false, false_or]

theorem select_eq (as : List α) (t : Int) :
    select as t = (as.zipIdx.filter fun ai => Mask.has t ai.2).map Prod.fst := by
  have hgen : ∀ (as : List α) (k : Nat) (t u : Int), (∀ i, Mask.has u (k + i) = Mask.has t i) →
      select as t = ((as.zipIdx k).filter fun ai => Mask.has u ai.2).map Prod.fst := by
    intro as
    induction as with
    | nil => intro k t u _; rfl
    | cons a as ih =>
      intro k t u h
      have h0 : Mask.has u k = decide (t % 2 = 1) := by rw [← Mask.has_zero]; exact h 0
      have hrest : select as (t / 2) =
          ((as.zipIdx (k + 1)).filter fun ai => Mask.has u ai.2).map Prod.fst := by
        apply ih
        intro i
        rw [Nat.add_assoc, Nat.add_comm 1 i, h (i + 1), Mask.has_succ]
      rw [select, List.zipIdx_cons, List.filter_cons]
      by_cases ht : t % 2 = 1 <;> simp [h0, ht, hrest]
  exact hgen as 0 t t fun i => by rw [Nat.zero_add]

theorem nodup_select (h : as.Nodup) (t : Int) : (select as t).Nodup := h.sublist (select_sublist as t)

theorem mem_select_getElem? (h : as.Nodup) {a : α} {i : Nat} (hi : as[i]? = some a) :
    a ∈ select as t ↔ Mask.has t i = true := by
  rw [mem_select]
  constructor
  · rintro ⟨j, hj, hbit⟩
    obtain ⟨hilt, hia⟩ := List.getElem?_eq_some_iff.1 hi
    obtain ⟨hjlt, hja⟩ := List.getElem?_eq_some_iff.1 hj
    exact (List.Nodup.getElem_inj_iff h).1 (hja.trans hia.symm) ▸ hbit
  · intro hbit
    exact ⟨i, hi, hbit⟩

theorem select_ne_nil {t : Nat} (h0 : t ≠ 0) (ht : t < 2 ^ as.length) : select as t ≠ [] := by
  obtain ⟨i, hi⟩ := Nat.exists_testBit_of_ne_zero h0
  have hlt : i < as.length := by
    by_contra hge
    have hpow : 2 ^ as.length ≤ 2 ^ i := Nat.pow_le_pow_right (by decide) (by omega)
    rw [Nat.testBit_lt_two_pow (Nat.lt_of_lt_of_le ht hpow)] at hi
    cases hi
  exact List.ne_nil_of_mem (mem_select.2 ⟨i, List.getElem?_eq_getElem hlt, hi⟩)

theorem select_zero (as : List α) : select as 0 = [] := by
  apply List.eq_nil_iff_forall_not_mem.2
  intro a ha
  obtain ⟨i, -, hi⟩ := mem_select.1 ha
  rw [← Int.natCast_zero, Mask.has_natCast, Nat.zero_testBit] at hi
  cases hi

theorem select_one_shiftLeft {i : Nat} (h : i < as.length) :
    select as ((1 <<< i : Nat) : Int) = [as[i]] := by
  induction as generalizing i with
  | nil => cases h
  | cons a as ih =>
    cases i with
    | zero =>
      simp only [Nat.shiftLeft_zero, Int.natCast_one, select]
      rw [if_pos (by decide)]
      exact congrArg (a :: ·) (select_zero as)
    | succ i =>
      have hodd : ¬ ((1 <<< (i + 1) : Nat) : Int) % 2 = 1 := by
        rw [Nat.shiftLeft_succ]
        omega
      have hhalf : ((1 <<< (i + 1) : Nat) : Int) / (2 : Int) = ((1 <<< i : Nat) : Int) := by
        rw [Nat.shiftLeft_succ]
        omega
      rw [select, if_neg hodd, hhalf, ih (by simpa using h)]
      rfl

end SatWalk
