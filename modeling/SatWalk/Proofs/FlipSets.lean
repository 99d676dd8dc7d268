import Mathlib.Algebra.Ring.Int.Defs
import Mathlib.Data.Set.Function
import Mathlib.Order.Interval.Set.Defs
import SatWalk.Proofs.Selection

namespace SatWalk

section
variable {α : Type} {as : List α}

theorem pairwise_firsts [DecidableEq α] (as : List α) :
    (firsts as).Pairwise fun a b => as.idxOf a < as.idxOf b := by
  induction as with
  | nil => exact List.Pairwise.nil
  | cons c cs ih =>
    have hother : ∀ a ∈ (firsts cs).filter (· ≠ c), (c :: cs).idxOf a = cs.idxOf a + 1 := by
      intro a ha
      have hne : a ≠ c := of_decide_eq_true (List.mem_filter.1 ha).2
      exact List.idxOf_cons_ne cs hne.symm
    rw [firsts, List.pairwise_cons]
    constructor
    · intro b hb
      rw [List.idxOf_cons_self, hother b hb]
      exact Nat.succ_pos _
    · apply (ih.sublist List.filter_sublist).imp_of_mem
      intro a b ha hb hab
      rw [hother a ha, hother b hb]
      exact Nat.succ_lt_succ hab

theorem select_cons_double (a : α) (as : List α) (t : Nat) :
    select (a :: as) ((2 * t : Nat) : Int) = select as t := by
  have heven : ¬ ((2 * t : Nat) : Int) % 2 = 1 := by omega
  have hhalf : ((2 * t : Nat) : Int) / (2 : Int) = t := by omega
  rw [select, if_neg heven, hhalf]

theorem select_cons_double_add_one (a : α) (as : List α) (t : Nat) :
    select (a :: as) ((2 * t + 1 : Nat) : Int) = a :: select as t := by
  have hodd : ((2 * t + 1 : Nat) : Int) % 2 = 1 := by omega
  have hhalf : ((2 * t + 1 : Nat) : Int) / (2 : Int) = t := by omega
  rw [select, if_pos hodd, hhalf]

theorem select_injOn (h : as.Nodup) :
    Set.InjOn (fun t : Nat => select as t) (Set.Iio (2 ^ as.length)) := by
  intro t ht u hu he
  apply Nat.eq_of_testBit_eq
  intro i
  by_cases hi : i < as.length
  · have hmem (t : Nat) : as[i] ∈ select as t ↔ t.testBit i = true :=
      mem_select_getElem? h (List.getElem?_eq_getElem hi)
    rw [Bool.eq_iff_iff, ← hmem t, ← hmem u]
    exact iff_of_eq (congrArg (as[i] ∈ ·) he)
  · have hpow : 2 ^ as.length ≤ 2 ^ i := Nat.pow_le_pow_right Nat.two_pos (Nat.le_of_not_lt hi)
    rw [Nat.testBit_lt_two_pow (Nat.lt_of_lt_of_le ht hpow),
      Nat.testBit_lt_two_pow (Nat.lt_of_lt_of_le hu hpow)]

theorem exists_select {s : List α} (h : s.Sublist as) :
    ∃ t : Nat, t < 2 ^ as.length ∧ select as t = s := by
  induction h with
  | slnil => exact ⟨0, Nat.one_pos, rfl⟩
  | cons a h ih =>
    obtain ⟨t, ht, rfl⟩ := ih
    refine ⟨2 * t, ?_, select_cons_double a _ t⟩
    rw [List.length_cons, Nat.pow_succ']
    omega
  | cons_cons a h ih =>
    obtain ⟨t, ht, rfl⟩ := ih
    refine ⟨2 * t + 1, ?_, select_cons_double_add_one a _ t⟩
    rw [List.length_cons, Nat.pow_succ']
    omega

theorem select_bijOn (h : as.Nodup) :
    Set.BijOn (fun t : Nat => select as t) (Set.Iio (2 ^ as.length)) {s | s.Sublist as} := by
  refine ⟨?_, select_injOn h, ?_⟩
  · intro t _
    exact select_sublist as t
  · intro s hs
    exact exists_select hs

theorem emod_two_mul_ediv (t m : Int) : t % (2 * m) / 2 = t / 2 % m := by
  calc t % (2 * m) / 2 = (t - t / (2 * m) * m * 2) / 2 := by
        rw [Int.emod_def, Int.mul_comm (2 * m), Int.mul_comm 2 m, Int.mul_assoc]
    _ = t / 2 - t / (2 * m) * m := Int.sub_mul_ediv_right _ _ (by decide)
    _ = t / 2 % m := by rw [Int.emod_def, Int.ediv_ediv_of_nonneg (by decide), Int.mul_comm]

theorem select_emod (as : List α) (t : Int) : select as (t % 2 ^ as.length) = select as t := by
  induction as generalizing t with
  | nil => rfl
  | cons a as ih =>
    have hpow : (2 : Int) ^ (a :: as).length = 2 * 2 ^ as.length := Int.pow_succ' ..
    have hbit : t % (2 * 2 ^ as.length) % 2 = t % 2 := Int.emod_emod_of_dvd t (Int.dvd_mul_right ..)
    rw [select, select, hpow, hbit, emod_two_mul_ediv, ih]

end

theorem distinctVars_of_natAbs {ls ms : List Literal}
    (h : List.Forall₂ (fun l m => m = l ∨ m = -l) ls ms) : distinctVars ms = distinctVars ls := by
  have hvars : ms.map Literal.var = ls.map Literal.var := by
    induction h with
    | nil => rfl
    | cons hl _ ih =>
      rw [List.map_cons, List.map_cons, ih]
      congr 1
      rcases hl with rfl | rfl
      · rfl
      · exact Int.natAbs_neg _
  rw [distinctVars, hvars, distinctVars]

/-- The variables of literals are told apart by first appearance and not by sign. Their combinations are
their flip sets, one to one; bit by bit an integer says which of them are flipped, and no bit beyond
their number counts. -/
theorem FlipChoice.of_bijOn (ls : List Literal) :
    (distinctVars ls).Nodup ∧
    (∀ v, v ∈ distinctVars ls ↔ ∃ l ∈ ls, l.natAbs = v) ∧
    (distinctVars ls).Pairwise
      (fun u v => (ls.map Int.natAbs).idxOf u < (ls.map Int.natAbs).idxOf v) ∧
    (∀ ms, List.Forall₂ (fun l m => m = l ∨ m = -l) ls ms → distinctVars ms = distinctVars ls) ∧
    Set.BijOn (fun t : Nat => (FlipChoice.of (distinctVars ls) t).vars)
      (Set.Iio (2 ^ (distinctVars ls).length)) {vs | vs.Sublist (distinctVars ls)} ∧
    (∀ t < 2 ^ (distinctVars ls).length,
      (FlipChoice.of (distinctVars ls) (t : Nat)).vars = [] ↔ t = 0) ∧
    (∀ (t : Int) (i : Nat) (v : Var), (distinctVars ls)[i]? = some v →
      (v ∈ (FlipChoice.of (distinctVars ls) t).vars ↔ Mask.has t i = true)) ∧
    ∀ t : Int, (FlipChoice.of (distinctVars ls) t).vars =
        (FlipChoice.of (distinctVars ls) (t % 2 ^ (distinctVars ls).length)).vars ∧
      (FlipChoice.of (distinctVars ls) t).combination = t := by
  have hnodup := nodup_distinctVars ls
  refine ⟨hnodup, fun v => mem_distinctVars, pairwise_firsts _, fun ms => distinctVars_of_natAbs,
    select_bijOn hnodup, ?_, fun t i v hv => mem_select_getElem? hnodup hv, ?_⟩
  · intro t ht
    constructor
    · intro hnone
      by_contra h0
      exact select_ne_nil h0 ht hnone
    · rintro rfl
      exact select_zero _
  · intro t
    exact ⟨(select_emod _ t).symm, rfl⟩

end SatWalk
