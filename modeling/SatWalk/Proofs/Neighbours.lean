import Mathlib.Data.List.Nodup
import SatWalk.Break
import SatWalk.Proofs.Combinations
import SatWalk.Proofs.Record
import SatWalk.Proofs.Selection

namespace SatWalk

theorem idxOf?_eq_some {vars : List Nat} (hvars : vars.Nodup) {v i : Nat} :
    vars.idxOf? v = some i ↔ vars[i]? = some v := by
  rw [List.idxOf?_eq_some_iff, List.getElem?_eq_some_iff]
  constructor
  · rintro ⟨hi, he, -⟩
    exact ⟨hi, he⟩
  · rintro ⟨hi, he⟩
    refine ⟨hi, he, fun j hj hje => ?_⟩
    have := (List.Nodup.getElem_inj_iff hvars).1 (hje.trans he.symm)
    omega

namespace Profile

variable {vars : List Nat} {A : Assignment}

theorem testBit_or_shiftLeft {a i j : Nat} :
    (a ||| 1 <<< j).testBit i = true ↔ a.testBit i = true ∨ j = i := by
  rw [Nat.testBit_or, Nat.one_shiftLeft, Nat.testBit_two_pow, Bool.or_eq_true, decide_eq_true_eq]

theorem add?_eq_none {sets : Nat × Nat} {l : Int} :
    add? vars A sets l = none ↔ A.truth l = true ∧ l.natAbs ∉ vars := by
  simp only [add?]
  cases hi : vars.idxOf? l.natAbs with
  | none =>
    rw [List.idxOf?_eq_none_iff] at hi
    cases A.truth l <;> simp [hi]
  | some i =>
    have hmem : l.natAbs ∈ vars := by
      rw [← List.isSome_idxOf?, hi]
      rfl
    cases A.truth l <;> simp [hmem]

theorem add?_eq_some (hvars : vars.Nodup) {sets out : Nat × Nat} {l : Int}
    (h : add? vars A sets l = some out) (i : Nat) :
    (out.1.testBit i = true ↔
      sets.1.testBit i = true ∨ (A.truth l = true ∧ vars[i]? = some l.natAbs)) ∧
    (out.2.testBit i = true ↔
      sets.2.testBit i = true ∨ (A.truth l = false ∧ vars[i]? = some l.natAbs)) := by
  simp only [add?] at h
  cases hj : vars.idxOf? l.natAbs with
  | none =>
    have hnone : vars[i]? ≠ some l.natAbs := by
      intro hi
      cases hj.symm.trans ((idxOf?_eq_some hvars).2 hi)
    cases ht : A.truth l with
    | true => simp [hj, ht] at h
    | false =>
      simp only [hj, ht, Bool.false_eq_true, if_false, Option.some.injEq] at h
      simp [← h, hnone]
  | some j =>
    have hiff : vars[i]? = some l.natAbs ↔ j = i := by
      rw [← idxOf?_eq_some hvars, hj, Option.some.injEq]
    cases ht : A.truth l with
    | true =>
      simp only [hj, ht, if_true, Option.some.injEq] at h
      simp only [← h, testBit_or_shiftLeft, hiff]
      simp
    | false =>
      simp only [hj, ht, Bool.false_eq_true, if_false, Option.some.injEq] at h
      simp only [← h, testBit_or_shiftLeft, hiff]
      simp

theorem foldlM_add?_eq_none {c : Clause} {sets : Nat × Nat} :
    c.foldlM (add? vars A) sets = none ↔ ∃ l ∈ c, A.truth l = true ∧ l.natAbs ∉ vars := by
  induction c generalizing sets with
  | nil => simp
  | cons l ls ih =>
    rw [List.foldlM_cons]
    simp only [List.mem_cons, exists_eq_or_imp]
    cases hl : add? vars A sets l with
    | none => exact iff_of_true rfl (.inl (add?_eq_none.1 hl))
    | some out =>
      have hhead : ¬ (A.truth l = true ∧ l.natAbs ∉ vars) := fun h =>
        nomatch hl.symm.trans (add?_eq_none.2 h)
      rw [or_iff_right hhead]
      exact ih

theorem foldlM_add?_eq_some (hvars : vars.Nodup) {c : Clause} {sets out : Nat × Nat}
    (h : c.foldlM (add? vars A) sets = some out) (i : Nat) :
    (out.1.testBit i = true ↔
      sets.1.testBit i = true ∨ ∃ l ∈ c, A.truth l = true ∧ vars[i]? = some l.natAbs) ∧
    (out.2.testBit i = true ↔
      sets.2.testBit i = true ∨ ∃ l ∈ c, A.truth l = false ∧ vars[i]? = some l.natAbs) := by
  induction c generalizing sets with
  | nil =>
    obtain rfl : sets = out := Option.some.inj h
    simp
  | cons l ls ih =>
    rw [List.foldlM_cons] at h
    obtain ⟨mid, hmid, h⟩ := Option.bind_eq_some_iff.1 h
    obtain ⟨hk, hs⟩ := add?_eq_some hvars hmid i
    obtain ⟨hk', hs'⟩ := ih h
    simp only [hk', hs', hk, hs, List.mem_cons, exists_eq_or_imp, or_assoc, and_self]

theorem of?_eq_none {c : Clause} :
    of? vars A c = none ↔ ∃ l ∈ c, A.truth l = true ∧ l.natAbs ∉ vars := by
  rw [of?, Option.map_eq_none_iff, foldlM_add?_eq_none]

theorem of?_eq_some (hvars : vars.Nodup) {c : Clause} {p : Profile} (h : of? vars A c = some p) :
    p.Within vars.length ∧ ∀ i,
      (Mask.has p.kill i = true ↔ ∃ l ∈ c, A.truth l = true ∧ vars[i]? = some l.natAbs) ∧
      (Mask.has p.save i = true ↔ ∃ l ∈ c, A.truth l = false ∧ vars[i]? = some l.natAbs) := by
  obtain ⟨sets, hsets, rfl⟩ := Option.map_eq_some_iff.1 h
  have hbits := foldlM_add?_eq_some hvars hsets
  simp only [Nat.zero_testBit, Bool.false_eq_true, false_or] at hbits
  have hwithin : ∀ n : Nat, (∀ i, n.testBit i = true → ∃ v, vars[i]? = some v) →
      n < 2 ^ vars.length := by
    intro n hn
    apply Nat.lt_pow_two_of_testBit
    intro i hi
    by_contra hbit
    obtain ⟨v, hv⟩ := hn i (by simpa using hbit)
    rw [List.getElem?_eq_none hi] at hv
    cases hv
  refine ⟨⟨sets.1, sets.2, rfl, hwithin _ ?_, hwithin _ ?_⟩, fun i => ?_⟩
  · intro i hi
    obtain ⟨l, -, -, hl⟩ := (hbits i).1.1 hi
    exact ⟨_, hl⟩
  · intro i hi
    obtain ⟨l, -, -, hl⟩ := (hbits i).2.1 hi
    exact ⟨_, hl⟩
  · simp only [Mask.has_natCast]
    exact hbits i

variable {c : Clause} (hc : ∀ l ∈ c, l.natAbs ≤ A.numVars)
include hc

theorem truth_flipped (hvars : vars.Nodup) {l : Int} (hl : l ∈ c) (t : Int) :
    (A.toggled (select vars t)).truth l = (A.truth l ^^ decide (l.natAbs ∈ select vars t)) :=
  Assignment.truth_toggled_nodup (hc l hl) (nodup_select hvars t)

theorem truth_flipped_at (hvars : vars.Nodup) {l : Int} (hl : l ∈ c) {i : Nat}
    (hi : vars[i]? = some l.natAbs) (t : Nat) :
    (A.toggled (select vars t)).truth l = (A.truth l ^^ t.testBit i) := by
  simp only [truth_flipped hc hvars hl, mem_select_getElem? hvars hi, Mask.has_natCast,
    Bool.decide_eq_true]

theorem holds_of_none (hvars : vars.Nodup) (h : of? vars A c = none) (t : Int) :
    c.holds (A.toggled (select vars t)) = true := by
  obtain ⟨l, hl, ht, hout⟩ := of?_eq_none.1 h
  refine Clause.holds_iff.2 ⟨l, hl, ?_⟩
  have hsel : l.natAbs ∉ select vars t := fun hm => hout ((select_sublist vars t).subset hm)
  rw [truth_flipped hc hvars hl, ht, decide_eq_false hsel]
  rfl

theorem breaksUnder_iff_not_holds (hvars : vars.Nodup) {p : Profile} (h : of? vars A c = some p)
    (t : Nat) : p.breaksUnder t = true ↔ c.holds (A.toggled (select vars t)) = false := by
  obtain ⟨-, hbits⟩ := of?_eq_some hvars h
  rw [breaksUnder_iff, Clause.not_holds_iff]
  constructor
  · rintro ⟨hkill, hsave⟩ l hl
    by_cases hin : l.natAbs ∈ vars
    · obtain ⟨i, hi⟩ := List.mem_iff_getElem?.1 hin
      rw [truth_flipped_at hc hvars hl hi]
      cases ht : A.truth l with
      | true => rw [hkill i ((hbits i).1.2 ⟨l, hl, ht, hi⟩), Bool.xor_self]
      | false => rw [hsave i ((hbits i).2.2 ⟨l, hl, ht, hi⟩), Bool.xor_self]
    · have hun : l.natAbs ∉ select vars t := fun hm => hin ((select_sublist vars t).subset hm)
      rw [truth_flipped hc hvars hl, decide_eq_false hun, Bool.xor_false]
      by_contra ht
      rw [of?_eq_none.2 ⟨l, hl, by simpa using ht, hin⟩] at h
      cases h
  · intro hall
    have hbit : ∀ i, ∀ l ∈ c, vars[i]? = some l.natAbs → A.truth l = t.testBit i := by
      intro i l hl hi
      simpa [truth_flipped_at hc hvars hl hi] using hall l hl
    constructor
    · intro i hi
      obtain ⟨l, hl, ht, hv⟩ := (hbits i).1.1 hi
      exact (hbit i l hl hv).symm.trans ht
    · intro i hi
      obtain ⟨l, hl, ht, hv⟩ := (hbits i).2.1 hi
      exact (hbit i l hl hv).symm.trans ht

end Profile

end SatWalk
