import SatWalk.Proofs.Evaluation
import SatWalk.Proofs.Toggling

namespace SatWalk

theorem Clause.holds_toggled {A : Assignment} {c : Clause} {ps : List Nat}
    (hc : ∀ l ∈ c, l.natAbs ≤ A.numVars) (h : ∀ v ∈ ps, v ∉ distinctVars c) :
    c.holds (A.toggled ps) = c.holds A := by
  have htruth : ∀ l ∈ c, (A.toggled ps).truth l = A.truth l := by
    intro l hl
    have hcount : ps.count l.natAbs = 0 :=
      List.count_eq_zero.2 fun hv => h _ hv (mem_distinctVars.2 ⟨l, hl, rfl⟩)
    rw [Assignment.truth_toggled (hc l hl), hcount]
    simp
  rw [Bool.eq_iff_iff, holds_iff, holds_iff]
  constructor
  · rintro ⟨l, hl, ht⟩
    exact ⟨l, hl, htruth l hl ▸ ht⟩
  · rintro ⟨l, hl, ht⟩
    exact ⟨l, hl, (htruth l hl).symm ▸ ht⟩

def Formula.touched (F : Formula) (ps : List Nat) : List Nat :=
  ps.flatMap fun v => F.idsWith fun c => decide (v ∈ distinctVars c)

theorem exists_natCast_eq {ids : List Nat} {id : Nat} :
    (∃ j ∈ ids, (id : Int) = (j : Int)) ↔ id ∈ ids := by
  constructor
  · rintro ⟨j, hj, he⟩
    exact Int.ofNat.inj he ▸ hj
  · intro h
    exact ⟨id, h, rfl⟩

theorem Formula.mem_touched {F : Formula} {ps : List Nat} {id : Nat} :
    id ∈ F.touched ps ↔ ∃ c, F.clauses[id]? = some c ∧ ∃ v ∈ ps, v ∈ distinctVars c := by
  simp only [touched, List.mem_flatMap, mem_idsWith, decide_eq_true_eq]
  constructor
  · rintro ⟨v, hv, c, hc, hvc⟩
    exact ⟨c, hc, v, hv, hvc⟩
  · rintro ⟨c, hc, v, hv, hvc⟩
    exact ⟨v, hv, c, hc, hvc⟩

theorem PickSet.isEmpty_iff {s : PickSet} : s.isEmpty = true ↔ ∀ a, a ∉ s := by
  simp only [isEmpty, mem_iff, toList, Array.isEmpty_iff, Array.mem_toList_iff]
  exact Array.eq_empty_iff_forall_not_mem

namespace State

variable {F : Formula} {s s' : State F}

/-- The record holds the ids of the clauses that do not hold, and no others. -/
def Exact (s : State F) : Prop :=
  ∀ a : Int, a ∈ s.unsatisfied ↔ ∃ id ∈ F.falseClauses s.assignment, a = (id : Int)

theorem mem_recordOf {A : Assignment} {a : Int} :
    a ∈ recordOf F A ↔ ∃ id ∈ F.falseClauses A, a = (id : Int) := by
  simp only [recordOf, PickSet.mem_ofList, List.mem_map, Int.ofNat_eq_natCast, eq_comm]

theorem exact_of {A : Assignment} (h : of F A = .ok s) : s.Exact := by
  simp only [of] at h
  split at h
  · cases h
    intro a
    exact mem_recordOf
  · cases h

theorem Exact.recorded_eq (hs : s.Exact) {id : Nat} {c : Clause} (h : F.clauses[id]? = some c) :
    s.recorded id = c.holds s.assignment := by
  have hmem : s.unsatisfied.contains id = true ↔ c.holds s.assignment = false := by
    apply (hs id).trans
    rw [exists_natCast_eq, Formula.mem_falseClauses_iff h]
  simp only [recorded]
  cases hc : c.holds s.assignment <;> simp_all

theorem Exact.isEmpty_iff (hs : s.Exact) :
    s.unsatisfied.isEmpty = true ↔ ∀ c ∈ F.clauses.toList, c.holds s.assignment = true := by
  rw [PickSet.isEmpty_iff]
  constructor
  · intro hempty c hc
    obtain ⟨i, hi, hget⟩ := List.mem_iff_getElem.1 hc
    have hid : F.clauses[i]? = some c := by
      rw [← Array.getElem?_toList, List.getElem?_eq_getElem hi, hget]
    cases hf : c.holds s.assignment with
    | true => rfl
    | false =>
      have hmem := (Formula.mem_falseClauses_iff hid).2 hf
      exact absurd ((hs i).2 ⟨i, hmem, rfl⟩) (hempty i)
  · intro hall a ha
    obtain ⟨id, hid, -⟩ := (hs a).1 ha
    obtain ⟨c, hc, hf⟩ := Formula.mem_falseClauses.1 hid
    cases hf.symm.trans (hall c (Formula.mem_clauses hc))

theorem Exact.inconsistencies_eq (hs : s.Exact) : s.inconsistencies = [] := by
  apply List.eq_nil_iff_forall_not_mem.2
  intro id hid
  obtain ⟨c, hc, hw⟩ := mem_inconsistencies.1 hid
  exact hw (hs.recorded_eq hc).symm

theorem mem_refresh {id : Nat} {a : Int} :
    a ∈ (s.refresh id).unsatisfied ↔
      if a = id then (F.clauses.getD id []).holds s.assignment = false else a ∈ s.unsatisfied := by
  simp only [refresh]
  cases (F.clauses.getD id []).holds s.assignment <;> by_cases ha : a = id <;>
    simp [PickSet.mem_erase, PickSet.mem_insert, ha]

theorem assignment_foldl_refresh (ids : List Nat) (s : State F) :
    (ids.foldl refresh s).assignment = s.assignment := by
  induction ids generalizing s with
  | nil => rfl
  | cons id ids ih =>
    rw [List.foldl_cons, ih]
    rfl

theorem mem_foldl_refresh {ids : List Nat} {a : Int} :
    a ∈ (ids.foldl refresh s).unsatisfied ↔
      if ∃ id ∈ ids, a = (id : Int) then (F.clauses.getD a.toNat []).holds s.assignment = false
      else a ∈ s.unsatisfied := by
  induction ids generalizing s with
  | nil => simp
  | cons id ids ih =>
    have hA : (s.refresh id).assignment = s.assignment := rfl
    rw [List.foldl_cons, ih, mem_refresh, hA]
    by_cases hrest : ∃ j ∈ ids, a = (j : Int)
    · have hall : ∃ j ∈ id :: ids, a = (j : Int) := by
        obtain ⟨j, hj, he⟩ := hrest
        exact ⟨j, List.mem_cons_of_mem _ hj, he⟩
      rw [if_pos hrest, if_pos hall]
    · rw [if_neg hrest]
      by_cases ha : a = id
      · subst ha
        simp
      · have hall : ¬ ∃ j ∈ id :: ids, a = (j : Int) := by
          rintro ⟨j, hj, he⟩
          rcases List.mem_cons.1 hj with rfl | hj
          · exact ha he
          · exact hrest ⟨j, hj, he⟩
        rw [if_neg ha, if_neg hall]

theorem size_slots (s : State F) : s.assignment.slots.size = F.numVars + 1 := by
  have := s.assignment.slots_pos
  have := s.fits
  simp only [Assignment.numVars] at this
  omega

theorem flatMap_occurrencesAt {is : List Int} {ps : List Nat}
    (h : is.map (fun i => (position? (F.numVars + 1) i).map Fin.val) = ps.map some) :
    is.flatMap F.occurrencesAt = F.touched ps := by
  induction is generalizing ps with
  | nil =>
    obtain rfl : ps = [] := by simpa using h.symm
    rfl
  | cons i is ih =>
    cases ps with
    | nil => cases h
    | cons p ps =>
      obtain ⟨hp, hps⟩ := List.cons.inj h
      rw [List.flatMap_cons, Formula.occurrencesAt_eq hp, ih hps]
      rfl

theorem flip_ok {is : List Int} {ps : List Nat}
    (h : is.map (fun i => (position? (F.numVars + 1) i).map Fin.val) = ps.map some) :
    ∃ s', flip is s = .ok () s' ∧ s'.assignment = s.assignment.toggled ps ∧
      ∀ a : Int, a ∈ s'.unsatisfied ↔
        if ∃ id ∈ F.touched ps, a = (id : Int) then ∃ id ∈ F.falseClauses s'.assignment, a = (id : Int)
        else a ∈ s.unsatisfied := by
  have htoggle : Assignment.toggleAll is s.assignment = .ok () (s.assignment.toggled ps) := by
    apply Assignment.toggleAll_eq
    rw [size_slots]
    exact h
  unfold flip
  split
  · next e A he => cases htoggle.symm.trans he
  · next A hA =>
    obtain rfl : s.assignment.toggled ps = A := by
      cases htoggle.symm.trans hA
      rfl
    refine ⟨_, rfl, assignment_foldl_refresh _ _, fun a => ?_⟩
    rw [flatMap_occurrencesAt h, mem_foldl_refresh, assignment_foldl_refresh]
    by_cases ha : ∃ id ∈ F.touched ps, a = (id : Int)
    · rw [if_pos ha, if_pos ha]
      obtain ⟨id, hid, rfl⟩ := ha
      obtain ⟨c, hc, -⟩ := Formula.mem_touched.1 hid
      rw [Int.toNat_natCast, Formula.getD_clauses hc, exists_natCast_eq, Formula.mem_falseClauses_iff hc]
    · rw [if_neg ha, if_neg ha]

theorem flip_vars {vs : List Nat} (h : ∀ v ∈ vs, v ≤ F.numVars) :
    ∃ s', flip (vs.map Int.ofNat) s = .ok () s' ∧ s'.assignment = s.assignment.toggled vs ∧
      ∀ a : Int, a ∈ s'.unsatisfied ↔
        if ∃ id ∈ F.touched vs, a = (id : Int) then ∃ id ∈ F.falseClauses s'.assignment, a = (id : Int)
        else a ∈ s.unsatisfied := by
  apply flip_ok
  rw [List.map_map]
  apply List.map_congr_left
  intro v hv
  have hlt : v < F.numVars + 1 := Nat.lt_succ_of_le (h v hv)
  simp only [Function.comp_apply, Int.ofNat_eq_natCast, position?_natCast hlt, Option.map_some]

theorem Exact.flip_vars {vs : List Nat} (hs : s.Exact) (h : ∀ v ∈ vs, v ≤ F.numVars)
    (hf : flip (vs.map Int.ofNat) s = .ok () s') : s'.Exact := by
  obtain ⟨t, ht, hA, hmem⟩ := State.flip_vars (s := s) h
  cases ht.symm.trans hf
  intro a
  rw [hmem a]
  split
  · exact Iff.rfl
  · next ha =>
    rw [hs a, hA]
    have hsame : ∀ id : Nat, a = id →
        (id ∈ F.falseClauses s.assignment ↔ id ∈ F.falseClauses (s.assignment.toggled vs)) := by
      rintro id rfl
      simp only [Formula.mem_falseClauses]
      apply exists_congr
      intro c
      apply and_congr_right
      intro hc
      have hun : ∀ v ∈ vs, v ∉ distinctVars c := fun v hv hvc =>
        ha ⟨id, Formula.mem_touched.2 ⟨c, hc, v, hv, hvc⟩, rfl⟩
      rw [Clause.holds_toggled (fun l hl => natAbs_le hc hl) hun]
    constructor
    · rintro ⟨id, hid, he⟩
      exact ⟨id, (hsame id he).1 hid, he⟩
    · rintro ⟨id, hid, he⟩
      exact ⟨id, (hsame id he).2 hid, he⟩

end State

end SatWalk
