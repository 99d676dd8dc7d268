import SatWalk.BreakCount
import SatWalk.Formula.Build
import SatWalk.Proofs.Neighbours

namespace SatWalk

namespace Profiles

variable {q : Profile → Bool} {ps : Profiles}

def total (q : Profile → Bool) (ps : Profiles) : Int := ((ps.filter fun e => q e.1).map Prod.snd).sum

theorem total_cons (p : Profile) (n : Int) :
    total q ((p, n) :: ps) = (if q p then n else 0) + total q ps := by
  unfold total
  rw [List.filter_cons]
  split <;> simp

theorem total_count (p : Profile) : total q (ps.count p) = total q ps + if q p then 1 else 0 := by
  induction ps with
  | nil =>
    rw [count, total_cons]
    exact Int.add_comm _ _
  | cons e ps ih =>
    obtain ⟨r, m⟩ := e
    rw [count]
    split
    · next h =>
      subst h
      simp only [total_cons]
      split <;> omega
    · simp only [total_cons, ih]
      omega

theorem total_foldl_count (L : List Profile) (ps : Profiles) :
    total q (L.foldl (fun ps p => ps.count p) ps) = total q ps + L.countP q := by
  induction L generalizing ps with
  | nil => simp
  | cons p L ih =>
    rw [List.foldl_cons, ih, total_count, List.countP_cons]
    push_cast
    omega

theorem mem_count {p : Profile} {e : Profile × Int} (h : e ∈ ps.count p) :
    e.1 = p ∨ ∃ f ∈ ps, f.1 = e.1 := by
  induction ps with
  | nil =>
    obtain rfl := List.mem_singleton.1 h
    exact .inl rfl
  | cons f ps ih =>
    obtain ⟨r, m⟩ := f
    rw [count] at h
    split at h
    · next hp =>
      rcases List.mem_cons.1 h with rfl | h
      · exact .inl hp.symm
      · exact .inr ⟨e, List.mem_cons_of_mem _ h, rfl⟩
    · rcases List.mem_cons.1 h with rfl | h
      · exact .inr ⟨_, List.mem_cons_self, rfl⟩
      · obtain hp | ⟨f, hf, he⟩ := ih h
        · exact .inl hp
        · exact .inr ⟨f, List.mem_cons_of_mem _ hf, he⟩

theorem mem_foldl_count {L : List Profile} {e : Profile × Int}
    (h : e ∈ L.foldl (fun ps p => ps.count p) ps) : e.1 ∈ L ∨ ∃ f ∈ ps, f.1 = e.1 := by
  induction L generalizing ps with
  | nil => exact .inr ⟨e, h, rfl⟩
  | cons p L ih =>
    obtain hL | ⟨f, hf, he⟩ := ih h
    · exact .inl (List.mem_cons_of_mem _ hL)
    · obtain hp | ⟨f', hf', he'⟩ := mem_count hf
      · exact .inl (he ▸ hp ▸ List.mem_cons_self)
      · exact .inr ⟨f', hf', he'.trans he⟩

end Profiles

def Formula.brokenBy (F : Formula) (A B : Assignment) : List Nat :=
  F.idsWith fun d => d.holds A && !d.holds B

namespace State

variable {F : Formula}

theorem trueLiteral_natAbs (s : State F) {l : Int} (h : l ≠ 0) :
    s.trueLiteral l.natAbs = l ↔ s.assignment.truth l = true := by
  have hne : -l ≠ l := by omega
  rw [trueLiteral, Assignment.truth_natAbs h]
  by_cases hl : 0 < l
  · have habs : (l.natAbs : Int) = l := by omega
    rw [habs, decide_eq_true hl]
    cases s.assignment.truth l <;> simp [hne]
  · have habs : (l.natAbs : Int) = -l := by omega
    rw [habs, decide_eq_false hl]
    cases s.assignment.truth l <;> simp [hne]

theorem mem_neighbours {s : State F} {vars : List Nat} {id : Nat} :
    id ∈ s.neighbours vars ↔ ∃ c, F.clauses[id]? = some c ∧
      ∃ l ∈ c, s.assignment.truth l = true ∧ l.natAbs ∈ vars := by
  simp only [neighbours, mem_firsts, List.mem_flatMap, Formula.literalOccurrences_eq,
    Formula.mem_idsWith, decide_eq_true_eq]
  constructor
  · rintro ⟨v, hv, c, hc, hl⟩
    have h0 : s.trueLiteral v ≠ 0 := F.ne_zero c (Formula.mem_clauses hc) _ hl
    have hvar : (s.trueLiteral v).natAbs = v := by
      unfold trueLiteral
      split
      · rfl
      · exact Int.natAbs_neg _
    refine ⟨c, hc, _, hl, ?_, hvar.symm ▸ hv⟩
    rw [← s.trueLiteral_natAbs h0, hvar]
  · rintro ⟨c, hc, l, hl, ht, hv⟩
    have h0 : l ≠ 0 := F.ne_zero c (Formula.mem_clauses hc) l hl
    refine ⟨_, hv, c, hc, ?_⟩
    rwa [(s.trueLiteral_natAbs h0).2 ht]

theorem nodup_neighbours (s : State F) (vars : List Nat) : (s.neighbours vars).Nodup := nodup_firsts _

theorem broken_iff {s : State F} {vars : List Nat} (hvars : vars.Nodup) {id : Nat} {d : Clause}
    (hd : F.clauses[id]? = some d) (t : Nat) :
    (d.holds s.assignment = true ∧ d.holds (s.assignment.toggled (select vars t)) = false) ↔
      id ∈ s.neighbours vars ∧ ∃ p, Profile.of? vars s.assignment d = some p ∧ p.breaksUnder t = true := by
  have hd' : ∀ l ∈ d, l.natAbs ≤ s.assignment.numVars := fun l hl => natAbs_le hd hl
  constructor
  · rintro ⟨hold, hbroken⟩
    cases hp : Profile.of? vars s.assignment d with
    | none =>
      rw [Profile.holds_of_none hd' hvars hp] at hbroken
      cases hbroken
    | some p =>
      refine ⟨mem_neighbours.2 ⟨d, hd, ?_⟩, p, rfl,
        (Profile.breaksUnder_iff_not_holds hd' hvars hp t).2 hbroken⟩
      obtain ⟨l, hl, ht⟩ := Clause.holds_iff.1 hold
      refine ⟨l, hl, ht, ?_⟩
      by_contra hout
      rw [Profile.of?_eq_none.2 ⟨l, hl, ht, hout⟩] at hp
      cases hp
  · rintro ⟨hn, p, hp, hb⟩
    obtain ⟨d', hd'', l, hl, ht, -⟩ := mem_neighbours.1 hn
    obtain rfl : d = d' := Option.some.inj (hd.symm.trans hd'')
    exact ⟨Clause.holds_iff.2 ⟨l, hl, ht⟩, (Profile.breaksUnder_iff_not_holds hd' hvars hp t).1 hb⟩

def inScope (s : State F) (scope : Scope) (id : Nat) : Bool := scope == .all || s.recorded id

def brokenCount (s : State F) (scope : Scope) (vars : List Nat) (t : Nat) : Nat :=
  ((F.brokenBy s.assignment (s.assignment.toggled (select vars t))).filter (s.inScope scope)).length

theorem mem_broken {s : State F} {vars : List Nat} (hvars : vars.Nodup) {id t : Nat} :
    id ∈ F.brokenBy s.assignment (s.assignment.toggled (select vars t)) ↔
      id ∈ s.neighbours vars ∧
        ((Profile.of? vars s.assignment (F.clauses.getD id [])).map (·.breaksUnder t)).getD false = true := by
  have hprofile (d : Clause) :
      ((Profile.of? vars s.assignment d).map (·.breaksUnder t)).getD false = true ↔
        ∃ p, Profile.of? vars s.assignment d = some p ∧ p.breaksUnder t = true := by
    cases Profile.of? vars s.assignment d <;> simp
  rw [Formula.brokenBy, Formula.mem_idsWith, hprofile]
  simp only [Bool.and_eq_true, Bool.not_eq_true']
  constructor
  · rintro ⟨d, hd, hb⟩
    rw [Formula.getD_clauses hd]
    exact (broken_iff hvars hd t).1 hb
  · rintro ⟨hn, hp⟩
    obtain ⟨d, hd, -⟩ := mem_neighbours.1 hn
    rw [Formula.getD_clauses hd] at hp
    exact ⟨d, hd, (broken_iff hvars hd t).2 ⟨hn, hp⟩⟩

theorem total_profiles (s : State F) (scope : Scope) {vars : List Nat} (hvars : vars.Nodup) (t : Nat) :
    (s.profiles scope vars).total (·.breaksUnder t) = s.brokenCount scope vars t := by
  have hnil : Profiles.total (·.breaksUnder t) [] = 0 := rfl
  rw [profiles, Profiles.total_foldl_count, hnil, Int.zero_add, List.countP_filterMap,
    List.countP_eq_length_filter, brokenCount]
  congr 1
  apply List.Perm.length_eq
  apply (List.perm_ext_iff_of_nodup (((s.nodup_neighbours vars).filter _).filter _)
    ((F.nodup_idsWith _).filter _)).2
  intro id
  rw [List.mem_filter, List.mem_filter, List.mem_filter, ← Formula.brokenBy, mem_broken hvars, inScope,
    and_right_comm]

theorem within_profiles {s : State F} {scope : Scope} {vars : List Nat} (hvars : vars.Nodup)
    {e : Profile × Int} (h : e ∈ s.profiles scope vars) : e.1.Within vars.length := by
  obtain hL | ⟨f, hf, -⟩ := Profiles.mem_foldl_count h
  · obtain ⟨id, -, hp⟩ := List.mem_filterMap.1 hL
    exact (Profile.of?_eq_some hvars hp).1
  · cases hf

theorem combinationBreaks_eq (s : State F) (scope : Scope) (c : Clause) :
    s.combinationBreaks scope c =
      if 63 ≤ (distinctVars c).length then .error .tooLarge
      else .ok (Array.ofFn fun t : Fin (2 ^ (distinctVars c).length) =>
        (s.brokenCount scope (distinctVars c) t : Int)) := by
  have hvars := nodup_distinctVars c
  by_cases hw : 63 ≤ (distinctVars c).length
  · rw [combinationBreaks, BreakCount.combinations, if_pos hw, if_pos hw]
  · rw [if_neg hw]
    obtain ⟨out, hout, hsize, hget⟩ := BreakCount.combinations_ok (by omega)
      fun e (he : e ∈ s.profiles scope (distinctVars c)) => within_profiles hvars he
    rw [combinationBreaks, hout]
    congr 1
    apply Array.ext
    · rw [hsize, Array.size_ofFn]
    · intro t ht _
      have hlt : t < 2 ^ (distinctVars c).length := hsize ▸ ht
      have hentry := hget t hlt
      rw [Array.getElem?_eq_getElem ht, Option.some.injEq] at hentry
      rw [hentry, Array.getElem_ofFn]
      exact total_profiles s scope hvars t

theorem size_combinationBreaks {s : State F} {scope : Scope} {c : Clause} {counts : Array Int}
    (h : s.combinationBreaks scope c = .ok counts) : counts.size = 2 ^ (distinctVars c).length := by
  rw [combinationBreaks_eq] at h
  split at h
  · cases h
  · cases h
    exact Array.size_ofFn

theorem brokenCount_zero (s : State F) (scope : Scope) (vars : List Nat) :
    s.brokenCount scope vars 0 = 0 := by
  rw [brokenCount, Formula.brokenBy, Int.natCast_zero, select_zero, Assignment.toggled_nil]
  have hnone : (F.idsWith fun d => d.holds s.assignment && !d.holds s.assignment) = [] := by
    apply List.findIdxs_eq_nil_iff.2
    intro d _
    exact Bool.and_not_self _
  rw [hnone]
  rfl

theorem brokenCount_eq (s : State F) (scope : Scope) (vars : List Nat) (t : Nat) :
    s.brokenCount scope vars t = ((List.finRange F.clauses.size).filter fun i =>
      (F.clauseAt i).holds s.assignment &&
        !(F.clauseAt i).holds (s.assignment.toggled (select vars t)) &&
        s.inScope scope i.val).length := by
  rw [brokenCount, Formula.brokenBy]
  apply Eq.trans _ (List.length_map Fin.val)
  apply List.Perm.length_eq
  apply (List.perm_ext_iff_of_nodup ((F.nodup_idsWith _).filter _)
    (((List.nodup_finRange _).filter _).map fun _ _ => Fin.ext)).2
  intro id
  simp only [List.mem_filter, Formula.mem_idsWith, List.mem_map, List.mem_finRange, true_and,
    Bool.and_eq_true]
  constructor
  · rintro ⟨⟨d, hd, hb⟩, hs⟩
    obtain ⟨hlt, rfl⟩ := Array.getElem?_eq_some_iff.1 hd
    exact ⟨⟨id, hlt⟩, ⟨hb, hs⟩, rfl⟩
  · rintro ⟨i, ⟨hb, hs⟩, rfl⟩
    exact ⟨⟨F.clauseAt i, Formula.getElem?_clauseAt i, hb⟩, hs⟩

/-- The break counts of a clause by full re-evaluation. From 63 variables on there is no list of
them. -/
theorem breaks_by_reevaluation (s : State F) (scope : Scope) (i : Fin F.clauses.size) :
    if 63 ≤ (distinctVars (F.clauseAt i)).length then
      s.combinationBreaks scope (F.clauseAt i) = .error .tooLarge
    else ∃ counts, s.combinationBreaks scope (F.clauseAt i) = .ok counts ∧
      counts.size = 2 ^ (distinctVars (F.clauseAt i)).length ∧ counts[0]? = some 0 ∧
      ∀ t : Fin (2 ^ (distinctVars (F.clauseAt i)).length), ∃ B : Assignment,
        Assignment.toggleAll ((select (distinctVars (F.clauseAt i)) t).map Int.ofNat) s.assignment =
          .ok () B ∧
        counts[t.val]? = some (((List.finRange F.clauses.size).filter fun j =>
          (F.clauseAt j).holds s.assignment && !(F.clauseAt j).holds B &&
            (scope == .all || !s.unsatisfied.contains j)).length : Int) := by
  rw [combinationBreaks_eq]
  split
  · rfl
  · refine ⟨_, rfl, Array.size_ofFn, ?_, fun t =>
      ⟨s.assignment.toggled (select (distinctVars (F.clauseAt i)) t), ?_, ?_⟩⟩
    · rw [Array.getElem?_ofFn, dif_pos (Nat.two_pow_pos _), brokenCount_zero]
      rfl
    · apply Assignment.toggleAll_natCast
      intro v hv
      obtain ⟨l, hl, rfl⟩ := mem_distinctVars.1 ((select_sublist _ _).subset hv)
      exact natAbs_le (Formula.getElem?_clauseAt i) hl
    · rw [Array.getElem?_ofFn, dif_pos t.isLt, brokenCount_eq]
      rfl

end State

def wideFormula : Formula :=
  Formula.ofClauses 63 [(List.range 63).map fun v => ((v + 1 : Nat) : Int)] [] (by decide +kernel)
    (by decide +kernel)

def wideState : State wideFormula where
  assignment := .ofList (List.replicate 63 false)
  unsatisfied := State.recordOf wideFormula (.ofList (List.replicate 63 false))
  fits := rfl

theorem no_breaks_of_wide : ¬ ∃ counts,
    wideState.combinationBreaks .all (wideFormula.clauseAt ⟨0, Nat.one_pos⟩) = .ok counts := by
  rintro ⟨counts, h⟩
  rw [State.combinationBreaks_eq, if_pos (by decide +kernel)] at h
  cases h

end SatWalk
