import SatWalk.Proofs.Marks

namespace SatWalk

theorem firsts_sublist {α : Type} [DecidableEq α] (as : List α) : (firsts as).Sublist as := by
  induction as with
  | nil => exact List.Sublist.slnil
  | cons a as ih => exact (List.filter_sublist.trans ih).cons_cons a

theorem length_distinctVars_le (d : Clause) : (distinctVars d).length ≤ d.length := by
  have hle := (firsts_sublist (d.map Literal.var)).length_le
  rwa [List.length_map] at hle

theorem Formula.length_le_maxWidth {F : Formula} {d : Clause} (h : d ∈ F.clauses.toList) :
    d.length ≤ F.maxWidth := by
  rw [maxWidth, ← Array.foldl_toList]
  exact (foldl_max_le_iff.1 le_rfl).2 d h

theorem Formula.mem_distinctVars_bounds {F : Formula} {id : Nat} {d : Clause} {v : Nat}
    (hd : F.clauses[id]? = some d) (hv : v ∈ distinctVars d) : 1 ≤ v ∧ v ≤ F.numVars := by
  obtain ⟨l, hl, rfl⟩ := mem_distinctVars.1 hv
  have hl0 : l ≠ 0 := F.ne_zero d (mem_clauses hd) l hl
  exact ⟨Int.natAbs_pos.2 hl0, natAbs_le hd hl⟩

namespace Assignment

def changes (A B : Assignment) : List Var :=
  (List.range' 1 A.numVars).filter fun v => A.truth v != B.truth v

theorem mem_changes {A B : Assignment} {v : Nat} :
    v ∈ A.changes B ↔ (1 ≤ v ∧ v ≤ A.numVars) ∧ A.truth v ≠ B.truth v := by
  rw [changes, List.mem_filter, List.mem_range'_1, bne_iff_ne]
  apply and_congr_left
  intro _
  omega

theorem nodup_changes (A B : Assignment) : (A.changes B).Nodup := List.Nodup.filter _ List.nodup_range'

theorem changes_toggled {A : Assignment} {vs : List Nat} (hvs : vs.Nodup)
    (h : ∀ v ∈ vs, 1 ≤ v ∧ v ≤ A.numVars) : (A.changes (A.toggled vs)).Perm vs := by
  apply (List.perm_ext_iff_of_nodup (nodup_changes _ _) hvs).2
  intro v
  have htruth (hv : v ≤ A.numVars) : A.truth v ≠ (A.toggled vs).truth v ↔ v ∈ vs := by
    rw [truth_toggled_nodup (by rwa [Int.natAbs_natCast]) hvs, Int.natAbs_natCast]
    by_cases hm : v ∈ vs <;> simp [hm]
  rw [mem_changes]
  constructor
  · rintro ⟨⟨-, hv⟩, hne⟩
    exact (htruth hv).1 hne
  · intro hm
    exact ⟨h v hm, (htruth (h v hm).2).2 hm⟩

end Assignment

theorem PickSet.mem_of_pick {G : Type} [Source G] {s : PickSet} {a : Int} {g g' : G}
    (h : s.pick g = .ok a g') : a ∈ s := by
  rw [pick_eq] at h
  split at h
  · cases h
  · split at h
    · cases h
      exact s.get_mem _
    · cases h

section
variable {R : Type} [MachineReal R] {F : Formula} {G : Type} [Source G] {s s' : State F}
  {p : Sampler} {i : Fin F.clauses.size} {t t' : WeightTable R} {g g' : G} {choice : FlipChoice Var}

theorem Sampler.nodup_vars (h : p.choose s (F.clauseAt i) (t, g) = .ok choice (t', g')) :
    choice.vars.Nodup := by
  rw [choose_of h]
  exact nodup_select (nodup_distinctVars _) _

theorem Sampler.vars_subset (h : p.choose s (F.clauseAt i) (t, g) = .ok choice (t', g')) :
    choice.vars ⊆ distinctVars (F.clauseAt i) := by
  rw [choose_of h]
  exact (select_sublist _ _).subset

theorem Sampler.length_vars (hf : (F.clauseAt i).holds s.assignment = false)
    (h : p.choose s (F.clauseAt i) (t, g) = .ok choice (t', g')) :
    1 ≤ choice.vars.length ∧ choice.vars.length ≤ F.maxWidth ∧
      (p.strategy = .singleFlip → choice.vars.length = 1) := by
  have hid : F.clauses[i.val]? = some (F.clauseAt i) := Formula.getElem?_clauseAt i
  refine ⟨?_, ?_, ?_⟩
  · obtain ⟨n, h0, hlt, rfl⟩ := choose_ok hid hf h
    exact List.length_pos_iff.2 (select_ne_nil h0 hlt)
  · have hsub : choice.vars.length ≤ (distinctVars (F.clauseAt i)).length := by
      rw [choose_of h]
      exact (select_sublist _ _).length_le
    have hwidth := Formula.length_le_maxWidth (Formula.mem_clauses hid)
    have hdistinct := length_distinctVars_le (F.clauseAt i)
    omega
  · intro hp
    simp only [choose, hp] at h
    obtain ⟨j, hj, rfl⟩ := singleFlip_ok (F.ne_nil _ (Formula.mem_clauses hid)) h
    exact congrArg List.length (select_one_shiftLeft hj)

theorem State.flip_choice (h : p.choose s (F.clauseAt i) (t, g) = .ok choice (t', g'))
    (hs : State.flip (choice.vars.map Int.ofNat) s = .ok () s') :
    s'.assignment = s.assignment.toggled choice.vars ∧
      (s.assignment.changes s'.assignment).Perm choice.vars := by
  have hid : F.clauses[i.val]? = some (F.clauseAt i) := Formula.getElem?_clauseAt i
  obtain ⟨s₁, hs₁, hA, -⟩ := State.flip_vars (s := s) (Sampler.choose_vars_le hid h)
  cases hs₁.symm.trans hs
  refine ⟨hA, ?_⟩
  rw [hA]
  apply Assignment.changes_toggled (Sampler.nodup_vars h)
  intro v hv
  rw [s.fits]
  exact Formula.mem_distinctVars_bounds hid (Sampler.vars_subset h hv)

end

namespace Walk

variable {R : Type} [MachineReal R] {F : Formula} {c : Config R} {G : Type} [Source G]
  {w w' : Walk F c} {g g' : G}

structure Repairs (w : Walk F c) (g : G) (w' : Walk F c) (g' : G) (i : Fin F.clauses.size)
    (choice : FlipChoice Var) : Prop where
  recorded : (i.val : Int) ∈ w.state.unsatisfied
  not_holds : (F.clauseAt i).holds w.state.assignment = false
  chosen : ∃ g₁ : G, w.state.unsatisfied.pick g = .ok (i.val : Int) g₁ ∧
    c.sampler.choose w.state (F.clauseAt i) (w.table, g₁) = .ok choice (w'.table, g')
  flipped : State.flip (choice.vars.map Int.ofNat) w.state = .ok () w'.state
  steps_eq : w'.steps = w.steps + 1
  statistics_eq :
    w'.statistics = w.statistics.record choice.vars.length w'.state.unsatisfied.size

theorem move_repairs (hw : w.state.Exact) (h : move (w, g) = .ok () (w', g')) :
    ∃ i choice, Repairs w g w' g' i choice := by
  obtain ⟨id, i, choice, t, s, g₁, hpick, hid, hchoose, hflip, rfl⟩ := move_ok h
  have hmem : id ∈ w.state.unsatisfied := PickSet.mem_of_pick hpick
  obtain ⟨j, hj, rfl⟩ := (hw id).1 hmem
  obtain ⟨d, hd, hf⟩ := Formula.mem_falseClauses.1 hj
  have hlt : j < F.clauses.size := (Array.getElem?_eq_some_iff.1 hd).1
  simp only [Formula.clauseId?, position?_natCast hlt] at hid
  obtain rfl : ⟨j, hlt⟩ = i := Except.ok.inj hid
  have hf' : (F.clauseAt ⟨j, hlt⟩).holds w.state.assignment = false := by
    rwa [Option.some.inj ((Formula.getElem?_clauseAt ⟨j, hlt⟩).symm.trans hd)]
  exact ⟨⟨j, hlt⟩, choice, hmem, hf', ⟨g₁, hpick, hchoose⟩, hflip, rfl, rfl⟩

theorem leftBy_step (hw : w.state.Exact) (h : leftBy (step (w, g)) = (w', g')) :
    (∃ status, Stepped w g status w' g') ∨ ∃ t, w' = { w with table := t } := by
  obtain ⟨status, hr⟩ | ⟨e, hr⟩ := leftBy_cases h
  · exact .inl ⟨status, step_ok hr⟩
  · have hm := (step_error hr).stuck_of_exact hw
    exact .inr (move_error hm).2

theorem counted_step (hw : w.state.Exact) (h : leftBy (step (w, g)) = (w', g'))
    (hc : w'.steps ≠ w.steps) :
    ∃ v, w.status = .running ∧ w.state.unsatisfied.isEmpty = false ∧
      move (w, g) = .ok () (v, g') ∧ w' = v.judged := by
  obtain ⟨status, hs⟩ | ⟨t, rfl⟩ := leftBy_step hw h
  · cases hs with
    | idle hs => exact absurd rfl hc
    | found hs hu hv => exact absurd rfl hc
    | moved hs hu hm hv => exact ⟨_, hs, hu, hm, rfl⟩
  · exact absurd rfl hc

theorem uncounted_step (hw : w.state.Exact) (h : leftBy (step (w, g)) = (w', g'))
    (hc : w'.steps = w.steps) : w'.state = w.state ∧ w'.statistics = w.statistics := by
  obtain ⟨status, hs⟩ | ⟨t, rfl⟩ := leftBy_step hw h
  · cases hs with
    | idle hs => exact ⟨rfl, rfl⟩
    | found hs hu hv => exact ⟨rfl, rfl⟩
    | moved hs hu hm hv =>
      have hsteps := steps_move hm
      exact absurd hc (by simp [judged, hsteps])
  · exact ⟨rfl, rfl⟩

end Walk

end SatWalk
