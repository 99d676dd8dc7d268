import SatWalk.Proofs.Repairs
import SatWalk.Proofs.SingleBreaks

namespace SatWalk

namespace PickSet

variable {s t : PickSet}

def without (s t : PickSet) : List Int := s.toList.filter fun a => !t.contains a

theorem mem_without {a : Int} : a ∈ s.without t ↔ a ∈ s ∧ a ∉ t := by
  rw [without, List.mem_filter, ← mem_iff, Bool.not_eq_true', ← Bool.not_eq_true]
  exact Iff.rfl

theorem nodup_without (s t : PickSet) : (s.without t).Nodup := s.nodup_toList.filter _

theorem size_add_without (s t : PickSet) :
    s.size + (t.without s).length = t.size + (s.without t).length := by
  have hcommon : (s.toList.filter t.contains).Perm (t.toList.filter s.contains) := by
    apply (List.perm_ext_iff_of_nodup (s.nodup_toList.filter _) (t.nodup_toList.filter _)).2
    intro a
    rw [List.mem_filter, List.mem_filter, ← mem_iff, ← mem_iff]
    exact and_comm
  have hs : s.toList.length = (s.toList.filter t.contains).length + (s.without t).length :=
    List.length_eq_length_filter_add t.contains
  have ht : t.toList.length = (t.toList.filter s.contains).length + (t.without s).length :=
    List.length_eq_length_filter_add s.contains
  rw [← length_toList, ← length_toList, hs, ht, hcommon.length_eq]
  omega

end PickSet

namespace State

variable {F : Formula} {s s' : State F}

theorem entered_perm (hs : s.Exact) (hs' : s'.Exact) :
    (s'.unsatisfied.without s.unsatisfied).Perm
      ((F.brokenBy s.assignment s'.assignment).map Int.ofNat) := by
  have hnodup : ((F.brokenBy s.assignment s'.assignment).map Int.ofNat).Nodup :=
    (F.nodup_idsWith _).map fun _ _ => Int.ofNat.inj
  apply (List.perm_ext_iff_of_nodup (PickSet.nodup_without _ _) hnodup).2
  intro a
  rw [PickSet.mem_without, hs a, hs' a, List.mem_map]
  simp only [Formula.brokenBy, Formula.mem_idsWith, Bool.and_eq_true, Bool.not_eq_true']
  constructor
  · rintro ⟨⟨id, hid, rfl⟩, hnot⟩
    obtain ⟨d, hd, hf⟩ := Formula.mem_falseClauses.1 hid
    have hold : d.holds s.assignment = true := by
      by_contra hne
      have hbefore := (Formula.mem_falseClauses_iff hd).2 (Bool.eq_false_iff.2 hne)
      exact hnot ⟨id, hbefore, rfl⟩
    exact ⟨id, ⟨d, hd, hold, hf⟩, rfl⟩
  · rintro ⟨id, ⟨d, hd, hold, hf⟩, rfl⟩
    refine ⟨⟨id, (Formula.mem_falseClauses_iff hd).2 hf, rfl⟩, ?_⟩
    rintro ⟨j, hj, he⟩
    obtain rfl : id = j := Int.ofNat.inj he
    cases hold.symm.trans ((Formula.mem_falseClauses_iff hd).1 hj)

theorem brokenCount_of_exact (hs : s.Exact) (scope : Scope) (vars : List Nat) (t : Nat) :
    s.brokenCount scope vars t = (F.brokenBy s.assignment (s.assignment.toggled (select vars t))).length := by
  rw [brokenCount]
  congr 1
  apply List.filter_eq_self.2
  intro id hid
  obtain ⟨d, hd, hb⟩ := Formula.mem_idsWith.1 hid
  have hrecorded : s.recorded id = true := by
    rw [hs.recorded_eq hd]
    exact (Bool.and_eq_true_iff.1 hb).1
  rw [inScope, hrecorded, Bool.or_true]

end State

namespace Sampler

variable {R : Type} [MachineReal R] {F : Formula} {G : Type} [Source G] {s : State F} {p : Sampler}
  {i : Fin F.clauses.size} {t t' : WeightTable R} {g g' : G} {choice : FlipChoice Var}

/-- The break count that the sampler computed for a choice is `b`. -/
def Predicts (p : Sampler) (s : State F) (d : Clause) (choice : FlipChoice Var) (b : Int) : Prop :=
  match p.strategy with
  | .uniformRepair => False
  | .breakWeighted => ∃ counts, s.combinationBreaks p.scope d = .ok counts ∧
    ∃ n : Nat, choice.combination = n ∧ counts[n]? = some b
  | .singleFlip => ∃ counts, s.singleBreaks p.scope d = .ok counts ∧
    ∃ j : Nat, choice.combination = (1 <<< j : Nat) ∧ counts[j]? = some b

theorem breakWeighted_counts {scope : Scope} {d : Clause}
    (h : breakWeighted s scope d (t, g) = .ok choice (t', g')) :
    ∃ counts, s.combinationBreaks scope d = .ok counts := by
  obtain ⟨counts, s₁, hcounts, -⟩ := bind_ok h
  exact ⟨counts, (settled_ok hcounts).1⟩

theorem predicts_brokenCount (hp : p.strategy ≠ .uniformRepair)
    (h : p.choose s (F.clauseAt i) (t, g) = .ok choice (t', g')) :
    ∃ n : Nat, choice.combination = n ∧
      p.Predicts s (F.clauseAt i) choice (s.brokenCount p.scope (distinctVars (F.clauseAt i)) n) := by
  have hid : F.clauses[i.val]? = some (F.clauseAt i) := Formula.getElem?_clauseAt i
  have hne : F.clauseAt i ≠ [] := F.ne_nil _ (Formula.mem_clauses hid)
  cases hs : p.strategy with
  | uniformRepair => exact absurd hs hp
  | breakWeighted =>
    simp only [choose, hs] at h
    obtain ⟨n, -, hlt, rfl⟩ := breakWeighted_ok hne h
    obtain ⟨counts, hcounts⟩ := breakWeighted_counts h
    refine ⟨n, rfl, ?_⟩
    simp only [Predicts, hs]
    refine ⟨counts, hcounts, n, rfl, ?_⟩
    rw [State.combinationBreaks_eq] at hcounts
    split at hcounts
    · cases hcounts
    · cases hcounts
      rw [Array.getElem?_ofFn, dif_pos hlt]
  | singleFlip =>
    simp only [choose, hs] at h
    obtain ⟨j, hj, rfl⟩ := singleFlip_ok hne h
    refine ⟨1 <<< j, rfl, ?_⟩
    simp only [Predicts, hs]
    refine ⟨_, State.singleBreaks_eq s p.scope (F.clauseAt i), j, rfl, ?_⟩
    rw [Array.getElem?_ofFn, dif_pos hj]

end Sampler

section
variable {R : Type} [MachineReal R] {F : Formula} {c : Config R} {G : Type} [Source G]
  {w w' : Walk F c} {g g' : G} {i : Fin F.clauses.size} {choice : FlipChoice Var}

namespace Walk

theorem Repairs.exact (hw : w.state.Exact) (h : Repairs w g w' g' i choice) : w'.state.Exact := by
  obtain ⟨g₁, -, hchoose⟩ := h.chosen
  exact hw.flip_vars (Sampler.choose_vars_le (Formula.getElem?_clauseAt i) hchoose) h.flipped

theorem Repairs.holds (h : Repairs w g w' g' i choice) :
    (F.clauseAt i).holds w'.state.assignment = true := by
  obtain ⟨g₁, -, hchoose⟩ := h.chosen
  rw [(State.flip_choice hchoose h.flipped).1]
  have hlength := (Sampler.length_vars h.not_holds hchoose).1
  obtain ⟨v, vs, hvs⟩ := List.exists_cons_of_length_pos hlength
  have hv : v ∈ choice.vars := by simp [hvs]
  exact Clause.holds_toggled_of_mem (fun l hl => State.natAbs_le (Formula.getElem?_clauseAt i) hl)
    h.not_holds (Sampler.nodup_vars hchoose) hv (Sampler.vars_subset hchoose hv)

theorem Repairs.not_mem (hw : w.state.Exact) (h : Repairs w g w' g' i choice) :
    (i.val : Int) ∉ w'.state.unsatisfied := by
  intro hmem
  obtain ⟨j, hj, he⟩ := (h.exact hw _).1 hmem
  obtain rfl : i.val = j := Int.ofNat.inj he
  have hf := (Formula.mem_falseClauses_iff (Formula.getElem?_clauseAt i)).1 hj
  cases hf.symm.trans h.holds

theorem Repairs.predicts (hw : w.state.Exact) (hp : c.strategy ≠ .uniformRepair)
    (h : Repairs w g w' g' i choice) : c.sampler.Predicts w.state (F.clauseAt i) choice
      (w'.state.unsatisfied.without w.state.unsatisfied).length := by
  obtain ⟨g₁, -, hchoose⟩ := h.chosen
  obtain ⟨n, hn, hpredicts⟩ := Sampler.predicts_brokenCount hp hchoose
  have hvars : choice.vars = select (distinctVars (F.clauseAt i)) n := by
    rw [Sampler.choose_of hchoose, hn]
    rfl
  rw [State.brokenCount_of_exact hw, ← hvars, ← (State.flip_choice hchoose h.flipped).1] at hpredicts
  rw [(State.entered_perm hw (h.exact hw)).length_eq, List.length_map]
  exact hpredicts

end Walk

/-- A counted step changes variables of one clause that was recorded as unsatisfied and no longer is.
As many clauses enter the record as the sampler counted for its choice. -/
theorem Reached.breaks_as_predicted (h : Reached (w, g)) (hs : leftBy (Walk.step (w, g)) = (w', g'))
    (hc : w'.steps ≠ w.steps) :
    w.status = .running ∧ w.state.unsatisfied.toList ≠ [] ∧
      ∃ (i : Fin F.clauses.size) (choice : FlipChoice Var) (g₁ : G),
        w.state.unsatisfied.pick g = .ok (i.val : Int) g₁ ∧
        c.sampler.choose w.state (F.clauseAt i) (w.table, g₁) = .ok choice (w'.table, g') ∧
        (w.state.assignment.changes w'.state.assignment).Perm choice.vars ∧
        w.state.assignment.changes w'.state.assignment ≠ [] ∧
        w.state.assignment.changes w'.state.assignment ⊆ distinctVars (F.clauseAt i) ∧
        (i.val : Int) ∈ w.state.unsatisfied.without w'.state.unsatisfied ∧
        1 ≤ (w.state.unsatisfied.without w'.state.unsatisfied).length ∧
        (c.strategy ≠ .uniformRepair → ∃ b : Nat,
          c.sampler.Predicts w.state (F.clauseAt i) choice b ∧
          (w'.state.unsatisfied.without w.state.unsatisfied).length = b ∧
          (w'.state.unsatisfied.size : Int) = w.state.unsatisfied.size + b -
            (w.state.unsatisfied.without w'.state.unsatisfied).length) := by
  have hw : w.state.Exact := h.exact
  obtain ⟨v, hstatus, hu, hm, rfl⟩ := Walk.counted_step hw hs hc
  obtain ⟨i, choice, hr⟩ := Walk.move_repairs hw hm
  obtain ⟨g₁, hpick, hchoose⟩ := hr.chosen
  have hperm : (w.state.assignment.changes v.state.assignment).Perm choice.vars :=
    (State.flip_choice hchoose hr.flipped).2
  have hpos : 1 ≤ choice.vars.length := (Sampler.length_vars hr.not_holds hchoose).1
  have hrepaired : (i.val : Int) ∈ w.state.unsatisfied.without v.state.unsatisfied :=
    PickSet.mem_without.2 ⟨hr.recorded, hr.not_mem hw⟩
  refine ⟨hstatus, ?_, i, choice, g₁, hpick, hchoose, hperm, ?_, ?_, hrepaired, ?_, ?_⟩
  · exact List.ne_nil_of_mem (PickSet.mem_iff.1 hr.recorded)
  · apply List.ne_nil_of_length_pos
    exact hperm.length_eq ▸ hpos
  · intro u hu
    exact Sampler.vars_subset hchoose (hperm.mem_iff.1 hu)
  · exact List.length_pos_of_mem hrepaired
  · intro hp
    refine ⟨_, hr.predicts hw hp, rfl, ?_⟩
    have hsizes := PickSet.size_add_without v.state.unsatisfied w.state.unsatisfied
    simp only [Walk.judged]
    omega

end

def chainFormula : Formula := Formula.ofClauses 3 [[1, 2], [-1, 3]] [] (by decide) (by decide)

def evenConfig : Config Float := { coinConfig with strategy := .breakWeighted }

theorem Reached.breaks_as_predicted_chain :
    ∃ (w w' : Walk chainFormula evenConfig) (g g' : Script) (choice : FlipChoice Var),
      Reached (w, g) ∧ leftBy (Walk.step (w, g)) = (w', g') ∧ w'.steps ≠ w.steps ∧
      (w.state.assignment.changes w'.state.assignment).Perm choice.vars ∧
      w.state.assignment.changes w'.state.assignment = [1] ∧
      ∃ i, evenConfig.sampler.Predicts w.state (chainFormula.clauseAt i) choice 1 ∧
        (w'.state.unsatisfied.without w.state.unsatisfied).length = 1 := by
  obtain ⟨w, g, w', g', hreached, hs, hc, hchanges, hentered⟩ :
      ∃ (w : Walk chainFormula evenConfig) (g : Script) (w' : _) (g' : Script), Reached (w, g) ∧
        leftBy (Walk.step (w, g)) = (w', g') ∧ w'.steps ≠ w.steps ∧
        w.state.assignment.changes w'.state.assignment = [1] ∧
        (w'.state.unsatisfied.without w.state.unsatisfied).length = 1 :=
    ⟨_, _, _, _, .start (A := some (.ofList [false, false, false])) (g := ⟨[0, 0]⟩) rfl, rfl,
      by decide +kernel, by decide +kernel, by decide +kernel⟩
  obtain ⟨-, -, i, choice, g₁, -, -, hperm, -, -, -, -, hpredicted⟩ :=
    Reached.breaks_as_predicted hreached hs hc
  obtain ⟨b, hb, he, -⟩ := hpredicted (by decide)
  obtain rfl : b = 1 := he.symm.trans hentered
  exact ⟨w, w', g, g', choice, hreached, hs, hc, hperm, hchanges, i, hb, hentered⟩

end SatWalk
