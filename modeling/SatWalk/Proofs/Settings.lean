import SatWalk.Proofs.Lockstep

namespace SatWalk

namespace State

variable {F : Formula} {s : State F}

theorem Exact.filter_neighbours (hs : s.Exact) (scope : Scope) (vars : List Var) :
    (s.neighbours vars).filter (fun (id : Nat) => scope == .all || s.recorded id) = s.neighbours vars := by
  apply List.filter_eq_self.2
  intro id hid
  obtain ⟨d, hd, l, hl, ht, -⟩ := mem_neighbours.1 hid
  have hrecorded : s.recorded id = true := by
    rw [hs.recorded_eq hd]
    exact Clause.holds_iff.2 ⟨l, hl, ht⟩
  rw [hrecorded, Bool.or_true]

theorem Exact.profiles_eq (hs : s.Exact) (scope scope' : Scope) (vars : List Var) :
    s.profiles scope vars = s.profiles scope' vars := by
  simp only [profiles, hs.filter_neighbours]

end State

section
variable {R : Type} [MachineReal R] {F : Formula} {G : Type} [Source G]

theorem Sampler.choose_scope {s : State F} (hs : s.Exact) (strategy : Strategy) (scope scope' : Scope)
    (d : Clause) : (choose ⟨strategy, scope⟩ s d : Attempt (WeightTable R × G) _) =
      choose ⟨strategy, scope'⟩ s d := by
  cases strategy with
  | uniformRepair => rfl
  | breakWeighted =>
    simp only [choose, breakWeighted, State.combinationBreaks, hs.profiles_eq scope scope']
  | singleFlip => simp only [choose, singleFlip, State.singleBreaks, hs.profiles_eq scope scope']

theorem Sampler.chooseAlike_scope {s : State F} (hs : s.Exact) (strategy : Strategy)
    (scope scope' : Scope) : ChooseAlike G (Eq : WeightTable R → WeightTable R → Prop) s
      ⟨strategy, scope⟩ ⟨strategy, scope'⟩ := by
  rintro i t _ rfl g
  rw [choose_scope hs strategy scope scope']
  exact (Paired.refl _).mono fun s t h => h ▸ ⟨rfl, rfl⟩

def Config.retuned (c : Config R) (scope : Scope) (interval : Nat) (verify : Value R) : Config R :=
  { c with scope, reportInterval := interval, verify }

variable {c : Config R} {scope : Scope} {interval : Nat} {verify : Value R}

namespace Walk

def Twins (w : Walk F (c.retuned scope interval verify)) (v : Walk F c) : Prop :=
  w.state.Exact ∧ w.Alike Eq v

theorem start_twins (A : Option Assignment) (g : G) : Paired Twins Eq
    (start F (c.retuned scope interval verify) A g) (start F c A g) := by
  have htable : startTable F (c.retuned scope interval verify) = startTable F c := rfl
  apply (start_alike htable A g).imp
  rintro w v ⟨-, hw, h⟩
  exact ⟨hw, h⟩

theorem lockstep_twins :
    Lockstep G (Twins : Walk F (c.retuned scope interval verify) → Walk F c → Prop) :=
  lockstep_alike rfl fun _ hs => Sampler.chooseAlike_scope hs c.strategy scope c.scope

def seen {c : Config R} (w : Walk F c) : Snapshot × Status × Statistics :=
  (w.snapshot, w.status, w.statistics)

theorem Alike.seen_eq {c c' : Config R} {T : WeightTable R → WeightTable R → Prop} {w : Walk F c}
    {v : Walk F c'} (h : w.Alike T v) : w.seen = v.seen := by
  simp only [seen, snapshot, h.state_eq, h.status_eq, h.steps_eq, h.statistics_eq]

end Walk

/-- With another scope, another report interval or another say on the check, a run has the same result
or the same fault, leaves the source at the same place and shows the same after every counted step. -/
theorem Run.solve_retuned (F : Formula) (c : Config R) (scope : Scope) (interval : Nat)
    (verify : Value R) (A : Option Assignment) (g : G) (log : Log R (Snapshot × Status × Statistics)) :
    observed (solve F (c.retuned scope interval verify) A Walk.seen (g, log)) =
      observed (solve F c A Walk.seen (g, log)) := by
  apply observed_eq
  exact solve_paired Walk.lockstep_twins (fun h => h.2.seen_eq) (fun h => h.2.outcome_eq)
    (Walk.start_twins A g) rfl

end

end SatWalk
