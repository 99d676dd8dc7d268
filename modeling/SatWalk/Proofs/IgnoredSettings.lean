import SatWalk.Proofs.Predictions
import SatWalk.Proofs.Settings
import SatWalk.Proofs.Tables

namespace SatWalk

section
variable {R : Type} [MachineReal R] {F : Formula} {c c' : Config R} {G : Type} [Source G]

theorem Weighting.weight?_uniform {w : Weighting R} (h : w.family = .uniform) (b : Nat) :
    w.weight? b = some MachineReal.one := by
  rw [weight?, h]

namespace Config

structure Akin (c c' : Config R) : Prop where
  budget_eq : c.budget = c'.budget
  strategy_eq : c.strategy = c'.strategy
  unweighted : c.strategy = .uniformRepair ∨ c.family = .uniform ∧ c'.family = .uniform

theorem Akin.symm (h : c.Akin c') : c'.Akin c where
  budget_eq := h.budget_eq.symm
  strategy_eq := h.strategy_eq.symm
  unweighted := h.unweighted.imp h.strategy_eq.symm.trans And.symm

theorem Akin.weighs (h : c.Akin c') (F : Formula) : c.Weighs F := by
  apply h.unweighted.imp_right
  rintro ⟨hfamily, -⟩ b -
  rw [Weighting.weight?_uniform hfamily]
  rfl

theorem Akin.weight_eq (h : c.Akin c') (hcoins : c.strategy ≠ .uniformRepair) (b : Nat) :
    c.weighting.weight? b = c'.weighting.weight? b := by
  obtain ⟨hfamily, hfamily'⟩ := h.unweighted.resolve_left hcoins
  rw [Weighting.weight?_uniform hfamily, Weighting.weight?_uniform hfamily']

theorem Akin.chooseAlike (h : c.Akin c') {s : State F} (hs : s.Exact) :
    Sampler.ChooseAlike G (fun t u => c.Serves F t ∧ c'.Serves F u) s c.sampler c'.sampler := by
  rintro i t u ⟨ht, hu⟩ g
  have hsampler : (c'.sampler.choose s (F.clauseAt i) : Attempt (WeightTable R × G) _) =
      c.sampler.choose s (F.clauseAt i) := by
    rw [sampler, sampler, h.strategy_eq]
    exact Sampler.choose_scope hs c'.strategy c'.scope c.scope (F.clauseAt i)
  rw [hsampler]
  apply Sampler.choose_paired ⟨ht, hu⟩
  intro bs hbs
  by_cases hcoins : c.strategy = .uniformRepair
  · obtain rfl : [] = bs := Except.ok.inj ((Sampler.asked_coins hcoins).symm.trans hbs)
    exact .ok rfl ⟨ht, hu⟩
  · exact weights_serves (h.weighs F) h.strategy_eq (h.weight_eq hcoins) hcoins
      (Sampler.asked_bounds hbs) ht hu

end Config

namespace Walk

theorem start_akin (h : c.Akin c') (A : Option Assignment) (g : G) :
    Paired (fun (w : Walk F c) (v : Walk F c') => w.state.Exact ∧
      w.Alike (fun t u => c.Serves F t ∧ c'.Serves F u) v) Eq (start F c A g) (start F c' A g) := by
  obtain ⟨t, ht, hserves⟩ := startTable_ok (h.weighs F)
  obtain ⟨u, hu, hserves'⟩ := startTable_ok (h.symm.weighs F)
  have htables : Paired (fun t u => c.Serves F t ∧ c'.Serves F u) Eq
      (settled (startTable F c) g) (settled (startTable F c') g) := by
    rw [ht, hu]
    exact .ok ⟨hserves, hserves'⟩ rfl
  exact (start_paired htables A).imp fun w v hwv => hwv.2

end Walk

/-- With fair coins, or with equal weights, a run does not depend on temperature, offset and scope,
nor fair coins on the family: under another such configuration it has the same result or the same
fault, leaves the source at the same place and shows the same after every counted step. -/
theorem Run.solve_akin (F : Formula) (hbudget : c.budget = c'.budget)
    (hstrategy : c.strategy = c'.strategy)
    (hweights : c.strategy = .uniformRepair ∨ c.family = .uniform ∧ c'.family = .uniform)
    (A : Option Assignment) (g : G) (log : Log R (Snapshot × Status × Statistics)) :
    observed (solve F c A Walk.seen (g, log)) = observed (solve F c' A Walk.seen (g, log)) := by
  have h : c.Akin c' := ⟨hbudget, hstrategy, hweights⟩
  have hlockstep := Walk.lockstep_alike (F := F) (G := G) hbudget fun s hs => h.chooseAlike hs
  apply observed_eq
  exact solve_paired hlockstep (fun hwv => hwv.2.seen_eq) (fun hwv => hwv.2.outcome_eq)
    (Walk.start_akin h A g) rfl

end

def chilledConfig : Config Float :=
  { evenConfig with
    temperature := .real 2.5
    offset := .int 7
    scope := .satisfied
    temperature_usable := by decide +kernel
    offset_usable := by decide +kernel }

theorem Run.solve_akin_chain :
    evenConfig.budget = chilledConfig.budget ∧ evenConfig.strategy = chilledConfig.strategy ∧
    evenConfig.family = .uniform ∧ chilledConfig.family = .uniform ∧ ∃ o s,
      solve chainFormula chilledConfig (some (.ofList [false, false, false])) Walk.seen
        ((⟨[0, 0, 0, 0]⟩ : Script), #[]) = .ok o s ∧ o.steps = 2 ∧
      observed (solve chainFormula evenConfig (some (.ofList [false, false, false])) Walk.seen
        ((⟨[0, 0, 0, 0]⟩ : Script), #[])) = .ok o (s.1, views s.2) := by
  obtain ⟨o, s, h, ho⟩ := exists_ok (p := fun o : Outcome => decide (o.steps = 2))
    (r := solve chainFormula chilledConfig (some (.ofList [false, false, false])) Walk.seen
      ((⟨[0, 0, 0, 0]⟩ : Script), #[])) (by decide +kernel)
  refine ⟨rfl, rfl, rfl, rfl, o, s, h, of_decide_eq_true ho, Eq.trans ?_ (congrArg observed h)⟩
  apply solve_akin
  · rfl
  · rfl
  · exact .inr ⟨rfl, rfl⟩

end SatWalk
