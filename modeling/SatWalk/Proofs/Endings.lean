import SatWalk.Proofs.Budgets
import SatWalk.Proofs.Shortages

/-!
Every run ends. A search that only a refused draw can stop is driven to its outcome, unless its source
refuses one.
-/

namespace SatWalk

section
variable {R : Type} [MachineReal R] {α : Type} {F : Formula} {c : Config R} {G : Type} [Source G]

open MachineReal

theorem Reached.of_step {w w' : Walk F c} {g g' : G} {status : Status} (h : Reached (w, g)) (hstep : Walk.step (w, g) = .ok status (w', g')) :
    Reached (w', g') := by
  have hafter : Operation.step.after (w, g) = (w', g') := by rw [Operation.after, hstep, leftBy]
  exact hafter ▸ h.after .step

theorem dryOnly_logged {σ β : Type} {src : σ → G} {act : Attempt σ β} {s : σ}
    (h : DryOnly src (act s)) (report : β → σ → List (Event R)) (log : Log R α) :
    DryOnly (fun t => src t.1) (logged act report (s, log)) := by
  rintro e t he
  simp only [logged] at he
  split at he
  · cases he
  · next e' s' hs =>
    cases he
    exact h e s' hs

namespace Run

variable (view : Walk F c → α)

theorem dryOnly_drive (hc : c.Weighs F) (hlists : c.Lists F) (hnumbers : c.Numbers) {w : Walk F c} {g : G}
    (h : Reached (w, g)) (log : Log R α) : DryOnly (fun s => s.1.2) (drive view w g log) := by
  fun_induction drive view w g log with
  | case1 w g log e s hstep =>
    rintro e' s' he
    cases he
    exact Walk.dryOnly_step hc hlists hnumbers h.exact (h.serves hc) e s hstep
  | case2 w g log w₁ g₁ log₁ hstep ih => exact ih (h.of_step hstep)
  | case3 w g log status w₁ g₁ hstep log₁ hs => exact .of_ok rfl

theorem dryOnly_solve (hc : c.Weighs F) (hlists : c.Lists F) (hnumbers : c.Numbers)
    {A : Option Assignment} (hA : ∀ B ∈ A, B.numVars = F.numVars) (g : G) (log : Log R α) :
    DryOnly Prod.fst (solve F c A view (g, log)) := by
  rintro e s he
  simp only [solve] at he
  split at he
  · next e' s' hstart =>
    cases he
    exact dryOnly_logged (Walk.dryOnly_start hc hA g) _ log e s hstart
  · next w g₁ log₁ hstart =>
    have hdrive := dryOnly_drive view hc hlists hnumbers (.start (start_ok hstart)) log₁
    simp only [finish] at he
    generalize drive view w g₁ log₁ = r at hdrive he
    cases r with
    | ok status s' => cases he
    | error e' s' =>
      cases he
      exact hdrive e s' rfl

theorem returns_or_dry {r : EStateM.Result Fault (G × Log R α) Outcome} (h : DryOnly Prod.fst r) :
    (∃ o s, r = .ok o s) ∨ ∃ s, r = .error .outOfDraws s ∧ Source.Dry s.1 := by
  cases r with
  | ok o s => exact .inl ⟨o, s, rfl⟩
  | error e s =>
    obtain ⟨rfl, hdry⟩ := h e s rfl
    exact .inr ⟨s, rfl, hdry⟩

end Run

end

theorem Walk.startTable_checked (F : Formula) (c : Config Float) (hcoins : c.strategy ≠ .uniformRepair) :
    ∃ w, Weighting.of (.text c.family.name) c.temperature.toValue c.offset.toValue = .ok w ∧
      startTable F c = WeightTable.create w (F.maxOccurrences + 1) := by
  refine ⟨c.weighting, Config.weighting_of_double c, ?_⟩
  rw [startTable, if_neg hcoins]

/-- With a double for its temperature, a configuration makes searches that fail only for want of draws,
whether they are started, stepped, restarted or run to their end. -/
theorem Run.dryOnly_of_double {F : Formula} {c : Config Float} {t : Float} (ht : c.temperature = .real t)
    (hF : 2 * F.numClauses + 1 < 2 ^ 1022) (hlists : c.Lists F)
    (hexp : ∀ x : Float, MachineReal.IsCold x → MachineReal.IsNumber (MachineReal.exp x))
    (hpow : ∀ x y : Float, MachineReal.IsBase x → MachineReal.IsCold y →
      MachineReal.IsNumber (MachineReal.pow x y)) {G : Type} [Source G] {α : Type} (view : Walk F c → α) :
    (∀ (w : Walk F c) (g : G), Reached (w, g) → DryOnly Prod.snd (Walk.step (w, g))) ∧
    ∀ A : Option Assignment, (∀ B ∈ A, B.numVars = F.numVars) →
      (∀ g : G, DryOnly id (Walk.start F c A g)) ∧
      (∀ (w : Walk F c) (g : G), DryOnly Prod.snd (Walk.restart A (w, g))) ∧
      ∀ (g : G) (log : Log Float α), (∃ o s, solve F c A view (g, log) = .ok o s) ∨
        ∃ s, solve F c A view (g, log) = .error .outOfDraws s ∧ Source.Dry s.1 := by
  have hc : c.Weighs F := Config.weighs_of_real ht hF
  have hnumbers : c.Numbers := c.numbers_of_lawful hexp hpow
  constructor
  · intro w g h
    exact Walk.dryOnly_step hc hlists hnumbers h.exact (h.serves hc)
  · intro A hA
    refine ⟨Walk.dryOnly_start hc hA, Walk.dryOnly_restart hA, ?_⟩
    intro g log
    exact returns_or_dry (dryOnly_solve view hc hlists hnumbers hA g log)

end SatWalk
