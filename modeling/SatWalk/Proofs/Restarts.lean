import SatWalk.Proofs.Predictions
import SatWalk.Proofs.Settings
import SatWalk.Proofs.Tables

namespace SatWalk

section
variable {R : Type} [MachineReal R] {F : Formula} {c : Config R} {G : Type} [Source G]

theorem Paired.leftBy {σ τ α β : Type} {V : α → β → Prop} {S : σ → τ → Prop}
    {r : EStateM.Result Fault σ α} {r' : EStateM.Result Fault τ β} (h : Paired V S r r') :
    S (leftBy r) (leftBy r') := by
  cases h with
  | ok hv hs => exact hs
  | error hs => exact hs

namespace Walk

def Restocked (w v : Walk F c) : Prop :=
  w.state.Exact ∧ w.Alike (fun t u => c.Serves F t ∧ c.Serves F u) v

theorem Restocked.seen_eq {w v : Walk F c} (h : w.Restocked v) : w.seen = v.seen := h.2.seen_eq

theorem lockstep_restocked (hc : c.Weighs F) :
    Lockstep G (Restocked : Walk F c → Walk F c → Prop) :=
  lockstep_alike rfl fun s _ => Config.chooseAlike_serves hc s

theorem serves_after (hc : c.Weighs F) {w w' : Walk F c} {g g' : G} (hw : w.state.Exact)
    (ht : c.Serves F w.table) (op : Operation) (h : op.after (w, g) = (w', g')) :
    c.Serves F w'.table := by
  cases op with
  | step =>
    have hself : w.Restocked w := ⟨hw, rfl, rfl, rfl, rfl, ht, ht⟩
    have hleft := ((lockstep_restocked hc).step hself g).leftBy.1.2.table.1
    have hafter : SatWalk.leftBy (step (w, g)) = (w', g') := h
    rwa [hafter] at hleft
  | restart A =>
    obtain ⟨u, hr⟩ | ⟨e, hr⟩ := leftBy_cases h
    · obtain ⟨B, s, -, -, rfl⟩ := restart_ok hr
      exact ht
    · rw [restart_error hr]
      exact ht

end Walk

theorem Reached.serves (hc : c.Weighs F) {s : Walk F c × G} (h : Reached s) :
    c.Serves F s.1.table := by
  induction h with
  | start h =>
    obtain ⟨t, B, s, htable, -, -, rfl⟩ := Walk.start_ok h
    obtain ⟨u, hu, hserves⟩ := Walk.startTable_ok hc
    obtain rfl : u = t := Except.ok.inj (hu.symm.trans htable)
    exact hserves
  | after op h ih => exact Walk.serves_after hc h.exact ih op rfl

theorem Lockstep.step_after {F' : Formula} {c' : Config R} {ρ : Walk F c → Walk F' c' → Prop}
    (hρ : Lockstep G ρ) {w : Walk F c} {v : Walk F' c'} (h : ρ w v) (g : G) (n : Nat) :
    Paired Eq (Beside ρ) (Walk.step (Operation.step.after^[n] (w, g)))
      (Walk.step (Operation.step.after^[n] (v, g))) := by
  induction n generalizing w v g with
  | zero => exact hρ.step h g
  | succ n ih =>
    rw [Function.iterate_succ_apply, Function.iterate_succ_apply]
    obtain ⟨hρ₁, hg⟩ := (hρ.step h g).leftBy
    simp only [Operation.after]
    generalize leftBy (Walk.step (w, g)) = s at hρ₁ hg ⊢
    obtain ⟨w₁, g₁⟩ := s
    generalize leftBy (Walk.step (v, g)) = t at hρ₁ hg ⊢
    obtain ⟨v₁, g₂⟩ := t
    obtain rfl : g₁ = g₂ := hg
    exact ih hρ₁ g₁

namespace Walk

theorem restart_start {t : WeightTable R} (ht : startTable F c = .ok t) (A : Option Assignment)
    (w : Walk F c) (g : G) :
    (∃ s g', restart A (w, g) = .ok () (fresh s w.table, g') ∧ start F c A g = .ok (fresh s t) g' ∧
      s.Exact) ∨
    ∃ e g', restart A (w, g) = .error e (w, g') ∧ start F c A g = .error e g' := by
  simp only [start_eq, ht, restart, onState, State.replace_eq, onSecond, bind, EStateM.bind]
  cases hB : initial F.numVars A g with
  | error e g' =>
    right
    refine ⟨e, g', rfl, ?_⟩
    simp only [settled, hB]
  | ok B g' =>
    cases hs : State.of F B with
    | error e =>
      right
      refine ⟨e, g', ?_, ?_⟩
      · simp only [settled, hs]
      · simp only [settled, hB, hs]
    | ok s =>
      left
      refine ⟨s, g', ?_, ?_, State.exact_of hs⟩
      · simp only [settled, hs]
        rfl
      · simp only [settled, hB, hs]
        rfl

end Walk

/-- A restarted search is as good as a new one, started with what the other restarted with: step after
step they return the same, also when a step fails, and look the same. When the restart fails so does
the start. -/
theorem Reached.restart_as_new {w : Walk F c} {g : G} (h : Reached (w, g)) (hc : c.Weighs F)
    (A : Option Assignment) :
    (∀ w' g', Walk.restart A (w, g) = .ok () (w', g') → ∃ v : Walk F c, Walk.start F c A g = .ok v g' ∧
      w'.seen = v.seen ∧ ∀ n, Paired Eq (Beside fun w v => w.seen = v.seen)
        (Walk.step (Operation.step.after^[n] (w', g'))) (Walk.step (Operation.step.after^[n] (v, g')))) ∧
    ∀ e s, Walk.restart A (w, g) = .error e s → Walk.start F c A g = .error e s.2 := by
  obtain ⟨t, ht, hserves⟩ := Walk.startTable_ok hc
  obtain ⟨s, g₁, hrestart, hstart, hs⟩ | ⟨e, g₁, hrestart, hstart⟩ := Walk.restart_start ht A w g
  · constructor
    · intro w' g' h'
      cases hrestart.symm.trans h'
      have hrestocked : Walk.Restocked (Walk.fresh s w.table : Walk F c) (Walk.fresh s t) :=
        ⟨hs, rfl, rfl, rfl, rfl, h.serves hc, hserves⟩
      refine ⟨_, hstart, hrestocked.seen_eq, ?_⟩
      intro n
      apply ((Walk.lockstep_restocked hc).step_after hrestocked g₁ n).mono
      rintro s t ⟨hst, hg⟩
      exact ⟨hst.seen_eq, hg⟩
    · intro e s' he
      cases hrestart.symm.trans he
  · constructor
    · intro w' g' h'
      cases hrestart.symm.trans h'
    · intro e' s' he
      cases hrestart.symm.trans he
      exact hstart

end

def halfConfig : Config Float :=
  { evenConfig with
    temperature := .real 0.5
    family := .exponential
    temperature_usable := by decide +kernel }

def chainState : State chainFormula where
  assignment := .ofList [true, false, false]
  unsatisfied := State.recordOf chainFormula (.ofList [true, false, false])
  fits := rfl

theorem Reached.restart_as_new_chain : ∃ (w w' v : Walk chainFormula halfConfig) (g : Script),
    Reached (w, g) ∧ halfConfig.Weighs chainFormula ∧
    Walk.restart (some (.ofList [true, false, false])) (w, g) = .ok () (w', g) ∧
    Walk.start chainFormula halfConfig (some (.ofList [true, false, false])) g = .ok v g ∧
    w'.seen = v.seen ∧ ∀ n, Paired Eq (Beside fun w v => w.seen = v.seen)
      (Walk.step (Operation.step.after^[n] (w', g))) (Walk.step (Operation.step.after^[n] (v, g))) := by
  have hc : halfConfig.Weighs chainFormula := .inr (by decide +kernel)
  obtain ⟨w, ⟨g⟩, hstart, -⟩ := exists_ok (p := fun _ => true)
    (r := Walk.start chainFormula halfConfig (some (.ofList [false, false, false])) (⟨[0, 0]⟩ : Script))
    (by decide +kernel)
  have h := (Reached.start hstart).after .step
  generalize Operation.step.after (w, (⟨g⟩ : Script)) = s at h
  obtain ⟨w₁, g₁⟩ := s
  have hrestart : Walk.restart (some (.ofList [true, false, false])) (w₁, g₁) =
      .ok () (Walk.fresh (chainState) w₁.table, g₁) := rfl
  obtain ⟨v, hv, hseen, hsteps⟩ := (restart_as_new h hc _).1 _ _ hrestart
  exact ⟨w₁, _, v, g₁, h, hc, hrestart, hv, hseen, hsteps⟩

end SatWalk
