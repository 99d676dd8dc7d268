import SatWalk.Proofs.Moves

/-!
The record stays exact. Every operation on a search, successful or not, leaves a record that holds
the ids of the false clauses and no others, so the check of the whole formula never fails.
-/

namespace SatWalk

def leftBy {σ α : Type} : EStateM.Result Fault σ α → σ
  | .ok _ s => s
  | .error _ s => s

theorem leftBy_cases {σ α : Type} {r : EStateM.Result Fault σ α} {s : σ} (h : leftBy r = s) :
    (∃ a, r = .ok a s) ∨ ∃ e, r = .error e s := by
  subst h
  cases r with
  | ok a s => exact .inl ⟨a, rfl⟩
  | error e s => exact .inr ⟨e, rfl⟩

inductive Operation
  | step
  | restart (A : Option Assignment)

section
variable {R : Type} [MachineReal R] {F : Formula} {c : Config R} {G : Type} [Source G]

def Operation.after : Operation → Walk F c × G → Walk F c × G
  | .step, s => leftBy (Walk.step s)
  | .restart A, s => leftBy (Walk.restart A s)

/-- The searches that come of a start and any operations after it. -/
inductive Reached : Walk F c × G → Prop
  | start {A : Option Assignment} {w : Walk F c} {g g' : G} (h : Walk.start F c A g = .ok w g') :
    Reached (w, g')
  | after {s : Walk F c × G} (op : Operation) (h : Reached s) : Reached (op.after s)

namespace Walk

variable {w w' : Walk F c} {g g' : G} {e : Fault}

theorem exact_move (hw : w.state.Exact) (h : move (w, g) = .ok () (w', g')) : w'.state.Exact := by
  obtain ⟨id, i, choice, t, s, g1, -, -, hchoose, hflip, rfl⟩ := move_ok h
  exact hw.flip_vars (Sampler.choose_vars_le (Formula.getElem?_clauseAt i) hchoose) hflip

theorem Stepped.exact {status : Status} (hw : w.state.Exact) (h : Stepped w g status w' g') :
    w'.state.Exact := by
  cases h with
  | idle hs => exact hw
  | found hs hu hc => exact hw
  | moved hs hu hm hc =>
    have hmoved := exact_move hw hm
    exact hmoved

theorem checked_of_exact (hw : w.state.Exact) : w.Checked := fun _ => hw.inconsistencies_eq

theorem Failed.stuck_of_exact (hw : w.state.Exact) (h : Failed w g e w' g') :
    move (w, g) = .error e (w', g') := by
  cases h with
  | unchecked hu hc => exact absurd (checked_of_exact hw) hc
  | stuck hm => exact hm
  | moved hm hu hc => exact absurd (checked_of_exact (exact_move hw hm)) hc

theorem Failed.exact (hw : w.state.Exact) (h : Failed w g e w' g') : w'.state.Exact := by
  obtain ⟨-, t, rfl⟩ := move_error (h.stuck_of_exact hw)
  exact hw

theorem exact_after (op : Operation) (hw : w.state.Exact) (h : op.after (w, g) = (w', g')) :
    w'.state.Exact := by
  cases op with
  | step =>
    obtain ⟨status, hr⟩ | ⟨e, hr⟩ := leftBy_cases h
    · exact (step_ok hr).exact hw
    · exact (step_error hr).exact hw
  | restart A =>
    obtain ⟨u, hr⟩ | ⟨e, hr⟩ := leftBy_cases h
    · obtain ⟨B, s, -, hof, rfl⟩ := restart_ok hr
      exact State.exact_of hof
    · rw [restart_error hr]
      exact hw

end Walk

theorem Reached.exact {s : Walk F c × G} (h : Reached s) : s.1.state.Exact := by
  induction h with
  | start h =>
    obtain ⟨t, B, s, -, -, hof, rfl⟩ := Walk.start_ok h
    exact State.exact_of hof
  | after op h ih => exact Walk.exact_after op ih rfl

/-- Whatever was done to a search, its record lists every clause that evaluates to false under the
present assignment, once, and no other. A step of it fails in no check. -/
theorem Reached.record_exact {w : Walk F c} {g : G} (h : Reached (w, g)) :
    w.state.assignment.toList.length = F.numVars ∧
      w.state.unsatisfied.toList.Nodup ∧
      (∀ id : Int, id ∈ w.state.unsatisfied.toList ↔
        0 ≤ id ∧ F.evaluate? id w.state.assignment.slots = .ok false) ∧
      w.state.inconsistencies = [] ∧
      ∀ (g' : G) (ids : List Nat) (s : Walk F c × G), Walk.step (w, g') ≠ .error (.inconsistent ids) s := by
  have hw : w.state.Exact := h.exact
  refine ⟨?_, w.state.unsatisfied.nodup_toList, ?_, hw.inconsistencies_eq, ?_⟩
  · rw [Assignment.length_toList, w.state.fits]
  · intro id
    rw [← PickSet.mem_iff, hw id, Formula.evaluate?_false_iff w.state.fits]
  · rintro g' ids ⟨w', g''⟩ he
    have hm := (Walk.step_error he).stuck_of_exact hw
    exact (Walk.move_error hm).1

end

def coinConfig : Config Float where
  budget := 2
  temperature := .int 1
  family := .uniform
  seed := none
  strategy := .uniformRepair
  offset := .int 1
  scope := .all
  reportInterval := 0
  verify := .bool true
  budget_pos := by decide
  temperature_usable := by decide +kernel
  offset_usable := by decide +kernel

theorem Reached.record_exact_pair : ∃ (w : Walk pairFormula coinConfig) (g : Script), Reached (w, g) ∧
    w.steps = 1 ∧ w.state.unsatisfied.toList.Nodup ∧
    (∀ id : Int, id ∈ w.state.unsatisfied.toList ↔
      0 ≤ id ∧ pairFormula.evaluate? id w.state.assignment.slots = .ok false) ∧
    w.state.inconsistencies = [] := by
  have hstart : Walk.start pairFormula coinConfig (some (.ofList [true, false])) (⟨[0, 0]⟩ : Script) =
      .ok (Walk.fresh pairState ⟨coinConfig.weighting, #[]⟩) ⟨[0, 0]⟩ := rfl
  have h := (Reached.start hstart).after .step
  obtain ⟨-, hnodup, hmem, hnone, -⟩ := Reached.record_exact h
  exact ⟨_, _, h, by decide +kernel, hnodup, hmem, hnone⟩

end SatWalk
