import SatWalk.Proofs.Budgets
import SatWalk.Proofs.FlipEffect
import SatWalk.Proofs.Indexes
import SatWalk.Proofs.Repairs
import SatWalk.Proofs.WholeRun

namespace SatWalk

namespace Formula

variable {F : Formula} {A : Assignment}

theorem pairwise_falseClauses (F : Formula) (A : Assignment) :
    (F.falseClauses A).Pairwise (· < ·) := by
  rw [falseClauses_eq]
  exact F.pairwise_idsWith _

theorem falseClauses_eq_nil_iff :
    F.falseClauses A = [] ↔ ∀ d ∈ F.clauses.toList, d.holds A = true := by
  simp only [List.eq_nil_iff_forall_not_mem, mem_falseClauses]
  constructor
  · intro h d hd
    obtain ⟨id, hid⟩ := Array.mem_iff_getElem?.1 (Array.mem_toList_iff.1 hd)
    rw [← Bool.not_eq_false]
    exact fun hf => h id ⟨d, hid, hf⟩
  · rintro h id ⟨d, hd, hf⟩
    cases hf.symm.trans (h d (mem_clauses hd))

theorem falseClauses_ne_nil_iff :
    F.falseClauses A ≠ [] ↔ ∃ d ∈ F.clauses.toList, d.holds A = false := by
  rw [ne_eq, falseClauses_eq_nil_iff]
  simp only [not_forall, Bool.not_eq_true, exists_prop]

end Formula

namespace State

variable {F : Formula} {s : State F}

theorem wrongFrom_of_isEmpty (hs : s.unsatisfied.isEmpty = true) (i : Nat) (cs : List Clause) :
    s.wrongFrom i cs = Formula.falseFrom s.assignment i cs := by
  induction cs generalizing i with
  | nil => rfl
  | cons c cs ih =>
    have hrecorded : s.recorded i = true := recorded_eq_true.2 (PickSet.isEmpty_iff.1 hs i)
    rw [wrongFrom, Formula.falseFrom, ih, hrecorded]

theorem inconsistencies_of_isEmpty (hs : s.unsatisfied.isEmpty = true) :
    s.inconsistencies = F.falseClauses s.assignment := wrongFrom_of_isEmpty hs 0 _

end State

namespace Walk

variable {R : Type} [MachineReal R] {F : Formula} {c : Config R} {G : Type} {w w' : Walk F c} {g g' : G}

theorem settle_of_isEmpty (hv : c.verify.truth = true) (hu : w.state.unsatisfied.isEmpty = true)
    (g : G) : settle (w, g) =
      if F.falseClauses w.state.assignment = [] then .ok .satisfied ({ w with status := .satisfied }, g)
      else .error (.inconsistent (F.falseClauses w.state.assignment)) (w, g) := by
  have hchecked : w.Checked ↔ F.falseClauses w.state.assignment = [] := by
    rw [Checked, State.inconsistencies_of_isEmpty hu]
    exact forall_prop_of_true hv
  rw [settle_eq, State.inconsistencies_of_isEmpty hu]
  exact if_congr hchecked rfl rfl

variable [Source G]

theorem isEmpty_of_move (h : move (w, g) = .ok () (w', g')) : w.state.unsatisfied.isEmpty = false := by
  obtain ⟨id, i, choice, t, s, g₁, hpick, -⟩ := move_ok h
  rw [← Bool.not_eq_true, PickSet.isEmpty_iff]
  exact fun hnone => hnone id (PickSet.mem_of_pick hpick)

inductive AtCheck (w : Walk F c) (g : G) : Walk F c → G → Prop
  | before (hu : w.state.unsatisfied.isEmpty = true) : AtCheck w g w g
  | after {w' : Walk F c} {g' : G} (hm : move (w, g) = .ok () (w', g')) (hb : c.budget ≤ w'.steps)
    (hu : w'.state.unsatisfied.isEmpty = true) : AtCheck w g w' g'

theorem AtCheck.isEmpty (h : AtCheck w g w' g') : w'.state.unsatisfied.isEmpty = true := by
  cases h with
  | before hu => exact hu
  | after hm hb hu => exact hu

theorem AtCheck.step_eq (hs : w.status = .running) (h : AtCheck w g w' g') :
    step (w, g) = settle (w', g') := by
  have hgoing : ¬ w.status.isTerminal = true := by simp [hs, Status.isTerminal]
  rw [Walk.step_eq, if_neg hgoing]
  cases h with
  | before hu => rw [if_pos hu]
  | after hm hb hu =>
    rw [if_neg (Bool.eq_false_iff.1 (isEmpty_of_move hm))]
    simp only [bind, EStateM.bind, hm]
    rw [close_eq, if_neg (Nat.not_lt.2 hb), if_pos hu]

theorem Stepped.atCheck (hs : w.status = .running) (h : Stepped w g .satisfied w' g') :
    ∃ v, AtCheck w g v g' ∧ w' = { v with status := .satisfied } := by
  generalize hstatus : Status.satisfied = status at h
  cases h with
  | idle hidle => exact absurd hs hidle
  | found _ hu hc => exact ⟨w, .before hu, rfl⟩
  | @moved v _ _ hu hm hc =>
    obtain ⟨hb, hu'⟩ := verdict_eq_satisfied.1 hstatus.symm
    refine ⟨v, .after hm hb hu', ?_⟩
    rw [judged, ← hstatus]

theorem Failed.status_eq {e : Fault} (h : Failed w g e w' g') : w'.status = w.status := by
  cases h with
  | unchecked hu hc => rfl
  | stuck hm =>
    obtain ⟨-, t, rfl⟩ := move_error hm
    rfl
  | moved hm hu hc => exact status_move hm

theorem atCheck_of_inconsistent {ids : List Nat} (hs : w.status = .running)
    (h : step (w, g) = .error (.inconsistent ids) (w', g')) : AtCheck w g w' g' := by
  have hfailed := step_error h
  generalize hfault : Fault.inconsistent ids = e at hfailed
  cases hfailed with
  | unchecked hu hc => exact .before hu
  | stuck hm =>
    subst hfault
    exact (move_error hm).1.elim
  | moved hm hu hc =>
    refine .after hm ?_ hu
    -- With steps to spare the search goes on after the move, and nothing is checked.
    by_contra hb
    have hverdict := verdict_eq_running.2 (Nat.lt_of_not_le hb)
    have hgoing := step_eq_moved hs (isEmpty_of_move hm) hm fun hsat => nomatch hverdict.symm.trans hsat
    cases h.symm.trans hgoing

theorem inconsistent_eq {ids : List Nat} (hv : c.verify.truth = true) (hs : w.status = .running)
    (h : step (w, g) = .error (.inconsistent ids) (w', g')) :
    AtCheck w g w' g' ∧ ids = F.falseClauses w'.state.assignment ∧
      F.falseClauses w'.state.assignment ≠ [] := by
  have hcheck := atCheck_of_inconsistent hs h
  rw [hcheck.step_eq hs, settle_of_isEmpty hv hcheck.isEmpty] at h
  split at h
  · cases h
  · next hne =>
    cases h
    exact ⟨hcheck, rfl, hne⟩

/-- A step of a running search that checks the formula ends as satisfied only where all clauses hold,
and a search whose step fails is still running. An inconsistency is reported exactly where the step comes
to the check and some clause is false, and lists the false clauses in their order. -/
theorem step_guarded (hv : c.verify.truth = true) (hs : w.status = .running) (g : G) :
    (∀ status w' g', step (w, g) = .ok status (w', g') → w'.status = status ∧
      (status = .satisfied → ∀ d ∈ F.clauses.toList, d.holds w'.state.assignment = true)) ∧
    (∀ e w' g', step (w, g) = .error e (w', g') → w'.status = .running) ∧
    ((∃ ids s, step (w, g) = .error (.inconsistent ids) s) ↔
      ∃ w' g', AtCheck w g w' g' ∧ ∃ d ∈ F.clauses.toList, d.holds w'.state.assignment = false) ∧
    ∀ ids w' g', step (w, g) = .error (.inconsistent ids) (w', g') →
      AtCheck w g w' g' ∧ ids.Pairwise (· < ·) ∧
      (∀ id : Nat, id ∈ ids ↔ F.evaluate? id w'.state.assignment.slots = .ok false) ∧
      (Fault.inconsistent ids).message? = some ("The set of unsatisfied clauses is empty but clauses "
        ++ bracketed (ids.map fun i => toString i) ++ " are not satisfied.") := by
  refine ⟨?_, fun e w' g' h => (step_error h).status_eq.trans hs, ⟨?_, ?_⟩, ?_⟩
  · intro status w' g' h
    refine ⟨(step_ok h).status_eq, ?_⟩
    rintro rfl
    obtain ⟨v, hcheck, rfl⟩ := (step_ok h).atCheck hs
    rw [hcheck.step_eq hs, settle_of_isEmpty hv hcheck.isEmpty] at h
    split at h
    · next hnone => exact Formula.falseClauses_eq_nil_iff.1 hnone
    · cases h
  · rintro ⟨ids, ⟨w', g'⟩, h⟩
    obtain ⟨hcheck, hids, hne⟩ := inconsistent_eq hv hs h
    exact ⟨w', g', hcheck, Formula.falseClauses_ne_nil_iff.1 hne⟩
  · rintro ⟨w', g', hcheck, hfalse⟩
    rw [hcheck.step_eq hs, settle_of_isEmpty hv hcheck.isEmpty,
      if_neg (Formula.falseClauses_ne_nil_iff.2 hfalse)]
    exact ⟨_, _, rfl⟩
  · intro ids w' g' h
    obtain ⟨hcheck, rfl, -⟩ := inconsistent_eq hv hs h
    refine ⟨hcheck, F.pairwise_falseClauses _, ?_, rfl⟩
    intro id
    rw [← exists_natCast_eq, ← Formula.evaluate?_false_iff w'.state.fits]
    exact and_iff_right (Int.natCast_nonneg id)

def failsWith {σ α : Type} (p : Fault → σ → Bool) : EStateM.Result Fault σ α → Bool
  | .ok _ _ => false
  | .error e s => p e s

theorem exists_error {σ α : Type} {p : Fault → σ → Bool} {r : EStateM.Result Fault σ α}
    (h : failsWith p r = true) : ∃ e s, r = .error e s ∧ p e s = true := by
  cases r with
  | ok a s => cases h
  | error e s => exact ⟨e, s, rfl, h⟩

def misledWalk : Walk pairFormula coinConfig where
  state := ⟨.ofList [false, false], .ofList [0], rfl⟩
  table := ⟨coinConfig.weighting, #[]⟩
  status := .running
  steps := 1
  statistics := .fresh 1

theorem step_guarded_misled : coinConfig.verify.truth = true ∧ misledWalk.status = .running ∧
    ∃ (ids : List Nat) (w' : Walk pairFormula coinConfig) (g' : Script),
      step (misledWalk, (⟨[0, 0, 4503599627370496]⟩ : Script)) = .error (.inconsistent ids) (w', g') ∧
      ids = [1] ∧ w'.steps = 2 ∧ AtCheck misledWalk ⟨[0, 0, 4503599627370496]⟩ w' g' ∧
      w'.status = .running ∧
      ∀ id : Nat, id ∈ ids ↔ pairFormula.evaluate? id w'.state.assignment.slots = .ok false := by
  have hv : coinConfig.verify.truth = true := rfl
  have hs : misledWalk.status = .running := rfl
  have hfails : failsWith (fun e s => decide (e = .inconsistent [1] ∧ s.1.steps = 2))
      (step (misledWalk, (⟨[0, 0, 4503599627370496]⟩ : Script))) = true := by decide +kernel
  obtain ⟨e, ⟨w', g'⟩, hstep, he⟩ := exists_error hfails
  rw [decide_eq_true_eq] at he
  obtain ⟨rfl, hsteps⟩ := he
  obtain ⟨-, hrunning, -, hlisted⟩ := step_guarded hv hs (⟨[0, 0, 4503599627370496]⟩ : Script)
  obtain ⟨hcheck, -, hmem, -⟩ := hlisted [1] w' g' hstep
  exact ⟨hv, hs, [1], w', g', hstep, rfl, hsteps, hcheck, hrunning _ w' g' hstep, hmem⟩

end Walk

end SatWalk
