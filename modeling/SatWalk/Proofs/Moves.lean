import SatWalk.Proofs.Faults
import SatWalk.Walk.Steps

namespace SatWalk

def initial {G : Type} [Source G] (n : Nat) : Option Assignment → Attempt G Assignment
  | some A => pure A
  | none => Assignment.random n

namespace State

variable {F : Formula} {G : Type} [Source G] {s s' : State F} {g g' : G} {A : Option Assignment}

theorem replace_eq (A : Option Assignment) (s : State F) (g : G) : replace A (s, g) =
    (onSecond (initial F.numVars A) >>= fun B => settled (of F B) >>= fun t => onFirst (set t)) (s, g) := by
  cases A <;> rfl

theorem replace_ok (h : replace A (s, g) = .ok () (s', g')) :
    ∃ B, initial F.numVars A g = .ok B g' ∧ of F B = .ok s' := by
  rw [replace_eq] at h
  obtain ⟨B, ⟨s1, g1⟩, hB, h1⟩ := bind_ok h
  obtain ⟨s2, t2, hs, h2⟩ := bind_ok h1
  obtain ⟨hof, rfl⟩ := settled_ok hs
  cases h2
  exact ⟨B, (onSecond_ok hB).1, hof⟩

theorem replace_error {e : Fault} (h : replace A (s, g) = .error e (s', g')) : s' = s := by
  rw [replace_eq] at h
  obtain hB | ⟨B, ⟨s1, g1⟩, hB, h1⟩ := bind_error h
  · exact (onSecond_error hB).2
  · obtain ⟨-, rfl⟩ := onSecond_ok hB
    obtain hs | ⟨s2, t2, -, h2⟩ := bind_error h1
    · obtain ⟨-, he⟩ := settled_error hs
      cases he
      rfl
    · cases h2

end State

namespace Walk

variable {R : Type} [MachineReal R] {F : Formula} {c : Config R} {G α : Type}
  {w w' : Walk F c} {g g' : G} {e : Fault}

theorem onState_error {act : Attempt (State F × G) α} (h : onState act (w, g) = .error e (w', g')) :
    ∃ s, act (w.state, g) = .error e (s, g') ∧ w' = { w with state := s } := by
  simp only [onState] at h
  split at h
  · cases h
  · next e' s g1 hs =>
    cases h
    exact ⟨s, hs, rfl⟩

theorem onTable_error {act : Attempt (WeightTable R × G) α}
    (h : onTable act (w, g) = .error e (w', g')) :
    ∃ t, act (w.table, g) = .error e (t, g') ∧ w' = { w with table := t } := by
  simp only [onTable] at h
  split at h
  · cases h
  · next e' t g1 ht =>
    cases h
    exact ⟨t, ht, rfl⟩

def Checked (w : Walk F c) : Prop := c.verify.truth = true → w.state.inconsistencies = []

instance (w : Walk F c) : Decidable w.Checked :=
  inferInstanceAs (Decidable (c.verify.truth = true → w.state.inconsistencies = []))

def verdict (w : Walk F c) : Status :=
  if w.steps < c.budget then .running
  else if w.state.unsatisfied.isEmpty then .satisfied
  else .exhausted

theorem verdict_eq_running : w.verdict = .running ↔ w.steps < c.budget := by
  unfold verdict
  split
  · simp [*]
  · split <;> simp [*]

theorem verdict_eq_satisfied :
    w.verdict = .satisfied ↔ c.budget ≤ w.steps ∧ w.state.unsatisfied.isEmpty = true := by
  unfold verdict
  split
  · simp only [reduceCtorEq, false_iff]
    omega
  · split
    · simp only [true_iff]
      exact ⟨by omega, by assumption⟩
    · simp [*]

theorem verdict_eq_exhausted :
    w.verdict = .exhausted ↔ c.budget ≤ w.steps ∧ w.state.unsatisfied.isEmpty = false := by
  unfold verdict
  split
  · simp only [reduceCtorEq, false_iff]
    omega
  · split
    · simp [*]
    · next hb hu =>
      simp only [true_iff]
      exact ⟨by omega, Bool.not_eq_true _ ▸ hu⟩

def judged (w : Walk F c) : Walk F c := { w with status := w.verdict }

theorem settle_eq (w : Walk F c) (g : G) : settle (w, g) =
    if w.Checked then .ok .satisfied ({ w with status := .satisfied }, g)
    else .error (.inconsistent w.state.inconsistencies) (w, g) := by
  have hwrong : (if c.verify.truth = true then w.state.inconsistencies else []) =
      if w.Checked then [] else w.state.inconsistencies := by
    by_cases hv : c.verify.truth = true
    · by_cases hi : w.state.inconsistencies = []
      · simp [hi]
      · simp [Checked, hv, hi]
    · simp [Checked, hv]
  change (if (if c.verify.truth = true then w.state.inconsistencies else []).isEmpty then enter .satisfied
    else throw (.inconsistent (if c.verify.truth = true then w.state.inconsistencies else []))) (w, g) = _
  rw [hwrong]
  by_cases hc : w.Checked
  · rw [if_pos hc, if_pos hc]
    rfl
  · have hne : w.state.inconsistencies ≠ [] := fun hi => hc fun _ => hi
    rw [if_neg hc, if_neg hc, if_neg (by simpa using hne)]
    rfl

theorem close_eq (w : Walk F c) (g : G) : close (w, g) =
    if w.steps < c.budget then .ok w.status (w, g)
    else if w.state.unsatisfied.isEmpty then settle (w, g)
    else .ok .exhausted ({ w with status := .exhausted }, g) := by
  change (if w.steps < c.budget then pure w.status else if w.state.unsatisfied.isEmpty then settle
    else enter .exhausted : Attempt (Walk F c × G) Status) (w, g) = _
  split
  · rfl
  · split <;> rfl

theorem close_ok {status : Status} (hs : w.status = .running)
    (h : close (w, g) = .ok status (w', g')) :
    status = w.verdict ∧ w' = w.judged ∧ g' = g ∧
      (w.verdict = .satisfied → w.Checked) := by
  rw [close_eq] at h
  unfold judged verdict
  split at h
  · next hb =>
    rw [if_pos hb, ← hs]
    cases h
    exact ⟨rfl, rfl, rfl, fun he => nomatch hs.symm.trans he⟩
  · next hb =>
    rw [if_neg hb]
    split at h
    · next hu =>
      rw [if_pos hu]
      rw [settle_eq] at h
      split at h
      · next hc =>
        cases h
        exact ⟨rfl, rfl, rfl, fun _ => hc⟩
      · cases h
    · next hu =>
      rw [if_neg hu]
      cases h
      exact ⟨rfl, rfl, rfl, fun he => nomatch he⟩

theorem close_error (h : close (w, g) = .error e (w', g')) :
    w.state.unsatisfied.isEmpty = true ∧ ¬ w.Checked ∧ e = .inconsistent w.state.inconsistencies ∧
      w' = w ∧ g' = g := by
  rw [close_eq] at h
  split at h
  · cases h
  · split at h
    · next hu =>
      rw [settle_eq] at h
      split at h
      · cases h
      · next hc =>
        cases h
        exact ⟨hu, hc, rfl, rfl, rfl⟩
    · cases h

variable [Source G]

theorem step_eq (w : Walk F c) (g : G) : step (w, g) =
    if w.status.isTerminal then .ok w.status (w, g)
    else if w.state.unsatisfied.isEmpty then settle (w, g)
    else (move >>= fun _ => close) (w, g) := by
  change (if w.status.isTerminal then pure w.status else if w.state.unsatisfied.isEmpty then settle
    else move >>= fun _ => close : Attempt (Walk F c × G) Status) (w, g) = _
  split
  · rfl
  · split <;> rfl

theorem move_ok (h : move (w, g) = .ok () (w', g')) :
    ∃ id i choice t s g1, w.state.unsatisfied.pick g = .ok id g1 ∧ F.clauseId? id = .ok i ∧
      c.sampler.choose w.state (F.clauseAt i) (w.table, g1) = .ok choice (t, g') ∧
      State.flip (choice.vars.map Int.ofNat) w.state = .ok () s ∧
      w' = count choice.vars.length { w with state := s, table := t } := by
  obtain ⟨s, t, hs, h⟩ := bind_ok h
  cases hs
  obtain ⟨id, ⟨w1, g1⟩, h1, h⟩ := bind_ok h
  obtain ⟨i, ⟨w2, g2⟩, h2, h⟩ := bind_ok h
  obtain ⟨choice, ⟨w3, g3⟩, h3, h⟩ := bind_ok h
  obtain ⟨u, ⟨w4, g4⟩, h4, h⟩ := bind_ok h
  cases h
  obtain ⟨hpick, rfl⟩ := onSecond_ok h1
  obtain ⟨hid, e2⟩ := settled_ok h2
  cases e2
  obtain ⟨t, hchoose, rfl⟩ := onTable_ok h3
  obtain ⟨s, hs, rfl⟩ := onState_ok h4
  obtain ⟨hflip, rfl⟩ := onFirst_ok hs
  exact ⟨id, i, choice, t, s, g1, hpick, hid, hchoose, hflip, rfl⟩

theorem flip_choose {p : Sampler} {s : State F} {i : Fin F.clauses.size} {t t' : WeightTable R}
    {choice : FlipChoice Var} (h : p.choose s (F.clauseAt i) (t, g) = .ok choice (t', g')) :
    ∃ s', State.flip (choice.vars.map Int.ofNat) s = .ok () s' := by
  obtain ⟨s', hs', -⟩ := State.flip_vars (s := s) (Sampler.choose_vars_le (Formula.getElem?_clauseAt i) h)
  exact ⟨s', hs'⟩

theorem move_error (h : move (w, g) = .error e (w', g')) :
    e.Plain ∧ ∃ t, w' = { w with table := t } := by
  obtain h | ⟨s, t, hs, h⟩ := bind_error h
  · cases h
  cases hs
  obtain h1 | ⟨id, ⟨w1, g1⟩, h1, h⟩ := bind_error h
  · obtain ⟨hpick, rfl⟩ := onSecond_error h1
    exact ⟨PickSet.unsuspecting_pick _ _ _ _ hpick, _, rfl⟩
  obtain ⟨-, rfl⟩ := onSecond_ok h1
  obtain h2 | ⟨i, ⟨w2, g2⟩, h2, h⟩ := bind_error h
  · obtain ⟨hid, e2⟩ := settled_error h2
    cases e2
    refine ⟨?_, _, rfl⟩
    simp only [Formula.clauseId?] at hid
    split at hid
    · cases hid
    · cases hid
      trivial
  obtain ⟨-, e2⟩ := settled_ok h2
  cases e2
  obtain h3 | ⟨choice, ⟨w3, g3⟩, h3, h⟩ := bind_error h
  · obtain ⟨t, hchoose, rfl⟩ := onTable_error h3
    exact ⟨Sampler.unsuspecting_choose _ _ _ _ _ _ hchoose, t, rfl⟩
  obtain ⟨t, hchoose, rfl⟩ := onTable_ok h3
  obtain h4 | ⟨u, ⟨w4, g4⟩, h4, h⟩ := bind_error h
  · obtain ⟨s, hs, rfl⟩ := onState_error h4
    obtain ⟨s', hs'⟩ := flip_choose hchoose
    cases hs'.symm.trans (onFirst_error hs).1
  · cases h

theorem status_move (h : move (w, g) = .ok () (w', g')) : w'.status = w.status := by
  obtain ⟨id, i, choice, t, s, g1, -, -, -, -, rfl⟩ := move_ok h
  rfl

inductive Stepped (w : Walk F c) (g : G) : Status → Walk F c → G → Prop
  | idle (hs : w.status ≠ .running) : Stepped w g w.status w g
  | found (hs : w.status = .running) (hu : w.state.unsatisfied.isEmpty = true) (hc : w.Checked) :
    Stepped w g .satisfied { w with status := .satisfied } g
  | moved {w' : Walk F c} {g' : G} (hs : w.status = .running)
    (hu : w.state.unsatisfied.isEmpty = false) (hm : move (w, g) = .ok () (w', g'))
    (hc : w'.verdict = .satisfied → w'.Checked) :
    Stepped w g w'.verdict w'.judged g'

inductive Failed (w : Walk F c) (g : G) : Fault → Walk F c → G → Prop
  | unchecked (hu : w.state.unsatisfied.isEmpty = true) (hc : ¬ w.Checked) :
    Failed w g (.inconsistent w.state.inconsistencies) w g
  | stuck {e : Fault} {w' : Walk F c} {g' : G} (hm : move (w, g) = .error e (w', g')) :
    Failed w g e w' g'
  | moved {w' : Walk F c} {g' : G} (hm : move (w, g) = .ok () (w', g'))
    (hu : w'.state.unsatisfied.isEmpty = true) (hc : ¬ w'.Checked) :
    Failed w g (.inconsistent w'.state.inconsistencies) w' g'

theorem step_ok {status : Status} (h : step (w, g) = .ok status (w', g')) :
    Stepped w g status w' g' := by
  rw [step_eq] at h
  split at h
  · next ht =>
    cases h
    apply Stepped.idle
    simpa [Status.isTerminal] using ht
  · next ht =>
    have hs : w.status = .running := by simpa [Status.isTerminal] using ht
    split at h
    · next hu =>
      rw [settle_eq] at h
      split at h
      · next hc =>
        cases h
        exact .found hs hu hc
      · cases h
    · next hu =>
      obtain ⟨u, ⟨w1, g1⟩, hm, h1⟩ := bind_ok h
      obtain ⟨rfl, rfl, rfl, hc⟩ := close_ok ((status_move hm).trans hs) h1
      exact .moved hs (by simpa using hu) hm hc

theorem step_error (h : step (w, g) = .error e (w', g')) : Failed w g e w' g' := by
  rw [step_eq] at h
  split at h
  · cases h
  · split at h
    · next hu =>
      rw [settle_eq] at h
      split at h
      · cases h
      · next hc =>
        cases h
        exact .unchecked hu hc
    · obtain hm | ⟨u, ⟨w1, g1⟩, hm, h1⟩ := bind_error h
      · exact .stuck hm
      · obtain ⟨hu, hc, rfl, rfl, rfl⟩ := close_error h1
        exact .moved hm hu hc

theorem start_eq (A : Option Assignment) (g : G) : start F c A g =
    (settled (startTable F c) >>= fun t => initial F.numVars A >>= fun B =>
      settled (State.of F B) >>= fun s => pure (fresh s t)) g := by
  cases A <;> rfl

theorem start_ok {A : Option Assignment} (h : start F c A g = .ok w g') :
    ∃ t B s, startTable F c = .ok t ∧ initial F.numVars A g = .ok B g' ∧ State.of F B = .ok s ∧
      w = fresh s t := by
  rw [start_eq] at h
  obtain ⟨t, g1, ht, h1⟩ := bind_ok h
  obtain ⟨htable, rfl⟩ := settled_ok ht
  obtain ⟨B, g2, hB, h2⟩ := bind_ok h1
  obtain ⟨s, g3, hs, h3⟩ := bind_ok h2
  obtain ⟨hof, rfl⟩ := settled_ok hs
  cases h3
  exact ⟨t, B, s, htable, hB, hof, rfl⟩

theorem restart_ok {A : Option Assignment} (h : restart A (w, g) = .ok () (w', g')) :
    ∃ B s, initial F.numVars A g = .ok B g' ∧ State.of F B = .ok s ∧ w' = fresh s w.table := by
  obtain ⟨u, ⟨w1, g1⟩, h1, h2⟩ := bind_ok h
  cases h2
  obtain ⟨s, hs, rfl⟩ := onState_ok h1
  obtain ⟨B, hB, hof⟩ := State.replace_ok hs
  exact ⟨B, s, hB, hof, rfl⟩

theorem restart_error {A : Option Assignment} (h : restart A (w, g) = .error e (w', g')) : w' = w := by
  obtain h1 | ⟨u, s, -, h2⟩ := bind_error h
  · obtain ⟨s, hs, rfl⟩ := onState_error h1
    rw [State.replace_error hs]
  · cases h2

end Walk

end SatWalk
