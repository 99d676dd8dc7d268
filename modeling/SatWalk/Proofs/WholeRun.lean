import SatWalk.Proofs.Exactness
import SatWalk.Run

namespace SatWalk

namespace Walk

variable {R : Type} [MachineReal R] {F : Formula} {c : Config R} {G : Type} [Source G]
  {w w' : Walk F c} {g g' : G}

structure OnBudget (w : Walk F c) : Prop where
  steps_le : w.steps ≤ c.budget
  running : w.status = .running → w.steps < c.budget
  satisfied : w.status = .satisfied → w.state.unsatisfied.isEmpty = true
  exhausted : w.status = .exhausted → w.steps = c.budget ∧ w.state.unsatisfied.isEmpty = false

theorem onBudget_fresh (s : State F) (t : WeightTable R) : (fresh s t : Walk F c).OnBudget where
  steps_le := Nat.zero_le _
  running _ := c.budget_pos
  satisfied h := nomatch h
  exhausted h := nomatch h

theorem OnBudget.exhausted_of_ne (hw : w.OnBudget) (hrun : w.status ≠ .running)
    (hne : w.status ≠ .satisfied) : w.status = .exhausted ∧ w.steps = c.budget := by
  cases hs : w.status with
  | running => exact absurd hs hrun
  | satisfied => exact absurd hs hne
  | exhausted => exact ⟨rfl, (hw.exhausted hs).1⟩

theorem onBudget_judged (h : w.steps ≤ c.budget) : w.judged.OnBudget where
  steps_le := h
  running hv := verdict_eq_running.1 hv
  satisfied hv := (verdict_eq_satisfied.1 hv).2
  exhausted hv := by
    obtain ⟨hle, hu⟩ := verdict_eq_exhausted.1 hv
    exact ⟨Nat.le_antisymm h hle, hu⟩

theorem Stepped.onBudget {status : Status} (hw : w.OnBudget) (h : Stepped w g status w' g') :
    w'.OnBudget := by
  cases h with
  | idle hs => exact hw
  | found hs hu hc =>
    exact ⟨hw.steps_le, fun he => (nomatch he), fun _ => hu, fun he => nomatch he⟩
  | moved hs hu hm hc =>
    apply onBudget_judged
    rw [steps_move hm]
    exact hw.running hs

theorem Stepped.status_eq {status : Status} (h : Stepped w g status w' g') : w'.status = status := by
  cases h with
  | idle hs => rfl
  | found hs hu hc => rfl
  | moved hs hu hm hc => rfl

/-- So many steps take a search to an end: all of them but the last leave it running. -/
inductive Ends : Nat → Walk F c × G → Status → Walk F c × G → Prop
  | last {s s' : Walk F c × G} {status : Status} (h : step s = .ok status s')
    (hs : status ≠ .running) : Ends 1 s status s'
  | next {n : Nat} {s s1 s' : Walk F c × G} {status : Status} (h : step s = .ok .running s1)
    (hr : Ends n s1 status s') : Ends (n + 1) s status s'

theorem Ends.ne_running {n : Nat} {s s' : Walk F c × G} {status : Status} (h : Ends n s status s') :
    status ≠ .running := by
  induction h with
  | last h hs => exact hs
  | next h hr ih => exact ih

theorem Ends.invariant {P : Walk F c → Prop}
    (hP : ∀ {w w' : Walk F c} {g g' : G} {status : Status}, P w → Stepped w g status w' g' → P w')
    {n : Nat} {s s' : Walk F c × G} {status : Status} (h : Ends n s status s') (h0 : P s.1) : P s'.1 := by
  induction h with
  | last h hs => exact hP h0 (step_ok h)
  | next h hr ih => exact ih (hP h0 (step_ok h))

theorem Ends.status_eq {n : Nat} {s s' : Walk F c × G} {status : Status} (h : Ends n s status s') :
    s'.1.status = status := by
  induction h with
  | last h hs => exact (step_ok h).status_eq
  | next h hr ih => exact ih

end Walk

section
variable {R : Type} [MachineReal R] {α : Type} {F : Formula} {c : Config R} {G : Type} [Source G]

theorem Run.drive_ok {view : Walk F c → α} {w : Walk F c} {g : G} {log log' : Log R α}
    {status : Status} {s' : Walk F c × G} (h : drive view w g log = .ok status (s', log')) :
    ∃ n, Walk.Ends n (w, g) status s' := by
  fun_induction drive view w g log with
  | case1 w g log e s hstep => cases h
  | case2 w g log w1 g1 log1 hstep ih =>
    obtain ⟨n, hn⟩ := ih h
    exact ⟨n + 1, .next hstep hn⟩
  | case3 w g log status w1 g1 hstep log1 hs =>
    cases h
    exact ⟨1, .last hstep hs⟩

theorem Run.start_ok {A : Option Assignment} {g g' : G} {log log' : Log R α} {w : Walk F c}
    (h : start F c A (g, log) = .ok w (g', log')) : Walk.start F c A g = .ok w g' := by
  simp only [start, logged] at h
  split at h
  · next w' g1 hw =>
    cases h
    exact hw
  · cases h

end

end SatWalk
