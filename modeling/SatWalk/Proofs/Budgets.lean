import SatWalk.Proofs.Lockstep

namespace SatWalk

section
variable {R : Type} [MachineReal R] {F : Formula} {c : Config R} {G α : Type}

def Config.withBudget (c : Config R) (b : Nat) (hb : c.budget ≤ b) : Config R :=
  { c with budget := b, budget_pos := Nat.lt_of_lt_of_le c.budget_pos hb }

namespace Walk

theorem Checked.settle_eq {w : Walk F c} (hc : w.Checked) (g : G) :
    settle (w, g) = .ok .satisfied ({ w with status := .satisfied }, g) := by
  rw [Walk.settle_eq, if_pos hc]

theorem close_eq_judged {w : Walk F c} (hs : w.status = .running)
    (hc : w.verdict = .satisfied → w.Checked) (g : G) :
    close (w, g) = .ok w.verdict (w.judged, g) := by
  rw [close_eq]
  split
  · next hsteps =>
    have hverdict : w.verdict = .running := verdict_eq_running.2 hsteps
    rw [judged, hverdict, ← hs]
  · next hsteps =>
    split
    · next hempty =>
      have hverdict : w.verdict = .satisfied := verdict_eq_satisfied.2 ⟨by omega, hempty⟩
      rw [(hc hverdict).settle_eq, judged, hverdict]
    · next hempty =>
      have hverdict : w.verdict = .exhausted :=
        verdict_eq_exhausted.2 ⟨by omega, Bool.not_eq_true _ ▸ hempty⟩
      rw [judged, hverdict]

variable [Source G]

theorem step_eq_found {w : Walk F c} (hs : w.status = .running)
    (hu : w.state.unsatisfied.isEmpty = true) (hc : w.Checked) (g : G) :
    step (w, g) = .ok .satisfied ({ w with status := .satisfied }, g) := by
  have hgoing : ¬ w.status.isTerminal = true := by simp [hs, Status.isTerminal]
  rw [step_eq, if_neg hgoing, if_pos hu, hc.settle_eq]

theorem step_eq_moved {w w₁ : Walk F c} {g g₁ : G} (hs : w.status = .running)
    (hu : w.state.unsatisfied.isEmpty = false) (hm : move (w, g) = .ok () (w₁, g₁))
    (hc : w₁.verdict = .satisfied → w₁.Checked) :
    step (w, g) = .ok w₁.verdict (w₁.judged, g₁) := by
  have hgoing : ¬ w.status.isTerminal = true := by simp [hs, Status.isTerminal]
  rw [step_eq, if_neg hgoing, if_neg (by simp [hu])]
  have hclose := close_eq_judged ((status_move hm).trans hs) hc g₁
  simp only [bind, EStateM.bind, hm]
  exact hclose

variable {b : Nat} {hb : c.budget ≤ b} {w w₁ : Walk F c} {v : Walk F (c.withBudget b hb)} {g g₁ : G}

theorem step_withBudget (h : w.Alike Eq v) (hw : w.state.Exact) (hs : w.status = .running)
    (hu : w.state.unsatisfied.isEmpty = false) (hm : move (w, g) = .ok () (w₁, g₁)) :
    ∃ v₁ : Walk F (c.withBudget b hb), w₁.Alike Eq v₁ ∧
      step (v, g) = .ok v₁.verdict (v₁.judged, g₁) := by
  have hchoose : Sampler.ChooseAlike G (Eq : WeightTable R → WeightTable R → Prop) w.state c.sampler
      (c.withBudget b hb).sampler := by
    rintro i t _ rfl g'
    exact (Paired.refl _).mono fun s t hst => hst ▸ ⟨rfl, rfl⟩
  obtain ⟨⟨⟩, ⟨v₁, g₂⟩, hm', -, h₁, rfl⟩ := (hm ▸ move_paired h g hchoose).of_ok
  have hexact : v₁.state.Exact := h₁.state_eq ▸ exact_move hw hm
  refine ⟨v₁, h₁, step_eq_moved (h.status_eq ▸ hs) (h.state_eq ▸ hu) hm' ?_⟩
  exact fun _ => checked_of_exact hexact

theorem Alike.judged (h : w₁.Alike Eq v) (hv : w₁.verdict = v.verdict) :
    w₁.judged.Alike Eq v.judged :=
  ⟨h.state_eq, hv, h.steps_eq, h.statistics_eq, h.table⟩

theorem Stepped.of_running {w' : Walk F c} {status : Status} (h : Stepped w g status w' g₁)
    (hs : w.status = .running) :
    (w.state.unsatisfied.isEmpty = true ∧ status = .satisfied ∧ w' = { w with status := .satisfied } ∧
      g₁ = g) ∨
    (w.state.unsatisfied.isEmpty = false ∧
      ∃ w₁ : Walk F c, move (w, g) = .ok () (w₁, g₁) ∧ status = w₁.verdict ∧ w' = w₁.judged) := by
  cases h with
  | idle hne => exact absurd hs hne
  | found _ hu hc => exact .inl ⟨hu, rfl, rfl, rfl⟩
  | moved _ hu hm hc => exact .inr ⟨hu, _, hm, rfl, rfl⟩

theorem Stepped.steps_cases {w' : Walk F c} {status : Status} (h : Stepped w g status w' g₁) :
    w'.steps = w.steps ∨ w'.steps = w.steps + 1 := by
  cases h with
  | idle hs => exact .inl rfl
  | found hs hu hc => exact .inl rfl
  | moved hs hu hm hc =>
    have hsteps := steps_move hm
    exact .inr hsteps

end Walk

namespace Run

variable [Source G]

theorem views_prefix_drive (view : Walk F c → α) (w : Walk F c) (g : G) (log : Log R α) :
    views log <+: views (leftBy (drive view w g log)).2 := by
  fun_induction drive view w g log with
  | case1 w g log e s hstep =>
    simp only [leftBy, views_append, views_events, List.append_nil]
    exact List.prefix_rfl
  | case2 w g log w₁ g₁ log₁ hstep =>
    rename_i ih
    apply List.IsPrefix.trans _ ih
    have hnoted := views_noted view w w₁ log
    exact hnoted ▸ List.prefix_append _ _
  | case3 w g log status w₁ g₁ hstep log₁ =>
    simp only [leftBy, views_push_event]
    have hnoted := views_noted view w w₁ log
    exact hnoted ▸ List.prefix_append _ _

theorem length_views_drive {view : Walk F c → α} {w : Walk F c} {g : G} {log log' : Log R α}
    {status : Status} {s : Walk F c × G} (h : drive view w g log = .ok status (s, log')) :
    (views log').length + w.steps = (views log).length + s.1.steps := by
  have hnoted : ∀ {w w₁ : Walk F c} {g g₁ : G} {status : Status} (log : Log R α),
      Walk.step (w, g) = .ok status (w₁, g₁) →
      (views (noted view w w₁ log)).length + w.steps = (views log).length + w₁.steps := by
    intro w w₁ g g₁ status log hstep
    rw [views_noted]
    obtain hsame | hnext := (Walk.step_ok hstep).steps_cases
    · rw [if_pos hsame, List.append_nil, hsame]
    · rw [if_neg (by omega), List.length_append, List.length_singleton, hnext]
      omega
  fun_induction drive view w g log with
  | case1 w g log e s hstep => cases h
  | case2 w g log w₁ g₁ log₁ hstep =>
    rename_i ih
    have hone : (views log₁).length + w.steps = (views log).length + w₁.steps := hnoted log hstep
    have hrest := ih h
    omega
  | case3 w g log status w₁ g₁ hstep log₁ =>
    cases h
    rw [views_push_event]
    exact hnoted log hstep

theorem views_prefix_of_step {view : Walk F c → α} {w w' : Walk F c} {g g' : G} {status : Status}
    (log : Log R α) (hstep : Walk.step (w, g) = .ok status (w', g')) :
    views (noted view w w' log) <+: views (leftBy (drive view w g log)).2 := by
  by_cases hs : status = .running
  · rw [drive_running log (hs ▸ hstep)]
    exact views_prefix_drive view w' g' _
  · rw [drive_ended log hstep hs]
    simp only [leftBy, views_push_event]
    exact List.prefix_rfl

theorem drive_satisfied (view : Walk F c → α) {w w₁ : Walk F c} {g g₁ : G} (log : Log R α)
    (hstep : Walk.step (w, g) = .ok w₁.verdict (w₁.judged, g₁)) (hw : w₁.state.Exact)
    (hu : w₁.state.unsatisfied.isEmpty = true) :
    ∃ log', drive view w g log = .ok .satisfied (({ w₁ with status := .satisfied }, g₁), log') ∧
      views log' = views (noted view w w₁.judged log) := by
  by_cases hsteps : w₁.steps < c.budget
  -- With steps to spare it is the next step that ends the run; it draws nothing and is not counted.
  · have hverdict : w₁.verdict = .running := Walk.verdict_eq_running.2 hsteps
    have hnext := Walk.step_eq_found (w := w₁.judged) hverdict hu (Walk.checked_of_exact hw) g₁
    rw [drive_running log (hverdict ▸ hstep), drive_ended _ hnext nofun]
    refine ⟨_, rfl, ?_⟩
    rw [views_push_event, noted, if_pos rfl]
  · have hverdict : w₁.verdict = .satisfied := Walk.verdict_eq_satisfied.2 ⟨by omega, hu⟩
    rw [drive_ended log hstep (hverdict ▸ nofun), hverdict, Walk.judged, hverdict]
    exact ⟨_, rfl, views_push_event _ _⟩

variable {b : Nat} {hb : c.budget ≤ b}

theorem drive_withBudget {w w' : Walk F c} {v : Walk F (c.withBudget b hb)} {g g' : G}
    {log log' log₁ : Log R Snapshot} {status : Status} (h : w.Alike Eq v) (hw : w.state.Exact)
    (hs : w.status = .running) (hlog : views log = views log')
    (hdrive : drive Walk.snapshot w g log = .ok status ((w', g'), log₁)) :
    (status = .satisfied → ∃ v' log₂, drive Walk.snapshot v g log' = .ok .satisfied ((v', g'), log₂) ∧
      w'.Alike Eq v' ∧ views log₁ = views log₂) ∧
    (status = .exhausted → views log₁ <+: views (leftBy (drive Walk.snapshot v g log')).2) := by
  have hview : ∀ {w : Walk F c} {v : Walk F (c.withBudget b hb)}, w.Alike Eq v →
      w.judged.snapshot = v.judged.snapshot := by
    intro w v h
    simp only [Walk.snapshot, Walk.judged, h.state_eq, h.steps_eq]
  have hnoted : ∀ {w w₁ : Walk F c} {v v₁ : Walk F (c.withBudget b hb)} {log log' : Log R Snapshot},
      w.Alike Eq v → w₁.Alike Eq v₁ → views log = views log' →
      views (noted Walk.snapshot w w₁.judged log) = views (noted Walk.snapshot v v₁.judged log') := by
    intro w w₁ v v₁ log log' h h₁ hlog
    have hsteps : w₁.judged.steps = v₁.judged.steps := h₁.steps_eq
    rw [views_noted, views_noted, hview h₁, hsteps, h.steps_eq, hlog]
  -- Along the shorter run: while it is running so is the longer one, and both stay alike.
  revert v log'
  fun_induction drive Walk.snapshot w g log with
  | case1 w g log e s hstep => cases hdrive
  | case2 w g log w₁ g₁ log₁ hstep =>
    rename_i ih
    intro v log' h hlog
    obtain ⟨-, he, -⟩ | ⟨hu, u, hm, hverdict, rfl⟩ := (Walk.step_ok hstep).of_running hs
    · cases he
    obtain ⟨v₁, h₁, hstep'⟩ := Walk.step_withBudget h hw hs hu hm
    have hsteps : u.steps < c.budget := Walk.verdict_eq_running.1 hverdict.symm
    have hverdict' : v₁.verdict = .running :=
      Walk.verdict_eq_running.2 (h₁.steps_eq ▸ Nat.lt_of_lt_of_le hsteps hb)
    rw [drive_running _ (hverdict' ▸ hstep')]
    have hexact := Walk.exact_move hw hm
    exact ih hexact hverdict.symm hdrive (h₁.judged (hverdict ▸ hverdict'.symm)) (hnoted h h₁ hlog)
  | case3 w g log status w₁ g₁ hstep log₁ hne =>
    cases hdrive
    intro v log' h hlog
    rw [views_push_event]
    obtain ⟨hu, rfl, rfl, rfl⟩ | ⟨hu, u, hm, rfl, rfl⟩ := (Walk.step_ok hstep).of_running hs
    · have hstep' := Walk.step_eq_found (h.status_eq ▸ hs) (h.state_eq ▸ hu)
        (Walk.checked_of_exact (h.state_eq ▸ hw)) g'
      refine ⟨fun _ => ⟨_, _, drive_ended _ hstep' hne, ?_, ?_⟩, fun he => Status.noConfusion he⟩
      · exact ⟨h.state_eq, rfl, h.steps_eq, h.statistics_eq, h.table⟩
      · rw [views_push_event, noted, if_pos rfl]
        simp only [log₁, dif_pos, hlog]
    · obtain ⟨v₁, h₁, hstep'⟩ := Walk.step_withBudget h hw hs hu hm
      have hseen := hnoted h h₁ hlog
      refine ⟨fun hsat => ?_, fun _ => hseen ▸ views_prefix_of_step log' hstep'⟩
      have hexact : v₁.state.Exact := h₁.state_eq ▸ Walk.exact_move hw hm
      obtain ⟨log₂, hdrive, hlog₂⟩ := drive_satisfied Walk.snapshot log' hstep' hexact
        (h₁.state_eq ▸ (Walk.verdict_eq_satisfied.1 hsat).2)
      exact ⟨_, log₂, hdrive, ⟨h₁.state_eq, hsat, h₁.steps_eq, h₁.statistics_eq, h₁.table⟩,
        hlog₂ ▸ hseen⟩

theorem solve_eq_ok {A : Option Assignment} {view : Walk F c → α} {g : G} {o : Outcome}
    {s : G × Log R α} (h : solve F c A view (g, #[]) = .ok o s) :
    ∃ w g₁ log₁ status w', start F c A (g, #[]) = .ok w (g₁, log₁) ∧
      drive view w g₁ log₁ = .ok status ((w', s.1), s.2) ∧ o = w'.outcome := by
  simp only [solve] at h
  split at h
  · cases h
  · next w g₁ log₁ hstart =>
    simp only [finish] at h
    generalize hdrive : drive view w g₁ log₁ = r at h
    cases r with
    | error e t => cases h
    | ok status t =>
      obtain ⟨⟨w', g'⟩, log'⟩ := t
      cases h
      exact ⟨w, g₁, log₁, status, w', hstart, hdrive, rfl⟩

theorem start_withBudget (hb : c.budget ≤ b) {A : Option Assignment} {w : Walk F c} {g g' : G}
    {log : Log R α} (h : start F c A (g, #[]) = .ok w (g', log)) :
    views log = [] ∧ w.steps = 0 ∧ w.status = .running ∧ w.OnBudget ∧ w.state.Exact ∧
      ∃ v log', start F (c.withBudget b hb) A (g, #[]) = .ok v (g', log') ∧ w.Alike Eq v ∧
        views log = views log' := by
  have htable : Walk.startTable F c = Walk.startTable F (c.withBudget b hb) := rfl
  have hpaired := start_paired (α := α) (Walk.start_alike htable A g) (Eq.refl (views #[]))
  obtain ⟨v, ⟨-, log'⟩, hv, ⟨hfresh, hexact, halike⟩, rfl, hlog⟩ := (h ▸ hpaired).of_ok
  have hnone : views log = [] := by
    simp only [start, logged] at h
    split at h
    · cases h
      rw [views_append, views_events]
      rfl
    · cases h
  exact ⟨hnone, congrArg Walk.steps hfresh, congrArg Walk.status hfresh,
    hfresh ▸ Walk.onBudget_fresh _ _, hexact, v, log', hv, halike, hlog⟩

/-- A larger budget only continues a run. A satisfied run stays as it is; otherwise what is seen of
the run is what is seen first of the longer one, which may go on, end or fail. -/
theorem solve_withBudget {A : Option Assignment} {g : G} {o : Outcome} {s : G × Log R Snapshot}
    (hb : c.budget ≤ b) (h : solve F c A Walk.snapshot (g, #[]) = .ok o s) :
    (o.status = .satisfied → ∃ log, views log = views s.2 ∧
      solve F (c.withBudget b hb) A Walk.snapshot (g, #[]) = .ok o (s.1, log)) ∧
    (o.status ≠ .satisfied → (views s.2).length = c.budget ∧ views s.2 =
      (views (leftBy (solve F (c.withBudget b hb) A Walk.snapshot (g, #[]))).2).take c.budget) := by
  obtain ⟨w, g₁, log₁, status, w', hstart, hdrive, rfl⟩ := solve_eq_ok h
  obtain ⟨hnone, hsteps, hs, hbudget, hw, v, log₂, hstart', halike, hlog⟩ :=
    start_withBudget hb hstart
  obtain ⟨hsat, hexh⟩ := drive_withBudget halike hw hs hlog hdrive
  obtain ⟨n, hends⟩ := drive_ok hdrive
  have hstatus : w'.status = status := hends.status_eq
  refine ⟨fun he => ?_, fun hne => ?_⟩
  · obtain ⟨v', log₃, hdrive', halike', hlog'⟩ := hsat (hstatus.symm.trans he)
    refine ⟨log₃, hlog'.symm, ?_⟩
    simp only [solve, hstart', finish, hdrive', halike'.outcome_eq]
  · have hend : w'.OnBudget := hends.invariant (fun hw hs => hs.onBudget hw) hbudget
    obtain ⟨hexhausted, hlast⟩ := hend.exhausted_of_ne (hstatus ▸ hends.ne_running) hne
    have hlength : (views s.2).length = c.budget := by
      have hcounted := length_views_drive hdrive
      simp only [hnone, hsteps, hlast, List.length_nil] at hcounted
      omega
    refine ⟨hlength, ?_⟩
    have hprefix := hexh (hstatus.symm.trans hexhausted)
    have hleft : (leftBy (solve F (c.withBudget b hb) A Walk.snapshot (g, #[]))).2 =
        (leftBy (drive Walk.snapshot v g₁ log₂)).2 := by
      simp only [solve, hstart', finish]
      cases drive Walk.snapshot v g₁ log₂ <;> rfl
    rw [hleft, ← hlength]
    exact List.prefix_iff_eq_take.1 hprefix

end Run
end

def clashFormula : Formula := Formula.ofClauses 1 [[1], [-1]] [] (by decide) (by decide)

theorem Run.solve_withBudget_pair :
    (∃ (o : Outcome) (s : Script × Log Float Snapshot),
      solve pairFormula coinConfig (some (.ofList [true, false])) Walk.snapshot (⟨[0, 0]⟩, #[]) = .ok o s ∧
      o.status = .satisfied ∧ ∃ log, views log = views s.2 ∧
        solve pairFormula (coinConfig.withBudget 5 (by decide)) (some (.ofList [true, false]))
          Walk.snapshot (⟨[0, 0]⟩, #[]) = .ok o (s.1, log)) ∧
    ∃ (o : Outcome) (s : Script × Log Float Snapshot),
      solve clashFormula coinConfig (some (.ofList [true])) Walk.snapshot
        (⟨[0, -1, 0, 0, 0, -1]⟩, #[]) = .ok o s ∧
      o.status ≠ .satisfied ∧ (views s.2).length = 2 ∧ views s.2 =
        (views (leftBy (solve clashFormula (coinConfig.withBudget 5 (by decide)) (some (.ofList [true]))
          Walk.snapshot ((⟨[0, -1, 0, 0, 0, -1]⟩ : Script), #[]))).2).take 2 := by
  constructor
  · obtain ⟨o, s, h, ho⟩ := exists_ok (p := fun o : Outcome => decide (o.status = .satisfied))
      (r := solve pairFormula coinConfig (some (.ofList [true, false])) Walk.snapshot
        ((⟨[0, 0]⟩, #[]) : Script × Log Float Snapshot)) (by decide +kernel)
    have hsat : o.status = .satisfied := of_decide_eq_true ho
    exact ⟨o, s, h, hsat, (solve_withBudget (by decide) h).1 hsat⟩
  · obtain ⟨o, s, h, ho⟩ := exists_ok (p := fun o : Outcome => decide (o.status ≠ .satisfied))
      (r := solve clashFormula coinConfig (some (.ofList [true])) Walk.snapshot
        ((⟨[0, -1, 0, 0, 0, -1]⟩, #[]) : Script × Log Float Snapshot)) (by decide +kernel)
    have hunsat : o.status ≠ .satisfied := of_decide_eq_true ho
    exact ⟨o, s, h, hunsat, (solve_withBudget (by decide) h).2 hunsat⟩

end SatWalk
