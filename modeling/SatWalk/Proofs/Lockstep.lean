import SatWalk.Proofs.WholeRun

/-!
Two searches in lockstep. When single steps of two searches succeed or fail together and keep a
relation between what they leave behind, so do whole runs, and what is seen of them is related.
-/

namespace SatWalk

/-- Both operations succeed, or both fail with the same fault; what they return and what they leave
behind is related. -/
inductive Paired {σ τ α β : Type} (V : α → β → Prop) (S : σ → τ → Prop) :
    EStateM.Result Fault σ α → EStateM.Result Fault τ β → Prop
  | ok {a : α} {b : β} {s : σ} {t : τ} (hv : V a b) (hs : S s t) : Paired V S (.ok a s) (.ok b t)
  | error {e : Fault} {s : σ} {t : τ} (hs : S s t) : Paired V S (.error e s) (.error e t)

def Beside {σ τ υ : Type} (S : σ → τ → Prop) (s : σ × υ) (t : τ × υ) : Prop := S s.1 t.1 ∧ s.2 = t.2

namespace Paired

variable {σ τ α β γ δ : Type} {V : α → β → Prop} {W : γ → δ → Prop} {S T : σ → τ → Prop} {s : σ} {t : τ}

theorem refl (r : EStateM.Result Fault σ α) : Paired Eq Eq r r := by
  cases r with
  | ok a s => exact .ok rfl rfl
  | error e s => exact .error rfl

theorem mono {r : EStateM.Result Fault σ α} {r' : EStateM.Result Fault τ β} (h : Paired V S r r')
    (hS : ∀ s t, S s t → T s t) : Paired V T r r' := by
  cases h with
  | ok hv hs => exact .ok hv (hS _ _ hs)
  | error hs => exact .error (hS _ _ hs)

theorem imp {r : EStateM.Result Fault σ α} {r' : EStateM.Result Fault τ β} {U : α → β → Prop}
    (h : Paired V S r r') (hV : ∀ a b, V a b → U a b) : Paired U S r r' := by
  cases h with
  | ok hv hs => exact .ok (hV _ _ hv) hs
  | error hs => exact .error hs

theorem and_left {P : σ → Prop} {r : EStateM.Result Fault σ α} {r' : EStateM.Result Fault τ β}
    (h : Paired V S r r') (hP : P (leftBy r)) : Paired V (fun s t => P s ∧ S s t) r r' := by
  cases h with
  | ok hv hs => exact .ok hv ⟨hP, hs⟩
  | error hs => exact .error ⟨hP, hs⟩

theorem of_ok {a : α} {r : EStateM.Result Fault τ β} (h : Paired V S (.ok a s) r) :
    ∃ b t, r = .ok b t ∧ V a b ∧ S s t := by
  cases h with
  | ok hv hs => exact ⟨_, _, rfl, hv, hs⟩

theorem of_error {e : Fault} {r : EStateM.Result Fault τ β}
    (h : Paired V S (.error e s : EStateM.Result Fault σ α) r) : ∃ t, r = .error e t ∧ S s t := by
  cases h with
  | error hs => exact ⟨_, rfl, hs⟩

theorem bind_of_imp {x : Attempt σ α} {y : Attempt τ β} {f : α → Attempt σ γ} {k : β → Attempt τ δ}
    (hx : Paired V S (x s) (y t)) (hS : ∀ s t, S s t → T s t)
    (hf : ∀ a b s t, V a b → S s t → Paired W T (f a s) (k b t)) :
    Paired W T ((x >>= f) s) ((y >>= k) t) := by
  simp only [Bind.bind, EStateM.bind]
  generalize x s = r at hx ⊢
  generalize y t = r' at hx ⊢
  cases hx with
  | ok hv hs => exact hf _ _ _ _ hv hs
  | error hs => exact .error (hS _ _ hs)

theorem bind {x : Attempt σ α} {y : Attempt τ β} {f : α → Attempt σ γ} {k : β → Attempt τ δ}
    (hx : Paired V S (x s) (y t))
    (hf : ∀ a b s t, V a b → S s t → Paired W S (f a s) (k b t)) :
    Paired W S ((x >>= f) s) ((y >>= k) t) :=
  hx.bind_of_imp (fun _ _ hs => hs) hf

theorem settled (x : Except Fault α) (h : S s t) :
    Paired (fun a b => a = b ∧ x = .ok a) S (settled x s) (settled x t) := by
  cases x with
  | ok a => exact .ok ⟨rfl, rfl⟩ h
  | error e => exact .error h

theorem onFirst {υ : Type} {act : Attempt σ α} {act' : Attempt τ α}
    (h : Paired Eq S (act s) (act' t)) (u : υ) :
    Paired Eq (Beside S) (onFirst act (s, u)) (onFirst act' (t, u)) := by
  simp only [SatWalk.onFirst]
  generalize act s = r at h ⊢
  generalize act' t = r' at h ⊢
  cases h with
  | ok hv hs => exact .ok hv ⟨hs, rfl⟩
  | error hs => exact .error ⟨hs, rfl⟩

theorem beside {υ : Type} {act : Attempt υ α} {act' : Attempt υ β} {u : υ} (h : S s t)
    (hact : Paired V Eq (act u) (act' u)) :
    Paired V (Beside S) (SatWalk.onSecond act (s, u)) (SatWalk.onSecond act' (t, u)) := by
  simp only [SatWalk.onSecond]
  generalize act u = r at hact ⊢
  generalize act' u = r' at hact ⊢
  cases hact with
  | ok hv hu => exact .ok hv ⟨h, hu⟩
  | error hu => exact .error ⟨h, hu⟩

theorem onSecond {υ : Type} (h : S s t) (act : Attempt υ α) (u : υ) :
    Paired Eq (Beside S) (onSecond act (s, u)) (onSecond act (t, u)) :=
  beside h (refl (act u))

end Paired

section
variable {R : Type} [MachineReal R] {F : Formula} {c c' : Config R} {G : Type} {α : Type}

def Sampler.ChooseAlike (G : Type) [Source G] (T : WeightTable R → WeightTable R → Prop) (s : State F)
    (p q : Sampler) : Prop :=
  ∀ i t u, T t u → ∀ g : G, Paired Eq (Beside T) (p.choose s (F.clauseAt i) (t, g))
    (q.choose s (F.clauseAt i) (u, g))

namespace Walk

structure Alike (T : WeightTable R → WeightTable R → Prop) (w : Walk F c) (v : Walk F c') : Prop where
  state_eq : w.state = v.state
  status_eq : w.status = v.status
  steps_eq : w.steps = v.steps
  statistics_eq : w.statistics = v.statistics
  table : T w.table v.table

variable {T : WeightTable R → WeightTable R → Prop} {w : Walk F c} {v : Walk F c'}

theorem Alike.outcome_eq (h : w.Alike T v) : w.outcome = v.outcome := by
  simp only [outcome, h.state_eq, h.status_eq, h.steps_eq, h.statistics_eq]

theorem onState_paired (h : w.Alike T v) (act : Attempt (State F × G) α) (g : G) :
    Paired Eq (Beside (Alike T)) (onState act (w, g)) (onState act (v, g)) := by
  obtain ⟨hstate, hstatus, hsteps, hstatistics, htable⟩ := h
  simp only [onState, hstate]
  cases act (v.state, g) with
  | ok a s => exact .ok rfl ⟨⟨rfl, hstatus, hsteps, hstatistics, htable⟩, rfl⟩
  | error e s => exact .error ⟨⟨rfl, hstatus, hsteps, hstatistics, htable⟩, rfl⟩

theorem onTable_paired (h : w.Alike T v) {act act' : Attempt (WeightTable R × G) α} {g : G}
    (hact : Paired Eq (Beside T) (act (w.table, g)) (act' (v.table, g))) :
    Paired Eq (Beside (Alike T)) (onTable act (w, g)) (onTable act' (v, g)) := by
  obtain ⟨hstate, hstatus, hsteps, hstatistics, -⟩ := h
  simp only [onTable]
  generalize act (w.table, g) = r at hact ⊢
  generalize act' (v.table, g) = r' at hact ⊢
  cases hact with
  | ok hv hs => exact .ok hv ⟨⟨hstate, hstatus, hsteps, hstatistics, hs.1⟩, hs.2⟩
  | error hs => exact .error ⟨⟨hstate, hstatus, hsteps, hstatistics, hs.1⟩, hs.2⟩

theorem close_paired (h : w.Alike T v) (hbudget : c.budget = c'.budget) (hw : w.state.Exact) (g : G) :
    Paired Eq (Beside (Alike T)) (close (w, g)) (close (v, g)) := by
  have hv : v.state.Exact := h.state_eq ▸ hw
  obtain ⟨hstate, hstatus, hsteps, hstatistics, htable⟩ := h
  rw [close_eq, close_eq, settle_eq, settle_eq, if_pos (checked_of_exact hw),
    if_pos (checked_of_exact hv), hsteps, hbudget, hstate]
  split
  · exact .ok hstatus ⟨⟨hstate, hstatus, hsteps, hstatistics, htable⟩, rfl⟩
  · split
    · exact .ok rfl ⟨⟨rfl, rfl, rfl, hstatistics, htable⟩, rfl⟩
    · exact .ok rfl ⟨⟨rfl, rfl, rfl, hstatistics, htable⟩, rfl⟩

variable [Source G]

theorem move_unpicked {w : Walk F c} {e : Fault} {g g₁ : G}
    (hpick : w.state.unsatisfied.pick g = .error e g₁) : move (w, g) = .error e (w, g₁) := by
  change (onSecond w.state.unsatisfied.pick >>= fun id => _) (w, g) = _
  simp only [bind, EStateM.bind, onSecond, hpick]

theorem move_unlisted {w : Walk F c} {e : Fault} {id : Int} {g g₁ : G}
    (hpick : w.state.unsatisfied.pick g = .ok id g₁) (hid : F.clauseId? id = .error e) :
    move (w, g) = .error e (w, g₁) := by
  change (onSecond w.state.unsatisfied.pick >>= fun id => _) (w, g) = _
  simp only [bind, EStateM.bind, onSecond, hpick, hid, settled]

theorem move_picked {w : Walk F c} {id : Int} {i : Fin F.clauses.size} {g g₁ : G}
    (hpick : w.state.unsatisfied.pick g = .ok id g₁) (hid : F.clauseId? id = .ok i) :
    move (w, g) = (onTable (c.sampler.choose w.state (F.clauseAt i)) >>= fun choice =>
      onState (onFirst (State.flip (choice.vars.map Int.ofNat))) >>= fun _ =>
        modify fun s => (s.1.count choice.vars.length, s.2)) (w, g₁) := by
  change (onSecond w.state.unsatisfied.pick >>= fun id => _) (w, g) = _
  simp only [bind, EStateM.bind, onSecond, hpick, hid, settled]

theorem move_paired_at (h : w.Alike T v) (g : G)
    (hchoose : ∀ id i g₁, w.state.unsatisfied.pick g = .ok id g₁ → F.clauseId? id = .ok i →
      Paired Eq (Beside T) (c.sampler.choose w.state (F.clauseAt i) (w.table, g₁))
        (c'.sampler.choose w.state (F.clauseAt i) (v.table, g₁))) :
    Paired Eq (Beside (Alike T)) (move (w, g)) (move (v, g)) := by
  cases hpick : w.state.unsatisfied.pick g with
  | error e g₁ =>
    rw [move_unpicked hpick, move_unpicked (h.state_eq ▸ hpick)]
    exact .error ⟨h, rfl⟩
  | ok id g₁ =>
    have hpick' : v.state.unsatisfied.pick g = .ok id g₁ := h.state_eq ▸ hpick
    cases hid : F.clauseId? id with
    | error e =>
      rw [move_unlisted hpick hid, move_unlisted hpick' hid]
      exact .error ⟨h, rfl⟩
    | ok i =>
      rw [move_picked hpick hid, move_picked hpick' hid, ← h.state_eq]
      -- Operation by operation, what one search returns the other does, and both stay alike.
      apply (onTable_paired h (hchoose id i g₁ hpick hid)).bind
      rintro choice - ⟨w₁, g₁⟩ ⟨v₁, -⟩ rfl ⟨h₁, rfl⟩
      apply (onState_paired h₁ _ _).bind
      rintro - - ⟨w₂, g₂⟩ ⟨v₂, -⟩ - ⟨⟨hstate, hstatus, hsteps, hstatistics, htable⟩, rfl⟩
      refine .ok rfl ⟨⟨hstate, hstatus, congrArg (· + 1) hsteps, ?_, htable⟩, rfl⟩
      simp only at hstate hstatistics
      simp only [count, hstate, hstatistics]

theorem move_paired (h : w.Alike T v) (g : G)
    (hchoose : Sampler.ChooseAlike G T w.state c.sampler c'.sampler) :
    Paired Eq (Beside (Alike T)) (move (w, g)) (move (v, g)) :=
  move_paired_at h g fun _ i g₁ _ _ => hchoose i _ _ h.table g₁

theorem exact_leftBy_move (hw : w.state.Exact) {g : G} : (leftBy (move (w, g))).1.state.Exact := by
  obtain ⟨u, hr⟩ | ⟨e, hr⟩ := leftBy_cases (Eq.refl (leftBy (move (w, g))))
  · exact exact_move hw hr
  · obtain ⟨-, t, ht⟩ := move_error hr
    have hleft : (leftBy (move (w, g))).1 = { w with table := t } := ht
    rw [hleft]
    exact hw

theorem step_paired_of_move (h : w.Alike T v) (hbudget : c.budget = c'.budget) (hw : w.state.Exact) (g : G)
    (hmove : ¬ w.status.isTerminal → ¬ w.state.unsatisfied.isEmpty →
      Paired Eq (Beside (Alike T)) (move (w, g)) (move (v, g))) :
    Paired Eq (Beside (Alike T)) (step (w, g)) (step (v, g)) := by
  have hv : v.state.Exact := h.state_eq ▸ hw
  rw [step_eq, step_eq, settle_eq, settle_eq, if_pos (checked_of_exact hw),
    if_pos (checked_of_exact hv), ← h.state_eq, ← h.status_eq]
  split
  · exact .ok rfl ⟨h, rfl⟩
  · next hs =>
    split
    · exact .ok rfl ⟨⟨rfl, rfl, h.steps_eq, h.statistics_eq, h.table⟩, rfl⟩
    · next hu =>
      have hexact : (leftBy (move (w, g))).1.state.Exact := exact_leftBy_move hw
      apply ((hmove hs hu).and_left (P := fun s => s.1.state.Exact) hexact).bind_of_imp
      · rintro s t ⟨-, hs⟩
        exact hs
      · rintro - - ⟨w₁, g₁⟩ ⟨v₁, -⟩ - ⟨hw₁, h₁, rfl⟩
        exact close_paired h₁ hbudget hw₁ g₁

theorem step_paired (h : w.Alike T v) (hbudget : c.budget = c'.budget) (hw : w.state.Exact) (g : G)
    (hchoose : Sampler.ChooseAlike G T w.state c.sampler c'.sampler) :
    Paired Eq (Beside (Alike T)) (step (w, g)) (step (v, g)) :=
  step_paired_of_move h hbudget hw g fun _ _ => move_paired h g hchoose

theorem start_paired {g : G}
    (htable : Paired T Eq (settled (startTable F c) g) (settled (startTable F c') g))
    (A : Option Assignment) : Paired (fun w v => (w : Walk F c) = fresh w.state w.table ∧ w.state.Exact ∧
      w.Alike T (v : Walk F c')) Eq (start F c A g) (start F c' A g) := by
  rw [start_eq, start_eq]
  apply htable.bind
  rintro t u g₁ - ht rfl
  apply (Paired.refl (initial F.numVars A g₁)).bind
  rintro B - g₂ - rfl rfl
  apply (Paired.settled (State.of F B) (Eq.refl g₂)).bind
  rintro s _ g₃ _ ⟨rfl, hof⟩ rfl
  exact .ok ⟨rfl, State.exact_of hof, ⟨rfl, rfl, rfl, rfl, ht⟩⟩ rfl

theorem start_alike (htable : startTable F c = startTable F c') (A : Option Assignment) (g : G) :
    Paired (fun w v => (w : Walk F c) = fresh w.state w.table ∧ w.state.Exact ∧
      w.Alike Eq (v : Walk F c')) Eq (start F c A g) (start F c' A g) :=
  start_paired (htable ▸ Paired.refl _) A

end Walk

variable [Source G] {F' : Formula}

/-- A relation between searches that steps from one and the same source keep. -/
structure Lockstep (G : Type) [Source G] (ρ : Walk F c → Walk F' c' → Prop) : Prop where
  steps_eq : ∀ {w v}, ρ w v → w.steps = v.steps
  step : ∀ {w v}, ρ w v → ∀ g : G, Paired Eq (Beside ρ) (Walk.step (w, g)) (Walk.step (v, g))

theorem Walk.lockstep_alike {T : WeightTable R → WeightTable R → Prop} (hbudget : c.budget = c'.budget)
    (hchoose : ∀ s : State F, s.Exact → Sampler.ChooseAlike G T s c.sampler c'.sampler) :
    Lockstep G (fun (w : Walk F c) (v : Walk F c') => w.state.Exact ∧ w.Alike T v) where
  steps_eq h := h.2.steps_eq
  step := by
    rintro w v ⟨hw, h⟩ g
    have hexact : (leftBy (step (w, g))).1.state.Exact := exact_after .step hw rfl
    have hstep := step_paired h hbudget hw g (hchoose w.state hw)
    apply (hstep.and_left (P := fun s => s.1.state.Exact) hexact).mono
    rintro s t ⟨hs, h, hg⟩
    exact ⟨⟨hs, h⟩, hg⟩

namespace Run

def views (log : Log R α) : List α := log.toList.filterMap Notice.view?

theorem views_append (log log' : Log R α) : views (log ++ log') = views log ++ views log' := by
  rw [views, Array.toList_append, List.filterMap_append]
  rfl

theorem views_events (es : List (Event R)) : views (es.map (Notice.event (α := α))).toArray = [] := by
  simp [views, List.filterMap_map, Function.comp_def, Notice.view?]

theorem views_push_event (log : Log R α) (e : Event R) : views (log.push (.event e)) = views log := by
  rw [Array.push_eq_append, views_append]
  exact List.append_nil _

theorem views_notices (view : Walk F c → α) (w : Walk F c) : views (notices view w) = [view w] := by
  unfold notices
  split <;> rfl

def noted (view : Walk F c → α) (w w' : Walk F c) (log : Log R α) : Log R α :=
  if w'.steps = w.steps then log else log ++ notices view w'

theorem views_noted (view : Walk F c → α) (w w' : Walk F c) (log : Log R α) :
    views (noted view w w' log) = views log ++ if w'.steps = w.steps then [] else [view w'] := by
  unfold noted
  split
  · rw [List.append_nil]
  · rw [views_append, views_notices]

section
variable {view : Walk F c → α} {w w' : Walk F c} {g g' : G} (log : Log R α)

theorem drive_error {e : Fault} {s : Walk F c × G} (h : Walk.step (w, g) = .error e s) :
    drive view w g log = .error e (s, log ++ ((Event.ofFault e).map Notice.event).toArray) := by
  rw [drive]
  split
  · next e' s' h' =>
    cases h'.symm.trans h
    rfl
  · next h' => cases h'.symm.trans h

theorem drive_running (h : Walk.step (w, g) = .ok .running (w', g')) :
    drive view w g log = drive view w' g' (noted view w w' log) := by
  rw [drive]
  split
  · next h' => cases h'.symm.trans h
  · next h' =>
    cases h'.symm.trans h
    rw [dif_pos rfl]
    rfl

theorem drive_ended {status : Status} (h : Walk.step (w, g) = .ok status (w', g'))
    (hs : status ≠ .running) : drive view w g log =
      .ok status ((w', g'), (noted view w w' log).push (.event (ending status w'))) := by
  rw [drive]
  split
  · next h' => cases h'.symm.trans h
  · next h' =>
    cases h'.symm.trans h
    rw [dif_neg hs]
    rfl

end

section
variable {ρ : Walk F c → Walk F' c' → Prop} {view : Walk F c → α} {view' : Walk F' c' → α}
  {V : α → α → Prop}

def Abreast (V : α → α → Prop) (ρ : Walk F c → Walk F' c' → Prop) (s : (Walk F c × G) × Log R α)
    (t : (Walk F' c' × G) × Log R α) : Prop :=
  Beside ρ s.1 t.1 ∧ List.Forall₂ V (views s.2) (views t.2)

theorem drive_paired (hρ : Lockstep G ρ) (hview : ∀ {w v}, ρ w v → V (view w) (view' v)) {w : Walk F c}
    {v : Walk F' c'} (h : ρ w v) (g : G) {log log' : Log R α}
    (hlog : List.Forall₂ V (views log) (views log')) :
    Paired Eq (Abreast V ρ) (drive view w g log) (drive view' v g log') := by
  -- Whether a step is counted is the same on both sides, and what is seen of it is related.
  have hnoted : ∀ {w w₁ : Walk F c} {v v₁ : Walk F' c'} {log log' : Log R α}, ρ w v → ρ w₁ v₁ →
      List.Forall₂ V (views log) (views log') →
      List.Forall₂ V (views (noted view w w₁ log)) (views (noted view' v v₁ log')) := by
    intro w w₁ v v₁ log log' h h₁ hlog
    rw [views_noted, views_noted, hρ.steps_eq h, hρ.steps_eq h₁]
    apply List.rel_append hlog
    split
    · exact .nil
    · exact .cons (hview h₁) .nil
  revert v log'
  fun_induction drive view w g log with
  | case1 w g log e s hstep =>
    intro v h log' hlog
    obtain ⟨t, hstep', ht⟩ := (hstep ▸ hρ.step h g).of_error
    rw [drive_error _ hstep']
    refine .error ⟨ht, ?_⟩
    rwa [views_append, views_append, views_events, List.append_nil, List.append_nil]
  | case2 w g log w₁ g₁ log₁ hstep =>
    rename_i ih
    intro v h log' hlog
    obtain ⟨-, ⟨v₁, -⟩, hstep', rfl, h₁, rfl⟩ := (hstep ▸ hρ.step h g).of_ok
    rw [drive_running _ hstep']
    exact ih h₁ (hnoted h h₁ hlog)
  | case3 w g log status w₁ g₁ hstep log₁ =>
    rename_i hs
    intro v h log' hlog
    obtain ⟨_, ⟨v₁, -⟩, hstep', rfl, h₁, rfl⟩ := (hstep ▸ hρ.step h g).of_ok
    rw [drive_ended _ hstep' hs]
    refine .ok rfl ⟨⟨h₁, rfl⟩, ?_⟩
    rw [views_push_event, views_push_event]
    exact hnoted h h₁ hlog

theorem start_paired {L : List α → List α → Prop} {A A' : Option Assignment} {g : G}
    (h : Paired ρ Eq (Walk.start F c A g) (Walk.start F' c' A' g)) {log log' : Log R α}
    (hlog : L (views log) (views log')) : Paired ρ (fun s t => s.1 = t.1 ∧ L (views s.2) (views t.2))
      (start F c A (g, log)) (start F' c' A' (g, log')) := by
  simp only [start, logged]
  generalize Walk.start F c A g = r at h ⊢
  generalize Walk.start F' c' A' g = r' at h ⊢
  cases h with
  | ok h hg =>
    refine .ok h ⟨hg, ?_⟩
    rwa [views_append, views_append, views_events, views_events, List.append_nil, List.append_nil]
  | error hg =>
    refine .error ⟨hg, ?_⟩
    rwa [views_append, views_append, views_events, List.append_nil, List.append_nil]

theorem solve_related (hρ : Lockstep G ρ) (hview : ∀ {w v}, ρ w v → V (view w) (view' v))
    {O : Outcome → Outcome → Prop} (hO : ∀ {w v}, ρ w v → O w.outcome v.outcome)
    {A A' : Option Assignment} {g : G} (hstart : Paired ρ Eq (Walk.start F c A g) (Walk.start F' c' A' g))
    {log log' : Log R α} (hlog : List.Forall₂ V (views log) (views log')) :
    Paired O (fun s t => s.1 = t.1 ∧ List.Forall₂ V (views s.2) (views t.2))
      (solve F c A view (g, log)) (solve F' c' A' view' (g, log')) := by
  have hstarted := start_paired hstart hlog
  simp only [solve]
  generalize start F c A (g, log) = r at hstarted ⊢
  cases r with
  | error e s =>
    obtain ⟨t, ht, hs⟩ := hstarted.of_error
    rw [ht]
    exact .error hs
  | ok w s =>
    obtain ⟨g₁, log₁⟩ := s
    obtain ⟨v, ⟨-, log₂⟩, ht, h, rfl, hlog₁⟩ := hstarted.of_ok
    have hdrive := drive_paired hρ hview h g₁ hlog₁
    simp only [ht, finish]
    generalize drive view w g₁ log₁ = r at hdrive ⊢
    generalize drive view' v g₁ log₂ = r' at hdrive ⊢
    cases hdrive with
    | ok _ hs => exact .ok (hO hs.1.1) ⟨hs.1.2, hs.2⟩
    | error hs => exact .error ⟨hs.1.2, hs.2⟩

theorem solve_paired (hρ : Lockstep G ρ) (hview : ∀ {w v}, ρ w v → view w = view' v)
    {O : Outcome → Outcome → Prop} (hO : ∀ {w v}, ρ w v → O w.outcome v.outcome)
    {A A' : Option Assignment} {g : G} (hstart : Paired ρ Eq (Walk.start F c A g) (Walk.start F' c' A' g))
    {log log' : Log R α} (hlog : views log = views log') :
    Paired O (fun s t => s.1 = t.1 ∧ views s.2 = views t.2)
      (solve F c A view (g, log)) (solve F' c' A' view' (g, log')) := by
  have hlogs : List.Forall₂ Eq (views log) (views log') := by
    rw [List.forall₂_eq_eq_eq]
    exact hlog
  apply (solve_related hρ hview hO hstart hlogs).mono
  rintro s t ⟨hg, hviews⟩
  rw [List.forall₂_eq_eq_eq] at hviews
  exact ⟨hg, hviews⟩

end

def observed : EStateM.Result Fault (G × Log R α) Outcome → EStateM.Result Fault (G × List α) Outcome
  | .ok o (g, log) => .ok o (g, views log)
  | .error e (g, log) => .error e (g, views log)

omit [Source G] in
theorem observed_eq {r r' : EStateM.Result Fault (G × Log R α) Outcome}
    (h : Paired Eq (fun s t => s.1 = t.1 ∧ views s.2 = views t.2) r r') : observed r = observed r' := by
  cases h with
  | ok hv hs => exact congrArg₂ EStateM.Result.ok hv (Prod.ext hs.1 hs.2)
  | error hs => exact congrArg (EStateM.Result.error _) (Prod.ext hs.1 hs.2)

end Run

end

end SatWalk
