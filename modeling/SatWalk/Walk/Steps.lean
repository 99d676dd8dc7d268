import SatWalk.Walk

namespace SatWalk

theorem bind_ok {σ α β : Type} {x : Attempt σ α} {f : α → Attempt σ β} {s s' : σ} {b : β}
    (h : (x >>= f) s = .ok b s') : ∃ a t, x s = .ok a t ∧ f a t = .ok b s' := by
  simp only [bind, EStateM.bind] at h
  split at h
  · next a t hx => exact ⟨a, t, hx, h⟩
  · cases h

theorem settled_ok {σ α : Type} {x : Except Fault α} {s s' : σ} {a : α}
    (h : settled x s = .ok a s') : x = .ok a ∧ s' = s := by
  cases x with
  | ok b =>
    cases h
    exact ⟨rfl, rfl⟩
  | error e => cases h

theorem onFirst_ok {σ τ α : Type} {act : Attempt σ α} {s s' : σ} {t t' : τ} {a : α}
    (h : onFirst act (s, t) = .ok a (s', t')) : act s = .ok a s' ∧ t' = t := by
  simp only [onFirst] at h
  split at h
  · next b u hu =>
    cases h
    exact ⟨hu, rfl⟩
  · cases h

theorem onSecond_ok {σ τ α : Type} {act : Attempt τ α} {s s' : σ} {t t' : τ} {a : α}
    (h : onSecond act (s, t) = .ok a (s', t')) : act t = .ok a t' ∧ s' = s := by
  simp only [onSecond] at h
  split at h
  · next b u hu =>
    cases h
    exact ⟨hu, rfl⟩
  · cases h

namespace Walk

variable {R : Type} [MachineReal R] {F : Formula} {c : Config R} {G α : Type}
  {w w' : Walk F c} {g g' : G}

theorem onState_ok {act : Attempt (State F × G) α} {a : α}
    (h : onState act (w, g) = .ok a (w', g')) :
    ∃ s, act (w.state, g) = .ok a (s, g') ∧ w' = { w with state := s } := by
  simp only [onState] at h
  split at h
  · next b s g1 hs =>
    cases h
    exact ⟨s, hs, rfl⟩
  · cases h

theorem onTable_ok {act : Attempt (WeightTable R × G) α} {a : α}
    (h : onTable act (w, g) = .ok a (w', g')) :
    ∃ t, act (w.table, g) = .ok a (t, g') ∧ w' = { w with table := t } := by
  simp only [onTable] at h
  split at h
  · next b t g1 ht =>
    cases h
    exact ⟨t, ht, rfl⟩
  · cases h

theorem status_settle {status : Status} (h : settle (w, g) = .ok status (w', g')) :
    status = .satisfied := by
  obtain ⟨s, t, hs, h⟩ := bind_ok h
  cases hs
  simp only at h
  generalize (if c.verify.truth = true then w.state.inconsistencies else []) = wrong at h
  cases wrong with
  | nil =>
    cases h
    rfl
  | cons id ids => cases h

theorem close_running (h : close (w, g) = .ok .running (w', g')) :
    w' = w ∧ w.steps < c.budget := by
  obtain ⟨s, t, hs, h⟩ := bind_ok h
  cases hs
  simp only at h
  split at h
  · next hb =>
    injection h with _ e
    cases e
    exact ⟨rfl, hb⟩
  · split at h
    · cases status_settle h
    · cases h

variable [Source G]

theorem steps_move (h : move (w, g) = .ok () (w', g')) : w'.steps = w.steps + 1 := by
  obtain ⟨s, t, hs, h⟩ := bind_ok h
  cases hs
  obtain ⟨id, ⟨w1, g1⟩, h1, h⟩ := bind_ok h
  obtain ⟨i, ⟨w2, g2⟩, h2, h⟩ := bind_ok h
  obtain ⟨choice, ⟨w3, g3⟩, h3, h⟩ := bind_ok h
  obtain ⟨u, ⟨w4, g4⟩, h4, h⟩ := bind_ok h
  cases h
  obtain ⟨_, rfl⟩ := onSecond_ok h1
  obtain ⟨_, e2⟩ := settled_ok h2
  cases e2
  obtain ⟨t, _, rfl⟩ := onTable_ok h3
  obtain ⟨s, _, rfl⟩ := onState_ok h4
  rfl

theorem step_running (h : step (w, g) = .ok .running (w', g')) :
    w'.steps = w.steps + 1 ∧ w'.steps < c.budget := by
  obtain ⟨s, t, hs, h⟩ := bind_ok h
  cases hs
  simp only at h
  split at h
  · next ht =>
    injection h with e _
    rw [e] at ht
    cases ht
  · split at h
    · cases status_settle h
    · obtain ⟨u, ⟨w1, g1⟩, h1, h⟩ := bind_ok h
      obtain ⟨rfl, hb⟩ := close_running h
      exact ⟨steps_move h1, hb⟩

end Walk

end SatWalk
