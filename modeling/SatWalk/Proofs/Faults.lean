import SatWalk.Proofs.Legality

namespace SatWalk

section
variable {σ τ α β : Type}

theorem bind_error {x : Attempt σ α} {f : α → Attempt σ β} {s s' : σ} {e : Fault}
    (h : (x >>= f) s = .error e s') :
    x s = .error e s' ∨ ∃ a t, x s = .ok a t ∧ f a t = .error e s' := by
  simp only [bind, EStateM.bind] at h
  split at h
  · next a t hx => exact .inr ⟨a, t, hx, h⟩
  · next e' t hx =>
    cases h
    exact .inl hx

theorem settled_error {x : Except Fault α} {s s' : σ} {e : Fault}
    (h : (settled x : Attempt σ α) s = .error e s') : x = .error e ∧ s' = s := by
  cases x with
  | ok a => cases h
  | error e' =>
    cases h
    exact ⟨rfl, rfl⟩

theorem onFirst_error {act : Attempt σ α} {s s' : σ} {t t' : τ} {e : Fault}
    (h : onFirst act (s, t) = .error e (s', t')) : act s = .error e s' ∧ t' = t := by
  simp only [onFirst] at h
  split at h
  · cases h
  · next e' u hu =>
    cases h
    exact ⟨hu, rfl⟩

theorem onSecond_error {act : Attempt τ α} {s s' : σ} {t t' : τ} {e : Fault}
    (h : onSecond act (s, t) = .error e (s', t')) : act t = .error e t' ∧ s' = s := by
  simp only [onSecond] at h
  split at h
  · cases h
  · next e' u hu =>
    cases h
    exact ⟨hu, rfl⟩

def Fault.Plain : Fault → Prop
  | .inconsistent _ => False
  | _ => True

def Unsuspecting (act : Attempt σ α) : Prop := ∀ s e s', act s = .error e s' → e.Plain

namespace Unsuspecting

theorem pure (a : α) : Unsuspecting (pure a : Attempt σ α) := by
  intro s e s' h
  cases h

theorem fail {e : Fault} (he : e.Plain) : Unsuspecting (throw e : Attempt σ α) := by
  intro s e' s' h
  cases h
  exact he

theorem bind {x : Attempt σ α} {f : α → Attempt σ β} (hx : Unsuspecting x)
    (hf : ∀ a, Unsuspecting (f a)) : Unsuspecting (x >>= f) := by
  intro s e s' h
  obtain h | ⟨a, t, -, h⟩ := bind_error h
  · exact hx s e s' h
  · exact hf a t e s' h

theorem settled {x : Except Fault α} (hx : ∀ e, x = .error e → e.Plain) :
    Unsuspecting (settled x : Attempt σ α) := by
  intro s e s' h
  exact hx e (settled_error h).1

theorem onFirst {act : Attempt σ α} (hact : Unsuspecting act) :
    Unsuspecting (onFirst act : Attempt (σ × τ) α) := by
  rintro ⟨s, t⟩ e ⟨s', t'⟩ h
  exact hact s e s' (onFirst_error h).1

theorem onSecond {act : Attempt τ α} (hact : Unsuspecting act) :
    Unsuspecting (onSecond act : Attempt (σ × τ) α) := by
  rintro ⟨s, t⟩ e ⟨s', t'⟩ h
  exact hact t e t' (onSecond_error h).1

end Unsuspecting
end

section
variable {G : Type} [Source G]

theorem unsuspecting_drawFraction : Unsuspecting (drawFraction : Attempt G _) := by
  intro g e g' h
  simp only [drawFraction] at h
  split at h
  · cases h
  · cases h
    trivial

theorem unsuspecting_drawBelow (n : Nat) : Unsuspecting (drawBelow n : Attempt G _) := by
  intro g e g' h
  simp only [drawBelow] at h
  split at h
  · cases h
    trivial
  · split at h
    · cases h
    · cases h
      trivial

theorem unsuspecting_drawCoins (n : Nat) : Unsuspecting (drawCoins n : Attempt G _) := by
  induction n with
  | zero => exact .pure []
  | succ n ih =>
    apply Unsuspecting.bind
    · exact .bind unsuspecting_drawFraction fun k => .pure _
    · exact fun b => .bind ih fun bs => .pure _

theorem PickSet.unsuspecting_pick (s : PickSet) : Unsuspecting (s.pick : Attempt G Int) := by
  unfold PickSet.pick
  split
  · exact .fail trivial
  · exact .bind (unsuspecting_drawBelow _) fun i => .pure _

theorem Repair.unsuspecting_values (vars : List Var) (c : Clause) :
    Unsuspecting (values vars c : Attempt G _) := by
  intro g e g' h
  fun_induction values vars c g with
  | case1 g hv =>
    cases h
    trivial
  | case2 g hv e1 g1 hc =>
    cases h
    exact unsuspecting_drawCoins _ g _ _ hc
  | case3 g hv coins g1 hc hacc => cases h
  | case4 g hv coins g1 hc hacc ih => exact ih h

end

section
variable {R : Type} [MachineReal R]

theorem WeightTable.unsuspecting_extend (n : Nat) :
    Unsuspecting (extend n : Attempt (WeightTable R) Unit) := by
  induction n with
  | zero => exact .pure ()
  | succ n ih =>
    intro t e t' h
    simp only [extend] at h
    split at h
    · exact ih _ e t' h
    · cases h
      trivial

theorem WeightTable.unsuspecting_lookup (b : Int) :
    Unsuspecting (lookup b : Attempt (WeightTable R) R) := by
  have hget : Unsuspecting (get : Attempt (WeightTable R) (WeightTable R)) := by
    intro t e t' h
    cases h
  have hentry : ∀ t : WeightTable R, Unsuspecting (settled (t.entry? b) : Attempt (WeightTable R) R) := by
    intro t
    apply Unsuspecting.settled
    intro e h
    unfold entry? at h
    split at h
    · cases h
    · cases h
      trivial
  apply Unsuspecting.bind hget
  intro t
  split
  · exact .bind (fun t => unsuspecting_extend _ t) fun _ => .bind hget hentry
  · exact .bind hget hentry

theorem Sampler.unsuspecting_weights (bs : List Int) :
    Unsuspecting (weights bs : Attempt (WeightTable R) (List R)) := by
  induction bs with
  | nil => exact .pure []
  | cons b bs ih => exact .bind (WeightTable.unsuspecting_lookup b) fun x => .bind ih fun xs => .pure _

variable {G : Type} [Source G]

theorem Draw.unsuspecting_uniform (start : Int) (slice ws : List (Scalar R)) :
    Unsuspecting (uniform start slice ws : Attempt G Int) := by
  unfold uniform
  split
  · exact .fail trivial
  · exact .bind (unsuspecting_drawBelow _) fun i => .pure _

theorem Draw.reals?_error {ws : List (Scalar R)} {e : Fault} (h : reals? ws = .error e) :
    e = .tooLarge := by
  induction ws with
  | nil => cases h
  | cons w ws ih =>
    simp only [reals?] at h
    split at h
    · cases h
      rfl
    · cases hr : reals? ws with
      | error e' =>
        rw [hr] at h
        cases h
        exact ih hr
      | ok xs =>
        rw [hr] at h
        cases h

theorem Draw.unsuspecting_among (start last : Int) (slice ws : List (Scalar R)) :
    Unsuspecting (among start last slice ws : Attempt G Int) := by
  apply Unsuspecting.bind
  · apply Unsuspecting.settled
    intro e h
    rw [reals?_error h]
    trivial
  · intro xs
    split
    · exact .bind unsuspecting_drawFraction fun k => .pure _
    · exact unsuspecting_uniform _ _ _

theorem Draw.unsuspecting_index (weights : List (Scalar R)) (start : Int) :
    Unsuspecting (index weights start : Attempt G Int) := by
  unfold index
  split
  · exact unsuspecting_among _ _ _ _
  · split
    · exact .fail trivial
    · exact unsuspecting_among _ _ _ _

end

namespace BreakCount

theorem addAt_error {n : Int} {counts : Array Int} {ts : List Int} {e : Fault}
    (h : addAt n counts ts = .error e) : e = .noSuchPosition := by
  induction ts generalizing counts with
  | nil => cases h
  | cons t ts ih =>
    simp only [addAt] at h
    split at h
    · cases h
      rfl
    · exact ih h

theorem singles_error {w : Nat} {ps : Profiles} {e : Fault} (h : singles w ps = .error e) :
    e = .noSuchPosition := by
  unfold singles at h
  generalize Array.replicate w (0 : Int) = counts at h
  induction ps generalizing counts with
  | nil => cases h
  | cons f ps ih =>
    obtain ⟨p, n⟩ := f
    cases hadd : addAt n counts (p.lonePlace?.toList.map Int.ofNat) with
    | error e' =>
      simp only [sum, bind, Except.bind, hadd] at h
      cases h
      exact addAt_error hadd
    | ok counts' =>
      simp only [sum, bind, Except.bind, hadd] at h
      exact ih counts' h

end BreakCount

theorem Sampler.unsuspecting_choose {R : Type} [MachineReal R] {G : Type} [Source G] {F : Formula}
    (p : Sampler) (s : State F) (c : Clause) :
    Unsuspecting (p.choose s c : Attempt (WeightTable R × G) (FlipChoice Var)) := by
  cases hp : p.strategy with
  | uniformRepair =>
    simp only [choose, hp]
    apply Unsuspecting.onSecond
    exact .bind (Repair.unsuspecting_values _ _) fun drawn => .pure _
  | breakWeighted =>
    simp only [choose, hp]
    apply Unsuspecting.bind
    · apply Unsuspecting.settled
      intro e h
      rw [State.combinationBreaks_eq] at h
      split at h
      · cases h
        trivial
      · cases h
    · exact fun counts => .bind (.onFirst (unsuspecting_weights _)) fun ws =>
        .bind (.onSecond (Draw.unsuspecting_index _ _)) fun i => .pure _
  | singleFlip =>
    simp only [choose, hp]
    apply Unsuspecting.bind
    · apply Unsuspecting.settled
      intro e h
      rw [BreakCount.singles_error h]
      trivial
    · exact fun counts => .bind (.onFirst (unsuspecting_weights _)) fun ws =>
        .bind (.onSecond (Draw.unsuspecting_index _ _)) fun i => .pure _

end SatWalk
