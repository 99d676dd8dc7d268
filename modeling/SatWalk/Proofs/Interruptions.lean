import SatWalk.Proofs.Lookups
import SatWalk.Proofs.Restarts

/-!
Operations that fail. What they leave is the search as it was, but for the source and for weights that
the table has gained. These show in a later operation exactly when it stops at a weight that cannot be
computed with the one table and not with the other.
-/

namespace SatWalk

section
variable {R : Type} [MachineReal R] {F : Formula} {c : Config R} {G : Type} [Source G] {α : Type}

open WeightTable

namespace Walk

variable {w v : Walk F c}

/-- The counts whose weights a step looks up: those of the clause it picks. -/
inductive Asks (w : Walk F c) (g : G) : List Int → Prop
  | picked {id : Int} {i : Fin F.clauses.size} {g₁ : G} {bs : List Int}
    (hs : w.status.isTerminal = false) (hu : w.state.unsatisfied.isEmpty = false)
    (hpick : w.state.unsatisfied.pick g = .ok id g₁) (hid : F.clauseId? id = .ok i)
    (hbs : c.sampler.asked w.state (F.clauseAt i) = .ok bs) : Asks w g bs

def Lacking (w : Walk F c) (g : G) : Prop :=
  ∃ bs, w.Asks g bs ∧ Stops c.weighting w.table.size bs

theorem Asks.unique {g : G} {bs bs' : List Int} (h : w.Asks g bs) (h' : w.Asks g bs') : bs = bs' := by
  obtain ⟨-, -, hpick, hid, hbs⟩ := h
  obtain ⟨-, -, hpick', hid', hbs'⟩ := h'
  cases hpick.symm.trans hpick'
  cases hid.symm.trans hid'
  exact Except.ok.inj (hbs.symm.trans hbs')

theorem Asks.lacking_iff {g : G} {bs : List Int} (h : w.Asks g bs) :
    w.Lacking g ↔ Stops c.weighting w.table.size bs := by
  constructor
  · rintro ⟨bs', h', hstops⟩
    exact h.unique h' ▸ hstops
  · intro hstops
    exact ⟨bs, h, hstops⟩

theorem Alike.asks {T : WeightTable R → WeightTable R → Prop} (h : w.Alike T v) {g : G} {bs : List Int}
    (hw : w.Asks g bs) : v.Asks g bs := by
  obtain ⟨hs, hu, hpick, hid, hbs⟩ := hw
  rw [h.status_eq] at hs
  rw [h.state_eq] at hu hpick hbs
  exact .picked hs hu hpick hid hbs

theorem Alike.swap (h : w.Alike c.Holding v) : v.Alike c.Holding w :=
  ⟨h.state_eq.symm, h.status_eq.symm, h.steps_eq.symm, h.statistics_eq.symm, h.table.2, h.table.1⟩

theorem not_lacking_of_weighs (hc : c.Weighs F) (hw : w.table.Holds c.weighting) (g : G) :
    ¬ w.Lacking g := by
  rintro ⟨bs, ⟨-, -, -, -, hbs⟩, hstops⟩
  exact hc.not_stops hbs hw hstops

theorem Lacking.step_eq {g : G} (h : w.Lacking g) (hw : w.table.Holds c.weighting) :
    ∃ t g₁, step (w, g) = .error .tooLarge ({ w with table := t }, g₁) ∧
      Grown c.weighting w.table t ∧ c.weighting.weight? t.size = none := by
  obtain ⟨bs, @⟨id, i, g₁, _, hs, hu, hpick, hid, hbs⟩, hstops⟩ := h
  obtain ⟨t, hchoose, hgrown, hnone⟩ := Sampler.choose_stops hw hbs hstops g₁
  have hmove : move (w, g) = .error .tooLarge ({ w with table := t }, g₁) := by
    rw [move_picked hpick hid]
    simp only [bind, EStateM.bind, onTable, hchoose]
  refine ⟨t, g₁, ?_, hgrown, hnone⟩
  rw [Walk.step_eq, if_neg (by simp [hs]), if_neg (by simp [hu])]
  simp only [bind, EStateM.bind, hmove]

theorem Asks.step_error {g : G} {bs : List Int} (h : w.Asks g bs) (hw : w.table.Holds c.weighting)
    (hexact : w.state.Exact) (hlack : ¬ w.Lacking g) {e : Fault} {s : Walk F c × G}
    (he : step (w, g) = .error e s) : e ≠ .tooLarge := by
  rw [h.lacking_iff] at hlack
  obtain @⟨id, i, g₁, _, -, -, hpick, hid, hbs⟩ := h
  obtain ⟨w', g'⟩ := s
  have hmove := (Walk.step_error he).stuck_of_exact hexact
  rw [move_picked hpick hid] at hmove
  obtain hchoose | ⟨choice, ⟨w₁, g₂⟩, hchoose, hrest⟩ := bind_error hmove
  · obtain ⟨t, ht, -⟩ := onTable_error hchoose
    have hne : F.clauseAt i ≠ [] := F.ne_nil _ (Formula.mem_clauses (Formula.getElem?_clauseAt i))
    exact Sampler.choose_passes hw hne hbs hlack ht
  · obtain ⟨t, ht, rfl⟩ := onTable_ok hchoose
    obtain ⟨s, hflip⟩ := flip_choose ht
    simp only [bind, EStateM.bind, onState, onFirst, hflip] at hrest
    cases hrest

theorem step_holding (h : w.Alike c.Holding v) (hw : w.state.Exact) {g : G}
    (hlack : w.Lacking g ↔ v.Lacking g) :
    Paired Eq (Beside (Alike c.Holding)) (step (w, g)) (step (v, g)) := by
  apply step_paired_of_move h rfl hw g
  intro hs hu
  apply move_paired_at h g
  intro id i g₁ hpick hid
  apply Config.choose_holding h.table
  intro bs hbs
  have hasks : w.Asks g bs := .picked (Bool.not_eq_true _ ▸ hs) (Bool.not_eq_true _ ▸ hu) hpick hid hbs
  rw [← hasks.lacking_iff, ← (h.asks hasks).lacking_iff, hlack]

theorem restart_paired {T : WeightTable R → WeightTable R → Prop} (h : w.Alike T v)
    (A : Option Assignment) (g : G) :
    Paired Eq (Beside (Alike T)) (restart A (w, g)) (restart A (v, g)) := by
  apply (onState_paired h (State.replace A) g).bind
  rintro - - ⟨w₁, g₁⟩ ⟨v₁, -⟩ - ⟨h₁, rfl⟩
  have hstatistics : Statistics.fresh w₁.state.unsatisfied.size =
      Statistics.fresh v₁.state.unsatisfied.size :=
    congrArg (fun s => Statistics.fresh s.unsatisfied.size) h₁.state_eq
  exact .ok rfl ⟨⟨h₁.state_eq, rfl, rfl, hstatistics, h₁.table⟩, rfl⟩

theorem grown_move (h : w.table.Holds c.weighting) (g : G) :
    Grown c.weighting w.table (leftBy (move (w, g))).1.table := by
  cases hpick : w.state.unsatisfied.pick g with
  | error e g₁ =>
    rw [move_unpicked hpick]
    exact .refl h
  | ok id g₁ =>
    cases hid : F.clauseId? id with
    | error e =>
      rw [move_unlisted hpick hid]
      exact .refl h
    | ok i =>
      have hgrown := Sampler.grown_choose (p := c.sampler) (s := w.state) (d := F.clauseAt i) h g₁
      rw [move_picked hpick hid]
      simp only [bind, EStateM.bind, onTable]
      generalize c.sampler.choose w.state (F.clauseAt i) (w.table, g₁) = r at hgrown ⊢
      cases r with
      | error e t => exact hgrown
      | ok choice t =>
        simp only [onState]
        cases onFirst (State.flip (choice.vars.map Int.ofNat)) (w.state, t.2) <;> exact hgrown

omit [Source G] in
theorem table_settle (g : G) : (leftBy (settle (w, g))).1.table = w.table := by
  rw [settle_eq]
  split <;> rfl

omit [Source G] in
theorem table_close (g : G) : (leftBy (close (w, g))).1.table = w.table := by
  rw [close_eq]
  split
  · rfl
  · split
    · exact table_settle g
    · rfl

theorem grown_step (h : w.table.Holds c.weighting) (g : G) :
    Grown c.weighting w.table (leftBy (step (w, g))).1.table := by
  rw [step_eq]
  split
  · exact .refl h
  · split
    · rw [table_settle]
      exact .refl h
    · have hgrown := grown_move h g
      simp only [bind, EStateM.bind]
      generalize move (w, g) = r at hgrown ⊢
      cases r with
      | error e s => exact hgrown
      | ok a s =>
        have hclose := table_close (w := s.1) s.2
        exact hclose ▸ hgrown

theorem table_restart (A : Option Assignment) (g : G) :
    (leftBy (restart A (w, g))).1.table = w.table := by
  generalize hr : restart A (w, g) = r
  cases r with
  | ok a s =>
    obtain ⟨B, t, -, -, hw⟩ := restart_ok hr
    change s.1.table = w.table
    rw [hw]
    rfl
  | error e s =>
    change s.1.table = w.table
    rw [restart_error hr]

theorem grown_after (op : Operation) (h : w.table.Holds c.weighting) (g : G) :
    Grown c.weighting w.table (op.after (w, g)).1.table := by
  cases op with
  | step => exact grown_step h g
  | restart A =>
    rw [Operation.after, table_restart]
    exact .refl h

omit [Source G] in
theorem holds_startTable {t : WeightTable R} (h : startTable F c = .ok t) : t.Holds c.weighting := by
  unfold startTable at h
  split at h
  · cases h
    exact .empty c.weighting
  · exact holds_create h

end Walk

theorem Reached.holds {s : Walk F c × G} (h : Reached s) : s.1.table.Holds c.weighting := by
  induction h with
  | start h =>
    obtain ⟨t, B, s, htable, -, -, rfl⟩ := Walk.start_ok h
    exact Walk.holds_startTable htable
  | after op h ih => exact (Walk.grown_after op ih _).holds

def returned {σ : Type} : EStateM.Result Fault σ α → Except Fault α
  | .ok a _ => .ok a
  | .error e _ => .error e

namespace Operation

def attempt : Operation → Attempt (Walk F c × G) (Option Status)
  | .step => Walk.step >>= fun status => pure (some status)
  | .restart A => Walk.restart A >>= fun _ => pure none

theorem leftBy_attempt (op : Operation) (s : Walk F c × G) : leftBy (op.attempt s) = op.after s := by
  cases op with
  | step =>
    simp only [attempt, after, bind, EStateM.bind]
    cases Walk.step s <;> rfl
  | restart A =>
    simp only [attempt, after, bind, EStateM.bind]
    cases Walk.restart A s <;> rfl

/-- What is seen of operations that are done one after the other, whether they fail or not: what each
returns, and what it leaves but for the table. -/
def shown : List Operation → Walk F c × G →
    List (Except Fault (Option Status) × (Snapshot × Status × Statistics) × G)
  | [], _ => []
  | op :: ops, s =>
    (returned (op.attempt s), (op.after s).1.seen, (op.after s).2) :: shown ops (op.after s)

/-- At every step of the operations, done from the one search and from the other, a weight is lacking
in both or in neither. -/
def LackAlike : List Operation → Walk F c × G → Walk F c × G → Prop
  | [], _, _ => True
  | op :: ops, s, t =>
    (op = .step → (s.1.Lacking s.2 ↔ t.1.Lacking t.2)) ∧ LackAlike ops (op.after s) (op.after t)

theorem lackAlike_of_weighs (hc : c.Weighs F) (ops : List Operation) {s t : Walk F c × G}
    (hs : s.1.table.Holds c.weighting) (ht : t.1.table.Holds c.weighting) : LackAlike ops s t := by
  induction ops generalizing s t with
  | nil => trivial
  | cons op ops ih =>
    constructor
    · intro _
      exact iff_of_false (Walk.not_lacking_of_weighs hc hs s.2) (Walk.not_lacking_of_weighs hc ht t.2)
    · exact ih (Walk.grown_after op hs s.2).holds (Walk.grown_after op ht t.2).holds

variable {w v : Walk F c} {g : G}

theorem attempt_holding (h : w.Alike c.Holding v) (hw : w.state.Exact) {op : Operation}
    (hop : op = .step → (w.Lacking g ↔ v.Lacking g)) :
    Paired Eq (Beside (Walk.Alike c.Holding)) (op.attempt (w, g)) (op.attempt (v, g)) := by
  cases op with
  | step =>
    apply (Walk.step_holding h hw (hop rfl)).bind
    rintro status - s t rfl hs
    exact .ok rfl hs
  | restart A =>
    apply (Walk.restart_paired h A g).bind
    rintro - - s t - hs
    exact .ok rfl hs

theorem returned_step_ne (h : w.Alike c.Holding v) (hw : w.state.Exact) (hlack : w.Lacking g)
    (hpass : ¬ v.Lacking g) :
    returned (Operation.step.attempt (w, g)) ≠ returned (Operation.step.attempt (v, g)) := by
  obtain ⟨t, g₁, hstep, -, -⟩ := hlack.step_eq h.table.1
  obtain ⟨bs, hasks, -⟩ := hlack
  have hexact : v.state.Exact := h.state_eq ▸ hw
  simp only [attempt, bind, EStateM.bind, hstep]
  cases hresult : Walk.step (v, g) with
  | ok status s => nofun
  | error e s =>
    intro heq
    exact (h.asks hasks).step_error h.table.2 hexact hpass hresult (Except.error.inj heq).symm

theorem shown_eq_iff (h : w.Alike c.Holding v) (hw : w.state.Exact) (ops : List Operation) :
    shown ops (w, g) = shown ops (v, g) ↔ LackAlike ops (w, g) (v, g) := by
  induction ops generalizing w v g with
  | nil => exact iff_of_true rfl trivial
  | cons op ops ih =>
    simp only [shown, LackAlike, List.cons.injEq, Prod.mk.injEq]
    by_cases hop : op = .step → (w.Lacking g ↔ v.Lacking g)
    -- Both operations do the same, so all turns on those that follow.
    · have hpaired := attempt_holding h hw hop
      have hreturned : returned (op.attempt (w, g)) = returned (op.attempt (v, g)) := by
        generalize op.attempt (w, g) = r at hpaired ⊢
        generalize op.attempt (v, g) = r' at hpaired ⊢
        cases hpaired with
        | ok hv hs => exact congrArg Except.ok hv
        | error hs => rfl
      have hafter := hpaired.leftBy
      rw [leftBy_attempt, leftBy_attempt] at hafter
      have hexact : (op.after (w, g)).1.state.Exact := Walk.exact_after op hw rfl
      generalize op.after (w, g) = s at hafter hexact ⊢
      generalize op.after (v, g) = t at hafter ⊢
      obtain ⟨w₁, g₁⟩ := s
      obtain ⟨v₁, g₂⟩ := t
      obtain ⟨h₁, rfl⟩ : w₁.Alike c.Holding v₁ ∧ g₁ = g₂ := hafter
      rw [ih h₁ hexact]
      exact and_congr_left' (iff_of_true ⟨hreturned, h₁.seen_eq, rfl⟩ hop)
    -- A step that lacks a weight fails for it, and the other does not.
    · obtain ⟨rfl, hdiffer⟩ := Classical.not_imp.1 hop
      apply iff_of_false
      · rintro ⟨⟨hreturned, -⟩, -⟩
        by_cases hlack : w.Lacking g
        · have hpass : ¬ v.Lacking g := fun hv => hdiffer (iff_of_true hlack hv)
          exact returned_step_ne h hw hlack hpass hreturned
        · have hlack' : v.Lacking g := by
            by_contra hv
            exact hdiffer (iff_of_false hlack hv)
          exact returned_step_ne h.swap (h.state_eq ▸ hw) hlack' hlack hreturned.symm
      · rintro ⟨hlacks, -⟩
        exact hdiffer (hlacks rfl)

end Operation

theorem Walk.shown_step_iff {w v : Walk F c} (h : w.Alike c.Holding v) (hw : w.state.Exact)
    (hnone : c.weighting.weight? w.table.size = none) (g : G) :
    Operation.shown [.step] (w, g) = Operation.shown [.step] (v, g) ↔ ∀ bs, v.Asks g bs →
      w.table.size < sizeAfter v.table.size bs → ∃ b ∈ bs, w.table.size ≤ b := by
  have hlack : Operation.LackAlike [.step] (w, g) (v, g) ↔ (w.Lacking g ↔ v.Lacking g) := by
    simp only [Operation.LackAlike, and_true, true_implies]
  rw [Operation.shown_eq_iff h hw, hlack]
  constructor
  · intro hiff bs hasks hlt
    have hstops : v.Lacking g := hasks.lacking_iff.2 ((h.table.1.stops_iff hnone).2 hlt)
    have hstops' := (h.swap.asks hasks).lacking_iff.1 (hiff.2 hstops)
    exact lt_sizeAfter_iff.1 ((h.table.1.stops_iff hnone).1 hstops')
  · intro hheld
    constructor
    · rintro ⟨bs, hasks, hstops⟩
      refine ⟨bs, h.asks hasks, (h.table.1.stops_iff hnone).2 ?_⟩
      obtain ⟨b, hb, hle⟩ := lt_sizeAfter_iff.1 ((h.table.1.stops_iff hnone).1 hstops)
      have hlt := lt_sizeAfter (n := v.table.size) hb
      omega
    · rintro ⟨bs, hasks, hstops⟩
      have hlt := (h.table.1.stops_iff hnone).1 hstops
      refine ⟨bs, h.swap.asks hasks, (h.table.1.stops_iff hnone).2 ?_⟩
      exact lt_sizeAfter_iff.2 (hheld bs hasks hlt)

/-- An operation that fails leaves the search as it was before it, but for the source and for weights
that were added to the table. Operations done afterwards, from any source, show the same as if they had
been done before exactly when they lack weights alike. So they do while all weights can be computed; after
a step that stopped at a weight, the next one shows another result exactly when the counts it asks for
are all held by now, and the table as it was would have been taken further than it could. -/
theorem Reached.failure_leaves {w w' : Walk F c} {g g' : G} {op : Operation} {e : Fault}
    (h : Reached (w, g)) (hfail : op.attempt (w, g) = .error e (w', g')) :
    (w'.state = w.state ∧ w'.status = w.status ∧ w'.steps = w.steps ∧ w'.statistics = w.statistics) ∧
    (w'.table.weighting = w.table.weighting ∧ w.table.weights.toList <+: w'.table.weights.toList) ∧
    Reached (w', g') ∧
    (∀ (ops : List Operation) (g₁ : G), Operation.shown ops (w', g₁) = Operation.shown ops (w, g₁) ↔
      Operation.LackAlike ops (w', g₁) (w, g₁)) ∧
    (c.Weighs F → ∀ (ops : List Operation) (g₁ : G),
      Operation.shown ops (w', g₁) = Operation.shown ops (w, g₁)) ∧
    (op = .step → w.Lacking g → e = .tooLarge ∧ c.weighting.weight? w'.table.size = none) ∧
    (c.weighting.weight? w'.table.size = none → ∀ g₁ : G,
      Operation.shown [.step] (w', g₁) = Operation.shown [.step] (w, g₁) ↔ ∀ bs, w.Asks g₁ bs →
        w'.table.size < sizeAfter w.table.size bs → ∃ b ∈ bs, w'.table.size ≤ b) := by
  have hafter : op.after (w, g) = (w', g') := by
    rw [← Operation.leftBy_attempt, hfail]
    rfl
  have hgrown : Grown c.weighting w.table w'.table := by
    have hgrown := Walk.grown_after op h.holds g
    rwa [hafter] at hgrown
  obtain ⟨t, rfl⟩ : ∃ t, w' = { w with table := t } := by
    cases op with
    | step =>
      obtain hstep | ⟨status, s, -, hpure⟩ := bind_error hfail
      · exact (Walk.move_error ((Walk.step_error hstep).stuck_of_exact h.exact)).2
      · cases hpure
    | restart A =>
      obtain hrestart | ⟨u, s, -, hpure⟩ := bind_error hfail
      · exact ⟨w.table, Walk.restart_error hrestart⟩
      · cases hpure
  have halike : Walk.Alike c.Holding { w with table := t } w :=
    ⟨rfl, rfl, rfl, rfl, hgrown.holds, h.holds⟩
  have hshown (ops : List Operation) (g₁ : G) := Operation.shown_eq_iff (g := g₁) halike h.exact ops
  refine ⟨⟨rfl, rfl, rfl, rfl⟩, ⟨?_, hgrown.keeps h.holds⟩, ?_, hshown, ?_, ?_, ?_⟩
  · exact hgrown.holds.weighting_eq.trans h.holds.weighting_eq.symm
  · exact hafter ▸ h.after op
  · intro hc ops g₁
    exact (hshown ops g₁).2 (Operation.lackAlike_of_weighs hc ops hgrown.holds h.holds)
  · rintro rfl hlack
    obtain ⟨t', g₁, hstep, -, hnone⟩ := hlack.step_eq h.holds
    simp only [Operation.attempt, bind, EStateM.bind, hstep] at hfail
    cases hfail
    exact ⟨rfl, hnone⟩
  · intro hnone g₁
    exact Walk.shown_step_iff halike h.exact hnone g₁

end

def starFormula : Formula := Formula.ofClauses 3 [[1, 2, 3], [-1], [-2], [-3]] [] (by decide) (by decide)

def starState : State starFormula where
  assignment := .ofList [false, false, false]
  unsatisfied := State.recordOf starFormula (.ofList [false, false, false])
  fits := rfl

def hotConfig : Config Float :=
  { halfConfig with
    temperature := .int (5 * (10 ^ 107 * 10 ^ 200))
    temperature_usable := by decide +kernel }

theorem hotConfig_isSome : ∀ b < 4, (hotConfig.weighting.weight? b).isSome := by
  decide +kernel

theorem hotConfig_four : hotConfig.weighting.weight? 4 = none := by
  rw [← Option.isNone_iff_eq_none]
  decide +kernel

abbrev starWalk (t : WeightTable Float) : Walk starFormula hotConfig := .fresh starState t

theorem startTable_star : ∃ t, Walk.startTable starFormula hotConfig = .ok t ∧
    t.Holds hotConfig.weighting ∧ t.size = 3 := by
  have hsize : (max ((starFormula.maxOccurrences : Int) + 1) 1).toNat = 3 := by decide +kernel
  have hfirst : ∀ b < (max ((starFormula.maxOccurrences : Int) + 1) 1).toNat,
      (hotConfig.weighting.weight? b).isSome := by
    intro b hb
    exact hotConfig_isSome b (by omega)
  have hcoins : hotConfig.strategy ≠ .uniformRepair := nofun
  rw [Walk.startTable, if_neg hcoins, ← hsize]
  exact WeightTable.create_ok hfirst

theorem asks_star (t : WeightTable Float) : (starWalk t).Asks (⟨[0, 0]⟩ : Script) [1, 1, 2, 1, 2, 2, 3] := by
  have hrecord : starState.unsatisfied.toList = [0] := by decide +kernel
  obtain ⟨hu, hpick⟩ := PickSet.pick_first hrecord [0]
  exact .picked rfl hu hpick rfl rfl

/-- The counts end at three, but a table of three weights is doubled for the last of them. -/
theorem lacking_star {t : WeightTable Float} (hsize : t.size = 3) :
    (starWalk t).Lacking (⟨[0, 0]⟩ : Script) := by
  apply (asks_star t).lacking_iff.2
  change WeightTable.Stops hotConfig.weighting t.size [1, 1, 2, 1, 2, 2, 3]
  rw [hsize]
  exact ⟨4, by decide, hotConfig_four⟩

theorem size_star {t : WeightTable Float} (h : t.Holds hotConfig.weighting)
    (hnone : hotConfig.weighting.weight? t.size = none) : t.size = 4 := by
  obtain hlt | heq | hgt := Nat.lt_trichotomy t.size 4
  · have hsome := hotConfig_isSome t.size hlt
    rw [hnone] at hsome
    cases hsome
  · exact heq
  · cases hotConfig_four.symm.trans (h.weight_eq 4 hgt)

theorem step_star : ∃ (t t' : WeightTable Float) (g' : Script), Reached (starWalk t, (⟨[0, 0]⟩ : Script)) ∧
    Operation.step.attempt (starWalk t, (⟨[0, 0]⟩ : Script)) = .error .tooLarge (starWalk t', g') ∧
    t.size = 3 ∧ t'.size = 4 ∧ t'.Holds hotConfig.weighting := by
  obtain ⟨t, ht, hholds, hsize⟩ := startTable_star
  obtain ⟨t', g', hstep, hgrown, hnone⟩ := (lacking_star hsize).step_eq hholds
  refine ⟨t, t', g', .start (Walk.start_of ht rfl _), ?_, hsize, size_star hgrown.holds hnone, hgrown.holds⟩
  simp only [Operation.attempt, bind, EStateM.bind, hstep]
  rfl

/-- The next step fails as the one before it did, but for that one it would not. -/
theorem Reached.failure_shows : ∃ (w w' : Walk starFormula hotConfig) (g g' : Script), Reached (w, g) ∧
    Operation.step.attempt (w, g) = .error .tooLarge (w', g') ∧
    ∀ s, Operation.step.attempt (w', g) ≠ .error .tooLarge s := by
  obtain ⟨t, t', g', h, hstep, -, hfour, hholds⟩ := step_star
  refine ⟨_, _, _, g', h, hstep, ?_⟩
  have hpass : ¬ (starWalk t').Lacking (⟨[0, 0]⟩ : Script) := by
    rw [(asks_star t').lacking_iff]
    apply hholds.not_stops
    change t'.size = WeightTable.sizeAfter t'.size [1, 1, 2, 1, 2, 2, 3]
    rw [hfour]
    decide
  intro s hs
  obtain hs | ⟨a, u, -, hpure⟩ := bind_error hs
  · exact (asks_star t').step_error hholds h.exact hpass hs rfl
  · cases hpure

theorem Reached.failure_leaves_star : (∃ (w w' : Walk chainFormula tabulatedConfig) (g' : Script),
      Reached (w, (⟨[0]⟩ : Script)) ∧
      Operation.step.attempt (w, (⟨[0]⟩ : Script)) = .error .outOfDraws (w', g') ∧
      tabulatedConfig.Weighs chainFormula ∧ w'.state = w.state ∧ w'.steps = w.steps ∧
      w'.statistics = w.statistics ∧
      ∀ (ops : List Operation) (g₁ : Script), Operation.shown ops (w', g₁) = Operation.shown ops (w, g₁)) ∧
    ∃ (w w' : Walk starFormula hotConfig) (g g' : Script), Reached (w, g) ∧
      Operation.step.attempt (w, g) = .error .tooLarge (w', g') ∧ w.table.size = 3 ∧
      w'.state = w.state ∧ w'.table.size = 4 ∧ hotConfig.weighting.weight? 4 = none ∧
      Operation.shown [.step] (w', g) ≠ Operation.shown [.step] (w, g) := by
  constructor
  · obtain ⟨w, h, hfail⟩ : ∃ w : Walk chainFormula tabulatedConfig, Reached (w, (⟨[0]⟩ : Script)) ∧
        (match Operation.step.attempt (w, (⟨[0]⟩ : Script)) with
          | .error .outOfDraws _ => true
          | _ => false) = true :=
      ⟨_, .start (A := some (.ofList [false, false, false])) (g := ⟨[0]⟩) rfl, by decide +kernel⟩
    have hc : tabulatedConfig.Weighs chainFormula := .inr (by decide +kernel)
    split at hfail
    · next s hs =>
      obtain ⟨w', g'⟩ := s
      obtain ⟨⟨hstate, -, hsteps, hstatistics⟩, -, -, -, hshown, -⟩ := failure_leaves h hs
      exact ⟨w, w', g', h, hs, hc, hstate, hsteps, hstatistics, hshown hc⟩
    · cases hfail
  · obtain ⟨t, t', g', h, hstep, hthree, hfour, -⟩ := step_star
    obtain ⟨⟨hstate, -⟩, -, -, -, -, -, hnext⟩ := failure_leaves h hstep
    have hnone : hotConfig.weighting.weight? t'.size = none := by rw [hfour, hotConfig_four]
    have hlt : t'.size < WeightTable.sizeAfter t.size [1, 1, 2, 1, 2, 2, 3] := by
      rw [hthree, hfour]
      decide
    refine ⟨_, _, _, g', h, hstep, hthree, hstate, hfour, hotConfig_four, ?_⟩
    intro heq
    obtain ⟨b, hb, hle⟩ := (hnext hnone _).1 heq _ (asks_star t) hlt
    have hheld : ∀ b ∈ [1, 1, 2, 1, 2, 2, (3 : Int)], b < 4 := by decide
    have hbound := hheld b hb
    change (t'.size : Int) ≤ b at hle
    omega

end SatWalk
