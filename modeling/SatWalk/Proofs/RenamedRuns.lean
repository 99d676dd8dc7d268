import SatWalk.Proofs.Renaming
import SatWalk.Proofs.Predictions
import SatWalk.Proofs.Settings

namespace SatWalk

namespace Repair

variable {n : Nat} {ρ : Renaming n} {d : Clause}

theorem lookup_map {drawn : List (Var × Bool)} (hkeys : ∀ e ∈ drawn, e.1 ∈ Set.Icc 1 n) {v : Var}
    (hv : v ∈ Set.Icc 1 n) : (drawn.map (Prod.map ρ.var id)).lookup (ρ.var v) = drawn.lookup v := by
  induction drawn with
  | nil => rfl
  | cons e drawn ih =>
    have hrest := ih fun e' he' => hkeys e' (List.mem_cons_of_mem e he')
    have hkey : (ρ.var v == ρ.var e.1) = (v == e.1) := by
      rw [Bool.eq_iff_iff, beq_iff_eq, beq_iff_eq]
      constructor
      · exact ρ.bijOn.injOn hv (hkeys e List.mem_cons_self)
      · exact congrArg ρ.var
    rw [List.map_cons, List.lookup_cons, List.lookup_cons, hrest, Prod.map_fst, hkey]
    rfl

theorem accepts_map (hswitched : ∀ v ∈ Set.Icc 1 n, ρ.switched v = false) {drawn : List (Var × Bool)}
    (hkeys : ∀ e ∈ drawn, e.1 ∈ Set.Icc 1 n) (hd : Renaming.Covers n d) :
    accepts (drawn.map (Prod.map ρ.var id)) (d.map ρ.literal) = accepts drawn d := by
  have hliteral : ∀ l ∈ d, ((drawn.map (Prod.map ρ.var id)).lookup (ρ.literal l).natAbs ==
      some (decide (0 < ρ.literal l))) = (drawn.lookup l.natAbs == some (decide (0 < l))) := by
    intro l hl
    rw [Renaming.positive_literal (hd l hl), hswitched _ (hd l hl), Bool.xor_false,
      Renaming.natAbs_literal, lookup_map hkeys (hd l hl)]
  rw [Bool.eq_iff_iff, accepts, accepts, List.any_eq_true, List.any_eq_true]
  constructor
  · rintro ⟨_, hm, h⟩
    obtain ⟨l, hl, rfl⟩ := List.mem_map.1 hm
    exact ⟨l, hl, hliteral l hl ▸ h⟩
  · rintro ⟨l, hl, h⟩
    exact ⟨_, List.mem_map_of_mem hl, (hliteral l hl).trans h⟩

theorem difference_map (hswitched : ∀ v ∈ Set.Icc 1 n, ρ.switched v = false) {A A' : Assignment}
    (h : ρ.Moves A A') {drawn : List (Var × Bool)} (hkeys : ∀ e ∈ drawn, e.1 ∈ Set.Icc 1 n) :
    difference A' (drawn.map (Prod.map ρ.var id)) = difference A drawn := by
  induction drawn with
  | nil => rfl
  | cons e drawn ih =>
    have hrest := ih fun e' he' => hkeys e' (List.mem_cons_of_mem e he')
    have he : e.1 ∈ Set.Icc 1 n := hkeys e List.mem_cons_self
    have htruth := h.truth_eq e.1 he
    rw [hswitched e.1 he, Bool.xor_false] at htruth
    rw [List.map_cons, difference, hrest, Prod.map_fst, Prod.map_snd, htruth]
    rfl

section
variable {G : Type} [Source G]

theorem values_map (hswitched : ∀ v ∈ Set.Icc 1 n, ρ.switched v = false) (hd : Renaming.Covers n d)
    {vars : List Var} (hvars : ∀ v ∈ vars, v ∈ Set.Icc 1 n) (g : G) :
    Paired (fun drawn drawn' => (∀ e ∈ drawn, e.1 ∈ Set.Icc 1 n) ∧
        drawn' = drawn.map (Prod.map ρ.var id)) Eq
      (values vars d g) (values (vars.map ρ.var) (d.map ρ.literal) g) := by
  have hzip (coins : List Bool) :
      (vars.map ρ.var).zip coins = (vars.zip coins).map (Prod.map ρ.var id) := by
    rw [List.zip_map_left]
  have hkeys (coins : List Bool) : ∀ e ∈ vars.zip coins, e.1 ∈ Set.Icc 1 n := by
    intro e he
    exact hvars e.1 (List.of_mem_zip he).1
  fun_induction values vars d g with
  | case1 g hv =>
    subst hv
    rw [values_eq, List.map_nil, if_pos rfl]
    exact .error rfl
  | case2 g hv e g₁ hcoins =>
    rw [values_eq, if_neg (mt List.map_eq_nil_iff.1 hv), List.length_map, hcoins]
    exact .error rfl
  | case3 g hv coins g₁ hcoins haccepts =>
    rw [values_eq, if_neg (mt List.map_eq_nil_iff.1 hv), List.length_map, hcoins]
    simp only [hzip, accepts_map hswitched (hkeys coins) hd, haccepts, if_true]
    exact .ok ⟨hkeys coins, rfl⟩ rfl
  | case4 g hv coins g₁ hcoins haccepts =>
    rename_i ih
    rw [values_eq (vars.map ρ.var), if_neg (mt List.map_eq_nil_iff.1 hv), List.length_map, hcoins]
    simp only [hzip, accepts_map hswitched (hkeys coins) hd, if_neg haccepts]
    exact ih

end

end Repair

section
variable {R : Type} [MachineReal R] {F : Formula} {ρ : Renaming F.numVars} {G : Type}

theorem position?_cast {m n : Nat} (h : m = n) (i : Int) :
    position? n i = (position? m i).map (Fin.cast h) := by
  subst h
  cases position? m i <;> rfl

theorem Formula.clauseId?_renamed {σ τ : Type} {S : σ → τ → Prop} {s : σ} {t : τ} (id : Int)
    (h : S s t) :
    Paired (fun i i' => (F.renamed ρ).clauseAt i' = (F.clauseAt i).map ρ.literal) S
      (settled (F.clauseId? id) s) (settled ((F.renamed ρ).clauseId? id) t) := by
  unfold clauseId?
  rw [position?_cast size_renamed.symm]
  cases position? F.clauses.size id with
  | none => exact .error h
  | some i =>
    refine .ok ?_ h
    exact Array.getElem_map _ _

def Chosen (ρ : Renaming F.numVars) (d : Clause) (choice choice' : FlipChoice Var) : Prop :=
  choice.vars.Sublist (distinctVars d) ∧ choice'.vars = choice.vars.map ρ.var

theorem chosen_of {d : Clause} (hd : d ∈ F.clauses.toList) (t : Int) :
    Chosen ρ d (.of (distinctVars d) t) (.of (distinctVars (d.map ρ.literal)) t) := by
  refine ⟨select_sublist _ _, ?_⟩
  rw [FlipChoice.of, Renaming.distinctVars_map (Formula.covers hd), select_map]
  rfl

namespace Walk

variable {c : Config R}

structure Renamed (ρ : Renaming F.numVars) (w : Walk F c) (v : Walk (F.renamed ρ) c) : Prop where
  state : w.state.Renamed ρ v.state
  status_eq : v.status = w.status
  steps_eq : v.steps = w.steps
  statistics_eq : v.statistics = w.statistics
  table_eq : v.table = w.table

variable {w : Walk F c} {v : Walk (F.renamed ρ) c}

theorem Renamed.onTable {α β : Type} {V : α → β → Prop} (h : w.Renamed ρ v)
    {act : Attempt (WeightTable R × G) α} {act' : Attempt (WeightTable R × G) β} {g : G}
    (hact : Paired V Eq (act (w.table, g)) (act' (w.table, g))) :
    Paired V (Beside (Renamed ρ)) (Walk.onTable act (w, g)) (Walk.onTable act' (v, g)) := by
  obtain ⟨hstate, hstatus, hsteps, hstatistics, htable⟩ := h
  simp only [Walk.onTable, htable]
  generalize act (w.table, g) = r at hact ⊢
  generalize act' (w.table, g) = r' at hact ⊢
  cases hact with
  | ok hv hs =>
    subst hs
    exact .ok hv ⟨⟨hstate, hstatus, hsteps, hstatistics, rfl⟩, rfl⟩
  | error hs =>
    subst hs
    exact .error ⟨⟨hstate, hstatus, hsteps, hstatistics, rfl⟩, rfl⟩

theorem Renamed.flipped (h : w.Renamed ρ v) {d : Clause} (hd : d ∈ F.clauses.toList)
    {choice choice' : FlipChoice Var} (hchosen : Chosen ρ d choice choice') (g : G) :
    Paired Eq (Beside (Renamed ρ)) (onState (onFirst (State.flip (choice.vars.map Int.ofNat))) (w, g))
      (onState (onFirst (State.flip (choice'.vars.map Int.ofNat))) (v, g)) := by
  obtain ⟨hsublist, hvars⟩ := hchosen
  have hcovers : ∀ u ∈ choice.vars, u ∈ Set.Icc 1 F.numVars := by
    intro u hu
    exact Renaming.distinctVars_subset (Formula.covers hd) u (hsublist.subset hu)
  obtain ⟨t, t', hflip, hflip', ht⟩ := h.state.flip hcovers ((nodup_distinctVars d).sublist hsublist)
  simp only [onState, onFirst, hvars, hflip, hflip']
  exact .ok rfl ⟨⟨ht, h.status_eq, h.steps_eq, h.statistics_eq, h.table_eq⟩, rfl⟩

theorem Renamed.close (h : w.Renamed ρ v) (hw : w.state.Exact) (g : G) :
    Paired Eq (Beside (Renamed ρ)) (Walk.close (w, g)) (Walk.close (v, g)) := by
  have hv : v.state.Exact := h.state.exact hw
  rw [close_eq, close_eq, settle_eq, settle_eq, if_pos (checked_of_exact hw),
    if_pos (checked_of_exact hv), h.steps_eq, h.state.unsatisfied_eq]
  split
  · exact .ok h.status_eq.symm ⟨h, rfl⟩
  · split
    · exact .ok rfl ⟨⟨h.state, rfl, rfl, h.statistics_eq, h.table_eq⟩, rfl⟩
    · exact .ok rfl ⟨⟨h.state, rfl, rfl, h.statistics_eq, h.table_eq⟩, rfl⟩

end Walk

variable [Source G]

variable {s : State F} {s' : State (F.renamed ρ)}

theorem State.Renamed.choose (h : s.Renamed ρ s') {p : Sampler}
    (hp : p.strategy = .uniformRepair → ∀ v ∈ Set.Icc 1 F.numVars, ρ.switched v = false) {d : Clause}
    (hd : d ∈ F.clauses.toList) (t : WeightTable R) (g : G) :
    Paired (Chosen ρ d) Eq (p.choose s d (t, g)) (p.choose s' (d.map ρ.literal) (t, g)) := by
  obtain ⟨strategy, scope⟩ := p
  have hcovers := Formula.covers hd
  cases strategy with
  | uniformRepair =>
    have hswitched := hp rfl
    have hdistinct := Renaming.distinctVars_subset hcovers
    have hrepair : Paired (Chosen ρ d) Eq (Sampler.uniformRepair s d g)
        (Sampler.uniformRepair s' (d.map ρ.literal) g) := by
      simp only [Sampler.uniformRepair, Renaming.distinctVars_map hcovers]
      apply (Repair.values_map hswitched hcovers hdistinct g).bind
      rintro drawn _ g₁ - ⟨hkeys, rfl⟩ rfl
      rw [Repair.difference_map hswitched h.moves hkeys, ← Renaming.distinctVars_map hcovers]
      exact .ok (chosen_of hd _) rfl
    apply (Paired.beside (Eq.refl t) hrepair).mono
    rintro u v ⟨ht, hg⟩
    exact Prod.ext ht hg
  | breakWeighted =>
    simp only [Sampler.choose, Sampler.breakWeighted, h.combinationBreaks_eq scope hd]
    apply (Paired.refl (settled (s.combinationBreaks scope d) (t, g))).bind
    rintro counts - s₁ - rfl rfl
    apply (Paired.refl (onFirst _ s₁)).bind
    rintro ws - s₂ - rfl rfl
    apply (Paired.refl (onSecond _ s₂)).bind
    rintro i - s₃ - rfl rfl
    exact .ok (chosen_of hd i) rfl
  | singleFlip =>
    simp only [Sampler.choose, Sampler.singleFlip, h.singleBreaks_eq scope hd]
    apply (Paired.refl (settled (s.singleBreaks scope d) (t, g))).bind
    rintro counts - s₁ - rfl rfl
    apply (Paired.refl (onFirst _ s₁)).bind
    rintro ws - s₂ - rfl rfl
    apply (Paired.refl (onSecond _ s₂)).bind
    rintro i - s₃ - rfl rfl
    exact .ok (chosen_of hd _) rfl

namespace Walk

variable {c : Config R} {w : Walk F c} {v : Walk (F.renamed ρ) c}

theorem Renamed.move (h : w.Renamed ρ v)
    (hc : c.strategy = .uniformRepair → ∀ u ∈ Set.Icc 1 F.numVars, ρ.switched u = false) (g : G) :
    Paired Eq (Beside (Renamed ρ)) (Walk.move (w, g)) (Walk.move (v, g)) := by
  have hget : Paired (fun s t => s = (w, g) ∧ t = (v, g)) (Beside (Renamed ρ))
      ((get : Attempt (Walk F c × G) _) (w, g))
      ((get : Attempt (Walk (F.renamed ρ) c × G) _) (v, g)) :=
    .ok ⟨rfl, rfl⟩ ⟨h, rfl⟩
  apply hget.bind
  rintro - - ⟨w₁, g₁⟩ ⟨v₁, -⟩ ⟨rfl, rfl⟩ ⟨h₁, rfl⟩
  simp only [h.state.unsatisfied_eq]
  apply (Paired.onSecond h₁ _ _).bind
  rintro id - ⟨w₂, g₂⟩ ⟨v₂, -⟩ rfl ⟨h₂, rfl⟩
  apply (Formula.clauseId?_renamed id (show Beside (Renamed ρ) (w₂, g₂) (v₂, g₂) from ⟨h₂, rfl⟩)).bind
  rintro i i' ⟨w₃, g₃⟩ ⟨v₃, -⟩ hi ⟨h₃, rfl⟩
  have hd : F.clauseAt i ∈ F.clauses.toList := Formula.mem_clauses (Formula.getElem?_clauseAt i)
  rw [hi]
  apply (h₃.onTable (h.state.choose hc hd _ _)).bind
  rintro choice choice' ⟨w₄, g₄⟩ ⟨v₄, -⟩ hchosen ⟨h₄, rfl⟩
  apply (h₄.flipped hd hchosen _).bind
  rintro - - ⟨w₅, g₅⟩ ⟨v₅, -⟩ - ⟨⟨hstate, hstatus, hsteps, hstatistics, htable⟩, rfl⟩
  refine .ok rfl ⟨⟨hstate, hstatus, congrArg (· + 1) hsteps, ?_, htable⟩, rfl⟩
  have hunsatisfied := hstate.unsatisfied_eq
  simp only at hunsatisfied hstatistics
  simp only [count, hchosen.2, List.length_map, hstatistics, hunsatisfied]

theorem Renamed.step (h : w.Renamed ρ v) (hw : w.state.Exact)
    (hc : c.strategy = .uniformRepair → ∀ u ∈ Set.Icc 1 F.numVars, ρ.switched u = false) (g : G) :
    Paired Eq (Beside (Renamed ρ)) (Walk.step (w, g)) (Walk.step (v, g)) := by
  have hv : v.state.Exact := h.state.exact hw
  rw [step_eq, step_eq, settle_eq, settle_eq, if_pos (checked_of_exact hw),
    if_pos (checked_of_exact hv), h.status_eq, h.state.unsatisfied_eq]
  split
  · exact .ok rfl ⟨h, rfl⟩
  · split
    · exact .ok rfl ⟨⟨h.state, rfl, h.steps_eq, h.statistics_eq, h.table_eq⟩, rfl⟩
    · have hexact : (leftBy (Walk.move (w, g))).1.state.Exact := exact_leftBy_move hw
      apply ((h.move hc g).and_left (P := fun s => s.1.state.Exact) hexact).bind_of_imp
      · rintro s t ⟨-, hs⟩
        exact hs
      · rintro - - ⟨w₁, g₁⟩ ⟨v₁, -⟩ - ⟨hw₁, h₁, rfl⟩
        exact h₁.close hw₁ g₁

theorem lockstep_renamed
    (hc : c.strategy = .uniformRepair → ∀ u ∈ Set.Icc 1 F.numVars, ρ.switched u = false) :
    Lockstep G fun (w : Walk F c) (v : Walk (F.renamed ρ) c) => w.state.Exact ∧ w.Renamed ρ v where
  steps_eq h := h.2.steps_eq.symm
  step := by
    rintro w v ⟨hw, h⟩ g
    have hexact : (leftBy (Walk.step (w, g))).1.state.Exact := exact_after .step hw rfl
    apply ((h.step hw hc g).and_left (P := fun s => s.1.state.Exact) hexact).mono
    rintro s t ⟨hs, ht, hg⟩
    exact ⟨⟨hs, ht⟩, hg⟩

theorem startTable_renamed : startTable (F.renamed ρ) c = startTable F c := by
  unfold startTable
  rw [Formula.maxOccurrences_renamed]

theorem start_renamed {A A' : Assignment} (hA : ρ.Carries A.toList A'.toList) (g : G) :
    Paired (fun (w : Walk F c) (v : Walk (F.renamed ρ) c) => w.state.Exact ∧ w.Renamed ρ v) Eq
      (start F c (some A) g) (start (F.renamed ρ) c (some A') g) := by
  have hsize : A'.numVars = A.numVars := by
    rw [← Assignment.length_toList, ← Assignment.length_toList]
    exact hA.1
  rw [start_eq, start_eq, startTable_renamed]
  apply (Paired.refl (settled (startTable F c) g)).bind
  rintro t - g₁ - rfl rfl
  change Paired _ Eq ((settled (State.of F A) >>= fun s => pure (fresh s t)) g₁)
    ((settled (State.of (F.renamed ρ) A') >>= fun s => pure (fresh s t)) g₁)
  by_cases hfits : A.numVars = F.numVars
  · have hmoves : ρ.Moves A A' := (Renaming.moves_iff_carries hfits).2 hA
    have hfits' : A'.numVars = (F.renamed ρ).numVars := hsize.trans hfits
    have hrecord : State.recordOf (F.renamed ρ) A' = State.recordOf F A := by
      rw [State.recordOf, State.recordOf, Formula.falseClauses_renamed hmoves]
    have hof : State.of F A = .ok ⟨A, State.recordOf F A, hfits⟩ := dif_pos hfits
    have hof' : State.of (F.renamed ρ) A' = .ok ⟨A', State.recordOf (F.renamed ρ) A', hfits'⟩ :=
      dif_pos hfits'
    rw [hof, hof']
    refine .ok ⟨State.exact_of hof, ⟨hmoves, hrecord⟩, rfl, rfl, ?_, rfl⟩ rfl
    simp only [fresh, hrecord]
  · have hof : State.of F A = .error (.wrongVariableCount A.numVars F.numVars) := dif_neg hfits
    have hof' : State.of (F.renamed ρ) A' = .error (.wrongVariableCount A.numVars F.numVars) := by
      rw [← hsize] at hfits ⊢
      exact dif_neg hfits
    rw [hof, hof']
    exact .error rfl

end Walk

structure Snapshot.Carried {n : Nat} (ρ : Renaming n) (a b : Snapshot) : Prop where
  steps_eq : b.steps = a.steps
  unsatisfied_eq : b.unsatisfied = a.unsatisfied
  values : ρ.Carries a.values b.values

structure Outcome.Carried {n : Nat} (ρ : Renaming n) (o p : Outcome) : Prop where
  status_eq : p.status = o.status
  steps_eq : p.steps = o.steps
  statistics_eq : p.statistics = o.statistics
  values : ρ.Carries o.values p.values

theorem Walk.Renamed.carries {c : Config R} {w : Walk F c} {v : Walk (F.renamed ρ) c} (h : w.Renamed ρ v) :
    ρ.Carries w.state.assignment.toList v.state.assignment.toList :=
  (Renaming.moves_iff_carries w.state.fits).1 h.state.moves

theorem Run.solve_carried {F' : Formula} (hF : F.renamed ρ = F') {c : Config R}
    (hc : c.strategy = .uniformRepair → ∀ v ∈ Set.Icc 1 F.numVars, ρ.switched v = false)
    {A A' : Assignment} (hA : ρ.Carries A.toList A'.toList) (g : G) :
    Paired (Outcome.Carried ρ)
      (fun s t => s.1 = t.1 ∧ List.Forall₂ (Snapshot.Carried ρ) (views s.2) (views t.2))
      (solve F c (some A) Walk.snapshot (g, #[])) (solve F' c (some A') Walk.snapshot (g, #[])) := by
  subst hF
  apply solve_related (Walk.lockstep_renamed hc)
  · rintro w v ⟨-, h⟩
    exact ⟨h.steps_eq, congrArg PickSet.toList h.state.unsatisfied_eq, h.carries⟩
  · rintro w v ⟨-, h⟩
    exact ⟨h.status_eq, congrArg Int.ofNat h.steps_eq, h.statistics_eq, h.carries⟩
  · exact Walk.start_renamed hA g
  · exact .nil

/-- On the renamed formula and from the renamed assignment a run ends as the original one does, leaves
the source at the same place, and shows the same after every counted step, with the values carried. If
values are drawn for the variables no polarity may be switched. -/
theorem Run.solve_renamed (F : Formula) (ρ : Renaming F.numVars) (c : Config R)
    (hc : c.strategy = .uniformRepair → ∀ v ∈ Set.Icc 1 F.numVars, ρ.switched v = false)
    (A A' : Assignment) (hA : ρ.Carries A.toList A'.toList) (g : G) :
    Paired (Outcome.Carried ρ)
      (fun s t => s.1 = t.1 ∧ List.Forall₂ (Snapshot.Carried ρ) (views s.2) (views t.2))
      (solve F c (some A) Walk.snapshot (g, #[]))
      (solve (F.renamed ρ) c (some A') Walk.snapshot (g, #[])) :=
  solve_carried rfl hc hA g

theorem Run.solve_renamed_clauses {n : Nat} (ρ : Renaming n) {cs : List Clause}
    {names : List (Int × Option String)} (hcs : ∀ d ∈ cs, d ≠ [] ∧ ∀ l ∈ d, l ≠ 0)
    (hn : Formula.largestVar cs ≤ n) {c : Config R}
    (hc : c.strategy = .uniformRepair → ∀ v ∈ Set.Icc 1 n, ρ.switched v = false)
    {A A' : Assignment} (hA : ρ.Carries A.toList A'.toList) (g : G) :
    ∃ hcs' hn', Paired (Outcome.Carried ρ)
      (fun s t => s.1 = t.1 ∧ List.Forall₂ (Snapshot.Carried ρ) (views s.2) (views t.2))
      (solve (.ofClauses n cs names hcs hn) c (some A) Walk.snapshot (g, #[]))
      (solve (.ofClauses n (cs.map (List.map ρ.literal)) names hcs' hn') c (some A') Walk.snapshot
        (g, #[])) := by
  obtain ⟨hcs', hn', hF⟩ := @Formula.renamed_ofClauses n ρ cs names hcs hn
  exact ⟨hcs', hn', solve_carried hF hc hA g⟩

end

theorem bijOn_next :
    Set.BijOn (fun v : Nat => if v = 3 then 1 else v + 1) (Set.Icc 1 3) (Set.Icc 1 3) := by
  refine ⟨?_, ?_, ?_⟩
  · intro v hv
    simp only [Set.mem_Icc] at hv ⊢
    split <;> omega
  · intro u hu v hv h
    simp only [Set.mem_Icc] at hu hv h
    split at h <;> split at h <;> omega
  · intro v hv
    refine ⟨if v = 1 then 3 else v - 1, ?_, ?_⟩
    · simp only [Set.mem_Icc] at hv ⊢
      split <;> omega
    · simp only [Set.mem_Icc] at hv ⊢
      split <;> split <;> omega

def turn : Renaming chainFormula.numVars where
  var v := if v = 3 then 1 else v + 1
  switched v := v == 2
  bijOn := bijOn_next

theorem Run.solve_renamed_chain : turn.Carries [false, false, false] [false, false, true] ∧ ∃ o p s t,
    solve chainFormula evenConfig (some (.ofList [false, false, false])) Walk.snapshot
      ((⟨[0, 0, 0, 0]⟩ : Script), #[]) = .ok o s ∧
    solve (chainFormula.renamed turn) evenConfig (some (.ofList [false, false, true])) Walk.snapshot
      ((⟨[0, 0, 0, 0]⟩ : Script), #[]) = .ok p t ∧
    o.steps = 2 ∧ Outcome.Carried turn o p ∧ s.1 = t.1 ∧
    List.Forall₂ (Snapshot.Carried turn) (views s.2) (views t.2) := by
  obtain ⟨o, s, h, ho⟩ := exists_ok (p := fun o : Outcome => decide (o.steps = 2))
    (r := solve chainFormula evenConfig (some (.ofList [false, false, false])) Walk.snapshot
      ((⟨[0, 0, 0, 0]⟩ : Script), #[])) (by decide +kernel)
  have hA : turn.Carries [false, false, false] [false, false, true] := by
    refine ⟨rfl, ?_⟩
    rintro v ⟨hpos, hle⟩
    obtain rfl | rfl | rfl : v = 1 ∨ v = 2 ∨ v = 3 := by
      change v ≤ 3 at hle
      omega
    all_goals rfl
  obtain ⟨p, t, hp, hcarried, hleft⟩ :=
    (h ▸ solve_renamed chainFormula turn evenConfig nofun (.ofList [false, false, false])
      (.ofList [false, false, true]) hA (⟨[0, 0, 0, 0]⟩ : Script)).of_ok
  exact ⟨hA, o, p, s, t, h, hp, of_decide_eq_true ho, hcarried, hleft⟩

end SatWalk
