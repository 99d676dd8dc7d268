import SatWalk.Proofs.Repairs
import SatWalk.Proofs.WholeRun

namespace SatWalk

namespace Statistics

theorem sum_flipSizes {s : Statistics} {ks : List Int}
    (h : ∀ k, s.flipSizes[k]? = if k ∈ ks then some (ks.count k) else none) :
    (s.flipSizes.toList.map Prod.snd).sum = ks.length := by
  have hnodup : s.flipSizes.toList.Nodup := by
    apply Std.TreeMap.distinct_keys_toList.imp
    rintro e f hne rfl
    exact hne Std.ReflCmp.compare_self
  have hdedup : (ks.dedup.map fun k => (k, ks.count k)).Nodup := by
    apply List.Nodup.map _ (List.nodup_dedup ks)
    intro k l he
    exact congrArg Prod.fst he
  have hperm : s.flipSizes.toList.Perm (ks.dedup.map fun k => (k, ks.count k)) := by
    apply (List.perm_ext_iff_of_nodup hnodup hdedup).2
    rintro ⟨k, n⟩
    rw [Std.TreeMap.mem_toList_iff_getElem?_eq_some, h k, List.mem_map]
    simp only [List.mem_dedup, Prod.mk.injEq, Option.ite_none_right_eq_some, Option.some.injEq]
    constructor
    · rintro ⟨hk, hn⟩
      exact ⟨k, hk, rfl, hn⟩
    · rintro ⟨l, hl, rfl, hn⟩
      exact ⟨hl, hn⟩
  rw [(hperm.map Prod.snd).sum_eq, List.map_map]
  exact List.sum_map_count_dedup_eq_length ks

theorem flipSizes_record {s : Statistics} {ks : List Int} {size unsatisfied : Int}
    (h : ∀ k, s.flipSizes[k]? = if k ∈ ks then some (ks.count k) else none) (k : Int) :
    (s.record size unsatisfied).flipSizes[k]? =
      if k ∈ size :: ks then some ((size :: ks).count k) else none := by
  have hold : s.flipSizes.getD size 0 = ks.count size := by
    rw [Std.TreeMap.getD_eq_getD_getElem?, h size]
    split
    · rfl
    · next hm => exact (List.count_eq_zero.2 hm).symm
  rw [record, Std.TreeMap.getElem?_insert]
  by_cases hk : size = k
  · subst hk
    simp [hold]
  · simp [hk, Ne.symm hk, h k]

theorem lowest_record (s : Statistics) (size unsatisfied : Int) :
    (s.record size unsatisfied).lowest = min s.lowest unsatisfied := by
  simp only [record]
  split <;> omega

end Statistics

section
variable {R : Type} [MachineReal R] {F : Formula} {c : Config R} {G : Type} [Source G]

/-- How a search began last, and before and after each step counted since, the latest first. -/
inductive Trail : Walk F c → List (Walk F c × Walk F c) → Walk F c × G → Prop
  | start {A : Option Assignment} {w : Walk F c} {g g' : G} (h : Walk.start F c A g = .ok w g') :
    Trail w [] (w, g')
  | counted {v : Walk F c} {moves : List (Walk F c × Walk F c)} {s s' : Walk F c × G}
    (h : Trail v moves s) (hs : leftBy (Walk.step s) = s') (hc : s'.1.steps ≠ s.1.steps) :
    Trail v ((s.1, s'.1) :: moves) s'
  | uncounted {v : Walk F c} {moves : List (Walk F c × Walk F c)} {s s' : Walk F c × G}
    (h : Trail v moves s) (hs : leftBy (Walk.step s) = s') (hc : s'.1.steps = s.1.steps) :
    Trail v moves s'
  | restarted {v : Walk F c} {moves : List (Walk F c × Walk F c)} {s s' : Walk F c × G}
    {A : Option Assignment} (h : Trail v moves s) (hr : Walk.restart A s = .ok () s') :
    Trail s'.1 [] s'
  | refused {v : Walk F c} {moves : List (Walk F c × Walk F c)} {s s' : Walk F c × G}
    {A : Option Assignment} {e : Fault} (h : Trail v moves s) (hr : Walk.restart A s = .error e s') :
    Trail v moves s'

def flipSizes (moves : List (Walk F c × Walk F c)) : List Int :=
  moves.map fun m => ((m.1.state.assignment.changes m.2.state.assignment).length : Int)

def unsatisfiedCounts (v : Walk F c) (moves : List (Walk F c × Walk F c)) : List Int :=
  (v :: moves.map Prod.snd).map fun u => (u.state.unsatisfied.toList.length : Int)

theorem Reached.exists_trail {s : Walk F c × G} (h : Reached s) : ∃ v moves, Trail v moves s := by
  induction h with
  | start h => exact ⟨_, _, .start h⟩
  | @after s op h ih =>
    obtain ⟨v, moves, ht⟩ := ih
    cases op with
    | step =>
      by_cases hc : (leftBy (Walk.step s)).1.steps = s.1.steps
      · exact ⟨_, _, .uncounted ht rfl hc⟩
      · exact ⟨_, _, .counted ht rfl hc⟩
    | restart A =>
      obtain ⟨u, hr⟩ | ⟨e, hr⟩ := leftBy_cases (r := Walk.restart A s) rfl
      · exact ⟨_, _, .restarted ht hr⟩
      · exact ⟨_, _, .refused ht hr⟩

namespace Trail

variable {v : Walk F c} {moves : List (Walk F c × Walk F c)} {s : Walk F c × G}

theorem reached (h : Trail v moves s) : Reached s := by
  induction h with
  | start h => exact .start h
  | counted h hs hc ih => exact hs ▸ ih.after .step
  | uncounted h hs hc ih => exact hs ▸ ih.after .step
  | @restarted v moves s s' A h hr ih =>
    have hafter := ih.after (.restart A)
    rwa [Operation.after, hr] at hafter
  | @refused v moves s s' A e h hr ih =>
    have hafter := ih.after (.restart A)
    rwa [Operation.after, hr] at hafter

structure Tally (v : Walk F c) (moves : List (Walk F c × Walk F c)) (w : Walk F c) : Prop where
  steps_eq : w.steps = moves.length
  histogram : ∀ k, w.statistics.flipSizes[k]? =
    if k ∈ flipSizes moves then some ((flipSizes moves).count k) else none
  sizes : ∀ k ∈ flipSizes moves, 1 ≤ k ∧ k ≤ F.maxWidth ∧ (c.strategy = .singleFlip → k = 1)
  lowest_mem : w.statistics.lowest ∈ unsatisfiedCounts v moves
  lowest_le : ∀ n ∈ unsatisfiedCounts v moves, w.statistics.lowest ≤ n

theorem tally_fresh (s : State F) (t : WeightTable R) :
    Tally (Walk.fresh s t : Walk F c) [] (Walk.fresh s t) where
  steps_eq := rfl
  histogram _ := Std.TreeMap.getElem?_emptyc
  sizes _ hk := nomatch hk
  lowest_mem := List.mem_singleton.2 rfl
  lowest_le _ hn := (List.mem_singleton.1 hn).ge

theorem Tally.of_eq {w w' : Walk F c} (h : Tally v moves w) (hsteps : w'.steps = w.steps)
    (hstatistics : w'.statistics = w.statistics) : Tally v moves w' := by
  obtain ⟨h1, h2, h3, h4, h5⟩ := h
  rw [← hsteps] at h1
  rw [← hstatistics] at h2 h4 h5
  exact ⟨h1, h2, h3, h4, h5⟩

theorem Tally.repairs {w w' : Walk F c} {g g' : G} {i : Fin F.clauses.size}
    {choice : FlipChoice Var} (h : Tally v moves w) (hr : w.Repairs g w' g' i choice) :
    Tally v ((w, w') :: moves) w' := by
  obtain ⟨g₁, -, hchoose⟩ := hr.chosen
  have hsize : (w.state.assignment.changes w'.state.assignment).length = choice.vars.length :=
    (State.flip_choice hchoose hr.flipped).2.length_eq
  obtain ⟨hpos, hwidth, hsingle⟩ := Sampler.length_vars hr.not_holds hchoose
  have hsizes : flipSizes ((w, w') :: moves) = (choice.vars.length : Int) :: flipSizes moves := by
    rw [← hsize]
    rfl
  have hcounts : ∀ n, n ∈ unsatisfiedCounts v ((w, w') :: moves) ↔
      n = w'.state.unsatisfied.size ∨ n ∈ unsatisfiedCounts v moves := by
    intro n
    simp only [unsatisfiedCounts, List.map_cons, List.mem_cons, PickSet.length_toList]
    exact or_left_comm
  have hlowest : w'.statistics.lowest = min w.statistics.lowest w'.state.unsatisfied.size := by
    rw [hr.statistics_eq, Statistics.lowest_record]
  refine ⟨?_, ?_, ?_, ?_, ?_⟩
  · rw [hr.steps_eq, h.steps_eq, List.length_cons]
  · rw [hr.statistics_eq, hsizes]
    exact Statistics.flipSizes_record h.histogram
  · intro k hk
    rw [hsizes] at hk
    rcases List.mem_cons.1 hk with rfl | hk
    · refine ⟨by omega, by omega, ?_⟩
      intro hs
      exact congrArg Nat.cast (hsingle hs)
    · exact h.sizes k hk
  · rw [hcounts, hlowest]
    rcases min_choice w.statistics.lowest (w'.state.unsatisfied.size : Int) with he | he
    · rw [he]
      exact .inr h.lowest_mem
    · exact .inl he
  · intro n hn
    rw [hlowest]
    rcases (hcounts n).1 hn with rfl | hn
    · exact min_le_right _ _
    · exact (min_le_left _ _).trans (h.lowest_le n hn)

theorem tally (h : Trail v moves s) : Tally v moves s.1 := by
  -- Only a counted step and a restart touch what a tally is about.
  induction h with
  | start h =>
    obtain ⟨t, B, s, -, -, -, rfl⟩ := Walk.start_ok h
    exact tally_fresh s t
  | @counted v moves s s' h hs hc ih =>
    obtain ⟨w, hstatus, hu, hm, hw⟩ := Walk.counted_step h.reached.exact hs hc
    obtain ⟨i, choice, hr⟩ := Walk.move_repairs h.reached.exact hm
    have hmoved := ih.repairs hr
    rw [hw]
    exact ⟨hmoved.steps_eq, hmoved.histogram, hmoved.sizes, hmoved.lowest_mem, hmoved.lowest_le⟩
  | uncounted h hs hc ih => exact ih.of_eq hc (Walk.uncounted_step h.reached.exact hs hc).2
  | restarted h hr ih =>
    obtain ⟨B, s, -, -, hs'⟩ := Walk.restart_ok hr
    rw [hs']
    exact tally_fresh s _
  | refused h hr ih => rwa [Walk.restart_error hr]

end Trail

theorem Reached.onBudget {s : Walk F c × G} (h : Reached s) : s.1.OnBudget := by
  induction h with
  | start h =>
    obtain ⟨t, B, s, -, -, -, rfl⟩ := Walk.start_ok h
    exact Walk.onBudget_fresh s t
  | @after s op h ih =>
    cases op with
    | step =>
      obtain ⟨status, hs⟩ | ⟨t, ht⟩ := Walk.leftBy_step h.exact (Eq.refl (leftBy (Walk.step s)))
      · exact hs.onBudget ih
      · have hafter : (Operation.step.after s).1 = { s.1 with table := t } := ht
        rw [hafter]
        exact ⟨ih.steps_le, ih.running, ih.satisfied, ih.exhausted⟩
    | restart A =>
      obtain ⟨u, hr⟩ | ⟨e, hr⟩ := leftBy_cases (Eq.refl (leftBy (Walk.restart A s)))
      · obtain ⟨B, s₁, -, -, hw⟩ := Walk.restart_ok hr
        have hafter : ((Operation.restart A).after s).1 = Walk.fresh s₁ s.1.table := hw
        rw [hafter]
        exact Walk.onBudget_fresh s₁ _
      · have hafter : ((Operation.restart A).after s).1 = s.1 := Walk.restart_error hr
        rwa [hafter]

/-- The status is what the counter and the record call for, a search that is over stays as it is, and
the statistics since it last began are exact. -/
theorem Reached.status_and_statistics {w : Walk F c} {g : G} (h : Reached (w, g)) :
    w.steps ≤ c.budget ∧
      (w.status = .running → w.steps < c.budget) ∧
      (w.status = .satisfied → w.state.unsatisfied.toList = []) ∧
      (w.status = .exhausted → w.steps = c.budget ∧ w.state.unsatisfied.toList ≠ []) ∧
      (w.status ≠ .running → ∀ g' : G, Walk.step (w, g') = .ok w.status (w, g')) ∧
      (w.status = .running → w.state.unsatisfied.toList = [] →
        ∀ g' : G, Walk.step (w, g') = .ok .satisfied ({ w with status := .satisfied }, g')) ∧
      (∃ v moves, Trail v moves (w, g)) ∧
      ∀ v moves, Trail v moves (w, g) →
        Trail.Tally v moves w ∧ (w.statistics.flipSizes.toList.map Prod.snd).sum = w.steps := by
  have hw : w.OnBudget := h.onBudget
  have hempty : w.state.unsatisfied.toList = [] ↔ w.state.unsatisfied.isEmpty = true := by
    rw [PickSet.isEmpty, Array.isEmpty_iff, PickSet.toList, Array.toList_eq_nil_iff]
  refine ⟨hw.steps_le, hw.running, ?_, ?_, ?_, ?_, h.exists_trail, ?_⟩
  · intro hs
    exact hempty.2 (hw.satisfied hs)
  · intro hs
    obtain ⟨hsteps, hu⟩ := hw.exhausted hs
    refine ⟨hsteps, ?_⟩
    rw [ne_eq, hempty, hu]
    exact Bool.false_ne_true
  · intro hs g'
    have hterminal : w.status.isTerminal = true := by simpa [Status.isTerminal] using hs
    rw [Walk.step_eq, if_pos hterminal]
  · intro hs hu g'
    have hterminal : ¬ w.status.isTerminal = true := by simp [hs, Status.isTerminal]
    rw [Walk.step_eq, if_neg hterminal, if_pos (hempty.1 hu), Walk.settle_eq,
      if_pos (Walk.checked_of_exact h.exact)]
  · intro v moves ht
    have htally : Trail.Tally v moves w := ht.tally
    refine ⟨htally, ?_⟩
    rw [Statistics.sum_flipSizes htally.histogram, htally.steps_eq, flipSizes, List.length_map]

end

theorem Reached.status_and_statistics_pair :
    ∃ (v w : Walk pairFormula coinConfig) (g : Script) (moves : List (Walk pairFormula coinConfig × _)),
      Reached (w, g) ∧ Trail v moves (w, g) ∧ w.steps = 1 ∧ w.status = .running ∧
      (∀ g' : Script, Walk.step (w, g') = .ok .satisfied ({ w with status := .satisfied }, g')) ∧
      flipSizes moves = [1] ∧ w.statistics.flipSizes[(1 : Int)]? = some 1 ∧
      unsatisfiedCounts v moves = [1, 0] ∧ w.statistics.lowest = 0 := by
  have hstart : Walk.start pairFormula coinConfig (some (.ofList [true, false])) (⟨[0, 0]⟩ : Script) =
      .ok (Walk.fresh pairState ⟨coinConfig.weighting, #[]⟩) ⟨[0, 0]⟩ := rfl
  obtain ⟨v, moves, w, g, htrail, hstatus, hu, hsizes, hcounts⟩ :
      ∃ (v : Walk pairFormula coinConfig) (moves : _) (w : _) (g : Script), Trail v moves (w, g) ∧
        w.status = .running ∧ w.state.unsatisfied.toList = [] ∧ flipSizes moves = [1] ∧
        unsatisfiedCounts v moves = [1, 0] :=
    ⟨_, _, _, _, (Trail.start hstart).counted rfl (by decide +kernel), by decide +kernel,
      by decide +kernel, by decide +kernel, by decide +kernel⟩
  obtain ⟨-, -, -, -, -, hfound, -, htally⟩ := Reached.status_and_statistics htrail.reached
  obtain ⟨⟨hsteps, hhistogram, -, hmem, hle⟩, -⟩ := htally v moves htrail
  have hlength : moves.length = 1 := by simpa [flipSizes] using congrArg List.length hsizes
  have hone : w.statistics.flipSizes[(1 : Int)]? = some 1 := by
    rw [hhistogram, hsizes]
    rfl
  have hlowest : w.statistics.lowest = 0 := by
    rw [hcounts] at hmem hle
    have hle0 := hle 0 (by decide)
    rcases List.mem_pair.1 hmem with he | he <;> omega
  exact ⟨v, w, g, moves, htrail.reached, htrail, hsteps.trans hlength, hstatus, hfound hstatus hu,
    hsizes, hone, hcounts, hlowest⟩

end SatWalk
