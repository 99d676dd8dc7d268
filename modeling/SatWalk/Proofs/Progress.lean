import SatWalk.Proofs.Budgets
import SatWalk.Proofs.Trails

namespace SatWalk

theorem State.Exact.size_unsatisfied {F : Formula} {s : State F} (hs : s.Exact) :
    s.unsatisfied.size = (F.falseClauses s.assignment).length := by
  have hnodup : ((F.falseClauses s.assignment).map Int.ofNat).Nodup := by
    rw [Formula.falseClauses_eq]
    exact (F.nodup_idsWith _).map fun _ _ => Int.ofNat.inj
  have hperm : s.unsatisfied.toList.Perm ((F.falseClauses s.assignment).map Int.ofNat) := by
    apply (List.perm_ext_iff_of_nodup s.unsatisfied.nodup_toList hnodup).2
    intro a
    rw [← PickSet.mem_iff, hs a, List.mem_map]
    simp only [Int.ofNat_eq_natCast, eq_comm]
  rw [← PickSet.length_toList, hperm.length_eq, List.length_map]

theorem Statistics.pairwise_flipSizes (s : Statistics) :
    s.flipSizes.toList.Pairwise fun a b => a.1 < b.1 := by
  apply Std.TreeMap.ordered_keys_toList.imp
  intro a b hab
  exact Int.compare_eq_lt.1 hab

section
variable {R : Type} [MachineReal R] {α : Type} {F : Formula} {c : Config R} {G : Type} [Source G]

theorem Event.text_progress (n u : Nat) (s : Statistics) : (progress n u s : Event R).text =
    "Steps: " ++ toString n ++ " | unsatisfied: " ++ toString u ++ " | min. unsatisfied: " ++
      toString s.lowest ++ " | flip sizes: " ++ flipSizesText s := rfl

def Walk.report (u : Walk F c) : Event R :=
  .progress u.steps u.state.unsatisfied.size u.statistics

namespace Run

variable {view : Walk F c → α} {w w' : Walk F c} {g g' : G} {log log' : Log R α}

theorem toList_notices (view : Walk F c → α) (w : Walk F c) : (notices view w).toList =
    .seen (view w) :: if c.reportInterval ≠ 0 ∧ c.reportInterval ∣ w.steps then [.event w.report]
      else [] := by
  simp only [notices, Nat.dvd_iff_mod_eq_zero]
  split <;> rfl

theorem flatMap_notices (view : Walk F c → α) (k : Nat) (s : Walk F c × G) :
    (List.range (k + 1)).flatMap (fun i => (notices view (Operation.step.after^[i + 1] s).1).toList) =
      (notices view (Operation.step.after s).1).toList ++ (List.range k).flatMap fun i =>
        (notices view (Operation.step.after^[i + 1] (Operation.step.after s)).1).toList := by
  rw [List.range_succ_eq_map, List.flatMap_cons, List.flatMap_map]
  rfl

theorem drive_noticed {status : Status} (h : drive view w g log = .ok status ((w', g'), log')) :
    ∃ k, w'.steps = w.steps + k ∧ Operation.step.after^[k + 1] (w, g) = (w', g') ∧
      (∀ i ≤ k, (Operation.step.after^[i] (w, g)).1.steps = w.steps + i) ∧
      log'.toList = log.toList ++
        (List.range k).flatMap (fun i => (notices view (Operation.step.after^[i + 1] (w, g)).1).toList) ++
        [.event (ending status w')] := by
  -- Along the run: a step that leaves the search running is a counted one, so only the last step of a
  -- run can go without being counted.
  fun_induction drive view w g log with
  | case1 w g log e s hstep => cases h
  | case2 w g log w₁ g₁ log₁ hstep =>
    rename_i ih
    have hafter : Operation.step.after (w, g) = (w₁, g₁) := by rw [Operation.after, hstep, leftBy]
    obtain ⟨hsteps, -⟩ := Walk.step_running hstep
    have hlog₁ : log₁ = log ++ notices view w₁ := dif_neg (by omega)
    obtain ⟨k, hk, hend, hcounter, hlog⟩ := ih h
    refine ⟨k + 1, by omega, ?_, ?_, ?_⟩
    · rw [Function.iterate_succ_apply, hafter, hend]
    · rintro (- | i) hi
      · rfl
      · rw [Function.iterate_succ_apply, hafter, hcounter i (by omega)]
        omega
    · rw [flatMap_notices, hafter, hlog, hlog₁,
        Array.toList_append, List.append_assoc log.toList]
  | case3 w g log status w₁ g₁ hstep log₁ hs =>
    cases h
    have hafter : Operation.step.after (w, g) = (w', g') := by rw [Operation.after, hstep, leftBy]
    obtain hsame | hnext := (Walk.step_ok hstep).steps_cases
    · have hlog₁ : log₁ = log := dif_pos hsame
      refine ⟨0, hsame, hafter, ?_, ?_⟩
      · intro i hi
        obtain rfl : i = 0 := Nat.le_zero.1 hi
        rfl
      · rw [hlog₁, Array.toList_push, List.range_zero, List.flatMap_nil, List.append_nil]
    · have hlog₁ : log₁ = log ++ notices view w' := dif_neg (by omega)
      refine ⟨1, hnext, ?_, ?_, ?_⟩
      -- The search is over, so one more step leaves it as it is.
      · have hterminal : w'.status.isTerminal = true := by
          rw [(Walk.step_ok hstep).status_eq, Status.isTerminal, decide_eq_true hs]
        rw [Function.iterate_succ_apply, hafter]
        change leftBy (Walk.step (w', g')) = _
        rw [Walk.step_eq, if_pos hterminal, leftBy]
      · intro i hi
        obtain rfl | rfl : i = 0 ∨ i = 1 := by omega
        · rfl
        · rw [Function.iterate_one, hafter, hnext]
      · rw [flatMap_notices, hafter, hlog₁,
          Array.toList_push, Array.toList_append, List.range_zero, List.flatMap_nil, List.append_nil]

theorem finish_ok {o : Outcome} (h : finish view ((w, g), log) = .ok o ((w', g'), log')) :
    drive view w g log = .ok w'.status ((w', g'), log') ∧ w'.status ≠ .running ∧ o = w'.outcome := by
  simp only [finish] at h
  split at h
  · next status s hdrive =>
    cases h
    obtain ⟨n, hends⟩ := drive_ok hdrive
    have hstatus : w'.status = status := hends.status_eq
    rw [hstatus]
    exact ⟨hdrive, hends.ne_running, rfl⟩
  · cases h

theorem finish_over (hs : w.status ≠ .running) (view : Walk F c → α) (g : G) (log : Log R α) :
    finish view ((w, g), log) =
      .ok w.outcome ((w, g), log.push (.event (ending w.status w))) := by
  have hterminal : w.status.isTerminal = true := decide_eq_true hs
  have hstep : Walk.step (w, g) = .ok w.status (w, g) := by rw [Walk.step_eq, if_pos hterminal]
  rw [finish, drive_ended log hstep hs, noted, if_pos rfl]

end Run

structure Figures (s : Walk F c × G) (least : Int) (sizes : List (Int × Nat)) : Prop where
  exists_trail : ∃ v moves, Trail v moves s
  least_mem : ∀ v moves, Trail v moves s → least ∈ unsatisfiedCounts v moves
  least_le : ∀ v moves, Trail v moves s → ∀ n ∈ unsatisfiedCounts v moves, least ≤ n
  increasing : sizes.Pairwise fun a b => a.1 < b.1
  mem_sizes : ∀ v moves, Trail v moves s → ∀ k n, (k, n) ∈ sizes ↔
    k ∈ flipSizes moves ∧ n = (flipSizes moves).count k

namespace Reached

variable {s : Walk F c × G}

theorem after_iterate (h : Reached s) (i : Nat) : Reached (Operation.step.after^[i] s) := by
  induction i with
  | zero => exact h
  | succ i ih =>
    rw [Function.iterate_succ_apply']
    exact ih.after .step

theorem figures (h : Reached s) : Figures s s.1.statistics.lowest s.1.statistics.flipSizes.toList where
  exists_trail := h.exists_trail
  least_mem _ _ ht := ht.tally.lowest_mem
  least_le _ _ ht := ht.tally.lowest_le
  increasing := s.1.statistics.pairwise_flipSizes
  mem_sizes v moves ht k n := by
    rw [Std.TreeMap.mem_toList_iff_getElem?_eq_some, ht.tally.histogram k,
      Option.ite_none_right_eq_some, Option.some.injEq, eq_comm (a := n)]

theorem text_report (h : Reached s) : s.1.report.text =
    "Steps: " ++ toString s.1.steps ++ " | unsatisfied: " ++
      toString (F.falseClauses s.1.state.assignment).length ++ " | min. unsatisfied: " ++
      toString s.1.statistics.lowest ++ " | flip sizes: " ++ "\x7b" ++
      commaSeparated (s.1.statistics.flipSizes.toList.map fun e => toString e.1 ++ ": " ++ toString e.2) ++
      "\x7d" := by
  rw [Walk.report, Event.text_progress, h.exact.size_unsatisfied, Event.flipSizesText]
  simp only [String.append_assoc]

theorem text_ending (h : Reached s) (hs : s.1.status ≠ .running) :
    (s.1.status = .satisfied ∧ (Run.ending s.1.status s.1).text =
      "All clauses satisfied after " ++ toString s.1.steps ++ " steps.") ∨
    (s.1.status = .exhausted ∧ (Run.ending s.1.status s.1).text =
      "Step budget exhausted after " ++ toString s.1.steps ++ " steps (" ++
        toString (F.falseClauses s.1.state.assignment).length ++ " clauses unsatisfied, min. " ++
        toString s.1.statistics.lowest ++ ").") := by
  rw [← h.exact.size_unsatisfied]
  cases hstatus : s.1.status with
  | running => exact absurd hstatus hs
  | satisfied => exact .inl ⟨rfl, rfl⟩
  | exhausted => exact .inr ⟨rfl, rfl⟩

end Reached

theorem Run.level_ending (status : Status) (w : Walk F c) : (ending status w).level = .info := by
  unfold ending
  split <;> rfl

/-- Every step that a run counts is seen once, in the order of the counter and as the search stood after
it; right after that comes a report when the counter is a multiple of the interval. One line on how the
run ended comes last. A report tells what was unsatisfied, the fewest so far and the sizes of the flip
sets in increasing order, and a second run sees nothing and returns the same. -/
theorem Reached.finish_noticed {view : Walk F c → α} {w w' : Walk F c} {g g' : G} {log log' : Log R α}
    {o : Outcome} (h : Reached (w, g)) (hrun : Run.finish view ((w, g), log) = .ok o ((w', g'), log')) :
    ∃ (k : Nat) (last : Event R), w'.steps = w.steps + k ∧ o = w'.outcome ∧
      Operation.step.after^[k + 1] (w, g) = (w', g') ∧
      (∀ i ≤ k, (Operation.step.after^[i] (w, g)).1.steps = w.steps + i) ∧
      log'.toList = log.toList ++
        (List.range k).flatMap (fun i => .seen (view (Operation.step.after^[i + 1] (w, g)).1) ::
          if c.reportInterval ≠ 0 ∧ c.reportInterval ∣ w.steps + i + 1 then
            [.event (Operation.step.after^[i + 1] (w, g)).1.report] else []) ++
        [.event last] ∧
      (∀ i ≤ k, ∃ least sizes, Figures (Operation.step.after^[i] (w, g)) least sizes ∧
        (Operation.step.after^[i] (w, g)).1.report.level = .info ∧
        (Operation.step.after^[i] (w, g)).1.report.text =
          "Steps: " ++ toString (w.steps + i) ++ " | unsatisfied: " ++
            toString (F.falseClauses (Operation.step.after^[i] (w, g)).1.state.assignment).length ++
            " | min. unsatisfied: " ++ toString least ++ " | flip sizes: " ++ "\x7b" ++
            commaSeparated (sizes.map fun e => toString e.1 ++ ": " ++ toString e.2) ++ "\x7d") ∧
      (∃ least sizes, Figures (w', g') least sizes ∧ last.level = .info ∧
        ((o.status = .satisfied ∧
            last.text = "All clauses satisfied after " ++ toString w'.steps ++ " steps.") ∨
          (o.status = .exhausted ∧
            last.text = "Step budget exhausted after " ++ toString w'.steps ++ " steps (" ++
              toString (F.falseClauses w'.state.assignment).length ++ " clauses unsatisfied, min. " ++
              toString least ++ ")."))) ∧
      ∀ (β : Type) (view' : Walk F c → β) (g'' : G) (log'' : Log R β),
        Run.finish view' ((w', g''), log'') = .ok o ((w', g''), log''.push (.event last)) := by
  obtain ⟨hdrive, hs, rfl⟩ := Run.finish_ok hrun
  obtain ⟨k, hk, hend, hcounter, hlog⟩ := Run.drive_noticed hdrive
  have hreached : Reached (w', g') := hend ▸ h.after_iterate (k + 1)
  refine ⟨k, Run.ending w'.status w', hk, rfl, hend, hcounter, ?_, ?_, ?_, ?_⟩
  · have hnotices : ∀ i ∈ List.range k,
        (Run.notices view (Operation.step.after^[i + 1] (w, g)).1).toList =
        .seen (view (Operation.step.after^[i + 1] (w, g)).1) ::
          if c.reportInterval ≠ 0 ∧ c.reportInterval ∣ w.steps + i + 1 then
            [.event (Operation.step.after^[i + 1] (w, g)).1.report] else [] := by
      intro i hi
      rw [Run.toList_notices, hcounter (i + 1) (List.mem_range.1 hi), Nat.add_assoc]
    rw [hlog, List.flatMap_congr hnotices]
  · intro i hi
    have htext := (h.after_iterate i).text_report
    rw [hcounter i hi] at htext
    exact ⟨_, _, (h.after_iterate i).figures, rfl, htext⟩
  · exact ⟨_, _, hreached.figures, Run.level_ending _ _, hreached.text_ending hs⟩
  · intro β view' g'' log''
    exact Run.finish_over hs view' g'' log''

end

def pacedConfig : Config Float := { coinConfig.withBudget 4 (by decide) with reportInterval := 2 }

theorem Reached.finish_noticed_clash :
    ∃ (w w' : Walk clashFormula pacedConfig) (g g' : Script) (log' : Log Float Nat) (o : Outcome)
      (u₂ u₄ : Walk clashFormula pacedConfig) (last : Event Float),
      Reached (w, g) ∧ w.steps = 1 ∧ Run.finish Walk.steps ((w, g), #[]) = .ok o ((w', g'), log') ∧
      o.status = .exhausted ∧ w'.steps = 4 ∧
      log'.toList = [.seen 2, .event u₂.report, .seen 3, .seen 4, .event u₄.report, .event last] ∧
      Run.finish Walk.steps ((w', g'), #[]) = .ok o ((w', g'), #[.event last]) := by
  obtain ⟨⟨w, g⟩, h, hsteps, hfinish⟩ : ∃ s : Walk clashFormula pacedConfig × Script,
      Reached s ∧ s.1.steps = 1 ∧ succeedsWith (fun o => o.status = .exhausted ∧ o.steps = 4)
        (Run.finish Walk.steps (s, (#[] : Log Float Nat))) = true :=
    ⟨_, .after .step (.start (A := some (.ofList [true])) (g := ⟨[0, -1, 0, 0, 0, -1, 0, 0]⟩) rfl),
      by decide +kernel, by decide +kernel⟩
  obtain ⟨o, ⟨⟨w', g'⟩, log'⟩, hrun, ho⟩ := exists_ok hfinish
  obtain ⟨hstatus, hlast⟩ := of_decide_eq_true ho
  obtain ⟨k, last, hk, rfl, -, hcounter, hlog, -, -, hagain⟩ := finish_noticed h hrun
  have hend : w'.steps = 4 := Int.ofNat.inj hlast
  have hbegin : w.steps = 1 := hsteps
  obtain rfl : k = 3 := by omega
  refine ⟨w, w', g, g', log', w'.outcome, (Operation.step.after^[1] (w, g)).1,
    (Operation.step.after^[3] (w, g)).1, last, h, hbegin, hrun, hstatus, hend, ?_, hagain _ _ g' #[]⟩
  have hrange : List.range 3 = [0, 1, 2] := rfl
  have hinterval : pacedConfig.reportInterval = 2 := rfl
  simp only [hlog, hrange, List.flatMap_cons, List.flatMap_nil, hcounter 1 (by decide),
    hcounter 2 (by decide), hcounter 3 (by decide), hbegin, hinterval]
  rfl

end SatWalk
