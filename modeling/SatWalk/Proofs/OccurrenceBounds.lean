import Mathlib.Algebra.Order.BigOperators.Group.Finset
import SatWalk.Proofs.Indexes
import SatWalk.Proofs.Interruptions

namespace SatWalk

namespace Formula

variable {F : Formula} {l : Literal}

def numWith (F : Formula) (l : Literal) : Nat := F.clauses.toList.countP fun c => decide (l ∈ c)

theorem length_idsWith_literal (F : Formula) (l : Literal) :
    (F.idsWith fun c => decide (l ∈ c)).length = F.numWith l :=
  F.length_idsWith _

theorem numWith_le (F : Formula) (l : Literal) : F.numWith l ≤ F.maxOccurrences := by
  by_cases hl : l.natAbs ≤ F.numVars
  · have hvar := maxOccurrences_le_iff.1 (le_refl F.maxOccurrences) l.natAbs hl
    rw [length_idsWith] at hvar
    apply le_trans _ hvar
    apply List.countP_mono_left
    intro c _ hc
    rw [decide_eq_true_eq] at hc ⊢
    exact mem_distinctVars.2 ⟨l, hc, rfl⟩
  · have hnone : F.numWith l = 0 := by
      apply List.countP_eq_zero.2
      intro c hc hmem
      exact hl (F.le_numVars c hc l (of_decide_eq_true hmem))
    rw [hnone]
    exact Nat.zero_le _

end Formula

namespace State

variable {F : Formula} {s : State F} {vars : List Var}

theorem exists_trueLiteral (hvars : vars.Nodup) {id t : Nat} {d : Clause} (hd : F.clauses[id]? = some d)
    (hold : d.holds s.assignment = true) (hbroken : d.holds (s.assignment.toggled (select vars t)) = false) :
    ∃ i : Fin vars.length, t.testBit i.val = true ∧ s.trueLiteral (vars.get i) ∈ d := by
  obtain ⟨l, hl, htrue⟩ := Clause.holds_iff.1 hold
  have hflipped := Clause.not_holds_iff.1 hbroken l hl
  rw [Profile.truth_flipped (fun l hl => natAbs_le hd hl) hvars hl, htrue, Bool.true_xor,
    Bool.not_eq_false', decide_eq_true_eq] at hflipped
  obtain ⟨i, hi, hbit⟩ := mem_select.1 hflipped
  obtain ⟨hlt, hget⟩ := List.getElem?_eq_some_iff.1 hi
  refine ⟨⟨i, hlt⟩, hbit, ?_⟩
  have hne : l ≠ 0 := F.ne_zero d (Formula.mem_clauses hd) l hl
  have hliteral : s.trueLiteral l.natAbs = l := (s.trueLiteral_natAbs hne).2 htrue
  rw [List.get_eq_getElem, hget, hliteral]
  exact hl

theorem brokenCount_le_sum (s : State F) (scope : Scope) (hvars : vars.Nodup) (t : Nat) :
    s.brokenCount scope vars t ≤
      ∑ i : Fin vars.length with t.testBit i.val, F.numWith (s.trueLiteral (vars.get i)) := by
  have hsubset : ((F.brokenBy s.assignment (s.assignment.toggled (select vars t))).filter
      (s.inScope scope)).toFinset ⊆ (Finset.univ.filter fun i : Fin vars.length => t.testBit i.val).biUnion
        fun i => (F.idsWith fun c => decide (s.trueLiteral (vars.get i) ∈ c)).toFinset := by
    intro id hid
    rw [List.mem_toFinset, List.mem_filter, Formula.brokenBy, Formula.mem_idsWith] at hid
    obtain ⟨⟨d, hd, hb⟩, -⟩ := hid
    rw [Bool.and_eq_true, Bool.not_eq_true'] at hb
    obtain ⟨i, hbit, hl⟩ := exists_trueLiteral hvars hd hb.1 hb.2
    rw [Finset.mem_biUnion]
    refine ⟨i, Finset.mem_filter.2 ⟨Finset.mem_univ i, hbit⟩, ?_⟩
    rw [List.mem_toFinset, Formula.mem_idsWith]
    exact ⟨d, hd, decide_eq_true hl⟩
  calc s.brokenCount scope vars t
      = ((F.brokenBy s.assignment (s.assignment.toggled (select vars t))).filter
          (s.inScope scope)).toFinset.card :=
        (List.toFinset_card_of_nodup ((F.nodup_idsWith _).filter _)).symm
    _ ≤ _ := Finset.card_le_card hsubset
    _ ≤ _ := Finset.card_biUnion_le
    _ ≤ ∑ i : Fin vars.length with t.testBit i.val, F.numWith (s.trueLiteral (vars.get i)) := by
        apply Finset.sum_le_sum
        intro i _
        rw [← F.length_idsWith_literal]
        exact List.toFinset_card_le _

theorem brokenCount_single_le (s : State F) (scope : Scope) (hvars : vars.Nodup) (i : Fin vars.length) :
    s.brokenCount scope vars (1 <<< i.val : Nat) ≤ F.numWith (s.trueLiteral (vars.get i)) := by
  apply (s.brokenCount_le_sum scope hvars _).trans_eq
  have honly : (Finset.univ.filter fun j : Fin vars.length => (1 <<< i.val).testBit j.val) = {i} := by
    ext j
    rw [Finset.mem_filter, Finset.mem_singleton, Profile.testBit_one_shiftLeft, eq_comm, Fin.val_inj]
    exact and_iff_right (Finset.mem_univ j)
  rw [honly, Finset.sum_singleton]

theorem singleBreaks_le_maxOccurrences {scope : Scope} {d : Clause} {counts : Array Int}
    (h : s.singleBreaks scope d = .ok counts) : ∀ b ∈ counts.toList, 0 ≤ b ∧ b ≤ F.maxOccurrences := by
  rw [singleBreaks_eq] at h
  cases h
  intro b hb
  obtain ⟨i, rfl⟩ := Array.mem_ofFn.1 (Array.mem_toList_iff.1 hb)
  refine ⟨Int.natCast_nonneg _, Int.ofNat_le.2 ?_⟩
  exact (s.brokenCount_single_le scope (nodup_distinctVars d) i).trans (F.numWith_le _)

end State

section
variable {R : Type} [MachineReal R] {w : Weighting R} {F : Formula} {c : Config R} {G : Type} [Source G]

open WeightTable

theorem WeightTable.lookup_held {t : WeightTable R} (h : t.Holds w) {b : Nat} (hb : b < t.size) :
    ∃ x, lookup b t = .ok x t := by
  have hanswered := lookup_answered h b
  generalize lookup b t = r at hanswered ⊢
  cases hanswered with
  | held hlt hx => exact ⟨_, rfl⟩
  | grown hle => exact absurd hb (Nat.not_lt.2 hle)
  | stopped hle => exact absurd hb (Nat.not_lt.2 hle)

theorem Sampler.weights_held {t : WeightTable R} (h : t.Holds w) {bs : List Int}
    (hbs : ∀ b ∈ bs, 0 ≤ b ∧ b < t.size) : ∃ xs, weights bs t = .ok xs t := by
  induction bs with
  | nil => exact ⟨[], rfl⟩
  | cons b bs ih =>
    obtain ⟨⟨hlow, hhigh⟩, hrest⟩ := List.forall_mem_cons.1 hbs
    obtain ⟨x, hx⟩ := lookup_held h (b := b.toNat) (by omega)
    obtain ⟨xs, hxs⟩ := ih hrest
    rw [Int.toNat_of_nonneg hlow] at hx
    refine ⟨x :: xs, ?_⟩
    simp only [weights, bind, EStateM.bind, hx, hxs]
    rfl

theorem Sampler.chooseAlike_held {t : WeightTable R} (h : t.Holds w) {p : Sampler} {s : State F}
    (hasked : ∀ d bs, p.asked s d = .ok bs → ∀ b ∈ bs, 0 ≤ b ∧ b < t.size) :
    ChooseAlike G (fun t' u => t' = t ∧ u = t) s p p := by
  rintro i _ _ ⟨rfl, rfl⟩ g
  apply choose_paired ⟨rfl, rfl⟩
  intro bs hbs
  obtain ⟨xs, hxs⟩ := weights_held h (hasked _ bs hbs)
  rw [hxs]
  exact .ok rfl ⟨rfl, rfl⟩

theorem Config.asked_lt (hc : c.strategy = .singleFlip) {t : WeightTable R}
    (ht : t.size = F.maxOccurrences + 1) (s : State F) {d : Clause} {bs : List Int}
    (h : c.sampler.asked s d = .ok bs) : ∀ b ∈ bs, 0 ≤ b ∧ b < t.size := by
  simp only [Sampler.asked, Config.sampler, hc] at h
  cases hcounts : s.singleBreaks c.scope d with
  | error e =>
    rw [hcounts] at h
    cases h
  | ok counts =>
    rw [hcounts] at h
    cases h
    intro b hb
    have hbounds := State.singleBreaks_le_maxOccurrences hcounts b hb
    omega

namespace Walk

theorem startTable_single (hc : c.strategy = .singleFlip) {t : WeightTable R}
    (h : startTable F c = .ok t) : t.Holds c.weighting ∧ t.size = F.maxOccurrences + 1 := by
  refine ⟨holds_startTable h, ?_⟩
  rw [startTable, hc, if_neg (by decide)] at h
  have hsize := (of_create h).2
  omega

theorem table_after (hc : c.strategy = .singleFlip) {w : Walk F c} (hw : w.state.Exact)
    (ht : startTable F c = .ok w.table) (op : Operation) (g : G) : (op.after (w, g)).1.table = w.table := by
  cases op with
  | step =>
    obtain ⟨hholds, hsize⟩ := startTable_single hc ht
    have hlockstep : Lockstep G (fun w' v : Walk F c => w'.state.Exact ∧
        w'.Alike (fun t u => t = w.table ∧ u = w.table) v) :=
      lockstep_alike rfl fun s _ => Sampler.chooseAlike_held hholds fun d bs => c.asked_lt hc hsize s
    exact (hlockstep.step ⟨hw, rfl, rfl, rfl, rfl, rfl, rfl⟩ g).leftBy.1.2.table.1
  | restart A => exact table_restart A g

end Walk

theorem Reached.startTable_eq (hc : c.strategy = .singleFlip) {s : Walk F c × G} (h : Reached s) :
    Walk.startTable F c = .ok s.1.table := by
  induction h with
  | start h =>
    obtain ⟨t, B, s, htable, -, -, rfl⟩ := Walk.start_ok h
    exact htable
  | @after s op h ih => rw [Walk.table_after hc h.exact ih op s.2, ih]

/-- The break counts of a clause of the formula, whatever is recorded: a combination breaks no more
clauses than the literals that hold on its variables occur in, and a single flip no more than the most
frequent variable. So a search by single flips keeps the table it started with, and finds in it all
weights it asks for. -/
theorem Reached.table_suffices (F : Formula) (c : Config R) :
    (∀ (s : State F) (scope : Scope) (j : Fin F.clauses.size),
      let vars := distinctVars (F.clauseAt j)
      (if 63 ≤ vars.length then s.combinationBreaks scope (F.clauseAt j) = .error .tooLarge
      else ∃ counts, s.combinationBreaks scope (F.clauseAt j) = .ok counts ∧
        counts.size = 2 ^ vars.length ∧ ∀ t : Fin (2 ^ vars.length), ∃ b : Nat,
          counts[t.val]? = some (b : Int) ∧
          b ≤ ∑ i : Fin vars.length with t.val.testBit i.val, F.numWith (s.trueLiteral (vars.get i))) ∧
      ∃ counts, s.singleBreaks scope (F.clauseAt j) = .ok counts ∧ counts.size = vars.length ∧
        ∀ i : Fin vars.length, ∃ b : Nat, counts[i.val]? = some (b : Int) ∧
          b ≤ F.numWith (s.trueLiteral (vars.get i)) ∧
          F.numWith (s.trueLiteral (vars.get i)) ≤ F.maxOccurrences) ∧
    (c.strategy = .singleFlip → ∀ s : Walk F c × G, Reached s →
      Walk.startTable F c = .ok s.1.table ∧ s.1.table.size = F.maxOccurrences + 1 ∧
      ∀ (j : Fin F.clauses.size) (bs : List Int), c.sampler.asked s.1.state (F.clauseAt j) = .ok bs →
        ∀ b ∈ bs, 0 ≤ b ∧ b < s.1.table.size) := by
  constructor
  · intro s scope j vars
    have hvars : vars.Nodup := nodup_distinctVars (F.clauseAt j)
    constructor
    · rw [State.combinationBreaks_eq]
      split
      · rfl
      · refine ⟨_, rfl, Array.size_ofFn, ?_⟩
        intro t
        refine ⟨s.brokenCount scope vars t, ?_, s.brokenCount_le_sum scope hvars t⟩
        rw [Array.getElem?_ofFn, dif_pos t.isLt]
    · rw [State.singleBreaks_eq]
      refine ⟨_, rfl, Array.size_ofFn, ?_⟩
      intro i
      refine ⟨s.brokenCount scope vars (1 <<< i.val : Nat), ?_, s.brokenCount_single_le scope hvars i,
        F.numWith_le _⟩
      rw [Array.getElem?_ofFn, dif_pos i.isLt]
  · intro hc s h
    have ht := h.startTable_eq hc
    have hsize := (Walk.startTable_single hc ht).2
    refine ⟨ht, hsize, ?_⟩
    intro j bs hbs
    exact Config.asked_lt hc hsize s.1.state hbs

end

def singleConfig : Config Float := { coinConfig with strategy := .singleFlip }

theorem Reached.table_suffices_chain :
    ∃ (s : Walk chainFormula singleConfig × Script) (counts : Array Int), Reached s ∧ s.1.steps = 1 ∧
      s.1.state.unsatisfied.toList = [1] ∧ s.1.table.size = 3 ∧
      s.1.state.singleBreaks .satisfied (chainFormula.clauseAt ⟨1, by decide⟩) = .ok counts ∧
      counts.size = 2 ∧ ∃ b : Nat, counts[0]? = some (b : Int) ∧ b ≤ 1 := by
  obtain ⟨s, h, hsteps, hunsatisfied, hliteral⟩ : ∃ s : Walk chainFormula singleConfig × Script,
      Reached s ∧ s.1.steps = 1 ∧ s.1.state.unsatisfied.toList = [1] ∧
      chainFormula.numWith (s.1.state.trueLiteral 1) = 1 :=
    ⟨_, .after .step (.start (A := some (.ofList [false, false, false])) (g := ⟨[0, 0]⟩) rfl),
      by decide +kernel, by decide +kernel, by decide +kernel⟩
  obtain ⟨hbounds, hrun⟩ := table_suffices chainFormula singleConfig (G := Script)
  obtain ⟨-, hsize, -⟩ := hrun rfl s h
  obtain ⟨-, counts, hcounts, hwidth, hsingle⟩ := hbounds s.1.state .satisfied ⟨1, by decide⟩
  obtain ⟨b, hb, hle, -⟩ := hsingle ⟨0, by decide⟩
  exact ⟨s, counts, h, hsteps, hunsatisfied, hsize, hcounts, hwidth, b, hb, hle.trans hliteral.le⟩

end SatWalk
