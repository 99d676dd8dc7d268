import Mathlib.Algebra.BigOperators.Group.Finset.Piecewise
import Mathlib.Order.Interval.Finset.Nat
import Mathlib.Order.Lattice.Nat
import SatWalk.Proofs.Building
import SatWalk.Proofs.Renaming

namespace SatWalk

theorem mem_distinctVars_iff {c : Clause} {v : Nat} :
    v ∈ distinctVars c ↔ (v : Int) ∈ c ∨ -(v : Int) ∈ c := by
  rw [mem_distinctVars]
  constructor
  · rintro ⟨l, hl, rfl⟩
    obtain h | h := Int.natAbs_eq l
    · exact .inl (h ▸ hl)
    · exact .inr (by rwa [← h])
  · rintro (h | h)
    · exact ⟨_, h, Int.natAbs_natCast v⟩
    · exact ⟨_, h, by rw [Int.natAbs_neg, Int.natAbs_natCast]⟩

def SameLiterals : List Clause → List Clause → Prop :=
  List.Forall₂ fun c d => ∀ l, l ∈ c ↔ l ∈ d

theorem SameLiterals.findIdxs_eq {cs ds : List Clause} (h : SameLiterals cs ds) {p : Clause → Bool}
    (hp : ∀ c d : Clause, (∀ l, l ∈ c ↔ l ∈ d) → p c = p d) (i : Nat) :
    ds.findIdxs p i = cs.findIdxs p i := by
  induction h generalizing i with
  | nil => rfl
  | cons hcd _ ih => rw [List.findIdxs_cons, List.findIdxs_cons, hp _ _ hcd, ih]

theorem SameLiterals.symm {cs ds : List Clause} (h : SameLiterals cs ds) : SameLiterals ds cs :=
  (List.Forall₂.imp (fun _ _ hcd l => (hcd l).symm) h).flip

theorem SameLiterals.exists_mem {cs ds : List Clause} (h : SameLiterals cs ds) {d : Clause}
    (hd : d ∈ ds) : ∃ c ∈ cs, ∀ l, l ∈ c ↔ l ∈ d := by
  induction h with
  | nil => cases hd
  | @cons c e cs ds hce _ ih =>
    obtain rfl | hd := List.mem_cons.1 hd
    · exact ⟨c, List.mem_cons_self, hce⟩
    · obtain ⟨c', hc', hl⟩ := ih hd
      exact ⟨c', List.mem_cons_of_mem c hc', hl⟩

theorem SameLiterals.well_formed {cs ds : List Clause} (h : SameLiterals cs ds)
    (hcs : ∀ c ∈ cs, c ≠ [] ∧ ∀ l ∈ c, l ≠ 0) : ∀ d ∈ ds, d ≠ [] ∧ ∀ l ∈ d, l ≠ 0 := by
  intro d hd
  obtain ⟨c, hc, hl⟩ := h.exists_mem hd
  obtain ⟨m, hm⟩ := List.exists_mem_of_ne_nil c (hcs c hc).1
  exact ⟨List.ne_nil_of_mem ((hl m).1 hm), fun l hld => (hcs c hc).2 l ((hl l).2 hld)⟩

theorem SameLiterals.largestVar_le {cs ds : List Clause} (h : SameLiterals cs ds) :
    Formula.largestVar ds ≤ Formula.largestVar cs := by
  apply Formula.largestVar_le_iff.2
  intro d hd l hld
  obtain ⟨c, hc, hl⟩ := h.exists_mem hd
  exact Formula.le_largestVar hc ((hl l).2 hld)

theorem SameLiterals.largestVar_eq {cs ds : List Clause} (h : SameLiterals cs ds) :
    Formula.largestVar ds = Formula.largestVar cs :=
  le_antisymm h.largestVar_le h.symm.largestVar_le

namespace Formula

variable {F F' : Formula}

theorem pairwise_idsWith (F : Formula) (p : Clause → Bool) : (F.idsWith p).Pairwise (· < ·) :=
  List.pairwise_findIdxs

theorem pairwise_occurrencesOf (F : Formula) (v : Int) : (F.occurrencesOf v).Pairwise (· < ·) := by
  rw [occurrencesOf_eq]
  split
  · exact F.pairwise_idsWith _
  · exact .nil

theorem mem_occurrencesOf {v : Int} {id : Nat} : id ∈ F.occurrencesOf v ↔
    1 ≤ v ∧ v ≤ F.numVars ∧ ∃ c, F.clauses[id]? = some c ∧ (v ∈ c ∨ -v ∈ c) := by
  rw [occurrencesOf_eq]
  split
  · next hv =>
    have hcast : (v.toNat : Int) = v := Int.toNat_of_nonneg hv.1.le
    simp only [mem_idsWith, decide_eq_true_eq, mem_distinctVars_iff, hcast]
    exact ⟨fun h => ⟨hv.1, hv.2, h⟩, fun h => h.2.2⟩
  · next hv =>
    simp only [List.not_mem_nil, false_iff]
    rintro ⟨hlow, hhigh, -⟩
    exact hv ⟨hlow, hhigh⟩

theorem mem_literalOccurrences {l : Int} {id : Nat} :
    id ∈ F.literalOccurrences l ↔ ∃ c, F.clauses[id]? = some c ∧ l ∈ c := by
  simp only [literalOccurrences_eq, mem_idsWith, decide_eq_true_eq]

theorem length_idsWith (F : Formula) (p : Clause → Bool) :
    (F.idsWith p).length = F.clauses.toList.countP p := List.length_findIdxs

theorem countP_distinctVars (cs : List Clause) (v : Nat) :
    cs.countP (fun c => decide (v ∈ distinctVars c)) =
      cs.countP fun c => decide ((v : Int) ∈ c ∨ -(v : Int) ∈ c) := by
  simp only [mem_distinctVars_iff]

theorem maxOccurrences_eq_sup (F : Formula) :
    F.maxOccurrences = (Finset.Icc 1 F.numVars).sup fun v =>
      F.clauses.toList.countP fun c => decide ((v : Int) ∈ c ∨ -(v : Int) ∈ c) := by
  apply eq_of_forall_ge_iff
  intro m
  rw [maxOccurrences_le_iff, Finset.sup_le_iff]
  constructor
  · intro h v hv
    rw [← countP_distinctVars, ← length_idsWith]
    exact h v (Finset.mem_Icc.1 hv).2
  · intro h v hv
    obtain rfl | hpos := Nat.eq_zero_or_pos v
    · rw [not_occurs_zero]
      exact Nat.zero_le m
    · rw [length_idsWith, countP_distinctVars]
      exact h v (Finset.mem_Icc.2 ⟨hpos, hv⟩)

theorem sum_countP {n : Nat} {cs : List Clause}
    (h : ∀ c ∈ cs, ∀ l ∈ c, l.natAbs ∈ Finset.Icc 1 n) :
    ∑ v ∈ Finset.Icc 1 n, cs.countP (fun c => decide (v ∈ distinctVars c)) =
      (cs.map fun c => (c.toFinset.image Int.natAbs).card).sum := by
  induction cs with
  | nil => exact Finset.sum_const_zero
  | cons c cs ih =>
    obtain ⟨hc, hcs⟩ := List.forall_mem_cons.1 h
    have hvars : (Finset.Icc 1 n).filter (· ∈ distinctVars c) = c.toFinset.image Int.natAbs := by
      ext v
      simp only [Finset.mem_filter, Finset.mem_image, List.mem_toFinset, mem_distinctVars]
      constructor
      · exact fun hv => hv.2
      · rintro ⟨l, hl, rfl⟩
        exact ⟨hc l hl, l, hl, rfl⟩
    simp only [List.countP_cons, Finset.sum_add_distrib, ih hcs, decide_eq_true_eq]
    rw [← Finset.card_filter, hvars, List.map_cons, List.sum_cons, Nat.add_comm]

theorem sum_length_occurrencesOf (F : Formula) :
    ∑ v ∈ Finset.Icc 1 F.numVars, (F.occurrencesOf v).length =
      (F.clauses.toList.map fun c => (c.toFinset.image Int.natAbs).card).sum := by
  rw [← sum_countP (n := F.numVars)]
  · apply Finset.sum_congr rfl
    intro v hv
    obtain ⟨hlow, hhigh⟩ := Finset.mem_Icc.1 hv
    rw [occurrencesOf_eq, if_pos (by omega), length_idsWith, Int.toNat_natCast]
  · intro c hc l hl
    exact Finset.mem_Icc.2 ⟨Int.natAbs_pos.2 (F.ne_zero c hc l hl), F.le_numVars c hc l hl⟩

theorem indexes_eq (hn : F'.numVars = F.numVars)
    (h : SameLiterals F.clauses.toList F'.clauses.toList) :
    (∀ v : Int, F'.occurrencesOf v = F.occurrencesOf v) ∧
      (∀ l : Int, F'.literalOccurrences l = F.literalOccurrences l) ∧
      F'.maxOccurrences = F.maxOccurrences := by
  have hvar (v : Nat) : (F'.idsWith fun c => decide (v ∈ distinctVars c)) =
      F.idsWith fun c => decide (v ∈ distinctVars c) := by
    apply h.findIdxs_eq
    intro c d hcd
    simp only [mem_distinctVars_iff, hcd]
  refine ⟨?_, ?_, ?_⟩
  · intro v
    rw [occurrencesOf_eq, occurrencesOf_eq, hn, hvar]
  · intro l
    rw [literalOccurrences_eq, literalOccurrences_eq]
    apply h.findIdxs_eq
    intro c d hcd
    simp only [hcd]
  · apply eq_of_forall_ge_iff
    intro m
    simp only [maxOccurrences_le_iff, hn, hvar]

theorem build_sameLiterals {R : Type} {given given' : Value R} {declared : Option Int}
    {names : List (Int × Option String)} {cs' : List Clause} (h : build given declared names = .ok F)
    (hgiven : given'.Lists cs') (hcs : SameLiterals F.clauses.toList cs')
    (names' : List (Int × Option String)) :
    ∃ F', build given' declared names' = .ok F' ∧ F'.clauses.toList = cs' ∧ F'.numVars = F.numVars := by
  obtain ⟨-, hn, -⟩ := build_eq_ok.1 h
  have hwell := hcs.well_formed fun c hc => ⟨F.ne_nil c hc, F.ne_zero c hc⟩
  refine ⟨ofClauses F.numVars cs' names' hwell (hcs.largestVar_eq ▸ F.largestVar_le), ?_, rfl, rfl⟩
  apply build_eq_ok.2
  refine ⟨hgiven, ?_, rfl⟩
  change (F.numVars : Int) = declared.getD (largestVar cs')
  rw [hcs.largestVar_eq]
  exact hn

/-- The indexes of a formula that is built of what is given: which clauses they list, and in which
order; what the most frequent variable makes of them; that the order and number of the literals in
their clauses do not count; and how long they are together. -/
theorem indexes_exact {R : Type} {given : Value R} {declared : Option Int}
    {names : List (Int × Option String)} (h : build given declared names = .ok F) :
    (given.Lists F.clauses.toList ∧ (F.numVars : Int) = declared.getD (largestVar F.clauses.toList)) ∧
      (∀ v : Int, (F.occurrencesOf v).Pairwise (· < ·) ∧ ∀ id, id ∈ F.occurrencesOf v ↔
        1 ≤ v ∧ v ≤ F.numVars ∧ ∃ c, F.clauses[id]? = some c ∧ (v ∈ c ∨ -v ∈ c)) ∧
      (∀ l : Int, (F.literalOccurrences l).Pairwise (· < ·) ∧ ∀ id, id ∈ F.literalOccurrences l ↔
        ∃ c, F.clauses[id]? = some c ∧ l ∈ c) ∧
      (F.maxOccurrences = (Finset.Icc 1 F.numVars).sup fun v =>
        F.clauses.toList.countP fun c => decide ((v : Int) ∈ c ∨ -(v : Int) ∈ c)) ∧
      (∀ (given' : Value R) (cs' : List Clause) (names' : List (Int × Option String)),
        given'.Lists cs' → SameLiterals F.clauses.toList cs' →
        ∃ F', build given' declared names' = .ok F' ∧ F'.clauses.toList = cs' ∧
          (∀ v : Int, F'.occurrencesOf v = F.occurrencesOf v) ∧
          (∀ l : Int, F'.literalOccurrences l = F.literalOccurrences l) ∧
          F'.maxOccurrences = F.maxOccurrences) ∧
      ∑ v ∈ Finset.Icc 1 F.numVars, (F.occurrencesOf v).length =
        (F.clauses.toList.map fun c => (c.toFinset.image Int.natAbs).card).sum := by
  obtain ⟨hgiven, hn, -⟩ := build_eq_ok.1 h
  refine ⟨⟨hgiven, hn⟩, ?_, ?_, F.maxOccurrences_eq_sup, ?_, F.sum_length_occurrencesOf⟩
  · intro v
    exact ⟨F.pairwise_occurrencesOf v, fun id => mem_occurrencesOf⟩
  · intro l
    exact ⟨F.literalOccurrences_eq l ▸ F.pairwise_idsWith _, fun id => mem_literalOccurrences⟩
  · intro given' cs' names' hgiven' hcs'
    obtain ⟨F', hbuild, hcs, hn'⟩ := build_sameLiterals h hgiven' hcs' names'
    exact ⟨F', hbuild, hcs, indexes_eq hn' (hcs ▸ hcs')⟩

def repeatedClauses : Value Float :=
  .list [.list [.int 1, .int (-2), .int 1], .list [.int 2, .int (-2)]]

def repeatedFormula : Formula :=
  ofClauses 3 [[1, -2, 1], [2, -2]] [] (by decide) (by decide)

theorem indexes_exact_repeated : build repeatedClauses (some 3) [] = .ok repeatedFormula ∧
    repeatedClauses.Lists [[1, -2, 1], [2, -2]] ∧ repeatedFormula.maxOccurrences = 2 ∧
    (∀ id, id ∈ repeatedFormula.occurrencesOf 2 ↔ 1 ≤ (2 : Int) ∧ (2 : Int) ≤ 3 ∧
      ∃ c, repeatedFormula.clauses[id]? = some c ∧ ((2 : Int) ∈ c ∨ -(2 : Int) ∈ c)) ∧
    ∑ v ∈ Finset.Icc 1 3, (repeatedFormula.occurrencesOf (v : Nat)).length = 3 := by
  have h : build repeatedClauses (some 3) [] = .ok repeatedFormula := rfl
  obtain ⟨⟨hlists, -⟩, hvars, -, hmax, -, hsum⟩ := indexes_exact h
  exact ⟨h, hlists, hmax.trans (by decide), (hvars 2).2, hsum.trans (by decide)⟩

end Formula

end SatWalk
