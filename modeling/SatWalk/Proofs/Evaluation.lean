import Mathlib.Data.List.Basic
import SatWalk.Proofs.Occurrences
import SatWalk.State

namespace SatWalk

theorem position?_natCast_none {size i : Nat} (h : size ≤ i) : position? size (i : Int) = none := by
  simp only [position?]
  split
  · omega
  · rw [dif_neg]
    omega

namespace Assignment

variable {A : Assignment}

theorem slot?_eq {v : Nat} (h : v ≤ A.numVars) :
    slot? A.slots (v : Int) = .ok (A.slots.getD v false) := by
  have hv : v < A.slots.size := by
    have := A.slots_pos
    simp only [numVars] at h
    omega
  simp [slot?, position?_natCast hv, hv]

theorem literal?_eq {l : Int} (h : l.natAbs ≤ A.numVars) : literal? A.slots l = .ok (A.truth l) := by
  simp only [literal?, truth]
  split
  · next hl =>
    have hl : 0 < l := hl
    rw [← slot?_eq h]
    congr 1
    omega
  · next hl =>
    have hl : ¬ 0 < l := hl
    have hneg : -l = (l.natAbs : Int) := by omega
    rw [hneg, slot?_eq h]
    rfl

theorem truth_natAbs {l : Int} (h : l ≠ 0) : A.truth (l.natAbs : Int) = (A.truth l == decide (0 < l)) := by
  have hpos : (0 : Int) < (l.natAbs : Int) := by omega
  simp only [truth, if_pos hpos, Int.natAbs_natCast]
  by_cases hl : 0 < l
  · rw [if_pos hl, decide_eq_true hl]
    exact (beq_true _).symm
  · rw [if_neg hl, decide_eq_false hl]
    cases A.slots.getD l.natAbs false <;> rfl

end Assignment

theorem Clause.evaluate?_eq {A : Assignment} {c : Clause} (h : ∀ l ∈ c, l.natAbs ≤ A.numVars) :
    Clause.evaluate? A.slots c = .ok (c.holds A) := by
  induction c with
  | nil => rfl
  | cons l ls ih =>
    have hl := Assignment.literal?_eq (h l (by simp))
    have hls := ih fun m hm => h m (by simp [hm])
    simp only [evaluate?, hl, bind, Except.bind, hls, holds, List.any_cons]
    cases A.truth l <;> rfl

theorem Clause.holds_iff {A : Assignment} {c : Clause} :
    c.holds A = true ↔ ∃ l ∈ c, A.truth l = true := List.any_eq_true

theorem Clause.not_holds_iff {A : Assignment} {c : Clause} :
    c.holds A = false ↔ ∀ l ∈ c, A.truth l = false := by
  rw [Clause.holds, List.any_eq_false]
  simp

namespace Formula

variable {F : Formula} {A : Assignment}

theorem mem_clauses {id : Nat} {c : Clause} (h : F.clauses[id]? = some c) : c ∈ F.clauses.toList := by
  rw [Array.mem_toList_iff]
  exact Array.mem_of_getElem? h

theorem getElem?_clauseAt (i : Fin F.clauses.size) : F.clauses[i.val]? = some (F.clauseAt i) :=
  Array.getElem?_eq_getElem i.isLt

theorem getD_clauses {id : Nat} {c : Clause} (h : F.clauses[id]? = some c) :
    F.clauses.getD id [] = c := by
  rw [Array.getD_eq_getD_getElem?, h, Option.getD_some]

theorem natAbs_le {id : Nat} {c : Clause} (h : F.clauses[id]? = some c) {l : Int} (hl : l ∈ c) :
    l.natAbs ≤ F.numVars := F.le_numVars c (mem_clauses h) l hl

theorem falseFrom_eq (A : Assignment) (i : Nat) (cs : List Clause) :
    falseFrom A i cs = cs.findIdxs (fun c => !c.holds A) i := by
  induction cs generalizing i with
  | nil => rfl
  | cons c cs ih =>
    rw [falseFrom, ih, List.findIdxs_cons]
    cases c.holds A <;> rfl

theorem falseClauses_eq (F : Formula) (A : Assignment) :
    F.falseClauses A = F.idsWith fun c => !c.holds A := falseFrom_eq A 0 _

theorem mem_falseClauses {id : Nat} :
    id ∈ F.falseClauses A ↔ ∃ c, F.clauses[id]? = some c ∧ c.holds A = false := by
  rw [falseClauses_eq, mem_idsWith]
  simp only [Bool.not_eq_true']

theorem mem_falseClauses_iff {id : Nat} {c : Clause} (h : F.clauses[id]? = some c) :
    id ∈ F.falseClauses A ↔ c.holds A = false := by
  rw [mem_falseClauses]
  constructor
  · rintro ⟨d, hd, hf⟩
    exact Option.some.inj (h.symm.trans hd) ▸ hf
  · intro hf
    exact ⟨c, h, hf⟩

theorem evaluate?_eq (hA : A.numVars = F.numVars) {id : Nat} {c : Clause}
    (h : F.clauses[id]? = some c) : F.evaluate? id A.slots = .ok (c.holds A) := by
  obtain ⟨hlt, rfl⟩ := Array.getElem?_eq_some_iff.1 h
  have hc : Clause.evaluate? A.slots F.clauses[id] = .ok (F.clauses[id].holds A) :=
    Clause.evaluate?_eq fun l hl => hA ▸ natAbs_le h hl
  simp only [evaluate?, clauseId?, position?_natCast hlt]
  exact hc

theorem evaluate?_false_iff (hA : A.numVars = F.numVars) {id : Int} :
    0 ≤ id ∧ F.evaluate? id A.slots = .ok false ↔ ∃ i ∈ F.falseClauses A, id = (i : Int) := by
  constructor
  · rintro ⟨h0, he⟩
    obtain ⟨i, rfl⟩ := Int.eq_ofNat_of_zero_le h0
    refine ⟨i, mem_falseClauses.2 ?_, rfl⟩
    cases hc : F.clauses[i]? with
    | none =>
      have hsize := Array.getElem?_eq_none_iff.1 hc
      simp [evaluate?, clauseId?, position?_natCast_none hsize, bind, Except.bind] at he
    | some c =>
      rw [evaluate?_eq hA hc] at he
      exact ⟨c, rfl, Except.ok.inj he⟩
  · rintro ⟨i, hi, rfl⟩
    obtain ⟨c, hc, hf⟩ := mem_falseClauses.1 hi
    exact ⟨by omega, by rw [evaluate?_eq hA hc, hf]⟩

end Formula

namespace State

variable {F : Formula} {s : State F}

theorem natAbs_le {id : Nat} {c : Clause} (h : F.clauses[id]? = some c) {l : Int} (hl : l ∈ c) :
    l.natAbs ≤ s.assignment.numVars := by
  rw [s.fits]
  exact Formula.natAbs_le h hl

theorem mem_wrongFrom {i id : Nat} {cs : List Clause} :
    id ∈ s.wrongFrom i cs ↔
      i ≤ id ∧ ∃ c, cs[id - i]? = some c ∧ c.holds s.assignment ≠ s.recorded id := by
  induction cs generalizing i with
  | nil => simp [wrongFrom]
  | cons c cs ih =>
    have hsplit : (i ≤ id ∧ ∃ d, (c :: cs)[id - i]? = some d ∧ d.holds s.assignment ≠ s.recorded id) ↔
        (id = i ∧ c.holds s.assignment ≠ s.recorded i) ∨
          (i + 1 ≤ id ∧ ∃ d, cs[id - (i + 1)]? = some d ∧ d.holds s.assignment ≠ s.recorded id) := by
      by_cases hid : id = i
      · subst hid
        rw [or_iff_left fun h => Nat.not_succ_le_self id h.1]
        simp
      · have hnext (h : i + 1 ≤ id) : (c :: cs)[id - i]? = cs[id - (i + 1)]? := by
          have he : id - i = (id - (i + 1)) + 1 := by omega
          rw [he, List.getElem?_cons_succ]
        constructor
        · rintro ⟨hle, d, hd, hw⟩
          have hlt : i + 1 ≤ id := by omega
          exact .inr ⟨hlt, d, hnext hlt ▸ hd, hw⟩
        · rintro (⟨he, -⟩ | ⟨hlt, d, hd, hw⟩)
          · exact absurd he hid
          · exact ⟨by omega, d, (hnext hlt).symm ▸ hd, hw⟩
    rw [hsplit, wrongFrom]
    split
    · next hc => simp [ih, hc]
    · next hc => simp [ih, hc]

theorem mem_inconsistencies {id : Nat} :
    id ∈ s.inconsistencies ↔
      ∃ c, F.clauses[id]? = some c ∧ c.holds s.assignment ≠ s.recorded id := by
  simp [inconsistencies, mem_wrongFrom]

end State

end SatWalk
