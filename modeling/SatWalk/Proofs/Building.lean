import Mathlib.Data.List.Forall2
import Mathlib.Data.List.MinMax
import Mathlib.Order.Nat
import SatWalk.Formula.Build

namespace SatWalk

def Value.Lists {R : Type} (given : Value R) (cs : List Clause) : Prop :=
  ∃ items, given.items? = some items ∧
    List.Forall₂ (fun item c => item.items? = some (c.map Value.int)) items cs

namespace Formula

variable {R : Type} {F : Formula}

theorem readLiterals_eq_ok {i : Nat} {vs : List (Value R)} {c : Clause} :
    readLiterals i vs = .ok c ↔ vs = c.map Value.int ∧ ∀ l ∈ c, l ≠ 0 := by
  constructor
  · intro h
    refine ⟨?_, (readLiterals_ok h).2⟩
    induction vs generalizing c with
    | nil =>
      cases h
      rfl
    | cons v vs ih =>
      cases v with
      | int l =>
        by_cases hl : l = 0
        · simp [readLiterals, hl] at h
        · simp only [readLiterals, hl, if_false] at h
          cases hr : readLiterals i vs with
          | error e =>
            rw [hr] at h
            cases h
          | ok d =>
            rw [hr] at h
            cases h
            rw [ih hr, List.map_cons]
      | _ => cases h
  · rintro ⟨rfl, hc⟩
    induction c with
    | nil => rfl
    | cons l c ih =>
      obtain ⟨hl, hrest⟩ := List.forall_mem_cons.1 hc
      rw [List.map_cons, readLiterals, if_neg hl, ih hrest]
      rfl

theorem readClauses_eq_ok {i : Nat} {items : List (Value R)} {cs : List Clause} :
    readClauses i items = .ok cs ↔
      List.Forall₂ (fun item c => item.items? = some (c.map Value.int)) items cs ∧
        ∀ c ∈ cs, c ≠ [] ∧ ∀ l ∈ c, l ≠ 0 := by
  constructor
  · intro h
    refine ⟨?_, readClauses_ok h⟩
    induction items generalizing i cs with
    | nil =>
      cases h
      exact .nil
    | cons v vs ih =>
      simp only [readClauses] at h
      split at h
      · cases h
      · cases h
      · next item items hitems =>
        cases hc : readLiterals i (item :: items) with
        | error e =>
          rw [hc] at h
          cases h
        | ok c =>
          cases hr : readClauses (i + 1) vs with
          | error e =>
            rw [hc, hr] at h
            cases h
          | ok ds =>
            rw [hc, hr] at h
            cases h
            refine .cons ?_ (ih hr)
            rw [hitems, (readLiterals_eq_ok.1 hc).1]
  · rintro ⟨h, hcs⟩
    induction h generalizing i with
    | nil => rfl
    | @cons v c vs cs hv h ih =>
      obtain ⟨⟨hne, hc⟩, hrest⟩ := List.forall_mem_cons.1 hcs
      obtain ⟨l, ls, rfl⟩ := List.exists_cons_of_ne_nil hne
      have hread : readLiterals i (.int l :: ls.map (Value.int (R := R))) = .ok (l :: ls) :=
        readLiterals_eq_ok.2 ⟨rfl, hc⟩
      rw [List.map_cons] at hv
      simp only [readClauses, hv, hread, ih hrest]
      rfl

theorem largestVar_le_iff {cs : List Clause} {n : Nat} :
    largestVar cs ≤ n ↔ ∀ c ∈ cs, ∀ l ∈ c, l.natAbs ≤ n := by
  constructor
  · intro h c hc l hl
    exact (le_largestVar hc hl).trans h
  · intro h
    apply List.max_le_of_forall_le
    intro k hk
    obtain ⟨l, hl, rfl⟩ := List.mem_map.1 hk
    obtain ⟨c, hc, hlc⟩ := List.mem_flatten.1 hl
    exact h c hc l hlc

theorem largestVar_le (F : Formula) : largestVar F.clauses.toList ≤ F.numVars :=
  largestVar_le_iff.2 F.le_numVars

theorem eq_ofClauses {n : Nat} {cs : List Clause} {names : List (Int × Option String)}
    (hcs : ∀ c ∈ cs, c ≠ [] ∧ ∀ l ∈ c, l ≠ 0) (hn : largestVar cs ≤ n) :
    F = ofClauses n cs names hcs hn ↔ F.numVars = n ∧ F.clauses.toList = cs ∧ F.names = names := by
  constructor
  · rintro rfl
    exact ⟨rfl, rfl, rfl⟩
  · rintro ⟨rfl, rfl, rfl⟩
    obtain ⟨n, cs, names, occurrences, h₁, h₂, h₃, rfl⟩ := F
    rfl

theorem build_eq_ok {given : Value R} {declared : Option Int} {names : List (Int × Option String)} :
    build given declared names = .ok F ↔
      given.Lists F.clauses.toList ∧ (F.numVars : Int) = declared.getD (largestVar F.clauses.toList) ∧
        F.names = names := by
  have hwell : ∀ c ∈ F.clauses.toList, c ≠ [] ∧ ∀ l ∈ c, l ≠ 0 :=
    fun c hc => ⟨F.ne_nil c hc, F.ne_zero c hc⟩
  constructor
  · intro h
    unfold build at h
    split at h
    · cases h
    · next items hitems =>
      split at h
      · cases h
      · next cs hread =>
        have hlists : given.Lists cs := ⟨items, hitems, (readClauses_eq_ok.1 hread).1⟩
        cases declared with
        | none =>
          cases h
          exact ⟨hlists, rfl, rfl⟩
        | some n =>
          simp only at h
          split at h
          · cases h
          · next hn =>
            cases h
            refine ⟨hlists, ?_, rfl⟩
            change ((n.toNat : Nat) : Int) = n
            omega
  · rintro ⟨⟨items, hitems, hlists⟩, hn, hnames⟩
    have hread : readClauses 0 items = .ok F.clauses.toList := readClauses_eq_ok.2 ⟨hlists, hwell⟩
    have hlargest := F.largestVar_le
    unfold build
    simp only [hitems]
    split
    · next e he => cases hread.symm.trans he
    · next cs hcs =>
      obtain rfl : F.clauses.toList = cs := Except.ok.inj (hread.symm.trans hcs)
      cases declared with
      | none =>
        refine congrArg Except.ok (Eq.symm ?_)
        apply (eq_ofClauses _ _).2
        exact ⟨Int.ofNat.inj hn, rfl, hnames⟩
      | some n =>
        have hle : ¬ n < largestVar F.clauses.toList := by
          rw [Option.getD_some] at hn
          omega
        simp only [dif_neg hle]
        refine congrArg Except.ok (Eq.symm ?_)
        apply (eq_ofClauses _ _).2
        rw [Option.getD_some] at hn
        exact ⟨by omega, rfl, hnames⟩

end Formula

end SatWalk
