import SatWalk.Formula
import SatWalk.Value

namespace SatWalk

inductive FormulaError (R : Type)
  -- What should be gone through has no items.
  | noItems
  | emptyClause (index : Nat)
  | notInteger (index : Nat) (given : Value R)
  | zeroLiteral (index : Nat)
  -- A variable beyond the declared ones.
  | undeclared (var : Nat) (declared : Int)

def FormulaError.message? {R : Type} [MachineReal R] : FormulaError R → Option String
  | noItems => none
  | emptyClause i => some ("Clause #" ++ toString i ++ " is empty.")
  | notInteger i v =>
    some ("Clause #" ++ toString i ++ " contains a non integer literal: " ++ v.shown ++ ".")
  | zeroLiteral i => some ("Clause #" ++ toString i ++ " contains the literal 0.")
  | undeclared v n =>
    some ("A literal on variable " ++ toString v ++ " appears, but only " ++ toString n
      ++ " variables are declared.")

namespace Formula

variable {R : Type}

def readLiterals (i : Nat) : List (Value R) → Except (FormulaError R) Clause
  | [] => .ok []
  | .int l :: vs =>
    if l = 0 then .error (.zeroLiteral i)
    else (l :: ·) <$> readLiterals i vs
  | v :: _ => .error (.notInteger i v)

def readClauses (i : Nat) : List (Value R) → Except (FormulaError R) (List Clause)
  | [] => .ok []
  | v :: vs =>
    match v.items? with
    | none => .error .noItems
    | some [] => .error (.emptyClause i)
    | some (item :: items) => do
      let c ← readLiterals i (item :: items)
      let cs ← readClauses (i + 1) vs
      return c :: cs

theorem readLiterals_ok {i : Nat} {vs : List (Value R)} {c : Clause}
    (h : readLiterals i vs = .ok c) : c.length = vs.length ∧ ∀ l ∈ c, l ≠ 0 := by
  induction vs generalizing c with
  | nil =>
    obtain rfl : [] = c := Except.ok.inj h
    simp
  | cons v vs ih =>
    cases v with
    | int l =>
      by_cases hl : l = 0
      · simp [readLiterals, hl] at h
      · simp only [readLiterals, hl, if_false] at h
        cases hr : readLiterals i vs with
        | error e => simp [hr, Functor.map, Except.map] at h
        | ok d =>
          simp only [hr, Functor.map, Except.map, Except.ok.injEq] at h
          subst h
          obtain ⟨hlen, hne⟩ := ih hr
          simpa [hlen, hl] using hne
    | _ => simp [readLiterals] at h

theorem readClauses_ok {i : Nat} {vs : List (Value R)} {cs : List Clause}
    (h : readClauses i vs = .ok cs) : ∀ c ∈ cs, c ≠ [] ∧ ∀ l ∈ c, l ≠ 0 := by
  induction vs generalizing i cs with
  | nil =>
    obtain rfl : [] = cs := Except.ok.inj h
    simp
  | cons v vs ih =>
    simp only [readClauses] at h
    split at h
    · cases h
    · cases h
    · next item items _ =>
      cases hc : readLiterals i (item :: items) with
      | error e => simp [hc, bind, Except.bind] at h
      | ok c =>
        cases hr : readClauses (i + 1) vs with
        | error e => simp [hc, hr, bind, Except.bind] at h
        | ok ds =>
          simp only [hc, hr, bind, Except.bind, pure, Except.pure, Except.ok.injEq] at h
          subst h
          obtain ⟨hlen, hne⟩ := readLiterals_ok hc
          simp only [List.mem_cons, forall_eq_or_imp]
          refine ⟨⟨?_, hne⟩, ih hr⟩
          rintro rfl
          simp at hlen

def largestVar (cs : List Clause) : Nat := (cs.flatten.map Int.natAbs).foldr max 0

theorem le_foldr_max {n : Nat} {ns : List Nat} (h : n ∈ ns) : n ≤ ns.foldr max 0 := by
  induction ns with
  | nil => cases h
  | cons m ms ih =>
    simp only [List.foldr_cons]
    rcases List.mem_cons.1 h with rfl | h
    · omega
    · have := ih h
      omega

theorem le_largestVar {cs : List Clause} {c : Clause} {l : Literal} (hc : c ∈ cs) (hl : l ∈ c) :
    l.natAbs ≤ largestVar cs :=
  le_foldr_max (List.mem_map_of_mem (List.mem_flatten_of_mem hc hl))

def ofClauses (n : Nat) (cs : List Clause) (names : List (Int × Option String))
    (hcs : ∀ c ∈ cs, c ≠ [] ∧ ∀ l ∈ c, l ≠ 0) (hn : largestVar cs ≤ n) : Formula where
  numVars := n
  clauses := cs.toArray
  names := names
  occurrences := Occurrences.of n cs
  ne_nil c hc := (hcs c hc).1
  ne_zero c hc := (hcs c hc).2
  le_numVars _ hc _ hl := Nat.le_trans (le_largestVar hc hl) hn
  occurrences_eq := rfl

def build (clauses : Value R) (declared : Option Int) (names : List (Int × Option String)) :
    Except (FormulaError R) Formula :=
  match clauses.items? with
  | none => .error .noItems
  | some items =>
    match h : readClauses 0 items with
    | .error e => .error e
    | .ok cs =>
      match declared with
      | none => .ok (ofClauses (largestVar cs) cs names (readClauses_ok h) (Nat.le_refl _))
      | some n =>
        if hn : n < largestVar cs then .error (.undeclared (largestVar cs) n)
        else .ok (ofClauses n.toNat cs names (readClauses_ok h) (by omega))

end Formula

end SatWalk
