import SatWalk.Proofs.Building
import SatWalk.Proofs.Occurrences

namespace SatWalk

namespace Value

variable {R : Type}

def IsLiteral (v : Value R) : Prop := ∃ l : Int, l ≠ 0 ∧ v = .int l

def IsClause (vs : List (Value R)) : Prop := vs ≠ [] ∧ ∀ v ∈ vs, v.IsLiteral

def magnitude : Value R → Nat
  | .int l => l.natAbs
  | _ => 0

def largest (vss : List (List (Value R))) : Nat := (vss.flatten.map magnitude).foldr max 0

def ofClause (c : Clause) : List (Value R) := c.map .int

def ofLists (vss : List (List (Value R))) : Value R := .list (vss.map .list)

theorem isClause_ofClause {c : Clause} (hne : c ≠ []) (hc : ∀ l ∈ c, l ≠ 0) :
    IsClause (ofClause (R := R) c) := by
  refine ⟨List.map_eq_nil_iff.not.2 hne, ?_⟩
  intro v hv
  obtain ⟨l, hl, rfl⟩ := List.mem_map.1 hv
  exact ⟨l, hc l hl, rfl⟩

theorem largest_ofClause (cs : List Clause) :
    largest (R := R) (cs.map ofClause) = Formula.largestVar cs := by
  have hmagnitudes : (cs.map ofClause).flatten.map (magnitude (R := R)) = cs.flatten.map Int.natAbs := by
    simp only [List.map_flatten, List.map_map]
    congr 2
    funext c
    exact List.map_map ..
  rw [largest, hmagnitudes, Formula.largestVar]

theorem lists_ofLists {vss : List (List (Value R))} {cs : List Clause} :
    (ofLists vss).Lists cs ↔ vss = cs.map ofClause := by
  have hforall : List.Forall₂ (fun (item : Value R) c => item.items? = some (c.map Value.int))
      (vss.map Value.list) cs ↔ vss = cs.map ofClause := by
    rw [← List.forall₂_eq_eq_eq, List.forall₂_map_left_iff, List.forall₂_map_right_iff]
    simp only [items?, Option.some.injEq, ofClause]
  constructor
  · rintro ⟨items, hitems, h⟩
    cases hitems
    exact hforall.1 h
  · intro h
    exact ⟨_, rfl, hforall.2 h⟩

end Value

namespace Formula

open Value

section Faults

variable {R : Type}

theorem readLiterals_eq_error {i : Nat} {vs : List (Value R)} {e : FormulaError R}
    (h : readLiterals i vs = .error e) :
    ∃ us v ws, vs = us ++ v :: ws ∧ (∀ u ∈ us, u.IsLiteral) ∧
      (v = .int 0 ∧ e = .zeroLiteral i ∨ (∀ l : Int, v ≠ .int l) ∧ e = .notInteger i v) := by
  induction vs with
  | nil => cases h
  | cons v vs ih =>
    cases v with
    | int l =>
      rw [readLiterals] at h
      split at h
      · next hl =>
        cases h
        exact ⟨[], _, vs, rfl, List.forall_mem_nil _, .inl ⟨hl ▸ rfl, rfl⟩⟩
      · next hl =>
        cases hr : readLiterals i vs with
        | ok c =>
          rw [hr] at h
          cases h
        | error e' =>
          rw [hr] at h
          cases h
          obtain ⟨us, v, ws, rfl, hus, hv⟩ := ih hr
          exact ⟨.int l :: us, v, ws, rfl, List.forall_mem_cons.2 ⟨⟨l, hl, rfl⟩, hus⟩, hv⟩
    | _ =>
      cases h
      refine ⟨[], _, vs, rfl, List.forall_mem_nil _, .inr ⟨?_, rfl⟩⟩
      intro l hl
      cases hl

theorem readClauses_eq_error {i : Nat} {vss : List (List (Value R))} {e : FormulaError R}
    (h : readClauses i (vss.map .list) = .error e) :
    ∃ before vs after, vss = before ++ vs :: after ∧ (∀ us ∈ before, IsClause us) ∧
      (vs = [] ∧ e = .emptyClause (i + before.length) ∨
        readLiterals (i + before.length) vs = .error e) := by
  induction vss generalizing i with
  | nil => cases h
  | cons vs vss ih =>
    cases vs with
    | nil =>
      cases h
      exact ⟨[], [], vss, rfl, List.forall_mem_nil _, .inl ⟨rfl, rfl⟩⟩
    | cons v vs =>
      simp only [List.map_cons, readClauses, items?] at h
      cases hc : readLiterals i (v :: vs) with
      | error e' =>
        rw [hc] at h
        cases h
        exact ⟨[], _, vss, rfl, List.forall_mem_nil _, .inr hc⟩
      | ok c =>
        cases hr : readClauses (i + 1) (vss.map .list) with
        | ok cs =>
          rw [hc, hr] at h
          cases h
        | error e' =>
          rw [hc, hr] at h
          cases h
          obtain ⟨before, us, after, rfl, hbefore, hus⟩ := ih hr
          obtain ⟨heq, hne⟩ := readLiterals_eq_ok.1 hc
          have hclause : IsClause (v :: vs) := by
            rw [heq]
            apply isClause_ofClause
            · rintro rfl
              cases heq
            · exact hne
          refine ⟨(v :: vs) :: before, us, after, rfl, List.forall_mem_cons.2 ⟨hclause, hbefore⟩, ?_⟩
          rwa [List.length_cons, Nat.add_comm before.length 1, ← Nat.add_assoc]

end Faults

variable {R : Type} [MachineReal R] {F : Formula}

/-- Why lists of values are refused where so many variables are declared, and the message. -/
inductive Refusal (vss : List (List (Value R))) (declared : Option Int) : FormulaError R → String → Prop
  | emptyClause {before after : List (List (Value R))} (hlists : vss = before ++ [] :: after)
    (hbefore : ∀ vs ∈ before, IsClause vs) :
    Refusal vss declared (.emptyClause before.length)
      ("Clause #" ++ toString before.length ++ " is empty.")
  | notInteger {before after : List (List (Value R))} {us ws : List (Value R)} {v : Value R}
    (hlists : vss = before ++ (us ++ v :: ws) :: after) (hbefore : ∀ vs ∈ before, IsClause vs)
    (hus : ∀ u ∈ us, u.IsLiteral) (hv : ∀ l : Int, v ≠ .int l) :
    Refusal vss declared (.notInteger before.length v)
      ("Clause #" ++ toString before.length ++ " contains a non integer literal: " ++ v.shown ++ ".")
  | zeroLiteral {before after : List (List (Value R))} {us ws : List (Value R)}
    (hlists : vss = before ++ (us ++ .int 0 :: ws) :: after) (hbefore : ∀ vs ∈ before, IsClause vs)
    (hus : ∀ u ∈ us, u.IsLiteral) :
    Refusal vss declared (.zeroLiteral before.length)
      ("Clause #" ++ toString before.length ++ " contains the literal 0.")
  | undeclared {n : Int} (hall : ∀ vs ∈ vss, IsClause vs) (hdeclared : declared = some n)
    (hn : n < largest vss) :
    Refusal vss declared (.undeclared (largest vss) n)
      ("A literal on variable " ++ toString (largest vss) ++ " appears, but only " ++ toString n ++
        " variables are declared.")

theorem refusal_of_build {vss : List (List (Value R))} {declared : Option Int}
    {names : List (Int × Option String)} {e : FormulaError R}
    (h : build (ofLists vss) declared names = .error e) :
    ∃ text, Refusal vss declared e text ∧ e.message? = some text := by
  unfold build at h
  simp only [ofLists, items?] at h
  split at h
  · next e' hread =>
    cases h
    obtain ⟨before, vs, after, rfl, hbefore, hvs⟩ := readClauses_eq_error hread
    rw [Nat.zero_add] at hvs
    rcases hvs with ⟨rfl, rfl⟩ | hliterals
    · exact ⟨_, .emptyClause rfl hbefore, rfl⟩
    · obtain ⟨us, v, ws, rfl, hus, hv⟩ := readLiterals_eq_error hliterals
      rcases hv with ⟨rfl, rfl⟩ | ⟨hv, rfl⟩
      · exact ⟨_, .zeroLiteral rfl hbefore hus, rfl⟩
      · exact ⟨_, .notInteger rfl hbefore hus hv, rfl⟩
  · next cs hread =>
    cases declared with
    | none => cases h
    | some n =>
      simp only at h
      split at h
      · next hn =>
        cases h
        have hwell := readClauses_ok hread
        obtain rfl : vss = cs.map ofClause :=
          lists_ofLists.1 ⟨_, rfl, (readClauses_eq_ok.1 hread).1⟩
        have hall : ∀ vs ∈ cs.map (ofClause (R := R)), IsClause vs := by
          intro vs hvs
          obtain ⟨c, hc, rfl⟩ := List.mem_map.1 hvs
          exact isClause_ofClause (hwell c hc).1 (hwell c hc).2
        have hlargest := largest_ofClause (R := R) cs
        refine ⟨_, ?_, rfl⟩
        rw [← hlargest] at hn ⊢
        exact .undeclared hall rfl hn
      · cases h

theorem Refusal.not_wellFormed {vss : List (List (Value R))} {declared : Option Int}
    {e : FormulaError R} {text : String} (h : Refusal vss declared e text) :
    ¬ ((∀ vs ∈ vss, IsClause vs) ∧ ∀ n ∈ declared, (largest vss : Int) ≤ n) := by
  rintro ⟨hall, hdeclared⟩
  cases h with
  | emptyClause hlists =>
    subst hlists
    exact (hall [] (by simp)).1 rfl
  | @notInteger before after us ws v hlists _ _ hv =>
    subst hlists
    obtain ⟨l, -, hl⟩ := (hall (us ++ v :: ws) (by simp)).2 v (by simp)
    exact hv l hl
  | @zeroLiteral before after us ws hlists =>
    subst hlists
    obtain ⟨l, hne, hl⟩ := (hall (us ++ .int 0 :: ws) (by simp)).2 (.int 0) (by simp)
    cases hl
    exact hne rfl
  | undeclared _ heq hn => exact absurd (hdeclared _ heq) (Int.not_le.2 hn)

theorem maxWidth_eq (F : Formula) : F.maxWidth = (F.clauses.toList.map List.length).foldr max 0 := by
  apply eq_of_forall_ge_iff
  intro w
  rw [maxWidth, ← Array.foldl_toList, foldl_max_le_iff]
  constructor
  · rintro ⟨-, h⟩
    apply List.max_le_of_forall_le
    simpa using h
  · intro h
    refine ⟨Nat.zero_le w, ?_⟩
    intro c hc
    exact (le_foldr_max (List.mem_map_of_mem hc)).trans h

theorem clauseId?_val (F : Formula) (i : Fin F.clauses.size) : F.clauseId? (i : Nat) = .ok i := by
  rw [clauseId?, position?_natCast i.isLt]

/-- Lists of values are read as a formula exactly when they are clauses and their variables are among the
declared ones. The formula has the clauses as they were given, by their places, and reading them again
gives it once more; what is refused is the first fault, with its message. -/
theorem build_outcome (vss : List (List (Value R))) (declared : Option Int)
    (names : List (Int × Option String)) :
    ((∃ F, build (ofLists vss) declared names = .ok F) ↔
      (∀ vs ∈ vss, IsClause vs) ∧ ∀ n ∈ declared, (largest vss : Int) ≤ n) ∧
    (∀ F, build (ofLists vss) declared names = .ok F →
      F.numClauses = vss.length ∧
      (∀ i : Fin F.clauses.size, F.clauseId? (i : Nat) = .ok i ∧
        vss[(i : Nat)]? = some (ofClause (F.clauseAt i))) ∧
      (F.numVars : Int) = declared.getD (largest vss) ∧
      F.maxWidth = (vss.map List.length).foldr max 0 ∧
      F.names = names ∧
      ∀ renamed, build (ofLists (R := R) (F.clauses.toList.map ofClause)) (some F.numVars) renamed =
        .ok { F with names := renamed }) ∧
    ∀ e, build (ofLists vss) declared names = .error e →
      ∃ text, Refusal vss declared e text ∧ e.message? = some text := by
  have hread : ∀ F, build (ofLists vss) declared names = .ok F →
      vss = F.clauses.toList.map ofClause ∧ (F.numVars : Int) = declared.getD (largest vss) ∧
        F.names = names := by
    intro F hF
    obtain ⟨hlists, hn, hnames⟩ := build_eq_ok.1 hF
    obtain rfl := lists_ofLists.1 hlists
    exact ⟨rfl, by rw [largest_ofClause, hn], hnames⟩
  refine ⟨⟨?_, ?_⟩, ?_, fun e => refusal_of_build⟩
  · rintro ⟨F, hF⟩
    obtain ⟨rfl, hn, -⟩ := hread F hF
    have hle := F.largestVar_le
    rw [largest_ofClause] at hn ⊢
    constructor
    · intro vs hvs
      obtain ⟨c, hc, rfl⟩ := List.mem_map.1 hvs
      exact isClause_ofClause (F.ne_nil c hc) (F.ne_zero c hc)
    · rintro n rfl
      rw [Option.getD_some] at hn
      omega
  · intro hwell
    cases hbuild : build (ofLists vss) declared names with
    | ok F => exact ⟨F, rfl⟩
    | error e =>
      obtain ⟨text, hrefusal, -⟩ := refusal_of_build hbuild
      exact absurd hwell hrefusal.not_wellFormed
  · intro F hF
    obtain ⟨rfl, hn, hnames⟩ := hread F hF
    refine ⟨by simp [numClauses], ?_, hn, ?_, hnames, ?_⟩
    · intro i
      exact ⟨F.clauseId?_val i, by simp [clauseAt]⟩
    · rw [F.maxWidth_eq, List.map_map]
      congr 2
      funext c
      exact (List.length_map _).symm
    · intro renamed
      exact build_eq_ok.2 ⟨lists_ofLists.2 rfl, rfl, rfl⟩

end Formula

end SatWalk
