import Mathlib.Data.List.MinMax
import Mathlib.Data.Set.Function
import SatWalk.Formula.Build
import SatWalk.Proofs.SingleBreaks

/-!
Renaming of variables. A renaming moves every variable to another and may switch its polarity;
literals and clauses keep their order. What a state tells of a clause by the places of its variables
stays the same: which clauses hold, which of them a flip breaks, and the order of all of these.
-/

namespace SatWalk

theorem firsts_map {α β : Type} [DecidableEq α] [DecidableEq β] {f : α → β} {as : List α}
    (hf : ∀ a ∈ as, ∀ b ∈ as, f a = f b → a = b) : firsts (as.map f) = (firsts as).map f := by
  induction as with
  | nil => rfl
  | cons a as ih =>
    have hrest : firsts (as.map f) = (firsts as).map f := by
      apply ih
      intro b hb b' hb'
      exact hf b (List.mem_cons_of_mem a hb) b' (List.mem_cons_of_mem a hb')
    rw [List.map_cons, firsts, firsts, hrest, List.filter_map, List.map_cons]
    congr 2
    apply List.filter_congr
    intro b hb
    apply decide_eq_decide.2
    apply not_congr
    constructor
    · exact hf b (List.mem_cons_of_mem a (mem_firsts.1 hb)) a List.mem_cons_self
    · exact congrArg f

theorem select_map {α β : Type} (f : α → β) (as : List α) (t : Int) :
    select (as.map f) t = (select as t).map f := by
  induction as generalizing t with
  | nil => rfl
  | cons a as ih =>
    rw [List.map_cons, select, select, ih]
    split <;> rfl

theorem Assignment.getElem?_toList {A : Assignment} {v : Var} (hpos : 1 ≤ v) (hle : v ≤ A.numVars) :
    A.toList[v - 1]? = some (A.truth v) := by
  have hlt := lt_size.2 hle
  have hv : (0 : Int) < v := Int.natCast_pos.2 hpos
  rw [toList, List.getElem?_tail, Nat.sub_add_cancel hpos, truth, if_pos hv, Int.natAbs_natCast,
    Array.getElem?_toList, Array.getD_eq_getD_getElem?, Array.getElem?_eq_getElem hlt,
    Option.getD_some]

/-- A permutation of the variables up to `n`, with those among them whose polarity is switched. -/
structure Renaming (n : Nat) where
  var : Var → Var
  switched : Var → Bool
  bijOn : Set.BijOn var (Set.Icc 1 n) (Set.Icc 1 n)

namespace Renaming

variable {n : Nat} (ρ : Renaming n)

def literal (l : Literal) : Literal :=
  if decide (0 < l) ^^ ρ.switched l.natAbs then ρ.var l.natAbs else -(ρ.var l.natAbs : Int)

theorem natAbs_literal (l : Literal) : (ρ.literal l).natAbs = ρ.var l.natAbs := by
  unfold literal
  split
  · exact Int.natAbs_natCast _
  · rw [Int.natAbs_neg, Int.natAbs_natCast]

variable {ρ}

theorem literal_ne_zero {l : Literal} (hl : l.natAbs ∈ Set.Icc 1 n) : ρ.literal l ≠ 0 := by
  rw [← Int.natAbs_pos, natAbs_literal]
  exact (ρ.bijOn.mapsTo hl).1

theorem positive_literal {l : Literal} (hl : l.natAbs ∈ Set.Icc 1 n) :
    decide (0 < ρ.literal l) = (decide (0 < l) ^^ ρ.switched l.natAbs) := by
  have hpos : (0 : Int) < ρ.var l.natAbs := Int.natCast_pos.2 (ρ.bijOn.mapsTo hl).1
  unfold literal
  split
  · next h => rw [h, decide_eq_true hpos]
  · next h =>
    rw [Bool.eq_false_of_not_eq_true h]
    apply decide_eq_false
    exact Int.not_lt.2 (Int.neg_nonpos_of_nonneg (Int.le_of_lt hpos))

structure Moves (ρ : Renaming n) (A A' : Assignment) : Prop where
  numVars_eq : A'.numVars = A.numVars
  truth_eq : ∀ v ∈ Set.Icc 1 n, A'.truth (ρ.var v) = (A.truth v ^^ ρ.switched v)

def Carries (ρ : Renaming n) (xs ys : List Bool) : Prop :=
  ys.length = xs.length ∧ ∀ v ∈ Set.Icc 1 n, ys[ρ.var v - 1]? = xs[v - 1]?.map (· ^^ ρ.switched v)

theorem moves_iff_carries {A A' : Assignment} (hA : A.numVars = n) :
    ρ.Moves A A' ↔ ρ.Carries A.toList A'.toList := by
  have hvalues (hsize : A'.numVars = A.numVars) {v : Var} (hv : v ∈ Set.Icc 1 n) :
      A'.toList[ρ.var v - 1]? = A.toList[v - 1]?.map (· ^^ ρ.switched v) ↔
        A'.truth (ρ.var v) = (A.truth v ^^ ρ.switched v) := by
    have hv' := ρ.bijOn.mapsTo hv
    rw [Assignment.getElem?_toList hv.1 (hA ▸ hv.2),
      Assignment.getElem?_toList hv'.1 ((hsize.trans hA) ▸ hv'.2), Option.map_some, Option.some.injEq]
  constructor
  · intro h
    refine ⟨?_, fun v hv => (hvalues h.numVars_eq hv).2 (h.truth_eq v hv)⟩
    rw [Assignment.length_toList, Assignment.length_toList]
    exact h.numVars_eq
  · rintro ⟨hlength, h⟩
    rw [Assignment.length_toList, Assignment.length_toList] at hlength
    exact ⟨hlength, fun v hv => (hvalues hlength hv).1 (h v hv)⟩

theorem Moves.truth_literal {A A' : Assignment} (h : ρ.Moves A A') {l : Literal}
    (hl : l.natAbs ∈ Set.Icc 1 n) : A'.truth (ρ.literal l) = A.truth l := by
  have hl0 : l ≠ 0 := Int.natAbs_pos.1 hl.1
  have hvar := h.truth_eq l.natAbs hl
  rw [← natAbs_literal, Assignment.truth_natAbs (literal_ne_zero hl), Assignment.truth_natAbs hl0,
    positive_literal hl] at hvar
  revert hvar
  cases A'.truth (ρ.literal l) <;> cases A.truth l <;> cases decide (0 < l) <;>
    cases ρ.switched l.natAbs <;> decide

def Covers (n : Nat) (d : Clause) : Prop := ∀ l ∈ d, l.natAbs ∈ Set.Icc 1 n

variable {d : Clause}

theorem Moves.holds_eq {A A' : Assignment} (h : ρ.Moves A A') (hd : Covers n d) :
    Clause.holds A' (d.map ρ.literal) = d.holds A := by
  rw [Bool.eq_iff_iff, Clause.holds_iff, Clause.holds_iff]
  constructor
  · rintro ⟨_, hm, ht⟩
    obtain ⟨l, hl, rfl⟩ := List.mem_map.1 hm
    exact ⟨l, hl, h.truth_literal (hd l hl) ▸ ht⟩
  · rintro ⟨l, hl, ht⟩
    exact ⟨_, List.mem_map_of_mem hl, (h.truth_literal (hd l hl)).trans ht⟩

theorem distinctVars_map (hd : Covers n d) :
    distinctVars (d.map ρ.literal) = (distinctVars d).map ρ.var := by
  have hvars : (d.map ρ.literal).map Literal.var = (d.map Literal.var).map ρ.var := by
    rw [List.map_map, List.map_map]
    apply List.map_congr_left
    intro l _
    exact natAbs_literal ρ l
  rw [distinctVars, hvars]
  apply firsts_map
  intro v hv v' hv'
  obtain ⟨l, hl, rfl⟩ := List.mem_map.1 hv
  obtain ⟨l', hl', rfl⟩ := List.mem_map.1 hv'
  exact ρ.bijOn.injOn (hd l hl) (hd l' hl')

theorem distinctVars_subset (hd : Covers n d) : ∀ v ∈ distinctVars d, v ∈ Set.Icc 1 n := by
  intro v hv
  obtain ⟨l, hl, rfl⟩ := mem_distinctVars.1 hv
  exact hd l hl

theorem mem_map_var {vs : List Var} (hvs : ∀ u ∈ vs, u ∈ Set.Icc 1 n) {v : Var}
    (hv : v ∈ Set.Icc 1 n) :
    ρ.var v ∈ vs.map ρ.var ↔ v ∈ vs := by
  rw [List.mem_map]
  constructor
  · rintro ⟨u, hu, he⟩
    exact ρ.bijOn.injOn (hvs u hu) hv he ▸ hu
  · intro h
    exact ⟨v, h, rfl⟩

theorem nodup_map_var {vs : List Var} (hvs : ∀ u ∈ vs, u ∈ Set.Icc 1 n) (h : vs.Nodup) :
    (vs.map ρ.var).Nodup := by
  apply h.map_on
  intro u hu v hv
  exact ρ.bijOn.injOn (hvs u hu) (hvs v hv)

theorem Moves.toggled {A A' : Assignment} (h : ρ.Moves A A') (hA : A.numVars = n) {vs : List Var}
    (hvs : ∀ v ∈ vs, v ∈ Set.Icc 1 n) (hnodup : vs.Nodup) :
    ρ.Moves (A.toggled vs) (A'.toggled (vs.map ρ.var)) := by
  constructor
  · rw [Assignment.numVars, Assignment.size_toggled, Assignment.numVars, Assignment.size_toggled]
    exact h.numVars_eq
  · intro v hv
    have hle : (v : Int).natAbs ≤ A.numVars := hA ▸ hv.2
    have hle' : (ρ.var v : Int).natAbs ≤ A'.numVars := (h.numVars_eq.trans hA) ▸ (ρ.bijOn.mapsTo hv).2
    rw [Assignment.truth_toggled_nodup hle' (nodup_map_var hvs hnodup),
      Assignment.truth_toggled_nodup hle hnodup, Int.natAbs_natCast, Int.natAbs_natCast,
      h.truth_eq v hv, decide_eq_decide.2 (mem_map_var hvs hv), Bool.xor_assoc, Bool.xor_assoc]
    congr 1
    exact Bool.xor_comm _ _

end Renaming

namespace Formula

open Renaming (Covers)

variable {F : Formula}

theorem covers {d : Clause} (hd : d ∈ F.clauses.toList) : Covers F.numVars d := by
  intro l hl
  exact ⟨Int.natAbs_pos.2 (F.ne_zero d hd l hl), F.le_numVars d hd l hl⟩

variable {ρ : Renaming F.numVars}

theorem mem_clauses_map {e : Clause} (he : e ∈ (F.clauses.map (List.map ρ.literal)).toList) :
    ∃ d ∈ F.clauses.toList, d.map ρ.literal = e := by
  rw [Array.toList_map] at he
  exact List.mem_map.1 he

def renamed (F : Formula) (ρ : Renaming F.numVars) : Formula where
  numVars := F.numVars
  clauses := F.clauses.map (List.map ρ.literal)
  names := F.names
  occurrences := .of F.numVars (F.clauses.map (List.map ρ.literal)).toList
  ne_nil e he := by
    obtain ⟨d, hd, rfl⟩ := mem_clauses_map he
    exact mt List.map_eq_nil_iff.1 (F.ne_nil d hd)
  ne_zero e he m hm := by
    obtain ⟨d, hd, rfl⟩ := mem_clauses_map he
    obtain ⟨l, hl, rfl⟩ := List.mem_map.1 hm
    exact Renaming.literal_ne_zero (covers hd l hl)
  le_numVars e he m hm := by
    obtain ⟨d, hd, rfl⟩ := mem_clauses_map he
    obtain ⟨l, hl, rfl⟩ := List.mem_map.1 hm
    rw [Renaming.natAbs_literal]
    exact (ρ.bijOn.mapsTo (covers hd l hl)).2
  occurrences_eq := rfl

theorem renamed_ofClauses {n : Nat} (ρ : Renaming n) {cs : List Clause}
    {names : List (Int × Option String)} (hcs : ∀ c ∈ cs, c ≠ [] ∧ ∀ l ∈ c, l ≠ 0) (hn : largestVar cs ≤ n) :
    ∃ hcs' hn', (ofClauses n cs names hcs hn).renamed ρ =
      ofClauses n (cs.map (List.map ρ.literal)) names hcs' hn' := by
  have hrange : ∀ c ∈ cs, ∀ l ∈ c, l.natAbs ∈ Set.Icc 1 n := by
    intro c hc l hl
    exact ⟨Int.natAbs_pos.2 ((hcs c hc).2 l hl), (le_largestVar hc hl).trans hn⟩
  have hcs' : ∀ e ∈ cs.map (List.map ρ.literal), e ≠ [] ∧ ∀ m ∈ e, m ≠ 0 := by
    intro e he
    obtain ⟨c, hc, rfl⟩ := List.mem_map.1 he
    refine ⟨mt List.map_eq_nil_iff.1 (hcs c hc).1, ?_⟩
    intro m hm
    obtain ⟨l, hl, rfl⟩ := List.mem_map.1 hm
    exact Renaming.literal_ne_zero (hrange c hc l hl)
  have hn' : largestVar (cs.map (List.map ρ.literal)) ≤ n := by
    apply List.max_le_of_forall_le
    intro k hk
    obtain ⟨m, hm, rfl⟩ := List.mem_map.1 hk
    obtain ⟨e, he, hme⟩ := List.mem_flatten.1 hm
    obtain ⟨c, hc, rfl⟩ := List.mem_map.1 he
    obtain ⟨l, hl, rfl⟩ := List.mem_map.1 hme
    rw [Renaming.natAbs_literal]
    exact (ρ.bijOn.mapsTo (hrange c hc l hl)).2
  refine ⟨hcs', hn', ?_⟩
  simp only [renamed, ofClauses, List.map_toArray]

theorem size_renamed : (F.renamed ρ).clauses.size = F.clauses.size := Array.size_map

theorem idsWith_renamed {p q : Clause → Bool}
    (h : ∀ d ∈ F.clauses.toList, p (d.map ρ.literal) = q d) :
    (F.renamed ρ).idsWith p = F.idsWith q := by
  have hmap : (F.renamed ρ).idsWith p = F.idsWith (p ∘ List.map ρ.literal) := by
    rw [idsWith, renamed, Array.toList_map, List.findIdxs_map]
    rfl
  rw [hmap]
  exact idsWith_congr h

theorem occurs_renamed {v : Var} (hv : v ∈ Set.Icc 1 F.numVars) :
    ((F.renamed ρ).idsWith fun d => decide (ρ.var v ∈ distinctVars d)) =
      F.idsWith fun d => decide (v ∈ distinctVars d) := by
  apply idsWith_renamed
  intro d hd
  rw [Renaming.distinctVars_map (covers hd)]
  exact decide_eq_decide.2 (Renaming.mem_map_var (Renaming.distinctVars_subset (covers hd)) hv)

theorem falseClauses_renamed {A A' : Assignment} (h : ρ.Moves A A') :
    (F.renamed ρ).falseClauses A' = F.falseClauses A := by
  rw [falseClauses_eq, falseClauses_eq]
  apply idsWith_renamed
  intro d hd
  rw [h.holds_eq (covers hd)]

theorem brokenBy_renamed {A A' B B' : Assignment} (h : ρ.Moves A A') (h' : ρ.Moves B B') :
    (F.renamed ρ).brokenBy A' B' = F.brokenBy A B := by
  apply idsWith_renamed
  intro d hd
  rw [h.holds_eq (covers hd), h'.holds_eq (covers hd)]

theorem not_occurs_zero : (F.idsWith fun d => decide (0 ∈ distinctVars d)) = [] := by
  apply List.findIdxs_eq_nil_iff.2
  intro d hd
  apply decide_eq_false
  intro h0
  obtain ⟨l, hl, hzero⟩ := mem_distinctVars.1 h0
  exact F.ne_zero d hd l hl (Int.natAbs_eq_zero.1 hzero)

theorem maxOccurrences_renamed : (F.renamed ρ).maxOccurrences = F.maxOccurrences := by
  apply Nat.le_antisymm
  · apply maxOccurrences_le_iff.2
    intro u hu
    obtain rfl | hpos := Nat.eq_zero_or_pos u
    · rw [not_occurs_zero]
      exact Nat.zero_le _
    · obtain ⟨v, hv, rfl⟩ := ρ.bijOn.surjOn ⟨hpos, hu⟩
      rw [occurs_renamed hv]
      exact maxOccurrences_le_iff.1 le_rfl v hv.2
  · apply maxOccurrences_le_iff.2
    intro v hle
    obtain rfl | hpos := Nat.eq_zero_or_pos v
    · rw [not_occurs_zero]
      exact Nat.zero_le _
    · rw [← occurs_renamed ⟨hpos, hle⟩]
      exact maxOccurrences_le_iff.1 le_rfl _ (ρ.bijOn.mapsTo ⟨hpos, hle⟩).2

end Formula

namespace State

variable {F : Formula} {ρ : Renaming F.numVars}

structure Renamed (ρ : Renaming F.numVars) (s : State F) (s' : State (F.renamed ρ)) : Prop where
  moves : ρ.Moves s.assignment s'.assignment
  unsatisfied_eq : s'.unsatisfied = s.unsatisfied

variable {s : State F} {s' : State (F.renamed ρ)}

theorem Renamed.exact (h : s.Renamed ρ s') (hs : s.Exact) : s'.Exact := by
  intro a
  rw [h.unsatisfied_eq, Formula.falseClauses_renamed h.moves]
  exact hs a

theorem Renamed.brokenCount_eq (h : s.Renamed ρ s') (scope : Scope) {vs : List Var}
    (hvs : ∀ v ∈ vs, v ∈ Set.Icc 1 F.numVars) (hnodup : vs.Nodup) (t : Nat) :
    s'.brokenCount scope (vs.map ρ.var) t = s.brokenCount scope vs t := by
  have hselected : ∀ v ∈ select vs t, v ∈ Set.Icc 1 F.numVars := by
    intro v hv
    exact hvs v ((select_sublist vs t).subset hv)
  have htoggled := h.moves.toggled s.fits hselected (nodup_select hnodup t)
  have hscope : s'.inScope scope = s.inScope scope := by
    funext id
    rw [inScope, inScope, recorded, recorded, h.unsatisfied_eq]
  rw [brokenCount, brokenCount, select_map, Formula.brokenBy_renamed h.moves htoggled, hscope]

variable {d : Clause}

theorem Renamed.combinationBreaks_eq (h : s.Renamed ρ s') (scope : Scope)
    (hd : d ∈ F.clauses.toList) :
    s'.combinationBreaks scope (d.map ρ.literal) = s.combinationBreaks scope d := by
  have hcovers := Formula.covers hd
  rw [State.combinationBreaks_eq, State.combinationBreaks_eq, Renaming.distinctVars_map hcovers,
    List.length_map]
  congr 3
  funext t
  apply congrArg Int.ofNat
  exact h.brokenCount_eq scope (Renaming.distinctVars_subset hcovers) (nodup_distinctVars d) t

theorem Renamed.singleBreaks_eq (h : s.Renamed ρ s') (scope : Scope) (hd : d ∈ F.clauses.toList) :
    s'.singleBreaks scope (d.map ρ.literal) = s.singleBreaks scope d := by
  have hcovers := Formula.covers hd
  rw [State.singleBreaks_eq, State.singleBreaks_eq, Renaming.distinctVars_map hcovers,
    List.length_map]
  congr 2
  funext j
  apply congrArg Int.ofNat
  exact h.brokenCount_eq scope (Renaming.distinctVars_subset hcovers) (nodup_distinctVars d) _

theorem Renamed.refresh (h : s.Renamed ρ s') (id : Nat) :
    (s.refresh id).Renamed ρ (s'.refresh id) := by
  have hclause : (F.renamed ρ).clauses.getD id [] = (F.clauses.getD id []).map ρ.literal := by
    rw [Array.getD_eq_getD_getElem?, Array.getD_eq_getD_getElem?, Formula.renamed, Array.getElem?_map]
    cases F.clauses[id]? <;> rfl
  have hcovers : Renaming.Covers F.numVars (F.clauses.getD id []) := by
    cases hd : F.clauses[id]? with
    | none =>
      rw [Array.getD_eq_getD_getElem?, hd]
      exact fun l hl => nomatch hl
    | some d =>
      rw [Formula.getD_clauses hd]
      exact Formula.covers (Formula.mem_clauses hd)
  refine ⟨h.moves, ?_⟩
  simp only [State.refresh, hclause, h.moves.holds_eq hcovers, h.unsatisfied_eq]

theorem Renamed.foldl_refresh (h : s.Renamed ρ s') (ids : List Nat) :
    (ids.foldl State.refresh s).Renamed ρ (ids.foldl State.refresh s') := by
  induction ids generalizing s s' with
  | nil => exact h
  | cons id ids ih => exact ih (h.refresh id)

theorem flip_natCast {vs : List Var} (h : ∀ v ∈ vs, v ≤ F.numVars) (s : State F) :
    ∃ t : State F, t.assignment = s.assignment.toggled vs ∧ t.unsatisfied = s.unsatisfied ∧
      flip (vs.map Int.ofNat) s = .ok () ((F.touched vs).foldl State.refresh t) := by
  have htoggle : Assignment.toggleAll (vs.map Int.ofNat) s.assignment =
      .ok () (s.assignment.toggled vs) := by
    apply Assignment.toggleAll_natCast
    rw [s.fits]
    exact h
  have htouched : (vs.map Int.ofNat).flatMap F.occurrencesAt = F.touched vs := by
    apply flatMap_occurrencesAt
    rw [List.map_map]
    apply List.map_congr_left
    intro v hv
    have hlt : v < F.numVars + 1 := Nat.lt_succ_of_le (h v hv)
    simp only [Function.comp_apply, Int.ofNat_eq_natCast, position?_natCast hlt, Option.map_some]
  unfold flip
  split
  · next he => cases htoggle.symm.trans he
  · next B hB =>
    cases htoggle.symm.trans hB
    have hfits : (s.assignment.toggled vs).numVars = F.numVars := (numVars_toggleAll hB).trans s.fits
    rw [htouched]
    exact ⟨⟨s.assignment.toggled vs, s.unsatisfied, hfits⟩, rfl, rfl, rfl⟩

theorem Renamed.flip (h : s.Renamed ρ s') {vs : List Var} (hvs : ∀ v ∈ vs, v ∈ Set.Icc 1 F.numVars)
    (hnodup : vs.Nodup) : ∃ t t', State.flip (vs.map Int.ofNat) s = .ok () t ∧
      State.flip ((vs.map ρ.var).map Int.ofNat) s' = .ok () t' ∧ t.Renamed ρ t' := by
  have hvs' : ∀ u ∈ vs.map ρ.var, u ≤ (F.renamed ρ).numVars := by
    intro u hu
    obtain ⟨v, hv, rfl⟩ := List.mem_map.1 hu
    exact (ρ.bijOn.mapsTo (hvs v hv)).2
  have htouched : (F.renamed ρ).touched (vs.map ρ.var) = F.touched vs := by
    rw [Formula.touched, Formula.touched, List.flatMap_map]
    apply List.flatMap_congr
    intro v hv
    exact Formula.occurs_renamed (hvs v hv)
  obtain ⟨t, hA, hu, hflip⟩ := flip_natCast (fun v hv => (hvs v hv).2) s
  obtain ⟨t', hA', hu', hflip'⟩ := flip_natCast hvs' s'
  have hrenamed : t.Renamed ρ t' := by
    constructor
    · rw [hA, hA']
      exact h.moves.toggled s.fits hvs hnodup
    · rw [hu, hu', h.unsatisfied_eq]
  exact ⟨_, _, hflip, htouched ▸ hflip', hrenamed.foldl_refresh _⟩

end State

end SatWalk
