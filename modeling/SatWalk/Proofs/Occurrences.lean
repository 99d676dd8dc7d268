import Mathlib.Data.List.Basic
import SatWalk.Formula

namespace SatWalk

theorem mem_distinctVars {c : Clause} {v : Var} : v ∈ distinctVars c ↔ ∃ l ∈ c, l.natAbs = v := by
  rw [distinctVars, mem_firsts, List.mem_map]
  rfl

theorem nodup_distinctVars (c : Clause) : (distinctVars c).Nodup := nodup_firsts _

theorem distinctVars_ne_nil {c : Clause} (h : c ≠ []) : distinctVars c ≠ [] := by
  cases c with
  | nil => exact absurd rfl h
  | cons l ls => exact List.ne_nil_of_mem (mem_distinctVars.2 ⟨l, by simp, rfl⟩)

theorem getElem?_foldl_modify {α : Type} {f : α → α} {ks : List Nat} (h : ks.Nodup) (xs : Array α)
    (k : Nat) :
    (ks.foldl (fun ys j => ys.modify j f) xs)[k]? = if k ∈ ks then xs[k]?.map f else xs[k]? := by
  induction ks generalizing xs with
  | nil => simp
  | cons j js ih =>
    obtain ⟨hj, hjs⟩ := List.nodup_cons.1 h
    rw [List.foldl_cons, ih hjs, Array.getElem?_modify]
    by_cases hk : j = k
    · subst hk
      simp [hj]
    · simp [hk, Ne.symm hk]

theorem getElem?_gather {size k : Nat} (hk : k < size) {keys : Clause → List Nat}
    (h : ∀ c, (keys c).Nodup) (i : Nat) (cs : List Clause) :
    (gather size keys i cs)[k]? = some (cs.findIdxs (fun c => decide (k ∈ keys c)) i) := by
  induction cs generalizing i with
  | nil => simp [gather, hk]
  | cons c cs ih =>
    rw [gather, getElem?_foldl_modify (h c), ih, List.findIdxs_cons]
    by_cases hc : k ∈ keys c <;> simp [hc]

theorem size_gather (size : Nat) (keys : Clause → List Nat) (i : Nat) (cs : List Clause) :
    (gather size keys i cs).size = size := by
  have hfold (f : List Nat → List Nat) (ks : List Nat) (xs : Array (List Nat)) :
      (ks.foldl (fun ys j => ys.modify j f) xs).size = xs.size := by
    induction ks generalizing xs with
    | nil => rfl
    | cons j js ih => rw [List.foldl_cons, ih, Array.size_modify]
  induction cs generalizing i with
  | nil => simp [gather]
  | cons c cs ih => rw [gather, hfold, ih]

theorem Literal.eq_of_pos {l m : Int} (hl : 0 < l) (hm : 0 < m) (h : l.natAbs = m.natAbs) : l = m := by
  omega

theorem Literal.eq_of_not_pos {l m : Int} (hl : ¬ 0 < l) (hm : ¬ 0 < m) (h : l.natAbs = m.natAbs) :
    l = m := by
  omega

theorem mem_varsWith {sign : Literal → Bool} {c : Clause} {v : Var} :
    v ∈ varsWith sign c ↔ ∃ l ∈ c, sign l = true ∧ l.natAbs = v := by
  simp only [varsWith, mem_distinctVars, List.mem_filter, and_assoc]

theorem nodup_varsWith (sign : Literal → Bool) (c : Clause) : (varsWith sign c).Nodup :=
  nodup_distinctVars _

namespace Formula

variable {F : Formula}

def idsWith (F : Formula) (p : Clause → Bool) : List Nat := F.clauses.toList.findIdxs p

theorem mem_idsWith {p : Clause → Bool} {id : Nat} :
    id ∈ F.idsWith p ↔ ∃ c, F.clauses[id]? = some c ∧ p c = true := by
  rw [idsWith, List.mem_findIdxs_iff_exists_getElem_pos]
  simp only [Array.getElem?_eq_some_iff, Array.getElem_toList, Array.length_toList]
  constructor
  · rintro ⟨hlt, hp⟩
    exact ⟨_, ⟨hlt, rfl⟩, hp⟩
  · rintro ⟨c, ⟨hlt, rfl⟩, hp⟩
    exact ⟨hlt, hp⟩

theorem nodup_idsWith (F : Formula) (p : Clause → Bool) : (F.idsWith p).Nodup := List.nodup_findIdxs

theorem idsWith_congr {p q : Clause → Bool} (h : ∀ c ∈ F.clauses.toList, p c = q c) :
    F.idsWith p = F.idsWith q := by
  have hgen : ∀ (cs : List Clause) (i : Nat), (∀ c ∈ cs, p c = q c) →
      cs.findIdxs p i = cs.findIdxs q i := by
    intro cs
    induction cs with
    | nil => intro i _; rfl
    | cons c cs ih =>
      intro i hcs
      rw [List.findIdxs_cons, List.findIdxs_cons, hcs c (by simp),
        ih (i + 1) fun d hd => hcs d (by simp [hd])]
  exact hgen _ 0 h

theorem byVar_eq (F : Formula) :
    F.occurrences.byVar = gather (F.numVars + 1) distinctVars 0 F.clauses.toList := by
  rw [F.occurrences_eq]
  rfl

theorem positive_eq (F : Formula) : F.occurrences.positive =
    gather (F.numVars + 1) (varsWith fun l => decide (0 < l)) 0 F.clauses.toList := by
  rw [F.occurrences_eq]
  rfl

theorem negative_eq (F : Formula) : F.occurrences.negative =
    gather (F.numVars + 1) (varsWith fun l => decide (l < 0)) 0 F.clauses.toList := by
  rw [F.occurrences_eq]
  rfl

theorem size_byVar (F : Formula) : F.occurrences.byVar.size = F.numVars + 1 := by
  rw [byVar_eq, size_gather]

theorem getElem?_byVar {v : Nat} (hv : v ≤ F.numVars) :
    F.occurrences.byVar[v]? = some (F.idsWith fun c => decide (v ∈ distinctVars c)) := by
  rw [byVar_eq, getElem?_gather (by omega) nodup_distinctVars]
  rfl

theorem foldl_max_le_iff {α : Type} {f : α → Nat} {as : List α} {m k : Nat} :
    as.foldl (fun n a => max n (f a)) m ≤ k ↔ m ≤ k ∧ ∀ a ∈ as, f a ≤ k := by
  induction as generalizing m with
  | nil => simp
  | cons a as ih =>
    rw [List.foldl_cons, ih, List.forall_mem_cons, Nat.max_le, and_assoc]

theorem maxOccurrences_le_iff {m : Nat} : F.maxOccurrences ≤ m ↔
    ∀ v ≤ F.numVars, (F.idsWith fun c => decide (v ∈ distinctVars c)).length ≤ m := by
  rw [maxOccurrences, ← Array.foldl_toList, foldl_max_le_iff]
  constructor
  · rintro ⟨-, h⟩ v hv
    apply h
    exact Array.mem_toList_iff.2 (Array.mem_of_getElem? (getElem?_byVar hv))
  · intro h
    refine ⟨Nat.zero_le m, ?_⟩
    intro ids hids
    obtain ⟨v, hv, rfl⟩ := Array.mem_iff_getElem.1 (Array.mem_toList_iff.1 hids)
    have hle : v ≤ F.numVars := by
      rw [size_byVar] at hv
      exact Nat.lt_succ_iff.1 hv
    have hget := getElem?_byVar hle
    rw [Array.getElem?_eq_getElem hv, Option.some.injEq] at hget
    rw [hget]
    exact h v hle

theorem occurrencesAt_eq {i : Int} {v : Nat} (h : (position? (F.numVars + 1) i).map Fin.val = some v) :
    F.occurrencesAt i = F.idsWith fun c => decide (v ∈ distinctVars c) := by
  have hgen : F.occurrencesAt i =
      (((position? F.occurrences.byVar.size i).map Fin.val).bind (F.occurrences.byVar[·]?)).getD [] := by
    unfold occurrencesAt
    cases position? F.occurrences.byVar.size i <;> simp
  obtain ⟨p, hp, rfl⟩ := Option.map_eq_some_iff.1 h
  rw [hgen, size_byVar, h, Option.bind_some, getElem?_byVar (by omega), Option.getD_some]

theorem occurrencesOf_eq (F : Formula) (v : Int) :
    F.occurrencesOf v =
      if 0 < v ∧ v ≤ F.numVars then F.idsWith fun c => decide (v.toNat ∈ distinctVars c) else [] := by
  unfold occurrencesOf
  split
  · next hv => rw [Array.getD_eq_getD_getElem?, getElem?_byVar (by omega), Option.getD_some]
  · rfl

theorem getD_gather_varsWith {l : Int} {sign : Literal → Bool}
    (h : ∀ c ∈ F.clauses.toList, l.natAbs ∈ varsWith sign c ↔ l ∈ c) :
    (gather (F.numVars + 1) (varsWith sign) 0 F.clauses.toList).getD l.natAbs [] =
      F.idsWith fun c => decide (l ∈ c) := by
  have hids : (F.idsWith fun c => decide (l.natAbs ∈ varsWith sign c)) =
      F.idsWith fun c => decide (l ∈ c) := by
    apply idsWith_congr
    intro c hc
    exact decide_eq_decide.2 (h c hc)
  rw [Array.getD_eq_getD_getElem?, ← hids]
  by_cases hv : l.natAbs ≤ F.numVars
  · rw [getElem?_gather (by omega) (nodup_varsWith sign), Option.getD_some]
    rfl
  · have hnone : (gather (F.numVars + 1) (varsWith sign) 0 F.clauses.toList)[l.natAbs]? = none := by
      rw [Array.getElem?_eq_none_iff, size_gather]
      omega
    rw [hnone, Option.getD_none, hids]
    symm
    apply List.findIdxs_eq_nil_iff.2
    intro c hc
    have hlc : l ∉ c := fun hl => hv (F.le_numVars c hc l hl)
    simp [hlc]

theorem literalOccurrences_eq (F : Formula) (l : Int) :
    F.literalOccurrences l = F.idsWith fun c => decide (l ∈ c) := by
  unfold literalOccurrences
  split
  · next hl =>
    rw [positive_eq]
    apply getD_gather_varsWith
    intro c _
    rw [mem_varsWith]
    constructor
    · rintro ⟨m, hm, hp, he⟩
      have hml := Literal.eq_of_pos (of_decide_eq_true hp) hl he
      exact hml ▸ hm
    · intro hc
      exact ⟨l, hc, by simpa using hl, rfl⟩
  · next hl =>
    rw [negative_eq]
    apply getD_gather_varsWith
    intro c hc
    rw [mem_varsWith]
    constructor
    · rintro ⟨m, hm, hn, he⟩
      have hml := Literal.eq_of_not_pos (Int.lt_asymm (of_decide_eq_true hn)) hl he
      exact hml ▸ hm
    · intro hlc
      have h0 : l ≠ 0 := F.ne_zero c hc l hlc
      have hn : l < 0 := Int.lt_iff_le_and_ne.2 ⟨Int.not_lt.1 hl, h0⟩
      exact ⟨l, hlc, decide_eq_true hn, rfl⟩

end Formula

end SatWalk
