import SatWalk.Binary64
import SatWalk.Source.Script
import SatWalk.Proofs.BreakCounts
import SatWalk.Proofs.Drawing

namespace SatWalk

theorem Clause.holds_toggled_of_mem {A : Assignment} {c : Clause} {vs : List Nat}
    (hc : ∀ l ∈ c, l.natAbs ≤ A.numVars) (hf : c.holds A = false) (hvs : vs.Nodup) {v : Nat}
    (hv : v ∈ vs) (hvc : v ∈ distinctVars c) : c.holds (A.toggled vs) = true := by
  obtain ⟨l, hl, rfl⟩ := mem_distinctVars.1 hvc
  refine holds_iff.2 ⟨l, hl, ?_⟩
  rw [Assignment.truth_toggled_nodup (hc l hl) hvs, not_holds_iff.1 hf l hl, decide_eq_true hv]
  rfl

namespace Sampler

variable {R : Type} [MachineReal R] {G : Type} [Source G] {F : Formula} {s : State F} {c : Clause}
  {scope : Scope} {t t' : WeightTable R} {g g' : G} {choice : FlipChoice Var}

theorem length_weights {bs : List Int} {ws : List R} (h : weights bs t = .ok ws t') :
    ws.length = bs.length := by
  induction bs generalizing t ws with
  | nil =>
    cases h
    rfl
  | cons b bs ih =>
    obtain ⟨x, t1, -, h1⟩ := bind_ok h
    obtain ⟨xs, t2, hxs, h2⟩ := bind_ok h1
    cases h2
    rw [List.length_cons, ih hxs, List.length_cons]

theorem uniformRepair_ok (hc : ∀ l ∈ c, l ≠ 0) (hf : c.holds s.assignment = false)
    (h : uniformRepair s c g = .ok choice g') :
    ∃ n : Nat, n ≠ 0 ∧ n < 2 ^ (distinctVars c).length ∧ choice = .of (distinctVars c) n := by
  obtain ⟨drawn, g1, hd, h1⟩ := bind_ok h
  cases h1
  obtain ⟨hfst, hacc⟩ := Repair.values_ok hd
  have hlen : drawn.length = (distinctVars c).length := by rw [← hfst, List.length_map]
  exact ⟨_, Repair.difference_ne_zero_of_accepts hc hf hacc, hlen ▸ Repair.difference_lt _ _, rfl⟩

theorem breakWeighted_ok (hc : c ≠ []) (h : breakWeighted s scope c (t, g) = .ok choice (t', g')) :
    ∃ n : Nat, n ≠ 0 ∧ n < 2 ^ (distinctVars c).length ∧ choice = .of (distinctVars c) n := by
  obtain ⟨counts, s1, hcounts, h1⟩ := bind_ok h
  obtain ⟨hok, rfl⟩ := settled_ok hcounts
  obtain ⟨ws, ⟨t2, g2⟩, hlookup, h2⟩ := bind_ok h1
  obtain ⟨hws, -⟩ := onFirst_ok hlookup
  obtain ⟨i, ⟨t3, g3⟩, hdraw, h3⟩ := bind_ok h2
  obtain ⟨hi, -⟩ := onSecond_ok hdraw
  cases h3
  have hpos : 0 < (distinctVars c).length := List.length_pos_iff.2 (distinctVars_ne_nil hc)
  have hpow : 2 ≤ 2 ^ (distinctVars c).length := by
    calc 2 = 2 ^ 1 := rfl
      _ ≤ 2 ^ (distinctVars c).length := Nat.pow_le_pow_right (by decide) hpos
  have hlen : ((MachineReal.zero :: ws).map Scalar.real).length = 2 ^ (distinctVars c).length := by
    have hsize := State.size_combinationBreaks hok
    rw [List.length_map, List.length_cons, length_weights hws, List.length_drop, Array.length_toList,
      hsize]
    omega
  have hb := Draw.index_bounds (k := 1) (by omega) hi
  rw [hlen] at hb
  refine ⟨i.toNat, by omega, by omega, ?_⟩
  rw [Int.toNat_of_nonneg (by omega)]

theorem singleFlip_ok (hc : c ≠ []) (h : singleFlip s scope c (t, g) = .ok choice (t', g')) :
    ∃ i < (distinctVars c).length, choice = .of (distinctVars c) (1 <<< i : Nat) := by
  obtain ⟨counts, s1, hcounts, h1⟩ := bind_ok h
  obtain ⟨hok, rfl⟩ := settled_ok hcounts
  obtain ⟨ws, ⟨t2, g2⟩, hlookup, h2⟩ := bind_ok h1
  obtain ⟨hws, -⟩ := onFirst_ok hlookup
  obtain ⟨i, ⟨t3, g3⟩, hdraw, h3⟩ := bind_ok h2
  obtain ⟨hi, -⟩ := onSecond_ok hdraw
  cases h3
  have hpos : 0 < (distinctVars c).length := List.length_pos_iff.2 (distinctVars_ne_nil hc)
  have hlen : (ws.map Scalar.real).length = (distinctVars c).length := by
    have hsize := BreakCount.size_sum hok
    rw [List.length_map, length_weights hws, Array.length_toList, hsize, Array.size_replicate]
  have hb := Draw.index_bounds (k := 0) (by omega) hi
  exact ⟨i.toNat, by omega, rfl⟩

theorem choose_of {p : Sampler} (h : p.choose s c (t, g) = .ok choice (t', g')) :
    choice = .of (distinctVars c) choice.combination := by
  cases hp : p.strategy with
  | uniformRepair =>
    simp only [choose, hp] at h
    obtain ⟨hchoice, -⟩ := onSecond_ok h
    obtain ⟨drawn, g1, -, h1⟩ := bind_ok hchoice
    cases h1
    rfl
  | breakWeighted =>
    simp only [choose, hp] at h
    obtain ⟨counts, s1, -, h1⟩ := bind_ok h
    obtain ⟨ws, s2, -, h2⟩ := bind_ok h1
    obtain ⟨i, s3, -, h3⟩ := bind_ok h2
    cases h3
    rfl
  | singleFlip =>
    simp only [choose, hp] at h
    obtain ⟨counts, s1, -, h1⟩ := bind_ok h
    obtain ⟨ws, s2, -, h2⟩ := bind_ok h1
    obtain ⟨i, s3, -, h3⟩ := bind_ok h2
    cases h3
    rfl

theorem choose_vars_le {p : Sampler} {id : Nat} (hid : F.clauses[id]? = some c)
    (h : p.choose s c (t, g) = .ok choice (t', g')) : ∀ v ∈ choice.vars, v ≤ F.numVars := by
  rw [choose_of h]
  intro v hv
  obtain ⟨l, hl, rfl⟩ := mem_distinctVars.1 ((select_sublist _ _).subset hv)
  exact Formula.natAbs_le hid hl

theorem choose_ok {p : Sampler} {id : Nat} (hid : F.clauses[id]? = some c)
    (hf : c.holds s.assignment = false) (h : p.choose s c (t, g) = .ok choice (t', g')) :
    ∃ n : Nat, n ≠ 0 ∧ n < 2 ^ (distinctVars c).length ∧ choice = .of (distinctVars c) n := by
  have hne : c ≠ [] := F.ne_nil c (Formula.mem_clauses hid)
  cases hp : p.strategy with
  | uniformRepair =>
    simp only [choose, hp] at h
    obtain ⟨hchoice, -⟩ := onSecond_ok h
    exact uniformRepair_ok (F.ne_zero c (Formula.mem_clauses hid)) hf hchoice
  | breakWeighted =>
    simp only [choose, hp] at h
    exact breakWeighted_ok hne h
  | singleFlip =>
    simp only [choose, hp] at h
    obtain ⟨i, hi, hchoice⟩ := singleFlip_ok hne h
    refine ⟨1 <<< i, ?_, ?_, hchoice⟩
    · rw [Nat.one_shiftLeft]
      exact Nat.ne_of_gt (Nat.two_pow_pos i)
    · rw [Nat.one_shiftLeft]
      exact Nat.pow_lt_pow_right (by decide) hi

/-- A choice for a clause that does not hold is a combination that is not empty of the clause's
distinct variables, and flipping the variables at its bits makes the clause hold. -/
theorem choose_legal (p : Sampler) (s : State F) (i : Fin F.clauses.size)
    (hf : (F.clauseAt i).holds s.assignment = false) (t t' : WeightTable R) (g g' : G)
    (choice : FlipChoice Var) (h : p.choose s (F.clauseAt i) (t, g) = .ok choice (t', g')) :
    1 ≤ choice.combination ∧
      choice.combination ≤ ((2 ^ (distinctVars (F.clauseAt i)).length - 1 : Nat) : Int) ∧
      choice.vars = ((distinctVars (F.clauseAt i)).zipIdx.filter fun v =>
        Mask.has choice.combination v.2).map Prod.fst ∧
      choice.vars.Nodup ∧
      (p.strategy = .singleFlip → ∃ v, choice.vars = [v]) ∧
      ∃ s', State.flip (choice.vars.map Int.ofNat) s = .ok () s' ∧
        (F.clauseAt i).holds s'.assignment = true := by
  have hid : F.clauses[i.val]? = some (F.clauseAt i) := Formula.getElem?_clauseAt i
  have hle := choose_vars_le hid h
  obtain ⟨n, h0, hlt, rfl⟩ := choose_ok hid hf h
  have hnodup := nodup_select (nodup_distinctVars (F.clauseAt i)) n
  obtain ⟨v, vs, hsel⟩ := List.exists_cons_of_ne_nil (select_ne_nil h0 hlt)
  have hv : v ∈ select (distinctVars (F.clauseAt i)) n := by simp [hsel]
  obtain ⟨s', hs', hA, -⟩ := State.flip_vars (s := s) hle
  refine ⟨?_, ?_, select_eq _ _, hnodup, ?_, s', hs', ?_⟩
  · exact Int.ofNat_le.2 (Nat.one_le_iff_ne_zero.2 h0)
  · exact Int.ofNat_le.2 (by omega)
  · intro hp
    simp only [choose, hp] at h
    obtain ⟨j, hj, hchoice⟩ := singleFlip_ok (F.ne_nil _ (Formula.mem_clauses hid)) h
    rw [hchoice]
    exact ⟨_, select_one_shiftLeft hj⟩
  · rw [hA]
    exact Clause.holds_toggled_of_mem (fun l hl => State.natAbs_le hid hl) hf hnodup hv
      ((select_sublist _ _).subset hv)

end Sampler

section
variable {σ α : Type}

def succeedsWith (p : α → Bool) : EStateM.Result Fault σ α → Bool
  | .ok a _ => p a
  | .error _ _ => false

theorem exists_ok {p : α → Bool} {r : EStateM.Result Fault σ α} (h : succeedsWith p r = true) :
    ∃ a s, r = .ok a s ∧ p a = true := by
  cases r with
  | ok a s => exact ⟨a, s, rfl, h⟩
  | error e s => cases h

end

def pairFormula : Formula := Formula.ofClauses 2 [[1, -2], [2]] [] (by decide) (by decide)

def pairState : State pairFormula where
  assignment := .ofList [true, false]
  unsatisfied := State.recordOf pairFormula (.ofList [true, false])
  fits := rfl

theorem Sampler.choose_legal_pair : ∃ choice s,
    (⟨.uniformRepair, .all⟩ : Sampler).choose pairState (pairFormula.clauseAt ⟨1, by decide⟩)
      ((⟨⟨.uniform, .int 1, .int 1⟩, #[]⟩ : WeightTable Float), (⟨[0]⟩ : Script)) = .ok choice s ∧
    (pairFormula.clauseAt ⟨1, by decide⟩).holds pairState.assignment = false ∧
    choice.vars = [2] ∧ 1 ≤ choice.combination ∧ choice.combination ≤ 1 ∧
    ∃ t, State.flip (choice.vars.map Int.ofNat) pairState = .ok () t ∧
      (pairFormula.clauseAt ⟨1, by decide⟩).holds t.assignment = true := by
  have hf : (pairFormula.clauseAt ⟨1, by decide⟩).holds pairState.assignment = false := by
    decide +kernel
  obtain ⟨choice, ⟨t, g⟩, h, hvars⟩ := exists_ok (p := fun choice => choice.vars == [2])
    (r := (⟨.uniformRepair, .all⟩ : Sampler).choose pairState (pairFormula.clauseAt ⟨1, by decide⟩)
      ((⟨⟨.uniform, .int 1, .int 1⟩, #[]⟩ : WeightTable Float), (⟨[0]⟩ : Script))) (by decide +kernel)
  obtain ⟨hpos, hle, -, -, -, hflip⟩ := choose_legal _ _ _ hf _ _ _ _ _ h
  exact ⟨choice, (t, g), h, hf, beq_iff_eq.1 hvars, hpos, hle, hflip⟩

end SatWalk
