import Mathlib.Data.List.Dedup
import Mathlib.Data.List.Induction
import Mathlib.Data.Nat.Basic
import Mathlib.Order.Interval.Set.Defs
import SatWalk.Formula.Build
import Std.Data.String.ToNat

namespace SatWalk

namespace Formula

variable {F : Formula} {name : String} {b : Bool} {bs : List Bool} {v : Nat}

theorem symbol_of_named (hv : 0 < v) (h : F.name? v = some name) : F.symbol v = name := by
  have hpos : (0 : Int) < v := Int.natCast_pos.2 hv
  rw [symbol, Int.natAbs_natCast, h]
  exact if_pos hpos

theorem symbol_of_unnamed (h : F.name? v = none) : F.symbol v = toString v := by
  rw [symbol, Int.natAbs_natCast, h]
  rfl

/-- No two variables are given one name, and none is given the number of one without a name. -/
structure NamedApart (F : Formula) : Prop where
  named : ∀ u ∈ Set.Icc 1 F.numVars, ∀ v ∈ Set.Icc 1 F.numVars, ∀ name,
    F.name? u = some name → F.name? v = some name → u = v
  unnamed : ∀ u ∈ Set.Icc 1 F.numVars, ∀ v ∈ Set.Icc 1 F.numVars, ∀ name,
    F.name? u = some name → F.name? v = none → name ≠ toString v

theorem namedApart_iff : F.NamedApart ↔ ∀ u ∈ Set.Icc 1 F.numVars, ∀ v ∈ Set.Icc 1 F.numVars,
    F.symbol u = F.symbol v → u = v := by
  constructor
  · intro h u hu v hv heq
    cases hnu : F.name? u with
    | some s =>
      rw [symbol_of_named hu.1 hnu] at heq
      cases hnv : F.name? v with
      | some t =>
        rw [symbol_of_named hv.1 hnv] at heq
        exact h.named u hu v hv s hnu (heq ▸ hnv)
      | none =>
        rw [symbol_of_unnamed hnv] at heq
        exact absurd heq (h.unnamed u hu v hv s hnu hnv)
    | none =>
      rw [symbol_of_unnamed hnu] at heq
      cases hnv : F.name? v with
      | some t =>
        rw [symbol_of_named hv.1 hnv] at heq
        exact absurd heq.symm (h.unnamed v hv u hu t hnv hnu)
      | none =>
        rw [symbol_of_unnamed hnv] at heq
        exact Nat.repr_injective heq
  · intro h
    constructor
    · intro u hu v hv name hnu hnv
      apply h u hu v hv
      rw [symbol_of_named hu.1 hnu, symbol_of_named hv.1 hnv]
    · intro u hu v hv name hnu hnv heq
      obtain rfl : u = v := by
        apply h u hu v hv
        rw [symbol_of_named hu.1 hnu, symbol_of_unnamed hnv, heq]
      cases hnu.symm.trans hnv

theorem nameFrom_concat (F : Formula) (v : Nat) (bs : List Bool) (b : Bool)
    (m : Std.TreeMap String Bool) : F.nameFrom v (bs ++ [b]) m =
      (F.nameFrom v bs m).insert (F.symbol (v + bs.length : Nat)) b := by
  induction bs generalizing v m with
  | nil => rfl
  | cons c cs ih =>
    rw [List.cons_append, nameFrom, nameFrom, ih, List.length_cons, Nat.add_right_comm, Nat.add_assoc]

theorem mem_nameFrom : name ∈ F.nameFrom v bs ∅ ↔ ∃ i < bs.length, F.symbol (v + i : Nat) = name := by
  induction bs using List.reverseRecOn with
  | nil => simp [nameFrom]
  | append_singleton bs c ih =>
    rw [nameFrom_concat, Std.TreeMap.mem_insert, Std.compare_eq_iff_eq, ih, List.length_append,
      List.length_singleton, Nat.exists_lt_succ_right, or_comm]

theorem getElem?_nameFrom : (F.nameFrom v bs ∅)[name]? = some b ↔
    ∃ i, bs[i]? = some b ∧ F.symbol (v + i : Nat) = name ∧
      ∀ j, i < j → j < bs.length → F.symbol (v + j : Nat) ≠ name := by
  induction bs using List.reverseRecOn with
  | nil => simp [nameFrom]
  | append_singleton bs c ih =>
    rw [nameFrom_concat, Std.TreeMap.getElem?_insert]
    simp only [Std.compare_eq_iff_eq]
    split
    · next hlast =>
      constructor
      · intro hc
        refine ⟨bs.length, ?_, hlast, ?_⟩
        · rw [List.getElem?_concat_length, hc]
        · intro j hj hlt
          rw [List.length_append, List.length_singleton] at hlt
          omega
      · rintro ⟨i, hi, -, hlater⟩
        have hlt : i < (bs ++ [c]).length := (List.getElem?_eq_some_iff.1 hi).1
        rw [List.length_append, List.length_singleton] at hlt hlater
        obtain rfl : i = bs.length := by
          by_contra hne
          exact hlater bs.length (by omega) (by omega) hlast
        rwa [List.getElem?_concat_length] at hi
    · next hlast =>
      rw [ih]
      apply exists_congr
      intro i
      constructor
      · rintro ⟨hi, hname, hlater⟩
        have hlt : i < bs.length := (List.getElem?_eq_some_iff.1 hi).1
        refine ⟨(List.getElem?_append_left hlt).trans hi, hname, ?_⟩
        intro j hj hjlt
        rw [List.length_append, List.length_singleton] at hjlt
        rcases Nat.lt_or_eq_of_le (Nat.le_of_lt_succ hjlt) with hjlt | rfl
        · exact hlater j hj hjlt
        · exact hlast
      · rintro ⟨hi, hname, hlater⟩
        have hlt : i < (bs ++ [c]).length := (List.getElem?_eq_some_iff.1 hi).1
        rw [List.length_append, List.length_singleton] at hlt hlater
        have hne : i ≠ bs.length := by
          rintro rfl
          exact hlast hname
        have hlt : i < bs.length := by omega
        refine ⟨(List.getElem?_append_left hlt).symm.trans hi, hname, ?_⟩
        intro j hj hjlt
        exact hlater j hj (Nat.lt_succ_of_lt hjlt)

def displayNames (F : Formula) : List String :=
  (List.range' 1 F.numVars).map fun v : Nat => F.symbol v

theorem mem_displayNames : name ∈ F.displayNames ↔ ∃ v ∈ Set.Icc 1 F.numVars, F.symbol v = name := by
  rw [displayNames, List.mem_map]
  apply exists_congr
  intro v
  rw [List.mem_range'_1, Set.mem_Icc, Nat.add_comm, Nat.lt_succ_iff]

theorem nodup_displayNames : F.displayNames.Nodup ↔ F.NamedApart := by
  rw [displayNames, List.nodup_map_iff_inj_on List.nodup_range', namedApart_iff]
  simp only [List.mem_range'_1, Set.mem_Icc, Nat.add_comm 1, Nat.lt_succ_iff]

section
variable {values : List Bool} (h : values.length = F.numVars)

include h

theorem mem_nameFrom_one : name ∈ F.nameFrom 1 values ∅ ↔ name ∈ F.displayNames := by
  rw [mem_nameFrom, mem_displayNames, h]
  constructor
  · rintro ⟨i, hi, hname⟩
    exact ⟨1 + i, ⟨by omega, by omega⟩, hname⟩
  · rintro ⟨v, ⟨hv, hle⟩, hname⟩
    obtain ⟨i, rfl⟩ := Nat.exists_eq_add_of_le hv
    exact ⟨i, by omega, hname⟩

theorem getElem?_nameFrom_one : (F.nameFrom 1 values ∅)[name]? = some b ↔
    ∃ v ∈ Set.Icc 1 F.numVars, F.symbol v = name ∧ values[v - 1]? = some b ∧
      ∀ u ∈ Set.Icc 1 F.numVars, v < u → F.symbol u ≠ name := by
  rw [getElem?_nameFrom, h]
  constructor
  · rintro ⟨i, hi, hname, hlater⟩
    have hlt : i < values.length := (List.getElem?_eq_some_iff.1 hi).1
    refine ⟨1 + i, ⟨by omega, by omega⟩, hname, by rwa [Nat.add_sub_cancel_left], ?_⟩
    rintro u ⟨hu, hle⟩ hlt
    obtain ⟨j, rfl⟩ := Nat.exists_eq_add_of_le hu
    exact hlater j (by omega) (by omega)
  · rintro ⟨v, ⟨hv, hle⟩, hname, hb, hlater⟩
    obtain ⟨i, rfl⟩ := Nat.exists_eq_add_of_le hv
    rw [Nat.add_sub_cancel_left] at hb
    refine ⟨i, hb, hname, ?_⟩
    intro j hj hlt
    exact hlater (1 + j) ⟨by omega, by omega⟩ (by omega)

theorem size_nameFrom_one : (F.nameFrom 1 values ∅).size = F.numVars ↔ F.displayNames.Nodup := by
  have hkeys : (F.nameFrom 1 values ∅).keys.Perm F.displayNames.dedup := by
    apply (List.perm_ext_iff_of_nodup Std.TreeMap.nodup_keys (List.nodup_dedup _)).2
    intro name
    rw [Std.TreeMap.mem_keys, mem_nameFrom_one h, List.mem_dedup]
  have hlength : F.displayNames.length = F.numVars := by
    rw [displayNames, List.length_map, List.length_range']
  rw [← Std.TreeMap.length_keys, hkeys.length_eq, ← hlength, (List.dedup_sublist _).length_eq,
    List.dedup_eq_self]

end

/-- Values of all variables are reported under the display names and no others, and under each name the
value of the last variable that has it. All variables are reported with their own values exactly when
they are named apart. Values of another number are refused. -/
theorem nameAssignment_outcome (F : Formula) (values : List Bool) :
    (values.length = F.numVars → ∃ m, F.nameAssignment values = .ok m ∧
      (∀ name, name ∈ m ↔ ∃ v ∈ Set.Icc 1 F.numVars, F.symbol v = name) ∧
      (∀ name b, m[name]? = some b ↔ ∃ v ∈ Set.Icc 1 F.numVars, F.symbol v = name ∧
        values[v - 1]? = some b ∧ ∀ u ∈ Set.Icc 1 F.numVars, v < u → F.symbol u ≠ name) ∧
      (m.size = F.numVars ∧ (∀ v ∈ Set.Icc 1 F.numVars, m[F.symbol v]? = values[v - 1]?) ↔
        F.NamedApart)) ∧
    (values.length ≠ F.numVars →
      F.nameAssignment values = .error (.wrongValueCount values.length F.numVars) ∧
      (Fault.wrongValueCount values.length F.numVars).message? =
        some ("Expected " ++ toString F.numVars ++ " values, got " ++ toString values.length ++ ".")) := by
  constructor
  · intro h
    refine ⟨F.nameFrom 1 values ∅, if_pos h, ?_, fun name b => getElem?_nameFrom_one h, ?_, ?_⟩
    · intro name
      rw [mem_nameFrom_one h, mem_displayNames]
    · rintro ⟨hsize, -⟩
      exact nodup_displayNames.1 ((size_nameFrom_one h).1 hsize)
    · intro hapart
      refine ⟨(size_nameFrom_one h).2 (nodup_displayNames.2 hapart), ?_⟩
      intro v hv
      have hlt : v - 1 < values.length := by
        have := hv.1
        have := hv.2
        omega
      rw [List.getElem?_eq_getElem hlt, getElem?_nameFrom_one h]
      refine ⟨v, hv, rfl, List.getElem?_eq_getElem hlt, ?_⟩
      intro u hu hvu heq
      exact Nat.ne_of_gt hvu (namedApart_iff.1 hapart u hu v hv heq)
  · intro h
    exact ⟨if_neg h, rfl⟩

def numeralFormula : Formula :=
  Formula.ofClauses 3 [[1, 2, 3]] [(1, some "2"), (2, none), (3, some "x")] (by decide) (by decide)

theorem nameAssignment_outcome_numeral : ∃ m,
    numeralFormula.nameAssignment [true, false, true] = .ok m ∧ m["2"]? = some false ∧
    ¬ (m.size = 3 ∧
      ∀ v ∈ Set.Icc (1 : Nat) 3, m[numeralFormula.symbol v]? = [true, false, true][v - 1]?) ∧
    numeralFormula.nameAssignment [true] = .error (.wrongValueCount 1 3) := by
  obtain ⟨hok, -⟩ := nameAssignment_outcome numeralFormula [true, false, true]
  obtain ⟨-, herror⟩ := nameAssignment_outcome numeralFormula [true]
  obtain ⟨m, hm, -, hvalue, hall⟩ := hok rfl
  refine ⟨m, hm, ?_, ?_, (herror (by decide)).1⟩
  · rw [hvalue]
    refine ⟨2, ⟨by decide, by decide⟩, by decide +kernel, rfl, ?_⟩
    rintro u ⟨-, hle⟩ hlt
    obtain rfl : u = 3 := Nat.le_antisymm hle hlt
    decide +kernel
  · intro h
    have hapart : numeralFormula.NamedApart := hall.1 h
    apply hapart.unnamed 1 ⟨by decide, by decide⟩ 2 ⟨by decide, by decide⟩ "2" rfl rfl
    decide +kernel

end Formula

end SatWalk
