import Mathlib.Order.Basic
import SatWalk.Config

namespace SatWalk

section
variable {ε α β : Type}

theorem bind_eq_ok_iff {x : Except ε α} {f : α → Except ε β} {b : β} :
    (x >>= f) = .ok b ↔ ∃ a, x = .ok a ∧ f a = .ok b := by
  cases x with
  | error e => simp [bind, Except.bind]
  | ok a => simp [bind, Except.bind]

theorem bind_eq_error_iff {x : Except ε α} {f : α → Except ε β} {e : ε} :
    (x >>= f) = .error e ↔ x = .error e ∨ ∃ a, x = .ok a ∧ f a = .error e := by
  cases x with
  | error e' => simp [bind, Except.bind]
  | ok a => simp [bind, Except.bind]

end

structure Named {α : Type} (choices : List α) (name : α → String) : Prop where
  mem : ∀ a, a ∈ choices
  inj : Function.Injective name

theorem Family.named : Named Family.choices Family.name := by
  constructor
  · intro a
    cases a <;> decide
  · intro a b
    cases a <;> cases b <;> decide

theorem Strategy.named : Named Strategy.choices Strategy.name := by
  constructor
  · intro a
    cases a <;> decide
  · intro a b
    cases a <;> cases b <;> decide

theorem Scope.named : Named Scope.choices Scope.name := by
  constructor
  · intro a
    cases a <;> decide
  · intro a b
    cases a <;> cases b <;> decide

theorem namedBy_eq_some_iff {R α : Type} {choices : List α} {name : α → String} (h : Named choices name)
    {v : Value R} {a : α} : namedBy? choices name v = some a ↔ v = .text (name a) := by
  cases v with
  | text s =>
    simp only [namedBy?, Value.text.injEq]
    have hname : ∀ b, choices.find? (fun c => name c == s) = some b → name b = s := fun b hb =>
      beq_iff_eq.1 (List.find?_some (p := fun c => name c == s) hb)
    constructor
    · intro hfind
      exact (hname a hfind).symm
    · rintro rfl
      cases hfind : choices.find? fun c => name c == name a with
      | none => exact absurd (beq_self_eq_true _) (List.find?_eq_none.1 hfind a (h.mem a))
      | some b => rw [h.inj (hname b hfind)]
  | _ => exact iff_of_false nofun nofun

section
variable {R : Type}

def Value.IsOneOf (names : List String) (v : Value R) : Prop := ∃ s ∈ names, v = .text s

theorem Value.scalar_eq_some_iff {v : Value R} {x : Scalar R} : v.scalar? = some x ↔ v = x.toValue := by
  cases v <;> cases x <;> simp [scalar?, Scalar.toValue]

theorem ConfigError.message_eq_none_iff [MachineReal R] {e : ConfigError R} :
    e.message? = none ↔ e = .tooLarge := by
  cases e <;> simp [message?]

namespace Config

theorem readChoice_eq_ok_iff {α : Type} {choices : List α} {name : α → String} (h : Named choices name)
    {what : String} {default a : α} {given : Option (Value R)} :
    readChoice what choices name default given = .ok a ↔
      given.getD (.text (name default)) = .text (name a) := by
  cases given with
  | none =>
    simp only [readChoice, Option.getD_none, Except.ok.injEq, Value.text.injEq]
    exact h.inj.eq_iff.symm
  | some v =>
    rw [Option.getD_some, ← namedBy_eq_some_iff h, readChoice]
    cases namedBy? choices name v with
    | none => exact iff_of_false nofun nofun
    | some b => simp

theorem exists_readChoice {α : Type} {choices : List α} {name : α → String} (h : Named choices name)
    {what : String} {default : α} {given : Option (Value R)} :
    (∃ a, readChoice what choices name default given = .ok a) ↔
      ∀ v, given = some v → v.IsOneOf (choices.map name) := by
  simp only [readChoice_eq_ok_iff h]
  cases given with
  | none => exact iff_of_true ⟨default, rfl⟩ nofun
  | some v =>
    simp only [Option.getD_some, Option.some.injEq, forall_eq', Value.IsOneOf, List.mem_map]
    exact ⟨fun ⟨a, ha⟩ => ⟨_, ⟨a, h.mem a, rfl⟩, ha⟩, fun ⟨_, ⟨a, _, rfl⟩, ha⟩ => ⟨a, ha⟩⟩

theorem readChoice_ne_tooLarge {α : Type} {what : String} {choices : List α} {name : α → String}
    {default : α} (given : Option (Value R)) :
    readChoice what choices name default given ≠ .error .tooLarge := by
  cases given with
  | none => exact nofun
  | some v =>
    rw [readChoice]
    split <;> exact nofun

theorem readBudget_eq_ok_iff {v : Value R} {n : { n : Nat // 0 < n }} :
    readBudget v = .ok n ↔ v = .int n.1 := by
  cases v with
  | int m =>
    rw [readBudget, Value.int.injEq]
    split
    · next h =>
      rw [Except.ok.injEq, Subtype.ext_iff]
      change m.toNat = n.1 ↔ _
      omega
    · next h =>
      have hn := n.2
      exact iff_of_false nofun (by omega)
  | _ => exact iff_of_false nofun nofun

theorem exists_readBudget {v : Value R} :
    (∃ n, readBudget v = .ok n) ↔ ∃ m : Int, v = .int m ∧ 1 ≤ m := by
  simp only [readBudget_eq_ok_iff]
  constructor
  · rintro ⟨n, rfl⟩
    have hn := n.2
    exact ⟨_, rfl, by omega⟩
  · rintro ⟨m, rfl, hm⟩
    refine ⟨⟨m.toNat, by omega⟩, congrArg Value.int ?_⟩
    exact (Int.toNat_of_nonneg (by omega)).symm

theorem readBudget_ne_tooLarge (v : Value R) : readBudget v ≠ .error .tooLarge := by
  cases v with
  | int m =>
    rw [readBudget]
    split <;> exact nofun
  | _ => exact nofun

theorem readUsable_eq_ok_iff [MachineReal R] {bad : Value R → ConfigError R} {v : Value R}
    {x : { x : Scalar R // x.isUsable? = some true }} : readUsable bad v = .ok x ↔ v = x.1.toValue := by
  rw [← Value.scalar_eq_some_iff, readUsable]
  have hx := x.2
  split
  · next hv => simp [hv]
  · next y hv =>
    rw [hv, Option.some.injEq]
    split
    · next hy => exact iff_of_false nofun fun h => by simp [h, hx] at hy
    · next hy => exact iff_of_false nofun fun h => by simp [h, hx] at hy
    · next hy => rw [Except.ok.injEq, Subtype.ext_iff]

theorem readUsable_eq_tooLarge_iff [MachineReal R] {bad : Value R → ConfigError R}
    (hbad : ∀ v, bad v ≠ .tooLarge) {v : Value R} :
    readUsable bad v = .error .tooLarge ↔ ∃ x : Scalar R, v = x.toValue ∧ x.isUsable? = none := by
  simp only [← Value.scalar_eq_some_iff]
  rw [readUsable]
  split
  · next hv => simp [hv, hbad]
  · next y hv =>
    simp only [hv, Option.some.injEq, exists_eq_left']
    split
    · next hy => exact iff_of_true rfl hy
    · next hy => simp [hy, hbad]
    · next hy => simp [hy]

theorem exists_readUsable [MachineReal R] {bad : Value R → ConfigError R} {v : Value R} :
    (∃ x, readUsable bad v = .ok x) ↔ ∃ x : Scalar R, v = x.toValue ∧ x.isUsable? = some true := by
  simp only [readUsable_eq_ok_iff]
  exact ⟨fun ⟨x, h⟩ => ⟨x.1, h, x.2⟩, fun ⟨x, h, hx⟩ => ⟨⟨x, hx⟩, h⟩⟩

theorem readInterval_eq_ok_iff {given : Option (Value R)} {n : Nat} :
    readInterval given = .ok n ↔ given.getD (.int defaultInterval) = .int n := by
  cases given with
  | none =>
    simp only [readInterval, Option.getD_none, Except.ok.injEq, Value.int.injEq]
    omega
  | some v =>
    cases v with
    | int m =>
      simp only [readInterval, Option.getD_some, Value.int.injEq]
      split
      · rw [Except.ok.injEq]
        omega
      · exact iff_of_false nofun (by omega)
    | _ => exact iff_of_false nofun nofun

theorem exists_readInterval {given : Option (Value R)} : (∃ n, readInterval given = .ok n) ↔
    ∀ v, given = some v → ∃ m : Int, v = .int m ∧ 0 ≤ m := by
  simp only [readInterval_eq_ok_iff]
  cases given with
  | none => exact iff_of_true ⟨defaultInterval, rfl⟩ nofun
  | some v =>
    simp only [Option.getD_some, Option.some.injEq, forall_eq']
    constructor
    · rintro ⟨n, rfl⟩
      exact ⟨_, rfl, Int.natCast_nonneg n⟩
    · rintro ⟨m, rfl, hm⟩
      exact ⟨m.toNat, congrArg Value.int (Int.toNat_of_nonneg hm).symm⟩

theorem readInterval_ne_tooLarge (given : Option (Value R)) : readInterval given ≠ .error .tooLarge := by
  cases given with
  | none => exact nofun
  | some v =>
    cases v with
    | int m =>
      rw [readInterval]
      split <;> exact nofun
    | _ => exact nofun

theorem readSeed_eq_ok_iff {given : Option (Value R)} {s : Option Int} :
    readSeed given = .ok s ↔ given.getD .null = (s.map Value.int).getD .null := by
  cases given with
  | none => cases s <;> simp [readSeed]
  | some v => cases v <;> cases s <;> simp [readSeed]

theorem exists_readSeed {given : Option (Value R)} : (∃ s, readSeed given = .ok s) ↔
    ∀ v, given = some v → v = .null ∨ ∃ m : Int, v = .int m := by
  cases given with
  | none => exact iff_of_true ⟨none, rfl⟩ nofun
  | some v => cases v <;> simp [readSeed]

theorem readSeed_ne_tooLarge (given : Option (Value R)) : readSeed given ≠ .error .tooLarge := by
  cases given with
  | none => exact nofun
  | some v => cases v <;> exact nofun

theorem unknownKeys_eq_nil_iff {fields : Fields R} :
    unknownKeys fields = [] ↔ ∀ f ∈ fields, f.1 ∈ keys := by
  have hperm := List.mergeSort_perm
    (firsts ((fields.map Prod.fst).filter fun k => !(keys.contains k))) fun a b => decide (a ≤ b)
  rw [unknownKeys, ← List.perm_nil, hperm.congr_left, List.perm_nil, List.eq_nil_iff_forall_not_mem]
  simp only [mem_firsts, List.mem_filter, List.mem_map]
  constructor
  · intro h f hf
    by_contra hnot
    exact h f.1 ⟨⟨f, hf, rfl⟩, by simpa using hnot⟩
  · rintro h k ⟨⟨f, hf, rfl⟩, hk⟩
    simp [h f hf] at hk

variable [MachineReal R] {fields : Fields R} {given : Value R} {c : Config R}

theorem ofFields_eq (fields : Fields R) : ofFields fields =
    if unknownKeys fields = [] then
      (fields.lookup "step_budget").elim (.error .missingBudget) (ofBudget fields)
    else .error (.unknownKeys (unknownKeys fields)) := by
  rw [ofFields]
  split
  · next h =>
    rw [if_neg (by simpa using h)]
    rfl
  · next h =>
    rw [if_pos (by simpa using h)]
    cases fields.lookup "step_budget" <;> rfl

theorem ofFields_eq_iff {r : Except (ConfigError R) (Config R)}
    (hunknown : ∀ ks, .error (.unknownKeys ks) ≠ r) (hmissing : .error .missingBudget ≠ r) :
    ofFields fields = r ↔ (∀ f ∈ fields, f.1 ∈ keys) ∧
      ∃ given, fields.lookup "step_budget" = some given ∧ ofBudget fields given = r := by
  rw [ofFields_eq, ← unknownKeys_eq_nil_iff]
  split
  · next h =>
    cases fields.lookup "step_budget" <;> simp [h, hmissing]
  · next h => simp [h, hunknown]

theorem ofFields_eq_ok_iff : ofFields fields = .ok c ↔ (∀ f ∈ fields, f.1 ∈ keys) ∧
    ∃ given, fields.lookup "step_budget" = some given ∧ ofBudget fields given = .ok c :=
  ofFields_eq_iff (by simp) (by simp)

theorem ofBudget_eq_ok_iff : ofBudget fields given = .ok c ↔
    given = .int c.budget ∧
    (fields.lookup "temperature").getD defaultTemperature = c.temperature.toValue ∧
    (fields.lookup "weighting").getD (.text Family.exponential.name) = .text c.family.name ∧
    (fields.lookup "seed").getD .null = (c.seed.map Value.int).getD .null ∧
    (fields.lookup "strategy").getD (.text Strategy.breakWeighted.name) = .text c.strategy.name ∧
    (fields.lookup "power_law_offset").getD defaultOffset = c.offset.toValue ∧
    (fields.lookup "break_scope").getD (.text Scope.satisfied.name) = .text c.scope.name ∧
    (fields.lookup "report_interval").getD (.int defaultInterval) = .int c.reportInterval ∧
    (fields.lookup "verify_on_satisfied").getD (.bool true) = c.verify := by
  simp only [ofBudget, bind_eq_ok_iff, readChoice_eq_ok_iff Family.named,
    readChoice_eq_ok_iff Strategy.named, readChoice_eq_ok_iff Scope.named, readBudget_eq_ok_iff,
    readUsable_eq_ok_iff, readInterval_eq_ok_iff, readSeed_eq_ok_iff]
  constructor
  · rintro ⟨family, hfamily, strategy, hstrategy, scope, hscope, budget, hbudget, temperature,
      htemperature, offset, hoffset, interval, hinterval, seed, hseed, h⟩
    cases h
    exact ⟨hbudget, htemperature, hfamily, hseed, hstrategy, hoffset, hscope, hinterval, rfl⟩
  · rintro ⟨hbudget, htemperature, hfamily, hseed, hstrategy, hoffset, hscope, hinterval, hverify⟩
    refine ⟨c.family, hfamily, c.strategy, hstrategy, c.scope, hscope, ⟨c.budget, c.budget_pos⟩, hbudget,
      ⟨c.temperature, c.temperature_usable⟩, htemperature, ⟨c.offset, c.offset_usable⟩, hoffset,
      c.reportInterval, hinterval, c.seed, hseed, ?_⟩
    rw [hverify]
    rfl

structure Opens (fields : Fields R) : Prop where
  known : ∀ f ∈ fields, f.1 ∈ keys
  budget : ∃ n : Int, fields.lookup "step_budget" = some (.int n) ∧ 1 ≤ n
  weighting : ∀ v, fields.lookup "weighting" = some v →
    v.IsOneOf ["exponential", "power-law", "uniform"]
  strategy : ∀ v, fields.lookup "strategy" = some v →
    v.IsOneOf ["break-weighted", "uniform-repair", "single-flip"]
  scope : ∀ v, fields.lookup "break_scope" = some v → v.IsOneOf ["satisfied", "all"]

omit [MachineReal R] in
theorem opens_iff : Opens fields ↔ (∀ f ∈ fields, f.1 ∈ keys) ∧
    ∃ given, fields.lookup "step_budget" = some given ∧ (∃ n, readBudget given = .ok n) ∧
    (∃ a, readChoice "weighting family" Family.choices Family.name .exponential
      (fields.lookup "weighting") = .ok a) ∧
    (∃ a, readChoice "sampling strategy" Strategy.choices Strategy.name .breakWeighted
      (fields.lookup "strategy") = .ok a) ∧
    (∃ a, readChoice "break count scope" Scope.choices Scope.name .satisfied
      (fields.lookup "break_scope") = .ok a) := by
  simp only [exists_readBudget, exists_readChoice Family.named, exists_readChoice Strategy.named,
    exists_readChoice Scope.named]
  constructor
  · rintro ⟨hknown, ⟨n, hlookup, hn⟩, hweighting, hstrategy, hscope⟩
    exact ⟨hknown, _, hlookup, ⟨n, rfl, hn⟩, hweighting, hstrategy, hscope⟩
  · rintro ⟨hknown, _, hlookup, ⟨n, rfl, hn⟩, hweighting, hstrategy, hscope⟩
    exact ⟨hknown, ⟨n, hlookup, hn⟩, hweighting, hstrategy, hscope⟩

theorem exists_ofFields : (∃ c, ofFields fields = .ok c) ↔ Opens fields ∧
    (∃ x, readUsable .badTemperature ((fields.lookup "temperature").getD defaultTemperature) = .ok x) ∧
    (∃ x, readUsable .badOffset ((fields.lookup "power_law_offset").getD defaultOffset) = .ok x) ∧
    (∃ n, readInterval (fields.lookup "report_interval") = .ok n) ∧
    ∃ s, readSeed (fields.lookup "seed") = .ok s := by
  simp only [ofFields_eq_ok_iff, opens_iff, ofBudget, bind_eq_ok_iff]
  constructor
  · rintro ⟨c, hknown, _, hlookup, _, hfamily, _, hstrategy, _, hscope, _, hbudget, _, htemperature, _,
      hoffset, _, hinterval, _, hseed, -⟩
    exact ⟨⟨hknown, _, hlookup, ⟨_, hbudget⟩, ⟨_, hfamily⟩, ⟨_, hstrategy⟩, ⟨_, hscope⟩⟩,
      ⟨_, htemperature⟩, ⟨_, hoffset⟩, ⟨_, hinterval⟩, ⟨_, hseed⟩⟩
  · rintro ⟨⟨hknown, _, hlookup, ⟨_, hbudget⟩, ⟨_, hfamily⟩, ⟨_, hstrategy⟩, ⟨_, hscope⟩⟩,
      ⟨_, htemperature⟩, ⟨_, hoffset⟩, ⟨_, hinterval⟩, ⟨_, hseed⟩⟩
    exact ⟨_, hknown, _, hlookup, _, hfamily, _, hstrategy, _, hscope, _, hbudget, _, htemperature, _,
      hoffset, _, hinterval, _, hseed, rfl⟩

theorem ofFields_eq_tooLarge_iff : ofFields fields = .error .tooLarge ↔ Opens fields ∧
    (readUsable .badTemperature ((fields.lookup "temperature").getD defaultTemperature) =
        .error .tooLarge ∨
      (∃ x, readUsable .badTemperature ((fields.lookup "temperature").getD defaultTemperature) =
          .ok x) ∧
        readUsable .badOffset ((fields.lookup "power_law_offset").getD defaultOffset) =
          .error .tooLarge) := by
  rw [ofFields_eq_iff (by simp) (by simp), opens_iff]
  -- only the readers of numbers can fail in this way, so what comes before them is accepted
  simp only [ofBudget, bind_eq_error_iff, readChoice_ne_tooLarge, readBudget_ne_tooLarge,
    readInterval_ne_tooLarge, readSeed_ne_tooLarge, false_or, pure, Except.pure, reduceCtorEq, and_false,
    exists_false, or_false, exists_and_right]
  constructor
  · rintro ⟨hknown, given, hlookup, hfamily, hstrategy, hscope, hbudget, hnumbers⟩
    exact ⟨⟨hknown, given, hlookup, hbudget, hfamily, hstrategy, hscope⟩, hnumbers⟩
  · rintro ⟨⟨hknown, given, hlookup, hbudget, hfamily, hstrategy, hscope⟩, hnumbers⟩
    exact ⟨hknown, given, hlookup, hfamily, hstrategy, hscope, hbudget, hnumbers⟩

def defaults : Fields R :=
  [("temperature", defaultTemperature), ("weighting", .text Family.exponential.name), ("seed", .null),
   ("strategy", .text Strategy.breakWeighted.name), ("power_law_offset", defaultOffset),
   ("break_scope", .text Scope.satisfied.name), ("report_interval", .int defaultInterval),
   ("verify_on_satisfied", .bool true)]

omit [MachineReal R] in
theorem lookup_eq_none {key : String} (h : ∀ f ∈ fields, f.1 ∈ keys) (hkey : key ∉ keys) :
    fields.lookup key = none := by
  rw [List.lookup_eq_none_iff]
  intro f hf
  apply bne_iff_ne.2
  rintro rfl
  exact hkey (h f hf)

theorem defaults_known : ∀ f ∈ (defaults : Fields R), f.1 ∈ keys := by
  simp [defaults, keys]

theorem toFields_known (c : Config R) : ∀ f ∈ c.toFields, f.1 ∈ keys := by
  simp [toFields, keys]

theorem forall_mem_keys {p : String → Prop} : (∀ key ∈ keys, p key) ↔ p "step_budget" ∧ p "temperature" ∧
    p "weighting" ∧ p "seed" ∧ p "strategy" ∧ p "power_law_offset" ∧ p "break_scope" ∧
    p "report_interval" ∧ p "verify_on_satisfied" := by
  simp only [keys, List.forall_mem_cons, List.not_mem_nil, false_imp_iff, forall_const, and_true]

theorem ofFields_eq_ok_iff_lookup : ofFields fields = .ok c ↔ (∀ f ∈ fields, f.1 ∈ keys) ∧
    ∀ key, (fields.lookup key).or (defaults.lookup key) = c.toFields.lookup key := by
  rw [ofFields_eq_ok_iff]
  apply and_congr_right
  intro hknown
  have hkeys : (∀ key, (fields.lookup key).or (defaults.lookup key) = c.toFields.lookup key) ↔
      ∀ key ∈ keys, (fields.lookup key).or (defaults.lookup key) = c.toFields.lookup key := by
    refine ⟨fun h key _ => h key, fun h key => ?_⟩
    by_cases hkey : key ∈ keys
    · exact h key hkey
    · -- no one has a value of another name
      rw [lookup_eq_none hknown hkey, lookup_eq_none defaults_known hkey,
        lookup_eq_none c.toFields_known hkey, Option.or_none]
  rw [hkeys, forall_mem_keys]
  simp only [ofBudget_eq_ok_iff, defaults, toFields, List.lookup_cons, List.lookup_nil, String.reduceBEq, Option.or_none,
    Option.or_some, Option.some.injEq]
  constructor
  · rintro ⟨given, hbudget, rfl, hrest⟩
    exact ⟨hbudget, hrest⟩
  · rintro ⟨hbudget, hrest⟩
    exact ⟨_, hbudget, rfl, hrest⟩

theorem lookup_toFields_isSome (c : Config R) {key : String} (h : key ∈ keys) :
    (c.toFields.lookup key).isSome := by
  revert key
  rw [forall_mem_keys]
  simp [toFields, List.lookup_cons]

theorem ofFields_toFields (c : Config R) : ofFields c.toFields = .ok c := by
  rw [ofFields_eq_ok_iff_lookup]
  refine ⟨c.toFields_known, fun key => ?_⟩
  by_cases hkey : key ∈ keys
  · exact Option.or_of_isSome (c.lookup_toFields_isSome hkey)
  · rw [lookup_eq_none defaults_known hkey, Option.or_none]

end Config

end

end SatWalk
