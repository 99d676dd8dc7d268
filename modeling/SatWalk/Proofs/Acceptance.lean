import SatWalk.Proofs.Doubles
import SatWalk.Proofs.Reading

namespace SatWalk

open MachineReal

def Value.IsUsable : Value Float → Prop
  | .real x => x.isFinite ∧ 0 < x
  | .int n => 0 < n ∧ n < Binary64.limit
  | _ => False

theorem Scalar.isUsable_real_iff {x : Float} :
    (Scalar.real x).isUsable? = some true ↔ x.isFinite ∧ 0 < x := by
  rw [isUsable?, Option.some.injEq, Bool.and_eq_true, Double.isSome_toRat_iff]
  exact and_congr_right fun _ => decide_eq_true_iff

theorem Scalar.isUsable_int_eq_none_iff {n : Int} :
    (Scalar.int n : Scalar Float).isUsable? = none ↔ Binary64.limit ≤ n.natAbs := by
  have hnear : (nearest? (n : Rat) : Option Float).isSome ↔ n.natAbs < Binary64.limit := by
    apply (Binary64.isSome_nearest_iff n).trans
    rw [← Int.cast_abs, ← Int.natCast_natAbs, Int.cast_natCast, Nat.cast_lt]
  rw [isUsable?, Option.map_eq_none_iff, toReal?, ← not_lt, ← hnear, Option.not_isSome_iff_eq_none]

theorem Scalar.isUsable_int_iff {n : Int} :
    (Scalar.int n : Scalar Float).isUsable? = some true ↔ 0 < n ∧ n < Binary64.limit := by
  constructor
  · intro h
    have hpos := usable_int h
    have hnear : ¬ Binary64.limit ≤ n.natAbs := by
      rw [← isUsable_int_eq_none_iff, h]
      exact nofun
    exact ⟨hpos, by omega⟩
  · rintro ⟨hpos, hlt⟩
    have hnear : (Scalar.int n : Scalar Float).isUsable? ≠ none := by
      rw [ne_eq, isUsable_int_eq_none_iff]
      omega
    obtain ⟨x, hx⟩ := Option.ne_none_iff_exists'.1 hnear
    rw [hx]
    rw [isUsable?, Option.map_eq_some_iff] at hx
    obtain ⟨-, -, rfl⟩ := hx
    rw [decide_eq_true hpos]

theorem Value.isUsable_iff {v : Value Float} :
    (∃ x : Scalar Float, v = x.toValue ∧ x.isUsable? = some true) ↔ v.IsUsable := by
  simp only [← Value.scalar_eq_some_iff]
  cases v with
  | real x =>
    simp only [scalar?, Option.some.injEq, exists_eq_left']
    exact Scalar.isUsable_real_iff
  | int n =>
    simp only [scalar?, Option.some.injEq, exists_eq_left']
    exact Scalar.isUsable_int_iff
  | _ => simp [scalar?, IsUsable]

theorem Value.isUsable_eq_none_iff {v : Value Float} :
    (∃ x : Scalar Float, v = x.toValue ∧ x.isUsable? = none) ↔
      ∃ n : Int, v = .int n ∧ Binary64.limit ≤ n.natAbs := by
  simp only [← Value.scalar_eq_some_iff]
  cases v with
  | real x => simp [scalar?, Scalar.isUsable?]
  | int n => simp [scalar?, Scalar.isUsable_int_eq_none_iff]
  | _ => simp [scalar?]

namespace Config

variable {fields : Fields Float}

def documented : Fields Float :=
  [("temperature", .real 1.0), ("weighting", .text "exponential"), ("seed", .null),
   ("strategy", .text "break-weighted"), ("power_law_offset", .real 0.9),
   ("break_scope", .text "satisfied"), ("report_interval", .int 100000),
   ("verify_on_satisfied", .bool true)]

theorem defaultTemperature_double : (defaultTemperature : Value Float) = .real 1.0 := rfl

theorem defaultOffset_double : (defaultOffset : Value Float) = .real 0.9 := by
  have hnearest : (nearest? (9 / 10) : Option Float) = some 0.9 := by decide +kernel
  rw [defaultOffset, hnearest, Option.getD_some]

theorem defaults_double : (defaults : Fields Float) = documented := by
  rw [defaults, defaultOffset_double]
  rfl

structure Acceptable (fields : Fields Float) : Prop extends Opens fields where
  temperature : ∀ v, fields.lookup "temperature" = some v → v.IsUsable
  offset : ∀ v, fields.lookup "power_law_offset" = some v → v.IsUsable
  interval : ∀ v, fields.lookup "report_interval" = some v → ∃ n : Int, v = .int n ∧ 0 ≤ n
  seed : ∀ v, fields.lookup "seed" = some v → v = .null ∨ ∃ n : Int, v = .int n

def Overflows (fields : Fields Float) : Prop :=
  Opens fields ∧
    ((∃ n : Int, fields.lookup "temperature" = some (.int n) ∧ Binary64.limit ≤ n.natAbs) ∨
      (∀ v, fields.lookup "temperature" = some v → v.IsUsable) ∧
        ∃ n : Int, fields.lookup "power_law_offset" = some (.int n) ∧ Binary64.limit ≤ n.natAbs)

theorem exists_readUsable_double {bad : Value Float → ConfigError Float} {given : Option (Value Float)}
    {x : Float} (hx : x.isFinite ∧ 0 < x) :
    (∃ y, readUsable bad (given.getD (.real x)) = .ok y) ↔ ∀ v, given = some v → v.IsUsable := by
  rw [exists_readUsable, Value.isUsable_iff]
  cases given with
  | none => exact iff_of_true hx nofun
  | some v => simp

theorem readUsable_double_eq_tooLarge_iff {bad : Value Float → ConfigError Float}
    (hbad : ∀ v, bad v ≠ .tooLarge) {given : Option (Value Float)} {x : Float} :
    readUsable bad (given.getD (.real x)) = .error .tooLarge ↔
      ∃ n : Int, given = some (.int n) ∧ Binary64.limit ≤ n.natAbs := by
  rw [readUsable_eq_tooLarge_iff hbad, Value.isUsable_eq_none_iff]
  cases given <;> simp

theorem usable_one : (1.0 : Float).isFinite ∧ 0 < (1.0 : Float) := by decide +kernel

theorem usable_nineTenths : (0.9 : Float).isFinite ∧ 0 < (0.9 : Float) := by decide +kernel

theorem exists_ofFields_iff : (∃ c, ofFields fields = .ok c) ↔ Acceptable fields := by
  rw [exists_ofFields, exists_readInterval, exists_readSeed, defaultTemperature_double,
    defaultOffset_double, exists_readUsable_double usable_one, exists_readUsable_double usable_nineTenths]
  constructor
  · rintro ⟨hopens, htemperature, hoffset, hinterval, hseed⟩
    exact ⟨hopens, htemperature, hoffset, hinterval, hseed⟩
  · rintro ⟨hopens, htemperature, hoffset, hinterval, hseed⟩
    exact ⟨hopens, htemperature, hoffset, hinterval, hseed⟩

theorem ofFields_eq_tooLarge_iff_overflows : ofFields fields = .error .tooLarge ↔ Overflows fields := by
  have htemperature : ∀ v : Value Float, ConfigError.badTemperature v ≠ .tooLarge := nofun
  have hoffset : ∀ v : Value Float, ConfigError.badOffset v ≠ .tooLarge := nofun
  rw [ofFields_eq_tooLarge_iff, defaultTemperature_double, defaultOffset_double,
    exists_readUsable_double usable_one, readUsable_double_eq_tooLarge_iff htemperature,
    readUsable_double_eq_tooLarge_iff hoffset]
  rfl

/-- A configuration is read from exactly the acceptable values. It keeps those that are given, has the
documented defaults for all others, and is read back from its own nine values. -/
theorem ofFields_acceptable (fields : Fields Float) :
    ((∃ c, ofFields fields = .ok c) ↔ Acceptable fields) ∧
      ∀ c, ofFields fields = .ok c →
        (∀ key, c.toFields.lookup key = (fields.lookup key).or (documented.lookup key)) ∧
        c.toFields.map Prod.fst = keys ∧ ofFields c.toFields = .ok c := by
  refine ⟨exists_ofFields_iff, ?_⟩
  intro c hc
  obtain ⟨-, hvalues⟩ := ofFields_eq_ok_iff_lookup.1 hc
  refine ⟨?_, rfl, c.ofFields_toFields⟩
  intro key
  rw [← defaults_double, hvalues]

theorem ofFields_acceptable_power : ∃ c : Config Float,
    ofFields [("temperature", .int 2), ("step_budget", .int 5), ("weighting", .text "power-law")] = .ok c ∧
    c.toFields.lookup "temperature" = some (.int 2) ∧
    c.toFields.lookup "power_law_offset" = some (.real 0.9) ∧
    c.toFields.lookup "seed" = some .null ∧ ofFields c.toFields = .ok c := by
  obtain ⟨haccepts, hkeeps⟩ := ofFields_acceptable
    [("temperature", .int 2), ("step_budget", .int 5), ("weighting", .text "power-law")]
  obtain ⟨c, hc⟩ := haccepts.2 {
    known := by simp [keys]
    budget := ⟨5, rfl, by decide⟩
    weighting := by simp [List.lookup_cons, Value.IsOneOf]
    strategy := nofun
    scope := nofun
    temperature := by
      rintro v hv
      cases hv
      exact ⟨by decide, by decide +kernel⟩
    offset := nofun
    interval := nofun
    seed := nofun }
  obtain ⟨hvalues, -, hback⟩ := hkeeps c hc
  refine ⟨c, hc, ?_, ?_, ?_, hback⟩
  · rw [hvalues]
    rfl
  · rw [hvalues]
    rfl
  · rw [hvalues]
    rfl

/-- Values are read, or refused with a message, or they overflow. They do where all that is checked
before is in order and an integer beyond the range of doubles comes as the temperature, or as the
offset after a usable temperature. -/
theorem ofFields_outcome (fields : Fields Float) :
    ((∃ c, ofFields fields = .ok c) ∨ (∃ e m, ofFields fields = .error e ∧ e.message? = some m) ∨
      ofFields fields = .error .tooLarge) ∧
    (ofFields fields = .error .tooLarge ↔ Overflows fields) := by
  refine ⟨?_, ofFields_eq_tooLarge_iff_overflows⟩
  cases ofFields fields with
  | ok c => exact .inl ⟨c, rfl⟩
  | error e =>
    apply Or.inr
    cases hm : e.message? with
    | none => exact .inr (congrArg _ (ConfigError.message_eq_none_iff.1 hm))
    | some m => exact .inl ⟨e, m, rfl, hm⟩

def heated (n : Int) : Fields Float := [("step_budget", .int 1), ("temperature", .int n)]

theorem heated_overflows {n : Int} (hn : Binary64.limit ≤ n.natAbs) :
    ofFields (heated n) = .error .tooLarge := by
  apply ofFields_eq_tooLarge_iff_overflows.2
  refine ⟨?_, .inl ⟨n, rfl, hn⟩⟩
  exact {
    known := by simp [heated, keys]
    budget := ⟨1, rfl, by decide⟩
    weighting := nofun
    strategy := nofun
    scope := nofun }

theorem ofFields_no_message :
    ¬ ((∃ c, ofFields (heated (-10 ^ 400)) = .ok c) ∨
      ∃ e m, ofFields (heated (-10 ^ 400)) = .error e ∧ e.message? = some m) := by
  rw [heated_overflows (by decide +kernel)]
  rintro (⟨c, hc⟩ | ⟨e, m, he, hm⟩)
  · cases hc
  · cases he
    cases hm

end Config

end SatWalk
