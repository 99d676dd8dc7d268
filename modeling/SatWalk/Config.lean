import SatWalk.Choice
import SatWalk.Firsts

namespace SatWalk

inductive ConfigError (R : Type)
  | unknownKeys (keys : List String)
  | missingBudget
  | unknownChoice (what : String) (given : Value R) (expected : List String)
  | badBudget (given : Value R)
  | badTemperature (given : Value R)
  | badOffset (given : Value R)
  | badInterval (given : Value R)
  | badSeed (given : Value R)
  | tooLarge

section
variable {R : Type} [MachineReal R]

open MachineReal

def ConfigError.message? : ConfigError R → Option String
  | unknownKeys keys => some ("Unknown configuration keys: " ++ commaSeparated keys ++ ".")
  | missingBudget => some "Missing configuration key: step_budget."
  | unknownChoice what v expected =>
    some ("Unknown " ++ what ++ ": " ++ v.shown ++ " (expected one of "
      ++ commaSeparated (expected.map quoted) ++ ").")
  | badBudget v => some ("The step budget must be a positive integer, got " ++ v.shown ++ ".")
  | badTemperature v => some ("The temperature must be a positive real, got " ++ v.shown ++ ".")
  | badOffset v => some ("The power-law offset must be a positive real, got " ++ v.shown ++ ".")
  | badInterval v =>
    some ("The report interval must be a non negative integer, got " ++ v.shown ++ ".")
  | badSeed v => some ("The seed must be an integer or None, got " ++ v.shown ++ ".")
  | tooLarge => none

def Scalar.isUsable? : Scalar R → Option Bool
  | int n => (toReal? (int n : Scalar R)).map fun _ => decide (0 < n)
  | real x => some ((toRat? x).isSome && MachineReal.less zero x)

end

structure Config (R : Type) [MachineReal R] where
  budget : Nat
  temperature : Scalar R
  family : Family
  seed : Option Int
  strategy : Strategy
  offset : Scalar R
  scope : Scope
  -- The number of steps between two progress reports; zero for none.
  reportInterval : Nat
  -- Used by its truth: whether the whole formula is checked before a search counts as satisfied.
  verify : Value R
  budget_pos : 0 < budget
  temperature_usable : temperature.isUsable? = some true
  offset_usable : offset.isUsable? = some true

namespace Config

variable {R : Type} [MachineReal R]

open MachineReal

def keys : List String :=
  ["step_budget", "temperature", "weighting", "seed", "strategy", "power_law_offset",
   "break_scope", "report_interval", "verify_on_satisfied"]

abbrev Fields (R : Type) := List (String × Value R)

def defaultTemperature : Value R := .real one

def defaultOffset : Value R := .real ((nearest? (9 / 10)).getD one)

def defaultInterval : Nat := 100000

def unknownKeys (fields : Fields R) : List String :=
  (firsts ((fields.map Prod.fst).filter fun k => !(keys.contains k))).mergeSort
    fun a b => decide (a ≤ b)

def readChoice {α : Type} (what : String) (choices : List α) (name : α → String) (default : α) :
    Option (Value R) → Except (ConfigError R) α
  | none => .ok default
  | some v => match namedBy? choices name v with
    | some a => .ok a
    | none => .error (.unknownChoice what v (choices.map name))

def readBudget : Value R → Except (ConfigError R) { n : Nat // 0 < n }
  | .int n => if h : 0 < n then .ok ⟨n.toNat, by omega⟩ else .error (.badBudget (.int n))
  | v => .error (.badBudget v)

def readUsable (bad : Value R → ConfigError R) (v : Value R) :
    Except (ConfigError R) { x : Scalar R // x.isUsable? = some true } :=
  match v.scalar? with
  | none => .error (bad v)
  | some x =>
    match h : x.isUsable? with
    | none => .error .tooLarge
    | some false => .error (bad v)
    | some true => .ok ⟨x, h⟩

def readInterval : Option (Value R) → Except (ConfigError R) Nat
  | none => .ok defaultInterval
  | some (.int n) => if 0 ≤ n then .ok n.toNat else .error (.badInterval (.int n))
  | some v => .error (.badInterval v)

def readSeed : Option (Value R) → Except (ConfigError R) (Option Int)
  | none => .ok none
  | some .null => .ok none
  | some (.int n) => .ok (some n)
  | some v => .error (.badSeed v)

def ofBudget (fields : Fields R) (given : Value R) : Except (ConfigError R) (Config R) := do
  let family ← readChoice "weighting family" Family.choices Family.name .exponential
    (fields.lookup "weighting")
  let strategy ← readChoice "sampling strategy" Strategy.choices Strategy.name .breakWeighted
    (fields.lookup "strategy")
  let scope ← readChoice "break count scope" Scope.choices Scope.name .satisfied
    (fields.lookup "break_scope")
  let budget ← readBudget given
  let temperature ← readUsable .badTemperature
    ((fields.lookup "temperature").getD defaultTemperature)
  let offset ← readUsable .badOffset ((fields.lookup "power_law_offset").getD defaultOffset)
  let reportInterval ← readInterval (fields.lookup "report_interval")
  let seed ← readSeed (fields.lookup "seed")
  return {
    budget := budget.1, temperature := temperature.1, family, seed, strategy
    offset := offset.1, scope, reportInterval
    verify := (fields.lookup "verify_on_satisfied").getD (.bool true)
    budget_pos := budget.2
    temperature_usable := temperature.2
    offset_usable := offset.2 }

def ofFields (fields : Fields R) : Except (ConfigError R) (Config R) := do
  let unknown := unknownKeys fields
  if !unknown.isEmpty then throw (.unknownKeys unknown)
  match fields.lookup "step_budget" with
  | none => throw .missingBudget
  | some given => ofBudget fields given

def toFields (c : Config R) : Fields R :=
  [("step_budget", .int c.budget), ("temperature", c.temperature.toValue),
   ("weighting", .text c.family.name), ("seed", (c.seed.map Value.int).getD .null),
   ("strategy", .text c.strategy.name), ("power_law_offset", c.offset.toValue),
   ("break_scope", .text c.scope.name), ("report_interval", .int c.reportInterval),
   ("verify_on_satisfied", c.verify)]

end Config

end SatWalk
