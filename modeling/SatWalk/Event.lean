import SatWalk.Walk

namespace SatWalk

inductive Level
  | debug
  | info
  | error
deriving DecidableEq, Repr

def Level.name : Level → String
  | debug => "DEBUG"
  | info => "INFO"
  | error => "ERROR"

def Level.rank : Level → Nat
  | debug => 0
  | info => 1
  | error => 2

inductive Event (R : Type) [MachineReal R]
  | built (F : Formula)
  | started (F : Formula) (c : Config R)
  | restarted (unsatisfied : Nat)
  | inconsistent (ids : List Nat)
  | progress (steps unsatisfied : Nat) (statistics : Statistics)
  | satisfied (steps : Nat)
  | exhausted (steps unsatisfied : Nat) (lowest : Int)

namespace Event

variable {R : Type} [MachineReal R]

def level : Event R → Level
  | built _ | started _ _ | restarted _ => .debug
  | progress .. | satisfied _ | exhausted .. => .info
  | inconsistent _ => .error

def flipSizesText (s : Statistics) : String :=
  "\x7b" ++ commaSeparated (s.flipSizes.toList.map fun e => toString e.1 ++ ": " ++ toString e.2)
    ++ "\x7d"

def text : Event R → String
  | built F => "Built formula with " ++ toString F.numVars ++ " variables and "
      ++ toString F.numClauses ++ " clauses (max width " ++ toString F.maxWidth ++ ")."
  | started F c => "Solver created on " ++ F.text ++ " (strategy " ++ c.strategy.name
      ++ ", weighting " ++ c.family.name ++ ", temperature " ++ c.temperature.text ++ ", budget "
      ++ toString c.budget ++ ", seed " ++ (c.seed.map toString).getD "None" ++ ")."
  | restarted n => "Solver reset (" ++ toString n ++ " unsatisfied clauses)."
  | inconsistent ids => "No clause is recorded as unsatisfied, but " ++ toString ids.length
      ++ " clauses are (first: " ++ toString (ids.headD 0) ++ ")."
  | progress n u s => "Steps: " ++ toString n ++ " | unsatisfied: " ++ toString u
      ++ " | min. unsatisfied: " ++ toString s.lowest ++ " | flip sizes: " ++ flipSizesText s
  | satisfied n => "All clauses satisfied after " ++ toString n ++ " steps."
  | exhausted n u m => "Step budget exhausted after " ++ toString n ++ " steps (" ++ toString u
      ++ " clauses unsatisfied, min. " ++ toString m ++ ")."

def ofFault : Fault → List (Event R)
  | .inconsistent ids => [inconsistent ids]
  | _ => []

end Event

end SatWalk
