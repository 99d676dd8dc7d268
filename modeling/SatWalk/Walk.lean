import SatWalk.Config
import SatWalk.Sampler
import SatWalk.Statistics

/-!
The search: a random walk over assignments. A step picks an unsatisfied clause, flips a sampled set of
its variables and records what became of the clauses they occur in, until no clause is unsatisfied
or the steps of the budget are used up.
-/

namespace SatWalk

variable {R : Type} [MachineReal R]

structure Walk (F : Formula) (c : Config R) where
  state : State F
  table : WeightTable R
  status : Status
  steps : Nat
  statistics : Statistics

structure Outcome where
  status : Status
  steps : Int
  values : List Bool
  statistics : Statistics

structure Snapshot where
  steps : Nat
  values : List Bool
  -- The ids recorded as unsatisfied, in their order in the record.
  unsatisfied : List Int
deriving DecidableEq, Repr

def literalsFrom : Nat → List Bool → List Literal
  | _, [] => []
  | v, b :: bs => (if b then (v : Int) else -(v : Int)) :: literalsFrom (v + 1) bs

namespace Outcome

def isSatisfied (o : Outcome) : Bool := o.status = .satisfied

def model (o : Outcome) : List Literal := literalsFrom 1 o.values

end Outcome

namespace Config

def weighting (c : Config R) : Weighting R := ⟨c.family, c.temperature, c.offset⟩

def sampler (c : Config R) : Sampler := ⟨c.strategy, c.scope⟩

end Config

namespace Walk

variable {F : Formula} {c : Config R} {G : Type} [Source G]

/-- The table a search starts with. It reaches to the number of clauses that the most frequent
variable occurs in; fair coins need no weights. -/
def startTable (F : Formula) (c : Config R) : Except Fault (WeightTable R) :=
  if c.strategy = .uniformRepair then .ok ⟨c.weighting, #[]⟩
  else WeightTable.create c.weighting (F.maxOccurrences + 1)

def fresh (s : State F) (table : WeightTable R) : Walk F c :=
  ⟨s, table, .running, 0, .fresh s.unsatisfied.size⟩

def start (F : Formula) (c : Config R) (A : Option Assignment) : Attempt G (Walk F c) := do
  let table ← settled (startTable F c)
  let A ← match A with
    | some A => pure A
    | none => Assignment.random F.numVars
  let s ← settled (State.of F A)
  return fresh s table

def onState {α : Type} (act : Attempt (State F × G) α) : Attempt (Walk F c × G) α := fun (w, g) =>
  match act (w.state, g) with
  | .ok a (s, g') => .ok a ({ w with state := s }, g')
  | .error e (s, g') => .error e ({ w with state := s }, g')

def onTable {α : Type} (act : Attempt (WeightTable R × G) α) : Attempt (Walk F c × G) α :=
  fun (w, g) =>
  match act (w.table, g) with
  | .ok a (t, g') => .ok a ({ w with table := t }, g')
  | .error e (t, g') => .error e ({ w with table := t }, g')

def restart (A : Option Assignment) : Attempt (Walk F c × G) Unit := do
  onState (State.replace A)
  modify fun (w, g) => (fresh w.state w.table, g)

def enter (status : Status) : Attempt (Walk F c × G) Status := fun (w, g) =>
  .ok status ({ w with status := status }, g)

/-- Ends the search as satisfied. If the configuration asks for it the formula is checked first, and
the search goes on running when the check fails. -/
def settle : Attempt (Walk F c × G) Status := do
  let (w, _) ← get
  let wrong := if c.verify.truth then w.state.inconsistencies else []
  if wrong.isEmpty then enter .satisfied
  else throw (.inconsistent wrong)

def count (size : Nat) (w : Walk F c) : Walk F c :=
  { w with
    steps := w.steps + 1
    statistics := w.statistics.record size w.state.unsatisfied.size }

def move : Attempt (Walk F c × G) Unit := do
  let (w, _) ← get
  let id ← onSecond w.state.unsatisfied.pick
  let i ← settled (F.clauseId? id)
  let choice ← onTable (c.sampler.choose w.state (F.clauseAt i))
  onState (onFirst (State.flip (choice.vars.map Int.ofNat)))
  modify fun (w, g) => (w.count choice.vars.length, g)

def close : Attempt (Walk F c × G) Status := do
  let (w, _) ← get
  if w.steps < c.budget then return w.status
  else if w.state.unsatisfied.isEmpty then settle
  else enter .exhausted

def step : Attempt (Walk F c × G) Status := do
  let (w, _) ← get
  if w.status.isTerminal then return w.status
  else if w.state.unsatisfied.isEmpty then settle
  else
    move
    close

def snapshot (w : Walk F c) : Snapshot :=
  ⟨w.steps, w.state.assignment.toList, w.state.unsatisfied.toList⟩

def outcome (w : Walk F c) : Outcome :=
  ⟨w.status, w.steps, w.state.assignment.toList, w.statistics⟩

end Walk

end SatWalk
