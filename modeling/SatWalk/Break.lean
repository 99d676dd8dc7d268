import SatWalk.State
import SatWalk.Choice

namespace SatWalk

structure Profile where
  kill : Int
  save : Int
deriving DecidableEq, Repr

abbrev Profiles := List (Profile × Int)

namespace Profiles

def put (p : Profile) (n : Int) : Profiles → Profiles
  | [] => [(p, n)]
  | (q, m) :: rest => if p = q then (p, n) :: rest else (q, m) :: put p n rest

def count (p : Profile) : Profiles → Profiles
  | [] => [(p, 1)]
  | (q, m) :: rest => if p = q then (q, m + 1) :: rest else (q, m) :: count p rest

def ofList (entries : List (Profile × Int)) : Profiles :=
  entries.foldl (fun ps e => put e.1 e.2 ps) []

end Profiles

namespace Profile

/-- The kill and the save set with what one more literal of the neighbour adds to them. A literal
that holds on a variable elsewhere keeps the neighbour from breaking. -/
def add? (vars : List Var) (A : Assignment) (sets : Nat × Nat) (l : Literal) :
    Option (Nat × Nat) :=
  match vars.idxOf? l.natAbs with
  | some i =>
    if A.truth l then some (sets.1 ||| 1 <<< i, sets.2) else some (sets.1, sets.2 ||| 1 <<< i)
  | none => if A.truth l then none else some sets

def of? (vars : List Var) (A : Assignment) (c : Clause) : Option Profile :=
  (c.foldlM (add? vars A) (0, 0)).map fun sets => ⟨sets.1, sets.2⟩

end Profile

namespace State

variable {F : Formula}

def trueLiteral (s : State F) (v : Var) : Literal := if s.assignment.truth v then v else -(v : Int)

def neighbours (s : State F) (vars : List Var) : List Nat :=
  firsts (vars.flatMap fun v => F.literalOccurrences (s.trueLiteral v))

def profiles (s : State F) (scope : Scope) (vars : List Var) : Profiles :=
  let ids := (s.neighbours vars).filter fun (id : Nat) => scope == .all || s.recorded id
  (ids.filterMap fun (id : Nat) => Profile.of? vars s.assignment (F.clauses.getD id [])).foldl
    (fun ps p => ps.count p) []

end State

end SatWalk
