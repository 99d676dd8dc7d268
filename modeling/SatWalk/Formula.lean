import Std.Data.TreeMap
import SatWalk.Assignment

namespace SatWalk

abbrev Clause := List Literal

namespace Clause

def holds (A : Assignment) (c : Clause) : Bool := c.any A.truth

def evaluate? (slots : Array Bool) : Clause → Except Fault Bool
  | [] => .ok false
  | l :: ls => do
    if ← Assignment.literal? slots l then return true
    else evaluate? slots ls

end Clause

def gather (size : Nat) (keys : Clause → List Nat) : Nat → List Clause → Array (List Nat)
  | _, [] => Array.replicate size []
  | i, c :: cs => (keys c).foldl (fun ids k => ids.modify k (i :: ·)) (gather size keys (i + 1) cs)

def varsWith (sign : Literal → Bool) (c : Clause) : List Var := distinctVars (c.filter sign)

structure Occurrences where
  byVar : Array (List Nat)
  positive : Array (List Nat)
  negative : Array (List Nat)

def Occurrences.of (n : Nat) (cs : List Clause) : Occurrences where
  byVar := gather (n + 1) distinctVars 0 cs
  positive := gather (n + 1) (varsWith fun l => decide (0 < l)) 0 cs
  negative := gather (n + 1) (varsWith fun l => decide (l < 0)) 0 cs

structure Formula where
  numVars : Nat
  clauses : Array Clause
  -- Display names by variable; of two for one variable the later counts.
  names : List (Int × Option String)
  occurrences : Occurrences
  ne_nil : ∀ c ∈ clauses.toList, c ≠ []
  ne_zero : ∀ c ∈ clauses.toList, ∀ l ∈ c, l ≠ 0
  le_numVars : ∀ c ∈ clauses.toList, ∀ l ∈ c, l.natAbs ≤ numVars
  occurrences_eq : occurrences = Occurrences.of numVars clauses.toList

namespace Formula

def numClauses (F : Formula) : Nat := F.clauses.size

def maxWidth (F : Formula) : Nat := F.clauses.foldl (fun w c => max w c.length) 0

def maxOccurrences (F : Formula) : Nat :=
  F.occurrences.byVar.foldl (fun m ids => max m ids.length) 0

def clauseId? (F : Formula) (id : Int) : Except Fault (Fin F.clauses.size) :=
  match position? F.clauses.size id with
  | some i => .ok i
  | none => .error .noSuchPosition

def clauseAt (F : Formula) (i : Fin F.clauses.size) : Clause := F.clauses[i]

def evaluate? (F : Formula) (id : Int) (slots : Array Bool) : Except Fault Bool := do
  let i ← F.clauseId? id
  (F.clauseAt i).evaluate? slots

def occurrencesOf (F : Formula) (v : Int) : List Nat :=
  if 0 < v ∧ v ≤ F.numVars then F.occurrences.byVar.getD v.toNat [] else []

def literalOccurrences (F : Formula) (l : Literal) : List Nat :=
  if 0 < l then F.occurrences.positive.getD l.natAbs []
  else F.occurrences.negative.getD l.natAbs []

def occurrencesAt (F : Formula) (i : Int) : List Nat :=
  match position? F.occurrences.byVar.size i with
  | some p => F.occurrences.byVar[p]
  | none => []

def falseFrom (A : Assignment) : Nat → List Clause → List Nat
  | _, [] => []
  | i, c :: cs => if c.holds A then falseFrom A (i + 1) cs else i :: falseFrom A (i + 1) cs

def falseClauses (F : Formula) (A : Assignment) : List Nat := falseFrom A 0 F.clauses.toList

def falseFrom? (slots : Array Bool) : Nat → List Clause → Except Fault (List Nat)
  | _, [] => .ok []
  | i, c :: cs => do
    let held ← c.evaluate? slots
    let ids ← falseFrom? slots (i + 1) cs
    return if held then ids else i :: ids

def falseClauses? (F : Formula) (slots : Array Bool) : Except Fault (List Nat) :=
  falseFrom? slots 0 F.clauses.toList

def allHold? (slots : Array Bool) : List Clause → Except Fault Bool
  | [] => .ok true
  | c :: cs => do
    if ← c.evaluate? slots then allHold? slots cs
    else return false

def holds? (F : Formula) (slots : Array Bool) : Except Fault Bool :=
  allHold? slots F.clauses.toList

def name? (F : Formula) (v : Int) : Option String := (F.names.reverse.lookup v).join

def symbol (F : Formula) (l : Literal) : String :=
  match F.name? l.natAbs with
  | none => toString l
  | some name => if 0 < l then name else "-" ++ name

def nameFrom (F : Formula) : Nat → List Bool → Std.TreeMap String Bool → Std.TreeMap String Bool
  | _, [], m => m
  | v, b :: bs, m => nameFrom F (v + 1) bs (m.insert (F.symbol v) b)

def nameAssignment (F : Formula) (values : List Bool) :
    Except Fault (Std.TreeMap String Bool) :=
  if values.length = F.numVars then .ok (F.nameFrom 1 values ∅)
  else .error (.wrongValueCount values.length F.numVars)

def text (F : Formula) : String :=
  "Formula(num_vars=" ++ toString F.numVars ++ ", num_clauses=" ++ toString F.numClauses ++ ")"

end Formula

end SatWalk
