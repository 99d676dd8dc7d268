import SatWalk.Formula
import SatWalk.PickSet

namespace SatWalk

structure State (F : Formula) where
  assignment : Assignment
  unsatisfied : PickSet
  fits : assignment.numVars = F.numVars

namespace State

variable {F : Formula}

def recordOf (F : Formula) (A : Assignment) : PickSet :=
  PickSet.ofList ((F.falseClauses A).map Int.ofNat)

def of (F : Formula) (A : Assignment) : Except Fault (State F) :=
  if h : A.numVars = F.numVars then .ok ⟨A, recordOf F A, h⟩
  else .error (.wrongVariableCount A.numVars F.numVars)

def rescan (s : State F) : State F := { s with unsatisfied := recordOf F s.assignment }

def recorded (s : State F) (id : Int) : Bool := !(s.unsatisfied.contains id)

def wrongFrom (s : State F) : Nat → List Clause → List Nat
  | _, [] => []
  | i, c :: cs =>
    if c.holds s.assignment = s.recorded i then wrongFrom s (i + 1) cs
    else i :: wrongFrom s (i + 1) cs

def inconsistencies (s : State F) : List Nat := s.wrongFrom 0 F.clauses.toList

def refresh (s : State F) (id : Nat) : State F :=
  let held := (F.clauses.getD id []).holds s.assignment
  { s with unsatisfied := if held then s.unsatisfied.erase id else s.unsatisfied.insert id }

theorem numVars_toggleAll {is : List Int} {A B : Assignment}
    (h : Assignment.toggleAll is A = .ok () B) : B.numVars = A.numVars := by
  induction is generalizing A with
  | nil =>
    cases h
    rfl
  | cons i is ih =>
    simp only [Assignment.toggleAll, Assignment.toggle, bind, EStateM.bind] at h
    cases hi : A.toggle? i with
    | none => simp [hi] at h
    | some C =>
      simp only [hi] at h
      exact (ih h).trans (Assignment.numVars_toggle? hi)

theorem numVars_toggleAll_error {is : List Int} {A B : Assignment} {e : Fault}
    (h : Assignment.toggleAll is A = .error e B) : B.numVars = A.numVars := by
  induction is generalizing A with
  | nil => cases h
  | cons i is ih =>
    simp only [Assignment.toggleAll, Assignment.toggle, bind, EStateM.bind] at h
    cases hi : A.toggle? i with
    | none =>
      simp only [hi] at h
      cases h
      rfl
    | some C =>
      simp only [hi] at h
      exact (ih h).trans (Assignment.numVars_toggle? hi)

/-- Toggles variables in order and then records anew the clauses they occur in. Toggling stops at a
variable that does not exist; the record is then left alone. -/
def flip (vs : List Int) : Attempt (State F) Unit := fun s =>
  match h : Assignment.toggleAll vs s.assignment with
  | .error e A => .error e { s with assignment := A, fits := (numVars_toggleAll_error h).trans s.fits }
  | .ok () A =>
    let s : State F := { s with assignment := A, fits := (numVars_toggleAll h).trans s.fits }
    .ok () ((vs.flatMap F.occurrencesAt).foldl refresh s)

def write (i : Int) (value : Bool) : Attempt (State F) Unit := fun s =>
  match h : s.assignment.set? i value with
  | some A => .ok () { s with assignment := A, fits := (Assignment.numVars_set? h).trans s.fits }
  | none => .error .noSuchPosition s

def toggle (i : Int) : Attempt (State F) Unit := fun s =>
  match h : s.assignment.toggle? i with
  | some A => .ok () { s with assignment := A, fits := (Assignment.numVars_toggle? h).trans s.fits }
  | none => .error .noSuchPosition s

def replace {G : Type} [Source G] (A : Option Assignment) : Attempt (State F × G) Unit := do
  let A ← match A with
    | some A => pure A
    | none => onSecond (Assignment.random F.numVars)
  let s ← settled (of F A)
  onFirst (set s)

end State

end SatWalk
