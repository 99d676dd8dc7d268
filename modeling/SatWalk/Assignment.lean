import SatWalk.Position
import SatWalk.Literal
import SatWalk.Source

namespace SatWalk

structure Assignment where
  slots : Array Bool
  slots_pos : 0 < slots.size

namespace Assignment

def ofList (values : List Bool) : Assignment := ⟨(false :: values).toArray, by simp⟩

def numVars (A : Assignment) : Nat := A.slots.size - 1

def toList (A : Assignment) : List Bool := A.slots.toList.tail

def copy (A : Assignment) : Assignment := ofList A.toList

def agrees (A B : Assignment) : Bool := A.toList == B.toList

def random {G : Type} [Source G] (n : Nat) : Attempt G Assignment := ofList <$> drawCoins n

def truth (A : Assignment) (l : Literal) : Bool :=
  let value := A.slots.getD l.natAbs false
  if 0 < l then value else !value

theorem numVars_ofList (values : List Bool) : (ofList values).numVars = values.length := by
  simp [ofList, numVars]

theorem toList_ofList (values : List Bool) : (ofList values).toList = values := by
  simp [ofList, toList]

theorem length_toList (A : Assignment) : A.toList.length = A.numVars := by
  simp [toList, numVars]

def get (A : Assignment) (v : Int) : Except Fault Bool :=
  if 0 < v ∧ v < A.slots.size then .ok (A.slots.getD v.toNat false) else .error (.noSuchVariable v)

def slot? (slots : Array Bool) (i : Int) : Except Fault Bool :=
  match position? slots.size i with
  | some p => .ok slots[p]
  | none => .error .noSuchPosition

def literal? (slots : Array Bool) (l : Literal) : Except Fault Bool :=
  if 0 < l then slot? slots l else (!·) <$> slot? slots (-l)

def set? (A : Assignment) (i : Int) (value : Bool) : Option Assignment :=
  (position? A.slots.size i).map fun (p : Fin A.slots.size) =>
    ⟨A.slots.set p.val value p.isLt, by simpa using A.slots_pos⟩

def toggle? (A : Assignment) (i : Int) : Option Assignment :=
  (position? A.slots.size i).map fun (p : Fin A.slots.size) =>
    ⟨A.slots.set p.val (!A.slots[p]) p.isLt, by simpa using A.slots_pos⟩

theorem numVars_set? {A B : Assignment} {i : Int} {value : Bool} (h : A.set? i value = some B) :
    B.numVars = A.numVars := by
  obtain ⟨p, _, rfl⟩ := Option.map_eq_some_iff.1 h
  simp [numVars]

theorem numVars_toggle? {A B : Assignment} {i : Int} (h : A.toggle? i = some B) :
    B.numVars = A.numVars := by
  obtain ⟨p, _, rfl⟩ := Option.map_eq_some_iff.1 h
  simp [numVars]

def set (i : Int) (value : Bool) : Attempt Assignment Unit := fun A =>
  match A.set? i value with
  | some B => .ok () B
  | none => .error .noSuchPosition A

def toggle (i : Int) : Attempt Assignment Unit := fun A =>
  match A.toggle? i with
  | some B => .ok () B
  | none => .error .noSuchPosition A

def toggleAll : List Int → Attempt Assignment Unit
  | [] => return ()
  | i :: is => do
    toggle i
    toggleAll is

def text (A : Assignment) : String :=
  let inner := match A.toList with
    | [b] => boolText b ++ ","
    | bs => commaSeparated (bs.map boolText)
  "Assignment((" ++ inner ++ "))"

end Assignment

end SatWalk
