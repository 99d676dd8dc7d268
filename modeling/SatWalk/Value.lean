import SatWalk.Scalar
import SatWalk.Quoted
import SatWalk.Listing

namespace SatWalk

inductive Value (R : Type)
  | null
  | bool (b : Bool)
  | int (n : Int)
  | real (x : R)
  | text (s : String)
  | list (vs : List (Value R))
  -- Named values, in the order they were given.
  | record (fields : List (String × Value R))

namespace Value

variable {R : Type} [MachineReal R]

def truth : Value R → Bool
  | null => false
  | bool b => b
  | int n => n != 0
  | real x => !MachineReal.same x MachineReal.zero
  | text s => !s.isEmpty
  | list vs => !vs.isEmpty
  | record fs => !fs.isEmpty

def items? : Value R → Option (List (Value R))
  | list vs => some vs
  | text s => some (s.toList.map fun c => text (String.singleton c))
  | record fs => some (fs.map fun f => text f.1)
  | _ => none

mutual

def shown : Value R → String
  | null => "None"
  | bool b => boolText b
  | int n => toString n
  | real x => MachineReal.text x
  | text s => quoted s
  | list vs => bracketed (shownItems vs)
  | record fs => "\x7b" ++ commaSeparated (shownFields fs) ++ "\x7d"

def shownItems : List (Value R) → List String
  | [] => []
  | v :: vs => shown v :: shownItems vs

def shownFields : List (String × Value R) → List String
  | [] => []
  | (name, v) :: fs => (quoted name ++ ": " ++ shown v) :: shownFields fs

end

def scalar? : Value R → Option (Scalar R)
  | int n => some (.int n)
  | real x => some (.real x)
  | _ => none

end Value

def Scalar.toValue {R : Type} : Scalar R → Value R
  | .int n => .int n
  | .real x => .real x

end SatWalk
