namespace SatWalk

def select {α : Type} : List α → Int → List α
  | [], _ => []
  | a :: as, t => if t % 2 = 1 then a :: select as (t / 2) else select as (t / 2)

structure FlipChoice (V : Type) where
  vars : List V
  combination : Int
deriving DecidableEq, Repr

def FlipChoice.of {V : Type} (vars : List V) (t : Int) : FlipChoice V := ⟨select vars t, t⟩

theorem select_sublist {α : Type} (as : List α) (t : Int) : (select as t).Sublist as := by
  induction as generalizing t with
  | nil => simp [select]
  | cons a as ih =>
    simp only [select]
    split
    · exact (ih _).cons_cons a
    · exact (ih _).cons a

end SatWalk
