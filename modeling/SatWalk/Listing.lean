namespace SatWalk

def commaSeparated (ts : List String) : String := String.intercalate ", " ts

def bracketed (ts : List String) : String := "[" ++ commaSeparated ts ++ "]"

def boolText (b : Bool) : String := if b then "True" else "False"

end SatWalk
