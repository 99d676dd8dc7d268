import SatWalk.Printable

namespace SatWalk

namespace Quoted

def single : Char := Char.ofNat 39

def double : Char := Char.ofNat 34

def backslash : Char := Char.ofNat 92

def hex (width n : Nat) : List Char :=
  let digits := Nat.toDigits 16 n
  List.replicate (width - digits.length) '0' ++ digits

def codePoint (n : Nat) : List Char :=
  if n < 0x100 then 'x' :: hex 2 n
  else if n < 0x10000 then 'u' :: hex 4 n
  else 'U' :: hex 8 n

def escape (quote c : Char) : List Char :=
  if c = quote ∨ c = backslash then [backslash, c]
  else if c = '\n' then [backslash, 'n']
  else if c = '\r' then [backslash, 'r']
  else if c = '\t' then [backslash, 't']
  else if isPrintable c then [c]
  else backslash :: codePoint c.toNat

def quoteFor (cs : List Char) : Char :=
  if single ∈ cs ∧ double ∉ cs then double else single

end Quoted

open Quoted in
def quoted (s : String) : String :=
  let cs := s.toList
  let quote := quoteFor cs
  String.ofList (quote :: cs.flatMap (escape quote) ++ [quote])

end SatWalk
