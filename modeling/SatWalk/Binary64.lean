import SatWalk.Decimal
import SatWalk.MachineReal

namespace SatWalk

namespace Binary64

def minScale : Int := -1074

def hidden : Nat := 4503599627370496

structure Fields where
  negative : Bool
  exponent : Nat
  fraction : Nat

def fields (x : Float) : Fields :=
  let bits := x.toBits.toNat
  ⟨bits >>> 63 == 1, (bits >>> 52) % 2048, bits % hidden⟩

namespace Fields

def isFinite (f : Fields) : Bool := f.exponent != 2047

def mantissa (f : Fields) : Nat := if f.exponent = 0 then f.fraction else f.fraction + hidden

def scale (f : Fields) : Int := if f.exponent = 0 then minScale else f.exponent - 1075

def magnitude (f : Fields) : Rat := f.mantissa * (2 : Rat) ^ f.scale

def rounding (f : Fields) : Rounding :=
  let half := (2 : Rat) ^ (f.scale - 1)
  let down := if f.fraction = 0 ∧ 1 < f.exponent then half / 2 else half
  { value := f.magnitude
    low := f.magnitude - down
    high := f.magnitude + half
    closed := f.mantissa % 2 == 0 }

end Fields

def toRat? (x : Float) : Option Rat :=
  let f := fields x
  if f.isFinite then some (if f.negative then -f.magnitude else f.magnitude) else none

def roundQuotient (num den : Nat) : Nat :=
  let q := num / den
  let r := 2 * (num % den)
  if den < r ∨ (r = den ∧ q % 2 = 1) then q + 1 else q

def scaleOf (num den : Nat) : Int :=
  let k : Int := (Nat.log2 num : Int) - Nat.log2 den
  let reached := if 0 ≤ k then den <<< k.toNat ≤ num else den ≤ num <<< (-k).toNat
  max ((if reached then k else k - 1) - 52) minScale

def bitsOf (num den : Nat) : Nat :=
  if num = 0 then 0
  else
    let s := scaleOf num den
    let m := if 0 ≤ s then roundQuotient num (den <<< s.toNat)
      else roundQuotient (num <<< (-s).toNat) den
    (s - minScale).toNat * hidden + m

def nearest? (q : Rat) : Option Float :=
  let bits := bitsOf q.num.natAbs q.den
  if bits < 2047 * hidden then
    some (Float.ofBits (UInt64.ofNat (if q < 0 then (1 <<< 63) + bits else bits)))
  else none

def layout : Layout := ⟨-4, 16, 2⟩

def text (x : Float) : String :=
  let f := fields x
  let sign := if f.negative then "-" else ""
  if f.isFinite then
    if f.mantissa = 0 then sign ++ "0.0" else sign ++ layout.text f.rounding.shortest
  else if f.fraction = 0 then sign ++ "inf" else "nan"

end Binary64

instance : MachineReal Float where
  zero := 0.0
  one := 1.0
  add := (· + ·)
  mul := (· * ·)
  div := (· / ·)
  neg := (-·)
  exp := Float.exp
  pow := Float.pow
  less x y := decide (x < y)
  same x y := x == y
  fraction k := Float.ofNat k / Float.ofNat (2 * Binary64.hidden)
  toRat? := Binary64.toRat?
  nearest? := Binary64.nearest?
  text := Binary64.text

end SatWalk
