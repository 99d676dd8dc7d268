import SatWalk.Source

/-!
The Mersenne twister: a linear recurrence on 624 words of 32 bits. Its stream repeats after
`2 ^ 19937 - 1` words and is closed there.
-/

namespace SatWalk

structure Twister where
  words : Array UInt32
  -- The next word to be given out; at 624 all are replaced first.
  cursor : Nat
  -- How many words are left before the stream repeats.
  left : Nat

namespace Twister

def degree : Nat := 624

def period : Nat := (1 <<< 19937) - 1

def fill (seed : UInt32) : Array UInt32 :=
  (List.range (degree - 1)).foldl (fun (ws : Array UInt32) i =>
    let last := ws.getD i 0
    ws.push ((1812433253 : UInt32) * (last ^^^ (last >>> 30)) + UInt32.ofNat (i + 1))) #[seed]

def wrap (ws : Array UInt32) (i : Nat) : Array UInt32 × Nat :=
  if degree ≤ i then (ws.setIfInBounds 0 (ws.getD (degree - 1) 0), 1) else (ws, i)

def mixKey (key : Array UInt32) : Nat → Array UInt32 → Nat → Nat → Array UInt32 × Nat
  | 0, ws, i, _ => (ws, i)
  | n + 1, ws, i, j =>
    let before := ws.getD (i - 1) 0
    let mixed := (ws.getD i 0 ^^^ ((before ^^^ (before >>> 30)) * 1664525)) + key.getD j 0
      + UInt32.ofNat j
    let (ws, i) := wrap (ws.setIfInBounds i mixed) (i + 1)
    mixKey key n ws i (if key.size ≤ j + 1 then 0 else j + 1)

def mixPlaces : Nat → Array UInt32 → Nat → Array UInt32
  | 0, ws, _ => ws
  | n + 1, ws, i =>
    let before := ws.getD (i - 1) 0
    let mixed := (ws.getD i 0 ^^^ ((before ^^^ (before >>> 30)) * 1566083941)) - UInt32.ofNat i
    let (ws, i) := wrap (ws.setIfInBounds i mixed) (i + 1)
    mixPlaces n ws i

def ofKey (key : Array UInt32) : Twister :=
  let (ws, i) := mixKey key (max degree key.size) (fill 19650218) 1 0
  let ws := mixPlaces (degree - 1) ws i
  ⟨ws.setIfInBounds 0 0x80000000, degree, period⟩

def keyWords (n : Nat) : List UInt32 :=
  if n = 0 then [] else UInt32.ofNat n :: keyWords (n / 4294967296)

def ofSeed (seed : Int) : Twister :=
  match keyWords seed.natAbs with
  | [] => ofKey #[0]
  | ws => ofKey ws.toArray

def twist (current next far : UInt32) : UInt32 :=
  let y := (current &&& 0x80000000) ||| (next &&& 0x7fffffff)
  far ^^^ (y >>> 1) ^^^ (if y &&& 1 = 1 then 0x9908b0df else 0)

def refresh (ws : Array UInt32) : Array UInt32 :=
  (List.range degree).foldl (fun (ws : Array UInt32) i =>
    ws.setIfInBounds i (twist (ws.getD i 0) (ws.getD ((i + 1) % degree) 0)
      (ws.getD ((i + 397) % degree) 0))) ws

def temper (w : UInt32) : UInt32 :=
  let w := w ^^^ (w >>> 11)
  let w := w ^^^ ((w <<< 7) &&& 0x9d2c5680)
  let w := w ^^^ ((w <<< 15) &&& 0xefc60000)
  w ^^^ (w >>> 18)

def word? (t : Twister) : Option (UInt32 × Twister) :=
  if t.left = 0 then none
  else
    let (ws, i) := if degree ≤ t.cursor then (refresh t.words, 0) else (t.words, t.cursor)
    some (temper (ws.getD i 0), ⟨ws, i + 1, t.left - 1⟩)

theorem left_word {t t' : Twister} {w : UInt32} (h : t.word? = some (w, t')) :
    t'.left < t.left := by
  simp only [word?] at h
  split at h
  · cases h
  · next hl =>
    simp only [Option.some.injEq, Prod.mk.injEq] at h
    obtain ⟨_, rfl⟩ := h
    show t.left - 1 < t.left
    omega

def fraction? (t : Twister) : Option (Fin fractions × Twister) :=
  match t.word? with
  | none => none
  | some (a, t') =>
    match t'.word? with
    | none => none
    | some (b, t'') =>
      some (Fin.ofNat fractions (((a >>> 5).toNat <<< 26) + (b >>> 6).toNat), t'')

def bits? (k : Nat) (t : Twister) : Option (Nat × Twister) :=
  match t.word? with
  | none => none
  | some (w, t') =>
    if k ≤ 32 then some ((w >>> UInt32.ofNat (32 - k)).toNat, t')
    else match bits? (k - 32) t' with
      | none => none
      | some (high, t'') => some (w.toNat + 4294967296 * high, t'')
termination_by k

theorem left_bits {k r : Nat} {t t' : Twister} (h : t.bits? k = some (r, t')) : t'.left < t.left := by
  fun_induction bits? k t generalizing r with
  | case1 k t hw => cases h
  | case2 k t w t₁ hw hk =>
    cases h
    exact left_word hw
  | case3 k t w t₁ hw hk hrest ih => cases h
  | case4 k t w t₁ hw hk high t₂ hrest ih =>
    cases h
    exact Nat.lt_trans (ih hrest) (left_word hw)

def below? (n : Nat) (t : Twister) : Option (Fin n × Twister) :=
  match _h : t.bits? (Nat.log2 n + 1) with
  | none => none
  | some (r, t') => if hr : r < n then some (⟨r, hr⟩, t') else below? n t'
termination_by t.left
decreasing_by exact left_bits _h

instance : Source Twister where
  supply := left
  fraction? := fraction?
  below? := below?
  supply_fraction := by
    intro t k t'' h
    simp only [fraction?] at h
    split at h
    · cases h
    · next a t' ha =>
      split at h
      · cases h
      · next b t3 hb =>
        cases h
        exact Nat.lt_trans (left_word hb) (left_word ha)

end Twister

end SatWalk
