import Mathlib.Algebra.Ring.Int.Defs
import Mathlib.Data.List.Nodup
import Mathlib.Tactic.Ring
import SatWalk.BreakCount

namespace SatWalk

namespace Mask

theorem add_eq_or {a b : Nat} (h : a &&& b = 0) : a + b = a ||| b := by
  induction a using Nat.strongRecOn generalizing b with
  | _ a ih =>
    by_cases h0 : a = 0
    · subst h0
      rw [Nat.zero_add, Nat.zero_or]
    · have hhalf : a / 2 + b / 2 = a / 2 ||| b / 2 := by
        apply ih (a / 2) (by omega)
        rw [← Nat.and_div_two, h, Nat.zero_div]
      have hdiv : (a ||| b) / 2 = a / 2 + b / 2 := by rw [Nat.or_div_two, hhalf]
      have hlow : ¬ (a % 2 = 1 ∧ b % 2 = 1) := by
        rw [← Nat.and_mod_two_eq_one, h]
        decide
      have hor : (a ||| b) % 2 = 1 ↔ a % 2 = 1 ∨ b % 2 = 1 := Nat.or_mod_two_eq_one
      omega

theorem eq_false_of {a b : Bool} (h : a = true → b = false) (hb : b = true) : a = false := by
  cases a with
  | false => rfl
  | true => cases (h rfl).symm.trans hb

theorem and_eq_zero_iff {a b : Nat} :
    a &&& b = 0 ↔ ∀ i, a.testBit i = true → b.testBit i = false := by
  simpa [disjoint, has] using disjoint_iff (a := Int.ofNat a) (b := Int.ofNat b)

theorem and_eq_zero_of_mem_avoiding {w a t : Nat} {b : Int} (h : t ∈ avoiding w a b) : a &&& t = 0 := by
  rw [Nat.and_comm, and_eq_zero_iff]
  intro i hi
  exact ((mem_avoiding.1 h).2 i hi).1

theorem lt_of_testBit {n w i : Nat} (hn : n < 2 ^ w) (hi : n.testBit i = true) : i < w :=
  (Nat.pow_lt_pow_iff_right (by decide)).1 (Nat.lt_of_le_of_lt (Nat.ge_two_pow_of_testBit hi) hn)

theorem nodup_avoiding (w : Nat) (a b : Int) : (avoiding w a b).Nodup := by
  induction w generalizing a b with
  | zero => simp [avoiding]
  | succ w ih =>
    have hrest := ih (a / 2) (b / 2)
    have heven : ((avoiding w (a / 2) (b / 2)).map (2 * ·)).Nodup :=
      hrest.map fun x y h => by omega
    have hodd : ((avoiding w (a / 2) (b / 2)).map (2 * · + 1)).Nodup :=
      hrest.map fun x y h => by omega
    simp only [avoiding]
    split
    · apply heven.append hodd
      intro t h1 h2
      obtain ⟨x, -, rfl⟩ := List.mem_map.1 h1
      obtain ⟨y, -, hy⟩ := List.mem_map.1 h2
      omega
    · exact heven

end Mask

namespace Profile

def Within (w : Nat) (p : Profile) : Prop :=
  ∃ kill save : Nat, p = ⟨kill, save⟩ ∧ kill < 2 ^ w ∧ save < 2 ^ w

def breaksUnder (p : Profile) (t : Nat) : Bool :=
  Mask.disjoint p.kill (.negSucc t) && Mask.disjoint p.save (.ofNat t)

theorem breaksUnder_iff {p : Profile} {t : Nat} :
    p.breaksUnder t = true ↔ (∀ i, Mask.has p.kill i = true → t.testBit i = true) ∧
      ∀ i, Mask.has p.save i = true → t.testBit i = false := by
  simp only [breaksUnder, Bool.and_eq_true, Mask.disjoint_iff, Mask.has, Bool.not_eq_false']

def breakingFrom (w kill : Nat) (save : Int) : List Nat :=
  if Mask.disjoint kill save then (Mask.avoiding w kill save).map (kill + ·) else []

theorem breaking_eq (w kill : Nat) (save : Int) :
    (Profile.mk kill save).breaking w = (breakingFrom w kill save).map Int.ofNat := by
  simp only [breaking, breakingFrom]
  split
  · rw [List.map_map]
    rfl
  · rfl

theorem nodup_breakingFrom (w kill : Nat) (save : Int) : (breakingFrom w kill save).Nodup := by
  unfold breakingFrom
  split
  · exact (Mask.nodup_avoiding w kill save).map fun x y h => by simpa using h
  · exact List.nodup_nil

theorem breaksUnder_of_mem {w kill t : Nat} {save : Int}
    (hfits : kill < 2 ^ w ∨ Mask.disjoint kill save = false) (h : t ∈ breakingFrom w kill save) :
    t < 2 ^ w ∧ (Profile.mk kill save).breaksUnder t = true := by
  unfold breakingFrom at h
  split at h
  · next hd =>
    have hkill : kill < 2 ^ w := hfits.resolve_right (Bool.not_eq_false _ ▸ hd)
    obtain ⟨u, hu, rfl⟩ := List.mem_map.1 h
    rw [Mask.add_eq_or (Mask.and_eq_zero_of_mem_avoiding hu), breaksUnder_iff]
    rw [Mask.mem_avoiding, Nat.one_shiftLeft] at hu
    obtain ⟨hlt, hbits⟩ := hu
    refine ⟨Nat.or_lt_two_pow hkill hlt, ?_, ?_⟩
    · intro i hi
      rw [Mask.has_natCast] at hi
      rw [Nat.testBit_or, hi, Bool.true_or]
    · intro i hi
      rw [Nat.testBit_or, Bool.or_eq_false_iff]
      constructor
      · exact Mask.eq_false_of (Mask.disjoint_iff.1 hd i) hi
      · exact Mask.eq_false_of (fun hu => (hbits i hu).2) hi
  · cases h

theorem disjoint_of_breaksUnder {kill t : Nat} {save : Int}
    (h : (Profile.mk kill save).breaksUnder t = true) : Mask.disjoint kill save = true := by
  obtain ⟨hk, hs⟩ := breaksUnder_iff.1 h
  rw [Mask.disjoint_iff]
  intro i hi
  exact Mask.eq_false_of (hs i) (hk i hi)

theorem kill_le_of_breaksUnder {kill t : Nat} {save : Int}
    (h : (Profile.mk kill save).breaksUnder t = true) : kill ≤ t :=
  Nat.le_of_testBit (breaksUnder_iff.1 h).1

theorem mem_of_breaksUnder {w kill t : Nat} {save : Int} (ht : t < 2 ^ w)
    (h : (Profile.mk kill save).breaksUnder t = true) : t ∈ breakingFrom w kill save := by
  have hkill : kill < 2 ^ w := Nat.lt_of_le_of_lt (kill_le_of_breaksUnder h) ht
  have hd := disjoint_of_breaksUnder h
  obtain ⟨hk, hs⟩ := breaksUnder_iff.1 h
  simp only [Mask.has_natCast] at hk
  -- beside the kill set stand the places of `t` outside of it
  have hsep : kill &&& (t ^^^ kill) = 0 := by
    rw [Mask.and_eq_zero_iff]
    intro i hi
    rw [Nat.testBit_xor, hi, hk i hi]
    rfl
  have hsum : kill + (t ^^^ kill) = t := by
    rw [Mask.add_eq_or hsep]
    apply Nat.eq_of_testBit_eq
    intro i
    rw [Nat.testBit_or, Nat.testBit_xor]
    cases hi : kill.testBit i with
    | false => simp
    | true => simp [hk i hi]
  rw [breakingFrom, if_pos hd, List.mem_map]
  refine ⟨t ^^^ kill, ?_, hsum⟩
  rw [Mask.mem_avoiding, Nat.one_shiftLeft]
  refine ⟨Nat.xor_lt_two_pow ht hkill, ?_⟩
  intro i hi
  have hki : kill.testBit i = false := by
    rw [Nat.and_comm, Mask.and_eq_zero_iff] at hsep
    exact hsep i hi
  rw [Nat.testBit_xor, hki, Bool.xor_false] at hi
  rw [Mask.has_natCast]
  exact ⟨hki, Mask.eq_false_of (hs i) hi⟩

theorem count_breakingFrom {w kill t : Nat} {save : Int}
    (hfits : kill < 2 ^ w ∨ Mask.disjoint kill save = false) (ht : t < 2 ^ w) :
    (breakingFrom w kill save).count t = if (Profile.mk kill save).breaksUnder t then 1 else 0 := by
  rw [(nodup_breakingFrom w kill save).count]
  by_cases h : (Profile.mk kill save).breaksUnder t = true
  · rw [if_pos h, if_pos (mem_of_breaksUnder ht h)]
  · rw [if_neg h, if_neg fun hm => h (breaksUnder_of_mem hfits hm).2]

/-- Two sets of places whose breaking combinations all are numbers below `2 ^ w`. Three places are
looked up, so there the sets themselves are. -/
def Fits (w : Nat) (p : Profile) : Prop :=
  ∃ kill save : Nat, p = ⟨kill, save⟩ ∧ (w = 3 → kill < 8 ∧ save < 8) ∧
    (kill < 2 ^ w ∨ Mask.disjoint kill save = false)

theorem Within.fits {w : Nat} {p : Profile} (h : p.Within w) : p.Fits w := by
  obtain ⟨kill, save, hp, hk, hs⟩ := h
  refine ⟨kill, save, hp, ?_, .inl hk⟩
  rintro rfl
  exact ⟨hk, hs⟩

end Profile

namespace BreakCount

theorem size_addAt {n : Int} {counts out : Array Int} {ts : List Int}
    (h : addAt n counts ts = .ok out) : out.size = counts.size := by
  induction ts generalizing counts with
  | nil =>
    cases h
    rfl
  | cons t ts ih =>
    simp only [addAt] at h
    split at h
    · cases h
    · rw [ih h, Array.size_set]

theorem size_sum {places : Profile → Except Fault (List Int)} {counts out : Array Int} {ps : Profiles}
    (h : sum places counts ps = .ok out) : out.size = counts.size := by
  induction ps generalizing counts with
  | nil =>
    cases h
    rfl
  | cons e ps ih =>
    obtain ⟨p, n⟩ := e
    simp only [sum, bind, Except.bind] at h
    split at h
    · cases h
    · split at h
      · cases h
      · next out1 h1 => rw [ih h, size_addAt h1]

theorem addAt_natCast (n : Int) {counts : Array Int} {ts : List Nat} (h : ∀ t ∈ ts, t < counts.size) :
    ∃ out, addAt n counts (ts.map Int.ofNat) = .ok out ∧ out.size = counts.size ∧
      ∀ j, out[j]? = counts[j]?.map (· + ts.count j * n) := by
  induction ts generalizing counts with
  | nil => exact ⟨counts, rfl, rfl, fun j => by simp⟩
  | cons t ts ih =>
    have ht : t < counts.size := h t (by simp)
    have hrest : ∀ u ∈ ts, u < (counts.set t (counts[t] + n)).size := by
      intro u hu
      rw [Array.size_set]
      exact h u (by simp [hu])
    obtain ⟨out, hout, hsize, hget⟩ := ih hrest
    refine ⟨out, ?_, by rw [hsize, Array.size_set], fun j => ?_⟩
    · simp only [List.map_cons, addAt, Int.ofNat_eq_natCast, position?_natCast ht]
      exact hout
    · rw [hget j, Array.getElem?_set]
      by_cases hj : t = j
      · subst hj
        simp only [if_true, ht, Array.getElem?_eq_getElem, Option.map_some, List.count_cons_self,
          Option.some.injEq]
        push_cast
        ring
      · rw [if_neg hj, List.count_cons_of_ne hj]

theorem sum_natCast {places : Profile → Except Fault (List Int)} {ts : Profile → List Nat}
    {counts : Array Int} {ps : Profiles}
    (h : ∀ e ∈ ps, places e.1 = .ok ((ts e.1).map Int.ofNat) ∧ ∀ t ∈ ts e.1, t < counts.size) :
    ∃ out, sum places counts ps = .ok out ∧ out.size = counts.size ∧
      ∀ j, out[j]? = counts[j]?.map (· + (ps.map fun e => ((ts e.1).count j : Int) * e.2).sum) := by
  induction ps generalizing counts with
  | nil => exact ⟨counts, rfl, rfl, fun j => by simp⟩
  | cons e ps ih =>
    obtain ⟨hplaces, hlt⟩ := h e (by simp)
    obtain ⟨out1, hout1, hsize1, hget1⟩ := addAt_natCast e.2 hlt
    have hrest : ∀ f ∈ ps, places f.1 = .ok ((ts f.1).map Int.ofNat) ∧ ∀ t ∈ ts f.1, t < out1.size := by
      intro f hf
      rw [hsize1]
      exact h f (by simp [hf])
    obtain ⟨out, hout, hsize, hget⟩ := ih hrest
    refine ⟨out, ?_, hsize.trans hsize1, fun j => ?_⟩
    · simp only [sum, hplaces, hout1, bind, Except.bind]
      exact hout
    · rw [hget j, hget1 j, Option.map_map]
      congr 1
      funext x
      simp only [Function.comp_apply, List.map_cons, List.sum_cons]
      ring

theorem threeWide?_eq {kill save : Nat} (hk : kill < 8) (hs : save < 8) :
    threeWide? ⟨kill, save⟩ = .ok ((Profile.mk kill save).breaking 3) := by
  have hget {α : Type} (f : Fin 8 → α) (i : Fin 8) : (Vector.ofFn f).get i = f i :=
    Vector.getElem_ofFn i.isLt
  simp only [threeWide?, position?_natCast hk, position?_natCast hs, threeWide, hget]

theorem sum_count_eq (ts : Profile → List Nat) (q : Profile → Bool) {j : Nat} {ps : Profiles}
    (h : ∀ e ∈ ps, (ts e.1).count j = if q e.1 then 1 else 0) :
    (ps.map fun e => ((ts e.1).count j : Int) * e.2).sum =
      ((ps.filter fun e => q e.1).map Prod.snd).sum := by
  induction ps with
  | nil => rfl
  | cons e ps ih =>
    have hrest : ∀ f ∈ ps, (ts f.1).count j = if q f.1 then 1 else 0 :=
      fun f hf => h f (List.mem_cons_of_mem e hf)
    rw [List.map_cons, List.sum_cons, ih hrest, h e List.mem_cons_self, List.filter_cons]
    split <;> simp

theorem sum_breaking {w : Nat} {ps : Profiles} (hfits : ∀ e ∈ ps, e.1.Fits w)
    {places : Profile → Except Fault (List Int)} (ts : Profile → List Nat)
    (hplaces : ∀ e ∈ ps, places e.1 = .ok ((ts e.1).map Int.ofNat))
    (hperm : ∀ e ∈ ps, (ts e.1).Perm (Profile.breakingFrom w e.1.kill.toNat e.1.save)) :
    ∃ out, sum places (Array.replicate (1 <<< w) 0) ps = .ok out ∧ out.size = 2 ^ w ∧
      ∀ t < 2 ^ w, out[t]? = some ((ps.filter fun e => e.1.breaksUnder t).map Prod.snd).sum := by
  have hnamed : ∀ e ∈ ps, places e.1 = .ok ((ts e.1).map Int.ofNat) ∧
      ∀ t ∈ ts e.1, t < (Array.replicate (1 <<< w) (0 : Int)).size := by
    intro e he
    obtain ⟨kill, save, hp, -, hle⟩ := hfits e he
    refine ⟨hplaces e he, ?_⟩
    intro t ht
    have hmem := (hperm e he).mem_iff.1 ht
    rw [hp, Int.toNat_natCast] at hmem
    rw [Array.size_replicate, Nat.one_shiftLeft]
    exact (Profile.breaksUnder_of_mem hle hmem).1
  have hcount : ∀ t < 2 ^ w, ∀ e ∈ ps, (ts e.1).count t = if e.1.breaksUnder t then 1 else 0 := by
    intro t ht e he
    obtain ⟨kill, save, hp, -, hle⟩ := hfits e he
    rw [(hperm e he).count_eq, hp, Int.toNat_natCast, Profile.count_breakingFrom hle ht]
  obtain ⟨out, hout, hsize, hget⟩ := sum_natCast hnamed
  rw [Array.size_replicate, Nat.one_shiftLeft] at hsize
  refine ⟨out, hout, hsize, ?_⟩
  intro t ht
  rw [hget t, Array.getElem?_replicate, Nat.one_shiftLeft, if_pos ht, Option.map_some, Int.zero_add,
    sum_count_eq ts (·.breaksUnder t) (hcount t ht)]

theorem combinations_counts {w : Nat} (hw : w < 63) {ps : Profiles} (h : ∀ e ∈ ps, e.1.Fits w) :
    ∃ out, combinations w ps = .ok out ∧ out.size = 2 ^ w ∧
      ∀ t < 2 ^ w, out[t]? = some ((ps.filter fun e => e.1.breaksUnder t).map Prod.snd).sum := by
  rw [combinations, if_neg (by omega)]
  refine sum_breaking h (fun p => Profile.breakingFrom w p.kill.toNat p.save) ?_ fun e he => .refl _
  intro e he
  obtain ⟨kill, save, hp, hthree, -⟩ := h e he
  simp only [hp, Int.toNat_natCast, ← Profile.breaking_eq]
  split
  · next h3 =>
    subst h3
    exact threeWide?_eq (hthree rfl).1 (hthree rfl).2
  · rfl

theorem combinations_ok {w : Nat} (hw : w < 63) {ps : Profiles} (h : ∀ e ∈ ps, e.1.Within w) :
    ∃ out, combinations w ps = .ok out ∧ out.size = 2 ^ w ∧
      ∀ t < 2 ^ w, out[t]? = some ((ps.filter fun e => e.1.breaksUnder t).map Prod.snd).sum :=
  combinations_counts hw fun e he => (h e he).fits

end BreakCount

end SatWalk
