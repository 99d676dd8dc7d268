/-!
Sets of places as the bits of an integer, lowest first. A negative integer is read in two's
complement without end, so it holds all places but finitely many. The sets that avoid two others
within a width are enumerated bit by bit.
-/

namespace SatWalk

namespace Mask

def has : Int → Nat → Bool
  | .ofNat n, i => n.testBit i
  | .negSucc n, i => !n.testBit i

def disjoint : Int → Int → Bool
  | .ofNat m, .ofNat n => m &&& n == 0
  | .ofNat m, .negSucc n => m &&& n == m
  | .negSucc m, .ofNat n => m &&& n == n
  | .negSucc _, .negSucc _ => false

def lone? : Int → Option Nat
  | .ofNat n => if n ≠ 0 ∧ n &&& (n - 1) = 0 then some (Nat.log2 n) else none
  | .negSucc _ => none

def avoiding : Nat → Int → Int → List Nat
  | 0, _, _ => [0]
  | w + 1, a, b =>
    let rest := avoiding w (a / 2) (b / 2)
    if a % 2 = 0 ∧ b % 2 = 0 then rest.map (2 * ·) ++ rest.map (2 * · + 1) else rest.map (2 * ·)

theorem has_natCast (n i : Nat) : has (n : Int) i = n.testBit i := rfl

theorem has_zero (a : Int) : has a 0 = decide (a % 2 = 1) := by
  cases a with
  | ofNat n =>
    simp only [has, Nat.testBit_zero, Int.ofNat_eq_natCast]
    exact decide_eq_decide.2 (by omega)
  | negSucc n =>
    simp only [has, Nat.testBit_zero, ← decide_not]
    exact decide_eq_decide.2 (by omega)

theorem has_succ (a : Int) (i : Nat) : has a (i + 1) = has (a / 2) i := by
  cases a with
  | ofNat n => exact Nat.testBit_succ n i
  | negSucc n => exact congrArg (! ·) (Nat.testBit_succ n i)

theorem land_eq_left_iff {m n : Nat} : m &&& n = m ↔ ∀ i, m.testBit i → n.testBit i := by
  refine ⟨fun h i hi => ?_, fun h => Nat.eq_of_testBit_eq fun i => ?_⟩
  · rw [← h, Nat.testBit_and] at hi
    exact (Bool.and_eq_true_iff.1 hi).2
  · rw [Nat.testBit_and]
    cases hm : m.testBit i with
    | false => rfl
    | true => exact h i hm

theorem exists_not_testBit (m n : Nat) : ∃ i, m.testBit i = false ∧ n.testBit i = false := by
  refine ⟨m + n, Nat.testBit_lt_two_pow ?_, Nat.testBit_lt_two_pow ?_⟩
  · exact Nat.lt_of_lt_of_le Nat.lt_two_pow_self (Nat.pow_le_pow_right (by decide) (by omega))
  · exact Nat.lt_of_lt_of_le Nat.lt_two_pow_self (Nat.pow_le_pow_right (by decide) (by omega))

theorem disjoint_iff {a b : Int} : disjoint a b ↔ ∀ i, has a i → has b i = false := by
  cases a with
  | ofNat m =>
    cases b with
    | ofNat n =>
      simp only [disjoint, has, beq_iff_eq]
      refine ⟨fun h i hm => ?_, fun h => Nat.eq_of_testBit_eq fun i => ?_⟩
      · have hi := congrArg (Nat.testBit · i) h
        simpa [hm] using hi
      · cases hm : m.testBit i with
        | false => simp [hm]
        | true => simp [h i hm]
    | negSucc n => simp [disjoint, has, land_eq_left_iff]
  | negSucc m =>
    cases b with
    | ofNat n =>
      simp only [disjoint, has, beq_iff_eq]
      rw [Nat.and_comm, land_eq_left_iff]
      refine forall_congr' fun i => ?_
      cases m.testBit i <;> simp
    | negSucc n =>
      obtain ⟨i, hm, hn⟩ := exists_not_testBit m n
      simp only [disjoint, has, Bool.false_eq_true, false_iff]
      exact fun h => by simpa [hm, hn] using h i

theorem mem_avoiding {w t : Nat} {a b : Int} :
    t ∈ avoiding w a b ↔ t < 1 <<< w ∧ ∀ i, t.testBit i → has a i = false ∧ has b i = false := by
  induction w generalizing a b t with
  | zero =>
    simp only [avoiding, List.mem_singleton, Nat.shiftLeft_zero]
    refine ⟨fun h => ⟨by omega, fun i hi => by simp [h] at hi⟩, fun h => by omega⟩
  | succ w ih =>
    have hbits : (∀ i, t.testBit i → has a i = false ∧ has b i = false) ↔
        (t % 2 = 1 → a % 2 = 0 ∧ b % 2 = 0) ∧
        ∀ i, (t / 2).testBit i → has (a / 2) i = false ∧ has (b / 2) i = false := by
      refine ⟨fun h => ⟨fun ht => ?_, fun i hi => ?_⟩, fun h i hi => ?_⟩
      · have h0 := h 0 (by simp [ht])
        simp only [has_zero, decide_eq_false_iff_not] at h0
        omega
      · have hs := h (i + 1) (by rw [Nat.testBit_succ]; exact hi)
        rwa [has_succ, has_succ] at hs
      · cases i with
        | zero =>
          have h0 := h.1 (by simpa using hi)
          simp only [has_zero, decide_eq_false_iff_not]
          omega
        | succ i =>
          rw [has_succ, has_succ]
          exact h.2 i (by rwa [Nat.testBit_succ] at hi)
    have hlt : t < 1 <<< (w + 1) ↔ t / 2 < 1 <<< w := by
      rw [Nat.shiftLeft_succ]
      omega
    have hrest := ih (a := a / 2) (b := b / 2) (t := t / 2)
    rw [hbits, hlt]
    simp only [avoiding]
    split
    · simp only [List.mem_append, List.mem_map]
      constructor
      · rintro (⟨u, hu, rfl⟩ | ⟨u, hu, rfl⟩)
        · have he : 2 * u / 2 = u := by omega
          rw [he] at hrest ⊢
          exact ⟨(hrest.1 hu).1, by omega, (hrest.1 hu).2⟩
        · have he : (2 * u + 1) / 2 = u := by omega
          rw [he] at hrest ⊢
          exact ⟨(hrest.1 hu).1, by omega, (hrest.1 hu).2⟩
      · rintro ⟨h1, -, h2⟩
        have hu := hrest.2 ⟨h1, h2⟩
        rcases Nat.mod_two_eq_zero_or_one t with ht | ht
        · exact .inl ⟨t / 2, hu, by omega⟩
        · exact .inr ⟨t / 2, hu, by omega⟩
    · simp only [List.mem_map]
      constructor
      · rintro ⟨u, hu, rfl⟩
        have he : 2 * u / 2 = u := by omega
        rw [he] at hrest ⊢
        exact ⟨(hrest.1 hu).1, by omega, (hrest.1 hu).2⟩
      · rintro ⟨h1, h0, h2⟩
        exact ⟨t / 2, hrest.2 ⟨h1, h2⟩, by omega⟩

end Mask

end SatWalk
