import SatWalk.Proofs.Shortages

/-!
Lookups that may fail. A table grows up to the first weight that cannot be computed and keeps what it
held. Which sizes it takes, and so which weights it meets on the way, depends on the size it had: two
tables of one weighting lead to the same choice unless one of them meets such a weight and the other
does not.
-/

namespace SatWalk

section
variable {R : Type} [MachineReal R] {α : Type}

namespace WeightTable

variable {w : Weighting R} {t t' t'' : WeightTable R} {n : Nat}

structure Grown (w : Weighting R) (t t' : WeightTable R) : Prop where
  holds : t'.Holds w
  size_le : t.size ≤ t'.size

theorem Grown.refl (h : t.Holds w) : Grown w t t := ⟨h, le_rfl⟩

theorem Grown.trans (h : Grown w t t') (h' : Grown w t' t'') : Grown w t t'' :=
  ⟨h'.holds, h.size_le.trans h'.size_le⟩

theorem Grown.keeps (h : Grown w t t') (ht : t.Holds w) : t.weights.toList <+: t'.weights.toList := by
  apply List.prefix_iff_getElem.2
  refine ⟨h.size_le, ?_⟩
  intro b hb
  have hb' : b < t'.weights.size := lt_of_lt_of_le hb h.size_le
  exact Option.some.inj ((ht.weight_eq b hb).symm.trans (h.holds.weight_eq b hb'))

theorem Answered.leftBy_grown {b : Nat} {r : EStateM.Result Fault (WeightTable R) R} (hr : Answered w b t r)
    (h : t.Holds w) : Grown w t (leftBy r) := by
  cases hr with
  | held hlt hx => exact .refl h
  | @grown x t' hle hx h' hsize =>
    have hsize' : t.size ≤ t'.size := by omega
    exact ⟨h', hsize'⟩
  | stopped hle h' hkept hlt hnone => exact ⟨h', hkept⟩

/-- The size that a table of `n` weights is taken to when counts are looked up one after the other. -/
def sizeAfter : Nat → List Int → Nat
  | n, [] => n
  | n, b :: bs => sizeAfter (if b < n then n else max (b + 1).toNat (2 * n)) bs

theorem sizeAfter_cons (n b : Nat) (bs : List Int) :
    sizeAfter n (b :: bs) = sizeAfter (if b < n then n else max (b + 1) (2 * n)) bs := by
  have hnext : ((b : Int) + 1).toNat = b + 1 := by omega
  simp only [sizeAfter, hnext, Int.ofNat_lt]

theorem le_sizeAfter (n : Nat) (bs : List Int) : n ≤ sizeAfter n bs := by
  induction bs generalizing n with
  | nil => exact le_rfl
  | cons b bs ih =>
    apply le_trans _ (ih _)
    split <;> omega

theorem lt_sizeAfter {n : Nat} {b : Int} {bs : List Int} (hb : b ∈ bs) : b < sizeAfter n bs := by
  induction bs generalizing n with
  | nil => cases hb
  | cons a bs ih =>
    obtain rfl | hb := List.mem_cons.1 hb
    · rw [sizeAfter]
      have hle := le_sizeAfter (if b < n then n else max (b + 1).toNat (2 * n)) bs
      by_cases hlt : b < n
      · rw [if_pos hlt] at hle ⊢
        omega
      · rw [if_neg hlt] at hle ⊢
        omega
    · exact ih hb

theorem sizeAfter_le_max {n k : Nat} {bs : List Int} (hbs : ∀ b ∈ bs, b ≤ k) :
    sizeAfter n bs ≤ max n (2 * k + 1) := by
  induction bs generalizing n with
  | nil => exact le_max_left _ _
  | cons b bs ih =>
    obtain ⟨hb, hrest⟩ := List.forall_mem_cons.1 hbs
    apply (ih hrest).trans
    split <;> omega

theorem lt_sizeAfter_iff {n : Nat} {bs : List Int} : n < sizeAfter n bs ↔ ∃ b ∈ bs, n ≤ b := by
  constructor
  · intro hlt
    induction bs with
    | nil => exact absurd hlt (Nat.lt_irrefl n)
    | cons b bs ih =>
      by_cases hb : b < n
      · rw [sizeAfter, if_pos hb] at hlt
        obtain ⟨a, ha, hle⟩ := ih hlt
        exact ⟨a, List.mem_cons_of_mem b ha, hle⟩
      · exact ⟨b, List.mem_cons_self, Int.not_lt.1 hb⟩
  · rintro ⟨b, hb, hle⟩
    have hlt := lt_sizeAfter (n := n) hb
    omega

/-- Looking the counts up takes a table of `n` weights past a weight that cannot be computed. -/
def Stops (w : Weighting R) (n : Nat) (bs : List Int) : Prop :=
  ∃ b < sizeAfter n bs, w.weight? b = none

theorem Holds.not_stops (h : t.Holds w) {bs : List Int} (hsize : t.size = sizeAfter n bs) :
    ¬ Stops w n bs := by
  rintro ⟨b, hb, hnone⟩
  rw [← hsize] at hb
  cases hnone.symm.trans (h.weight_eq b hb)

theorem Holds.not_stops_of_isSome (h : t.Holds w) (hw : ∀ b ≤ 2 * n, (w.weight? b).isSome)
    {bs : List Int} (hbs : ∀ b ∈ bs, b ≤ n) : ¬ Stops w t.size bs := by
  rintro ⟨b, hb, hnone⟩
  by_cases hlt : b < t.size
  · cases hnone.symm.trans (h.weight_eq b hlt)
  · have hmax := sizeAfter_le_max (n := t.size) hbs
    have hsome := hw b (by omega)
    rw [hnone] at hsome
    cases hsome

theorem Holds.stops_iff (h : t.Holds w) (hnone : w.weight? t.size = none) {bs : List Int} :
    Stops w n bs ↔ t.size < sizeAfter n bs := by
  constructor
  · rintro ⟨b, hb, hnone'⟩
    apply lt_of_le_of_lt _ hb
    by_contra hlt
    cases hnone'.symm.trans (h.weight_eq b (Nat.lt_of_not_le hlt))
  · intro hlt
    exact ⟨t.size, hlt, hnone⟩

inductive Weighed (w : Weighting R) (bs : List Int) (t : WeightTable R) :
    EStateM.Result Fault (WeightTable R) (List R) → Prop
  | ok {xs : List R} {t' : WeightTable R} (hxs : xs.map some = bs.map fun b => w.weight? b.toNat)
    (h : t'.Holds w) (hsize : t'.size = sizeAfter t.size bs) : Weighed w bs t (.ok xs t')
  | stopped {t' : WeightTable R} (h : Grown w t t') (hlt : t'.size < sizeAfter t.size bs)
    (hnone : w.weight? t'.size = none) : Weighed w bs t (.error .tooLarge t')

theorem Weighed.grown {bs : List Int} {r : EStateM.Result Fault (WeightTable R) (List R)}
    (h : Weighed w bs t r) : Grown w t (leftBy r) := by
  cases h with
  | @ok xs t' hxs h hsize =>
    have hkept : t.size ≤ t'.size := hsize ▸ le_sizeAfter t.size bs
    exact ⟨h, hkept⟩
  | stopped h hlt hnone => exact h

end WeightTable

open WeightTable

namespace Sampler

variable {w : Weighting R} {t : WeightTable R} {p : Sampler}

theorem weights_weighed {bs : List Int} (hbs : ∀ b ∈ bs, 0 ≤ b) (h : t.Holds w) :
    Weighed w bs t (weights bs t) := by
  induction bs generalizing t with
  | nil => exact .ok rfl h rfl
  | cons b bs ih =>
    obtain ⟨hb, hrest⟩ := List.forall_mem_cons.1 hbs
    obtain ⟨b, rfl⟩ := Int.eq_ofNat_of_zero_le hb
    have hanswered := lookup_answered h b
    simp only [weights, bind, EStateM.bind]
    generalize lookup b t = r at hanswered ⊢
    have hweights {x : R} {t₁ : WeightTable R} (hx : w.weight? b = some x) (h₁ : Grown w t t₁)
        (hsize : t₁.size = if b < t.size then t.size else max (b + 1) (2 * t.size)) :
        Weighed w (b :: bs) t ((weights bs >>= fun xs => pure (x :: xs)) t₁) := by
      have hrest := ih hrest h₁.holds
      have hsizes : sizeAfter t.size (b :: bs) = sizeAfter t₁.size bs := by rw [sizeAfter_cons, hsize]
      simp only [bind, EStateM.bind]
      generalize weights bs t₁ = r at hrest ⊢
      cases hrest with
      | ok hxs h₂ hsize₂ =>
        refine .ok ?_ h₂ (hsize₂.trans hsizes.symm)
        rw [List.map_cons, List.map_cons, hxs, ← hx]
        rfl
      | stopped h₂ hlt hnone => exact .stopped (h₁.trans h₂) (hsizes ▸ hlt) hnone
    cases hanswered with
    | held hlt hx => exact hweights hx (.refl h) (by rw [if_pos hlt])
    | @grown x t₁ hle hx h₁ hsize =>
      have hkept : t.size ≤ t₁.size := by omega
      exact hweights hx ⟨h₁, hkept⟩ (by rw [if_neg (Nat.not_lt.2 hle), hsize])
    | stopped hle h₁ hkept hlt hnone =>
      refine .stopped ⟨h₁, hkept⟩ ?_ hnone
      rw [sizeAfter_cons, if_neg (Nat.not_lt.2 hle)]
      exact hlt.trans_le (le_sizeAfter _ bs)

end Sampler

variable {F : Formula} {c : Config R} {G : Type} [Source G]

namespace Draw

theorem drawBelow_error {k : Nat} {e : Fault} {g g' : G} (h : drawBelow k g = .error e g') :
    e ≠ .tooLarge := by
  obtain rfl | hk := Nat.eq_zero_or_pos k
  · cases h
    decide
  · rw [(dryOnly_drawBelow hk g e g' h).1]
    decide

theorem uniform_error {k : Int} {slice ws : List (Scalar R)} {e : Fault} {g g' : G}
    (h : uniform k slice ws g = .error e g') : e ≠ .tooLarge := by
  cases hbest : greatest? slice with
  | none =>
    simp only [uniform, hbest] at h
    cases h
    decide
  | some best =>
    simp only [uniform, hbest] at h
    obtain h | ⟨i, g₁, -, h⟩ := bind_error h
    · exact drawBelow_error h
    · cases h

theorem index_error {xs : List R} {k : Nat} {e : Fault} {g g' : G}
    (h : index (xs.map Scalar.real) k g = .error e g') : e ≠ .tooLarge := by
  unfold index at h
  rw [if_pos (Int.natCast_nonneg k), Int.toNat_natCast, ← List.map_drop] at h
  obtain h | ⟨ys, g₁, -, h⟩ := bind_error h
  · rw [reals?_real] at h
    cases h
  · split at h
    · obtain h | ⟨a, g₂, -, h⟩ := bind_error h
      · rw [(dryOnly_drawFraction g₁ e g' h).1]
        decide
      · cases h
    · exact uniform_error h

end Draw

namespace Sampler

variable {w : Weighting R} {t : WeightTable R} {p : Sampler} {s : State F} {d : Clause}

theorem drawn_error {ws : List R} {e : Fault} {g g' : G} (hd : d ≠ [])
    (h : p.drawn s d ws g = .error e g') : e ≠ .tooLarge := by
  cases hp : p.strategy with
  | uniformRepair =>
    simp only [drawn, hp] at h
    obtain h | ⟨a, g₁, -, h⟩ := bind_error h
    · rw [(Repair.dryOnly_values (distinctVars_ne_nil hd) d g e g' h).1]
      decide
    · cases h
  | breakWeighted =>
    simp only [drawn, hp] at h
    obtain h | ⟨a, g₁, -, h⟩ := bind_error h
    · exact Draw.index_error (k := 1) h
    · cases h
  | singleFlip =>
    simp only [drawn, hp] at h
    obtain h | ⟨a, g₁, -, h⟩ := bind_error h
    · exact Draw.index_error (k := 0) h
    · cases h

theorem asked_nonneg {bs : List Int} (hbs : p.asked s d = .ok bs) : ∀ b ∈ bs, 0 ≤ b :=
  fun b hb => (asked_bounds hbs b hb).1

theorem grown_choose (h : t.Holds w) (g : G) : Grown w t (leftBy (p.choose s d (t, g))).1 := by
  rw [choose_eq]
  cases hbs : p.asked s d with
  | error e => exact .refl h
  | ok bs =>
    have hgrown := (weights_weighed (asked_nonneg hbs) h).grown
    simp only [bind, EStateM.bind, settled, onFirst]
    generalize weights bs t = r at hgrown ⊢
    cases r with
    | error e t' => exact hgrown
    | ok ws t' =>
      simp only [onSecond]
      cases p.drawn s d ws g <;> exact hgrown

theorem choose_stops (h : t.Holds w) {bs : List Int} (hbs : p.asked s d = .ok bs)
    (hstops : Stops w t.size bs) (g : G) : ∃ t', p.choose s d (t, g) = .error .tooLarge (t', g) ∧
      Grown w t t' ∧ w.weight? t'.size = none := by
  have hweighed := weights_weighed (asked_nonneg hbs) h
  rw [choose_eq]
  simp only [bind, EStateM.bind, settled, hbs, onFirst]
  generalize weights bs t = r at hweighed ⊢
  cases hweighed with
  | ok hxs h' hsize => exact absurd hstops (h'.not_stops hsize)
  | stopped h' hlt hnone => exact ⟨_, rfl, h', hnone⟩

theorem choose_passes (h : t.Holds w) (hd : d ≠ []) {bs : List Int} (hbs : p.asked s d = .ok bs)
    (hpasses : ¬ Stops w t.size bs) {e : Fault} {g g' : G} {t' : WeightTable R}
    (he : p.choose s d (t, g) = .error e (t', g')) : e ≠ .tooLarge := by
  have hweighed := weights_weighed (asked_nonneg hbs) h
  rw [choose_eq] at he
  simp only [bind, EStateM.bind, settled, hbs, onFirst] at he
  generalize weights bs t = r at hweighed he
  cases hweighed with
  | ok hxs h' hsize => exact drawn_error hd (onSecond_error he).1
  | stopped h' hlt hnone => exact absurd ⟨_, hlt, hnone⟩ hpasses

end Sampler

namespace Config

def Holding (c : Config R) (t u : WeightTable R) : Prop := t.Holds c.weighting ∧ u.Holds c.weighting

variable {t u : WeightTable R} {s : State F} {d : Clause}

theorem Weighs.not_stops (hc : c.Weighs F) {bs : List Int} (hbs : c.sampler.asked s d = .ok bs)
    (h : t.Holds c.weighting) : ¬ Stops c.weighting t.size bs := by
  obtain hcoins | hweights := hc
  · obtain rfl : [] = bs := Except.ok.inj ((Sampler.asked_coins hcoins).symm.trans hbs)
    exact h.not_stops rfl
  · exact h.not_stops_of_isSome hweights fun b hb => (Sampler.asked_bounds hbs b hb).2

theorem choose_holding (h : c.Holding t u) (halike : ∀ bs, c.sampler.asked s d = .ok bs →
      (Stops c.weighting t.size bs ↔ Stops c.weighting u.size bs)) (g : G) :
    Paired Eq (Beside c.Holding) (c.sampler.choose s d (t, g)) (c.sampler.choose s d (u, g)) := by
  apply Sampler.choose_paired h
  intro bs hbs
  have ht := Sampler.weights_weighed (Sampler.asked_nonneg hbs) h.1
  have hu := Sampler.weights_weighed (Sampler.asked_nonneg hbs) h.2
  have hstops := halike bs hbs
  generalize Sampler.weights bs t = r at ht ⊢
  generalize Sampler.weights bs u = r' at hu ⊢
  cases ht with
  | ok hxs ht hsize =>
    cases hu with
    | ok hys hu _ =>
      exact .ok (List.map_injective_iff.2 (Option.some_injective R) (hxs.trans hys.symm)) ⟨ht, hu⟩
    | stopped _ hlt hnone => exact absurd (hstops.2 ⟨_, hlt, hnone⟩) (ht.not_stops hsize)
  | stopped ht hlt hnone =>
    cases hu with
    | ok _ hu hsize => exact absurd (hstops.1 ⟨_, hlt, hnone⟩) (hu.not_stops hsize)
    | stopped hu _ _ => exact .error ⟨ht.holds, hu.holds⟩

end Config

end

end SatWalk
