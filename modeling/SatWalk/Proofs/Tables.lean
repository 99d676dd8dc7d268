import SatWalk.Proofs.Lockstep
import SatWalk.Proofs.SingleBreaks

namespace SatWalk

namespace WeightTable

variable {R : Type} [MachineReal R] {w : Weighting R} {t t' : WeightTable R} {n : Nat}

structure Holds (w : Weighting R) (t : WeightTable R) : Prop where
  weighting_eq : t.weighting = w
  weight_eq : ∀ b (h : b < t.weights.size), w.weight? b = some t.weights[b]

theorem Holds.empty (w : Weighting R) : Holds w ⟨w, #[]⟩ :=
  ⟨rfl, fun b hb => absurd hb (Nat.not_lt_zero b)⟩

theorem Holds.push (h : t.Holds w) {x : R} (hx : w.weight? t.weights.size = some x) :
    Holds w { t with weights := t.weights.push x } := by
  refine ⟨h.weighting_eq, ?_⟩
  intro b hb
  rw [Array.getElem_push]
  split
  · next hlt => exact h.weight_eq b hlt
  · next hge =>
    have hlast : b = t.weights.size := by
      simp only [Array.size_push] at hb
      omega
    rw [hlast, hx]

theorem extend_cases (h : t.Holds w) (n : Nat) : ∃ t', t'.Holds w ∧ t.size ≤ t'.size ∧
    (extend n t = .ok () t' ∧ t'.size = t.size + n ∨
      extend n t = .error .tooLarge t' ∧ t'.size < t.size + n ∧ w.weight? t'.size = none) := by
  induction n generalizing t with
  | zero => exact ⟨t, h, le_rfl, .inl ⟨rfl, rfl⟩⟩
  | succ n ih =>
    cases hx : w.weight? t.weights.size with
    | none =>
      refine ⟨t, h, le_rfl, .inr ⟨?_, by omega, hx⟩⟩
      rw [← h.weighting_eq] at hx
      simp only [extend, hx]
    | some x =>
      have hsize : size { t with weights := t.weights.push x } = t.size + 1 := Array.size_push ..
      obtain ⟨t', hholds, hle, hcases⟩ := ih (h.push hx)
      rw [← h.weighting_eq] at hx
      refine ⟨t', hholds, by omega, ?_⟩
      simp only [extend, hx]
      obtain ⟨hok, hsize'⟩ | ⟨herror, hlt, hnone⟩ := hcases
      · exact .inl ⟨hok, by omega⟩
      · exact .inr ⟨herror, by omega, hnone⟩

theorem extend_ok (h : t.Holds w) (hw : ∀ b < t.size + n, (w.weight? b).isSome) :
    ∃ t', extend n t = .ok () t' ∧ t'.Holds w ∧ t'.size = t.size + n := by
  obtain ⟨t', hholds, -, ⟨hok, hsize⟩ | ⟨-, hlt, hnone⟩⟩ := extend_cases h n
  · exact ⟨t', hok, hholds, hsize⟩
  · have hsome := hw t'.size hlt
    rw [hnone] at hsome
    cases hsome

theorem extendTo_ok (h : t.Holds w) (hw : ∀ b < n, (w.weight? b).isSome) :
    ∃ t', extendTo n t = .ok () t' ∧ t'.Holds w ∧ t'.size = max t.size n := by
  have hall : ∀ b < t.size + (n - t.size), (w.weight? b).isSome := by
    intro b hb
    by_cases hlt : b < t.size
    · exact Option.isSome_iff_exists.2 ⟨_, h.weight_eq b hlt⟩
    · exact hw b (by omega)
  obtain ⟨t', ht', hholds, hsize⟩ := extend_ok h hall
  exact ⟨t', ht', hholds, by omega⟩

theorem create_ok {size : Int} (hw : ∀ b < (max size 1).toNat, (w.weight? b).isSome) :
    ∃ t, create w size = .ok t ∧ t.Holds w ∧ t.size = (max size 1).toNat := by
  obtain ⟨t, ht, hholds, hsize⟩ := extendTo_ok (.empty w) hw
  refine ⟨t, by rw [create, ht], hholds, ?_⟩
  rw [hsize]
  exact Nat.max_eq_right (Nat.zero_le _)

theorem of_create {size : Int} (h : create w size = .ok t) :
    t.Holds w ∧ t.size = (max size 1).toNat := by
  obtain ⟨t', hholds, -, hcases⟩ :=
    extend_cases (.empty w) ((max size 1).toNat - WeightTable.size ⟨w, #[]⟩)
  simp only [create, extendTo] at h
  obtain ⟨hok, hsize⟩ | ⟨herror, -⟩ := hcases
  · rw [hok] at h
    cases h
    refine ⟨hholds, ?_⟩
    rw [hsize]
    exact Nat.add_sub_of_le (Nat.zero_le _)
  · rw [herror] at h
    cases h

theorem holds_create {size : Int} (h : create w size = .ok t) : t.Holds w := (of_create h).1

theorem Holds.entry_eq (h : t.Holds w) {b : Nat} (hb : b < t.size) {x : R}
    (hx : w.weight? b = some x) : t.entry? b = .ok x := by
  have hget : t.weights[b] = x := Option.some.inj ((h.weight_eq b hb).symm.trans hx)
  have hlt : b < t.weights.size := hb
  unfold entry?
  rw [position?_natCast hlt]
  exact congrArg Except.ok hget

theorem lookup_natCast (b : Nat) (t : WeightTable R) :
    lookup b t = if t.size ≤ b then
        (extendTo (max (b + 1) (2 * t.size)) >>= fun _ => get >>= fun t => settled (t.entry? b)) t
      else settled (t.entry? b) t := by
  have hgrown : (max ((b : Int) + 1) (2 * (t.size : Int))).toNat = max (b + 1) (2 * t.size) := by
    omega
  change (if (t.size : Int) ≤ b then
      extendTo (max ((b : Int) + 1) (2 * (t.size : Int))).toNat >>= fun _ =>
        get >>= fun t => settled (t.entry? b)
    else get >>= fun t => settled (t.entry? b)) t = _
  rw [hgrown]
  simp only [Int.ofNat_le]
  split <;> rfl

/-- How a lookup of a break count ends: with its weight, from the table as it is or as it has grown, or
at the first weight that cannot be computed, with all before it kept. -/
inductive Answered (w : Weighting R) (b : Nat) (t : WeightTable R) :
    EStateM.Result Fault (WeightTable R) R → Prop
  | held {x : R} (hlt : b < t.size) (hx : w.weight? b = some x) : Answered w b t (.ok x t)
  | grown {x : R} {t' : WeightTable R} (hle : t.size ≤ b) (hx : w.weight? b = some x) (h : t'.Holds w)
    (hsize : t'.size = max (b + 1) (2 * t.size)) : Answered w b t (.ok x t')
  | stopped {t' : WeightTable R} (hle : t.size ≤ b) (h : t'.Holds w) (hkept : t.size ≤ t'.size)
    (hlt : t'.size < max (b + 1) (2 * t.size)) (hnone : w.weight? t'.size = none) :
    Answered w b t (.error .tooLarge t')

theorem lookup_answered (h : t.Holds w) (b : Nat) : Answered w b t (lookup b t) := by
  rw [lookup_natCast]
  split
  · next hle =>
    obtain ⟨t', hholds, hkept, hcases⟩ := extend_cases h (max (b + 1) (2 * t.size) - t.size)
    simp only [bind, EStateM.bind, extendTo]
    obtain ⟨hok, hsize⟩ | ⟨herror, hlt, hnone⟩ := hcases
    · have hlt : b < t'.size := by omega
      rw [hok]
      change Answered w b t (settled (t'.entry? b) t')
      rw [hholds.entry_eq hlt (hholds.weight_eq b hlt)]
      exact .grown hle (hholds.weight_eq b hlt) hholds (by omega)
    · rw [herror]
      exact .stopped hle hholds hkept (by omega) hnone
  · next hlt =>
    have hlt : b < t.size := Nat.lt_of_not_le hlt
    rw [h.entry_eq hlt (h.weight_eq b hlt)]
    exact .held hlt (h.weight_eq b hlt)

structure Kept (w : Weighting R) (n : Nat) (t : WeightTable R) : Prop extends Holds w t where
  size_le : t.size ≤ 2 * n + 1

theorem lookup_ok (h : t.Kept w n) (hw : ∀ b ≤ 2 * n, (w.weight? b).isSome) {b : Nat} (hb : b ≤ n) :
    ∃ x t', lookup b t = .ok x t' ∧ w.weight? b = some x ∧ t'.Kept w n := by
  have hanswered := lookup_answered h.toHolds b
  generalize lookup b t = r at hanswered ⊢
  cases hanswered with
  | held hlt hx => exact ⟨_, _, rfl, hx, h⟩
  | grown hle hx hholds hsize => exact ⟨_, _, rfl, hx, hholds, by omega⟩
  | @stopped t' hle hholds hkept hlt hnone =>
    have hsome := hw t'.size (by omega)
    rw [hnone] at hsome
    cases hsome

end WeightTable

section
variable {R : Type} [MachineReal R] {w : Weighting R} {F : Formula} {c : Config R} {G : Type}

open WeightTable

theorem Sampler.weights_ok {n : Nat} (hw : ∀ b ≤ 2 * n, (w.weight? b).isSome) {bs : List Int}
    (hbs : ∀ b ∈ bs, 0 ≤ b ∧ b ≤ n) {t : WeightTable R} (h : t.Kept w n) :
    ∃ xs t', weights bs t = .ok xs t' ∧ (xs.map some = bs.map fun b => w.weight? b.toNat) ∧
      t'.Kept w n := by
  induction bs generalizing t with
  | nil => exact ⟨[], t, rfl, rfl, h⟩
  | cons b bs ih =>
    obtain ⟨hb, hrest⟩ := List.forall_mem_cons.1 hbs
    obtain ⟨x, t₁, hlookup, hx, h₁⟩ := lookup_ok h hw (b := b.toNat) (by omega)
    obtain ⟨xs, t₂, hweights, hxs, h₂⟩ := ih hrest h₁
    refine ⟨x :: xs, t₂, ?_, ?_, h₂⟩
    · rw [Int.toNat_of_nonneg hb.1] at hlookup
      simp only [weights, bind, EStateM.bind, hlookup, hweights]
      rfl
    · rw [List.map_cons, List.map_cons, hx, hxs]

theorem Sampler.weights_paired {w' : Weighting R} {n : Nat} (hw : ∀ b ≤ 2 * n, (w.weight? b).isSome)
    (heq : ∀ b ≤ 2 * n, w.weight? b = w'.weight? b) {bs : List Int} (hbs : ∀ b ∈ bs, 0 ≤ b ∧ b ≤ n)
    {t u : WeightTable R} (ht : t.Kept w n) (hu : u.Kept w' n) :
    Paired Eq (fun t u => t.Kept w n ∧ u.Kept w' n) (weights bs t) (weights bs u) := by
  have hw' : ∀ b ≤ 2 * n, (w'.weight? b).isSome := fun b hb => heq b hb ▸ hw b hb
  obtain ⟨xs, t', hxs, hmap, ht'⟩ := weights_ok hw hbs ht
  obtain ⟨ys, u', hys, hmap', hu'⟩ := weights_ok hw' hbs hu
  have hsame : xs.map some = ys.map some := by
    rw [hmap, hmap']
    apply List.map_congr_left
    intro b hb
    obtain ⟨hlow, hhigh⟩ := hbs b hb
    exact heq b.toNat (by omega)
  rw [hxs, hys]
  exact .ok (List.map_injective_iff.2 (Option.some_injective R) hsame) ⟨ht', hu'⟩

namespace State

theorem brokenCount_le (s : State F) (scope : Scope) (vars : List Nat) (t : Nat) :
    s.brokenCount scope vars t ≤ F.numClauses := by
  rw [brokenCount_eq]
  apply (List.length_filter_le _ _).trans
  exact Nat.le_of_eq List.length_finRange

theorem combinationBreaks_bounds {s : State F} {scope : Scope} {d : Clause} {counts : Array Int}
    (h : s.combinationBreaks scope d = .ok counts) :
    ∀ b ∈ counts.toList, 0 ≤ b ∧ b ≤ F.numClauses := by
  rw [combinationBreaks_eq] at h
  split at h
  · cases h
  · cases h
    intro b hb
    obtain ⟨t, rfl⟩ := Array.mem_ofFn.1 (Array.mem_toList_iff.1 hb)
    exact ⟨Int.natCast_nonneg _, Int.ofNat_le.2 (brokenCount_le ..)⟩

theorem singleBreaks_bounds {s : State F} {scope : Scope} {d : Clause} {counts : Array Int}
    (h : s.singleBreaks scope d = .ok counts) : ∀ b ∈ counts.toList, 0 ≤ b ∧ b ≤ F.numClauses := by
  rw [singleBreaks_eq] at h
  cases h
  intro b hb
  obtain ⟨t, rfl⟩ := Array.mem_ofFn.1 (Array.mem_toList_iff.1 hb)
  exact ⟨Int.natCast_nonneg _, Int.ofNat_le.2 (brokenCount_le ..)⟩

end State

theorem Formula.maxOccurrences_le (F : Formula) : F.maxOccurrences ≤ F.numClauses := by
  apply maxOccurrences_le_iff.2
  intro v _
  rw [idsWith, List.length_findIdxs]
  exact List.countP_le_length

/-- No weight that a search on the formula can ask for, or that its table adds to these, is beyond
the range of machine reals; fair coins ask for none. -/
def Config.Weighs (F : Formula) (c : Config R) : Prop :=
  c.strategy = .uniformRepair ∨ ∀ b ≤ 2 * F.numClauses, (c.weighting.weight? b).isSome

def Config.Serves (F : Formula) (c : Config R) (t : WeightTable R) : Prop :=
  c.strategy = .uniformRepair ∨ t.Kept c.weighting F.numClauses

theorem Walk.startTable_ok (hc : c.Weighs F) : ∃ t, startTable F c = .ok t ∧ c.Serves F t := by
  unfold startTable
  by_cases hcoins : c.strategy = .uniformRepair
  · rw [if_pos hcoins]
    exact ⟨_, rfl, .inl hcoins⟩
  · rw [if_neg hcoins]
    have hmax := F.maxOccurrences_le
    have hweights : ∀ b < (max ((F.maxOccurrences : Int) + 1) 1).toNat,
        (c.weighting.weight? b).isSome := by
      intro b hb
      apply hc.resolve_left hcoins
      omega
    obtain ⟨t, ht, hholds, hsize⟩ := create_ok hweights
    exact ⟨t, ht, .inr ⟨hholds, by omega⟩⟩

theorem Config.weights_serves {c' : Config R} (hc : c.Weighs F) (hstrategy : c.strategy = c'.strategy)
    (heq : ∀ b, c.weighting.weight? b = c'.weighting.weight? b) (hcoins : c.strategy ≠ .uniformRepair)
    {bs : List Int} (hbs : ∀ b ∈ bs, 0 ≤ b ∧ b ≤ F.numClauses) {t u : WeightTable R}
    (ht : c.Serves F t) (hu : c'.Serves F u) : Paired Eq (fun t u => c.Serves F t ∧ c'.Serves F u)
      (Sampler.weights bs t) (Sampler.weights bs u) := by
  have hkept := Sampler.weights_paired (hc.resolve_left hcoins) (fun b _ => heq b) hbs
    (ht.resolve_left hcoins) (hu.resolve_left (hstrategy ▸ hcoins))
  exact hkept.mono fun t u h => ⟨.inr h.1, .inr h.2⟩

variable [Source G]

def Sampler.asked (p : Sampler) (s : State F) (d : Clause) : Except Fault (List Int) :=
  match p.strategy with
  | .uniformRepair => .ok []
  | .breakWeighted => (s.combinationBreaks p.scope d).map fun counts => counts.toList.drop 1
  | .singleFlip => (s.singleBreaks p.scope d).map Array.toList

theorem Sampler.asked_coins {p : Sampler} {s : State F} {d : Clause} (h : p.strategy = .uniformRepair) :
    p.asked s d = .ok [] := by
  rw [asked, h]

theorem Sampler.asked_bounds {p : Sampler} {s : State F} {d : Clause} {bs : List Int}
    (h : p.asked s d = .ok bs) : ∀ b ∈ bs, 0 ≤ b ∧ b ≤ F.numClauses := by
  unfold asked at h
  split at h
  · cases h
    exact List.forall_mem_nil _
  · cases hcounts : s.combinationBreaks p.scope d with
    | error e =>
      rw [hcounts] at h
      cases h
    | ok counts =>
      rw [hcounts] at h
      cases h
      intro b hb
      exact State.combinationBreaks_bounds hcounts b (List.mem_of_mem_drop hb)
  · cases hcounts : s.singleBreaks p.scope d with
    | error e =>
      rw [hcounts] at h
      cases h
    | ok counts =>
      rw [hcounts] at h
      cases h
      exact State.singleBreaks_bounds hcounts

def Sampler.drawn (p : Sampler) (s : State F) (d : Clause) (ws : List R) : Attempt G (FlipChoice Var) :=
  match p.strategy with
  | .uniformRepair => uniformRepair s d
  | .breakWeighted => do
    let t ← Draw.index ((MachineReal.zero :: ws).map Scalar.real) 1
    return .of (distinctVars d) t
  | .singleFlip => do
    let i ← Draw.index (ws.map Scalar.real) 0
    return .of (distinctVars d) (1 <<< i.toNat : Nat)

theorem onSecond_bind_pure {σ τ α β : Type} (act : Attempt τ α) (f : α → β) :
    (onSecond (act >>= fun a => pure (f a)) : Attempt (σ × τ) β) =
      onSecond act >>= fun a => pure (f a) := by
  funext ⟨s, t⟩
  simp only [bind, EStateM.bind, onSecond]
  cases act t <;> rfl

theorem Sampler.choose_eq (p : Sampler) (s : State F) (d : Clause) (t : WeightTable R × G) :
    p.choose s d t = (settled (p.asked s d) >>= fun bs => onFirst (weights bs) >>= fun ws =>
      onSecond (p.drawn s d ws)) t := by
  obtain ⟨strategy, scope⟩ := p
  cases strategy with
  | uniformRepair => rfl
  | breakWeighted =>
    simp only [choose, breakWeighted, asked, drawn, onSecond_bind_pure]
    cases s.combinationBreaks scope d <;> rfl
  | singleFlip =>
    simp only [choose, singleFlip, asked, drawn, onSecond_bind_pure]
    cases s.singleBreaks scope d <;> rfl

theorem Sampler.choose_paired {T : WeightTable R → WeightTable R → Prop} {p : Sampler} {s : State F}
    {d : Clause} {t u : WeightTable R} (hT : T t u)
    (hweights : ∀ bs, p.asked s d = .ok bs → Paired Eq T (weights bs t) (weights bs u)) (g : G) :
    Paired Eq (Beside T) (p.choose s d (t, g)) (p.choose s d (u, g)) := by
  rw [choose_eq, choose_eq]
  cases hbs : p.asked s d with
  | error e => exact .error ⟨hT, rfl⟩
  | ok bs =>
    apply (Paired.onFirst (hweights bs hbs) g).bind
    rintro ws - ⟨t₁, g₁⟩ ⟨u₁, -⟩ rfl ⟨h₁, rfl⟩
    exact Paired.onSecond h₁ _ g₁

theorem Config.chooseAlike_serves (hc : c.Weighs F) (s : State F) :
    Sampler.ChooseAlike G (fun t u => c.Serves F t ∧ c.Serves F u) s c.sampler c.sampler := by
  rintro i t u ⟨ht, hu⟩ g
  apply Sampler.choose_paired ⟨ht, hu⟩
  intro bs hbs
  by_cases hcoins : c.strategy = .uniformRepair
  · obtain rfl : [] = bs := Except.ok.inj ((Sampler.asked_coins hcoins).symm.trans hbs)
    exact .ok rfl ⟨ht, hu⟩
  · exact weights_serves hc rfl (fun _ => rfl) hcoins (Sampler.asked_bounds hbs) ht hu

end

end SatWalk
