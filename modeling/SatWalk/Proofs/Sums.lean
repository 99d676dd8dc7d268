import SatWalk.Proofs.Drawing
import SatWalk.Proofs.Numbers

namespace SatWalk

namespace MachineReal

variable {R : Type} [MachineReal R]

def AtMost (x y : R) : Prop := less x y = true ∨ same x y = true

instance (x y : R) : Decidable (AtMost x y) :=
  inferInstanceAs (Decidable (less x y = true ∨ same x y = true))

class LawfulComparison (R : Type) [MachineReal R] : Prop where
  number_of_less : ∀ {x y : R}, less x y = true → IsNumber x ∧ IsNumber y
  number_of_same : ∀ {x y : R}, same x y = true → IsNumber x ∧ IsNumber y
  less_self : ∀ x : R, less x x = false

/-- Order, and arithmetic that rounds without passing a term of a sum or what a fraction is taken of. -/
class LawfulOrder (R : Type) [MachineReal R] : Prop extends LawfulComparison R where
  number_zero : IsNumber (zero : R)
  atMost_trans : ∀ {x y z : R}, AtMost x y → AtMost y z → AtMost x z
  not_less_of_atMost : ∀ {x y : R}, AtMost x y → less y x = false
  same_add_zero : ∀ {x y : R}, AtMost zero x → same zero y = true → same (add x y) x = true
  atMost_add : ∀ {x y : R}, AtMost zero x → AtMost zero y → AtMost x (add x y)
  mul_atMost : ∀ {u x : R}, AtMost zero u → less u one = true → IsUsable x → AtMost (mul u x) x
  fraction_bounds : ∀ {k : Nat}, k < fractions →
    AtMost zero (fraction k : R) ∧ less (fraction k) (one : R) = true

variable [LawfulOrder R] {s : R} {xs : List R}

theorem atMost_sum {x : R} (hs : AtMost zero s) (hx : AtMost zero x) : AtMost zero (add s x) :=
  LawfulOrder.atMost_trans hs (LawfulOrder.atMost_add hs hx)

theorem foldl_atMost (hs : AtMost zero s) (hxs : ∀ x ∈ xs, AtMost zero x)
    (hnone : ¬ ∃ x ∈ xs, less zero x = true) : AtMost (xs.foldl add s) s := by
  induction xs generalizing s with
  | nil =>
    obtain h | h := hs
    · exact .inr (LawfulComparison.number_of_less h).2
    · exact .inr (LawfulComparison.number_of_same h).2
  | cons x xs ih =>
    obtain ⟨hx, hrest⟩ := List.forall_mem_cons.1 hxs
    have hsame : same zero x = true := hx.resolve_left fun h => hnone ⟨x, List.mem_cons_self, h⟩
    have hfold : AtMost (xs.foldl add (add s x)) (add s x) := by
      apply ih (atMost_sum hs hx) hrest
      rintro ⟨y, hy, hpos⟩
      exact hnone ⟨y, List.mem_cons_of_mem x hy, hpos⟩
    exact LawfulOrder.atMost_trans hfold (.inr (LawfulOrder.same_add_zero hs hsame))

theorem exists_positive (hxs : ∀ x ∈ xs, AtMost zero x) (htotal : less zero (Draw.total xs) = true) :
    ∃ x ∈ xs, less zero x = true := by
  by_contra hnone
  have hle : AtMost (Draw.total xs) zero := foldl_atMost (.inr LawfulOrder.number_zero) hxs hnone
  rw [LawfulOrder.not_less_of_atMost hle] at htotal
  cases htotal

end MachineReal

namespace Draw

open MachineReal

variable {R : Type} [MachineReal R] [LawfulOrder R]

theorem reach?_positive {r s : R} {xs : List R} (i : Int) (hs : AtMost zero s)
    (hxs : ∀ x ∈ xs, AtMost zero x) (hr : AtMost r (xs.foldl add s))
    (hpos : ∃ x ∈ xs, less zero x = true) :
    ∃ (n : Nat) (x : R), reach? r i s xs = some (i + n) ∧ xs[n]? = some x ∧ less zero x = true := by
  induction xs generalizing i s with
  | nil =>
    obtain ⟨x, hx, -⟩ := hpos
    cases hx
  | cons x xs ih =>
    obtain ⟨hx, hrest⟩ := List.forall_mem_cons.1 hxs
    have hsum := atMost_sum hs hx
    rw [List.foldl_cons] at hr
    rw [reach?]
    split
    · next hfound =>
      exact ⟨0, x, by simp, rfl, (Bool.and_eq_true_iff.1 hfound).2⟩
    · next hfound =>
      by_cases hahead : ∃ y ∈ xs, less zero y = true
      · obtain ⟨n, y, hreach, hy, hypos⟩ := ih (i + 1) hsum hrest hr hahead
        refine ⟨n + 1, y, ?_, hy, hypos⟩
        rw [hreach]
        congr 1
        omega
      · exfalso
        obtain ⟨y, hy, hypos⟩ := hpos
        obtain rfl | hy := List.mem_cons.1 hy
        · have hle := LawfulOrder.atMost_trans hr (foldl_atMost hsum hrest hahead)
          apply hfound
          rw [Bool.and_eq_true_iff, Bool.or_eq_true_iff]
          exact ⟨hle, hypos⟩
        · exact hahead ⟨y, hy, hypos⟩

end Draw

end SatWalk
