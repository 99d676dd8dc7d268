namespace SatWalk

def firsts {α : Type} [DecidableEq α] : List α → List α
  | [] => []
  | a :: as => a :: (firsts as).filter (· ≠ a)

theorem mem_firsts {α : Type} [DecidableEq α] {a : α} {as : List α} : a ∈ firsts as ↔ a ∈ as := by
  induction as with
  | nil => simp [firsts]
  | cons b bs ih =>
    by_cases h : a = b
    · simp [firsts, h]
    · simp [firsts, h, ih]

theorem nodup_firsts {α : Type} [DecidableEq α] (as : List α) : (firsts as).Nodup := by
  induction as with
  | nil => simp [firsts]
  | cons b bs ih =>
    simp only [firsts, List.nodup_cons]
    exact ⟨by simp, ih.sublist List.filter_sublist⟩

end SatWalk
