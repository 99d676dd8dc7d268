import Std.Data.TreeMap
import SatWalk.Source

namespace SatWalk

structure PickSet where
  members : Array Int
  places : Std.TreeMap Int Nat
  place_iff : ∀ (a : Int) (i : Nat), places[a]? = some i ↔ members[i]? = some a

namespace PickSet

def empty : PickSet := ⟨#[], ∅, by simp⟩

instance : EmptyCollection PickSet := ⟨empty⟩

def contains (s : PickSet) (a : Int) : Bool := s.places.contains a

instance : Membership Int PickSet := ⟨fun s a => s.contains a = true⟩

instance (a : Int) (s : PickSet) : Decidable (a ∈ s) :=
  inferInstanceAs (Decidable (s.contains a = true))

def size (s : PickSet) : Nat := s.members.size

def isEmpty (s : PickSet) : Bool := s.members.isEmpty

def toList (s : PickSet) : List Int := s.members.toList

theorem members_inj {s : PickSet} {i j : Nat} {a : Int} (hi : s.members[i]? = some a)
    (hj : s.members[j]? = some a) : i = j := by
  have h := (s.place_iff a i).2 hi
  rw [(s.place_iff a j).2 hj] at h
  exact (Option.some.inj h).symm

theorem mem_iff_places {s : PickSet} {a : Int} : a ∈ s ↔ (s.places[a]?).isSome := by
  show s.places.contains a = true ↔ _
  rw [Std.TreeMap.contains_eq_isSome_getElem?]

theorem mem_iff {s : PickSet} {a : Int} : a ∈ s ↔ a ∈ s.toList := by
  rw [mem_iff_places, Option.isSome_iff_exists]
  simp only [place_iff, toList, Array.mem_toList_iff, Array.mem_iff_getElem?]

def insert (s : PickSet) (a : Int) : PickSet :=
  match h : s.places[a]? with
  | some _ => s
  | none =>
    { members := s.members.push a
      places := s.places.insert a s.members.size
      place_iff := by
        intro b i
        have hn : ∀ j, s.members[j]? ≠ some a := fun j hj => by
          rw [(s.place_iff a j).2 hj] at h
          cases h
        rw [Std.TreeMap.getElem?_insert, Array.getElem?_push]
        by_cases hb : a = b
        · subst hb
          simp only [Std.compare_eq_iff_eq, if_true, Option.some.injEq]
          by_cases hi : i = s.members.size
          · simp [hi]
          · simp [hi, hn, Ne.symm hi]
        · simp only [Std.compare_eq_iff_eq, hb, if_false, place_iff]
          by_cases hi : i = s.members.size
          · simp [hi, hb]
          · simp [hi] }

/-- A member is replaced in its place by the last one; anything else changes nothing. -/
def erase (s : PickSet) (a : Int) : PickSet :=
  match h : s.places[a]? with
  | none => s
  | some p =>
    have hp : p < s.members.size := by
      obtain ⟨hlt, _⟩ := Array.getElem?_eq_some_iff.1 ((s.place_iff a p).1 h)
      exact hlt
    have hl : s.members.size - 1 < s.members.size := by omega
    let last := s.members[s.members.size - 1]
    if hlast : p = s.members.size - 1 then
      { members := s.members.pop
        places := s.places.erase a
        place_iff := by
          intro b i
          have ha := (s.place_iff a p).1 h
          rw [Std.TreeMap.getElem?_erase, Array.getElem?_pop]
          by_cases hb : a = b
          · subst hb
            simp only [Std.compare_eq_iff_eq, if_true]
            constructor
            · intro h0
              cases h0
            · intro h0
              split at h0
              · have := members_inj ha h0
                omega
              · cases h0
          · simp only [Std.compare_eq_iff_eq, hb, if_false, place_iff]
            split
            · exact Iff.rfl
            · refine iff_of_false (fun h0 => ?_) (by simp)
              obtain ⟨hlt, _⟩ := Array.getElem?_eq_some_iff.1 h0
              have hi : i = p := by omega
              rw [hi, ha] at h0
              exact hb (Option.some.inj h0) }
    else
      { members := (s.members.set p last).pop
        places := (s.places.erase a).insert last p
        place_iff := by
          intro b i
          have ha := (s.place_iff a p).1 h
          have hz : s.members[s.members.size - 1]? = some last := Array.getElem?_eq_getElem hl
          have hne : last ≠ a := fun e => by
            rw [e] at hz
            exact hlast (members_inj ha hz)
          rw [Std.TreeMap.getElem?_insert, Std.TreeMap.getElem?_erase, Array.getElem?_pop]
          simp only [Std.compare_eq_iff_eq, Array.size_set, Array.getElem?_set]
          by_cases hb : last = b
          · subst hb
            simp only [if_true, Option.some.injEq]
            constructor
            · intro h0
              subst h0
              have hp' : p < s.members.size - 1 := by omega
              simp [hp']
            · intro h0
              split at h0
              · split at h0
                · assumption
                · have := members_inj hz h0
                  omega
              · cases h0
          · simp only [hb, if_false]
            by_cases hab : a = b
            · subst hab
              simp only [if_true]
              refine iff_of_false (by simp) (fun h0 => ?_)
              split at h0
              · split at h0
                · exact hb (Option.some.inj h0)
                · have := members_inj ha h0
                  omega
              · cases h0
            · simp only [hab, if_false, place_iff]
              by_cases hi : i < s.members.size - 1
              · simp only [hi, if_true]
                by_cases hpi : p = i
                · subst hpi
                  simp only [if_true, ha, Option.some.injEq, hab, hb]
                · simp only [hpi, if_false]
              · simp only [hi, if_false]
                refine iff_of_false (fun h0 => ?_) (by simp)
                obtain ⟨hlt, _⟩ := Array.getElem?_eq_some_iff.1 h0
                have hi' : i = s.members.size - 1 := by omega
                rw [hi', hz] at h0
                exact hb (Option.some.inj h0) }

def ofList (as : List Int) : PickSet := as.foldl insert ∅

theorem not_mem_empty {a : Int} : a ∉ (∅ : PickSet) := by
  rw [mem_iff]
  exact List.not_mem_nil

theorem nodup_toList (s : PickSet) : s.toList.Nodup := by
  rw [List.Nodup, List.pairwise_iff_getElem]
  intro i j hi hj hij h
  have h1 : s.members[i]? = some s.toList[i] := by simp [toList]
  have h2 : s.members[j]? = some s.toList[j] := by simp [toList]
  rw [h] at h1
  have := members_inj h1 h2
  omega

theorem insert_of_mem {s : PickSet} {a : Int} (h : a ∈ s) : s.insert a = s := by
  rw [mem_iff_places] at h
  simp only [insert]
  split
  · rfl
  · next hn => simp [hn] at h

theorem toList_insert_of_not_mem {s : PickSet} {a : Int} (h : a ∉ s) :
    (s.insert a).toList = s.toList ++ [a] := by
  rw [mem_iff_places] at h
  simp only [insert]
  split
  · next p hp => simp [hp] at h
  · simp [toList]

theorem mem_insert {s : PickSet} {a b : Int} : b ∈ s.insert a ↔ b = a ∨ b ∈ s := by
  simp only [mem_iff_places, insert]
  split
  · next p h =>
    constructor
    · exact Or.inr
    · rintro (rfl | hb)
      · simp [h]
      · exact hb
  · next h =>
    rw [Std.TreeMap.getElem?_insert]
    simp only [Std.compare_eq_iff_eq]
    by_cases hb : a = b
    · simp [hb]
    · simp [hb, Ne.symm hb]

theorem mem_erase {s : PickSet} {a b : Int} : b ∈ s.erase a ↔ b ≠ a ∧ b ∈ s := by
  simp only [mem_iff_places, erase]
  split
  · next h =>
    constructor
    · intro hb
      refine ⟨?_, hb⟩
      rintro rfl
      simp [h] at hb
    · exact And.right
  · next p h =>
    split
    · rw [Std.TreeMap.getElem?_erase]
      simp only [Std.compare_eq_iff_eq]
      by_cases hb : a = b
      · simp [hb]
      · simp [hb, Ne.symm hb]
    · next hlast =>
      have ha := (s.place_iff a p).1 h
      have hp := (Array.getElem?_eq_some_iff.1 ha).1
      have hl : s.members.size - 1 < s.members.size := by omega
      have hz := Array.getElem?_eq_getElem hl
      have hne : s.members[s.members.size - 1] ≠ a := fun e => by
        rw [e] at hz
        exact hlast (members_inj ha hz)
      rw [Std.TreeMap.getElem?_insert, Std.TreeMap.getElem?_erase]
      simp only [Std.compare_eq_iff_eq]
      by_cases hb : s.members[s.members.size - 1] = b
      · rw [hb] at hz hne
        simp [hb, hne, (s.place_iff b _).2 hz]
      · simp only [hb, if_false]
        by_cases hab : a = b
        · simp [hab]
        · simp [hab, Ne.symm hab]

theorem mem_ofList {as : List Int} {b : Int} : b ∈ ofList as ↔ b ∈ as := by
  have h (s : PickSet) : b ∈ as.foldl insert s ↔ b ∈ as ∨ b ∈ s := by
    induction as generalizing s with
    | nil => simp
    | cons a as ih =>
      rw [List.foldl_cons, ih, mem_insert, List.mem_cons]
      constructor
      · rintro (h | rfl | h)
        · exact Or.inl (Or.inr h)
        · exact Or.inl (Or.inl rfl)
        · exact Or.inr h
      · rintro ((rfl | h) | h)
        · exact Or.inr (Or.inl rfl)
        · exact Or.inl h
        · exact Or.inr (Or.inr h)
  rw [ofList, h]
  simp [not_mem_empty]

def get (s : PickSet) (i : Fin s.members.size) : Int := s.members[i]

def pick {G : Type} [Source G] (s : PickSet) : Attempt G Int := do
  if s.isEmpty then throw .pickFromEmpty
  else
    let i ← drawBelow s.members.size
    return s.get i

end PickSet

end SatWalk
