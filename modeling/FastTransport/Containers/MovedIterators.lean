import FastTransport.Containers.IteratorOperators
import FastTransport.Lib.Transparent

/-! An iterator remembers the list object it was made from. Once the chunks have moved to
another object, its end test asks the old one, and past the last chunk it steps into nothing. -/

namespace FastTransport.Containers.MultiList

open Lib.Transparent

variable {T : Type*}

/-- `++` of an iterator made from this list object (`own`) or from the one its chunks came from. -/
def stepForwardIn (own : Bool) (m : MultiList T) (it : Cursor) : Option Cursor :=
  it.it2.bind fun k => m.lists[it.it1]?.bind fun list =>
    if list.length ≤ k then none
    else if k + 1 = list.length then
      if it.it1 + 1 = m.lists.length then
        if own then some ⟨it.it1 + 1, none⟩ else none
      else some ⟨it.it1 + 1, some 0⟩
    else some ⟨it.it1, some (k + 1)⟩

/-- An iterator at the end of the list its chunks came from is at no chunk of this one. -/
def stepBackwardIn (own : Bool) (m : MultiList T) (it : Cursor) : Option Cursor :=
  if it.it1 = m.lists.length then
    if own then m.lastOfPrevious it else none
  else it.it2.bind fun k => if k = 0 then m.lastOfPrevious it else some ⟨it.it1, some (k - 1)⟩

def isEndIn (own : Bool) (m : MultiList T) (it : Cursor) : Bool := own && it.it1 == m.lists.length

def isBeginIn (own : Bool) (m : MultiList T) (it : Cursor) : Bool :=
  (own || it.it1 != m.lists.length) && Iterator.equal m it m.beginCursor

namespace Place

/-! The same steps on the position alone. -/

def next (own : Bool) (length place : ℕ) : Outcome ℕ :=
  if place + 1 < length ∨ (own = true ∧ place + 1 = length) then .returns (place + 1) else .undefined

def prev (own : Bool) (length place : ℕ) : Outcome ℕ :=
  if place = 0 ∨ (own = false ∧ place = length) then .undefined else .returns (place - 1)

def isEnd (own : Bool) (length place : ℕ) : Bool := own && place == length

def isBegin (own : Bool) (length place : ℕ) : Bool := place == 0 && (own || length != 0)

lemma next_inside {own : Bool} {length place : ℕ} (h : place + 1 < length) :
    next own length place = .returns (place + 1) := if_pos (Or.inl h)

lemma next_last {length place : ℕ} (h : place + 1 = length) :
    next true length place = .returns (place + 1) ∧ next false length place = .undefined :=
  ⟨if_pos (Or.inr ⟨rfl, h⟩), if_neg (by simp [h])⟩

lemma next_end {own : Bool} {length place : ℕ} (h : place = length) : next own length place = .undefined :=
  if_neg (by omega)

lemma isEnd_of_lt {own : Bool} {length place : ℕ} (h : place < length) : isEnd own length place = false := by
  rw [isEnd, beq_eq_false_iff_ne.mpr h.ne, Bool.and_false]

end Place

variable {m : MultiList T} {it : Cursor}

lemma stepForwardIn_own (m : MultiList T) (it : Cursor) : m.stepForwardIn true it = m.stepForward it := rfl

lemma stepBackwardIn_own (m : MultiList T) (it : Cursor) : m.stepBackwardIn true it = m.stepBackward it := rfl

lemma stepForwardIn_moved (m : MultiList T) (it : Cursor) :
    m.stepForwardIn false it = (m.stepForward it).filter fun t => t.it1 ≠ m.lists.length := by
  rw [stepForwardIn, stepForward]
  cases it.it2 with
  | none => rfl
  | some k =>
    rw [Option.bind_some, Option.bind_some]
    cases hl : m.lists[it.it1]? with
    | none => rfl
    | some list =>
      have hlt := (List.getElem?_eq_some_iff.mp hl).1
      rw [Option.bind_some, Option.bind_some]
      split_ifs with h1 h2 h3 h4
      · rfl
      · exact h4.elim
      · rw [Option.filter_some, if_neg (by simp [h3])]
      · rw [Option.filter_some, if_pos (by simpa using h3)]
      · rw [Option.filter_some, if_pos (by simpa using hlt.ne)]

lemma stepForwardIn_positions (hm : m.Inv) (h : m.Standing it) (own : Bool) :
    (m.stepForwardIn own it).map m.position = (Place.next own m.contents.length (m.position it)).toOption := by
  by_cases hend : it.it1 = m.lists.length
  · have hnone : m.stepForwardIn own it = none := by
      cases own with
      | true => exact stepForward_end hend
      | false => rw [stepForwardIn_moved, stepForward_end hend, Option.filter_none]
    rw [hnone, Place.next_end (Standing.position_end hend)]
    rfl
  · obtain ⟨t, he, hs, hp, -⟩ := stepForward_spec hm h hend
    have hlt := h.lt_iff.mpr hend
    have hiff := hs.lt_iff
    rw [hp] at hiff
    by_cases hin : m.position it + 1 < m.contents.length
    · have hstep : m.stepForwardIn own it = some t := by
        cases own with
        | true => exact he
        | false => rw [stepForwardIn_moved, he, Option.filter_some, if_pos (by simpa using hiff.mp hin)]
      rw [hstep, Place.next_inside hin, ← hp]
      rfl
    · obtain ⟨hown, hmoved⟩ := Place.next_last (show m.position it + 1 = m.contents.length by omega)
      cases own with
      | true =>
        rw [stepForwardIn_own, he, hown, ← hp]
        rfl
      | false =>
        rw [stepForwardIn_moved, he, hmoved, Option.filter_some, if_neg (by simpa using fun hne => hin (hiff.mpr hne))]
        rfl

lemma stepBackwardIn_positions (hm : m.Inv) (h : m.Standing it) (own : Bool) :
    (m.stepBackwardIn own it).map m.position = (Place.prev own m.contents.length (m.position it)).toOption := by
  have hback := stepBackward_positions hm h
  rw [Place.prev]
  by_cases hend : it.it1 = m.lists.length
  · cases own with
    | true =>
      rw [stepBackwardIn_own, hback]
      split_ifs with h0 h1 h1
      · rfl
      · exact absurd (Or.inl h0) h1
      · exact absurd h1 (by simpa using h0)
      · rfl
    | false =>
      rw [stepBackwardIn, if_pos hend, if_pos (Or.inr ⟨rfl, Standing.position_end hend⟩)]
      rfl
  · have hstep : m.stepBackwardIn own it = m.stepBackward it := by
      rw [stepBackwardIn, stepBackward, if_neg hend, if_neg hend]
    have hne := (h.lt_iff.mpr hend).ne
    rw [hstep, hback]
    split_ifs with h0 h1 h1
    · rfl
    · exact absurd (Or.inl h0) h1
    · exact absurd h1 (by simp [h0, hne])
    · rfl

lemma isEndIn_eq (h : m.Standing it) (own : Bool) :
    m.isEndIn own it = Place.isEnd own m.contents.length (m.position it) := by
  rw [isEndIn, Place.isEnd, Bool.eq_iff_iff, Bool.and_eq_true, Bool.and_eq_true, beq_iff_eq, beq_iff_eq]
  refine and_congr_right fun _ => ⟨Standing.position_end, fun he => not_not.mp fun hne => ?_⟩
  exact (h.lt_iff.mpr hne).ne he

lemma isBeginIn_eq (hm : m.Inv) (h : m.Standing it) (own : Bool) :
    m.isBeginIn own it = Place.isBegin own m.contents.length (m.position it) := by
  rw [isBeginIn, Place.isBegin, Iterator.equal_eq h (begin_standing hm), begin_position hm, Bool.eq_iff_iff]
  simp only [Bool.and_eq_true, Bool.or_eq_true, bne_iff_ne, ne_eq, decide_eq_true_eq, beq_iff_eq]
  have hlt := h.lt_iff
  constructor
  · rintro ⟨hown, h0⟩
    exact ⟨h0, hown.imp_right fun hne => by have := hlt.mpr hne; omega⟩
  · rintro ⟨h0, hown⟩
    exact ⟨hown.imp_right fun hne => hlt.mp (by omega), h0⟩

end FastTransport.Containers.MultiList
