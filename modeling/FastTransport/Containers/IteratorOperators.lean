import FastTransport.Containers.MultiListRefinement

/-! The operators of `Iterator` and `ConstIterator`, as each class writes them out over the
two components it stores. -/

namespace FastTransport.Containers.MultiList

open Lib.Lists

variable {T : Type*}

/-- The inner component is `none` while it is value-initialised. -/
structure Cursor where
  it1 : ℕ
  it2 : Option ℕ
  deriving DecidableEq, Repr

def Cursor.toIterator (it : Cursor) : Iterator := ⟨it.it1, it.it2.getD 0⟩

@[simp] lemma Cursor.toIterator_it1 (it : Cursor) : it.toIterator.it1 = it.it1 := rfl

def Cursor.ofIterator (it : Iterator) : Cursor := ⟨it.it1, some it.it2⟩

def position (m : MultiList T) (it : Cursor) : ℕ := m.index it.toIterator

def beginCursor (m : MultiList T) : Cursor := ⟨0, if m.lists.isEmpty then none else some 0⟩

def endCursor (m : MultiList T) : Cursor := ⟨m.lists.length, none⟩

/-- The body of every `++`. Stepping an inner iterator that points at no element is undefined. -/
def stepForward (m : MultiList T) (it : Cursor) : Option Cursor :=
  it.it2.bind fun k => m.lists[it.it1]?.bind fun list =>
    if list.length ≤ k then none
    else if k + 1 = list.length then
      if it.it1 + 1 = m.lists.length then some ⟨it.it1 + 1, none⟩ else some ⟨it.it1 + 1, some 0⟩
    else some ⟨it.it1, some (k + 1)⟩

def lastOfPrevious (m : MultiList T) (it : Cursor) : Option Cursor :=
  if it.it1 = 0 then none else some ⟨it.it1 - 1, some ((m.chunk (it.it1 - 1)).length - 1)⟩

def stepBackward (m : MultiList T) (it : Cursor) : Option Cursor :=
  if it.it1 = m.lists.length then m.lastOfPrevious it
  else it.it2.bind fun k => if k = 0 then m.lastOfPrevious it else some ⟨it.it1, some (k - 1)⟩

inductive Step
  | preIncrement | postIncrement | preDecrement | postDecrement
  deriving DecidableEq, Repr

namespace Iterator

def preIncrement (m : MultiList T) (it : Cursor) : Option (Cursor × Cursor) :=
  (m.stepForward it).map fun it' => (it', it')

/-- The stepping is written out again, and `*this` is returned after it. -/
def postIncrement (m : MultiList T) (it : Cursor) : Option (Cursor × Cursor) :=
  (m.stepForward it).map fun it' => (it', it')

def preDecrement (m : MultiList T) (it : Cursor) : Option (Cursor × Cursor) :=
  (m.stepBackward it).map fun it' => (it', it')

def postDecrement (m : MultiList T) (it : Cursor) : Option (Cursor × Cursor) :=
  (preDecrement m it).map fun r => (it, r.2)

def step (m : MultiList T) : Step → Cursor → Option (Cursor × Cursor)
  | .preIncrement => preIncrement m
  | .postIncrement => postIncrement m
  | .preDecrement => preDecrement m
  | .postDecrement => postDecrement m

def equal (m : MultiList T) (it other : Cursor) : Bool :=
  it.it1 == other.it1 && (it.it2 == other.it2 || it.it1 == m.lists.length)

/-- The iterators of a list: an `erase` returns one that keeps its inner component at the end, and
the end of a list stays its end whatever the list goes through. -/
inductive Obtained : MultiList T → Cursor → Prop
  | beginIterator (m : MultiList T) : Obtained m m.beginCursor
  | endIterator (m : MultiList T) : Obtained m m.endCursor
  | returned {m : MultiList T} {it : Cursor} {s : Step} {r : Cursor × Cursor} :
      Obtained m it → step m s it = some r → Obtained m r.1
  | stepped {m : MultiList T} {it : Cursor} {s : Step} {r : Cursor × Cursor} :
      Obtained m it → step m s it = some r → Obtained m r.2
  | erased {m : MultiList T} {it : Cursor} : m.Inv → Obtained m it → it.it1 ≠ m.lists.length →
      Obtained (m.erase it.toIterator).1 (.ofIterator (m.erase it.toIterator).2)
  | kept {m : MultiList T} {it : Cursor} (m' : MultiList T) : m.Inv → Obtained m it → it.it1 = m.lists.length →
      Obtained m' ⟨m'.lists.length, it.it2⟩

end Iterator

namespace ConstIterator

def preIncrement (m : MultiList T) (it : Cursor) : Option (Cursor × Cursor) :=
  (m.stepForward it).map fun it' => (it', it')

def postIncrement (m : MultiList T) (it : Cursor) : Option (Cursor × Cursor) :=
  (preIncrement m it).map fun r => (it, r.2)

def preDecrement (m : MultiList T) (it : Cursor) : Option (Cursor × Cursor) :=
  (m.stepBackward it).map fun it' => (it', it')

def postDecrement (m : MultiList T) (it : Cursor) : Option (Cursor × Cursor) :=
  (preDecrement m it).map fun r => (it, r.2)

def step (m : MultiList T) : Step → Cursor → Option (Cursor × Cursor)
  | .preIncrement => preIncrement m
  | .postIncrement => postIncrement m
  | .preDecrement => preDecrement m
  | .postDecrement => postDecrement m

def equal (it other : Cursor) : Bool := it.it1 == other.it1 && it.it2 == other.it2

inductive Obtained : MultiList T → Cursor → Prop
  | beginIterator (m : MultiList T) : Obtained m m.beginCursor
  | endIterator (m : MultiList T) : Obtained m m.endCursor
  | returned {m : MultiList T} {it : Cursor} {s : Step} {r : Cursor × Cursor} :
      Obtained m it → step m s it = some r → Obtained m r.1
  | stepped {m : MultiList T} {it : Cursor} {s : Step} {r : Cursor × Cursor} :
      Obtained m it → step m s it = some r → Obtained m r.2
  | kept {m : MultiList T} {it : Cursor} (m' : MultiList T) : m.Inv → Obtained m it → it.it1 = m.lists.length →
      Obtained m' ⟨m'.lists.length, it.it2⟩

end ConstIterator

structure Standing (m : MultiList T) (it : Cursor) : Prop where
  valid : m.Valid it.toIterator
  inner : it.it1 ≠ m.lists.length → it = .ofIterator it.toIterator

section Cursors

variable {m : MultiList T} {it it' : Cursor}

lemma index_inj {a b : Iterator} (ha : m.Valid a) (hb : m.Valid b) (h : m.index a = m.index b) :
    a.it1 = b.it1 ∧ (a.it1 ≠ m.lists.length → a = b) := by
  by_cases hea : a.it1 = m.lists.length
  · have heb : b.it1 = m.lists.length := by
      by_contra hne
      have hlt := (index_lt_iff hb).mpr hne
      rw [← h, index_end hea] at hlt
      exact lt_irrefl _ hlt
    exact ⟨hea.trans heb.symm, fun hne => absurd hea hne⟩
  · have heb : b.it1 ≠ m.lists.length := by
      have hlt := (index_lt_iff ha).mpr hea
      rw [h] at hlt
      exact (index_lt_iff hb).mp hlt
    obtain ⟨before, left, x, right, after, hp⟩ := (valid_cases ha).resolve_right hea
    obtain ⟨before', left', x', right', after', hp'⟩ := (valid_cases hb).resolve_right heb
    have hi := hp.index_eq
    rw [h, hp'.index_eq] at hi
    rcases prefix_or_eq_or_prefix hp.lists_eq hp'.lists_eq with ⟨zs, rfl⟩ | ⟨rfl, hch, -⟩ | ⟨zs, rfl⟩
    · simp only [List.flatten_append, List.flatten_cons, List.length_append, List.length_cons] at hi
      omega
    · have hab : a = b := by
        obtain ⟨a1, a2⟩ := a
        obtain ⟨b1, b2⟩ := b
        have h1 := hp.it1_eq.trans hp'.it1_eq.symm
        have h2 : a2 = b2 := by
          have h2 := hp.it2_eq
          have h2' := hp'.it2_eq
          dsimp only at h2 h2'
          omega
        dsimp only at h1
        rw [h1, h2]
      exact ⟨congrArg Iterator.it1 hab, fun _ => hab⟩
    · simp only [List.flatten_append, List.flatten_cons, List.length_append, List.length_cons] at hi
      omega

lemma Standing.of_valid {a : Iterator} (h : m.Valid a) : m.Standing (.ofIterator a) := ⟨h, fun _ => rfl⟩

lemma Standing.of_end (h : it.it1 = m.lists.length) : m.Standing it := ⟨Or.inr h, fun hne => absurd h hne⟩

lemma Standing.position_end (h : it.it1 = m.lists.length) : m.position it = m.contents.length := index_end h

lemma Standing.lt_iff (h : m.Standing it) : m.position it < m.contents.length ↔ it.it1 ≠ m.lists.length :=
  index_lt_iff h.valid

lemma begin_standing (hm : m.Inv) : m.Standing m.beginCursor := by
  rcases begin_cases hm with ⟨a, right, after, h⟩ | ⟨hl, h⟩
  · have hb : m.beginCursor = .ofIterator m.beginIterator := by
      simp [beginCursor, Cursor.ofIterator, beginIterator, h.lists_eq]
    rw [hb]
    exact .of_valid h.valid
  · exact .of_end h

lemma stepForward_spec (hm : m.Inv) (h : m.Standing it) (hne : it.it1 ≠ m.lists.length) :
    ∃ t, m.stepForward it = some t ∧ m.Standing t ∧ m.position t = m.position it + 1 ∧
      (t.it1 = m.lists.length → t.it2 = none) := by
  obtain ⟨hv, hi⟩ := next_valid hm h.valid hne
  obtain ⟨before, left, a, right, after, hp⟩ := (valid_cases h.valid).resolve_right hne
  have hlist : m.lists[it.it1]? = some (left ++ a :: right) := by
    have h1 := hp.it1_eq
    simp only [Cursor.toIterator] at h1
    simp [hp.lists_eq, h1]
  have hk : it.it2 = some left.length := by
    have h2 := hp.it2_eq
    rw [h.inner hne] at h2 ⊢
    exact congrArg some h2
  have hchunk : m.chunk it.it1 = left ++ a :: right := hp.chunk_eq
  have hlast : m.next it.toIterator = if left.length + 1 = (left ++ a :: right).length then
      if it.it1 + 1 = m.lists.length then m.endIterator else ⟨it.it1 + 1, 0⟩
    else ⟨it.it1, left.length + 1⟩ := by
    rw [next, show it.toIterator.it2 = left.length from hp.it2_eq]
    simp only [Cursor.toIterator, hchunk]
    rfl
  have hstep : m.stepForward it = if left.length + 1 = (left ++ a :: right).length then
      if it.it1 + 1 = m.lists.length then some ⟨it.it1 + 1, none⟩ else some ⟨it.it1 + 1, some 0⟩
    else some ⟨it.it1, some (left.length + 1)⟩ := by
    rw [stepForward, hk, Option.bind_some, hlist, Option.bind_some, if_neg (by simp)]
  rw [hlast] at hv hi
  rw [hstep]
  split_ifs at hv hi ⊢ with hl he
  · refine ⟨_, rfl, .of_end he, ?_, fun _ => rfl⟩
    exact (Standing.position_end he).trans ((index_end rfl).symm.trans hi)
  · exact ⟨_, rfl, .of_valid hv, hi, fun hend => absurd hend he⟩
  · exact ⟨_, rfl, .of_valid hv, hi, fun hend => absurd hend hne⟩

lemma stepBackward_begin (hm : m.Inv) (h : m.Standing it) (hp : m.position it = 0) : m.stepBackward it = none := by
  obtain ⟨hb, hi⟩ := begin_valid hm
  obtain ⟨h1, h2⟩ := index_inj h.valid hb (hp.trans hi.symm)
  change it.it1 = 0 at h1
  rw [stepBackward]
  split_ifs with hend
  · rw [lastOfPrevious, if_pos h1]
  · have hk := congrArg Cursor.it2 (h.inner hend)
    rw [h2 hend] at hk
    change it.it2 = some 0 at hk
    rw [hk, Option.bind_some, if_pos rfl, lastOfPrevious, if_pos h1]

lemma stepBackward_eq_prev (h : m.Standing it) (hp : m.position it ≠ 0) :
    m.stepBackward it = some (.ofIterator (m.prev it.toIterator)) := by
  have hfirst : it.it1 = 0 → it.toIterator.it2 ≠ 0 ∧ it.it1 ≠ m.lists.length := by
    intro h0
    have hpos : m.position it = if 0 < m.lists.length then it.toIterator.it2 else m.contents.length := by
      rw [position, index, show it.toIterator.it1 = 0 from h0, List.take_zero, List.flatten_nil, List.length_nil,
        Nat.zero_add]
    by_cases hl : 0 < m.lists.length
    · rw [if_pos hl] at hpos
      exact ⟨by omega, by omega⟩
    · have hnil : m.lists = [] := List.eq_nil_of_length_eq_zero (by omega)
      rw [if_neg hl] at hpos
      exact absurd (hpos.trans (by simp [contents, hnil])) hp
  have hprev : it.it1 ≠ 0 →
      m.lastOfPrevious it = some (.ofIterator ⟨it.it1 - 1, (m.chunk (it.it1 - 1)).length - 1⟩) := by
    intro h0
    rw [lastOfPrevious, if_neg h0]
    rfl
  rw [stepBackward, prev, Cursor.toIterator_it1]
  by_cases hend : it.it1 = m.lists.length
  · rw [if_pos hend, if_pos hend]
    exact hprev fun h0 => (hfirst h0).2 hend
  · rw [if_neg hend, if_neg hend, congrArg Cursor.it2 (h.inner hend)]
    change (if it.toIterator.it2 = 0 then _ else _) = _
    split_ifs with hk
    · exact hprev fun h0 => (hfirst h0).1 hk
    · rfl

lemma prev_of_end {a b : Iterator} (ha : a.it1 = m.lists.length) (hb : b.it1 = m.lists.length) :
    m.prev a = m.prev b := by
  rw [prev, prev, if_pos ha, if_pos hb, ha, hb]

lemma stepBackward_spec (hm : m.Inv) (h : m.Standing it) (hp : m.position it ≠ 0) :
    ∃ t, m.stepBackward it = some t ∧ m.Standing t ∧ m.position t = m.position it - 1 ∧ t.it1 ≠ m.lists.length := by
  have hle : m.position it ≤ m.contents.length := by
    by_cases hend : it.it1 = m.lists.length
    · exact (Standing.position_end hend).le
    · exact (h.lt_iff.mpr hend).le
  rcases iteratorAt_spec hm (m.position it - 1) with ⟨_, a, -, hv, hi⟩ | ⟨hgt, _⟩
  · have hne : a.it1 ≠ m.lists.length := (index_lt_iff hv).mp (by omega)
    obtain ⟨_, _, _, _, _, ha⟩ := (valid_cases hv).resolve_right hne
    obtain ⟨hv', hi'⟩ := next_valid hm hv hne
    -- the iterator before `it` steps to `it`, up to the inner component at the end
    have hback : m.prev it.toIterator = a := by
      rw [← prev_next hm ha]
      obtain ⟨h1, h2⟩ := index_inj h.valid hv' (show m.position it = _ by omega)
      by_cases hend : it.it1 = m.lists.length
      · exact prev_of_end hend (h1.symm.trans hend)
      · rw [h2 hend]
    exact ⟨.ofIterator a, by rw [stepBackward_eq_prev h hp, hback], .of_valid hv, hi, hne⟩
  · omega

lemma stepForward_end (h : it.it1 = m.lists.length) : m.stepForward it = none := by
  rw [stepForward, h, List.getElem?_eq_none le_rfl]
  cases it.it2 <;> rfl

def Moves (m : MultiList T) (it t : Cursor) : Prop := m.stepForward it = some t ∨ m.stepBackward it = some t

lemma Moves.standing (hm : m.Inv) (h : m.Standing it) (ht : m.Moves it it') :
    m.Standing it' ∧ (it'.it1 = m.lists.length → it'.it2 = none) := by
  rcases ht with ht | ht
  · by_cases hend : it.it1 = m.lists.length
    · rw [stepForward_end hend] at ht
      cases ht
    · obtain ⟨t, he, hs, _, hinner⟩ := stepForward_spec hm h hend
      cases he.symm.trans ht
      exact ⟨hs, hinner⟩
  · by_cases hp : m.position it = 0
    · rw [stepBackward_begin hm h hp] at ht
      cases ht
    · obtain ⟨t, he, hs, _, hne⟩ := stepBackward_spec hm h hp
      cases he.symm.trans ht
      exact ⟨hs, fun hend => absurd hend hne⟩

lemma stepBackward_positions (hm : m.Inv) (h : m.Standing it) :
    (m.stepBackward it).map m.position = if m.position it = 0 then none else some (m.position it - 1) := by
  by_cases hp : m.position it = 0
  · rw [stepBackward_begin hm h hp, if_pos hp]
    rfl
  · obtain ⟨t, he, -, ht, -⟩ := stepBackward_spec hm h hp
    rw [he, if_neg hp, ← ht]
    rfl

end Cursors

section Operators

variable {m : MultiList T} {it it' cit cit' : Cursor}

lemma Iterator.step_moves {s : Step} {r : Cursor × Cursor} (h : step m s it = some r) :
    (r.1 = it ∨ m.Moves it r.1) ∧ m.Moves it r.2 := by
  cases s with
  | preIncrement | postIncrement =>
    obtain ⟨t, ht, rfl⟩ := Option.map_eq_some_iff.mp h
    exact ⟨Or.inr (Or.inl ht), Or.inl ht⟩
  | preDecrement =>
    obtain ⟨t, ht, rfl⟩ := Option.map_eq_some_iff.mp h
    exact ⟨Or.inr (Or.inr ht), Or.inr ht⟩
  | postDecrement =>
    obtain ⟨_, hpre, rfl⟩ := Option.map_eq_some_iff.mp h
    obtain ⟨t, ht, rfl⟩ := Option.map_eq_some_iff.mp hpre
    exact ⟨Or.inl rfl, Or.inr ht⟩

lemma ConstIterator.step_moves {s : Step} {r : Cursor × Cursor} (h : step m s it = some r) :
    (r.1 = it ∨ m.Moves it r.1) ∧ m.Moves it r.2 := by
  cases s with
  | preIncrement =>
    obtain ⟨t, ht, rfl⟩ := Option.map_eq_some_iff.mp h
    exact ⟨Or.inr (Or.inl ht), Or.inl ht⟩
  | preDecrement =>
    obtain ⟨t, ht, rfl⟩ := Option.map_eq_some_iff.mp h
    exact ⟨Or.inr (Or.inr ht), Or.inr ht⟩
  | postIncrement =>
    obtain ⟨_, hpre, rfl⟩ := Option.map_eq_some_iff.mp h
    obtain ⟨t, ht, rfl⟩ := Option.map_eq_some_iff.mp hpre
    exact ⟨Or.inl rfl, Or.inl ht⟩
  | postDecrement =>
    obtain ⟨_, hpre, rfl⟩ := Option.map_eq_some_iff.mp h
    obtain ⟨t, ht, rfl⟩ := Option.map_eq_some_iff.mp hpre
    exact ⟨Or.inl rfl, Or.inr ht⟩

lemma Iterator.Obtained.standing (hm : m.Inv) (h : Obtained m it) : m.Standing it := by
  induction h with
  | beginIterator m => exact begin_standing hm
  | endIterator m => exact .of_end rfl
  | returned _ hs ih =>
    rcases (step_moves hs).1 with he | hmoves
    · rw [he]
      exact ih hm
    · exact (hmoves.standing hm (ih hm)).1
  | stepped _ hs ih => exact ((step_moves hs).2.standing hm (ih hm)).1
  | erased hinv _ hne ih =>
    obtain ⟨_, _, _, _, _, hp⟩ := (valid_cases (ih hinv).valid).resolve_right hne
    exact .of_valid (erase_spec hinv hp).2.2.1
  | kept m' _ _ _ _ => exact .of_end rfl

lemma ConstIterator.Obtained.standing (hm : m.Inv) (h : Obtained m it) :
    m.Standing it ∧ (it.it1 = m.lists.length → it.it2 = none) := by
  induction h with
  | beginIterator m =>
    refine ⟨begin_standing hm, fun hend => if_pos ?_⟩
    exact List.isEmpty_iff.mpr (List.eq_nil_of_length_eq_zero hend.symm)
  | endIterator m => exact ⟨.of_end rfl, fun _ => rfl⟩
  | returned _ hs ih =>
    rcases (step_moves hs).1 with he | hmoves
    · rw [he]
      exact ih hm
    · exact hmoves.standing hm (ih hm).1
  | stepped _ hs ih => exact (step_moves hs).2.standing hm (ih hm).1
  | kept m' hinv _ hend ih => exact ⟨.of_end rfl, fun _ => (ih hinv).2 hend⟩

lemma Standing.eq_of_position (h : m.Standing it) (h' : m.Standing it') (he : m.position it = m.position it') :
    it.it1 = it'.it1 ∧ (it.it1 ≠ m.lists.length → it = it') := by
  obtain ⟨h1, h2⟩ := index_inj h.valid h'.valid he
  refine ⟨h1, fun hne => ?_⟩
  rw [h.inner hne, h2 hne, ← h'.inner fun hend => hne (h1.trans hend)]

lemma Iterator.equal_eq (h : m.Standing it) (h' : m.Standing it') :
    equal m it it' = decide (m.position it = m.position it') := by
  rw [Bool.eq_iff_iff, decide_eq_true_iff, equal, Bool.and_eq_true, Bool.or_eq_true, beq_iff_eq, beq_iff_eq, beq_iff_eq]
  constructor
  · rintro ⟨h1, h2 | hend⟩
    · rw [show it = it' by cases it; cases it'; simp_all]
    · rw [Standing.position_end hend, Standing.position_end (h1.symm.trans hend)]
  · intro he
    obtain ⟨h1, h2⟩ := h.eq_of_position h' he
    refine ⟨h1, or_iff_not_imp_right.mpr fun hne => ?_⟩
    rw [h2 hne]

lemma ConstIterator.equal_eq (hm : m.Inv) (h : Obtained m it) (h' : Obtained m it') :
    equal it it' = decide (m.position it = m.position it') := by
  obtain ⟨hs, hend⟩ := h.standing hm
  obtain ⟨hs', hend'⟩ := h'.standing hm
  rw [Bool.eq_iff_iff, decide_eq_true_iff, equal, Bool.and_eq_true, beq_iff_eq, beq_iff_eq]
  constructor
  · rintro ⟨h1, h2⟩
    rw [show it = it' by cases it; cases it'; simp_all]
  · intro he
    obtain ⟨h1, h2⟩ := hs.eq_of_position hs' he
    refine ⟨h1, ?_⟩
    by_cases hlast : it.it1 = m.lists.length
    · rw [hend hlast, hend' (h1.symm.trans hlast)]
    · rw [h2 hlast]

lemma begin_position (hm : m.Inv) : m.position m.beginCursor = 0 := by
  have hb : m.beginCursor.toIterator = m.beginIterator := by
    rw [beginCursor, Cursor.toIterator]
    split_ifs <;> rfl
  rw [position, hb, (begin_valid hm).2]

end Operators

end FastTransport.Containers.MultiList
