import FastTransport.Lib.Lists

/-! `MultiList`: a list of chunks with a cached size. An iterator is the pair of a
chunk position and a position inside that chunk; past the last chunk the second
component carries no meaning. -/

namespace FastTransport.Containers

open Lib.Lists

structure MultiList (T : Type*) where
  lists : List (List T)
  size : ℕ
  deriving DecidableEq, Repr

namespace MultiList

structure Iterator where
  it1 : ℕ
  it2 : ℕ
  deriving DecidableEq, Repr

variable {T : Type*}

def chunkSize : ℕ := 10

def empty : MultiList T := ⟨[], 0⟩

def isEmpty (m : MultiList T) : Bool := m.lists.isEmpty

def contents (m : MultiList T) : List T := m.lists.flatten

def chunk (m : MultiList T) (i : ℕ) : List T := m.lists.getD i []

def beginIterator (_m : MultiList T) : Iterator := ⟨0, 0⟩

def endIterator (m : MultiList T) : Iterator := ⟨m.lists.length, 0⟩

def next (m : MultiList T) (it : Iterator) : Iterator :=
  if it.it2 + 1 = (m.chunk it.it1).length then
    if it.it1 + 1 = m.lists.length then m.endIterator else ⟨it.it1 + 1, 0⟩
  else ⟨it.it1, it.it2 + 1⟩

def prev (m : MultiList T) (it : Iterator) : Iterator :=
  if it.it1 = m.lists.length then ⟨it.it1 - 1, (m.chunk (it.it1 - 1)).length - 1⟩
  else if it.it2 = 0 then ⟨it.it1 - 1, (m.chunk (it.it1 - 1)).length - 1⟩
  else ⟨it.it1, it.it2 - 1⟩

def iteratorEq (m : MultiList T) (a b : Iterator) : Bool :=
  a.it1 == b.it1 && (a.it2 == b.it2 || a.it1 == m.lists.length)

def deref (m : MultiList T) (it : Iterator) : Option T :=
  (m.lists[it.it1]?).bind fun list => list[it.it2]?

def tryGenerateLoop : List (List T) → ℕ → MultiList T → ℕ → MultiList T × MultiList T
  | [], size', list, _ => (⟨[], size'⟩, list)
  | front :: rest, size', list, size =>
    if size = 0 then (⟨front :: rest, size'⟩, list)
    else if size < front.length then
      (⟨front.drop size :: rest, size' - size⟩,
        ⟨list.lists ++ [front.take size], list.size + size⟩)
    else tryGenerateLoop rest (size' - front.length)
      ⟨list.lists ++ [front], list.size + front.length⟩ (size - front.length)

def tryGenerate (m : MultiList T) (size : ℕ) : MultiList T × MultiList T :=
  tryGenerateLoop m.lists m.size empty size

def pushBack (m : MultiList T) (element : T) : MultiList T :=
  let lists := if m.lists.isEmpty then [[]] else m.lists
  let list := lists.getLastD []
  if list.length < chunkSize then ⟨lists.dropLast ++ [list ++ [element]], m.size + 1⟩
  else ⟨lists ++ [[element]], m.size + 1⟩

def popBack (m : MultiList T) : Option (MultiList T) :=
  m.lists.getLast?.map fun list =>
    if list.dropLast.isEmpty then ⟨m.lists.dropLast, m.size - 1⟩
    else ⟨m.lists.dropLast ++ [list.dropLast], m.size - 1⟩

def splice (m that : MultiList T) : MultiList T × MultiList T :=
  match m.lists.getLast?, that.lists with
  | some list, thatList :: rest =>
    if list.length + thatList.length < chunkSize then
      (⟨m.lists.dropLast ++ [list ++ thatList] ++ rest, m.size + that.size⟩, empty)
    else (⟨m.lists ++ that.lists, m.size + that.size⟩, empty)
  | _, _ => (⟨m.lists ++ that.lists, m.size + that.size⟩, empty)

def spliceInternalList (list : List T) (first last : ℕ) : List T × List T :=
  ((list.take last).drop first, list.take first ++ list.drop last)

/-- Append the elements of `that` in `[first, last)`. Positions in `that.lists` are
those before the call: a chunk that moves away keeps its place until the end. -/
def spliceRange (m that : MultiList T) (first last : Iterator) :
    Option (MultiList T × MultiList T) :=
  that.lists[first.it1]?.map fun list =>
    let before := that.lists.take first.it1
    if first.it1 = last.it1 then
      let after := that.lists.drop (first.it1 + 1)
      if first.it2 = 0 ∧ last.it2 = list.length then
        (⟨m.lists ++ [list], m.size + list.length⟩, ⟨before ++ after, that.size - list.length⟩)
      else if first.it2 ≠ last.it2 then
        let (items, rest) := spliceInternalList list first.it2 last.it2
        (⟨m.lists ++ [items], m.size + items.length⟩,
          ⟨before ++ [rest] ++ after, that.size - items.length⟩)
      else (m, that)
    else
      let (items, rest) :=
        if first.it2 = 0 then (list, []) else
          let (items, rest) := spliceInternalList list first.it2 list.length
          (items, [rest])
      let middle := (that.lists.drop (first.it1 + 1)).take (last.it1 - (first.it1 + 1))
      let moved := items.length + middle.flatten.length
      match that.lists.drop last.it1 with
      | [] => (⟨m.lists ++ [items] ++ middle, m.size + moved⟩, ⟨before ++ rest, that.size - moved⟩)
      | list' :: after =>
        if last.it2 = 0 then
          (⟨m.lists ++ [items] ++ middle, m.size + moved⟩,
            ⟨before ++ rest ++ list' :: after, that.size - moved⟩)
        else
          let (items', rest') := spliceInternalList list' 0 last.it2
          (⟨m.lists ++ [items] ++ middle ++ [items'], m.size + (moved + items'.length)⟩,
            ⟨before ++ rest ++ rest' :: after, that.size - (moved + items'.length)⟩)

def erase (m : MultiList T) (it : Iterator) : MultiList T × Iterator :=
  let list := (m.chunk it.it1).eraseIdx it.it2
  if it.it2 = list.length then
    let lists := if list.isEmpty then m.lists.eraseIdx it.it1 else m.lists.set it.it1 list
    let it1 := if list.isEmpty then it.it1 else it.it1 + 1
    (⟨lists, m.size - 1⟩, ⟨it1, if it1 ≠ lists.length then 0 else it.it2⟩)
  else (⟨m.lists.set it.it1 list, m.size - 1⟩, it)

def Chunked (lists : List (List T)) : Prop := ∀ c ∈ lists, 1 ≤ c.length ∧ c.length ≤ chunkSize

structure Inv (m : MultiList T) : Prop where
  chunked : Chunked m.lists
  size_eq : m.size = m.contents.length

@[simp] lemma chunked_nil : Chunked ([] : List (List T)) := by simp [Chunked]

@[simp] lemma chunked_cons {c : List T} {lists : List (List T)} :
    Chunked (c :: lists) ↔ (1 ≤ c.length ∧ c.length ≤ chunkSize) ∧ Chunked lists := by
  simp [Chunked]

@[simp] lemma chunked_append {lists lists' : List (List T)} :
    Chunked (lists ++ lists') ↔ Chunked lists ∧ Chunked lists' := by
  simp only [Chunked, List.forall_mem_append]

def remainder (list : List T) : List (List T) := if list.isEmpty then [] else [list]

@[simp] lemma remainder_flatten (list : List T) : (remainder list).flatten = list := by
  cases list <;> simp [remainder]

lemma chunked_remainder {list : List T} (h : list.length ≤ chunkSize) : Chunked (remainder list) := by
  cases list with
  | nil => simp [remainder]
  | cons a list => simpa [remainder] using h

lemma inv_iff {lists : List (List T)} {size : ℕ} :
    Inv ⟨lists, size⟩ ↔ Chunked lists ∧ size = lists.flatten.length :=
  ⟨fun h => ⟨h.chunked, h.size_eq⟩, fun h => ⟨h.1, h.2⟩⟩

lemma inv_empty : (empty : MultiList T).Inv := inv_iff.mpr (by simp)

lemma Inv.isEmpty_iff {m : MultiList T} (hm : m.Inv) : m.isEmpty = true ↔ m.contents = [] := by
  rw [isEmpty, List.isEmpty_iff, contents, List.flatten_eq_nil_iff]
  constructor
  · intro h
    simp [h]
  · intro h
    cases hl : m.lists with
    | nil => rfl
    | cons c cs =>
      have hc : c ∈ m.lists := by simp [hl]
      have hp := (hm.chunked c hc).1
      simp [h c hc] at hp

lemma tryGenerateLoop_spec (lists : List (List T)) (size' size : ℕ) (list : MultiList T)
    (hm : Inv ⟨lists, size'⟩) (hl : list.Inv) :
    (tryGenerateLoop lists size' list size).1.Inv ∧ (tryGenerateLoop lists size' list size).2.Inv ∧
      (tryGenerateLoop lists size' list size).1.contents = lists.flatten.drop size ∧
      (tryGenerateLoop lists size' list size).2.contents =
        list.contents ++ lists.flatten.take size := by
  induction lists generalizing size' size list with
  | nil => exact ⟨hm, hl, by simp [tryGenerateLoop, contents], by simp [tryGenerateLoop, contents]⟩
  | cons front rest ih =>
    obtain ⟨hc, hs⟩ := inv_iff.mp hm
    obtain ⟨hlc, hls⟩ := inv_iff.mp hl
    obtain ⟨hfront, hrest⟩ := chunked_cons.mp hc
    simp only [List.flatten_cons, List.length_append] at hs
    rw [tryGenerateLoop]
    split_ifs with h0 hlt
    · subst h0
      exact ⟨hm, hl, by simp [contents], by simp [contents]⟩
    · have hd : size - front.length = 0 := by omega
      refine ⟨inv_iff.mpr ⟨?_, ?_⟩, inv_iff.mpr ⟨?_, ?_⟩, ?_, ?_⟩
      · simp only [chunked_cons, List.length_drop]
        exact ⟨by omega, hrest⟩
      · simp only [List.flatten_cons, List.length_append, List.length_drop]
        omega
      · simp only [chunked_append, chunked_cons, List.length_take]
        exact ⟨hlc, by omega, chunked_nil⟩
      · simp only [List.flatten_append, List.flatten_cons, List.flatten_nil, List.length_append,
          List.length_take, List.length_nil]
        omega
      · simp [contents, List.drop_append, hd]
      · simp [contents, List.take_append, hd]
    · have hge : front.length ≤ size := by omega
      have hm' : Inv ⟨rest, size' - front.length⟩ := inv_iff.mpr ⟨hrest, by omega⟩
      have hl' : Inv ⟨list.lists ++ [front], list.size + front.length⟩ :=
        inv_iff.mpr ⟨by simpa [hfront] using hlc, by simp [hls]⟩
      obtain ⟨h1, h2, h3, h4⟩ := ih _ (size - front.length) _ hm' hl'
      refine ⟨h1, h2, ?_, ?_⟩
      · rw [h3, List.flatten_cons, List.drop_append, List.drop_eq_nil_of_le hge, List.nil_append]
      · rw [h4, List.flatten_cons, List.take_append, List.take_of_length_le hge]
        simp [contents]

lemma tryGenerate_spec {m : MultiList T} (hm : m.Inv) (size : ℕ) :
    (m.tryGenerate size).1.Inv ∧ (m.tryGenerate size).2.Inv ∧
      (m.tryGenerate size).1.contents = m.contents.drop size ∧
      (m.tryGenerate size).2.contents = m.contents.take size := by
  obtain ⟨h1, h2, h3, h4⟩ := tryGenerateLoop_spec m.lists m.size size empty hm inv_empty
  exact ⟨h1, h2, h3, h4.trans (by simp [empty, contents])⟩

lemma pushBack_spec {m : MultiList T} (hm : m.Inv) (element : T) :
    (m.pushBack element).Inv ∧ (m.pushBack element).contents = m.contents ++ [element] := by
  obtain ⟨hc, hs⟩ := inv_iff.mp hm
  rcases List.eq_nil_or_concat m.lists with hl | ⟨init, list, hl⟩
  · simp only [hl, List.flatten_nil, List.length_nil] at hs
    have he : m.pushBack element = ⟨[[element]], 1⟩ := by
      simp [pushBack, hl, hs, chunkSize]
    rw [he]
    exact ⟨inv_iff.mpr (by simp [chunkSize]), by simp [contents, hl]⟩
  · rw [List.concat_eq_append] at hl
    simp only [hl, chunked_append, chunked_cons] at hc
    by_cases hlt : list.length < chunkSize
    · have he : m.pushBack element = ⟨init ++ [list ++ [element]], m.size + 1⟩ := by
        simp [pushBack, hl, hlt]
      rw [he]
      refine ⟨inv_iff.mpr ⟨?_, by simp [hs, hl]; omega⟩, by simp [contents, hl]⟩
      simp only [chunked_append, chunked_cons, List.length_append, List.length_singleton]
      exact ⟨hc.1, by omega, chunked_nil⟩
    · have he : m.pushBack element = ⟨m.lists ++ [[element]], m.size + 1⟩ := by
        simp [pushBack, hl, hlt]
      rw [he]
      have hone : 1 ≤ chunkSize := by decide
      exact ⟨inv_iff.mpr ⟨by simp [hl, hc, hone], by simp [hs]⟩, by simp [contents]⟩

lemma popBack_spec {m : MultiList T} (hm : m.Inv) :
    (m.contents = [] ∧ m.popBack = none) ∨
      ∃ m', m.popBack = some m' ∧ m'.Inv ∧ m.contents ≠ [] ∧ m'.contents = m.contents.dropLast := by
  obtain ⟨hc, hs⟩ := inv_iff.mp hm
  rcases List.eq_nil_or_concat m.lists with hl | ⟨init, list, hl⟩
  · exact Or.inl ⟨by simp [contents, hl], by simp [popBack, hl]⟩
  · rw [List.concat_eq_append] at hl
    simp only [hl, chunked_append, chunked_cons] at hc
    obtain ⟨xs, x, hx⟩ := (List.eq_nil_or_concat list).resolve_left
      (by rintro rfl; simp at hc)
    rw [List.concat_eq_append] at hx
    subst hx
    simp only [List.length_append, List.length_singleton] at hc
    have hcont : m.contents = init.flatten ++ xs ++ [x] := by simp [contents, hl]
    have hlen : m.size = (init.flatten ++ xs).length + 1 := by
      rw [hs, ← contents, hcont, List.length_append, List.length_singleton]
    refine Or.inr ⟨if xs.isEmpty then ⟨init, m.size - 1⟩ else ⟨init ++ [xs], m.size - 1⟩, ?_, ?_, ?_, ?_⟩
    · simp [popBack, hl]
    · split_ifs with he
      · rw [List.isEmpty_iff] at he
        subst he
        exact inv_iff.mpr ⟨hc.1, by simp [hlen]⟩
      · have hp : 0 < xs.length := List.length_pos_of_ne_nil (by simpa using he)
        exact inv_iff.mpr ⟨by simp [hc]; omega, by simp [hlen]⟩
    · simp [hcont]
    · rw [hcont, List.dropLast_concat]
      split_ifs with he
      · simp [contents, List.isEmpty_iff.mp he]
      · simp [contents]

lemma splice_spec {m that : MultiList T} (hm : m.Inv) (ht : that.Inv) :
    (m.splice that).1.Inv ∧ (m.splice that).2 = empty ∧
      (m.splice that).1.contents = m.contents ++ that.contents := by
  obtain ⟨hc, hs⟩ := inv_iff.mp hm
  obtain ⟨htc, hts⟩ := inv_iff.mp ht
  have happ : Inv ⟨m.lists ++ that.lists, m.size + that.size⟩ :=
    inv_iff.mpr ⟨chunked_append.mpr ⟨hc, htc⟩, by simp [hs, hts]⟩
  rw [splice]
  split
  · rename_i list thatList rest hl htl
    obtain ⟨init, hinit⟩ := List.getLast?_eq_some_iff.mp hl
    split_ifs with hlt
    · rw [hinit, chunked_append, chunked_cons] at hc
      rw [htl, chunked_cons] at htc
      refine ⟨inv_iff.mpr ⟨?_, ?_⟩, rfl, ?_⟩
      · simp only [hinit, List.dropLast_concat, chunked_append, chunked_cons, List.length_append]
        exact ⟨⟨hc.1, by omega, chunked_nil⟩, htc.2⟩
      · simp [hs, hts, hinit, htl]
        omega
      · simp [contents, hinit, htl]
    · exact ⟨happ, rfl, by simp [contents]⟩
  · exact ⟨happ, rfl, by simp [contents]⟩

structure PointsAt (m : MultiList T) (it : Iterator) (before : List (List T)) (left : List T)
    (a : T) (right : List T) (after : List (List T)) : Prop where
  lists_eq : m.lists = before ++ (left ++ a :: right) :: after
  it1_eq : it.it1 = before.length
  it2_eq : it.it2 = left.length

def Valid (m : MultiList T) (it : Iterator) : Prop :=
  (∃ list, m.lists[it.it1]? = some list ∧ it.it2 < list.length) ∨ it.it1 = m.lists.length

def index (m : MultiList T) (it : Iterator) : ℕ :=
  if it.it1 < m.lists.length then (m.lists.take it.it1).flatten.length + it.it2
  else m.contents.length

section Iterators

variable {m : MultiList T} {it : Iterator} {before after : List (List T)} {left right right' : List T} {a : T}

lemma valid_cases (h : m.Valid it) :
    (∃ before left a right after, m.PointsAt it before left a right after) ∨
      it.it1 = m.lists.length := by
  rcases h with ⟨list, hl, hlt⟩ | h
  · obtain ⟨hi, rfl⟩ := List.getElem?_eq_some_iff.mp hl
    refine Or.inl ⟨m.lists.take it.it1, m.lists[it.it1].take it.it2, m.lists[it.it1][it.it2],
      m.lists[it.it1].drop (it.it2 + 1), m.lists.drop (it.it1 + 1), ?_, ?_, ?_⟩
    · rw [List.cons_getElem_drop_succ, List.take_append_drop, List.cons_getElem_drop_succ,
        List.take_append_drop]
    · rw [List.length_take, Nat.min_eq_left (Nat.le_of_lt hi)]
    · rw [List.length_take, Nat.min_eq_left (Nat.le_of_lt hlt)]
  · exact Or.inr h

namespace PointsAt

variable (h : m.PointsAt it before left a right after)
include h

lemma chunk_eq : m.chunk it.it1 = left ++ a :: right := by
  simp [chunk, h.lists_eq, h.it1_eq]

lemma valid : m.Valid it := by
  refine Or.inl ⟨left ++ a :: right, by simp [h.lists_eq, h.it1_eq], ?_⟩
  simp only [h.it2_eq, List.length_append, List.length_cons]
  omega

lemma index_eq : m.index it = before.flatten.length + left.length := by
  simp [index, h.lists_eq, h.it1_eq, h.it2_eq]

lemma contents_eq : m.contents = (before.flatten ++ left) ++ a :: (right ++ after.flatten) := by
  simp [contents, h.lists_eq]

lemma deref_eq : m.deref it = some a := by
  simp [deref, h.lists_eq, h.it1_eq, h.it2_eq]

lemma index_lt : m.index it < m.contents.length := by
  rw [h.index_eq, h.contents_eq]
  simp only [List.length_append, List.length_cons]
  omega

end PointsAt

lemma next_inside {b : T} (h : m.PointsAt it before left a (b :: right) after) :
    m.PointsAt (m.next it) before (left ++ [a]) b right after := by
  have hn : m.next it = ⟨it.it1, it.it2 + 1⟩ := by
    rw [next, if_neg]
    simp [h.chunk_eq, h.it2_eq]
  exact ⟨by simp [h.lists_eq], by rw [hn, h.it1_eq], by simp [hn, h.it2_eq]⟩

lemma next_chunk {b : T} (h : m.PointsAt it before left a [] ((b :: right) :: after)) :
    m.PointsAt (m.next it) (before ++ [left ++ [a]]) [] b right after := by
  have hn : m.next it = ⟨it.it1 + 1, 0⟩ := by
    rw [next, if_pos (by simp [h.chunk_eq, h.it2_eq]), if_neg]
    simp [h.lists_eq, h.it1_eq]
  exact ⟨by simp [h.lists_eq], by simp [hn, h.it1_eq], by simp [hn]⟩

lemma next_end (h : m.PointsAt it before left a [] []) : m.next it = m.endIterator := by
  rw [next, if_pos (by simp [h.chunk_eq, h.it2_eq]), if_pos]
  simp [h.lists_eq, h.it1_eq]

lemma prev_inside {b : T} (h : m.PointsAt it before (left ++ [b]) a right after) :
    m.prev it = ⟨before.length, left.length⟩ := by
  rw [prev, if_neg (by simp [h.lists_eq, h.it1_eq]), if_neg (by simp [h.it2_eq]), h.it1_eq, h.it2_eq]
  simp

lemma prev_chunk (h : m.PointsAt it (before ++ [left]) [] a right after) :
    m.prev it = ⟨before.length, left.length - 1⟩ := by
  rw [prev, if_neg (by simp [h.lists_eq, h.it1_eq]), if_pos (by simp [h.it2_eq]), h.it1_eq]
  simp [chunk, h.lists_eq]

lemma prev_end (hl : m.lists = before ++ [left]) :
    m.prev m.endIterator = ⟨before.length, left.length - 1⟩ := by
  simp [prev, endIterator, chunk, hl]

lemma next_cases (hm : m.Inv) (h : m.PointsAt it before left a right after) :
    (∃ before' left' b right' after', m.PointsAt (m.next it) before' left' b right' after' ∧
      m.index (m.next it) = m.index it + 1) ∨
    (m.next it = m.endIterator ∧ m.index it + 1 = m.contents.length) := by
  cases right with
  | cons b right =>
    have hn := next_inside h
    exact Or.inl ⟨_, _, _, _, _, hn, by rw [hn.index_eq, h.index_eq]; simp; omega⟩
  | nil =>
    cases after with
    | nil =>
      refine Or.inr ⟨next_end h, ?_⟩
      rw [h.index_eq, h.contents_eq]
      simp [Nat.add_assoc]
    | cons list after =>
      obtain ⟨b, right, rfl⟩ : ∃ b right, list = b :: right := by
        have hc := hm.chunked list (by simp [h.lists_eq])
        exact List.exists_cons_of_length_pos (by omega)
      have hn := next_chunk h
      exact Or.inl ⟨_, _, _, _, _, hn, by rw [hn.index_eq, h.index_eq]; simp; omega⟩

lemma prev_next (hm : m.Inv) (h : m.PointsAt it before left a right after) :
    m.prev (m.next it) = it := by
  have hit : it = ⟨before.length, left.length⟩ := by
    rw [← h.it1_eq, ← h.it2_eq]
  cases right with
  | cons b right => rw [prev_inside (next_inside h), ← hit]
  | nil =>
    cases after with
    | nil =>
      rw [next_end h, prev_end h.lists_eq, hit]
      simp
    | cons list after =>
      obtain ⟨b, right, rfl⟩ : ∃ b right, list = b :: right := by
        have hc := hm.chunked list (by simp [h.lists_eq])
        exact List.exists_cons_of_length_pos (by omega)
      rw [prev_chunk (next_chunk h), hit]
      simp

lemma chunk_start_spec (before : List (List T)) {after : List (List T)} (hc : Chunked after) (size k : ℕ) :
    Valid ⟨before ++ after, size⟩
        ⟨before.length, if before.length ≠ (before ++ after).length then 0 else k⟩ ∧
      index ⟨before ++ after, size⟩
        ⟨before.length, if before.length ≠ (before ++ after).length then 0 else k⟩ =
          before.flatten.length := by
  cases after with
  | nil => exact ⟨Or.inr (by simp), by simp [index, contents]⟩
  | cons list after =>
    obtain ⟨b, right, rfl⟩ := List.exists_cons_of_length_pos (Nat.lt_of_succ_le (chunked_cons.mp hc).1.1)
    rw [if_pos (by simp)]
    have hp : PointsAt ⟨before ++ (b :: right) :: after, size⟩ ⟨before.length, 0⟩ before [] b right after :=
      ⟨rfl, rfl, rfl⟩
    exact ⟨hp.valid, by simp [hp.index_eq]⟩

lemma erase_spec (hm : m.Inv) (h : m.PointsAt it before left a right after) :
    (m.erase it).1.Inv ∧ (m.erase it).1.contents = m.contents.eraseIdx (m.index it) ∧
      (m.erase it).1.Valid (m.erase it).2 ∧ (m.erase it).1.index (m.erase it).2 = m.index it := by
  obtain ⟨hc, hs⟩ := inv_iff.mp hm
  simp only [h.lists_eq, chunked_append, chunked_cons, List.length_append, List.length_cons] at hc
  have hsize : m.size = (before.flatten ++ left ++ right ++ after.flatten).length + 1 := by
    rw [hs, ← contents, h.contents_eq]
    simp only [List.length_append, List.length_cons]
    omega
  have hcont : m.contents.eraseIdx (m.index it) =
      before.flatten ++ left ++ right ++ after.flatten := by
    rw [h.contents_eq, h.index_eq, ← List.length_append, List.eraseIdx_append_of_length_le le_rfl]
    simp
  have hlist : (m.chunk it.it1).eraseIdx it.it2 = left ++ right := by
    rw [h.chunk_eq, h.it2_eq, List.eraseIdx_append_of_length_le le_rfl]
    simp
  rw [hcont, h.index_eq]
  cases right with
  | cons b right =>
    have he : m.erase it = (⟨before ++ (left ++ b :: right) :: after, m.size - 1⟩, it) := by
      rw [erase, hlist, if_neg (by simp [h.it2_eq]), h.it1_eq, h.lists_eq]
      simp
    have hp : PointsAt ⟨before ++ (left ++ b :: right) :: after, m.size - 1⟩ it before left b right after :=
      ⟨rfl, h.it1_eq, h.it2_eq⟩
    rw [he]
    refine ⟨inv_iff.mpr ⟨?_, by simp [hsize]⟩, by simp [contents], hp.valid, hp.index_eq⟩
    simp only [chunked_append, chunked_cons, List.length_append, List.length_cons] at hc ⊢
    exact ⟨hc.1, by omega, hc.2.2⟩
  | nil =>
    rw [List.append_nil] at hlist ⊢
    simp only [List.append_nil] at hsize
    by_cases hleft : left = []
    · subst hleft
      have he : m.erase it = (⟨before ++ after, m.size - 1⟩,
          ⟨before.length, if before.length ≠ (before ++ after).length then 0 else it.it2⟩) := by
        rw [erase, hlist, if_pos (by simp [h.it2_eq]), h.it1_eq, h.lists_eq]
        simp
      obtain ⟨hv, hi⟩ := chunk_start_spec before hc.2.2 (m.size - 1) it.it2
      rw [he]
      exact ⟨inv_iff.mpr ⟨by simp [hc], by simp [hsize]⟩, by simp [contents], hv, hi.trans (by simp)⟩
    · have hlen : 0 < left.length := List.length_pos_of_ne_nil hleft
      have he : m.erase it = (⟨(before ++ [left]) ++ after, m.size - 1⟩,
          ⟨(before ++ [left]).length,
            if (before ++ [left]).length ≠ ((before ++ [left]) ++ after).length then 0 else it.it2⟩) := by
        rw [erase, hlist, if_pos (by simp [h.it2_eq]), h.it1_eq, h.lists_eq]
        simp [hleft]
      obtain ⟨hv, hi⟩ := chunk_start_spec (before ++ [left]) hc.2.2 (m.size - 1) it.it2
      rw [he]
      refine ⟨inv_iff.mpr ⟨?_, by simp [hsize]⟩, by simp [contents], hv, hi.trans (by simp)⟩
      simp only [chunked_append, chunked_cons]
      exact ⟨⟨hc.1, by omega, chunked_nil⟩, hc.2.2⟩

lemma spliceRange_same (hm : m.Inv) {that : MultiList T} (ht : that.Inv) {first last : Iterator}
    {middle : List T} {b : T}
    (hf : that.PointsAt first before left a right after)
    (hl : that.PointsAt last before (left ++ middle) b right' after) :
    ∃ m' that', m.spliceRange that first last = some (m', that') ∧ m'.Inv ∧ that'.Inv ∧
      m'.contents = m.contents ++ middle ∧
      that'.contents = before.flatten ++ left ++ b :: (right' ++ after.flatten) := by
  obtain ⟨hc, hs⟩ := inv_iff.mp hm
  obtain ⟨htc, hts⟩ := inv_iff.mp ht
  rw [hl.lists_eq] at htc hts
  simp only [chunked_append, chunked_cons, List.length_append, List.length_cons] at htc
  by_cases hmid : middle = []
  · subst hmid
    refine ⟨m, that, ?_, hm, ht, by simp, by simp [contents, hl.lists_eq]⟩
    simp [spliceRange, hf.it1_eq, hf.it2_eq, hl.it1_eq, hl.it2_eq, hl.lists_eq]
  · have hpos : 0 < middle.length := List.length_pos_of_ne_nil hmid
    refine ⟨⟨m.lists ++ [middle], m.size + middle.length⟩,
      ⟨before ++ [left ++ b :: right'] ++ after, that.size - middle.length⟩, ?_,
      inv_iff.mpr ⟨?_, by simp [hs]⟩, inv_iff.mpr ⟨?_, ?_⟩, by simp [contents], by simp [contents]⟩
    · simp [spliceRange, spliceInternalList, hf.it1_eq, hf.it2_eq, hl.it1_eq, hl.it2_eq, hl.lists_eq,
        hmid]
    · simp only [chunked_append, chunked_cons]
      exact ⟨hc, by omega, chunked_nil⟩
    · simp only [chunked_append, chunked_cons, List.length_append, List.length_cons]
      exact ⟨⟨htc.1, by omega, chunked_nil⟩, htc.2.2⟩
    · rw [hts]
      simp only [List.flatten_append, List.flatten_cons, List.flatten_nil, List.length_append,
        List.length_cons, List.length_nil]
      omega

lemma spliceRange_later_eq {that : MultiList T} {first last : Iterator} (middle tail : List (List T)) {cut : List T}
    {kept : List (List T)} (hf : that.PointsAt first before left a right (middle ++ tail))
    (hl : last.it1 = before.length + 1 + middle.length)
    (htail : (tail = [] ∧ cut = [] ∧ kept = []) ∨ ∃ b right' after', last.it2 = cut.length ∧
      tail = (cut ++ b :: right') :: after' ∧ kept = (b :: right') :: after') :
    m.spliceRange that first last = some
      (⟨m.lists ++ [a :: right] ++ middle ++ remainder cut,
        m.size + (a :: (right ++ (middle.flatten ++ cut))).length⟩,
      ⟨before ++ remainder left ++ kept, that.size - (a :: (right ++ (middle.flatten ++ cut))).length⟩) := by
  have hfirst : that.lists[first.it1]? = some (left ++ a :: right) := by
    simp [hf.lists_eq, hf.it1_eq]
  have hbefore : that.lists.take first.it1 = before := by simp [hf.lists_eq, hf.it1_eq]
  have hafter : that.lists.drop (first.it1 + 1) = middle ++ tail := by
    simp [hf.lists_eq, hf.it1_eq]
  have hmiddle : (middle ++ tail).take (last.it1 - (first.it1 + 1)) = middle := by
    rw [hl, hf.it1_eq, Nat.add_sub_cancel_left, List.take_left]
  have hdrop : that.lists.drop last.it1 = tail := by
    rw [hl, hf.lists_eq, Nat.add_assoc, drop_length_add_append, Nat.add_comm 1, List.drop_succ_cons,
      List.drop_left]
  have hne : first.it1 ≠ last.it1 := by rw [hl, hf.it1_eq]; omega
  have hcutFirst : (if first.it2 = 0 then (left ++ a :: right, ([] : List (List T))) else
      let (items, rest) := spliceInternalList (left ++ a :: right) first.it2 (left ++ a :: right).length
      (items, [rest])) = (a :: right, remainder left) := by
    cases left with
    | nil => simp [hf.it2_eq, remainder]
    | cons x left =>
      rw [if_neg (by simp [hf.it2_eq]), hf.it2_eq, spliceInternalList, List.take_length, List.drop_left,
        List.take_left, List.drop_length, List.append_nil]
      rfl
  have hmoved : (a :: (right ++ (middle.flatten ++ cut))).length =
      (a :: right).length + middle.flatten.length + cut.length := by
    simp only [List.length_cons, List.length_append]
    omega
  rw [hmoved]
  simp only [spliceRange, hfirst, Option.map_some, if_neg hne, hbefore, hcutFirst, hafter, hmiddle, hdrop]
  rcases htail with ⟨rfl, rfl, rfl⟩ | ⟨b, right', after', hit2, rfl, rfl⟩
  · simp [remainder]
  · cases cut with
    | nil => simp [remainder, hit2]
    | cons x cut => simp [remainder, hit2, spliceInternalList]

lemma spliceRange_later (hm : m.Inv) {that : MultiList T} (ht : that.Inv) {first last : Iterator}
    (middle tail : List (List T)) {cut : List T} {kept : List (List T)}
    (hf : that.PointsAt first before left a right (middle ++ tail))
    (hl : last.it1 = before.length + 1 + middle.length)
    (htail : (tail = [] ∧ cut = [] ∧ kept = []) ∨ ∃ b right' after', last.it2 = cut.length ∧
      tail = (cut ++ b :: right') :: after' ∧ kept = (b :: right') :: after') :
    ∃ m' that', m.spliceRange that first last = some (m', that') ∧ m'.Inv ∧ that'.Inv ∧
      m'.contents = m.contents ++ a :: (right ++ (middle.flatten ++ cut)) ∧
      that'.contents = before.flatten ++ left ++ kept.flatten := by
  obtain ⟨hc, hs⟩ := inv_iff.mp hm
  obtain ⟨htc, hts⟩ := inv_iff.mp ht
  rw [hf.lists_eq] at htc hts
  simp only [chunked_append, chunked_cons, List.length_append, List.length_cons] at htc
  refine ⟨_, _, spliceRange_later_eq middle tail hf hl htail, inv_iff.mpr ⟨?_, ?_⟩, inv_iff.mpr ⟨?_, ?_⟩, ?_, ?_⟩
  · simp only [chunked_append, chunked_cons, List.length_cons]
    refine ⟨⟨⟨hc, by omega, chunked_nil⟩, htc.2.2.1⟩, chunked_remainder ?_⟩
    rcases htail with ⟨-, rfl, -⟩ | ⟨b, right', after', -, rfl, -⟩
    · simp
    · have := htc.2.2.2
      simp only [chunked_cons, List.length_append] at this
      omega
  · simp [hs]
  · simp only [chunked_append]
    refine ⟨⟨htc.1, chunked_remainder (by omega)⟩, ?_⟩
    rcases htail with ⟨-, -, rfl⟩ | ⟨b, right', after', -, rfl, rfl⟩
    · exact chunked_nil
    · have := htc.2.2.2
      simp only [chunked_cons, List.length_append, List.length_cons] at this ⊢
      exact ⟨by omega, this.2⟩
  · have hkept : tail.flatten.length = cut.length + kept.flatten.length := by
      rcases htail with ⟨rfl, rfl, rfl⟩ | ⟨b, right', after', -, rfl, rfl⟩
      · rfl
      · simp [Nat.add_assoc]
    rw [hts]
    simp only [List.flatten_append, List.flatten_cons, remainder_flatten, List.length_append,
      List.length_cons, hkept]
    omega
  · simp [contents]
  · simp [contents]

lemma spliceRange_spec (hm : m.Inv) {that : MultiList T} (ht : that.Inv) {first last : Iterator}
    (hf : that.PointsAt first before left a right after) (hl : that.Valid last)
    (hle : that.index first ≤ that.index last) :
    ∃ m' that', m.spliceRange that first last = some (m', that') ∧ m'.Inv ∧ that'.Inv ∧
      m'.contents = m.contents ++
        (that.contents.drop (that.index first)).take (that.index last - that.index first) ∧
      that'.contents = that.contents.take (that.index first) ++ that.contents.drop (that.index last) := by
  have hfi : that.index first = (before.flatten ++ left).length := by
    rw [hf.index_eq, List.length_append]
  rcases valid_cases hl with ⟨before', left', b, right', after', hl⟩ | hend
  · have hli := hl.index_eq
    rcases prefix_or_eq_or_prefix hf.lists_eq hl.lists_eq with ⟨middle, hb⟩ | ⟨hb, hch, ha⟩ | ⟨zs, hb⟩
    · subst hb
      obtain rfl : after = middle ++ (left' ++ b :: right') :: after' := by
        simpa [hf.lists_eq] using hl.lists_eq
      have hit1 : last.it1 = before.length + 1 + middle.length := by
        simp only [hl.it1_eq, List.length_append, List.length_cons]
        omega
      obtain ⟨m', that', he, hm', ht', hc, hc'⟩ := spliceRange_later hm ht middle _ hf hit1
        (Or.inr ⟨b, right', after', hl.it2_eq, rfl, rfl⟩)
      obtain ⟨h1, h2⟩ := cut_append (j := that.index last) (a :: (right ++ (middle.flatten ++ left'))) (b :: (right' ++ after'.flatten))
        (hf.contents_eq.trans (by simp)) hfi (by simp [hli]; omega)
      exact ⟨m', that', he, hm', ht', by rw [hc, h1], by rw [hc', h2]; simp⟩
    · subst hb ha
      obtain ⟨middle, rfl⟩ : ∃ middle, left' = left ++ middle := by
        rw [hfi, hli, List.length_append] at hle
        exact (List.prefix_of_prefix_length_le ⟨a :: right, rfl⟩ ⟨b :: right', hch.symm⟩ (by omega)).imp
          fun _ h => h.symm
      obtain ⟨m', that', he, hm', ht', hc, hc'⟩ := spliceRange_same hm ht hf hl
      obtain ⟨h1, h2⟩ := cut_append (j := that.index last) middle (b :: (right' ++ after.flatten))
        (hl.contents_eq.trans (by simp)) hfi (by simp [hli]; omega)
      exact ⟨m', that', he, hm', ht', by rw [hc, h1], by rw [hc', h2]⟩
    · exfalso
      rw [hfi, hli, hb] at hle
      simp only [List.flatten_append, List.flatten_cons, List.length_append, List.length_cons] at hle
      omega
  · have hli : that.index last = that.contents.length := by simp [index, hend]
    have hit1 : last.it1 = before.length + 1 + after.length := by
      simp only [hend, hf.lists_eq, List.length_append, List.length_cons]
      omega
    obtain ⟨m', that', he, hm', ht', hc, hc'⟩ := spliceRange_later hm ht after [] (by simpa using hf) hit1
      (Or.inl ⟨rfl, rfl, rfl⟩)
    obtain ⟨h1, h2⟩ := cut_append (j := that.index last) (a :: (right ++ after.flatten)) []
      (hf.contents_eq.trans (by simp)) hfi (by rw [hli, hf.contents_eq]; simp [Nat.add_assoc])
    exact ⟨m', that', he, hm', ht', by rw [hc, h1]; simp, by rw [hc', h2]; simp⟩

end Iterators

end MultiList

end FastTransport.Containers
