import FastTransport.Containers.MultiList
import FastTransport.Lib.Runs

/-! Any sequence of operations on any number of `MultiList`s does what the same
operations do on ordinary lists. -/

namespace FastTransport.Containers.MultiList

open Lib.Runs

variable {T : Type*}

def advance (m : MultiList T) (it : Iterator) : Option Iterator :=
  if it.it1 = m.lists.length then none else some (m.next it)

def iteratorAt (m : MultiList T) : ℕ → Option Iterator
  | 0 => some m.beginIterator
  | p + 1 => (m.iteratorAt p).bind m.advance

def iterate (m : MultiList T) : ℕ → Iterator → Option (List T)
  | 0, it => if m.iteratorEq it m.endIterator then some [] else none
  | n + 1, it =>
    if m.iteratorEq it m.endIterator then some []
    else (m.deref it).bind fun x => (m.iterate n (m.next it)).map (x :: ·)

section Positions

variable {m : MultiList T} {it it' : Iterator}

lemma begin_cases (hm : m.Inv) :
    (∃ a right after, m.PointsAt m.beginIterator [] [] a right after) ∨
      (m.lists = [] ∧ m.beginIterator.it1 = m.lists.length) := by
  cases hl : m.lists with
  | nil => exact Or.inr ⟨rfl, rfl⟩
  | cons list after =>
    have hc := hm.chunked list (by simp [hl])
    obtain ⟨a, right, rfl⟩ := List.exists_cons_of_length_pos (Nat.lt_of_succ_le hc.1)
    exact Or.inl ⟨a, right, after, by simp [hl], rfl, rfl⟩

lemma begin_valid (hm : m.Inv) : m.Valid m.beginIterator ∧ m.index m.beginIterator = 0 := by
  rcases begin_cases hm with ⟨a, right, after, h⟩ | ⟨hl, h⟩
  · exact ⟨h.valid, by simp [h.index_eq]⟩
  · exact ⟨Or.inr h, by simp [index, contents, hl]⟩

lemma index_end (h : it.it1 = m.lists.length) : m.index it = m.contents.length := by
  simp [index, h]

lemma iteratorEq_end : m.iteratorEq it m.endIterator = true ↔ it.it1 = m.lists.length := by
  simp only [iteratorEq, endIterator, Bool.and_eq_true, Bool.or_eq_true, beq_iff_eq]
  exact ⟨fun h => h.1, fun h => ⟨h, Or.inr h⟩⟩

lemma next_valid (hm : m.Inv) (h : m.Valid it) (hne : it.it1 ≠ m.lists.length) :
    m.Valid (m.next it) ∧ m.index (m.next it) = m.index it + 1 := by
  obtain ⟨before, left, a, right, after, hp⟩ := (valid_cases h).resolve_right hne
  rcases next_cases hm hp with ⟨_, _, _, _, _, hn, hi⟩ | ⟨hn, hi⟩
  · exact ⟨hn.valid, hi⟩
  · rw [hn, hi]
    exact ⟨Or.inr rfl, index_end rfl⟩

lemma index_lt_iff (h : m.Valid it) : m.index it < m.contents.length ↔ it.it1 ≠ m.lists.length := by
  constructor
  · intro hlt he
    rw [index_end he] at hlt
    exact lt_irrefl _ hlt
  · intro hne
    obtain ⟨before, left, a, right, after, hp⟩ := (valid_cases h).resolve_right hne
    exact hp.index_lt

lemma iteratorAt_spec (hm : m.Inv) (p : ℕ) :
    (p ≤ m.contents.length ∧ ∃ it, m.iteratorAt p = some it ∧ m.Valid it ∧ m.index it = p) ∨
      (m.contents.length < p ∧ m.iteratorAt p = none) := by
  induction p with
  | zero => exact Or.inl ⟨Nat.zero_le _, _, rfl, begin_valid hm⟩
  | succ p ih =>
    rcases ih with ⟨hp, it, he, hv, hi⟩ | ⟨hp, he⟩
    · by_cases hend : it.it1 = m.lists.length
      · rw [index_end hend] at hi
        exact Or.inr ⟨by omega, by simp [iteratorAt, he, advance, hend]⟩
      · have hlt := (index_lt_iff hv).mpr hend
        obtain ⟨hv', hi'⟩ := next_valid hm hv hend
        refine Or.inl ⟨by omega, m.next it, ?_, hv', by omega⟩
        simp [iteratorAt, he, advance, hend]
    · exact Or.inr ⟨by omega, by simp [iteratorAt, he]⟩

lemma deref_eq_getElem (h : m.Valid it) : m.deref it = m.contents[m.index it]? := by
  rcases valid_cases h with ⟨before, left, a, right, after, hp⟩ | hend
  · rw [hp.deref_eq, hp.index_eq, hp.contents_eq, ← List.length_append]
    simp
  · rw [index_end hend]
    simp [deref, hend]

lemma iterate_spec (hm : m.Inv) (n : ℕ) (h : m.Valid it) (hn : m.contents.length ≤ m.index it + n) :
    m.iterate n it = some (m.contents.drop (m.index it)) := by
  induction n generalizing it with
  | zero =>
    have hend : it.it1 = m.lists.length := by
      by_contra hne
      have := (index_lt_iff h).mpr hne
      omega
    simp [iterate, iteratorEq_end.mpr hend, index_end hend]
  | succ n ih =>
    rw [iterate]
    by_cases hend : it.it1 = m.lists.length
    · simp [iteratorEq_end.mpr hend, index_end hend]
    · have hlt := (index_lt_iff h).mpr hend
      obtain ⟨hv', hi'⟩ := next_valid hm h hend
      rw [if_neg (by simpa [iteratorEq_end] using hend), deref_eq_getElem h,
        List.getElem?_eq_getElem hlt, Option.bind_some, ih hv' (by omega), hi', Option.map_some,
        List.getElem_cons_drop]

end Positions

structure Refines (m : MultiList T) (l : List T) : Prop where
  chunk : ∀ list ∈ m.lists, 1 ≤ list.length ∧ list.length ≤ 10
  size : m.size = l.length
  isEmpty : m.isEmpty = true ↔ l = []
  contents : m.contents = l
  iterate : m.iterate m.size m.beginIterator = some l
  prev_next : ∀ it, m.Valid it → m.iteratorEq it m.endIterator = false → m.prev (m.next it) = it
  erase_next : ∀ it, m.Valid it → m.iteratorEq it m.endIterator = false →
    (m.erase it).1.contents = l.eraseIdx (m.index it) ∧ (m.erase it).1.Valid (m.erase it).2 ∧
      (m.erase it).1.index (m.erase it).2 = m.index it ∧
      (m.erase it).1.deref (m.erase it).2 = l[m.index it + 1]?

lemma Inv.refines {m : MultiList T} (hm : m.Inv) : m.Refines m.contents where
  chunk := hm.chunked
  size := hm.size_eq
  isEmpty := hm.isEmpty_iff
  contents := rfl
  iterate := by
    obtain ⟨hv, hi⟩ := begin_valid hm
    rw [iterate_spec hm m.size hv (by rw [hm.size_eq]; omega), hi, List.drop_zero]
  prev_next it hv hne := by
    obtain ⟨_, _, _, _, _, hp⟩ := (valid_cases hv).resolve_right
      (fun h => by simp [iteratorEq_end.mpr h] at hne)
    exact MultiList.prev_next hm hp
  erase_next it hv hne := by
    obtain ⟨_, _, _, _, _, hp⟩ := (valid_cases hv).resolve_right
      (fun h => by simp [iteratorEq_end.mpr h] at hne)
    obtain ⟨-, hc, hv', hi⟩ := erase_spec hm hp
    refine ⟨hc, hv', hi, ?_⟩
    rw [deref_eq_getElem hv', hc, hi, List.getElem?_eraseIdx_of_ge le_rfl]

inductive Op (T : Type*)
  | pushBack (i : ℕ) (element : T)
  | popBack (i : ℕ)
  | splice (i j : ℕ)
  | spliceRange (i j p q : ℕ)
  | tryGenerate (i j size : ℕ)
  | erase (i p : ℕ)
  | swap (i j : ℕ)
  | moveConstruct (i j : ℕ)
  | moveAssign (i j : ℕ)

def store {A : Type*} (s : ℕ → A) (i j : ℕ) (x y : A) : ℕ → A :=
  Function.update (Function.update s i x) j y

def moveFrom (that : MultiList T) : MultiList T × MultiList T := (that, empty)

def step (s : ℕ → MultiList T) : Op T → Option (ℕ → MultiList T)
  | .pushBack i element => some (Function.update s i ((s i).pushBack element))
  | .popBack i => (s i).popBack.map (Function.update s i)
  | .splice i j =>
    if i = j then none else some (store s i j ((s i).splice (s j)).1 ((s i).splice (s j)).2)
  | .spliceRange i j p q =>
    if i = j ∨ q < p then none
    else ((s j).iteratorAt p).bind fun first => ((s j).iteratorAt q).bind fun last =>
      ((s i).spliceRange (s j) first last).map fun r => store s i j r.1 r.2
  | .tryGenerate i j size => some (store s j i ((s j).tryGenerate size).1 ((s j).tryGenerate size).2)
  | .erase i p => ((s i).iteratorAt p).bind fun it =>
    if (s i).iteratorEq it (s i).endIterator then none
    else some (Function.update s i ((s i).erase it).1)
  | .swap i j => some (store s i j (s j) (s i))
  | .moveConstruct i j | .moveAssign i j =>
    if i = j then none else some (store s i j (moveFrom (s j)).1 (moveFrom (s j)).2)

def listStep (s : ℕ → List T) : Op T → Option (ℕ → List T)
  | .pushBack i element => some (Function.update s i (s i ++ [element]))
  | .popBack i => if (s i).isEmpty then none else some (Function.update s i (s i).dropLast)
  | .splice i j => if i = j then none else some (store s i j (s i ++ s j) [])
  | .spliceRange i j p q =>
    if i = j ∨ q < p ∨ (s j).length ≤ p ∨ (s j).length < q then none
    else some (store s i j (s i ++ ((s j).drop p).take (q - p)) ((s j).take p ++ (s j).drop q))
  | .tryGenerate i j size => some (store s j i ((s j).drop size) ((s j).take size))
  | .erase i p => if p < (s i).length then some (Function.update s i ((s i).eraseIdx p)) else none
  | .swap i j => some (store s i j (s j) (s i))
  | .moveConstruct i j | .moveAssign i j => if i = j then none else some (store s i j (s j) [])

def Related (s : ℕ → MultiList T) (l : ℕ → List T) : Prop := ∀ i, (s i).Inv ∧ (s i).contents = l i

lemma Related.update {s : ℕ → MultiList T} {l : ℕ → List T} (h : Related s l) {i : ℕ}
    {m : MultiList T} {xs : List T} (hm : m.Inv ∧ m.contents = xs) :
    Related (Function.update s i m) (Function.update l i xs) := by
  intro k
  by_cases hk : k = i
  · subst hk
    simpa using hm
  · simpa [Function.update_of_ne hk] using h k

lemma Related.store {s : ℕ → MultiList T} {l : ℕ → List T} (h : Related s l) {i j : ℕ}
    {m m' : MultiList T} {xs xs' : List T} (hm : m.Inv ∧ m.contents = xs)
    (hm' : m'.Inv ∧ m'.contents = xs') : Related (store s i j m m') (store l i j xs xs') :=
  (h.update hm).update hm'

lemma empty_related : (empty : MultiList T).Inv ∧ (empty : MultiList T).contents = [] :=
  ⟨inv_empty, by simp [empty, contents]⟩

lemma pushBack_all {m : MultiList T} (hm : m.Inv) (elements : List T) :
    (elements.foldl pushBack m).Inv ∧ (elements.foldl pushBack m).contents = m.contents ++ elements := by
  induction elements generalizing m with
  | nil => exact ⟨hm, (List.append_nil _).symm⟩
  | cons a elements ih =>
    obtain ⟨hinv, hcontents⟩ := pushBack_spec hm a
    obtain ⟨hall, hc⟩ := ih hinv
    refine ⟨hall, hc.trans ?_⟩
    rw [hcontents, List.append_assoc, List.singleton_append]

lemma spliceRange_lockstep {s : ℕ → MultiList T} {l : ℕ → List T} (h : Related s l) (i j p q : ℕ) :
    Option.Rel Related (step s (.spliceRange i j p q)) (listStep l (.spliceRange i j p q)) := by
  have hlen : (l j).length = (s j).contents.length := by rw [(h j).2]
  rw [step, listStep]
  by_cases hij : i = j ∨ q < p
  · rw [if_pos hij, if_pos (hij.imp id Or.inl)]
    exact .none
  · rw [if_neg hij]
    rcases iteratorAt_spec (h j).1 p with ⟨hp, first, hf, hfv, hfi⟩ | ⟨hp, hf⟩
    · rcases iteratorAt_spec (h j).1 q with ⟨hq, last, hl, hlv, hli⟩ | ⟨hq, hl⟩
      · rw [hf, hl, Option.bind_some, Option.bind_some]
        rcases valid_cases hfv with ⟨_, _, _, _, _, hp'⟩ | hend
        · obtain ⟨m', that', he, hm', ht', hc, hc'⟩ :=
            spliceRange_spec (h i).1 (h j).1 hp' hlv (by omega)
          have hlt := hp'.index_lt
          rw [he, if_neg (by omega), Option.map_some]
          refine .some (h.store ⟨hm', ?_⟩ ⟨ht', ?_⟩)
          · rw [hc, (h i).2, (h j).2, hfi, hli]
          · rw [hc', (h j).2, hfi, hli]
        · rw [index_end hend] at hfi
          rw [if_pos (by omega)]
          simp [spliceRange, hend]
      · rw [hf, hl, if_pos (by omega)]
        exact .none
    · rw [hf, if_pos (by omega)]
      exact .none

lemma step_lockstep (s : ℕ → MultiList T) (l : ℕ → List T) (op : Op T) (h : Related s l) :
    Option.Rel Related (step s op) (listStep l op) := by
  cases op with
  | pushBack i element =>
    obtain ⟨hm, hc⟩ := pushBack_spec (h i).1 element
    exact .some (h.update ⟨hm, by rw [hc, (h i).2]⟩)
  | popBack i =>
    rcases popBack_spec (h i).1 with ⟨hc, hp⟩ | ⟨m', hp, hm', hne, hc⟩
    · rw [(h i).2] at hc
      rw [step, listStep, hp, hc]
      exact .none
    · rw [(h i).2] at hne hc
      rw [step, listStep, hp, if_neg (by simpa using hne)]
      exact .some (h.update ⟨hm', hc⟩)
  | splice i j =>
    rw [step, listStep]
    split_ifs with hij
    · exact .none
    · obtain ⟨hm, he, hc⟩ := splice_spec (h i).1 (h j).1
      refine .some (h.store ⟨hm, by rw [hc, (h i).2, (h j).2]⟩ ?_)
      rw [he]
      exact empty_related
  | spliceRange i j p q => exact spliceRange_lockstep h i j p q
  | tryGenerate i j size =>
    obtain ⟨hm, hm', hc, hc'⟩ := tryGenerate_spec (h j).1 size
    exact .some (h.store ⟨hm, by rw [hc, (h j).2]⟩ ⟨hm', by rw [hc', (h j).2]⟩)
  | erase i p =>
    rw [step, listStep, ← (h i).2]
    rcases iteratorAt_spec (h i).1 p with ⟨hp, it, he, hv, hi⟩ | ⟨hp, he⟩
    · rw [he, Option.bind_some]
      rcases valid_cases hv with ⟨_, _, _, _, _, hp'⟩ | hend
      · have hlt := hp'.index_lt
        have hne := (index_lt_iff hv).mp hlt
        obtain ⟨hm, hc, -⟩ := erase_spec (h i).1 hp'
        rw [if_neg (by simpa [iteratorEq_end] using hne), if_pos (by omega)]
        exact .some (h.update ⟨hm, by rw [hc, hi]⟩)
      · rw [index_end hend] at hi
        rw [if_pos (iteratorEq_end.mpr hend), if_neg (by omega)]
        exact .none
    · rw [he, if_neg (by omega)]
      exact .none
  | swap i j => exact .some (h.store (h j) (h i))
  | moveConstruct i j | moveAssign i j =>
    simp only [step, listStep]
    split_ifs with hij
    · exact .none
    · exact .some (h.store (h j) empty_related)

theorem refines_list (ops : List (Op T)) :
    Option.Rel (fun s l => ∀ i, Refines (s i) (l i)) (run step (fun _ => empty) ops)
      (run listStep (fun _ => []) ops) := by
  refine rel_mono (fun s l h i => ?_) (run_lockstep step_lockstep (fun _ => empty_related) ops)
  rw [← (h i).2]
  exact (h i).1.refines

end FastTransport.Containers.MultiList
