import FastTransport.FileSystem.Leaf

/-! The ranges of one block: what `AddData` does to a block that is already there, and the packets a leaf
holds before and after. -/

namespace FastTransport.FileSystem

def packetCount (ranges : List Range) : ℕ := (ranges.flatMap Range.packets).length

def Sorted (ranges : List Range) : Prop := ranges.Pairwise fun a b => a.offset ≤ b.offset

/-- A range of one packet already starts at the offset: the set refuses the new one, and its packets are
neither kept nor given back. -/
def collides (ranges : List Range) (offset size : ℕ) : Bool :=
  ((ranges.takeWhile fun r => r.offset ≤ offset).getLast?.any fun prev =>
    prev.offset = offset && prev.size ≠ 0 && prev.packets.length ≤ 1) &&
  !(ranges.dropWhile fun r => r.offset ≤ offset).head?.any fun next => next.offset = offset + size

/-- The overlap with the range before is counted in packets of its first payload's size: the division is
undefined when that payload is empty. -/
def dividesByZero (ranges : List Range) (offset size : ℕ) : Bool :=
  ((ranges.takeWhile fun r => r.offset ≤ offset).getLast?.any fun prev =>
    offset < prev.offset + prev.size && 1 < prev.packets.length &&
      (prev.packets.head?.map fun p => p.payload.length).getD 0 = 0) &&
  !(ranges.dropWhile fun r => r.offset ≤ offset).head?.any fun next => next.offset = offset + size

def givesBack (before after : List Range) (offset size : ℕ) (data : List CachedPacket) : Bool :=
  !(after.head?.any fun next => next.offset = offset + size) &&
    match before.getLast? with
    | none => after.head?.any fun next => next.offset + next.size ≤ offset + size && next.packets ≠ []
    | some prev => offset < prev.offset + prev.size && 1 < prev.packets.length &&
      (prev.packets.head?.map fun p => p.payload.length).getD 0 ≠ 0 && data ≠ []

lemma forall_mem_middle {P : Range → Prop} {B A : List Range} {m : Range} (hB : ∀ r ∈ B, P r) (hm : P m)
    (hA : ∀ r ∈ A, P r) : ∀ r ∈ B ++ m :: A, P r := by
  intro r hr
  rcases List.mem_append.mp hr with hr | hr
  · exact hB r hr
  rcases List.mem_cons.mp hr with rfl | hr
  · exact hm
  · exact hA r hr

lemma any_offset_iff {before : List Range} (hs : Sorted before) {offset : ℕ} (hle : ∀ r ∈ before, r.offset ≤ offset) :
    (before.any fun r => r.offset = offset) = true ↔
      ∃ prev, before.getLast? = some prev ∧ prev.offset = offset := by
  rcases List.eq_nil_or_concat before with rfl | ⟨init, prev, rfl⟩
  · simp
  · rw [List.concat_eq_append] at *
    rw [List.getLast?_concat, List.any_eq_true]
    constructor
    · rintro ⟨r, hr, ho⟩
      have ho' : r.offset = offset := of_decide_eq_true ho
      refine ⟨prev, rfl, le_antisymm (hle prev (List.mem_append_right _ List.mem_cons_self)) ?_⟩
      rcases List.mem_append.mp hr with hr | hr
      · rw [← ho']
        exact (List.pairwise_append.mp hs).2.2 r hr prev List.mem_cons_self
      · rw [← ho', List.mem_singleton.mp hr]
    · rintro ⟨r, hr, ho⟩
      cases hr
      exact ⟨prev, List.mem_append_right _ List.mem_cons_self, decide_eq_true ho⟩

/-- The branches of `AddData` with their guards, `before` being the ranges that start at or before the offset. -/
inductive AddBranch (before after : List Range) (id offset size : ℕ) (data : List CachedPacket) :
    List CachedPacket × List Range → Prop
  | bridge (init : List Range) (prev next : Range) (rest : List Range) : before = init ++ [prev] →
      after = next :: rest → next.offset = offset + size → prev.offset + prev.size = offset →
      AddBranch before after id offset size data ([], init ++
        { prev with packets := prev.packets ++ (data ++ next.packets), size := prev.size + size + next.size } :: rest)
  | join (next : Range) (rest : List Range) : after = next :: rest → next.offset = offset + size →
      (∀ prev, before.getLast? = some prev → prev.offset + prev.size ≠ offset) →
      AddBranch before after id offset size data ([], before ++
        { next with packets := data ++ next.packets, size := next.size + size, offset := offset } :: rest)
  | replace (next : Range) (rest : List Range) : before = [] → after = next :: rest →
      next.offset ≠ offset + size → offset ≤ next.offset → next.offset + next.size ≤ offset + size →
      AddBranch before after id offset size data (next.packets, Range.create id offset size data :: rest)
  | append (init : List Range) (prev : Range) : before = init ++ [prev] → prev.offset + prev.size = offset →
      (∀ next, after.head? = some next → next.offset ≠ offset + size) →
      AddBranch before after id offset size data ([], init ++
        { prev with packets := prev.packets ++ data, size := prev.size + size } :: after)
  | overlap (init : List Range) (prev : Range) (payloadSize skipped : ℕ) : before = init ++ [prev] →
      offset < prev.offset + prev.size → 1 < prev.packets.length →
      payloadSize = (prev.packets.head?.map fun p => p.payload.length).getD 0 →
      skipped = (prev.offset + prev.size - offset + payloadSize - 1) / payloadSize →
      (∀ next, after.head? = some next → next.offset ≠ offset + size) →
      AddBranch before after id offset size data (data.take skipped, init ++
        { prev with packets := prev.packets ++ data.drop skipped
                    size := prev.size + size - (prev.offset + prev.size - offset) } :: after)
  | refuse (init : List Range) (prev : Range) : before = init ++ [prev] → prev.offset = offset →
      prev.size ≠ 0 → prev.packets.length ≤ 1 → (∀ next, after.head? = some next → next.offset ≠ offset + size) →
      AddBranch before after id offset size data ([], before ++ after)
  | insert : (∀ prev, before.getLast? = some prev → prev.offset ≠ offset ∧
        (prev.offset + prev.size < offset ∨ offset < prev.offset + prev.size ∧ prev.packets.length ≤ 1)) →
      (∀ next, after.head? = some next → next.offset ≠ offset + size) →
      (before = [] → ∀ next, after.head? = some next → offset ≤ next.offset →
        offset + size < next.offset + next.size) →
      AddBranch before after id offset size data ([], before ++ Range.create id offset size data :: after)

lemma addRange_branch {ranges before after : List Range} (hs : Sorted ranges) (id offset size : ℕ)
    (data : List CachedPacket) (hb : before = ranges.takeWhile fun r => r.offset ≤ offset)
    (ha : after = ranges.dropWhile fun r => r.offset ≤ offset) :
    AddBranch before after id offset size data (addRange ranges id offset size data) := by
  have hle : ∀ r ∈ before, r.offset ≤ offset := fun r hr => by
    rw [hb] at hr
    simpa using List.mem_takeWhile_imp hr
  have hbefore : Sorted before := hb ▸ List.Pairwise.sublist (List.takeWhile_sublist _) hs
  have hany := any_offset_iff hbefore hle
  have hsplit : before ++ after = ranges := by rw [hb, ha, List.takeWhile_append_dropWhile]
  rw [addRange, ← hb, ← ha]
  dsimp only
  rcases List.eq_nil_or_concat before with rfl | ⟨init, prev, rfl⟩
  · cases after with
    | nil => exact .insert (by simp) (by simp) (by simp)
    | cons next rest =>
      simp only [List.getLast?_nil]
      split_ifs with hadj hin
      · exact .join next rest rfl hadj (by simp)
      · exact .replace next rest rfl rfl hadj hin.1 hin.2
      · refine .insert (by simp) (by simpa using hadj) fun _ n hn ho => ?_
        cases Option.some.inj hn
        exact not_le.mp fun h => hin ⟨ho, h⟩
  · rw [List.concat_eq_append] at *
    have hprev : ((init ++ [prev]).any fun r => decide (r.offset = offset)) = true ↔ prev.offset = offset := by
      rw [hany, List.getLast?_concat]
      simp
    have hin : prev.offset ≤ offset := hle prev (List.mem_append_right _ List.mem_cons_self)
    simp only [List.getLast?_concat, List.dropLast_concat, hprev]
    have hinsert (h : prev.offset ≠ offset ∧
        (prev.offset + prev.size < offset ∨ offset < prev.offset + prev.size ∧ prev.packets.length ≤ 1)) :
        ∀ p, (init ++ [prev]).getLast? = some p → p.offset ≠ offset ∧
          (p.offset + p.size < offset ∨ offset < p.offset + p.size ∧ p.packets.length ≤ 1) := fun p hp => by
      rw [List.getLast?_concat] at hp
      cases hp
      exact h
    by_cases hadj : ∀ next, after.head? = some next → next.offset ≠ offset + size
    · rcases after with _ | ⟨next, rest⟩
      on_goal 1 => dsimp only
      on_goal 2 => simp only [if_neg (hadj next rfl)]
      all_goals
        split_ifs with h1 h2 h3 h4 h4
        · exact .append init prev rfl h2 hadj
        · exact .overlap init prev _ _ rfl (by omega) h3 rfl rfl hadj
        · rw [← hsplit]
          exact .refuse init prev rfl h4 (by omega) (by omega) hadj
        · exact .insert (hinsert ⟨h4, Or.inr ⟨by omega, by omega⟩⟩) hadj (by simp)
        · omega
        · exact .insert (hinsert ⟨h4, Or.inl (by omega)⟩) hadj (by simp)
    · cases after with
      | nil => simp at hadj
      | cons next rest =>
        have hnext : next.offset = offset + size := by simpa using hadj
        simp only [if_pos hnext]
        split_ifs with hend
        · exact .bridge init prev next rest rfl rfl hnext hend
        · refine .join next rest rfl hnext fun p hp => ?_
          rw [List.getLast?_concat] at hp
          cases hp
          exact hend

inductive AddOutcome (before after : List Range) (id offset size : ℕ) (data : List CachedPacket) :
    List CachedPacket × List Range → Prop
  | inserted : AddOutcome before after id offset size data
      ([], before ++ Range.create id offset size data :: after)
  | replaced (next : Range) (rest : List Range) : before = [] → after = next :: rest →
      AddOutcome before after id offset size data (next.packets, Range.create id offset size data :: rest)
  | joined (next : Range) (rest : List Range) : after = next :: rest →
      AddOutcome before after id offset size data ([], before ++
        { next with packets := data ++ next.packets, size := next.size + size, offset := offset } :: rest)
  | bridged (init : List Range) (prev next : Range) (rest : List Range) : before = init ++ [prev] →
      after = next :: rest → AddOutcome before after id offset size data ([], init ++
        { prev with packets := prev.packets ++ (data ++ next.packets), size := prev.size + size + next.size } :: rest)
  | extended (init : List Range) (prev : Range) (skipped newSize : ℕ) : before = init ++ [prev] →
      AddOutcome before after id offset size data (data.take skipped, init ++
        { prev with packets := prev.packets ++ data.drop skipped, size := newSize } :: after)

lemma collides_eq {ranges before after : List Range} {offset size : ℕ}
    (hb : before = ranges.takeWhile fun r => r.offset ≤ offset)
    (ha : after = ranges.dropWhile fun r => r.offset ≤ offset) :
    collides ranges offset size =
      ((before.getLast?.any fun prev =>
        prev.offset = offset && prev.size ≠ 0 && prev.packets.length ≤ 1) &&
      !after.head?.any fun next => next.offset = offset + size) := by
  rw [collides, hb, ha]

lemma addRange_outcome {ranges before after : List Range} (hs : Sorted ranges) (id offset size : ℕ)
    (data : List CachedPacket) (hb : before = ranges.takeWhile fun r => r.offset ≤ offset)
    (ha : after = ranges.dropWhile fun r => r.offset ≤ offset) :
    (collides ranges offset size = true ∧ addRange ranges id offset size data = ([], ranges)) ∨
    (collides ranges offset size = false ∧
      AddOutcome before after id offset size data (addRange ranges id offset size data)) := by
  have hsplit : before ++ after = ranges := by rw [hb, ha, List.takeWhile_append_dropWhile]
  have hbranch := addRange_branch hs id offset size data hb ha
  rw [collides_eq hb ha]
  generalize addRange ranges id offset size data = result at hbranch ⊢
  cases hbranch with
  | bridge init prev next rest hb ha hadj _ =>
    exact Or.inr ⟨by simp [ha, hadj], .bridged init prev next rest hb ha⟩
  | join next rest ha hadj _ => exact Or.inr ⟨by simp [ha, hadj], .joined next rest ha⟩
  | replace next rest hb ha _ _ _ => exact Or.inr ⟨by simp [hb], .replaced next rest hb ha⟩
  | append init prev hb hend _ =>
    refine Or.inr ⟨?_, by simpa using AddOutcome.extended init prev 0 (prev.size + size) hb⟩
    rw [hb, List.getLast?_concat, Bool.and_eq_false_iff]
    left
    simp
    omega
  | overlap init prev payloadSize skipped hb _ hlen _ _ _ =>
    refine Or.inr ⟨?_, .extended init prev _ _ hb⟩
    rw [hb, List.getLast?_concat, Bool.and_eq_false_iff]
    left
    simp
    omega
  | refuse init prev hb ho hsize hlen hadj =>
    refine Or.inl ⟨?_, by rw [hsplit]⟩
    have hnone : (after.head?.any fun next => decide (next.offset = offset + size)) = false :=
      by
        cases hn : after.head? with
        | none => rfl
        | some next => simpa using hadj next hn
    rw [hnone, hb, List.getLast?_concat]
    simp [ho, hsize, hlen]
  | insert hprev _ _ =>
    refine Or.inr ⟨?_, .inserted⟩
    have hnone : (before.getLast?.any fun prev =>
        prev.offset = offset && prev.size ≠ 0 && prev.packets.length ≤ 1) = false := by
      cases hp : before.getLast? with
      | none => rfl
      | some prev => simp [(hprev prev hp).1]
    rw [hnone, Bool.false_and]

lemma AddOutcome.packets_perm {before after : List Range} {id offset size : ℕ} {data : List CachedPacket}
    {r : List CachedPacket × List Range} (h : AddOutcome before after id offset size data r) :
    (r.2.flatMap Range.packets ++ r.1).Perm ((before ++ after).flatMap Range.packets ++ data) := by
  apply List.perm_iff_count.mpr
  intro p
  cases h with
  | inserted =>
    simp only [List.flatMap_append, List.flatMap_cons, List.count_append, Range.create, List.count_nil]
    omega
  | replaced next rest hb ha =>
    subst hb ha
    simp only [List.nil_append, List.flatMap_cons, List.count_append, Range.create]
    omega
  | joined next rest ha =>
    subst ha
    simp only [List.flatMap_append, List.flatMap_cons, List.count_append, List.count_nil]
    omega
  | bridged init prev next rest hb ha =>
    subst hb ha
    simp only [List.flatMap_append, List.flatMap_cons, List.flatMap_nil, List.count_append, List.count_nil]
    omega
  | extended init prev skipped newSize hb =>
    subst hb
    have hdata := congrArg (List.count p) (List.take_append_drop skipped data)
    rw [List.count_append] at hdata
    simp only [List.flatMap_append, List.flatMap_cons, List.flatMap_nil, List.count_append, List.count_nil]
    omega

lemma addRange_of_collides {ranges : List Range} (hs : Sorted ranges) {id offset size : ℕ} {data : List CachedPacket}
    (hc : collides ranges offset size = true) : addRange ranges id offset size data = ([], ranges) := by
  rcases addRange_outcome hs id offset size data rfl rfl with ⟨-, hr⟩ | ⟨hc', -⟩
  · exact hr
  · cases hc.symm.trans hc'

lemma addRange_packets_perm {ranges : List Range} (hs : Sorted ranges) {offset size : ℕ}
    (hc : collides ranges offset size = false) (id : ℕ) (data : List CachedPacket) :
    ((addRange ranges id offset size data).2.flatMap Range.packets ++ (addRange ranges id offset size data).1).Perm
      (ranges.flatMap Range.packets ++ data) := by
  rcases addRange_outcome hs id offset size data rfl rfl with ⟨hc', -⟩ | ⟨-, ho⟩
  · cases hc.symm.trans hc'
  · have hperm := ho.packets_perm
    rwa [List.takeWhile_append_dropWhile] at hperm

lemma addRange_packetCount {ranges : List Range} (hs : Sorted ranges) (id offset size : ℕ)
    (data : List CachedPacket) :
    packetCount (addRange ranges id offset size data).2 + (addRange ranges id offset size data).1.length +
        (if collides ranges offset size then data.length else 0) = packetCount ranges + data.length := by
  cases hc : collides ranges offset size with
  | true =>
    rw [addRange_of_collides hs hc, if_pos rfl]
    rfl
  | false =>
    have hlen := (addRange_packets_perm hs hc id data).length_eq
    rw [List.length_append, List.length_append] at hlen
    exact hlen

lemma sorted_iff {ranges : List Range} : Sorted ranges ↔ (ranges.map Range.offset).Pairwise (· ≤ ·) :=
  List.pairwise_map.symm

lemma Sorted.insert {before after : List Range} {r : Range} (h : Sorted (before ++ after))
    (hb : ∀ x ∈ before, x.offset ≤ r.offset) (ha : ∀ x ∈ after, r.offset ≤ x.offset) :
    Sorted (before ++ r :: after) := by
  obtain ⟨h1, h2, h3⟩ := List.pairwise_append.mp h
  refine List.pairwise_append.mpr ⟨h1, List.pairwise_cons.mpr ⟨ha, h2⟩, fun x hx y hy => ?_⟩
  rcases List.mem_cons.mp hy with rfl | hy
  · exact hb x hx
  · exact h3 x hx y hy

lemma Sorted.lt_dropWhile {ranges : List Range} (hs : Sorted ranges) {offset : ℕ} :
    ∀ r ∈ ranges.dropWhile fun r => r.offset ≤ offset, offset < r.offset := by
  have hafter : Sorted (ranges.dropWhile fun r => r.offset ≤ offset) :=
    List.Pairwise.sublist (List.dropWhile_sublist _) hs
  have hhead := List.head?_dropWhile_not (fun r : Range => decide (r.offset ≤ offset)) ranges
  cases hd : ranges.dropWhile fun r => decide (r.offset ≤ offset) with
  | nil => exact fun r hr => absurd hr List.not_mem_nil
  | cons next rest =>
    rw [hd] at hafter hhead
    have hnext : offset < next.offset := by simpa using hhead
    intro r hr
    rcases List.mem_cons.mp hr with rfl | hr
    · exact hnext
    · exact lt_of_lt_of_le hnext ((List.pairwise_cons.mp hafter).1 r hr)

lemma addRange_sorted {ranges : List Range} (hs : Sorted ranges) (id offset size : ℕ) (data : List CachedPacket) :
    Sorted (addRange ranges id offset size data).2 := by
  have hsplit := List.takeWhile_append_dropWhile (p := fun r : Range => decide (r.offset ≤ offset)) (l := ranges)
  have hle : ∀ r ∈ ranges.takeWhile fun r => r.offset ≤ offset, r.offset ≤ offset := fun r hr => by
    simpa using List.mem_takeWhile_imp hr
  have hlt : ∀ r ∈ ranges.dropWhile fun r => r.offset ≤ offset, offset < r.offset := hs.lt_dropWhile
  rcases addRange_outcome hs id offset size data rfl rfl with ⟨-, hr⟩ | ⟨-, ho⟩
  · rw [hr]
    exact hs
  · generalize (ranges.takeWhile fun r => r.offset ≤ offset) = before at *
    generalize (ranges.dropWhile fun r => r.offset ≤ offset) = after at *
    generalize addRange ranges id offset size data = result at *
    subst hsplit
    cases ho with
    | inserted => exact hs.insert hle fun r hr => (hlt r hr).le
    | replaced next rest hb ha =>
      subst hb ha
      have hrest : Sorted ([] ++ rest) := List.Pairwise.sublist (List.sublist_cons_self next rest) hs
      exact hrest.insert hle fun r hr => (hlt r (List.mem_cons_of_mem _ hr)).le
    | joined next rest ha =>
      subst ha
      have hrest : Sorted (before ++ rest) :=
        List.Pairwise.sublist ((List.sublist_cons_self next rest).append_left before) hs
      exact hrest.insert hle fun r hr => (hlt r (List.mem_cons_of_mem _ hr)).le
    | bridged init prev next rest hb ha =>
      subst hb ha
      rw [sorted_iff] at hs ⊢
      simp only [List.map_append, List.map_cons, List.append_assoc, List.singleton_append] at hs ⊢
      refine hs.sublist ((List.sublist_cons_self _ _).cons_cons _ |>.append_left _)
    | extended init prev skipped newSize hb =>
      subst hb
      rw [sorted_iff] at hs ⊢
      simpa using hs

lemma take_overlap_eq_nil_iff {overlap payloadSize : ℕ} (h : 0 < overlap) (data : List CachedPacket) :
    data.take ((overlap + payloadSize - 1) / payloadSize) = [] ↔ payloadSize = 0 ∨ data = [] := by
  rw [List.take_eq_nil_iff, Nat.div_eq_zero_iff]
  have hlt : ¬ overlap + payloadSize - 1 < payloadSize := by omega
  tauto

lemma AddBranch.fst_eq_nil_iff {before after : List Range} {id offset size : ℕ} {data : List CachedPacket}
    {result : List CachedPacket × List Range} (h : AddBranch before after id offset size data result)
    (hlt : ∀ r ∈ after, offset < r.offset) : result.1 = [] ↔ givesBack before after offset size data = false := by
  have hhead (hadj : ∀ next, after.head? = some next → next.offset ≠ offset + size) :
      (after.head?.any fun next => next.offset = offset + size) = false := by
    rw [Option.any_eq_false]
    exact fun next hn => decide_eq_false (hadj next hn)
  cases h with
  | bridge init prev next rest _ ha hadj _ => simp [givesBack, ha, hadj]
  | join next rest ha hadj _ => simp [givesBack, ha, hadj]
  | replace next rest hb ha hne _ hend => simp [givesBack, hb, ha, hne, hend]
  | append init prev hb hend hadj => simp [givesBack, hhead hadj, hb, hend]
  | overlap init prev payloadSize skipped hb hend hlen hp hs hadj =>
    rw [hs, take_overlap_eq_nil_iff (Nat.sub_pos_of_lt hend), hp]
    simp [givesBack, hhead hadj, hb, hend, hlen]
    tauto
  | refuse init prev hb _ _ hlen hadj => simp [givesBack, hhead hadj, hb, hlen]
  | insert hprev hadj hnot =>
    refine iff_of_true rfl ?_
    rcases List.eq_nil_or_concat before with rfl | ⟨init, prev, rfl⟩
    · cases after with
      | nil => rfl
      | cons next rest =>
        have hend := hnot rfl next rfl (hlt next List.mem_cons_self).le
        simp [givesBack, hend]
    · rw [List.concat_eq_append] at hprev ⊢
      rcases (hprev prev (List.getLast?_concat)).2 with hend | ⟨-, hlen⟩
      · simp [givesBack, hhead hadj, hend.le]
      · simp [givesBack, hhead hadj, hlen]

namespace Leaf

variable {J : Type}

/-- Requests, responses and pending jobs of the blocks stay as they are. -/
def invalidateDataCache (leaf : Leaf J) : Leaf J :=
  { leaf with data := [], piecesStatus := .create (leaf.size / blockSize + 1) }

def dividesByZero (leaf : Leaf J) (offset size : ℕ) : Bool :=
  (leaf.findBlock (offset / blockSize)).any fun ranges => FileSystem.dividesByZero ranges offset size

/-- `none` when `AddData` has no defined result. -/
def tryAddData (leaf : Leaf J) (id offset size : ℕ) (data : List CachedPacket) : Option (List CachedPacket × Leaf J) :=
  if leaf.dividesByZero offset size then none else some (leaf.addData id offset size data)

lemma tryAddData_eq_some {leaf : Leaf J} {id offset size : ℕ} {data : List CachedPacket}
    {r : List CachedPacket × Leaf J} :
    leaf.tryAddData id offset size data = some r ↔
      leaf.dividesByZero offset size = false ∧ leaf.addData id offset size data = r := by
  rw [tryAddData]
  cases leaf.dividesByZero offset size with
  | true => simp
  | false => simp

structure Ordered (leaf : Leaf J) : Prop where
  keys : leaf.KeysNodup
  sorted : ∀ e ∈ leaf.data, Sorted e.2

lemma length_packets_insertBlock (leaf : Leaf J) (index : ℕ) (ranges : List Range) :
    (leaf.insertBlock index ranges).packets.length = packetCount ranges + leaf.packets.length := by
  simp [packets, insertBlock, packetCount]

lemma packets_eraseBlock_perm {leaf : Leaf J} (hk : leaf.KeysNodup) {index : ℕ} {ranges : List Range}
    (hf : leaf.findBlock index = some ranges) :
    (ranges.flatMap Range.packets ++ (leaf.eraseBlock index).packets).Perm leaf.packets := by
  obtain ⟨l₁, l₂, hl⟩ := List.append_of_mem (mem_of_findBlock hf)
  have hfilter : (leaf.eraseBlock index).data = l₁ ++ l₂ := by
    rw [KeysNodup, hl, List.map_append, List.map_cons] at hk
    have h₁ : ∀ e ∈ l₁, e.1 ≠ index := fun e he hi =>
      List.disjoint_of_nodup_append hk (List.mem_map_of_mem he) (by rw [hi]; exact List.mem_cons_self)
    have h₂ : ∀ e ∈ l₂, e.1 ≠ index := fun e he hi =>
      (List.nodup_cons.mp (List.nodup_append.mp hk).2.1).1 (List.mem_map.mpr ⟨e, he, hi⟩)
    rw [eraseBlock, hl, List.filter_append, List.filter_cons_of_neg (by simp),
      List.filter_eq_self.mpr fun e he => by simpa using h₁ e he,
      List.filter_eq_self.mpr fun e he => by simpa using h₂ e he]
  rw [packets, packets, hfilter, hl, List.flatMap_append, List.flatMap_append, List.flatMap_cons]
  exact List.perm_append_comm_assoc _ _ _

def GivesBack (leaf : Leaf J) (offset size : ℕ) (data : List CachedPacket) : Prop :=
  ∃ ranges, leaf.findBlock (offset / blockSize) = some ranges ∧
    FileSystem.givesBack (ranges.takeWhile fun r => r.offset ≤ offset) (ranges.dropWhile fun r => r.offset ≤ offset)
      offset size data = true

lemma givesBack_iff {leaf : Leaf J} (h : leaf.Ordered) (id offset size : ℕ) (data : List CachedPacket) :
    leaf.GivesBack offset size data ↔ (leaf.addData id offset size data).1 ≠ [] := by
  rw [addData, GivesBack]
  cases hf : leaf.findBlock (offset / blockSize) with
  | none => simp
  | some ranges =>
    have hs := h.sorted _ (mem_of_findBlock hf)
    have hiff := (addRange_branch hs id offset size data rfl rfl).fst_eq_nil_iff hs.lt_dropWhile
    simp only [Option.some.injEq, exists_eq_left']
    rw [Ne, hiff, Bool.not_eq_false]

def lostPackets (leaf : Leaf J) (offset size : ℕ) (data : List CachedPacket) : ℕ :=
  match leaf.findBlock (offset / blockSize) with
  | some ranges => if collides ranges offset size then data.length else 0
  | none => 0

lemma length_packets_addData {leaf : Leaf J} (h : leaf.Ordered) (id offset size : ℕ) (data : List CachedPacket) :
    (leaf.addData id offset size data).2.packets.length + (leaf.addData id offset size data).1.length +
      leaf.lostPackets offset size data = leaf.packets.length + data.length := by
  rw [addData, lostPackets]
  cases hf : leaf.findBlock (offset / blockSize) with
  | none =>
    change (leaf.insertBlock _ _).packets.length + _ + _ = _
    rw [length_packets_insertBlock]
    simp [packetCount, Range.create]
    omega
  | some ranges =>
    have hsorted : Sorted ranges := h.sorted _ (mem_of_findBlock hf)
    have hcount := addRange_packetCount hsorted id offset size data
    have herase := (packets_eraseBlock_perm h.keys hf).length_eq
    rw [List.length_append] at herase
    simp only
    rw [length_packets_insertBlock]
    simp only [packetCount] at hcount ⊢
    omega

lemma Ordered.addData {leaf : Leaf J} (h : leaf.Ordered) (id offset size : ℕ) (data : List CachedPacket) :
    (leaf.addData id offset size data).2.Ordered := by
  rw [Leaf.addData]
  cases hf : leaf.findBlock (offset / blockSize) with
  | none =>
    refine ⟨h.keys.insertBlock _ hf, fun e he => ?_⟩
    rcases List.mem_cons.mp he with rfl | he
    · exact List.pairwise_singleton _ _
    · exact h.sorted e he
  | some ranges =>
    have hnone : (leaf.eraseBlock (offset / blockSize)).findBlock (offset / blockSize) = none := by
      rw [findBlock_eraseBlock, if_pos rfl]
    refine ⟨(h.keys.eraseBlock _).insertBlock _ hnone, fun e he => ?_⟩
    rcases List.mem_cons.mp he with rfl | he
    · exact addRange_sorted (h.sorted _ (mem_of_findBlock hf)) _ _ _ _
    · exact h.sorted e (List.mem_of_mem_filter he)

lemma packets_addData_perm {leaf : Leaf J} (h : leaf.Ordered) (id offset size : ℕ) (data : List CachedPacket) :
    ((leaf.addData id offset size data).2.packets ++ ((leaf.addData id offset size data).1 ++
      if leaf.lostPackets offset size data = 0 then [] else data)).Perm (leaf.packets ++ data) := by
  rw [addData, lostPackets]
  cases hf : leaf.findBlock (offset / blockSize) with
  | none =>
    change (([Range.create id offset size data].flatMap Range.packets ++ leaf.packets) ++ []).Perm _
    rw [List.flatMap_singleton, List.append_nil]
    exact List.perm_append_comm
  | some ranges =>
    have herase := packets_eraseBlock_perm h.keys hf
    have hsorted : Sorted ranges := h.sorted _ (mem_of_findBlock hf)
    change ((_ ++ (leaf.eraseBlock _).packets) ++ (_ ++ if (if _ then _ else _) = 0 then _ else _)).Perm _
    apply List.perm_iff_count.mpr
    intro p
    have hcount := herase.count_eq p
    cases hc : collides ranges offset size with
    | true =>
      have hdata : (if data.length = 0 then [] else data) = data := by
        split_ifs with hnil
        · exact (List.length_eq_zero_iff.mp hnil).symm
        · rfl
      rw [if_pos rfl, hdata]
      simp only [addRange_of_collides hsorted hc, List.count_append, List.count_nil] at hcount ⊢
      omega
    | false =>
      have hrange := (addRange_packets_perm hsorted hc id data).count_eq p
      rw [if_neg Bool.false_ne_true, if_pos rfl, List.append_nil]
      simp only [List.count_append] at hcount hrange ⊢
      omega

lemma packets_extractBlock_perm {leaf : Leaf J} (hk : leaf.KeysNodup) (index : ℕ) :
    ((leaf.extractBlock index).2.1 ++ (leaf.extractBlock index).2.2.packets).Perm leaf.packets := by
  rw [extractBlock]
  cases hf : leaf.findBlock index with
  | none => exact List.Perm.refl _
  | some ranges => exact packets_eraseBlock_perm hk hf

lemma length_packets_extractBlock {leaf : Leaf J} (hk : leaf.KeysNodup) (index : ℕ) :
    (leaf.extractBlock index).2.2.packets.length + (leaf.extractBlock index).2.1.length = leaf.packets.length := by
  have hlen := (packets_extractBlock_perm hk index).length_eq
  rw [List.length_append] at hlen
  omega

lemma Ordered.extractBlock {leaf : Leaf J} (h : leaf.Ordered) (index : ℕ) : (leaf.extractBlock index).2.2.Ordered := by
  rw [Leaf.extractBlock]
  cases hf : leaf.findBlock index with
  | none => exact h
  | some ranges => exact ⟨h.keys.eraseBlock _, fun e he => h.sorted e (List.mem_of_mem_filter he)⟩

lemma Ordered.mapRanges {leaf : Leaf J} (h : leaf.Ordered) {f : Range → Range} (hf : ∀ r, (f r).offset = r.offset) :
    (leaf.mapRanges f).Ordered := by
  refine ⟨h.keys.mapRanges f, fun e he => ?_⟩
  obtain ⟨e', he', rfl⟩ := List.mem_map.mp he
  refine List.pairwise_map.mpr ((h.sorted e' he').imp fun hle => ?_)
  rwa [hf, hf]

end Leaf

end FastTransport.FileSystem
