import FastTransport.FileSystem.RangePins
import FastTransport.FileSystem.Ranges
import FastTransport.Lib.Runs

/-! The set of ranges of a block has one range for each offset, and a leaf's packets are conserved: what an
`AddData` has to meet for it to stay so. -/

namespace FastTransport.FileSystem

open Lib.Runs

/-- The order of the set's comparator. -/
def Strict (ranges : List Range) : Prop := ranges.Pairwise fun a b => a.offset < b.offset

lemma strict_iff {ranges : List Range} : Strict ranges ↔ (ranges.map Range.offset).Pairwise (· < ·) :=
  List.pairwise_map.symm

lemma Strict.sorted {ranges : List Range} (h : Strict ranges) : Sorted ranges := h.imp le_of_lt

/-- No range that holds data starts at the offset, or one of several packets does and no range starts at
the end of the data. -/
def KeyFree (ranges : List Range) (offset size : ℕ) (data : List CachedPacket) : Prop :=
  ∀ prev, (ranges.takeWhile fun r => r.offset ≤ offset).getLast? = some prev → prev.offset = offset → prev.size ≠ 0 →
    (prev.packets.length ≤ 1 → data = []) ∧
      ∀ next, (ranges.dropWhile fun r => r.offset ≤ offset).head? = some next → next.offset ≠ offset + size

lemma Strict.insert {before after : List Range} {r : Range} (h : Strict (before ++ after))
    (hb : ∀ x ∈ before, x.offset < r.offset) (ha : ∀ x ∈ after, r.offset < x.offset) :
    Strict (before ++ r :: after) := by
  obtain ⟨h1, h2, h3⟩ := List.pairwise_append.mp h
  refine List.pairwise_append.mpr ⟨h1, List.pairwise_cons.mpr ⟨ha, h2⟩, fun x hx y hy => ?_⟩
  rcases List.mem_cons.mp hy with rfl | hy
  · exact hb x hx
  · exact h3 x hx y hy

lemma Strict.lt_of_last {before : List Range} {offset : ℕ} (h : Strict before) (hle : ∀ r ∈ before, r.offset ≤ offset)
    (hlast : ∀ prev, before.getLast? = some prev → prev.offset ≠ offset) : ∀ r ∈ before, r.offset < offset := by
  intro r hr
  rcases List.eq_nil_or_concat before with rfl | ⟨init, prev, rfl⟩
  · exact absurd hr List.not_mem_nil
  · rw [List.concat_eq_append] at *
    have hprev : prev.offset < offset :=
      lt_of_le_of_ne (hle prev (List.mem_append_right _ List.mem_cons_self)) (hlast prev List.getLast?_concat)
    rcases List.mem_append.mp hr with hr | hr
    · exact ((List.pairwise_append.mp h).2.2 r hr prev List.mem_cons_self).trans hprev
    · rwa [List.mem_singleton.mp hr]

section

variable {before after : List Range} {id offset size : ℕ} {data : List CachedPacket}
  {result : List CachedPacket × List Range}

lemma AddBranch.strict (hs : Strict (before ++ after)) (hle : ∀ r ∈ before, r.offset ≤ offset)
    (hlt : ∀ r ∈ after, offset < r.offset) (h : AddBranch before after id offset size data result)
    (hfree : ∀ prev next, before.getLast? = some prev → after.head? = some next → prev.offset = offset →
      prev.size ≠ 0 → next.offset ≠ offset + size) : Strict result.2 := by
  have hbefore : Strict before := (List.pairwise_append.mp hs).1
  cases h with
  | bridge init prev next rest hb ha _ _ =>
    subst hb ha
    rw [strict_iff] at hs ⊢
    simp only [List.map_append, List.map_cons, List.append_assoc, List.singleton_append] at hs ⊢
    exact hs.sublist ((List.sublist_cons_self _ _).cons_cons _ |>.append_left _)
  | join next rest ha hadj hprev =>
    subst ha
    have hrest : Strict (before ++ rest) :=
      List.Pairwise.sublist ((List.sublist_cons_self next rest).append_left before) hs
    have hlast : ∀ prev, before.getLast? = some prev → prev.offset ≠ offset := by
      intro prev hp ho
      by_cases hsize : prev.size = 0
      · exact hprev prev hp (by omega)
      · exact hfree prev next hp rfl ho hsize hadj
    exact hrest.insert (hbefore.lt_of_last hle hlast) fun r hr => hlt r (List.mem_cons_of_mem _ hr)
  | replace next rest hb ha _ _ _ =>
    subst hb ha
    have hrest : Strict ([] ++ rest) := List.Pairwise.sublist (List.sublist_cons_self next rest) hs
    exact hrest.insert (fun r hr => absurd hr List.not_mem_nil) fun r hr => hlt r (List.mem_cons_of_mem _ hr)
  | append init prev hb _ _ =>
    subst hb
    rw [strict_iff] at hs ⊢
    simpa using hs
  | overlap init prev payloadSize skipped hb _ _ _ _ _ =>
    subst hb
    rw [strict_iff] at hs ⊢
    simpa using hs
  | refuse => exact hs
  | insert hprev _ _ => exact hs.insert (hbefore.lt_of_last hle fun prev hp => (hprev prev hp).1) hlt

lemma AddBranch.not_strict {prev next : Range} (h : AddBranch before after id offset size data result)
    (hp : before.getLast? = some prev) (hn : after.head? = some next) (ho : prev.offset = offset) (hsize : prev.size ≠ 0)
    (hadj : next.offset = offset + size) : ¬ Strict result.2 := by
  cases h with
  | bridge init prev' next' rest hb _ _ hend =>
    rw [hb, List.getLast?_concat] at hp
    cases hp
    omega
  | join next' rest ha hadj' hprev =>
    intro hs
    have hlt := (List.pairwise_append.mp hs).2.2 prev (List.mem_of_getLast? hp) _ List.mem_cons_self
    exact absurd ho hlt.ne
  | replace next' rest hb _ _ _ _ =>
    rw [hb] at hp
    cases hp
  | append init prev' _ _ hne => exact absurd hadj (hne next hn)
  | overlap init prev' payloadSize skipped _ _ _ _ _ hne => exact absurd hadj (hne next hn)
  | refuse init prev' _ _ _ _ hne => exact absurd hadj (hne next hn)
  | insert _ hne _ => exact absurd hadj (hne next hn)

end

lemma addRange_keyFree_iff {ranges : List Range} (hs : Strict ranges) (id offset size : ℕ) (data : List CachedPacket) :
    ((collides ranges offset size = true → data = []) ∧ Strict (addRange ranges id offset size data).2) ↔
      KeyFree ranges offset size data := by
  have hsplit := List.takeWhile_append_dropWhile (p := fun r : Range => decide (r.offset ≤ offset)) (l := ranges)
  have hle : ∀ r ∈ ranges.takeWhile fun r => r.offset ≤ offset, r.offset ≤ offset := fun r hr => by
    simpa using List.mem_takeWhile_imp hr
  have hlt : ∀ r ∈ ranges.dropWhile fun r => r.offset ≤ offset, offset < r.offset := hs.sorted.lt_dropWhile
  have hbranch := addRange_branch hs.sorted id offset size data rfl rfl
  rw [← hsplit] at hs
  constructor
  · rintro ⟨hdata, hstrict⟩ prev hp ho hsize
    have hadj : ∀ next, (ranges.dropWhile fun r => r.offset ≤ offset).head? = some next →
        next.offset ≠ offset + size :=
      fun next hn hadj => hbranch.not_strict hp hn ho hsize hadj hstrict
    refine ⟨fun hlen => hdata ?_, hadj⟩
    rw [collides, hp]
    cases hn : (ranges.dropWhile fun r => r.offset ≤ offset).head? with
    | none => simp [ho, hsize, hlen]
    | some next => simp [ho, hsize, hlen, hadj next hn]
  · intro hfree
    constructor
    · intro hc
      rw [collides, Bool.and_eq_true, Option.any_eq_true] at hc
      obtain ⟨⟨prev, hp, hg⟩, -⟩ := hc
      simp only [Bool.and_eq_true, decide_eq_true_eq] at hg
      exact (hfree prev hp hg.1.1 hg.1.2).1 hg.2
    · exact hbranch.strict hs hle hlt fun prev next hp hn ho hsize => (hfree prev hp ho hsize).2 next hn

namespace Leaf

variable {J : Type}

structure StrictlyOrdered (leaf : Leaf J) : Prop where
  keys : leaf.KeysNodup
  strict : ∀ e ∈ leaf.data, Strict e.2

lemma StrictlyOrdered.ordered {leaf : Leaf J} (h : leaf.StrictlyOrdered) : leaf.Ordered :=
  ⟨h.keys, fun e he => (h.strict e he).sorted⟩

def KeyFree (leaf : Leaf J) (offset size : ℕ) (data : List CachedPacket) : Prop :=
  ∀ ranges, leaf.findBlock (offset / blockSize) = some ranges → FileSystem.KeyFree ranges offset size data

def Conserves (leaf : Leaf J) (id offset size : ℕ) (data : List CachedPacket) : Prop :=
  ((leaf.addData id offset size data).2.packets ++ (leaf.addData id offset size data).1).Perm (leaf.packets ++ data)

lemma conserves_iff {leaf : Leaf J} (h : leaf.Ordered) {id offset size : ℕ} {data : List CachedPacket} :
    leaf.Conserves id offset size data ↔ leaf.lostPackets offset size data = 0 := by
  constructor
  · intro hperm
    have hlen := hperm.length_eq
    rw [List.length_append, List.length_append] at hlen
    have hcount := length_packets_addData h id offset size data
    omega
  · intro hlost
    have hperm := packets_addData_perm h id offset size data
    rwa [if_pos hlost, List.append_nil] at hperm

lemma StrictlyOrdered.addData_iff {leaf : Leaf J} (h : leaf.StrictlyOrdered) (id offset size : ℕ)
    (data : List CachedPacket) :
    (leaf.Conserves id offset size data ∧ (leaf.addData id offset size data).2.StrictlyOrdered) ↔
      leaf.KeyFree offset size data := by
  rw [conserves_iff h.ordered, lostPackets, KeyFree]
  have hkeys := (h.ordered.addData id offset size data).keys
  rw [addData] at hkeys ⊢
  cases hf : leaf.findBlock (offset / blockSize) with
  | none =>
    rw [hf] at hkeys
    refine ⟨fun _ ranges hr => (by cases hr), fun _ => ⟨rfl, hkeys, fun e he => ?_⟩⟩
    rcases List.mem_cons.mp he with rfl | he
    · exact List.pairwise_singleton _ _
    · exact h.strict e he
  | some ranges =>
    rw [hf] at hkeys
    have hstrict : Strict ranges := h.strict _ (mem_of_findBlock hf)
    have hiff := addRange_keyFree_iff hstrict id offset size data
    have hlost : (if collides ranges offset size then data.length else 0) = 0 ↔
        (collides ranges offset size = true → data = []) := by
      split_ifs with hc
      · simp [hc]
      · simp [hc]
    have hblocks : (((leaf.eraseBlock (offset / blockSize)).insertBlock (offset / blockSize)
        (addRange ranges id offset size data).2).StrictlyOrdered) ↔ Strict (addRange ranges id offset size data).2 := by
      refine ⟨fun hs => hs.strict _ List.mem_cons_self, fun hs => ⟨hkeys, fun e he => ?_⟩⟩
      rcases List.mem_cons.mp he with rfl | he
      · exact hs
      · exact h.strict e (List.mem_of_mem_filter he)
    rw [← hlost, ← hblocks] at hiff
    refine hiff.trans ⟨fun hk r hr => ?_, fun hk => hk ranges rfl⟩
    cases hr
    exact hk

end Leaf

inductive LeafCall
  | addData (id offset size : ℕ) (data : List CachedPacket)
  | extractBlock (index : ℕ)
  | getData (offset size : ℕ)
  | release (pin : List ℕ)
  | invalidateDataCache
  deriving DecidableEq, Repr

namespace LeafCall

variable {J : Type}

def step (leaf : Leaf J) : LeafCall → Option (Leaf J)
  | addData id offset size data => (leaf.tryAddData id offset size data).map Prod.snd
  | extractBlock index => some (leaf.extractBlock index).2.2
  | getData offset size => some (leaf.pin (leaf.pinnedIds offset size))
  | release pin => some (leaf.unpin pin)
  | invalidateDataCache => some leaf.invalidateDataCache

def KeyFree (leaf : Leaf J) : LeafCall → Prop
  | addData _ offset size data => leaf.KeyFree offset size data
  | _ => True

end LeafCall

namespace Leaf

variable {J : Type}

lemma strictlyOrdered_create (name : String) (parent size : ℕ) :
    (create name parent size : Leaf J).StrictlyOrdered :=
  ⟨List.nodup_nil, fun _ he => absurd he List.not_mem_nil⟩

lemma StrictlyOrdered.mapRanges {leaf : Leaf J} (h : leaf.StrictlyOrdered) {f : Range → Range}
    (hf : ∀ r, (f r).offset = r.offset) : (leaf.mapRanges f).StrictlyOrdered := by
  refine ⟨h.keys.mapRanges f, fun e he => ?_⟩
  obtain ⟨e', he', rfl⟩ := List.mem_map.mp he
  refine List.pairwise_map.mpr ((h.strict e' he').imp fun hlt => ?_)
  rwa [hf, hf]

lemma StrictlyOrdered.extractBlock {leaf : Leaf J} (h : leaf.StrictlyOrdered) (index : ℕ) :
    (leaf.extractBlock index).2.2.StrictlyOrdered := by
  rw [Leaf.extractBlock]
  cases hf : leaf.findBlock index with
  | none => exact h
  | some ranges => exact ⟨h.keys.eraseBlock _, fun e he => h.strict e (List.mem_of_mem_filter he)⟩

lemma StrictlyOrdered.step {leaf leaf' : Leaf J} (h : leaf.StrictlyOrdered) {call : LeafCall}
    (hfree : call.KeyFree leaf) (hs : LeafCall.step leaf call = some leaf') : leaf'.StrictlyOrdered := by
  cases call with
  | addData id offset size data =>
    obtain ⟨r, hr, rfl⟩ := Option.map_eq_some_iff.mp hs
    rw [← (tryAddData_eq_some.mp hr).2]
    exact ((h.addData_iff id offset size data).mpr hfree).2
  | extractBlock index =>
    cases hs
    exact h.extractBlock index
  | getData offset size =>
    cases hs
    exact h.mapRanges fun _ => rfl
  | release pin =>
    cases hs
    exact h.mapRanges fun _ => rfl
  | invalidateDataCache =>
    cases hs
    exact ⟨List.nodup_nil, fun _ he => absurd he List.not_mem_nil⟩

theorem addData_conserves_iff {name : String} {parent fileSize : ℕ} {calls : List LeafCall} {leaf : Leaf J}
    (h : Path LeafCall.step LeafCall.KeyFree (create name parent fileSize) calls leaf) (id offset size : ℕ)
    (data : List CachedPacket) :
    (∃ r, leaf.tryAddData id offset size data = some r ∧ (r.2.packets ++ r.1).Perm (leaf.packets ++ data) ∧
      ∀ e ∈ r.2.data, e.2.Pairwise fun a b => a.offset < b.offset) ↔
      leaf.dividesByZero offset size = false ∧ leaf.KeyFree offset size data := by
  have hordered : leaf.StrictlyOrdered :=
    h.invariant (fun _ _ _ hs hok ha => hs.step hok ha) (strictlyOrdered_create name parent fileSize)
  have hkeys := (hordered.ordered.addData id offset size data).keys
  have hiff := hordered.addData_iff id offset size data
  constructor
  · rintro ⟨r, hr, hperm, hstrict⟩
    obtain ⟨hdiv, rfl⟩ := tryAddData_eq_some.mp hr
    exact ⟨hdiv, hiff.mp ⟨hperm, hkeys, hstrict⟩⟩
  · rintro ⟨hdiv, hfree⟩
    obtain ⟨hperm, hstrict⟩ := hiff.mpr hfree
    exact ⟨_, tryAddData_eq_some.mpr ⟨hdiv, rfl⟩, hperm, hstrict.strict⟩

theorem addData_conserves_iff_repeated :
    let first : List CachedPacket := [⟨0, [1, 2], []⟩, ⟨1, [3], []⟩]
    let again : List CachedPacket := [⟨2, [1, 2], []⟩, ⟨3, [3], []⟩]
    let leaf : Leaf Unit := ((create "file" 0 3).addData 0 0 3 first).2
    Path LeafCall.step LeafCall.KeyFree (create "file" 0 3) [.addData 0 0 3 first] leaf ∧
      ∃ r, leaf.tryAddData 1 0 3 again = some r ∧ (r.2.packets ++ r.1).Perm (leaf.packets ++ again) := by
  intro first again leaf
  have hpath : Path LeafCall.step LeafCall.KeyFree (create "file" 0 3) [.addData 0 0 3 first] leaf :=
    .cons (fun ranges hr => by cases hr) rfl (.nil _)
  have hfree : leaf.KeyFree 0 3 again := by
    intro ranges hr prev hp _ _
    cases hr
    cases hp
    exact ⟨fun hlen => absurd hlen (by decide), fun next hn => by cases hn⟩
  obtain ⟨r, hr, hperm, -⟩ := (addData_conserves_iff hpath 1 0 3 again).mpr ⟨rfl, hfree⟩
  exact ⟨hpath, r, hr, hperm⟩

theorem repeated_add_loses_packet :
    ¬ ∀ (calls : List LeafCall) (leaf : Leaf Unit), run LeafCall.step (create "file" 0 3) calls = some leaf →
      ∀ id offset size data, offset % blockSize + size ≤ blockSize →
        ∃ r, leaf.tryAddData id offset size data = some r ∧ (r.2.packets ++ r.1).Perm (leaf.packets ++ data) ∧
          ∀ e ∈ r.2.data, e.2.Pairwise fun a b => a.offset < b.offset := by
  intro h
  obtain ⟨r, hr, hperm, -⟩ := h [.addData 0 0 3 [⟨0, [1, 2, 3], []⟩]] _ rfl 1 0 3 [⟨1, [1, 2, 3], []⟩] (by decide)
  obtain ⟨-, rfl⟩ := tryAddData_eq_some.mp hr
  exact absurd hperm.length_eq (by decide)

end Leaf

end FastTransport.FileSystem
