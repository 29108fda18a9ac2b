import FastTransport.Lib.Runs
import FastTransport.Memory.LocalPoolAllocator

/-! Any number of local pools over one shared allocator: where every block is, through any run of their calls. -/

namespace FastTransport.Memory

open Lib.Lists Lib.Runs

/-- `inUse` is what the callers hold, each block with what it was asked for. -/
structure Pools where
  locals : List LocalPoolAllocator
  global : ThreadSafeAllocator
  inUse : List AllocationNode

inductive PoolCall
  | construct
  | destroy (i : ℕ)
  | allocate (i : ℕ) (key : MemoryKey) (memory : ℕ)
  | deallocate (i : ℕ) (key : MemoryKey) (memory : ℕ)
  | reorder (i : ℕ) (pool : AllocationPool)
  | reorderGlobal (pool : AllocationPool)
  deriving DecidableEq, Repr

namespace Pools

def create : Pools := ⟨[], .create, []⟩

def free (s : Pools) : List AllocationNode := s.locals.flatMap LocalPoolAllocator.pool ++ s.global.pool

def allocate (s : Pools) (i : ℕ) (key : MemoryKey) (memory : ℕ) : Option (ℕ × Pools) :=
  (s.locals[i]?).map fun l =>
    let (block, l, global) := l.allocate s.global key memory
    (block, ⟨s.locals.set i l, global, s.inUse ++ [⟨key, block⟩]⟩)

/-- What the memory resource returns is no block that it has given out. A table may list the nodes of a key in any
order, and change it at any time. -/
def step (s : Pools) : PoolCall → Option Pools
  | .construct => some { s with locals := s.locals ++ [.create] }
  | .destroy i => (s.locals[i]?).map fun l =>
    { s with locals := s.locals.eraseIdx i, global := s.global.deallocatePool l.pool }
  | .allocate i key memory =>
    if memory ∈ s.global.resource.map AllocationNode.memory then none else (s.allocate i key memory).map Prod.snd
  | .deallocate i key memory =>
    if ⟨key, memory⟩ ∈ s.inUse then
      (s.locals[i]?).map fun l =>
        let (l, global) := l.deallocate s.global key memory
        ⟨s.locals.set i l, global, s.inUse.erase ⟨key, memory⟩⟩
    else none
  | .reorder i pool => ((s.locals[i]?).filter fun l => pool.isPerm l.pool).map fun l =>
    { s with locals := s.locals.set i { l with pool := pool } }
  | .reorderGlobal pool =>
    if pool.isPerm s.global.pool then some { s with global := { s.global with pool := pool } } else none

structure Books (s : Pools) : Prop where
  counted : ∀ l ∈ s.locals, l.Counted
  kept : (s.inUse ++ s.free).Perm s.global.resource
  distinct : (s.global.resource.map AllocationNode.memory).Nodup

lemma free_set {s : Pools} {i : ℕ} {l : LocalPoolAllocator} (hl : s.locals[i]? = some l) (l' : LocalPoolAllocator)
    (global : ThreadSafeAllocator) (inUse : List AllocationNode) :
    (l.pool ++ s.global.pool ++ free ⟨s.locals.set i l', global, inUse⟩).Perm (l'.pool ++ global.pool ++ s.free) := by
  apply List.perm_iff_count.mpr
  intro node
  have hset := (flatMap_set_perm LocalPoolAllocator.pool hl l').count_eq node
  simp only [free, List.count_append] at hset ⊢
  omega

lemma mem_free {s : Pools} {l : LocalPoolAllocator} (hl : l ∈ s.locals) {node : AllocationNode}
    (hn : node ∈ l.pool ++ s.global.pool) : node ∈ s.free := by
  rcases List.mem_append.mp hn with hn | hn
  · exact List.mem_append_left _ (List.mem_flatMap.mpr ⟨l, hl, hn⟩)
  · exact List.mem_append_right _ hn

namespace Books

variable {s t : Pools}

lemma create : Books create := ⟨fun _ hl => absurd hl List.not_mem_nil, List.Perm.refl _, List.nodup_nil⟩

lemma counted_set (h : s.Books) {l : LocalPoolAllocator} (hl : l.Counted) (i : ℕ) :
    ∀ m ∈ s.locals.set i l, m.Counted := by
  intro m hm
  rcases List.mem_or_eq_of_mem_set hm with hm | rfl
  · exact h.counted m hm
  · exact hl

lemma allocate (h : s.Books) {i : ℕ} {key : MemoryKey} {memory block : ℕ}
    (hfresh : memory ∉ s.global.resource.map AllocationNode.memory) (ha : s.allocate i key memory = some (block, t)) :
    t.Books ∧ t.inUse = s.inUse ++ [⟨key, block⟩] ∧ (block = memory ∨ ⟨key, block⟩ ∈ s.free) := by
  obtain ⟨l, hl, heq⟩ := Option.map_eq_some_iff.mp ha
  obtain ⟨block', l', global', hcall⟩ : ∃ b l' g, l.allocate s.global key memory = (b, l', g) := ⟨_, _, _, rfl⟩
  rw [hcall] at heq
  cases heq
  have hmem := List.mem_of_getElem? hl
  obtain ⟨hcounted, hsupplied⟩ := LocalPoolAllocator.allocate_spec (h.counted l hmem) hcall
  have hset := free_set hl l' global' (s.inUse ++ [⟨key, block⟩])
  cases hsupplied with
  | reused node hkey hperm hresource =>
    have hnode : (⟨key, node.memory⟩ : AllocationNode) = node := by rw [← hkey]
    rw [hnode] at hset ⊢
    refine ⟨⟨h.counted_set hcounted i, List.perm_iff_count.mpr fun n => ?_, ?_⟩, rfl,
      Or.inr (mem_free hmem (hperm.subset List.mem_cons_self))⟩
    · have hfree := hset.count_eq n
      have htaken := hperm.count_eq n
      have hkept := h.kept.count_eq n
      simp only [hresource, List.count_append, List.count_cons, List.count_nil] at hfree htaken hkept ⊢
      omega
    · rw [hresource]
      exact h.distinct
  | fresh hperm hresource =>
    refine ⟨⟨h.counted_set hcounted i, List.perm_iff_count.mpr fun n => ?_, ?_⟩, rfl, Or.inl rfl⟩
    · have hfree := hset.count_eq n
      have hmoved := hperm.count_eq n
      have hkept := h.kept.count_eq n
      simp only [hresource, List.count_append] at hfree hmoved hkept ⊢
      omega
    · rw [hresource, List.map_append]
      exact List.nodup_append'.mpr ⟨h.distinct, List.nodup_singleton _, List.disjoint_singleton.mpr hfresh⟩

lemma deallocate (h : s.Books) {i : ℕ} {l : LocalPoolAllocator} (hl : s.locals[i]? = some l) {key : MemoryKey}
    {memory : ℕ} (hm : ⟨key, memory⟩ ∈ s.inUse) :
    Books ⟨s.locals.set i (l.deallocate s.global key memory).1, (l.deallocate s.global key memory).2,
      s.inUse.erase ⟨key, memory⟩⟩ := by
  obtain ⟨hcounted, hperm, hresource⟩ :=
    LocalPoolAllocator.deallocate_spec (h.counted l (List.mem_of_getElem? hl)) s.global key memory
  generalize l.deallocate s.global key memory = r at hcounted hperm hresource ⊢
  refine ⟨h.counted_set hcounted i, List.perm_iff_count.mpr fun n => ?_, ?_⟩
  · have hfree := (free_set hl r.1 r.2 (s.inUse.erase ⟨key, memory⟩)).count_eq n
    have hmoved := hperm.count_eq n
    have hkept := h.kept.count_eq n
    have hgiven := (List.perm_cons_erase hm).count_eq n
    simp only [hresource, List.count_append, List.count_cons] at hfree hmoved hkept hgiven ⊢
    omega
  · change (r.2.resource.map AllocationNode.memory).Nodup
    rw [hresource]
    exact h.distinct

lemma destroy (h : s.Books) {i : ℕ} {l : LocalPoolAllocator} (hl : s.locals[i]? = some l) :
    Books { s with locals := s.locals.eraseIdx i, global := s.global.deallocatePool l.pool } := by
  refine ⟨fun m hm => h.counted m (List.mem_of_mem_eraseIdx hm), List.perm_iff_count.mpr fun n => ?_, ?_⟩
  · obtain ⟨xs, ys, hlocals, herase⟩ := getElem?_eraseIdx hl
    have hmerged := (s.global.deallocatePool_perm l.pool).count_eq n
    have hkept := h.kept.count_eq n
    simp only [free, hlocals, List.flatMap_append, List.flatMap_cons, List.count_append] at hkept
    simp only [free, herase, ThreadSafeAllocator.resource_deallocatePool, List.flatMap_append, List.count_append]
      at hmerged ⊢
    omega
  · rw [ThreadSafeAllocator.resource_deallocatePool]
    exact h.distinct

lemma reorder (h : s.Books) {i : ℕ} {l : LocalPoolAllocator} (hl : s.locals[i]? = some l) {pool : AllocationPool}
    (hperm : pool.Perm l.pool) : Books { s with locals := s.locals.set i { l with pool := pool } } := by
  have hcounted : LocalPoolAllocator.Counted { l with pool := pool } := fun key =>
    (h.counted l (List.mem_of_getElem? hl) key).trans (congrArg _ (AllocationPool.countOf_perm hperm key).symm)
  refine ⟨h.counted_set hcounted i, List.perm_iff_count.mpr fun n => ?_, h.distinct⟩
  have hfree := (free_set hl { l with pool := pool } s.global s.inUse).count_eq n
  have hsame := hperm.count_eq n
  have hkept := h.kept.count_eq n
  simp only [List.count_append] at hfree hkept ⊢
  omega

lemma step (h : s.Books) {call : PoolCall} (ht : s.step call = some t) : t.Books := by
  cases call with
  | construct =>
    cases ht
    refine ⟨fun l hl => ?_, ?_, h.distinct⟩
    · rcases List.mem_append.mp hl with hl | hl
      · exact h.counted l hl
      · rw [List.mem_singleton.mp hl]
        exact .create
    · have hfree : free { s with locals := s.locals ++ [.create] } = s.free := by
        simp [free, LocalPoolAllocator.create]
      rw [hfree]
      exact h.kept
  | destroy i =>
    obtain ⟨l, hl, rfl⟩ := Option.map_eq_some_iff.mp ht
    exact h.destroy hl
  | allocate i key memory =>
    rw [Pools.step] at ht
    split_ifs at ht with hfresh
    obtain ⟨r, ha, rfl⟩ := Option.map_eq_some_iff.mp ht
    exact (h.allocate hfresh ha).1
  | deallocate i key memory =>
    rw [Pools.step] at ht
    split_ifs at ht with hm
    obtain ⟨l, hl, rfl⟩ := Option.map_eq_some_iff.mp ht
    exact h.deallocate hl hm
  | reorder i pool =>
    obtain ⟨l, hl, rfl⟩ := Option.map_eq_some_iff.mp ht
    obtain ⟨hl, hperm⟩ := Option.filter_eq_some_iff.mp hl
    exact h.reorder hl (List.isPerm_iff.mp hperm)
  | reorderGlobal pool =>
    rw [Pools.step] at ht
    split_ifs at ht with hperm
    cases ht
    refine ⟨h.counted, ((List.Perm.append_left _ ?_).append_left s.inUse).trans h.kept, h.distinct⟩
    exact List.isPerm_iff.mp hperm

end Books

theorem pools_keep_books {calls : List PoolCall} {s : Pools} (h : run step create calls = some s) :
    (∀ l ∈ s.locals, ∀ key, l.backetSize key = l.pool.countOf key) ∧
      ((s.inUse ++ s.free).map AllocationNode.memory).Nodup ∧ (s.inUse ++ s.free).Perm s.global.resource ∧
      ∀ i key memory block t, memory ∉ s.global.resource.map AllocationNode.memory →
        s.allocate i key memory = some (block, t) →
          (block = memory ∨ ⟨key, block⟩ ∈ s.free) ∧ t.inUse = s.inUse ++ [⟨key, block⟩] ∧
            ⟨key, block⟩ ∈ t.global.resource ∧ ∀ node ∈ t.global.resource, node.memory = block → node.key = key := by
  have hbooks : s.Books := run_invariant (fun _ _ _ hs ht => hs.step ht) .create h
  refine ⟨hbooks.counted, (hbooks.kept.map _).nodup_iff.mpr hbooks.distinct, hbooks.kept, ?_⟩
  intro i key memory block t hfresh ha
  obtain ⟨ht, hin, hblock⟩ := hbooks.allocate hfresh ha
  have hgiven : ⟨key, block⟩ ∈ t.global.resource := by
    apply ht.kept.subset
    rw [hin]
    exact List.mem_append_left _ (List.mem_append_right _ List.mem_cons_self)
  refine ⟨hblock, hin, hgiven, fun node hnode hmemory => ?_⟩
  rw [List.inj_on_of_nodup_map ht.distinct hnode hgiven hmemory]

theorem pools_keep_books_reused :
    ∃ s, run step create [.construct, .allocate 0 ⟨8, 8⟩ 100, .deallocate 0 ⟨8, 8⟩ 100, .allocate 0 ⟨8, 8⟩ 101] =
      some s ∧ s.inUse = [⟨⟨8, 8⟩, 100⟩] ∧ (s.inUse ++ s.free).Perm s.global.resource := by
  obtain ⟨s, hrun, hin⟩ : ∃ s, run step create [.construct, .allocate 0 ⟨8, 8⟩ 100, .deallocate 0 ⟨8, 8⟩ 100,
      .allocate 0 ⟨8, 8⟩ 101] = some s ∧ s.inUse = [⟨⟨8, 8⟩, 100⟩] := ⟨_, rfl, rfl⟩
  exact ⟨s, hrun, hin, (pools_keep_books hrun).2.2.1⟩

end Pools

end FastTransport.Memory
