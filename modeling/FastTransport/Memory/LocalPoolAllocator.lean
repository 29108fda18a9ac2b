import FastTransport.Lib.Lists

/-! The pool allocators: free blocks by size and alignment, in a pool of each thread and in one that the threads
share. Blocks go from pool to pool as the nodes of multimaps. -/

namespace FastTransport.Memory

open Lib.Lists

structure MemoryKey where
  size : ℕ
  alignment : ℕ
  deriving DecidableEq, Repr

structure AllocationNode where
  key : MemoryKey
  memory : ℕ
  deriving DecidableEq, Repr

/-- Which node of a key comes first is left open by an `unordered_multimap`; here it is the one inserted last. -/
abbrev AllocationPool := List AllocationNode

namespace AllocationPool

def extract (pool : AllocationPool) (key : MemoryKey) : Option (AllocationNode × AllocationPool) :=
  (pool.find? fun node => node.key = key).map fun node => (node, pool.eraseP fun node => node.key = key)

def equalRange (pool : AllocationPool) (key : MemoryKey) : List AllocationNode := pool.filter fun node => node.key = key

def countOf (pool : AllocationPool) (key : MemoryKey) : ℕ := pool.countP fun node => node.key = key

lemma extract_eq_some {pool rest : AllocationPool} {key : MemoryKey} {node : AllocationNode}
    (h : pool.extract key = some (node, rest)) : node.key = key ∧ (node :: rest).Perm pool := by
  obtain ⟨node', hfind, heq⟩ := Option.map_eq_some_iff.mp h
  cases heq
  obtain ⟨xs, ys, hpool, herase⟩ := find?_eraseP hfind
  refine ⟨by simpa using List.find?_some hfind, ?_⟩
  rw [herase, hpool]
  exact List.perm_middle.symm

lemma countOf_of_extract_none {pool : AllocationPool} {key : MemoryKey} (h : pool.extract key = none) :
    pool.countOf key = 0 :=
  List.countP_eq_zero.mpr (List.find?_eq_none.mp (Option.map_eq_none_iff.mp h))

lemma countOf_perm {pool pool' : AllocationPool} (h : pool.Perm pool') (key : MemoryKey) :
    pool.countOf key = pool'.countOf key := h.countP_eq _

lemma countOf_cons (pool : AllocationPool) (node : AllocationNode) (key : MemoryKey) :
    countOf (node :: pool) key = pool.countOf key + if key = node.key then 1 else 0 := by
  rw [countOf, List.countP_cons, countOf]
  simp only [decide_eq_true_eq, eq_comm (a := key)]

end AllocationPool

/-- `resource` is what the memory resource has given out; it gets nothing back while the allocator lives. -/
structure ThreadSafeAllocator where
  pool : AllocationPool
  resource : List AllocationNode
  deriving DecidableEq, Repr

namespace ThreadSafeAllocator

def maxFreeSize : ℕ := 1024

def create : ThreadSafeAllocator := ⟨[], []⟩

def allocate (a : ThreadSafeAllocator) (key : MemoryKey) (memory : ℕ) : ℕ × ThreadSafeAllocator :=
  (memory, { a with resource := a.resource ++ [⟨key, memory⟩] })

def allocate2Loop (key : MemoryKey) : ℕ → List AllocationNode → AllocationPool → List AllocationNode × AllocationPool
  | 0, nodes, pool => (nodes, pool)
  | n + 1, nodes, pool =>
    match pool.extract key with
    | none => (nodes, pool)
    | some (node, pool) => allocate2Loop key n (nodes ++ [node]) pool

def allocate2 (a : ThreadSafeAllocator) (key : MemoryKey) : List AllocationNode × ThreadSafeAllocator :=
  let r := allocate2Loop key maxFreeSize [] a.pool
  (r.1, { a with pool := r.2 })

def deallocatePool (a : ThreadSafeAllocator) (pool : AllocationPool) : ThreadSafeAllocator :=
  if pool.isEmpty then a else { a with pool := pool ++ a.pool }

def deallocateNodes (a : ThreadSafeAllocator) (nodes : List AllocationNode) : ThreadSafeAllocator :=
  nodes.foldl (fun a node => { a with pool := node :: a.pool }) a

lemma allocate2Loop_spec (key : MemoryKey) (n : ℕ) (nodes : List AllocationNode) (pool : AllocationPool)
    (hnodes : ∀ node ∈ nodes, node.key = key) :
    (∀ node ∈ (allocate2Loop key n nodes pool).1, node.key = key) ∧
      ((allocate2Loop key n nodes pool).1 ++ (allocate2Loop key n nodes pool).2).Perm (nodes ++ pool) := by
  induction n generalizing nodes pool with
  | zero => exact ⟨hnodes, List.Perm.refl _⟩
  | succ n ih =>
    rw [allocate2Loop]
    cases he : pool.extract key with
    | none => exact ⟨hnodes, List.Perm.refl _⟩
    | some r =>
      obtain ⟨node, rest⟩ := r
      obtain ⟨hkey, hperm⟩ := AllocationPool.extract_eq_some he
      have hnodes' : ∀ m ∈ nodes ++ [node], m.key = key := by
        intro m hm
        rcases List.mem_append.mp hm with hm | hm
        · exact hnodes m hm
        · rw [List.mem_singleton.mp hm, hkey]
      obtain ⟨hkeys, hall⟩ := ih (nodes ++ [node]) rest hnodes'
      refine ⟨hkeys, hall.trans ?_⟩
      rw [List.append_assoc]
      exact hperm.append_left nodes

lemma deallocatePool_perm (a : ThreadSafeAllocator) (pool : AllocationPool) :
    (a.deallocatePool pool).pool.Perm (pool ++ a.pool) := by
  rw [deallocatePool]
  split_ifs with h
  · rw [List.isEmpty_iff.mp h]
    exact List.Perm.refl _
  · exact List.Perm.refl _

@[simp] lemma resource_deallocatePool (a : ThreadSafeAllocator) (pool : AllocationPool) :
    (a.deallocatePool pool).resource = a.resource := by
  rw [deallocatePool]
  split_ifs <;> rfl

lemma deallocateNodes_spec (a : ThreadSafeAllocator) (nodes : List AllocationNode) :
    (a.deallocateNodes nodes).pool.Perm (nodes ++ a.pool) ∧ (a.deallocateNodes nodes).resource = a.resource := by
  induction nodes generalizing a with
  | nil => exact ⟨List.Perm.refl _, rfl⟩
  | cons node nodes ih =>
    obtain ⟨hperm, hresource⟩ := ih { a with pool := node :: a.pool }
    exact ⟨hperm.trans List.perm_middle, hresource⟩

end ThreadSafeAllocator

/-- A counter that was never touched is zero. -/
structure LocalPoolAllocator where
  pool : AllocationPool
  backetSize : MemoryKey → ℤ

namespace LocalPoolAllocator

def maxFreeSize : ℕ := 1024

def create : LocalPoolAllocator := ⟨[], fun _ => 0⟩

def setBacketSize (l : LocalPoolAllocator) (key : MemoryKey) (n : ℤ) : LocalPoolAllocator :=
  { l with backetSize := Function.update l.backetSize key n }

def insertNode (l : LocalPoolAllocator) (node : AllocationNode) : LocalPoolAllocator :=
  { l with pool := node :: l.pool }.setBacketSize node.key (l.backetSize node.key + 1)

def extractNode (l : LocalPoolAllocator) (node : AllocationNode) : LocalPoolAllocator :=
  { l with pool := l.pool.erase node }.setBacketSize node.key (l.backetSize node.key - 1)

def allocate (l : LocalPoolAllocator) (global : ThreadSafeAllocator) (key : MemoryKey) (memory : ℕ) :
    ℕ × LocalPoolAllocator × ThreadSafeAllocator :=
  match l.pool.extract key with
  | some (node, pool) => (node.memory, { l with pool := pool }.setBacketSize key (l.backetSize key - 1), global)
  | none =>
    let (nodes, global) := global.allocate2 key
    let l := nodes.foldl insertNode (l.setBacketSize key 0)
    -- `free` is where the last node went
    match nodes.getLast? with
    | some node => (node.memory, l.extractNode node, global)
    | none =>
      let (memory, global) := global.allocate key memory
      (memory, l, global)

def deallocate (l : LocalPoolAllocator) (global : ThreadSafeAllocator) (key : MemoryKey) (memory : ℕ) :
    LocalPoolAllocator × ThreadSafeAllocator :=
  let (l, global) :=
    if maxFreeSize * 2 < l.backetSize key then
      let nodes := (l.pool.equalRange key).take ThreadSafeAllocator.maxFreeSize
      (nodes.foldl extractNode l, global.deallocateNodes nodes)
    else (l, global)
  (l.insertNode ⟨key, memory⟩, global)

def Counted (l : LocalPoolAllocator) : Prop := ∀ key, l.backetSize key = l.pool.countOf key

namespace Counted

variable {l : LocalPoolAllocator}

lemma create : Counted create := fun _ => rfl

lemma setBacketSize (h : l.Counted) {pool : AllocationPool} {key : MemoryKey} {n : ℤ} (hkey : n = pool.countOf key)
    (hother : ∀ key', key' ≠ key → pool.countOf key' = l.pool.countOf key') :
    Counted ({ l with pool := pool }.setBacketSize key n) := by
  intro key'
  by_cases hk : key' = key
  · rw [hk]
    exact (Function.update_self key n l.backetSize).trans hkey
  · refine (Function.update_of_ne hk n l.backetSize).trans ?_
    rw [h key', ← hother key' hk]
    rfl

lemma insertNode (h : l.Counted) (node : AllocationNode) : (l.insertNode node).Counted := by
  refine h.setBacketSize ?_ fun key' hk => ?_
  · rw [h, AllocationPool.countOf_cons, if_pos rfl, Nat.cast_add, Nat.cast_one]
  · rw [AllocationPool.countOf_cons, if_neg hk, Nat.add_zero]

lemma takeNode (h : l.Counted) {node : AllocationNode} {pool : AllocationPool} (hperm : (node :: pool).Perm l.pool) :
    Counted ({ l with pool := pool }.setBacketSize node.key (l.backetSize node.key - 1)) := by
  refine h.setBacketSize ?_ fun key' hk => ?_
  · rw [h, ← AllocationPool.countOf_perm hperm, AllocationPool.countOf_cons, if_pos rfl]
    push_cast
    ring
  · rw [← AllocationPool.countOf_perm hperm, AllocationPool.countOf_cons, if_neg hk, Nat.add_zero]

lemma extractNode (h : l.Counted) {node : AllocationNode} (hm : node ∈ l.pool) : (l.extractNode node).Counted :=
  h.takeNode (List.perm_cons_erase hm).symm

lemma insertNodes (h : l.Counted) (nodes : List AllocationNode) :
    (nodes.foldl LocalPoolAllocator.insertNode l).Counted ∧
      (nodes.foldl LocalPoolAllocator.insertNode l).pool = nodes.reverse ++ l.pool := by
  induction nodes generalizing l with
  | nil => exact ⟨h, rfl⟩
  | cons node nodes ih =>
    obtain ⟨hcounted, hpool⟩ := ih (h.insertNode node)
    refine ⟨hcounted, hpool.trans ?_⟩
    rw [List.reverse_cons, List.append_assoc]
    rfl

lemma extractNodes (h : l.Counted) {nodes : List AllocationNode} (hsub : nodes.Subperm l.pool) :
    (nodes.foldl LocalPoolAllocator.extractNode l).Counted ∧
      (nodes ++ (nodes.foldl LocalPoolAllocator.extractNode l).pool).Perm l.pool := by
  induction nodes generalizing l with
  | nil => exact ⟨h, List.Perm.refl _⟩
  | cons node nodes ih =>
    have hm : node ∈ l.pool := hsub.subset List.mem_cons_self
    have hrest := hsub.erase node
    rw [List.erase_cons_head] at hrest
    obtain ⟨hcounted, hperm⟩ := ih (h.extractNode hm) hrest
    exact ⟨hcounted, (hperm.cons node).trans (List.perm_cons_erase hm).symm⟩

end Counted

inductive Supplied (key : MemoryKey) (memory : ℕ) (free free' resource resource' : List AllocationNode) : ℕ → Prop
  | reused (node : AllocationNode) : node.key = key → (node :: free').Perm free → resource' = resource →
      Supplied key memory free free' resource resource' node.memory
  | fresh : free'.Perm free → resource' = resource ++ [⟨key, memory⟩] →
      Supplied key memory free free' resource resource' memory

lemma allocate_spec {l l' : LocalPoolAllocator} (h : l.Counted) {global global' : ThreadSafeAllocator}
    {key : MemoryKey} {memory block : ℕ} (ha : l.allocate global key memory = (block, l', global')) :
    l'.Counted ∧ Supplied key memory (l.pool ++ global.pool) (l'.pool ++ global'.pool) global.resource
      global'.resource block := by
  rw [allocate] at ha
  cases he : l.pool.extract key with
  | some r =>
    obtain ⟨node, pool⟩ := r
    obtain ⟨rfl, hperm⟩ := AllocationPool.extract_eq_some he
    rw [he] at ha
    cases ha
    exact ⟨h.takeNode hperm, .reused node rfl (hperm.append_right global.pool) rfl⟩
  | none =>
    obtain ⟨hkeys, hnodes⟩ := ThreadSafeAllocator.allocate2Loop_spec key ThreadSafeAllocator.maxFreeSize [] global.pool
      fun _ hm => absurd hm List.not_mem_nil
    have hzero : (l.setBacketSize key 0).Counted :=
      h.setBacketSize (by rw [AllocationPool.countOf_of_extract_none he, Nat.cast_zero]) fun _ _ => rfl
    rw [he] at ha
    simp only [ThreadSafeAllocator.allocate2] at ha
    generalize ThreadSafeAllocator.allocate2Loop key ThreadSafeAllocator.maxFreeSize [] global.pool = r at ha hkeys hnodes
    obtain ⟨nodes, pool⟩ := r
    obtain ⟨hcounted, hpool⟩ := hzero.insertNodes nodes
    cases hlast : nodes.getLast? with
    | none =>
      rw [hlast] at ha
      cases ha
      rw [List.getLast?_eq_none_iff.mp hlast] at hnodes hcounted ⊢
      exact ⟨hcounted, .fresh (hnodes.append_left l.pool) rfl⟩
    | some node =>
      rw [hlast] at ha
      cases ha
      have hm : node ∈ nodes := List.mem_of_getLast? hlast
      have hin : node ∈ (nodes.foldl insertNode (l.setBacketSize key 0)).pool := by
        rw [hpool]
        exact List.mem_append_left _ (List.mem_reverse.mpr hm)
      refine ⟨hcounted.extractNode hin, .reused node (hkeys node hm) (List.perm_iff_count.mpr fun n => ?_) rfl⟩
      have htaken := (List.perm_cons_erase hin).count_eq n
      have hmoved := hnodes.count_eq n
      have hall := congrArg (List.count n) hpool
      change List.count n (node :: ((nodes.foldl insertNode (l.setBacketSize key 0)).pool.erase node ++ pool)) = _
      change _ = List.count n (nodes.reverse ++ l.pool) at hall
      simp only [List.count_append, List.count_cons, List.count_reverse, List.nil_append] at htaken hmoved hall ⊢
      omega

lemma deallocate_spec {l : LocalPoolAllocator} (h : l.Counted) (global : ThreadSafeAllocator) (key : MemoryKey)
    (memory : ℕ) :
    (l.deallocate global key memory).1.Counted ∧
      ((l.deallocate global key memory).1.pool ++ (l.deallocate global key memory).2.pool).Perm
        (⟨key, memory⟩ :: (l.pool ++ global.pool)) ∧
      (l.deallocate global key memory).2.resource = global.resource := by
  rw [deallocate]
  split_ifs with hfull
  · have hsub : ((l.pool.equalRange key).take ThreadSafeAllocator.maxFreeSize).Subperm l.pool :=
      ((List.take_sublist _ _).trans List.filter_sublist).subperm
    dsimp only
    generalize (l.pool.equalRange key).take ThreadSafeAllocator.maxFreeSize = nodes at hsub ⊢
    obtain ⟨hcounted, hperm⟩ := h.extractNodes hsub
    obtain ⟨hglobal, hresource⟩ := global.deallocateNodes_spec nodes
    refine ⟨hcounted.insertNode _, List.Perm.cons _ (List.perm_iff_count.mpr fun n => ?_), hresource⟩
    have hlocal := hperm.count_eq n
    have hmoved := hglobal.count_eq n
    change List.count n ((nodes.foldl extractNode l).pool ++ (global.deallocateNodes nodes).pool) = _
    simp only [List.count_append] at hlocal hmoved ⊢
    omega
  · exact ⟨h.insertNode _, List.Perm.refl _, rfl⟩

end LocalPoolAllocator

end FastTransport.Memory
