import FastTransport.FileCache.Client
import FastTransport.Lib.Lists
import FastTransport.Lib.Recency
import FastTransport.Lib.Runs

/-! The files the client keeps open: a map from paths to handles and a list of the paths in the order of their
use, to whose nodes the map's entries have iterators. The client's disk jobs have only the list. -/

namespace FastTransport.FileSystem

open FastTransport.FileSystem.FileCache (maxFiles cleanupFiles)
open Lib.Lists Lib.Recency Lib.Runs

structure NativeFile (κ : Type*) where
  id : ℕ
  name : κ
  deriving DecidableEq, Repr

/-- The source's `FileCache`. A node of the list is its identity and its path; an iterator is the identity of a
node. -/
structure OpenedFiles (κ : Type*) where
  openedFiles : List (κ × NativeFile κ × ℕ)
  lruList : List (ℕ × κ)
  nextNode : ℕ
  nextFile : ℕ
  deriving DecidableEq, Repr

namespace OpenedFiles

variable {κ : Type*}

def create : OpenedFiles κ := ⟨[], [], 0, 0⟩

def paths (c : OpenedFiles κ) : List κ := c.lruList.map Prod.snd

def spliceToFront (c : OpenedFiles κ) (node : ℕ) : Option (OpenedFiles κ) :=
  (c.lruList.find? fun e => e.1 = node).map fun e =>
    { c with lruList := e :: c.lruList.eraseP fun e => e.1 = node }

def erase [DecidableEq κ] (c : OpenedFiles κ) (path : κ) : OpenedFiles κ :=
  { c with openedFiles := c.openedFiles.filter fun e => e.1 ≠ path }

def cleanupLoop [DecidableEq κ] : ℕ → OpenedFiles κ → OpenedFiles κ
  | 0, c => c
  | n + 1, c =>
    match c.lruList.getLast? with
    | none => c
    | some last => cleanupLoop n { c.erase last.2 with lruList := c.lruList.dropLast }

def cleanupOldFiles [DecidableEq κ] (c : OpenedFiles κ) : OpenedFiles κ := cleanupLoop cleanupFiles c

def pushFront (c : OpenedFiles κ) (path : κ) : OpenedFiles κ × NativeFile κ :=
  let file : NativeFile κ := ⟨c.nextFile, path⟩
  (⟨(path, file, c.nextNode) :: c.openedFiles, (c.nextNode, path) :: c.lruList, c.nextNode + 1, c.nextFile + 1⟩, file)

def getFile [DecidableEq κ] (c : OpenedFiles κ) (path : κ) : Option (OpenedFiles κ × NativeFile κ) :=
  match c.openedFiles.lookup path with
  | some (file, node) => (c.spliceToFront node).map fun c => (c, file)
  | none => some ((if maxFiles ≤ c.openedFiles.length then c.cleanupOldFiles else c).pushFront path)

/-- The entries of the map and the nodes of the list belong to each other, one to one. -/
structure Linked (c : OpenedFiles κ) : Prop where
  perm : (c.openedFiles.map fun e => (e.2.2, e.1)).Perm c.lruList
  nodes : (c.lruList.map Prod.fst).Nodup
  paths : c.paths.Nodup
  fresh : ∀ e ∈ c.lruList, e.1 < c.nextNode
  names : ∀ e ∈ c.openedFiles, e.2.1.name = e.1

namespace Linked

variable {c : OpenedFiles κ}

lemma create : Linked (OpenedFiles.create : OpenedFiles κ) where
  perm := List.Perm.refl []
  nodes := List.nodup_nil
  paths := List.nodup_nil
  fresh _ he := absurd he List.not_mem_nil
  names _ he := absurd he List.not_mem_nil

lemma keys (h : c.Linked) : (c.openedFiles.map Prod.fst).Perm c.paths := by
  have hperm := h.perm.map Prod.snd
  rwa [List.map_map] at hperm

lemma length_eq (h : c.Linked) : c.openedFiles.length = c.paths.length := by
  rw [← List.length_map Prod.fst, h.keys.length_eq]

lemma toFront (h : c.Linked) {xs ys : List (ℕ × κ)} {e : ℕ × κ} (hl : c.lruList = xs ++ e :: ys) :
    Linked { c with lruList := e :: (xs ++ ys) } := by
  have hperm : (c.lruList).Perm (e :: (xs ++ ys)) := hl ▸ List.perm_middle
  exact ⟨h.perm.trans hperm, (hperm.map Prod.fst).nodup_iff.mp h.nodes, (hperm.map Prod.snd).nodup_iff.mp h.paths,
    fun e he => h.fresh e (hperm.mem_iff.mpr he), h.names⟩

lemma pushFront (h : c.Linked) {path : κ} (hp : path ∉ c.paths) : (c.pushFront path).1.Linked := by
  refine ⟨h.perm.cons _, List.nodup_cons.mpr ⟨fun hm => ?_, h.nodes⟩, List.nodup_cons.mpr ⟨hp, h.paths⟩, ?_, ?_⟩
  · obtain ⟨e, he, heq⟩ := List.mem_map.mp hm
    exact (h.fresh e he).ne heq
  · intro e he
    rcases List.mem_cons.mp he with rfl | he
    · exact Nat.lt_succ_self _
    · exact (h.fresh e he).trans (Nat.lt_succ_self _)
  · intro e he
    rcases List.mem_cons.mp he with rfl | he
    · rfl
    · exact h.names e he

lemma spliceToFront (h : c.Linked) {node : ℕ} {path : κ} (hm : (node, path) ∈ c.lruList) :
    ∃ xs ys, c.lruList = xs ++ (node, path) :: ys ∧
      c.spliceToFront node = some { c with lruList := (node, path) :: (xs ++ ys) } := by
  have hfind : (c.lruList.find? fun e => decide (e.1 = node)) = some (node, path) := by
    cases hf : c.lruList.find? fun e => decide (e.1 = node) with
    | none => exact absurd (decide_eq_true rfl) (List.find?_eq_none.mp hf _ hm)
    | some e =>
      have hnode : e.1 = node := by simpa using List.find?_some hf
      exact congrArg some (List.inj_on_of_nodup_map h.nodes (List.mem_of_find?_eq_some hf) hm hnode)
  obtain ⟨xs, ys, hl, herase⟩ := find?_eraseP hfind
  refine ⟨xs, ys, hl, ?_⟩
  rw [OpenedFiles.spliceToFront, hfind, ← herase]
  rfl

variable [DecidableEq κ]

lemma lookup_isSome (h : c.Linked) {path : κ} : (c.openedFiles.lookup path).isSome = true ↔ path ∈ c.paths := by
  rw [← h.keys.mem_iff, List.mem_map, Option.isSome_iff_ne_none, Ne, List.lookup_eq_none_iff]
  push Not
  exact exists_congr fun e => and_congr_right fun _ => by simp [eq_comm (a := path)]

lemma mem_of_lookup (h : c.Linked) {path : κ} {file : NativeFile κ} {node : ℕ}
    (hl : c.openedFiles.lookup path = some (file, node)) : (node, path) ∈ c.lruList := by
  exact h.perm.subset (List.mem_map_of_mem (mem_of_lookup_eq_some hl))

lemma paths_toFront (h : c.Linked) {xs ys : List (ℕ × κ)} {e : ℕ × κ} (hl : c.lruList = xs ++ e :: ys) :
    e.2 ∈ c.paths ∧ (xs ++ ys).map Prod.snd = c.paths.erase e.2 := by
  have hpaths := h.paths
  rw [OpenedFiles.paths, hl, List.map_append, List.map_cons] at hpaths ⊢
  have hnot : e.2 ∉ xs.map Prod.snd := fun hm => List.disjoint_of_nodup_append hpaths hm List.mem_cons_self
  refine ⟨List.mem_append_right _ List.mem_cons_self, ?_⟩
  rw [List.erase_append_right _ hnot, List.erase_cons_head, List.map_append]

lemma dropLast (h : c.Linked) {init : List (ℕ × κ)} {last : ℕ × κ} (hl : c.lruList = init ++ [last]) :
    Linked { c.erase last.2 with lruList := init } := by
  have hpaths := h.paths
  have hnodes := h.nodes
  rw [OpenedFiles.paths, hl, List.map_append, List.map_singleton] at hpaths
  rw [hl, List.map_append] at hnodes
  have hfilter : c.lruList.filter (fun e => e.2 ≠ last.2) = init := by
    have hinit : ∀ e ∈ init, decide (e.2 ≠ last.2) = true := fun e he => decide_eq_true fun heq =>
      List.disjoint_of_nodup_append hpaths (List.mem_map_of_mem he) (List.mem_singleton.mpr heq)
    rw [hl, List.filter_append, List.filter_eq_self.mpr hinit, List.filter_singleton]
    simp
  refine ⟨?_, (List.nodup_append.mp hnodes).1, (List.nodup_append.mp hpaths).1, fun e he => h.fresh e ?_,
    fun e he => h.names e (List.mem_of_mem_filter he)⟩
  · have hperm := h.perm.filter fun e => decide (e.2 ≠ last.2)
    rwa [hfilter, List.filter_map] at hperm
  · rw [hl]
    exact List.mem_append_left _ he

lemma cleanupLoop (n : ℕ) (h : c.Linked) :
    (cleanupLoop n c).Linked ∧ (OpenedFiles.cleanupLoop n c).paths = c.paths.take (c.paths.length - n) := by
  induction n generalizing c with
  | zero => exact ⟨h, by rw [OpenedFiles.cleanupLoop, Nat.sub_zero, List.take_length]⟩
  | succ n ih =>
    rw [OpenedFiles.cleanupLoop]
    rcases List.eq_nil_or_concat c.lruList with hl | ⟨init, last, hl⟩
    · rw [hl]
      exact ⟨h, by simp [OpenedFiles.paths, hl]⟩
    · rw [List.concat_eq_append] at hl
      obtain ⟨hlinked, hpaths⟩ := ih (h.dropLast hl)
      simp only [hl, List.getLast?_concat, List.dropLast_concat]
      refine ⟨hlinked, hpaths.trans ?_⟩
      have hinit : c.paths = init.map Prod.snd ++ [last.2] := by rw [OpenedFiles.paths, hl, List.map_append]; rfl
      rw [hinit, List.length_append, List.length_singleton, Nat.add_sub_add_right, OpenedFiles.paths,
        List.take_append_of_le_length (Nat.sub_le _ _)]

lemma getFile (h : c.Linked) (path : κ) :
    ∃ c' file, c.getFile path = some (c', file) ∧ c'.Linked ∧ c'.paths = request maxFiles cleanupFiles c.paths path ∧
      (c'.openedFiles.lookup path).map Prod.fst = some file ∧
      ∀ opened, c.openedFiles.lookup path = some opened → file = opened.1 ∧ c'.openedFiles = c.openedFiles := by
  rw [OpenedFiles.getFile]
  cases hl : c.openedFiles.lookup path with
  | some opened =>
    obtain ⟨file, node⟩ := opened
    obtain ⟨xs, ys, hlist, hsplice⟩ := h.spliceToFront (h.mem_of_lookup hl)
    obtain ⟨hmem, herase⟩ := h.paths_toFront hlist
    refine ⟨_, file, congrArg (Option.map fun c => (c, file)) hsplice, h.toFront hlist, ?_, ?_, fun opened ho => ?_⟩
    · rw [request, if_pos hmem, ← herase]
      rfl
    · exact congrArg (Option.map Prod.fst) hl
    · cases ho
      exact ⟨rfl, rfl⟩
  | none =>
    have hnot : path ∉ c.paths := by simp [← h.lookup_isSome, hl]
    refine ⟨_, _, rfl, ?_, ?_, ?_, fun opened ho => by cases ho⟩
    · split_ifs with hfull
      · obtain ⟨hlinked, hpaths⟩ := h.cleanupLoop cleanupFiles
        exact hlinked.pushFront fun hm => hnot (List.mem_of_mem_take (hpaths ▸ hm))
      · exact h.pushFront hnot
    · rw [request, if_neg hnot, ← h.length_eq]
      split_ifs with hfull
      · have hpaths := (h.cleanupLoop cleanupFiles).2
        rw [← h.length_eq] at hpaths
        exact congrArg (path :: ·) hpaths
      · rfl
    · exact congrArg (Option.map Prod.fst) List.lookup_cons_self

end Linked

variable [DecidableEq κ]

/-- `history` has the latest request first. -/
structure IsLru (c : OpenedFiles κ) (history : List κ) : Prop where
  keys : (c.openedFiles.map Prod.fst).Perm c.paths
  once : c.paths.Nodup
  bounded : c.openedFiles.length ≤ maxFiles
  iterators : ∀ e ∈ c.openedFiles, c.lruList.lookup e.2.2 = some e.1
  names : ∀ e ∈ c.openedFiles, e.2.1.name = e.1
  ordered : Ordered history c.paths

/-- The call takes off the paths at the end of the list, all requested before those that stay. -/
def DropsOldest (c c' : OpenedFiles κ) (history : List κ) (path : κ) : Prop :=
  ∃ kept dropped, c.paths = kept ++ dropped ∧ c'.paths = path :: kept ∧ dropped.length = cleanupFiles ∧
    ∀ a ∈ kept, ∀ b ∈ dropped, history.idxOf a < history.idxOf b

lemma Linked.isLru {c : OpenedFiles κ} (h : c.Linked) {history : List κ} (hb : c.openedFiles.length ≤ maxFiles)
    (ho : Ordered history c.paths) : c.IsLru history := by
  refine ⟨h.keys, h.paths, hb, fun e he => ?_, h.names, ho⟩
  exact (lookup_eq_some_iff_mem h.nodes).mpr (h.perm.subset (List.mem_map_of_mem he))

lemma DropsOldest.of_request {c c' : OpenedFiles κ} {history : List κ} {path : κ} (ho : Ordered history c.paths)
    (hn : path ∉ c.paths) (hfull : maxFiles ≤ c.paths.length)
    (hc : c'.paths = request maxFiles cleanupFiles c.paths path) : DropsOldest c c' history path := by
  rw [request, if_neg hn, if_pos hfull] at hc
  refine ⟨_, c.paths.drop (c.paths.length - cleanupFiles), (List.take_append_drop _ _).symm, hc, ?_,
    fun a ha b hb => ho.lt_of_cut _ ha hb⟩
  rw [List.length_drop]
  have : cleanupFiles ≤ maxFiles := by decide
  omega

def step (c : OpenedFiles κ) (path : κ) : Option (OpenedFiles κ) := (c.getFile path).map Prod.fst

lemma run_getFile {c : OpenedFiles κ} {history : List κ} (h : c.Linked) (hb : c.openedFiles.length ≤ maxFiles)
    (ho : Ordered history c.paths) (requests : List κ) :
    ∃ c', run step c requests = some c' ∧ c'.Linked ∧ c'.openedFiles.length ≤ maxFiles ∧
      Ordered (requests.reverse ++ history) c'.paths := by
  induction requests generalizing c history with
  | nil => exact ⟨c, rfl, h, hb, ho⟩
  | cons path requests ih =>
    obtain ⟨c₁, file, hget, h₁, hpaths, -, -⟩ := h.getFile path
    have hb₁ : c₁.openedFiles.length ≤ maxFiles := by
      rw [h.length_eq] at hb
      rw [h₁.length_eq, hpaths]
      exact length_request_le hb (by decide) (by decide) path
    obtain ⟨c', hrun, h', hb', ho'⟩ := ih h₁ hb₁ (hpaths ▸ ho.request maxFiles cleanupFiles path)
    rw [List.reverse_cons, List.append_assoc]
    exact ⟨c', run_cons_eq_some.mpr ⟨c₁, by rw [step, hget]; rfl, hrun⟩, h', hb', ho'⟩

theorem getFile_least_recently_used (requests : List κ) :
    ∃ c, run step (create : OpenedFiles κ) requests = some c ∧ c.IsLru requests.reverse ∧
      ∀ path, ∃ c' file, c.getFile path = some (c', file) ∧
        c'.paths = request maxFiles cleanupFiles c.paths path ∧ c'.paths.head? = some path ∧
        (c'.openedFiles.lookup path).map Prod.fst = some file ∧ file.name = path ∧
        (∀ opened, c.openedFiles.lookup path = some opened → file = opened.1 ∧ c'.openedFiles = c.openedFiles) ∧
        (c.openedFiles.lookup path = none → maxFiles ≤ c.openedFiles.length →
          DropsOldest c c' requests.reverse path) := by
  obtain ⟨c, hrun, hlinked, hb, ho⟩ := run_getFile (.create : Linked (create : OpenedFiles κ)) (Nat.zero_le _) .nil requests
  rw [List.append_nil] at ho
  refine ⟨c, hrun, hlinked.isLru hb ho, fun path => ?_⟩
  obtain ⟨c', file, hget, hlinked', hpaths, hopened, hcached⟩ := hlinked.getFile path
  obtain ⟨⟨file', node⟩, hl, rfl⟩ := Option.map_eq_some_iff.mp hopened
  refine ⟨c', file', hget, hpaths, hpaths ▸ head?_request _ _ _ path, hopened, hlinked'.names _ (mem_of_lookup_eq_some hl),
    hcached, fun hnone hfull => .of_request ho ?_ (hlinked.length_eq ▸ hfull) hpaths⟩
  simp [← hlinked.lookup_isSome, hnone]

theorem getFile_least_recently_used_full :
    ∃ c c' file, run step (create : OpenedFiles ℕ) (List.range maxFiles) = some c ∧
      c.IsLru (List.range maxFiles).reverse ∧ c.openedFiles.length = maxFiles ∧
      c.getFile maxFiles = some (c', file) ∧ c'.openedFiles.length = maxFiles - cleanupFiles + 1 ∧
      DropsOldest c c' (List.range maxFiles).reverse maxFiles := by
  have hfull : ∀ c, run step (create : OpenedFiles ℕ) (List.range maxFiles) = some c →
      c.openedFiles.length = maxFiles ∧ c.openedFiles.lookup maxFiles = none ∧
        ∀ r, c.getFile maxFiles = some r → r.1.openedFiles.length = maxFiles - cleanupFiles + 1 := by
    decide +kernel
  obtain ⟨c, hrun, hlru, hget⟩ := getFile_least_recently_used (List.range maxFiles)
  obtain ⟨hlength, hnone, hafter⟩ := hfull c hrun
  obtain ⟨c', file, hc', -, -, -, -, -, hdrops⟩ := hget maxFiles
  exact ⟨c, c', file, hrun, hlru, hlength, hc', hafter _ hc', hdrops hnone hlength.ge⟩

end OpenedFiles

end FastTransport.FileSystem
