import FastTransport.Lib.PathTree
import FastTransport.Lib.Runs
import FastTransport.TaskQueue.NotifyInvalEntryJob

/-! The watches of a directory tree: one watch for each directory, set up and taken down as the kernel reports the
changes. Paths are relative to the root. -/

namespace FastTransport.FileSystem

open Lib Lib.Runs
open TaskQueue (WatchEventType)

abbrev DirPath := List String

abbrev DirTree := PathTree String ℕ

def inModify : BitVec 32 := 0x2#32
def inAttrib : BitVec 32 := 0x4#32
def inCloseWrite : BitVec 32 := 0x8#32
def inMovedFrom : BitVec 32 := 0x40#32
def inMovedTo : BitVec 32 := 0x80#32
def inCreate : BitVec 32 := 0x100#32
def inDelete : BitVec 32 := 0x200#32
def inIgnored : BitVec 32 := 0x8000#32
def inIsDir : BitVec 32 := 0x40000000#32

def watchMask : BitVec 32 :=
  inModify ||| inCloseWrite ||| inCreate ||| inDelete ||| inMovedFrom ||| inMovedTo ||| inAttrib

/-- `name` is empty when the event is about the watched directory itself. -/
structure InotifyEvent where
  wd : ℕ
  mask : BitVec 32
  name : String
  deriving DecidableEq, Repr

def InotifyEvent.has (event : InotifyEvent) (flags : BitVec 32) : Bool := event.mask &&& flags ≠ 0

def InotifyEvent.ignored (wd : ℕ) : InotifyEvent := ⟨wd, inIgnored, ""⟩

/-- The kernel's side: the watched inodes with their descriptors, and the events that have not been read. -/
structure Inotify where
  watches : List (ℕ × ℕ)
  nextWd : ℕ
  queue : List InotifyEvent

namespace Inotify

def watch? (k : Inotify) (inode : ℕ) : Option ℕ := k.watches.lookup inode

/-- A second watch on an inode is the first one. -/
def addWatch (k : Inotify) (inode : ℕ) : ℕ × Inotify :=
  match k.watch? inode with
  | some wd => (wd, k)
  | none => (k.nextWd, { k with watches := (inode, k.nextWd) :: k.watches, nextWd := k.nextWd + 1 })

/-- A descriptor that is not valid any more is an error without effect. -/
def rmWatch (k : Inotify) (wd : ℕ) : Inotify :=
  if k.watches.any fun e => e.2 = wd then
    { k with watches := k.watches.filter fun e => e.2 ≠ wd, queue := k.queue ++ [.ignored wd] }
  else k

def dropWatches (k : Inotify) (gone : List ℕ) : Inotify := { k with watches := k.watches.filter fun e => e.1 ∉ gone }

def dropped (k : Inotify) (gone : List ℕ) : List InotifyEvent :=
  (k.watches.filter fun e => e.1 ∈ gone).map fun e => .ignored e.2

def post (k : Inotify) (events : List InotifyEvent) : Inotify := { k with queue := k.queue ++ events }

end Inotify

structure InotifyWatcher where
  wdToPath : ℕ → Option DirPath
  pathToWd : DirPath → Option ℕ

namespace InotifyWatcher

def insert (w : InotifyWatcher) (wd : ℕ) (dir : DirPath) : InotifyWatcher :=
  ⟨Function.update w.wdToPath wd (some dir), Function.update w.pathToWd dir (some wd)⟩

def erase (w : InotifyWatcher) (wd : ℕ) (dir : DirPath) : InotifyWatcher :=
  ⟨Function.update w.wdToPath wd none, Function.update w.pathToWd dir none⟩

end InotifyWatcher

structure WatchEvent where
  path : DirPath
  name : String
  type : WatchEventType
  isDir : Bool
  deriving DecidableEq, Repr

def InotifyEvent.type? (event : InotifyEvent) : Option WatchEventType :=
  if event.has (inModify ||| inCloseWrite ||| inAttrib) then some .modified
  else if event.has inCreate then some .created
  else if event.has inDelete then some .deleted
  else if event.has inMovedFrom then some .movedFrom
  else if event.has inMovedTo then some .movedTo
  else none

structure WatchedTree where
  tree : DirTree
  kernel : Inotify
  watcher : InotifyWatcher

namespace WatchedTree

/-- The head of the list is the back of the source's vector. -/
def addWatchLoop : ℕ → List DirPath → WatchedTree → WatchedTree
  | 0, _, s => s
  | _ + 1, [], s => s
  | fuel + 1, dir :: queue, s =>
    match s.tree.find dir with
    | none => addWatchLoop fuel queue s
    | some inode =>
      let (watchDesc, kernel) := s.kernel.addWatch inode
      addWatchLoop fuel ((s.tree.children dir).reverse ++ queue)
        { s with kernel := kernel, watcher := s.watcher.insert watchDesc dir }

def addWatch (s : WatchedTree) (startDir : DirPath) : WatchedTree :=
  addWatchLoop (s.tree.nodes.length + 1) [startDir] s

def removeWatch (s : WatchedTree) (watchDesc : ℕ) : WatchedTree :=
  match s.watcher.wdToPath watchDesc with
  | none => s
  | some dir => { s with kernel := s.kernel.rmWatch watchDesc, watcher := s.watcher.erase watchDesc dir }

/-- The second component goes to the callback. -/
def processEvent (s : WatchedTree) (event : InotifyEvent) : WatchedTree × Option WatchEvent :=
  match s.watcher.wdToPath event.wd with
  | none => (s, none)
  | some dir =>
    if event.has inIgnored then ({ s with watcher := s.watcher.erase event.wd dir }, none)
    else
      let isDir := event.has inIsDir
      let fullPath := if event.name = "" then dir else dir ++ [event.name]
      let t :=
        if event.has inCreate && isDir then s.addWatch fullPath
        else if event.has (inDelete ||| inMovedFrom) && isDir then
          match s.watcher.pathToWd fullPath with
          | some wd => s.removeWatch wd
          | none => s
        else s
      (t, event.type?.map fun type => ⟨fullPath, event.name, type, isDir⟩)

def create (tree : DirTree) : WatchedTree :=
  addWatch ⟨tree, ⟨[], 1, []⟩, ⟨fun _ => none, fun _ => none⟩⟩ []

def events (s : WatchedTree) (dir : DirPath) (mask : BitVec 32) (name : String) : List InotifyEvent :=
  if mask &&& watchMask = 0 then []
  else (((s.tree.find dir).bind s.kernel.watch?).map fun wd => ⟨wd, mask, name⟩).toList

/-- Changes of the directories, and `other` for what happens to a file of `dir`. A directory may be created with
what is below it, and deleted so; `ignoredFirst` says in which order the kernel then reports. -/
inductive Change
  | create (parent : DirPath) (name : String) (sub : DirTree)
  | remove (parent : DirPath) (name : String) (ignoredFirst : Bool)
  | rename (parent : DirPath) (name : String) (parent' : DirPath) (name' : String)
  | other (dir : DirPath) (mask : BitVec 32) (name : String)

def inodesBelow (s : WatchedTree) (dir : DirPath) : List ℕ := (s.tree.nodesBelow dir).map Prod.snd

/-- A rename may take the place of an empty directory. -/
def change (s : WatchedTree) : Change → Option WatchedTree
  | .create parent name sub =>
    if h : name ≠ "" ∧ s.tree.Takes parent name sub then
      some { s with
        tree := s.tree.graft parent name sub h.2
        kernel := s.kernel.post (s.events parent (inCreate ||| inIsDir) name) }
    else none
  | .remove parent name ignoredFirst =>
    if name ≠ "" ∧ parent ++ [name] ∈ s.tree.paths then
      let gone := s.inodesBelow (parent ++ [name])
      let deleted := s.events parent (inDelete ||| inIsDir) name
      let ignored := s.kernel.dropped gone
      some { s with
        tree := s.tree.remove parent name
        kernel := (s.kernel.dropWatches gone).post (if ignoredFirst then ignored ++ deleted else deleted ++ ignored) }
    else none
  | .rename parent name parent' name' =>
    if h : name ≠ "" ∧ name' ≠ "" ∧ parent ++ [name] ≠ parent' ++ [name'] ∧ s.tree.children (parent' ++ [name']) = [] ∧
        parent ++ [name] ∈ s.tree.paths then
      let sub := s.tree.subtree (parent ++ [name]) h.2.2.2.2
      let rest := (s.tree.remove parent name).remove parent' name'
      let replaced := s.inodesBelow (parent' ++ [name'])
      if h' : rest.Takes parent' name' sub then
        some { s with
          tree := rest.graft parent' name' sub h'
          kernel := (s.kernel.dropWatches replaced).post
            (s.events parent (inMovedFrom ||| inIsDir) name ++ s.events parent' (inMovedTo ||| inIsDir) name' ++
              s.kernel.dropped replaced) }
      else none
    else none
  | .other dir mask name =>
    if mask &&& (inIgnored ||| inIsDir) = 0 then some { s with kernel := s.kernel.post (s.events dir mask name) }
    else none

def withQueue (s : WatchedTree) (queue : List InotifyEvent) : WatchedTree :=
  { s with kernel := { s.kernel with queue := queue } }

inductive Step
  | change (c : Change)
  | deliver

/-- A change waits until all events of the one before have been processed. -/
def step (s : WatchedTree) : Step → Option WatchedTree
  | .change c => if s.kernel.queue.isEmpty then s.change c else none
  | .deliver =>
    match s.kernel.queue with
    | [] => none
    | event :: queue => some ((s.withQueue queue).processEvent event).1

/-- The watched paths are the directories, and the two maps are inverse to each other. -/
structure Follows (s : WatchedTree) : Prop where
  watched : ∀ p, (∃ wd, s.watcher.pathToWd p = some wd) ↔ p ∈ s.tree.paths
  inverse : ∀ p wd, s.watcher.pathToWd p = some wd ↔ s.watcher.wdToPath wd = some p

/-- No directory is renamed, and none is deleted that has directories below it. -/
def Allowed (s : WatchedTree) : Step → Prop
  | .change (.rename _ _ _ _) => False
  | .change (.remove parent name _) => s.tree.children (parent ++ [name]) = []
  | _ => True

def Attached (s : WatchedTree) (p : DirPath) (wd : ℕ) : Prop :=
  ∃ i, (p, i) ∈ s.tree.nodes ∧ (i, wd) ∈ s.kernel.watches

/-- The watched directories are those that are not `pending`, and the maps hold their watches and the `stale` ones. -/
structure Mapped (s : WatchedTree) (stale : DirPath → ℕ → Prop) (pending : DirPath → Prop) : Prop where
  inodes : (s.kernel.watches.map Prod.fst).Nodup
  wds : (s.kernel.watches.map Prod.snd).Nodup
  fresh : ∀ e ∈ s.kernel.watches, e.2 < s.kernel.nextWd
  watched : ∀ i, i ∈ s.kernel.watches.map Prod.fst ↔ ∃ q, (q, i) ∈ s.tree.nodes ∧ ¬ pending q
  paths : ∀ p wd, s.watcher.pathToWd p = some wd ↔ s.Attached p wd ∨ stale p wd
  descriptors : ∀ p wd, s.watcher.wdToPath wd = some p ↔ s.Attached p wd ∨ stale p wd

abbrev Settled (s : WatchedTree) : Prop := s.Mapped (fun _ _ => False) fun _ => False

namespace Mapped

variable {s : WatchedTree} {stale : DirPath → ℕ → Prop} {pending pending' : DirPath → Prop}

lemma attached_iff (h : s.Mapped stale pending) {p : DirPath} :
    (∃ wd, s.Attached p wd) ↔ p ∈ s.tree.paths ∧ ¬ pending p := by
  constructor
  · rintro ⟨wd, i, hi, hw⟩
    obtain ⟨q, hq, hn⟩ := (h.watched i).mp (List.mem_map_of_mem hw)
    rw [PathTree.path_unique hi hq]
    exact ⟨PathTree.mem_paths_of_mem hq, hn⟩
  · rintro ⟨hp, hn⟩
    obtain ⟨i, hi⟩ := PathTree.exists_mem hp
    obtain ⟨⟨j, wd⟩, hw, rfl⟩ := List.mem_map.mp ((h.watched i).mpr ⟨p, hi, hn⟩)
    exact ⟨wd, j, hi, hw⟩

lemma path_unique (h : s.Mapped stale pending) {p q : DirPath} {wd : ℕ} (hp : s.Attached p wd) (hq : s.Attached q wd) :
    p = q := by
  obtain ⟨i, hi, hw⟩ := hp
  obtain ⟨j, hj, hw'⟩ := hq
  obtain rfl : i = j := congrArg Prod.fst (List.inj_on_of_nodup_map h.wds hw hw' rfl)
  exact PathTree.path_unique hi hj

lemma wd_unique (h : s.Mapped stale pending) {p : DirPath} {wd wd' : ℕ} (hp : s.Attached p wd)
    (hp' : s.Attached p wd') : wd = wd' := by
  obtain ⟨i, hi, hw⟩ := hp
  obtain ⟨j, hj, hw'⟩ := hp'
  obtain rfl : i = j := PathTree.id_unique hi hj
  exact congrArg Prod.snd (List.inj_on_of_nodup_map h.inodes hw hw' rfl)

lemma follows (h : s.Settled) : s.Follows where
  watched p := by
    simp only [h.paths, or_false, h.attached_iff, not_false_eq_true, and_true]
  inverse p wd := (h.paths p wd).trans (h.descriptors p wd).symm

lemma watch?_eq_some (h : s.Mapped stale pending) {i wd : ℕ} : s.kernel.watch? i = some wd ↔ (i, wd) ∈ s.kernel.watches :=
  Lists.lookup_eq_some_iff_mem h.inodes

lemma watch?_eq_none (h : s.Mapped stale pending) {dir : DirPath} {inode : ℕ} (hdir : (dir, inode) ∈ s.tree.nodes)
    (hp : pending dir) : s.kernel.watch? inode = none := by
  rw [Option.eq_none_iff_forall_ne_some]
  intro wd hwd
  have hd := h.attached_iff.mp ⟨wd, inode, hdir, h.watch?_eq_some.mp hwd⟩
  exact hd.2 hp

lemma watch (h : s.Mapped (fun _ _ => False) pending) {dir : DirPath} {inode : ℕ}
    (hdir : (dir, inode) ∈ s.tree.nodes) (hp : pending dir)
    (hp' : ∀ q ∈ s.tree.paths, ¬ pending' q ↔ ¬ pending q ∨ q = dir) :
    Mapped { s with
      kernel := (s.kernel.addWatch inode).2
      watcher := s.watcher.insert (s.kernel.addWatch inode).1 dir } (fun _ _ => False) pending' := by
  have hadd : s.kernel.addWatch inode = (s.kernel.nextWd,
      { s.kernel with watches := (inode, s.kernel.nextWd) :: s.kernel.watches, nextWd := s.kernel.nextWd + 1 }) := by
    rw [Inotify.addWatch, h.watch?_eq_none hdir hp]
  rw [hadd]
  have hnew : ∀ p, ¬ s.Attached p s.kernel.nextWd := by
    rintro p ⟨i, -, hw⟩
    exact (h.fresh _ hw).false
  have hnone : ∀ wd, ¬ s.Attached dir wd := fun wd hwd => (h.attached_iff.mp ⟨wd, hwd⟩).2 hp
  have hunwatched : inode ∉ s.kernel.watches.map Prod.fst := by
    intro hm
    obtain ⟨⟨_, wd⟩, hw, rfl⟩ := List.mem_map.mp hm
    exact hnone wd ⟨_, hdir, hw⟩
  have hattached : ∀ p wd, Attached { s with
      kernel := { s.kernel with
        watches := (inode, s.kernel.nextWd) :: s.kernel.watches, nextWd := s.kernel.nextWd + 1 }
      watcher := s.watcher.insert s.kernel.nextWd dir } p wd ↔
      s.Attached p wd ∨ p = dir ∧ wd = s.kernel.nextWd := by
    intro p wd
    constructor
    · rintro ⟨i, hi, hw⟩
      rcases List.mem_cons.mp hw with heq | hw
      · obtain ⟨rfl, rfl⟩ := Prod.mk.inj heq
        exact Or.inr ⟨PathTree.path_unique hi hdir, rfl⟩
      · exact Or.inl ⟨i, hi, hw⟩
    · rintro (⟨i, hi, hw⟩ | ⟨rfl, rfl⟩)
      · exact ⟨i, hi, List.mem_cons_of_mem _ hw⟩
      · exact ⟨inode, hdir, List.mem_cons_self⟩
  constructor
  case inodes => exact List.nodup_cons.mpr ⟨hunwatched, h.inodes⟩
  case wds =>
    refine List.nodup_cons.mpr ⟨fun hm => ?_, h.wds⟩
    obtain ⟨e, he, heq⟩ := List.mem_map.mp hm
    exact (h.fresh e he).ne heq
  case fresh =>
    intro e he
    rcases List.mem_cons.mp he with rfl | he
    · exact Nat.lt_succ_self _
    · exact (h.fresh e he).trans (Nat.lt_succ_self _)
  case watched =>
    intro i
    have hcons : i ∈ ((inode, s.kernel.nextWd) :: s.kernel.watches).map Prod.fst ↔
        i = inode ∨ ∃ q, (q, i) ∈ s.tree.nodes ∧ ¬ pending q := by
      rw [List.map_cons, List.mem_cons, h.watched]
    refine hcons.trans ⟨?_, ?_⟩
    · rintro (rfl | ⟨q, hq, hn⟩)
      · exact ⟨dir, hdir, (hp' dir (PathTree.mem_paths_of_mem hdir)).mpr (Or.inr rfl)⟩
      · exact ⟨q, hq, (hp' q (PathTree.mem_paths_of_mem hq)).mpr (Or.inl hn)⟩
    · rintro ⟨q, hq, hn⟩
      rcases (hp' q (PathTree.mem_paths_of_mem hq)).mp hn with hn | rfl
      · exact Or.inr ⟨q, hq, hn⟩
      · exact Or.inl (PathTree.id_unique hq hdir)
  case paths =>
    intro p wd
    rw [hattached, or_false]
    change Function.update s.watcher.pathToWd dir (some s.kernel.nextWd) p = some wd ↔ _
    by_cases hpd : p = dir
    · subst hpd
      simp only [Function.update_self, Option.some.injEq, hnone, false_or, true_and, eq_comm]
    · simp only [Function.update_of_ne hpd, h.paths, or_false, hpd, false_and]
  case descriptors =>
    intro p wd
    rw [hattached, or_false]
    change Function.update s.watcher.wdToPath s.kernel.nextWd (some dir) wd = some p ↔ _
    by_cases hwd : wd = s.kernel.nextWd
    · subst hwd
      simp only [Function.update_self, Option.some.injEq, hnew, false_or, and_true, eq_comm]
    · simp only [Function.update_of_ne hwd, h.descriptors, or_false, hwd, and_false]

lemma congr (h : s.Mapped stale pending) {stale' : DirPath → ℕ → Prop} (hs : ∀ p wd, stale p wd ↔ stale' p wd)
    (hp : ∀ q ∈ s.tree.paths, pending q ↔ pending' q) : s.Mapped stale' pending' where
  inodes := h.inodes
  wds := h.wds
  fresh := h.fresh
  watched i := by
    rw [h.watched]
    apply exists_congr
    intro q
    exact and_congr_right fun hq => not_congr (hp q (PathTree.mem_paths_of_mem hq))
  paths p wd := by rw [h.paths, hs]
  descriptors p wd := by rw [h.descriptors, hs]

lemma queue (h : s.Mapped stale pending) (queue : List InotifyEvent) : (s.withQueue queue).Mapped stale pending :=
  ⟨h.inodes, h.wds, h.fresh, h.watched, h.paths, h.descriptors⟩

lemma erase {p : DirPath} {wd : ℕ} (h : s.Mapped (fun q w => q = p ∧ w = wd) fun _ => False)
    (hp : p ∉ s.tree.paths) (hwd : wd ∉ s.kernel.watches.map Prod.snd) :
    Settled { s with watcher := s.watcher.erase wd p } where
  inodes := h.inodes
  wds := h.wds
  fresh := h.fresh
  watched := h.watched
  paths q w := by
    rw [or_false]
    change Function.update s.watcher.pathToWd p none q = some w ↔ s.Attached q w
    by_cases hqp : q = p
    · rw [hqp, Function.update_self]
      exact iff_of_false nofun fun ⟨i, hi, _⟩ => hp (PathTree.mem_paths_of_mem hi)
    · rw [Function.update_of_ne hqp, h.paths]
      exact or_iff_left fun hq => hqp hq.1
  descriptors q w := by
    rw [or_false]
    change Function.update s.watcher.wdToPath wd none w = some q ↔ s.Attached q w
    by_cases hw : w = wd
    · rw [hw, Function.update_self]
      exact iff_of_false nofun fun ⟨i, _, hi⟩ => hwd (List.mem_map_of_mem hi)
    · rw [Function.update_of_ne hw, h.descriptors]
      exact or_iff_left fun hq => hw hq.2

end Mapped

lemma addWatchLoop_tree (fuel : ℕ) (tops : List DirPath) (s : WatchedTree) :
    (addWatchLoop fuel tops s).tree = s.tree ∧ (addWatchLoop fuel tops s).kernel.queue = s.kernel.queue := by
  induction fuel generalizing tops s with
  | zero => exact ⟨rfl, rfl⟩
  | succ fuel ih =>
    cases tops with
    | nil => exact ⟨rfl, rfl⟩
    | cons dir tops =>
      rw [addWatchLoop]
      cases s.tree.find dir with
      | none => exact ih tops s
      | some inode =>
        obtain ⟨ht, hq⟩ := ih ((s.tree.children dir).reverse ++ tops) { s with
          kernel := (s.kernel.addWatch inode).2
          watcher := s.watcher.insert (s.kernel.addWatch inode).1 dir }
        refine ⟨ht, hq.trans ?_⟩
        change (s.kernel.addWatch inode).2.queue = s.kernel.queue
        rw [Inotify.addWatch]
        cases s.kernel.watch? inode <;> rfl

/-- The loop ends with every directory watched: the pending ones are those below the queue, and the fuel is not
less than their number. -/
lemma addWatchLoop_settled (fuel : ℕ) (tops : List DirPath) (s : WatchedTree) (hf : s.tree.Frontier tops)
    (h : s.Mapped (fun _ _ => False) fun q => ∃ p ∈ tops, p <+: q) (hfuel : (s.tree.below tops).length ≤ fuel) :
    (addWatchLoop fuel tops s).Settled := by
  induction fuel generalizing tops s with
  | zero =>
    have hnone : s.tree.below tops = [] := List.eq_nil_of_length_eq_zero (Nat.le_zero.mp hfuel)
    refine h.congr (fun _ _ => Iff.rfl) fun q hq => iff_false_intro fun hb => ?_
    exact List.filter_eq_nil_iff.mp hnone q hq (decide_eq_true hb)
  | succ fuel ih =>
    cases tops with
    | nil => exact h.congr (fun _ _ => Iff.rfl) fun q _ => by simp
    | cons dir tops =>
      obtain ⟨inode, hdir⟩ := PathTree.exists_mem (hf.mem dir List.mem_cons_self)
      rw [addWatchLoop, PathTree.find_eq_some.mpr hdir]
      have hmapped : Mapped { s with
          kernel := (s.kernel.addWatch inode).2
          watcher := s.watcher.insert (s.kernel.addWatch inode).1 dir } (fun _ _ => False)
          fun q => ∃ p ∈ (s.tree.children dir).reverse ++ tops, p <+: q := by
        apply h.watch hdir ⟨dir, List.mem_cons_self, List.prefix_refl dir⟩
        intro q hq
        rw [hf.below_expand hq, not_and_or, not_not]
      exact ih _ _ hf.expand hmapped (Nat.le_of_lt_succ (hf.length_below_expand.trans_le hfuel))

lemma addWatch_settled {s : WatchedTree} {dir : DirPath} (hdir : dir ∈ s.tree.paths)
    (h : s.Mapped (fun _ _ => False) fun q => dir <+: q) : (s.addWatch dir).Settled := by
  apply addWatchLoop_settled
  · exact PathTree.Frontier.singleton hdir
  · exact h.congr (fun _ _ => Iff.rfl) fun q _ => by simp
  · have hle : (s.tree.below [dir]).length ≤ s.tree.paths.length := List.length_filter_le _ _
    rw [PathTree.paths, List.length_map] at hle
    exact hle.trans (Nat.le_succ _)

theorem create_settled (tree : DirTree) : (create tree).Settled := by
  apply addWatch_settled tree.root
  constructor
  case inodes => exact List.nodup_nil
  case wds => exact List.nodup_nil
  case fresh => exact fun e he => absurd he List.not_mem_nil
  case watched => exact fun i => iff_of_false List.not_mem_nil fun ⟨q, _, hn⟩ => hn (List.nil_prefix)
  case paths => exact fun p wd => iff_of_false nofun fun h => h.elim (fun ⟨i, _, hi⟩ => List.not_mem_nil hi) id
  case descriptors => exact fun p wd => iff_of_false nofun fun h => h.elim (fun ⟨i, _, hi⟩ => List.not_mem_nil hi) id

section events

variable {s : WatchedTree} {event : InotifyEvent} {dir : DirPath} {wd : ℕ} {mask : BitVec 32} {name : String}

lemma processEvent_unknown (hwd : s.watcher.wdToPath event.wd = none) : (s.processEvent event).1 = s := by
  simp only [processEvent, hwd]

lemma processEvent_ignored (hwd : s.watcher.wdToPath wd = some dir) :
    (s.processEvent (.ignored wd)).1 = { s with watcher := s.watcher.erase wd dir } := by
  have hmask : inIgnored &&& inIgnored ≠ 0 := by decide
  have hignored : (InotifyEvent.ignored wd).has inIgnored := decide_eq_true hmask
  have hwd' : s.watcher.wdToPath (InotifyEvent.ignored wd).wd = some dir := hwd
  simp only [processEvent, hwd', hignored, if_true]
  rfl

lemma processEvent_isDir (hwd : s.watcher.wdToPath wd = some dir) (hname : name ≠ "")
    (hignored : mask &&& inIgnored = 0) (hisDir : mask &&& inIsDir ≠ 0) :
    (s.processEvent ⟨wd, mask, name⟩).1 =
      if mask &&& inCreate ≠ 0 then s.addWatch (dir ++ [name])
      else if mask &&& (inDelete ||| inMovedFrom) ≠ 0 then (s.watcher.pathToWd (dir ++ [name])).elim s s.removeWatch
      else s := by
  simp only [processEvent, hwd, InotifyEvent.has, hignored, hisDir, hname, ne_eq, not_true_eq_false,
    not_false_eq_true, decide_false, decide_true, Bool.and_true, Bool.false_eq_true, if_false, decide_eq_true_eq]
  split_ifs
  · rfl
  · cases s.watcher.pathToWd (dir ++ [name]) <;> rfl
  · rfl

lemma processEvent_create (hwd : s.watcher.wdToPath wd = some dir) (hname : name ≠ "") :
    (s.processEvent ⟨wd, inCreate ||| inIsDir, name⟩).1 = s.addWatch (dir ++ [name]) := by
  rw [processEvent_isDir hwd hname (by decide) (by decide), if_pos (by decide)]

lemma processEvent_gone (hmask : mask = inDelete ∨ mask = inMovedFrom)
    (hwd : s.watcher.wdToPath wd = some dir) (hname : name ≠ "") :
    (s.processEvent ⟨wd, mask ||| inIsDir, name⟩).1 =
      (s.watcher.pathToWd (dir ++ [name])).elim s s.removeWatch := by
  rcases hmask with rfl | rfl <;>
    rw [processEvent_isDir hwd hname (by decide) (by decide), if_neg (by decide), if_pos (by decide)]

lemma processEvent_movedTo (hname : name ≠ "") : (s.processEvent ⟨wd, inMovedTo ||| inIsDir, name⟩).1 = s := by
  cases hwd : s.watcher.wdToPath wd with
  | none => exact processEvent_unknown hwd
  | some dir => rw [processEvent_isDir hwd hname (by decide) (by decide), if_neg (by decide), if_neg (by decide)]

lemma processEvent_other (hmask : event.mask &&& (inIgnored ||| inIsDir) = 0) : (s.processEvent event).1 = s := by
  rw [BitVec.and_or_distrib_left] at hmask
  obtain ⟨hignored, hisDir⟩ := BitVec.or_eq_zero_iff.mp hmask
  cases hwd : s.watcher.wdToPath event.wd with
  | none => exact processEvent_unknown hwd
  | some dir => simp [processEvent, InotifyEvent.has, hwd, hignored, hisDir]

def Erases (s t : WatchedTree) : Prop :=
  t.tree = s.tree ∧ ∃ p, ∀ q, t.watcher.pathToWd q = s.watcher.pathToWd q ∨ q = p ∧ t.watcher.pathToWd q = none

lemma erases_erase (s : WatchedTree) (kernel : Inotify) (wd : ℕ) (dir : DirPath) :
    s.Erases { s with kernel := kernel, watcher := s.watcher.erase wd dir } := by
  refine ⟨rfl, dir, fun q => ?_⟩
  change Function.update s.watcher.pathToWd dir none q = _ ∨
    q = dir ∧ Function.update s.watcher.pathToWd dir none q = none
  by_cases hq : q = dir
  · rw [hq, Function.update_self]
    exact Or.inr ⟨rfl, rfl⟩
  · rw [Function.update_of_ne hq]
    exact Or.inl rfl

lemma erases_self (s : WatchedTree) : s.Erases s := ⟨rfl, [], fun _ => Or.inl rfl⟩

lemma erases_removeWatch (s : WatchedTree) (wd : ℕ) : s.Erases (s.removeWatch wd) := by
  rw [removeWatch]
  cases s.watcher.wdToPath wd with
  | none => exact s.erases_self
  | some dir => exact s.erases_erase _ wd dir

lemma erases_ignored (s : WatchedTree) (wd : ℕ) : s.Erases (s.processEvent (.ignored wd)).1 := by
  cases hwd : s.watcher.wdToPath wd with
  | none =>
    rw [processEvent_unknown hwd]
    exact s.erases_self
  | some dir =>
    rw [processEvent_ignored hwd]
    exact s.erases_erase s.kernel wd dir

lemma erases_gone (hmask : mask = inDelete ∨ mask = inMovedFrom) (hwd : s.watcher.wdToPath wd = some dir)
    (hname : name ≠ "") : s.Erases (s.processEvent ⟨wd, mask ||| inIsDir, name⟩).1 := by
  rw [processEvent_gone hmask hwd hname]
  cases s.watcher.pathToWd (dir ++ [name]) with
  | none => exact s.erases_self
  | some wd' => exact s.erases_removeWatch wd'

end events

namespace Mapped

variable {s : WatchedTree} {dir : DirPath} {name : String} {wd : ℕ}

lemma mem_inodesBelow {p : DirPath} {i : ℕ} (hi : (p, i) ∈ s.tree.nodes) : i ∈ s.inodesBelow dir ↔ dir <+: p := by
  constructor
  · intro h
    obtain ⟨⟨r, j⟩, hr, rfl⟩ := List.mem_map.mp h
    rw [PathTree.path_unique hi (PathTree.mem_nodesBelow.mp hr)]
    exact List.prefix_append dir r
  · rintro ⟨r, rfl⟩
    exact List.mem_map_of_mem (PathTree.mem_nodesBelow.mpr hi)

lemma events_eq (h : s.Settled) (hdir : dir ∈ s.tree.paths) : ∃ wd, s.Attached dir wd ∧
    ∀ mask name, mask &&& watchMask ≠ 0 → s.events dir mask name = [⟨wd, mask, name⟩] := by
  obtain ⟨wd, i, hi, hw⟩ := h.attached_iff.mpr ⟨hdir, not_false⟩
  refine ⟨wd, ⟨i, hi, hw⟩, fun mask name hmask => ?_⟩
  rw [events, if_neg hmask, PathTree.find_eq_some.mpr hi, Option.bind_some, h.watch?_eq_some.mpr hw]
  rfl

lemma graft (h : s.Settled) {parent : DirPath} {sub : DirTree} (takes : s.tree.Takes parent name sub)
    (events : List InotifyEvent) :
    Mapped { s with tree := s.tree.graft parent name sub takes, kernel := s.kernel.post events }
      (fun _ _ => False) fun q => parent ++ [name] <+: q := by
  have hnodes : ∀ q i, (q, i) ∈ (s.tree.graft parent name sub takes).nodes ∧ ¬ parent ++ [name] <+: q ↔
      (q, i) ∈ s.tree.nodes := by
    intro q i
    rw [PathTree.mem_graft]
    constructor
    · rintro ⟨hm | ⟨r, rfl, -⟩, hn⟩
      · exact hm
      · exact absurd (List.prefix_append _ r) hn
    · exact fun hm => ⟨Or.inl hm, takes.not_below (PathTree.mem_paths_of_mem hm)⟩
  have hattached : ∀ q w, Attached { s with
      tree := s.tree.graft parent name sub takes
      kernel := s.kernel.post events } q w ↔ s.Attached q w := by
    intro q w
    constructor
    · rintro ⟨i, hi, hw⟩
      obtain ⟨q', hq', -⟩ := (h.watched i).mp (List.mem_map_of_mem hw)
      rw [PathTree.path_unique hi ((hnodes q' i).mpr hq').1]
      exact ⟨i, hq', hw⟩
    · rintro ⟨i, hi, hw⟩
      exact ⟨i, ((hnodes q i).mpr hi).1, hw⟩
  constructor
  case inodes => exact h.inodes
  case wds => exact h.wds
  case fresh => exact h.fresh
  case watched =>
    intro i
    apply (h.watched i).trans
    simp only [not_false_eq_true, and_true, hnodes]
  case paths => exact fun q w => (h.paths q w).trans (or_congr_left (hattached q w).symm)
  case descriptors => exact fun q w => (h.descriptors q w).trans (or_congr_left (hattached q w).symm)

lemma remove (h : s.Settled) (parent : DirPath) (name : String) (events : List InotifyEvent) :
    Mapped { s with
      tree := s.tree.remove parent name
      kernel := (s.kernel.dropWatches (s.inodesBelow (parent ++ [name]))).post events }
      (fun q w => s.Attached q w ∧ parent ++ [name] <+: q) fun _ => False := by
  have hattached : ∀ q w, Attached { s with
      tree := s.tree.remove parent name
      kernel := (s.kernel.dropWatches (s.inodesBelow (parent ++ [name]))).post events } q w ↔
      s.Attached q w ∧ ¬ parent ++ [name] <+: q := by
    intro q w
    constructor
    · rintro ⟨i, hi, hw⟩
      obtain ⟨hi, hn⟩ := PathTree.mem_remove.mp hi
      exact ⟨⟨i, hi, List.mem_of_mem_filter hw⟩, hn⟩
    · rintro ⟨⟨i, hi, hw⟩, hn⟩
      refine ⟨i, PathTree.mem_remove.mpr ⟨hi, hn⟩, List.mem_filter.mpr ⟨hw, decide_eq_true ?_⟩⟩
      rwa [mem_inodesBelow hi]
  have hmaps : ∀ q w, s.Attached q w ∨ False ↔ Attached { s with
      tree := s.tree.remove parent name
      kernel := (s.kernel.dropWatches (s.inodesBelow (parent ++ [name]))).post events } q w ∨
      s.Attached q w ∧ parent ++ [name] <+: q := by
    intro q w
    rw [hattached, ← and_or_left, or_false, and_iff_left (or_comm.mp (Classical.em _))]
  constructor
  case inodes => exact h.inodes.sublist (List.filter_sublist.map _)
  case wds => exact h.wds.sublist (List.filter_sublist.map _)
  case fresh => exact fun e he => h.fresh e (List.mem_of_mem_filter he)
  case watched =>
    intro i
    constructor
    · intro hi
      obtain ⟨⟨j, w⟩, hw, rfl⟩ := List.mem_map.mp hi
      obtain ⟨hw, hn⟩ := List.mem_filter.mp hw
      obtain ⟨q, hq, -⟩ := (h.watched j).mp (List.mem_map_of_mem hw)
      refine ⟨q, PathTree.mem_remove.mpr ⟨hq, ?_⟩, not_false⟩
      rw [← mem_inodesBelow hq]
      exact of_decide_eq_true hn
    · rintro ⟨q, hq, -⟩
      obtain ⟨hq, hn⟩ := PathTree.mem_remove.mp hq
      obtain ⟨⟨j, w⟩, hw, rfl⟩ := List.mem_map.mp ((h.watched i).mpr ⟨q, hq, not_false⟩)
      refine List.mem_map.mpr ⟨(j, w), List.mem_filter.mpr ⟨hw, decide_eq_true ?_⟩, rfl⟩
      rwa [mem_inodesBelow hq]
  case paths => exact fun q w => (h.paths q w).trans (hmaps q w)
  case descriptors => exact fun q w => (h.descriptors q w).trans (hmaps q w)

lemma prefix_iff_of_childless (hc : s.tree.children dir = []) {q : DirPath} (hq : q ∈ s.tree.paths) :
    dir <+: q ↔ q = dir := by
  rw [PathTree.prefix_iff_children hq, hc]
  simp

lemma dropped_childless (h : s.Settled) (hc : s.tree.children dir = []) (hwd : s.Attached dir wd) :
    s.kernel.dropped (s.inodesBelow dir) = [.ignored wd] := by
  obtain ⟨i, hi, hw⟩ := hwd
  have hfilter : (s.kernel.watches.filter fun e => e.1 ∈ s.inodesBelow dir) = [(i, wd)] := by
    apply Lists.filter_eq_singleton h.inodes.of_map hw
    rintro ⟨j, w⟩ hj
    rw [decide_eq_true_eq]
    obtain ⟨q, hq, -⟩ := (h.watched j).mp (List.mem_map_of_mem hj)
    rw [mem_inodesBelow hq, prefix_iff_of_childless hc (PathTree.mem_paths_of_mem hq)]
    constructor
    · rintro rfl
      obtain rfl : j = i := PathTree.id_unique hq hi
      exact List.inj_on_of_nodup_map h.inodes hj hw rfl
    · intro heq
      obtain ⟨rfl, rfl⟩ := Prod.mk.inj heq
      exact PathTree.path_unique hq hi
  rw [Inotify.dropped, hfilter]
  rfl

end Mapped

def Quiet (w : InotifyWatcher) (event : InotifyEvent) : Prop :=
  ∀ s : WatchedTree, s.watcher = w → (s.processEvent event).1 = s

inductive Phase (s : WatchedTree) : Prop
  | quiet (settled : s.Settled) (quiet : ∀ event ∈ s.kernel.queue, Quiet s.watcher event)
  | created {parent : DirPath} {name : String} {wd : ℕ} (mem : parent ++ [name] ∈ s.tree.paths)
      (queue : s.kernel.queue = [⟨wd, inCreate ||| inIsDir, name⟩]) (named : name ≠ "")
      (watched : s.watcher.wdToPath wd = some parent)
      (mapped : s.Mapped (fun _ _ => False) fun q => parent ++ [name] <+: q)
  | removed {parent : DirPath} {name : String} {wd wd' : ℕ} (gone : parent ++ [name] ∉ s.tree.paths)
      (queue : s.kernel.queue = [⟨wd, inDelete ||| inIsDir, name⟩, .ignored wd'] ∨
        s.kernel.queue = [.ignored wd', ⟨wd, inDelete ||| inIsDir, name⟩]) (named : name ≠ "")
      (watched : s.watcher.wdToPath wd = some parent) (dropped : wd' ∉ s.kernel.watches.map Prod.snd)
      (mapped : s.Mapped (fun q w => q = parent ++ [name] ∧ w = wd') fun _ => False)

section steps

variable {s t : WatchedTree}

lemma step_deliver (h : s.step .deliver = some t) : ∃ event queue, s.kernel.queue = event :: queue ∧
    t = ((s.withQueue queue).processEvent event).1 := by
  simp only [step] at h
  split at h
  · cases h
  · rename_i event queue hq
    exact ⟨event, queue, hq, (Option.some.inj h).symm⟩

lemma step_change {c : Change} (h : s.step (.change c) = some t) : s.kernel.queue = [] ∧ s.change c = some t := by
  simp only [step] at h
  split_ifs at h with hq
  exact ⟨List.isEmpty_iff.mp hq, h⟩

lemma quiet_ignored {w : InotifyWatcher} {wd : ℕ} (hwd : w.wdToPath wd = none) : Quiet w (.ignored wd) := by
  rintro s rfl
  exact processEvent_unknown hwd

lemma quiet_deleted {w : InotifyWatcher} {wd : ℕ} {dir : DirPath} {name : String} (hwd : w.wdToPath wd = some dir)
    (hname : name ≠ "") (hp : w.pathToWd (dir ++ [name]) = none) : Quiet w ⟨wd, inDelete ||| inIsDir, name⟩ := by
  rintro s rfl
  rw [processEvent_gone (Or.inl rfl) hwd hname, hp]
  rfl

lemma quiet_other {w : InotifyWatcher} {event : InotifyEvent} (hmask : event.mask &&& (inIgnored ||| inIsDir) = 0) :
    Quiet w event := by
  intro s _
  exact processEvent_other hmask

lemma Phase.deliver (h : s.Phase) (hs : s.step .deliver = some t) :
    t.Settled ∧ ∀ event ∈ t.kernel.queue, Quiet t.watcher event := by
  obtain ⟨event, queue, hq, rfl⟩ := step_deliver hs
  cases h with
  | quiet settled quiet =>
    rw [quiet event (hq ▸ List.mem_cons_self) (s.withQueue queue) rfl]
    exact ⟨settled.queue queue, fun e he => quiet e (hq ▸ List.mem_cons_of_mem event he)⟩
  | @created parent name wd mem hcreate named watched mapped =>
    obtain ⟨rfl, rfl⟩ := List.cons.inj (hq.symm.trans hcreate)
    have hwatched : (s.withQueue []).watcher.wdToPath wd = some parent := watched
    rw [processEvent_create hwatched named]
    refine ⟨addWatch_settled mem (mapped.queue []), fun e he => ?_⟩
    rw [addWatch, (addWatchLoop_tree _ _ _).2] at he
    exact absurd he List.not_mem_nil
  | @removed parent name wd wd' gone hqueue named watched dropped mapped =>
    have hstale : (s.withQueue queue).watcher.wdToPath wd' = some (parent ++ [name]) :=
      (mapped.descriptors _ _).mpr (Or.inr ⟨rfl, rfl⟩)
    have hpath : (s.withQueue queue).watcher.pathToWd (parent ++ [name]) = some wd' :=
      (mapped.paths _ _).mpr (Or.inr ⟨rfl, rfl⟩)
    have hwatched : (s.withQueue queue).watcher.wdToPath wd = some parent := watched
    have herase := (mapped.queue queue).erase gone dropped
    rcases hqueue with hqueue | hqueue <;> obtain ⟨rfl, rfl⟩ := List.cons.inj (hq.symm.trans hqueue)
    · have hrm : (s.withQueue [.ignored wd']).kernel.rmWatch wd' = (s.withQueue [.ignored wd']).kernel := by
        rw [Inotify.rmWatch, if_neg]
        intro hany
        obtain ⟨e, he, hwd⟩ := List.any_eq_true.mp hany
        exact dropped (of_decide_eq_true hwd ▸ List.mem_map_of_mem he)
      rw [processEvent_gone (Or.inl rfl) hwatched named, hpath, Option.elim_some, removeWatch, hstale]
      dsimp only
      rw [hrm]
      refine ⟨herase, fun e he => ?_⟩
      rw [List.mem_singleton.mp he]
      apply quiet_ignored
      exact Function.update_self wd' none s.watcher.wdToPath
    · rw [processEvent_ignored hstale]
      refine ⟨herase, fun e he => ?_⟩
      rw [List.mem_singleton.mp he]
      apply quiet_deleted _ named
      · exact Function.update_self (parent ++ [name]) none s.watcher.pathToWd
      · have hne : wd ≠ wd' := by
          rintro rfl
          have heq : parent = parent ++ [name] := Option.some.inj (hwatched.symm.trans hstale)
          exact List.cons_ne_nil name [] (List.self_eq_append_right.mp heq)
        exact (Function.update_of_ne hne none s.watcher.wdToPath).trans watched

lemma phase_create (h : s.Settled) (hq : s.kernel.queue = []) {parent : DirPath} {name : String} {sub : DirTree}
    (hs : s.change (.create parent name sub) = some t) : t.Phase := by
  rw [change] at hs
  split_ifs at hs with hnew
  obtain rfl := Option.some.inj hs
  obtain ⟨named, takes⟩ := hnew
  obtain ⟨wd, hwd, hevents⟩ := h.events_eq takes.parent
  rw [hevents (inCreate ||| inIsDir) name (by decide)]
  apply Phase.created
  case mem => exact takes.top_mem
  case queue =>
    change s.kernel.queue ++ _ = _
    rw [hq, List.nil_append]
  case named => exact named
  case watched => exact (h.descriptors parent wd).mpr (Or.inl hwd)
  case mapped => exact h.graft takes _

lemma phase_remove (h : s.Settled) (hq : s.kernel.queue = []) {parent : DirPath} {name : String} {ignoredFirst : Bool}
    (hc : s.tree.children (parent ++ [name]) = []) (hs : s.change (.remove parent name ignoredFirst) = some t) :
    t.Phase := by
  rw [change] at hs
  obtain ⟨⟨named, hmem⟩, hs⟩ := Option.ite_none_right_eq_some.mp hs
  obtain rfl := Option.some.inj hs
  obtain ⟨wd, hwd, hevents⟩ := h.events_eq (s.tree.closed parent name hmem)
  obtain ⟨wd', hwd'⟩ := h.attached_iff.mpr ⟨hmem, not_false⟩
  rw [hevents (inDelete ||| inIsDir) name (by decide), h.dropped_childless hc hwd']
  apply Phase.removed
  case wd => exact wd
  case gone =>
    intro hm
    obtain ⟨i, hi⟩ := PathTree.exists_mem hm
    exact (PathTree.mem_remove.mp hi).2 (List.prefix_refl _)
  case queue =>
    change s.kernel.queue ++ _ = _ ∨ s.kernel.queue ++ _ = _
    rw [hq, List.nil_append]
    cases ignoredFirst with
    | true => exact Or.inr rfl
    | false => exact Or.inl rfl
  case named => exact named
  case watched => exact (h.descriptors parent wd).mpr (Or.inl hwd)
  case dropped =>
    intro hm
    obtain ⟨⟨i, w⟩, hw, rfl⟩ := List.mem_map.mp hm
    obtain ⟨hw, hn⟩ := List.mem_filter.mp hw
    obtain ⟨j, hj, hw'⟩ := hwd'
    obtain rfl : i = j := congrArg Prod.fst (List.inj_on_of_nodup_map h.wds hw hw' rfl)
    exact of_decide_eq_true hn ((Mapped.mem_inodesBelow hj).mpr (List.prefix_refl _))
  case mapped =>
    apply (h.remove parent name _).congr
    · intro q w
      constructor
      · rintro ⟨hqw, hpq⟩
        have hm : q ∈ s.tree.paths := (h.attached_iff.mp ⟨w, hqw⟩).1
        obtain rfl := (Mapped.prefix_iff_of_childless hc hm).mp hpq
        exact ⟨rfl, h.wd_unique hqw hwd'⟩
      · rintro ⟨rfl, rfl⟩
        exact ⟨hwd', List.prefix_refl _⟩
    · exact fun _ _ => Iff.rfl

lemma phase_other (h : s.Settled) (hq : s.kernel.queue = []) {dir : DirPath} {mask : BitVec 32} {name : String}
    (hs : s.change (.other dir mask name) = some t) : t.Phase := by
  rw [change] at hs
  split_ifs at hs with hmask
  obtain rfl := Option.some.inj hs
  apply Phase.quiet
  · exact h.queue _
  · intro e he
    change e ∈ s.kernel.queue ++ s.events dir mask name at he
    rw [hq, List.nil_append, events] at he
    split_ifs at he
    · exact absurd he List.not_mem_nil
    · obtain ⟨wd, -, rfl⟩ := Option.map_eq_some_iff.mp (Option.mem_toList.mp he)
      exact quiet_other hmask

lemma phase_change (h : s.Settled) (hq : s.kernel.queue = []) {c : Change} (hc : s.Allowed (.change c))
    (hs : s.change c = some t) : t.Phase := by
  cases c with
  | create parent name sub => exact phase_create h hq hs
  | remove parent name ignoredFirst => exact phase_remove h hq hc hs
  | rename _ _ _ _ => exact hc.elim
  | other dir mask name => exact phase_other h hq hs

lemma Phase.settled (h : s.Phase) (hq : s.kernel.queue = []) : s.Settled := by
  cases h with
  | quiet settled _ => exact settled
  | created _ queue => exact absurd (hq.symm.trans queue) nofun
  | removed _ queue => rcases queue with queue | queue <;> exact absurd (hq.symm.trans queue) nofun

lemma Phase.step {a : Step} (h : s.Phase) (ha : s.Allowed a) (hs : s.step a = some t) : t.Phase := by
  cases a with
  | change c =>
    obtain ⟨hq, hs⟩ := step_change hs
    exact phase_change (h.settled hq) hq ha hs
  | deliver =>
    obtain ⟨settled, quiet⟩ := h.deliver hs
    exact .quiet settled quiet

lemma Phase.run_deliver (h : s.Phase) {n : ℕ}
    (hs : run WatchedTree.step s (List.replicate (n + 1) Step.deliver) = some t) : t.Settled := by
  induction n generalizing s with
  | zero =>
    obtain ⟨u, hu, ht⟩ := run_cons_eq_some.mp hs
    obtain rfl := Option.some.inj ht
    exact (h.deliver hu).1
  | succ n ih =>
    obtain ⟨u, hu, ht⟩ := run_cons_eq_some.mp hs
    obtain ⟨settled, quiet⟩ := h.deliver hu
    exact ih (.quiet settled quiet) ht

lemma step_deliver_eq {event : InotifyEvent} {queue : List InotifyEvent} (hq : s.kernel.queue = event :: queue) :
    s.step .deliver = some ((s.withQueue queue).processEvent event).1 := by
  simp only [step, hq]

lemma run_deliver_succ {n : ℕ} {u v : WatchedTree} (hu : s.step .deliver = some u)
    (hv : run step u (List.replicate n .deliver) = some v) : run step s (List.replicate (n + 1) .deliver) = some v :=
  run_cons_eq_some.mpr ⟨u, hu, hv⟩

lemma Erases.not_follows (h : s.Erases t) {p q : DirPath} (hne : p ≠ q) (hp : p ∉ s.tree.paths) (hq : q ∉ s.tree.paths)
    (hp' : ∃ wd, s.watcher.pathToWd p = some wd) (hq' : ∃ wd, s.watcher.pathToWd q = some wd) : ¬ t.Follows := by
  intro hf
  obtain ⟨htree, x, hx⟩ := h
  rw [← htree] at hp hq
  by_cases hpx : p = x
  · have heq := (hx q).resolve_right fun hq => hne (hpx.trans hq.1.symm)
    exact hq ((hf.watched q).mp (heq ▸ hq'))
  · have heq := (hx p).resolve_right fun hp => hpx hp.1
    exact hp ((hf.watched p).mp (heq ▸ hp'))

lemma not_follows_remove (h : s.Settled) (hq : s.kernel.queue = []) {parent : DirPath} {name : String}
    {ignoredFirst : Bool} (hc : s.tree.children (parent ++ [name]) ≠ [])
    (hs : s.change (.remove parent name ignoredFirst) = some t) : ∃ u, t.step .deliver = some u ∧ ¬ u.Follows := by
  rw [change] at hs
  obtain ⟨⟨named, hmem⟩, hs⟩ := Option.ite_none_right_eq_some.mp hs
  have ht := Option.some.inj hs
  obtain ⟨wd, hwd, hevents⟩ := h.events_eq (s.tree.closed parent name hmem)
  rw [hevents (inDelete ||| inIsDir) name (by decide)] at ht
  have hqueue : ∀ e, e ∈ t.kernel.queue ↔
      e = ⟨wd, inDelete ||| inIsDir, name⟩ ∨ e ∈ s.kernel.dropped (s.inodesBelow (parent ++ [name])) := by
    intro e
    rw [← ht]
    change e ∈ s.kernel.queue ++ _ ↔ _
    rw [hq, List.nil_append]
    cases ignoredFirst <;> simp [or_comm]
  obtain ⟨e, queue, he⟩ := List.exists_cons_of_ne_nil (List.ne_nil_of_mem ((hqueue _).mpr (Or.inl rfl)))
  refine ⟨_, step_deliver_eq he, ?_⟩
  have hwatcher : (t.withQueue queue).watcher = s.watcher := ht ▸ rfl
  have herases : (t.withQueue queue).Erases ((t.withQueue queue).processEvent e).1 := by
    rcases (hqueue e).mp (he ▸ List.mem_cons_self) with rfl | hdropped
    · apply erases_gone (Or.inl rfl) _ named
      · exact parent
      · rw [hwatcher]
        exact (h.descriptors parent wd).mpr (Or.inl hwd)
    · obtain ⟨⟨i, w⟩, -, rfl⟩ := List.mem_map.mp hdropped
      exact erases_ignored _ w
  have hgone : ∀ q, parent ++ [name] <+: q → q ∉ (t.withQueue queue).tree.paths := by
    intro q hpq hm
    have htree : t.tree = s.tree.remove parent name := ht ▸ rfl
    change q ∈ t.tree.paths at hm
    rw [htree] at hm
    obtain ⟨i, hi⟩ := PathTree.exists_mem hm
    exact (PathTree.mem_remove.mp hi).2 hpq
  obtain ⟨c, hc⟩ := List.exists_mem_of_ne_nil _ hc
  obtain ⟨hcmem, a, rfl⟩ := PathTree.mem_children.mp hc
  apply herases.not_follows _ (hgone _ (List.prefix_refl _)) (hgone _ (List.prefix_append _ [a]))
  · rw [hwatcher]
    exact (h.follows.watched _).mpr hmem
  · rw [hwatcher]
    exact (h.follows.watched _).mpr hcmem
  · exact fun heq => List.cons_ne_nil a [] (List.self_eq_append_right.mp heq)

lemma Erases.not_follows_of_new (h : s.Erases t) {p : DirPath} (hp : p ∈ s.tree.paths)
    (hnone : s.watcher.pathToWd p = none) : ¬ t.Follows := by
  intro hf
  obtain ⟨htree, x, hx⟩ := h
  rw [← htree] at hp
  obtain ⟨wd, hwd⟩ := (hf.watched p).mpr hp
  rcases hx p with heq | ⟨-, heq⟩
  · exact Option.some_ne_none wd (hwd.symm.trans (heq.trans hnone))
  · exact Option.some_ne_none wd (hwd.symm.trans heq)

lemma rmWatch_queue (k : Inotify) (wd : ℕ) : ∃ events, (k.rmWatch wd).queue = k.queue ++ events := by
  rw [Inotify.rmWatch]
  split_ifs
  · exact ⟨_, rfl⟩
  · exact ⟨[], (List.append_nil _).symm⟩

/-- A renamed directory is not watched: `MovedTo` does not add it, and where it takes the place of another one, the
entry that it finds is that one's. -/
lemma not_follows_rename (h : s.Settled) (hq : s.kernel.queue = []) {parent parent' : DirPath} {name name' : String}
    (hs : s.change (.rename parent name parent' name') = some t) :
    ∃ n u, run step t (List.replicate (n + 1) .deliver) = some u ∧ ¬ u.Follows := by
  rw [change] at hs
  obtain ⟨⟨named, named', hne, hc, hmem⟩, hs⟩ := Option.dite_none_right_eq_some.mp hs
  obtain ⟨takes, hs⟩ := Option.dite_none_right_eq_some.mp hs
  have ht := Option.some.inj hs
  obtain ⟨j, hj⟩ := PathTree.exists_mem takes.parent
  have hparent' : parent' ∈ s.tree.paths :=
    PathTree.mem_paths_of_mem (PathTree.mem_remove.mp (PathTree.mem_remove.mp hj).1).1
  obtain ⟨wd, hwd, hfrom⟩ := h.events_eq (s.tree.closed parent name hmem)
  obtain ⟨wd', hwd', hto⟩ := h.events_eq hparent'
  rw [hfrom (inMovedFrom ||| inIsDir) name (by decide), hto (inMovedTo ||| inIsDir) name' (by decide)] at ht
  have hqueue : t.kernel.queue = ⟨wd, inMovedFrom ||| inIsDir, name⟩ :: ⟨wd', inMovedTo ||| inIsDir, name'⟩ ::
      s.kernel.dropped (s.inodesBelow (parent' ++ [name'])) := by
    rw [← ht]
    change s.kernel.queue ++ _ = _
    rw [hq]
    rfl
  have hwatcher : ∀ queue, (t.withQueue queue).watcher = s.watcher := fun _ => ht ▸ rfl
  have hnew : parent' ++ [name'] ∈ t.tree.paths := by
    rw [← ht]
    exact takes.top_mem
  have hfrom' : ∀ queue, (t.withQueue queue).watcher.wdToPath wd = some parent := by
    intro queue
    rw [hwatcher]
    exact (h.descriptors parent wd).mpr (Or.inl hwd)
  by_cases htarget : parent' ++ [name'] ∈ s.tree.paths
  case neg =>
    refine ⟨0, _, run_deliver_succ (step_deliver_eq hqueue) rfl, ?_⟩
    apply Erases.not_follows_of_new (erases_gone (Or.inr rfl) (hfrom' _) named)
    · exact hnew
    · rw [hwatcher, Option.eq_none_iff_forall_ne_some]
      exact fun w hw => htarget ((h.follows.watched _).mp ⟨w, hw⟩)
  case pos =>
    obtain ⟨w, hw⟩ := h.attached_iff.mpr ⟨hmem, not_false⟩
    obtain ⟨w', hw'⟩ := h.attached_iff.mpr ⟨htarget, not_false⟩
    rw [h.dropped_childless hc hw'] at hqueue
    obtain ⟨u, events, hu, huqueue, hutree, huwatcher⟩ : ∃ u events, t.step .deliver = some u ∧
        u.kernel.queue = [⟨wd', inMovedTo ||| inIsDir, name'⟩, .ignored w'] ++ events ∧ u.tree = t.tree ∧
        u.watcher = s.watcher.erase w (parent ++ [name]) := by
      obtain ⟨events, hevents⟩ :=
        rmWatch_queue (t.withQueue [⟨wd', inMovedTo ||| inIsDir, name'⟩, .ignored w']).kernel w
      refine ⟨_, events, step_deliver_eq hqueue, ?_⟩
      rw [processEvent_gone (Or.inr rfl) (hfrom' _) named, hwatcher, (h.paths _ _).mpr (Or.inl hw), Option.elim_some,
        removeWatch, hwatcher, (h.descriptors _ _).mpr (Or.inl hw)]
      exact ⟨hevents, rfl, rfl⟩
    -- Only the event after `MovedTo` tells of the directory that was there before.
    have hmovedTo : u.step .deliver = some (u.withQueue (.ignored w' :: events)) := by
      rw [step_deliver_eq huqueue, processEvent_movedTo named']
      rfl
    have hne' : w' ≠ w := by
      rintro rfl
      exact hne (h.path_unique hw hw')
    have hw'path : ((u.withQueue (.ignored w' :: events)).withQueue events).watcher.wdToPath w' =
        some (parent' ++ [name']) := by
      change u.watcher.wdToPath w' = _
      rw [huwatcher]
      exact (Function.update_of_ne hne' none s.watcher.wdToPath).trans ((h.descriptors _ _).mpr (Or.inl hw'))
    refine ⟨2, _, run_deliver_succ hu (run_deliver_succ hmovedTo (run_deliver_succ (step_deliver_eq rfl) rfl)), ?_⟩
    intro hf
    rw [processEvent_ignored hw'path] at hf
    have hnew' : parent' ++ [name'] ∈ u.tree.paths := by rwa [hutree]
    obtain ⟨x, hx⟩ := (hf.watched _).mpr hnew'
    change Function.update u.watcher.pathToWd (parent' ++ [name']) none (parent' ++ [name']) = some x at hx
    rw [Function.update_self] at hx
    exact Option.some_ne_none x hx.symm

end steps

lemma create_phase (tree : DirTree) : (create tree).Phase := by
  apply Phase.quiet (create_settled tree)
  intro event he
  rw [create, addWatch, (addWatchLoop_tree _ _ _).2] at he
  exact absurd he List.not_mem_nil

theorem watches_follow_tree (tree : DirTree) :
    (create tree).Follows ∧
    ∀ steps s, Path step Allowed (create tree) steps s →
      (∀ t, s.step .deliver = some t → t.Follows) ∧
      ∀ c t, s.step (.change c) = some t →
        ((∀ n u, run step t (List.replicate (n + 1) .deliver) = some u → u.Follows) ↔ s.Allowed (.change c)) := by
  refine ⟨(create_settled tree).follows, fun steps s hpath => ?_⟩
  have hphase : s.Phase := hpath.invariant (fun _ _ _ h ha hs => h.step ha hs) (create_phase tree)
  refine ⟨fun t ht => (hphase.deliver ht).1.follows, fun c t ht => ?_⟩
  obtain ⟨hq, hc⟩ := step_change ht
  have h := hphase.settled hq
  constructor
  · intro hfollows
    cases c with
    | create _ _ _ => trivial
    | remove parent name ignoredFirst =>
      by_contra hchildren
      obtain ⟨u, hu, hn⟩ := not_follows_remove h hq hchildren hc
      exact hn (hfollows 0 u (run_deliver_succ hu rfl))
    | rename parent name parent' name' =>
      obtain ⟨n, u, hu, hn⟩ := not_follows_rename h hq hc
      exact hn (hfollows n u hu)
    | other _ _ _ => trivial
  · intro hallowed n u hu
    exact ((phase_change h hq hallowed hc).run_deliver hu).follows

def rootWithA : DirTree := (PathTree.single 1).graft [] "a" (PathTree.single 2) (by decide)

def rootWithD : DirTree := (PathTree.single 3).graft [] "d" (PathTree.single 4) (by decide)

theorem watches_follow_tree_populated :
    (∃ s t, Path step Allowed (create rootWithA) [.change (.create ["a"] "c" rootWithD)] s ∧
      s.step .deliver = some t ∧ t.Follows ∧ ["a", "c", "d"] ∈ t.tree.paths) ∧
    ∃ t u, (create rootWithA).step (.change (.remove [] "a" false)) = some t ∧
      run step t (List.replicate 2 .deliver) = some u ∧ u.Follows ∧ ["a"] ∉ u.tree.paths := by
  constructor
  · have hrun : (run step (create rootWithA) [.change (.create ["a"] "c" rootWithD), .deliver]).map
        (fun t => decide (["a", "c", "d"] ∈ t.tree.paths)) = some true := by decide +kernel
    obtain ⟨t, ht, hmem⟩ := Option.map_eq_some_iff.mp hrun
    obtain ⟨s, hs, ht⟩ := run_cons_eq_some.mp ht
    obtain ⟨t', ht', heq⟩ := run_cons_eq_some.mp ht
    obtain rfl := Option.some.inj heq
    have hpath : Path step Allowed (create rootWithA) [.change (.create ["a"] "c" rootWithD)] s :=
      .cons trivial hs (.nil s)
    exact ⟨s, t', hpath, ht', ((watches_follow_tree rootWithA).2 _ s hpath).1 t' ht', of_decide_eq_true hmem⟩
  · have hrun : (run step (create rootWithA) (.change (.remove [] "a" false) :: List.replicate 2 .deliver)).map
        (fun u => decide (["a"] ∉ u.tree.paths)) = some true := by decide +kernel
    obtain ⟨u, hu, hmem⟩ := Option.map_eq_some_iff.mp hrun
    obtain ⟨t, ht, hu⟩ := run_cons_eq_some.mp hu
    have hallowed : (create rootWithA).Allowed (.change (.remove [] "a" false)) := by
      change (create rootWithA).tree.children ["a"] = []
      decide +kernel
    have hfollows := (((watches_follow_tree rootWithA).2 [] _ (.nil _)).2 _ t ht).mpr hallowed
    exact ⟨t, u, ht, hu, hfollows 1 u hu, of_decide_eq_true hmem⟩

theorem rename_loses_watch :
    ¬ ∀ steps s, run step (create rootWithA) (steps ++ [.deliver]) = some s → s.Follows := by
  intro h
  have hrun : (run step (create rootWithA) ([.change (.rename [] "a" [] "b"), .deliver] ++ [.deliver])).map
      (fun s => (s.tree.paths, s.watcher.pathToWd ["b"])) = some ([[], ["b"]], none) := by decide +kernel
  obtain ⟨s, hs, heq⟩ := Option.map_eq_some_iff.mp hrun
  obtain ⟨hpaths, hwd⟩ := Prod.mk.inj heq
  have hb : ["b"] ∈ s.tree.paths := by rw [hpaths]; decide
  obtain ⟨wd, hwd'⟩ := ((h _ s hs).watched ["b"]).mpr hb
  exact Option.some_ne_none wd (hwd'.symm.trans hwd)

end WatchedTree

end FastTransport.FileSystem
