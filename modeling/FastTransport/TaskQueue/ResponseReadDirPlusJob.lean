import FastTransport.FileSystem.FileTree
import FastTransport.TaskQueue.ResponseReadDirPlusInJob

/-! `ResponseReadDirPlusJob`: a directory is listed page by page, each from the offset of the last entry before it. -/

namespace FastTransport.TaskQueue

open Protocol FileSystem Lib.Records

structure ServerChild where
  name : List UInt8
  deleted : Bool
  stat : FileStat
  inode : UInt64
  deriving DecidableEq, Repr

structure ServerDirectory where
  inode : UInt64
  stat : FileStat
  children : List ServerChild
  deriving DecidableEq, Repr

/-- What a directory iterator shows of an entry, and the leaf that `Rescan` makes of it. -/
structure DiskEntry where
  name : List UInt8
  type : FileType
  stat : FileStat
  inode : UInt64
  deriving DecidableEq, Repr

namespace ServerDirectory

def insert (children : List ServerChild) (child : ServerChild) : List ServerChild :=
  children.takeWhile (fun c => c.name < child.name) ++ child :: children.dropWhile fun c => c.name < child.name

def rescanEntry (children : List ServerChild) (e : DiskEntry) : List ServerChild :=
  if e.name ∈ children.map ServerChild.name then children
  else
    match e.type with
    | .other => children
    | _ => insert children ⟨e.name, false, e.stat, e.inode⟩

def rescan (d : ServerDirectory) (disk : List DiskEntry) : ServerDirectory :=
  { d with children := disk.foldl rescanEntry d.children }

end ServerDirectory

namespace ResponseReadDirPlusJob

def childEntry (c : ServerChild) (inodeIndex : ℕ) : PlusEntry :=
  ⟨c.name, { c.stat with ino := c.inode }, .ofNat inodeIndex⟩

def dot (d : ServerDirectory) : PlusEntry := ⟨[46], { d.stat with ino := d.inode }, 1⟩

def dotDot : PlusEntry := ⟨[46, 46], { FileStat.zero with ino := 1 }, 2⟩

def skip (offset : ℕ) : ℕ → List ServerChild → ℕ × List ServerChild
  | inodeIndex, [] => (inodeIndex, [])
  | inodeIndex, c :: cs => if inodeIndex ≤ offset then skip offset (inodeIndex + 1) cs else (inodeIndex, c :: cs)

def addChildren (size : ℕ) : List ServerChild → ℕ → ℕ → DirectoryEntryWriter → Option DirectoryEntryWriter
  | [], _, _, w => some w
  | c :: cs, inodeIndex, writedSize, w =>
    (DirectoryEntryWriter.getEntryPlusSize c.name).bind fun entrySize =>
      if writedSize + entrySize < size then
        if c.deleted then addChildren size cs (inodeIndex + 1) writedSize w
        else
          let e := childEntry c inodeIndex
          (w.addDirectoryEntryPlus e.name e.stat e.off).bind fun r =>
            addChildren size cs (inodeIndex + 1) (writedSize + r.1) r.2
      else some w

def addWhere (condition : Bool) (w : DirectoryEntryWriter) (e : PlusEntry) : Option (ℕ × DirectoryEntryWriter) :=
  if condition then w.addDirectoryEntryPlus e.name e.stat e.off else some (0, w)

def executeResponse (d : ServerDirectory) (disk : List DiskEntry) (size offset : ℕ) (packets : List Packet) :
    Option (List Packet × List Packet × ServerDirectory) :=
  (addWhere (offset < 1) (.create packets) (dot d)).bind fun first =>
    (addWhere (offset < 2) first.2 dotDot).bind fun second =>
      let d := d.rescan disk
      let child := skip offset 3 d.children
      (addChildren size child.2 child.1 (first.1 + second.1) second.2).bind fun w =>
        w.getWritedPackets.map fun r => (r.1, r.2.getPackets, d)

def childEntries (size : ℕ) : List ServerChild → ℕ → ℕ → List PlusEntry
  | [], _, _ => []
  | c :: cs, inodeIndex, writedSize =>
    if writedSize + FuseDirentPlus.layout.recordSize c.name.length < size then
      if c.deleted then childEntries size cs (inodeIndex + 1) writedSize
      else
        childEntry c inodeIndex ::
          childEntries size cs (inodeIndex + 1) (writedSize + FuseDirentPlus.layout.recordSize c.name.length)
    else []

def allEntries : List ServerChild → ℕ → List PlusEntry
  | [], _ => []
  | c :: cs, inodeIndex =>
    if c.deleted then allEntries cs (inodeIndex + 1) else childEntry c inodeIndex :: allEntries cs (inodeIndex + 1)

def remaining (d : ServerDirectory) (offset : ℕ) : List PlusEntry :=
  if offset = 0 then dot d :: dotDot :: allEntries d.children 3
  else allEntries (d.children.drop (offset - 2)) (offset + 1)

def listing (d : ServerDirectory) : List PlusEntry := remaining d 0

def pageEntries (d : ServerDirectory) (size offset : ℕ) : List PlusEntry :=
  let first := if offset < 1 then [dot d] else []
  let second := if offset < 2 then [dotDot] else []
  let child := skip offset 3 d.children
  first ++ second ++ childEntries size child.2 child.1 ((first ++ second).map fun e => e.bytes.length).sum

lemma skip_eq (offset inodeIndex : ℕ) (cs : List ServerChild) :
    skip offset inodeIndex cs =
      (inodeIndex + min (offset + 1 - inodeIndex) cs.length, cs.drop (offset + 1 - inodeIndex)) := by
  induction cs generalizing inodeIndex with
  | nil => rw [skip, List.length_nil, Nat.min_zero, List.drop_nil, Nat.add_zero]
  | cons c cs ih =>
    rw [skip]
    split_ifs with h
    · obtain ⟨k, hk⟩ : ∃ k, offset + 1 - inodeIndex = k + 1 := ⟨offset - inodeIndex, by omega⟩
      have hk' : offset + 1 - (inodeIndex + 1) = k := by omega
      rw [ih, hk, hk', List.drop_succ_cons, List.length_cons]
      congr 1
      omega
    · have hk : offset + 1 - inodeIndex = 0 := by omega
      rw [hk, Nat.zero_min, List.drop_zero, Nat.add_zero]

lemma pageEntries_zero (d : ServerDirectory) (size : ℕ) :
    pageEntries d size 0 = dot d :: dotDot ::
      childEntries size d.children 3 ((dot d).bytes.length + dotDot.bytes.length) := by
  have hskip : skip 0 3 d.children = (3, d.children) := by simp [skip_eq]
  have hsum : ([dot d, dotDot].map fun e => e.bytes.length).sum = (dot d).bytes.length + dotDot.bytes.length := by
    simp
  simp only [pageEntries, hskip, Nat.zero_lt_one, Nat.zero_lt_two, if_true, List.singleton_append, hsum]
  rfl

lemma length_bytes (e : PlusEntry) : e.bytes.length = FuseDirentPlus.layout.recordSize e.name.length :=
  Layout.length_record _ _

lemma addDirectoryEntryPlus_eq {e : PlusEntry} (h : ValidName e.name) (w : DirectoryEntryWriter) :
    w.addDirectoryEntryPlus e.name e.stat e.off = w.addEntry e.bytes := by
  rw [DirectoryEntryWriter.addDirectoryEntryPlus, nullTerminatedName_eq h]
  rfl

lemma foldlM_cons_add (e : PlusEntry) (entries : List PlusEntry) (w : DirectoryEntryWriter) :
    (e :: entries).foldlM PlusEntry.add w =
      (w.addDirectoryEntryPlus e.name e.stat e.off).bind fun r => entries.foldlM PlusEntry.add r.2 := by
  rw [List.foldlM_cons, PlusEntry.add, Option.bind_eq_bind, Option.bind_map]
  rfl

lemma fst_of_addDirectoryEntryPlus {e : PlusEntry} (h : ValidName e.name) {w : DirectoryEntryWriter}
    {r : ℕ × DirectoryEntryWriter} (hr : w.addDirectoryEntryPlus e.name e.stat e.off = some r) :
    r.1 = e.bytes.length := by
  rw [addDirectoryEntryPlus_eq h] at hr
  exact DirectoryEntryWriter.fst_of_addEntry hr

lemma addChildren_eq (size : ℕ) {cs : List ServerChild} (h : ∀ c ∈ cs, ValidName c.name) (inodeIndex writedSize : ℕ)
    (w : DirectoryEntryWriter) :
    addChildren size cs inodeIndex writedSize w =
      (childEntries size cs inodeIndex writedSize).foldlM PlusEntry.add w := by
  induction cs generalizing inodeIndex writedSize w with
  | nil => rfl
  | cons c cs ih =>
    have hname := h c List.mem_cons_self
    have hrest := ih fun c' hc' => h c' (List.mem_cons_of_mem c hc')
    have hsize : DirectoryEntryWriter.getEntryPlusSize c.name =
        some (FuseDirentPlus.layout.recordSize c.name.length) := by
      rw [DirectoryEntryWriter.getEntryPlusSize, nullTerminatedName_eq hname, Option.map_some]
    rw [addChildren, hsize, Option.bind_some, childEntries]
    split_ifs with hlt hdeleted
    · exact hrest _ _ w
    · have he : ValidName (childEntry c inodeIndex).name := hname
      rw [foldlM_cons_add]
      refine Option.bind_congr fun r hr => ?_
      rw [hrest, fst_of_addDirectoryEntryPlus he hr, length_bytes]
      rfl
    · rfl

lemma validName_dot (d : ServerDirectory) : ValidName (dot d).name :=
  have h : ValidName [46] := by decide
  h

lemma validName_dotDot : ValidName dotDot.name := by decide

lemma addWhere_eq {e : PlusEntry} (h : ValidName e.name) (condition : Bool) (w : DirectoryEntryWriter) :
    addWhere condition w e =
      ((if condition then [e] else []).foldlM PlusEntry.add w).map fun v =>
        (((if condition then [e] else []).map fun e => e.bytes.length).sum, v) := by
  cases condition with
  | false => rfl
  | true =>
    simp only [addWhere, if_true, foldlM_cons_add, List.foldlM_nil, List.map_cons, List.map_nil, List.sum_cons,
      List.sum_nil, Nat.add_zero]
    cases hr : w.addDirectoryEntryPlus e.name e.stat e.off with
    | none => rfl
    | some r => rw [Option.bind_some, ← fst_of_addDirectoryEntryPlus h hr]; rfl

lemma executeResponse_eq (d : ServerDirectory) (disk : List DiskEntry) (size offset : ℕ) (packets : List Packet)
    (h : ∀ c ∈ (d.rescan disk).children, ValidName c.name) :
    executeResponse d disk size offset packets =
      ((pageEntries (d.rescan disk) size offset).foldlM PlusEntry.add (.create packets)).bind fun w =>
        w.getWritedPackets.map fun r => (r.1, r.2.getPackets, d.rescan disk) := by
  have hskipped : ∀ c ∈ (skip offset 3 (d.rescan disk).children).2, ValidName c.name := by
    rw [skip_eq]
    exact fun c hc => h c (List.mem_of_mem_drop hc)
  have hdot : dot (d.rescan disk) = dot d := rfl
  simp only [executeResponse, addChildren_eq size hskipped, pageEntries, hdot, addWhere_eq (validName_dot d),
    addWhere_eq validName_dotDot, List.foldlM_append, List.map_append, List.sum_append, decide_eq_true_eq,
    Option.bind_eq_bind, Option.bind_map, Option.bind_assoc, Function.comp_def]

lemma mem_childEntries {size : ℕ} {cs : List ServerChild} {inodeIndex writedSize : ℕ} {e : PlusEntry}
    (h : e ∈ childEntries size cs inodeIndex writedSize) : ∃ c ∈ cs, ∃ i, e = childEntry c i := by
  induction cs generalizing inodeIndex writedSize with
  | nil => cases h
  | cons c cs ih =>
    rw [childEntries] at h
    split_ifs at h
    · obtain ⟨c', hc', i, rfl⟩ := ih h
      exact ⟨c', List.mem_cons_of_mem c hc', i, rfl⟩
    · rcases List.mem_cons.mp h with rfl | h
      · exact ⟨c, List.mem_cons_self, inodeIndex, rfl⟩
      · obtain ⟨c', hc', i, rfl⟩ := ih h
        exact ⟨c', List.mem_cons_of_mem c hc', i, rfl⟩
    · cases h

end ResponseReadDirPlusJob

namespace ServerDirectory

def Scanned (children : List ServerChild) (e : DiskEntry) : Prop :=
  e.type = .other ∨ e.name ∈ children.map ServerChild.name

lemma mem_insert (children : List ServerChild) (child c : ServerChild) :
    c ∈ insert children child ↔ c = child ∨ c ∈ children := by
  have hsplit := List.takeWhile_append_dropWhile (p := fun c => decide (c.name < child.name)) (l := children)
  rw [insert, List.mem_append, List.mem_cons]
  nth_rewrite 3 [← hsplit]
  rw [List.mem_append]
  tauto

lemma rescanEntry_cases (children : List ServerChild) (e : DiskEntry) :
    rescanEntry children e = children ∨ rescanEntry children e = insert children ⟨e.name, false, e.stat, e.inode⟩ := by
  rw [rescanEntry]
  split_ifs
  · exact Or.inl rfl
  · split
    · exact Or.inl rfl
    · exact Or.inr rfl

lemma Scanned.mono {children children' : List ServerChild} (hsub : children ⊆ children') {e : DiskEntry}
    (h : Scanned children e) : Scanned children' e :=
  h.imp_right fun hmem => List.map_subset _ hsub hmem

end ServerDirectory

namespace ResponseReadDirPlusJob

def received (allocate : ClientDirectory → UInt64) (client : ClientDirectory) (written : List Packet) :
    List (FuseDirentPlus × List UInt8) :=
  (client.populate allocate written).flatMap Walk.visited

def nextOffset (offset : ℕ) (page : List (FuseDirentPlus × List UInt8)) : ℕ :=
  (page.getLast?.map fun r => r.1.dirent.off.toNat).getD offset

structure PageRequest where
  size : ℕ
  packets : List Packet
  client : ClientDirectory

variable (allocate : ClientDirectory → UInt64) (disk : List DiskEntry)

def readPage (s : ServerDirectory × ℕ) (r : PageRequest) :
    Option (List (FuseDirentPlus × List UInt8) × (ServerDirectory × ℕ)) :=
  (executeResponse s.1 disk r.size s.2 r.packets).map fun x =>
    let page := received allocate r.client x.1
    (page, x.2.2, nextOffset s.2 page)

def readPages : ℕ → (ℕ → PageRequest) → ServerDirectory × ℕ →
    Option (List (List (FuseDirentPlus × List UInt8)) × (ServerDirectory × ℕ))
  | 0, _, s => some ([], s)
  | n + 1, requests, s =>
    (readPage allocate disk s (requests 0)).bind fun x =>
      (readPages n (fun k => requests (k + 1)) x.2).map fun y => (x.1 :: y.1, y.2)

lemma visited_of_walked {cut : List (List PlusEntry)} {walks : List (Walk ClientDirectory FuseDirentPlus)}
    (h : List.Forall₂ Walked cut walks) : walks.flatMap Walk.visited = cut.flatten.map PlusEntry.wire := by
  induction h with
  | nil => rfl
  | cons hw _ ih => rw [List.flatMap_cons, List.flatten_cons, List.map_append, hw.visited, ih]

lemma validName_pageEntries {d : ServerDirectory} (h : ∀ c ∈ d.children, ValidName c.name) (size offset : ℕ) :
    ∀ e ∈ pageEntries d size offset, ValidName e.name := by
  intro e he
  simp only [pageEntries, skip_eq, List.mem_append] at he
  rcases he with (he | he) | he
  · split_ifs at he
    · rw [List.mem_singleton.mp he]
      exact validName_dot d
    · cases he
  · split_ifs at he
    · rw [List.mem_singleton.mp he]
      exact validName_dotDot
    · cases he
  · obtain ⟨c, hc, i, rfl⟩ := mem_childEntries he
    exact h c (List.mem_of_mem_drop hc)

lemma readPage_eq {s : ServerDirectory × ℕ} {r : PageRequest}
    (hnames : ∀ c ∈ (s.1.rescan disk).children, ValidName c.name)
    {x : List (FuseDirentPlus × List UInt8) × (ServerDirectory × ℕ)} (hx : readPage allocate disk s r = some x) :
    x = ((pageEntries (s.1.rescan disk) r.size s.2).map PlusEntry.wire, s.1.rescan disk,
      ((pageEntries (s.1.rescan disk) r.size s.2).getLast?.map fun e => e.off.toNat).getD s.2) := by
  rw [readPage, executeResponse_eq _ _ _ _ _ hnames] at hx
  obtain ⟨y, hy, rfl⟩ := Option.map_eq_some_iff.mp hx
  obtain ⟨w, hw, hy⟩ := Option.bind_eq_some_iff.mp hy
  obtain ⟨⟨written, v⟩, hv, rfl⟩ := Option.map_eq_some_iff.mp hy
  have hvalid := validName_pageEntries hnames r.size s.2
  obtain ⟨cut, hcut, hpayload⟩ := exists_cut_entries hvalid hw hv
  have hwalked := walked_populate allocate r.client (fun es hes e he => hvalid e (hcut ▸ List.mem_flatten.mpr ⟨es, hes, he⟩))
    hpayload
  have hreceived : received allocate r.client written =
      (pageEntries (s.1.rescan disk) r.size s.2).map PlusEntry.wire := by
    rw [received, visited_of_walked hwalked, hcut]
  dsimp only
  rw [hreceived, nextOffset, List.getLast?_map, Option.map_map]
  rfl

def twoChildren : ServerDirectory := ⟨7, FileStat.zero, [⟨[97], false, FileStat.zero, 9⟩, ⟨[98], true, FileStat.zero, 8⟩]⟩

end ResponseReadDirPlusJob

end FastTransport.TaskQueue
