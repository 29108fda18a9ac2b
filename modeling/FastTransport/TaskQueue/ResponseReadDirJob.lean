import FastTransport.TaskQueue.ResponseReadDirPlusJob

/-! `ResponseReadDirJob`: the same pages with plain entries, whose offsets start again in every page. -/

namespace FastTransport.TaskQueue

open Protocol Lib.Packing Lib.Records

structure DirEntry where
  name : List UInt8
  inode : UInt64
  off : UInt64
  deriving DecidableEq, Repr

namespace DirEntry

def wire (e : DirEntry) : FuseDirent × List UInt8 :=
  (fuseDirent e.name { FileStat.zero with ino := e.inode, mode := 0 } e.off, e.name)

def bytes (e : DirEntry) : List UInt8 := FuseDirent.layout.record e.wire

def add (w : DirectoryEntryWriter) (e : DirEntry) : Option DirectoryEntryWriter :=
  (w.addDirectoryEntry e.name e.inode 0 e.off).map Prod.snd

lemma add_eq {e : DirEntry} (h : ValidName e.name) (w : DirectoryEntryWriter) :
    add w e = (w.addEntry e.bytes).map Prod.snd := by
  rw [add, DirectoryEntryWriter.addDirectoryEntry, nullTerminatedName_eq h]
  rfl

lemma foldlM_add {entries : List DirEntry} (h : ∀ e ∈ entries, ValidName e.name) (w : DirectoryEntryWriter) :
    entries.foldlM add w = w.addEntries (entries.map bytes) :=
  DirectoryEntryWriter.foldlM_eq_addEntries (fun e he => add_eq (h e he)) w

lemma valid_wire {e : DirEntry} (h : ValidName e.name) : FuseDirent.layout.Valid e.wire :=
  ⟨UInt32.toNat_ofNat_of_lt' (h.2.1.trans_lt (by decide)), h.1⟩

lemma length_bytes (e : DirEntry) : e.bytes.length = FuseDirent.layout.recordSize e.name.length :=
  Layout.length_record _ _

end DirEntry

namespace ResponseReadDirJob

def childEntry (c : ServerChild) (i : ℕ) : DirEntry := ⟨c.name, c.inode, .ofNat (i + 2)⟩

def dot (d : ServerDirectory) : DirEntry := ⟨[46], d.inode, 0⟩

def dotDot : DirEntry := ⟨[46, 46], 1, 1⟩

def addChildren (size : ℕ) : List ServerChild → ℕ → DirectoryEntryWriter → Option DirectoryEntryWriter
  | [], _, w => some w
  | c :: cs, i, w =>
    if i < size then (DirEntry.add w (childEntry c i)).bind fun w => addChildren size cs (i + 1) w else some w

def addWhere (condition : Bool) (w : DirectoryEntryWriter) (e : DirEntry) : Option DirectoryEntryWriter :=
  if condition then DirEntry.add w e else some w

def executeResponse (d : ServerDirectory) (size offset : ℕ) (packets : List Packet) :
    Option (List Packet × List Packet) :=
  (addWhere (offset < 1) (.create packets) (dot d)).bind fun w =>
    (addWhere (offset < 2) w dotDot).bind fun w =>
      (addChildren size (ResponseReadDirPlusJob.skip offset 2 d.children).2 0 w).bind fun w =>
        w.getWritedPackets.map fun r => (r.1, r.2.getPackets)

def childEntries : List ServerChild → ℕ → List DirEntry
  | [], _ => []
  | c :: cs, i => childEntry c i :: childEntries cs (i + 1)

def pageEntries (d : ServerDirectory) (size offset : ℕ) : List DirEntry :=
  (if offset < 1 then [dot d] else []) ++ (if offset < 2 then [dotDot] else []) ++
    childEntries ((d.children.drop (offset - 1)).take size) 0

def listing (d : ServerDirectory) : List DirEntry := dot d :: dotDot :: childEntries d.children 0

lemma addChildren_eq (size : ℕ) (cs : List ServerChild) (i : ℕ) (w : DirectoryEntryWriter) :
    addChildren size cs i w = (childEntries (cs.take (size - i)) i).foldlM DirEntry.add w := by
  induction cs generalizing i w with
  | nil => rw [List.take_nil]; rfl
  | cons c cs ih =>
    rw [addChildren]
    split_ifs with h
    · obtain ⟨k, hk⟩ : ∃ k, size - i = k + 1 := ⟨size - i - 1, by omega⟩
      have hk' : size - (i + 1) = k := by omega
      rw [hk, List.take_succ_cons, childEntries, List.foldlM_cons]
      simp only [ih, hk']
      rfl
    · rw [Nat.sub_eq_zero_of_le (not_lt.mp h), List.take_zero]
      rfl

lemma addWhere_eq (condition : Bool) (w : DirectoryEntryWriter) (e : DirEntry) :
    addWhere condition w e = (if condition then [e] else []).foldlM DirEntry.add w := by
  cases condition with
  | false => rfl
  | true => simp [addWhere]

lemma executeResponse_eq (d : ServerDirectory) (size offset : ℕ) (packets : List Packet) :
    executeResponse d size offset packets =
      ((pageEntries d size offset).foldlM DirEntry.add (.create packets)).bind fun w =>
        w.getWritedPackets.map fun r => (r.1, r.2.getPackets) := by
  have hskip : (ResponseReadDirPlusJob.skip offset 2 d.children).2 = d.children.drop (offset - 1) := by
    rw [ResponseReadDirPlusJob.skip_eq]
    congr 1
  simp only [executeResponse, addChildren_eq, addWhere_eq, hskip, pageEntries, List.foldlM_append, Nat.sub_zero,
    decide_eq_true_eq, Option.bind_eq_bind, Option.bind_assoc]

def received (written : List Packet) : List (FuseDirent × List UInt8) :=
  written.flatMap fun p => (FuseDirent.layout.walk (fun s header _ => (header, s)) () p.payload).visited

def nextOffset (offset : ℕ) (page : List (FuseDirent × List UInt8)) : ℕ :=
  (page.getLast?.map fun r => r.1.off.toNat).getD offset

structure PageRequest where
  size : ℕ
  packets : List Packet

def readPage (d : ServerDirectory) (offset : ℕ) (r : PageRequest) :
    Option (List (FuseDirent × List UInt8) × ℕ) :=
  (executeResponse d r.size offset r.packets).map fun x =>
    let page := received x.1
    (page, nextOffset offset page)

def readPages (d : ServerDirectory) :
    ℕ → (ℕ → PageRequest) → ℕ → Option (List (List (FuseDirent × List UInt8)) × ℕ)
  | 0, _, offset => some ([], offset)
  | n + 1, requests, offset =>
    (readPage d offset (requests 0)).bind fun x =>
      (readPages d n (fun k => requests (k + 1)) x.2).map fun y => (x.1 :: y.1, y.2)

def Complete (d : ServerDirectory) (requests : ℕ → PageRequest) : Prop :=
  ∃ n pages offset, readPages d (n + 1) requests 0 = some (pages ++ [[]], offset) ∧
    (∀ page ∈ pages, page ≠ []) ∧
    (pages.flatten.map Prod.snd).Perm ([46] :: [46, 46] :: d.children.map ServerChild.name) ∧
    ∀ i page, pages[i]? = some page → (FuseDirent.layout.records page).length ≤ (requests i).size

def OnePage (d : ServerDirectory) (r : PageRequest) : Prop :=
  d.children ≠ [] ∧ ((listing d).map fun e => e.bytes.length).sum ≤ r.size ∧
    FitsBeforeLast (DirectoryEntryWriter.sizes r.packets) ((listing d).map fun e => e.bytes.length)

instance (d : ServerDirectory) (r : PageRequest) : Decidable (OnePage d r) := inferInstanceAs (Decidable (_ ∧ _))

lemma mem_childEntries {cs : List ServerChild} {i : ℕ} {e : DirEntry} (h : e ∈ childEntries cs i) :
    ∃ c ∈ cs, ∃ j, e = childEntry c j := by
  induction cs generalizing i with
  | nil => cases h
  | cons c cs ih =>
    rcases List.mem_cons.mp h with rfl | h
    · exact ⟨c, List.mem_cons_self, i, rfl⟩
    · obtain ⟨c', hc', j, rfl⟩ := ih h
      exact ⟨c', List.mem_cons_of_mem c hc', j, rfl⟩

lemma name_childEntries (cs : List ServerChild) (i : ℕ) :
    (childEntries cs i).map DirEntry.name = cs.map ServerChild.name := by
  induction cs generalizing i with
  | nil => rfl
  | cons c cs ih => rw [childEntries, List.map_cons, ih, List.map_cons, childEntry]

lemma length_childEntries (cs : List ServerChild) (i : ℕ) : (childEntries cs i).length = cs.length := by
  have h := congrArg List.length (name_childEntries cs i)
  rwa [List.length_map, List.length_map] at h

lemma getLast?_childEntries {cs : List ServerChild} (hne : cs ≠ []) (i : ℕ) :
    ∃ c, (childEntries cs i).getLast? = some (childEntry c (i + cs.length - 1)) := by
  induction cs generalizing i with
  | nil => exact absurd rfl hne
  | cons c cs ih =>
    by_cases hcs : cs = []
    · subst hcs
      exact ⟨c, rfl⟩
    · obtain ⟨c', hlast⟩ := ih hcs (i + 1)
      refine ⟨c', ?_⟩
      have hindex : i + (c :: cs).length - 1 = i + 1 + cs.length - 1 := by
        rw [List.length_cons]
        omega
      rw [childEntries, List.getLast?_cons, hlast, hindex]
      rfl

lemma validName_pageEntries {d : ServerDirectory} (h : ∀ c ∈ d.children, ValidName c.name) (size offset : ℕ) :
    ∀ e ∈ pageEntries d size offset, ValidName e.name := by
  intro e he
  simp only [pageEntries, List.mem_append] at he
  rcases he with (he | he) | he
  · split_ifs at he
    · rw [List.mem_singleton.mp he]
      exact ResponseReadDirPlusJob.validName_dot d
    · cases he
  · split_ifs at he
    · rw [List.mem_singleton.mp he]
      exact ResponseReadDirPlusJob.validName_dotDot
    · cases he
  · obtain ⟨c, hc, i, rfl⟩ := mem_childEntries he
    exact h c (List.mem_of_mem_drop (List.mem_of_mem_take hc))

lemma received_eq {packets written : List Packet} {entries : List DirEntry} {w v : DirectoryEntryWriter}
    (hnames : ∀ e ∈ entries, ValidName e.name) (hw : entries.foldlM DirEntry.add (.create packets) = some w)
    (hv : w.getWritedPackets = some (written, v)) : received written = entries.map DirEntry.wire := by
  rw [DirEntry.foldlM_add hnames] at hw
  obtain ⟨cut, rfl, hpayload⟩ := exists_cut_records DirEntry.wire hw hv
  have hread (es : List DirEntry) (hes : ∀ e ∈ es, ValidName e.name) :
      (FuseDirent.layout.walk (fun s header _ => (header, s)) ()
        (FuseDirent.layout.records (es.map DirEntry.wire))).visited = es.map DirEntry.wire := by
    rw [Layout.walk_records _ _ fun r hr => ?_]
    obtain ⟨e, he, rfl⟩ := List.mem_map.mp hr
    exact DirEntry.valid_wire (hes e he)
  have hmap : received written = (written.map Packet.payload).flatMap fun payload =>
      (FuseDirent.layout.walk (fun s header _ => (header, s)) () payload).visited := by
    rw [received, List.flatMap_map]
  rw [hmap, hpayload, List.flatMap_map, List.map_flatten]
  exact congrArg List.flatten
    (List.map_congr_left fun es hes => hread es fun e he => hnames e (List.mem_flatten.mpr ⟨es, hes, he⟩))

lemma readPage_eq {d : ServerDirectory} {offset : ℕ} {r : PageRequest} (hnames : ∀ c ∈ d.children, ValidName c.name)
    {x : List (FuseDirent × List UInt8) × ℕ} (hx : readPage d offset r = some x) :
    x = ((pageEntries d r.size offset).map DirEntry.wire,
      ((pageEntries d r.size offset).getLast?.map fun e => e.off.toNat).getD offset) := by
  rw [readPage, executeResponse_eq] at hx
  obtain ⟨y, hy, rfl⟩ := Option.map_eq_some_iff.mp hx
  obtain ⟨w, hw, hy⟩ := Option.bind_eq_some_iff.mp hy
  obtain ⟨⟨written, v⟩, hv, rfl⟩ := Option.map_eq_some_iff.mp hy
  have hreceived := received_eq (validName_pageEntries hnames r.size offset) hw hv
  dsimp only
  rw [hreceived, nextOffset, List.getLast?_map, Option.map_map]
  rfl

lemma readPage_isSome_iff {d : ServerDirectory} {offset : ℕ} {r : PageRequest}
    (hnames : ∀ c ∈ d.children, ValidName c.name) (hne : r.packets ≠ []) :
    (readPage d offset r).isSome ↔ FitsBeforeLast (DirectoryEntryWriter.sizes r.packets)
      ((pageEntries d r.size offset).map fun e => e.bytes.length) := by
  have hfits := DirectoryEntryWriter.addEntries_isSome_iff hne ((pageEntries d r.size offset).map DirEntry.bytes)
  rw [List.map_map] at hfits
  rw [readPage, executeResponse_eq, DirEntry.foldlM_add (validName_pageEntries hnames r.size offset), Option.isSome_map,
    DirectoryEntryWriter.isSome_bind_getWritedPackets]
  exact hfits

lemma pageEntries_zero (d : ServerDirectory) (size : ℕ) :
    pageEntries d size 0 = dot d :: dotDot :: childEntries (d.children.take size) 0 := rfl

lemma length_records (es : List DirEntry) :
    (FuseDirent.layout.records (es.map DirEntry.wire)).length = (es.map fun e => e.bytes.length).sum := by
  rw [Layout.records, List.length_flatMap, List.map_map]
  rfl

lemma length_le_sum {es : List DirEntry} (h : ∀ e ∈ es, ValidName e.name) :
    es.length ≤ (es.map fun e => e.bytes.length).sum := by
  have hne : ∀ r ∈ es.map DirEntry.wire, r.2 ≠ [] := by
    intro r hr
    obtain ⟨e, he, rfl⟩ := List.mem_map.mp hr
    exact (h e he).1
  have hle := FuseDirent.layout.length_le_records hne
  rwa [List.length_map, length_records] at hle

lemma pageEntries_eq_listing {d : ServerDirectory} {size : ℕ} (h : d.children.length ≤ size) :
    pageEntries d size 0 = listing d := by
  rw [pageEntries_zero, List.take_of_length_le h, listing]

lemma names_listing (d : ServerDirectory) :
    ((listing d).map DirEntry.wire).map Prod.snd = [46] :: [46, 46] :: d.children.map ServerChild.name := by
  rw [List.map_map, listing, List.map_cons, List.map_cons, ← name_childEntries d.children 0]
  rfl

lemma ne_nil_of_mem_readPages {d : ServerDirectory} (hd : d.children = []) {n : ℕ} {requests : ℕ → PageRequest}
    {offset : ℕ} (hoffset : offset < 2) {pages : List (List (FuseDirent × List UInt8))} {last : ℕ}
    (h : readPages d n requests offset = some (pages, last)) : ∀ page ∈ pages, page ≠ [] := by
  induction n generalizing requests offset pages last with
  | zero =>
    cases h
    exact fun page hpage => absurd hpage List.not_mem_nil
  | succ n ih =>
    rw [readPages] at h
    obtain ⟨x, hx, h⟩ := Option.bind_eq_some_iff.mp h
    obtain ⟨y, hy, hpages⟩ := Option.map_eq_some_iff.mp h
    cases hpages
    have heq := readPage_eq (by rw [hd]; exact fun c hc => absurd hc List.not_mem_nil) hx
    have hpage : pageEntries d (requests 0).size offset = (if offset < 1 then [dot d] else []) ++ [dotDot] := by
      rw [pageEntries, if_pos hoffset, hd, List.drop_nil, List.take_nil]
      exact List.append_nil _
    rw [hpage, List.getLast?_concat] at heq
    intro page hmem
    rcases List.mem_cons.mp hmem with rfl | hmem
    · rw [heq]
      simp
    · have hnext : x.2 < 2 := by
        rw [heq]
        exact (by decide : dotDot.off.toNat < 2)
      exact ih hnext hy page hmem

lemma children_ne_nil_of_complete {d : ServerDirectory} {requests : ℕ → PageRequest} (h : Complete d requests) :
    d.children ≠ [] := by
  intro hd
  obtain ⟨n, pages, offset, hpages, -⟩ := h
  exact ne_nil_of_mem_readPages hd (by decide) hpages [] (List.mem_append_right _ (List.mem_singleton_self _)) rfl

lemma onePage_of_complete {d : ServerDirectory} {requests : ℕ → PageRequest}
    (hnames : ∀ c ∈ d.children, ValidName c.name) (hpackets : (requests 0).packets ≠ []) (h : Complete d requests) :
    OnePage d (requests 0) := by
  have hne := children_ne_nil_of_complete h
  obtain ⟨n, pages, offset, hpages, -, -, hsize⟩ := h
  rw [readPages] at hpages
  obtain ⟨x, hx, hpages⟩ := Option.bind_eq_some_iff.mp hpages
  obtain ⟨y, hy, hpages⟩ := Option.map_eq_some_iff.mp hpages
  obtain ⟨hpages, -⟩ := Prod.mk.inj hpages
  have heq := readPage_eq hnames hx
  have hfirst : pages[0]? = some x.1 := by
    cases pages with
    | nil =>
      rw [List.nil_append, List.cons.injEq] at hpages
      rw [heq] at hpages
      cases hpages.1
    | cons page pages =>
      rw [List.cons_append, List.cons.injEq] at hpages
      rw [hpages.1]
      rfl
  have hle := hsize 0 x.1 hfirst
  rw [heq, length_records] at hle
  have hcount := (length_le_sum (validName_pageEntries hnames (requests 0).size 0)).trans hle
  rw [pageEntries_zero, List.length_cons, List.length_cons, length_childEntries, List.length_take] at hcount
  rw [pageEntries_eq_listing (by omega)] at hle
  have hfits := (readPage_isSome_iff hnames hpackets).mp (Option.isSome_of_mem hx)
  rw [pageEntries_eq_listing (by omega)] at hfits
  exact ⟨hne, hle, hfits⟩

lemma complete_of_onePage {d : ServerDirectory} {requests : ℕ → PageRequest}
    (hnames : ∀ c ∈ d.children, ValidName c.name) (hcount : d.children.length + 3 < 2 ^ 64)
    (hlen : ∀ n, (requests n).packets.length = 99) (h : OnePage d (requests 0)) : Complete d requests := by
  obtain ⟨hne, hsum, hpacks⟩ := h
  have hpackets : ∀ n, (requests n).packets ≠ [] := fun n => List.ne_nil_of_length_eq_add_one (hlen n)
  have hvalid : ∀ e ∈ listing d, ValidName e.name := by
    rw [← pageEntries_eq_listing le_rfl]
    exact validName_pageEntries hnames _ _
  have hle : d.children.length ≤ (requests 0).size := by
    have hlength := length_le_sum hvalid
    rw [listing, List.length_cons, List.length_cons, length_childEntries, ← listing] at hlength
    omega
  have hpage := pageEntries_eq_listing hle
  obtain ⟨c, hlast⟩ := getLast?_childEntries hne 0
  have hpos := List.length_pos_of_ne_nil hne
  have hoff : (childEntry c (0 + d.children.length - 1)).off.toNat = d.children.length + 1 := by
    have hlt : 0 + d.children.length - 1 + 2 < UInt64.size := by
      rw [UInt64.size]
      omega
    have htoNat : (childEntry c (0 + d.children.length - 1)).off.toNat = 0 + d.children.length - 1 + 2 :=
      UInt64.toNat_ofNat_of_lt' hlt
    omega
  have hfirst : readPage d 0 (requests 0) = some ((listing d).map DirEntry.wire, d.children.length + 1) := by
    obtain ⟨x, hx⟩ := Option.isSome_iff_exists.mp
      ((readPage_isSome_iff hnames (hpackets 0)).mpr (by rw [hpage]; exact hpacks))
    rw [hx, readPage_eq hnames hx, hpage, listing, List.getLast?_cons_cons, List.getLast?_cons, hlast]
    rw [Option.getD_some, Option.map_some, Option.getD_some, hoff]
  have hsecond : readPage d (d.children.length + 1) (requests 1) = some ([], d.children.length + 1) := by
    have hempty : pageEntries d (requests 1).size (d.children.length + 1) = [] := by
      rw [pageEntries, if_neg (by omega), if_neg (by omega), List.drop_eq_nil_of_le (by omega), List.take_nil]
      rfl
    obtain ⟨p, rest, hps⟩ := List.exists_cons_of_length_eq_add_one (hlen 1)
    obtain ⟨q, ps, rfl⟩ := List.exists_cons_of_length_eq_add_one (Nat.succ.inj (hps ▸ hlen 1))
    have hfits : FitsBeforeLast (DirectoryEntryWriter.sizes (requests 1).packets) [] := by
      rw [hps, DirectoryEntryWriter.sizes, List.map_cons, fitsBeforeLast_nil]
      exact List.cons_ne_nil _ _
    obtain ⟨x, hx⟩ := Option.isSome_iff_exists.mp
      ((readPage_isSome_iff hnames (hpackets 1)).mpr (by rw [hempty]; exact hfits))
    rw [hx, readPage_eq hnames hx, hempty]
    rfl
  refine ⟨1, [(listing d).map DirEntry.wire], d.children.length + 1, ?_, ?_, ?_, ?_⟩
  · simp [readPages, hfirst, hsecond]
  · simp [listing]
  · rw [List.flatten_singleton, names_listing]
  · intro i page hi
    cases i with
    | zero =>
      cases hi
      rwa [length_records]
    | succ i => cases hi

theorem readDir_complete_iff {d : ServerDirectory} {requests : ℕ → PageRequest}
    (hnames : ∀ c ∈ d.children, ValidName c.name) (hcount : d.children.length + 3 < 2 ^ 64)
    (hlen : ∀ n, (requests n).packets.length = 99) : Complete d requests ↔ OnePage d (requests 0) :=
  ⟨onePage_of_complete hnames (List.ne_nil_of_length_eq_add_one (hlen 0)), complete_of_onePage hnames hcount hlen⟩

def fullPage (size : ℕ) : PageRequest := ⟨size, List.replicate 99 (Packet.ofPayload (List.replicate maxPayloadSize 0))⟩

theorem readDir_complete_iff_twoChildren :
    Complete ResponseReadDirPlusJob.twoChildren (fun _ => fullPage 128) ↔
      OnePage ResponseReadDirPlusJob.twoChildren (fullPage 128) :=
  readDir_complete_iff (by decide) (by decide) fun _ => List.length_replicate

theorem readDir_not_complete : ¬ Complete ⟨7, FileStat.zero, []⟩ fun _ => fullPage 4096 :=
  fun h => children_ne_nil_of_complete h rfl

end ResponseReadDirJob

end FastTransport.TaskQueue
