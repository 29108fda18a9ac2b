import FastTransport.TaskQueue.NotifyInvalEntryJob

/-! The attributes of a leaf as `ResponseLookupJob`, `ResponseGetAttrJob` and `ResponseReadDirPlusJob` report them,
over histories of the server's disk and of what its jobs make of it. -/

namespace FastTransport.FileSystem

namespace Children

def resolvePath : List String → Children → Option Children
  | [], cs => some cs
  | part :: path, cs => (cs.find part).bind fun p => resolvePath path p.2

def leafAt (cs : Children) (parent : List String) (name : String) : Option TreeLeaf :=
  (cs.resolvePath parent).bind fun c => (c.find name).map Prod.fst

def modifyChild (name : String) (f : Children → Children) : Children → Children
  | nil => nil
  | cons leaf children rest =>
    if leaf.name = name then cons leaf (f children) rest else cons leaf children (rest.modifyChild name f)

def modifyPath : List String → (Children → Children) → Children → Children
  | [], f, cs => f cs
  | part :: path, f, cs => cs.modifyChild part (modifyPath path f)

lemma find_modifyChild_self (name : String) (f : Children → Children) :
    ∀ cs : Children, (cs.modifyChild name f).find name = (cs.find name).map fun p => (p.1, f p.2)
  | nil => rfl
  | cons leaf children rest => by
    rw [modifyChild, find]
    split_ifs with hn
    · exact if_pos hn
    · rw [find, if_neg hn, find_modifyChild_self name f rest]

lemma find_modifyChild_of_ne {name other : String} (h : other ≠ name) (f : Children → Children) :
    ∀ cs : Children, (cs.modifyChild name f).find other = cs.find other
  | nil => rfl
  | cons leaf children rest => by
    rw [modifyChild]
    split_ifs with hn
    · have ho : leaf.name ≠ other := fun ho => h (ho.symm.trans hn)
      rw [find, find, if_neg ho, if_neg ho]
    · rw [find, find, find_modifyChild_of_ne h f rest]

lemma leafAt_root_modifyChild (part : String) (f : Children → Children) (cs : Children) (name : String) :
    (cs.modifyChild part f).leafAt [] name = cs.leafAt [] name := by
  rw [leafAt, leafAt, resolvePath, resolvePath, Option.bind_some, Option.bind_some]
  by_cases hname : name = part
  · rw [hname, find_modifyChild_self, Option.map_map]
    rfl
  · rw [find_modifyChild_of_ne hname]

lemma leafAt_nil (parent : List String) (name : String) : nil.leafAt parent name = none := by
  cases parent <;> rfl

lemma leafAt_cons (cs : Children) (part : String) (parent : List String) (name : String) :
    cs.leafAt (part :: parent) name = (cs.find part).bind fun p => p.2.leafAt parent name := by
  rw [leafAt, resolvePath, Option.bind_assoc]
  rfl

lemma leafAt_insert {leaf : TreeLeaf} : ∀ {path : List String} {cs c : Children}, cs.resolvePath path = some c →
    c.find leaf.name = none → ∀ (parent : List String) (name : String),
      (cs.modifyPath path (insert leaf nil)).leafAt parent name =
        if parent = path ∧ name = leaf.name then some leaf else cs.leafAt parent name
  | [], cs, c, hc, hf, parent, name => by
    obtain rfl := Option.some.inj hc
    cases parent with
    | nil =>
      by_cases hname : name = leaf.name
      · subst hname
        rw [if_pos ⟨rfl, rfl⟩]
        exact congrArg (Option.map Prod.fst) (find_insert_self hf)
      · rw [if_neg fun h => hname h.2]
        exact congrArg (Option.map Prod.fst) (find_insert_of_ne hname cs)
    | cons part parent =>
      rw [if_neg (List.cons_ne_nil part parent ·.1), modifyPath, leafAt_cons, leafAt_cons]
      by_cases hpart : part = leaf.name
      · subst hpart
        rw [find_insert_self hf, hf, Option.bind_some, leafAt_nil]
        rfl
      · rw [find_insert_of_ne hpart]
  | part :: path, cs, c, hc, hf, parent, name => by
    rw [resolvePath] at hc
    obtain ⟨p, hp, hc⟩ := Option.bind_eq_some_iff.mp hc
    have ih := leafAt_insert hc hf
    rw [modifyPath]
    cases parent with
    | nil =>
      rw [if_neg (List.cons_ne_nil part path ·.1.symm), leafAt_root_modifyChild]
    | cons part' parent =>
      rw [leafAt_cons, leafAt_cons]
      by_cases hpart : part' = part
      · rw [hpart, find_modifyChild_self, hp, Option.map_some, Option.bind_some, Option.bind_some, ih parent name]
        simp only [List.cons.injEq, true_and]
      · rw [if_neg fun h => hpart (List.cons.inj h.1).1, find_modifyChild_of_ne hpart]

lemma leafAt_erase {removed : String} : ∀ {path : List String} {cs : Children}, cs.NamesUnique →
    ∀ {parent : List String} {name : String} {leaf : TreeLeaf},
      (cs.modifyPath path (erase removed)).leafAt parent name = some leaf → cs.leafAt parent name = some leaf
  | [], cs, hcs, parent, name, leaf, h => by
    have hfind {other : String} {p : TreeLeaf × Children} (hp : (cs.erase removed).find other = some p) :
        cs.find other = some p := by
      by_cases hother : other = removed
      · rw [hother, find_erase_self hcs] at hp
        cases hp
      · rwa [find_erase_of_ne hother] at hp
    cases parent with
    | nil =>
      obtain ⟨p, hp, rfl⟩ := Option.map_eq_some_iff.mp h
      exact congrArg (Option.map Prod.fst) (hfind hp)
    | cons part parent =>
      rw [modifyPath, leafAt_cons] at h
      obtain ⟨p, hp, h⟩ := Option.bind_eq_some_iff.mp h
      rw [leafAt_cons, hfind hp, Option.bind_some, h]
  | part :: path, cs, hcs, parent, name, leaf, h => by
    rw [modifyPath] at h
    cases parent with
    | nil =>
      rwa [leafAt_root_modifyChild] at h
    | cons part' parent =>
      rw [leafAt_cons] at h ⊢
      by_cases hpart : part' = part
      · rw [hpart, find_modifyChild_self, Option.bind_map] at h
        obtain ⟨p, hp, h⟩ := Option.bind_eq_some_iff.mp h
        rw [hpart, hp, Option.bind_some]
        exact leafAt_erase (hcs.of_find hp) h
      · rwa [find_modifyChild_of_ne hpart] at h

lemma NamesUnique.modifyChild {name : String} {f : Children → Children} :
    ∀ {cs : Children}, cs.NamesUnique → (∀ p, cs.find name = some p → p.2.NamesUnique → (f p.2).NamesUnique) →
      (cs.modifyChild name f).NamesUnique
  | nil, _, _ => trivial
  | cons leaf children rest, h, hf => by
    rw [Children.modifyChild]
    split_ifs with hn
    · exact ⟨h.1, hf (leaf, children) (if_pos hn) h.2.1, h.2.2⟩
    · have hrest : ∀ p, rest.find name = some p → p.2.NamesUnique → (f p.2).NamesUnique := fun p hp =>
        hf p (by rwa [find, if_neg hn])
      exact ⟨(find_modifyChild_of_ne hn f rest).trans h.1, h.2.1, modifyChild h.2.2 hrest⟩

lemma NamesUnique.modifyPath {f : Children → Children} : ∀ {path : List String} {cs : Children}, cs.NamesUnique →
    (∀ c, cs.resolvePath path = some c → c.NamesUnique → (f c).NamesUnique) → (cs.modifyPath path f).NamesUnique
  | [], cs, h, hf => hf cs rfl h
  | part :: path, cs, h, hf => by
    refine h.modifyChild fun p hp hchild => modifyPath hchild fun c hc => hf c ?_
    rw [resolvePath, hp, Option.bind_some, hc]

end Children

end FastTransport.FileSystem

namespace FastTransport.TaskQueue

open FileSystem

structure Attributes where
  mode : ℕ
  nlink : ℕ
  size : ℕ
  uid : ℕ
  gid : ℕ
  mtime : ℕ
  deriving DecidableEq, Repr

def Attributes.zero : Attributes := ⟨0, 0, 0, 0, 0, 0⟩

structure DiskFile where
  type : FileType
  attributes : Attributes
  deriving DecidableEq, Repr

/-- Which file a path below the root leads to, and what every file is like, one without a path too. -/
structure Disk where
  file : List String → Option ℕ
  content : ℕ → DiskFile

namespace Disk

def status (d : Disk) (path : List String) : Option DiskFile := (d.file path).map d.content

def stat (d : Disk) (path : List String) : Option Attributes := (d.status path).map DiskFile.attributes

def fstat (d : Disk) (file : ℕ) : Attributes := (d.content file).attributes

/-- `std::filesystem::file_size`, with an error for what is not a regular file. -/
def fileSize (d : Disk) (path : List String) : Option ℕ :=
  (d.status path).bind fun f => if f.type = .regular then some f.attributes.size else none

end Disk

structure Server where
  disk : Disk
  children : Children

namespace Server

def leafAt (s : Server) (parent : List String) (name : String) : Option TreeLeaf := s.children.leafAt parent name

def addChild (s : Server) (parent : List String) (e : DirectoryEntry) : Server :=
  match s.children.resolvePath parent with
  | none => s
  | some c =>
    if (c.find e.name).isSome then s
    else { s with children := s.children.modifyPath parent (.insert ⟨e.address, e.name, e.type, e.size, 0, true⟩ .nil) }

def removeChild (s : Server) (parent : List String) (name : String) : Server :=
  { s with children := s.children.modifyPath parent (.erase name) }

def processInotifyEventJob (s : Server) (type : WatchEventType) (parent : List String) (name : String) (isDir : Bool)
    (address : ℕ) : Server :=
  match type with
  | .modified => s
  | .created | .movedTo =>
    let size := if isDir then 0 else (s.disk.fileSize (parent ++ [name])).getD 0
    s.addChild parent ⟨name, fileType isDir, size, address⟩
  | .deleted | .movedFrom => s.removeChild parent name

def rescanEntry (parent : List String) (s : Server) (entry : String × ℕ) : Server :=
  if (s.leafAt parent entry.1).isSome then s
  else
    match (s.disk.status (parent ++ [entry.1])).map DiskFile.type with
    | some .regular =>
      s.addChild parent ⟨entry.1, .regular, (s.disk.fileSize (parent ++ [entry.1])).getD 0, entry.2⟩
    | some .directory => s.addChild parent ⟨entry.1, .directory, 0, entry.2⟩
    | _ => s

/-- `Rescan` over the names the iterator gets to, each with the address of the leaf it may make. -/
def rescan (s : Server) (parent : List String) (entries : List (String × ℕ)) : Server :=
  entries.foldl (rescanEntry parent) s

def addLeaf (s : Server) (parent : List String) (name : String) (file : DiskFile) (address : ℕ) : Server :=
  let size := if file.type = .regular then (s.disk.fileSize (parent ++ [name])).getD 0 else 0
  s.addChild parent ⟨name, file.type, size, address⟩

/-- The attributes that `ResponseLookupJob` writes, none where it writes an error, and the tree it leaves. -/
def responseLookupJob (s : Server) (parent : List String) (name : String) (address : ℕ) :
    Option Attributes × Server :=
  let report (s : Server) (leaf : TreeLeaf) := (s.disk.stat (parent ++ [name])).map fun a => { a with size := leaf.size }
  match s.leafAt parent name, s.disk.status (parent ++ [name]) with
  | some leaf, _ => (report s leaf, s)
  | none, none => (none, s)
  | none, some file =>
    let s := s.addLeaf parent name file address
    ((s.leafAt parent name).bind (report s), s)

def responseGetAttrJob (s : Server) (parent : List String) (name : String) (remoteFile : Option ℕ) :
    Option Attributes :=
  match remoteFile with
  | some file => some (s.disk.fstat file)
  | none => s.disk.stat (parent ++ [name])

/-- The attributes that `ResponseReadDirPlusJob` writes for a child after its rescan: zeros where `stat` fails. -/
def responseReadDirPlusJob (s : Server) (parent : List String) (name : String) (entries : List (String × ℕ)) :
    Option Attributes × Server :=
  let s := s.rescan parent entries
  ((s.leafAt parent name).map fun _ => (s.disk.stat (parent ++ [name])).getD Attributes.zero, s)

inductive Event
  | disk (disk : Disk)
  | inotify (type : WatchEventType) (parent : List String) (name : String) (isDir : Bool) (address : ℕ)
  | rescan (parent : List String) (entries : List (String × ℕ))
  | lookup (parent : List String) (name : String) (address : ℕ)

def step (s : Server) : Event → Server
  | .disk disk => { s with disk := disk }
  | .inotify type parent name isDir address => s.processInotifyEventJob type parent name isDir address
  | .rescan parent entries => s.rescan parent entries
  | .lookup parent name address => (s.responseLookupJob parent name address).2

def initial (disk : Disk) : Server := ⟨disk, .nil⟩

def after (disk : Disk) (history : List Event) : Server := history.foldl step (initial disk)

def madeSize (type : FileType) (d : Disk) (path : List String) : ℕ :=
  if type = .directory then 0 else (d.fileSize path).getD 0

def Made (s : Server) (parent : List String) (name : String) (leaf : TreeLeaf) : Prop :=
  s.leafAt parent name = some leaf ∨
    s.leafAt parent name = none ∧ leaf.size = madeSize leaf.type s.disk (parent ++ [name])

structure Grows (s s' : Server) : Prop where
  disk : s'.disk = s.disk
  names : s.children.NamesUnique → s'.children.NamesUnique
  keeps : ∀ {parent name leaf}, s.leafAt parent name = some leaf → s'.leafAt parent name = some leaf
  made : ∀ {parent name leaf}, s'.leafAt parent name = some leaf → s.Made parent name leaf

lemma Grows.refl (s : Server) : s.Grows s := ⟨rfl, id, id, Or.inl⟩

lemma Grows.trans {s s' s'' : Server} (h : s.Grows s') (h' : s'.Grows s'') : s.Grows s'' := by
  refine ⟨h'.disk.trans h.disk, fun hn => h'.names (h.names hn), fun hl => h'.keeps (h.keeps hl), ?_⟩
  intro parent name leaf hleaf
  rcases h'.made hleaf with hat | ⟨hnone, hsize⟩
  · exact h.made hat
  · refine Or.inr ⟨?_, h.disk ▸ hsize⟩
    cases hat : s.leafAt parent name with
    | none => rfl
    | some l =>
      rw [h.keeps hat] at hnone
      cases hnone

variable {s : Server} {parent path : List String} {name : String} {leaf : TreeLeaf}

lemma leafAt_addChild (s : Server) (path : List String) (e : DirectoryEntry) (parent : List String) (name : String) :
    (s.addChild path e).leafAt parent name = s.leafAt parent name ∨
      (parent = path ∧ name = e.name) ∧ s.leafAt parent name = none ∧
        (s.addChild path e).leafAt parent name = some ⟨e.address, e.name, e.type, e.size, 0, true⟩ := by
  rw [addChild]
  split
  · exact Or.inl rfl
  · rename_i c hc
    split_ifs with hf
    · exact Or.inl rfl
    · have hf' : c.find e.name = none := Option.not_isSome_iff_eq_none.mp hf
      have hinsert := @Children.leafAt_insert ⟨e.address, e.name, e.type, e.size, 0, true⟩ path _ c hc hf' parent name
      by_cases hat : parent = path ∧ name = e.name
      · rw [if_pos hat] at hinsert
        refine Or.inr ⟨hat, ?_, hinsert⟩
        rw [hat.1, hat.2, leafAt, Children.leafAt, hc, Option.bind_some, hf']
        rfl
      · rw [if_neg hat] at hinsert
        exact Or.inl hinsert

lemma namesUnique_addChild (h : s.children.NamesUnique) (path : List String) (e : DirectoryEntry) :
    (s.addChild path e).children.NamesUnique := by
  rw [addChild]
  split
  · exact h
  · rename_i c hc
    split_ifs with hf
    · exact h
    · have hnil : Children.nil.NamesUnique := trivial
      refine h.modifyPath fun c' hc' hu => hnil.insert hu ?_
      obtain rfl := Option.some.inj (hc.symm.trans hc')
      exact Option.not_isSome_iff_eq_none.mp hf

lemma grows_addChild (s : Server) (path : List String) {e : DirectoryEntry}
    (he : e.size = madeSize e.type s.disk (path ++ [e.name])) : s.Grows (s.addChild path e) := by
  refine ⟨?_, fun h => namesUnique_addChild h path e, ?_, ?_⟩
  · rw [addChild]
    split
    · rfl
    · split_ifs <;> rfl
  · intro parent name leaf hleaf
    rcases leafAt_addChild s path e parent name with heq | ⟨-, hnone, -⟩
    · rw [heq, hleaf]
    · rw [hleaf] at hnone
      cases hnone
  · intro parent name leaf hleaf
    rcases leafAt_addChild s path e parent name with heq | ⟨⟨rfl, rfl⟩, hnone, hsome⟩
    · exact Or.inl (heq ▸ hleaf)
    · obtain rfl := Option.some.inj (hsome.symm.trans hleaf)
      exact Or.inr ⟨hnone, he⟩

lemma grows_rescanEntry (parent : List String) (s : Server) (entry : String × ℕ) :
    s.Grows (rescanEntry parent s entry) := by
  rw [rescanEntry]
  split_ifs
  · exact .refl s
  · split
    · exact grows_addChild s parent rfl
    · exact grows_addChild s parent rfl
    · exact .refl s

lemma grows_rescan (parent : List String) (entries : List (String × ℕ)) (s : Server) :
    s.Grows (s.rescan parent entries) := by
  induction entries generalizing s with
  | nil => exact .refl s
  | cons entry entries ih => exact (grows_rescanEntry parent s entry).trans (ih _)

lemma grows_addLeaf (s : Server) (parent : List String) (name : String) {file : DiskFile}
    (hfile : s.disk.status (parent ++ [name]) = some file) (address : ℕ) :
    s.Grows (s.addLeaf parent name file address) := by
  refine grows_addChild s parent ?_
  rw [madeSize, Disk.fileSize, hfile, Option.bind_some]
  dsimp only
  split_ifs with hregular hdirectory
  · rw [hregular] at hdirectory
    cases hdirectory
  all_goals rfl

lemma grows_responseLookupJob (s : Server) (parent : List String) (name : String) (address : ℕ) :
    s.Grows (s.responseLookupJob parent name address).2 := by
  rw [responseLookupJob]
  split
  · exact .refl s
  · exact .refl s
  · rename_i hfile
    exact grows_addLeaf s parent name hfile address

lemma made_of_step (h : s.children.NamesUnique) {event : Event} (hleaf : (s.step event).leafAt parent name = some leaf) :
    s.Made parent name leaf := by
  cases event with
  | disk d => exact Or.inl hleaf
  | inotify type path entry isDir address =>
    cases type with
    | modified => exact Or.inl hleaf
    | created | movedTo =>
      refine (grows_addChild s path ?_).made hleaf
      cases isDir <;> rfl
    | deleted | movedFrom => exact Or.inl (Children.leafAt_erase h hleaf)
  | rescan path entries => exact (grows_rescan path entries s).made hleaf
  | lookup path entry address => exact (grows_responseLookupJob s path entry address).made hleaf

lemma namesUnique_step (h : s.children.NamesUnique) (event : Event) : (s.step event).children.NamesUnique := by
  cases event with
  | disk d => exact h
  | inotify type path entry isDir address =>
    cases type with
    | modified => exact h
    | created | movedTo => exact namesUnique_addChild h path _
    | deleted | movedFrom => exact h.modifyPath fun _ _ hc => hc.erase
  | rescan path entries => exact (grows_rescan path entries s).names h
  | lookup path entry address => exact (grows_responseLookupJob s path entry address).names h

lemma after_concat (d : Disk) (history : List Event) (event : Event) :
    after d (history ++ [event]) = (after d history).step event := List.foldl_concat _ _ _ _

lemma namesUnique_after (d : Disk) (history : List Event) : (after d history).children.NamesUnique := by
  induction history using List.reverseRecOn with
  | nil => trivial
  | append_singleton history event ih =>
    rw [after_concat]
    exact namesUnique_step ih event

def Creation (d : Disk) (parent : List String) (name : String) (leaf : TreeLeaf) (before : List Event)
    (event : Event) (rest : List Event) : Prop :=
  (after d before).leafAt parent name = none ∧
    (∀ part, part <+: rest → (after d (before ++ event :: part)).leafAt parent name = some leaf) ∧
    leaf.size = madeSize leaf.type (after d before).disk (parent ++ [name])

lemma exists_creation {d : Disk} {history : List Event} (h : (after d history).leafAt parent name = some leaf) :
    ∃ before event rest, history = before ++ event :: rest ∧ Creation d parent name leaf before event rest := by
  induction history using List.reverseRecOn with
  | nil =>
    rw [after, List.foldl_nil, initial, leafAt, Children.leafAt_nil] at h
    cases h
  | append_singleton history event ih =>
    have hstep := h
    rw [after_concat] at hstep
    rcases made_of_step (namesUnique_after d history) hstep with hat | ⟨hnone, hsize⟩
    · obtain ⟨before, event', rest, rfl, hnone, hkept, hsize⟩ := ih hat
      refine ⟨before, event', rest ++ [event], by simp, hnone, fun part hpart => ?_, hsize⟩
      rcases List.prefix_concat_iff.mp hpart with rfl | hpart
      · rw [← List.cons_append, ← List.append_assoc]
        exact h
      · exact hkept part hpart
    · refine ⟨history, event, [], rfl, hnone, fun part hpart => ?_, hsize⟩
      rw [List.prefix_nil.mp hpart]
      exact h

def Undisturbed (s s' : Server) (parent : List String) (name : String) : Prop :=
  s'.disk = s.disk ∧ s'.leafAt parent name = s.leafAt parent name

lemma Grows.undisturbed {s' : Server} (h : s.Grows s') (hleaf : s.leafAt parent name = some leaf) :
    s.Undisturbed s' parent name := ⟨h.disk, by rw [h.keeps hleaf, hleaf]⟩

end Server

def SameAttributes (s₁ s₂ s₃ : Server) (parent : List String) (name : String) (address : ℕ) (remoteFile : Option ℕ)
    (entries : List (String × ℕ)) : Prop :=
  (s₁.responseLookupJob parent name address).1 = s₂.responseGetAttrJob parent name remoteFile ∧
    (s₃.responseReadDirPlusJob parent name entries).1 = s₂.responseGetAttrJob parent name remoteFile

namespace Server

variable {s s' : Server} {parent : List String} {name : String} {leaf : TreeLeaf}

/-- The jobs themselves leave the disk and the leaf as they are, so they may come in any order. -/
theorem undisturbed_jobs (hleaf : s.leafAt parent name = some leaf) (address : ℕ) (entries : List (String × ℕ)) :
    s.Undisturbed (s.responseLookupJob parent name address).2 parent name ∧
      s.Undisturbed (s.responseReadDirPlusJob parent name entries).2 parent name :=
  ⟨(grows_responseLookupJob s parent name address).undisturbed hleaf,
    (grows_rescan parent entries s).undisturbed hleaf⟩

lemma responseLookupJob_eq (hleaf : s.leafAt parent name = some leaf) (address : ℕ) :
    (s.responseLookupJob parent name address).1 =
      (s.disk.stat (parent ++ [name])).map fun a => { a with size := leaf.size } := by
  rw [responseLookupJob, hleaf]

lemma responseReadDirPlusJob_eq (hleaf : s.leafAt parent name = some leaf) (entries : List (String × ℕ)) :
    (s.responseReadDirPlusJob parent name entries).1 =
      some ((s.disk.stat (parent ++ [name])).getD Attributes.zero) := by
  have hgrows := grows_rescan parent entries s
  rw [responseReadDirPlusJob]
  dsimp only
  rw [hgrows.keeps hleaf, hgrows.disk]
  rfl

lemma responseGetAttrJob_eq (s : Server) (parent : List String) (name : String) (remoteFile : Option ℕ) :
    s.responseGetAttrJob parent name remoteFile =
      (remoteFile.map s.disk.fstat).or (s.disk.stat (parent ++ [name])) := by
  cases remoteFile <;> rfl

lemma sameAttributes_iff (hleaf : s.leafAt parent name = some leaf) {s₁ s₂ s₃ : Server}
    (h₁ : s.Undisturbed s₁ parent name) (h₂ : s.Undisturbed s₂ parent name) (h₃ : s.Undisturbed s₃ parent name)
    (address : ℕ) (remoteFile : Option ℕ) (entries : List (String × ℕ)) :
    SameAttributes s₁ s₂ s₃ parent name address remoteFile entries ↔
      ∃ a, s.disk.stat (parent ++ [name]) = some a ∧ a.size = leaf.size ∧
        ∀ file, remoteFile = some file → s.disk.fstat file = a := by
  rw [SameAttributes, responseLookupJob_eq (h₁.2.trans hleaf), responseReadDirPlusJob_eq (h₃.2.trans hleaf),
    h₁.1, h₃.1, responseGetAttrJob_eq, h₂.1]
  cases hstat : s.disk.stat (parent ++ [name]) with
  | none =>
    refine iff_of_false ?_ ?_
    · rintro ⟨hlookup, hlisting⟩
      rw [← hlookup] at hlisting
      cases hlisting
    · rintro ⟨a, ha, -⟩
      cases ha
  | some a =>
    have hsize : ({ a with size := leaf.size } : Attributes) = a ↔ a.size = leaf.size :=
      ⟨fun h => (congrArg Attributes.size h).symm, fun h => by rw [← h]⟩
    simp only [Option.map_some, Option.getD_some, Option.some.injEq, exists_eq_left']
    cases remoteFile with
    | none => simp [hsize]
    | some file =>
      simp only [Option.map_some, Option.some_or, Option.some.injEq, forall_eq']
      constructor
      · rintro ⟨hlookup, hlisting⟩
        exact ⟨hsize.mp (hlookup.trans hlisting.symm), hlisting.symm⟩
      · rintro ⟨heq, hfile⟩
        exact ⟨(hsize.mpr heq).trans hfile.symm, hfile.symm⟩

/-- After every history: a leaf has the size it was made with, and the three jobs agree on it exactly when its file
is there, has this size still, and is the one behind the handle that `getattr` comes with. -/
theorem same_attributes_iff (d : Disk) (history : List Event) (hleaf : (after d history).leafAt parent name = some leaf)
    {s₁ s₂ s₃ : Server} (h₁ : (after d history).Undisturbed s₁ parent name)
    (h₂ : (after d history).Undisturbed s₂ parent name) (h₃ : (after d history).Undisturbed s₃ parent name)
    (address : ℕ) (remoteFile : Option ℕ) (entries : List (String × ℕ)) :
    ∃ before event rest, history = before ++ event :: rest ∧ Creation d parent name leaf before event rest ∧
      (SameAttributes s₁ s₂ s₃ parent name address remoteFile entries ↔
        ∃ a, (after d history).disk.stat (parent ++ [name]) = some a ∧
          a.size = madeSize leaf.type (after d before).disk (parent ++ [name]) ∧
          ∀ file, remoteFile = some file → (after d history).disk.fstat file = a) := by
  obtain ⟨before, event, rest, heq, hcreation⟩ := exists_creation hleaf
  refine ⟨before, event, rest, heq, hcreation, ?_⟩
  rw [sameAttributes_iff hleaf h₁ h₂ h₃, hcreation.2.2]

def oneFile (size : ℕ) : Disk :=
  ⟨fun path => if path = ["a.txt"] then some 12 else none, fun _ => ⟨.regular, ⟨0o100644, 1, size, 1000, 1000, 7⟩⟩⟩

theorem same_attributes_iff_oneFile :
    ∃ before event rest, [Event.rescan [] [("a.txt", 100)]] = before ++ event :: rest ∧
      Creation (oneFile 5) [] "a.txt" ⟨100, "a.txt", .regular, 5, 0, true⟩ before event rest ∧
      (SameAttributes (after (oneFile 5) [.rescan [] [("a.txt", 100)]]) (after (oneFile 5) [.rescan [] [("a.txt", 100)]])
          (after (oneFile 5) [.rescan [] [("a.txt", 100)]]) [] "a.txt" 200 none [] ↔
        ∃ a, (after (oneFile 5) [.rescan [] [("a.txt", 100)]]).disk.stat ([] ++ ["a.txt"]) = some a ∧
          a.size = madeSize .regular (after (oneFile 5) before).disk ([] ++ ["a.txt"]) ∧
          ∀ file, none = some file → (after (oneFile 5) [.rescan [] [("a.txt", 100)]]).disk.fstat file = a) :=
  same_attributes_iff (oneFile 5) [.rescan [] [("a.txt", 100)]] rfl ⟨rfl, rfl⟩ ⟨rfl, rfl⟩ ⟨rfl, rfl⟩ 200 none []

def grown : List Event :=
  [.rescan [] [("a.txt", 100)], .disk (oneFile 9), .inotify .modified [] "a.txt" false 200]

theorem attributes_differ :
    ((after (oneFile 5) grown).responseLookupJob [] "a.txt" 300).1 = some ⟨0o100644, 1, 5, 1000, 1000, 7⟩ ∧
      (after (oneFile 5) grown).responseGetAttrJob [] "a.txt" none = some ⟨0o100644, 1, 9, 1000, 1000, 7⟩ ∧
      ¬ SameAttributes (after (oneFile 5) grown) (after (oneFile 5) grown) (after (oneFile 5) grown) [] "a.txt" 300
        none [] := by
  have hlookup : ((after (oneFile 5) grown).responseLookupJob [] "a.txt" 300).1 =
      some ⟨0o100644, 1, 5, 1000, 1000, 7⟩ := rfl
  have hgetAttr : (after (oneFile 5) grown).responseGetAttrJob [] "a.txt" none =
      some ⟨0o100644, 1, 9, 1000, 1000, 7⟩ := rfl
  refine ⟨hlookup, hgetAttr, fun h => ?_⟩
  have hsame := h.1
  rw [hlookup, hgetAttr] at hsame
  exact absurd hsame (by decide)

end Server

end FastTransport.TaskQueue
