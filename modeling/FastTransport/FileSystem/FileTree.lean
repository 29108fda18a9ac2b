import FastTransport.Lib.Runs

/-! The tree of leaves and the index of its server inodes: children are added and removed, subtrees spliced in,
directories scanned again, server inodes set. -/

namespace FastTransport.FileSystem

inductive FileType
  | regular | directory | other
  deriving DecidableEq, Repr

/-- A leaf without its children; `tree` says whether `_tree` is set. -/
structure TreeLeaf where
  address : ℕ
  name : String
  type : FileType
  size : ℕ
  serverInode : ℕ
  tree : Bool
  deriving DecidableEq, Repr

def TreeLeaf.getServerInode (l : TreeLeaf) : ℕ := if l.serverInode ≠ 0 then l.serverInode else l.address

inductive Children
  | nil
  | cons (leaf : TreeLeaf) (children rest : Children)
  deriving DecidableEq, Repr

namespace Children

def leaves : Children → List TreeLeaf
  | nil => []
  | cons leaf children rest => leaf :: (children.leaves ++ rest.leaves)

def entries : Children → List (TreeLeaf × Children)
  | nil => []
  | cons leaf children rest => (leaf, children) :: rest.entries

def find (name : String) : Children → Option (TreeLeaf × Children)
  | nil => none
  | cons leaf children rest => if leaf.name = name then some (leaf, children) else rest.find name

def insert (new : TreeLeaf) (sub : Children) : Children → Children
  | nil => cons new sub nil
  | cons leaf children rest =>
    if new.name = leaf.name then cons leaf children rest
    else if new.name < leaf.name then cons new sub (cons leaf children rest)
    else cons leaf children (insert new sub rest)

def setTree (name : String) (tree : Bool) : Children → Children
  | nil => nil
  | cons leaf children rest =>
    if leaf.name = name then cons { leaf with tree := tree } children rest
    else cons leaf children (rest.setTree name tree)

def erase (name : String) : Children → Children
  | nil => nil
  | cons leaf children rest => if leaf.name = name then rest else cons leaf children (rest.erase name)

def lookup (address : ℕ) : Children → Option (TreeLeaf × Children)
  | nil => none
  | cons leaf children rest =>
    if leaf.address = address then some (leaf, children)
    else (children.lookup address).or (rest.lookup address)

def modify (address : ℕ) (f : Children → Children) : Children → Children
  | nil => nil
  | cons leaf children rest =>
    if leaf.address = address then cons leaf (f children) rest
    else cons leaf (children.modify address f) (rest.modify address f)

def mapLeaves (f : TreeLeaf → TreeLeaf) : Children → Children
  | nil => nil
  | cons leaf children rest => cons (f leaf) (children.mapLeaves f) (rest.mapLeaves f)

def count : Children → ℕ
  | nil => 0
  | cons _ children rest => children.count + rest.count + 1

end Children

/-- `_serverInodeIndex`: the address of the leaf that a `weak_ptr` points at. -/
abbrev InodeIndex := ℕ → Option ℕ

namespace InodeIndex

def registerLeaf (index : InodeIndex) (leaf : TreeLeaf) : InodeIndex :=
  Function.update index leaf.getServerInode (some leaf.address)

def unregisterLeaf (index : InodeIndex) (leaf : TreeLeaf) : InodeIndex :=
  Function.update index leaf.getServerInode none

def stackSize (queue : List (TreeLeaf × Children)) : ℕ := (queue.map fun e => e.2.count + 1).sum

lemma stackSize_entries (children : Children) : stackSize children.entries = children.count := by
  induction children with
  | nil => rfl
  | cons leaf children rest _ ih =>
    have h : stackSize ((leaf, children) :: rest.entries) = children.count + 1 + stackSize rest.entries := rfl
    rw [Children.entries, h, ih, Children.count]
    omega

lemma stackSize_push (children : Children) (queue : List (TreeLeaf × Children)) :
    stackSize (children.entries.reverse ++ queue) = children.count + stackSize queue := by
  rw [← stackSize_entries]
  simp [stackSize]

def walk (visit : InodeIndex → TreeLeaf → InodeIndex) (queue : List (TreeLeaf × Children))
    (index : InodeIndex) : InodeIndex :=
  match queue with
  | [] => index
  | (leaf, children) :: rest => walk visit (children.entries.reverse ++ rest) (visit index leaf)
  termination_by stackSize queue
  decreasing_by
    rw [stackSize_push]
    simp [stackSize]

end InodeIndex

structure FileTree where
  root : TreeLeaf
  children : Children
  serverInodeIndex : InodeIndex

structure DirectoryEntry where
  name : String
  type : FileType
  size : ℕ
  address : ℕ
  deriving DecidableEq, Repr

namespace FileTree

def create (name : String) (address : ℕ) : FileTree :=
  ⟨⟨address, name, .directory, 0, 0, true⟩, .nil, fun _ => none⟩

def leaves (t : FileTree) : List TreeLeaf := t.root :: t.children.leaves

def lookup (t : FileTree) (address : ℕ) : Option (TreeLeaf × Children) :=
  if t.root.address = address then some (t.root, t.children) else t.children.lookup address

def modify (t : FileTree) (address : ℕ) (f : Children → Children) : Children :=
  if t.root.address = address then f t.children else t.children.modify address f

/-- `AddChild` on the leaf at `parent`: the leaf it makes is let go where the name is there. -/
def addChild (t : FileTree) (parent : ℕ) (e : DirectoryEntry) : Option FileTree :=
  (t.lookup parent).map fun p =>
    let leaf : TreeLeaf := ⟨e.address, e.name, e.type, e.size, 0, p.1.tree⟩
    if (p.2.find e.name).isSome then t
    else
      { t with
        children := t.modify parent (Children.insert leaf .nil)
        serverInodeIndex := if p.1.tree then t.serverInodeIndex.registerLeaf leaf else t.serverInodeIndex }

def addSubtree (t : FileTree) (parent : ℕ) (leaf : TreeLeaf) (sub : Children) : Option FileTree :=
  (t.lookup parent).map fun p =>
    if (p.2.find leaf.name).isSome then
      { t with children := t.modify parent (Children.setTree leaf.name p.1.tree) }
    else if p.1.tree then
      let join := fun l : TreeLeaf => { l with tree := true }
      { t with
        children := t.modify parent (Children.insert (join leaf) (sub.mapLeaves join))
        serverInodeIndex := InodeIndex.walk InodeIndex.registerLeaf [(leaf, sub)] t.serverInodeIndex }
    else { t with children := t.modify parent (Children.insert { leaf with tree := p.1.tree } sub) }

def removeChild (t : FileTree) (parent : ℕ) (name : String) : Option FileTree :=
  (t.lookup parent).map fun p =>
    match p.2.find name with
    | none => t
    | some (leaf, sub) =>
      { t with
        children := t.modify parent (Children.erase name)
        serverInodeIndex :=
          if p.1.tree then InodeIndex.walk InodeIndex.unregisterLeaf [(leaf, sub)] t.serverInodeIndex
          else t.serverInodeIndex }

def allocate (t : FileTree) (addresses : List ℕ) : Option FileTree :=
  if addresses.Nodup ∧ ∀ a ∈ addresses, a ∉ t.leaves.map TreeLeaf.address then some t else none

def rescanEntry (parent : ℕ) (t : FileTree) (e : DirectoryEntry) : Option FileTree :=
  (t.lookup parent).bind fun p =>
    if (p.2.find e.name).isSome then some t
    else
      match e.type with
      | .regular => (t.allocate [e.address]).bind fun t => t.addChild parent e
      | .directory => (t.allocate [e.address]).bind fun t => t.addChild parent { e with size := 0 }
      | .other => some t

/-- `Rescan` over the entries it gets to before the iterator ends or throws. -/
def rescan (t : FileTree) (parent : ℕ) (entries : List DirectoryEntry) : Option FileTree :=
  entries.foldlM (rescanEntry parent) t

def setServerInode (t : FileTree) (address inode : ℕ) : Option FileTree :=
  (t.lookup address).map fun p =>
    let set := fun l : TreeLeaf => if l.address = address then { l with serverInode := inode } else l
    { root := set t.root
      children := t.children.mapLeaves set
      serverInodeIndex :=
        if p.1.tree then (t.serverInodeIndex.unregisterLeaf p.1).registerLeaf (set p.1) else t.serverInodeIndex }

inductive Call
  | addChild (parent : ℕ) (e : DirectoryEntry)
  | addSubtree (parent : ℕ) (leaf : TreeLeaf) (sub : Children)
  | removeChild (parent : ℕ) (name : String)
  | rescan (parent : ℕ) (entries : List DirectoryEntry)
  | setServerInode (address inode : ℕ)
  deriving DecidableEq, Repr

/-- `held` says which leaves outside the tree still have an owner: the others' `weak_ptr` has expired. -/
def findLeafByServerInode (t : FileTree) (held : ℕ → Bool) (inode : ℕ) : Option ℕ :=
  if inode = t.root.getServerInode then some t.root.address
  else (t.serverInodeIndex inode).filter fun a => a ∈ t.leaves.map TreeLeaf.address || held a

def step (t : FileTree) : Call → Option FileTree
  | .addChild parent e => (t.allocate [e.address]).bind fun t => t.addChild parent e
  | .addSubtree parent leaf sub =>
    (t.allocate ((leaf :: sub.leaves).map TreeLeaf.address)).bind fun t => t.addSubtree parent leaf sub
  | .removeChild parent name => t.removeChild parent name
  | .rescan parent entries => t.rescan parent entries
  | .setServerInode address inode => t.setServerInode address inode

end FileTree

end FastTransport.FileSystem
