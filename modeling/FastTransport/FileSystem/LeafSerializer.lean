import FastTransport.Lib.Bytes

/-! `LeafSerializer`: a tree of leaves as bytes, read back node by node from a stream. -/

namespace FastTransport.FileSystem

open Lib.Bytes

/-- `std::filesystem::file_type`, an enumeration over a signed char. -/
abbrev FileTypeValue := Int8

inductive LeafTree
  | node (name : List UInt8) (type : FileTypeValue) (size : UInt64) (children : List LeafTree)

namespace LeafTree

def name : LeafTree → List UInt8
  | node name _ _ _ => name

def create (name : List UInt8) (type : FileTypeValue) (size : UInt64) : LeafTree := node name type size []

/-- `insert` of the map: nothing happens where neither name comes before the other. -/
def insert (child : LeafTree) : List LeafTree → List LeafTree
  | [] => [child]
  | c :: cs =>
    if child.name < c.name then child :: c :: cs
    else if c.name < child.name then c :: insert child cs
    else c :: cs

def addChild : LeafTree → LeafTree → LeafTree
  | node name type size children, child => node name type size (insert child children)

def addChildAt : List (List UInt8) → LeafTree → LeafTree → LeafTree
  | [], leaf, child => leaf.addChild child
  | step :: path, node name type size children, child =>
    node name type size (children.map fun c => if c.name = step then addChildAt path c child else c)

inductive Built : LeafTree → Prop
  | create (name : List UInt8) (type : FileTypeValue) (size : UInt64) : Built (create name type size)
  | addChild (path : List (List UInt8)) {leaf child : LeafTree} : Built leaf → Built child →
      Built (leaf.addChildAt path child)

/-- The names are shorter than 2^32 bytes, and the size of a map is a `size_t`. -/
inductive Fits : LeafTree → Prop
  | node {name : List UInt8} {type : FileTypeValue} {size : UInt64} {children : List LeafTree} :
      name.length < 2 ^ 32 → children.length < 2 ^ 64 → (∀ c ∈ children, Fits c) →
      Fits (node name type size children)

inductive Ordered : LeafTree → Prop
  | node {name : List UInt8} {type : FileTypeValue} {size : UInt64} {children : List LeafTree} :
      children.Pairwise (fun c d => c.name < d.name) → (∀ c ∈ children, Ordered c) →
      Ordered (node name type size children)

lemma mem_insert {child c : LeafTree} {cs : List LeafTree} (h : c ∈ insert child cs) : c = child ∨ c ∈ cs := by
  induction cs with
  | nil => exact Or.inl (List.mem_singleton.mp h)
  | cons d cs ih =>
    rw [insert] at h
    split_ifs at h
    · exact List.mem_cons.mp h
    · rcases List.mem_cons.mp h with rfl | h
      · exact Or.inr List.mem_cons_self
      · exact (ih h).imp_right (List.mem_cons_of_mem d)
    · exact Or.inr h

lemma pairwise_insert (child : LeafTree) {cs : List LeafTree} (h : cs.Pairwise fun c d => c.name < d.name) :
    (insert child cs).Pairwise fun c d => c.name < d.name := by
  induction cs with
  | nil => exact List.pairwise_singleton _ _
  | cons d cs ih =>
    obtain ⟨hd, hcs⟩ := List.pairwise_cons.mp h
    rw [insert]
    split_ifs with hlt hgt
    · refine List.pairwise_cons.mpr ⟨fun c hc => ?_, h⟩
      rcases List.mem_cons.mp hc with rfl | hc
      · exact hlt
      · exact List.lt_trans hlt (hd c hc)
    · refine List.pairwise_cons.mpr ⟨fun c hc => ?_, ih hcs⟩
      rcases mem_insert hc with rfl | hc
      · exact hgt
      · exact hd c hc
    · exact h

lemma insert_append {child : LeafTree} {cs : List LeafTree} (h : ∀ c ∈ cs, c.name < child.name) :
    insert child cs = cs ++ [child] := by
  induction cs with
  | nil => rfl
  | cons d cs ih =>
    have hd := h d List.mem_cons_self
    rw [insert, if_neg (List.lt_asymm hd), if_pos hd, ih fun c hc => h c (List.mem_cons_of_mem d hc),
      List.cons_append]

lemma name_addChildAt (leaf : LeafTree) (path : List (List UInt8)) (child : LeafTree) :
    (leaf.addChildAt path child).name = leaf.name := by
  cases leaf
  cases path <;> rfl

lemma Ordered.addChildAt {leaf child : LeafTree} (h : leaf.Ordered) (path : List (List UInt8))
    (hchild : child.Ordered) : (leaf.addChildAt path child).Ordered := by
  induction path generalizing leaf with
  | nil =>
    cases h with
    | node hsorted hbelow =>
      refine .node (pairwise_insert child hsorted) fun c hc => ?_
      rcases mem_insert hc with rfl | hc
      · exact hchild
      · exact hbelow c hc
  | cons step path ih =>
    cases h with
    | node hsorted hbelow =>
      refine .node (List.pairwise_map.mpr (hsorted.imp fun {c d} hcd => ?_)) fun c hc => ?_
      · split_ifs <;> simpa only [name_addChildAt] using hcd
      · obtain ⟨d, hd, rfl⟩ := List.mem_map.mp hc
        split_ifs
        · exact ih (hbelow d hd)
        · exact hbelow d hd

lemma Built.ordered {leaf : LeafTree} (h : leaf.Built) : leaf.Ordered := by
  induction h with
  | create name type size => exact .node List.Pairwise.nil fun _ hc => absurd hc List.not_mem_nil
  | addChild path _ _ ih ihchild => exact ih.addChildAt path ihchild

end LeafTree

namespace LeafSerializer

def writeName (name : List UInt8) : List UInt8 := toBytes 4 name.length ++ name

mutual

def serialize : LeafTree → List UInt8
  | .node name type size children =>
    writeName name ++ [type.toUInt8] ++ toBytes 8 size.toNat ++ toBytes 8 children.length ++
      serializeChildren children

def serializeChildren : List LeafTree → List UInt8
  | [] => []
  | child :: children => serialize child ++ serializeChildren children

end

def read (size : ℕ) (stream : List UInt8) : Option (List UInt8 × List UInt8) :=
  if size ≤ stream.length then some (stream.take size, stream.drop size) else none

def readNumber (width : ℕ) (stream : List UInt8) : Option (ℕ × List UInt8) :=
  (read width stream).map fun r => (ofBytes r.1, r.2)

def readName (stream : List UInt8) : Option (List UInt8 × List UInt8) :=
  (readNumber 4 stream).bind fun r => read r.1 r.2

def readType (stream : List UInt8) : Option (FileTypeValue × List UInt8) :=
  match stream with
  | [] => none
  | byte :: stream => some (byte.toInt8, stream)

def addChildren (deserialize : List UInt8 → Option (LeafTree × List UInt8)) :
    ℕ → LeafTree → List UInt8 → Option (LeafTree × List UInt8)
  | 0, leaf, stream => some (leaf, stream)
  | count + 1, leaf, stream =>
    (deserialize stream).bind fun r => addChildren deserialize count (leaf.addChild r.1) r.2

def deserializeDepth : ℕ → List UInt8 → Option (LeafTree × List UInt8)
  | 0, _ => none
  | depth + 1, stream => do
    let (name, stream) ← readName stream
    let (type, stream) ← readType stream
    let (fileSize, stream) ← readNumber 8 stream
    let (size, stream) ← readNumber 8 stream
    addChildren (deserializeDepth depth) size (LeafTree.create name type (UInt64.ofNat fileSize)) stream

/-- No leaf takes less than one byte, so a stream has no more depth than bytes. -/
def deserialize (stream : List UInt8) : Option (LeafTree × List UInt8) :=
  deserializeDepth stream.length stream

lemma read_append (bytes rest : List UInt8) : read bytes.length (bytes ++ rest) = some (bytes, rest) := by
  rw [read, if_pos (by simp), List.take_left, List.drop_left]

lemma readNumber_toBytes {width n : ℕ} (h : n < 256 ^ width) (rest : List UInt8) :
    readNumber width (toBytes width n ++ rest) = some (n, rest) := by
  have hread := read_append (toBytes width n) rest
  rw [toBytes_length] at hread
  rw [readNumber, hread, Option.map_some, ofBytes_toBytes_of_lt h]

lemma readName_writeName {name : List UInt8} (h : name.length < 2 ^ 32) (rest : List UInt8) :
    readName (writeName name ++ rest) = some (name, rest) := by
  rw [readName, writeName, List.append_assoc, readNumber_toBytes h, Option.bind_some, read_append]

lemma readType_toUInt8 (type : FileTypeValue) (rest : List UInt8) :
    readType ([type.toUInt8] ++ rest) = some (type, rest) := by
  rw [List.singleton_append, readType, Int8.toInt8_toUInt8]

lemma addChild_append {child : LeafTree} {name : List UInt8} {type : FileTypeValue} {size : UInt64}
    {before : List LeafTree} (h : ∀ c ∈ before, c.name < child.name) :
    LeafTree.addChild (.node name type size before) child = .node name type size (before ++ [child]) := by
  rw [LeafTree.addChild, LeafTree.insert_append h]

lemma addChildren_serializeChildren {deserialize : List UInt8 → Option (LeafTree × List UInt8)}
    {name : List UInt8} {type : FileTypeValue} {size : UInt64} {before children : List LeafTree}
    (hsorted : (before ++ children).Pairwise fun c d => c.name < d.name)
    (hread : ∀ c ∈ children, ∀ rest, deserialize (serialize c ++ rest) = some (c, rest)) (rest : List UInt8) :
    addChildren deserialize children.length (.node name type size before) (serializeChildren children ++ rest) =
      some (.node name type size (before ++ children), rest) := by
  induction children generalizing before with
  | nil => rw [List.append_nil, serializeChildren, List.nil_append, List.length_nil, addChildren]
  | cons c children ih =>
    have hbefore : ∀ d ∈ before, d.name < c.name := fun d hd =>
      (List.pairwise_append.mp hsorted).2.2 d hd c List.mem_cons_self
    have happend : before ++ c :: children = before ++ [c] ++ children := by
      rw [List.append_assoc, List.singleton_append]
    rw [serializeChildren, List.append_assoc, List.length_cons, addChildren, hread c List.mem_cons_self,
      Option.bind_some]
    dsimp only
    rw [addChild_append hbefore, happend]
    rw [happend] at hsorted
    exact ih hsorted fun d hd => hread d (List.mem_cons_of_mem c hd)

lemma length_serialize_le {c : LeafTree} {children : List LeafTree} (h : c ∈ children) :
    (serialize c).length ≤ (serializeChildren children).length := by
  induction children with
  | nil => cases h
  | cons d children ih =>
    rw [serializeChildren, List.length_append]
    rcases List.mem_cons.mp h with rfl | h
    · exact Nat.le_add_right _ _
    · exact (ih h).trans (Nat.le_add_left _ _)

lemma deserializeDepth_serialize {depth : ℕ} {leaf : LeafTree} (hordered : leaf.Ordered) (hfits : leaf.Fits)
    (hdepth : (serialize leaf).length ≤ depth) (rest : List UInt8) :
    deserializeDepth depth (serialize leaf ++ rest) = some (leaf, rest) := by
  induction depth generalizing leaf rest with
  | zero =>
    cases leaf
    simp [serialize] at hdepth
  | succ depth ih =>
    cases hordered with
    | @node name type size children hsorted hbelow =>
      cases hfits with
      | node hname hcount hfit =>
        have hread : ∀ c ∈ children, ∀ rest, deserializeDepth depth (serialize c ++ rest) = some (c, rest) := by
          intro c hc rest
          apply ih (hbelow c hc) (hfit c hc)
          have hle := length_serialize_le hc
          simp only [serialize, List.length_append, toBytes_length] at hdepth
          omega
        have hloop := @addChildren_serializeChildren _ name type size [] _ hsorted hread rest
        have hsize : size.toNat < 256 ^ 8 := size.toNat_lt
        simp only [serialize, List.append_assoc]
        rw [deserializeDepth, readName_writeName hname]
        simp only [Option.bind_eq_bind, Option.bind_some]
        rw [readType_toUInt8, Option.bind_some]
        dsimp only
        rw [readNumber_toBytes hsize, Option.bind_some]
        dsimp only
        rw [readNumber_toBytes hcount, Option.bind_some]
        dsimp only
        rw [UInt64.ofNat_toNat]
        exact hloop

theorem deserialize_serialize {leaf : LeafTree} (h : leaf.Built) (hfits : leaf.Fits) (rest : List UInt8) :
    deserialize (serialize leaf ++ rest) = some (leaf, rest) := by
  have hdepth : (serialize leaf).length ≤ (serialize leaf ++ rest).length := by
    rw [List.length_append]
    exact Nat.le_add_right _ _
  exact deserializeDepth_serialize h.ordered hfits hdepth rest

def nested : LeafTree :=
  ((LeafTree.create [114] 2 0).addChildAt [] (LeafTree.create [100] 2 0)).addChildAt [[100]] (LeafTree.create [102] 1 5)

lemma fits_nested : nested.Fits := by
  have hfile : (LeafTree.create [102] 1 5).Fits :=
    .node (by decide) (by decide) fun c hc => absurd hc List.not_mem_nil
  refine .node (by decide) (by decide) fun d hd => ?_
  rw [List.mem_singleton.mp hd]
  refine .node (by decide) (by decide) fun c hc => ?_
  rw [List.mem_singleton.mp hc]
  exact hfile

theorem deserialize_serialize_nested : deserialize (serialize nested ++ [7]) = some (nested, [7]) :=
  deserialize_serialize (.addChild [[100]] (.addChild [] (.create _ _ _) (.create _ _ _)) (.create _ _ _))
    fits_nested [7]

end LeafSerializer

end FastTransport.FileSystem
