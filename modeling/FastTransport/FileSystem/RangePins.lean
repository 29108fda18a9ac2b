import FastTransport.FileSystem.Leaf
import FastTransport.Lib.Lists
import FastTransport.Lib.Runs

/-! The pins of a leaf's ranges: `GetData` counts them up, the handles it returns count them down when they are
destroyed, and in between the handles are moved. -/

namespace FastTransport.FileSystem

open Lib.Lists Lib.Runs

namespace Leaf

variable {J : Type}

def lookupRange (leaf : Leaf J) (offset : ℕ) : Option Range :=
  (leaf.findBlock (offset / blockSize)).bind fun ranges =>
    ((ranges.takeWhile fun r => r.offset ≤ offset).getLast?).filter fun range => offset ≤ range.offset + range.size

def pinDataLoop (leaf : Leaf J) : ℕ → ℕ → ℕ → BufferView → Except (List ℕ) BufferView
  | 0, _, _, view => .ok view
  | fuel + 1, offset, readed, view =>
    if readed = 0 then .ok view
    else
      match leaf.lookupRange offset with
      | none => .ok view
      | some range =>
        -- the vector of the pinned ranges is destroyed by the exception, the ranges stay pinned
        if range.packets = [] then .error (view.pin ++ [range.id])
        else
          match skipPackets range.packets (offset - range.offset) with
          | none => .ok { view with pin := view.pin ++ [range.id] }
          | some (start, packets) =>
            let spans := takeSpans packets start readed
            let n := (spans.map Span.size).sum
            pinDataLoop leaf fuel (offset + n) (readed - n) ⟨view.spans ++ spans, view.pin ++ [range.id]⟩

def pinData (leaf : Leaf J) (offset size : ℕ) : Except (List ℕ) BufferView :=
  if leaf.size ≤ offset then .ok .empty
  else
    let readed := min size (leaf.size - offset)
    leaf.pinDataLoop readed offset readed .empty

def pinnedIds (leaf : Leaf J) (offset size : ℕ) : List ℕ :=
  match leaf.pinData offset size with
  | .error pins => pins
  | .ok view => view.pin

/-- Reading on from `offset`, the lookup comes to a range without packets. -/
inductive MeetsEmpty (leaf : Leaf J) : ℕ → ℕ → Prop
  | here {offset readed : ℕ} {range : Range} : 0 < readed → leaf.lookupRange offset = some range → range.packets = [] →
      MeetsEmpty leaf offset readed
  | further {offset readed start n : ℕ} {range : Range} {packets : List CachedPacket} : 0 < readed →
      leaf.lookupRange offset = some range → skipPackets range.packets (offset - range.offset) = some (start, packets) →
      n = ((takeSpans packets start readed).map Span.size).sum → MeetsEmpty leaf (offset + n) (readed - n) →
      MeetsEmpty leaf offset readed

def Throws (leaf : Leaf J) (offset size : ℕ) : Prop :=
  offset < leaf.size ∧ leaf.MeetsEmpty offset (min size (leaf.size - offset))

lemma lookupRange_eq_some {leaf : Leaf J} {offset : ℕ} {range : Range} (h : leaf.lookupRange offset = some range) :
    ∃ e ∈ leaf.data, range ∈ e.2 := by
  obtain ⟨ranges, hf, hr⟩ := Option.bind_eq_some_iff.mp h
  have hlast := (Option.filter_eq_some_iff.mp hr).1
  exact ⟨_, mem_of_findBlock hf, (List.takeWhile_sublist _).subset (List.mem_of_getLast? hlast)⟩

lemma pinData_congr {leaf leaf' : Leaf J} {f : Range → Range}
    (hf : ∀ r, (f r).id = r.id ∧ (f r).offset = r.offset ∧ (f r).size = r.size ∧ (f r).packets = r.packets)
    (hsize : leaf'.size = leaf.size) (hfind : ∀ i, leaf'.findBlock i = (leaf.findBlock i).map (List.map f))
    (offset size : ℕ) : leaf'.pinData offset size = leaf.pinData offset size := by
  have hlookup (o : ℕ) : leaf'.lookupRange o = (leaf.lookupRange o).map f := by
    rw [lookupRange, lookupRange, hfind]
    cases leaf.findBlock (o / blockSize) with
    | none => rfl
    | some ranges =>
      have hbefore : (ranges.map f).takeWhile (fun r => decide (r.offset ≤ o)) =
          (ranges.takeWhile fun r => decide (r.offset ≤ o)).map f := by
        rw [List.takeWhile_map]
        simp only [Function.comp_def, (hf _).2.1]
      simp only [Option.map_some, Option.bind_some, hbefore, List.getLast?_map]
      cases (ranges.takeWhile fun r => decide (r.offset ≤ o)).getLast? with
      | none => rfl
      | some range =>
        simp only [Option.map_some, Option.filter_some, (hf _).2.1, (hf _).2.2.1]
        split_ifs <;> rfl
  have hloop (fuel o readed : ℕ) (view : BufferView) :
      leaf'.pinDataLoop fuel o readed view = leaf.pinDataLoop fuel o readed view := by
    induction fuel generalizing o readed view with
    | zero => rfl
    | succ fuel ih =>
      rw [pinDataLoop, pinDataLoop, hlookup]
      cases leaf.lookupRange o with
      | none => rfl
      | some range => simp only [Option.map_some, hf, ih]
  rw [pinData, pinData, hsize]
  simp only [hloop]

lemma toOption_pinDataLoop (leaf : Leaf J) (fuel offset readed : ℕ) (view : BufferView) :
    (leaf.pinDataLoop fuel offset readed view).toOption = leaf.getDataLoop fuel offset readed view := by
  induction fuel generalizing offset readed view with
  | zero => rfl
  | succ fuel ih =>
    rw [pinDataLoop, getDataLoop, lookupRange]
    split_ifs with hr
    · rfl
    cases leaf.findBlock (offset / blockSize) with
    | none => rfl
    | some ranges =>
      simp only [Option.bind_some]
      cases (ranges.takeWhile fun r => r.offset ≤ offset).getLast? with
      | none => rfl
      | some range =>
        by_cases hin : offset ≤ range.offset + range.size
        · simp only [Option.filter_some, hin, decide_true, if_true]
          split_ifs with hp
          · rfl
          cases skipPackets range.packets (offset - range.offset) with
          | none => rfl
          | some q => exact ih _ _ _
        · simp only [Option.filter_some, hin, decide_false, if_false]
          rfl

lemma toOption_pinData (leaf : Leaf J) (offset size : ℕ) :
    (leaf.pinData offset size).toOption = leaf.getData offset size := by
  rw [pinData, getData]
  split_ifs
  · rfl
  · exact leaf.toOption_pinDataLoop _ _ _ _

lemma pos_of_skipPackets {ps qs : List CachedPacket} {offset start readed : ℕ} (hr : 0 < readed)
    (h : skipPackets ps offset = some (start, qs)) : 0 < ((takeSpans qs start readed).map Span.size).sum := by
  induction ps generalizing offset with
  | nil => cases h
  | cons p ps ih =>
    rw [skipPackets] at h
    split_ifs at h with hp
    · exact ih h
    · cases h
      rw [takeSpans, if_neg hr.ne', List.map_cons, List.sum_cons]
      dsimp only
      omega

lemma pinDataLoop_error {leaf : Leaf J} {fuel offset readed : ℕ} {view : BufferView} {pins : List ℕ}
    (hview : leaf.PinsOwn view.pin) (h : leaf.pinDataLoop fuel offset readed view = .error pins) :
    leaf.PinsOwn pins ∧ pins ≠ [] ∧ leaf.MeetsEmpty offset readed := by
  induction fuel generalizing offset readed view with
  | zero => cases h
  | succ fuel ih =>
    rw [pinDataLoop] at h
    split_ifs at h with hr
    have hpos := Nat.pos_of_ne_zero hr
    cases hat : leaf.lookupRange offset with
    | none =>
      rw [hat] at h
      cases h
    | some range =>
      have hpins : leaf.PinsOwn (view.pin ++ [range.id]) := by
        intro id hid
        rcases List.mem_append.mp hid with hid | hid
        · exact hview id hid
        · obtain ⟨e, he, hrange⟩ := lookupRange_eq_some hat
          exact ⟨e, he, range, hrange, (List.mem_singleton.mp hid).symm⟩
      rw [hat] at h
      dsimp only at h
      split_ifs at h with hp
      · cases h
        exact ⟨hpins, List.concat_ne_nil _ _, .here hpos hat hp⟩
      cases hskip : skipPackets range.packets (offset - range.offset) with
      | none =>
        rw [hskip] at h
        cases h
      | some q =>
        rw [hskip] at h
        obtain ⟨hown, hne, hmeets⟩ := ih hpins h
        exact ⟨hown, hne, .further hpos hat hskip rfl hmeets⟩

lemma MeetsEmpty.throws {leaf : Leaf J} {offset readed : ℕ} (h : leaf.MeetsEmpty offset readed) {fuel : ℕ}
    (hfuel : readed ≤ fuel) (view : BufferView) : ∃ pins, leaf.pinDataLoop fuel offset readed view = .error pins := by
  induction h generalizing fuel view with
  | here hr hat hp =>
    obtain ⟨fuel, rfl⟩ : ∃ k, fuel = k + 1 := Nat.exists_eq_add_one.mpr (hr.trans_le hfuel)
    exact ⟨_, by rw [pinDataLoop, if_neg hr.ne', hat]; exact if_pos hp⟩
  | @further offset readed start n range packets hr hat hskip hn _ ih =>
    obtain ⟨fuel, rfl⟩ : ∃ k, fuel = k + 1 := Nat.exists_eq_add_one.mpr (hr.trans_le hfuel)
    have hpos := pos_of_skipPackets hr hskip
    have hne : range.packets ≠ [] := by
      intro hnil
      rw [hnil] at hskip
      cases hskip
    have hle : readed - n ≤ fuel := by omega
    obtain ⟨pins, hpins⟩ := ih hle ⟨view.spans ++ takeSpans packets start readed, view.pin ++ [range.id]⟩
    rw [hn] at hpins
    exact ⟨pins, by rw [pinDataLoop, if_neg hr.ne', hat]; dsimp only; rw [if_neg hne, hskip]; exact hpins⟩

lemma MeetsEmpty.exists_empty {leaf : Leaf J} {offset readed : ℕ} (h : leaf.MeetsEmpty offset readed) :
    ∃ e ∈ leaf.data, ∃ r ∈ e.2, r.packets = [] := by
  induction h with
  | @here _ _ range _ hat hp =>
    obtain ⟨e, he, hr⟩ := lookupRange_eq_some hat
    exact ⟨e, he, range, hr, hp⟩
  | further _ _ _ _ _ ih => exact ih

lemma not_throws_of_packets {leaf : Leaf J} (h : ∀ e ∈ leaf.data, ∀ r ∈ e.2, r.packets ≠ []) (offset size : ℕ) :
    ¬ leaf.Throws offset size := by
  rintro ⟨-, hmeets⟩
  obtain ⟨e, he, r, hr, hp⟩ := hmeets.exists_empty
  exact h e he r hr hp

lemma throws_iff {leaf : Leaf J} {offset size : ℕ} :
    leaf.Throws offset size ↔ ∃ pins, leaf.pinData offset size = .error pins := by
  rw [pinData]
  constructor
  · rintro ⟨hlt, hmeets⟩
    rw [if_neg (Nat.not_le.mpr hlt)]
    exact hmeets.throws le_rfl _
  · rintro ⟨pins, h⟩
    split_ifs at h with hle
    exact ⟨Nat.not_le.mp hle, (pinDataLoop_error (fun _ hid => absurd hid List.not_mem_nil) h).2.2⟩

lemma throws_congr {leaf leaf' : Leaf J} {f : Range → Range}
    (hf : ∀ r, (f r).id = r.id ∧ (f r).offset = r.offset ∧ (f r).size = r.size ∧ (f r).packets = r.packets)
    (hsize : leaf'.size = leaf.size) (hfind : ∀ i, leaf'.findBlock i = (leaf.findBlock i).map (List.map f))
    {offset size : ℕ} : leaf'.Throws offset size ↔ leaf.Throws offset size := by
  rw [throws_iff, throws_iff, pinData_congr hf hsize hfind]

lemma pinData_error {leaf : Leaf J} {offset size : ℕ} {pins : List ℕ} (h : leaf.pinData offset size = .error pins) :
    leaf.PinsOwn pins ∧ pins ≠ [] := by
  rw [pinData] at h
  split_ifs at h
  obtain ⟨hown, hne, -⟩ := pinDataLoop_error (fun _ hid => absurd hid List.not_mem_nil) h
  exact ⟨hown, hne⟩

lemma getData_of_pinData {leaf : Leaf J} {offset size : ℕ} {view : BufferView}
    (h : leaf.pinData offset size = .ok view) : leaf.getData offset size = some view := by
  rw [← leaf.toOption_pinData, h]
  rfl

lemma pinData_of_getData {leaf : Leaf J} {offset size : ℕ} {view : BufferView}
    (h : leaf.getData offset size = some view) : leaf.pinData offset size = .ok view := by
  rw [← leaf.toOption_pinData] at h
  cases hp : leaf.pinData offset size with
  | error pins =>
    rw [hp] at h
    exact absurd h (Option.some_ne_none view).symm
  | ok view' =>
    rw [hp] at h
    exact congrArg Except.ok (Option.some.inj h)

lemma pinData_ok {leaf : Leaf J} {offset size : ℕ} {view : BufferView} (h : leaf.pinData offset size = .ok view) :
    leaf.PinsOwn view.pin := getData_pinsOwn (getData_of_pinData h)

lemma not_throws_of_pinData {leaf : Leaf J} {offset size : ℕ} {view : BufferView}
    (h : leaf.pinData offset size = .ok view) : ¬ leaf.Throws offset size := by
  intro hthrows
  obtain ⟨pins, herror⟩ := throws_iff.mp hthrows
  rw [h] at herror
  cases herror

end Leaf

/-- No pin is alive yet; ranges are told apart by their identities. -/
structure UnpinnedLeaf (J : Type) where
  leaf : Leaf J
  counters : ∀ e ∈ leaf.data, ∀ r ∈ e.2, r.counter = 1
  distinct : ((leaf.data.flatMap Prod.snd).map Range.id).Nodup

structure RangePins (J : Type) where
  leaf : Leaf J
  pins : List (List ℕ)

inductive RangePinCall
  | getData (offset size : ℕ)
  | construct
  | moveConstruct (i : ℕ)
  | moveAssign (i j : ℕ)
  | destroy (i : ℕ)
  deriving DecidableEq, Repr

namespace RangePins

variable {J : Type}

def create (leaf : UnpinnedLeaf J) : RangePins J := ⟨leaf.leaf, []⟩

def livePins (s : RangePins J) : List ℕ := s.pins.flatMap id

/-- A vector that is moved from is empty afterwards; the vector that is moved onto drops what it held. -/
def step (s : RangePins J) : RangePinCall → Option (RangePins J)
  | .getData offset size =>
    match s.leaf.pinData offset size with
    | .ok view => some ⟨s.leaf.pin view.pin, s.pins ++ [view.pin]⟩
    | .error ids => some { s with leaf := s.leaf.pin ids }
  | .construct => some { s with pins := s.pins ++ [[]] }
  | .moveConstruct i => (s.pins[i]?).map fun ids => { s with pins := s.pins.set i [] ++ [ids] }
  | .moveAssign i j =>
    (s.pins[i]?).bind fun _ => (s.pins[j]?).map fun ids => { s with pins := (s.pins.set i ids).set j [] }
  | .destroy i => (s.pins[i]?).map fun ids => ⟨s.leaf.unpin ids, s.pins.eraseIdx i⟩

def Exact (s : RangePins J) : Prop := ∀ e ∈ s.leaf.data, ∀ r ∈ e.2, r.counter = 1 + s.livePins.count r.id

def Evictable (s : RangePins J) : Prop :=
  ∀ e ∈ s.leaf.data, e.2.any Range.isPinned = false ↔ ∀ r ∈ e.2, r.id ∉ s.livePins

/-- The lookup meets no range without packets, and a pin that is moved onto holds nothing. -/
def Balanced (s : RangePins J) : RangePinCall → Prop
  | .getData offset size => ¬ s.leaf.Throws offset size
  | .moveAssign i _ => s.pins.getD i [] = []
  | _ => True

structure Inv (s : RangePins J) : Prop where
  exact : s.Exact
  own : s.leaf.PinsOwn s.livePins

variable {s t : RangePins J}

lemma Exact.evictable (h : s.Exact) : s.Evictable := by
  intro e he
  rw [List.any_eq_false]
  refine forall₂_congr fun r hr => ?_
  rw [Range.isPinned, decide_eq_true_eq, h e he r hr, ← List.count_eq_zero]
  omega

lemma pinsOwn_mapRanges {leaf : Leaf J} {f : Range → Range} (hf : ∀ r, (f r).id = r.id) {pins : List ℕ}
    (h : leaf.PinsOwn pins) : (leaf.mapRanges f).PinsOwn pins := by
  intro id hid
  obtain ⟨e, he, r, hr, hrid⟩ := h id hid
  exact ⟨_, List.mem_map_of_mem he, f r, List.mem_map_of_mem hr, (hf r).trans hrid⟩

lemma exact_mapRanges_iff (h : s.Exact) {f : Range → Range} {n : ℕ → ℤ} (hid : ∀ r, (f r).id = r.id)
    (hf : ∀ r, (f r).counter = r.counter + n r.id) (pins : List (List ℕ)) :
    Exact ⟨s.leaf.mapRanges f, pins⟩ ↔
      ∀ e ∈ s.leaf.data, ∀ r ∈ e.2, ((pins.flatMap id).count r.id : ℤ) = s.livePins.count r.id + n r.id := by
  constructor
  · intro hexact e he r hr
    have hcount := hexact _ (List.mem_map_of_mem he) (f r) (List.mem_map_of_mem hr)
    rw [hf, hid, h e he r hr] at hcount
    change _ = 1 + ((pins.flatMap id).count r.id : ℤ) at hcount
    omega
  · intro hcount e he r hr
    obtain ⟨e', he', rfl⟩ := List.mem_map.mp he
    obtain ⟨r', hr', rfl⟩ := List.mem_map.mp hr
    rw [hf, hid, h e' he' r' hr', add_assoc, ← hcount e' he' r' hr']
    rfl

lemma exact_pin_iff (h : s.Exact) (ids : List ℕ) (pins : List (List ℕ)) :
    Exact ⟨s.leaf.pin ids, pins⟩ ↔ ∀ e ∈ s.leaf.data, ∀ r ∈ e.2,
      (pins.flatMap id).count r.id = s.livePins.count r.id + ids.count r.id := by
  refine (exact_mapRanges_iff h (f := fun r => r.pin ids) (n := fun a => ids.count a) (fun _ => rfl) (fun _ => rfl)
    pins).trans (forall₂_congr fun e _ => forall₂_congr fun r _ => ?_)
  omega

lemma exact_unpin_iff (h : s.Exact) (ids : List ℕ) (pins : List (List ℕ)) :
    Exact ⟨s.leaf.unpin ids, pins⟩ ↔ ∀ e ∈ s.leaf.data, ∀ r ∈ e.2,
      (pins.flatMap id).count r.id + ids.count r.id = s.livePins.count r.id := by
  refine (exact_mapRanges_iff h (f := fun r => r.unpin ids) (n := fun a => -ids.count a) (fun _ => rfl) (fun _ => rfl)
    pins).trans (forall₂_congr fun e _ => forall₂_congr fun r _ => ?_)
  omega

lemma exact_pins_iff (h : s.Exact) (pins : List (List ℕ)) :
    Exact ⟨s.leaf, pins⟩ ↔
      ∀ e ∈ s.leaf.data, ∀ r ∈ e.2, (pins.flatMap id).count r.id = s.livePins.count r.id := by
  refine forall₂_congr fun e he => forall₂_congr fun r hr => ?_
  rw [h e he r hr]
  change 1 + _ = 1 + ((pins.flatMap id).count r.id : ℤ) ↔ _
  omega

lemma eq_nil_of_count {leaf : Leaf J} {ids : List ℕ} (hown : leaf.PinsOwn ids)
    (hcount : ∀ e ∈ leaf.data, ∀ r ∈ e.2, ids.count r.id = 0) : ids = [] := by
  apply List.eq_nil_iff_forall_not_mem.mpr
  intro id hid
  obtain ⟨e, he, r, hr, rfl⟩ := hown id hid
  exact List.count_eq_zero.mp (hcount e he r hr) hid

lemma count_moveConstruct {pins : List (List ℕ)} {i : ℕ} {ids : List ℕ} (hi : pins[i]? = some ids) (a : ℕ) :
    ((pins.set i [] ++ [ids]).flatMap id).count a = (pins.flatMap id).count a := by
  have hset := (flatMap_set_perm id hi []).count_eq a
  simp only [List.flatMap_append, List.flatMap_singleton, List.count_append, id_eq, List.nil_append] at hset ⊢
  omega

lemma count_moveAssign {pins : List (List ℕ)} {i j : ℕ} {ids ids' : List ℕ} (hi : pins[i]? = some ids)
    (hj : pins[j]? = some ids') (a : ℕ) :
    (((pins.set i ids').set j []).flatMap id).count a + ids.count a = (pins.flatMap id).count a := by
  have hj' : (pins.set i ids')[j]? = some ids' := by
    rw [List.getElem?_set]
    split_ifs with hij hlt
    · rfl
    · exact absurd (List.getElem?_eq_some_iff.mp hi).1 hlt
    · exact hj
  have hfirst := (flatMap_set_perm id hi ids').count_eq a
  have hsecond := (flatMap_set_perm id hj' []).count_eq a
  simp only [List.count_append, id_eq, List.nil_append] at hfirst hsecond
  omega

lemma count_destroy {pins : List (List ℕ)} {i : ℕ} {ids : List ℕ} (hi : pins[i]? = some ids) (a : ℕ) :
    ((pins.eraseIdx i).flatMap id).count a + ids.count a = (pins.flatMap id).count a := by
  obtain ⟨xs, ys, hpins, herase⟩ := getElem?_eraseIdx hi
  rw [herase, hpins]
  simp only [List.flatMap_append, List.flatMap_cons, List.count_append, id_eq]
  omega

lemma Inv.step_exact_iff (h : s.Inv) {call : RangePinCall} (ht : s.step call = some t) :
    t.Exact ↔ s.Balanced call := by
  cases call with
  | getData offset size =>
    rw [step] at ht
    cases hp : s.leaf.pinData offset size with
    | ok view =>
      rw [hp] at ht
      cases ht
      refine iff_of_true ((exact_pin_iff h.exact _ _).mpr fun e he r hr => ?_) (Leaf.not_throws_of_pinData hp)
      simp [livePins]
    | error ids =>
      rw [hp] at ht
      cases ht
      obtain ⟨hown, hne⟩ := Leaf.pinData_error hp
      refine iff_of_false (fun hexact => hne (eq_nil_of_count hown fun e he r hr => ?_)) fun hb =>
        hb (Leaf.throws_iff.mpr ⟨ids, hp⟩)
      have hcount := (exact_pin_iff h.exact ids s.pins).mp hexact e he r hr
      rw [livePins] at hcount
      omega
  | construct =>
    cases ht
    refine iff_of_true ((exact_pins_iff h.exact _).mpr fun e he r hr => ?_) trivial
    simp [livePins]
  | moveConstruct i =>
    obtain ⟨ids, hi, rfl⟩ := Option.map_eq_some_iff.mp ht
    exact iff_of_true ((exact_pins_iff h.exact _).mpr fun e he r hr => count_moveConstruct hi r.id) trivial
  | moveAssign i j =>
    obtain ⟨ids, hi, ht⟩ := Option.bind_eq_some_iff.mp ht
    obtain ⟨ids', hj, rfl⟩ := Option.map_eq_some_iff.mp ht
    have hown : s.leaf.PinsOwn ids := fun a ha =>
      h.own a (List.mem_flatMap.mpr ⟨ids, List.mem_of_getElem? hi, ha⟩)
    rw [exact_pins_iff h.exact, Balanced, List.getD_eq_getElem?_getD, hi, Option.getD_some]
    constructor
    · intro hcount
      refine eq_nil_of_count hown fun e he r hr => ?_
      have hmoved := count_moveAssign hi hj r.id
      rw [hcount e he r hr, livePins] at hmoved
      omega
    · rintro rfl e he r hr
      exact count_moveAssign hi hj r.id
  | destroy i =>
    obtain ⟨ids, hi, rfl⟩ := Option.map_eq_some_iff.mp ht
    exact iff_of_true ((exact_unpin_iff h.exact _ _).mpr fun e he r hr => count_destroy hi r.id) trivial

lemma Inv.step_own (h : s.Inv) {call : RangePinCall} (ht : s.step call = some t) : t.leaf.PinsOwn t.livePins := by
  have hsub {pins : List (List ℕ)} (hp : ∀ ids ∈ pins, ∀ a ∈ ids, a ∈ s.livePins) :
      s.leaf.PinsOwn (pins.flatMap id) := by
    intro a ha
    obtain ⟨ids, hids, ha⟩ := List.mem_flatMap.mp ha
    exact h.own a (hp ids hids a ha)
  have hlive {ids : List ℕ} (hids : ids ∈ s.pins) : ∀ a ∈ ids, a ∈ s.livePins :=
    fun a ha => List.mem_flatMap.mpr ⟨ids, hids, ha⟩
  have hset {ids ids' : List ℕ} {pins : List (List ℕ)} {i : ℕ} (hids : ∀ a ∈ ids, a ∈ s.livePins)
      (hp : ∀ ids ∈ pins, ∀ a ∈ ids, a ∈ s.livePins) (hm : ids' ∈ pins.set i ids) : ∀ a ∈ ids', a ∈ s.livePins := by
    rcases List.mem_or_eq_of_mem_set hm with hm | rfl
    · exact hp _ hm
    · exact hids
  have hnil : ∀ a ∈ ([] : List ℕ), a ∈ s.livePins := fun a ha => absurd ha List.not_mem_nil
  cases call with
  | getData offset size =>
    rw [step] at ht
    cases hp : s.leaf.pinData offset size with
    | ok view =>
      rw [hp] at ht
      cases ht
      refine pinsOwn_mapRanges (f := fun r => r.pin view.pin) (fun _ => rfl) fun a ha => ?_
      rw [livePins, List.flatMap_append, List.flatMap_singleton] at ha
      rcases List.mem_append.mp ha with ha | ha
      · exact h.own a ha
      · exact Leaf.pinData_ok hp a ha
    | error ids =>
      rw [hp] at ht
      cases ht
      exact pinsOwn_mapRanges (f := fun r => r.pin ids) (fun _ => rfl) h.own
  | construct =>
    cases ht
    refine hsub fun ids hids => ?_
    rcases List.mem_append.mp hids with hids | hids
    · exact hlive hids
    · rw [List.mem_singleton.mp hids]
      exact hnil
  | moveConstruct i =>
    obtain ⟨ids, hi, rfl⟩ := Option.map_eq_some_iff.mp ht
    refine hsub fun ids' hids => ?_
    rcases List.mem_append.mp hids with hids | hids
    · exact hset hnil (fun _ hm => hlive hm) hids
    · rw [List.mem_singleton.mp hids]
      exact hlive (List.mem_of_getElem? hi)
  | moveAssign i j =>
    obtain ⟨ids, hi, ht⟩ := Option.bind_eq_some_iff.mp ht
    obtain ⟨ids', hj, rfl⟩ := Option.map_eq_some_iff.mp ht
    exact hsub fun _ hm => hset hnil
      (fun _ hm => hset (hlive (List.mem_of_getElem? hj)) (fun _ hm => hlive hm) hm) hm
  | destroy i =>
    obtain ⟨ids, hi, rfl⟩ := Option.map_eq_some_iff.mp ht
    exact pinsOwn_mapRanges (f := fun r => r.unpin ids) (fun _ => rfl)
      (hsub fun _ hm => hlive (List.mem_of_mem_eraseIdx hm))

theorem pin_counts_exact {leaf : UnpinnedLeaf J} {calls : List RangePinCall}
    (h : Path step Balanced (create leaf) calls s) :
    s.Exact ∧ s.Evictable ∧ ∀ call t, s.step call = some t → (t.Exact ↔ s.Balanced call) := by
  have hinv : s.Inv := by
    refine h.invariant (fun s call t hs hok ht => ⟨(hs.step_exact_iff ht).mpr hok, hs.step_own ht⟩) ⟨?_, ?_⟩
    · exact fun e he r hr => (leaf.counters e he r hr).trans (by simp [create, livePins])
    · exact fun a ha => absurd ha List.not_mem_nil
  exact ⟨hinv.exact, hinv.exact.evictable, fun call t ht => hinv.step_exact_iff ht⟩

def oneRange : UnpinnedLeaf Unit where
  leaf := ((Leaf.create "file" 0 4).addData 0 0 2 [⟨0, [1, 2], []⟩]).2
  counters := by decide
  distinct := by decide

theorem pin_counts_exact_moved :
    ∃ s, Path step Balanced (create oneRange) [.getData 0 1, .construct, .moveAssign 1 0] s ∧ s.Exact ∧ s.Evictable := by
  have hok : (create oneRange).Balanced (.getData 0 1) := Leaf.not_throws_of_packets (by decide) 0 1
  have hpath : Path step Balanced (create oneRange) [.getData 0 1, .construct, .moveAssign 1 0]
      ⟨oneRange.leaf.pin [0], [[], [0]]⟩ :=
    .cons hok rfl (.cons trivial rfl (.cons rfl rfl (.nil _)))
  obtain ⟨hexact, hevictable, -⟩ := pin_counts_exact hpath
  exact ⟨_, hpath, hexact, hevictable⟩

theorem move_assignment_leaks_pin :
    ¬ ∀ (leaf : UnpinnedLeaf Unit) (calls : List RangePinCall) (s : RangePins Unit),
      run step (create leaf) calls = some s → s.Exact := by
  intro h
  have hexact := h oneRange [.getData 0 1, .getData 0 1, .moveAssign 0 1]
    ⟨(oneRange.leaf.pin [0]).pin [0], [[0], []]⟩ rfl
  exact absurd (hexact _ List.mem_cons_self _ List.mem_cons_self) (by decide)

end RangePins

end FastTransport.FileSystem
