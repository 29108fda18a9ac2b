import Mathlib.Algebra.Group.Action.Defs
import Mathlib.Algebra.Order.BigOperators.Group.List
import Mathlib.Algebra.Order.Ring.Nat

/-! Items put in order into bins, each bin left for the next one when an item has no room in it. With bins of one
capacity that needs no more bins than any other way of cutting the list. -/

namespace FastTransport.Lib.Packing

/-- The list can be cut into `bins` runs, none above the capacity. -/
def Fits (capacity bins : ℕ) (sizes : List ℕ) : Prop :=
  ∃ cut : List (List ℕ), cut.flatten = sizes ∧ cut.length ≤ bins ∧ ∀ run ∈ cut, run.sum ≤ capacity

def FitsAfter (capacity room bins : ℕ) (sizes : List ℕ) : Prop :=
  ∃ first rest, sizes = first ++ rest ∧ first.sum ≤ room ∧ Fits capacity bins rest

variable {capacity room bins : ℕ} {sizes : List ℕ}

lemma fits_nil (capacity bins : ℕ) : Fits capacity bins [] := ⟨[], rfl, Nat.zero_le _, fun _ h => by cases h⟩

lemma fits_succ : Fits capacity (bins + 1) sizes ↔ FitsAfter capacity capacity bins sizes := by
  constructor
  · rintro ⟨cut, rfl, hlen, hruns⟩
    cases cut with
    | nil => exact ⟨[], [], rfl, Nat.zero_le _, fits_nil capacity bins⟩
    | cons run cut =>
      exact ⟨run, cut.flatten, rfl, hruns run List.mem_cons_self, cut, rfl, Nat.le_of_succ_le_succ hlen,
        fun r hr => hruns r (List.mem_cons_of_mem run hr)⟩
  · rintro ⟨first, rest, rfl, hfirst, cut, rfl, hlen, hruns⟩
    exact ⟨first :: cut, rfl, Nat.succ_le_succ hlen, List.forall_mem_cons.mpr ⟨hfirst, hruns⟩⟩

lemma fitsAfter_nil (capacity room bins : ℕ) : FitsAfter capacity room bins [] :=
  ⟨[], [], rfl, Nat.zero_le _, fits_nil capacity bins⟩

lemma Fits.cons_cases {size : ℕ} (h : Fits capacity bins (size :: sizes)) :
    size ≤ capacity ∧ ∃ n, bins = n + 1 ∧ FitsAfter capacity (capacity - size) n sizes := by
  obtain ⟨cut, hflat, hlen, hruns⟩ := h
  obtain ⟨before, run, after, rfl, -, rfl⟩ := List.flatten_eq_cons_iff.mp hflat
  have hrun := hruns (size :: run) (List.mem_append_right _ List.mem_cons_self)
  rw [List.sum_cons] at hrun
  rw [List.length_append, List.length_cons] at hlen
  refine ⟨by omega, bins - 1, by omega, run, after.flatten, rfl, by omega, after, rfl, by omega, ?_⟩
  exact fun r hr => hruns r (List.mem_append_right _ (List.mem_cons_of_mem _ hr))

lemma fitsAfter_cons_of_le {size : ℕ} (h : size ≤ room) :
    FitsAfter capacity room bins (size :: sizes) ↔ FitsAfter capacity (room - size) bins sizes := by
  constructor
  · rintro ⟨first, rest, heq, hfirst, hrest⟩
    cases first with
    | nil =>
      -- the first bin was left as it was: what followed the item in its own bin may stay there
      rw [List.nil_append] at heq
      rw [← heq] at hrest
      obtain ⟨-, n, rfl, run, after, rfl, hrun, hafter⟩ := hrest.cons_cases
      exact ⟨[], run ++ after, rfl, Nat.zero_le _,
        fits_succ.mpr ⟨run, after, rfl, hrun.trans (Nat.sub_le _ _), hafter⟩⟩
    | cons s first =>
      rw [List.cons_append, List.cons.injEq] at heq
      obtain ⟨rfl, rfl⟩ := heq
      rw [List.sum_cons] at hfirst
      exact ⟨first, rest, rfl, by omega, hrest⟩
  · rintro ⟨first, rest, rfl, hfirst, hrest⟩
    refine ⟨size :: first, rest, rfl, ?_, hrest⟩
    rw [List.sum_cons]
    omega

lemma fitsAfter_cons_of_lt {size : ℕ} (h : room < size) :
    FitsAfter capacity room bins (size :: sizes) ↔ Fits capacity bins (size :: sizes) := by
  constructor
  · rintro ⟨first, rest, heq, hfirst, hrest⟩
    cases first with
    | nil => rwa [heq]
    | cons s first =>
      rw [List.cons_append, List.cons.injEq] at heq
      rw [List.sum_cons, ← heq.1] at hfirst
      omega
  · exact fun hrest => ⟨[], _, rfl, Nat.zero_le _, hrest⟩

lemma Fits.of_cons {size : ℕ} (h : Fits capacity bins (size :: sizes)) : Fits capacity bins sizes := by
  obtain ⟨-, n, rfl, first, rest, rfl, hfirst, hrest⟩ := h.cons_cases
  exact fits_succ.mpr ⟨first, rest, rfl, hfirst.trans (Nat.sub_le _ _), hrest⟩

lemma fits_succ_cons {size : ℕ} (h : size ≤ capacity) :
    Fits capacity (bins + 1) (size :: sizes) ↔ FitsAfter capacity (capacity - size) bins sizes := by
  rw [fits_succ, fitsAfter_cons_of_le h]

/-- A bin is left only for an item that it has no room for, so all but the last are nearly full. -/
lemma fitsAfter_of_sum_le {largest : ℕ} (hlargest : largest ≤ capacity) (hroom : room ≤ capacity)
    (hsizes : ∀ size ∈ sizes, size ≤ largest)
    (hsum : capacity - room + sizes.sum ≤ bins * (capacity + 1 - largest) + capacity) :
    FitsAfter capacity room bins sizes := by
  induction sizes generalizing room bins with
  | nil => exact fitsAfter_nil capacity room bins
  | cons size sizes ih =>
    have hsize := hsizes size List.mem_cons_self
    have hrest := fun s hs => hsizes s (List.mem_cons_of_mem size hs)
    rw [List.sum_cons] at hsum
    by_cases hle : size ≤ room
    · rw [fitsAfter_cons_of_le hle]
      exact ih (by omega) hrest (by omega)
    · rw [fitsAfter_cons_of_lt (by omega)]
      cases bins with
      | zero => omega
      | succ bins =>
        rw [fits_succ_cons (by omega)]
        rw [Nat.succ_mul] at hsum
        exact ih (by omega) hrest (by omega)

lemma fits_of_sum_le {largest : ℕ} (hlargest : largest ≤ capacity) (hsizes : ∀ size ∈ sizes, size ≤ largest)
    (hsum : sizes.sum ≤ bins * (capacity + 1 - largest) + capacity) : Fits capacity (bins + 1) sizes := by
  rw [fits_succ]
  exact fitsAfter_of_sum_le hlargest le_rfl hsizes (by omega)

lemma Fits.length_le {least count : ℕ} (h : Fits capacity bins sizes) (hsizes : ∀ size ∈ sizes, least ≤ size)
    (hcapacity : capacity < (count + 1) * least) : sizes.length ≤ bins * count := by
  obtain ⟨cut, rfl, hlen, hruns⟩ := h
  have hrun : ∀ n ∈ cut.map List.length, n ≤ count := by
    intro n hn
    obtain ⟨run, hmem, rfl⟩ := List.mem_map.mp hn
    have hsum := List.card_nsmul_le_sum run least fun s hs => hsizes s (List.mem_flatten.mpr ⟨run, hmem, hs⟩)
    rw [smul_eq_mul] at hsum
    have hlt := lt_of_mul_lt_mul_right (hsum.trans_lt ((hruns run hmem).trans_lt hcapacity)) (Nat.zero_le least)
    exact Nat.le_of_lt_succ hlt
  have htotal := List.sum_le_card_nsmul _ count hrun
  rw [List.length_map, smul_eq_mul] at htotal
  rw [List.length_flatten]
  exact htotal.trans (Nat.mul_le_mul_right count hlen)

/-- The runs lie in the bins from the first on, and the item behind a run has no room in the run's bin. -/
inductive FirstFit : List ℕ → List (List ℕ) → Prop
  | last {capacity : ℕ} {capacities run : List ℕ} : run.sum ≤ capacity → FirstFit (capacity :: capacities) [run]
  | next {capacity size : ℕ} {capacities run later : List ℕ} {cut : List (List ℕ)} : run.sum ≤ capacity →
      capacity < run.sum + size → FirstFit capacities ((size :: later) :: cut) →
      FirstFit (capacity :: capacities) (run :: (size :: later) :: cut)

def Fills (capacities : List ℕ) (bins : ℕ) (sizes : List ℕ) : Prop :=
  ∃ cut, FirstFit capacities cut ∧ cut.length = bins ∧ cut.flatten = sizes

/-- All items go into the bins, and the last bin is not needed. -/
def FitsBeforeLast (capacities sizes : List ℕ) : Prop := ∃ bins < capacities.length, Fills capacities bins sizes

def TakesAll (capacities sizes : List ℕ) : Prop := ∃ front, front <+: sizes ∧ Fills capacities capacities.length front

section FirstFit

variable {size next : ℕ} {capacities run : List ℕ} {cut : List (List ℕ)}

lemma FirstFit.exists_cons (h : FirstFit capacities cut) : ∃ run rest, cut = run :: rest := by
  cases h <;> exact ⟨_, _, rfl⟩

lemma firstFit_cons_of_le (h : size ≤ room) :
    FirstFit (room :: capacities) ((size :: run) :: cut) ↔ FirstFit ((room - size) :: capacities) (run :: cut) := by
  constructor
  · intro hfit
    cases hfit with
    | last hsum =>
      rw [List.sum_cons] at hsum
      exact .last (by omega)
    | next hsum hlt hrest =>
      rw [List.sum_cons] at hsum hlt
      exact .next (by omega) (by omega) hrest
  · intro hfit
    cases hfit with
    | last hsum =>
      refine .last ?_
      rw [List.sum_cons]
      omega
    | next hsum hlt hrest =>
      refine .next ?_ ?_ hrest
      · rw [List.sum_cons]
        omega
      · rw [List.sum_cons]
        omega

lemma firstFit_cons_of_lt (h : room < size) :
    FirstFit (room :: capacities) ([] :: (size :: run) :: cut) ↔ FirstFit capacities ((size :: run) :: cut) := by
  constructor
  · intro hfit
    cases hfit with
    | next _ _ hrest => exact hrest
  · exact .next (Nat.zero_le _) (by rwa [List.sum_nil, zero_add])

lemma FirstFit.exists_of_cons (h : FirstFit capacities ((size :: run) :: cut)) :
    ∃ capacity rest, capacities = capacity :: rest ∧ size ≤ capacity := by
  cases h with
  | last hsum =>
    rw [List.sum_cons] at hsum
    exact ⟨_, _, rfl, by omega⟩
  | next hsum _ _ =>
    rw [List.sum_cons] at hsum
    exact ⟨_, _, rfl, by omega⟩

lemma FirstFit.cons_cases (h : FirstFit (room :: capacities) cut) (hflat : cut.flatten = size :: sizes) :
    (size ≤ room ∧ ∃ run rest, cut = (size :: run) :: rest) ∨
      (room < size ∧ ∃ run rest, cut = [] :: (size :: run) :: rest) := by
  cases h with
  | @last _ _ run hsum =>
    rw [List.flatten_singleton] at hflat
    rw [hflat, List.sum_cons] at hsum
    exact Or.inl ⟨by omega, sizes, [], by rw [hflat]⟩
  | @next _ size' _ run later cut hsum hlt hrest =>
    cases run with
    | nil =>
      rw [List.flatten_cons, List.nil_append, List.flatten_cons, List.cons_append, List.cons.injEq] at hflat
      rw [List.sum_nil, zero_add, hflat.1] at hlt
      exact Or.inr ⟨hlt, _, _, by rw [hflat.1]⟩
    | cons s run =>
      rw [List.flatten_cons, List.cons_append, List.cons.injEq] at hflat
      rw [List.sum_cons, hflat.1] at hsum
      exact Or.inl ⟨by omega, _, _, by rw [hflat.1]⟩

lemma fills_nil : Fills (room :: capacities) bins [] ↔ bins = 1 := by
  constructor
  · rintro ⟨cut, hfit, rfl, hflat⟩
    cases hfit with
    | last _ => rfl
    | next _ _ _ => simp at hflat
  · rintro rfl
    exact ⟨[[]], .last (Nat.zero_le _), rfl, rfl⟩

lemma fills_cons_of_le (h : size ≤ room) :
    Fills (room :: capacities) bins (size :: sizes) ↔ Fills ((room - size) :: capacities) bins sizes := by
  constructor
  · rintro ⟨cut, hfit, hlen, hflat⟩
    obtain ⟨-, run, rest, rfl⟩ | ⟨hlt, -⟩ := hfit.cons_cases hflat
    · exact ⟨run :: rest, (firstFit_cons_of_le h).mp hfit, hlen, List.tail_eq_of_cons_eq hflat⟩
    · omega
  · rintro ⟨cut, hfit, hlen, rfl⟩
    obtain ⟨run, rest, rfl⟩ := hfit.exists_cons
    exact ⟨(size :: run) :: rest, (firstFit_cons_of_le h).mpr hfit, hlen, rfl⟩

lemma fills_cons_of_lt (h : room < size) :
    Fills (room :: capacities) bins (size :: sizes) ↔ ∃ next rest n, capacities = next :: rest ∧ bins = n + 1 ∧
      size ≤ next ∧ Fills ((next - size) :: rest) n sizes := by
  constructor
  · rintro ⟨cut, hfit, rfl, hflat⟩
    obtain ⟨hle, -⟩ | ⟨-, run, rest, rfl⟩ := hfit.cons_cases hflat
    · omega
    · have hfit := (firstFit_cons_of_lt h).mp hfit
      obtain ⟨next, others, rfl, hle⟩ := hfit.exists_of_cons
      exact ⟨next, others, rest.length + 1, rfl, rfl, hle, run :: rest, (firstFit_cons_of_le hle).mp hfit, rfl,
        List.tail_eq_of_cons_eq hflat⟩
  · rintro ⟨next, others, n, rfl, rfl, hle, cut, hfit, rfl, rfl⟩
    obtain ⟨run, rest, rfl⟩ := hfit.exists_cons
    exact ⟨[] :: (size :: run) :: rest, (firstFit_cons_of_lt h).mpr ((firstFit_cons_of_le hle).mpr hfit), rfl, rfl⟩

lemma fitsBeforeLast_nil : FitsBeforeLast (room :: capacities) [] ↔ capacities ≠ [] := by
  rw [← List.length_pos_iff]
  constructor
  · rintro ⟨bins, hlt, hfills⟩
    rw [fills_nil.mp hfills] at hlt
    exact Nat.lt_of_succ_lt_succ hlt
  · exact fun hpos => ⟨1, Nat.succ_lt_succ hpos, fills_nil.mpr rfl⟩

lemma fitsBeforeLast_cons_of_le (h : size ≤ room) :
    FitsBeforeLast (room :: capacities) (size :: sizes) ↔ FitsBeforeLast ((room - size) :: capacities) sizes :=
  exists_congr fun _ => and_congr_right fun _ => fills_cons_of_le h

lemma fitsBeforeLast_cons_of_lt (h : room < size) :
    FitsBeforeLast (room :: capacities) (size :: sizes) ↔ ∃ next rest, capacities = next :: rest ∧
      size ≤ next ∧ FitsBeforeLast ((next - size) :: rest) sizes := by
  constructor
  · rintro ⟨bins, hlt, hfills⟩
    obtain ⟨next, rest, n, rfl, rfl, hle, hfills⟩ := (fills_cons_of_lt h).mp hfills
    exact ⟨next, rest, rfl, hle, n, Nat.lt_of_succ_lt_succ hlt, hfills⟩
  · rintro ⟨next, rest, rfl, hle, n, hlt, hfills⟩
    exact ⟨n + 1, Nat.succ_lt_succ hlt, (fills_cons_of_lt h).mpr ⟨next, rest, n, rfl, rfl, hle, hfills⟩⟩

lemma not_fitsBeforeLast_singleton (room : ℕ) (sizes : List ℕ) : ¬ FitsBeforeLast [room] sizes := by
  rintro ⟨bins, hlt, cut, hfit, rfl, -⟩
  obtain ⟨run, rest, rfl⟩ := hfit.exists_cons
  simp at hlt

def packs : ℕ → List ℕ → List ℕ → Bool
  | _, [], _ => false
  | _, _ :: _, [] => true
  | room, next :: rest, size :: sizes =>
    if size ≤ room then packs (room - size) (next :: rest) sizes else size ≤ next && packs (next - size) rest sizes

lemma packs_iff : packs room capacities sizes = true ↔ FitsBeforeLast (room :: capacities) sizes := by
  induction sizes generalizing room capacities with
  | nil => cases capacities <;> simp [packs, fitsBeforeLast_nil]
  | cons size sizes ih =>
    cases capacities with
    | nil => exact iff_of_false Bool.false_ne_true (not_fitsBeforeLast_singleton _ _)
    | cons next rest =>
      rw [packs]
      split_ifs with hle
      · rw [ih, fitsBeforeLast_cons_of_le hle]
      · rw [fitsBeforeLast_cons_of_lt (not_le.mp hle), Bool.and_eq_true, decide_eq_true_eq, ih]
        simp

instance : (capacities sizes : List ℕ) → Decidable (FitsBeforeLast capacities sizes)
  | [], _ => isFalse fun ⟨_, hlt, _⟩ => absurd hlt (Nat.not_lt_zero _)
  | _ :: _, _ => decidable_of_iff _ packs_iff

/-- With bins of one capacity, going on only when an item has no room wastes no bin. -/
lemma fitsBeforeLast_iff_fitsAfter (hroom : room ≤ capacity) :
    FitsBeforeLast (room :: List.replicate (bins + 1) capacity) sizes ↔ FitsAfter capacity room bins sizes := by
  induction sizes generalizing bins room with
  | nil => exact iff_of_true (fitsBeforeLast_nil.mpr (List.cons_ne_nil _ _)) (fitsAfter_nil _ room bins)
  | cons size sizes ih =>
    rcases Nat.lt_or_ge room size with hlt | hle
    · rw [fitsBeforeLast_cons_of_lt hlt, fitsAfter_cons_of_lt hlt]
      constructor
      · rintro ⟨next, rest, heq, hle, hfits⟩
        cases heq
        cases bins with
        | zero => exact absurd hfits (not_fitsBeforeLast_singleton _ _)
        | succ bins =>
          rw [fits_succ_cons hle]
          exact (ih (Nat.sub_le _ _)).mp hfits
      · intro hfits
        obtain ⟨hle, n, rfl, hafter⟩ := hfits.cons_cases
        exact ⟨capacity, _, rfl, hle, (ih (Nat.sub_le _ _)).mpr hafter⟩
    · rw [fitsBeforeLast_cons_of_le hle, fitsAfter_cons_of_le hle]
      exact ih ((Nat.sub_le _ _).trans hroom)

lemma fitsBeforeLast_replicate :
    FitsBeforeLast (List.replicate (bins + 2) capacity) sizes ↔ Fits capacity (bins + 1) sizes := by
  rw [List.replicate_succ, fitsBeforeLast_iff_fitsAfter le_rfl, fits_succ]

lemma takesAll_singleton (room : ℕ) (sizes : List ℕ) : TakesAll [room] sizes :=
  ⟨[], List.nil_prefix, fills_nil.mpr rfl⟩

lemma takesAll_cons_nil : ¬ TakesAll (room :: next :: capacities) [] := by
  rintro ⟨front, hfront, hfills⟩
  rw [List.prefix_nil.mp hfront, fills_nil] at hfills
  simp at hfills

lemma takesAll_cons_of_le (h : size ≤ room) :
    TakesAll (room :: next :: capacities) (size :: sizes) ↔ TakesAll ((room - size) :: next :: capacities) sizes := by
  constructor
  · rintro ⟨front, hfront, hfills⟩
    rcases List.prefix_cons_iff.mp hfront with rfl | ⟨front', rfl, hfront'⟩
    · rw [fills_nil] at hfills
      simp at hfills
    · exact ⟨front', hfront', (fills_cons_of_le h).mp hfills⟩
  · rintro ⟨front, hfront, hfills⟩
    exact ⟨size :: front, (List.prefix_cons_inj size).mpr hfront, (fills_cons_of_le h).mpr hfills⟩

lemma takesAll_cons_of_lt (h : room < size) :
    TakesAll (room :: next :: capacities) (size :: sizes) ↔
      size ≤ next ∧ TakesAll ((next - size) :: capacities) sizes := by
  constructor
  · rintro ⟨front, hfront, hfills⟩
    rcases List.prefix_cons_iff.mp hfront with rfl | ⟨front', rfl, hfront'⟩
    · rw [fills_nil] at hfills
      simp at hfills
    · obtain ⟨next', rest, n, heq, hn, hle, hfills⟩ := (fills_cons_of_lt h).mp hfills
      cases heq
      exact ⟨hle, front', hfront', Nat.succ.inj hn ▸ hfills⟩
  · rintro ⟨hle, front, hfront, hfills⟩
    exact ⟨size :: front, (List.prefix_cons_inj size).mpr hfront,
      (fills_cons_of_lt h).mpr ⟨next, capacities, _, rfl, rfl, hle, hfills⟩⟩

lemma not_takesAll_iff (h : ∀ size ∈ sizes, ∀ capacity ∈ capacities, size ≤ capacity) :
    ¬ TakesAll (room :: capacities) sizes ↔ FitsBeforeLast (room :: capacities) sizes := by
  induction sizes generalizing room capacities with
  | nil =>
    cases capacities with
    | nil => exact iff_of_false (not_not.mpr (takesAll_singleton _ _)) (not_fitsBeforeLast_singleton _ _)
    | cons next rest => exact iff_of_true takesAll_cons_nil (fitsBeforeLast_nil.mpr (List.cons_ne_nil _ _))
  | cons size sizes ih =>
    cases capacities with
    | nil => exact iff_of_false (not_not.mpr (takesAll_singleton _ _)) (not_fitsBeforeLast_singleton _ _)
    | cons next rest =>
      have hsizes := fun s hs => h s (List.mem_cons_of_mem size hs)
      rcases Nat.lt_or_ge room size with hlt | hle
      · have hnext := h size List.mem_cons_self next List.mem_cons_self
        have hrest := @ih (next - size) rest fun s hs c hc => hsizes s hs c (List.mem_cons_of_mem next hc)
        rw [takesAll_cons_of_lt hlt, fitsBeforeLast_cons_of_lt hlt, and_iff_right hnext, hrest]
        simp [hnext]
      · rw [takesAll_cons_of_le hle, fitsBeforeLast_cons_of_le hle]
        exact ih hsizes

end FirstFit

end FastTransport.Lib.Packing
