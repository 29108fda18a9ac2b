import FastTransport.Containers.MultiListRefinement

/-! `Connection::Recv` with a size: the loop that waits on the user data and takes from it, run
among arrivals, `Close` and stop requests. -/

namespace FastTransport.Protocol

open Containers Lib.Runs

variable {P : Type*}

def lockedTryGenerate (list : MultiList P) (size : ℕ) : MultiList P × MultiList P :=
  if size < list.size then list.tryGenerate size else (MultiList.empty, list)

lemma lockedTryGenerate_spec {list : MultiList P} (h : list.Inv) (size : ℕ) :
    (lockedTryGenerate list size).1.Inv ∧ (lockedTryGenerate list size).2.Inv ∧
      (lockedTryGenerate list size).1.contents = list.contents.drop size ∧
      (lockedTryGenerate list size).2.contents = list.contents.take size := by
  by_cases hs : size < list.size
  · rw [lockedTryGenerate, if_pos hs]
    exact MultiList.tryGenerate_spec h size
  · rw [lockedTryGenerate, if_neg hs]
    rw [h.size_eq, not_lt] at hs
    rw [List.drop_of_length_le hs, List.take_of_length_le hs]
    exact ⟨MultiList.inv_empty, h, MultiList.empty_related.2, rfl⟩

/-- Where the receiving thread stands: before the loop's test, inside `WaitFor`, between it and
`LockedTryGenerate`, or back from the call. -/
inductive RecvPhase
  | test | waiting | taking | returned
  deriving DecidableEq

structure Iteration where
  closed : Bool
  remaining : ℕ
  available : ℕ
  taken : ℕ

structure SizedReceive (P : Type*) where
  userData : MultiList P
  closed : Bool
  stopRequested : Bool
  size : ℕ
  result : MultiList P
  phase : RecvPhase
  delivered : List P
  iterations : List Iteration

namespace SizedReceive

def start (size : ℕ) : SizedReceive P :=
  ⟨MultiList.empty, false, false, size, MultiList.empty, .test, [], []⟩

inductive Action (P : Type*)
  | arrive (packets : List P)
  | close
  | requestStop
  | test
  | wake
  | take

/-- `WaitFor` with a predicate answers what the predicate says when the wait ends. -/
def waitFor (s : SizedReceive P) : Bool := s.closed

def step (s : SizedReceive P) : Action P → Option (SizedReceive P)
  | .arrive packets =>
    some { s with userData := packets.foldl MultiList.pushBack s.userData, delivered := s.delivered ++ packets }
  | .close => some { s with closed := true }
  | .requestStop => some { s with stopRequested := true }
  | .test =>
    if s.phase = .test then
      some { s with phase := if 0 < s.size ∧ s.stopRequested = false then .waiting else .returned }
    else none
  | .wake =>
    if s.phase = .waiting then
      if s.waitFor then some { s with phase := .taking }
      else some { s with phase := .test
                         iterations := s.iterations ++ [⟨s.closed, s.size, s.userData.contents.length, 0⟩] }
    else none
  | .take =>
    if s.phase = .taking then
      let r := lockedTryGenerate s.userData s.size
      some { s with userData := r.1, size := s.size - r.2.size, result := (s.result.splice r.2).1, phase := .test
                    iterations := s.iterations ++
                      [⟨s.closed, s.size, s.userData.contents.length, r.2.size⟩] }
    else none

def Progress (i : Iteration) : Prop := i.taken = min i.remaining i.available

instance (i : Iteration) : Decidable (Progress i) := inferInstanceAs (Decidable (_ = _))

structure Inv (requested : ℕ) (s : SizedReceive P) : Prop where
  userData : s.userData.Inv
  result : s.result.Inv
  order : s.result.contents ++ s.userData.contents = s.delivered
  size : s.result.contents.length + s.size = requested
  waiting : s.phase = .waiting → 0 < s.size
  taking : s.phase = .taking → s.closed = true ∧ 0 < s.size
  remaining : ∀ i ∈ s.iterations, 0 < i.remaining
  progress : ∀ i ∈ s.iterations, Progress i ↔ i.closed = true ∨ i.available = 0
  opened : s.closed = false → s.result.contents = [] ∧ ∀ i ∈ s.iterations, i.closed = false
  returned : s.phase = .returned → s.size = 0 ∨ s.stopRequested = true

lemma inv_start (size : ℕ) : Inv size (start size : SizedReceive P) where
  userData := MultiList.inv_empty
  result := MultiList.inv_empty
  order := by simp [start, MultiList.empty_related.2]
  size := by simp [start, MultiList.empty_related.2]
  waiting := nofun
  taking := nofun
  remaining := nofun
  progress := nofun
  opened := fun _ => ⟨MultiList.empty_related.2, nofun⟩
  returned := nofun

variable {requested : ℕ} {s t : SizedReceive P}

lemma Inv.test (hs : s.Inv requested) (h : s.step .test = some t) : t.Inv requested := by
  simp only [step] at h
  split_ifs at h with hphase hloop
  · cases h
    exact { hs with waiting := fun _ => hloop.1, taking := nofun, returned := nofun }
  · cases h
    refine { hs with waiting := nofun, taking := nofun, returned := fun _ => ?_ }
    dsimp only
    cases hstop : s.stopRequested with
    | true => exact Or.inr rfl
    | false =>
      left
      by_contra hne
      exact hloop ⟨Nat.pos_of_ne_zero hne, hstop⟩

lemma Inv.wake (hs : s.Inv requested) (h : s.step .wake = some t) : t.Inv requested := by
  simp only [step] at h
  split_ifs at h with hphase hclosed
  · cases h
    exact { hs with waiting := nofun, taking := fun _ => ⟨hclosed, hs.waiting hphase⟩, returned := nofun }
  · cases h
    have hopen : s.closed = false := Bool.eq_false_of_not_eq_true hclosed
    have hpos := hs.waiting hphase
    refine { hs with
      waiting := nofun
      taking := nofun
      returned := nofun
      remaining := List.forall_mem_append.mpr ⟨hs.remaining, List.forall_mem_singleton.mpr hpos⟩
      progress := List.forall_mem_append.mpr ⟨hs.progress, List.forall_mem_singleton.mpr ?_⟩
      opened := fun h => ⟨(hs.opened h).1,
        List.forall_mem_append.mpr ⟨(hs.opened h).2, List.forall_mem_singleton.mpr hopen⟩⟩ }
    simp only [Progress, hopen, Bool.false_eq_true, false_or]
    omega

lemma Inv.take (hs : s.Inv requested) (h : s.step .take = some t) : t.Inv requested := by
  simp only [step] at h
  split_ifs at h with hphase
  cases h
  obtain ⟨hclosed, hpos⟩ := hs.taking hphase
  obtain ⟨hrest, htaken, hdrop, htake⟩ := lockedTryGenerate_spec hs.userData s.size
  obtain ⟨hresult, -, hcontents⟩ := MultiList.splice_spec hs.result htaken
  have htotal := htaken.size_eq
  rw [htake, List.length_take] at htotal
  refine ⟨hrest, hresult, ?_, ?_, nofun, nofun, ?_, ?_, ?_, nofun⟩
  · dsimp only
    rw [hcontents, hdrop, htake, List.append_assoc, List.take_append_drop, hs.order]
  · have hsize := hs.size
    dsimp only
    rw [hcontents, htake, List.length_append, List.length_take, htotal]
    omega
  · exact List.forall_mem_append.mpr ⟨hs.remaining, List.forall_mem_singleton.mpr hpos⟩
  · refine List.forall_mem_append.mpr ⟨hs.progress, List.forall_mem_singleton.mpr ?_⟩
    exact iff_of_true htotal (Or.inl hclosed)
  · intro hopen
    rw [hclosed] at hopen
    cases hopen

lemma step_inv (s : SizedReceive P) (a : Action P) (t : SizedReceive P) (hs : s.Inv requested)
    (h : s.step a = some t) : t.Inv requested := by
  cases a with
  | arrive packets =>
    cases h
    obtain ⟨hinv, hcontents⟩ := MultiList.pushBack_all hs.userData packets
    refine { hs with userData := hinv, order := ?_ }
    dsimp only
    rw [hcontents, ← List.append_assoc, hs.order]
  | close =>
    cases h
    exact { hs with taking := fun hp => ⟨rfl, (hs.taking hp).2⟩, opened := nofun }
  | requestStop =>
    cases h
    exact { hs with returned := fun _ => Or.inr rfl }
  | test => exact hs.test h
  | wake => exact hs.wake h
  | take => exact hs.take h

theorem progress_iff_nothing_available {size : ℕ} {as : List (Action P)} {s : SizedReceive P}
    (h : run step (start size) as = some s) (hopen : s.closed = false) (hstop : s.stopRequested = false) :
    ((∀ i ∈ s.iterations, Progress i) ↔ ∀ i ∈ s.iterations, i.available = 0) ∧
      s.result.contents = [] ∧ (s.phase = .returned → size = 0) := by
  have hs := run_invariant step_inv (inv_start size) h
  obtain ⟨hnone, hall⟩ := hs.opened hopen
  refine ⟨forall₂_congr fun i hi => ?_, hnone, fun hphase => ?_⟩
  · rw [hs.progress i hi, hall i hi]
    simp
  · have hsize := hs.size
    have hzero := (hs.returned hphase).resolve_right (by simp [hstop])
    rw [hnone, List.length_nil] at hsize
    omega

theorem progress_iff_nothing_available_late : ∃ s : SizedReceive ℕ,
    (((∀ i ∈ s.iterations, Progress i) ↔ ∀ i ∈ s.iterations, i.available = 0) ∧
      s.result.contents = [] ∧ (s.phase = .returned → 2 = 0)) ∧ s.delivered = [5, 6, 7] := by
  have hrun : run step (start 2) [.test, .wake, .arrive [5, 6, 7], .test, .wake] = some _ := rfl
  exact ⟨_, progress_iff_nothing_available hrun rfl rfl, rfl⟩

theorem not_progress_of_open : ¬ ∀ (size : ℕ) (as : List (Action ℕ)) (s : SizedReceive ℕ),
    run step (start size) as = some s → s.closed = false → s.stopRequested = false →
      ∀ i ∈ s.iterations, Progress i := by
  intro h
  have hi := h 2 [.arrive [5, 6, 7], .test, .wake] _ rfl rfl rfl _ List.mem_cons_self
  exact absurd hi (by decide)

end SizedReceive

end FastTransport.Protocol
