import FastTransport.Containers.LockedList
import FastTransport.Lib.Runs

/-! `TaskQueue`: threads that post tasks, and the worker that runs them until it is stopped. -/

namespace FastTransport.TaskQueue

open Containers Lib.Runs

inductive Processing (α : Type*)
  | waiting
  | swapping
  | running (tasks : List α)
  | notifying
  | done
  deriving DecidableEq, Repr

/-- `owed` are the calls of `NotifyAll` that are still to come, of `Async` and of the stop callback. -/
structure Queue (α : Type*) where
  taskQueue : LockedList α Unit
  owed : ℕ
  point : Processing α
  posted : List α
  executed : List α
  late : List α

namespace Queue

variable {α : Type*}

inductive Action (α : Type*)
  | lockedPushBack (task : α)
  | notifyAll
  | requestStop
  | wake
  | processQueue
  deriving DecidableEq, Repr

def create : Queue α := ⟨.create, 0, .waiting, [], [], []⟩

def IsDone : Processing α → Bool
  | .done => true
  | _ => false

def processQueue (q : Queue α) : Option (Queue α) :=
  match q.point with
  | .waiting =>
    if (q.taskQueue.asleep ()).isSome then none
    else
      let r := q.taskQueue.wait () .nonempty
      some { q with taskQueue := r.1
                    point := match r.2 with
                      | none => .waiting
                      | some true => .swapping
                      | some false => .done }
  | .swapping =>
    let r := q.taskQueue.lockedSwap []
    some { q with taskQueue := r.1, point := .running r.2 }
  | .running [] => some { q with point := .notifying }
  | .running (task :: tasks) => some { q with point := .running tasks, executed := q.executed ++ [task] }
  | .notifying => some { q with taskQueue := q.taskQueue.notifyAll, point := .waiting }
  | .done => none

def step (q : Queue α) : Action α → Option (Queue α)
  | .lockedPushBack task =>
    some { q with taskQueue := q.taskQueue.lockedPushBack task
                  owed := q.owed + 1
                  posted := q.posted ++ [task]
                  late := if IsDone q.point then q.late ++ [task] else q.late }
  | .notifyAll =>
    if q.owed = 0 then none else some { q with taskQueue := q.taskQueue.notifyAll, owed := q.owed - 1 }
  | .requestStop =>
    if q.taskQueue.stopRequested then none
    else some { q with taskQueue := q.taskQueue.requestStop, owed := q.owed + 1 }
  | .wake => some { q with taskQueue := q.taskQueue.wake () }
  | .processQueue => q.processQueue

def current (q : Queue α) : List α :=
  match q.point with
  | .running tasks => tasks
  | _ => []

structure Inv (q : Queue α) : Prop where
  order : q.executed ++ q.current ++ q.taskQueue.list = q.posted
  attended : q.taskQueue.Attended q.owed
  asleep : ∀ w, q.taskQueue.asleep () = some w → w = .nonempty ∧ q.point = .waiting
  swapping : q.point = .swapping → q.taskQueue.list ≠ []
  done : q.point = .done → q.taskQueue.stopRequested = true ∧ q.taskQueue.list = q.late
  late : q.point ≠ .done → q.late = []

lemma inv_create : (create : Queue α).Inv where
  order := rfl
  attended _ _ h := by cases h
  asleep _ h := by cases h
  swapping h := by cases h
  done h := by cases h
  late _ := rfl

lemma Inv.waiting {q q' : Queue α} (hq : q.Inv) (hp : q.point = .waiting) (h : q.processQueue = some q') : q'.Inv := by
  have horder := hq.order
  have hlate := hq.late (by simp [hp])
  have hattended := hq.attended.wait () .nonempty
  simp only [current, hp] at horder
  simp only [Queue.processQueue, hp] at h
  split_ifs at h with hasleep
  cases h
  have hawake : ∀ w, q.taskQueue.asleep () ≠ some w := by simpa [Option.eq_none_iff_forall_ne_some] using hasleep
  rcases q.taskQueue.wait_cases () .nonempty with ⟨hw, hholds⟩ | ⟨hw, hholds, hstop⟩ | ⟨hw, hholds, hstop⟩
  · simp only [hw] at hattended ⊢
    exact ⟨horder, hattended, fun w hw => absurd hw (hawake w), fun _ => LockedList.holds_nonempty.mp hholds,
      by simp, fun _ => hlate⟩
  · have hempty : q.taskQueue.list = [] := by simpa [LockedList.holds] using hholds
    simp only [hw] at hattended ⊢
    exact ⟨horder, hattended, fun w hw => absurd hw (hawake w), by simp, fun _ => ⟨hstop, hempty.trans hlate.symm⟩,
      by simp⟩
  · simp only [hw] at hattended ⊢
    refine ⟨horder, hattended, fun w hw => ?_, by simp, by simp, fun _ => hlate⟩
    simp only [Function.update_self, Option.some.injEq] at hw
    exact ⟨hw.symm, rfl⟩

lemma Inv.awake {q : Queue α} (hq : q.Inv) (hp : q.point ≠ .waiting) : q.taskQueue.asleep () = none :=
  Option.eq_none_iff_forall_ne_some.mpr fun w hw => hp (hq.asleep w hw).2

lemma Inv.processQueue {q q' : Queue α} (hq : q.Inv) (h : q.processQueue = some q') : q'.Inv := by
  have horder := hq.order
  cases hp : q.point with
  | waiting => exact hq.waiting hp h
  | swapping =>
    have hawake := hq.awake (by simp [hp])
    have hlate := hq.late (by simp [hp])
    simp only [Queue.processQueue, hp] at h
    cases h
    refine ⟨?_, ?_, ?_, by simp, by simp, fun _ => hlate⟩
    · simpa [current, hp, LockedList.lockedSwap] using horder
    · exact hq.attended.lockedSwap_nil fun i w hw => (hq.asleep w hw).1
    · simp [LockedList.lockedSwap, hawake]
  | running tasks =>
    have hawake := hq.awake (by simp [hp])
    have hlate := hq.late (by simp [hp])
    simp only [current, hp] at horder
    cases tasks with
    | nil =>
      simp only [Queue.processQueue, hp] at h
      cases h
      exact ⟨horder, hq.attended, by simp [hawake], by simp, by simp, fun _ => hlate⟩
    | cons task tasks =>
      simp only [Queue.processQueue, hp] at h
      cases h
      refine ⟨?_, hq.attended, by simp [hawake], by simp, by simp, fun _ => hlate⟩
      rw [← horder]
      simp [current]
  | notifying =>
    have hlate := hq.late (by simp [hp])
    simp only [current, hp] at horder
    simp only [Queue.processQueue, hp] at h
    cases h
    exact ⟨horder, LockedList.attended_notifyAll _, by simp [LockedList.notifyAll], by simp, by simp, fun _ => hlate⟩
  | done => simp [Queue.processQueue, hp] at h

lemma Inv.step {q q' : Queue α} (hq : q.Inv) {a : Action α} (h : q.step a = some q') : q'.Inv := by
  cases a with
  | lockedPushBack task =>
    cases h
    refine ⟨?_, LockedList.attended_owed _ _, hq.asleep, ?_, fun hp => ?_, fun hp => ?_⟩
    · rw [← hq.order]
      simp [LockedList.lockedPushBack, current]
    · simp [LockedList.lockedPushBack]
    · obtain ⟨hstop, hlist⟩ := hq.done hp
      refine ⟨hstop, ?_⟩
      have hp : q.point = .done := hp
      simp [LockedList.lockedPushBack, hlist, hp, IsDone]
    · have hp : q.point ≠ .done := hp
      have hnot : IsDone q.point = false := by
        cases hpoint : q.point <;> simp_all [IsDone]
      simp [hnot, hq.late hp]
  | notifyAll =>
    obtain ⟨-, he⟩ := Option.ite_none_left_eq_some.mp h
    cases he
    exact ⟨hq.order, LockedList.attended_notifyAll _, by simp [LockedList.notifyAll], hq.swapping, hq.done, hq.late⟩
  | requestStop =>
    obtain ⟨-, he⟩ := Option.ite_none_left_eq_some.mp h
    cases he
    exact ⟨hq.order, LockedList.attended_owed _ _, hq.asleep, hq.swapping, fun hp => ⟨rfl, (hq.done hp).2⟩, hq.late⟩
  | wake =>
    cases h
    exact ⟨hq.order, hq.attended.wake (), by simp [LockedList.wake], hq.swapping, hq.done, hq.late⟩
  | processQueue => exact hq.processQueue h

/-- What is left to do, counted so that every step of the worker and every notification lowers it. -/
def work (q : Queue α) : ℕ :=
  2 * q.owed + 6 * q.taskQueue.list.length +
    match q.point with
    | .waiting => if (q.taskQueue.asleep ()).isSome then 0 else 1
    | .swapping => 0
    | .running tasks => tasks.length + 3
    | .notifying => 2
    | .done => 0

def Quiet : Action α → Prop
  | .processQueue | .notifyAll => True
  | _ => False

lemma Inv.work_lt {q q' : Queue α} (hq : q.Inv) {a : Action α} (ha : Quiet a) (h : q.step a = some q') :
    q'.work < q.work := by
  cases a with
  | lockedPushBack | requestStop | wake => exact ha.elim
  | notifyAll =>
    obtain ⟨howed, he⟩ := Option.ite_none_left_eq_some.mp h
    cases he
    simp only [work, LockedList.notifyAll]
    cases q.point with
    | waiting =>
      simp only [Option.isSome_none, Bool.false_eq_true, if_false]
      split_ifs <;> omega
    | _ =>
      dsimp only
      omega
  | processQueue =>
    simp only [Queue.step, Queue.processQueue] at h
    cases hp : q.point with
    | waiting =>
      simp only [hp] at h
      split_ifs at h with hasleep
      cases h
      rcases q.taskQueue.wait_cases () .nonempty with ⟨hw, hholds⟩ | ⟨hw, hholds, hstop⟩ | ⟨hw, hholds, hstop⟩
      · simp [work, hw, hp, hasleep]
      · simp [work, hw, hp, hasleep]
      · simp [work, hw, hp, hasleep]
    | swapping =>
      have hpos := List.length_pos_of_ne_nil (hq.swapping hp)
      simp only [hp] at h
      cases h
      simp only [work, hp, LockedList.lockedSwap, List.length_nil]
      omega
    | running tasks =>
      cases tasks with
      | nil =>
        simp only [hp] at h
        cases h
        simp [work, hp]
      | cons task tasks =>
        simp only [hp] at h
        cases h
        simp [work, hp]
    | notifying =>
      simp only [hp] at h
      cases h
      simp [work, hp, LockedList.notifyAll]
    | done => simp [hp] at h

lemma Inv.settled {q : Queue α} (hq : q.Inv) (hstuck : ∀ a, Quiet a → q.step a = none) :
    (q.point = .waiting ∧ q.taskQueue.list = [] ∧ q.taskQueue.stopRequested = false) ∨ q.point = .done := by
  have howed : q.owed = 0 := by
    have hnotify := hstuck .notifyAll trivial
    rw [Queue.step, ite_eq_left_iff] at hnotify
    by_contra hne
    cases hnotify hne
  have hworker := hstuck .processQueue trivial
  simp only [Queue.step, Queue.processQueue] at hworker
  cases hp : q.point with
  | waiting =>
    simp only [hp, ite_eq_left_iff, reduceCtorEq, imp_false, not_not] at hworker
    obtain ⟨w, hw⟩ := Option.isSome_iff_exists.mp hworker
    have hnot := mt (hq.attended () w hw) (by omega)
    rw [(hq.asleep w hw).1, not_or, LockedList.holds_nonempty, not_not, Bool.not_eq_true] at hnot
    exact Or.inl ⟨rfl, hnot.2, hnot.1⟩
  | running tasks => cases tasks <;> simp [hp] at hworker
  | swapping | notifying => simp [hp] at hworker
  | done => exact Or.inr rfl

lemma step_posted {q q' : Queue α} {a : Action α} (ha : Quiet a) (h : q.step a = some q') :
    q'.posted = q.posted ∧ q'.late = q.late ∧ q'.taskQueue.stopRequested = q.taskQueue.stopRequested := by
  cases a with
  | lockedPushBack | requestStop | wake => exact ha.elim
  | notifyAll =>
    obtain ⟨-, he⟩ := Option.ite_none_left_eq_some.mp h
    cases he
    exact ⟨rfl, rfl, rfl⟩
  | processQueue =>
    simp only [step, Queue.processQueue] at h
    split at h
    · split_ifs at h
      cases h
      refine ⟨rfl, rfl, ?_⟩
      rcases q.taskQueue.wait_cases () .nonempty with ⟨hw, -⟩ | ⟨hw, -⟩ | ⟨hw, -⟩ <;> simp [hw]
    all_goals first
      | cases h
        exact ⟨rfl, rfl, rfl⟩
      | cases h

/-- Every task is run once and in the order of the posts. When no more is posted the worker is through after a bounded
number of steps, however they fall: it has run everything, and ends exactly if it was asked to stop. -/
theorem runs_every_task {as : List (Action α)} {q : Queue α} (h : run step create as = some q) :
    q.executed ++ q.current ++ q.taskQueue.list = q.posted ∧
      ∀ (bs : List (Action α)) (t : Queue α), Path step (fun _ => Quiet) q bs t →
        bs.length ≤ q.work ∧
          ((∀ a, Quiet a → t.step a = none) → t.executed ++ q.late = q.posted ∧
            (t.point = .done ↔ q.taskQueue.stopRequested = true)) := by
  have hq : q.Inv := run_invariant (fun _ _ _ hs hstep => hs.step hstep) inv_create h
  refine ⟨hq.order, fun bs t hpath => ⟨?_, fun hstuck => ?_⟩⟩
  · have hlength := hpath.length_le (P := Inv) (fun _ _ _ hs _ hstep => hs.step hstep)
      (fun _ _ _ hs hok hstep => hs.work_lt hok hstep) hq
    omega
  · have hkept : t.Inv ∧ t.posted = q.posted ∧ t.late = q.late ∧ t.taskQueue.stopRequested = q.taskQueue.stopRequested := by
      refine hpath.invariant (P := fun u => u.Inv ∧ u.posted = q.posted ∧ u.late = q.late ∧
        u.taskQueue.stopRequested = q.taskQueue.stopRequested) ?_ ⟨hq, rfl, rfl, rfl⟩
      rintro s a u ⟨hs, hposted, hlate, hstop⟩ hok hstep
      obtain ⟨hposted', hlate', hstop'⟩ := step_posted hok hstep
      exact ⟨hs.step hstep, hposted'.trans hposted, hlate'.trans hlate, hstop'.trans hstop⟩
    obtain ⟨ht, hposted, hlate, hstop⟩ := hkept
    have horder := ht.order
    rw [← hposted, ← hlate, ← hstop, ← horder]
    rcases ht.settled hstuck with ⟨hwaiting, hempty, hrunning⟩ | hdone
    · simp [current, hwaiting, hempty, hrunning, ht.late]
    · obtain ⟨hstopped, hlist⟩ := ht.done hdone
      simp [current, hdone, hlist, hstopped]

def posting : List (Action ℕ) :=
  [.processQueue, .lockedPushBack 1, .notifyAll, .processQueue, .processQueue, .lockedPushBack 2, .requestStop]

theorem runs_every_task_posting : ∃ q, run step create posting = some q ∧ q.posted = [1, 2] ∧
    ∃ (bs : List (Action ℕ)) (t : Queue ℕ), Path step (fun _ => Quiet) q bs t ∧ bs.length ≤ q.work ∧
      t.executed = [1, 2] ∧ t.point = .done := by
  have hrun : ∃ q, run step create posting = some q ∧ (q.posted = [1, 2] ∧ q.late = [] ∧
      q.taskQueue.stopRequested = true) ∧ ∃ t, run step q ([.notifyAll, .notifyAll] ++ List.replicate 9 .processQueue) =
        some t ∧ (t.owed = 0 ∧ t.point = .done) := ⟨_, rfl, ⟨rfl, rfl, rfl⟩, _, rfl, rfl, rfl⟩
  obtain ⟨q, hq, ⟨hposted, hlate, -⟩, t, ht, howed, hdone⟩ := hrun
  have hpath := @path_of_run _ _ _ (fun _ => Quiet) _ _ _ ht (by simp [Quiet])
  obtain ⟨hlength, hsettled⟩ := (runs_every_task hq).2 _ _ hpath
  have hstuck : ∀ a, Quiet a → t.step a = none := by
    intro a ha
    cases a <;> simp_all [Quiet, step, processQueue]
  have hexecuted := (hsettled hstuck).1
  rw [hlate, List.append_nil, hposted] at hexecuted
  exact ⟨q, hq, hposted, _, t, hpath, hlength, hexecuted, hdone⟩

end Queue

end FastTransport.TaskQueue
