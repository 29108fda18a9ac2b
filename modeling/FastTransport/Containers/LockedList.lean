import Mathlib

/-! `LockedList`: a list under a lock, and the threads that sleep on its condition variable. -/

namespace FastTransport.Containers

variable {α ι : Type*}

inductive Waiting
  | nonempty | empty
  deriving DecidableEq, Repr

structure LockedList (α ι : Type*) where
  list : List α
  stopRequested : Bool
  asleep : ι → Option Waiting

namespace LockedList

def create : LockedList α ι := ⟨[], false, fun _ => none⟩

def holds (l : LockedList α ι) : Waiting → Bool
  | .nonempty => !l.list.isEmpty
  | .empty => l.list.isEmpty

/-- One round of `wait` with a stop token: what it returns, or `none` when the thread has gone to sleep. -/
def wait [DecidableEq ι] (l : LockedList α ι) (i : ι) (w : Waiting) : LockedList α ι × Option Bool :=
  if l.stopRequested || l.holds w then (l, some (l.holds w))
  else ({ l with asleep := Function.update l.asleep i (some w) }, none)

def wake [DecidableEq ι] (l : LockedList α ι) (i : ι) : LockedList α ι :=
  { l with asleep := Function.update l.asleep i none }

def notifyAll (l : LockedList α ι) : LockedList α ι := { l with asleep := fun _ => none }

def lockedPushBack (l : LockedList α ι) (element : α) : LockedList α ι := { l with list := l.list ++ [element] }

def lockedSwap (l : LockedList α ι) (list : List α) : LockedList α ι × List α := ({ l with list := list }, l.list)

def requestStop (l : LockedList α ι) : LockedList α ι := { l with stopRequested := true }

/-- No thread sleeps through what it waits for while no notification is to come. -/
def Attended (l : LockedList α ι) (owed : ℕ) : Prop :=
  ∀ i w, l.asleep i = some w → l.stopRequested = true ∨ l.holds w = true → 0 < owed

variable {l : LockedList α ι} {owed : ℕ}

lemma wait_cases [DecidableEq ι] (l : LockedList α ι) (i : ι) (w : Waiting) :
    (l.wait i w = (l, some true) ∧ l.holds w = true) ∨
      (l.wait i w = (l, some false) ∧ l.holds w = false ∧ l.stopRequested = true) ∨
      (l.wait i w = ({ l with asleep := Function.update l.asleep i (some w) }, none) ∧
        l.holds w = false ∧ l.stopRequested = false) := by
  rw [wait]
  cases hholds : l.holds w with
  | true => simp
  | false => cases hstop : l.stopRequested <;> simp

lemma holds_nonempty : l.holds .nonempty = true ↔ l.list ≠ [] := by
  simp [holds]

lemma attended_notifyAll (owed : ℕ) : l.notifyAll.Attended owed :=
  fun _ _ h => by cases h

lemma attended_owed (l : LockedList α ι) (owed : ℕ) : l.Attended (owed + 1) :=
  fun _ _ _ _ => Nat.succ_pos owed

lemma Attended.wake [DecidableEq ι] (h : l.Attended owed) (i : ι) : (l.wake i).Attended owed := by
  intro j w hj
  by_cases hij : j = i
  · simp [LockedList.wake, hij] at hj
  · exact h j w (by simpa [LockedList.wake, hij] using hj)

lemma Attended.wait [DecidableEq ι] (h : l.Attended owed) (i : ι) (w : Waiting) : (l.wait i w).1.Attended owed := by
  rcases l.wait_cases i w with ⟨hw, -⟩ | ⟨hw, -⟩ | ⟨hw, hholds, hstop⟩
  · rwa [hw]
  · rwa [hw]
  · rw [hw]
    intro j w' hj hready
    by_cases hij : j = i
    · simp only [hij, Function.update_self, Option.some.injEq] at hj
      subst hj
      have hnot : ¬ (l.stopRequested = true ∨ l.holds w = true) := by
        simp [hholds, hstop]
      exact absurd hready hnot
    · exact h j w' (by simpa [hij] using hj) hready

lemma Attended.lockedSwap_nil (h : l.Attended owed) (hw : ∀ i w, l.asleep i = some w → w = .nonempty) :
    (l.lockedSwap []).1.Attended owed := by
  intro i w hi hholds
  apply h i w hi
  apply hholds.imp_right
  intro hempty
  rw [hw i w hi] at hempty
  cases hempty

end LockedList

end FastTransport.Containers
