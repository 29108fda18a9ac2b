import Mathlib

/-! Programs that may end in a fault: rules for what holds of their results and for which faults they avoid. -/

namespace FastTransport.Lib.Faults

universe u v

variable {ε : Type u} {α β : Type v} {bad : ε → Prop}

/-- What the program returns has `P`, and the fault it ends in is none of the bad ones. -/
def Meets (bad : ε → Prop) (P : α → Prop) : Except ε α → Prop
  | .ok a => P a
  | .error e => ¬ bad e

lemma Meets.pure {P : α → Prop} {a : α} (h : P a) : Meets bad P (.ok a) := h

lemma Meets.fault {P : α → Prop} {e : ε} (h : ¬ bad e) : Meets bad P (.error e : Except ε α) := h

lemma Meets.bind {P : α → Prop} {Q : β → Prop} {x : Except ε α} {f : α → Except ε β} (hx : Meets bad P x)
    (hf : ∀ a, P a → Meets bad Q (f a)) : Meets bad Q (x >>= f) := by
  cases x with
  | ok a => exact hf a hx
  | error e => exact hx

lemma Meets.mono {P Q : α → Prop} {x : Except ε α} (hx : Meets bad P x) (h : ∀ a, P a → Q a) : Meets bad Q x := by
  cases x with
  | ok a => exact h a hx
  | error e => exact hx

lemma Meets.ok {P : α → Prop} {x : Except ε α} {a : α} (hx : Meets bad P x) (h : x = .ok a) : P a := by
  subst h
  exact hx

lemma Meets.ne_error {P : α → Prop} {x : Except ε α} {e : ε} (hx : Meets bad P x) (he : bad e) : x ≠ .error e := by
  rintro rfl
  exact hx he

lemma Meets.foldlM {P : α → Prop} {f : α → β → Except ε α} {xs : List β}
    (hf : ∀ a, ∀ b ∈ xs, P a → Meets bad P (f a b)) {a : α} (ha : P a) : Meets bad P (xs.foldlM f a) := by
  induction xs generalizing a with
  | nil => exact ha
  | cons x xs ih =>
    rw [List.foldlM_cons]
    exact Meets.bind (hf a x List.mem_cons_self ha) fun b hb => ih (fun a y hy => hf a y (List.mem_cons_of_mem _ hy)) hb

end FastTransport.Lib.Faults
