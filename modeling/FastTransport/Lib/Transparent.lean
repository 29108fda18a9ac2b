import Mathlib

/-! Objects that go through silent events between their calls, compared call by call with
objects that do not. -/

namespace FastTransport.Lib.Transparent

inductive Outcome (A : Type*)
  | returns (a : A)
  | failed
  | undefined
  deriving DecidableEq, Repr

namespace Outcome

variable {A B : Type*}

def bind : Outcome A → (A → Outcome B) → Outcome B
  | returns a, f => f a
  | failed, _ => failed
  | undefined, _ => undefined

def map (f : A → B) : Outcome A → Outcome B
  | returns a => returns (f a)
  | failed => failed
  | undefined => undefined

def toOption : Outcome A → Option A
  | returns a => some a
  | failed | undefined => none

@[simp] lemma bind_returns (a : A) (f : A → Outcome B) : (returns a).bind f = f a := rfl

@[simp] lemma bind_failed (f : A → Outcome B) : (failed : Outcome A).bind f = failed := rfl

@[simp] lemma bind_undefined (f : A → Outcome B) : (undefined : Outcome A).bind f = undefined := rfl

@[simp] lemma map_returns (f : A → B) (a : A) : (returns a).map f = returns (f a) := rfl

@[simp] lemma map_failed (f : A → B) : (failed : Outcome A).map f = failed := rfl

@[simp] lemma map_undefined (f : A → B) : (undefined : Outcome A).map f = undefined := rfl

@[simp] lemma toOption_returns (a : A) : (returns a).toOption = some a := rfl

@[simp] lemma toOption_failed : (failed : Outcome A).toOption = none := rfl

@[simp] lemma toOption_undefined : (undefined : Outcome A).toOption = none := rfl

lemma toOption_bind (x : Outcome A) (f : A → Outcome B) :
    (x.bind f).toOption = x.toOption.bind fun a => (f a).toOption := by
  cases x <;> rfl

lemma toOption_map (x : Outcome A) (f : A → B) : (x.map f).toOption = x.toOption.map f := by
  cases x <;> rfl

lemma bind_eq_returns {x : Outcome A} {f : A → Outcome B} {b : B} :
    x.bind f = returns b ↔ ∃ a, x = returns a ∧ f a = returns b := by
  cases x with
  | returns a => exact ⟨fun h => ⟨a, rfl, h⟩, fun ⟨_, he, h⟩ => by cases he; exact h⟩
  | failed | undefined => exact ⟨nofun, fun ⟨_, he, _⟩ => by cases he⟩

lemma map_eq_returns {x : Outcome A} {f : A → B} {b : B} :
    x.map f = returns b ↔ ∃ a, x = returns a ∧ f a = b := by
  cases x with
  | returns a => exact ⟨fun h => ⟨a, rfl, by cases h; rfl⟩, fun ⟨_, he, h⟩ => by cases he; rw [← h]; rfl⟩
  | failed | undefined => exact ⟨nofun, fun ⟨_, he, _⟩ => by cases he⟩

lemma map_eq_failed {x : Outcome A} {f : A → B} : x.map f = failed ↔ x = failed := by
  cases x with
  | failed => exact iff_of_true rfl rfl
  | returns a | undefined => exact iff_of_false nofun nofun

def unasserted : Outcome A → Outcome A
  | failed => undefined
  | x => x

@[simp] lemma unasserted_returns (a : A) : (returns a).unasserted = returns a := rfl

@[simp] lemma unasserted_failed : (failed : Outcome A).unasserted = undefined := rfl

@[simp] lemma unasserted_undefined : (undefined : Outcome A).unasserted = undefined := rfl

lemma unasserted_bind (x : Outcome A) (f : A → Outcome B) :
    (x.bind f).unasserted = x.unasserted.bind fun a => (f a).unasserted := by
  cases x <;> rfl

lemma unasserted_map (x : Outcome A) (f : A → B) : (x.map f).unasserted = x.unasserted.map f := by
  cases x <;> rfl

lemma unasserted_of_ne {x : Outcome A} (h : x ≠ failed) : x.unasserted = x := by
  cases x with
  | failed => exact absurd rfl h
  | returns a | undefined => rfl

end Outcome

open Outcome

inductive Event (M C : Type*)
  | silent (m : M)
  | call (c : C)

variable {M C R S T : Type*}

def calls : List (Event M C) → List C
  | [] => []
  | .silent _ :: es => calls es
  | .call c :: es => c :: calls es

/-- The results of the calls, up to one that does not return or that gives the object up. -/
def results (perform : T → C → Outcome (R × Option T)) : T → List C → List (Outcome R)
  | _, [] => []
  | t, c :: cs =>
    match perform t c with
    | .returns (r, some t') => .returns r :: results perform t' cs
    | .returns (r, none) => [.returns r]
    | .failed => [.failed]
    | .undefined => [.undefined]

def resultsThrough (silent : M → S → S) (perform : S → C → Outcome (R × Option S)) :
    S → List (Event M C) → List (Outcome R)
  | _, [] => []
  | s, .silent m :: es => resultsThrough silent perform (silent m s) es
  | s, .call c :: es =>
    match perform s c with
    | .returns (r, some s') => .returns r :: resultsThrough silent perform s' es
    | .returns (r, none) => [.returns r]
    | .failed => [.failed]
    | .undefined => [.undefined]

def Keeps (silent : M → S → S) (perform : S → C → Outcome (R × Option S)) (ok : S → C → Prop) :
    S → List (Event M C) → Prop
  | _, [] => True
  | s, .silent m :: es => Keeps silent perform ok (silent m s) es
  | s, .call c :: es => ok s c ∧ ∀ r s', perform s c = .returns (r, some s') → Keeps silent perform ok s' es

inductive Matches (Same : S → T → Prop) : Outcome (R × Option S) → Outcome (R × Option T) → Prop
  | continues {r : R} {s : S} {t : T} : Same s t → Matches Same (.returns (r, some s)) (.returns (r, some t))
  | givenUp (r : R) : Matches Same (.returns (r, none)) (.returns (r, none))
  | failed : Matches Same .failed .failed
  | undefined : Matches Same .undefined .undefined

theorem results_eq_iff {silent : M → S → S} {perform : S → C → Outcome (R × Option S)}
    {perform' : T → C → Outcome (R × Option T)} (Same : S → T → Prop) {ok : S → C → Prop}
    (hsilent : ∀ m s t, Same s t → Same (silent m s) t)
    (hok : ∀ s t c, Same s t → ok s c → Matches Same (perform s c) (perform' t c))
    (hbad : ∀ s t c, Same s t → ¬ ok s c → perform s c = .undefined ∧ perform' t c ≠ .undefined)
    {s : S} {t : T} (h : Same s t) (es : List (Event M C)) :
    resultsThrough silent perform s es = results perform' t (calls es) ↔ Keeps silent perform ok s es := by
  induction es generalizing s t with
  | nil => exact iff_of_true rfl trivial
  | cons e es ih =>
    cases e with
    | silent m => exact ih (hsilent m s t h)
    | call c =>
      rw [resultsThrough, calls, results, Keeps]
      by_cases hc : ok s c
      · have hm := hok s t c h hc
        generalize perform s c = x at hm ⊢
        generalize perform' t c = y at hm ⊢
        cases hm with
        | continues hs =>
          rw [List.cons.injEq, eq_self, true_and, ih hs]
          exact ⟨fun hk => ⟨hc, fun r s' he => by cases he; exact hk⟩, fun hk => hk.2 _ _ rfl⟩
        | givenUp r => exact iff_of_true rfl ⟨hc, nofun⟩
        | failed => exact iff_of_true rfl ⟨hc, nofun⟩
        | undefined => exact iff_of_true rfl ⟨hc, nofun⟩
      · obtain ⟨hx, hy⟩ := hbad s t c h hc
        refine iff_of_false ?_ fun hk => hc hk.1
        rw [hx]
        generalize perform' t c = y at hy ⊢
        cases y with
        | undefined => exact absurd rfl hy
        | failed => exact fun he => by cases he
        | returns r =>
          obtain ⟨r, t'⟩ := r
          cases t' with
          | none => exact fun he => by cases he
          | some t' => exact fun he => by cases he

end FastTransport.Lib.Transparent
