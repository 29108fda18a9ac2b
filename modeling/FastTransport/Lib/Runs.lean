import Mathlib

/-! Runs of a partial labelled step function: the invariant rule, runs whose
steps all meet a condition, and the lockstep rule for two step functions. -/

namespace FastTransport.Lib.Runs

variable {S S' A : Type*}

def run (step : S → A → Option S) : S → List A → Option S
  | s, [] => some s
  | s, a :: as => (step s a).bind fun t => run step t as

@[simp] lemma run_nil (step : S → A → Option S) (s : S) : run step s [] = some s := rfl

lemma run_cons (step : S → A → Option S) (s : S) (a : A) (as : List A) :
    run step s (a :: as) = (step s a).bind fun t => run step t as := rfl

lemma run_cons_eq_some {step : S → A → Option S} {s u : S} {a : A} {as : List A} :
    run step s (a :: as) = some u ↔ ∃ t, step s a = some t ∧ run step t as = some u := by
  simp only [run_cons, Option.bind_eq_some_iff]

lemma run_append_eq_some {step : S → A → Option S} {s u : S} {as bs : List A} :
    run step s (as ++ bs) = some u ↔ ∃ t, run step s as = some t ∧ run step t bs = some u := by
  induction as generalizing s with
  | nil => exact ⟨fun h => ⟨s, rfl, h⟩, fun ⟨_, he, h⟩ => by cases he; exact h⟩
  | cons a as ih =>
    rw [List.cons_append, run_cons_eq_some]
    constructor
    · rintro ⟨v, hv, h⟩
      obtain ⟨t, ht, hu⟩ := ih.mp h
      exact ⟨t, run_cons_eq_some.mpr ⟨v, hv, ht⟩, hu⟩
    · rintro ⟨t, ht, hu⟩
      obtain ⟨v, hv, ht⟩ := run_cons_eq_some.mp ht
      exact ⟨v, hv, ih.mpr ⟨t, ht, hu⟩⟩

theorem run_invariant {step : S → A → Option S} {P : S → Prop}
    (hstep : ∀ s a t, P s → step s a = some t → P t) {s t : S} {as : List A}
    (hs : P s) (h : run step s as = some t) : P t := by
  induction as generalizing s with
  | nil =>
    cases Option.some.inj h
    exact hs
  | cons a as ih =>
    obtain ⟨u, hu, hr⟩ := run_cons_eq_some.mp h
    exact ih (hstep s a u hs hu) hr

inductive Path (step : S → A → Option S) (ok : S → A → Prop) : S → List A → S → Prop
  | nil (s : S) : Path step ok s [] s
  | cons {s t u : S} {a : A} {as : List A} : ok s a → step s a = some t →
      Path step ok t as u → Path step ok s (a :: as) u

theorem Path.invariant {step : S → A → Option S} {ok : S → A → Prop} {P : S → Prop}
    (hstep : ∀ s a t, P s → ok s a → step s a = some t → P t) {s t : S} {as : List A}
    (h : Path step ok s as t) (hs : P s) : P t := by
  induction h with
  | nil _ => exact hs
  | cons hok ha _ ih => exact ih (hstep _ _ _ hs hok ha)

lemma Path.mono {step : S → A → Option S} {ok ok' : S → A → Prop} (hm : ∀ s a, ok s a → ok' s a) {s t : S}
    {as : List A} (h : Path step ok s as t) : Path step ok' s as t := by
  induction h with
  | nil _ => exact .nil _
  | cons hok ha _ ih => exact .cons (hm _ _ hok) ha ih

lemma path_and_iff {step : S → A → Option S} {ok ok' : S → A → Prop} {s t : S} {as : List A} :
    Path step (fun s a => ok s a ∧ ok' s a) s as t ↔ Path step ok s as t ∧ Path step ok' s as t := by
  constructor
  · exact fun h => ⟨h.mono fun _ _ => And.left, h.mono fun _ _ => And.right⟩
  · rintro ⟨h, h'⟩
    induction h with
    | nil _ => exact .nil _
    | cons hok ha _ ih =>
      cases h' with
      | cons hok' ha' h' =>
        cases ha.symm.trans ha'
        exact .cons ⟨hok, hok'⟩ ha (ih h')

lemma Path.run {step : S → A → Option S} {ok : S → A → Prop} {s t : S} {as : List A} (h : Path step ok s as t) :
    run step s as = some t := by
  induction h with
  | nil _ => rfl
  | cons _ ha _ ih => exact run_cons_eq_some.mpr ⟨_, ha, ih⟩

lemma path_of_run {step : S → A → Option S} {ok : S → A → Prop} {s t : S} {as : List A} (h : run step s as = some t)
    (hok : ∀ a ∈ as, ∀ u, ok u a) : Path step ok s as t := by
  induction as generalizing s with
  | nil =>
    cases h
    exact .nil _
  | cons a as ih =>
    obtain ⟨u, hu, h⟩ := run_cons_eq_some.mp h
    exact .cons (hok a List.mem_cons_self s) hu (ih h fun b hb => hok b (List.mem_cons_of_mem a hb))

lemma Path.append {step : S → A → Option S} {ok : S → A → Prop} {s t u : S} {as bs : List A}
    (h : Path step ok s as t) (h' : Path step ok t bs u) : Path step ok s (as ++ bs) u := by
  induction h with
  | nil _ => exact h'
  | cons hok ha _ ih => exact .cons hok ha (ih h')

lemma Path.length_le {step : S → A → Option S} {ok : S → A → Prop} {P : S → Prop} {μ : S → ℕ}
    (hinv : ∀ s a t, P s → ok s a → step s a = some t → P t)
    (hlt : ∀ s a t, P s → ok s a → step s a = some t → μ t < μ s) {s t : S} {as : List A}
    (h : Path step ok s as t) (hs : P s) : as.length + μ t ≤ μ s := by
  induction h with
  | nil s => exact (Nat.zero_add _).le
  | cons hok ha _ ih =>
    have hless := hlt _ _ _ hs hok ha
    have hrest := ih (hinv _ _ _ hs hok ha)
    rw [List.length_cons]
    omega

lemma rel_mono {R R' : S → S' → Prop} (h : ∀ s s', R s s' → R' s s') {x : Option S} {y : Option S'}
    (hr : Option.Rel R x y) : Option.Rel R' x y := by
  cases hr with
  | none => exact .none
  | some hs => exact .some (h _ _ hs)

theorem run_lockstep {step : S → A → Option S} {step' : S' → A → Option S'} {R : S → S' → Prop}
    (hstep : ∀ s s' a, R s s' → Option.Rel R (step s a) (step' s' a)) {s : S} {s' : S'}
    (hs : R s s') (as : List A) : Option.Rel R (run step s as) (run step' s' as) := by
  induction as generalizing s s' with
  | nil => exact .some hs
  | cons a as ih =>
    rw [run_cons, run_cons]
    have hr := hstep s s' a hs
    generalize step s a = x at hr ⊢
    generalize step' s' a = y at hr ⊢
    cases hr with
    | none => exact .none
    | some h => exact ih h

end FastTransport.Lib.Runs
