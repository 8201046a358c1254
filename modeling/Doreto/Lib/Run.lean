import Mathlib.Data.List.Basic

/-!
# Runs of a Partial Step Function

A system is a partial function that takes a state and an action to the next state. `exec` takes
the actions of a list in order. Three predicates speak about a whole run:

- `HoldsAlong`: a property holds in every state that the run reaches, the first one included.
- `StepsMeet`: every step that the run takes meets a condition on the state before it and on its
  action.
- `ActionsMeet`: so does every action that the run comes to, even one without a result.

## Main results

- `exec_invariant`: what every step keeps, every run keeps.
- `holdsAlong_of_stepsMeet`: when the steps that meet a condition keep an invariant, the property
  that follows from it holds along every run whose steps meet the condition.
- `holdsAlong_iff_stepsMeet`: when the condition is exact for every step, it is exact for runs.
-/

namespace Doreto.Lib

variable {S A : Type*} {step : S → A → Option S}

/-! ## Runs -/

/-- Take the actions in order, stopping at the first step that has no result. -/
def exec (step : S → A → Option S) : S → List A → Option S
  | s, [] => some s
  | s, a :: as => (step s a).bind fun t => exec step t as

theorem exec_append (s : S) (as bs : List A) :
    exec step s (as ++ bs) = (exec step s as).bind fun t => exec step t bs := by
  induction as generalizing s with
  | nil => rfl
  | cons a as ih =>
    rw [List.cons_append, exec, exec, Option.bind_assoc]
    exact congrArg _ (funext ih)

/-- What every step keeps, every run keeps. -/
theorem exec_invariant {I : S → Prop} (hstep : ∀ s a t, I s → step s a = some t → I t)
    {s t : S} {as : List A} (h : exec step s as = some t) (hs : I s) : I t := by
  induction as generalizing s with
  | nil => exact Option.some.inj h ▸ hs
  | cons a as ih =>
    obtain ⟨u, hu, hrest⟩ := Option.bind_eq_some_iff.mp h
    exact ih hrest (hstep s a u hs hu)

/-! ## Properties of whole runs -/

/-- The property holds in every state that the run reaches. -/
def HoldsAlong (step : S → A → Option S) (P : S → Prop) : S → List A → Prop
  | s, [] => P s
  | s, a :: as => P s ∧ ∀ t, step s a = some t → HoldsAlong step P t as

instance {P : S → Prop} [∀ s, Decidable (P s)] (s : S) (as : List A) :
    Decidable (HoldsAlong step P s as) :=
  decideHoldsAlong s as
where
  decideHoldsAlong : ∀ s as, Decidable (HoldsAlong step P s as)
    | s, [] => inferInstanceAs (Decidable (P s))
    | s, a :: as =>
        have : Decidable (∀ t, step s a = some t → HoldsAlong step P t as) :=
          match h : step s a with
          | none => isTrue fun t ht => by cases ht
          | some t =>
              have := decideHoldsAlong t as
              decidable_of_iff (HoldsAlong step P t as)
                ⟨fun hP t' ht => Option.some.inj ht ▸ hP, fun hP => hP t rfl⟩
        inferInstanceAs (Decidable (_ ∧ _))

/-- Every step that the run takes meets the condition. -/
def StepsMeet (step : S → A → Option S) (C : S → A → Prop) : S → List A → Prop
  | _, [] => True
  | s, a :: as => ∀ t, step s a = some t → C s a ∧ StepsMeet step C t as

instance {C : S → A → Prop} [∀ s a, Decidable (C s a)] (s : S) (as : List A) :
    Decidable (StepsMeet step C s as) :=
  decideStepsMeet s as
where
  decideStepsMeet : ∀ s as, Decidable (StepsMeet step C s as)
    | _, [] => isTrue trivial
    | s, a :: as =>
        match h : step s a with
        | none => isTrue fun t ht => by rw [h] at ht; cases ht
        | some t =>
            have := decideStepsMeet t as
            decidable_of_iff (C s a ∧ StepsMeet step C t as)
              ⟨fun hmeet t' ht => by rw [h] at ht; exact Option.some.inj ht ▸ hmeet,
                fun hmeet => hmeet t h⟩

/-- A condition that all the actions meet, whatever the state. -/
theorem stepsMeet_of_forall {C : A → Prop} {s : S} {as : List A} (h : ∀ a ∈ as, C a) :
    StepsMeet step (fun _ a => C a) s as := by
  induction as generalizing s with
  | nil => exact trivial
  | cons a as ih =>
    rw [List.forall_mem_cons] at h
    exact fun t _ => ⟨h.1, ih h.2⟩

theorem HoldsAlong.head {P : S → Prop} {s : S} {as : List A} (h : HoldsAlong step P s as) :
    P s := by
  cases as with
  | nil => exact h
  | cons a as => exact h.1

/-- The states that a run reaches are those behind its beginnings. -/
theorem holdsAlong_iff {P : S → Prop} {s : S} {as : List A} :
    HoldsAlong step P s as ↔ ∀ bs t, bs <+: as → exec step s bs = some t → P t := by
  induction as generalizing s with
  | nil =>
    constructor
    · intro hs bs t hpre hexec
      obtain rfl := List.prefix_nil.mp hpre
      exact Option.some.inj hexec ▸ hs
    · intro h
      exact h [] s List.nil_prefix rfl
  | cons a as ih =>
    constructor
    · rintro ⟨hs, hrest⟩ bs t hpre hexec
      cases bs with
      | nil => exact Option.some.inj hexec ▸ hs
      | cons b bs =>
        -- the first action of the beginning is the first action of the run
        obtain ⟨rfl, hpre'⟩ := List.cons_prefix_cons.mp hpre
        obtain ⟨u, hu, hexec'⟩ := Option.bind_eq_some_iff.mp hexec
        exact ih.mp (hrest u hu) bs t hpre' hexec'
    · intro h
      refine ⟨h [] s List.nil_prefix rfl, fun u hu => ih.mpr fun bs t hpre hexec => ?_⟩
      refine h (a :: bs) t (List.cons_prefix_cons.mpr ⟨rfl, hpre⟩) ?_
      rw [exec, hu]
      exact hexec

/-- The property holds in the state in which the run ends. -/
theorem HoldsAlong.last {P : S → Prop} {s t : S} {as : List A} (h : HoldsAlong step P s as)
    (hexec : exec step s as = some t) : P t :=
  holdsAlong_iff.mp h as t (List.prefix_refl _) hexec

/-- The steps that a run takes are those behind its beginnings. -/
theorem stepsMeet_iff {C : S → A → Prop} {s : S} {as : List A} :
    StepsMeet step C s as ↔ ∀ bs a t u, bs ++ [a] <+: as → exec step s bs = some t →
      step t a = some u → C t a := by
  induction as generalizing s with
  | nil =>
    refine iff_of_true trivial ?_
    intro bs a t u hpre
    exact absurd (List.prefix_nil.mp hpre) (by simp)
  | cons b as ih =>
    constructor
    · intro h bs a t u hpre hexec hstep
      cases bs with
      | nil =>
        -- the first step of the run
        obtain ⟨rfl, -⟩ := List.cons_prefix_cons.mp hpre
        obtain rfl := Option.some.inj hexec
        exact (h u hstep).1
      | cons b' bs =>
        obtain ⟨rfl, hpre'⟩ := List.cons_prefix_cons.mp hpre
        obtain ⟨v, hv, hexec'⟩ := Option.bind_eq_some_iff.mp hexec
        exact ih.mp (h v hv).2 bs a t u hpre' hexec' hstep
    · intro h t ht
      have hfirst : [] ++ [b] <+: b :: as := List.cons_prefix_cons.mpr ⟨rfl, List.nil_prefix⟩
      refine ⟨h [] b s t hfirst rfl ht, ih.mpr fun bs a v u hpre hexec hstep => ?_⟩
      refine h (b :: bs) a v u (List.cons_prefix_cons.mpr ⟨rfl, hpre⟩) ?_ hstep
      rw [exec, ht]
      exact hexec

/-- A property that follows from an invariant holds along every run whose steps meet the condition
under which a step keeps the invariant. -/
theorem holdsAlong_of_stepsMeet {C : S → A → Prop} {I P : S → Prop} (himp : ∀ s, I s → P s)
    (hstep : ∀ s a t, I s → C s a → step s a = some t → I t) {s : S} {as : List A} (hs : I s)
    (h : StepsMeet step C s as) : HoldsAlong step P s as := by
  induction as generalizing s with
  | nil => exact himp s hs
  | cons a as ih =>
    refine ⟨himp s hs, fun t ht => ?_⟩
    obtain ⟨hC, hrest⟩ := h t ht
    exact ih (hstep s a t hs hC ht) hrest

/-- A property that follows from an invariant of every step holds along every run. -/
theorem holdsAlong_of_invariant {I P : S → Prop} (himp : ∀ s, I s → P s)
    (hstep : ∀ s a t, I s → step s a = some t → I t) {s : S} (as : List A) (hs : I s) :
    HoldsAlong step P s as :=
  holdsAlong_iff.mpr fun _ _ _ hexec => himp _ (exec_invariant hstep hexec hs)

/-- When a step from a good state leads to a good state exactly if it meets the condition, a run
stays in good states exactly if all its steps meet the condition. -/
theorem holdsAlong_iff_stepsMeet {C : S → A → Prop} {I P : S → Prop}
    (hkeep : ∀ s a t, I s → step s a = some t → I t)
    (hexact : ∀ s a t, I s → P s → step s a = some t → (P t ↔ C s a)) {s : S} (as : List A)
    (hI : I s) (hP : P s) : HoldsAlong step P s as ↔ StepsMeet step C s as := by
  induction as generalizing s with
  | nil => simp [HoldsAlong, StepsMeet, hP]
  | cons a as ih =>
    constructor
    · rintro ⟨-, hrest⟩ t ht
      -- the condition is exact for the first step, and the rest starts from a good state
      have hPt := (hrest t ht).head
      exact ⟨(hexact s a t hI hP ht).mp hPt, (ih (hkeep s a t hI ht) hPt).mp (hrest t ht)⟩
    · intro h
      refine ⟨hP, fun t ht => ?_⟩
      obtain ⟨hC, hrest⟩ := h t ht
      exact (ih (hkeep s a t hI ht) ((hexact s a t hI hP ht).mpr hC)).mpr hrest

/-! ## Actions that a run comes to -/

/-- Every action that the run comes to meets the condition, whether or not it has a result. -/
def ActionsMeet (step : S → A → Option S) (C : S → A → Prop) : S → List A → Prop
  | _, [] => True
  | s, a :: as => C s a ∧ ∀ t, step s a = some t → ActionsMeet step C t as

instance {C : S → A → Prop} [∀ s a, Decidable (C s a)] (s : S) (as : List A) :
    Decidable (ActionsMeet step C s as) :=
  decideActionsMeet s as
where
  decideActionsMeet : ∀ s as, Decidable (ActionsMeet step C s as)
    | _, [] => isTrue trivial
    | s, a :: as =>
        have : Decidable (∀ t, step s a = some t → ActionsMeet step C t as) :=
          match h : step s a with
          | none => isTrue fun t ht => by cases ht
          | some t =>
              have := decideActionsMeet t as
              decidable_of_iff (ActionsMeet step C t as)
                ⟨fun hmeet t' ht => Option.some.inj ht ▸ hmeet, fun hmeet => hmeet t rfl⟩
        inferInstanceAs (Decidable (_ ∧ _))

/-- Two conditions that agree wherever an invariant holds are met by the same runs. -/
theorem actionsMeet_congr {C D : S → A → Prop} {I : S → Prop}
    (hkeep : ∀ s a t, I s → step s a = some t → I t) (h : ∀ s a, I s → (C s a ↔ D s a)) {s : S}
    (as : List A) (hI : I s) : ActionsMeet step C s as ↔ ActionsMeet step D s as := by
  induction as generalizing s with
  | nil => exact Iff.rfl
  | cons a as ih =>
    apply and_congr (h s a hI)
    apply forall₂_congr
    intro t ht
    exact ih (hkeep s a t hI ht)

end Doreto.Lib
