import Doreto.Lib.Run

/-!
# Progress

Some actions of a system help it towards a goal. A rank says how many of them are still needed: it
goes down with each of them, and no other action raises it. A run that takes that many helpful
actions comes to the goal, whatever else happens between them.

- `Reaches`: a run comes to a state with a property.
- `reaches_of_rank`: the rule.
- `rank_add_countP_le`: a rank that goes down with every helpful action bounds their number.
-/

namespace Doreto.Lib

variable {S A : Type*} {step : S → A → Option S}

/-- The run comes to a state with the property. -/
def Reaches (step : S → A → Option S) (P : S → Prop) (s : S) (as : List A) : Prop :=
  ∃ bs t, bs <+: as ∧ exec step s bs = some t ∧ P t

theorem Reaches.here {P : S → Prop} {s : S} (as : List A) (h : P s) : Reaches step P s as :=
  ⟨[], s, List.nil_prefix, rfl, h⟩

theorem Reaches.cons {P : S → Prop} {s t : S} {a : A} {as : List A} (hstep : step s a = some t)
    (h : Reaches step P t as) : Reaches step P s (a :: as) := by
  obtain ⟨bs, u, hprefix, hexec, hu⟩ := h
  refine ⟨a :: bs, u, List.cons_prefix_cons.mpr ⟨rfl, hprefix⟩, ?_, hu⟩
  rw [exec, hstep]
  exact hexec

/-- A state that the run comes to has whatever follows for it from the property. -/
theorem Reaches.imp {P Q : S → Prop} {s : S} {as : List A} (h : Reaches step P s as)
    (himp : ∀ bs t, exec step s bs = some t → P t → Q t) : Reaches step Q s as := by
  obtain ⟨bs, t, hprefix, hexec, ht⟩ := h
  exact ⟨bs, t, hprefix, hexec, himp bs t hexec ht⟩

/-- A rank that every helpful action lowers and no action raises is used up on the way to the
goal. -/
theorem reaches_of_rank {helps : A → Bool} {I P : S → Prop} (rank : S → Nat)
    (hzero : ∀ s, I s → rank s = 0 → P s)
    (hstep : ∀ s a t, I s → ¬ P s → step s a = some t →
      P t ∨ I t ∧ rank t ≤ rank s ∧ (helps a = true → rank t < rank s))
    {s t : S} {as : List A} (hI : I s) (hexec : exec step s as = some t)
    (hcount : rank s ≤ as.countP helps) : Reaches step P s as := by
  induction as generalizing s with
  | nil => exact .here [] (hzero s hI (Nat.le_zero.mp hcount))
  | cons a as ih =>
    by_cases hP : P s
    · exact .here _ hP
    · obtain ⟨u, hu, hrest⟩ := Option.bind_eq_some_iff.mp hexec
      rcases hstep s a u hI hP hu with hgoal | ⟨hIu, hle, hlt⟩
      · exact .cons hu (.here as hgoal)
      · refine .cons hu (ih hIu hrest ?_)
        cases hhelps : helps a with
        | true =>
          have hlower := hlt hhelps
          rw [List.countP_cons_of_pos hhelps] at hcount
          omega
        | false =>
          rw [List.countP_cons_of_neg (by simp [hhelps])] at hcount
          omega

/-- A run takes no more helpful actions than the rank allows. -/
theorem rank_add_countP_le {helps : A → Bool} {I : S → Prop} (rank : S → Nat)
    (hstep : ∀ s a t, I s → step s a = some t →
      I t ∧ rank t ≤ rank s ∧ (helps a = true → rank t < rank s))
    {s t : S} {as : List A} (hI : I s) (hexec : exec step s as = some t) :
    I t ∧ rank t + as.countP helps ≤ rank s := by
  induction as generalizing s with
  | nil =>
    obtain rfl := Option.some.inj hexec
    exact ⟨hI, Nat.le_refl _⟩
  | cons a as ih =>
    obtain ⟨u, hu, hrest⟩ := Option.bind_eq_some_iff.mp hexec
    obtain ⟨hIu, hle, hlt⟩ := hstep s a u hI hu
    obtain ⟨hIt, hsum⟩ := ih hIu hrest
    refine ⟨hIt, ?_⟩
    cases hhelps : helps a with
    | true =>
      have hlower := hlt hhelps
      rw [List.countP_cons_of_pos hhelps]
      omega
    | false =>
      rw [List.countP_cons_of_neg (by simp [hhelps])]
      omega

end Doreto.Lib
