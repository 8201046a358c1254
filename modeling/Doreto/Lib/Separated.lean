import Mathlib.Data.List.Basic

/-!
# Occurrences That Are Kept Apart

A record of events grows at its end. Between any two occurrences of one event there has to be an
occurrence of another one.

- `Separated`: the property of a record.
- `Unanswered`: an occurrence after which the other event is still missing.
- `Separated.append`, `unanswered_append`: what one more event does.
- `Separated.append_of_ne`, `unanswered_of_append`: events of other kinds change nothing.
-/

namespace Doreto.Lib

variable {α : Type*} {a b : α}

/-- Between two occurrences of `a` there is one of `b`. -/
def Separated (a b : α) (xs : List α) : Prop :=
  ∀ before between behind, xs = before ++ a :: (between ++ a :: behind) → b ∈ between

/-- Some occurrence of `a` has no `b` behind it. -/
def Unanswered (a b : α) (xs : List α) : Prop :=
  ∃ before behind, xs = before ++ a :: behind ∧ b ∉ behind

theorem separated_nil (a b : α) : Separated a b [] := by
  intro before between behind h
  simp at h

theorem not_unanswered_nil (a b : α) : ¬ Unanswered a b [] := by
  intro ⟨before, behind, h, _⟩
  simp at h

/-- An occurrence that is unanswered is the new one, or was unanswered before and the new event is
no answer to it. -/
theorem unanswered_append {xs : List α} {x : α} (h : Unanswered a b (xs ++ [x])) :
    x = a ∨ Unanswered a b xs ∧ x ≠ b := by
  obtain ⟨before, behind, heq, hb⟩ := h
  -- the new event is the occurrence itself or the last one behind it
  rcases List.eq_nil_or_concat behind with rfl | ⟨behind, y, rfl⟩
  · obtain ⟨-, hlast⟩ := List.append_inj' heq rfl
    exact .inl (List.singleton_inj.mp hlast)
  · have heq' : xs ++ [x] = (before ++ a :: behind) ++ [y] := by simpa using heq
    obtain ⟨hxs, hlast⟩ := List.append_inj' heq' rfl
    obtain rfl := List.singleton_inj.mp hlast
    simp only [List.concat_eq_append, List.mem_append, List.mem_singleton, not_or] at hb
    exact .inr ⟨⟨before, behind, hxs, hb.1⟩, Ne.symm hb.2⟩

/-- A new occurrence of `a` needs an answer to the ones before it. -/
theorem Separated.append {xs : List α} {x : α} (h : Separated a b xs)
    (hnew : x = a → ¬ Unanswered a b xs) : Separated a b (xs ++ [x]) := by
  intro before between behind heq
  rcases List.eq_nil_or_concat behind with rfl | ⟨behind, y, rfl⟩
  · -- the second occurrence is the new event
    have heq' : xs ++ [x] = (before ++ a :: between) ++ [a] := by simpa using heq
    obtain ⟨hxs, hlast⟩ := List.append_inj' heq' rfl
    by_contra hb
    exact hnew (List.singleton_inj.mp hlast) ⟨before, between, hxs, hb⟩
  · have heq' : xs ++ [x] = (before ++ a :: (between ++ a :: behind)) ++ [y] := by simpa using heq
    exact h before between behind (List.append_inj' heq' rfl).1

/-! ## Events of other kinds -/

theorem unanswered_of_append {xs ys : List α} (hne : ∀ y ∈ ys, y ≠ a)
    (h : Unanswered a b (xs ++ ys)) : Unanswered a b xs := by
  induction ys generalizing xs with
  | nil => rwa [List.append_nil] at h
  | cons y ys ih =>
    rw [List.forall_mem_cons] at hne
    have hrest : Unanswered a b ((xs ++ [y]) ++ ys) := by simpa using h
    rcases unanswered_append (ih hne.2 hrest) with hy | ⟨hxs, -⟩
    · exact absurd hy hne.1
    · exact hxs

theorem Separated.append_of_ne {xs ys : List α} (h : Separated a b xs)
    (hne : ∀ y ∈ ys, y ≠ a) : Separated a b (xs ++ ys) := by
  induction ys generalizing xs with
  | nil => rwa [List.append_nil]
  | cons y ys ih =>
    rw [List.forall_mem_cons] at hne
    have hy : Separated a b (xs ++ [y]) := h.append fun heq => absurd heq hne.1
    simpa using ih hy hne.2

end Doreto.Lib
