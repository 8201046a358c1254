import Mathlib.Data.List.Infix
import Mathlib.Data.List.TakeWhile

/-!
# Query Strings

A query is a list of parameters with separators between them, and a parameter is a name and, behind
the first equals sign, a value. The elements are of any type. The separators are a class of
elements and the equals sign is one element.

- `parameter`: the name and the value of one parameter.
- `parameters`: the parameters of a query.

## Main results

- `parameters_append`: a separator splits the parameters of a query.
- `parameters_infix`: what stands between separators has its parameters among those of the query.
- `exists_parameters_eq_cons`: the first parameter is what stands before the first separator.
-/

namespace Doreto.Lib

variable {α : Type*} [DecidableEq α] {eq : α} {isSep : α → Bool}

/-- The name and the value of a parameter. There is no value where there is no equals sign. -/
def parameter (eq : α) (piece : List α) : List α × Option (List α) :=
  (piece.takeWhile (· ≠ eq), if eq ∈ piece then some (piece.dropWhile (· ≠ eq)).tail else none)

/-- The parameters of a query, in order. -/
def parameters (isSep : α → Bool) (eq : α) (query : List α) : List (List α × Option (List α)) :=
  (query.splitOnP isSep).map (parameter eq)

/-- The first equals sign ends the name. -/
theorem parameter_append {name : List α} (h : eq ∉ name) (value : List α) :
    parameter eq (name ++ eq :: value) = (name, some value) := by
  have hne : ∀ a ∈ name, decide (a ≠ eq) = true := by
    intro a ha
    have hane : a ≠ eq := fun heq => h (heq ▸ ha)
    simpa using hane
  have htake : (name ++ eq :: value).takeWhile (· ≠ eq) = name := by
    rw [List.takeWhile_append_of_pos hne]
    simp
  have hdrop : (name ++ eq :: value).dropWhile (· ≠ eq) = eq :: value := by
    rw [List.dropWhile_append_of_pos hne]
    simp
  rw [parameter, htake, hdrop, if_pos (by simp)]
  rfl

theorem parameters_of_forall {piece : List α} (h : ∀ a ∈ piece, isSep a = false) :
    parameters isSep eq piece = [parameter eq piece] := by
  rw [parameters, List.splitOnP_eq_singleton h]
  rfl

/-- A query of one parameter. -/
theorem parameters_singleton {name value : List α} (hname : name.any isSep = false)
    (hvalue : value.any isSep = false) (heq : isSep eq = false) (hnot : eq ∉ name) :
    parameters isSep eq (name ++ eq :: value) = [(name, some value)] := by
  have hpiece : (name ++ eq :: value).any isSep = false := by
    rw [List.any_append, List.any_cons, hname, heq, hvalue]
    rfl
  have hnone : ∀ a ∈ name ++ eq :: value, isSep a = false := by
    intro a ha
    simpa using List.any_eq_false.mp hpiece a ha
  rw [parameters_of_forall hnone, parameter_append hnot]

/-- A separator splits the parameters of a query. -/
theorem parameters_append {sep : α} (h : isSep sep = true) (xs ys : List α) :
    parameters isSep eq (xs ++ sep :: ys) = parameters isSep eq xs ++ parameters isSep eq ys := by
  rw [parameters, List.splitOnP_append_cons xs ys h, List.map_append]
  rfl

/-- The first parameter is what stands before the first separator. -/
theorem exists_parameters_eq_cons (query : List α) :
    ∃ more, parameters isSep eq query =
      parameter eq (query.takeWhile fun a => !isSep a) :: more := by
  have hfirst : ∀ a ∈ query.takeWhile fun a => !isSep a, isSep a = false := by
    intro a ha
    simpa using List.mem_takeWhile_imp ha
  have hsplit := List.takeWhile_append_dropWhile (p := fun a => !isSep a) (l := query)
  cases hrest : query.dropWhile fun a => !isSep a with
  | nil =>
    rw [hrest, List.append_nil] at hsplit
    refine ⟨[], ?_⟩
    rw [hsplit]
    exact parameters_of_forall (hsplit ▸ hfirst)
  | cons sep rest =>
    have hsep : isSep sep = true := by
      have hnot := List.head_dropWhile_not (fun a => !isSep a) (l := query) (by simp [hrest])
      simpa [hrest] using hnot
    refine ⟨parameters isSep eq rest, ?_⟩
    calc parameters isSep eq query
        = parameters isSep eq ((query.takeWhile fun a => !isSep a) ++ sep :: rest) := by
          rw [← hrest, hsplit]
      _ = parameters isSep eq (query.takeWhile fun a => !isSep a) ++ parameters isSep eq rest :=
          parameters_append hsep _ _
      _ = parameter eq (query.takeWhile fun a => !isSep a) :: parameters isSep eq rest := by
          rw [parameters_of_forall hfirst]
          rfl

/-- What ends at a separator, or is empty. -/
def EndsAtSep (isSep : α → Bool) (before : List α) : Prop :=
  ∀ a ∈ before.getLast?, isSep a = true

/-- What begins at a separator, or is empty. -/
def BeginsAtSep (isSep : α → Bool) (rest : List α) : Prop :=
  ∀ a ∈ rest.head?, isSep a = true

/-- What stands between separators has its parameters among those of the query. -/
theorem parameters_infix {before rest : List α} (hbefore : EndsAtSep isSep before)
    (hrest : BeginsAtSep isSep rest) (middle : List α) :
    parameters isSep eq middle <:+: parameters isSep eq (before ++ middle ++ rest) := by
  -- what follows the middle adds parameters behind it
  have hright : parameters isSep eq middle <+: parameters isSep eq (middle ++ rest) := by
    cases rest with
    | nil =>
      rw [List.append_nil]
    | cons sep rest =>
      rw [parameters_append (hrest sep rfl)]
      exact List.prefix_append _ _
  rw [List.append_assoc]
  rcases List.eq_nil_or_concat' before with rfl | ⟨before, sep, rfl⟩
  · exact hright.isInfix
  · have hsep : isSep sep = true := hbefore sep (by simp)
    rw [List.append_assoc, List.singleton_append, parameters_append hsep]
    exact hright.isInfix.trans (List.suffix_append _ _).isInfix

end Doreto.Lib
