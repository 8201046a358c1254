import Mathlib.Data.List.Infix
import Mathlib.Data.List.TakeWhile

/-!
# Patterns of Words and Captured Runs

A small part of regular expressions: fixed elements, and captured groups that stand for one or
more elements of a class. The search is the one of backtracking engines. It takes the first
position at which there is a match, and each group takes as much as it can.

- `Matches`: what a pattern stands for, and the groups it captures.
- `matchHere`: a match at the start of the input.
- `search`: the first match anywhere.

## Main results

- `search_sound`: what is found is a match.
- `search_isSome_iff`: something is found exactly when there is a match.
- `search_eq_some_iff`: what is found is the first match.
- `matchHere_group_lit_iff`, `matchHere_group_iff`: what a group takes.
-/

namespace Doreto.Lib

/-- A part of a pattern. -/
inductive PatternItem (α : Type*) where
  | lit (a : α)
  /-- One or more elements of the class, captured. -/
  | group (p : α → Bool)

namespace PatternItem

variable {α : Type*}

/-- The fixed elements of a word. -/
def word (w : List α) : List (PatternItem α) :=
  w.map .lit

/-- The text is one that the pattern stands for, with these captured groups. -/
inductive Matches : List (PatternItem α) → List α → List (List α) → Prop where
  | nil : Matches [] [] []
  | lit {a : α} {items : List (PatternItem α)} {text : List α} {groups : List (List α)} :
      Matches items text groups → Matches (.lit a :: items) (a :: text) groups
  | group {p : α → Bool} {run : List α} {items : List (PatternItem α)} {text : List α}
      {groups : List (List α)} : run ≠ [] → (∀ a ∈ run, p a = true) → Matches items text groups →
      Matches (.group p :: items) (run ++ text) (run :: groups)

/-- The lengths a group tries on a run of `n` elements, the longest first. -/
def lengthsDown (n : Nat) : List Nat :=
  ((List.range n).map (· + 1)).reverse

theorem mem_lengthsDown {k n : Nat} : k ∈ lengthsDown n ↔ 0 < k ∧ k ≤ n := by
  simp only [lengthsDown, List.mem_reverse, List.mem_map, List.mem_range]
  constructor
  · rintro ⟨i, hi, rfl⟩
    omega
  · intro h
    exact ⟨k - 1, by omega, by omega⟩

/-- What a group takes is in its class. -/
theorem all_take_of_le {p : α → Bool} {xs : List α} {n : Nat}
    (h : n ≤ (xs.takeWhile p).length) : ∀ a ∈ xs.take n, p a = true := by
  have hrun : xs.takeWhile p <+: xs := List.takeWhile_prefix p
  have htake : xs.take n <+: xs.takeWhile p := by
    rw [List.prefix_iff_eq_take.mp hrun]
    exact List.take_prefix_take_left h
  intro a ha
  exact List.mem_takeWhile_imp (htake.subset ha)

section Search

variable [DecidableEq α]

/-- A match at the start of the input: the captured groups. -/
def matchHere : List (PatternItem α) → List α → Option (List (List α))
  | [], _ => some []
  | .lit a :: items, xs =>
      match xs with
      | [] => none
      | x :: xs => if x = a then matchHere items xs else none
  | .group p :: items, xs =>
      -- a group gives elements back until the rest matches
      (lengthsDown (xs.takeWhile p).length).findSome? fun n =>
        (matchHere items (xs.drop n)).map (xs.take n :: ·)

/-- The first match anywhere in the input: the captured groups. -/
def search (items : List (PatternItem α)) : List α → Option (List (List α))
  | [] => matchHere items []
  | x :: xs =>
      match matchHere items (x :: xs) with
      | some groups => some groups
      | none => search items xs

/-! ## What is found is a match -/

theorem matchHere_sound {items : List (PatternItem α)} {xs : List α} {groups : List (List α)}
    (h : matchHere items xs = some groups) :
    ∃ text rest, xs = text ++ rest ∧ Matches items text groups := by
  induction items generalizing xs groups with
  | nil =>
    obtain rfl := Option.some.inj h
    exact ⟨[], xs, rfl, .nil⟩
  | cons item items ih =>
    cases item with
    | lit a =>
      cases xs with
      | nil => cases h
      | cons x xs =>
        by_cases hx : x = a
        · subst hx
          rw [matchHere, if_pos rfl] at h
          obtain ⟨text, rest, rfl, hmatch⟩ := ih h
          exact ⟨x :: text, rest, rfl, .lit hmatch⟩
        · rw [matchHere, if_neg hx] at h
          cases h
    | group p =>
      obtain ⟨n, hn, hrest⟩ := List.exists_of_findSome?_eq_some h
      obtain ⟨hpos, hle⟩ := mem_lengthsDown.mp hn
      obtain ⟨groups', hgroups, rfl⟩ := Option.map_eq_some_iff.mp hrest
      obtain ⟨text, rest, hdrop, hmatch⟩ := ih hgroups
      have hrun : xs.takeWhile p <+: xs := List.takeWhile_prefix p
      have hlen : n ≤ xs.length := hle.trans hrun.length_le
      have hne : xs.take n ≠ [] := by
        apply List.ne_nil_of_length_pos
        rw [List.length_take]
        omega
      refine ⟨xs.take n ++ text, rest, ?_, .group hne (all_take_of_le hle) hmatch⟩
      rw [List.append_assoc, ← hdrop, List.take_append_drop]

theorem search_sound {items : List (PatternItem α)} {xs : List α} {groups : List (List α)}
    (h : search items xs = some groups) :
    ∃ before text rest, xs = before ++ text ++ rest ∧ Matches items text groups := by
  induction xs with
  | nil =>
    obtain ⟨text, rest, hxs, hmatch⟩ := matchHere_sound h
    exact ⟨[], text, rest, hxs, hmatch⟩
  | cons x xs ih =>
    rw [search] at h
    split at h
    case h_1 groups' hhere =>
      obtain rfl := Option.some.inj h
      obtain ⟨text, rest, hxs, hmatch⟩ := matchHere_sound hhere
      exact ⟨[], text, rest, hxs, hmatch⟩
    case h_2 =>
      obtain ⟨before, text, rest, rfl, hmatch⟩ := ih h
      exact ⟨x :: before, text, rest, rfl, hmatch⟩

/-! ## A match is found -/

theorem matchHere_complete {items : List (PatternItem α)} {text : List α}
    {groups : List (List α)} (h : Matches items text groups) (rest : List α) :
    (matchHere items (text ++ rest)).isSome := by
  induction h with
  | nil => rfl
  | lit hmatch ih =>
    rw [List.cons_append, matchHere, if_pos rfl]
    exact ih
  | @group p run items text groups hne hall hmatch ih =>
    rw [matchHere, List.findSome?_isSome_iff]
    -- the group may take as much as it takes in the match
    refine ⟨run.length, mem_lengthsDown.mpr ⟨List.length_pos_of_ne_nil hne, ?_⟩, ?_⟩
    · rw [List.append_assoc, List.takeWhile_append_of_pos hall, List.length_append]
      exact Nat.le_add_right _ _
    · rw [Option.isSome_map, List.append_assoc, List.drop_left]
      exact ih

theorem search_isSome_of_matchHere {items : List (PatternItem α)} {xs : List α}
    (h : (matchHere items xs).isSome) : (search items xs).isSome := by
  cases xs with
  | nil => exact h
  | cons x xs =>
    obtain ⟨groups, hgroups⟩ := Option.isSome_iff_exists.mp h
    rw [search, hgroups]
    rfl

/-- Something is found exactly when there is a match somewhere. -/
theorem search_isSome_iff {items : List (PatternItem α)} {xs : List α} :
    (search items xs).isSome ↔
      ∃ before text rest groups, xs = before ++ text ++ rest ∧ Matches items text groups := by
  constructor
  · intro h
    obtain ⟨groups, hgroups⟩ := Option.isSome_iff_exists.mp h
    obtain ⟨before, text, rest, hxs, hmatch⟩ := search_sound hgroups
    exact ⟨before, text, rest, groups, hxs, hmatch⟩
  · rintro ⟨before, text, rest, groups, rfl, hmatch⟩
    induction before with
    | nil => exact search_isSome_of_matchHere (matchHere_complete hmatch rest)
    | cons x before ih =>
      rw [List.cons_append, List.cons_append, search]
      split
      · rfl
      · exact ih

/-! ## The first match

A group that no shorter run of it could help takes its whole run. -/

theorem lengthsDown_succ (n : Nat) : lengthsDown (n + 1) = (n + 1) :: lengthsDown n := by
  simp [lengthsDown, List.range_succ]

/-- The longest length is tried first. -/
theorem findSome?_lengthsDown {β : Type*} {n : Nat} (hn : 0 < n) {f : Nat → Option β} {b : β}
    (h : f n = some b) : (lengthsDown n).findSome? f = some b := by
  obtain ⟨k, rfl⟩ : ∃ k, n = k + 1 := ⟨n - 1, by omega⟩
  rw [lengthsDown_succ, List.findSome?_cons, h]

omit [DecidableEq α] in
/-- A run with something else behind it is what is taken while its class lasts. -/
theorem takeWhile_run_append {p : α → Bool} {run rest : List α} (hrun : ∀ a ∈ run, p a = true)
    (hrest : ∀ a ∈ rest.head?, p a = false) : (run ++ rest).takeWhile p = run := by
  rw [List.takeWhile_append_of_pos hrun]
  cases rest with
  | nil => simp
  | cons a rest => simp [hrest a rfl]

theorem matchHere_word_append_iff {w xs : List α} {items : List (PatternItem α)}
    {groups : List (List α)} :
    matchHere (word w ++ items) xs = some groups ↔
      ∃ rest, xs = w ++ rest ∧ matchHere items rest = some groups := by
  induction w generalizing xs with
  | nil => simp [word]
  | cons a w ih =>
    have hstep : word (a :: w) ++ items = .lit a :: (word w ++ items) := rfl
    rw [hstep]
    cases xs with
    | nil => simp [matchHere]
    | cons x xs =>
      by_cases hx : x = a
      · subst hx
        rw [matchHere, if_pos rfl, ih]
        simp
      · rw [matchHere, if_neg hx]
        simp [hx]

/-- A group in front of an element outside its class takes what lies before that element. -/
theorem matchHere_group_lit_iff {p : α → Bool} {a : α} (ha : p a = false) {xs : List α}
    {items : List (PatternItem α)} {groups : List (List α)} :
    matchHere (.group p :: .lit a :: items) xs = some groups ↔
      ∃ run rest groups', groups = run :: groups' ∧ xs = run ++ a :: rest ∧ run ≠ [] ∧
        (∀ x ∈ run, p x = true) ∧ matchHere items rest = some groups' := by
  constructor
  · intro h
    obtain ⟨n, hn, hfound⟩ := List.exists_of_findSome?_eq_some h
    obtain ⟨hpos, hle⟩ := mem_lengthsDown.mp hn
    obtain ⟨groups', hrest, rfl⟩ := Option.map_eq_some_iff.mp hfound
    have hlen : n ≤ xs.length := hle.trans (List.takeWhile_prefix p).length_le
    -- behind what the group takes there is the element
    cases hdrop : xs.drop n with
    | nil =>
      rw [hdrop] at hrest
      cases hrest
    | cons x rest =>
      rw [hdrop, matchHere, Option.ite_none_right_eq_some] at hrest
      obtain ⟨rfl, hrest⟩ := hrest
      refine ⟨xs.take n, rest, groups', rfl, ?_, ?_, all_take_of_le hle, hrest⟩
      · rw [← hdrop, List.take_append_drop]
      · apply List.ne_nil_of_length_pos
        rw [List.length_take]
        omega
  · rintro ⟨run, rest, groups', rfl, rfl, hne, hrun, hrest⟩
    have htake : (run ++ a :: rest).takeWhile p = run := by
      apply takeWhile_run_append hrun
      simpa using ha
    rw [matchHere, htake]
    apply findSome?_lengthsDown (List.length_pos_of_ne_nil hne)
    rw [List.drop_left, List.take_left, matchHere, if_pos rfl, hrest]
    rfl

/-- A group at the end of a pattern takes all of its class. -/
theorem matchHere_group_iff {p : α → Bool} {xs : List α} {groups : List (List α)} :
    matchHere [.group p] xs = some groups ↔
      ∃ run rest, groups = [run] ∧ xs = run ++ rest ∧ run ≠ [] ∧ (∀ x ∈ run, p x = true) ∧
        ∀ a ∈ rest.head?, p a = false := by
  constructor
  · intro h
    have hrun : ∀ x ∈ xs.takeWhile p, p x = true := fun x hx => List.mem_takeWhile_imp hx
    have hne : xs.takeWhile p ≠ [] := by
      intro hnil
      rw [matchHere, hnil] at h
      cases h
    -- nothing is left to match, so the group keeps its whole run
    have hlong : matchHere [.group p] xs = some [xs.take (xs.takeWhile p).length] :=
      findSome?_lengthsDown (List.length_pos_of_ne_nil hne) rfl
    rw [h, ← List.prefix_iff_eq_take.mp (List.takeWhile_prefix p)] at hlong
    refine ⟨_, xs.dropWhile p, Option.some.inj hlong, List.takeWhile_append_dropWhile.symm, hne,
      hrun, ?_⟩
    intro a ha
    have hnot := List.head?_dropWhile_not p xs
    rw [ha] at hnot
    simpa using hnot
  · rintro ⟨run, rest, rfl, rfl, hne, hrun, hrest⟩
    rw [matchHere, takeWhile_run_append hrun hrest]
    apply findSome?_lengthsDown (List.length_pos_of_ne_nil hne)
    rw [List.take_left]
    rfl

/-- The search stops at the first place where there is a match. -/
theorem search_eq_some_iff {items : List (PatternItem α)} {xs : List α}
    {groups : List (List α)} :
    search items xs = some groups ↔
      ∃ before rest, xs = before ++ rest ∧ matchHere items rest = some groups ∧
        ∀ before' rest', xs = before' ++ rest' → before'.length < before.length →
          matchHere items rest' = none := by
  induction xs with
  | nil =>
    constructor
    · intro h
      exact ⟨[], [], rfl, h, fun before' rest' _ hlt => by cases hlt⟩
    · rintro ⟨before, rest, hxs, hmatch, -⟩
      obtain ⟨rfl, rfl⟩ := List.append_eq_nil_iff.mp hxs.symm
      exact hmatch
  | cons x xs ih =>
    rw [search]
    cases hhere : matchHere items (x :: xs) with
    | some groups' =>
      constructor
      · intro h
        refine ⟨[], x :: xs, rfl, hhere.trans h, fun before' rest' _ hlt => ?_⟩
        cases hlt
      · rintro ⟨before, rest, hxs, hmatch, hfirst⟩
        -- there is a match at the start, so nothing stands in front of the first one
        cases before with
        | nil =>
          obtain rfl : x :: xs = rest := hxs
          exact hhere.symm.trans hmatch
        | cons b before =>
          rw [hfirst [] (x :: xs) rfl (by simp)] at hhere
          cases hhere
    | none =>
      rw [ih]
      constructor
      · rintro ⟨before, rest, rfl, hmatch, hfirst⟩
        refine ⟨x :: before, rest, rfl, hmatch, fun before' rest' hxs hlt => ?_⟩
        cases before' with
        | nil =>
          obtain rfl : _ = rest' := hxs
          exact hhere
        | cons b before' =>
          obtain ⟨-, hxs'⟩ := List.cons.inj hxs
          exact hfirst before' rest' hxs' (by simpa using hlt)
      · rintro ⟨before, rest, hxs, hmatch, hfirst⟩
        cases before with
        | nil =>
          obtain rfl : _ = rest := hxs
          rw [hhere] at hmatch
          cases hmatch
        | cons b before =>
          obtain ⟨rfl, hxs'⟩ := List.cons.inj hxs
          refine ⟨before, rest, hxs', hmatch, fun before' rest' hxs'' hlt => ?_⟩
          refine hfirst (x :: before') rest' ?_ (by simpa using hlt)
          rw [hxs'', List.cons_append]

end Search

/-! ## Patterns that begin with a word -/

theorem matches_word_append {w : List α} {items : List (PatternItem α)} {text : List α}
    {groups : List (List α)} :
    Matches (word w ++ items) text groups ↔
      ∃ rest, text = w ++ rest ∧ Matches items rest groups := by
  induction w generalizing text with
  | nil => simp [word]
  | cons a w ih =>
    constructor
    · intro h
      cases h with
      | lit hmatch =>
        obtain ⟨rest, rfl, hrest⟩ := ih.mp hmatch
        exact ⟨rest, rfl, hrest⟩
    · rintro ⟨rest, rfl, hrest⟩
      exact .lit (ih.mpr ⟨rest, rfl, hrest⟩)

end PatternItem

end Doreto.Lib
