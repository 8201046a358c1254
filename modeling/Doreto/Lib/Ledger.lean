import Doreto.Lib.Run

/-!
# A Ledger of Resources

A program keeps each of its resources in a variable. Acquiring overwrites the variable, and what it
held before is lost unless it was released. Releasing or reusing a resource that is not held is a
fault.

- `LedgerEntry.post`: what an entry does to the account of one variable.
- `Sound`: no entry is a fault.
- `Balanced`: no entry is a fault, nothing is lost and nothing is held in the end.
- `balanced_append`, `balanced_flatMap_iff`: parts that are sound on their own are balanced together
  exactly when each of them is.
- `balanced_bracket_iff`: a part between an opening and its closing, about other variables.
-/

namespace Doreto.Lib

variable {R : Type*} [DecidableEq R]

/-! ## Accounts -/

/-- An entry of the ledger, about the variable `r`. -/
inductive LedgerEntry (R : Type*) where
  | acquire (r : R)
  /-- The resource is replaced by another one of its kind. -/
  | reuse (r : R)
  | release (r : R)
  deriving DecidableEq, Repr

/-- The variable that the entry is about. -/
def LedgerEntry.resource : LedgerEntry R → R
  | .acquire r => r
  | .reuse r => r
  | .release r => r

/-- The account of one variable. -/
structure Account where
  /-- The variable holds a resource. -/
  held : Bool
  /-- The resources that were overwritten while they were held. -/
  lost : Nat
  deriving DecidableEq, Repr

/-- The account at the start. -/
def Account.empty : Account := ⟨false, 0⟩

/-- The resources that are not released. -/
def Account.outstanding (acc : Account) : Nat :=
  acc.lost + if acc.held then 1 else 0

/-- Post an entry to the account of `r`. A fault has no result. -/
def LedgerEntry.post (r : R) (acc : Account) : LedgerEntry R → Option Account
  | .acquire r' => if r' = r then some ⟨true, acc.outstanding⟩ else some acc
  | .reuse r' => if r' = r then (if acc.held then some acc else none) else some acc
  | .release r' =>
      if r' = r then (if acc.held then some { acc with held := false } else none) else some acc

/-- The entries hold no fault. -/
def Sound (es : List (LedgerEntry R)) : Prop :=
  ∀ r, ∃ acc, exec (LedgerEntry.post r) .empty es = some acc

/-- Everything that is acquired is released, and released once. -/
def Balanced (es : List (LedgerEntry R)) : Prop :=
  ∀ r, exec (LedgerEntry.post r) .empty es = some .empty

theorem Balanced.sound {es : List (LedgerEntry R)} (h : Balanced es) : Sound es :=
  fun r => ⟨_, h r⟩

theorem outstanding_eq_zero_iff {acc : Account} : acc.outstanding = 0 ↔ acc = .empty := by
  obtain ⟨held, lost⟩ := acc
  cases held <;> simp [Account.outstanding, Account.empty]

/-! ## Parts of a ledger -/

/-- Two accounts of which the second holds what the first one holds, and `k` resources more. -/
structure Account.Exceeds (k : Nat) (acc acc' : Account) : Prop where
  held : acc.held = true → acc'.held = true
  outstanding : acc'.outstanding = k + acc.outstanding

/-- An entry that is no fault for the first account is none for the second. -/
theorem post_exceeds {r : R} {k : Nat} {e : LedgerEntry R} {acc acc' posted : Account}
    (h : acc.Exceeds k acc') (hpost : e.post r acc = some posted) :
    ∃ posted', e.post r acc' = some posted' ∧ posted.Exceeds k posted' := by
  cases e with
  | acquire r' =>
    by_cases hr : r' = r
    · simp only [LedgerEntry.post, if_pos hr] at hpost ⊢
      obtain rfl := Option.some.inj hpost
      refine ⟨_, rfl, fun _ => rfl, ?_⟩
      simp only [Account.outstanding, if_true] at h ⊢
      have hout := h.outstanding
      simp only [Account.outstanding] at hout
      omega
    · simp only [LedgerEntry.post, if_neg hr] at hpost ⊢
      exact ⟨_, rfl, Option.some.inj hpost ▸ h⟩
  | reuse r' =>
    by_cases hr : r' = r
    · simp only [LedgerEntry.post, if_pos hr] at hpost ⊢
      cases hheld : acc.held with
      | false => simp [hheld] at hpost
      | true =>
        rw [if_pos hheld] at hpost
        rw [if_pos (h.held hheld)]
        exact ⟨_, rfl, Option.some.inj hpost ▸ h⟩
    · simp only [LedgerEntry.post, if_neg hr] at hpost ⊢
      exact ⟨_, rfl, Option.some.inj hpost ▸ h⟩
  | release r' =>
    by_cases hr : r' = r
    · simp only [LedgerEntry.post, if_pos hr] at hpost ⊢
      cases hheld : acc.held with
      | false => simp [hheld] at hpost
      | true =>
        have hheld' := h.held hheld
        rw [if_pos hheld] at hpost
        obtain rfl := Option.some.inj hpost
        rw [if_pos hheld']
        -- both accounts go down by one
        have hout := h.outstanding
        refine ⟨_, rfl, (fun hfalse => by cases hfalse), ?_⟩
        simp only [Account.outstanding, hheld, hheld', if_true] at hout ⊢
        simp only [Bool.false_eq_true, if_false]
        omega
    · simp only [LedgerEntry.post, if_neg hr] at hpost ⊢
      exact ⟨_, rfl, Option.some.inj hpost ▸ h⟩

theorem exec_post_exceeds {r : R} {k : Nat} {es : List (LedgerEntry R)} {acc acc' final : Account}
    (h : acc.Exceeds k acc') (hexec : exec (LedgerEntry.post r) acc es = some final) :
    ∃ final', exec (LedgerEntry.post r) acc' es = some final' ∧ final.Exceeds k final' := by
  induction es generalizing acc acc' with
  | nil => exact ⟨acc', rfl, Option.some.inj hexec ▸ h⟩
  | cons e es ih =>
    obtain ⟨posted, hpost, hrest⟩ := Option.bind_eq_some_iff.mp hexec
    obtain ⟨posted', hpost', hexceeds⟩ := post_exceeds h hpost
    obtain ⟨final', hfinal, hexceeds'⟩ := ih hexceeds hrest
    refine ⟨final', ?_, hexceeds'⟩
    rw [exec, hpost']
    exact hfinal

/-- Entries that are sound on their own add what they leave outstanding to any account. -/
theorem exec_post_outstanding {r : R} {es : List (LedgerEntry R)} {acc : Account}
    (h : exec (LedgerEntry.post r) .empty es = some acc) (start : Account) :
    ∃ final, exec (LedgerEntry.post r) start es = some final ∧
      final.outstanding = start.outstanding + acc.outstanding := by
  have hstart : Account.empty.Exceeds start.outstanding start := by
    refine ⟨(fun hfalse => by cases hfalse), ?_⟩
    simp [Account.empty, Account.outstanding]
  obtain ⟨final, hfinal, hexceeds⟩ := exec_post_exceeds hstart h
  exact ⟨final, hfinal, hexceeds.outstanding⟩

theorem sound_append {xs ys : List (LedgerEntry R)} (hxs : Sound xs) (hys : Sound ys) :
    Sound (xs ++ ys) := by
  intro r
  obtain ⟨acc, hacc⟩ := hxs r
  obtain ⟨acc', hacc'⟩ := hys r
  obtain ⟨final, hfinal, -⟩ := exec_post_outstanding hacc' acc
  refine ⟨final, ?_⟩
  rw [exec_append, hacc]
  exact hfinal

/-- Two sound parts are balanced together when both are. -/
theorem balanced_append {xs ys : List (LedgerEntry R)} (hxs : Sound xs) (hys : Sound ys) :
    Balanced (xs ++ ys) ↔ Balanced xs ∧ Balanced ys := by
  have hone : ∀ r, exec (LedgerEntry.post r) .empty (xs ++ ys) = some .empty ↔
      exec (LedgerEntry.post r) .empty xs = some .empty ∧
        exec (LedgerEntry.post r) .empty ys = some .empty := by
    intro r
    obtain ⟨acc, hacc⟩ := hxs r
    obtain ⟨acc', hacc'⟩ := hys r
    obtain ⟨final, hfinal, hout⟩ := exec_post_outstanding hacc' acc
    have hexec : exec (LedgerEntry.post r) .empty (xs ++ ys) = some final := by
      rw [exec_append, hacc]
      exact hfinal
    -- nothing is outstanding in the end when nothing is outstanding behind either part
    rw [hexec, hacc, hacc', Option.some_inj, Option.some_inj, Option.some_inj,
      ← outstanding_eq_zero_iff, ← outstanding_eq_zero_iff, ← outstanding_eq_zero_iff, hout]
    omega
  constructor
  · intro h
    exact ⟨fun r => ((hone r).mp (h r)).1, fun r => ((hone r).mp (h r)).2⟩
  · intro ⟨h, h'⟩ r
    exact (hone r).mpr ⟨h r, h' r⟩

theorem balanced_nil : Balanced ([] : List (LedgerEntry R)) :=
  fun _ => rfl

theorem sound_flatMap {β : Type*} {f : β → List (LedgerEntry R)} {xs : List β}
    (hsound : ∀ x ∈ xs, Sound (f x)) : Sound (xs.flatMap f) := by
  induction xs with
  | nil => exact balanced_nil.sound
  | cons x xs ih =>
    rw [List.forall_mem_cons] at hsound
    exact sound_append hsound.1 (ih hsound.2)

/-- Any number of sound parts are balanced together when each of them is. -/
theorem balanced_flatMap_iff {β : Type*} {f : β → List (LedgerEntry R)} {xs : List β}
    (hsound : ∀ x ∈ xs, Sound (f x)) : Balanced (xs.flatMap f) ↔ ∀ x ∈ xs, Balanced (f x) := by
  induction xs with
  | nil => exact iff_of_true balanced_nil (by simp)
  | cons x xs ih =>
    rw [List.forall_mem_cons] at hsound
    rw [List.flatMap_cons, balanced_append hsound.1 (sound_flatMap hsound.2), ih hsound.2,
      List.forall_mem_cons]

/-! ## Opening and closing -/

/-- Entries about other variables leave an account alone. -/
theorem exec_post_of_untouched {r : R} {es : List (LedgerEntry R)}
    (h : ∀ e ∈ es, e.resource ≠ r) (acc : Account) :
    exec (LedgerEntry.post r) acc es = some acc := by
  induction es with
  | nil => rfl
  | cons e es ih =>
    rw [List.forall_mem_cons] at h
    have hpost : e.post r acc = some acc := by
      cases e <;> exact if_neg h.1
    rw [exec, hpost]
    exact ih h.2

/-- A resource that is held can be reused any number of times. -/
theorem exec_post_replicate_reuse {r : R} {acc : Account} (h : acc.held = true) (n : Nat) :
    exec (LedgerEntry.post r) acc (List.replicate n (.reuse r)) = some acc := by
  induction n with
  | zero => rfl
  | succ n ih =>
    have hpost : (LedgerEntry.reuse r).post r acc = some acc := by
      simp [LedgerEntry.post, h]
    rw [List.replicate_succ, exec, hpost]
    exact ih

/-- A sound part between an opening and its closing, about other variables, decides over the
balance. -/
theorem balanced_bracket_iff {opening body closing : List (LedgerEntry R)}
    (hother : ∀ e ∈ opening ++ closing, ∀ e' ∈ body, e.resource ≠ e'.resource)
    (hbracket : Balanced (opening ++ closing)) (hbody : Sound body) :
    Sound (opening ++ body ++ closing) ∧
      (Balanced (opening ++ body ++ closing) ↔ Balanced body) := by
  -- each variable belongs to the part or to what is around it
  have hone : ∀ r, ∃ acc, exec (LedgerEntry.post r) .empty (opening ++ body ++ closing) = some acc ∧
      exec (LedgerEntry.post r) .empty body = some acc := by
    intro r
    by_cases hr : ∃ e ∈ body, e.resource = r
    · obtain ⟨e', he', rfl⟩ := hr
      have haround : ∀ es, (∀ e ∈ es, e ∈ opening ++ closing) → ∀ acc,
          exec (LedgerEntry.post e'.resource) acc es = some acc := fun es hes acc =>
        exec_post_of_untouched (fun e he => hother e (hes e he) e' he') acc
      obtain ⟨acc, hacc⟩ := hbody e'.resource
      refine ⟨acc, ?_, hacc⟩
      rw [exec_append, exec_append, haround opening (by simp +contextual), Option.bind_some, hacc,
        Option.bind_some, haround closing (by simp +contextual)]
    · have huntouched : ∀ acc, exec (LedgerEntry.post r) acc body = some acc :=
        exec_post_of_untouched fun e he heq => hr ⟨e, he, heq⟩
      refine ⟨.empty, ?_, huntouched .empty⟩
      have hboth := hbracket r
      rw [exec_append] at hboth
      rw [exec_append, exec_append, Option.bind_assoc]
      simpa [huntouched] using hboth
  constructor
  · intro r
    obtain ⟨acc, hacc, -⟩ := hone r
    exact ⟨acc, hacc⟩
  · constructor
    · intro h r
      obtain ⟨acc, hacc, hacc'⟩ := hone r
      rw [hacc', ← hacc]
      exact h r
    · intro h r
      obtain ⟨acc, hacc, hacc'⟩ := hone r
      rw [hacc, ← hacc']
      exact h r

end Doreto.Lib
