import Doreto.Lib.Ledger

/-!
# Code That Cleans Up

Code with blocks of the form `try … finally …` leaves a block by returning, by an exception, or not
at all when the process dies in it. On the first two ways the block is cleaned up, and the entries
that the code makes in the ledger tell whether it released what it acquired.

- `Exit`: the ways to leave a piece of code.
- `Guarded`: code with the entries that it makes and the way it is left.
- `Tidy`: on every way out the code has released what it acquired, has used only what was held, and
  has left alone what its callers hold.
- `Tidy.bracket`: a block with its cleanup is tidy when its body is.
-/

namespace Doreto.Lib

/-! ## Ways out -/

/-- How a piece of code is left. -/
inductive Exit (ε β : Type) where
  | returned (b : β)
  | threw (e : ε)
  /-- The process ends, and no cleanup is run. -/
  | died
  deriving DecidableEq, Repr

namespace Exit

variable {ε β γ : Type}

/-- What comes next is run after a return only. -/
def andThen (x : Exit ε β) (f : β → Exit ε γ) : Exit ε γ :=
  match x with
  | .returned b => f b
  | .threw e => .threw e
  | .died => .died

@[simp] theorem andThen_returned (b : β) (f : β → Exit ε γ) : (returned b).andThen f = f b := rfl

@[simp] theorem andThen_threw (e : ε) (f : β → Exit ε γ) :
    (threw e : Exit ε β).andThen f = threw e := rfl

@[simp] theorem andThen_died (f : β → Exit ε γ) : (died : Exit ε β).andThen f = died := rfl

theorem andThen_eq_threw_iff {x : Exit ε β} {f : β → Exit ε γ} {e : ε} :
    x.andThen f = threw e ↔ x = threw e ∨ ∃ b, x = returned b ∧ f b = threw e := by
  cases x <;> simp

end Exit

/-! ## Guarded code -/

/-- Code that makes entries in a ledger, with the way it is left. -/
structure Guarded (ε R β : Type) where
  ledger : List (LedgerEntry R)
  exit : Exit ε β

namespace Guarded

variable {ε R β γ : Type}

instance : Monad (Guarded ε R) where
  pure b := ⟨[], .returned b⟩
  bind m f :=
    match m.exit with
    | .returned b => ⟨m.ledger ++ (f b).ledger, (f b).exit⟩
    | .threw e => ⟨m.ledger, .threw e⟩
    | .died => ⟨m.ledger, .died⟩

/-- Throw an exception. -/
def throw (e : ε) : Guarded ε R β :=
  ⟨[], .threw e⟩

/-- End the process. -/
def die : Guarded ε R β :=
  ⟨[], .died⟩

/-- Acquire a resource. -/
def acquire (r : R) : Guarded ε R Unit :=
  ⟨[.acquire r], .returned ()⟩

/-- Use a resource. It is one that is held, and it stays held. -/
def use (r : R) : Guarded ε R Unit :=
  ⟨[.reuse r], .returned ()⟩

/-- Release a resource. -/
def release (r : R) : Guarded ε R Unit :=
  ⟨[.release r], .returned ()⟩

/-- `try body finally cleanup`. A cleanup that fails hides how the body was left. -/
def finallyDo (body : Guarded ε R β) (cleanup : Guarded ε R Unit) : Guarded ε R β :=
  match body.exit with
  | .died => body
  | left => ⟨body.ledger ++ cleanup.ledger, cleanup.exit.andThen fun _ => left⟩

@[simp] theorem exit_pure (b : β) : (pure b : Guarded ε R β).exit = .returned b := rfl

@[simp] theorem exit_acquire (r : R) : (acquire r : Guarded ε R Unit).exit = .returned () := rfl

@[simp] theorem exit_bind (m : Guarded ε R β) (f : β → Guarded ε R γ) :
    (m >>= f).exit = m.exit.andThen fun b => (f b).exit := by
  cases h : m.exit <;> simp [Bind.bind, h]

@[simp] theorem exit_ite (p : Prop) [Decidable p] (m m' : Guarded ε R β) :
    (if p then m else m').exit = if p then m.exit else m'.exit := by
  split <;> rfl

/-- A cleanup that returns does not change how the body is left. -/
theorem exit_finallyDo {body : Guarded ε R β} {cleanup : Guarded ε R Unit}
    (h : cleanup.exit = .returned ()) : (body.finallyDo cleanup).exit = body.exit := by
  cases hbody : body.exit <;> simp [finallyDo, hbody, h]

end Guarded

/-! ## Tidy code -/

section Tidy

variable {ε R β γ : Type} [DecidableEq R]

/-- The account of a variable, when the variables of the list hold a resource. -/
def heldAccount (held : List R) (r : R) : Account :=
  if r ∈ held then ⟨true, 0⟩ else .empty

/-- The entries are no fault, release what they acquire and leave held what is held. -/
def Keeps (held : List R) (es : List (LedgerEntry R)) : Prop :=
  ∀ r, exec (LedgerEntry.post r) (heldAccount held r) es = some (heldAccount held r)

/-- The code keeps what is held whenever it is left. -/
def Tidy (held : List R) (m : Guarded ε R β) : Prop :=
  m.exit ≠ .died → Keeps held m.ledger

theorem keeps_nil (held : List R) : Keeps held [] :=
  fun _ => rfl

theorem Keeps.append {held : List R} {es es' : List (LedgerEntry R)} (h : Keeps held es)
    (h' : Keeps held es') : Keeps held (es ++ es') := by
  intro r
  rw [exec_append, h r]
  exact h' r

/-- Entries that keep nothing held are balanced. -/
theorem Keeps.balanced {es : List (LedgerEntry R)} (h : Keeps [] es) : Balanced es := by
  intro r
  have hempty : heldAccount [] r = Account.empty := by simp [heldAccount]
  have hkeeps := h r
  rwa [hempty] at hkeeps

theorem keeps_reuse {held : List R} {r : R} (h : r ∈ held) :
    Keeps held [.reuse r] := by
  intro r'
  by_cases hr : r = r'
  · subst hr
    simp [exec, LedgerEntry.post, heldAccount, h]
  · simp [exec, LedgerEntry.post, hr]

/-- Between the entries that acquire and release a variable it is held. -/
theorem Keeps.bracket {held : List R} {r : R} {es : List (LedgerEntry R)} (hr : r ∉ held)
    (h : Keeps (r :: held) es) : Keeps held (.acquire r :: es ++ [.release r]) := by
  intro r'
  have hopen : (LedgerEntry.acquire r).post r' (heldAccount held r') =
      some (heldAccount (r :: held) r') := by
    by_cases heq : r = r'
    · subst heq
      simp [LedgerEntry.post, heldAccount, hr, Account.outstanding, Account.empty]
    · simp [LedgerEntry.post, heldAccount, heq, Ne.symm heq]
  have hclose : (LedgerEntry.release r).post r' (heldAccount (r :: held) r') =
      some (heldAccount held r') := by
    by_cases heq : r = r'
    · subst heq
      simp [LedgerEntry.post, heldAccount, hr, Account.empty]
    · simp [LedgerEntry.post, heldAccount, heq, Ne.symm heq]
  rw [List.cons_append, exec, hopen, Option.bind_some, exec_append, h r', Option.bind_some, exec,
    hclose]
  rfl

namespace Tidy

theorem pure (held : List R) (b : β) : Tidy held (Pure.pure b : Guarded ε R β) :=
  fun _ => keeps_nil held

theorem throw (held : List R) (e : ε) : Tidy held (Guarded.throw e : Guarded ε R β) :=
  fun _ => keeps_nil held

theorem die (held : List R) : Tidy held (Guarded.die : Guarded ε R β) :=
  fun h => absurd rfl h

theorem use {held : List R} {r : R} (h : r ∈ held) :
    Tidy held (Guarded.use r : Guarded ε R Unit) :=
  fun _ => keeps_reuse h

theorem bind {held : List R} {m : Guarded ε R β} {f : β → Guarded ε R γ} (hm : Tidy held m)
    (hf : ∀ b, Tidy held (f b)) : Tidy held (m >>= f) := by
  intro hexit
  show Keeps held (m >>= f).ledger
  cases h : m.exit with
  | returned b =>
    have hledger : (m >>= f).ledger = m.ledger ++ (f b).ledger := by
      simp [Bind.bind, h]
    have hne : (f b).exit ≠ .died := by simpa [h] using hexit
    have hmne : m.exit ≠ .died := by simp [h]
    rw [hledger]
    exact (hm hmne).append (hf b hne)
  | threw e =>
    have hledger : (m >>= f).ledger = m.ledger := by simp [Bind.bind, h]
    have hmne : m.exit ≠ .died := by simp [h]
    rw [hledger]
    exact hm hmne
  | died => exact absurd (by simp [h]) hexit

theorem ite {held : List R} {p : Prop} [Decidable p] {m m' : Guarded ε R β} (hm : Tidy held m)
    (hm' : Tidy held m') : Tidy held (if p then m else m') := by
  split
  · exact hm
  · exact hm'

/-- A block that acquires a variable first and releases it in its cleanup is tidy when its body is,
which runs with the variable held. -/
theorem bracket {held : List R} {r : R} {body : Guarded ε R β} (hr : r ∉ held)
    (hbody : Tidy (r :: held) body) :
    Tidy held (Guarded.acquire r >>= fun _ => body.finallyDo (Guarded.release r)) := by
  intro hexit
  have hrelease : (Guarded.release r : Guarded ε R Unit).exit = .returned () := rfl
  have hleft : body.exit ≠ .died := by
    simpa [Guarded.exit_finallyDo hrelease] using hexit
  have hledger : (Guarded.acquire r >>= fun _ => body.finallyDo (Guarded.release r)).ledger =
      .acquire r :: body.ledger ++ [.release r] := by
    cases h : body.exit with
    | returned b => simp [Bind.bind, Guarded.acquire, Guarded.release, Guarded.finallyDo, h]
    | threw e => simp [Bind.bind, Guarded.acquire, Guarded.release, Guarded.finallyDo, h]
    | died => exact absurd h hleft
  rw [hledger]
  exact (hbody hleft).bracket hr

end Tidy

end Tidy

end Doreto.Lib
