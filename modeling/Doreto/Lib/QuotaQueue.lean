import Mathlib.Data.List.Basic

/-!
# A Message Queue with a Quota

A queue of messages holds a limited number of elements. A message for which there is no room is not
taken, not even in part, and nobody waits.

- `QuotaQueue`: a queue within its quota.
- `push`, `accepted`: a message is offered, and how much of it is taken.
- `take`, `drop`: the reader takes messages from the front.
-/

namespace Doreto.Lib

/-- A queue of messages that holds at most `quota` elements. -/
structure QuotaQueue (α : Type*) (quota : Nat) where
  messages : List (List α)
  fits : messages.flatten.length ≤ quota
  deriving DecidableEq, Repr

namespace QuotaQueue

variable {α : Type*} {quota : Nat}

def empty : QuotaQueue α quota :=
  ⟨[], Nat.zero_le _⟩

/-- The elements that have not been read. -/
def unread (q : QuotaQueue α quota) : Nat :=
  q.messages.flatten.length

/-- There is room for the message. -/
def HasRoom (m : List α) (q : QuotaQueue α quota) : Prop :=
  q.unread + m.length ≤ quota

instance (m : List α) (q : QuotaQueue α quota) : Decidable (q.HasRoom m) :=
  inferInstanceAs (Decidable (_ ≤ _))

theorem fits_append {m : List α} {q : QuotaQueue α quota} (h : q.HasRoom m) :
    (q.messages ++ [m]).flatten.length ≤ quota := by
  rw [List.flatten_append, List.length_append, List.flatten_singleton]
  exact h

/-- Offer a message. Without room for it the queue stays as it is. -/
def push (m : List α) (q : QuotaQueue α quota) : QuotaQueue α quota :=
  if h : q.HasRoom m then ⟨q.messages ++ [m], fits_append h⟩ else q

/-- The number of elements that are taken. -/
def accepted (m : List α) (q : QuotaQueue α quota) : Nat :=
  if q.HasRoom m then m.length else 0

theorem messages_push_of_hasRoom {m : List α} {q : QuotaQueue α quota} (h : q.HasRoom m) :
    (q.push m).messages = q.messages ++ [m] := by
  rw [push, dif_pos h]

theorem push_of_not_hasRoom {m : List α} {q : QuotaQueue α quota} (h : ¬ q.HasRoom m) :
    q.push m = q :=
  dif_neg h

theorem fits_drop (n : Nat) (q : QuotaQueue α quota) :
    (q.messages.drop n).flatten.length ≤ quota := by
  have hsplit : (q.messages.take n).flatten ++ (q.messages.drop n).flatten =
      q.messages.flatten := by
    rw [← List.flatten_append, List.take_append_drop]
  have hlength := congrArg List.length hsplit
  have hfits := q.fits
  rw [List.length_append] at hlength
  omega

/-- The first `n` messages. -/
def take (n : Nat) (q : QuotaQueue α quota) : List (List α) :=
  q.messages.take n

/-- The queue behind the first `n` messages. -/
def drop (n : Nat) (q : QuotaQueue α quota) : QuotaQueue α quota :=
  ⟨q.messages.drop n, fits_drop n q⟩

theorem take_append_drop (n : Nat) (q : QuotaQueue α quota) :
    q.take n ++ (q.drop n).messages = q.messages :=
  List.take_append_drop n q.messages

theorem take_succ (n : Nat) (q : QuotaQueue α quota) :
    q.take (n + 1) = q.take 1 ++ (q.drop 1).take n := by
  show q.messages.take (n + 1) = q.messages.take 1 ++ (q.messages.drop 1).take n
  rw [Nat.add_comm, List.take_add]

theorem drop_drop (m n : Nat) (q : QuotaQueue α quota) :
    (q.drop m).drop n = q.drop (m + n) := by
  simp only [drop, List.drop_drop]

/-- What is taken when nothing is left is everything. -/
theorem take_of_drained {n : Nat} {q : QuotaQueue α quota} (h : (q.drop n).messages = []) :
    q.take n = q.messages := by
  have hall := take_append_drop n q
  rwa [h, List.append_nil] at hall

/-- A reader that takes as many messages as there are leaves nothing. -/
theorem drop_length (q : QuotaQueue α quota) : (q.drop q.messages.length).messages = [] :=
  List.drop_length

end QuotaQueue

end Doreto.Lib
