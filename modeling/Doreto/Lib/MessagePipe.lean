import Mathlib.Data.List.Basic

/-!
# A Non-Blocking Message Pipe

One instance of a message pipe. The server owns the instance and one client at a time joins it.
No call waits: a call on the server's end that cannot do its work fails and says why.

A read takes from the front message what fits into its buffer. What does not fit stays in the pipe
as the rest of that message.

- `MessagePipe`: the states of an instance.
- `connect`, `read`, `disconnect`: the server's calls.
- `join`, `write`, `close`: the client's calls.
- `Joined`: a client has joined since the instance was created or last disconnected.
- `Each`: what holds of every message in the pipe. `AllWhole` is a case: none is partly read.
- `pending`: the messages in the pipe as they were written.
-/

namespace Doreto.Lib

/-- A message in a pipe: as the client wrote it, and what of it has not been read. -/
structure Message (α : Type*) where
  whole : List α
  unread : List α
  deriving DecidableEq, Repr

/-- A message that has just been written. -/
def Message.written {α : Type*} (bytes : List α) : Message α :=
  ⟨bytes, bytes⟩

/-- The states of an instance. -/
inductive MessagePipe (α : Type*) where
  /-- A client may join. -/
  | listening
  /-- A client is there and the messages are on their way. -/
  | connected (queue : List (Message α))
  /-- The client has closed its end and left messages behind. -/
  | closing (queue : List (Message α))
  /-- The server has cut the client off. -/
  | disconnected
  deriving DecidableEq, Repr

/-- Why a call on the server's end fails. -/
inductive PipeFailure where
  /-- No client has joined yet. -/
  | listening
  /-- A client is there already. -/
  | connected
  /-- There is nothing to read, or the client has closed its end. -/
  | noData
  /-- The client has closed its end and everything has been read. -/
  | broken
  | disconnected
  deriving DecidableEq, Repr

/-- What a read gives. -/
inductive ReadResult (α : Type*) where
  /-- All that was left of a message. -/
  | message (m : Message α)
  /-- The buffer is full and the message goes on. -/
  | part (bytes : List α)
  | failed (why : PipeFailure)
  deriving DecidableEq, Repr

/-- The blocks that a read stores in its buffer. -/
def ReadResult.stored {α : Type*} : ReadResult α → List (List α)
  | .message m => [m.unread]
  | .part bytes => [bytes]
  | .failed _ => []

namespace MessagePipe

variable {α : Type*}

/-- The messages in the pipe. -/
def queue : MessagePipe α → List (Message α)
  | .connected q => q
  | .closing q => q
  | _ => []

/-! ## Calls of the server -/

/-- Wait for a client. The call succeeds on a disconnected instance only, and without a client. -/
def connect : MessagePipe α → Except PipeFailure Unit × MessagePipe α
  -- success means that the instance can be joined again
  | .disconnected => (.ok (), .listening)
  | .listening => (.error .listening, .listening)
  | .connected q => (.error .connected, .connected q)
  -- the client that was here is gone and has not been cut off
  | .closing q => (.error .noData, .closing q)

/-- Take what fits into a buffer of size `n` from the front of the queue. -/
def readQueue (n : Nat) (empty : PipeFailure) :
    List (Message α) → ReadResult α × List (Message α)
  | [] => (.failed empty, [])
  | m :: q =>
      -- what does not fit stays in front
      if m.unread.length ≤ n then (.message m, q)
      else (.part (m.unread.take n), ⟨m.whole, m.unread.drop n⟩ :: q)

def read (n : Nat) : MessagePipe α → ReadResult α × MessagePipe α
  | .listening => (.failed .listening, .listening)
  | .disconnected => (.failed .disconnected, .disconnected)
  | .connected q => ((readQueue n .noData q).1, .connected (readQueue n .noData q).2)
  | .closing q => ((readQueue n .broken q).1, .closing (readQueue n .broken q).2)

/-! ## Calls of the client

A call that the state does not allow fails and changes nothing. -/

def join : MessagePipe α → MessagePipe α
  | .listening => .connected []
  | p => p

def write (bytes : List α) : MessagePipe α → MessagePipe α
  | .connected q => .connected (q ++ [.written bytes])
  | p => p

def close : MessagePipe α → MessagePipe α
  | .connected q => .closing q
  | p => p

/-! ## Joined instances -/

/-- A client has joined since the instance was created or last disconnected. -/
def Joined : MessagePipe α → Prop
  | .connected _ => True
  | .closing _ => True
  | _ => False

instance (p : MessagePipe α) : Decidable p.Joined :=
  match p with
  | .listening => inferInstanceAs (Decidable False)
  | .connected _ => inferInstanceAs (Decidable True)
  | .closing _ => inferInstanceAs (Decidable True)
  | .disconnected => inferInstanceAs (Decidable False)

theorem Joined.join {p : MessagePipe α} (h : p.Joined) : p.join.Joined := by
  cases p with
  | listening => trivial
  | _ => exact h

theorem Joined.write {p : MessagePipe α} (h : p.Joined) (bytes : List α) :
    (p.write bytes).Joined := by
  cases p <;> exact h

theorem Joined.close {p : MessagePipe α} (h : p.Joined) : p.close.Joined := by
  cases p <;> exact h

theorem Joined.read {p : MessagePipe α} (h : p.Joined) (n : Nat) : (p.read n).2.Joined := by
  cases p <;> exact h

/-! ## What holds of every message -/

/-- Every message in the pipe has the property. -/
def Each (P : Message α → Prop) (p : MessagePipe α) : Prop :=
  ∀ m ∈ p.queue, P m

section Each

variable {P : Message α → Prop} {p : MessagePipe α} {n : Nat}

theorem Each.of_queue_nil (h : p.queue = []) : p.Each P := by
  intro m hm
  rw [h] at hm
  cases hm

theorem Each.join (h : p.Each P) : p.join.Each P := by
  cases p with
  | listening => exact .of_queue_nil rfl
  | _ => exact h

theorem Each.write (h : p.Each P) {bytes : List α} (hnew : P (.written bytes)) :
    (p.write bytes).Each P := by
  cases p with
  | connected q =>
    intro m hm
    rcases List.mem_append.mp hm with hq | hlast
    · exact h m hq
    · rw [List.mem_singleton.mp hlast]
      exact hnew
  | _ => exact h

theorem Each.close (h : p.Each P) : p.close.Each P := by
  cases p <;> exact h

/-- A read gives a message that was in the pipe, and what it leaves of a longer message is the only
new one. -/
theorem Each.read (h : p.Each P)
    (hrest : ∀ m, P m → n < m.unread.length → P ⟨m.whole, m.unread.drop n⟩) :
    (∀ m, (p.read n).1 = .message m → P m) ∧ (p.read n).2.Each P := by
  have hqueue : ∀ (empty : PipeFailure) (q : List (Message α)), (∀ m ∈ q, P m) →
      (∀ m, (readQueue n empty q).1 = .message m → P m) ∧
        ∀ m ∈ (readQueue n empty q).2, P m := by
    intro empty q hq
    cases q with
    | nil => simp [readQueue]
    | cons front q =>
      rw [List.forall_mem_cons] at hq
      by_cases hfits : front.unread.length ≤ n
      · have hread : readQueue n empty (front :: q) = (.message front, q) := if_pos hfits
        rw [hread]
        refine ⟨fun m hm => ?_, hq.2⟩
        obtain rfl := ReadResult.message.inj hm
        exact hq.1
      · have hread : readQueue n empty (front :: q) =
            (.part (front.unread.take n), ⟨front.whole, front.unread.drop n⟩ :: q) := if_neg hfits
        rw [hread]
        refine ⟨fun m hm => ?_, List.forall_mem_cons.mpr ⟨?_, hq.2⟩⟩
        · cases hm
        · exact hrest front hq.1 (by omega)
  cases p with
  | listening => exact ⟨by simp [MessagePipe.read], h⟩
  | connected q => exact hqueue .noData q h
  | closing q => exact hqueue .broken q h
  | disconnected => exact ⟨by simp [MessagePipe.read], h⟩

end Each

/-- No message in the pipe is partly read. -/
def AllWhole (p : MessagePipe α) : Prop :=
  ∀ m ∈ p.queue, m.unread = m.whole

/-- What is left of the front message fits into a buffer of size `n`. -/
def FrontFits (n : Nat) (p : MessagePipe α) : Prop :=
  ∀ m ∈ p.queue.head?, m.unread.length ≤ n

instance [DecidableEq α] (p : MessagePipe α) : Decidable p.AllWhole :=
  inferInstanceAs (Decidable (∀ m ∈ p.queue, m.unread = m.whole))

instance (n : Nat) (p : MessagePipe α) : Decidable (p.FrontFits n) :=
  inferInstanceAs (Decidable (∀ m ∈ p.queue.head?, m.unread.length ≤ n))

theorem allWhole_listening : (listening : MessagePipe α).AllWhole := by
  simp [AllWhole, queue]

theorem allWhole_disconnected : (disconnected : MessagePipe α).AllWhole := by
  simp [AllWhole, queue]

theorem AllWhole.join {p : MessagePipe α} (h : p.AllWhole) : p.join.AllWhole :=
  Each.join h

theorem AllWhole.write {p : MessagePipe α} (h : p.AllWhole) (bytes : List α) :
    (p.write bytes).AllWhole :=
  Each.write h rfl

theorem AllWhole.close {p : MessagePipe α} (h : p.AllWhole) : p.close.AllWhole :=
  Each.close h

/-- A message that is read at once is read as the client wrote it, and a pipe whose front message
fits is left without partly read messages. -/
theorem readQueue_of_whole {n : Nat} {empty : PipeFailure} {q : List (Message α)}
    (h : ∀ m ∈ q, m.unread = m.whole) (hfits : ∀ m ∈ q.head?, m.unread.length ≤ n) :
    (∀ m, (readQueue n empty q).1 = .message m → m.unread = m.whole) ∧
      ∀ m ∈ (readQueue n empty q).2, m.unread = m.whole := by
  cases q with
  | nil => simp [readQueue]
  | cons front q =>
    have hfront : front.unread.length ≤ n := hfits front (by simp)
    have hread : readQueue n empty (front :: q) = (.message front, q) := if_pos hfront
    rw [List.forall_mem_cons] at h
    rw [hread]
    refine ⟨fun m hm => ?_, h.2⟩
    obtain rfl := ReadResult.message.inj hm
    exact h.1

theorem AllWhole.read {p : MessagePipe α} {n : Nat} (h : p.AllWhole) (hfits : p.FrontFits n) :
    (∀ m, (p.read n).1 = .message m → m.unread = m.whole) ∧ (p.read n).2.AllWhole := by
  cases p with
  | listening => exact ⟨by simp [MessagePipe.read], h⟩
  | connected q => exact readQueue_of_whole h hfits
  | closing q => exact readQueue_of_whole h hfits
  | disconnected => exact ⟨by simp [MessagePipe.read], h⟩

theorem read_of_front_fits {p : MessagePipe α} {n : Nat} {m : Message α}
    (hfront : p.queue.head? = some m) (hfits : m.unread.length ≤ n) :
    (p.read n).1 = .message m := by
  have hread : ∀ empty rest, readQueue n empty (m :: rest) = (.message m, rest) :=
    fun empty rest => if_pos hfits
  cases p with
  | connected q =>
    obtain ⟨rest, rfl⟩ := List.head?_eq_some_iff.mp hfront
    simp [MessagePipe.read, hread]
  | closing q =>
    obtain ⟨rest, rfl⟩ := List.head?_eq_some_iff.mp hfront
    simp [MessagePipe.read, hread]
  | _ => cases hfront

/-- A read of a message that does not fit leaves the rest of it in front. -/
theorem read_of_front_long {p : MessagePipe α} {n : Nat} {m : Message α}
    (hfront : p.queue.head? = some m) (hlong : n < m.unread.length) :
    (p.read n).1 = .part (m.unread.take n) ∧
      (p.read n).2.queue.head? = some ⟨m.whole, m.unread.drop n⟩ := by
  have hread : ∀ empty rest, readQueue n empty (m :: rest) =
      (.part (m.unread.take n), ⟨m.whole, m.unread.drop n⟩ :: rest) :=
    fun empty rest => if_neg (by omega)
  cases p with
  | connected q =>
    obtain ⟨rest, rfl⟩ := List.head?_eq_some_iff.mp hfront
    simp [MessagePipe.read, hread, queue]
  | closing q =>
    obtain ⟨rest, rfl⟩ := List.head?_eq_some_iff.mp hfront
    simp [MessagePipe.read, hread, queue]
  | _ => cases hfront

theorem stored_readQueue (n : Nat) (empty : PipeFailure) (q : List (Message α)) :
    ∀ block ∈ (readQueue n empty q).1.stored, block.length ≤ n := by
  intro block hblock
  cases q with
  | nil => cases hblock
  | cons m q =>
    by_cases hfits : m.unread.length ≤ n
    · rw [readQueue, if_pos hfits] at hblock
      rwa [List.mem_singleton.mp hblock]
    · rw [readQueue, if_neg hfits] at hblock
      rw [List.mem_singleton.mp hblock]
      exact List.length_take_le n _

/-- A read stores no more than its buffer holds. -/
theorem stored_read (n : Nat) (p : MessagePipe α) :
    ∀ block ∈ (p.read n).1.stored, block.length ≤ n := by
  cases p with
  | connected q => exact stored_readQueue n .noData q
  | closing q => exact stored_readQueue n .broken q
  | _ => exact fun block hblock => by cases hblock

/-! ## The messages on their way -/

/-- The messages in the pipe as the client wrote them, those partly read among them. -/
def pending (p : MessagePipe α) : List (List α) :=
  p.queue.map Message.whole

theorem pending_join (p : MessagePipe α) : p.join.pending = p.pending := by
  cases p <;> rfl

theorem pending_close (p : MessagePipe α) : p.close.pending = p.pending := by
  cases p <;> rfl

theorem pending_write_connected (q : List (Message α)) (bytes : List α) :
    ((connected q).write bytes).pending = (connected q).pending ++ [bytes] := by
  simp [MessagePipe.write, pending, queue, Message.written]

/-- Only a read that comes to the end of a message takes it out of the pipe. -/
theorem pending_readQueue (n : Nat) (empty : PipeFailure) (q : List (Message α)) :
    (∀ m, (readQueue n empty q).1 = .message m →
        q.map Message.whole = m.whole :: (readQueue n empty q).2.map Message.whole) ∧
      ((∀ m, (readQueue n empty q).1 ≠ .message m) →
        (readQueue n empty q).2.map Message.whole = q.map Message.whole) := by
  cases q with
  | nil => simp [readQueue]
  | cons front q =>
    by_cases hfits : front.unread.length ≤ n
    · have hread : readQueue n empty (front :: q) = (.message front, q) := if_pos hfits
      rw [hread]
      refine ⟨fun m hm => ?_, fun hne => absurd rfl (hne front)⟩
      obtain rfl := ReadResult.message.inj hm
      rfl
    · have hread : readQueue n empty (front :: q) =
          (.part (front.unread.take n), ⟨front.whole, front.unread.drop n⟩ :: q) := if_neg hfits
      rw [hread]
      refine ⟨fun m hm => ?_, fun _ => rfl⟩
      cases hm

theorem pending_read_message {p : MessagePipe α} {n : Nat} {m : Message α}
    (h : (p.read n).1 = .message m) : p.pending = m.whole :: (p.read n).2.pending := by
  cases p with
  | connected q => exact (pending_readQueue n .noData q).1 m h
  | closing q => exact (pending_readQueue n .broken q).1 m h
  | _ => cases h

theorem pending_read_other {p : MessagePipe α} {n : Nat}
    (h : ∀ m, (p.read n).1 ≠ .message m) : (p.read n).2.pending = p.pending := by
  cases p with
  | connected q => exact (pending_readQueue n .noData q).2 h
  | closing q => exact (pending_readQueue n .broken q).2 h
  | _ => rfl

/-! ## Clients that are gone -/

/-- Only a pipe that a client has left with nothing in it is broken. -/
theorem closing_of_broken {p : MessagePipe α} {n : Nat} (h : (p.read n).1 = .failed .broken) :
    p = .closing [] := by
  have hread : ∀ (empty : PipeFailure) (q : List (Message α)),
      (readQueue n empty q).1 = .failed .broken → q = [] ∧ empty = .broken := by
    intro empty q hq
    cases q with
    | nil => exact ⟨rfl, ReadResult.failed.inj hq⟩
    | cons m q =>
      rw [readQueue] at hq
      split at hq <;> cases hq
  cases p with
  | connected q => cases (hread .noData q h).2
  | closing q => rw [(hread .broken q h).1]
  | _ => cases h

/-! ## Reads to come -/

/-- A read that comes to the end of a message takes it out of the queue. -/
theorem queue_of_message {p : MessagePipe α} {n : Nat} {m : Message α}
    (h : (p.read n).1 = .message m) : p.queue = m :: (p.read n).2.queue := by
  have hread : ∀ (empty : PipeFailure) (q : List (Message α)),
      (readQueue n empty q).1 = .message m → q = m :: (readQueue n empty q).2 := by
    intro empty q hq
    cases q with
    | nil => cases hq
    | cons front q =>
      rw [readQueue] at hq ⊢
      split at hq
      case isTrue hfits => rw [if_pos hfits, ReadResult.message.inj hq]
      case isFalse => cases hq
  cases p with
  | connected q => exact hread .noData q h
  | closing q => exact hread .broken q h
  | _ => cases h

/-- A read of a longer message leaves the rest of it in front. -/
theorem queue_of_part {p : MessagePipe α} {n : Nat} {bytes : List α}
    (h : (p.read n).1 = .part bytes) :
    ∃ m q, p.queue = m :: q ∧ n < m.unread.length ∧
      (p.read n).2.queue = ⟨m.whole, m.unread.drop n⟩ :: q := by
  have hread : ∀ (empty : PipeFailure) (q : List (Message α)),
      (readQueue n empty q).1 = .part bytes → ∃ m rest, q = m :: rest ∧ n < m.unread.length ∧
        (readQueue n empty q).2 = ⟨m.whole, m.unread.drop n⟩ :: rest := by
    intro empty q hq
    cases q with
    | nil => cases hq
    | cons m q =>
      rw [readQueue] at hq ⊢
      split at hq
      case isTrue => cases hq
      case isFalse hlong => exact ⟨m, q, rfl, by omega, by rw [if_neg hlong]⟩
  cases p with
  | connected q => exact hread .noData q h
  | closing q => exact hread .broken q h
  | _ => cases h

/-- Only an empty pipe makes a read fail. -/
theorem queue_of_failed {p : MessagePipe α} {n : Nat} {why : PipeFailure}
    (h : (p.read n).1 = .failed why) : p.queue = [] := by
  have hread : ∀ (empty : PipeFailure) (q : List (Message α)),
      (readQueue n empty q).1 = .failed why → q = [] := by
    intro empty q hq
    cases q with
    | nil => rfl
    | cons m q =>
      rw [readQueue] at hq
      split at hq <;> cases hq
  cases p with
  | connected q => exact hread .noData q h
  | closing q => exact hread .broken q h
  | _ => rfl

/-- The reads that it takes with a buffer of size `n` to empty a queue. -/
def readsLeft (n : Nat) : List (Message α) → Nat
  | [] => 0
  | m :: q => (m.unread.length - 1) / n + 1 + readsLeft n q

@[simp] theorem readsLeft_cons (n : Nat) (m : Message α) (q : List (Message α)) :
    readsLeft n (m :: q) = (m.unread.length - 1) / n + 1 + readsLeft n q := rfl

theorem readsLeft_eq_zero_iff {n : Nat} {q : List (Message α)} :
    readsLeft n q = 0 ↔ q = [] := by
  cases q with
  | nil => exact iff_of_true rfl rfl
  | cons m q => exact iff_of_false (Nat.ne_of_gt (Nat.add_pos_left (Nat.succ_pos _) _)) (by simp)

/-- A read of a longer message is one of those that the message takes. -/
theorem readsLeft_part {n : Nat} (hn : 0 < n) {m : Message α} (hlong : n < m.unread.length)
    (q : List (Message α)) :
    readsLeft n (⟨m.whole, m.unread.drop n⟩ :: q) + 1 = readsLeft n (m :: q) := by
  have hone : (m.unread.length - 1) / n = (m.unread.length - n - 1) / n + 1 := by
    rw [← Nat.add_div_right _ hn]
    congr 1
    omega
  rw [readsLeft_cons, readsLeft_cons, List.length_drop, hone]
  omega

end MessagePipe

end Doreto.Lib
