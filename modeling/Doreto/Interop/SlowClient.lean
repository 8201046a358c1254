import Doreto.Interop.Dispatch
import Doreto.Interop.Mirroring
import Doreto.Lib.QuotaQueue
import Doreto.Lib.Run

/-!
# A Client That Reads Slowly

`CreatePipeServer` gives the pipe a buffer of `BUFF_SIZE` bytes towards the client and makes it a
pipe that does not wait. A write for which there is no room succeeds with nothing written.
`WriteToPipe` asks for the number of bytes written and does not look at it, so the string is lost.

## Main results

- `lossless_iff`: a state is lossless when what was received and what is on its way is what was
  written.
- `lossless_iff_roomForAll`: a session is lossless throughout exactly when every string finds room.
-/

namespace Doreto.Interop

open Doreto.Lib

/-! ## A session with a connected client -/

/-- The pipe towards the client, and what was written and received. -/
structure MirrorSession where
  ctx : Ctx
  pipe : QuotaQueue UInt8 buffSize
  /-- The strings passed to `WriteToPipe`. -/
  written : List Bytes
  /-- The messages that the client has read. -/
  received : List Bytes

/-- A session that begins. -/
def MirrorSession.start (c : Ctx) : MirrorSession :=
  ⟨c, .empty, [], []⟩

inductive MirrorAction where
  /-- `WriteToPipe` of the string at a buffer. -/
  | write (buf : Bytes)
  /-- The client reads, if there is something to read. -/
  | read

/-- A step of the session. The pipe answers to a write with the number of bytes it takes. -/
def mirrorStep (σ : MirrorSession) : MirrorAction → Option MirrorSession
  | .write buf =>
      let answer : WriteAnswer := .ok (σ.pipe.accepted (cBody 0 buf))
      ((writeToPipe answer σ.ctx.globals.gPipeServer buf).run { σ.ctx with calls := [] }).map
        fun (_, c) =>
          { σ with
            ctx := c
            -- each `WriteFile` offers its bytes as one message
            pipe := (pipeWrites c.calls).foldl (fun pipe m => pipe.push m) σ.pipe
            written := σ.written ++ [cBody 0 buf] }
  | .read =>
      some { σ with
        pipe := σ.pipe.drop 1
        received := σ.received ++ σ.pipe.take 1 }

/-- Nothing is lost: the client has received the first of the strings that were written, and when it
reads on until the pipe is empty, all of them. -/
structure Lossless (σ : MirrorSession) : Prop where
  inOrder : σ.received <+: σ.written
  drained : ∀ n τ, exec mirrorStep σ (List.replicate n .read) = some τ →
    τ.pipe.messages = [] → τ.received = σ.written

/-- The string finds room in the pipe. -/
def FindsRoom (σ : MirrorSession) : MirrorAction → Prop
  | .write buf => σ.pipe.HasRoom (cBody 0 buf)
  | .read => True

instance (σ : MirrorSession) (a : MirrorAction) : Decidable (FindsRoom σ a) :=
  match a with
  | .write buf => inferInstanceAs (Decidable (σ.pipe.HasRoom (cBody 0 buf)))
  | .read => isTrue trivial

/-! ## One step -/

/-- What a call of `WriteToPipe` does to the session, whatever the pipe answers. -/
theorem mirrorStep_write {σ τ : MirrorSession} {buf : Bytes}
    (h : mirrorStep σ (.write buf) = some τ) :
    τ.pipe = σ.pipe.push (cBody 0 buf) ∧ τ.written = σ.written ++ [cBody 0 buf] ∧
      τ.received = σ.received := by
  obtain ⟨⟨u, c⟩, hrun, rfl⟩ := Option.map_eq_some_iff.mp h
  have hbuf : 0 ∈ buf := by
    by_contra hnot
    simp [writeToPipe, hnot] at hrun
  rw [run_writeToPipe _ _ hbuf] at hrun
  obtain ⟨-, rfl⟩ := Prod.mk.inj (Option.some.inj hrun)
  exact ⟨rfl, rfl, rfl⟩

/-- The client reads any number of times. -/
theorem exec_reads (σ : MirrorSession) (n : Nat) :
    exec mirrorStep σ (List.replicate n .read) = some { σ with
      pipe := σ.pipe.drop n
      received := σ.received ++ σ.pipe.take n } := by
  induction n generalizing σ with
  | zero => simp [exec, QuotaQueue.drop, QuotaQueue.take]
  | succ n ih =>
    have hread : mirrorStep σ .read = some { σ with
        pipe := σ.pipe.drop 1, received := σ.received ++ σ.pipe.take 1 } := rfl
    rw [List.replicate_succ, exec, hread, Option.bind_some, ih, QuotaQueue.drop_drop,
      List.append_assoc, ← QuotaQueue.take_succ, Nat.add_comm]

/-- Nothing is lost when what was received and what is on its way is what was written. -/
theorem lossless_iff {σ : MirrorSession} :
    Lossless σ ↔ σ.received ++ σ.pipe.messages = σ.written := by
  constructor
  · intro h
    -- a client that reads everything on its way empties the pipe
    have hempty := QuotaQueue.drop_length σ.pipe
    rw [← QuotaQueue.take_of_drained hempty]
    exact h.drained σ.pipe.messages.length _ (exec_reads σ _) hempty
  · intro h
    refine ⟨⟨_, h⟩, ?_⟩
    intro n τ hexec hempty
    rw [exec_reads] at hexec
    obtain rfl := Option.some.inj hexec
    rw [← h]
    exact congrArg _ (QuotaQueue.take_of_drained hempty)

/-- From a state in which nothing is lost, a step loses nothing exactly when its string finds
room. -/
theorem lossless_iff_findsRoom {σ τ : MirrorSession} {a : MirrorAction} (h : Lossless σ)
    (hstep : mirrorStep σ a = some τ) : Lossless τ ↔ FindsRoom σ a := by
  rw [lossless_iff] at h ⊢
  cases a with
  | write buf =>
    obtain ⟨hpipe, hwritten, hreceived⟩ := mirrorStep_write hstep
    rw [hpipe, hwritten, hreceived]
    constructor
    · intro heq
      by_contra hfull
      -- the pipe is as before, and one string more was written
      rw [QuotaQueue.push_of_not_hasRoom hfull, h] at heq
      exact List.cons_ne_nil _ _ (List.self_eq_append_right.mp heq)
    · intro hroom
      rw [QuotaQueue.messages_push_of_hasRoom hroom, ← List.append_assoc, h]
  | read =>
    obtain rfl := Option.some.inj hstep
    refine iff_of_true ?_ trivial
    rw [List.append_assoc, QuotaQueue.take_append_drop, h]

/-! ## Every session -/

/-- **Slow clients**: in a session with any strings, at any speed of the client, nothing is lost
exactly when every string finds room in the pipe. -/
theorem lossless_iff_roomForAll (c : Ctx) (actions : List MirrorAction) :
    HoldsAlong mirrorStep Lossless (.start c) actions ↔
      StepsMeet mirrorStep FindsRoom (.start c) actions :=
  holdsAlong_iff_stepsMeet (I := fun _ => True) (fun _ _ _ _ _ => trivial)
    (fun _ _ _ _ hP hstep => lossless_iff_findsRoom hP hstep) actions trivial
    (lossless_iff.mpr rfl)

/-- A terminated string of equal bytes. -/
def uniform (n : Nat) (b : UInt8) : Bytes :=
  List.replicate n b ++ [0]

/-- Two strings of 600 bytes, before the client reads. -/
def burst : List MirrorAction :=
  [.write (uniform 600 65), .write (uniform 600 66)]

/-- A session with a connected client. -/
def connected : MirrorSession :=
  .start (withClient ⟨.init, 0, []⟩)

/-- The second string of the burst never reaches the client. -/
theorem second_string_lost :
    (exec mirrorStep connected (burst ++ [.read, .read])).map
        (fun τ => (τ.received, τ.pipe.messages)) = some ([List.replicate 600 65], []) ∧
      ¬ HoldsAlong mirrorStep Lossless connected burst := by
  refine ⟨by decide +kernel, ?_⟩
  intro h
  obtain ⟨τ, hexec⟩ : ∃ τ, exec mirrorStep connected burst = some τ :=
    Option.isSome_iff_exists.mp (by decide +kernel)
  have hkept := lossless_iff.mp (h.last hexec)
  -- one string is in the pipe, and two were written
  have hcounts : (exec mirrorStep connected burst).map
      (fun τ => ((τ.received ++ τ.pipe.messages).length, τ.written.length)) = some (1, 2) := by
    decide +kernel
  rw [hexec, Option.map_some, hkept] at hcounts
  obtain ⟨hone, htwo⟩ := Prod.mk.inj (Option.some.inj hcounts)
  omega

end Doreto.Interop
