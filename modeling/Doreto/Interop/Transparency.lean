import Mathlib.Logic.Function.Basic
import Doreto.Interop.Hooks

/-!
# What the Game Sees of the Hooks

The game calls `send`, `recv` and `connect` and looks at the return value, at its buffer and at
the last-error code of its thread. This module runs the same calls with and without the hooks and
says when the two runs cannot be told apart.

The bytes, the buffers and the return values always agree. The last-error code is another matter:
the hooks make calls of their own, and a failing `getpeername` or `WriteFile` leaves its code
where the game looks for the code of the real call.

## Main results

- `observe_hooked`: behind a hook everything but the last error is that of the real call.
- `observe_hooked_eq_iff`: one call looks like the real one exactly when it is quiet.
- `transparent_iff_quietRun`: a whole run does exactly when all its calls are quiet.
-/

namespace Doreto.Interop

open Doreto.Lib

/-! ## Observations -/

/-- What the game and the network see of one call. -/
structure Observed where
  /-- The call that reached Winsock, with the bytes handed to it. -/
  handed : List ApiCall
  /-- The memory at the caller's pointer after the call. -/
  buffer : Bytes
  result : Int
  lastError : ErrorCode
  deriving DecidableEq, Repr

/-- The calls that the game asked for, as opposed to those the hooks make for themselves. -/
def isReal : ApiCall → Bool
  | .send .. => true
  | .recv .. => true
  | .connect .. => true
  | _ => false

/-- Run one call and keep what is seen of it. -/
def observe (call : Win (Int × Bytes)) (c : Ctx) : Option (Observed × Ctx) :=
  (call.run { c with calls := [] }).map fun ((result, buffer), c') =>
    (⟨c'.calls.filter isReal, buffer, result, c'.lastError⟩, c')

/-- A call of the game on one of its threads, and whether a pipe client is connected then. -/
structure Traffic where
  thread : Nat
  clientConnected : Bool
  call : GameCall

/-- The game's process: the globals of the DLL and the last-error code of every thread. -/
structure Process where
  globals : Globals
  lastErrors : Nat → ErrorCode

/-- The context in which a call of the game runs. -/
def Process.ctx (p : Process) (t : Traffic) : Ctx :=
  { globals := { p.globals with gIsClientConnected := t.clientConnected }
    lastError := p.lastErrors t.thread
    calls := [] }

/-- The process after the call. -/
def Process.after (p : Process) (t : Traffic) (c : Ctx) : Process :=
  { globals := c.globals
    lastErrors := Function.update p.lastErrors t.thread c.lastError }

/-- Run the calls in order and collect what is seen of each of them. -/
def runCalls (serve : GameCall → Win (Int × Bytes)) :
    Process → List Traffic → Option (List Observed)
  | _, [] => some []
  | p, t :: ts => do
      let (seen, c) ← observe (serve t.call) (p.ctx t)
      let rest ← runCalls serve (p.after t c) ts
      return seen :: rest

/-! ## Calls that leave no trace -/

/-- What is seen of the real call alone, from the last error `e`. -/
def directly (e : ErrorCode) : GameCall → Observed
  | .send _ real s buf len flags =>
      ⟨[.send s (buf.take len.toNat) len flags], buf, real.result, real.code.getD e⟩
  | .recv _ real s buf len flags =>
      ⟨[.recv s len flags], store real.stored buf, real.result, real.code.getD e⟩
  | .connect _ real s name namelen =>
      ⟨[.connect s name namelen], name, real.result, real.code.getD e⟩

namespace GameCall

/-- The code that the hook stores before the real call. -/
def codeBefore : GameCall → Option ErrorCode
  | .send a _ _ _ _ _ => failureCode a.peer
  | .recv a _ _ _ _ _ => failureCode a.peer
  | .connect .. => none

/-- The code that the real call stores. -/
def realCode : GameCall → Option ErrorCode
  | .send _ real _ _ _ _ => real.code
  | .recv _ real _ _ _ _ => real.code
  | .connect _ real _ _ _ => real.code

/-- The codes that the hook stores behind the real call. -/
def codesBehind (clientConnected : Bool) : GameCall → List (Option ErrorCode)
  | .send a _ _ buf _ _ => mirrorCodes a clientConnected (cBody 0 buf)
  | .recv a _ _ buf _ _ => mirrorCodes a clientConnected (cBody 0 buf)
  | .connect a _ _ _ _ => [failureCode a.peer, a.log]

end GameCall

/-- The last code that some calls stored, if any of them stored one. -/
def lastStored (codes : List (Option ErrorCode)) : Option ErrorCode :=
  codes.foldl (fun last code => code.or last) none

/-- The hook's own calls do not show in the last error: the last code stored behind the real call
is the one that call left, and when the real call leaves the last error alone, the hook did not
change it before. -/
def Undisturbed (e : ErrorCode) (before real : Option ErrorCode)
    (behind : List (Option ErrorCode)) : Prop :=
  match lastStored behind with
  | some code => code = real.getD e
  | none => real.isSome = true ∨ before.getD e = e

/-- The call leaves no trace, from the last error `e`. -/
structure Quiet (clientConnected : Bool) (e : ErrorCode) (call : GameCall) : Prop where
  terminated : call.Terminated clientConnected
  undisturbed : Undisturbed e call.codeBefore call.realCode (call.codesBehind clientConnected)

/-- Every call of the run is quiet, each from the last error that the real calls before it left on
its thread. -/
def QuietRun : (Nat → ErrorCode) → List Traffic → Prop
  | _, [] => True
  | lastErrors, t :: ts =>
      Quiet t.clientConnected (lastErrors t.thread) t.call ∧
      QuietRun (Function.update lastErrors t.thread
        (directly (lastErrors t.thread) t.call).lastError) ts

/-! ## The last error behind a hook -/

theorem lastErrorAfter_eq_getD_lastStored (e : ErrorCode) (codes : List (Option ErrorCode)) :
    lastErrorAfter e codes = (lastStored codes).getD e := by
  -- for a fold that starts from a code that was stored before
  have hgen : ∀ (codes : List (Option ErrorCode)) (last : Option ErrorCode),
      (codes.foldl (fun last code => code.or last) last).getD e =
        lastErrorAfter (last.getD e) codes := by
    intro codes
    induction codes with
    | nil => intro last; rfl
    | cons code codes ih =>
      intro last
      rw [List.foldl_cons, ih]
      cases code <;> simp [lastErrorAfter]
  exact (hgen codes none).symm

theorem lastErrorAfter_eq_iff_undisturbed (e : ErrorCode) (before real : Option ErrorCode)
    (behind : List (Option ErrorCode)) :
    lastErrorAfter e ([before, real] ++ behind) = real.getD e ↔
      Undisturbed e before real behind := by
  rw [lastErrorAfter_append, lastErrorAfter_eq_getD_lastStored _ behind, Undisturbed]
  cases lastStored behind with
  -- nothing before a code that is stored last can be seen
  | some code => simp
  | none => cases real <;> simp [lastErrorAfter]

/-- The last error behind the hook. -/
def GameCall.hookedLastError (clientConnected : Bool) (e : ErrorCode) (call : GameCall) :
    ErrorCode :=
  lastErrorAfter e ([call.codeBefore, call.realCode] ++ call.codesBehind clientConnected)

theorem directly_lastError (e : ErrorCode) (call : GameCall) :
    (directly e call).lastError = call.realCode.getD e := by
  cases call <;> rfl

/-! ## One call -/

theorem observe_unhooked (call : GameCall) (c : Ctx) :
    ∃ c', observe call.unhooked c = some (directly c.lastError call, c') := by
  cases call <;>
    simp [observe, GameCall.unhooked, pSend, pRecv, pConnect, directly, isReal]

theorem observe_lastError {call : Win (Int × Bytes)} {c c' : Ctx} {seen : Observed}
    (h : observe call c = some (seen, c')) : c'.lastError = seen.lastError := by
  obtain ⟨⟨⟨result, buffer⟩, c''⟩, -, heq⟩ := Option.map_eq_some_iff.mp h
  obtain ⟨rfl, rfl⟩ := Prod.mk.inj heq
  rfl

theorem filter_isReal_mirrorCalls (g : Globals) (str buf : Bytes) :
    (mirrorCalls g str buf).filter isReal = [] := by
  unfold mirrorCalls
  split <;> rfl

/-- Behind a hook everything but the last error is that of the real call. -/
theorem observe_hooked {call : GameCall} {c : Ctx}
    (h : call.Terminated c.globals.gIsClientConnected) :
    ∃ c', observe call.hooked c = some ({ directly c.lastError call with
        lastError := call.hookedLastError c.globals.gIsClientConnected c.lastError }, c') := by
  cases call with
  | send a real s buf len flags =>
    have hbuf : 0 ∈ buf := h
    simp [observe, GameCall.hooked, run_mySend, hbuf, directly, filter_isReal_mirrorCalls, isReal,
      List.filter_cons, GameCall.hookedLastError, GameCall.codeBefore, GameCall.realCode,
      GameCall.codesBehind]
  | recv a real s buf len flags =>
    have hterm : recvTerminated c.globals.gIsClientConnected real buf := h
    simp [observe, GameCall.hooked, run_myRecv, hterm, directly, filter_isReal_mirrorCalls, isReal,
      List.filter_cons, GameCall.hookedLastError, GameCall.codeBefore, GameCall.realCode,
      GameCall.codesBehind]
  | connect a real s name namelen =>
    simp [observe, GameCall.hooked, run_myConnect, directly, isReal, List.filter_cons,
      lastErrorAfter, GameCall.hookedLastError, GameCall.codeBefore, GameCall.realCode,
      GameCall.codesBehind]

theorem observe_hooked_of_not_terminated {call : GameCall} {c : Ctx}
    (h : ¬ call.Terminated c.globals.gIsClientConnected) : observe call.hooked c = none := by
  rw [observe, hooked_of_not_terminated (c := { c with calls := [] }) h, Option.map_none]

/-- A hook looks like the real call exactly when the call is quiet. -/
theorem observe_hooked_eq_iff (call : GameCall) (c : Ctx) :
    (∃ c', observe call.hooked c = some (directly c.lastError call, c')) ↔
      Quiet c.globals.gIsClientConnected c.lastError call := by
  -- only the last error can differ, and only on terminated strings is there anything to see
  by_cases hterm : call.Terminated c.globals.gIsClientConnected
  · obtain ⟨c', hobs⟩ := observe_hooked hterm
    have herr : call.hookedLastError c.globals.gIsClientConnected c.lastError =
        (directly c.lastError call).lastError ↔
          Quiet c.globals.gIsClientConnected c.lastError call := by
      rw [GameCall.hookedLastError, directly_lastError, lastErrorAfter_eq_iff_undisturbed]
      exact ⟨fun h => ⟨hterm, h⟩, fun h => h.undisturbed⟩
    rw [← herr]
    constructor
    · rintro ⟨c'', hsame⟩
      rw [hobs] at hsame
      have hseen := (Prod.mk.inj (Option.some.inj hsame)).1
      exact congrArg Observed.lastError hseen
    · intro hsame
      exact ⟨c', by rw [hobs, hsame]⟩
  · constructor
    · rintro ⟨c', hobs⟩
      rw [observe_hooked_of_not_terminated hterm] at hobs
      cases hobs
    · intro hquiet
      exact absurd hquiet.terminated hterm

/-! ## Runs of calls -/

/-- What is seen of a run without the hooks. -/
def directRun : (Nat → ErrorCode) → List Traffic → List Observed
  | _, [] => []
  | lastErrors, t :: ts =>
      directly (lastErrors t.thread) t.call ::
      directRun (Function.update lastErrors t.thread
        (directly (lastErrors t.thread) t.call).lastError) ts

theorem runCalls_cons (serve : GameCall → Win (Int × Bytes)) (p : Process) (t : Traffic)
    (ts : List Traffic) :
    runCalls serve p (t :: ts) = (observe (serve t.call) (p.ctx t)).bind fun o =>
      (runCalls serve (p.after t o.2) ts).map (o.1 :: ·) := by
  rw [runCalls]
  cases observe (serve t.call) (p.ctx t) with
  | none => rfl
  | some o =>
    obtain ⟨seen, c⟩ := o
    simp only [Option.bind_eq_bind, Option.bind_some]
    cases runCalls serve (p.after t c) ts <;> rfl

theorem runCalls_unhooked (p : Process) (ts : List Traffic) :
    runCalls GameCall.unhooked p ts = some (directRun p.lastErrors ts) := by
  induction ts generalizing p with
  | nil => rfl
  | cons t ts ih =>
    obtain ⟨c', hobs⟩ := observe_unhooked t.call (p.ctx t)
    have herr := observe_lastError hobs
    have hctx : (p.ctx t).lastError = p.lastErrors t.thread := rfl
    rw [runCalls_cons, hobs, hctx, Option.bind_some, ih]
    simp [directRun, Process.after, herr, hctx]

/-- Hooked and unhooked calls are seen alike throughout a run exactly when every call of the run
is quiet. -/
theorem runCalls_hooked_eq_directRun_iff (p : Process) (ts : List Traffic) :
    runCalls GameCall.hooked p ts = some (directRun p.lastErrors ts) ↔
      QuietRun p.lastErrors ts := by
  induction ts generalizing p with
  | nil => simp [runCalls, directRun, QuietRun]
  | cons t ts ih =>
    have hctx : (p.ctx t).lastError = p.lastErrors t.thread := rfl
    -- the first call decides whether the rest of the run starts alike
    have hone := observe_hooked_eq_iff t.call (p.ctx t)
    rw [runCalls_cons, directRun, QuietRun]
    cases hobs : observe t.call.hooked (p.ctx t) with
    | none =>
      -- the hook read past mapped memory, so the call is not quiet
      have hnot : ¬ Quiet t.clientConnected (p.lastErrors t.thread) t.call := by
        intro hquiet
        obtain ⟨c', hsome⟩ := hone.mpr hquiet
        rw [hobs] at hsome
        cases hsome
      simp [hnot]
    | some o =>
      obtain ⟨seen, c'⟩ := o
      have herr : c'.lastError = seen.lastError := observe_lastError hobs
      have hseen : seen = directly (p.lastErrors t.thread) t.call ↔
          Quiet t.clientConnected (p.lastErrors t.thread) t.call := by
        rw [← hctx, ← show (p.ctx t).globals.gIsClientConnected = t.clientConnected from rfl,
          ← hone, hobs]
        constructor
        · rintro rfl
          exact ⟨c', rfl⟩
        · rintro ⟨c'', hsame⟩
          exact (Prod.mk.inj (Option.some.inj hsame)).1
      rw [← hseen, Option.bind_some]
      constructor
      · intro h
        obtain ⟨rest, hrun, hcons⟩ := Option.map_eq_some_iff.mp h
        obtain ⟨rfl, rfl⟩ := List.cons.inj hcons
        refine ⟨rfl, ?_⟩
        have hrest := (ih (p.after t c')).mp (by simpa [Process.after, herr] using hrun)
        simpa [Process.after, herr] using hrest
      · rintro ⟨rfl, hrest⟩
        have hrun := (ih (p.after t c')).mpr (by simpa [Process.after, herr] using hrest)
        rw [hrun]
        simp [Process.after, herr]

/-! ## Transparency -/

/-- The game cannot tell the hooked run from the one without the DLL. -/
def Transparent (p : Process) (ts : List Traffic) : Prop :=
  runCalls GameCall.hooked p ts = runCalls GameCall.unhooked p ts

/-- **Transparency of the hooks**: a run of the game's calls is seen alike with and without the
hooks exactly when every call of it is quiet. -/
theorem transparent_iff_quietRun (p : Process) (ts : List Traffic) :
    Transparent p ts ↔ QuietRun p.lastErrors ts := by
  rw [Transparent, runCalls_unhooked]
  exact runCalls_hooked_eq_directRun_iff p ts

/-- A non-blocking connect that is still pending. The game finds the code of the hook's
`getpeername` where it looks for `WSAEWOULDBLOCK`. -/
theorem pending_connect_not_transparent :
    ¬ Transparent ⟨Globals.init, fun _ => 0⟩
      [⟨0, false, .connect ⟨.error wsaNotConn, none, .ok 0⟩ (.failed wsaWouldBlock) 5
        (ascii "peer") 16⟩] := by
  unfold Transparent
  decide

end Doreto.Interop
