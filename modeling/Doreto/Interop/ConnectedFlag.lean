import Doreto.Interop.Mirroring
import Doreto.Interop.PipeServer

/-!
# The Connected Flag

`g_IsClientConnected` tells the hooks that they may write to the pipe. It is the condition of the
server's loop as well, and its value comes from the poll. Two steps leave it set without a client:
the poll that makes a disconnected instance available again succeeds, and `!dettach` leaves the
loop with the flag set, so `CloseHandle` finds it set.

## Main results

- `flag_of_hook_write`: a hook writes only while the flag is set.
- `flagJustified_iff_soundStep`: those two steps are the only ones behind which the flag is wrong.
- `connectedFlag_iff_soundSteps`: the flag is right throughout a run exactly when the run takes
  neither of them.
-/

namespace Doreto.Interop

open Doreto.Lib

/-! ## The invariant -/

/-- The handle is open and a client has joined since the pipe was created or last disconnected. -/
def ClientJoined (σ : System) : Prop :=
  ∃ pipe loop, σ.server = .running pipe loop ∧ pipe.Joined

/-- The flag is set only with a client. -/
def FlagJustified (σ : System) : Prop :=
  σ.globals.gIsClientConnected = true → ClientJoined σ

/-- The flag is set only with a client, and only with a client is the pipe written to. -/
structure ConnectedFlag (σ : System) : Prop where
  flag : FlagJustified σ
  /-- Writes of the hooks behind calls of the game. -/
  hooks : ∀ e call σ' calls, step σ (.game e call) = some σ' →
    σ'.events = σ.events ++ [.hooked call.socket calls] → pipeWrites calls ≠ [] → ClientJoined σ
  /-- Writes of the server thread, which calls `MySend` as well. -/
  server : ∀ a σ' m, step σ (.server a) = some σ' → σ'.events = σ.events ++ [.served m] →
    pipeWrites m.calls ≠ [] → ClientJoined σ

/-- The step is neither a poll of a disconnected instance nor `CloseHandle`. -/
def SoundStep (σ : System) : Action → Prop
  | .server _ => σ.server ≠ .running .disconnected .head ∧
      ∀ pipe, σ.server ≠ .running pipe .closing
  | _ => True

/-! ## Writes of the hooks -/

/-- A hook writes only while the flag is set. -/
theorem flag_of_hook_write {call : GameCall} {c c' : Ctx} {out : Int × Bytes}
    (hcalls : c.calls = []) (h : call.hooked.run c = some (out, c'))
    (hwrite : pipeWrites c'.calls ≠ []) : c.globals.gIsClientConnected = true := by
  have hterm : call.Terminated c.globals.gIsClientConnected := by
    by_contra hnot
    rw [hooked_of_not_terminated hnot] at h
    cases h
  -- the writes of a call are known, and there are none without the flag
  obtain ⟨out', c'', hrun, hwrites⟩ := pipeWrites_hooked hterm
  have hctx : ({ c with calls := [] } : Ctx) = c := by rw [← hcalls]
  rw [hctx, h] at hrun
  obtain ⟨-, rfl⟩ := Prod.mk.inj (Option.some.inj hrun)
  rw [hwrites, mirrored_ne_nil_iff, GameCall.letThrough, mirrors] at hwrite
  simp only [Bool.and_eq_true] at hwrite
  exact hwrite.2.1

/-- A call of the game that writes to the pipe finds the flag set. -/
theorem flag_of_hooked_step {σ σ' : System} {e : ErrorCode} {call : GameCall}
    {calls : List ApiCall} (h : Transition σ (.game e call) σ')
    (hevents : σ'.events = σ.events ++ [.hooked call.socket calls])
    (hwrite : pipeWrites calls ≠ []) : σ.globals.gIsClientConnected = true := by
  generalize ha : Action.game e call = a at h
  cases h with
  | hooked loaded run =>
    obtain ⟨rfl, rfl⟩ := Action.game.inj ha
    obtain ⟨-, hcalls⟩ := Event.hooked.inj (List.singleton_inj.mp
      (List.append_cancel_left hevents))
    subst hcalls
    exact flag_of_hook_write rfl run hwrite
  | unhooked unloaded => simp at hevents
  | _ => cases ha

/-! ## Every step -/

/-- The server thread reads, or has left its loop. -/
def Loop.PastPoll : Loop → Prop
  | .reading _ => True
  | .closing => True
  | _ => False

/-- Between the poll that sets the flag and `CloseHandle` the flag stays set. -/
def FlagPastPoll (σ : System) : Prop :=
  ∀ pipe loop, σ.server = .running pipe loop → loop.PastPoll →
    σ.globals.gIsClientConnected = true

/-- A message is served in the read loop, where the flag is set. -/
theorem flag_of_served_step {σ σ' : System} {a : ServerAnswers} {m : ServedMessage}
    (hI : FlagPastPoll σ) (h : Transition σ (.server a) σ')
    (hevents : σ'.events = σ.events ++ [.served m]) : σ.globals.gIsClientConnected = true := by
  generalize ha : Action.server a = b at h
  cases h with
  -- only this step of the server serves a message
  | served at_ read run => exact hI _ _ at_ trivial
  | hooked loaded run => cases ha
  | clientCall at_ => cases ha
  | _ => simp at hevents

/-- In a state of the loop, the flag decides over the writes as well. -/
theorem connectedFlag_iff {σ : System} (hI : FlagPastPoll σ) :
    ConnectedFlag σ ↔ FlagJustified σ := by
  refine ⟨ConnectedFlag.flag, fun h => ⟨h, ?hooks, ?server⟩⟩
  case hooks =>
    intro e call σ' calls hstep hevents hwrite
    exact h (flag_of_hooked_step (transition_of_step hstep) hevents hwrite)
  case server =>
    intro a σ' m hstep hevents _
    exact h (flag_of_served_step hI (transition_of_step hstep) hevents)

theorem flag_dispatch {a : ServeAnswers} {data : Bytes} {read : Nat} {c c' : Ctx} {br : Branch}
    (h : (dispatch a data read).run c = some (br, c')) :
    c'.globals.gIsClientConnected = c.globals.gIsClientConnected := by
  obtain ⟨hmem, -, hserve⟩ := dispatch_eq_some h
  exact (serveEffect_of_run hmem hserve).flag

theorem flagPastPoll_init : FlagPastPoll .init := by
  intro pipe loop hserver
  cases hserver

theorem flagPastPoll_step {σ σ' : System} {a : Action} (hI : FlagPastPoll σ)
    (h : Transition σ a σ') : FlagPastPoll σ' := by
  intro pipe loop hserver hpast
  cases h with
  | hooked loaded run =>
    rw [globals_hooked run]
    exact hI pipe loop hserver hpast
  | unhooked unloaded => exact hI pipe loop hserver hpast
  | clientIdle closed => exact hI pipe loop hserver hpast
  | clientCall at_ =>
    obtain ⟨-, rfl⟩ := Server.running.inj hserver
    exact hI _ _ at_ hpast
  | notCreated at_ =>
    rw [at_] at hserver
    cases hserver
  | loopEnds at_ flag => exact flag
  | pollSucceeds at_ flag => rfl
  | pollFinds at_ flag => rfl
  | served at_ read run =>
    rw [flag_dispatch run]
    exact hI _ _ at_ trivial
  | readPart at_ read => exact hI _ _ at_ trivial
  | readFails at_ read kind => exact hI _ _ at_ trivial
  | _ =>
    -- the server is at the head of the loop, waits, or has no pipe
    cases hserver <;> cases hpast

theorem flagJustified_of_clear {σ : System} (h : σ.globals.gIsClientConnected = false) :
    FlagJustified σ := by
  intro hflag
  rw [h] at hflag
  cases hflag

theorem flagJustified_of_joined {σ : System} {pipe : MessagePipe UInt8} {loop : Loop}
    (hserver : σ.server = .running pipe loop) (hjoined : pipe.Joined) : FlagJustified σ :=
  fun _ => ⟨pipe, loop, hserver, hjoined⟩

/-- A flag that is set shows that the instance of the running server is joined. -/
theorem FlagJustified.joined {σ : System} (h : FlagJustified σ)
    (hflag : σ.globals.gIsClientConnected = true) {pipe : MessagePipe UInt8} {loop : Loop}
    (hserver : σ.server = .running pipe loop) : pipe.Joined := by
  obtain ⟨pipe', loop', hserver', hjoined⟩ := h hflag
  rw [hserver] at hserver'
  obtain ⟨rfl, -⟩ := Server.running.inj hserver'
  exact hjoined

/-- Without a running server the flag is clear. -/
theorem FlagJustified.clear {σ : System} (h : FlagJustified σ)
    (hserver : ∀ pipe loop, σ.server ≠ .running pipe loop) :
    σ.globals.gIsClientConnected = false := by
  apply Bool.eq_false_iff.mpr
  intro hflag
  obtain ⟨pipe, loop, hrunning, -⟩ := h hflag
  exact hserver pipe loop hrunning

theorem soundStep_of_running {σ : System} {a : ServerAnswers} {pipe : MessagePipe UInt8}
    {loop : Loop} (hserver : σ.server = .running pipe loop)
    (hhead : loop = .head → pipe ≠ .disconnected) (hclosing : loop ≠ .closing) :
    SoundStep σ (.server a) := by
  rw [SoundStep, hserver]
  refine ⟨fun heq => ?_, fun pipe' heq => ?_⟩
  · obtain ⟨rfl, rfl⟩ := Server.running.inj heq
    exact hhead rfl rfl
  · exact hclosing (Server.running.inj heq).2

theorem soundStep_of_not_running {σ : System} {a : ServerAnswers}
    (hserver : ∀ pipe loop, σ.server ≠ .running pipe loop) : SoundStep σ (.server a) :=
  ⟨hserver _ _, fun pipe => hserver pipe _⟩

/-- From a state in which the flag is right, a step leads to one exactly when it is sound. -/
theorem flagJustified_iff_soundStep {σ σ' : System} {a : Action} (hI : FlagPastPoll σ)
    (hP : FlagJustified σ) (h : Transition σ a σ') : FlagJustified σ' ↔ SoundStep σ a := by
  cases h with
  | hooked loaded run =>
    refine iff_of_true (fun hflag => ?_) trivial
    rw [globals_hooked run] at hflag
    exact hP hflag
  | unhooked unloaded => exact iff_of_true hP trivial
  | clientIdle closed => exact iff_of_true hP trivial
  | clientCall at_ =>
    refine iff_of_true (fun hflag => ?_) trivial
    have hjoined := hP.joined hflag at_
    exact ⟨_, _, rfl, ClientCall.apply_keeps _ hjoined.join hjoined.write hjoined.close⟩
  | created at_ =>
    have hnot : ∀ pipe loop, σ.server ≠ .running pipe loop := by simp [at_]
    exact iff_of_true (flagJustified_of_clear (hP.clear hnot)) (soundStep_of_not_running hnot)
  | notCreated at_ =>
    have hnot : ∀ pipe loop, σ.server ≠ .running pipe loop := by simp [at_]
    exact iff_of_true (flagJustified_of_clear (hP.clear hnot)) (soundStep_of_not_running hnot)
  | loopEnds at_ flag =>
    have hjoined := hP.joined flag at_
    refine iff_of_true (flagJustified_of_joined rfl hjoined)
      (soundStep_of_running at_ (fun _ heq => ?_) (by simp))
    rw [heq] at hjoined
    exact hjoined
  | pollSucceeds at_ flag =>
    -- the flag is set and nobody has joined
    refine iff_of_false (fun hflag => ?_) (fun hsound => hsound.1 at_)
    obtain ⟨pipe, loop, hserver, hjoined⟩ := hflag rfl
    obtain ⟨rfl, -⟩ := Server.running.inj hserver
    exact hjoined
  | pollFinds at_ flag =>
    exact iff_of_true (flagJustified_of_joined rfl trivial)
      (soundStep_of_running at_ (by simp) (by simp))
  | pollFails at_ flag kind =>
    refine iff_of_true (flagJustified_of_clear rfl)
      (soundStep_of_running at_ (fun _ heq => ?_) (by simp))
    rcases kind with ⟨hpipe, -⟩ | ⟨⟨q, hpipe⟩, -⟩ <;> simp [hpipe] at heq
  | served at_ read run =>
    refine iff_of_true (fun hflag => ?_) (soundStep_of_running at_ (by simp) (by simp))
    rw [flag_dispatch run] at hflag
    exact ⟨_, _, rfl, (hP.joined hflag at_).read buffSize⟩
  | readPart at_ read =>
    exact iff_of_true (fun hflag => ⟨_, _, rfl, (hP.joined hflag at_).read buffSize⟩)
      (soundStep_of_running at_ (by simp) (by simp))
  | readFails at_ read kind =>
    exact iff_of_true (fun hflag => ⟨_, _, rfl, (hP.joined hflag at_).read buffSize⟩)
      (soundStep_of_running at_ (by simp) (by simp))
  | readBroken at_ read =>
    exact iff_of_true (flagJustified_of_clear rfl)
      (soundStep_of_running at_ (by simp) (by simp))
  | waits at_ kind code =>
    exact iff_of_true (flagJustified_of_clear rfl)
      (soundStep_of_running at_ (by simp) (by simp))
  | cutsOff at_ code =>
    exact iff_of_true (flagJustified_of_clear rfl)
      (soundStep_of_running at_ (by simp) (by simp))
  | closes at_ =>
    -- the handle is closed under a flag that is set
    refine iff_of_false (fun hflag => ?_) (fun hsound => hsound.2 _ at_)
    obtain ⟨pipe, loop, hserver, -⟩ := hflag (hI _ _ at_ trivial)
    cases hserver
  | unloads at_ =>
    have hnot : ∀ pipe loop, σ.server ≠ .running pipe loop := by simp [at_]
    exact iff_of_true (flagJustified_of_clear (hP.clear hnot)) (soundStep_of_not_running hnot)

/-! ## Every run -/

/-- **The connected flag**: in a run of the server, the game and the client the flag is right in
every state exactly when every step of the run is sound. -/
theorem connectedFlag_iff_soundSteps (actions : List Action) :
    HoldsAlong step ConnectedFlag .init actions ↔ StepsMeet step SoundStep .init actions := by
  refine holdsAlong_iff_stepsMeet (I := FlagPastPoll)
    (fun σ a σ' hI hstep => flagPastPoll_step hI (transition_of_step hstep))
    (fun σ a σ' hI hP hstep => ?_) actions flagPastPoll_init
    ((connectedFlag_iff flagPastPoll_init).mpr (flagJustified_of_clear rfl))
  -- on both sides of the step the flag decides over the writes
  have htrans := transition_of_step hstep
  rw [connectedFlag_iff hI] at hP
  rw [connectedFlag_iff (flagPastPoll_step hI htrans)]
  exact flagJustified_iff_soundStep hI hP htrans

/-- A client joins and leaves, and the server polls until it has cut it off and once more. -/
def secondSession : List Action :=
  [.server .plain, .client .connect, .server .plain, .client .close, .server .plain,
    .server .plain, .server .plain, .server .plain]

/-- The last poll of the run takes a pipe that nobody has joined for a connected one. -/
theorem second_session_without_client :
    ¬ HoldsAlong step ConnectedFlag .init secondSession := by
  intro h
  obtain ⟨σ, hexec, hserver, hflag⟩ : ∃ σ, exec step .init secondSession = some σ ∧
      σ.server = .running .listening (.reading (zeros buffSize)) ∧
      σ.globals.gIsClientConnected = true := ⟨_, rfl, rfl, rfl⟩
  have hjoined := (h.last hexec).flag.joined hflag hserver
  exact hjoined

end Doreto.Interop
