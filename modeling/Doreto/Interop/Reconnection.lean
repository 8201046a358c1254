import Doreto.Interop.PipeServer
import Doreto.Lib.Separated

/-!
# Reconnection

The server never asks the pipe for its state. It goes by the error code of the last poll, and a
client may come or leave between the poll and the call that the code leads to. What makes this
safe is that a client which has closed its end stays gone: the instance can only be joined again
once the server has cut the old client off and polled once more.

## Main results

- `polled_step`: every step keeps the relation between the program point, the error code and the
  state of the pipe.
- `reconnection_safe`: no live client is cut off, no read on an instance that is cut off, and no
  client that is gone blocks the pipe.
-/

namespace Doreto.Interop

open Doreto.Lib

/-! ## The property -/

/-- A poll that finds a client that has closed its end. -/
def noDataPoll : Event :=
  .connectNamedPipe (.error .noData)

/-- The logger keeps the last error of the server thread. -/
def Action.KeepsLastError : Action → Prop
  | .server a => a.log = none
  | _ => True

instance (a : Action) : Decidable a.KeepsLastError :=
  match a with
  | .server a => inferInstanceAs (Decidable (a.log = none))
  | .game _ _ => inferInstanceAs (Decidable True)
  | .client _ => inferInstanceAs (Decidable True)

/-- The server and the pipe are in step. -/
structure ReconnectionSafe (σ : System) : Prop where
  /-- No client that is still there is cut off. -/
  disconnect : ∀ a σ', a.KeepsLastError → step σ a = some σ' →
    σ'.events = σ.events ++ [.disconnectNamedPipe] →
    ∀ q loop, σ.server ≠ .running (.connected q) loop
  /-- The read loop does not run on an instance that is cut off. -/
  reading : ∀ data, σ.server ≠ .running .disconnected (.reading data)
  /-- A client that has closed its end is cut off before it is found a second time. -/
  noData : Separated noDataPoll .disconnectNamedPipe σ.events

/-! ## The invariant -/

/-- The wait is behind a poll that has found a client gone. -/
def FoundGone (σ : System) : Prop :=
  ∃ q, σ.server = .running (.closing q) .waiting ∧ σ.serverError = errorNoData

/-- What the server knows of the pipe. -/
structure Polled (σ : System) : Prop where
  /-- Only a client that is gone leads to the code that `Sleep` is followed by. -/
  waiting : ∀ pipe, σ.server = .running pipe .waiting → σ.serverError = errorNoData →
    ∃ q, pipe = .closing q
  /-- An instance that is cut off is polled next. -/
  reading : ∀ data, σ.server ≠ .running .disconnected (.reading data)
  unanswered : Unanswered noDataPoll .disconnectNamedPipe σ.events → FoundGone σ
  separated : Separated noDataPoll .disconnectNamedPipe σ.events

theorem polled_init : Polled .init := by
  refine ⟨fun pipe hserver => ?_, fun data hserver => ?_, fun h => ?_, separated_nil _ _⟩
  · cases hserver
  · cases hserver
  · exact absurd h (not_unanswered_nil _ _)

/-- A step behind which a client that was found gone is still the last thing known. -/
theorem Polled.of_quiet {σ σ' : System} (h : Polled σ) {new : List Event}
    (hevents : σ'.events = σ.events ++ new) (hnew : ∀ e ∈ new, e ≠ noDataPoll)
    (hgone : FoundGone σ → FoundGone σ')
    (hwaiting : ∀ pipe, σ'.server = .running pipe .waiting → σ'.serverError = errorNoData →
      ∃ q, pipe = .closing q)
    (hreading : ∀ data, σ'.server ≠ .running .disconnected (.reading data)) : Polled σ' := by
  refine ⟨hwaiting, hreading, fun hopen => hgone (h.unanswered ?_), ?_⟩
  · rw [hevents] at hopen
    exact unanswered_of_append hnew hopen
  · rw [hevents]
    exact h.separated.append_of_ne hnew

/-- The server is somewhere else than at `Sleep`. -/
theorem not_foundGone {σ : System} (hserver : ∀ pipe, σ.server ≠ .running pipe .waiting) :
    ¬ FoundGone σ := by
  intro ⟨q, hwaiting, _⟩
  exact hserver _ hwaiting

/-- A step of the server from somewhere else than `Sleep` to somewhere else. -/
theorem Polled.of_elsewhere {σ σ' : System} (h : Polled σ) {new : List Event}
    (hevents : σ'.events = σ.events ++ new) (hnew : ∀ e ∈ new, e ≠ noDataPoll)
    (hfrom : ∀ pipe, σ.server ≠ .running pipe .waiting)
    (hto : ∀ pipe, σ'.server ≠ .running pipe .waiting)
    (hreading : ∀ data, σ'.server ≠ .running .disconnected (.reading data)) : Polled σ' :=
  h.of_quiet hevents hnew (fun hgone => absurd hgone (not_foundGone hfrom))
    (fun pipe hserver => absurd hserver (hto pipe)) hreading

theorem apply_closing (call : ClientCall) (q : List (Message UInt8)) :
    call.apply (.closing q) = .closing q := by
  cases call <;> rfl

/-- No call of the client cuts it off. -/
theorem apply_eq_disconnected {call : ClientCall} {pipe : MessagePipe UInt8}
    (h : call.apply pipe = .disconnected) : pipe = .disconnected := by
  cases call <;> cases pipe <;> first | rfl | cases h

theorem read_eq_disconnected {pipe : MessagePipe UInt8} {n : Nat}
    (h : (pipe.read n).2 = .disconnected) : pipe = .disconnected := by
  cases pipe <;> first | rfl | cases h

theorem written_of_mem_record {call : ClientCall} {pipe : MessagePipe UInt8} {e : Event}
    (h : e ∈ call.record pipe) : ∃ bytes, e = .written bytes := by
  unfold ClientCall.record at h
  split at h
  · exact ⟨_, List.mem_singleton.mp h⟩
  · cases h

/-- A read does not cut the instance off. -/
theorem Polled.read_ne_disconnected {σ : System} (h : Polled σ) {pipe : MessagePipe UInt8}
    {data : Bytes} (at_ : σ.server = .running pipe (.reading data)) :
    (pipe.read buffSize).2 ≠ .disconnected := by
  intro hread
  exact h.reading data (read_eq_disconnected hread ▸ at_)

/-- A logger that keeps the last error leaves the code of the poll behind the wait. -/
theorem eq_serverError_of_code {a : ServerAnswers} (hlog : a.log = none) {σ : System}
    {err : ErrorCode} (code : err = σ.serverError ∨ some err = a.log) : err = σ.serverError := by
  rcases code with hsame | hlogged
  · exact hsame
  · rw [hlog] at hlogged
    cases hlogged

/-- Every step whose logger keeps the last error keeps the invariant. -/
theorem polled_step {σ σ' : System} {a : Action} (hI : Polled σ) (hlog : a.KeepsLastError)
    (h : Transition σ a σ') : Polled σ' := by
  cases h with
  | hooked loaded run =>
    exact hI.of_quiet rfl (by simp [noDataPoll]) id hI.waiting hI.reading
  | unhooked unloaded => exact hI
  | clientIdle closed => exact hI
  | @clientCall call pipe loop at_ =>
    refine hI.of_quiet rfl ?quiet ?gone ?waiting ?reading
    case quiet =>
      intro e he
      obtain ⟨bytes, rfl⟩ := written_of_mem_record he
      simp [noDataPoll]
    case gone =>
      intro ⟨q, hserver, herror⟩
      obtain ⟨rfl, rfl⟩ := Server.running.inj (at_.symm.trans hserver)
      exact ⟨q, by rw [apply_closing], herror⟩
    case waiting =>
      intro pipe' hserver herror
      obtain ⟨rfl, rfl⟩ := Server.running.inj hserver
      -- a client that is gone cannot come back
      obtain ⟨q, rfl⟩ := hI.waiting pipe at_ herror
      exact ⟨q, apply_closing call q⟩
    case reading =>
      intro data hserver
      obtain ⟨hpipe, rfl⟩ := Server.running.inj hserver
      exact hI.reading data (apply_eq_disconnected hpipe ▸ at_)
  | created at_ =>
    exact hI.of_elsewhere (List.append_nil _).symm (by simp) (by simp [at_]) (by simp) (by simp)
  | notCreated at_ =>
    exact hI.of_elsewhere (List.append_nil _).symm (by simp) (by simp [at_]) (by simp [at_])
      (by simp [at_])
  | loopEnds at_ flag =>
    exact hI.of_elsewhere (List.append_nil _).symm (by simp) (by simp [at_]) (by simp) (by simp)
  | pollSucceeds at_ flag =>
    exact hI.of_elsewhere rfl (by simp [noDataPoll]) (by simp [at_]) (by simp) (by simp)
  | pollFinds at_ flag =>
    exact hI.of_elsewhere rfl (by simp [noDataPoll]) (by simp [at_]) (by simp) (by simp)
  | pollFails at_ flag kind =>
    have hnot : ¬ FoundGone σ := not_foundGone (by simp [at_])
    rcases kind with ⟨rfl, rfl⟩ | ⟨⟨q, rfl⟩, rfl⟩
    · -- nobody has come yet
      refine hI.of_quiet rfl (by simp [noDataPoll]) (fun hgone => absurd hgone hnot) ?_ (by simp)
      have hcode : errorOf .listening ≠ errorNoData := by decide
      intro pipe _ herror
      exact absurd herror hcode
    · -- the client is gone, and no earlier one was left on the pipe
      refine ⟨fun pipe hserver _ => ?_, by simp, fun _ => ⟨q, rfl, rfl⟩, ?_⟩
      · obtain ⟨rfl, -⟩ := Server.running.inj hserver
        exact ⟨q, rfl⟩
      · exact hI.separated.append fun _ hopen => hnot (hI.unanswered hopen)
  | @served a pipe data m br c at_ read run =>
    refine hI.of_elsewhere rfl (by simp [noDataPoll]) (by simp [at_]) (fun pipe' hserver => ?_)
      (fun data' hserver => ?_)
    · have hloop := (Server.running.inj hserver).2
      split at hloop <;> cases hloop
    · exact hI.read_ne_disconnected at_ (Server.running.inj hserver).1
  | readPart at_ read =>
    refine hI.of_elsewhere (List.append_nil _).symm (by simp) (by simp [at_]) (by simp)
      (fun data' hserver => ?_)
    exact hI.read_ne_disconnected at_ (Server.running.inj hserver).1
  | readFails at_ read kind =>
    refine hI.of_elsewhere (List.append_nil _).symm (by simp) (by simp [at_]) (by simp)
      (fun data' hserver => ?_)
    exact hI.read_ne_disconnected at_ (Server.running.inj hserver).1
  | readBroken at_ read =>
    exact hI.of_elsewhere (List.append_nil _).symm (by simp) (by simp [at_]) (by simp) (by simp)
  | @waits a pipe err at_ kind code =>
    have herror : σ.serverError ≠ errorNoData := eq_serverError_of_code hlog code ▸ kind
    refine hI.of_quiet (List.append_nil _).symm (by simp) ?_ (by simp) (by simp)
    intro ⟨q, _, hgone⟩
    exact absurd hgone herror
  | cutsOff at_ code =>
    refine ⟨by simp, by simp, fun hopen => ?_, ?_⟩
    · -- the call is the answer to every poll before it
      rcases unanswered_append hopen with hpoll | ⟨-, hother⟩
      · cases hpoll
      · exact absurd rfl hother
    · exact hI.separated.append fun hpoll => by cases hpoll
  | closes at_ =>
    exact hI.of_elsewhere rfl (by simp [noDataPoll]) (by simp [at_]) (by simp) (by simp)
  | unloads at_ =>
    exact hI.of_elsewhere (List.append_nil _).symm (by simp) (by simp [at_]) (by simp) (by simp)

/-! ## Every run -/

/-- A call of `DisconnectNamedPipe` comes behind a poll that has found the client gone. -/
theorem foundGone_of_disconnect {σ σ' : System} {a : Action} (hI : Polled σ)
    (hlog : a.KeepsLastError) (h : Transition σ a σ')
    (hevents : σ'.events = σ.events ++ [.disconnectNamedPipe]) : FoundGone σ := by
  cases h with
  | @cutsOff a pipe at_ code =>
    have herror : σ.serverError = errorNoData := (eq_serverError_of_code hlog code).symm
    obtain ⟨q, rfl⟩ := hI.waiting pipe at_ herror
    exact ⟨q, at_, herror⟩
  | @clientCall call pipe loop at_ =>
    have hmem : Event.disconnectNamedPipe ∈ call.record pipe := by
      rw [List.append_cancel_left hevents]
      exact List.mem_singleton_self _
    obtain ⟨bytes, hbytes⟩ := written_of_mem_record hmem
    cases hbytes
  -- the other steps record another event or none
  | _ => simp at hevents

theorem reconnectionSafe_of_polled {σ : System} (h : Polled σ) : ReconnectionSafe σ := by
  refine ⟨fun a σ' hlog hstep hevents q loop hserver => ?_, h.reading, h.separated⟩
  obtain ⟨q', hgone, -⟩ := foundGone_of_disconnect h hlog (transition_of_step hstep) hevents
  rw [hserver] at hgone
  cases hgone

/-- **Reconnection**: in every run of the server against clients that come and go, no live client
is cut off, nothing is read from an instance that is cut off, and a client that is gone is cut off
before it is found again. -/
theorem reconnection_safe (actions : List Action) (hlog : ∀ a ∈ actions, a.KeepsLastError) :
    HoldsAlong step ReconnectionSafe .init actions :=
  holdsAlong_of_stepsMeet (C := fun _ a => a.KeepsLastError) (fun _ => reconnectionSafe_of_polled)
    (fun _ _ _ hI hkeeps hstep => polled_step hI hkeeps (transition_of_step hstep)) polled_init
    (stepsMeet_of_forall hlog)

/-- Two clients, one after the other. The first one leaves while the server sleeps. -/
def twoClients : List Action :=
  [.server .plain, .server .plain, .client .connect, .client (.write (ascii "!getserver")),
    .client .close, .server .plain, .server .plain, .server .plain, .server .plain,
    .client .connect, .server .plain]

theorem two_clients_safe : HoldsAlong step ReconnectionSafe .init twoClients :=
  reconnection_safe twoClients (by decide)

end Doreto.Interop
