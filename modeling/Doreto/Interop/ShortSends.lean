import Doreto.Interop.PipeServer

/-!
# Short Sends

The real `send` may accept fewer bytes than it is given and return how many it took. For a message
that is forwarded, `MySend` hands that number to `RunPipeServer`, which writes it to the debug log
and goes on with the next message. What `send` did not accept is not sent again.

A run is followed by a record of the messages that the forward branch had for a socket and of the
bytes that the socket accepted of them.

## Main results

- `remainders_of_transition`: what is left of a message in the pipe is its end.
- `allAccepted_iff_sendsWhole`: in a run every socket gets exactly the messages forwarded to it
  when every send behind a forward accepts its whole message, and in no other run.
-/

namespace Doreto.Interop

open Doreto.Lib

/-! ## The record -/

/-- The system with a record of what was forwarded and what was accepted, by socket. -/
structure Injected where
  system : System
  /-- The messages of the client that reached the forward branch while a socket was there. -/
  forwarded : List (Socket × Bytes)
  /-- The bytes that the sockets accepted of them. -/
  accepted : List (Socket × Bytes)

def Injected.init : Injected :=
  ⟨.init, [], []⟩

/-- The message that a step forwards, as the client wrote it. -/
def forwardedIn (g : Globals) : Option Delivery → List (Socket × Bytes)
  | some (_, m, .forward) => route g.gSocket m.whole
  | _ => []

/-- The bytes that are accepted in a step, out of the sends of the messages served in it. -/
def acceptedIn (served : List ServedMessage) : Option Delivery → List (Socket × Bytes)
  | some (a, _, .forward) =>
      (served.flatMap fun m => sends m.calls).map
        fun (s, bytes) => (s, bytes.take a.send.transferred)
  | _ => []

/-- A step of the system, recorded. -/
def injectedStep (τ : Injected) (a : Action) : Option Injected :=
  (step τ.system a).map fun σ' =>
    let served := servedMessages (σ'.events.drop τ.system.events.length)
    { system := σ'
      forwarded := τ.forwarded ++ forwardedIn τ.system.globals (servedIn τ.system a)
      accepted := τ.accepted ++ acceptedIn served (servedIn τ.system a) }

/-- The bytes for one socket, in order. -/
def streamTo (s : Socket) (packets : List (Socket × Bytes)) : Bytes :=
  (packets.filter fun packet => packet.1 = s).flatMap Prod.snd

/-- Every socket accepted exactly the messages that were forwarded to it, in order. -/
def AllAccepted (τ : Injected) : Prop :=
  ∀ s, streamTo s τ.accepted = streamTo s τ.forwarded

/-- A message that is forwarded to a socket was read in one piece, as every message of at most
`BUFF_SIZE` bytes is, and the send accepts all of it. -/
def SendsWhole (τ : Injected) (a : Action) : Prop :=
  ∀ answers m, servedIn τ.system a = some (answers, m, .forward) →
    τ.system.globals.gSocket ≠ invalidSocket →
      m.unread = m.whole ∧ m.whole.length ≤ answers.send.transferred

/-! ## Streams -/

theorem streamTo_append (s : Socket) (xs ys : List (Socket × Bytes)) :
    streamTo s (xs ++ ys) = streamTo s xs ++ streamTo s ys := by
  simp [streamTo]

theorem streamTo_singleton (s s' : Socket) (bytes : Bytes) :
    streamTo s [(s', bytes)] = if s' = s then bytes else [] := by
  by_cases hs : s' = s <;> simp [streamTo, hs]

/-! ## What is left of a message -/

/-- What is left of a message is its end. -/
def IsRemainder (m : Message UInt8) : Prop :=
  m.unread <:+ m.whole

theorem isRemainder_written (bytes : Bytes) : IsRemainder (.written bytes) :=
  List.suffix_refl bytes

theorem isRemainder_drop (m : Message UInt8) (h : IsRemainder m) :
    IsRemainder ⟨m.whole, m.unread.drop buffSize⟩ :=
  (List.drop_suffix buffSize _).trans h

/-- Every step leaves the end of a message in the pipe. -/
theorem remainders_of_transition {σ σ' : System} {a : Action} (hI : σ.EachMessage IsRemainder)
    (h : Transition σ a σ') : σ'.EachMessage IsRemainder :=
  eachMessage_of_transition isRemainder_written (fun m hm _ => isRemainder_drop m hm) hI h

/-- What is served of a message is its end. -/
theorem Serves.unread_isSuffix {σ σ' : System} {a : ServeAnswers} {m : Message UInt8} {br : Branch}
    {c : Ctx} (h : Serves σ a m br c σ') (hI : σ.EachMessage IsRemainder) :
    m.unread <:+ m.whole := by
  obtain ⟨pipe, data, behind, at_, read, -⟩ := h.run
  exact ((hI pipe _ at_).read fun m hm _ => isRemainder_drop m hm).1 m read

/-! ## One step -/

/-- Behind equal streams, the streams stay equal exactly when equal bytes are added to them. -/
theorem allAccepted_append_iff {τ : Injected} (h : AllAccepted τ) (σ' : System)
    (forwarded accepted : List (Socket × Bytes)) :
    AllAccepted ⟨σ', τ.forwarded ++ forwarded, τ.accepted ++ accepted⟩ ↔
      ∀ s, streamTo s accepted = streamTo s forwarded := by
  apply forall_congr'
  intro s
  rw [streamTo_append, streamTo_append, h s]
  exact List.append_right_inj _

/-- What a send takes of the end of a message is the message exactly when the end is all of it and
the send takes all of that. -/
theorem take_eq_whole_iff {m : Message UInt8} (hend : m.unread <:+ m.whole) (n : Nat) :
    m.unread.take n = m.whole ↔ m.unread = m.whole ∧ m.whole.length ≤ n := by
  constructor
  · intro htake
    have hlen := congrArg List.length htake
    rw [List.length_take] at hlen
    have hle := hend.length_le
    exact ⟨hend.eq_of_length (by omega), by omega⟩
  · intro ⟨heq, hle⟩
    rw [heq, List.take_of_length_le hle]

/-- The bytes that are accepted behind a forward are the message for every socket exactly when the
send accepts the whole message. -/
theorem forward_accepted_iff {g : Globals} {a : ServeAnswers} {m : Message UInt8}
    (hend : m.unread <:+ m.whole) :
    (∀ s, streamTo s ((route g.gSocket m.unread).map
        fun (s, bytes) => (s, bytes.take a.send.transferred)) =
          streamTo s (route g.gSocket m.whole)) ↔
      (g.gSocket ≠ invalidSocket → m.unread = m.whole ∧ m.whole.length ≤ a.send.transferred) := by
  by_cases hsocket : g.gSocket = invalidSocket
  · -- nothing is sent, and nothing was to be sent
    simp [route, hsocket]
  · rw [← take_eq_whole_iff hend]
    simp only [route, if_neg hsocket, List.map_cons, List.map_nil, streamTo_singleton]
    constructor
    · intro hall _
      simpa using hall g.gSocket
    · intro heq s
      rw [heq hsocket]

/-- From a state in which every socket accepted its messages, a step leads to one exactly when the
send behind a forward accepts the whole message. -/
theorem allAccepted_iff_sendsWhole_step {τ τ' : Injected} {a : Action}
    (hI : τ.system.EachMessage IsRemainder) (h : AllAccepted τ) (hstep : injectedStep τ a = some τ') :
    AllAccepted τ' ↔ SendsWhole τ a := by
  obtain ⟨σ', hσ', rfl⟩ := Option.map_eq_some_iff.mp hstep
  rw [allAccepted_append_iff h]
  rcases serves_of_transition (transition_of_step hσ') with
    ⟨answers, m, br, c, hserved, hserves⟩ | ⟨hserved, -⟩
  · rw [SendsWhole, hserved, hserves.newMessages]
    cases br with
    | forward =>
      have hsends : ([⟨m, .forward, c.globals.gSocket, c.calls⟩] : List ServedMessage).flatMap
          (fun m => sends m.calls) = route τ.system.globals.gSocket m.unread := by
        rw [List.flatMap_singleton]
        exact hserves.sends_forward
      simp only [acceptedIn, forwardedIn, hsends]
      rw [forward_accepted_iff (hserves.unread_isSuffix hI)]
      constructor
      · intro hwhole answers' m' heq hsocket
        obtain ⟨rfl, rfl, -⟩ : answers = answers' ∧ m = m' ∧ True := by simpa using heq
        exact hwhole hsocket
      · intro hwhole
        exact hwhole answers m rfl
    | _ =>
      -- a command forwards nothing
      refine iff_of_true (fun s => rfl) fun answers' m' heq => ?_
      cases heq
  · rw [SendsWhole, hserved]
    refine iff_of_true (fun s => rfl) fun answers' m' heq => ?_
    cases heq

/-! ## Every run -/

theorem remainders_of_step {τ τ' : Injected} {a : Action} (hI : τ.system.EachMessage IsRemainder)
    (hstep : injectedStep τ a = some τ') : τ'.system.EachMessage IsRemainder := by
  obtain ⟨σ', hσ', rfl⟩ := Option.map_eq_some_iff.mp hstep
  exact remainders_of_transition hI (transition_of_step hσ')

/-- **Short sends**: in a run of the game, the client and the server every socket has accepted
exactly the messages forwarded to it, in every state, exactly when every send behind a forward
accepts its whole message. -/
theorem allAccepted_iff_sendsWhole (actions : List Action) :
    HoldsAlong injectedStep AllAccepted .init actions ↔
      StepsMeet injectedStep SendsWhole .init actions := by
  apply holdsAlong_iff_stepsMeet (I := fun τ => τ.system.EachMessage IsRemainder)
  · intro τ a τ' hI hstep
    exact remainders_of_step hI hstep
  · intro τ a τ' hI h hstep
    exact allAccepted_iff_sendsWhole_step hI h hstep
  · exact .of_stopped (by simp [Injected.init, System.init])
  · intro s
    rfl

/-- The game connects the socket 5, a client joins and writes `hello`, and the send behind the
forward accepts two bytes. -/
def shortSend : List Action :=
  [.game 0 (.connect ⟨.ok ⟨172, 65, 206, 180⟩, none, .ok 0⟩ (.connected none) 5 [2, 0, 21, 187] 16),
    .server .plain, .client .connect, .client (.write (ascii "hello")), .server .plain,
    .server { ServerAnswers.plain with
      serve := { ServeAnswers.failing with send := .sent 2 none } }]

/-- The last three bytes are not sent. -/
theorem short_send_drops_rest : ¬ HoldsAlong injectedStep AllAccepted .init shortSend := by
  intro h
  obtain ⟨τ, hexec, haccepted, hforwarded⟩ : ∃ τ, exec injectedStep .init shortSend = some τ ∧
      τ.accepted = [(5, ascii "he")] ∧ τ.forwarded = [(5, ascii "hello")] := ⟨_, rfl, rfl, rfl⟩
  have hstream := h.last hexec 5
  rw [haccepted, hforwarded] at hstream
  exact absurd hstream (by decide)

end Doreto.Interop
