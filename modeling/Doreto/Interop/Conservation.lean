import Doreto.Interop.ConnectedFlag
import Doreto.Interop.Framing
import Doreto.Interop.Reconnection

/-!
# What Becomes of the Client's Messages

A message that the pipe takes is served once, in its turn, or it is still in the pipe. There is one
exception. Before the server has found a client for the first time it sleeps between two polls, and
a client that joins, writes and leaves meanwhile is cut off unread. Behind the first
`DisconnectNamedPipe` the server waits in `ReadFile`, so that this cannot happen again.

## Main results

- `accounts_step`: every step keeps the balance.
- `conserved_along`: in every run, what was written is what was missed, what was served and what is
  in the pipe.
-/

namespace Doreto.Interop

open Doreto.Lib

/-! ## The balance -/

/-- The server has found a client or has cut one off. -/
def Event.settles : Event → Bool
  | .connectNamedPipe (.error .connected) => true
  | .disconnectNamedPipe => true
  | _ => false

/-- The messages of a client that was gone before the server had found any. -/
def missedMessages (events : List Event) : List Bytes :=
  match events.dropWhile fun e => !e.settles with
  | .disconnectNamedPipe :: _ => writtenMessages (events.takeWhile fun e => !e.settles)
  | _ => []

/-- The messages that were served, as the client wrote them. -/
def servedWhole (events : List Event) : List Bytes :=
  (servedMessages events).map fun m => m.source.whole

/-- No message of the client is lost, served twice or served out of its turn, but for those that
were missed. -/
structure Conserved (σ : System) : Prop where
  /-- While the handle is open, what was not served is in the pipe. -/
  inPipe : ∀ pipe loop, σ.server = .running pipe loop →
    writtenMessages σ.events =
      missedMessages σ.events ++ (servedWhole σ.events ++ pipe.pending)
  inOrder : missedMessages σ.events ++ servedWhole σ.events <+: writtenMessages σ.events

/-- The server has not found a client yet. -/
structure Polling (σ : System) : Prop where
  served : servedMessages σ.events = []
  flag : σ.globals.gIsClientConnected = false
  server : σ.server = .creating ∧ writtenMessages σ.events = [] ∨
    ∃ pipe, pipe ≠ .disconnected ∧
      (σ.server = .running pipe .head ∨ σ.server = .running pipe .waiting)

/-- The balance, and what the server knows of the pipe. -/
structure Accounts (σ : System) : Prop extends Conserved σ where
  polling : σ.events.any Event.settles = false → Polling σ
  /-- Once it has found a client, the server leaves its read loop on an empty pipe. -/
  settled : σ.events.any Event.settles = true → σ.server ≠ .creating ∧
    ∀ pipe loop, σ.server = .running pipe loop →
      σ.globals.gIsClientConnected = false ∨ loop = .waiting →
      pipe = .closing [] ∨ pipe = .disconnected

/-! ## Messages that were missed -/

theorem missedMessages_of_not_settled {events : List Event}
    (h : events.any Event.settles = false) : missedMessages events = [] := by
  have hdrop : events.dropWhile (fun e => !e.settles) = [] := by
    rw [List.dropWhile_eq_nil_iff]
    intro e he
    simpa using List.any_eq_false.mp h e he
  rw [missedMessages, hdrop]

/-- Nothing is missed once the server has found a client or has cut one off. -/
theorem missedMessages_append_of_settled {events : List Event}
    (h : events.any Event.settles = true) (extra : List Event) :
    missedMessages (events ++ extra) = missedMessages events := by
  obtain ⟨e, he, hsettles⟩ := List.any_eq_true.mp h
  have hdrop : events.dropWhile (fun e => !e.settles) ≠ [] := by
    intro hnil
    have hnot := List.dropWhile_eq_nil_iff.mp hnil e he
    simp [hsettles] at hnot
  have htake : (events.takeWhile fun e => !e.settles).length ≠ events.length := by
    intro hlen
    have hwhole := (List.takeWhile_prefix _).eq_of_length hlen
    have hnot := List.takeWhile_eq_self_iff.mp hwhole e he
    simp [hsettles] at hnot
  rw [missedMessages, missedMessages, List.dropWhile_append, List.takeWhile_append, if_neg htake]
  cases hcase : events.dropWhile fun e => !e.settles with
  | nil => exact absurd hcase hdrop
  | cons e' rest => cases e' <;> rfl

theorem settles_append (events extra : List Event) :
    (events ++ extra).any Event.settles = (events.any Event.settles || extra.any Event.settles) :=
  List.any_append

/-- Events that settle nothing leave what was missed as it is. -/
theorem missedMessages_append {events extra : List Event}
    (h : extra.any Event.settles = false) :
    missedMessages (events ++ extra) = missedMessages events := by
  cases hevents : events.any Event.settles with
  | true => exact missedMessages_append_of_settled hevents extra
  | false =>
    have hall : (events ++ extra).any Event.settles = false := by
      rw [settles_append, hevents, h]
      rfl
    rw [missedMessages_of_not_settled hall, missedMessages_of_not_settled hevents]

/-- A client that is cut off before one was found has written in vain. -/
theorem missedMessages_disconnect {events : List Event}
    (h : events.any Event.settles = false) :
    missedMessages (events ++ [.disconnectNamedPipe]) = writtenMessages events := by
  have hall : ∀ e ∈ events, (!e.settles) = true := by
    intro e he
    simpa using List.any_eq_false.mp h e he
  rw [missedMessages, List.dropWhile_append_of_pos hall, List.takeWhile_append_of_pos hall]
  simp [Event.settles]

/-- A client that is found has all its messages in the pipe. -/
theorem missedMessages_found {events : List Event} (h : events.any Event.settles = false) :
    missedMessages (events ++ [.connectNamedPipe (.error .connected)]) = [] := by
  have hall : ∀ e ∈ events, (!e.settles) = true := by
    intro e he
    simpa using List.any_eq_false.mp h e he
  rw [missedMessages, List.dropWhile_append_of_pos hall]
  rfl

theorem servedMessages_append (xs ys : List Event) :
    servedMessages (xs ++ ys) = servedMessages xs ++ servedMessages ys :=
  List.filterMap_append

theorem servedWhole_append (xs ys : List Event) :
    servedWhole (xs ++ ys) = servedWhole xs ++ servedWhole ys := by
  rw [servedWhole, servedMessages_append, List.map_append]
  rfl

/-! ## Steps that keep the balance -/

/-- A step of a running server that takes from the pipe what it serves and adds what is written. -/
theorem Conserved.of_flow {σ σ' : System} (h : Conserved σ) {extra : List Event}
    {pipe pipe' : MessagePipe UInt8} {loop loop' : Loop} (at_ : σ.server = .running pipe loop)
    (hserver : σ'.server = .running pipe' loop') (hevents : σ'.events = σ.events ++ extra)
    (hmissed : missedMessages σ'.events = missedMessages σ.events)
    (hflow : pipe.pending ++ writtenMessages extra = servedWhole extra ++ pipe'.pending) :
    Conserved σ' := by
  have hbalance : writtenMessages σ'.events =
      missedMessages σ'.events ++ (servedWhole σ'.events ++ pipe'.pending) := by
    rw [hmissed, hevents, writtenMessages_append, h.inPipe pipe loop at_, servedWhole_append]
    simp only [List.append_assoc]
    rw [hflow]
  refine ⟨fun p l hrunning => ?_, ⟨pipe'.pending, ?_⟩⟩
  · obtain ⟨rfl, -⟩ := Server.running.inj (hserver.symm.trans hrunning)
    exact hbalance
  · rw [hbalance, List.append_assoc]

/-- A step of a running server that neither takes a message from the pipe nor adds one. -/
theorem Conserved.of_still {σ σ' : System} (h : Conserved σ) {extra : List Event}
    {pipe pipe' : MessagePipe UInt8} {loop loop' : Loop} (at_ : σ.server = .running pipe loop)
    (hserver : σ'.server = .running pipe' loop') (hevents : σ'.events = σ.events ++ extra)
    (hmissed : missedMessages σ'.events = missedMessages σ.events)
    (hwritten : writtenMessages extra = []) (hserved : servedWhole extra = [])
    (hpending : pipe'.pending = pipe.pending) : Conserved σ' :=
  h.of_flow at_ hserver hevents hmissed (by rw [hwritten, hserved, hpending, List.append_nil]; rfl)

/-- A step that leaves the pipe to its own, or closes its handle. -/
theorem Conserved.of_silent {σ σ' : System} (h : Conserved σ) {extra : List Event}
    (hserver : ∀ pipe loop, σ'.server = .running pipe loop → σ.server = .running pipe loop)
    (hevents : σ'.events = σ.events ++ extra)
    (hmissed : missedMessages σ'.events = missedMessages σ.events)
    (hwritten : writtenMessages extra = []) (hserved : servedWhole extra = []) : Conserved σ' := by
  have hall : writtenMessages σ'.events = writtenMessages σ.events ∧
      servedWhole σ'.events = servedWhole σ.events := by
    rw [hevents, writtenMessages_append, servedWhole_append, hwritten, hserved]
    simp
  constructor
  · intro pipe loop hrunning
    rw [hall.1, hall.2, hmissed]
    exact h.inPipe pipe loop (hserver pipe loop hrunning)
  · rw [hall.1, hall.2, hmissed]
    exact h.inOrder

/-! ## Every step -/

theorem settles_record (call : ClientCall) (pipe : MessagePipe UInt8) :
    (call.record pipe).any Event.settles = false := by
  cases call <;> cases pipe <;> rfl

theorem Conserved.of_clientCall {σ : System} (h : Conserved σ) {pipe : MessagePipe UInt8}
    {loop : Loop} (at_ : σ.server = .running pipe loop) (call : ClientCall) :
    Conserved { σ with
      server := .running (call.apply pipe) loop
      events := σ.events ++ call.record pipe } := by
  refine h.of_flow at_ rfl rfl (missedMessages_append (settles_record call pipe)) ?_
  rw [servedWhole, servedMessages_record, pending_apply]
  rfl

theorem accounts_init : Accounts .init := by
  refine ⟨⟨fun pipe loop hserver => ?_, List.prefix_refl _⟩, fun _ => ?_, fun hsettled => ?_⟩
  · cases hserver
  · exact ⟨rfl, rfl, .inl ⟨rfl, rfl⟩⟩
  · cases hsettled

/-- Before the server has found a client, it polls or creates the pipe. -/
theorem Polling.not_elsewhere {σ : System} (h : Polling σ) {pipe : MessagePipe UInt8} {loop : Loop}
    (at_ : σ.server = .running pipe loop) :
    pipe ≠ .disconnected ∧ (loop = .head ∨ loop = .waiting) := by
  rcases h.server with ⟨hcreating, -⟩ | ⟨pipe', hpipe, hserver | hserver⟩
  · rw [at_] at hcreating
    cases hcreating
  · obtain ⟨rfl, rfl⟩ := Server.running.inj (at_.symm.trans hserver)
    exact ⟨hpipe, .inl rfl⟩
  · obtain ⟨rfl, rfl⟩ := Server.running.inj (at_.symm.trans hserver)
    exact ⟨hpipe, .inr rfl⟩

theorem Polling.not_reading {σ : System} (h : Polling σ) {pipe : MessagePipe UInt8} {data : Bytes} :
    σ.server ≠ .running pipe (.reading data) := by
  intro at_
  rcases (h.not_elsewhere at_).2 with hloop | hloop <;> cases hloop

/-- Events that settle nothing leave the server polling. -/
theorem Accounts.of_polling {σ σ' : System} (h : Conserved σ') (hp : Polling σ')
    {extra : List Event} (hevents : σ'.events = σ.events ++ extra)
    (hnot : σ.events.any Event.settles = false) (hextra : extra.any Event.settles = false) :
    Accounts σ' := by
  refine ⟨h, fun _ => hp, fun hsettled => ?_⟩
  rw [hevents, settles_append, hnot, hextra] at hsettled
  cases hsettled

/-- A step of a server that has not found a client. -/
theorem accounts_step_of_polling {σ σ' : System} {a : Action} (hI : Accounts σ)
    (hnot : σ.events.any Event.settles = false) (h : Transition σ a σ') : Accounts σ' := by
  have hp := hI.polling hnot
  have hserved : servedWhole σ.events = [] := by
    rw [servedWhole, hp.served]
    rfl
  have hmissed := missedMessages_of_not_settled hnot
  cases h with
  | hooked loaded run =>
    refine .of_polling (hI.toConserved.of_silent (fun _ _ h => h) rfl
      (missedMessages_append rfl) rfl rfl) ⟨?_, ?_, ?_⟩ rfl hnot rfl
    · rw [servedMessages_append, hp.served]
      rfl
    · rw [globals_hooked run, remember_gIsClientConnected]
      exact hp.flag
    · rw [writtenMessages_append]
      simpa [writtenMessages] using hp.server
  | unhooked unloaded => exact hI
  | clientIdle closed => exact hI
  | @clientCall call pipe loop at_ =>
    obtain ⟨hpipe, hloop⟩ := hp.not_elsewhere at_
    refine .of_polling (hI.toConserved.of_clientCall at_ call) ⟨?_, hp.flag, .inr ⟨call.apply pipe,
      fun hcut => hpipe (apply_eq_disconnected hcut), ?_⟩⟩ rfl hnot (settles_record call pipe)
    · rw [servedMessages_append, hp.served, servedMessages_record]
      rfl
    · rcases hloop with rfl | rfl <;> simp
  | created at_ =>
    have hwritten : writtenMessages σ.events = [] := by
      rcases hp.server with ⟨-, hnone⟩ | ⟨pipe, -, hserver | hserver⟩
      · exact hnone
      · rw [at_] at hserver
        cases hserver
      · rw [at_] at hserver
        cases hserver
    refine .of_polling ⟨fun pipe loop hserver => ?_, hI.inOrder⟩
      ⟨hp.served, hp.flag, .inr ⟨.listening, by simp, .inl rfl⟩⟩ (List.append_nil _).symm hnot rfl
    obtain ⟨rfl, -⟩ := Server.running.inj hserver
    rw [hwritten, hmissed, hserved]
    rfl
  | notCreated at_ =>
    exact .of_polling (hI.toConserved.of_silent (fun _ _ h => h) (List.append_nil _).symm rfl rfl rfl)
      ⟨hp.served, hp.flag, hp.server⟩ (List.append_nil _).symm hnot rfl
  | loopEnds at_ flag =>
    have hclear := hp.flag
    rw [flag] at hclear
    cases hclear
  | pollSucceeds at_ flag => exact absurd rfl (hp.not_elsewhere at_).1
  | @pollFinds a q at_ flag =>
    refine ⟨hI.toConserved.of_still at_ rfl rfl
      ((missedMessages_found hnot).trans hmissed.symm) rfl rfl rfl, fun hnot' => ?_,
      fun _ => ⟨by simp, by simp⟩⟩
    simp [Event.settles] at hnot'
  | @pollFails a pipe why at_ flag kind =>
    have hextra : [Event.connectNamedPipe (.error why)].any Event.settles = false := by
      rcases kind with ⟨-, rfl⟩ | ⟨-, rfl⟩ <;> rfl
    refine .of_polling (hI.toConserved.of_still at_ rfl rfl (missedMessages_append hextra) rfl rfl
      rfl) ⟨?_, rfl, .inr ⟨pipe, (hp.not_elsewhere at_).1, .inr rfl⟩⟩ rfl hnot hextra
    rw [servedMessages_append, hp.served]
    rfl
  | served at_ read run => exact absurd at_ hp.not_reading
  | readPart at_ read => exact absurd at_ hp.not_reading
  | readFails at_ read kind => exact absurd at_ hp.not_reading
  | readBroken at_ read => exact absurd at_ hp.not_reading
  | waits at_ kind code =>
    exact .of_polling (hI.toConserved.of_still at_ rfl (List.append_nil _).symm rfl rfl rfl rfl)
      ⟨hp.served, rfl, .inr ⟨_, (hp.not_elsewhere at_).1, .inl rfl⟩⟩ (List.append_nil _).symm hnot rfl
  | @cutsOff a pipe at_ code =>
    -- what was written so far is missed
    have hcut := missedMessages_disconnect hnot
    have hwritten : writtenMessages (σ.events ++ [.disconnectNamedPipe]) =
        writtenMessages σ.events := by simp [writtenMessages]
    have hserved' : servedWhole (σ.events ++ [.disconnectNamedPipe]) = [] := by
      rw [servedWhole_append, hserved]
      rfl
    refine ⟨⟨fun pipe' loop' hserver => ?_, ?_⟩, fun hnot' => ?_,
      fun _ => ⟨by simp, fun pipe' loop' hserver _ => ?_⟩⟩
    · obtain ⟨rfl, -⟩ := Server.running.inj hserver
      rw [hwritten, hcut, hserved']
      exact (List.append_nil _).symm
    · rw [hwritten, hcut, hserved', List.append_nil]
    · simp [Event.settles] at hnot'
    · exact .inr (Server.running.inj hserver).1.symm
  | closes at_ =>
    rcases (hp.not_elsewhere at_).2 with hloop | hloop <;> cases hloop
  | unloads at_ =>
    rcases hp.server with ⟨hserver, -⟩ | ⟨pipe, -, hserver | hserver⟩ <;> rw [at_] at hserver <;>
      cases hserver

/-- A step of a running server that has found a client or has cut one off. -/
theorem Accounts.of_settled {σ σ' : System} (h : Conserved σ')
    (hsettled : σ.events.any Event.settles = true) {extra : List Event}
    (hevents : σ'.events = σ.events ++ extra) (hserver : σ'.server ≠ .creating)
    (hpipe : ∀ pipe loop, σ'.server = .running pipe loop →
      σ'.globals.gIsClientConnected = false ∨ loop = .waiting →
      pipe = .closing [] ∨ pipe = .disconnected) : Accounts σ' := by
  refine ⟨h, fun hnot => ?_, fun _ => ⟨hserver, hpipe⟩⟩
  rw [hevents, settles_append, hsettled] at hnot
  cases hnot

/-- A step of a server that has found a client or has cut one off. -/
theorem accounts_step_of_settled {σ σ' : System} {a : Action} (hI : Accounts σ)
    (hsettled : σ.events.any Event.settles = true) (h : Transition σ a σ') : Accounts σ' := by
  obtain ⟨hcreated, hpipe⟩ := hI.settled hsettled
  have hkept := missedMessages_append_of_settled hsettled
  cases h with
  | hooked loaded run =>
    refine .of_settled (hI.toConserved.of_silent (fun _ _ h => h) rfl (hkept _) rfl rfl) hsettled
      rfl hcreated fun pipe loop hserver hpast => hpipe pipe loop hserver ?_
    rwa [globals_hooked run, remember_gIsClientConnected] at hpast
  | unhooked unloaded => exact hI
  | clientIdle closed => exact hI
  | @clientCall call pipe loop at_ =>
    refine .of_settled (hI.toConserved.of_clientCall at_ call) hsettled rfl (by simp)
      fun pipe' loop' hserver hpast => ?_
    obtain ⟨rfl, rfl⟩ := Server.running.inj hserver
    -- no call of the client changes either of the two
    rcases hpipe pipe loop at_ hpast with rfl | rfl
    · exact .inl (apply_closing call [])
    · cases call <;> exact .inr rfl
  | created at_ => exact absurd at_ hcreated
  | notCreated at_ => exact absurd at_ hcreated
  | loopEnds at_ flag =>
    exact .of_settled (hI.toConserved.of_still at_ rfl (List.append_nil _).symm rfl rfl rfl rfl)
      hsettled (List.append_nil _).symm (by simp) (by simp [flag])
  | pollSucceeds at_ flag =>
    exact .of_settled (hI.toConserved.of_still at_ rfl rfl (hkept _) rfl rfl rfl) hsettled rfl
      (by simp) (by simp)
  | pollFinds at_ flag =>
    exact .of_settled (hI.toConserved.of_still at_ rfl rfl (hkept _) rfl rfl rfl) hsettled rfl
      (by simp) (by simp)
  | pollFails at_ flag kind =>
    refine .of_settled (hI.toConserved.of_still at_ rfl rfl (hkept _) rfl rfl rfl) hsettled rfl
      (by simp) fun pipe' loop hserver _ => ?_
    obtain ⟨rfl, -⟩ := Server.running.inj hserver
    exact hpipe _ _ at_ (.inl flag)
  | @served a pipe data m br c at_ read run =>
    have hpending := MessagePipe.pending_read_message read
    refine .of_settled (hI.toConserved.of_flow at_ rfl rfl (hkept _) ?_) hsettled rfl (by simp)
      fun pipe' loop hserver hpast => ?_
    · rw [hpending]
      simp [writtenMessages, servedWhole, servedMessages]
    · have hclear : σ.globals.gIsClientConnected = false := by
        rcases hpast with hclear | hwaiting
        · rwa [flag_dispatch run] at hclear
        · have hloop := (Server.running.inj hserver).2.trans hwaiting
          split at hloop <;> cases hloop
      -- there is no message in either of the two
      rcases hpipe pipe _ at_ (.inl hclear) with rfl | rfl <;> cases read
  | @readPart a pipe data bytes at_ read =>
    have hpending : (pipe.read buffSize).2.pending = pipe.pending :=
      MessagePipe.pending_read_other (by simp [read])
    refine .of_settled (hI.toConserved.of_still at_ rfl (List.append_nil _).symm rfl rfl rfl
      hpending) hsettled (List.append_nil _).symm (by simp) fun pipe' loop hserver hpast => ?_
    obtain ⟨-, rfl⟩ := Server.running.inj hserver
    rcases hpipe pipe _ at_ (hpast.imp_right (by simp)) with rfl | rfl <;> cases read
  | @readFails a pipe data why at_ read kind =>
    have hpending : (pipe.read buffSize).2.pending = pipe.pending :=
      MessagePipe.pending_read_other (by simp [read])
    refine .of_settled (hI.toConserved.of_still at_ rfl (List.append_nil _).symm rfl rfl rfl
      hpending) hsettled (List.append_nil _).symm (by simp) fun pipe' loop hserver hpast => ?_
    obtain ⟨rfl, rfl⟩ := Server.running.inj hserver
    -- a read that fails changes nothing
    rcases hpipe pipe _ at_ (hpast.imp_right (by simp)) with rfl | rfl
    · exact .inl rfl
    · exact .inr rfl
  | @readBroken a pipe data at_ read =>
    obtain rfl := MessagePipe.closing_of_broken read
    refine .of_settled (hI.toConserved.of_still at_ rfl (List.append_nil _).symm rfl rfl rfl
      rfl) hsettled (List.append_nil _).symm (by simp) fun pipe' loop hserver _ => ?_
    exact .inl (Server.running.inj hserver).1.symm
  | waits at_ kind code =>
    refine .of_settled (hI.toConserved.of_still at_ rfl (List.append_nil _).symm rfl rfl rfl rfl)
      hsettled (List.append_nil _).symm (by simp) fun pipe' loop hserver _ => ?_
    obtain ⟨rfl, -⟩ := Server.running.inj hserver
    exact hpipe _ _ at_ (.inr rfl)
  | @cutsOff a pipe at_ code =>
    have hempty : pipe.pending = [] := by
      rcases hpipe pipe _ at_ (.inr rfl) with rfl | rfl <;> rfl
    refine .of_settled (hI.toConserved.of_still at_ rfl rfl (hkept _) rfl rfl hempty.symm) hsettled
      rfl (by simp) fun pipe' loop hserver _ => ?_
    exact .inr (Server.running.inj hserver).1.symm
  | closes at_ =>
    exact .of_settled (hI.toConserved.of_silent (by simp) rfl (hkept _) rfl rfl) hsettled rfl
      (by simp) (by simp)
  | unloads at_ =>
    exact .of_settled (hI.toConserved.of_silent (by simp) (List.append_nil _).symm rfl rfl rfl)
      hsettled (List.append_nil _).symm (by simp) (by simp)

/-- Every step keeps the balance. -/
theorem accounts_step {σ σ' : System} {a : Action} (hI : Accounts σ) (h : Transition σ a σ') :
    Accounts σ' := by
  cases hsettled : σ.events.any Event.settles with
  | false => exact accounts_step_of_polling hI hsettled h
  | true => exact accounts_step_of_settled hI hsettled h

/-! ## Every run -/

/-- **Conservation**: in every run of the game, the client and the server, the messages that the
pipe took are those that were missed, those that were served, each of them once and in its turn,
and those in the pipe. -/
theorem conserved_along (actions : List Action) : HoldsAlong step Conserved .init actions :=
  holdsAlong_of_invariant (fun _ hI => hI.toConserved)
    (fun _ _ _ hI hstep => accounts_step hI (transition_of_step hstep)) actions accounts_init

/-- The first client leaves while the server sleeps. -/
example : ∃ σ, exec step .init [.server .plain, .server .plain, .client .connect,
    .client (.write (ascii "hello")), .client .close, .server .plain, .server .plain,
    .server .plain] = some σ ∧ missedMessages σ.events = [ascii "hello"] :=
  ⟨_, rfl, rfl⟩

end Doreto.Interop
