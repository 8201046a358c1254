import Doreto.Interop.PipeServer

/-!
# Whole Messages

`ReadFile` takes at most `BUFF_SIZE` bytes of a message. When the message is longer it fails with
`ERROR_MORE_DATA`, which the read loop does not tell from an empty pipe, and the next pass finds
the rest of the message and takes it for a message of its own.

## Main results

- `framed_step`: a step that does not read from a longer message serves whole messages only.
- `framing_of_fitsRead`: a run without such a read serves the client's messages whole and in order.
- `fragment_served`: behind every such read the server gets to serve a fragment.
-/

namespace Doreto.Interop

open Doreto.Lib
open scoped List

/-! ## Messages in the record -/

/-- The bytes of the messages that were served. -/
def dispatched (events : List Event) : List Bytes :=
  events.filterMap fun
    | .served m => some m.source.unread
    | _ => none

/-- The messages that the client wrote. -/
def writtenMessages (events : List Event) : List Bytes :=
  events.filterMap fun
    | .written bytes => some bytes
    | _ => none

/-- What was served are messages of the client, each of them whole, in their order and at most
once, and what was sent for a packet is the whole message. -/
structure Framing (σ : System) : Prop where
  whole : ∀ m, .served m ∈ σ.events → m.source.unread = m.source.whole
  inOrder : dispatched σ.events <+ writtenMessages σ.events
  forwarded : ∀ m, .served m ∈ σ.events → m.branch = .forward →
    ∀ packet ∈ sends m.calls, packet.2 = m.source.whole

/-- The step does not call `ReadFile` with a message in front that is longer than the buffer. -/
def FitsRead (σ : System) : Action → Prop
  | .server _ => ∀ pipe data, σ.server = .running pipe (.reading data) → pipe.FrontFits buffSize
  | _ => True

instance (σ : System) (a : Action) : Decidable (FitsRead σ a) :=
  match a with
  | .game .. => isTrue trivial
  | .client _ => isTrue trivial
  | .server _ =>
      match h : σ.server with
      | .running pipe (.reading data) =>
          decidable_of_iff (pipe.FrontFits buffSize)
            ⟨fun hfits pipe' data' hserver => by
              rw [h] at hserver
              exact (Server.running.inj hserver).1 ▸ hfits,
              fun hfits => hfits pipe data h⟩
      | .running _ .head => isTrue fun pipe data hserver => by rw [h] at hserver; cases hserver
      | .running _ .waiting => isTrue fun pipe data hserver => by rw [h] at hserver; cases hserver
      | .running _ .closing => isTrue fun pipe data hserver => by rw [h] at hserver; cases hserver
      | .creating => isTrue fun pipe data hserver => by rw [h] at hserver; cases hserver
      | .unloading => isTrue fun pipe data hserver => by rw [h] at hserver; cases hserver
      | .unloaded => isTrue fun pipe data hserver => by rw [h] at hserver; cases hserver

theorem dispatched_append (xs ys : List Event) :
    dispatched (xs ++ ys) = dispatched xs ++ dispatched ys :=
  List.filterMap_append

theorem writtenMessages_append (xs ys : List Event) :
    writtenMessages (xs ++ ys) = writtenMessages xs ++ writtenMessages ys :=
  List.filterMap_append

/-! ## The invariant -/

/-- The messages in the pipe. -/
def System.pending (σ : System) : List Bytes :=
  match σ.server with
  | .running pipe _ => pipe.pending
  | _ => []

/-- What was served and what is in the pipe are messages of the client, whole and in order. -/
structure Framed (σ : System) : Prop where
  whole : ∀ m, .served m ∈ σ.events → m.source.unread = m.source.whole
  inOrder : dispatched σ.events ++ σ.pending <+ writtenMessages σ.events
  forwarded : ∀ m, .served m ∈ σ.events → m.branch = .forward →
    ∀ packet ∈ sends m.calls, packet.2 = m.source.unread
  pipe : ∀ pipe loop, σ.server = .running pipe loop → pipe.AllWhole

theorem Framed.framing {σ : System} (h : Framed σ) : Framing σ := by
  refine ⟨h.whole, (List.sublist_append_left _ _).trans h.inOrder, ?_⟩
  intro m hm hbranch packet hpacket
  rw [h.forwarded m hm hbranch packet hpacket]
  exact h.whole m hm

theorem framed_init : Framed .init := by
  refine ⟨fun m hm => ?_, List.Sublist.refl _, fun m hm => ?_, fun pipe loop hserver => ?_⟩
  · cases hm
  · cases hm
  · cases hserver

/-- Events that serve no message have none among them. -/
theorem not_served_mem {events : List Event} (h : dispatched events = []) (m : ServedMessage) :
    .served m ∉ events := by
  intro hm
  have hmem : m.source.unread ∈ dispatched events :=
    List.mem_filterMap.mpr ⟨.served m, hm, rfl⟩
  rw [h] at hmem
  cases hmem

/-- Behind events that serve no message, a served one was served before. -/
theorem served_mem_of_append {events extra : List Event} (hextra : dispatched extra = [])
    {m : ServedMessage} (hm : .served m ∈ events ++ extra) : .served m ∈ events := by
  rcases List.mem_append.mp hm with hold | hnew
  · exact hold
  · exact absurd hnew (not_served_mem hextra m)

/-- A step that neither serves nor writes a message, and leaves nothing but whole messages that
were in the pipe before, keeps the invariant. -/
theorem Framed.of_silent {σ σ' : System} (h : Framed σ) {extra : List Event}
    (hevents : σ'.events = σ.events ++ extra) (hserved : dispatched extra = [])
    (hwritten : writtenMessages extra = []) (hpending : σ'.pending <+ σ.pending)
    (hpipe : ∀ pipe loop, σ'.server = .running pipe loop → pipe.AllWhole) : Framed σ' := by
  refine ⟨fun m hm => ?_, ?_, fun m hm => ?_, hpipe⟩
  · rw [hevents] at hm
    exact h.whole m (served_mem_of_append hserved hm)
  · rw [hevents, dispatched_append, writtenMessages_append, hserved, hwritten, List.append_nil,
      List.append_nil]
    exact (hpending.append_left _).trans h.inOrder
  · rw [hevents] at hm
    exact h.forwarded m (served_mem_of_append hserved hm)

theorem pending_eq {σ : System} {pipe : MessagePipe UInt8} {loop : Loop}
    (hserver : σ.server = .running pipe loop) : σ.pending = pipe.pending := by
  rw [System.pending, hserver]

/-- A silent step of a running server. -/
theorem Framed.of_running {σ σ' : System} (h : Framed σ) {extra : List Event}
    {pipe pipe' : MessagePipe UInt8} {loop loop' : Loop} (at_ : σ.server = .running pipe loop)
    (hserver : σ'.server = .running pipe' loop') (hpending : pipe'.pending <+ pipe.pending)
    (hpipe : pipe'.AllWhole) (hevents : σ'.events = σ.events ++ extra)
    (hserved : dispatched extra = []) (hwritten : writtenMessages extra = []) : Framed σ' := by
  refine h.of_silent hevents hserved hwritten ?_ fun p l hrunning => ?_
  · rw [pending_eq at_, pending_eq hserver]
    exact hpending
  · rw [hserver] at hrunning
    obtain ⟨rfl, -⟩ := Server.running.inj hrunning
    exact hpipe

/-- A call of the client adds what it writes behind the messages of the pipe. -/
theorem pending_apply (call : ClientCall) (pipe : MessagePipe UInt8) :
    (call.apply pipe).pending = pipe.pending ++ writtenMessages (call.record pipe) := by
  cases call with
  | connect => exact (MessagePipe.pending_join pipe).trans (List.append_nil _).symm
  | write bytes =>
    cases pipe with
    | connected q => exact MessagePipe.pending_write_connected q bytes
    | _ => exact (List.append_nil _).symm
  | close => exact (MessagePipe.pending_close pipe).trans (List.append_nil _).symm

theorem dispatched_record (call : ClientCall) (pipe : MessagePipe UInt8) :
    dispatched (call.record pipe) = [] := by
  cases call <;> cases pipe <;> rfl

theorem framed_clientCall {σ : System} (hI : Framed σ) {pipe : MessagePipe UInt8} {loop : Loop}
    (at_ : σ.server = .running pipe loop) (call : ClientCall) :
    Framed { σ with
      server := .running (call.apply pipe) loop
      events := σ.events ++ call.record pipe } := by
  have hrecord := dispatched_record call pipe
  refine ⟨fun m hm => ?_, ?_, fun m hm => ?_, fun pipe' loop' hserver => ?_⟩
  · exact hI.whole m (served_mem_of_append hrecord hm)
  · have horder := hI.inOrder
    rw [pending_eq at_] at horder
    rw [dispatched_append, writtenMessages_append, hrecord, List.append_nil,
      pending_eq rfl, pending_apply, ← List.append_assoc]
    exact horder.append_right _
  · exact hI.forwarded m (served_mem_of_append hrecord hm)
  · obtain ⟨rfl, rfl⟩ := Server.running.inj hserver
    have hall := hI.pipe _ _ at_
    exact call.apply_keeps hall.join hall.write hall.close

/-- A message that is whole is the next one of those that wait. -/
theorem framed_served {σ : System} (hI : Framed σ) {pipe : MessagePipe UInt8} {data : Bytes}
    (at_ : σ.server = .running pipe (.reading data)) (hfits : pipe.FrontFits buffSize)
    {m : Message UInt8} (read : (pipe.read buffSize).1 = .message m) {a : ServeAnswers}
    {behind : Bytes} {br : Branch} {c : Ctx}
    (run : (dispatch a (store m.unread data ++ behind) m.unread.length).run
      ⟨σ.globals, σ.serverError, []⟩ = some (br, c)) (loop : Loop) :
    Framed ⟨c.globals, c.lastError, .running (pipe.read buffSize).2 loop,
      σ.events ++ [.served ⟨m, br, c.globals.gSocket, c.calls⟩]⟩ := by
  have hread := (hI.pipe _ _ at_).read hfits
  have hwhole : m.unread = m.whole := hread.1 m read
  refine ⟨fun m' hm => ?_, ?_, fun m' hm hbranch packet hpacket => ?_,
    fun pipe' loop' hserver => ?_⟩
  · rcases List.mem_append.mp hm with hold | hnew
    · exact hI.whole m' hold
    · obtain rfl := Event.served.inj (List.mem_singleton.mp hnew)
      exact hwhole
  · have horder := hI.inOrder
    rw [pending_eq at_, MessagePipe.pending_read_message read] at horder
    rw [dispatched_append, writtenMessages_append, pending_eq rfl, List.append_assoc]
    simpa [dispatched, writtenMessages, hwhole] using horder
  · rcases List.mem_append.mp hm with hold | hnew
    · exact hI.forwarded m' hold hbranch packet hpacket
    · obtain rfl := Event.served.inj (List.mem_singleton.mp hnew)
      obtain rfl : br = .forward := hbranch
      have hmem : packet ∈ route σ.globals.gSocket m.unread := sends_of_forward run ▸ hpacket
      exact snd_of_mem_route hmem
  · obtain ⟨rfl, -⟩ := Server.running.inj hserver
    exact hread.2

/-- A read that does not come to the end of a message. -/
theorem framed_readOther {σ : System} (hI : Framed σ) {pipe : MessagePipe UInt8} {data : Bytes}
    (at_ : σ.server = .running pipe (.reading data)) (hfits : pipe.FrontFits buffSize)
    (hread : ∀ m, (pipe.read buffSize).1 ≠ .message m) (g : Globals) (e : ErrorCode)
    (loop : Loop) : Framed ⟨g, e, .running (pipe.read buffSize).2 loop, σ.events⟩ :=
  hI.of_running at_ rfl (MessagePipe.pending_read_other hread ▸ List.Sublist.refl _)
    ((hI.pipe _ _ at_).read hfits).2 (List.append_nil _).symm rfl rfl

/-- Every step that does not read from a longer message keeps the invariant. -/
theorem framed_step {σ σ' : System} {a : Action} (hI : Framed σ) (hfits : FitsRead σ a)
    (h : Transition σ a σ') : Framed σ' := by
  cases h with
  | hooked loaded run => exact hI.of_silent rfl rfl rfl (List.Sublist.refl _) hI.pipe
  | unhooked unloaded => exact hI
  | clientIdle closed => exact hI
  | clientCall at_ => exact framed_clientCall hI at_ _
  | created at_ =>
    refine hI.of_silent (List.append_nil _).symm rfl rfl (List.nil_sublist _) ?_
    intro pipe loop hserver
    obtain ⟨rfl, -⟩ := Server.running.inj hserver
    exact MessagePipe.allWhole_listening
  | notCreated at_ =>
    exact hI.of_silent (List.append_nil _).symm rfl rfl (List.Sublist.refl _) hI.pipe
  | loopEnds at_ flag =>
    exact hI.of_running at_ rfl (List.Sublist.refl _) (hI.pipe _ _ at_)
      (List.append_nil _).symm rfl rfl
  | pollSucceeds at_ flag =>
    exact hI.of_running at_ rfl (List.nil_sublist _) MessagePipe.allWhole_listening rfl rfl rfl
  | pollFinds at_ flag =>
    exact hI.of_running at_ rfl (List.Sublist.refl _) (hI.pipe _ _ at_) rfl rfl rfl
  | pollFails at_ flag kind =>
    exact hI.of_running at_ rfl (List.Sublist.refl _) (hI.pipe _ _ at_) rfl rfl rfl
  | served at_ read run => exact framed_served hI at_ (hfits _ _ at_) read run _
  | readPart at_ read =>
    exact framed_readOther hI at_ (hfits _ _ at_) (by simp [read]) _ _ _
  | readFails at_ read kind =>
    exact framed_readOther hI at_ (hfits _ _ at_) (by simp [read]) _ _ _
  | readBroken at_ read =>
    exact framed_readOther hI at_ (hfits _ _ at_) (by simp [read]) _ _ _
  | waits at_ kind code =>
    exact hI.of_running at_ rfl (List.Sublist.refl _) (hI.pipe _ _ at_)
      (List.append_nil _).symm rfl rfl
  | cutsOff at_ code =>
    exact hI.of_running at_ rfl (List.nil_sublist _) MessagePipe.allWhole_disconnected rfl rfl rfl
  | closes at_ =>
    refine hI.of_silent rfl rfl rfl (List.nil_sublist _) ?_
    intro pipe loop hserver
    cases hserver
  | unloads at_ =>
    refine hI.of_silent (List.append_nil _).symm rfl rfl (List.nil_sublist _) ?_
    intro pipe loop hserver
    cases hserver

/-! ## Every run -/

/-- **Message framing**: a run that never calls `ReadFile` with a longer message in front serves
the messages of the client whole, in order and at most once. -/
theorem framing_of_fitsRead {actions : List Action}
    (h : StepsMeet step FitsRead .init actions) : HoldsAlong step Framing .init actions :=
  holdsAlong_of_stepsMeet (fun _ hI => hI.framing)
    (fun _ _ _ hI hfits hstep => framed_step hI hfits (transition_of_step hstep)) framed_init h

/-- A client joins and writes the message, and the server polls and reads for `reads` passes. -/
def oneMessage (bytes : Bytes) (reads : Nat) : List Action :=
  [.server .plain, .client .connect, .client (.write bytes), .server .plain] ++
    List.replicate reads (.server .plain)

/-- A short message and the pass that finds the pipe empty behind it. -/
theorem short_message_served :
    HoldsAlong step Framing .init (oneMessage getserverCmd 2) :=
  framing_of_fitsRead (by decide)

/-! ## Longer messages -/

/-- A server whose front message is partly read gets to serve the rest of it. -/
theorem fragment_served_of_partly_read {σ : System} {pipe : MessagePipe UInt8} {data : Bytes}
    {m : Message UInt8} (hserver : σ.server = .running pipe (.reading data))
    (hfront : pipe.queue.head? = some m) (hpart : m.unread.length < m.whole.length) :
    ∃ (answers : List ServerAnswers) (σ' : System),
      exec step σ (answers.map Action.server) = some σ' ∧ ¬ Framing σ' := by
  -- each read makes the rest of the message shorter by a buffer, until what is left fits
  induction hlen : m.unread.length using Nat.strong_induction_on generalizing σ pipe data m with
  | _ n ih =>
    subst hlen
    by_cases hfits : m.unread.length ≤ buffSize
    · -- the rest fits: it is served
      have hread := MessagePipe.read_of_front_fits hfront hfits
      have hmem : 0 ∈ store m.unread data ++ ServerAnswers.plain.behind :=
        List.mem_append_right _ (List.mem_singleton_self 0)
      obtain ⟨c, hserve⟩ := run_serve ServerAnswers.plain.serve m.unread.length
        (branchOf (cBody 0 (store m.unread data ++ ServerAnswers.plain.behind))) hmem
        ⟨σ.globals, σ.serverError, []⟩
      have hrun := run_dispatch ServerAnswers.plain.serve m.unread.length hmem
        ⟨σ.globals, σ.serverError, []⟩
      rw [hserve, Option.map_some] at hrun
      have hstep : ∃ σ' served, serverStep σ .plain = some σ' ∧
          .served served ∈ σ'.events ∧ served.source = m := by
        rw [serverStep, hserver]
        simp only [readFile_of_message σ .plain data hread, serveMessage, hrun, Option.map_some]
        exact ⟨_, _, rfl, List.mem_append_right _ (List.mem_singleton_self _), rfl⟩
      obtain ⟨σ', served, hσ', hserved, hsource⟩ := hstep
      refine ⟨[.plain], σ', ?_, fun hframing => ?_⟩
      · rw [List.map_singleton, exec, step, hσ']
        rfl
      · have hwhole := hframing.whole served hserved
        rw [hsource] at hwhole
        rw [hwhole] at hpart
        omega
    · -- another part of it is read
      have hlong : buffSize < m.unread.length := by omega
      obtain ⟨hread, hfront'⟩ := MessagePipe.read_of_front_long hfront hlong
      have hshorter : (m.unread.drop buffSize).length < m.unread.length := by
        have hpos : 0 < buffSize := by decide
        rw [List.length_drop]
        omega
      obtain ⟨answers, σ', hexec, hnot⟩ := ih _ hshorter
        (σ := { σ with
          serverError := errorMoreData
          server := .running (pipe.read buffSize).2
            (.reading (store (m.unread.take buffSize) data)) })
        rfl hfront' (hshorter.trans hpart) rfl
      refine ⟨.plain :: answers, σ', ?_, hnot⟩
      rw [List.map_cons, exec, step, serverStep, hserver]
      simp only [readFile_of_part σ .plain data hread, Option.bind_some]
      exact hexec

/-- The condition is exact: behind a read that does not fit the server gets to serve a fragment. -/
theorem fragment_served {σ : System} {pipe : MessagePipe UInt8} {data : Bytes}
    {m : Message UInt8} (hserver : σ.server = .running pipe (.reading data))
    (hfront : pipe.queue.head? = some m) (hle : m.unread.length ≤ m.whole.length)
    (hlong : buffSize < m.unread.length) :
    ∃ (answers : List ServerAnswers) (σ' : System),
      exec step σ (answers.map Action.server) = some σ' ∧ ¬ Framing σ' := by
  -- behind the read the message is partly read
  obtain ⟨hread, hfront'⟩ := MessagePipe.read_of_front_long hfront hlong
  have hshorter : (m.unread.drop buffSize).length < m.whole.length := by
    have hpos : 0 < buffSize := by decide
    rw [List.length_drop]
    omega
  obtain ⟨answers, σ', hexec, hnot⟩ := fragment_served_of_partly_read
    (σ := { σ with
      serverError := errorMoreData
      server := .running (pipe.read buffSize).2 (.reading (store (m.unread.take buffSize) data)) })
    rfl hfront' hshorter
  refine ⟨.plain :: answers, σ', ?_, hnot⟩
  rw [List.map_cons, exec, step, serverStep, hserver]
  simp only [readFile_of_part σ .plain data hread, Option.bind_some]
  exact hexec

/-- A packet of the game that is longer than the buffer and ends in a command word. -/
def longPacket : Bytes :=
  List.replicate buffSize 65 ++ dettachCmd

set_option maxRecDepth 8000 in
/-- The end of the packet is served, and the server thread leaves its loop. -/
theorem tail_of_long_packet_served :
    ¬ HoldsAlong step Framing .init (oneMessage longPacket 2) := by
  intro h
  obtain ⟨σ, hexec, hserved, hwritten⟩ : ∃ σ, exec step .init (oneMessage longPacket 2) = some σ ∧
      dispatched σ.events = [dettachCmd] ∧ writtenMessages σ.events = [longPacket] :=
    ⟨_, rfl, rfl, rfl⟩
  -- what was served would have to be the message that was written
  have horder := (h.last hexec).inOrder
  rw [hserved, hwritten, List.singleton_sublist, List.mem_singleton] at horder
  have hlen := congrArg List.length horder
  rw [longPacket, List.length_append, List.length_replicate] at hlen
  have hpos : 0 < buffSize := by decide
  omega

end Doreto.Interop
