import Doreto.Interop.Conservation
import Doreto.Lib.Progress

/-!
# The Server Always Goes On

The server thread never blocks: every call on the pipe returns, and every pass of a loop changes
what the next pass finds. How many passes are needed for something can be read off the state, and
no call of the game or of the client adds to that number.

## Main results

- `leaving_iff_detached`: the server leaves when a `!dettach` was served, and for no other reason.
- `detach_is_final`: behind a `!dettach` nothing is served, and the hooks are gone three passes
  later.
- `served_or_leaving`: the messages that wait in the pipe are served, unless one of them detaches.
- `joinable_again`: a client that is gone makes room for the next one, or was the last one.
-/

namespace Doreto.Interop

open Doreto.Lib

/-- A pass of the server thread. -/
def Action.isServer : Action → Bool
  | .server _ => true
  | _ => false

/-! ## Detaching -/

/-- The server is on its way out: the loop over `g_IsClientConnected` ends, or has ended. -/
def Leaving (σ : System) : Prop :=
  match σ.server with
  | .creating => False
  | .running _ loop => loop = .closing ∨ loop = .head ∧ σ.globals.gIsClientConnected = true
  | .unloading => True
  | .unloaded => True

/-- The passes until the hooks are gone. -/
def passesToUnload (σ : System) : Nat :=
  match σ.server with
  | .running _ .closing => 2
  | .running _ _ => 3
  | .unloading => 1
  | _ => 0

/-- A `!dettach` was served. -/
def Detached (σ : System) : Prop :=
  ∃ m ∈ servedMessages σ.events, m.branch = .dettach

theorem leaving_running_iff {σ : System} {pipe : MessagePipe UInt8} {loop : Loop}
    (hserver : σ.server = .running pipe loop) :
    Leaving σ ↔ loop = .closing ∨ loop = .head ∧ σ.globals.gIsClientConnected = true := by
  rw [Leaving, hserver]

/-- A server that leaves serves nothing any more, and every pass takes it further. -/
theorem leaving_step {σ σ' : System} {a : Action} (hI : Leaving σ) (h : Transition σ a σ') :
    (Leaving σ' ∧ servedMessages σ'.events = servedMessages σ.events) ∧
      passesToUnload σ' ≤ passesToUnload σ ∧
      (a.isServer = true → passesToUnload σ' < passesToUnload σ) := by
  cases h with
  | hooked loaded run =>
    refine ⟨⟨?_, by simp [servedMessages]⟩, Nat.le_refl _, by simp [Action.isServer]⟩
    rw [Leaving, globals_hooked run]
    exact hI
  | unhooked unloaded => exact ⟨⟨hI, rfl⟩, Nat.le_refl _, by simp [Action.isServer]⟩
  | clientIdle closed => exact ⟨⟨hI, rfl⟩, Nat.le_refl _, by simp [Action.isServer]⟩
  | @clientCall call pipe loop at_ =>
    rw [leaving_running_iff at_] at hI
    refine ⟨⟨hI, ?_⟩, ?_, by simp [Action.isServer]⟩
    · rw [servedMessages_append, servedMessages_record, List.append_nil]
    · rw [passesToUnload, passesToUnload, at_]
      rcases hI with rfl | ⟨rfl, -⟩ <;> exact Nat.le_refl _
  | loopEnds at_ flag => exact ⟨⟨.inl rfl, rfl⟩, by simp [passesToUnload, at_]⟩
  | closes at_ =>
    exact ⟨⟨trivial, by simp [servedMessages]⟩, by simp [passesToUnload, at_]⟩
  | unloads at_ => exact ⟨⟨trivial, rfl⟩, by simp [passesToUnload, at_]⟩
  | created at_ => simp [Leaving, at_] at hI
  | notCreated at_ => simp [Leaving, at_] at hI
  | pollSucceeds at_ flag => simp [Leaving, at_, flag] at hI
  | pollFinds at_ flag => simp [Leaving, at_, flag] at hI
  | pollFails at_ flag kind => simp [Leaving, at_, flag] at hI
  -- the server is in its read loop or waits
  | _ at_ => simp [Leaving, at_] at hI

/-- The server leaves exactly when a `!dettach` was served: the flag is set while the server reads,
and wherever else the server goes back to the poll the flag is clear. -/
structure DetachLeaves (σ : System) : Prop where
  flag : FlagPastPoll σ
  creating : σ.server = .creating → σ.globals.gIsClientConnected = false
  leaving_iff : Leaving σ ↔ Detached σ

theorem detachLeaves_init : DetachLeaves .init := by
  refine ⟨flagPastPoll_init, fun _ => rfl, iff_of_false (fun h => h) fun h => ?_⟩
  obtain ⟨m, hm, -⟩ := h
  cases hm

/-- What was served stays served. -/
theorem Detached.append {σ σ' : System} (h : Detached σ) {extra : List Event}
    (hevents : σ'.events = σ.events ++ extra) : Detached σ' := by
  obtain ⟨m, hm, hbranch⟩ := h
  refine ⟨m, ?_, hbranch⟩
  rw [hevents, servedMessages_append]
  exact List.mem_append_left _ hm

theorem detached_concat {g : Globals} {e : ErrorCode} {server : Server} {events : List Event}
    {m : ServedMessage} (hbranch : m.branch = .dettach) :
    Detached ⟨g, e, server, events ++ [.served m]⟩ := by
  refine ⟨m, ?_, hbranch⟩
  rw [servedMessages_append]
  exact List.mem_append_right _ List.mem_cons_self

/-- A `!dettach` that is served makes the server leave. -/
theorem leaving_of_detached_step {σ σ' : System} {a : Action} (hI : DetachLeaves σ)
    (h : Transition σ a σ') (hdetached : Detached σ') : Leaving σ' := by
  by_cases hold : Detached σ
  · exact (leaving_step (hI.leaving_iff.mpr hold) h).1.1
  · obtain ⟨m, hm, hbranch⟩ := hdetached
    cases h with
    | @served a pipe data m' br c at_ read run =>
      have hnew : m = ⟨m', br, c.globals.gSocket, c.calls⟩ := by
        rw [servedMessages_append] at hm
        rcases List.mem_append.mp hm with hbefore | hlast
        · exact absurd ⟨m, hbefore, hbranch⟩ hold
        · simpa [servedMessages] using hlast
      obtain rfl : br = .dettach := by rw [hnew] at hbranch; exact hbranch
      exact .inr ⟨rfl, (flag_dispatch run).trans (hI.flag _ _ at_ trivial)⟩
    | clientCall at_ =>
      rw [servedMessages_append, servedMessages_record, List.append_nil] at hm
      exact absurd ⟨m, hm, hbranch⟩ hold
    -- no other step serves a message
    | _ => exact absurd ⟨m, by simpa [servedMessages] using hm, hbranch⟩ hold

/-- Nothing else does. -/
theorem detached_of_leaving_step {σ σ' : System} {a : Action} (hI : DetachLeaves σ)
    (h : Transition σ a σ') (hleaving : Leaving σ') : Detached σ' := by
  cases h with
  | hooked loaded run =>
    rw [Leaving, globals_hooked run] at hleaving
    exact (hI.leaving_iff.mp hleaving).append rfl
  | unhooked unloaded => exact hI.leaving_iff.mp hleaving
  | clientIdle closed => exact hI.leaving_iff.mp hleaving
  | clientCall at_ =>
    rw [leaving_running_iff rfl] at hleaving
    exact (hI.leaving_iff.mp ((leaving_running_iff at_).mpr hleaving)).append rfl
  | created at_ => simp [Leaving, hI.creating at_] at hleaving
  | notCreated at_ => simp [Leaving, at_] at hleaving
  | loopEnds at_ flag =>
    have hold : Leaving σ := (leaving_running_iff at_).mpr (.inr ⟨rfl, flag⟩)
    exact (hI.leaving_iff.mp hold).append (List.append_nil _).symm
  | @served a pipe data m br c at_ read run =>
    by_cases hbr : br = .dettach
    · exact detached_concat hbr
    · simp [Leaving, hbr] at hleaving
  | closes at_ =>
    have hold : Leaving σ := (leaving_running_iff at_).mpr (.inl rfl)
    exact (hI.leaving_iff.mp hold).append rfl
  | unloads at_ =>
    have hold : Leaving σ := by
      rw [Leaving, at_]
      trivial
    exact (hI.leaving_iff.mp hold).append (List.append_nil _).symm
  -- the server reads or waits, or is at the poll with the flag clear
  | _ => simp [Leaving] at hleaving

theorem detachLeaves_step {σ σ' : System} {a : Action} (hI : DetachLeaves σ)
    (h : Transition σ a σ') : DetachLeaves σ' := by
  refine ⟨flagPastPoll_step hI.flag h, fun hcreating => ?_,
    detached_of_leaving_step hI h, leaving_of_detached_step hI h⟩
  cases h with
  | hooked loaded run =>
    rw [globals_hooked run]
    exact hI.creating hcreating
  | unhooked unloaded => exact hI.creating hcreating
  | clientIdle closed => exact hI.creating hcreating
  | notCreated at_ => exact hI.creating at_
  | _ => cases hcreating

/-- In every run, the server leaves exactly when a `!dettach` was served. -/
theorem leaving_iff_detached {actions : List Action} {σ : System}
    (h : exec step .init actions = some σ) : Leaving σ ↔ Detached σ :=
  (exec_invariant (fun _ _ _ hI hstep => detachLeaves_step hI (transition_of_step hstep)) h
    detachLeaves_init).leaving_iff

/-- **Detaching**: in every run, once a `!dettach` was served no message is served any more, and at
the third pass of the server behind it the hooks are gone. -/
theorem detach_is_final {before behind : List Action} {σ τ : System}
    (hreach : exec step .init before = some σ) (hdetached : Detached σ)
    (hexec : exec step σ behind = some τ) :
    servedMessages τ.events = servedMessages σ.events ∧
      behind.countP Action.isServer ≤ 3 ∧
      (behind.countP Action.isServer = 3 → τ.server = .unloaded) := by
  have hleaving : Leaving σ := (leaving_iff_detached hreach).mpr hdetached
  obtain ⟨⟨hleft, hserved⟩, hcount⟩ := rank_add_countP_le passesToUnload
    (I := fun τ => Leaving τ ∧ servedMessages τ.events = servedMessages σ.events)
    (fun s a t hI hstep => by
      obtain ⟨⟨hleft, hserved⟩, hrank⟩ := leaving_step hI.1 (transition_of_step hstep)
      exact ⟨⟨hleft, hserved.trans hI.2⟩, hrank⟩) ⟨hleaving, rfl⟩ hexec
  have hthree : passesToUnload σ ≤ 3 := by
    unfold passesToUnload
    split <;> omega
  refine ⟨hserved, by omega, fun hall => ?_⟩
  -- no pass is left
  have hzero : passesToUnload τ = 0 := by omega
  cases hserver : τ.server with
  | creating => simp [Leaving, hserver] at hleft
  | running pipe loop =>
    rw [passesToUnload, hserver] at hzero
    cases loop <;> cases hzero
  | unloading =>
    rw [passesToUnload, hserver] at hzero
    cases hzero
  | unloaded => rfl

/-- A client joins and detaches. -/
theorem plain_detach_unloads :
    ∃ σ τ, exec step .init (oneMessage dettachCmd 1) = some σ ∧
      exec step σ (List.replicate 3 (.server .plain)) = some τ ∧
      servedMessages τ.events = servedMessages σ.events ∧ τ.server = .unloaded := by
  obtain ⟨σ, hσ, hserved⟩ : ∃ σ, exec step .init (oneMessage dettachCmd 1) = some σ ∧
      Detached σ := ⟨_, rfl, _, .head _, rfl⟩
  obtain ⟨τ, hτ⟩ : ∃ τ, exec step σ (List.replicate 3 (.server .plain)) = some τ := by
    obtain rfl := Option.some.inj hσ
    exact ⟨_, rfl⟩
  obtain ⟨hsame, -, hunloaded⟩ := detach_is_final hσ hserved hτ
  exact ⟨σ, τ, hσ, hτ, hsame, hunloaded rfl⟩

/-! ## Messages that wait -/

/-- The reads until `k` messages were served, those that were served before among them. -/
def readsUntil (k : Nat) (σ : System) : Nat :=
  match σ.server with
  | .running pipe _ =>
      MessagePipe.readsLeft buffSize (pipe.queue.take (k - (servedWhole σ.events).length))
  | _ => 0

theorem readsUntil_running {σ : System} {pipe : MessagePipe UInt8} {loop : Loop}
    (hserver : σ.server = .running pipe loop) (k : Nat) :
    readsUntil k σ =
      MessagePipe.readsLeft buffSize (pipe.queue.take (k - (servedWhole σ.events).length)) := by
  rw [readsUntil, hserver]

/-- The server reads, and the messages are among those that it has served or will read next. -/
def ReadsNext (wanted : List Bytes) (σ : System) : Prop :=
  σ.globals.gIsClientConnected = true ∧ ∃ pipe data, σ.server = .running pipe (.reading data) ∧
    wanted <+: servedWhole σ.events ++ pipe.pending

theorem getLast?_servedMessages_concat (events : List Event) (m : ServedMessage) :
    (servedMessages (events ++ [.served m])).getLast? = some m := by
  rw [servedMessages_append]
  exact List.getLast?_concat

/-- The messages were served, or a `!dettach` was the last of those that were and the server
leaves. -/
def ServedOrLeaving (wanted : List Bytes) (σ : System) : Prop :=
  wanted <+: servedWhole σ.events ∨
    Leaving σ ∧ servedWhole σ.events <+: wanted ∧
      ∃ m ∈ (servedMessages σ.events).getLast?, m.branch = .dettach

/-- Messages that are among those that were served or wait were served once enough were. -/
theorem served_of_length_le {wanted served waiting : List Bytes} (h : wanted <+: served ++ waiting)
    (hle : wanted.length ≤ served.length) : wanted <+: served :=
  List.prefix_of_prefix_length_le h (List.prefix_append _ _) hle

theorem servedOrLeaving_of_reads {wanted : List Bytes} {σ : System} (hI : ReadsNext wanted σ)
    (hzero : readsUntil wanted.length σ = 0) : ServedOrLeaving wanted σ := by
  obtain ⟨-, pipe, data, at_, hwanted⟩ := hI
  rw [readsUntil_running at_, MessagePipe.readsLeft_eq_zero_iff, List.take_eq_nil_iff] at hzero
  left
  rcases hzero with hserved | hempty
  · exact served_of_length_le hwanted (by omega)
  · rw [MessagePipe.pending, hempty, List.map_nil, List.append_nil] at hwanted
    exact hwanted

/-- A client's call adds behind what is in the pipe. -/
theorem queue_apply (call : ClientCall) (pipe : MessagePipe UInt8) :
    ∃ more, (call.apply pipe).queue = pipe.queue ++ more := by
  cases call with
  | connect => cases pipe <;> exact ⟨[], (List.append_nil _).symm⟩
  | close => cases pipe <;> exact ⟨[], (List.append_nil _).symm⟩
  | write bytes =>
    cases pipe with
    | connected q => exact ⟨[.written bytes], rfl⟩
    | _ => exact ⟨[], (List.append_nil _).symm⟩

/-- While a message is wanted, one is in front, and the reads of those in front are counted. -/
theorem ReadsNext.front {wanted : List Bytes} {σ : System} {pipe : MessagePipe UInt8} {loop : Loop}
    (at_ : σ.server = .running pipe loop) (hwanted : wanted <+: servedWhole σ.events ++ pipe.pending)
    (hopen : ¬ ServedOrLeaving wanted σ) :
    ∃ j, wanted.length = (servedWhole σ.events).length + (j + 1) ∧ j + 1 ≤ pipe.queue.length ∧
      readsUntil wanted.length σ = MessagePipe.readsLeft buffSize (pipe.queue.take (j + 1)) := by
  have hmore : (servedWhole σ.events).length < wanted.length := by
    by_contra hle
    exact hopen (.inl (served_of_length_le hwanted (by omega)))
  obtain ⟨j, hj⟩ := Nat.exists_eq_add_of_lt hmore
  have hle := hwanted.length_le
  rw [List.length_append, MessagePipe.pending, List.length_map] at hle
  refine ⟨j, hj, by omega, ?_⟩
  rw [readsUntil_running at_, hj, Nat.add_assoc, Nat.add_sub_cancel_left]

/-- A message that is served is one of those that are wanted. -/
theorem readsNext_served {wanted : List Bytes} {σ : System} {pipe : MessagePipe UInt8}
    {data : Bytes} (at_ : σ.server = .running pipe (.reading data))
    (hwanted : wanted <+: servedWhole σ.events ++ pipe.pending)
    (hopen : ¬ ServedOrLeaving wanted σ) {m : Message UInt8}
    (read : (pipe.read buffSize).1 = .message m) (g : Globals) (e : ErrorCode) (loop : Loop)
    (br : Branch) (s : Socket) (calls : List ApiCall) :
    wanted <+: servedWhole (σ.events ++ [.served ⟨m, br, s, calls⟩]) ++
        (pipe.read buffSize).2.pending ∧
      readsUntil wanted.length ⟨g, e, .running (pipe.read buffSize).2 loop,
        σ.events ++ [.served ⟨m, br, s, calls⟩]⟩ < readsUntil wanted.length σ := by
  obtain ⟨j, hj, -, hrank⟩ := ReadsNext.front at_ hwanted hopen
  have hserved : servedWhole (σ.events ++ [.served ⟨m, br, s, calls⟩]) =
      servedWhole σ.events ++ [m.whole] := servedWhole_append _ _
  constructor
  · rw [MessagePipe.pending_read_message read] at hwanted
    rw [hserved, List.append_assoc]
    exact hwanted
  · rw [hrank, readsUntil_running rfl, hserved, List.length_append, List.length_singleton, hj,
      MessagePipe.queue_of_message read, List.take_succ_cons, MessagePipe.readsLeft_cons]
    have hrest : (servedWhole σ.events).length + (j + 1) - ((servedWhole σ.events).length + 1) =
        j := by omega
    rw [hrest]
    exact Nat.lt_add_of_pos_left (Nat.succ_pos _)

/-- A read that leaves the rest of a message is one of those that it takes. -/
theorem readsNext_part {wanted : List Bytes} {σ : System} {pipe : MessagePipe UInt8}
    {data : Bytes} (at_ : σ.server = .running pipe (.reading data))
    (hwanted : wanted <+: servedWhole σ.events ++ pipe.pending)
    (hopen : ¬ ServedOrLeaving wanted σ) {bytes : Bytes}
    (read : (pipe.read buffSize).1 = .part bytes) (g : Globals) (e : ErrorCode) (loop : Loop) :
    wanted <+: servedWhole σ.events ++ (pipe.read buffSize).2.pending ∧
      readsUntil wanted.length ⟨g, e, .running (pipe.read buffSize).2 loop, σ.events⟩ <
        readsUntil wanted.length σ := by
  obtain ⟨j, hj, -, hrank⟩ := ReadsNext.front at_ hwanted hopen
  obtain ⟨m, q, hqueue, hlong, hqueue'⟩ := MessagePipe.queue_of_part read
  have hpending : (pipe.read buffSize).2.pending = pipe.pending :=
    MessagePipe.pending_read_other (by simp [read])
  constructor
  · rw [hpending]
    exact hwanted
  · rw [hrank, readsUntil_running rfl, hj, Nat.add_sub_cancel_left, hqueue, hqueue',
      List.take_succ_cons, List.take_succ_cons, ← MessagePipe.readsLeft_part (by decide) hlong]
    exact Nat.lt_succ_self _

/-- Every step leads on to the messages. -/
theorem readsNext_step {wanted : List Bytes} {σ σ' : System} {a : Action}
    (hI : ReadsNext wanted σ) (hopen : ¬ ServedOrLeaving wanted σ) (h : Transition σ a σ') :
    ServedOrLeaving wanted σ' ∨ ReadsNext wanted σ' ∧
      readsUntil wanted.length σ' ≤ readsUntil wanted.length σ ∧
      (a.isServer = true → readsUntil wanted.length σ' < readsUntil wanted.length σ) := by
  obtain ⟨hflag, pipe, data, at_, hwanted⟩ := hI
  obtain ⟨j, hj, hlength, hrank⟩ := ReadsNext.front at_ hwanted hopen
  have hnotEmpty : pipe.queue ≠ [] := List.ne_nil_of_length_pos (by omega)
  cases h with
  | @hooked e call out c loaded run =>
    have hserved : servedWhole (σ.events ++ [.hooked call.socket c.calls]) =
        servedWhole σ.events := by
      rw [servedWhole_append]
      exact List.append_nil _
    refine .inr ⟨⟨?_, pipe, data, at_, ?_⟩, ?_, by simp [Action.isServer]⟩
    · rw [globals_hooked run]
      exact hflag
    · rw [hserved]
      exact hwanted
    · simp only [readsUntil, hserved, Nat.le_refl]
  | unhooked unloaded =>
    rw [at_] at unloaded
    cases unloaded
  | clientIdle closed => exact absurd at_ (closed _ _)
  | @clientCall call pipe' loop at' =>
    obtain ⟨rfl, rfl⟩ := Server.running.inj (at_.symm.trans at')
    obtain ⟨more, hqueue⟩ := queue_apply call pipe
    have hserved : servedWhole (σ.events ++ call.record pipe) = servedWhole σ.events := by
      rw [servedWhole_append, servedWhole, servedWhole, servedMessages_record]
      exact List.append_nil _
    refine .inr ⟨⟨hflag, call.apply pipe, data, rfl, ?_⟩, ?_, by simp [Action.isServer]⟩
    · rw [hserved, MessagePipe.pending, hqueue, List.map_append, ← List.append_assoc]
      exact hwanted.trans (List.prefix_append _ _)
    · rw [hrank, readsUntil_running rfl, hserved, hj, Nat.add_sub_cancel_left, hqueue,
        List.take_append_of_le_length hlength]
  | @served a pipe' data' m br c at' read run =>
    obtain ⟨rfl, -⟩ := Server.running.inj (at_.symm.trans at')
    have hflag' : c.globals.gIsClientConnected = true := (flag_dispatch run).trans hflag
    obtain ⟨hwanted', hlt⟩ := readsNext_served at_ hwanted hopen read c.globals c.lastError
      (if br = .dettach then .head else .reading (store m.unread data')) br c.globals.gSocket
      c.calls
    by_cases hdetach : br = .dettach
    · refine .inl (.inr ⟨.inr ⟨by rw [if_pos hdetach], hflag'⟩, ?_, ?_⟩)
      · -- it is one of the messages that are wanted
        refine List.prefix_of_prefix_length_le (List.prefix_append _ _) hwanted' ?_
        rw [servedWhole_append, List.length_append, hj]
        exact Nat.add_le_add_left (Nat.le_add_left 1 j) _
      · exact ⟨_, getLast?_servedMessages_concat _ _, hdetach⟩
    · exact .inr ⟨⟨hflag', _, _, by rw [if_neg hdetach], hwanted'⟩, hlt.le, fun _ => hlt⟩
  | @readPart a pipe' data' bytes at' read =>
    obtain ⟨rfl, -⟩ := Server.running.inj (at_.symm.trans at')
    obtain ⟨hwanted', hlt⟩ := readsNext_part at_ hwanted hopen read σ.globals errorMoreData
      (.reading (store bytes data'))
    exact .inr ⟨⟨hflag, _, _, rfl, hwanted'⟩, hlt.le, fun _ => hlt⟩
  | readFails at' read kind =>
    obtain ⟨rfl, -⟩ := Server.running.inj (at_.symm.trans at')
    exact absurd (MessagePipe.queue_of_failed read) hnotEmpty
  | readBroken at' read =>
    obtain ⟨rfl, -⟩ := Server.running.inj (at_.symm.trans at')
    exact absurd (MessagePipe.queue_of_failed read) hnotEmpty
  -- the server reads
  | _ at' =>
    rw [at_] at at'
    cases at'

/-- **Service**: in every run, the messages that wait while the server reads are served once the
server has made the reads that they take, or served up to one that detaches. -/
theorem served_or_leaving {before behind : List Action} {σ τ : System}
    {pipe : MessagePipe UInt8} {data : Bytes} (hreach : exec step .init before = some σ)
    (hserver : σ.server = .running pipe (.reading data)) (hexec : exec step σ behind = some τ)
    (hpasses : MessagePipe.readsLeft buffSize pipe.queue ≤ behind.countP Action.isServer) :
    Reaches step (ServedOrLeaving (servedWhole σ.events ++ pipe.pending)) σ behind := by
  have hflag : FlagPastPoll σ :=
    exec_invariant (fun _ _ _ hI hstep => flagPastPoll_step hI (transition_of_step hstep)) hreach
      flagPastPoll_init
  refine reaches_of_rank (I := ReadsNext (servedWhole σ.events ++ pipe.pending)) _
    (fun _ hI hzero => servedOrLeaving_of_reads hI hzero)
    (fun _ _ _ hI hopen hstep => readsNext_step hI hopen (transition_of_step hstep))
    ⟨hflag _ _ hserver trivial, pipe, data, hserver, List.prefix_refl _⟩ hexec ?_
  have hall : (servedWhole σ.events ++ pipe.pending).length - (servedWhole σ.events).length =
      pipe.queue.length := by
    rw [List.length_append, Nat.add_sub_cancel_left, MessagePipe.pending, List.length_map]
  rw [readsUntil_running hserver, hall, List.take_length]
  exact hpasses

/-- A packet and a command that wait are served by two reads. -/
theorem two_messages_served :
    ∃ σ, exec step .init (oneMessage (ascii "hello") 0 ++ [.client (.write getserverCmd)]) = some σ ∧
      Reaches step (ServedOrLeaving [ascii "hello", getserverCmd]) σ
        [.server .plain, .client .close, .server .plain] := by
  obtain ⟨σ, pipe, data, hσ, hserver, hwanted, hreads⟩ : ∃ σ pipe data,
      exec step .init (oneMessage (ascii "hello") 0 ++ [.client (.write getserverCmd)]) = some σ ∧
      σ.server = .running pipe (.reading data) ∧
      servedWhole σ.events ++ pipe.pending = [ascii "hello", getserverCmd] ∧
      MessagePipe.readsLeft buffSize pipe.queue = 2 := ⟨_, _, _, rfl, rfl, rfl, rfl⟩
  obtain ⟨τ, hτ⟩ : ∃ τ, exec step σ [.server .plain, .client .close, .server .plain] = some τ := by
    obtain rfl := Option.some.inj hσ
    exact ⟨_, rfl⟩
  refine ⟨σ, hσ, ?_⟩
  rw [← hwanted]
  exact served_or_leaving hσ hserver hτ (by rw [hreads]; decide)

/-! ## Clients that are gone -/

/-- The instance can be joined, or the server leaves. -/
def JoinableOrLeaving (σ : System) : Prop :=
  (∃ loop, σ.server = .running .listening loop) ∨ Leaving σ

/-- The instance can be joined, or the server was told to detach and leaves. -/
def JoinableOrDetached (σ : System) : Prop :=
  (∃ loop, σ.server = .running .listening loop) ∨ Leaving σ ∧ Detached σ

/-- The client is gone, or was cut off. -/
def ClientGone (σ : System) : Prop :=
  (∃ q loop, σ.server = .running (.closing q) loop) ∨
    σ.server = .running .disconnected .head ∧ σ.globals.gIsClientConnected = false

/-- The passes until the instance can be joined. The logger may hide the code of the first poll
from the server, but it logs in the first pass of a wait only. -/
def passesToJoinable (σ : System) : Nat :=
  match σ.server with
  | .running (.closing q) (.reading _) => MessagePipe.readsLeft buffSize q + 6
  | .running (.closing _) .head => if σ.globals.gIsPipeServerWaitingForClients then 3 else 5
  | .running (.closing _) .waiting =>
      if σ.globals.gIsPipeServerWaitingForClients ∧ σ.serverError = errorNoData then 2 else 4
  | .running .disconnected .head => 1
  | _ => 0

/-- A call of the game or of the client leaves the wait as it is. -/
theorem clientGone_other {σ σ' : System} {a : Action} (ha : a.isServer = false)
    (hI : ClientGone σ) (h : Transition σ a σ') :
    ClientGone σ' ∧ passesToJoinable σ' = passesToJoinable σ := by
  cases h with
  | hooked loaded run =>
    simp only [ClientGone, passesToJoinable, globals_hooked run, remember]
    exact ⟨hI, trivial⟩
  | unhooked unloaded => exact ⟨hI, rfl⟩
  | clientIdle closed => exact ⟨hI, rfl⟩
  | @clientCall call pipe loop at_ =>
    -- neither of the two states of the pipe is changed
    rcases hI with ⟨q, loop', hserver⟩ | ⟨hserver, hflag⟩
    · obtain ⟨rfl, rfl⟩ := Server.running.inj (at_.symm.trans hserver)
      rw [passesToJoinable, passesToJoinable, at_, apply_closing]
      exact ⟨.inl ⟨q, loop, rfl⟩, rfl⟩
    · obtain ⟨rfl, rfl⟩ := Server.running.inj (at_.symm.trans hserver)
      have hcut : call.apply .disconnected = .disconnected := by cases call <;> rfl
      rw [passesToJoinable, passesToJoinable, at_, hcut]
      exact ⟨.inr ⟨rfl, hflag⟩, rfl⟩
  | _ => cases ha

theorem passesToJoinable_head_le (g : Globals) (e : ErrorCode) (q : List (Message UInt8))
    (events : List Event) :
    passesToJoinable ⟨g, e, .running (.closing q) .head, events⟩ ≤ 5 := by
  simp only [passesToJoinable]
  split <;> omega

/-- A pass of the read loop behind a client that is gone. -/
theorem clientGone_reading {σ σ' : System} {a : ServerAnswers} {q : List (Message UInt8)}
    {data : Bytes} (at_ : σ.server = .running (.closing q) (.reading data))
    (h : Transition σ (.server a) σ') :
    ClientGone σ' ∧ passesToJoinable σ' < passesToJoinable σ := by
  have hrank : passesToJoinable σ = MessagePipe.readsLeft buffSize q + 6 := by
    rw [passesToJoinable, at_]
  rw [hrank]
  cases h with
  | @served _ pipe data' m br c at' read run =>
    obtain ⟨rfl, -⟩ := Server.running.inj (at_.symm.trans at')
    have hqueue : q = m :: (MessagePipe.readQueue buffSize .broken q).2 :=
      MessagePipe.queue_of_message read
    simp only [MessagePipe.read]
    generalize (MessagePipe.readQueue buffSize .broken q).2 = rest at hqueue
    rw [hqueue, MessagePipe.readsLeft_cons]
    generalize (m.unread.length - 1) / buffSize = more
    refine ⟨.inl ⟨_, _, rfl⟩, ?_⟩
    by_cases hdetach : br = .dettach
    · rw [if_pos hdetach]
      exact Nat.lt_of_le_of_lt (passesToJoinable_head_le _ _ _ _) (by omega)
    · simp only [passesToJoinable, if_neg hdetach]
      omega
  | @readPart _ pipe data' bytes at' read =>
    obtain ⟨rfl, -⟩ := Server.running.inj (at_.symm.trans at')
    obtain ⟨m, rest, hqueue, hlong, hqueue'⟩ := MessagePipe.queue_of_part read
    refine ⟨.inl ⟨_, _, rfl⟩, ?_⟩
    have hq : q = m :: rest := hqueue
    have hq' : (MessagePipe.readQueue buffSize .broken q).2 =
      ⟨m.whole, m.unread.drop buffSize⟩ :: rest := hqueue'
    simp only [passesToJoinable, MessagePipe.read, hq']
    rw [hq, ← MessagePipe.readsLeft_part (by decide) hlong]
    omega
  | readFails at' read kind =>
    obtain ⟨rfl, -⟩ := Server.running.inj (at_.symm.trans at')
    obtain rfl : q = [] := MessagePipe.queue_of_failed read
    exact absurd (ReadResult.failed.inj read).symm kind
  | readBroken at' read =>
    obtain ⟨rfl, -⟩ := Server.running.inj (at_.symm.trans at')
    refine ⟨.inl ⟨_, _, rfl⟩, ?_⟩
    exact Nat.lt_of_le_of_lt (passesToJoinable_head_le _ _ _ _) (by omega)
  -- the server reads
  | _ at' =>
    rw [at_] at at'
    cases at'

/-- Behind `Sleep`, a client that is gone is cut off. When the logger hides the code of the poll,
the next poll finds the client again, and then the logger says nothing. -/
theorem clientGone_waiting {σ : System} (a : ServerAnswers) {q : List (Message UInt8)}
    (at_ : σ.server = .running (.closing q) .waiting) :
    ClientGone (waitForClient σ a (.closing q)) ∧
      passesToJoinable (waitForClient σ a (.closing q)) < passesToJoinable σ := by
  have hrank : passesToJoinable σ = if σ.globals.gIsPipeServerWaitingForClients ∧
      σ.serverError = errorNoData then 2 else 4 := by
    rw [passesToJoinable, at_]
  have htwo : 2 ≤ passesToJoinable σ := by
    rw [hrank]
    split <;> omega
  unfold waitForClient
  generalize herr : (if σ.globals.gIsPipeServerWaitingForClients = false then
    a.log.getD σ.serverError else σ.serverError) = err
  by_cases hnoData : err = errorNoData
  · have hpos : err > 0 ∧ err ≠ errorPipeListening := by
      rw [hnoData]
      decide
    simp only [if_pos hpos, if_pos hnoData]
    exact ⟨.inr ⟨rfl, rfl⟩, htwo⟩
  · -- the code was another one, or the logger has changed it
    have hfour : passesToJoinable σ = 4 := by
      rw [hrank, if_neg]
      intro ⟨hwaiting, herror⟩
      rw [if_neg (by simp [hwaiting])] at herr
      exact hnoData (herr.symm.trans herror)
    simp only [if_neg hnoData, ite_self]
    exact ⟨.inl ⟨q, .head, rfl⟩, by rw [hfour]; exact Nat.lt_succ_self 3⟩

/-- Every pass of the server brings the instance nearer. -/
theorem clientGone_server {σ σ' : System} {a : ServerAnswers} (hI : ClientGone σ)
    (hopen : ¬ JoinableOrLeaving σ) (h : serverStep σ a = some σ') :
    JoinableOrLeaving σ' ∨ ClientGone σ' ∧ passesToJoinable σ' < passesToJoinable σ := by
  rcases hI with ⟨q, loop, at_⟩ | ⟨at_, hflag⟩
  · cases loop with
    | head =>
      have hflag : σ.globals.gIsClientConnected = false := by
        by_contra hset
        exact hopen (.inr ((leaving_running_iff at_).mpr (.inr ⟨rfl, Bool.not_eq_false _ ▸ hset⟩)))
      have hpoll : connectNamedPipe σ (.closing q) =
          { globals := { σ.globals with gIsClientConnected := false }
            serverError := errorNoData
            server := .running (.closing q) .waiting
            events := σ.events ++ [noDataPoll] } := rfl
      simp only [serverStep, at_, hflag, hpoll] at h
      obtain rfl := Option.some.inj h
      refine .inr ⟨.inl ⟨q, .waiting, rfl⟩, ?_⟩
      simp only [passesToJoinable, at_]
      cases σ.globals.gIsPipeServerWaitingForClients <;> decide
    | reading data => exact .inr (clientGone_reading at_ (transition_of_step (a := .server a) h))
    | waiting =>
      rw [serverStep, at_] at h
      obtain rfl := Option.some.inj h
      exact .inr (clientGone_waiting a at_)
    | closing => exact absurd (.inr ((leaving_running_iff at_).mpr (.inl rfl))) hopen
  · simp only [serverStep, at_, hflag] at h
    obtain rfl := Option.some.inj h
    exact .inl (.inl ⟨_, rfl⟩)

theorem clientGone_step {σ σ' : System} {a : Action} (hI : ClientGone σ)
    (hopen : ¬ JoinableOrLeaving σ) (h : step σ a = some σ') :
    JoinableOrLeaving σ' ∨ ClientGone σ' ∧ passesToJoinable σ' ≤ passesToJoinable σ ∧
      (a.isServer = true → passesToJoinable σ' < passesToJoinable σ) := by
  cases hserver : a.isServer with
  | true =>
    cases a with
    | server answers =>
      rcases clientGone_server hI hopen h with hdone | ⟨hgone, hlt⟩
      · exact .inl hdone
      · exact .inr ⟨hgone, hlt.le, fun _ => hlt⟩
    | _ => cases hserver
  | false =>
    obtain ⟨hgone, hsame⟩ := clientGone_other hserver hI (transition_of_step h)
    exact .inr ⟨hgone, hsame.le, by simp⟩

/-- From a state in which the client is gone, the instance becomes joinable or the server leaves. -/
theorem reaches_joinable {σ τ : System} {actions : List Action} {q : List (Message UInt8)}
    {loop : Loop} (hgone : σ.server = .running (.closing q) loop)
    (hexec : exec step σ actions = some τ)
    (hpasses : passesToJoinable σ ≤ actions.countP Action.isServer) :
    Reaches step JoinableOrLeaving σ actions := by
  refine reaches_of_rank (I := ClientGone) passesToJoinable ?_
    (fun _ _ _ hI hopen hstep => clientGone_step hI hopen hstep) (.inl ⟨q, loop, hgone⟩) hexec
    hpasses
  intro σ hI hzero
  rcases hI with ⟨q, loop, at_⟩ | ⟨at_, -⟩
  · rw [passesToJoinable, at_] at hzero
    cases loop with
    | closing => exact .inr ((leaving_running_iff at_).mpr (.inl rfl))
    | head =>
      dsimp only at hzero
      split at hzero <;> cases hzero
    | waiting =>
      dsimp only at hzero
      split at hzero <;> cases hzero
    | reading data => cases hzero
  · rw [passesToJoinable, at_] at hzero
    cases hzero

/-- **Recovery**: whatever the game, other clients and the logger do, a client that has closed its
end makes room for the next one after the passes that the state tells, or the server leaves, which
it does in a run from the start only behind a `!dettach`. -/
theorem joinable_again {σ τ : System} {actions : List Action} {q : List (Message UInt8)}
    {loop : Loop} (hgone : σ.server = .running (.closing q) loop)
    (hexec : exec step σ actions = some τ)
    (hpasses : passesToJoinable σ ≤ actions.countP Action.isServer) :
    Reaches step JoinableOrLeaving σ actions ∧
      ∀ before, exec step .init before = some σ → Reaches step JoinableOrDetached σ actions := by
  have hreaches := reaches_joinable hgone hexec hpasses
  refine ⟨hreaches, fun before hbefore => hreaches.imp fun bs t ht hgoal => ?_⟩
  rcases hgoal with hjoinable | hleaving
  · exact .inl hjoinable
  · -- the whole run tells why the server leaves
    have hrun : exec step .init (before ++ bs) = some t := by
      rw [exec_append, hbefore]
      exact ht
    exact .inr ⟨hleaving, (leaving_iff_detached hrun).mp hleaving⟩

/-- A client that leaves a packet behind. -/
theorem joinable_behind_packet :
    ∃ σ, exec step .init (oneMessage (ascii "hello") 0 ++ [.client .close]) = some σ ∧
      Reaches step JoinableOrDetached σ (List.replicate 7 (.server .plain)) := by
  obtain ⟨σ, q, loop, hσ, hgone, hpasses⟩ : ∃ σ q loop,
      exec step .init (oneMessage (ascii "hello") 0 ++ [.client .close]) = some σ ∧
      σ.server = .running (.closing q) loop ∧ passesToJoinable σ = 7 :=
    ⟨_, _, _, rfl, rfl, rfl⟩
  obtain ⟨τ, hτ⟩ : ∃ τ, exec step σ (List.replicate 7 (.server .plain)) = some τ := by
    obtain rfl := Option.some.inj hσ
    exact ⟨_, rfl⟩
  exact ⟨σ, hσ, (joinable_again hgone hτ (by rw [hpasses]; decide)).2 _ hσ⟩

end Doreto.Interop
