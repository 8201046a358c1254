import Doreto.Interop.RememberedServer

/-!
# Sockets That Somebody Opened

`g_Socket` is a socket that the game used in a call, or the value of a lookup. Before the first of
these it is 0, a lookup without a match gives `INVALID_SOCKET`, and one that fails gives 1. The
forward branch looks for `INVALID_SOCKET` only, so that it takes the other two values for sockets
as well.

A run is followed by a record of the writes to `g_Socket` and of the sockets that the forward
branch passed to `MySend`.

## Main results

- `gSocket_of_transition`: what each step does to `g_Socket`.
- `opens_value_iff`: when the value of a lookup is a genuine match.
- `onlyOpened_iff_lastWriteOpens`: when the forward branch passes on opened sockets only.
-/

namespace Doreto.Interop

open Doreto.Lib

/-! ## Writes to g_Socket -/

/-- A write to `g_Socket`. -/
inductive SocketWrite where
  /-- A call of the game on the socket. -/
  | hook (s : Socket)
  /-- A lookup of the address, with what the system answered. -/
  | lookup (finder : FinderAnswers) (ipaddr : Bytes)

namespace SocketWrite

/-- The value that is written. -/
def value : SocketWrite → Socket
  | .hook s => s
  | .lookup finder ipaddr => finder.foundSocket ipaddr

/-- The socket was the argument of the call, or it is the value of the lookup and a true match. -/
def Opens (s : Socket) : SocketWrite → Prop
  | .hook s' => s = s'
  | .lookup finder ipaddr => s = finder.foundSocket ipaddr ∧
      ∃ e ∈ finder.table, e.Matches finder.pid ipaddr ∧ s = e.socket

/-- A call of the game, or a lookup in a table that is there, with a first match whose peer was told
or whose handle another entry has in truth. -/
def Genuine : SocketWrite → Prop
  | .hook _ => True
  | .lookup finder ipaddr => finder.isEnumerated = true ∧
      ∀ e, finder.firstMatch ipaddr = some e → e.2.peer.isOk = true ∨
        ∃ e' ∈ finder.table, e'.Matches finder.pid ipaddr ∧ e.socket = e'.socket

end SocketWrite

/-- One of the writes opened the socket. -/
def Opened (writes : List SocketWrite) (s : Socket) : Prop :=
  ∃ w ∈ writes, w.Opens s

/-- What `g_Socket` is behind the writes. -/
def lastValue (writes : List SocketWrite) : Socket :=
  (writes.getLast?.map SocketWrite.value).getD Globals.init.gSocket

/-- The write of a message that is served. -/
def deliveryWrite : Option Delivery → Option SocketWrite
  | some (a, _, .findsocketfor ipaddr) => some (.lookup a.finder ipaddr)
  | _ => none

/-- The write of a step. -/
def writeIn (σ : System) (a : Action) : Option SocketWrite :=
  match a with
  | .game _ call => if σ.server = .unloaded then none else some (.hook call.socket)
  | _ => deliveryWrite (servedIn σ a)

/-- The socket of the hook that runs in a step is the value of the write. -/
theorem rememberedAfter_snd (σ : System) (a : Action) :
    (rememberedAfter σ.globals.remembered (peerQuery σ a)).2 =
      ((writeIn σ a).map SocketWrite.value).getD σ.globals.gSocket := by
  cases a with
  | game e call =>
    by_cases hserver : σ.server = .unloaded
    · rw [peerQuery, writeIn, if_pos hserver, if_pos hserver]
      rfl
    · rw [peerQuery, writeIn, if_neg hserver, if_neg hserver]
      rfl
  | client call => rfl
  | server a =>
    have hwrite : writeIn σ (.server a) = deliveryWrite (servedIn σ (.server a)) := rfl
    rw [peerQuery_server, hwrite]
    cases servedIn σ (.server a) with
    | none => rfl
    | some d =>
      obtain ⟨answers, m, br⟩ := d
      cases br with
      | forward =>
        -- the hook is called for the socket that is there already
        by_cases hsocket : σ.globals.gSocket = invalidSocket
        · simp [branchQuery, hsocket, rememberedAfter, deliveryWrite, Globals.remembered]
        · simp [branchQuery, hsocket, rememberedAfter, deliveryWrite]
      | _ => rfl

/-- What each step does to `g_Socket`. -/
theorem gSocket_of_transition {σ σ' : System} {a : Action} (h : Transition σ a σ') :
    σ'.globals.gSocket = ((writeIn σ a).map SocketWrite.value).getD σ.globals.gSocket := by
  have hremembered := congrArg Prod.snd (remembered_of_transition h)
  exact hremembered.trans (rememberedAfter_snd σ a)

/-! ## Genuine lookups -/

/-- The value of a write that passes the guard was opened by the write exactly when the write is
genuine. -/
theorem opens_value_iff {w : SocketWrite} (hvalid : w.value ≠ invalidSocket) :
    w.Opens w.value ↔ w.Genuine := by
  cases w with
  | hook s => exact iff_of_true rfl trivial
  | lookup finder ipaddr =>
    cases henumerated : finder.isEnumerated with
    | false =>
      -- the value is 1, and there is no table that could have a match
      refine iff_of_false (fun h => ?_) (fun h => ?_)
      · obtain ⟨-, e, he, -⟩ := h
        rw [table_of_not_enumerated henumerated] at he
        cases he
      · have henumerated' := h.1
        rw [henumerated] at henumerated'
        cases henumerated'
    | true =>
      cases hfirst : finder.firstMatch ipaddr with
      | none =>
        refine absurd ?_ hvalid
        simp [SocketWrite.value, FinderAnswers.foundSocket, henumerated, hfirst]
      | some e =>
        have hvalue : finder.foundSocket ipaddr = e.socket :=
          foundSocket_of_firstMatch henumerated hfirst
        have hlooks : e.looksRight finder.pid ipaddr = true := by
          simpa using List.find?_some hfirst
        have hmem : e ∈ finder.table := List.mem_of_find?_eq_some hfirst
        constructor
        · intro hopens
          obtain ⟨-, e', he', hmatches, hsame⟩ := hopens
          refine ⟨henumerated, fun e'' he'' => .inr ⟨e', he', hmatches, ?_⟩⟩
          obtain rfl := Option.some.inj (hfirst.symm.trans he'')
          exact hvalue.symm.trans hsame
        · intro hgenuine
          refine ⟨rfl, ?_⟩
          -- the first match is a true one, or another entry stands in for it
          rcases hgenuine.2 e hfirst with hpeer | ⟨e', he', hmatches, hsame⟩
          · exact ⟨e, hmem, matches_of_looksRight hlooks hpeer, hvalue⟩
          · exact ⟨e', he', hmatches, hvalue.trans hsame⟩

/-- A value that passes the guard was opened exactly when the last write is genuine, or when the
value had been opened before it. -/
theorem opened_lastValue_iff {writes : List SocketWrite}
    (hvalid : lastValue writes ≠ invalidSocket) :
    Opened writes (lastValue writes) ↔ ∃ w, writes.getLast? = some w ∧
      (w.Genuine ∨ Opened writes.dropLast (lastValue writes)) := by
  rcases List.eq_nil_or_concat' writes with rfl | ⟨before, w, rfl⟩
  · simp [Opened]
  · have hvalue : lastValue (before ++ [w]) = w.value := by simp [lastValue]
    rw [hvalue] at hvalid ⊢
    have hopened : Opened (before ++ [w]) w.value ↔ Opened before w.value ∨ w.Opens w.value := by
      simp [Opened, or_and_right, exists_or]
    rw [hopened, opens_value_iff hvalid]
    simp [or_comm]

/-! ## The record -/

/-- The system with a record of the writes and of the sockets that messages were passed to. -/
structure Watched where
  system : System
  /-- The writes to `g_Socket`, oldest first. -/
  writes : List SocketWrite
  /-- The sockets that the forward branch passed to `MySend`, with the writes before each. -/
  passed : List (Socket × List SocketWrite)

def Watched.init : Watched :=
  ⟨.init, [], []⟩

/-- The sockets that `MySend` sends to for the messages that are forwarded. -/
def passedIn (served : List ServedMessage) : List Socket :=
  (served.filter fun m => m.branch = .forward).flatMap fun m => (sends m.calls).map Prod.fst

/-- A step of the system, recorded. -/
def watchedStep (τ : Watched) (a : Action) : Option Watched :=
  (step τ.system a).map fun σ' =>
    let served := servedMessages (σ'.events.drop τ.system.events.length)
    { system := σ'
      writes := τ.writes ++ (writeIn τ.system a).toList
      passed := τ.passed ++ (passedIn served).map fun s => (s, τ.writes) }

/-- Every socket that a message was passed to had been opened. -/
def OnlyOpened (τ : Watched) : Prop :=
  ∀ s before, (s, before) ∈ τ.passed → Opened before s

/-- When the step forwards a message, the last write to `g_Socket` was genuine, or the value had
been opened before it. -/
def LastWriteOpens (τ : Watched) (a : Action) : Prop :=
  ∀ answers m, servedIn τ.system a = some (answers, m, .forward) →
    τ.system.globals.gSocket ≠ invalidSocket → ∃ w, τ.writes.getLast? = some w ∧
      (w.Genuine ∨ Opened τ.writes.dropLast τ.system.globals.gSocket)

/-- `g_Socket` is what was written last. -/
def TracksSocket (τ : Watched) : Prop :=
  τ.system.globals.gSocket = lastValue τ.writes

/-! ## One step -/

theorem lastValue_append (writes : List SocketWrite) (w : Option SocketWrite) :
    lastValue (writes ++ w.toList) = (w.map SocketWrite.value).getD (lastValue writes) := by
  cases w <;> simp [lastValue]

theorem tracksSocket_step {τ τ' : Watched} {a : Action} (hI : TracksSocket τ)
    (hstep : watchedStep τ a = some τ') : TracksSocket τ' := by
  obtain ⟨σ', hσ', rfl⟩ := Option.map_eq_some_iff.mp hstep
  have hsocket := gSocket_of_transition (transition_of_step hσ')
  show σ'.globals.gSocket = lastValue (τ.writes ++ (writeIn τ.system a).toList)
  rw [hsocket, lastValue_append, hI]

/-- The sockets that a step passes messages to. -/
theorem mem_passedIn_iff {σ σ' : System} {a : Action} (h : Transition σ a σ') (s : Socket) :
    s ∈ passedIn (servedMessages (σ'.events.drop σ.events.length)) ↔
      (∃ answers m, servedIn σ a = some (answers, m, .forward)) ∧
        σ.globals.gSocket ≠ invalidSocket ∧ s = σ.globals.gSocket := by
  rcases serves_of_transition h with ⟨answers, m, br, c, hserved, hserves⟩ | ⟨hserved, extra, hextra⟩
  · rw [hserves.newMessages, hserved]
    cases br with
    | forward =>
      have hsends := hserves.sends_forward
      by_cases hsocket : σ.globals.gSocket = invalidSocket
      · simp [passedIn, hsends, route, hsocket]
      · simp [passedIn, hsends, route, hsocket]
    | _ => simp [passedIn]
  · obtain ⟨hevents, hnone⟩ := hextra
    rw [hevents, List.drop_left, hnone, hserved]
    simp [passedIn]

/-- From a state in which messages went to opened sockets only, a step leads to one exactly when
the last write opened the socket that it forwards to. -/
theorem onlyOpened_iff_lastWriteOpens_step {τ τ' : Watched} {a : Action} (hI : TracksSocket τ)
    (h : OnlyOpened τ) (hstep : watchedStep τ a = some τ') :
    OnlyOpened τ' ↔ LastWriteOpens τ a := by
  obtain ⟨σ', hσ', rfl⟩ := Option.map_eq_some_iff.mp hstep
  have hpassed := mem_passedIn_iff (transition_of_step hσ')
  -- what counts is the socket that this step passes a message to
  have hnew : OnlyOpened ⟨σ', τ.writes ++ (writeIn τ.system a).toList, τ.passed ++
      (passedIn (servedMessages (σ'.events.drop τ.system.events.length))).map
        fun s => (s, τ.writes)⟩ ↔
      ∀ s ∈ passedIn (servedMessages (σ'.events.drop τ.system.events.length)),
        Opened τ.writes s := by
    constructor
    · intro hall s hs
      exact hall s τ.writes (List.mem_append_right _ (List.mem_map_of_mem hs))
    · intro hall s before hmem
      rcases List.mem_append.mp hmem with hold | hadded
      · exact h s before hold
      · obtain ⟨s', hs', heq⟩ := List.mem_map.mp hadded
        obtain ⟨rfl, rfl⟩ := Prod.mk.inj heq
        exact hall s' hs'
  refine hnew.trans ?_
  constructor
  · intro hall answers m hserved hvalid
    have hopened := hall _ ((hpassed _).mpr ⟨⟨answers, m, hserved⟩, hvalid, rfl⟩)
    rw [hI] at hopened hvalid ⊢
    exact (opened_lastValue_iff hvalid).mp hopened
  · intro hopens s hs
    obtain ⟨⟨answers, m, hserved⟩, hvalid, rfl⟩ := (hpassed s).mp hs
    have hlast := hopens answers m hserved hvalid
    rw [hI] at hlast hvalid ⊢
    exact (opened_lastValue_iff hvalid).mpr hlast

/-! ## Every run -/

/-- **Opened sockets**: in a run of the game, the client and the server the forward branch passes
messages to opened sockets only, exactly when at each forward the last write to `g_Socket` was a
genuine one, or its value had been opened before. -/
theorem onlyOpened_iff_lastWriteOpens (actions : List Action) :
    HoldsAlong watchedStep OnlyOpened .init actions ↔
      StepsMeet watchedStep LastWriteOpens .init actions := by
  apply holdsAlong_iff_stepsMeet (I := TracksSocket)
  · intro τ a τ' hI hstep
    exact tracksSocket_step hI hstep
  · intro τ a τ' hI h hstep
    exact onlyOpened_iff_lastWriteOpens_step hI h hstep
  · rfl
  · intro s before hmem
    cases hmem

/-- A client joins and writes a packet before the game has used any socket. -/
def packetAtOnce : List Action :=
  [.server .plain, .client .connect, .client (.write (ascii "hello")), .server .plain,
    .server .plain]

/-- A client joins, makes a lookup that fails, and writes a packet. -/
def packetAfterLookup : List Action :=
  [.server .plain, .client .connect, .client (.write (ascii "!findsocketfor:172.65.206.1")),
    .client (.write (ascii "hello")), .server .plain, .server .plain, .server .plain]

/-- The first packet is passed on with the socket 0, and the other one with the socket 1. -/
theorem packets_on_no_socket :
    ¬ HoldsAlong watchedStep OnlyOpened .init packetAtOnce ∧
      ¬ HoldsAlong watchedStep OnlyOpened .init packetAfterLookup := by
  constructor
  · intro h
    obtain ⟨τ, hexec, hpassed⟩ : ∃ τ, exec watchedStep .init packetAtOnce = some τ ∧
        τ.passed = [(0, [])] := ⟨_, rfl, rfl⟩
    obtain ⟨w, hw, -⟩ := h.last hexec 0 [] (by simp [hpassed])
    cases hw
  · intro h
    obtain ⟨τ, hexec, hpassed⟩ : ∃ τ, exec watchedStep .init packetAfterLookup = some τ ∧
        τ.passed = [(1, [.lookup ServeAnswers.failing.finder (ascii "172.65.206.1")])] :=
      ⟨_, rfl, rfl⟩
    obtain ⟨w, hw, hopens⟩ := h.last hexec 1 _ (by rw [hpassed]; exact List.mem_singleton_self _)
    obtain rfl := List.mem_singleton.mp hw
    -- the table is not there
    obtain ⟨-, e, he, -⟩ := hopens
    cases he

end Doreto.Interop
