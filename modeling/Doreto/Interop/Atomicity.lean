import Doreto.Interop.ThreadRules

/-!
# Calls That Nobody Interrupts

Elsewhere a call of a hook, and the serving of a message, is one step of the system. That is what
the threads do when nobody interrupts them.

## Main results

- `hook_uninterrupted`: a call of the game that is not interrupted does what the single step does.
- `message_uninterrupted`: so does a pass of the server thread with a message.
- `pair_torn`: when calls interrupt each other, the socket of one is remembered together with the
  address of the other.
-/

namespace Doreto.Interop.Threads

open Doreto.Lib

/-! ## The globals of the single step -/

/-- The array holds a string and its terminator. -/
def Holds (text : Bytes) (s : Shared) : Prop :=
  ∀ k c, (text ++ [0])[k]? = some c → s.byte k = c

/-- The globals in memory are those that a single step reads and changes. -/
structure Represents (g : Globals) (s : Shared) : Prop where
  socket : s.gSocket = g.gSocket
  serverIp : Holds g.gServerIp.text s
  handle : s.gPipeServer = g.gPipeServer
  flag : s.gIsClientConnected = g.gIsClientConnected
  waiting : s.gIsPipeServerWaitingForClients = g.gIsPipeServerWaitingForClients

theorem represents_init : Represents .init .init := by
  refine ⟨rfl, fun k c hc => ?_, rfl, rfl, rfl⟩
  have hempty : Globals.init.gServerIp.text = [] := rfl
  rw [hempty, List.nil_append, List.getElem?_singleton] at hc
  split at hc
  · rw [← Option.some.inj hc, Shared.byte, Shared.init, Vector.getElem?_replicate]
    split <;> rfl
  · cases hc

/-! ## The hooks -/

/-- A copy that fits writes the bytes one behind the other. -/
theorem solo_strcpyServerIp (rest : Bytes) {k : Nat} (hfits : k + rest.length ≤ inetAddrStrLen)
    (s : Shared) : ∃ v, (strcpyServerIp k rest).solo s =
        some ((), { s with gServerIp := v }, []) ∧
      (∀ j, j < k → { s with gServerIp := v }.byte j = s.byte j) ∧
      ∀ (i : Nat) (c : UInt8), rest[i]? = some c → { s with gServerIp := v }.byte (k + i) = c := by
  induction rest generalizing k s with
  | nil => exact ⟨s.gServerIp, rfl, fun _ _ => rfl, by simp⟩
  | cons c rest ih =>
    rw [List.length_cons] at hfits
    have hk : k < inetAddrStrLen := by omega
    obtain ⟨v, hsolo, hbefore, hrest⟩ := ih (k := k + 1) (by omega) (s.setByte k c hk)
    refine ⟨v, ?_, fun j hj => ?_, fun i c' hc' => ?_⟩
    · rw [strcpyServerIp, dif_pos hk, Prog.solo_bind]
      simp only [Prog.solo_write, Option.bind_some, hsolo, Option.map_some]
      rfl
    · refine (hbefore j (by omega)).trans ?_
      rw [Shared.byte_setByte, if_neg (by omega)]
    · cases i with
      | zero =>
        obtain rfl := Option.some.inj hc'
        refine (hbefore k (by omega)).trans ?_
        rw [Shared.byte_setByte, if_pos rfl]
      | succ i =>
        rw [show k + (i + 1) = k + 1 + i by omega]
        exact hrest i c' hc'

/-- Update ip, the first part of the update. -/
def copyIp (peer : PeerAnswer) (x : Socket) : Act Unit := do
  let ip ← getIpFromSocket peer x
  strcpyServerIp 0 (ip ++ [0])

theorem updateSocketAndIp_eq (a : HookAnswers) (x : Socket) : updateSocketAndIp a x =
    copyIp a.peer x >>= fun _ => Prog.write fun s => { s with gSocket := x } := by
  simp only [updateSocketAndIp, copyIp, bind_assoc]

theorem solo_copyIp (peer : PeerAnswer) (x : Socket) (s : Shared) :
    ∃ v, (copyIp peer x).solo s = some ((), { s with gServerIp := v }, [.getpeername x]) ∧
      Holds (inetNtoa (peerAddress peer)) { s with gServerIp := v } := by
  have hlt := length_inetNtoa_lt (peerAddress peer)
  obtain ⟨v, hsolo, -, hcopied⟩ := solo_strcpyServerIp (inetNtoa (peerAddress peer) ++ [0])
    (k := 0) (by rw [List.length_append, List.length_singleton]; omega) s
  refine ⟨v, ?_, fun k c hc => ?_⟩
  · simp [copyIp, getIpFromSocket, Prog.solo_bind, hsolo]
  · simpa using hcopied k c hc

theorem solo_updateSocketAndIp (a : HookAnswers) (x : Socket) (s : Shared) :
    ∃ v, (updateSocketAndIp a x).solo s =
        some ((), { s with gServerIp := v, gSocket := x }, [.getpeername x]) ∧
      Holds (inetNtoa (peerAddress a.peer)) { s with gServerIp := v } := by
  obtain ⟨v, hsolo, hholds⟩ := solo_copyIp a.peer x s
  refine ⟨v, ?_, hholds⟩
  simp [updateSocketAndIp_eq, Prog.solo_bind, hsolo]

/-- The globals behind a hook. -/
theorem Represents.remember {g : Globals} {s : Shared} (hg : Represents g s) (peer : PeerAnswer)
    (x : Socket) {v : Vector UInt8 inetAddrStrLen}
    (hv : Holds (inetNtoa (peerAddress peer)) { s with gServerIp := v }) :
    Represents (remember peer x g) { s with gServerIp := v, gSocket := x } :=
  ⟨rfl, hv, hg.handle, hg.flag, hg.waiting⟩

theorem solo_writeToPipe (pipe : Handle) {buf : Bytes} (hbuf : 0 ∈ buf) (s : Shared) :
    (writeToPipe pipe buf).solo s = some ((), s, [.writeFile pipe (cBody 0 buf)]) := by
  simp [writeToPipe, cString, scan_of_mem hbuf, Prog.solo_bind, take_length_cBody]

theorem solo_mySend {g : Globals} {s : Shared} (hg : Represents g s) (a : HookAnswers)
    (real : SendAnswer) (x : Socket) {buf : Bytes} (hbuf : 0 ∈ buf) (len flags : Int) :
    ∃ s', (mySend a real x buf len flags).solo s = some (real.result, s',
        [.getpeername x, .send x (buf.take len.toNat) len flags] ++
          mirrorCalls g (cBody 0 buf) buf) ∧
      Represents (remember a.peer x g) s' ∧ s'.place = s.place := by
  obtain ⟨v, hsolo, hholds⟩ := solo_updateSocketAndIp a x s
  refine ⟨_, ?_, hg.remember a.peer x hholds, rfl⟩
  by_cases hflag : g.gIsClientConnected = true <;>
    by_cases hascii : containsOnlyASCII (cBody 0 buf) = true <;>
    simp [mySend, Prog.solo_bind, Prog.solo_map, hsolo, cString, scan_of_mem hbuf, pSend, hg.flag,
      hg.handle, solo_writeToPipe _ hbuf, mirrorCalls, mirrors, hflag, hascii]

theorem solo_myRecv {g : Globals} {s : Shared} (hg : Represents g s) (a : HookAnswers)
    (real : RecvAnswer) (x : Socket) {buf : Bytes} (len flags : Int)
    (h : recvTerminated g.gIsClientConnected real buf) :
    ∃ s', (myRecv a real x buf len flags).solo s = some ((real.result, store real.stored buf), s',
        [.getpeername x, .recv x len flags] ++
          mirrorCalls g (cBody 0 buf) (store real.stored buf)) ∧
      Represents (remember a.peer x g) s' ∧ s'.place = s.place := by
  obtain ⟨hbuf, hafter⟩ := h
  obtain ⟨v, hsolo, hholds⟩ := solo_updateSocketAndIp a x s
  refine ⟨_, ?_, hg.remember a.peer x hholds, rfl⟩
  by_cases hmirror : mirrors g.gIsClientConnected (cBody 0 buf) = true
  · obtain ⟨hflag, hascii⟩ : g.gIsClientConnected = true ∧
        containsOnlyASCII (cBody 0 buf) = true := by simpa [mirrors] using hmirror
    have hstored := hafter hmirror
    simp [myRecv, Prog.solo_bind, Prog.solo_map, hsolo, cString, scan_of_mem hbuf, pRecv, hg.flag,
      hg.handle, solo_writeToPipe _ hstored, scan_of_mem hstored, mirrorCalls, mirrors, hflag,
      hascii]
  · by_cases hflag : g.gIsClientConnected = true
    · have hascii : containsOnlyASCII (cBody 0 buf) = false := by simpa [mirrors, hflag] using hmirror
      simp [myRecv, Prog.solo_bind, hsolo, cString, scan_of_mem hbuf, pRecv, hg.flag, mirrorCalls,
        mirrors, hflag, hascii]
    · simp [myRecv, Prog.solo_bind, hsolo, cString, scan_of_mem hbuf, pRecv, hg.flag, mirrorCalls,
        mirrors, hflag]

theorem solo_myConnect {g : Globals} {s : Shared} (hg : Represents g s) (a : HookAnswers)
    (real : ConnectAnswer) (x : Socket) (name : Bytes) (namelen : Int) :
    ∃ s', (myConnect a real x name namelen).solo s = some (real.result, s',
        [.connect x name namelen, .getpeername x]) ∧
      Represents (remember a.peer x g) s' ∧ s'.place = s.place := by
  obtain ⟨v, hsolo, hholds⟩ := solo_updateSocketAndIp a x s
  refine ⟨_, ?_, hg.remember a.peer x hholds, rfl⟩
  simp [myConnect, Prog.solo_bind, Prog.solo_map, hsolo, pConnect]

/-- A call of the game that is not interrupted does what the single step does. -/
theorem solo_hooked {call : GameCall} {g : Globals} {s : Shared} (hg : Represents g s)
    {e : ErrorCode} {calls : List ApiCall} {out : Int × Bytes} {c : Ctx}
    (h : call.hooked.run ⟨g, e, calls⟩ = some (out, c)) :
    ∃ s' es, (hooked call).solo s = some (out, s', es) ∧ c.calls = calls ++ es ∧
      Represents c.globals s' ∧ s'.place = s.place := by
  have hterm : call.Terminated g.gIsClientConnected := by
    by_contra hnot
    rw [hooked_of_not_terminated hnot] at h
    cases h
  cases call with
  | send a real x buf len flags =>
    have hbuf : 0 ∈ buf := hterm
    simp only [GameCall.hooked, StateT.run_bind, run_mySend a real x len flags hbuf] at h
    obtain ⟨rfl, rfl⟩ := Prod.mk.inj (Option.some.inj h)
    obtain ⟨s', hsolo, hrep, hplace⟩ := solo_mySend hg a real x hbuf len flags
    refine ⟨s', _, ?_, rfl, hrep, hplace⟩
    simp [hooked, Prog.solo_map, hsolo]
  | recv a real x buf len flags =>
    have hbuf : recvTerminated g.gIsClientConnected real buf := hterm
    simp only [GameCall.hooked, run_myRecv a real x len flags ⟨g, e, calls⟩ hbuf] at h
    obtain ⟨rfl, rfl⟩ := Prod.mk.inj (Option.some.inj h)
    obtain ⟨s', hsolo, hrep, hplace⟩ := solo_myRecv hg a real x len flags hbuf
    exact ⟨s', _, hsolo, rfl, hrep, hplace⟩
  | connect a real x name namelen =>
    simp only [GameCall.hooked, StateT.run_bind, run_myConnect] at h
    obtain ⟨rfl, rfl⟩ := Prod.mk.inj (Option.some.inj h)
    obtain ⟨s', hsolo, hrep, hplace⟩ := solo_myConnect hg a real x name namelen
    refine ⟨s', _, ?_, rfl, hrep, hplace⟩
    simp [hooked, Prog.solo_map, hsolo]

/-! ## The server thread -/

/-- A string in the array is read to its end. -/
theorem solo_scanServerIp {text : Bytes} (hno : 0 ∉ text) (hfits : text.length < inetAddrStrLen)
    {s : Shared} (hs : Holds text s) (n : Nat) {k : Nat} (hn : n + k = inetAddrStrLen)
    (hk : k ≤ text.length) : (scanServerIp n).solo s = some (text.drop k, s, []) := by
  induction n generalizing k with
  | zero => omega
  | succ n ih =>
    have hindex : inetAddrStrLen - (n + 1) = k := by omega
    by_cases hend : k = text.length
    · subst hend
      have hzero : s.byte text.length = 0 := by
        apply hs
        rw [List.getElem?_append_right (Nat.le_refl _), Nat.sub_self]
        rfl
      simp [scanServerIp, Prog.solo_bind, hindex, hzero]
    · have hlt : k < text.length := by omega
      have hbyte : s.byte k = text[k] := by
        apply hs
        rw [List.getElem?_append_left hlt]
        exact List.getElem?_eq_getElem hlt
      have hne : text[k] ≠ 0 := fun hzero => hno (hzero ▸ List.getElem_mem hlt)
      have hrest := ih (k := k + 1) (by omega) hlt
      simp [scanServerIp, Prog.solo_bind, Prog.solo_map, hindex, hbyte, hne, hrest]

theorem solo_sendServer {g : Globals} {s : Shared} (hg : Represents g s) :
    sendServer.solo s = some ((), s, if 0 < g.gServerIp.text.length then
      [.writeFile g.gPipeServer (setserverReply ++ g.gServerIp.text)] else []) := by
  have hscan := solo_scanServerIp g.gServerIp.noNul g.gServerIp.fits hg.serverIp inetAddrStrLen
    (k := 0) rfl (Nat.zero_le _)
  rw [List.drop_zero] at hscan
  by_cases hip : 0 < g.gServerIp.text.length
  · have hlt := length_setserver_lt g.gServerIp.fits
    have hbody := cBody_store_zeros hlt
    rw [cBody_of_not_mem (zero_not_mem_setserver g.gServerIp.noNul)] at hbody
    simp [sendServer, Prog.solo_bind, hscan, hip, hg.handle,
      solo_writeToPipe _ (zero_mem_store_zeros hlt), hbody]
  · simp [sendServer, Prog.solo_bind, hscan, hip]

theorem solo_findSocketFor {g : Globals} {s : Shared} (hg : Represents g s) (a : ServeAnswers)
    (socketStr : Bytes) {e : ErrorCode} {calls : List ApiCall} {c : Ctx}
    (h : (Interop.findSocketFor a socketStr).run ⟨g, e, calls⟩ = some ((), c)) :
    ∃ s' es, (findSocketFor a socketStr).solo s = some ((), s', es) ∧ c.calls = calls ++ es ∧
      Represents c.globals s' ∧ s'.place = s.place := by
  obtain ⟨x, e', cs, hfind, -, hrun⟩ := run_findSocketFor a socketStr ⟨g, e, calls⟩
  obtain ⟨e'', hfind'⟩ := run_findSocketByIpAddr a.finder socketStr ⟨g, e, calls⟩
  obtain ⟨hx, hctx⟩ := Prod.mk.inj (Option.some.inj (hfind.symm.trans hfind'))
  have hcs : cs = a.finder.calls socketStr :=
    List.append_cancel_left (congrArg Ctx.calls hctx)
  obtain ⟨-, rfl⟩ := Prod.mk.inj (Option.some.inj (h.symm.trans hrun))
  have hmem : (0 : UInt8) ∈ store whoami (zeros buffSize) := zero_mem_store_zeros (by decide)
  have hbody : cBody 0 (store whoami (zeros buffSize)) = whoami :=
    (cBody_store_zeros (by decide)).trans (by decide)
  have hfound : Represents { g with gSocket := x } { s with gSocket := x } :=
    ⟨rfl, hg.serverIp, hg.handle, hg.flag, hg.waiting⟩
  obtain ⟨s', hsolo, hrep, hplace⟩ := solo_mySend hfound a.hook a.send x hmem 4 0
  refine ⟨s', a.finder.calls socketStr ++ ([.getpeername x, .send x (whoami ++ [0]) 4 0] ++
    mirrorCalls g whoami (whoami ++ [0])), ?_, ?_, hrep, hplace⟩
  · have htake : (store whoami (zeros buffSize)).take (4 : Int).toNat = whoami ++ [0] := by decide
    have hshort : cBody 0 (whoami ++ [0]) = whoami := by decide
    have hlen : (whoami.length : Int) + 1 = 4 := rfl
    have hcalls : mirrorCalls { g with gSocket := x } whoami (store whoami (zeros buffSize)) =
        mirrorCalls g whoami (whoami ++ [0]) := by
      simp [mirrorCalls, hbody, hshort]
    rw [htake, hbody, hcalls] at hsolo
    simp [findSocketFor, privately_findSocketByIpAddr, Prog.solo_bind, Prog.solo_map, cString,
      scan_of_mem hmem, hbody, hlen, ← hx, hsolo]
  · rw [← hcs, List.append_assoc]

theorem solo_forwardPacket {g : Globals} {s : Shared} (hg : Represents g s) (a : ServeAnswers)
    {data : Bytes} (hdata : 0 ∈ data) (read : Nat) {e : ErrorCode} {calls : List ApiCall} {c : Ctx}
    (h : (Interop.forwardPacket a data read).run ⟨g, e, calls⟩ = some ((), c)) :
    ∃ s' es, (forwardPacket a data read).solo s = some ((), s', es) ∧ c.calls = calls ++ es ∧
      Represents c.globals s' ∧ s'.place = s.place := by
  by_cases hvalid : g.gSocket = invalidSocket
  · rw [run_forwardPacket_of_invalid a data read hvalid] at h
    obtain ⟨-, rfl⟩ := Prod.mk.inj (Option.some.inj h)
    refine ⟨s, [], ?_, (List.append_nil _).symm, hg, rfl⟩
    simp [forwardPacket, Prog.solo_bind, hg.socket, hvalid]
  · rw [run_forwardPacket a read hvalid hdata] at h
    obtain ⟨-, rfl⟩ := Prod.mk.inj (Option.some.inj h)
    obtain ⟨s', hsolo, hrep, hplace⟩ := solo_mySend hg a.hook a.send g.gSocket hdata read 0
    refine ⟨s', _, ?_, rfl, hrep, hplace⟩
    simp [forwardPacket, Prog.solo_bind, Prog.solo_map, hg.socket, hvalid, hsolo]

/-- A message that is served without interruption is served as the single step does. -/
theorem solo_dispatch {g : Globals} {s : Shared} (hg : Represents g s) {a : ServeAnswers}
    {data : Bytes} {read : Nat} {e : ErrorCode} {calls : List ApiCall} {br : Branch} {c : Ctx}
    (h : (Interop.dispatch a data read).run ⟨g, e, calls⟩ = some (br, c)) :
    ∃ s' es, (dispatch a data read).solo s = some (br, s', es) ∧ c.calls = calls ++ es ∧
      Represents c.globals s' ∧ s'.place = s.place := by
  obtain ⟨hdata, hbr, hserve⟩ := dispatch_eq_some h
  unfold branchOf at hbr
  unfold dispatch
  simp only [cString, scan_of_mem hdata, Prog.solo_bind, Prog.solo_access_some, Option.bind_some]
  cases hd : strstr dettachCmd (cBody 0 data) with
  | some found =>
    rw [hd] at hbr
    subst hbr
    obtain ⟨-, rfl⟩ := Prod.mk.inj (Option.some.inj hserve)
    exact ⟨s, [], by simp, (List.append_nil _).symm, hg, rfl⟩
  | none =>
    cases hs : strstr getserverCmd (cBody 0 data) with
    | some found =>
      rw [hd, hs] at hbr
      subst hbr
      rw [serve, run_sendServer] at hserve
      obtain ⟨-, rfl⟩ := Prod.mk.inj (Option.some.inj hserve)
      refine ⟨s, if 0 < g.gServerIp.text.length then
        [.writeFile g.gPipeServer (setserverReply ++ g.gServerIp.text)] else [], ?_, ?_, ?_, rfl⟩
      · simp [Prog.solo_map, solo_sendServer hg]
      · split <;> simp
      · split <;> exact hg
    | none =>
      cases hf : strstr findsocketforCmd (cBody 0 data) with
      | some found =>
        rw [hd, hs, hf] at hbr
        subst hbr
        obtain ⟨s', es, hsolo, hcalls, hrep, hplace⟩ := solo_findSocketFor hg a _ hserve
        exact ⟨s', es, by simp [Prog.solo_map, hsolo], hcalls, hrep, hplace⟩
      | none =>
        rw [hd, hs, hf] at hbr
        subst hbr
        obtain ⟨s', es, hsolo, hcalls, hrep, hplace⟩ := solo_forwardPacket hg a hdata read hserve
        exact ⟨s', es, by simp [Prog.solo_map, hsolo], hcalls, hrep, hplace⟩

/-! ## Calls of the pool -/

/-- **One call**: when nobody interrupts it, a call of the game does to the globals what the single
step does, returns what it returns and makes its calls. -/
theorem hook_uninterrupted {σ : ThreadPool} {id : Nat} (hidle : σ.running (.game id) = none)
    {g : Globals} (hg : Represents g σ.shared) {call : GameCall} {e : ErrorCode}
    {out : Int × Bytes} {c : Ctx} (h : call.hooked.run ⟨g, e, []⟩ = some (out, c)) :
    ∃ n τ, exec step σ (.call (.game id) (.game call) :: goSolo (.game id) n) = some τ ∧
      Represents c.globals τ.shared ∧ τ.shared.place = σ.shared.place ∧
      τ.running = σ.running ∧ τ.trace = σ.trace ++ c.calls.map (Thread.game id, ·) ∧
      τ.finished = σ.finished ++ [⟨.game id, .game call, σ.shared, c.calls, some out⟩] := by
  obtain ⟨s', es, hsolo, hcalls, hrep, hplace⟩ := solo_hooked hg h
  rw [List.nil_append] at hcalls
  have hprog : (code.prog (.game call)).solo σ.shared = some (some out, s', es) := by
    simp [code, Prog.solo_map, hsolo]
  obtain ⟨n, τ, hn, rfl, hrunning, hfinished, htrace⟩ :=
    Pool.exec_call code (t := .game id) hidle rfl hprog
  exact ⟨n, τ, hn, hrep, hplace, hrunning, by rw [hcalls, htrace], by rw [hcalls, hfinished]⟩

/-- The game connects socket 5 to an address. -/
def connectsTo (peer : InAddr) : GameCall :=
  .connect ⟨.ok peer, none, .ok 0⟩ (.connected none) 5 [] 0

theorem connect_uninterrupted :
    ∃ n τ, exec step .init (.call (.game 0) (.game (connectsTo ⟨1, 2, 3, 4⟩)) ::
        goSolo (.game 0) n) = some τ ∧
      τ.shared.gSocket = 5 ∧ Holds (ascii "1.2.3.4") τ.shared := by
  have hrun : (connectsTo ⟨1, 2, 3, 4⟩).hooked.run ⟨.init, 0, []⟩ = some ((0, []),
    ⟨remember (.ok ⟨1, 2, 3, 4⟩) 5 .init, 0, [.connect 5 [] 0, .getpeername 5]⟩) := rfl
  have hidle : ThreadPool.init.running (.game 0) = none := rfl
  obtain ⟨n, τ, hn, hrep, -⟩ := hook_uninterrupted hidle represents_init hrun
  exact ⟨n, τ, hn, hrep.socket, hrep.serverIp⟩

/-- **One message**: when nobody interrupts it, a pass of the server thread serves a message as the
single step does. -/
theorem message_uninterrupted {σ : ThreadPool} (hidle : σ.running .server = none)
    (hreading : σ.shared.place = .reading) {g : Globals} (hg : Represents g σ.shared)
    {a : ServeAnswers} {data : Bytes} {read : Nat} {e : ErrorCode} {br : Branch} {c : Ctx}
    (h : (Interop.dispatch a data read).run ⟨g, e, []⟩ = some (br, c)) :
    ∃ n τ, exec step σ (.call .server (.pass (.message a data read)) :: goSolo .server n) = some τ ∧
      Represents c.globals τ.shared ∧
      τ.shared.place = (if br = .dettach then .head else .reading) ∧
      τ.running = σ.running ∧ τ.trace = σ.trace ++ c.calls.map (Thread.server, ·) ∧
      τ.finished = σ.finished ++
        [⟨.server, .pass (.message a data read), σ.shared, c.calls, none⟩] := by
  obtain ⟨s', es, hsolo, hcalls, hrep, hplace⟩ := solo_dispatch hg h
  rw [List.nil_append] at hcalls
  have hbegins : code.begins .server (.pass (.message a data read)) σ.shared = true := by
    simp [code, Pass.place, hreading]
  by_cases hdettach : br = .dettach
  · have hprog : (code.prog (.pass (.message a data read))).solo σ.shared =
        some (none, { s' with place := .head }, es) := by
      simp [code, Pass.prog, Pass.serveMessage, Pass.goTo, Prog.solo_bind, Prog.solo_map, hsolo,
        hdettach]
    obtain ⟨n, τ, hn, hshared, hrunning, hfinished, htrace⟩ :=
      Pool.exec_call code hidle hbegins hprog
    refine ⟨n, τ, hn, ?_, ?_, hrunning, by rw [hcalls, htrace], by rw [hcalls, hfinished]⟩
    · rw [hshared]
      exact ⟨hrep.socket, hrep.serverIp, hrep.handle, hrep.flag, hrep.waiting⟩
    · rw [hshared, if_pos hdettach]
  · have hprog : (code.prog (.pass (.message a data read))).solo σ.shared = some (none, s', es) := by
      simp [code, Pass.prog, Pass.serveMessage, Prog.solo_bind, Prog.solo_map, hsolo, hdettach]
    obtain ⟨n, τ, hn, rfl, hrunning, hfinished, htrace⟩ :=
      Pool.exec_call code hidle hbegins hprog
    refine ⟨n, τ, hn, hrep, ?_, hrunning, by rw [hcalls, htrace], by rw [hcalls, hfinished]⟩
    rw [if_neg hdettach]
    exact hplace.trans hreading

/-- The pool with a client that has joined. -/
def joined : ThreadPool :=
  Pool.init { Shared.init with gPipeServer := .created, gIsClientConnected := true, place := .reading }

theorem detach_uninterrupted :
    ∃ n τ, exec step joined (.call .server (.pass (.message .failing (dettachCmd ++ [0]) 8)) ::
        goSolo .server n) = some τ ∧ τ.shared.place = .head := by
  have hrep : Represents { Globals.init with gPipeServer := .created, gIsClientConnected := true }
      joined.shared := by
    obtain ⟨hsocket, hserverIp, -, -, hwaiting⟩ := represents_init
    exact ⟨hsocket, hserverIp, rfl, rfl, hwaiting⟩
  have hrun : (Interop.dispatch .failing (dettachCmd ++ [0]) 8).run
      ⟨{ Globals.init with gPipeServer := .created, gIsClientConnected := true }, 0, []⟩ =
    some (.dettach, ⟨{ Globals.init with
      gPipeServer := .created, gIsClientConnected := true }, 0, []⟩) := rfl
  obtain ⟨n, τ, hn, -, hplace, -⟩ := message_uninterrupted rfl rfl hrep hrun
  exact ⟨n, τ, hn, hplace⟩

/-! ## Calls that interrupt each other -/

/-- A hook up to the copy of the address. -/
def untilCopied : GameCall → Act Unit
  | .send a _ x _ _ _ => copyIp a.peer x
  | .recv a _ x _ _ _ => copyIp a.peer x
  | .connect a real x name namelen => do
      let _ ← pConnect real x name namelen
      copyIp a.peer x

/-- A program that goes to its end and leaves the globals as they are. -/
def OnlyReads (p : Act (Int × Bytes)) : Prop :=
  ∀ s, ∃ out es, p.solo s = some (out, s, es)

/-- A hook copies the address, stores the socket and changes nothing any more. -/
theorem hooked_eq {call : GameCall} (hterm : call.Terminated true) :
    ∃ rest, OnlyReads rest ∧ hooked call = untilCopied call >>= fun _ =>
      Prog.write (fun s => { s with gSocket := call.socket }) >>= fun _ => rest := by
  cases call with
  | send a real x buf len flags =>
    have hbuf : 0 ∈ buf := hterm
    simp only [hooked, mySend, updateSocketAndIp_eq, untilCopied, bind_assoc]
    refine ⟨_, fun s => ?_, rfl⟩
    cases hflag : s.gIsClientConnected <;>
      cases hascii : containsOnlyASCII (cBody 0 buf) <;>
      simp [Prog.solo_bind, Prog.solo_map, cString, scan_of_mem hbuf, pSend, hflag, hascii,
        solo_writeToPipe _ hbuf]
  | recv a real x buf len flags =>
    obtain ⟨hbuf, hstored⟩ : recvTerminated true real buf := hterm
    simp only [hooked, myRecv, updateSocketAndIp_eq, untilCopied, bind_assoc]
    refine ⟨_, fun s => ?_, rfl⟩
    cases hflag : s.gIsClientConnected with
    | false => simp [Prog.solo_bind, cString, scan_of_mem hbuf, pRecv, hflag]
    | true =>
      cases hascii : containsOnlyASCII (cBody 0 buf) with
      | false => simp [Prog.solo_bind, cString, scan_of_mem hbuf, pRecv, hflag, hascii]
      | true =>
        have hstored := hstored (by rw [mirrors, hascii]; rfl)
        simp [Prog.solo_bind, Prog.solo_map, cString, scan_of_mem hbuf, pRecv, hflag, hascii,
          scan_of_mem hstored, solo_writeToPipe _ hstored]
  | connect a real x name namelen =>
    simp only [hooked, myConnect, updateSocketAndIp_eq, untilCopied, pConnect, bind_assoc, pure_bind]
    refine ⟨_, fun s => ?_, rfl⟩
    simp [Prog.solo_map]

theorem solo_untilCopied (call : GameCall) (s : Shared) :
    ∃ v es, (untilCopied call).solo s = some ((), { s with gServerIp := v }, es) ∧
      Holds (inetNtoa (peerAddress call.peer)) { s with gServerIp := v } := by
  cases call with
  | send a real x buf len flags =>
    obtain ⟨v, hsolo, hholds⟩ := solo_copyIp a.peer x s
    exact ⟨v, _, hsolo, hholds⟩
  | recv a real x buf len flags =>
    obtain ⟨v, hsolo, hholds⟩ := solo_copyIp a.peer x s
    exact ⟨v, _, hsolo, hholds⟩
  | connect a real x name namelen =>
    obtain ⟨v, hsolo, hholds⟩ := solo_copyIp a.peer x s
    refine ⟨v, [.connect x name namelen, .getpeername x], ?_, hholds⟩
    simp [untilCopied, pConnect, Prog.solo_bind, hsolo]

/-- What a call of the game leaves when nobody interrupts it. -/
theorem solo_leaves {call : GameCall} (hterm : call.Terminated true) (s : Shared) :
    ∃ v es out, (hooked call).solo s =
        some (out, { s with gServerIp := v, gSocket := call.socket }, es) ∧
      Holds (inetNtoa (peerAddress call.peer)) { s with gServerIp := v } := by
  obtain ⟨rest, hrest, heq⟩ := hooked_eq hterm
  obtain ⟨v, es, hcopied, hholds⟩ := solo_untilCopied call s
  obtain ⟨out, es', hout⟩ := hrest { s with gServerIp := v, gSocket := call.socket }
  refine ⟨v, es ++ es', out, ?_, hholds⟩
  simp [heq, Prog.solo_bind, hcopied, hout]

/-- **Torn pairs**: for any two calls on two threads of the game there is an interleaving in which
both return, and behind them the socket of the one is remembered together with the address of the
other one's peer. -/
theorem pair_torn {σ : ThreadPool} {i j : Nat} (hij : i ≠ j) (hi : σ.running (.game i) = none)
    (hj : σ.running (.game j) = none) {call other : GameCall} (hcall : call.Terminated true)
    (hother : other.Terminated true) :
    ∃ moves τ, exec step σ moves = some τ ∧ τ.running = σ.running ∧
      τ.finished.length = σ.finished.length + 2 ∧ τ.shared.gSocket = call.socket ∧
      Holds (inetNtoa (peerAddress other.peer)) τ.shared := by
  obtain ⟨rest, hrest, heq⟩ := hooked_eq hcall
  -- the first call is interrupted between the copy of the address and the store of the socket
  obtain ⟨v, es, hcopied, -⟩ := solo_untilCopied call σ.shared
  let behind : Unit → Act Result := fun _ =>
    Prog.write (fun s => { s with gSocket := call.socket }) >>= fun _ => rest >>= fun out =>
      pure (some out)
  have hprog : code.prog (.game call) = untilCopied call >>= behind := by
    show (hooked call >>= fun out => pure (some out)) = _
    rw [heq]
    simp only [bind_assoc, behind]
  obtain ⟨n₁, σ₁, hn₁, hshared₁, hrunning₁, hfinished₁, -⟩ :=
    Pool.exec_begin code (t := .game i) hi rfl hprog hcopied
  -- the other call runs to its end
  have hne : Thread.game j ≠ .game i := fun h => hij (Thread.game.inj h).symm
  have hj₁ : σ₁.running (.game j) = none := by rw [hrunning₁, Function.update_of_ne hne, hj]
  obtain ⟨v₂, es₂, out₂, hsolo₂, hholds⟩ := solo_leaves hother σ₁.shared
  have hprog₂ : (code.prog (.game other)).solo σ₁.shared =
      some (some out₂, { σ₁.shared with gServerIp := v₂, gSocket := other.socket }, es₂) := by
    simp [code, Prog.solo_map, hsolo₂]
  obtain ⟨n₂, σ₂, hn₂, hshared₂, hrunning₂, hfinished₂, -⟩ :=
    Pool.exec_call code hj₁ rfl hprog₂
  -- the first one goes on
  obtain ⟨out₃, es₃, hsolo₃⟩ := hrest { σ₂.shared with gSocket := call.socket }
  have hi₂ : σ₂.running (.game i) = some ⟨.game call, σ.shared, es, behind ()⟩ := by
    rw [hrunning₂, hrunning₁, Function.update_self]
  have hbehind : (behind ()).solo σ₂.shared =
      some (some out₃, { σ₂.shared with gSocket := call.socket }, es₃) := by
    simp [behind, Prog.solo_bind, Prog.solo_map, hsolo₃]
  obtain ⟨n₃, τ, hn₃, hshared₃, hrunning₃, hfinished₃, -⟩ :=
    Pool.exec_rest code hbehind hi₂
  refine ⟨.call (.game i) (.game call) :: goSolo (.game i) n₁ ++
    (.call (.game j) (.game other) :: goSolo (.game j) n₂ ++ goSolo (.game i) n₃), τ, ?_, ?_, ?_,
    ?_, ?_⟩
  · rw [exec_append, hn₁, Option.bind_some, exec_append, hn₂, Option.bind_some]
    exact hn₃
  · rw [hrunning₃, hrunning₂, hrunning₁, Function.update_idem, ← hi, Function.update_eq_self]
  · rw [hfinished₃, hfinished₂, hfinished₁]
    simp
  · rw [hshared₃]
  · rw [hshared₃, hshared₂]
    exact hholds

/-- Two threads of the game that connect: the first one's socket with the second one's peer. -/
theorem two_connects_torn :
    ∃ moves τ, exec step .init moves = some τ ∧ τ.shared.gSocket = 5 ∧
      Holds (ascii "5.6.7.8") τ.shared := by
  have hcall : (connectsTo ⟨1, 2, 3, 4⟩).Terminated true := trivial
  have hother : (GameCall.connect ⟨.ok ⟨5, 6, 7, 8⟩, none, .ok 0⟩ (.connected none) 6 [] 0).Terminated
      true := trivial
  obtain ⟨moves, τ, hexec, -, -, hsocket, hholds⟩ :=
    pair_torn (σ := .init) (i := 0) (j := 1) (by decide) rfl rfl hcall hother
  exact ⟨moves, τ, hexec, hsocket, hholds⟩

end Doreto.Interop.Threads
