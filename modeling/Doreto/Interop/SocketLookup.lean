import Doreto.Interop.Dispatch

/-!
# Which Socket Is Found

`FindSocketByIpAddr` returns the first entry of the table that looks right. An entry looks right
when the text of its peer's address is the one asked for, and where `getpeername` fails that text
is the text of the address zero. The functions here say what the loop computes and which calls it
makes. A failed lookup has the value 1 when the process or the table is not there, and
`INVALID_SOCKET` when nothing looks right, and the server goes on with either.

## Main results

- `run_findSocketByIpAddr`: the socket that is found and the calls made, for all answers.
- `lookup_true_iff`: the lookup returns, and what it returns is right exactly when the peers were
  told.
- `failed_lookup_changes`: a failed lookup never leaves things as they were.
-/

namespace Doreto.Interop

open Doreto.Lib

/-! ## One entry -/

/-- An entry of the table with the answers about it. -/
abbrev TableEntry := SystemHandle × EntryAnswers

namespace TableEntry

/-- The handle, taken for a socket. -/
def socket (e : TableEntry) : Socket :=
  e.1.handle.toUInt64

/-- The name that the two queries give, if one of them does. -/
def objectName (e : TableEntry) : Option ObjectName :=
  e.2.nameQueried.or e.2.nameRequeried

/-- The object is a socket. -/
def isAfd (e : TableEntry) : Bool :=
  e.objectName.any fun name => name.length ≠ 0 && name.buffer = "\\Device\\Afd"

/-- The entry is not skipped for its access mask, and its queries succeed. -/
def isQueried (e : TableEntry) : Bool :=
  e.2.duplicated && e.2.typeQueried && (e.1.grantedAccess ≠ 0x0012019f) && e.objectName.isSome

/-- The entry looks right to the loop. -/
def looksRight (pid : UInt32) (ipaddr : Bytes) (e : TableEntry) : Bool :=
  (e.1.processId = pid) && e.isQueried && e.isAfd && (inetNtoa (peerAddress e.2.peer) = ipaddr)

/-- The calls behind the name query. -/
def nameCalls (e : TableEntry) : List ApiCall :=
  (if e.isAfd then [.getpeername e.socket] else []) ++
    [.release .objectTypeInfo, .release .objectNameInfo, .release .dupHandle]

/-- The calls that the loop makes for an entry. -/
def lookupCalls (pid : UInt32) (e : TableEntry) : List ApiCall :=
  if e.1.processId ≠ pid ∨ e.2.duplicated = false then []
  else [.acquire .dupHandle, .acquire .objectTypeInfo] ++
    if e.2.typeQueried = false then [.release .dupHandle]
    else if e.1.grantedAccess = 0x0012019f then [.release .objectTypeInfo, .release .dupHandle]
    else [.acquire .objectNameInfo] ++
      (if e.2.nameQueried.isNone then [.realloc .objectNameInfo] else []) ++ e.nameCalls

end TableEntry

theorem run_getpeername (a : PeerAnswer) (s : Socket) (c : Ctx) :
    ∃ err, (getpeername a s).run c = some (peerAddress a,
      { c with lastError := err, calls := c.calls ++ [.getpeername s] }) := by
  cases a <;> exact ⟨_, rfl⟩

theorem run_releaseEntry (c : Ctx) :
    releaseEntry.run c = some ((), { c with calls := c.calls ++
      [.release .objectTypeInfo, .release .objectNameInfo, .release .dupHandle] }) := by
  simp [releaseEntry]

/-- A handle of sixteen bits is not the invalid socket. -/
theorem socket_ne_invalidSocket (e : TableEntry) : e.socket ≠ invalidSocket := by
  intro h
  have hnat := congrArg UInt64.toNat h
  rw [TableEntry.socket, UInt16.toNat_toUInt64] at hnat
  have hlt := e.1.handle.toNat_lt
  have hinvalid : invalidSocket.toNat = 2 ^ 64 - 1 := by decide
  omega

theorem run_queryObjectName (e : TableEntry) (c : Ctx) :
    (queryObjectName e.2).run c = some (e.objectName, { c with calls := c.calls ++
      if e.2.nameQueried.isNone then [.realloc .objectNameInfo] else [] }) := by
  unfold queryObjectName TableEntry.objectName
  cases e.2.nameQueried <;> simp

theorem run_matchObjectName (ipaddr : Bytes) (e : TableEntry) {name : ObjectName}
    (hname : e.objectName = some name) (c : Ctx) :
    ∃ err, (matchObjectName ipaddr e.1 e.2 name).run c =
      some (if e.isAfd && (inetNtoa (peerAddress e.2.peer) = ipaddr) then some e.socket else none,
        { c with lastError := err, calls := c.calls ++ e.nameCalls }) := by
  have hvalid : e.1.handle.toUInt64 ≠ invalidSocket := socket_ne_invalidSocket e
  by_cases hafd : name.length ≠ 0 ∧ name.buffer = "\\Device\\Afd"
  · have hisAfd : e.isAfd = true := by simp [TableEntry.isAfd, hname, hafd]
    obtain ⟨err, hpeer⟩ := run_getpeername e.2.peer e.socket c
    refine ⟨err, ?_⟩
    have hpeer' : (getpeername e.2.peer e.1.handle.toUInt64).run c = _ := hpeer
    rw [matchObjectName, if_pos hafd]
    simp only [if_neg hvalid, StateT.run_bind, hpeer', Option.bind_eq_bind, Option.bind_some,
      run_releaseEntry]
    by_cases htext : inetNtoa (peerAddress e.2.peer) = ipaddr <;>
      simp [hisAfd, htext, TableEntry.nameCalls, TableEntry.socket]
  · have hisAfd : e.isAfd = false := by
      simpa [TableEntry.isAfd, hname] using hafd
    refine ⟨c.lastError, ?_⟩
    rw [matchObjectName, if_neg hafd]
    simp [run_releaseEntry, hisAfd, TableEntry.nameCalls]

/-- One pass of the loop body. -/
theorem run_examineHandle (pid : UInt32) (ipaddr : Bytes) (e : TableEntry) (c : Ctx) :
    ∃ err, (examineHandle pid ipaddr e.1 e.2).run c =
      some (if e.looksRight pid ipaddr then some e.socket else none,
        { c with lastError := err, calls := c.calls ++ e.lookupCalls pid }) := by
  by_cases hpid : e.1.processId = pid
  case neg => exact ⟨c.lastError, by simp [examineHandle, TableEntry.looksRight,
    TableEntry.lookupCalls, hpid]⟩
  cases hdup : e.2.duplicated with
  | false => exact ⟨c.lastError, by simp [examineHandle, TableEntry.looksRight,
      TableEntry.lookupCalls, TableEntry.isQueried, hdup]⟩
  | true =>
    cases htype : e.2.typeQueried with
    | false => exact ⟨c.lastError, by simp [examineHandle, TableEntry.looksRight,
        TableEntry.lookupCalls, TableEntry.isQueried, hpid, hdup, htype]⟩
    | true =>
      by_cases haccess : e.1.grantedAccess = 0x0012019f
      · exact ⟨c.lastError, by simp [examineHandle, TableEntry.looksRight,
          TableEntry.lookupCalls, TableEntry.isQueried, hpid, hdup, htype, haccess]⟩
      · -- the name query is made, and its answer decides
        have hcalls : e.lookupCalls pid = [.acquire .dupHandle, .acquire .objectTypeInfo] ++
            ([.acquire .objectNameInfo] ++ (if e.2.nameQueried.isNone then
              [.realloc .objectNameInfo] else []) ++ e.nameCalls) := by
          simp [TableEntry.lookupCalls, hpid, hdup, htype, haccess]
        have hlooks : e.looksRight pid ipaddr =
            (e.isAfd && (inetNtoa (peerAddress e.2.peer) = ipaddr)) := by
          cases hname : e.objectName <;> simp [TableEntry.looksRight, TableEntry.isQueried,
            TableEntry.isAfd, hpid, hdup, htype, haccess, hname]
        have hquery := run_queryObjectName e { c with calls := c.calls ++ [.acquire .dupHandle] ++
          [.acquire .objectTypeInfo] ++ [.acquire .objectNameInfo] }
        simp only [examineHandle, hpid, hdup, htype, haccess, ne_eq, not_true_eq_false, if_false,
          Bool.true_eq_false, StateT.run_bind, Win.run_call, Option.bind_eq_bind,
          Option.bind_some, hquery]
        cases hname : e.objectName with
        | none =>
          have hafd : e.isAfd = false := by simp [TableEntry.isAfd, hname]
          refine ⟨c.lastError, ?_⟩
          simp [run_releaseEntry, hlooks, hcalls, hafd, TableEntry.nameCalls]
        | some name =>
          obtain ⟨err, hmatch⟩ := run_matchObjectName ipaddr e hname { c with
            calls := c.calls ++ [.acquire .dupHandle] ++ [.acquire .objectTypeInfo] ++
              [.acquire .objectNameInfo] ++
              if e.2.nameQueried.isNone then [.realloc .objectNameInfo] else [] }
          refine ⟨err, ?_⟩
          rw [hmatch, hlooks, hcalls]
          simp

/-! ## The table -/

/-- The calls that the loop makes: those for the entries up to the first one that looks right. -/
def tableCalls (pid : UInt32) (ipaddr : Bytes) : List TableEntry → List ApiCall
  | [] => []
  | e :: rest =>
      e.lookupCalls pid ++ if e.looksRight pid ipaddr then [] else tableCalls pid ipaddr rest

theorem run_examineHandles (pid : UInt32) (ipaddr : Bytes) (handles : List TableEntry) (c : Ctx) :
    ∃ err, (examineHandles pid ipaddr handles).run c =
      some ((handles.find? (TableEntry.looksRight pid ipaddr)).map TableEntry.socket,
        { c with lastError := err, calls := c.calls ++ tableCalls pid ipaddr handles }) := by
  induction handles generalizing c with
  | nil => exact ⟨c.lastError, by simp [examineHandles, tableCalls]⟩
  | cons e rest ih =>
    obtain ⟨err, hrun⟩ := run_examineHandle pid ipaddr e c
    cases hlooks : e.looksRight pid ipaddr with
    | true =>
      refine ⟨err, ?_⟩
      simp [examineHandles, hrun, hlooks, tableCalls]
    | false =>
      -- the loop goes on with the rest
      obtain ⟨err', hrest⟩ := ih { c with
        lastError := err, calls := c.calls ++ e.lookupCalls pid }
      refine ⟨err', ?_⟩
      simp [examineHandles, hrun, hlooks, hrest, tableCalls]

theorem run_growHandleInfo (n : Nat) (c : Ctx) :
    (growHandleInfo n).run c =
      some ((), { c with calls := c.calls ++ List.replicate n (.realloc .handleInfo) }) := by
  induction n generalizing c with
  | zero => simp [growHandleInfo]
  | succ n ih => simp [growHandleInfo, ih, List.replicate_succ]

namespace FinderAnswers

/-- The entries that the function sees: none when the process or the table is not there. -/
def table (a : FinderAnswers) : List TableEntry :=
  if a.processOpened then a.handles.getD [] else []

/-- The process is opened and the table is enumerated. -/
def isEnumerated (a : FinderAnswers) : Bool :=
  a.processOpened && a.handles.isSome

/-- The first entry that looks right. -/
def firstMatch (a : FinderAnswers) (ipaddr : Bytes) : Option TableEntry :=
  a.table.find? (TableEntry.looksRight a.pid ipaddr)

/-- The value of the function. -/
def foundSocket (a : FinderAnswers) (ipaddr : Bytes) : Socket :=
  if a.isEnumerated then ((a.firstMatch ipaddr).map TableEntry.socket).getD invalidSocket else 1

/-- The calls that the function makes. -/
def calls (a : FinderAnswers) (ipaddr : Bytes) : List ApiCall :=
  if a.processOpened = false then []
  else [.acquire .processHandle, .acquire .handleInfo] ++
    List.replicate a.mismatches (.realloc .handleInfo) ++ tableCalls a.pid ipaddr a.table ++
    if a.isEnumerated && (a.firstMatch ipaddr).isNone then
      [.release .handleInfo, .release .processHandle]
    else []

end FinderAnswers

/-- What `FindSocketByIpAddr` computes and does. -/
theorem run_findSocketByIpAddr (a : FinderAnswers) (ipaddr : Bytes) (c : Ctx) :
    ∃ err, (findSocketByIpAddr a ipaddr).run c = some (a.foundSocket ipaddr,
      { c with lastError := err, calls := c.calls ++ a.calls ipaddr }) := by
  cases hopened : a.processOpened with
  | false =>
    refine ⟨c.lastError, ?_⟩
    simp [findSocketByIpAddr, hopened, FinderAnswers.foundSocket, FinderAnswers.isEnumerated,
      FinderAnswers.calls]
  | true =>
    cases hhandles : a.handles with
    | none =>
      refine ⟨c.lastError, ?_⟩
      simp [findSocketByIpAddr, hopened, hhandles, run_growHandleInfo, FinderAnswers.foundSocket,
        FinderAnswers.isEnumerated, FinderAnswers.calls, FinderAnswers.table, tableCalls]
    | some handles =>
      obtain ⟨err, hrun⟩ := run_examineHandles a.pid ipaddr handles { c with
        calls := c.calls ++ [.acquire .processHandle] ++ [.acquire .handleInfo] ++
          List.replicate a.mismatches (.realloc .handleInfo) }
      refine ⟨err, ?_⟩
      have hfirst : a.firstMatch ipaddr = handles.find? (TableEntry.looksRight a.pid ipaddr) := by
        simp [FinderAnswers.firstMatch, FinderAnswers.table, hopened, hhandles]
      simp only [findSocketByIpAddr, hopened, Bool.true_eq_false, if_false, StateT.run_bind,
        Win.run_call, Option.bind_eq_bind, Option.bind_some, run_growHandleInfo, hhandles, hrun]
      cases hfind : handles.find? (TableEntry.looksRight a.pid ipaddr) <;>
        simp [FinderAnswers.foundSocket, FinderAnswers.isEnumerated, FinderAnswers.calls,
          FinderAnswers.table, hopened, hhandles, hfirst, hfind]

/-! ## True matches -/

/-- The entry is the socket that is asked for: a socket of this process whose peer has the
address. -/
structure TableEntry.Matches (pid : UInt32) (ipaddr : Bytes) (e : TableEntry) : Prop where
  own : e.1.processId = pid
  afd : e.isAfd = true
  peer : ∃ address, e.2.peer = .ok address ∧ inetNtoa address = ipaddr

/-- The value is that of a true match, and it is `INVALID_SOCKET` when there is none among the
entries that are queried. -/
structure TrueMatches (a : FinderAnswers) (ipaddr : Bytes) (socket : Socket) : Prop where
  sound : socket ≠ invalidSocket → ∃ e ∈ a.table, e.Matches a.pid ipaddr ∧ socket = e.socket
  complete : socket = invalidSocket ↔
    ∀ e ∈ a.table, e.isQueried = true → ¬ e.Matches a.pid ipaddr

/-- The text of the address that a failed `getpeername` leaves. -/
def zeroText : Bytes := ascii "0.0.0.0"

/-- The table is there. A lookup of the address zero comes to an entry whose peer was told, or to
one whose handle another entry has in truth. -/
structure PeerTold (a : FinderAnswers) (ipaddr : Bytes) : Prop where
  enumerated : a.isEnumerated = true
  first : ipaddr = zeroText → ∀ e, a.firstMatch ipaddr = some e → e.2.peer.isOk = true ∨
    (∃ e' ∈ a.table, e'.Matches a.pid ipaddr ∧ e.socket = e'.socket) ∧
      ∃ e' ∈ a.table, e'.isQueried = true ∧ e'.Matches a.pid ipaddr

theorem looksRight_iff {pid : UInt32} {ipaddr : Bytes} {e : TableEntry} :
    e.looksRight pid ipaddr = true ↔ e.1.processId = pid ∧ e.isQueried = true ∧ e.isAfd = true ∧
      inetNtoa (peerAddress e.2.peer) = ipaddr := by
  simp [TableEntry.looksRight, and_assoc]

/-- A true match that is queried looks right. -/
theorem TableEntry.Matches.looksRight {pid : UInt32} {ipaddr : Bytes} {e : TableEntry}
    (h : e.Matches pid ipaddr) (hqueried : e.isQueried = true) :
    e.looksRight pid ipaddr = true := by
  obtain ⟨address, hpeer, htext⟩ := h.peer
  exact looksRight_iff.mpr ⟨h.own, hqueried, h.afd, by rw [hpeer]; exact htext⟩

/-- An entry that looks right is a true match when its peer was told. -/
theorem matches_of_looksRight {pid : UInt32} {ipaddr : Bytes} {e : TableEntry}
    (h : e.looksRight pid ipaddr = true) (hpeer : e.2.peer.isOk = true) : e.Matches pid ipaddr := by
  obtain ⟨hown, -, hafd, htext⟩ := looksRight_iff.mp h
  cases hanswer : e.2.peer with
  | error code =>
    rw [hanswer] at hpeer
    cases hpeer
  | ok address =>
    rw [hanswer] at htext
    exact ⟨hown, hafd, address, hanswer, htext⟩

/-- Where `getpeername` fails, an entry looks right to a lookup of the address zero only. -/
theorem eq_zeroText_of_looksRight {pid : UInt32} {ipaddr : Bytes} {e : TableEntry}
    (h : e.looksRight pid ipaddr = true) (hpeer : e.2.peer.isOk ≠ true) : ipaddr = zeroText := by
  obtain ⟨-, -, -, htext⟩ := looksRight_iff.mp h
  cases hanswer : e.2.peer with
  | error code =>
    rw [hanswer] at htext
    have hzero : inetNtoa .zero = zeroText := by decide
    exact htext.symm.trans hzero
  | ok address =>
    rw [hanswer] at hpeer
    exact absurd rfl hpeer

theorem foundSocket_of_firstMatch {a : FinderAnswers} {ipaddr : Bytes} {e : TableEntry}
    (henumerated : a.isEnumerated = true) (h : a.firstMatch ipaddr = some e) :
    a.foundSocket ipaddr = e.socket := by
  simp [FinderAnswers.foundSocket, henumerated, h]

theorem table_of_not_enumerated {a : FinderAnswers} (h : a.isEnumerated = false) :
    a.table = [] := by
  cases hopened : a.processOpened <;> cases hhandles : a.handles <;>
    simp_all [FinderAnswers.table, FinderAnswers.isEnumerated]

/-- The value of a lookup is right exactly when the peer of its match was told. -/
theorem trueMatches_foundSocket_iff (a : FinderAnswers) (ipaddr : Bytes) :
    TrueMatches a ipaddr (a.foundSocket ipaddr) ↔ PeerTold a ipaddr := by
  cases henumerated : a.isEnumerated with
  | false =>
    -- the value is 1 and there are no entries
    have hone : a.foundSocket ipaddr = 1 := by simp [FinderAnswers.foundSocket, henumerated]
    refine iff_of_false (fun h => ?_) (fun h => ?_)
    · obtain ⟨e, he, -⟩ := h.sound (by rw [hone]; decide)
      rw [table_of_not_enumerated henumerated] at he
      cases he
    · rw [h.enumerated] at henumerated
      cases henumerated
  | true =>
    cases hfirst : a.firstMatch ipaddr with
    | none =>
      have hinvalid : a.foundSocket ipaddr = invalidSocket := by
        simp [FinderAnswers.foundSocket, henumerated, hfirst]
      refine iff_of_true ⟨fun hne => absurd hinvalid hne, iff_of_true hinvalid ?_⟩
        ⟨henumerated, fun _ e he => ?_⟩
      · intro e he hqueried hmatches
        exact List.find?_eq_none.mp hfirst e he (hmatches.looksRight hqueried)
      · rw [hfirst] at he
        cases he
    | some e =>
      have hsocket := foundSocket_of_firstMatch henumerated hfirst
      have hvalid : a.foundSocket ipaddr ≠ invalidSocket := hsocket ▸ socket_ne_invalidSocket e
      have hlooks : e.looksRight a.pid ipaddr = true := by simpa using List.find?_some hfirst
      have hmem : e ∈ a.table := List.mem_of_find?_eq_some hfirst
      constructor
      · intro h
        refine ⟨henumerated, fun _ e' he' => ?_⟩
        obtain rfl := Option.some.inj (hfirst.symm.trans he')
        obtain ⟨e', he', hmatches, hsame⟩ := h.sound hvalid
        have hsome : ∃ e' ∈ a.table, e'.isQueried = true ∧ e'.Matches a.pid ipaddr := by
          by_contra hnone
          exact hvalid (h.complete.mpr fun e' he' hq hm => hnone ⟨e', he', hq, hm⟩)
        exact .inr ⟨⟨e', he', hmatches, hsocket ▸ hsame⟩, hsome⟩
      · intro h
        -- the entry itself is a true match, or others stand in for it
        obtain ⟨⟨e', he', hmatches, hsame⟩, hsome⟩ :
            (∃ e' ∈ a.table, e'.Matches a.pid ipaddr ∧ e.socket = e'.socket) ∧
              ∃ e' ∈ a.table, e'.isQueried = true ∧ e'.Matches a.pid ipaddr := by
          by_cases hpeer : e.2.peer.isOk = true
          · have hmatches := matches_of_looksRight hlooks hpeer
            exact ⟨⟨e, hmem, hmatches, rfl⟩, e, hmem, (looksRight_iff.mp hlooks).2.1, hmatches⟩
          · exact (h.first (eq_zeroText_of_looksRight hlooks hpeer) e hfirst).resolve_left hpeer
        refine ⟨fun _ => ⟨e', he', hmatches, hsocket.trans hsame⟩, ?_⟩
        refine iff_of_false hvalid fun hnone => ?_
        obtain ⟨e'', he'', hqueried, hmatches''⟩ := hsome
        exact hnone e'' he'' hqueried hmatches''

/-- **True matches**: a lookup returns, and its value is right exactly when the process and the
table are there and the peer of its match was told. -/
theorem lookup_true_iff (a : FinderAnswers) (ipaddr : Bytes) (c : Ctx) :
    (∃ s c', (findSocketByIpAddr a ipaddr).run c = some (s, c') ∧ TrueMatches a ipaddr s) ↔
      PeerTold a ipaddr := by
  obtain ⟨err, hrun⟩ := run_findSocketByIpAddr a ipaddr c
  rw [← trueMatches_foundSocket_iff]
  constructor
  · intro ⟨s, c', hrun', htrue⟩
    obtain ⟨rfl, -⟩ := Prod.mk.inj (Option.some.inj (hrun.symm.trans hrun'))
    exact htrue
  · intro htrue
    exact ⟨_, _, hrun, htrue⟩

/-- A table with one entry: a socket of the process that is not connected. -/
def unconnectedSocket : FinderAnswers where
  pid := 7
  processOpened := true
  mismatches := 0
  handles := some [(⟨7, 0x1A4, 0x0016019f⟩,
    ⟨true, true, some ⟨22, "\\Device\\Afd"⟩, none, .error wsaNotConn⟩)]

/-- The socket is found for the address zero, and without a table the socket 1 is found. -/
theorem false_matches :
    ¬ (∃ s c', (findSocketByIpAddr unconnectedSocket zeroText).run ⟨Globals.init, 0, []⟩ =
      some (s, c') ∧ TrueMatches unconnectedSocket zeroText s) ∧
    ¬ (∃ s c', (findSocketByIpAddr ServeAnswers.failing.finder (ascii "172.65.206.180")).run
      ⟨Globals.init, 0, []⟩ = some (s, c') ∧
        TrueMatches ServeAnswers.failing.finder (ascii "172.65.206.180") s) := by
  constructor
  · intro ⟨s, c', hrun, htrue⟩
    obtain ⟨rfl, -⟩ := Prod.mk.inj (Option.some.inj hrun)
    obtain ⟨e, he, hmatches, -⟩ := htrue.sound (by decide)
    obtain rfl := List.mem_singleton.mp he
    obtain ⟨address, hpeer, -⟩ := hmatches.peer
    cases hpeer
  · intro ⟨s, c', hrun, htrue⟩
    obtain ⟨rfl, -⟩ := Prod.mk.inj (Option.some.inj hrun)
    obtain ⟨e, he, -⟩ := htrue.sound (by decide)
    cases he

/-! ## Failed lookups -/

/-- No socket of the process among the entries that are queried is connected to the address. -/
def FinderAnswers.Fails (a : FinderAnswers) (ipaddr : Bytes) : Prop :=
  ∀ e ∈ a.table, e.isQueried = true → ¬ e.Matches a.pid ipaddr

/-- The remembered server is the same as before, and nothing was sent in between. -/
structure NothingChanged (c c' : Ctx) : Prop where
  socket : c'.globals.gSocket = c.globals.gSocket
  serverIp : c'.globals.gServerIp = c.globals.gServerIp
  sends : sends c'.calls = sends c.calls

theorem sends_of_queries {cs : List ApiCall} (h : ∀ x ∈ cs, isQuery x = true) : sends cs = [] := by
  apply List.filterMap_eq_nil_iff.mpr
  intro x hx
  have hquery := h x hx
  cases x with
  | send s bytes len flags => cases hquery
  | _ => rfl

/-- A lookup remembers its value, whatever it is, and sends the first packet to it. -/
theorem lookup_effect {a : ServeAnswers} {data : Bytes} {read : Nat} {ipaddr : Bytes} {c c' : Ctx}
    (h : (dispatch a data read).run c = some (.findsocketfor ipaddr, c')) :
    c'.globals = remember a.hook.peer (a.finder.foundSocket ipaddr) c.globals ∧
      sends c'.calls = sends c.calls ++ [(a.finder.foundSocket ipaddr, whoami ++ [0])] := by
  obtain ⟨-, -, hserve⟩ := dispatch_eq_some h
  obtain ⟨err, hfind⟩ := run_findSocketByIpAddr a.finder ipaddr c
  obtain ⟨s, e, cs, hfind', hcs, hrun⟩ := run_findSocketFor a ipaddr c
  obtain ⟨rfl, -⟩ := Prod.mk.inj (Option.some.inj (hfind.symm.trans hfind'))
  rw [serve, hrun] at hserve
  obtain ⟨-, rfl⟩ := Prod.mk.inj (Option.some.inj hserve)
  refine ⟨rfl, ?_⟩
  simp only [sends_append, sends_of_queries hcs, sends_mirrorCalls, List.append_nil]
  rfl

/-- **Failed lookups**: a lookup that fails never leaves things as they were, for it sends the first
packet to its value. The branch does so behind every lookup, so that the proof does not use that
this one fails. -/
theorem failed_lookup_changes {a : ServeAnswers} {data : Bytes} {read : Nat} {ipaddr : Bytes}
    {c c' : Ctx} (h : (dispatch a data read).run c = some (.findsocketfor ipaddr, c'))
    (_ : a.finder.Fails ipaddr) : ¬ NothingChanged c c' := by
  intro hsame
  have hsends := hsame.sends
  rw [(lookup_effect h).2] at hsends
  simp at hsends

/-- The message of a lookup, in an array. -/
def lookupData : Bytes :=
  store (findsocketforCmd ++ ascii "172.65.206.180") (zeros buffSize)

/-- A lookup in a system in which the process cannot be opened. -/
theorem lookup_without_process :
    ∃ c', (dispatch .failing lookupData 29).run ⟨Globals.init, 0, []⟩ =
      some (.findsocketfor (ascii "172.65.206.180"), c') ∧
      ¬ NothingChanged ⟨Globals.init, 0, []⟩ c' := by
  obtain ⟨c', h⟩ : ∃ c', (dispatch .failing lookupData 29).run ⟨Globals.init, 0, []⟩ =
      some (.findsocketfor (ascii "172.65.206.180"), c') := ⟨_, rfl⟩
  refine ⟨c', h, failed_lookup_changes h fun e he => ?_⟩
  cases he

/-- A lookup that comes to the end of the table, while the socket 5 is remembered. -/
theorem lookup_without_match :
    ∃ c', (dispatch { ServeAnswers.failing with finder := ⟨7, true, 0, some []⟩ } lookupData 29).run
        ⟨{ Globals.init with gSocket := 5 }, 0, []⟩ =
          some (.findsocketfor (ascii "172.65.206.180"), c') ∧
      FinderAnswers.Fails ⟨7, true, 0, some []⟩ (ascii "172.65.206.180") ∧
      ¬ NothingChanged ⟨{ Globals.init with gSocket := 5 }, 0, []⟩ c' := by
  obtain ⟨c', h⟩ : ∃ c', (dispatch { ServeAnswers.failing with finder := ⟨7, true, 0, some []⟩ }
      lookupData 29).run ⟨{ Globals.init with gSocket := 5 }, 0, []⟩ =
        some (.findsocketfor (ascii "172.65.206.180"), c') := ⟨_, rfl⟩
  refine ⟨c', h, fun e he => ?_, fun hsame => ?_⟩
  · cases he
  · -- the socket is INVALID_SOCKET behind the lookup
    have hsocket := hsame.socket
    rw [(lookup_effect h).1] at hsocket
    exact absurd hsocket (by decide)

end Doreto.Interop
