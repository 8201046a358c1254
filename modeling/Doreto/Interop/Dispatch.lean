import Doreto.Interop.HandleFinder

/-!
# Serving a Message of the Pipe Client

`RunPipeServer` reads a message into its `data` array and looks for a command word in it:
`!dettach`, `!getserver` or `!findsocketfor:`. A message without one is a packet that goes to the
remembered socket. `dispatch` is the body of the read loop behind a successful `ReadFile`.

## Main results

- `run_dispatch`: the branch taken and its effect, from the string in the array.
- `serveEffect_of_run`: what each branch does to the globals and which packets it sends.
- `recognises_iff_commandsStandAlone`: on a fresh array the branch is the documented one exactly
  when every command word in the message stands as the documented command.
-/

namespace Doreto.Interop

open Doreto.Lib

/-! ## Constants -/

/-- `BUFF_SIZE`, the size of the `data` array. -/
def buffSize : Nat := 1024

/-- A zeroed array. -/
def zeros (n : Nat) : Bytes :=
  List.replicate n 0

def dettachCmd : Bytes := ascii "!dettach"
def getserverCmd : Bytes := ascii "!getserver"
def findsocketforCmd : Bytes := ascii "!findsocketfor:"
def setserverReply : Bytes := ascii "!setserver:"

/-- `WHOAMI`, up to its terminator. -/
def whoami : Bytes := ascii "BW\n"

/-! ## The loop body -/

/-- The branches of the loop body. -/
inductive Branch where
  /-- `!dettach`: the loop ends. -/
  | dettach
  | getserver
  /-- `!findsocketfor:` with the text behind it. -/
  | findsocketfor (socketStr : Bytes)
  /-- No command. -/
  | forward
  deriving DecidableEq, Repr

/-- The answers of the calls made while one message is served. -/
structure ServeAnswers where
  finder : FinderAnswers
  hook : HookAnswers
  send : SendAnswer
  reply : WriteAnswer

/-- The answer to `!getserver`, if there is an address to give. -/
def sendServer (a : ServeAnswers) : Win Unit := do
  let ip := (← Win.globals).gServerIp.text
  if 0 < ip.length then
    let buf := store (setserverReply ++ ip) (zeros buffSize)
    writeToPipe a.reply (← Win.globals).gPipeServer buf

/-- Remember the socket that is connected to the address and send it a first packet. -/
def findSocketFor (a : ServeAnswers) (socketStr : Bytes) : Win Unit := do
  let socket ← findSocketByIpAddr a.finder socketStr
  Win.setGlobals fun g => { g with gSocket := socket }
  -- the first packet goes out with its terminator
  let buf := store whoami (zeros buffSize)
  let len ← cString buf
  let _ ← mySend a.hook a.send socket buf (len.length + 1) 0

/-- Send the bytes that were read to the remembered socket, if it is valid. -/
def forwardPacket (a : ServeAnswers) (data : Bytes) (read : Nat) : Win Unit := do
  let socket := (← Win.globals).gSocket
  if socket ≠ invalidSocket then
    -- the length is that of the message, the string that is mirrored is not
    let _ ← mySend a.hook a.send socket data read 0

/-- The body of the read loop behind a successful `ReadFile` of `read` bytes into `data`. -/
def dispatch (a : ServeAnswers) (data : Bytes) (read : Nat) : Win Branch := do
  -- the search goes on to the first terminator, wherever the message ends
  let str ← cString data
  match strstr dettachCmd str with
  | some _ => return .dettach
  | none =>
    match strstr getserverCmd str with
    | some _ => do
        sendServer a
        return .getserver
    | none =>
      match strstr findsocketforCmd str with
      | some found => do
          -- everything behind the word is the address, wherever the word stands
          let socketStr := found.drop findsocketforCmd.length
          findSocketFor a socketStr
          return .findsocketfor socketStr
      | none => do
          forwardPacket a data read
          return .forward

/-! ## The branch and its effect -/

/-- The branch the code takes for a string. -/
def branchOf (str : Bytes) : Branch :=
  match strstr dettachCmd str with
  | some _ => .dettach
  | none =>
    match strstr getserverCmd str with
    | some _ => .getserver
    | none =>
      match strstr findsocketforCmd str with
      | some found => .findsocketfor (found.drop findsocketforCmd.length)
      | none => .forward

/-- What the code does in a branch. -/
def serve (a : ServeAnswers) (data : Bytes) (read : Nat) : Branch → Win Unit
  | .dettach => pure ()
  | .getserver => sendServer a
  | .findsocketfor socketStr => findSocketFor a socketStr
  | .forward => forwardPacket a data read

/-- The code finds the branch from the string in the array and serves it. -/
theorem run_dispatch (a : ServeAnswers) {data : Bytes} (read : Nat) (h : 0 ∈ data) (c : Ctx) :
    (dispatch a data read).run c =
      ((serve a data read (branchOf (cBody 0 data))).run c).map
        fun out => (branchOf (cBody 0 data), out.2) := by
  unfold dispatch branchOf
  rw [StateT.run_bind, run_cString_of_mem h]
  simp only [Option.bind_eq_bind, Option.bind_some]
  -- the words are looked for in this order
  cases strstr dettachCmd (cBody 0 data) with
  | some found => rfl
  | none =>
    cases strstr getserverCmd (cBody 0 data) with
    | some found =>
      simp only [StateT.run_bind, serve]
      cases (sendServer a).run c <;> rfl
    | none =>
      cases strstr findsocketforCmd (cBody 0 data) with
      | some found =>
        simp only [StateT.run_bind, serve]
        cases (findSocketFor a (found.drop findsocketforCmd.length)).run c <;> rfl
      | none =>
        simp only [StateT.run_bind, serve]
        cases (forwardPacket a data read).run c <;> rfl

theorem branchOf_eq_dettach_iff {str : Bytes} :
    branchOf str = .dettach ↔ dettachCmd <:+: str := by
  rw [← strstr_isSome_iff, branchOf]
  cases strstr dettachCmd str with
  | some found => simp
  | none =>
    cases strstr getserverCmd str with
    | some found => simp
    | none => cases strstr findsocketforCmd str <;> simp

theorem branchOf_eq_getserver_iff {str : Bytes} :
    branchOf str = .getserver ↔ ¬ dettachCmd <:+: str ∧ getserverCmd <:+: str := by
  rw [← strstr_isSome_iff, ← strstr_isSome_iff, branchOf]
  cases strstr dettachCmd str with
  | some found => simp
  | none =>
    cases strstr getserverCmd str with
    | some found => simp
    | none => cases strstr findsocketforCmd str <;> simp

theorem branchOf_of_find {str found : Bytes} (hd : ¬ dettachCmd <:+: str)
    (hg : ¬ getserverCmd <:+: str) (hf : strstr findsocketforCmd str = some found) :
    branchOf str = .findsocketfor (found.drop findsocketforCmd.length) := by
  simp [branchOf, strstr_eq_none_iff.mpr hd, strstr_eq_none_iff.mpr hg, hf]

/-- A string that starts with the command and holds neither of the other two is a lookup of
everything behind the command. -/
theorem branchOf_of_startsWith {str : Bytes} (hd : ¬ dettachCmd <:+: str)
    (hg : ¬ getserverCmd <:+: str) (hf : findsocketforCmd <+: str) :
    branchOf str = .findsocketfor (str.drop findsocketforCmd.length) :=
  branchOf_of_find hd hg (strstr_of_startsWith hf)

theorem branchOf_eq_forward_iff {str : Bytes} :
    branchOf str = .forward ↔
      ¬ dettachCmd <:+: str ∧ ¬ getserverCmd <:+: str ∧ ¬ findsocketforCmd <:+: str := by
  simp only [← strstr_isSome_iff, branchOf]
  cases strstr dettachCmd str with
  | some found => simp
  | none =>
    cases strstr getserverCmd str with
    | some found => simp
    | none => cases strstr findsocketforCmd str <;> simp

theorem zero_mem_store_zeros {m : Bytes} (h : m.length < buffSize) :
    0 ∈ store m (zeros buffSize) := by
  have hmem : (0 : UInt8) ∈ (zeros buffSize).drop m.length := by
    rw [zeros, List.drop_replicate]
    exact List.mem_replicate.mpr ⟨by omega, rfl⟩
  exact List.mem_append_right _ hmem

/-- A message on a zeroed array is the string that the array holds, up to its own terminator. -/
theorem cBody_store_zeros {m : Bytes} (h : m.length < buffSize) :
    cBody 0 (store m (zeros buffSize)) = cBody 0 m := by
  by_cases hm : 0 ∈ m
  · exact cBody_append_of_mem hm _
  · have hrest : cBody 0 ((zeros buffSize).drop m.length) = [] := by
      rw [zeros, List.drop_replicate]
      obtain ⟨k, hk⟩ : ∃ k, buffSize - m.length = k + 1 := ⟨buffSize - m.length - 1, by omega⟩
      rw [hk, List.replicate_succ, cBody_cons_nul]
    rw [store, cBody_append_of_not_mem hm, hrest, cBody_of_not_mem hm, List.append_nil]

/-- The reply gives the address, when there is one. -/
theorem run_sendServer (a : ServeAnswers) (c : Ctx) :
    (sendServer a).run c = some ((), if 0 < c.globals.gServerIp.text.length then
      { c with
        lastError := lastErrorAfter c.lastError [failureCode a.reply]
        calls := c.calls ++
          [.writeFile c.globals.gPipeServer (setserverReply ++ c.globals.gServerIp.text)] }
      else c) := by
  by_cases hip : 0 < c.globals.gServerIp.text.length
  · have hlt : (setserverReply ++ c.globals.gServerIp.text).length < buffSize := by
      have hfits := c.globals.gServerIp.fits
      have hreply : setserverReply.length = 11 := rfl
      rw [List.length_append, hreply]
      simp only [inetAddrStrLen] at hfits
      simp only [buffSize]
      omega
    have hno : 0 ∉ setserverReply ++ c.globals.gServerIp.text := by
      have hreply : 0 ∉ setserverReply := by decide
      simp [hreply, c.globals.gServerIp.noNul]
    have hbody := cBody_store_zeros hlt
    rw [cBody_of_not_mem hno] at hbody
    simp [sendServer, hip, run_writeToPipe, zero_mem_store_zeros hlt, hbody]
  · simp [sendServer, hip]

theorem run_forwardPacket_of_invalid (a : ServeAnswers) (data : Bytes) (read : Nat) {c : Ctx}
    (h : c.globals.gSocket = invalidSocket) : (forwardPacket a data read).run c = some ((), c) := by
  simp [forwardPacket, h]

theorem run_forwardPacket (a : ServeAnswers) {data : Bytes} (read : Nat) {c : Ctx}
    (h : c.globals.gSocket ≠ invalidSocket) (hdata : 0 ∈ data) :
    (forwardPacket a data read).run c = some ((),
      { globals := remember a.hook.peer c.globals.gSocket c.globals
        lastError := lastErrorAfter c.lastError ([failureCode a.hook.peer, a.send.code] ++
          mirrorCodes a.hook c.globals.gIsClientConnected (cBody 0 data))
        calls := c.calls ++ ([.getpeername c.globals.gSocket,
          .send c.globals.gSocket (data.take read) read 0] ++
            mirrorCalls c.globals (cBody 0 data) data) }) := by
  simp [forwardPacket, h, run_mySend, hdata]

/-- A lookup sets the socket to what was found, whatever that is, and sends it the first packet. -/
theorem run_findSocketFor (a : ServeAnswers) (socketStr : Bytes) (c : Ctx) :
    ∃ s e cs, (findSocketByIpAddr a.finder socketStr).run c =
        some (s, { c with lastError := e, calls := c.calls ++ cs }) ∧
      (∀ x ∈ cs, isQuery x = true) ∧
      (findSocketFor a socketStr).run c = some ((),
        { globals := remember a.hook.peer s c.globals
          lastError := lastErrorAfter e ([failureCode a.hook.peer, a.send.code] ++
            mirrorCodes a.hook c.globals.gIsClientConnected whoami)
          calls := c.calls ++ cs ++ ([.getpeername s, .send s (whoami ++ [0]) 4 0] ++
            mirrorCalls c.globals whoami (whoami ++ [0])) }) := by
  obtain ⟨s, e, cs, hrun, hcs⟩ := findSocketByIpAddr_queries a.finder socketStr c
  have hmem : (0 : UInt8) ∈ store whoami (zeros buffSize) := zero_mem_store_zeros (by decide)
  have hbody : cBody 0 (store whoami (zeros buffSize)) = whoami :=
    (cBody_store_zeros (by decide)).trans (by decide)
  have htake : (store whoami (zeros buffSize)).take 4 = whoami ++ [0] := by decide
  refine ⟨s, e, cs, hrun, hcs, ?_⟩
  -- three characters and the terminator
  have hlen : whoami.length = 3 := rfl
  have hmirror : mirrorCalls { c.globals with gSocket := s } whoami
      (store whoami (zeros buffSize)) = mirrorCalls c.globals whoami (whoami ++ [0]) := by
    have hshort : cBody 0 (whoami ++ [0]) = whoami := by decide
    simp [mirrorCalls, hbody, hshort]
  simp [findSocketFor, hrun, hmem, hbody, run_mySend, hlen, htake, hmirror, remember]

/-- Serving a message always comes to an end, on an array that holds a terminator. -/
theorem run_serve (a : ServeAnswers) {data : Bytes} (read : Nat) (br : Branch) (h : 0 ∈ data)
    (c : Ctx) : ∃ c', (serve a data read br).run c = some ((), c') := by
  cases br with
  | dettach => exact ⟨c, rfl⟩
  | getserver => exact ⟨_, run_sendServer a c⟩
  | findsocketfor socketStr =>
    obtain ⟨s, e, cs, -, -, hrun⟩ := run_findSocketFor a socketStr c
    exact ⟨_, hrun⟩
  | forward =>
    by_cases hs : c.globals.gSocket = invalidSocket
    · exact ⟨c, run_forwardPacket_of_invalid a data read hs⟩
    · exact ⟨_, run_forwardPacket a read hs h⟩

/-- A run of the loop body that returns: the array held a terminator, and the branch for its string
was served. -/
theorem dispatch_eq_some {a : ServeAnswers} {data : Bytes} {read : Nat} {c c' : Ctx} {br : Branch}
    (h : (dispatch a data read).run c = some (br, c')) :
    0 ∈ data ∧ br = branchOf (cBody 0 data) ∧ (serve a data read br).run c = some ((), c') := by
  by_cases hmem : 0 ∈ data
  · rw [run_dispatch a read hmem] at h
    obtain ⟨out, hserve, heq⟩ := Option.map_eq_some_iff.mp h
    obtain ⟨rfl, rfl⟩ := Prod.mk.inj heq
    exact ⟨hmem, rfl, hserve⟩
  · simp [dispatch, hmem] at h

/-- The calls of the real `send` among some calls: the socket and the bytes of each. -/
def sends (calls : List ApiCall) : List (Socket × Bytes) :=
  calls.filterMap fun
    | .send s bytes _ _ => some (s, bytes)
    | _ => none

/-- Where the bytes go when they are forwarded to a socket: nowhere when it is invalid. -/
def route (s : Socket) (bytes : Bytes) : List (Socket × Bytes) :=
  if s = invalidSocket then [] else [(s, bytes)]

theorem snd_of_mem_route {s : Socket} {bytes : Bytes} {packet : Socket × Bytes}
    (h : packet ∈ route s bytes) : packet.2 = bytes := by
  unfold route at h
  split at h
  · cases h
  · rw [List.mem_singleton.mp h]

/-- The socket that is remembered behind a branch, and the packets that the branch sends. -/
structure ServeEffect (a : ServeAnswers) (data : Bytes) (read : Nat) (br : Branch) (c c' : Ctx) :
    Prop where
  /-- The flag and the handle are left alone. -/
  flag : c'.globals.gIsClientConnected = c.globals.gIsClientConnected
  handle : c'.globals.gPipeServer = c.globals.gPipeServer
  /-- A lookup remembers what was found. -/
  found : ∀ socketStr, br = .findsocketfor socketStr →
    ∃ c'', (findSocketByIpAddr a.finder socketStr).run c = some (c'.globals.gSocket, c'')
  /-- No other branch changes the socket. -/
  socket : (∀ socketStr, br ≠ .findsocketfor socketStr) → c'.globals.gSocket = c.globals.gSocket
  forwarded : br = .forward → c.calls = [] →
    sends c'.calls = route c.globals.gSocket (data.take read)

theorem sends_append (xs ys : List ApiCall) : sends (xs ++ ys) = sends xs ++ sends ys :=
  List.filterMap_append

theorem sends_mirrorCalls (g : Globals) (str buf : Bytes) : sends (mirrorCalls g str buf) = [] := by
  unfold mirrorCalls
  split <;> rfl

theorem serveEffect_of_run {a : ServeAnswers} {data : Bytes} {read : Nat} {br : Branch}
    {c c' : Ctx} (hmem : 0 ∈ data) (h : (serve a data read br).run c = some ((), c')) :
    ServeEffect a data read br c c' := by
  cases br with
  | dettach =>
    obtain ⟨-, rfl⟩ := Prod.mk.inj (Option.some.inj h)
    exact ⟨rfl, rfl, by simp, fun _ => rfl, by simp⟩
  | getserver =>
    rw [serve, run_sendServer] at h
    obtain ⟨-, rfl⟩ := Prod.mk.inj (Option.some.inj h)
    split <;> exact ⟨rfl, rfl, by simp, fun _ => rfl, by simp⟩
  | findsocketfor socketStr =>
    obtain ⟨s, e, cs, hfind, -, hrun⟩ := run_findSocketFor a socketStr c
    rw [serve, hrun] at h
    obtain ⟨-, rfl⟩ := Prod.mk.inj (Option.some.inj h)
    refine ⟨rfl, rfl, fun socketStr' heq => ?_, fun hne => absurd rfl (hne _), by simp⟩
    obtain rfl := Branch.findsocketfor.inj heq
    exact ⟨_, hfind⟩
  | forward =>
    by_cases hsocket : c.globals.gSocket = invalidSocket
    · rw [serve, run_forwardPacket_of_invalid a data read hsocket] at h
      obtain ⟨-, rfl⟩ := Prod.mk.inj (Option.some.inj h)
      refine ⟨rfl, rfl, by simp, fun _ => rfl, fun _ hcalls => ?_⟩
      rw [hcalls, route, if_pos hsocket]
      rfl
    · rw [serve, run_forwardPacket a read hsocket hmem] at h
      obtain ⟨-, rfl⟩ := Prod.mk.inj (Option.some.inj h)
      refine ⟨rfl, rfl, by simp, fun _ => rfl, fun _ hcalls => ?_⟩
      rw [hcalls, route, if_neg hsocket, List.nil_append, sends_append, sends_mirrorCalls]
      rfl

/-! ## Command recognition -/

/-- A message of a client that leaves room for a terminator in the array. -/
structure ShortMessage where
  bytes : Bytes
  pos : 0 < bytes.length
  lt : bytes.length < buffSize

/-- Served as the first message of a session, `m` is taken for the command that its string is, and
for a packet when it is none. -/
def Recognises (a : ServeAnswers) (c : Ctx) (m : ShortMessage) : Prop :=
  ∃ br c', (dispatch a (store m.bytes (zeros buffSize)) m.bytes.length).run
      { c with calls := [] } = some (br, c') ∧
    (br = .dettach ↔ cBody 0 m.bytes = dettachCmd) ∧
    (br = .getserver ↔ cBody 0 m.bytes = getserverCmd) ∧
    (∀ ip, br = .findsocketfor ip ↔ cBody 0 m.bytes = findsocketforCmd ++ ip) ∧
    (cBody 0 m.bytes ≠ dettachCmd → cBody 0 m.bytes ≠ getserverCmd →
      ¬ findsocketforCmd <+: cBody 0 m.bytes → c.globals.gSocket ≠ invalidSocket →
      sends c'.calls = [(c.globals.gSocket, m.bytes)])

/-- Every command word in the string stands where the documentation asks for it: the first two
alone, the third one at the start. -/
structure CommandsStandAlone (str : Bytes) : Prop where
  dettach : dettachCmd <:+: str → str = dettachCmd
  getserver : getserverCmd <:+: str → str = getserverCmd
  findsocketfor : findsocketforCmd <:+: str → findsocketforCmd <+: str

/-- The branch taken for the first message of a session. -/
theorem run_dispatch_first (a : ServeAnswers) (c : Ctx) (m : ShortMessage) :
    ∃ c', (serve a (store m.bytes (zeros buffSize)) m.bytes.length
        (branchOf (cBody 0 m.bytes))).run c = some ((), c') ∧
      (dispatch a (store m.bytes (zeros buffSize)) m.bytes.length).run c =
        some (branchOf (cBody 0 m.bytes), c') := by
  have hmem := zero_mem_store_zeros m.lt
  obtain ⟨c', hserve⟩ := run_serve a m.bytes.length (branchOf (cBody 0 m.bytes)) hmem c
  refine ⟨c', hserve, ?_⟩
  rw [run_dispatch a _ hmem, cBody_store_zeros m.lt, hserve, Option.map_some]

theorem commandsStandAlone_of_recognises {a : ServeAnswers} {c : Ctx} {m : ShortMessage}
    (h : Recognises a c m) : CommandsStandAlone (cBody 0 m.bytes) := by
  -- the branch taken is that of the string, so each demand is one on the string
  obtain ⟨br, c', hrun, hdettach, hgetserver, hfind, -⟩ := h
  obtain ⟨c'', -, hrun'⟩ := run_dispatch_first a { c with calls := [] } m
  obtain ⟨rfl, -⟩ := Prod.mk.inj (Option.some.inj (hrun.symm.trans hrun'))
  -- a word inside a longer string would be taken for the command
  have hd : dettachCmd <:+: cBody 0 m.bytes → cBody 0 m.bytes = dettachCmd := fun hin =>
    hdettach.mp (branchOf_eq_dettach_iff.mpr hin)
  have hg : getserverCmd <:+: cBody 0 m.bytes → cBody 0 m.bytes = getserverCmd := by
    intro hin
    refine hgetserver.mp (branchOf_eq_getserver_iff.mpr ⟨fun hin' => ?_, hin⟩)
    rw [hd hin'] at hin
    exact absurd hin (by decide)
  refine ⟨hd, hg, fun hin => ?_⟩
  have hnd : ¬ dettachCmd <:+: cBody 0 m.bytes := by
    intro hin'
    rw [hd hin'] at hin
    exact absurd hin (by decide)
  have hng : ¬ getserverCmd <:+: cBody 0 m.bytes := by
    intro hin'
    rw [hg hin'] at hin
    exact absurd hin (by decide)
  obtain ⟨found, hfound⟩ := Option.isSome_iff_exists.mp (strstr_isSome_iff.mpr hin)
  have hstr := (hfind _).mp (branchOf_of_find hnd hng hfound)
  exact ⟨_, hstr.symm⟩

theorem recognises_of_commandsStandAlone {a : ServeAnswers} {c : Ctx} {m : ShortMessage}
    (h : CommandsStandAlone (cBody 0 m.bytes)) : Recognises a c m := by
  obtain ⟨c', hserve, hrun⟩ := run_dispatch_first a { c with calls := [] } m
  have hd : branchOf (cBody 0 m.bytes) = .dettach ↔ cBody 0 m.bytes = dettachCmd := by
    rw [branchOf_eq_dettach_iff]
    exact ⟨h.dettach, fun heq => by rw [heq]⟩
  have hg : branchOf (cBody 0 m.bytes) = .getserver ↔ cBody 0 m.bytes = getserverCmd := by
    rw [branchOf_eq_getserver_iff]
    exact ⟨fun hin => h.getserver hin.2, fun heq => by rw [heq]; decide⟩
  refine ⟨branchOf (cBody 0 m.bytes), c', hrun, hd, hg, fun ip => ?find, ?forward⟩
  case find =>
    constructor
    · intro hbr
      have hnd : ¬ dettachCmd <:+: cBody 0 m.bytes := fun hin => by
        rw [branchOf_eq_dettach_iff.mpr hin] at hbr
        cases hbr
      have hng : ¬ getserverCmd <:+: cBody 0 m.bytes := fun hin => by
        rw [branchOf_eq_getserver_iff.mpr ⟨hnd, hin⟩] at hbr
        cases hbr
      have hin : findsocketforCmd <:+: cBody 0 m.bytes := by
        by_contra hnf
        rw [branchOf_eq_forward_iff.mpr ⟨hnd, hng, hnf⟩] at hbr
        cases hbr
      obtain ⟨rest, hrest⟩ := h.findsocketfor hin
      rw [branchOf_of_startsWith hnd hng ⟨rest, hrest⟩, ← hrest] at hbr
      have hip : rest = ip := by simpa using hbr
      rw [← hrest, hip]
    · intro hstr
      -- the string is too long for one of the other commands
      have hlen : findsocketforCmd.length ≤ (cBody 0 m.bytes).length := by
        rw [hstr, List.length_append]
        omega
      have hnd : ¬ dettachCmd <:+: cBody 0 m.bytes := fun hin => by
        rw [h.dettach hin] at hlen
        exact absurd hlen (by decide)
      have hng : ¬ getserverCmd <:+: cBody 0 m.bytes := fun hin => by
        rw [h.getserver hin] at hlen
        exact absurd hlen (by decide)
      rw [branchOf_of_startsWith hnd hng ⟨ip, hstr.symm⟩, hstr]
      simp
  case forward =>
    intro hnd hng hnf hsocket
    have hbr : branchOf (cBody 0 m.bytes) = .forward :=
      branchOf_eq_forward_iff.mpr
        ⟨fun hin => hnd (h.dettach hin), fun hin => hng (h.getserver hin),
          fun hin => hnf (h.findsocketfor hin)⟩
    rw [hbr] at hserve
    have hforward := run_forwardPacket a m.bytes.length (c := { c with calls := [] }) hsocket
      (zero_mem_store_zeros m.lt)
    obtain ⟨-, rfl⟩ := Prod.mk.inj (Option.some.inj (hserve.symm.trans hforward))
    have htake : (store m.bytes (zeros buffSize)).take m.bytes.length = m.bytes :=
      take_store m.bytes _
    rw [List.nil_append, sends_append, sends_mirrorCalls, htake]
    rfl

/-- **Command recognition**: the first message of a session is taken for what the documentation
says exactly when every command word in its string stands alone. -/
theorem recognises_iff_commandsStandAlone (a : ServeAnswers) (c : Ctx) (m : ShortMessage) :
    Recognises a c m ↔ CommandsStandAlone (cBody 0 m.bytes) :=
  ⟨commandsStandAlone_of_recognises, recognises_of_commandsStandAlone⟩

/-- A chat packet with a command word in its text. -/
def chatPacket : ShortMessage :=
  ⟨ascii "BM*|how to !dettach|\n" ++ [0], by decide, by decide⟩

/-- Answers of a system in which every call fails. -/
def ServeAnswers.failing : ServeAnswers :=
  { finder := ⟨0, false, 0, none⟩
    hook := ⟨.error wsaNotConn, none, .error errorInvalidHandle⟩
    send := .failed wsaNotConn
    reply := .error errorInvalidHandle }

/-- The chat packet is not sent: it makes the loop end. -/
theorem chat_packet_taken_for_dettach :
    ¬ Recognises .failing ⟨Globals.init, 0, []⟩ chatPacket := by
  intro h
  have hd := (commandsStandAlone_of_recognises h).dettach (by decide)
  exact absurd hd (by decide)

end Doreto.Interop
