import Doreto.Interop.Windows

/-!
# The Hooked Winsock Functions

`MySend`, `MyRecv` and `MyConnect` stand in for the game's `send`, `recv` and `connect`. Each of
them remembers the socket and the peer's address, makes the real call and, while a pipe client is
connected, mirrors ASCII traffic to the pipe.

Every function is given as the source computes it, followed by one lemma that says what a run of
it does to the context. Later modules use these lemmas only.
-/

namespace Doreto.Interop

open Doreto.Lib

/-! ## utils.cpp -/

/-- `utils::ContainsOnlyASCII`. -/
def containsOnlyASCII (filePath : Bytes) : Bool :=
  filePath.all (· ≤ 127)

/-- `utils::WriteToPipe`. The terminated copy is filled but neither written nor freed. -/
def writeToPipe (a : WriteAnswer) (pipe : Handle) (buf : Bytes) : Win Unit := do
  let str ← cString buf
  -- the terminated copy is what the documentation speaks of, the buffer is what is written
  let _bufWithNull := str ++ [0]
  writeFile a pipe (buf.take str.length)

/-- `utils::GetIpFromSocket`. The result of `getpeername` is not looked at. -/
def getIpFromSocket (a : PeerAnswer) (socket : Socket) : Win Bytes := do
  -- a failure leaves the address zero, so the text is that of 0.0.0.0
  let address ← getpeername a socket
  return inetNtoa address

/-! ## The hooks of dllmain.cpp -/

/-- The answers of the calls a hook makes besides the real one. -/
structure HookAnswers where
  peer : PeerAnswer
  /-- The code that the logger leaves in the last error, if it changes it. -/
  log : Option ErrorCode
  write : WriteAnswer

/-- Update socket and ip. -/
def updateSocketAndIp (a : HookAnswers) (s : Socket) : Win Unit := do
  let ip ← getIpFromSocket a.peer s
  let copied ← Win.access (ServerIp.copy ip)
  Win.setGlobals fun g => { g with gServerIp := copied }
  Win.setGlobals fun g => { g with gSocket := s }

/-- Detoured `send`. The string that is checked and the buffer that is written are read from the
same memory. -/
def mySend (a : HookAnswers) (real : SendAnswer) (s : Socket) (buf : Bytes) (len flags : Int) :
    Win Int := do
  updateSocketAndIp a s
  -- `len` plays no part in what is mirrored, and neither does `result`
  let str ← cString buf
  let result ← pSend real s buf len flags
  if (← Win.globals).gIsClientConnected then
    if containsOnlyASCII str then
      logLine a.log
      writeToPipe a.write (← Win.globals).gPipeServer buf
  return result

/-- Detoured `recv`, with the memory at `buf` after it. The string is taken before the real call
and the logger and the pipe read the buffer after it. -/
def myRecv (a : HookAnswers) (real : RecvAnswer) (s : Socket) (buf : Bytes) (len flags : Int) :
    Win (Int × Bytes) := do
  updateSocketAndIp a s
  -- the copy that is checked below is taken before the real call fills the buffer
  let str ← cString buf
  let (result, buf) ← pRecv real s buf len flags
  if (← Win.globals).gIsClientConnected then
    if containsOnlyASCII str then
      -- the logger and the pipe read what is in the buffer now
      let _line ← cString buf
      logLine a.log
      writeToPipe a.write (← Win.globals).gPipeServer buf
  return (result, buf)

/-- Detoured `connect`. The socket and the address are updated after the real call. -/
def myConnect (a : HookAnswers) (real : ConnectAnswer) (s : Socket) (name : Bytes)
    (namelen : Int) : Win Int := do
  let result ← pConnect real s name namelen
  updateSocketAndIp a s
  logLine a.log
  return result

/-! ## What a run of each function does -/

/-- The address whose text `GetIpFromSocket` returns. -/
def peerAddress : PeerAnswer → InAddr
  | .ok address => address
  | .error _ => .zero

/-- The globals after a hook updated the socket and the address. -/
def remember (peer : PeerAnswer) (s : Socket) (g : Globals) : Globals :=
  { g with gServerIp := .ofAddress (peerAddress peer), gSocket := s }

/-- The last error after calls that stored these codes, in this order. -/
def lastErrorAfter (e : ErrorCode) (codes : List (Option ErrorCode)) : ErrorCode :=
  codes.foldl (fun e code => code.getD e) e

@[simp] theorem remember_gIsClientConnected (peer : PeerAnswer) (s : Socket) (g : Globals) :
    (remember peer s g).gIsClientConnected = g.gIsClientConnected := rfl

@[simp] theorem remember_gPipeServer (peer : PeerAnswer) (s : Socket) (g : Globals) :
    (remember peer s g).gPipeServer = g.gPipeServer := rfl

@[simp] theorem remember_gSocket (peer : PeerAnswer) (s : Socket) (g : Globals) :
    (remember peer s g).gSocket = s := rfl

theorem lastErrorAfter_append (e : ErrorCode) (xs ys : List (Option ErrorCode)) :
    lastErrorAfter e (xs ++ ys) = lastErrorAfter (lastErrorAfter e xs) ys := by
  simp [lastErrorAfter]

/-- `strlen` counts the bytes before the terminator, and the pipe gets exactly those. -/
theorem take_length_cBody (buf : Bytes) : buf.take (cBody 0 buf).length = cBody 0 buf :=
  (List.prefix_iff_eq_take.mp (cBody_isPrefix 0 buf)).symm

theorem run_writeToPipe (a : WriteAnswer) (pipe : Handle) {buf : Bytes} (h : 0 ∈ buf) (c : Ctx) :
    (writeToPipe a pipe buf).run c = some ((), { c with
      lastError := lastErrorAfter c.lastError [failureCode a]
      calls := c.calls ++ [.writeFile pipe (cBody 0 buf)] }) := by
  simp [writeToPipe, writeFile, h, take_length_cBody, lastErrorAfter]

theorem run_updateSocketAndIp (a : HookAnswers) (s : Socket) (c : Ctx) :
    (updateSocketAndIp a s).run c = some ((),
      { globals := remember a.peer s c.globals
        lastError := lastErrorAfter c.lastError [failureCode a.peer]
        calls := c.calls ++ [.getpeername s] }) := by
  cases hp : a.peer <;>
    simp [updateSocketAndIp, getIpFromSocket, getpeername, remember, peerAddress, lastErrorAfter,
      hp]

/-- The string is let through to the pipe. -/
def mirrors (clientConnected : Bool) (str : Bytes) : Bool :=
  clientConnected && containsOnlyASCII str

/-- The codes that the logger and `WriteFile` store when the string is mirrored. -/
def mirrorCodes (a : HookAnswers) (clientConnected : Bool) (str : Bytes) :
    List (Option ErrorCode) :=
  if mirrors clientConnected str then [a.log, failureCode a.write] else []

/-- The pipe write of `buf` when the string is mirrored. -/
def mirrorCalls (g : Globals) (str buf : Bytes) : List ApiCall :=
  if mirrors g.gIsClientConnected str then [.writeFile g.gPipeServer (cBody 0 buf)] else []

theorem run_mySend (a : HookAnswers) (real : SendAnswer) (s : Socket) {buf : Bytes}
    (len flags : Int) (h : 0 ∈ buf) (c : Ctx) :
    (mySend a real s buf len flags).run c = some (real.result,
      { globals := remember a.peer s c.globals
        lastError := lastErrorAfter c.lastError ([failureCode a.peer, real.code] ++
          mirrorCodes a c.globals.gIsClientConnected (cBody 0 buf))
        calls := c.calls ++ ([.getpeername s, .send s (buf.take len.toNat) len flags] ++
          mirrorCalls c.globals (cBody 0 buf) buf) }) := by
  -- without a client nothing is looked at, and without ASCII nothing is mirrored
  by_cases hg : c.globals.gIsClientConnected = true <;>
    by_cases ha : containsOnlyASCII (cBody 0 buf) = true <;>
    simp [mySend, run_updateSocketAndIp, run_writeToPipe, pSend, logLine, mirrorCodes,
      mirrorCalls, mirrors, lastErrorAfter, h, hg, ha]

theorem run_mySend_of_not_mem (a : HookAnswers) (real : SendAnswer) (s : Socket) {buf : Bytes}
    (len flags : Int) (h : 0 ∉ buf) (c : Ctx) : (mySend a real s buf len flags).run c = none := by
  simp [mySend, run_updateSocketAndIp, h]

/-- The buffer of `MyRecv` has a terminator both times it is read as a string. -/
def recvTerminated (clientConnected : Bool) (real : RecvAnswer) (buf : Bytes) : Prop :=
  0 ∈ buf ∧ (mirrors clientConnected (cBody 0 buf) = true → 0 ∈ store real.stored buf)

theorem run_myRecv (a : HookAnswers) (real : RecvAnswer) (s : Socket) {buf : Bytes}
    (len flags : Int) (c : Ctx) (h : recvTerminated c.globals.gIsClientConnected real buf) :
    (myRecv a real s buf len flags).run c = some ((real.result, store real.stored buf),
      { globals := remember a.peer s c.globals
        lastError := lastErrorAfter c.lastError ([failureCode a.peer, real.code] ++
          mirrorCodes a c.globals.gIsClientConnected (cBody 0 buf))
        calls := c.calls ++ ([.getpeername s, .recv s len flags] ++
          mirrorCalls c.globals (cBody 0 buf) (store real.stored buf)) }) := by
  obtain ⟨hbuf, hafter⟩ := h
  by_cases hg : c.globals.gIsClientConnected = true <;>
    by_cases ha : containsOnlyASCII (cBody 0 buf) = true <;>
    simp_all [myRecv, run_updateSocketAndIp, run_writeToPipe, pRecv, logLine, mirrorCodes,
      mirrorCalls, mirrors, lastErrorAfter]

theorem run_myRecv_of_not_terminated (a : HookAnswers) (real : RecvAnswer) (s : Socket)
    {buf : Bytes} (len flags : Int) (c : Ctx)
    (h : ¬ recvTerminated c.globals.gIsClientConnected real buf) :
    (myRecv a real s buf len flags).run c = none := by
  by_cases hbuf : 0 ∈ buf
  · have hm : mirrors c.globals.gIsClientConnected (cBody 0 buf) = true ∧
        0 ∉ store real.stored buf := by
      simpa [recvTerminated, hbuf] using h
    obtain ⟨hg, ha⟩ : c.globals.gIsClientConnected = true ∧
        containsOnlyASCII (cBody 0 buf) = true := by simpa [mirrors] using hm.1
    simp [myRecv, run_updateSocketAndIp, pRecv, hbuf, hg, ha, hm.2]
  · simp [myRecv, run_updateSocketAndIp, hbuf]

theorem run_myConnect (a : HookAnswers) (real : ConnectAnswer) (s : Socket) (name : Bytes)
    (namelen : Int) (c : Ctx) :
    (myConnect a real s name namelen).run c = some (real.result,
      { globals := remember a.peer s c.globals
        lastError := lastErrorAfter c.lastError [real.code, failureCode a.peer, a.log]
        calls := c.calls ++ [.connect s name namelen, .getpeername s] }) := by
  simp [myConnect, pConnect, run_updateSocketAndIp, logLine, lastErrorAfter]

/-! ## Calls of the game -/

/-- One call of the game with its arguments and with the answers of the calls below it. A buffer
is the memory mapped from the pointer on, which may go on behind `len`. -/
inductive GameCall where
  | send (a : HookAnswers) (real : SendAnswer) (s : Socket) (buf : Bytes) (len flags : Int)
  | recv (a : HookAnswers) (real : RecvAnswer) (s : Socket) (buf : Bytes) (len flags : Int)
  | connect (a : HookAnswers) (real : ConnectAnswer) (s : Socket) (name : Bytes) (namelen : Int)

namespace GameCall

/-- The socket argument. -/
def socket : GameCall → Socket
  | .send _ _ s _ _ _ => s
  | .recv _ _ s _ _ _ => s
  | .connect _ _ s _ _ => s

/-- The call as the hooks serve it: its return value and the memory at its pointer after it. -/
def hooked : GameCall → Win (Int × Bytes)
  | .send a real s buf len flags => do
      let result ← mySend a real s buf len flags
      return (result, buf)
  | .recv a real s buf len flags => myRecv a real s buf len flags
  | .connect a real s name namelen => do
      let result ← myConnect a real s name namelen
      return (result, name)

/-- The call as Winsock serves it in a process without the DLL. -/
def unhooked : GameCall → Win (Int × Bytes)
  | .send _ real s buf len flags => do
      let result ← pSend real s buf len flags
      return (result, buf)
  | .recv _ real s buf len flags => pRecv real s buf len flags
  | .connect _ real s name namelen => do
      let result ← pConnect real s name namelen
      return (result, name)

/-- Every string the hook reads has a terminator in mapped memory. -/
def Terminated (clientConnected : Bool) : GameCall → Prop
  | .send _ _ _ buf _ _ => 0 ∈ buf
  | .recv _ real _ buf _ _ => recvTerminated clientConnected real buf
  | .connect .. => True

instance (clientConnected : Bool) (call : GameCall) : Decidable (call.Terminated clientConnected) :=
  match call with
  | .send _ _ _ buf _ _ => inferInstanceAs (Decidable (0 ∈ buf))
  | .recv _ real _ buf _ _ => inferInstanceAs (Decidable (0 ∈ buf ∧
      (mirrors clientConnected (cBody 0 buf) = true → 0 ∈ store real.stored buf)))
  | .connect .. => inferInstanceAs (Decidable True)

end GameCall

/-- A hook that reads an unterminated string does not return. -/
theorem hooked_of_not_terminated {call : GameCall} {c : Ctx}
    (h : ¬ call.Terminated c.globals.gIsClientConnected) : call.hooked.run c = none := by
  cases call with
  | send a real s buf len flags =>
    have hbuf : 0 ∉ buf := h
    simp [GameCall.hooked, run_mySend_of_not_mem, hbuf]
  | recv a real s buf len flags =>
    have hterm : ¬ recvTerminated c.globals.gIsClientConnected real buf := h
    simp [GameCall.hooked, run_myRecv_of_not_terminated, hterm]
  | connect a real s name namelen => exact absurd trivial h

/-- The answer of `getpeername` to the hook. -/
def GameCall.peer : GameCall → PeerAnswer
  | .send a _ _ _ _ _ => a.peer
  | .recv a _ _ _ _ _ => a.peer
  | .connect a _ _ _ _ => a.peer

/-- A hook that returns has remembered the socket and the peer, and changed no other global. -/
theorem globals_hooked {call : GameCall} {c c' : Ctx} {out : Int × Bytes}
    (h : call.hooked.run c = some (out, c')) :
    c'.globals = remember call.peer call.socket c.globals := by
  by_cases hterm : call.Terminated c.globals.gIsClientConnected
  · cases call with
    | send a real s buf len flags =>
      have hbuf : 0 ∈ buf := hterm
      simp only [GameCall.hooked, StateT.run_bind, run_mySend a real s len flags hbuf] at h
      obtain ⟨-, rfl⟩ := Prod.mk.inj (Option.some.inj h)
      rfl
    | recv a real s buf len flags =>
      have hbuf : recvTerminated c.globals.gIsClientConnected real buf := hterm
      simp only [GameCall.hooked, run_myRecv a real s len flags c hbuf] at h
      obtain ⟨-, rfl⟩ := Prod.mk.inj (Option.some.inj h)
      rfl
    | connect a real s name namelen =>
      simp only [GameCall.hooked, StateT.run_bind, run_myConnect] at h
      obtain ⟨-, rfl⟩ := Prod.mk.inj (Option.some.inj h)
      rfl
  · rw [hooked_of_not_terminated hterm] at h
    cases h

end Doreto.Interop
