import Doreto.Interop.Dispatch
import Doreto.Lib.Threads

/-!
# The Threads of the Process

The hooks run on whatever thread of the game calls `send`, `recv` or `connect`, and `RunPipeServer`
runs on a thread of its own. Nothing keeps them apart: each of them reads and writes the globals of
`common.h` while the others do. Here every access to a global is a step of its own, and the array
`g_ServerIp` is read and written byte by byte, as the loops of the C library do.

What a call keeps to itself is not shared: its buffers, the address that `getpeername` fills and the
last-error code of its thread, which is therefore left out. The pipe is left out as well: a pass of
the server thread may find anything in it.

- `Shared`: the globals, and where the server thread is.
- `hooked`: the program of a call of the game.
- `Pass.prog`: the program of a pass of the server thread.
- `code`: all threads together.
-/

namespace Doreto.Interop.Threads

open Doreto.Lib

/-! ## The shared state -/

/-- Where the server thread is in `RunPipeServer`. -/
inductive Place where
  /-- In the loop that creates the pipe. -/
  | creating
  /-- At the head of the loop over `g_IsClientConnected`. -/
  | head
  /-- In the loop that reads messages. -/
  | reading
  /-- Behind the loops. -/
  | left
  deriving DecidableEq, Repr

/-- The globals as they are in memory. -/
structure Shared where
  gSocket : Socket
  gServerIp : Vector UInt8 inetAddrStrLen
  gPipeServer : Handle
  gIsClientConnected : Bool
  gIsPipeServerWaitingForClients : Bool
  /-- Read and changed by the server thread alone. -/
  place : Place
  deriving DecidableEq, Repr

namespace Shared

/-- The globals when the DLL is loaded. -/
def init : Shared :=
  { gSocket := 0
    gServerIp := Vector.replicate inetAddrStrLen 0
    gPipeServer := .null
    gIsClientConnected := false
    gIsPipeServerWaitingForClients := false
    place := .creating }

/-- A byte of `g_ServerIp`. -/
def byte (s : Shared) (k : Nat) : UInt8 :=
  s.gServerIp[k]?.getD 0

def setByte (s : Shared) (k : Nat) (c : UInt8) (h : k < inetAddrStrLen) : Shared :=
  { s with gServerIp := s.gServerIp.set k c h }

theorem byte_setByte (s : Shared) (k j : Nat) (c : UInt8) (h : k < inetAddrStrLen) :
    (s.setByte k c h).byte j = if k = j then c else s.byte j := by
  simp only [byte, setByte, Vector.getElem?_set]
  by_cases hkj : k = j
  · subst hkj
    simp
  · simp [hkj]

end Shared

/-- A program of a thread. It shows the calls that it makes. -/
abbrev Act := Prog Shared ApiCall

/-! ## The C library on `g_ServerIp` -/

/-- The loop of `strcpy_s` from `g_ServerIp[k]` on, with the bytes that are still to come. A full
array stops the process. -/
def strcpyServerIp : Nat → Bytes → Act Unit
  | _, [] => pure ()
  | k, c :: rest =>
      if h : k < inetAddrStrLen then do
        Prog.write fun s => s.setByte k c h
        strcpyServerIp (k + 1) rest
      else .fault

/-- The loop of `strlen` and of `strcat_s` over the last `n` bytes of `g_ServerIp`: the string up to
the terminator. Without one the loop leaves the array. -/
def scanServerIp : Nat → Act Bytes
  | 0 => .fault
  | n + 1 => do
      let c ← Prog.read fun s => s.byte (inetAddrStrLen - (n + 1))
      if c = 0 then return []
      else return c :: (← scanServerIp n)

/-! ## The hooks -/

/-- The terminated string at a pointer into memory of the caller's own. -/
def cString (buf : Bytes) : Act Bytes :=
  Prog.access (scan 0 buf)

/-- `utils::WriteToPipe`. -/
def writeToPipe (pipe : Handle) (buf : Bytes) : Act Unit := do
  let str ← cString buf
  Prog.emit [.writeFile pipe (buf.take str.length)]

/-- `utils::GetIpFromSocket`. -/
def getIpFromSocket (a : PeerAnswer) (socket : Socket) : Act Bytes := do
  Prog.emit [.getpeername socket]
  return inetNtoa (peerAddress a)

/-- Update socket and ip. -/
def updateSocketAndIp (a : HookAnswers) (s : Socket) : Act Unit := do
  let ip ← getIpFromSocket a.peer s
  strcpyServerIp 0 (ip ++ [0])
  Prog.write fun g => { g with gSocket := s }

/-- The original `send`. -/
def pSend (a : SendAnswer) (s : Socket) (buf : Bytes) (len flags : Int) : Act Int := do
  Prog.emit [.send s (buf.take len.toNat) len flags]
  return a.result

/-- The original `recv`, with the memory at `buf` after it. -/
def pRecv (a : RecvAnswer) (s : Socket) (buf : Bytes) (len flags : Int) : Act (Int × Bytes) := do
  Prog.emit [.recv s len flags]
  return (a.result, store a.stored buf)

/-- The original `connect`. -/
def pConnect (a : ConnectAnswer) (s : Socket) (name : Bytes) (namelen : Int) : Act Int := do
  Prog.emit [.connect s name namelen]
  return a.result

/-- Detoured `send`. -/
def mySend (a : HookAnswers) (real : SendAnswer) (s : Socket) (buf : Bytes) (len flags : Int) :
    Act Int := do
  updateSocketAndIp a s
  let str ← cString buf
  let result ← pSend real s buf len flags
  if ← Prog.read Shared.gIsClientConnected then
    if containsOnlyASCII str then
      -- the handle is read when the flag was, not together with it
      writeToPipe (← Prog.read Shared.gPipeServer) buf
  return result

/-- Detoured `recv`, with the memory at `buf` after it. -/
def myRecv (a : HookAnswers) (real : RecvAnswer) (s : Socket) (buf : Bytes) (len flags : Int) :
    Act (Int × Bytes) := do
  updateSocketAndIp a s
  let str ← cString buf
  let (result, buf) ← pRecv real s buf len flags
  if ← Prog.read Shared.gIsClientConnected then
    if containsOnlyASCII str then
      let _line ← cString buf
      writeToPipe (← Prog.read Shared.gPipeServer) buf
  return (result, buf)

/-- Detoured `connect`. -/
def myConnect (a : HookAnswers) (real : ConnectAnswer) (s : Socket) (name : Bytes)
    (namelen : Int) : Act Int := do
  let result ← pConnect real s name namelen
  updateSocketAndIp a s
  let _line ← Prog.read Shared.gSocket
  return result

/-- A call of the game: its return value and the memory at its pointer after it. -/
def hooked : GameCall → Act (Int × Bytes)
  | .send a real s buf len flags => do
      let result ← mySend a real s buf len flags
      return (result, buf)
  | .recv a real s buf len flags => myRecv a real s buf len flags
  | .connect a real s name namelen => do
      let result ← myConnect a real s name namelen
      return (result, name)

/-! ## The server thread -/

/-- Code that touches none of the globals. -/
def privately {β : Type} (m : Win β) : Act β :=
  match m.run ⟨.init, 0, []⟩ with
  | some (b, c) => do
      Prog.emit c.calls
      return b
  | none => .fault

/-- The answer to `!getserver`, if there is an address to give. -/
def sendServer : Act Unit := do
  let str ← scanServerIp inetAddrStrLen
  if 0 < str.length then
    -- `strcat_s` reads the array again
    let ip ← scanServerIp inetAddrStrLen
    let buf := store (setserverReply ++ ip) (zeros buffSize)
    writeToPipe (← Prog.read Shared.gPipeServer) buf

/-- Remember the socket that is connected to the address and send it a first packet. -/
def findSocketFor (a : ServeAnswers) (socketStr : Bytes) : Act Unit := do
  let socket ← privately (findSocketByIpAddr a.finder socketStr)
  Prog.write fun g => { g with gSocket := socket }
  let buf := store whoami (zeros buffSize)
  let len ← cString buf
  let _ ← mySend a.hook a.send socket buf (len.length + 1) 0

/-- Send the bytes that were read to the remembered socket, if it is valid. -/
def forwardPacket (a : ServeAnswers) (data : Bytes) (read : Nat) : Act Unit := do
  if (← Prog.read Shared.gSocket) ≠ invalidSocket then
    -- the argument is read again behind the check
    let _ ← mySend a.hook a.send (← Prog.read Shared.gSocket) data read 0

/-- The body of the read loop behind a successful `ReadFile` of `read` bytes into `data`. -/
def dispatch (a : ServeAnswers) (data : Bytes) (read : Nat) : Act Branch := do
  let str ← cString data
  match strstr dettachCmd str with
  | some _ => return .dettach
  | none =>
    match strstr getserverCmd str with
    | some _ => do
        sendServer
        return .getserver
    | none =>
      match strstr findsocketforCmd str with
      | some found => do
          let socketStr := found.drop findsocketforCmd.length
          findSocketFor a socketStr
          return .findsocketfor socketStr
      | none => do
          forwardPacket a data read
          return .forward

/-- A pass of a loop of `RunPipeServer`, with what the pipe answers. -/
inductive Pass where
  | create (answer : Handle)
  | poll (answer : Except ErrorCode Unit)
  | message (a : ServeAnswers) (data : Bytes) (read : Nat)
  | readFails (code : ErrorCode)

namespace Pass

/-- The loop that the pass belongs to. -/
def place : Pass → Place
  | .create _ => .creating
  | .poll _ => .head
  | .message .. => .reading
  | .readFails _ => .reading

/-- `ConnectNamedPipe(...) ? TRUE : (GetLastError() == ERROR_PIPE_CONNECTED)`. -/
def connected : Except ErrorCode Unit → Bool
  | .ok () => true
  | .error code => code == errorPipeConnected

def goTo (place : Place) : Act Unit :=
  Prog.write fun s => { s with place }

/-- `g_PipeServer` is set, and then read by the condition of the loop. -/
def createPipeServer (answer : Handle) : Act Unit := do
  Prog.write fun s => { s with gPipeServer := answer }
  if (← Prog.read Shared.gPipeServer) = .created then
    goTo .head

/-- A pass of the loop over `g_IsClientConnected`, without the read loop in it. -/
def waitForClient (answer : Except ErrorCode Unit) : Act Unit := do
  if ← Prog.read Shared.gIsClientConnected then
    goTo .left
  else
    Prog.write fun s => { s with gIsClientConnected := connected answer }
    if ← Prog.read Shared.gIsClientConnected then
      Prog.write fun s => { s with gIsClientConnected := true }
      Prog.write fun s => { s with gIsPipeServerWaitingForClients := false }
      goTo .reading
    else
      if (← Prog.read Shared.gIsPipeServerWaitingForClients) = false then
        Prog.write fun s => { s with gIsPipeServerWaitingForClients := true }
      Prog.write fun s => { s with gIsClientConnected := false }

/-- A pass of the read loop with a message. -/
def serveMessage (a : ServeAnswers) (data : Bytes) (read : Nat) : Act Unit := do
  let br ← dispatch a data read
  if br = .dettach then
    goTo .head

/-- A pass of the read loop without a message. -/
def noMessage (code : ErrorCode) : Act Unit := do
  if code = errorBrokenPipe then
    Prog.write fun s => { s with gIsClientConnected := false }
    goTo .head

def prog : Pass → Act Unit
  | .create answer => createPipeServer answer
  | .poll answer => waitForClient answer
  | .message a data read => serveMessage a data read
  | .readFails code => noMessage code

end Pass

/-! ## All threads -/

/-- The server thread and the threads of the game. -/
inductive Thread where
  | server
  | game (id : Nat)
  deriving DecidableEq, Repr

/-- What a thread may be called to do. -/
inductive Call where
  | game (call : GameCall)
  | pass (pass : Pass)

/-- What a call gives back: a call of the game its return value and the memory at its pointer. -/
abbrev Result := Option (Int × Bytes)

/-- The game may call at any time on any of its threads. The server thread goes from pass to
pass. -/
def code : Code Thread Shared ApiCall Result Call where
  prog
    | .game call => do
        let out ← hooked call
        return some out
    | .pass pass => do
        pass.prog
        return none
  begins
    | .game _, .game _, _ => true
    | .server, .pass pass, s => pass.place = s.place
    | _, _, _ => false

abbrev ThreadPool := Pool Thread Shared ApiCall Result Call

/-- The threads when the DLL is loaded. -/
def ThreadPool.init : ThreadPool :=
  Pool.init Shared.init

/-- A step of the threads. -/
abbrev step : ThreadPool → Move Thread Call → Option ThreadPool :=
  Pool.step code

end Doreto.Interop.Threads
