import Doreto.Lib.CString

/-!
# The Windows Calls Behind the DLL

The injected DLL observes and changes the world through Winsock, named pipes and the last-error
code of the calling thread. This module fixes the types of those calls and what one of them may
answer. Answers are inputs of the model, so a statement over all answers covers every behaviour
of the system underneath.

- `Globals`: the variables of `common.h` that the code reads.
- `Ctx`: the globals, the last-error code of the running thread and the calls made so far.
- `Win`: code that runs in a context. It has no result when it reads memory that is not mapped.
-/

namespace Doreto.Interop

open Doreto.Lib

/-! ## Data types -/

abbrev Bytes := List UInt8

/-- The bytes of an ASCII literal, without its terminator. -/
def ascii (s : String) : Bytes :=
  s.toList.map fun c => UInt8.ofNat c.toNat

/-- `SOCKET`, an unsigned integer of pointer size. -/
abbrev Socket := UInt64

/-- `INVALID_SOCKET`, that is `(SOCKET)(~0)`. -/
def invalidSocket : Socket := 0xFFFFFFFFFFFFFFFF

/-- `SOCKET_ERROR`. -/
def socketError : Int := -1

/-- A code of `GetLastError` or `WSAGetLastError`. -/
abbrev ErrorCode := UInt32

def errorInvalidHandle : ErrorCode := 6
def errorBrokenPipe : ErrorCode := 109
def errorNoData : ErrorCode := 232
def errorPipeNotConnected : ErrorCode := 233
def errorMoreData : ErrorCode := 234
def errorPipeConnected : ErrorCode := 535
def errorPipeListening : ErrorCode := 536
def wsaWouldBlock : ErrorCode := 10035
def wsaNotConn : ErrorCode := 10057

/-- The value of a `HANDLE` variable: `NULL`, `INVALID_HANDLE_VALUE` or a created pipe. -/
inductive Handle where
  | null
  | invalid
  | created
  deriving DecidableEq, Repr

/-- `in_addr`, the four bytes of an IPv4 address in network order. -/
structure InAddr where
  b1 : UInt8
  b2 : UInt8
  b3 : UInt8
  b4 : UInt8
  deriving DecidableEq, Repr

/-- The address in a structure initialised with `{ 0 }`. -/
def InAddr.zero : InAddr := ⟨0, 0, 0, 0⟩

/-- The decimal digits of a byte. -/
def decimal (b : UInt8) : Bytes :=
  (Nat.toDigits 10 b.toNat).map fun c => UInt8.ofNat c.toNat

/-- The dotted text of an address. -/
def inetNtoa (a : InAddr) : Bytes :=
  decimal a.b1 ++ ascii "." ++ decimal a.b2 ++ ascii "." ++ decimal a.b3 ++ ascii "." ++
    decimal a.b4

/-- `INET_ADDRSTRLEN` of the Windows headers. -/
def inetAddrStrLen : Nat := 22

/-- The contents of `char g_ServerIp[INET_ADDRSTRLEN]`: a string that fits with its terminator. -/
structure ServerIp where
  text : Bytes
  noNul : 0 ∉ text
  fits : text.length < inetAddrStrLen
  deriving DecidableEq, Repr

/-- The zeroed array. -/
def ServerIp.empty : ServerIp :=
  ⟨[], by simp, by decide⟩

/-- `strcpy_s` into the array, which stops the process when the string does not fit. -/
def ServerIp.copy (ip : Bytes) : Option ServerIp :=
  if h : (cBody 0 ip).length < inetAddrStrLen then some ⟨cBody 0 ip, not_mem_cBody 0 ip, h⟩
  else none

theorem length_decimal_le (b : UInt8) : (decimal b).length ≤ 3 := by
  have hlt : b.toNat < 10 ^ 3 := Nat.lt_trans b.toNat_lt (by decide)
  rw [decimal, List.length_map]
  exact (Nat.length_toDigits_le_iff (by decide) (by decide)).mpr hlt

/-- A digit is not the terminator. -/
theorem ofNat_toNat_ne_zero {c : Char} (h : c.isDigit = true) : UInt8.ofNat c.toNat ≠ 0 := by
  simp only [Char.isDigit, Bool.and_eq_true, decide_eq_true_eq] at h
  obtain ⟨hlow, hhigh⟩ := h
  have hlow' : 48 ≤ c.toNat := UInt32.le_iff_toNat_le.mp hlow
  have hhigh' : c.toNat ≤ 57 := UInt32.le_iff_toNat_le.mp hhigh
  intro hzero
  have hnat := congrArg UInt8.toNat hzero
  rw [UInt8.toNat_ofNat'] at hnat
  have hz : (0 : UInt8).toNat = 0 := rfl
  omega

theorem zero_not_mem_decimal (b : UInt8) : 0 ∉ decimal b := by
  intro h
  obtain ⟨c, hc, hzero⟩ := List.mem_map.mp h
  exact ofNat_toNat_ne_zero (Nat.isDigit_of_mem_toDigits (by decide) (by decide) hc) hzero

theorem zero_not_mem_inetNtoa (a : InAddr) : 0 ∉ inetNtoa a := by
  have hdot : (0 : UInt8) ∉ ascii "." := by decide
  simp [inetNtoa, zero_not_mem_decimal, hdot]

theorem length_inetNtoa_lt (a : InAddr) : (inetNtoa a).length < inetAddrStrLen := by
  have hdot : (ascii ".").length = 1 := rfl
  have h1 := length_decimal_le a.b1
  have h2 := length_decimal_le a.b2
  have h3 := length_decimal_le a.b3
  have h4 := length_decimal_le a.b4
  simp only [inetNtoa, List.length_append, hdot, inetAddrStrLen]
  omega

/-- The array with the dotted text of an address in it. -/
def ServerIp.ofAddress (a : InAddr) : ServerIp :=
  ⟨inetNtoa a, zero_not_mem_inetNtoa a, length_inetNtoa_lt a⟩

/-- The text of an address always fits. -/
@[simp] theorem ServerIp.copy_inetNtoa (a : InAddr) :
    ServerIp.copy (inetNtoa a) = some (.ofAddress a) := by
  simp [ServerIp.copy, ServerIp.ofAddress, cBody_of_not_mem (zero_not_mem_inetNtoa a),
    length_inetNtoa_lt a]

/-! ## What a call may answer -/

/-- A call of `getpeername`: the peer's address, or a failure with its code. -/
abbrev PeerAnswer := Except ErrorCode InAddr

/-- A call of `WriteFile`: the number of bytes accepted, or a failure with its code. -/
abbrev WriteAnswer := Except ErrorCode Nat

/-- The code a failing call stores in the thread's last error. A call that succeeds stores none. -/
def failureCode {β : Type} : Except ErrorCode β → Option ErrorCode
  | .ok _ => none
  | .error code => some code

/-- The real `send`: some bytes were sent, or it failed. A success may change the last error too. -/
inductive SendAnswer where
  | sent (n : Nat) (code : Option ErrorCode)
  | failed (code : ErrorCode)

/-- The real `recv`: bytes were stored at the start of the buffer, or it failed. A failure such as
`WSAEMSGSIZE` stores bytes as well. -/
inductive RecvAnswer where
  | received (bytes : Bytes) (code : Option ErrorCode)
  | failed (stored : Bytes) (code : ErrorCode)

/-- The real `connect`. -/
inductive ConnectAnswer where
  | connected (code : Option ErrorCode)
  | failed (code : ErrorCode)

namespace SendAnswer

def result : SendAnswer → Int
  | .sent n _ => n
  | .failed _ => socketError

/-- The code the call stores in the last error, if it stores one. -/
def code : SendAnswer → Option ErrorCode
  | .sent _ code => code
  | .failed code => some code

/-- The number of bytes the call transferred. -/
def transferred : SendAnswer → Nat
  | .sent n _ => n
  | .failed _ => 0

end SendAnswer

namespace RecvAnswer

def result : RecvAnswer → Int
  | .received bytes _ => bytes.length
  | .failed _ _ => socketError

def code : RecvAnswer → Option ErrorCode
  | .received _ code => code
  | .failed _ code => some code

/-- The bytes the call wrote to the start of the caller's buffer. -/
def stored : RecvAnswer → Bytes
  | .received bytes _ => bytes
  | .failed stored _ => stored

def transferred : RecvAnswer → Nat
  | .received bytes _ => bytes.length
  | .failed _ _ => 0

end RecvAnswer

namespace ConnectAnswer

def result : ConnectAnswer → Int
  | .connected _ => 0
  | .failed _ => socketError

def code : ConnectAnswer → Option ErrorCode
  | .connected code => code
  | .failed code => some code

end ConnectAnswer

/-! ## The context code runs in -/

/-- The globals of `common.h` that the code reads. -/
structure Globals where
  /-- Stores the actual game's socket. -/
  gSocket : Socket
  /-- Stores the server IP address. -/
  gServerIp : ServerIp
  /-- Pipe server instance. -/
  gPipeServer : Handle
  /-- Is client connected to pipe server. -/
  gIsClientConnected : Bool
  /-- Is server waiting for pipe client. -/
  gIsPipeServerWaitingForClients : Bool
  deriving DecidableEq, Repr

/-- The globals when the DLL is loaded. -/
def Globals.init : Globals :=
  { gSocket := 0
    gServerIp := .empty
    gPipeServer := .null
    gIsClientConnected := false
    gIsPipeServerWaitingForClients := false }

/-- The resources that `FindSocketByIpAddr` acquires and releases by hand. -/
inductive Resource where
  | processHandle
  | handleInfo
  | dupHandle
  | objectTypeInfo
  | objectNameInfo
  deriving DecidableEq, Repr

/-- A call with an effect outside the DLL, with the arguments that matter outside. -/
inductive ApiCall where
  | getpeername (s : Socket)
  | send (s : Socket) (bytes : Bytes) (len flags : Int)
  | recv (s : Socket) (len flags : Int)
  | connect (s : Socket) (name : Bytes) (namelen : Int)
  | writeFile (pipe : Handle) (bytes : Bytes)
  | acquire (r : Resource)
  | realloc (r : Resource)
  | release (r : Resource)
  deriving DecidableEq, Repr

/-- What running code reads and changes. -/
structure Ctx where
  globals : Globals
  /-- The last-error code of the running thread. -/
  lastError : ErrorCode
  /-- The calls made so far, oldest first. -/
  calls : List ApiCall
  deriving DecidableEq, Repr

/-- Code of the DLL. No result stands for an access to memory that is not mapped. -/
abbrev Win := StateT Ctx Option

namespace Win

/-- Read memory through a pointer. -/
def access {β : Type} (o : Option β) : Win β :=
  StateT.lift o

def globals : Win Globals :=
  return (← get).globals

def setGlobals (f : Globals → Globals) : Win Unit :=
  modify fun c => { c with globals := f c.globals }

/-- Store a code in the thread's last error, or leave the last error alone. -/
def setLastError (code : Option ErrorCode) : Win Unit :=
  modify fun c => { c with lastError := code.getD c.lastError }

def call (a : ApiCall) : Win Unit :=
  modify fun c => { c with calls := c.calls ++ [a] }

@[simp] theorem run_access_some {β : Type} (b : β) (c : Ctx) :
    (access (some b)).run c = some (b, c) := rfl

@[simp] theorem run_access_none {β : Type} (c : Ctx) :
    (access (none : Option β)).run c = none := rfl

@[simp] theorem run_globals (c : Ctx) : globals.run c = some (c.globals, c) := rfl

@[simp] theorem run_setGlobals (f : Globals → Globals) (c : Ctx) :
    (setGlobals f).run c = some ((), { c with globals := f c.globals }) := rfl

@[simp] theorem run_setLastError (code : Option ErrorCode) (c : Ctx) :
    (setLastError code).run c = some ((), { c with lastError := code.getD c.lastError }) := rfl

@[simp] theorem run_call (a : ApiCall) (c : Ctx) :
    (call a).run c = some ((), { c with calls := c.calls ++ [a] }) := rfl

end Win

/-! ## The calls -/

/-- The terminated string at a pointer, as `strlen` and the `std::string` constructor read it. -/
def cString (buf : Bytes) : Win Bytes :=
  Win.access (scan 0 buf)

/-- `getpeername` into a zeroed structure, which a failure leaves as it is. -/
def getpeername (a : PeerAnswer) (s : Socket) : Win InAddr := do
  Win.call (.getpeername s)
  Win.setLastError (failureCode a)
  return match a with
    | .ok address => address
    | .error _ => .zero

/-- `WriteFile` on the pipe. -/
def writeFile (a : WriteAnswer) (pipe : Handle) (bytes : Bytes) : Win Unit := do
  Win.call (.writeFile pipe bytes)
  Win.setLastError (failureCode a)

/-- The original `send`, which reads `len` bytes at `buf`. -/
def pSend (a : SendAnswer) (s : Socket) (buf : Bytes) (len flags : Int) : Win Int := do
  Win.call (.send s (buf.take len.toNat) len flags)
  Win.setLastError a.code
  return a.result

/-- The original `recv`, with the memory at `buf` after it. -/
def pRecv (a : RecvAnswer) (s : Socket) (buf : Bytes) (len flags : Int) : Win (Int × Bytes) := do
  Win.call (.recv s len flags)
  Win.setLastError a.code
  return (a.result, store a.stored buf)

/-- The original `connect`. -/
def pConnect (a : ConnectAnswer) (s : Socket) (name : Bytes) (namelen : Int) : Win Int := do
  Win.call (.connect s name namelen)
  Win.setLastError a.code
  return a.result

/-- A line of the logger. Writing it to the console may change the last error. -/
def logLine (code : Option ErrorCode) : Win Unit :=
  Win.setLastError code

@[simp] theorem run_cString_of_mem {buf : Bytes} (h : 0 ∈ buf) (c : Ctx) :
    (cString buf).run c = some (cBody 0 buf, c) := by
  simp [cString, scan_of_mem h]

@[simp] theorem run_cString_of_not_mem {buf : Bytes} (h : 0 ∉ buf) (c : Ctx) :
    (cString buf).run c = none := by
  simp [cString, scan_of_not_mem h]

end Doreto.Interop
