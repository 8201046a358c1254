import Doreto.Interop.Dispatch
import Doreto.Lib.MessagePipe
import Doreto.Lib.Run

/-!
# The Pipe Server, the Game and the Pipe Client

`RunPipeServer` creates the pipe, polls it for a client, serves the client's messages and starts
over when the client is gone. Meanwhile the game calls the hooks, which read and change the same
globals, and the client joins, writes and leaves as it likes. A run of the system is any
interleaving of these steps. A hook call and a pass of a loop body are one step each.

## Main results

- `transition_of_step`: everything that one step can do. The invariants of the later modules are
  read off it.
- `serves_of_transition`: the messages that a step serves.
- `eachMessage_of_transition`: what every step keeps of the messages in the pipe.
-/

namespace Doreto.Interop

open Doreto.Lib

/-! ## The state -/

/-- `GetLastError` behind a call on the pipe that fails. -/
def errorOf : PipeFailure → ErrorCode
  | .listening => errorPipeListening
  | .connected => errorPipeConnected
  | .noData => errorNoData
  | .broken => errorBrokenPipe
  | .disconnected => errorPipeNotConnected

/-- Where the server thread is between the creation of the pipe and `CloseHandle`. -/
inductive Loop where
  /-- At the head of the loop over `g_IsClientConnected`. -/
  | head
  /-- At `ReadFile`, with the contents of the `data` array. -/
  | reading (data : Bytes)
  /-- At `Sleep`, behind a poll that found no client. -/
  | waiting
  /-- Behind the loop. -/
  | closing
  deriving DecidableEq, Repr

/-- The server thread, with the pipe instance that it owns while the handle is open. -/
inductive Server where
  | creating
  | running (pipe : MessagePipe UInt8) (loop : Loop)
  /-- The handle is closed and the hooks are still attached. -/
  | unloading
  | unloaded
  deriving DecidableEq, Repr

/-- A message that was served, for the record. -/
structure ServedMessage where
  /-- The message in the pipe, of which the unread part was read. -/
  source : Message UInt8
  branch : Branch
  /-- `g_Socket` behind it. -/
  socket : Socket
  calls : List ApiCall
  deriving DecidableEq, Repr

/-- What happened, for the record. -/
inductive Event where
  | hooked (s : Socket) (calls : List ApiCall)
  /-- The client wrote a message. -/
  | written (bytes : Bytes)
  | served (m : ServedMessage)
  | connectNamedPipe (result : Except PipeFailure Unit)
  | disconnectNamedPipe
  | closeHandle
  deriving DecidableEq

/-- The system. -/
structure System where
  globals : Globals
  /-- The last error of the server thread. -/
  serverError : ErrorCode
  server : Server
  /-- What happened so far, oldest first. -/
  events : List Event

/-- The system when the hooks are attached and the server thread starts. -/
def System.init : System :=
  { globals := .init
    serverError := 0
    server := .creating
    events := [] }

/-- The answers to the server thread in one step. -/
structure ServerAnswers where
  /-- `CreateNamedPipe` succeeds. -/
  created : Bool
  serve : ServeAnswers
  /-- The mapped memory behind the `data` array. -/
  behind : Bytes
  /-- The code that the logger leaves in the last error, if it changes it. -/
  log : Option ErrorCode

/-- Answers to a server thread that creates its pipe, in a system in which other calls fail. -/
def ServerAnswers.plain : ServerAnswers :=
  ⟨true, .failing, [0], none⟩

/-- What the pipe client can do. -/
inductive ClientCall where
  | connect
  | write (bytes : Bytes)
  | close
  deriving DecidableEq, Repr

/-- One step of the game, of the pipe client or of the server thread. -/
inductive Action where
  /-- A call of the game on a thread whose last error is `e`. -/
  | game (e : ErrorCode) (call : GameCall)
  | client (call : ClientCall)
  | server (a : ServerAnswers)

/-! ## The server thread -/

/-- `g_PipeServer = utils::CreatePipeServer(pipeName)`. -/
def createPipeServer (σ : System) (a : ServerAnswers) : System :=
  if a.created then
    { σ with
      globals := { σ.globals with gPipeServer := .created }
      server := .running .listening .head }
  else
    { σ with globals := { σ.globals with gPipeServer := .invalid } }

/-- The poll for a client. A call that succeeds counts as a client, and so does one that fails with
`ERROR_PIPE_CONNECTED`. -/
def connectNamedPipe (σ : System) (pipe : MessagePipe UInt8) : System :=
  let (result, pipe') := pipe.connect
  let events := σ.events ++ [.connectNamedPipe result]
  match result with
  -- the return value alone is taken for a client
  | .ok _ =>
      { σ with
        globals := { σ.globals with
          gIsClientConnected := true, gIsPipeServerWaitingForClients := false }
        server := .running pipe' (.reading (zeros buffSize))
        events }
  | .error why =>
      -- a client that is there already makes the call fail
      if errorOf why = errorPipeConnected then
        { globals := { σ.globals with
            gIsClientConnected := true, gIsPipeServerWaitingForClients := false }
          serverError := errorOf why
          server := .running pipe' (.reading (zeros buffSize))
          events }
      else
        { globals := { σ.globals with gIsClientConnected := false }
          serverError := errorOf why
          server := .running pipe' .waiting
          events }

/-- The code behind `Sleep(1000)`. -/
def waitForClient (σ : System) (a : ServerAnswers) (pipe : MessagePipe UInt8) : System :=
  -- only the first pass of a wait logs, and the logger may change the code
  let err :=
    if σ.globals.gIsPipeServerWaitingForClients = false then a.log.getD σ.serverError
    else σ.serverError
  let globals := { σ.globals with
    gIsPipeServerWaitingForClients := true, gIsClientConnected := false }
  if err > 0 ∧ err ≠ errorPipeListening then
    -- the client has closed its end: cut it off, so that another one can join
    if err = errorNoData then
      { globals
        serverError := err
        server := .running .disconnected .head
        events := σ.events ++ [.disconnectNamedPipe] }
    else
      { σ with globals, serverError := err, server := .running pipe .head }
  else
    { σ with globals, serverError := err, server := .running pipe .head }

/-- Serve a message whose bytes are in the `data` array. -/
def serveMessage (σ : System) (a : ServerAnswers) (pipe : MessagePipe UInt8) (data : Bytes)
    (m : Message UInt8) : Option System :=
  ((dispatch a.serve (data ++ a.behind) m.unread.length).run
      ⟨σ.globals, σ.serverError, []⟩).map fun (br, c) =>
    { globals := c.globals
      serverError := c.lastError
      server := .running pipe (if br = .dettach then .head else .reading data)
      events := σ.events ++ [.served ⟨m, br, c.globals.gSocket, c.calls⟩] }

/-- One pass of the read loop. Among the failures only `ERROR_BROKEN_PIPE` ends it. -/
def readFile (σ : System) (a : ServerAnswers) (pipe : MessagePipe UInt8) (data : Bytes) :
    Option System :=
  match pipe.read buffSize with
  | (.message m, pipe') => serveMessage σ a pipe' (store m.unread data) m
  -- the buffer is full: the call fails, and the loop goes on
  | (.part bytes, pipe') =>
      some { σ with
        serverError := errorMoreData
        server := .running pipe' (.reading (store bytes data)) }
  | (.failed why, pipe') =>
      -- the client is gone: back to the poll
      if errorOf why = errorBrokenPipe then
        some { σ with
          globals := { σ.globals with gIsClientConnected := false }
          serverError := errorOf why
          server := .running pipe' .head }
      else
        some { σ with
          serverError := errorOf why
          server := .running pipe' (.reading data) }

theorem readFile_of_message (σ : System) (a : ServerAnswers) {pipe : MessagePipe UInt8}
    (data : Bytes) {m : Message UInt8} (h : (pipe.read buffSize).1 = .message m) :
    readFile σ a pipe data = serveMessage σ a (pipe.read buffSize).2 (store m.unread data) m := by
  unfold readFile
  generalize pipe.read buffSize = out at h
  obtain ⟨result, pipe'⟩ := out
  subst h
  rfl

theorem readFile_of_part (σ : System) (a : ServerAnswers) {pipe : MessagePipe UInt8}
    (data : Bytes) {bytes : Bytes} (h : (pipe.read buffSize).1 = .part bytes) :
    readFile σ a pipe data = some { σ with
      serverError := errorMoreData
      server := .running (pipe.read buffSize).2 (.reading (store bytes data)) } := by
  unfold readFile
  generalize pipe.read buffSize = out at h
  obtain ⟨result, pipe'⟩ := out
  subst h
  rfl

/-- `CloseHandle(g_PipeServer)`. The handle variable keeps its value. -/
def closeHandle (σ : System) : System :=
  { σ with
    server := .unloading
    events := σ.events ++ [.closeHandle] }

/-- One step of the server thread. The loop over `g_IsClientConnected` ends when the flag is set at
its head. -/
def serverStep (σ : System) (a : ServerAnswers) : Option System :=
  match σ.server with
  | .creating => some (createPipeServer σ a)
  | .running pipe .head =>
      if σ.globals.gIsClientConnected then some { σ with server := .running pipe .closing }
      else some (connectNamedPipe σ pipe)
  | .running pipe (.reading data) => readFile σ a pipe data
  | .running pipe .waiting => some (waitForClient σ a pipe)
  | .running _ .closing => some (closeHandle σ)
  -- `FreeLibraryAndExitThread` detaches the hooks
  | .unloading => some { σ with server := .unloaded }
  | .unloaded => none

/-! ## The game and the client -/

/-- A call of the game, which goes through the hooks until the DLL is unloaded. -/
def hookedCall (σ : System) (e : ErrorCode) (call : GameCall) : Option System :=
  -- without the DLL the call does nothing to the system
  if σ.server = .unloaded then some σ
  else (call.hooked.run ⟨σ.globals, e, []⟩).map fun (_, c) =>
    { σ with
      globals := c.globals
      events := σ.events ++ [.hooked call.socket c.calls] }

def ClientCall.apply : ClientCall → MessagePipe UInt8 → MessagePipe UInt8
  | .connect => .join
  | .write bytes => .write bytes
  | .close => .close

/-- The record of a call of the client: a message that the pipe takes. -/
def ClientCall.record : ClientCall → MessagePipe UInt8 → List Event
  | .write bytes, .connected _ => [.written bytes]
  | _, _ => []

/-- A call of the client, which does nothing to a pipe that is not there. -/
def clientCall (σ : System) (call : ClientCall) : System :=
  match σ.server with
  | .running pipe loop =>
      { σ with
        server := .running (call.apply pipe) loop
        events := σ.events ++ call.record pipe }
  | _ => σ

/-- One step of the system. -/
def step (σ : System) : Action → Option System
  | .game e call => hookedCall σ e call
  | .client call => some (clientCall σ call)
  | .server a => serverStep σ a

/-! ## What a step can do -/

/-- The steps of the system, one constructor for each thing that a step can do. -/
inductive Transition (σ : System) : Action → System → Prop where
  | hooked {e : ErrorCode} {call : GameCall} {out : Int × Bytes} {c : Ctx}
      (loaded : σ.server ≠ .unloaded)
      (run : call.hooked.run ⟨σ.globals, e, []⟩ = some (out, c)) :
      Transition σ (.game e call)
        { σ with globals := c.globals, events := σ.events ++ [.hooked call.socket c.calls] }
  | unhooked {e : ErrorCode} {call : GameCall} (unloaded : σ.server = .unloaded) :
      Transition σ (.game e call) σ
  | clientIdle {call : ClientCall} (closed : ∀ pipe loop, σ.server ≠ .running pipe loop) :
      Transition σ (.client call) σ
  | clientCall {call : ClientCall} {pipe : MessagePipe UInt8} {loop : Loop}
      (at_ : σ.server = .running pipe loop) :
      Transition σ (.client call)
        { σ with
          server := .running (call.apply pipe) loop
          events := σ.events ++ call.record pipe }
  | created {a : ServerAnswers} (at_ : σ.server = .creating) :
      Transition σ (.server a)
        { σ with
          globals := { σ.globals with gPipeServer := .created }
          server := .running .listening .head }
  | notCreated {a : ServerAnswers} (at_ : σ.server = .creating) :
      Transition σ (.server a) { σ with globals := { σ.globals with gPipeServer := .invalid } }
  | loopEnds {a : ServerAnswers} {pipe : MessagePipe UInt8} (at_ : σ.server = .running pipe .head)
      (flag : σ.globals.gIsClientConnected = true) :
      Transition σ (.server a) { σ with server := .running pipe .closing }
  /-- The poll succeeds, on an instance that is disconnected. -/
  | pollSucceeds {a : ServerAnswers} (at_ : σ.server = .running .disconnected .head)
      (flag : σ.globals.gIsClientConnected = false) :
      Transition σ (.server a)
        { σ with
          globals := { σ.globals with
            gIsClientConnected := true, gIsPipeServerWaitingForClients := false }
          server := .running .listening (.reading (zeros buffSize))
          events := σ.events ++ [.connectNamedPipe (.ok ())] }
  /-- The poll fails because a client is there. -/
  | pollFinds {a : ServerAnswers} {q : List (Message UInt8)}
      (at_ : σ.server = .running (.connected q) .head)
      (flag : σ.globals.gIsClientConnected = false) :
      Transition σ (.server a)
        { globals := { σ.globals with
            gIsClientConnected := true, gIsPipeServerWaitingForClients := false }
          serverError := errorPipeConnected
          server := .running (.connected q) (.reading (zeros buffSize))
          events := σ.events ++ [.connectNamedPipe (.error .connected)] }
  /-- The poll fails for another reason. -/
  | pollFails {a : ServerAnswers} {pipe : MessagePipe UInt8} {why : PipeFailure}
      (at_ : σ.server = .running pipe .head) (flag : σ.globals.gIsClientConnected = false)
      (kind : pipe = .listening ∧ why = .listening ∨ (∃ q, pipe = .closing q) ∧ why = .noData) :
      Transition σ (.server a)
        { globals := { σ.globals with gIsClientConnected := false }
          serverError := errorOf why
          server := .running pipe .waiting
          events := σ.events ++ [.connectNamedPipe (.error why)] }
  | served {a : ServerAnswers} {pipe : MessagePipe UInt8} {data : Bytes} {m : Message UInt8}
      {br : Branch} {c : Ctx} (at_ : σ.server = .running pipe (.reading data))
      (read : (pipe.read buffSize).1 = .message m)
      (run : (dispatch a.serve (store m.unread data ++ a.behind) m.unread.length).run
        ⟨σ.globals, σ.serverError, []⟩ = some (br, c)) :
      Transition σ (.server a)
        { globals := c.globals
          serverError := c.lastError
          server := .running (pipe.read buffSize).2
            (if br = .dettach then .head else .reading (store m.unread data))
          events := σ.events ++ [.served ⟨m, br, c.globals.gSocket, c.calls⟩] }
  | readPart {a : ServerAnswers} {pipe : MessagePipe UInt8} {data bytes : Bytes}
      (at_ : σ.server = .running pipe (.reading data))
      (read : (pipe.read buffSize).1 = .part bytes) :
      Transition σ (.server a)
        { σ with
          serverError := errorMoreData
          server := .running (pipe.read buffSize).2 (.reading (store bytes data)) }
  | readFails {a : ServerAnswers} {pipe : MessagePipe UInt8} {data : Bytes} {why : PipeFailure}
      (at_ : σ.server = .running pipe (.reading data))
      (read : (pipe.read buffSize).1 = .failed why) (kind : why ≠ .broken) :
      Transition σ (.server a)
        { σ with
          serverError := errorOf why
          server := .running (pipe.read buffSize).2 (.reading data) }
  /-- The client is gone. -/
  | readBroken {a : ServerAnswers} {pipe : MessagePipe UInt8} {data : Bytes}
      (at_ : σ.server = .running pipe (.reading data))
      (read : (pipe.read buffSize).1 = .failed .broken) :
      Transition σ (.server a)
        { σ with
          globals := { σ.globals with gIsClientConnected := false }
          serverError := errorBrokenPipe
          server := .running (pipe.read buffSize).2 .head }
  /-- The wait ends with another poll. -/
  | waits {a : ServerAnswers} {pipe : MessagePipe UInt8} {err : ErrorCode}
      (at_ : σ.server = .running pipe .waiting) (kind : err ≠ errorNoData)
      (code : err = σ.serverError ∨ some err = a.log) :
      Transition σ (.server a)
        { σ with
          globals := { σ.globals with
            gIsPipeServerWaitingForClients := true, gIsClientConnected := false }
          serverError := err
          server := .running pipe .head }
  /-- The wait ends with the client cut off. -/
  | cutsOff {a : ServerAnswers} {pipe : MessagePipe UInt8}
      (at_ : σ.server = .running pipe .waiting)
      (code : errorNoData = σ.serverError ∨ some errorNoData = a.log) :
      Transition σ (.server a)
        { globals := { σ.globals with
            gIsPipeServerWaitingForClients := true, gIsClientConnected := false }
          serverError := errorNoData
          server := .running .disconnected .head
          events := σ.events ++ [.disconnectNamedPipe] }
  | closes {a : ServerAnswers} {pipe : MessagePipe UInt8}
      (at_ : σ.server = .running pipe .closing) :
      Transition σ (.server a)
        { σ with server := .unloading, events := σ.events ++ [.closeHandle] }
  | unloads {a : ServerAnswers} (at_ : σ.server = .unloading) :
      Transition σ (.server a) { σ with server := .unloaded }

theorem transition_of_hookedCall {σ σ' : System} {e : ErrorCode} {call : GameCall}
    (h : hookedCall σ e call = some σ') : Transition σ (.game e call) σ' := by
  rw [hookedCall] at h
  split at h
  case isTrue hunloaded =>
    obtain rfl := Option.some.inj h
    exact .unhooked hunloaded
  case isFalse hloaded =>
    obtain ⟨⟨out, c⟩, hrun, rfl⟩ := Option.map_eq_some_iff.mp h
    exact .hooked hloaded hrun

/-- What each call on a pipe keeps, a call of the client keeps. -/
theorem ClientCall.apply_keeps {P : MessagePipe UInt8 → Prop} {pipe : MessagePipe UInt8}
    (call : ClientCall) (hjoin : P pipe.join) (hwrite : ∀ bytes, P (pipe.write bytes))
    (hclose : P pipe.close) : P (call.apply pipe) := by
  cases call with
  | connect => exact hjoin
  | write bytes => exact hwrite bytes
  | close => exact hclose

theorem transition_clientCall (σ : System) (call : ClientCall) :
    Transition σ (.client call) (clientCall σ call) := by
  -- only a running server has a pipe to call
  cases hserver : σ.server with
  | running pipe loop =>
    rw [Interop.clientCall, hserver]
    exact .clientCall hserver
  | _ =>
    rw [Interop.clientCall, hserver]
    exact .clientIdle (by simp [hserver])

theorem transition_createPipeServer {σ : System} (hserver : σ.server = .creating)
    (a : ServerAnswers) : Transition σ (.server a) (createPipeServer σ a) := by
  unfold createPipeServer
  split
  · exact .created hserver
  · exact .notCreated hserver

theorem transition_connectNamedPipe {σ : System} {pipe : MessagePipe UInt8}
    (hserver : σ.server = .running pipe .head) (hflag : σ.globals.gIsClientConnected = false)
    (a : ServerAnswers) : Transition σ (.server a) (connectNamedPipe σ pipe) := by
  cases pipe with
  | listening => exact .pollFails hserver hflag (.inl ⟨rfl, rfl⟩)
  | connected q => exact .pollFinds hserver hflag
  | closing q => exact .pollFails hserver hflag (.inr ⟨⟨q, rfl⟩, rfl⟩)
  | disconnected => exact .pollSucceeds hserver hflag

theorem transition_waitForClient {σ : System} {pipe : MessagePipe UInt8}
    (hserver : σ.server = .running pipe .waiting) (a : ServerAnswers) :
    Transition σ (.server a) (waitForClient σ a pipe) := by
  have hcode : ∀ err, err = (if σ.globals.gIsPipeServerWaitingForClients = false then
      a.log.getD σ.serverError else σ.serverError) → err = σ.serverError ∨ some err = a.log := by
    rintro err rfl
    split
    · cases a.log <;> simp
    · exact .inl rfl
  unfold waitForClient
  generalize herr : (if σ.globals.gIsPipeServerWaitingForClients = false then
    a.log.getD σ.serverError else σ.serverError) = err
  -- the code is the one of the poll or the one of the logger
  have hkind := hcode err herr.symm
  by_cases hnoData : err = errorNoData
  · subst hnoData
    exact .cutsOff hserver hkind
  · simp only [if_neg hnoData]
    split <;> exact .waits hserver hnoData hkind

theorem transition_of_readFile {σ σ' : System} {pipe : MessagePipe UInt8} {data : Bytes}
    (hserver : σ.server = .running pipe (.reading data)) {a : ServerAnswers}
    (h : readFile σ a pipe data = some σ') : Transition σ (.server a) σ' := by
  unfold readFile at h
  split at h
  case h_1 m pipe' hread =>
    obtain ⟨⟨br, c⟩, hrun, rfl⟩ := Option.map_eq_some_iff.mp h
    -- the rest of a message fits into the buffer
    have hmessage := congrArg Prod.fst hread
    have hpipe : (pipe.read buffSize).2 = pipe' := congrArg Prod.snd hread
    exact hpipe ▸ .served hserver hmessage hrun
  case h_2 bytes pipe' hread =>
    obtain rfl := Option.some.inj h
    -- the message goes on behind the buffer
    have hpart := congrArg Prod.fst hread
    have hpipe : (pipe.read buffSize).2 = pipe' := congrArg Prod.snd hread
    exact hpipe ▸ .readPart hserver hpart
  case h_3 why pipe' hread =>
    have hfailed := congrArg Prod.fst hread
    have hpipe : (pipe.read buffSize).2 = pipe' := congrArg Prod.snd hread
    -- a broken pipe is the only failure that ends the loop
    cases why with
    | broken =>
      obtain rfl := Option.some.inj h
      exact hpipe ▸ .readBroken hserver hfailed
    | _ =>
      obtain rfl := Option.some.inj h
      exact hpipe ▸ .readFails hserver hfailed (by simp)

/-- Every step is one of the transitions. -/
theorem transition_of_step {σ σ' : System} {a : Action} (h : step σ a = some σ') :
    Transition σ a σ' := by
  cases a with
  | game e call => exact transition_of_hookedCall h
  | client call => exact Option.some.inj h ▸ transition_clientCall σ call
  | server a =>
    have hstep : serverStep σ a = some σ' := h
    unfold serverStep at hstep
    split at hstep
    case h_1 hserver => exact Option.some.inj hstep ▸ transition_createPipeServer hserver a
    case h_2 pipe hserver =>
      split at hstep
      case isTrue hflag => exact Option.some.inj hstep ▸ .loopEnds hserver hflag
      case isFalse hflag =>
        exact Option.some.inj hstep ▸
          transition_connectNamedPipe hserver (Bool.eq_false_iff.mpr hflag) a
    case h_3 pipe data hserver => exact transition_of_readFile hserver hstep
    case h_4 pipe hserver => exact Option.some.inj hstep ▸ transition_waitForClient hserver a
    case h_5 pipe hserver => exact Option.some.inj hstep ▸ .closes hserver
    case h_6 hserver => exact Option.some.inj hstep ▸ .unloads hserver
    case h_7 hserver => cases hstep

/-! ## Served messages -/

/-- The messages that were served. -/
def servedMessages (events : List Event) : List ServedMessage :=
  events.filterMap fun
    | .served m => some m
    | _ => none

/-- A message with the answers to the server thread and the branch that it is served in. -/
abbrev Delivery := ServeAnswers × Message UInt8 × Branch

/-- The message that the server thread serves in a step. -/
def servedIn (σ : System) : Action → Option Delivery
  | .server a =>
      match σ.server with
      | .running pipe (.reading data) =>
          match (pipe.read buffSize).1 with
          | .message m => some (a.serve, m, branchOf (cBody 0 (store m.unread data ++ a.behind)))
          | _ => none
      | _ => none
  | _ => none

/-- What a step that serves a message does with it. -/
structure Serves (σ : System) (a : ServeAnswers) (m : Message UInt8) (br : Branch) (c : Ctx)
    (σ' : System) : Prop where
  /-- The message was in front, and the loop body ran on it. -/
  run : ∃ pipe data behind, σ.server = .running pipe (.reading data) ∧
    (pipe.read buffSize).1 = .message m ∧
    (dispatch a (store m.unread data ++ behind) m.unread.length).run
      ⟨σ.globals, σ.serverError, []⟩ = some (br, c)
  globals : σ'.globals = c.globals
  events : σ'.events = σ.events ++ [.served ⟨m, br, c.globals.gSocket, c.calls⟩]

theorem servedMessages_record (call : ClientCall) (pipe : MessagePipe UInt8) :
    servedMessages (call.record pipe) = [] := by
  cases call <;> cases pipe <;> rfl

/-- A step serves the message that stands in front, or no message. -/
theorem serves_of_transition {σ σ' : System} {a : Action} (h : Transition σ a σ') :
    (∃ answers m br c, servedIn σ a = some (answers, m, br) ∧ Serves σ answers m br c σ') ∨
      servedIn σ a = none ∧ ∃ extra, σ'.events = σ.events ++ extra ∧ servedMessages extra = [] := by
  cases h with
  | served at_ read run =>
    obtain ⟨-, rfl, -⟩ := dispatch_eq_some run
    refine .inl ⟨_, _, _, _, ?_, ⟨⟨_, _, _, at_, read, run⟩, rfl, rfl⟩⟩
    simp only [servedIn, at_, read]
  | readPart at_ read =>
    refine .inr ⟨?_, [], (List.append_nil _).symm, rfl⟩
    simp only [servedIn, at_, read]
  | readFails at_ read kind =>
    refine .inr ⟨?_, [], (List.append_nil _).symm, rfl⟩
    simp only [servedIn, at_, read]
  | readBroken at_ read =>
    refine .inr ⟨?_, [], (List.append_nil _).symm, rfl⟩
    simp only [servedIn, at_, read]
  | hooked loaded run => exact .inr ⟨rfl, _, rfl, rfl⟩
  | unhooked unloaded => exact .inr ⟨rfl, [], (List.append_nil _).symm, rfl⟩
  | clientIdle closed => exact .inr ⟨rfl, [], (List.append_nil _).symm, rfl⟩
  | clientCall at_ => exact .inr ⟨rfl, _, rfl, servedMessages_record _ _⟩
  | pollSucceeds at_ flag =>
    refine .inr ⟨?_, _, rfl, rfl⟩
    simp only [servedIn, at_]
  | pollFinds at_ flag =>
    refine .inr ⟨?_, _, rfl, rfl⟩
    simp only [servedIn, at_]
  | pollFails at_ flag kind =>
    refine .inr ⟨?_, _, rfl, rfl⟩
    simp only [servedIn, at_]
  | cutsOff at_ code =>
    refine .inr ⟨?_, _, rfl, rfl⟩
    simp only [servedIn, at_]
  | closes at_ =>
    refine .inr ⟨?_, _, rfl, rfl⟩
    simp only [servedIn, at_]
  -- in the other steps the server neither reads nor records anything
  | _ at_ =>
    refine .inr ⟨?_, [], (List.append_nil _).symm, rfl⟩
    simp only [servedIn, at_]

/-! ## Forwarded messages -/

/-- A message that is forwarded goes out as it was read, whatever lies behind it in the array. -/
theorem sends_of_forward {a : ServeAnswers} {data behind : Bytes} {m : Message UInt8} {g : Globals}
    {e : ErrorCode} {c : Ctx}
    (run : (dispatch a (store m.unread data ++ behind) m.unread.length).run ⟨g, e, []⟩ =
      some (.forward, c)) : sends c.calls = route g.gSocket m.unread := by
  obtain ⟨hmem, -, hserve⟩ := dispatch_eq_some run
  have hsends := (serveEffect_of_run hmem hserve).forwarded rfl rfl
  have htake : (store m.unread data ++ behind).take m.unread.length = m.unread := by
    rw [store, List.append_assoc]
    exact List.take_left
  rwa [htake] at hsends

/-- A step that serves a message adds that one to the record. -/
theorem Serves.newMessages {σ σ' : System} {a : ServeAnswers} {m : Message UInt8} {br : Branch}
    {c : Ctx} (h : Serves σ a m br c σ') :
    servedMessages (σ'.events.drop σ.events.length) = [⟨m, br, c.globals.gSocket, c.calls⟩] := by
  rw [h.events, List.drop_left]
  rfl

/-- A forward passes the bytes that were read to the remembered socket. -/
theorem Serves.sends_forward {σ σ' : System} {a : ServeAnswers} {m : Message UInt8} {c : Ctx}
    (h : Serves σ a m .forward c σ') : sends c.calls = route σ.globals.gSocket m.unread := by
  obtain ⟨pipe, data, behind, -, -, run⟩ := h.run
  exact sends_of_forward run

/-! ## Messages in the pipe -/

/-- Every message in the pipe has the property. -/
def System.EachMessage (P : Message UInt8 → Prop) (σ : System) : Prop :=
  ∀ pipe loop, σ.server = .running pipe loop → pipe.Each P

section EachMessage

variable {P : Message UInt8 → Prop} {σ σ' : System} {a : Action}

theorem System.EachMessage.of_running {pipe : MessagePipe UInt8} {loop : Loop}
    (hserver : σ.server = .running pipe loop) (h : pipe.Each P) : σ.EachMessage P := by
  intro pipe' loop' hserver'
  obtain ⟨rfl, -⟩ := Server.running.inj (hserver.symm.trans hserver')
  exact h

theorem System.EachMessage.of_stopped (h : ∀ pipe loop, σ.server ≠ .running pipe loop) :
    σ.EachMessage P :=
  fun pipe loop hserver => absurd hserver (h pipe loop)

/-- What holds of a new message and is kept when a part of a message is read holds of every message
in the pipe, whatever the step. -/
theorem eachMessage_of_transition (hnew : ∀ bytes, P (.written bytes))
    (hrest : ∀ m, P m → buffSize < m.unread.length → P ⟨m.whole, m.unread.drop buffSize⟩)
    (hI : σ.EachMessage P) (h : Transition σ a σ') : σ'.EachMessage P := by
  cases h with
  | hooked loaded run => exact hI
  | unhooked unloaded => exact hI
  | clientIdle closed => exact hI
  | clientCall at_ =>
    have hall := hI _ _ at_
    exact .of_running rfl
      (ClientCall.apply_keeps _ hall.join (fun bytes => hall.write (hnew bytes)) hall.close)
  | created at_ => exact .of_running rfl (.of_queue_nil rfl)
  | notCreated at_ => exact hI
  | loopEnds at_ flag => exact .of_running rfl (hI _ _ at_)
  | pollSucceeds at_ flag => exact .of_running rfl (.of_queue_nil rfl)
  | pollFinds at_ flag => exact .of_running rfl (hI _ _ at_)
  | pollFails at_ flag kind => exact .of_running rfl (hI _ _ at_)
  | served at_ read run => exact .of_running rfl ((hI _ _ at_).read hrest).2
  | readPart at_ read => exact .of_running rfl ((hI _ _ at_).read hrest).2
  | readFails at_ read kind => exact .of_running rfl ((hI _ _ at_).read hrest).2
  | readBroken at_ read => exact .of_running rfl ((hI _ _ at_).read hrest).2
  | waits at_ kind code => exact .of_running rfl (hI _ _ at_)
  | cutsOff at_ code => exact .of_running rfl (.of_queue_nil rfl)
  | closes at_ => exact .of_stopped (by simp)
  | unloads at_ => exact .of_stopped (by simp)

end EachMessage

end Doreto.Interop
