import Doreto.Interop.Hooks

/-!
# Finding a Socket by Its Peer

`FindSocketByIpAddr` of `handlefinder.cpp` walks over the handle table of the system, looks at the
handles of its own process and returns the first socket whose peer has the given address. What
the system answers to each call is an input, for every entry of a table of any length.

The handles and buffers that the function acquires and releases by hand are recorded among the
calls of the context.
-/

namespace Doreto.Interop

open Doreto.Lib

/-! ## The handle table and the answers about its entries -/

/-- `SYSTEM_HANDLE`, an entry of the handle table. -/
structure SystemHandle where
  processId : UInt32
  handle : UInt16
  grantedAccess : UInt32

/-- A `UNICODE_STRING`: its length in bytes and the text at its buffer. -/
structure ObjectName where
  length : UInt16
  buffer : String

/-- The answers of the queries about one entry. -/
structure EntryAnswers where
  /-- `NtDuplicateObject` succeeds. -/
  duplicated : Bool
  /-- `NtQueryObject` succeeds for the type. -/
  typeQueried : Bool
  /-- `NtQueryObject` for the name, with the first buffer. -/
  nameQueried : Option ObjectName
  /-- `NtQueryObject` for the name, with the buffer of the length it asked for. -/
  nameRequeried : Option ObjectName
  peer : PeerAnswer

/-- The answers to one call of `FindSocketByIpAddr`. -/
structure FinderAnswers where
  /-- `GetCurrentProcessId`. -/
  pid : UInt32
  /-- `OpenProcess` succeeds. -/
  processOpened : Bool
  /-- How often `NtQuerySystemInformation` finds the buffer too small. -/
  mismatches : Nat
  /-- Its answer after that: a failure, or the table and the answers about its entries. -/
  handles : Option (List (SystemHandle × EntryAnswers))

/-! ## FindSocketByIpAddr -/

/-- `handleInfo = realloc(handleInfo, handleInfoSize *= 2)`, once for every mismatch. -/
def growHandleInfo : Nat → Win Unit
  | 0 => pure ()
  | n + 1 => do
      Win.call (.realloc .handleInfo)
      growHandleInfo n

/-- Query the object name, with one retry. -/
def queryObjectName (a : EntryAnswers) : Win (Option ObjectName) :=
  match a.nameQueried with
  | some name => pure (some name)
  | none => do
      Win.call (.realloc .objectNameInfo)
      return a.nameRequeried

/-- Free both buffers of an entry and close its duplicated handle. -/
def releaseEntry : Win Unit := do
  Win.call (.release .objectTypeInfo)
  Win.call (.release .objectNameInfo)
  Win.call (.release .dupHandle)

/-- The part of the loop body behind the name query. -/
def matchObjectName (ipaddr : Bytes) (handle : SystemHandle) (a : EntryAnswers)
    (objectName : ObjectName) : Win (Option Socket) := do
  if objectName.length ≠ 0 ∧ objectName.buffer = "\\Device\\Afd" then
    -- the handle of the entry is taken for the socket, not its duplicate
    let socket := handle.handle.toUInt64
    if socket = invalidSocket then
      releaseEntry
      return none
    else
      let clientInfo ← getpeername a.peer socket
      releaseEntry
      if inetNtoa clientInfo = ipaddr then
        return some socket
      else
        return none
  else
    releaseEntry
    return none

/-- The loop body: the socket when the entry matches, `none` when the loop goes on. When the type
query fails, the type buffer is not freed. -/
def examineHandle (pid : UInt32) (ipaddr : Bytes) (handle : SystemHandle) (a : EntryAnswers) :
    Win (Option Socket) := do
  if handle.processId ≠ pid then
    return none
  else if a.duplicated = false then
    return none
  else
    Win.call (.acquire .dupHandle)
    Win.call (.acquire .objectTypeInfo)
    -- the type buffer is not freed on this path
    if a.typeQueried = false then
      Win.call (.release .dupHandle)
      return none
    else if handle.grantedAccess = 0x0012019f then
      -- with this access mask the name query could hang
      Win.call (.release .objectTypeInfo)
      Win.call (.release .dupHandle)
      return none
    else
      Win.call (.acquire .objectNameInfo)
      match ← queryObjectName a with
      | none => do
          releaseEntry
          return none
      | some objectName => matchObjectName ipaddr handle a objectName

/-- The loop over the entries of the table. A match ends it. -/
def examineHandles (pid : UInt32) (ipaddr : Bytes) :
    List (SystemHandle × EntryAnswers) → Win (Option Socket)
  | [] => return none
  -- the first match ends the loop
  | (handle, a) :: rest => do
      match ← examineHandle pid ipaddr handle a with
      | some socket => return some socket
      | none => examineHandles pid ipaddr rest

/-- `FindSocketByIpAddr`. The table and the process handle are released when the loop ends without
a match only. -/
def findSocketByIpAddr (a : FinderAnswers) (ipaddr : Bytes) : Win Socket := do
  if a.processOpened = false then
    return 1
  else
    Win.call (.acquire .processHandle)
    Win.call (.acquire .handleInfo)
    growHandleInfo a.mismatches
    match a.handles with
    -- the query failed: the socket 1 is the answer, and nothing is released
    | none => return 1
    | some handles =>
        match ← examineHandles a.pid ipaddr handles with
        | some socket => return socket
        | none => do
            Win.call (.release .handleInfo)
            Win.call (.release .processHandle)
            return invalidSocket

/-! ## Code that only queries -/

/-- A call that looks a socket up, as opposed to one that sends, receives, connects or writes to
the pipe. -/
def isQuery : ApiCall → Bool
  | .getpeername _ => true
  | .acquire _ => true
  | .realloc _ => true
  | .release _ => true
  | _ => false

/-- The code always returns, leaves the globals alone and makes queries only. -/
def Win.Queries {β : Type} (m : Win β) : Prop :=
  ∀ c, ∃ b e cs, m.run c = some (b, { c with lastError := e, calls := c.calls ++ cs }) ∧
    ∀ a ∈ cs, isQuery a = true

namespace Win.Queries

variable {β γ : Type}

theorem pure (b : β) : Win.Queries (Pure.pure b) :=
  fun c => ⟨b, c.lastError, [], by simp, by simp⟩

theorem call {a : ApiCall} (h : isQuery a = true) : Win.Queries (Win.call a) :=
  fun c => ⟨(), c.lastError, [a], rfl, by simp [h]⟩

theorem setLastError (code : Option ErrorCode) : Win.Queries (Win.setLastError code) :=
  fun c => ⟨(), code.getD c.lastError, [], by simp, by simp⟩

theorem bind {m : Win β} {f : β → Win γ} (hm : m.Queries) (hf : ∀ b, (f b).Queries) :
    Win.Queries (m >>= f) := by
  intro c
  obtain ⟨b, e, cs, hrun, hcs⟩ := hm c
  obtain ⟨b', e', cs', hrun', hcs'⟩ := hf b { c with lastError := e, calls := c.calls ++ cs }
  refine ⟨b', e', cs ++ cs', ?_, ?_⟩
  · rw [StateT.run_bind, hrun]
    simpa using hrun'
  · intro a ha
    rcases List.mem_append.mp ha with ha | ha
    · exact hcs a ha
    · exact hcs' a ha

theorem ite {p : Prop} [Decidable p] {m m' : Win β} (hm : m.Queries) (hm' : m'.Queries) :
    Win.Queries (if p then m else m') := by
  split
  · exact hm
  · exact hm'

end Win.Queries

theorem getpeername_queries (a : PeerAnswer) (s : Socket) : (getpeername a s).Queries :=
  .bind (.call rfl) fun _ => .bind (.setLastError _) fun _ => .pure _

theorem growHandleInfo_queries (n : Nat) : (growHandleInfo n).Queries := by
  induction n with
  | zero => exact .pure ()
  | succ n ih => exact .bind (.call rfl) fun _ => ih

theorem releaseEntry_queries : releaseEntry.Queries :=
  .bind (.call rfl) fun _ => .bind (.call rfl) fun _ => .call rfl

theorem queryObjectName_queries (a : EntryAnswers) : (queryObjectName a).Queries := by
  unfold queryObjectName
  split
  · exact .pure _
  · exact .bind (.call rfl) fun _ => .pure _

theorem matchObjectName_queries (ipaddr : Bytes) (handle : SystemHandle) (a : EntryAnswers)
    (objectName : ObjectName) : (matchObjectName ipaddr handle a objectName).Queries := by
  refine .ite (.ite ?invalid ?valid) ?other
  case invalid => exact .bind releaseEntry_queries fun _ => .pure _
  case valid =>
    exact .bind (getpeername_queries _ _) fun _ =>
      .bind releaseEntry_queries fun _ => .ite (.pure _) (.pure _)
  case other => exact .bind releaseEntry_queries fun _ => .pure _

theorem examineHandle_queries (pid : UInt32) (ipaddr : Bytes) (handle : SystemHandle)
    (a : EntryAnswers) : (examineHandle pid ipaddr handle a).Queries := by
  -- the entry is of this process and its handle was duplicated
  refine .ite (.pure _) (.ite (.pure _) (.bind (.call rfl) fun _ => .bind (.call rfl) fun _ => ?_))
  refine .ite ?noType (.ite ?skipped ?named)
  case noType => exact .bind (.call rfl) fun _ => .pure _
  case skipped => exact .bind (.call rfl) fun _ => .bind (.call rfl) fun _ => .pure _
  case named =>
    refine .bind (.call rfl) fun _ => .bind (queryObjectName_queries a) fun name => ?_
    cases name with
    | none => exact .bind releaseEntry_queries fun _ => .pure _
    | some name => exact matchObjectName_queries ipaddr handle a name

theorem examineHandles_queries (pid : UInt32) (ipaddr : Bytes)
    (handles : List (SystemHandle × EntryAnswers)) :
    (examineHandles pid ipaddr handles).Queries := by
  induction handles with
  | nil => exact .pure none
  | cons entry rest ih =>
    refine .bind (examineHandle_queries pid ipaddr entry.1 entry.2) fun found => ?_
    cases found with
    | none => exact ih
    | some socket => exact .pure _

/-- A lookup returns, leaves the globals alone and makes queries only, whatever the system
answers. -/
theorem findSocketByIpAddr_queries (a : FinderAnswers) (ipaddr : Bytes) :
    (findSocketByIpAddr a ipaddr).Queries := by
  refine .ite (.pure _) (.bind (.call rfl) fun _ => .bind (.call rfl) fun _ =>
    .bind (growHandleInfo_queries _) fun _ => ?_)
  cases a.handles with
  | none => exact .pure _
  | some handles =>
    refine .bind (examineHandles_queries a.pid ipaddr handles) fun found => ?_
    cases found with
    | none => exact .bind (.call rfl) fun _ => .bind (.call rfl) fun _ => .pure _
    | some socket => exact .pure _

end Doreto.Interop
