import Doreto.Lib.Cleanup
import Doreto.Lib.CString
import Doreto.Lib.StructLayout

/-!
# Reading the Command Line of a Process

`ProcessCommandLine.Retrieve` asks the system for the address of a process' environment block and
follows two pointers from there, through memory of the process that it copies into buffers of its
own. What the system answers is an input, and so is each place where memory may run out.

The handle of the process and the three buffers are released in `finally` blocks, which are
recorded as entries of a ledger.

## Main results

- `retrieve_tidy`: whatever fails or is thrown, each of them is released once and not used
  afterwards.
- `retrieve_reports`: the code returned names the first step that failed.
-/

namespace Doreto.Native

open Doreto.Lib

/-! ## The structs of `Win32Native` -/

/-- `IntPtr.Size`. -/
inductive PointerSize where
  | four
  | eight
  deriving DecidableEq, Repr

/-- The bytes of a pointer. -/
def PointerSize.bytes : PointerSize → Nat
  | .four => 4
  | .eight => 8

/-- A field of type `IntPtr`. -/
def intPtr (w : PointerSize) : Slot := ⟨w.bytes, w.bytes⟩

/-- A field of type `byte`. -/
def byte : Slot := ⟨1, 1⟩

/-- A field of type `ushort`. -/
def ushort : Slot := ⟨2, 2⟩

/-- `Reserved1`, `PebBaseAddress`, `Reserved2`, `UniqueProcessId` and `Reserved3`. -/
def processBasicInformation (w : PointerSize) : List Slot :=
  [intPtr w, intPtr w, (intPtr w).array 2, intPtr w, intPtr w]

/-- `Length`, `MaximumLength` and `Buffer`. -/
def unicodeString (w : PointerSize) : List Slot :=
  [ushort, ushort, intPtr w]

/-- `Reserved` and `ProcessParameters`. -/
def peb (w : PointerSize) : List Slot :=
  [(intPtr w).array 4, intPtr w]

/-- `Reserved1`, `Reserved2`, `ImagePathName` and `CommandLine`. -/
def rtlUserProcessParameters (w : PointerSize) : List Slot :=
  [byte.array 16, (intPtr w).array 10, .struct (unicodeString w), .struct (unicodeString w)]

/-- The fields of a `UnicodeString` that are read. -/
structure UnicodeString where
  maximumLength : Nat
  buffer : Nat

/-- `PtrToStructure<ProcessBasicInformation>`, of which `PebBaseAddress` is read. -/
def pebBaseAddress (w : PointerSize) (mem : List UInt8) : Nat :=
  leNat (field (processBasicInformation w) 1 mem)

/-- `PtrToStructure<PEB>`, of which `ProcessParameters` is read. -/
def processParameters (w : PointerSize) (mem : List UInt8) : Nat :=
  leNat (field (peb w) 1 mem)

/-- `PtrToStructure<RtlUserProcessParameters>`, of which `CommandLine` is read. -/
def commandLine (w : PointerSize) (mem : List UInt8) : UnicodeString where
  maximumLength := leNat (field (unicodeString w) 1 (field (rtlUserProcessParameters w) 3 mem))
  buffer := leNat (field (unicodeString w) 2 (field (rtlUserProcessParameters w) 3 mem))

/-- The sizes and offsets of the structs of a 64-bit process. -/
example : [processBasicInformation, peb, rtlUserProcessParameters].map
    (fun struct => structSize (struct .eight)) = [48, 40, 128] := by decide

/-! ## The answers of the system -/

/-- What is read and allocated for: the three structs and the text. -/
inductive Site where
  | pbi
  | peb
  | rupp
  | commandLine
  deriving DecidableEq, Repr

/-- The places where memory may run out. -/
inductive Allocation where
  /-- `AllocHGlobal`. -/
  | buffer (s : Site)
  /-- The struct or the string that is made of a buffer. -/
  | object (s : Site)
  deriving DecidableEq, Repr

/-- The answer of `ReadProcessMemory`: whether it succeeds, and the bytes that it has put into the
buffer. -/
structure ReadAnswer where
  succeeded : Bool
  bytes : List UInt8

/-- The answers to one call of `Retrieve`. -/
structure Answers where
  pointerSize : PointerSize
  outOfMemory : Allocation → Bool
  /-- `OpenProcess` succeeds. -/
  processOpened : Bool
  /-- The status of `NtQueryInformationProcess`. -/
  status : UInt32
  /-- What it has put into `memPBI`. -/
  pbi : List UInt8
  /-- `ReadProcessMemory` at an address and for a number of bytes. -/
  readProcessMemory : Site → Nat → Nat → ReadAnswer
  /-- What is mapped from `memCL` on, before the text is read into it. -/
  heap : List UInt8

/-! ## Retrieve -/

/-- What `Retrieve` releases by hand. -/
inductive Resource where
  | hProcess
  | memPBI
  /-- The buffer of `ReadStructFromProcessMemory`. -/
  | mem
  | memCL
  deriving DecidableEq, Repr

/-- The variable that holds the buffer. -/
def Site.buffer : Site → Resource
  | .pbi => .memPBI
  | .peb => .mem
  | .rupp => .mem
  | .commandLine => .memCL

/-- What may be thrown. -/
inductive Exn where
  | outOfMemory
  /-- `NullReferenceException`, which the callers have to avoid. -/
  | nullReference
  deriving DecidableEq, Repr

/-- Managed code that calls the system. -/
abbrev Code := Guarded Exn Resource

/-- `Marshal.AllocHGlobal`. -/
def allocHGlobal (a : Answers) (s : Site) : Code Unit :=
  if a.outOfMemory (.buffer s) then Guarded.throw .outOfMemory else Guarded.acquire s.buffer

/-- `Marshal.FreeHGlobal`. -/
def freeHGlobal (s : Site) : Code Unit :=
  Guarded.release s.buffer

/-- Make an object of a buffer. -/
def newObject {τ : Type} (a : Answers) (s : Site) (x : τ) : Code τ := do
  Guarded.use s.buffer
  if a.outOfMemory (.object s) then Guarded.throw .outOfMemory else return x

/-- `Marshal.PtrToStringUni`. It looks for the terminator from the start of the buffer on, and a
text without one before the end of the mapped memory ends the process. -/
def ptrToStringUni (a : Answers) (mem : List UInt8) : Code (List UInt16) :=
  match scan 0 (wchars mem) with
  | some text => newObject a .commandLine text
  | none => do
      Guarded.use .memCL
      Guarded.die

/-- `ReadStructFromProcessMemory`. A read of less than the struct is a failure. -/
def readStructFromProcessMemory {τ : Type} (a : Answers) (s : Site) (layout : List Slot)
    (ptrToStructure : List UInt8 → τ) (lpBaseAddress : Nat) : Code (Option τ) := do
  let structSize := structSize layout
  allocHGlobal a s
  Guarded.finallyDo (do
    Guarded.use .hProcess
    Guarded.use s.buffer
    let answer := a.readProcessMemory s lpBaseAddress structSize
    if answer.succeeded ∧ answer.bytes.length = structSize then
      let val ← newObject a s (ptrToStructure answer.bytes)
      return some val
    else
      return none)
    (freeHGlobal s)

/-- The block of `Retrieve` that reads the text. How much was read is not looked at. -/
def readCommandLine (a : Answers) (text : UnicodeString) : Code (Int × Option (List UInt16)) := do
  allocHGlobal a .commandLine
  Guarded.finallyDo (do
    Guarded.use .hProcess
    Guarded.use .memCL
    let answer := a.readProcessMemory .commandLine text.buffer text.maximumLength
    if answer.succeeded then
      let commandLine ← ptrToStringUni a (store answer.bytes a.heap)
      return (0, some commandLine)
    else
      -- couldn't read command line buffer
      return (-6, none))
    (freeHGlobal .commandLine)

/-- The block of `Retrieve` that follows the pointers from the environment block on. -/
def readParameters (a : Answers) (pebBaseAddress : Nat) : Code (Int × Option (List UInt16)) := do
  let w := a.pointerSize
  match ← readStructFromProcessMemory a .peb (peb w) (processParameters w) pebBaseAddress with
  -- couldn't read PEB information
  | none => return (-4, none)
  | some processParameters =>
      match ← readStructFromProcessMemory a .rupp (rtlUserProcessParameters w) (commandLine w)
          processParameters with
      -- couldn't read ProcessParameters
      | none => return (-5, none)
      | some text => readCommandLine a text

/-- The block of `Retrieve` that has the process open. -/
def queryProcess (a : Answers) : Code (Int × Option (List UInt16)) := do
  allocHGlobal a .pbi
  Guarded.finallyDo (do
    Guarded.use .hProcess
    Guarded.use .memPBI
    if a.status = 0 then
      let pebBaseAddress ← newObject a .pbi (pebBaseAddress a.pointerSize a.pbi)
      if pebBaseAddress ≠ 0 then
        readParameters a pebBaseAddress
      else
        -- PebBaseAddress is null
        return (-3, none)
    else
      -- NtQueryInformationProcess failed
      return (-2, none))
    (freeHGlobal .pbi)

/-- `Retrieve`: the code, and the text or `null`. -/
def retrieve (a : Answers) : Code (Int × Option (List UInt16)) :=
  if a.processOpened then do
    Guarded.acquire .hProcess
    (queryProcess a).finallyDo (Guarded.release .hProcess)
  else
    -- couldn't open process for VM read
    return (-1, none)

/-- `ErrorToString`. It throws when the table has no such entry. -/
def errorToString (error : Int) : Option String :=
  ["Success",
    "Failed to open process for reading",
    "Failed to query process information",
    "PEB address was null",
    "Failed to read PEB information",
    "Failed to read process parameters",
    "Failed to read command line from process"][error.natAbs]?

/-! ## Nothing is left behind -/

theorem tidy_newObject {τ : Type} {held : List Resource} (a : Answers) {s : Site}
    (h : s.buffer ∈ held) (x : τ) : Tidy held (newObject a s x) := by
  apply Tidy.bind (Tidy.use h)
  intro _
  apply Tidy.ite
  · exact Tidy.throw held Exn.outOfMemory
  · exact Tidy.pure held x

/-- A block with a buffer of its own is tidy when its body is. -/
theorem tidy_buffer {β : Type} {held : List Resource} (a : Answers) {s : Site} {body : Code β}
    (hs : s.buffer ∉ held) (hbody : Tidy (s.buffer :: held) body) :
    Tidy held (allocHGlobal a s >>= fun _ => body.finallyDo (freeHGlobal s)) := by
  unfold allocHGlobal
  cases h : a.outOfMemory (.buffer s) with
  | true => exact Tidy.throw held Exn.outOfMemory
  | false => exact Tidy.bracket hs hbody

theorem tidy_ptrToStringUni {held : List Resource} (a : Answers) (h : .memCL ∈ held)
    (mem : List UInt8) : Tidy held (ptrToStringUni a mem) := by
  unfold ptrToStringUni
  cases scan 0 (wchars mem) with
  | some text => exact tidy_newObject a h text
  | none => exact Tidy.bind (Tidy.use h) fun _ => Tidy.die held

theorem tidy_readStructFromProcessMemory {τ : Type} {held : List Resource} (a : Answers) (s : Site)
    (hs : s.buffer ∉ held) (hprocess : .hProcess ∈ held) (layout : List Slot)
    (ptrToStructure : List UInt8 → τ) (lpBaseAddress : Nat) :
    Tidy held (readStructFromProcessMemory a s layout ptrToStructure lpBaseAddress) := by
  apply tidy_buffer a hs
  apply Tidy.bind (Tidy.use (List.mem_cons_of_mem _ hprocess))
  intro _
  apply Tidy.bind (Tidy.use List.mem_cons_self)
  intro _
  apply Tidy.ite
  · apply Tidy.bind (tidy_newObject a List.mem_cons_self _)
    intro val
    exact Tidy.pure _ _
  · exact Tidy.pure _ _

theorem tidy_readCommandLine {held : List Resource} (a : Answers) (hmem : .memCL ∉ held)
    (hprocess : .hProcess ∈ held) (text : UnicodeString) : Tidy held (readCommandLine a text) := by
  apply tidy_buffer a hmem
  apply Tidy.bind (Tidy.use (List.mem_cons_of_mem _ hprocess))
  intro _
  apply Tidy.bind (Tidy.use List.mem_cons_self)
  intro _
  apply Tidy.ite
  · apply Tidy.bind (tidy_ptrToStringUni a List.mem_cons_self _)
    intro commandLine
    exact Tidy.pure _ _
  · exact Tidy.pure _ _

theorem tidy_readParameters (a : Answers) (pebBaseAddress : Nat) :
    Tidy [.memPBI, .hProcess] (readParameters a pebBaseAddress) := by
  have hmem : Resource.mem ∉ [Resource.memPBI, .hProcess] := by decide
  have hprocess : Resource.hProcess ∈ [Resource.memPBI, .hProcess] := by decide
  apply Tidy.bind (tidy_readStructFromProcessMemory a .peb hmem hprocess _ _ _)
  rintro (_ | processParameters)
  · exact Tidy.pure _ _
  apply Tidy.bind (tidy_readStructFromProcessMemory a .rupp hmem hprocess _ _ _)
  rintro (_ | text)
  · exact Tidy.pure _ _
  · exact tidy_readCommandLine a (by decide) hprocess text

theorem tidy_queryProcess (a : Answers) : Tidy [.hProcess] (queryProcess a) := by
  have hprocess : Resource.hProcess ∈ [Resource.memPBI, .hProcess] := by decide
  apply tidy_buffer a (s := .pbi) (by decide)
  apply Tidy.bind (Tidy.use hprocess)
  intro _
  apply Tidy.bind (Tidy.use List.mem_cons_self)
  intro _
  apply Tidy.ite
  · apply Tidy.bind (tidy_newObject a List.mem_cons_self _)
    intro pebBaseAddress
    apply Tidy.ite
    · exact tidy_readParameters a pebBaseAddress
    · exact Tidy.pure _ _
  · exact Tidy.pure _ _

theorem tidy_retrieve (a : Answers) : Tidy [] (retrieve a) := by
  apply Tidy.ite
  · exact Tidy.bracket (by decide) (tidy_queryProcess a)
  · exact Tidy.pure _ _

/-- However `Retrieve` is left, by a return or by an exception, the handle of the process and the
buffers were released once each, and were used only while they were held. -/
theorem retrieve_tidy (a : Answers) :
    (retrieve a).exit = .died ∨ Balanced (retrieve a).ledger := by
  by_cases hdied : (retrieve a).exit = .died
  · exact .inl hdied
  · exact .inr (tidy_retrieve a hdied).balanced

/-! ## The first step that fails -/

/-- The code is left in this way, unless memory runs out. -/
def Yields {β : Type} (a : Answers) (m : Code β) (x : Exit Exn β) : Prop :=
  m.exit = x ∨ m.exit = .threw .outOfMemory ∧ ∃ allocation, a.outOfMemory allocation = true

namespace Yields

variable {β γ : Type} {a : Answers}

theorem pure (b : β) : Yields a (Pure.pure b) (.returned b) :=
  .inl rfl

theorem use (r : Resource) : Yields a (Guarded.use r) (.returned ()) :=
  .inl rfl

/-- Nothing follows code in which the process ends. -/
theorem died {m : Code β} (hm : Yields a m .died) (f : β → Code γ) : Yields a (m >>= f) .died := by
  rcases hm with hm | ⟨hm, hout⟩
  · exact .inl (by simp [hm])
  · exact .inr ⟨by simp [hm], hout⟩

/-- After code that returns, the code that follows decides. -/
theorem after {m : Code β} {f : β → Code γ} {b : β} {x : Exit Exn γ}
    (hm : Yields a m (.returned b)) (hf : Yields a (f b) x) : Yields a (m >>= f) x := by
  rcases hm with hm | ⟨hm, hout⟩
  · rcases hf with hf | ⟨hf, hout⟩
    · exact .inl (by simp [hm, hf])
    · exact .inr ⟨by simp [hm, hf], hout⟩
  · exact .inr ⟨by simp [hm], hout⟩

theorem newObject {τ : Type} (s : Site) (x : τ) :
    Yields a (Native.newObject a s x) (.returned x) := by
  apply after (use s.buffer)
  cases h : a.outOfMemory (.object s) with
  | true => exact .inr ⟨rfl, _, h⟩
  | false => exact .inl rfl

theorem buffer {s : Site} {body : Code β} {x : Exit Exn β} (h : Yields a body x) :
    Yields a (allocHGlobal a s >>= fun _ => body.finallyDo (freeHGlobal s)) x := by
  have hfree : (freeHGlobal s).exit = .returned () := rfl
  unfold allocHGlobal
  cases hs : a.outOfMemory (.buffer s) with
  | true => exact .inr ⟨rfl, _, hs⟩
  | false =>
    apply after (.inl rfl)
    show Yields a (body.finallyDo (freeHGlobal s)) x
    rw [Yields, Guarded.exit_finallyDo hfree]
    exact h

end Yields

/-- The steps of `Retrieve`, in their order. -/
inductive Step where
  | openProcess
  | queryInformation
  | pebAddress
  | readPeb
  | readParameters
  | readCommandLine
  deriving DecidableEq, Repr

/-- All the steps, in their order. -/
def Step.all : List Step :=
  [.openProcess, .queryInformation, .pebAddress, .readPeb, .readParameters, .readCommandLine]

/-- The code that stands for a failed step. -/
def Step.code (s : Step) : Int :=
  -(Step.all.idxOf s + 1)

namespace Answers

variable (a : Answers)

/-- What is read at the address of the environment block. -/
def pebRead : ReadAnswer :=
  a.readProcessMemory .peb (pebBaseAddress a.pointerSize a.pbi) (structSize (peb a.pointerSize))

/-- What is read at the address of the parameters. -/
def parametersRead : ReadAnswer :=
  a.readProcessMemory .rupp (processParameters a.pointerSize a.pebRead.bytes)
    (structSize (rtlUserProcessParameters a.pointerSize))

/-- The text that the parameters point to. -/
def text : UnicodeString :=
  commandLine a.pointerSize a.parametersRead.bytes

/-- What is read at the address of the text. -/
def textRead : ReadAnswer :=
  a.readProcessMemory .commandLine a.text.buffer a.text.maximumLength

/-- The step succeeds, given that those before it do. -/
def succeeds : Step → Bool
  | .openProcess => a.processOpened
  | .queryInformation => a.status = 0
  | .pebAddress => pebBaseAddress a.pointerSize a.pbi ≠ 0
  | .readPeb => a.pebRead.succeeded ∧ a.pebRead.bytes.length = structSize (peb a.pointerSize)
  | .readParameters =>
      a.parametersRead.succeeded ∧
        a.parametersRead.bytes.length = structSize (rtlUserProcessParameters a.pointerSize)
  | .readCommandLine => a.textRead.succeeded

/-- The first step that fails. -/
def firstFailure : Option Step :=
  Step.all.find? fun s => !a.succeeds s

/-- What is in `memCL` after the text was read into it. -/
def memCL : List UInt8 :=
  store a.textRead.bytes a.heap

/-- How code that has some steps left to do is left when memory does not run out: it returns the
code of the first step that fails, or the text, or dies in a text without a terminator. -/
def outcome (steps : List Step) : Exit Exn (Int × Option (List UInt16)) :=
  match steps.find? fun s => !a.succeeds s with
  | some s => .returned (s.code, none)
  | none =>
      match scan 0 (wchars a.memCL) with
      | some text => .returned (0, some text)
      | none => .died

variable {a}

theorem outcome_cons_of_fails {s : Step} (h : a.succeeds s = false) (steps : List Step) :
    a.outcome (s :: steps) = .returned (s.code, none) := by
  simp [outcome, h]

theorem outcome_cons_of_succeeds {s : Step} (h : a.succeeds s = true) (steps : List Step) :
    a.outcome (s :: steps) = a.outcome steps := by
  simp [outcome, h]

end Answers

/-- A read of a struct gives the struct, or nothing when a part of it could not be read. -/
theorem readStructFromProcessMemory_yields {τ : Type} (a : Answers) (s : Site) (layout : List Slot)
    (ptrToStructure : List UInt8 → τ) (lpBaseAddress : Nat) (answer : ReadAnswer)
    (hanswer : a.readProcessMemory s lpBaseAddress (structSize layout) = answer) :
    Yields a (readStructFromProcessMemory a s layout ptrToStructure lpBaseAddress)
      (.returned (if answer.succeeded ∧ answer.bytes.length = structSize layout
        then some (ptrToStructure answer.bytes) else none)) := by
  apply Yields.buffer
  apply Yields.after (Yields.use _)
  apply Yields.after (Yields.use _)
  rw [hanswer]
  by_cases hread : answer.succeeded ∧ answer.bytes.length = structSize layout
  · rw [if_pos hread, if_pos hread]
    exact (Yields.newObject s _).after (Yields.pure _)
  · rw [if_neg hread, if_neg hread]
    exact Yields.pure none

theorem ptrToStringUni_yields (a : Answers) (mem : List UInt8) :
    Yields a (ptrToStringUni a mem) (match scan 0 (wchars mem) with
      | some text => .returned text
      | none => .died) := by
  unfold ptrToStringUni
  cases scan 0 (wchars mem) with
  | some text => exact Yields.newObject _ text
  | none => exact Yields.after (Yields.use _) (.inl rfl)

theorem readCommandLine_yields (a : Answers) :
    Yields a (readCommandLine a a.text) (a.outcome [.readCommandLine]) := by
  apply Yields.buffer
  apply Yields.after (Yields.use _)
  apply Yields.after (Yields.use _)
  show Yields a (if a.textRead.succeeded then _ else _) _
  cases hread : a.textRead.succeeded with
  | false =>
    rw [Answers.outcome_cons_of_fails (by exact hread)]
    exact Yields.pure _
  | true =>
    have htext := ptrToStringUni_yields a a.memCL
    rw [Answers.outcome_cons_of_succeeds (by exact hread)]
    show Yields a (ptrToStringUni a a.memCL >>= fun text => pure ((0 : Int), some text)) _
    cases hscan : scan 0 (wchars a.memCL) with
    | some text =>
      rw [hscan] at htext
      simpa [Answers.outcome, hscan] using htext.after (Yields.pure (0, some text))
    | none =>
      rw [hscan] at htext
      simpa [Answers.outcome, hscan] using htext.died _

theorem readParameters_yields (a : Answers) :
    Yields a (readParameters a (pebBaseAddress a.pointerSize a.pbi))
      (a.outcome [.readPeb, .readParameters, .readCommandLine]) := by
  have hpeb := readStructFromProcessMemory_yields a .peb (peb a.pointerSize)
    (processParameters a.pointerSize) (pebBaseAddress a.pointerSize a.pbi) a.pebRead rfl
  have hparameters := readStructFromProcessMemory_yields a .rupp
    (rtlUserProcessParameters a.pointerSize) (commandLine a.pointerSize)
    (processParameters a.pointerSize a.pebRead.bytes) a.parametersRead rfl
  cases hread : a.succeeds .readPeb with
  | false =>
    rw [Answers.outcome_cons_of_fails hread]
    rw [if_neg (by simpa [Answers.succeeds] using hread)] at hpeb
    exact hpeb.after (Yields.pure _)
  | true =>
    rw [Answers.outcome_cons_of_succeeds hread]
    rw [if_pos (by simpa [Answers.succeeds] using hread)] at hpeb
    apply hpeb.after
    cases hread' : a.succeeds .readParameters with
    | false =>
      rw [Answers.outcome_cons_of_fails hread']
      rw [if_neg (by simpa [Answers.succeeds] using hread')] at hparameters
      exact hparameters.after (Yields.pure _)
    | true =>
      rw [Answers.outcome_cons_of_succeeds hread']
      rw [if_pos (by simpa [Answers.succeeds] using hread')] at hparameters
      exact hparameters.after (readCommandLine_yields a)

theorem queryProcess_yields (a : Answers) :
    Yields a (queryProcess a) (a.outcome
      [.queryInformation, .pebAddress, .readPeb, .readParameters, .readCommandLine]) := by
  apply Yields.buffer
  apply Yields.after (Yields.use _)
  apply Yields.after (Yields.use _)
  by_cases hstatus : a.status = 0
  · rw [if_pos hstatus, Answers.outcome_cons_of_succeeds (by simpa [Answers.succeeds] using hstatus)]
    apply (Yields.newObject .pbi _).after
    by_cases hpeb : pebBaseAddress a.pointerSize a.pbi ≠ 0
    · rw [if_pos hpeb, Answers.outcome_cons_of_succeeds (by simpa [Answers.succeeds] using hpeb)]
      exact readParameters_yields a
    · rw [if_neg hpeb, Answers.outcome_cons_of_fails (by simpa [Answers.succeeds] using hpeb)]
      exact Yields.pure _
  · rw [if_neg hstatus, Answers.outcome_cons_of_fails (by simpa [Answers.succeeds] using hstatus)]
    exact Yields.pure _

/-- `Retrieve` returns the code of the first step that fails, unless memory runs out. -/
theorem retrieve_yields (a : Answers) : Yields a (retrieve a) (a.outcome Step.all) := by
  have hclose : (Guarded.release .hProcess : Code Unit).exit = .returned () := rfl
  unfold retrieve
  cases hopened : a.processOpened with
  | false =>
    rw [if_neg (by simp), Step.all, Answers.outcome_cons_of_fails (by exact hopened)]
    exact Yields.pure _
  | true =>
    rw [if_pos rfl, Step.all, Answers.outcome_cons_of_succeeds (by exact hopened)]
    apply Yields.after (.inl rfl)
    rw [Yields, Guarded.exit_finallyDo hclose]
    exact queryProcess_yields a

theorem Answers.succeeds_of_firstFailure {a : Answers} (h : a.firstFailure = none) (s : Step) :
    a.succeeds s = true := by
  have hall : s ∈ Step.all := by cases s <;> decide
  simpa using List.find?_eq_none.mp h s hall

theorem Answers.outcome_of_fails {a : Answers} {s : Step} (h : a.firstFailure = some s) :
    a.outcome Step.all = .returned (s.code, none) := by
  rw [Answers.firstFailure] at h
  rw [Answers.outcome, h]

theorem Answers.outcome_of_succeeds {a : Answers} (h : a.firstFailure = none) :
    a.outcome Step.all = match scan 0 (wchars a.memCL) with
      | some text => .returned (0, some text)
      | none => .died := by
  rw [Answers.firstFailure] at h
  rw [Answers.outcome, h]

/-- When memory does not run out, `Retrieve` is left as its steps say. -/
theorem retrieve_exit {a : Answers} (h : ∀ allocation, a.outOfMemory allocation = false) :
    (retrieve a).exit = a.outcome Step.all := by
  rcases retrieve_yields a with hexit | ⟨-, allocation, hout⟩
  · exact hexit
  · rw [h allocation] at hout
    cases hout

/-- What `Retrieve` has returned: the code of the first step that fails and no text, or 0 and a
text. -/
theorem retrieve_returned {a : Answers} {rc : Int} {text : Option (List UInt16)}
    (h : (retrieve a).exit = .returned (rc, text)) :
    (∃ s, a.firstFailure = some s ∧ rc = s.code ∧ text = none) ∨
      a.firstFailure = none ∧ rc = 0 ∧ ∃ t, text = some t := by
  have houtcome : a.outcome Step.all = .returned (rc, text) := by
    rcases retrieve_yields a with hexit | ⟨hexit, -⟩
    · rw [← hexit, h]
    · rw [h] at hexit
      cases hexit
  cases hfirst : a.firstFailure with
  | some s =>
    rw [Answers.outcome_of_fails hfirst] at houtcome
    have hpair : s.code = rc ∧ none = text := by simpa using houtcome
    exact .inl ⟨s, rfl, hpair.1.symm, hpair.2.symm⟩
  | none =>
    rw [Answers.outcome_of_succeeds hfirst] at houtcome
    cases hscan : scan 0 (wchars a.memCL) with
    | none => simp [hscan] at houtcome
    | some t =>
      have hpair : 0 = rc ∧ some t = text := by simpa [hscan] using houtcome
      exact .inr ⟨rfl, hpair.1.symm, t, hpair.2.symm⟩

/-- Nothing is thrown but that memory has run out. -/
theorem retrieve_threw {a : Answers} {e : Exn} (h : (retrieve a).exit = .threw e) :
    e = .outOfMemory := by
  rcases retrieve_yields a with hexit | ⟨hexit, -⟩
  · rw [h] at hexit
    cases hfirst : a.firstFailure with
    | some s =>
      rw [Answers.outcome_of_fails hfirst] at hexit
      cases hexit
    | none =>
      rw [Answers.outcome_of_succeeds hfirst] at hexit
      cases hscan : scan 0 (wchars a.memCL) <;> simp [hscan] at hexit
  · rw [h] at hexit
    simpa using hexit

theorem Step.code_injective {s s' : Step} (h : s.code = s'.code) : s = s' := by
  cases s <;> cases s' <;> first | rfl | exact absurd h (by decide)

theorem Step.code_ne_zero (s : Step) : s.code ≠ 0 := by
  cases s <;> decide

/-- `Retrieve` throws only when memory runs out, and dies only in a text without a terminator.
When it returns, its code tells which step was the first to fail, there is a text exactly when
none did, and `ErrorToString` has an entry for the code. -/
theorem retrieve_reports (a : Answers) :
    Yields a (retrieve a) (a.outcome Step.all) ∧
      ∀ rc text, (retrieve a).exit = .returned (rc, text) →
        (∀ s, rc = s.code ↔ a.firstFailure = some s) ∧ (rc = 0 ↔ a.firstFailure = none) ∧
          (text = none ↔ rc ≠ 0) ∧ (errorToString rc).isSome = true := by
  refine ⟨retrieve_yields a, fun rc text h => ?_⟩
  rcases retrieve_returned h with ⟨s, hfirst, rfl, rfl⟩ | ⟨hfirst, rfl, t, rfl⟩
  · refine ⟨fun s' => ?_, by simp [hfirst, s.code_ne_zero], by simp [s.code_ne_zero],
      by cases s <;> rfl⟩
    rw [hfirst]
    constructor
    · intro heq
      rw [Step.code_injective heq]
    · intro heq
      rw [Option.some.inj heq]
  · exact ⟨fun s => by simp [hfirst, Ne.symm s.code_ne_zero], by simp [hfirst], by simp, rfl⟩

end Doreto.Native
