import Doreto.Native.ProcessCommandLine

/-!
# The Command Line of a Loaded Process

The loader puts the command line of a process into its memory: the environment block points to the
parameters, and the parameters point to a buffer with the text and its terminator. Here such a
process is described by what lies where, and `Retrieve` is the way back from the memory to the text.

The terminator is looked for in a buffer of the caller that is as long as the text claims to be.
Nothing in the caller puts one there, so a buffer without one is read over its end.

## Main results

- `retrieve_loaded_iff`: within its buffer, `Retrieve` reads the text of a loaded process and
  nothing else.
- `own_heap_unread_iff`: what the caller has behind the buffer plays no role exactly when a step
  fails or the terminator is among the bytes that were read.
-/

namespace Doreto.Native

open Doreto.Lib

/-! ## Loaded processes -/

/-- Where the loader has put the command line of a process: two blocks of which each points to the
next, and the text in a buffer that has room for it and its terminator. -/
structure LoadedProcess (w : PointerSize) where
  pebAddress : Nat
  parametersAddress : Nat
  buffer : Nat
  maximumLength : Nat
  text : List UInt16
  pebAddress_ne : pebAddress ≠ 0
  pebAddress_lt : pebAddress < 256 ^ w.bytes
  parametersAddress_lt : parametersAddress < 256 ^ w.bytes
  buffer_lt : buffer < 256 ^ w.bytes
  maximumLength_lt : maximumLength < 256 ^ 2
  text_nul : 0 ∉ text
  room : 2 * (text.length + 1) ≤ maximumLength

/-- The system lets the process be opened, and its memory holds the blocks. What the other fields
hold, and what lies between them, is left open. -/
structure Shows (a : Answers) (p : LoadedProcess a.pointerSize) : Prop where
  opened : a.processOpened = true
  queried : a.status = 0
  pbi : HoldsField (processBasicInformation a.pointerSize) 1
    (leBytes a.pointerSize.bytes p.pebAddress) a.pbi
  peb : ∃ bytes,
    a.readProcessMemory .peb p.pebAddress (structSize (peb a.pointerSize)) = ⟨true, bytes⟩ ∧
      HoldsField (peb a.pointerSize) 1 (leBytes a.pointerSize.bytes p.parametersAddress) bytes
  parameters : ∃ bytes commandLine,
    a.readProcessMemory .rupp p.parametersAddress
        (structSize (rtlUserProcessParameters a.pointerSize)) = ⟨true, bytes⟩ ∧
      HoldsField (rtlUserProcessParameters a.pointerSize) 3 commandLine bytes ∧
      HoldsField (unicodeString a.pointerSize) 1 (leBytes 2 p.maximumLength) commandLine ∧
      HoldsField (unicodeString a.pointerSize) 2 (leBytes a.pointerSize.bytes p.buffer) commandLine
  text : ∃ rest,
    a.readProcessMemory .commandLine p.buffer p.maximumLength =
      ⟨true, wbytes (p.text ++ [0]) ++ rest⟩

namespace Shows

variable {a : Answers} {p : LoadedProcess a.pointerSize}

theorem pebBaseAddress_eq (h : Shows a p) : pebBaseAddress a.pointerSize a.pbi = p.pebAddress := by
  rw [pebBaseAddress, h.pbi.field_eq]
  exact leNat_leBytes p.pebAddress_lt

theorem pebRead_eq (h : Shows a p) :
    a.pebRead.succeeded = true ∧ a.pebRead.bytes.length = structSize (Native.peb a.pointerSize) ∧
      processParameters a.pointerSize a.pebRead.bytes = p.parametersAddress := by
  obtain ⟨bytes, hread, hfield⟩ := h.peb
  have hpeb : a.pebRead = ⟨true, bytes⟩ := by
    rw [Answers.pebRead, h.pebBaseAddress_eq, hread]
  rw [hpeb]
  refine ⟨rfl, hfield.length_eq, ?_⟩
  rw [processParameters, hfield.field_eq]
  exact leNat_leBytes p.parametersAddress_lt

theorem parametersRead_eq (h : Shows a p) :
    a.parametersRead.succeeded = true ∧
      a.parametersRead.bytes.length = structSize (rtlUserProcessParameters a.pointerSize) ∧
      a.text = ⟨p.maximumLength, p.buffer⟩ := by
  obtain ⟨-, -, hpeb⟩ := h.pebRead_eq
  obtain ⟨bytes, commandLine, hread, hfield, hmax, hbuffer⟩ := h.parameters
  have hparameters : a.parametersRead = ⟨true, bytes⟩ := by
    rw [Answers.parametersRead, hpeb, hread]
  rw [Answers.text, hparameters]
  refine ⟨rfl, hfield.length_eq, ?_⟩
  rw [Native.commandLine, hfield.field_eq, hmax.field_eq, hbuffer.field_eq,
    leNat_leBytes p.maximumLength_lt, leNat_leBytes p.buffer_lt]

theorem textRead_eq (h : Shows a p) :
    ∃ rest, a.textRead = ⟨true, wbytes (p.text ++ [0]) ++ rest⟩ := by
  obtain ⟨-, -, htext⟩ := h.parametersRead_eq
  obtain ⟨rest, hread⟩ := h.text
  exact ⟨rest, by rw [Answers.textRead, htext, hread]⟩

/-- No step fails for a loaded process. -/
theorem firstFailure_eq (h : Shows a p) : a.firstFailure = none := by
  obtain ⟨hpeb, hpebLength, -⟩ := h.pebRead_eq
  obtain ⟨hparameters, hparametersLength, -⟩ := h.parametersRead_eq
  obtain ⟨rest, htext⟩ := h.textRead_eq
  simp [Answers.firstFailure, Step.all, Answers.succeeds, h.opened, h.queried,
    h.pebBaseAddress_eq, p.pebAddress_ne, hpeb, hpebLength, hparameters, hparametersLength, htext]

end Shows

/-! ## Reading the text -/

theorem ReadAnswer.eq_of_succeeded {answer : ReadAnswer} (h : answer.succeeded = true) :
    answer = ⟨true, answer.bytes⟩ := by
  rw [← h]

/-- A terminator among the bytes that were read ends the text, whatever lies behind them. -/
theorem scan_memCL {a : Answers} (h : 0 ∈ wchars a.textRead.bytes) :
    scan 0 (wchars a.memCL) = some (cBody 0 (wchars a.textRead.bytes)) := by
  obtain ⟨more, hmore⟩ := wchars_append a.textRead.bytes (a.heap.drop a.textRead.bytes.length)
  rw [Answers.memCL, store, hmore, scan_of_mem (by simp [h]), cBody_append_of_mem h]

/-- The text of a loaded process is read back, and it ends among the bytes that were read. -/
theorem Shows.text_eq {a : Answers} {p : LoadedProcess a.pointerSize} (h : Shows a p) :
    0 ∈ wchars a.textRead.bytes ∧ cBody 0 (wchars a.textRead.bytes) = p.text := by
  obtain ⟨rest, htext⟩ := h.textRead_eq
  rw [htext, wchars_wbytes_append, List.append_assoc, cBody_append_of_not_mem p.text_nul]
  simp

/-- When every step succeeds and the text ends among the bytes that were read, the process is one
that is loaded with the text. -/
theorem exists_shows {a : Answers}
    (hpbi : a.pbi.length = structSize (processBasicInformation a.pointerSize))
    (hread : ∀ s addr n, (a.readProcessMemory s addr n).succeeded = true →
      (a.readProcessMemory s addr n).bytes.length = n)
    (hfirst : a.firstFailure = none) (hnul : 0 ∈ wchars a.textRead.bytes) :
    ∃ p : LoadedProcess a.pointerSize,
      Shows a p ∧ p.text = cBody 0 (wchars a.textRead.bytes) := by
  have hsucceeds := Answers.succeeds_of_firstFailure hfirst
  have hpeb : a.pebRead.succeeded = true ∧
      a.pebRead.bytes.length = structSize (peb a.pointerSize) := by
    simpa [Answers.succeeds] using hsucceeds .readPeb
  have hparameters : a.parametersRead.succeeded = true ∧
      a.parametersRead.bytes.length = structSize (rtlUserProcessParameters a.pointerSize) := by
    simpa [Answers.succeeds] using hsucceeds .readParameters
  have htext : a.textRead.succeeded = true := hsucceeds .readCommandLine
  -- the fields that the pointers were read from
  obtain ⟨hpebField, hpebLt⟩ := holdsField_leNat (i := 1) (s := intPtr a.pointerSize) rfl hpbi
  obtain ⟨hparametersField, hparametersLt⟩ :=
    holdsField_leNat (i := 1) (s := intPtr a.pointerSize) rfl hpeb.2
  have hstring : (field (rtlUserProcessParameters a.pointerSize) 3 a.parametersRead.bytes).length =
      structSize (unicodeString a.pointerSize) :=
    length_field (s := .struct (unicodeString a.pointerSize)) rfl hparameters.2
  obtain ⟨hmaxField, hmaxLt⟩ := holdsField_leNat (i := 1) (s := ushort) rfl hstring
  obtain ⟨hbufferField, hbufferLt⟩ :=
    holdsField_leNat (i := 2) (s := intPtr a.pointerSize) rfl hstring
  -- the text and its terminator, and what is behind them in the buffer
  obtain ⟨tail, htail⟩ := eq_cBody_append hnul
  obtain ⟨half, -, hhalf⟩ := exists_wbytes a.textRead.bytes
  have hlength : a.textRead.bytes.length = a.text.maximumLength := hread _ _ _ htext
  have hroom : 2 * ((cBody 0 (wchars a.textRead.bytes)).length + 1) ≤ a.text.maximumLength := by
    have hchars := length_wchars a.textRead.bytes
    have hsplit := congrArg List.length htail
    rw [List.length_append, List.length_cons] at hsplit
    omega
  refine ⟨{
    pebAddress := pebBaseAddress a.pointerSize a.pbi
    parametersAddress := processParameters a.pointerSize a.pebRead.bytes
    buffer := a.text.buffer
    maximumLength := a.text.maximumLength
    text := cBody 0 (wchars a.textRead.bytes)
    pebAddress_ne := by simpa [Answers.succeeds] using hsucceeds .pebAddress
    pebAddress_lt := hpebLt
    parametersAddress_lt := hparametersLt
    buffer_lt := hbufferLt
    maximumLength_lt := hmaxLt
    text_nul := not_mem_cBody 0 _
    room := hroom }, ?_, rfl⟩
  constructor
  case opened => exact hsucceeds .openProcess
  case queried => simpa [Answers.succeeds] using hsucceeds .queryInformation
  case pbi => exact hpebField
  case peb => exact ⟨a.pebRead.bytes, ReadAnswer.eq_of_succeeded hpeb.1, hparametersField⟩
  case parameters =>
    have hthree : 3 < (rtlUserProcessParameters a.pointerSize).length := by
      show 3 < 4
      omega
    have hbytes := (holdsField_iff hthree).mpr ⟨hparameters.2, rfl⟩
    exact ⟨a.parametersRead.bytes, _, ReadAnswer.eq_of_succeeded hparameters.1, hbytes, hmaxField,
      hbufferField⟩
  case text =>
    refine ⟨wbytes tail ++ half, ?_⟩
    have hwhole : wbytes (cBody 0 (wchars a.textRead.bytes) ++ [0]) ++ (wbytes tail ++ half) =
        a.textRead.bytes := by
      calc wbytes (cBody 0 (wchars a.textRead.bytes) ++ [0]) ++ (wbytes tail ++ half)
          = wbytes (cBody 0 (wchars a.textRead.bytes) ++ 0 :: tail) ++ half := by
            rw [← List.append_assoc, ← wbytes_append]
            simp
        _ = wbytes (wchars a.textRead.bytes) ++ half := by rw [← htail]
        _ = a.textRead.bytes := hhalf.symm
    show a.textRead = ⟨true, wbytes (cBody 0 (wchars a.textRead.bytes) ++ [0]) ++ _⟩
    rw [hwhole]
    exact ReadAnswer.eq_of_succeeded htext

/-- `Retrieve` reads a text from within its buffer exactly when the process is one that is loaded
with that text. -/
theorem retrieve_loaded_iff (a : Answers) (text : List UInt16)
    (hmemory : ∀ allocation, a.outOfMemory allocation = false)
    (hpbi : a.pbi.length = structSize (processBasicInformation a.pointerSize))
    (hread : ∀ s addr n, (a.readProcessMemory s addr n).succeeded = true →
      (a.readProcessMemory s addr n).bytes.length = n) :
    ((retrieve a).exit = .returned (0, some text) ∧ 0 ∈ wchars a.textRead.bytes) ↔
      ∃ p : LoadedProcess a.pointerSize, Shows a p ∧ p.text = text := by
  rw [retrieve_exit hmemory]
  constructor
  · rintro ⟨hreturned, hnul⟩
    have hfirst : a.firstFailure = none := by
      cases h : a.firstFailure with
      | none => rfl
      | some s =>
        rw [Answers.outcome_of_fails h] at hreturned
        simp at hreturned
    rw [Answers.outcome_of_succeeds hfirst, scan_memCL hnul] at hreturned
    have htext : cBody 0 (wchars a.textRead.bytes) = text := by simpa using hreturned
    exact htext ▸ exists_shows hpbi hread hfirst hnul
  · rintro ⟨p, hshows, rfl⟩
    obtain ⟨hnul, htext⟩ := hshows.text_eq
    refine ⟨?_, hnul⟩
    rw [Answers.outcome_of_succeeds hshows.firstFailure_eq, scan_memCL hnul, htext]

/-- Reads of a process that has these blocks mapped at these addresses: a read outside of a block
fails. -/
def mappedRead (blocks : List (Nat × List UInt8)) (addr n : Nat) : ReadAnswer :=
  match blocks.find? fun block => block.1 ≤ addr ∧ addr + n ≤ block.1 + block.2.length with
  | some block => ⟨true, slice block.2 (addr - block.1) (addr - block.1 + n)⟩
  | none => ⟨false, []⟩

theorem length_mappedRead {blocks : List (Nat × List UInt8)} {addr n : Nat}
    (h : (mappedRead blocks addr n).succeeded = true) :
    (mappedRead blocks addr n).bytes.length = n := by
  unfold mappedRead at h ⊢
  split at h
  case h_2 => cases h
  case h_1 block hfind =>
    have hin : block.1 ≤ addr ∧ addr + n ≤ block.1 + block.2.length := by
      simpa using List.find?_some hfind
    show (slice block.2 (addr - block.1) (addr - block.1 + n)).length = n
    rw [length_slice (by omega)]
    omega

/-- The environment block of a 32-bit process that was started as `a`. -/
def startedPeb : List UInt8 :=
  encode (fun _ => 0) (peb .four) [List.replicate 16 0, leBytes 4 64]

/-- The command line among its parameters, in a buffer of some length. -/
def startedCommandLine (maximumLength : Nat) : List UInt8 :=
  encode (fun _ => 0) (unicodeString .four) [leBytes 2 2, leBytes 2 maximumLength, leBytes 4 160]

/-- Its parameters. -/
def startedParameters (maximumLength : Nat) : List UInt8 :=
  encode (fun _ => 0) (rtlUserProcessParameters .four)
    [List.replicate 16 0, List.replicate 40 0, List.replicate 8 0,
      startedCommandLine maximumLength]

/-- The answers about that process. -/
def answersAbout (maximumLength : Nat) : Answers where
  pointerSize := .four
  outOfMemory _ := false
  processOpened := true
  status := 0
  pbi := encode (fun _ => 0) (processBasicInformation .four)
    [List.replicate 4 0, leBytes 4 16, List.replicate 8 0, leBytes 4 7, List.replicate 4 0]
  readProcessMemory _ := mappedRead
    [(16, startedPeb), (64, startedParameters maximumLength), (160, wbytes [97, 0])]
  heap := []

/-- The answers about it, with room for the terminator. -/
def startedAnswers : Answers := answersAbout 4

/-- That process. -/
def startedProcess : LoadedProcess .four where
  pebAddress := 16
  parametersAddress := 64
  buffer := 160
  maximumLength := 4
  text := [97]
  pebAddress_ne := by decide
  pebAddress_lt := by decide
  parametersAddress_lt := by decide
  buffer_lt := by decide
  maximumLength_lt := by decide
  text_nul := by decide
  room := by decide

theorem startedAnswers_shows : Shows startedAnswers startedProcess where
  opened := rfl
  queried := rfl
  pbi := holdsField_encode (by rfl) (by rfl) _
  peb := ⟨startedPeb, rfl, holdsField_encode (by rfl) (by rfl) _⟩
  parameters := ⟨startedParameters 4, startedCommandLine 4, rfl,
    holdsField_encode (by rfl) (by rfl) _, holdsField_encode (by rfl) (by rfl) _,
    holdsField_encode (by rfl) (by rfl) _⟩
  text := ⟨[], rfl⟩

theorem retrieve_started :
    (retrieve startedAnswers).exit = .returned (0, some [97]) ∧
      0 ∈ wchars startedAnswers.textRead.bytes :=
  (retrieve_loaded_iff startedAnswers [97] (fun _ => rfl) rfl fun _ _ _ => length_mappedRead).mpr
    ⟨startedProcess, startedAnswers_shows, rfl⟩

/-! ## Reading over the end of the buffer -/

/-- Three zero bytes end any text, also one that has half a character before them. -/
theorem nul_mem_wchars_append (bytes : List UInt8) : 0 ∈ wchars (bytes ++ [0, 0, 0]) := by
  obtain ⟨half, hhalf, hbytes⟩ := exists_wbytes bytes
  rw [hbytes, List.append_assoc, wchars_wbytes_append]
  apply List.mem_append_right
  match half with
  | [] => decide
  | [b] => exact List.mem_cons_of_mem _ List.mem_cons_self
  | b :: b' :: rest =>
    simp only [List.length_cons] at hhalf
    omega

/-- What is in `memCL` when the caller's heap is `heap`. -/
theorem memCL_with (a : Answers) (heap : List UInt8) :
    Answers.memCL { a with heap := heap } = store a.textRead.bytes heap := rfl

/-- A heap that ends right behind the bytes that were read adds no terminator to them. -/
theorem memCL_with_nil (a : Answers) : Answers.memCL { a with heap := [] } = a.textRead.bytes := by
  rw [memCL_with]
  simp [store]

/-- A heap that goes on with zeros does. -/
theorem exists_nul_mem_memCL (a : Answers) :
    ∃ heap, 0 ∈ wchars (Answers.memCL { a with heap := heap }) := by
  refine ⟨List.replicate a.textRead.bytes.length 0 ++ [0, 0, 0], ?_⟩
  have hbehind : Answers.memCL { a with
      heap := List.replicate a.textRead.bytes.length 0 ++ [0, 0, 0] } =
        a.textRead.bytes ++ [0, 0, 0] := by
    rw [memCL_with]
    simp [store]
  rw [hbehind]
  exact nul_mem_wchars_append _

/-- A text without a terminator among the characters that were read starts with all of them. -/
theorem isPrefix_cBody_memCL {a : Answers} (hnul : 0 ∉ wchars a.textRead.bytes) :
    wchars a.textRead.bytes <+: cBody 0 (wchars a.memCL) := by
  obtain ⟨more, hmore⟩ := wchars_append a.textRead.bytes (a.heap.drop a.textRead.bytes.length)
  rw [Answers.memCL, store, hmore, cBody_append_of_not_mem hnul]
  exact List.prefix_append _ _

/-- A text without a terminator among the bytes that were read goes on in the memory of the caller:
where that holds a terminator the text runs on to it, and where it holds none the caller dies. -/
theorem read_over_end {a : Answers} (hmemory : ∀ allocation, a.outOfMemory allocation = false)
    (hfirst : a.firstFailure = none) (hnul : 0 ∉ wchars a.textRead.bytes) (heap : List UInt8) :
    (0 ∈ wchars (Answers.memCL { a with heap := heap }) →
        ∃ text, (retrieve { a with heap := heap }).exit = .returned (0, some text) ∧
          wchars a.textRead.bytes <+: text) ∧
      (0 ∉ wchars (Answers.memCL { a with heap := heap }) →
        (retrieve { a with heap := heap }).exit = .died) := by
  have hexit : (retrieve { a with heap := heap }).exit =
      Answers.outcome { a with heap := heap } Step.all := retrieve_exit hmemory
  -- the buffer of the caller comes after the last step
  have hsteps : Answers.firstFailure { a with heap := heap } = none := hfirst
  rw [hexit, Answers.outcome_of_succeeds hsteps]
  constructor
  · intro hmem
    rw [scan_of_mem hmem]
    exact ⟨_, rfl, isPrefix_cBody_memCL (a := { a with heap := heap }) hnul⟩
  · intro hmem
    rw [scan_of_not_mem hmem]

/-- What the caller has behind the bytes of the text plays no role exactly when a step fails before
the text is there, or the text ends among the bytes that were read. Otherwise the caller goes on
reading its own memory: up to a terminator there, which makes what lies before it a part of the
text, or over the end of what is mapped. -/
theorem own_heap_unread_iff (a : Answers)
    (hmemory : ∀ allocation, a.outOfMemory allocation = false) :
    ((∀ heap, (retrieve { a with heap := heap }).exit = (retrieve a).exit) ↔
        a.firstFailure ≠ none ∨ 0 ∈ wchars a.textRead.bytes) ∧
      (a.firstFailure = none → 0 ∉ wchars a.textRead.bytes → ∀ heap,
        (0 ∈ wchars (Answers.memCL { a with heap := heap }) →
          ∃ text, (retrieve { a with heap := heap }).exit = .returned (0, some text) ∧
            wchars a.textRead.bytes <+: text) ∧
        (0 ∉ wchars (Answers.memCL { a with heap := heap }) →
          (retrieve { a with heap := heap }).exit = .died)) := by
  refine ⟨⟨fun hsame => ?_, fun h heap => ?_⟩, read_over_end hmemory⟩
  · by_contra h
    obtain ⟨hfirst, hnul⟩ := not_or.mp h
    have hover := read_over_end hmemory (not_not.mp hfirst) hnul
    -- one heap ends the caller, and another one does not
    have hdied := (hover []).2 (by rwa [memCL_with_nil])
    obtain ⟨heap, hmem⟩ := exists_nul_mem_memCL a
    obtain ⟨text, hreturned, -⟩ := (hover heap).1 hmem
    rw [hsame] at hdied hreturned
    rw [hdied] at hreturned
    cases hreturned
  · have hexit : (retrieve { a with heap := heap }).exit =
        Answers.outcome { a with heap := heap } Step.all := retrieve_exit hmemory
    -- the buffer of the caller comes after the last step
    have hsteps : Answers.firstFailure { a with heap := heap } = a.firstFailure := rfl
    rw [hexit, retrieve_exit hmemory]
    cases hfirst : a.firstFailure with
    | some s =>
      rw [Answers.outcome_of_fails (hsteps.trans hfirst), Answers.outcome_of_fails hfirst]
    | none =>
      have hnul : 0 ∈ wchars a.textRead.bytes := h.resolve_left (by simp [hfirst])
      have hscan : scan 0 (wchars (Answers.memCL { a with heap := heap })) =
          some (cBody 0 (wchars a.textRead.bytes)) :=
        scan_memCL (a := { a with heap := heap }) hnul
      rw [Answers.outcome_of_succeeds (hsteps.trans hfirst), Answers.outcome_of_succeeds hfirst,
        hscan, scan_memCL hnul]

/-- The same process with a maximum length that leaves the terminator out. -/
def cutAnswers : Answers := answersAbout 2

/-- That text depends on the heap: with one that goes on with a letter and a terminator it is there,
and with one that is not mapped any further the caller dies. -/
theorem cut_text_read_over :
    ¬ (∀ heap, (retrieve { cutAnswers with heap := heap }).exit = (retrieve cutAnswers).exit) ∧
      (∃ text, (retrieve { cutAnswers with heap := [7, 0, 98, 0, 0, 0] }).exit =
        .returned (0, some text) ∧ [97] <+: text) ∧
      (retrieve { cutAnswers with heap := [] }).exit = .died := by
  obtain ⟨hiff, hover⟩ := own_heap_unread_iff cutAnswers fun _ => rfl
  have hfirst : cutAnswers.firstFailure = none := by decide
  have hnul : 0 ∉ wchars cutAnswers.textRead.bytes := by decide
  exact ⟨fun hsame => (hiff.mp hsame).elim (fun h => h hfirst) hnul,
    (hover hfirst hnul _).1 (by decide), (hover hfirst hnul _).2 (by decide)⟩

end Doreto.Native
