import Doreto.Interop.Mirroring

/-!
# The Byte Stream of the Pipe

A client that reads the pipe in byte mode sees the bytes of all writes in a row. The
documentation of `WriteToPipe` promises a terminator behind every string, which is what such a
client would split at. The code fills a terminated copy and then writes the buffer without its
terminator, so the stream is the strings with nothing between them.

## Main results

- `bytesWritten_eq`: the stream of a run of calls.
- `packets_documentedStream`: the documented stream splits back into the strings.
- `splitsBack_and_unambiguous_iff`: when the written stream does.
-/

namespace Doreto.Interop

open Doreto.Lib

/-! ## A run of calls -/

/-- The memory that a caller passes to `WriteToPipe`: a string that is not empty, its terminator
and whatever lies behind it. -/
structure PacketBuffer where
  mem : Bytes
  terminated : 0 ∈ mem
  nonempty : cBody 0 mem ≠ []

namespace PacketBuffer

/-- The string at the pointer. -/
def str (b : PacketBuffer) : Bytes :=
  cBody 0 b.mem

theorem str_ne_nil (b : PacketBuffer) : b.str ≠ [] := b.nonempty

theorem not_mem_str (b : PacketBuffer) : 0 ∉ b.str :=
  not_mem_cBody 0 b.mem

/-- A string in memory with its terminator and nothing behind it. -/
def ofString (str : Bytes) (hne : str ≠ []) (hnul : 0 ∉ str) : PacketBuffer where
  mem := str ++ [0]
  terminated := by simp
  nonempty := by simpa [cBody_append_of_not_mem hnul] using hne

@[simp] theorem str_ofString (str : Bytes) (hne : str ≠ []) (hnul : 0 ∉ str) :
    (ofString str hne hnul).str = str := by
  simp [ofString, PacketBuffer.str, cBody_append_of_not_mem hnul]

end PacketBuffer

/-- `WriteToPipe` for one buffer after another. `WriteFile` accepts the whole string each time. -/
def writePackets (pipe : Handle) : List PacketBuffer → Win Unit
  | [] => return
  | b :: bs => do
      writeToPipe (.ok b.str.length) pipe b.mem
      writePackets pipe bs

/-- The bytes that the run puts into the pipe, in order. -/
def bytesWritten (pipe : Handle) (c : Ctx) (bs : List PacketBuffer) : Option Bytes :=
  ((writePackets pipe bs).run { c with calls := [] }).map
    fun (_, c') => (pipeWrites c'.calls).flatten

/-- The strings of the buffers. -/
def strings (bs : List PacketBuffer) : List Bytes :=
  bs.map PacketBuffer.str

/-- The stream as the documentation of `WriteToPipe` describes it. -/
def documentedStream (bs : List PacketBuffer) : Bytes :=
  (strings bs).flatMap (· ++ [0])

theorem strings_ne_nil (bs : List PacketBuffer) : ∀ str ∈ strings bs, str ≠ [] ∧ 0 ∉ str := by
  intro str hstr
  obtain ⟨b, -, rfl⟩ := List.mem_map.mp hstr
  exact ⟨b.str_ne_nil, b.not_mem_str⟩

/-- Every sequence of packets is the sequence of the strings of some buffers. -/
theorem exists_strings {strs : List Bytes} (h : ∀ str ∈ strs, str ≠ [] ∧ 0 ∉ str) :
    ∃ bs, strings bs = strs := by
  induction strs with
  | nil => exact ⟨[], rfl⟩
  | cons str strs ih =>
    obtain ⟨hne, hnul⟩ := h str (by simp)
    obtain ⟨bs, hbs⟩ := ih (fun s hs => h s (by simp [hs]))
    exact ⟨.ofString str hne hnul :: bs, by simp [strings, ← hbs]⟩

/-- One call adds one write, and a run adds one write for each string. -/
theorem run_writePackets (pipe : Handle) (bs : List PacketBuffer) (c : Ctx) :
    (writePackets pipe bs).run c = some ((), { c with
      calls := c.calls ++ (strings bs).map (.writeFile pipe) }) := by
  induction bs generalizing c with
  | nil => simp [writePackets, strings]
  | cons b bs ih =>
    have hcall := run_writeToPipe (.ok b.str.length) pipe b.terminated c
    simp only [writePackets, StateT.run_bind, hcall, Option.bind_eq_bind, Option.bind_some, ih]
    simp [strings, PacketBuffer.str, lastErrorAfter, failureCode]

theorem pipeWrites_map_writeFile (pipe : Handle) (strs : List Bytes) :
    pipeWrites (strs.map (.writeFile pipe)) = strs := by
  induction strs with
  | nil => rfl
  | cons str strs ih => simp [pipeWrites]

/-- The run returns, and the stream is the strings with nothing between them. -/
theorem bytesWritten_eq (pipe : Handle) (c : Ctx) (bs : List PacketBuffer) :
    bytesWritten pipe c bs = some (strings bs).flatten := by
  simp [bytesWritten, run_writePackets, pipeWrites_map_writeFile]

/-- The documented stream splits back into the strings. -/
theorem packets_documentedStream (bs : List PacketBuffer) :
    packets 0 (documentedStream bs) = strings bs :=
  packets_flatMap_append_nul (strings_ne_nil bs)

/-! ## What a client can read off the stream -/

/-- The stream split at the terminators is the sequence of strings. -/
def SplitsBack (pipe : Handle) (c : Ctx) (bs : List PacketBuffer) : Prop :=
  (bytesWritten pipe c bs).map (packets 0) = some (strings bs)

/-- No other sequence of strings puts the same bytes into the pipe. -/
def Unambiguous (pipe : Handle) (c : Ctx) (bs : List PacketBuffer) : Prop :=
  ∀ bs', bytesWritten pipe c bs' = bytesWritten pipe c bs → strings bs' = strings bs

/-- The stream splits back exactly when it carries at most one string, and it could not have come
from other strings exactly when it has at most one byte. -/
theorem splitsBack_and_unambiguous_iff (pipe : Handle) (c : Ctx) (bs : List PacketBuffer) :
    (SplitsBack pipe c bs ↔ (strings bs).length ≤ 1) ∧
      (Unambiguous pipe c bs ↔ (strings bs).flatten.length ≤ 1) := by
  constructor
  · simp only [SplitsBack, bytesWritten_eq, Option.map_some, Option.some.injEq]
    exact packets_flatten_eq_iff (strings_ne_nil bs)
  · rw [← flatten_determines_iff (fun str hstr => (strings_ne_nil bs str hstr).1)]
    simp only [Unambiguous, bytesWritten_eq, Option.some.injEq]
    constructor
    · intro hall strs hne hflat
      -- the bytes are those of the stream, so these strings can stand in memory as well
      have hstrs : ∀ str ∈ strs, str ≠ [] ∧ 0 ∉ str := by
        intro str hstr
        refine ⟨hne str hstr, fun hnul => ?_⟩
        have hmem : (0 : UInt8) ∈ (strings bs).flatten :=
          hflat ▸ List.mem_flatten_of_mem hstr hnul
        obtain ⟨str', hstr', hnul'⟩ := List.mem_flatten.mp hmem
        exact (strings_ne_nil bs str' hstr').2 hnul'
      obtain ⟨bs', rfl⟩ := exists_strings hstrs
      exact hall bs' hflat
    · intro hall bs' hflat
      exact hall (strings bs') (fun str hstr => (strings_ne_nil bs' str hstr).1) hflat

/-- The strings `ab` and `c`. -/
def abThenC : List PacketBuffer :=
  [⟨[97, 98, 0], by decide, by decide⟩, ⟨[99, 0], by decide, by decide⟩]

/-- The strings `a` and `bc`. -/
def aThenBc : List PacketBuffer :=
  [⟨[97, 0], by decide, by decide⟩, ⟨[98, 99, 0], by decide, by decide⟩]

/-- Two packets come out as one, and two sequences of packets put the same bytes into the pipe. -/
theorem abThenC_not_splitsBack :
    let c : Ctx := ⟨.init, 0, []⟩
    bytesWritten .created c abThenC = some [97, 98, 99] ∧ ¬ SplitsBack .created c abThenC ∧
      bytesWritten .created c aThenBc = bytesWritten .created c abThenC ∧
      strings aThenBc ≠ strings abThenC := by
  unfold SplitsBack
  decide +kernel

end Doreto.Interop
