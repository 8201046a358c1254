import Doreto.Interop.Hooks

/-!
# What the Hooks Mirror to the Pipe

While a pipe client is connected, `MySend` and `MyRecv` copy traffic to the pipe. Both treat the
game's buffer as one C string: the string at the buffer before the real call decides whether
anything is written, and the string at the buffer after it is what is written. The length and the
result of the real call play no part.

## Main results

- `pipeWrites_hooked`: the writes of a call, as a function of the memory at its pointer.
- `mirrorRun_iff`: when a run mirrors exactly the calls that transferred ASCII bytes.
- `mirrorsExactly_iff`: when the bytes written carry the packets that were transferred.
-/

namespace Doreto.Interop

open Doreto.Lib

/-! ## Transfers -/

namespace GameCall

/-- The number of bytes the real call transferred. -/
def transferCount : GameCall → Nat
  | .send _ real _ _ _ _ => real.transferred
  | .recv _ real _ _ _ _ => real.transferred
  | .connect .. => 0

/-- The bytes the real call transferred: those at the start of the buffer after it. -/
def transferred : GameCall → Bytes
  | .send _ real _ buf _ _ => buf.take real.transferred
  | .recv _ real _ buf _ _ => (store real.stored buf).take real.transferred
  | .connect .. => []

/-- The memory at the caller's pointer before the real call. -/
def memBefore : GameCall → Bytes
  | .send _ _ _ buf _ _ => buf
  | .recv _ _ _ buf _ _ => buf
  | .connect _ _ _ name _ => name

/-- The memory at the caller's pointer after the real call. -/
def memAfter : GameCall → Bytes
  | .send _ _ _ buf _ _ => buf
  | .recv _ real _ buf _ _ => store real.stored buf
  | .connect _ _ _ name _ => name

/-- The call is one of `send` and `recv`, the calls that are mirrored. -/
def isTransfer : GameCall → Bool
  | .send .. => true
  | .recv .. => true
  | .connect .. => false

end GameCall

/-- The bytes of the pipe writes among some calls. -/
def pipeWrites (calls : List ApiCall) : List Bytes :=
  calls.filterMap fun
    | .writeFile _ bytes => some bytes
    | _ => none

/-- The call is let through to the pipe: the string at the buffer before it is ASCII. -/
def GameCall.letThrough (clientConnected : Bool) (call : GameCall) : Bool :=
  call.isTransfer && mirrors clientConnected (cBody 0 call.memBefore)

/-- What the call writes to the pipe: the string at the buffer after it. -/
def GameCall.mirrored (clientConnected : Bool) (call : GameCall) : List Bytes :=
  if call.letThrough clientConnected then [cBody 0 call.memAfter] else []

theorem pipeWrites_mirrorCalls (g : Globals) (str buf : Bytes) :
    pipeWrites (mirrorCalls g str buf) =
      if mirrors g.gIsClientConnected str then [cBody 0 buf] else [] := by
  unfold mirrorCalls
  split <;> rfl

theorem pipeWrites_cons_of_not_writeFile {a : ApiCall} (h : ∀ pipe bytes, a ≠ .writeFile pipe bytes)
    (calls : List ApiCall) : pipeWrites (a :: calls) = pipeWrites calls := by
  cases a with
  | writeFile pipe bytes => exact absurd rfl (h pipe bytes)
  | _ => rfl

/-- The writes of a hooked call that reads terminated strings only. -/
theorem pipeWrites_hooked {call : GameCall} {c : Ctx}
    (h : call.Terminated c.globals.gIsClientConnected) :
    ∃ out c', call.hooked.run { c with calls := [] } = some (out, c') ∧
      pipeWrites c'.calls = call.mirrored c.globals.gIsClientConnected := by
  cases call with
  | send a real s buf len flags =>
    have hbuf : 0 ∈ buf := h
    simp [GameCall.hooked, run_mySend, hbuf, pipeWrites_cons_of_not_writeFile,
      pipeWrites_mirrorCalls, GameCall.mirrored, GameCall.letThrough, GameCall.isTransfer,
      GameCall.memBefore, GameCall.memAfter]
  | recv a real s buf len flags =>
    have hterm : recvTerminated c.globals.gIsClientConnected real buf := h
    simp [GameCall.hooked, run_myRecv, hterm, pipeWrites_cons_of_not_writeFile,
      pipeWrites_mirrorCalls, GameCall.mirrored, GameCall.letThrough, GameCall.isTransfer,
      GameCall.memBefore, GameCall.memAfter]
  | connect a real s name namelen =>
    simp [GameCall.hooked, run_myConnect, pipeWrites, GameCall.mirrored, GameCall.letThrough,
      GameCall.isTransfer]

/-- The transferred bytes are what the buffer starts with after the call. -/
theorem transferred_append (call : GameCall) :
    call.transferred ++ call.memAfter.drop call.transferCount = call.memAfter := by
  cases call <;> simp [GameCall.transferred, GameCall.memAfter, GameCall.transferCount]

/-! ## Which calls are mirrored -/

/-- The context of a call of the game while a pipe client is connected. -/
def withClient (c : Ctx) : Ctx :=
  { c with globals := { c.globals with gIsClientConnected := true }, calls := [] }

/-- The real call transferred bytes, and all of them are ASCII. -/
def GameCall.asciiTransfer (call : GameCall) : Bool :=
  decide (0 < call.transferCount) && containsOnlyASCII call.transferred

/-- The call writes to the pipe exactly when it transferred ASCII bytes, and what it writes is
ASCII. -/
def MirrorsAscii (c : Ctx) (call : GameCall) : Prop :=
  ∃ out c', call.hooked.run (withClient c) = some (out, c') ∧
    (pipeWrites c'.calls ≠ [] ↔ call.asciiTransfer = true) ∧
    ∀ bytes ∈ pipeWrites c'.calls, containsOnlyASCII bytes = true

/-- Every call of a run with a connected client mirrors as `MirrorsAscii` says. -/
def MirrorRun : Ctx → List GameCall → Prop
  | _, [] => True
  | c, call :: calls =>
      MirrorsAscii c call ∧
      ∀ out c', call.hooked.run (withClient c) = some (out, c') → MirrorRun c' calls

/-- The string the hook looks at before the real call agrees with the bytes of the real call. -/
structure MirrorAgrees (call : GameCall) : Prop where
  terminated : call.Terminated true
  /-- The old string is ASCII exactly when the call transfers ASCII bytes. -/
  decision : call.letThrough true = true ↔ call.asciiTransfer = true
  /-- The string to be written ends in the transferred bytes or goes on in ASCII behind them. -/
  tail : call.letThrough true = true → 0 ∈ call.transferred ∨
    containsOnlyASCII (cBody 0 (call.memAfter.drop call.transferCount)) = true

theorem containsOnlyASCII_append (xs ys : Bytes) :
    containsOnlyASCII (xs ++ ys) = (containsOnlyASCII xs && containsOnlyASCII ys) := by
  simp [containsOnlyASCII]

theorem containsOnlyASCII_of_isPrefix {xs ys : Bytes} (h : xs <+: ys)
    (hys : containsOnlyASCII ys = true) : containsOnlyASCII xs = true := by
  obtain ⟨rest, rfl⟩ := h
  rw [containsOnlyASCII_append, Bool.and_eq_true] at hys
  exact hys.1

/-- The string behind ASCII bytes is ASCII exactly when it ends in them or goes on in ASCII. -/
theorem containsOnlyASCII_cBody_append {block : Bytes} (h : containsOnlyASCII block = true)
    (rest : Bytes) :
    containsOnlyASCII (cBody 0 (block ++ rest)) = true ↔
      0 ∈ block ∨ containsOnlyASCII (cBody 0 rest) = true := by
  -- the string ends in the block, or the block is its beginning
  by_cases hblock : 0 ∈ block
  · have hbody : containsOnlyASCII (cBody 0 block) = true :=
      containsOnlyASCII_of_isPrefix (cBody_isPrefix 0 block) h
    simp [cBody_append_of_mem hblock, hbody, hblock]
  · simp [cBody_append_of_not_mem hblock, containsOnlyASCII_append, h, hblock]

theorem asciiTransfer_iff (call : GameCall) : call.asciiTransfer = true ↔
    0 < call.transferCount ∧ containsOnlyASCII call.transferred = true := by
  simp [GameCall.asciiTransfer]

theorem mirrored_ne_nil_iff (clientConnected : Bool) (call : GameCall) :
    call.mirrored clientConnected ≠ [] ↔ call.letThrough clientConnected = true := by
  unfold GameCall.mirrored
  split <;> simp_all

theorem mem_mirrored_iff {clientConnected : Bool} {call : GameCall} {bytes : Bytes} :
    bytes ∈ call.mirrored clientConnected ↔
      call.letThrough clientConnected = true ∧ bytes = cBody 0 call.memAfter := by
  unfold GameCall.mirrored
  split <;> simp_all

/-- One call mirrors as it should exactly when the old string agrees with the real call. -/
theorem mirrorsAscii_iff (c : Ctx) (call : GameCall) : MirrorsAscii c call ↔ MirrorAgrees call := by
  by_cases hterm : call.Terminated true
  · obtain ⟨out, c', hrun, hwrites⟩ := pipeWrites_hooked (c := withClient c) hterm
    -- the writes are known, so the two demands on them are demands on the call
    have hone : MirrorsAscii c call ↔
        (call.letThrough true = true ↔ call.asciiTransfer = true) ∧
          (call.letThrough true = true → containsOnlyASCII (cBody 0 call.memAfter) = true) := by
      rw [← mirrored_ne_nil_iff]
      constructor
      · rintro ⟨out', c'', hrun', hiff, hascii⟩
        obtain ⟨-, rfl⟩ := Prod.mk.inj (Option.some.inj (hrun'.symm.trans hrun))
        rw [hwrites] at hiff hascii
        exact ⟨hiff, fun hne => hascii _ (mem_mirrored_iff.mpr
          ⟨(mirrored_ne_nil_iff _ _).mp hne, rfl⟩)⟩
      · rintro ⟨hiff, hascii⟩
        refine ⟨out, c', hrun, by rw [hwrites]; exact hiff, fun bytes hbytes => ?_⟩
        rw [hwrites] at hbytes
        obtain ⟨hlet, rfl⟩ := mem_mirrored_iff.mp hbytes
        exact hascii ((mirrored_ne_nil_iff _ _).mpr hlet)
    rw [hone]
    constructor
    · rintro ⟨hdecision, hascii⟩
      refine ⟨hterm, hdecision, fun hlet => ?_⟩
      -- the string that is written begins with the transferred bytes or ends in them
      have hT := ((asciiTransfer_iff call).mp (hdecision.mp hlet)).2
      exact (containsOnlyASCII_cBody_append hT _).mp (by rw [transferred_append]; exact hascii hlet)
    · rintro ⟨-, hdecision, htail⟩
      refine ⟨hdecision, fun hlet => ?_⟩
      have hT := ((asciiTransfer_iff call).mp (hdecision.mp hlet)).2
      have hbody := (containsOnlyASCII_cBody_append hT _).mpr (htail hlet)
      rwa [transferred_append] at hbody
  · constructor
    · rintro ⟨out, c', hrun, -⟩
      rw [hooked_of_not_terminated hterm] at hrun
      cases hrun
    · intro hagrees
      exact absurd hagrees.terminated hterm

/-- **Mirroring decision**: in a run with a connected client every call mirrors exactly the ASCII
transfers exactly when, for every call, the string that the buffer held before it agrees with the
bytes that the real call transferred. -/
theorem mirrorRun_iff (c : Ctx) (calls : List GameCall) :
    MirrorRun c calls ↔ ∀ call ∈ calls, MirrorAgrees call := by
  induction calls generalizing c with
  | nil => simp [MirrorRun]
  | cons call calls ih =>
    rw [MirrorRun, List.forall_mem_cons, mirrorsAscii_iff]
    -- the context behind the first call plays no part in the rest
    apply and_congr_right
    intro hagrees
    obtain ⟨out, c', hrun, -⟩ := pipeWrites_hooked (c := withClient c) hagrees.terminated
    constructor
    · intro h
      exact (ih c').mp (h out c' hrun)
    · intro h out' c'' _
      exact (ih c'').mpr h

/-- The buffer held an empty string, and the call receives a byte above 127. -/
theorem stale_check_mirrors_binary :
    ¬ MirrorRun ⟨Globals.init, 0, []⟩
      [.recv ⟨.ok ⟨172, 65, 206, 1⟩, none, .ok 0⟩ (.received [0xC3, 0xA9, 0] none) 5
        [0, 0, 0, 0] 4 0] := by
  rintro ⟨hone, -⟩
  have hagrees := (mirrorsAscii_iff _ _).mp hone
  exact absurd (hagrees.decision.mp (by decide)) (by decide)

/-! ## What is mirrored -/

/-- The bytes written carry the packets that were transferred, and nothing from behind them. -/
def MirrorsExactly (c : Ctx) (call : GameCall) : Prop :=
  ∀ out c', call.hooked.run { c with calls := [] } = some (out, c') →
    0 < call.transferCount →
    ∀ bytes ∈ pipeWrites c'.calls,
      packets 0 bytes = packets 0 call.transferred ∧ bytes <+: call.transferred

/-- The transferred bytes are one packet: only terminators follow the first one, and there is a
terminator among them or right behind them. -/
def OnePacket (call : GameCall) : Prop :=
  (∀ b ∈ call.transferred.drop (cBody 0 call.transferred).length, b = 0) ∧
    (0 ∈ call.transferred ∨ (call.memAfter.drop call.transferCount).head? = some 0)

/-- What is mirrored can be read as a string after the call. -/
theorem mem_memAfter {call : GameCall} {clientConnected : Bool}
    (hterm : call.Terminated clientConnected) (hlet : call.letThrough clientConnected = true) :
    0 ∈ call.memAfter := by
  cases call with
  | send a real s buf len flags => exact hterm
  | recv a real s buf len flags =>
    have hboth : 0 ∈ buf ∧
        (mirrors clientConnected (cBody 0 buf) = true → 0 ∈ store real.stored buf) := hterm
    -- the hook has read the buffer as a string before it wrote it
    exact hboth.2 (by simpa [GameCall.letThrough, GameCall.isTransfer, GameCall.memBefore] using hlet)
  | connect a real s name namelen => simp [GameCall.letThrough, GameCall.isTransfer] at hlet

/-- The writes of a call on terminated memory carry its packets when the string at the buffer after
it does. -/
theorem mirrorsExactly_iff_memAfter {c : Ctx} {call : GameCall}
    (hterm : call.Terminated c.globals.gIsClientConnected) :
    MirrorsExactly c call ↔
      (call.letThrough c.globals.gIsClientConnected = true → 0 < call.transferCount →
        packets 0 (cBody 0 call.memAfter) = packets 0 call.transferred ∧
          cBody 0 call.memAfter <+: call.transferred) := by
  obtain ⟨out, c', hrun, hwrites⟩ := pipeWrites_hooked hterm
  constructor
  · intro h hlet hcount
    apply h out c' hrun hcount
    rw [hwrites]
    exact mem_mirrored_iff.mpr ⟨hlet, rfl⟩
  · intro h out' c'' hrun' hcount bytes hbytes
    obtain ⟨-, rfl⟩ := Prod.mk.inj (Option.some.inj (hrun'.symm.trans hrun))
    rw [hwrites] at hbytes
    obtain ⟨hlet, rfl⟩ := mem_mirrored_iff.mp hbytes
    exact h hlet hcount

/-- The string at the buffer after the call carries the packets when there is one packet. -/
theorem packets_memAfter_iff {call : GameCall} (hmem : 0 ∈ call.memAfter) :
    packets 0 (cBody 0 call.memAfter) = packets 0 call.transferred ∧
        cBody 0 call.memAfter <+: call.transferred ↔ OnePacket call := by
  rw [← transferred_append call] at hmem
  have hiff := packets_cBody_append_iff hmem
  rwa [transferred_append] at hiff

/-- **Mirrored content**: what a call writes carries exactly the packets it transferred if and only
if the call is not mirrored, transferred nothing, or transferred one packet. -/
theorem mirrorsExactly_iff (c : Ctx) (call : GameCall) :
    MirrorsExactly c call ↔
      (call.Terminated c.globals.gIsClientConnected →
        call.letThrough c.globals.gIsClientConnected = true →
        0 < call.transferCount → OnePacket call) := by
  by_cases hterm : call.Terminated c.globals.gIsClientConnected
  · rw [mirrorsExactly_iff_memAfter hterm]
    constructor
    · intro h _ hlet hcount
      exact (packets_memAfter_iff (mem_memAfter hterm hlet)).mp (h hlet hcount)
    · intro h hlet hcount
      exact (packets_memAfter_iff (mem_memAfter hterm hlet)).mpr (h hterm hlet hcount)
  · constructor
    · intro _ h
      exact absurd h hterm
    · intro _ out c' hrun
      rw [hooked_of_not_terminated (c := { c with calls := [] }) hterm] at hrun
      cases hrun

/-- Two packets in one send: the pipe gets the first one only. -/
theorem second_packet_dropped :
    ¬ MirrorsExactly ⟨{ Globals.init with gIsClientConnected := true }, 0, []⟩
      (.send ⟨.ok ⟨172, 65, 206, 1⟩, none, .ok 2⟩ (.sent 6 none) 5 (ascii "BN" ++ [0] ++
        ascii "GI" ++ [0]) 6 0) := by
  intro h
  have hafter := (mirrorsExactly_iff_memAfter (by decide)).mp h (by decide) (by decide)
  have hone := (packets_memAfter_iff (by decide)).mp hafter
  exact absurd (hone.1 71 (by decide)) (by decide)

end Doreto.Interop
