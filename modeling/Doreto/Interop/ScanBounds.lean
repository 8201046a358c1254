import Doreto.Interop.Mirroring
import Doreto.Interop.PipeServer
import Doreto.Lib.Overlay
import Doreto.Lib.Run

/-!
# Where the Strings End

The read loop hands `ReadFile` the whole `data` array, and `MySend` and `MyRecv` take the game's
buffer for a string. None of them adds a terminator. A search for one stays inside the array or
inside the buffer exactly when the bytes happen to hold it.

The array shows the blocks that were read into it since it was zeroed: at each position the last
one that reached it.

## Main results

- `data_of_transition`: the array, from the blocks.
- `zero_mem_storeAll_iff`: the array holds a terminator exactly where the blocks left one.
- `scansReturn_iff`: a step stays inside exactly when its bytes hold a terminator.
- `scansReturn_iff_terminated`: the same for runs.
-/

namespace Doreto.Interop

open Doreto.Lib

/-! ## The bytes that belong to a scan -/

/-- The call with the bytes of its buffer only. -/
def GameCall.confined : GameCall → GameCall
  | .send a real s buf len flags => .send a real s (buf.take len.toNat) len flags
  | .recv a (.received bytes code) s buf len flags =>
      .recv a (.received (bytes.take len.toNat) code) s (buf.take len.toNat) len flags
  | .recv a (.failed stored code) s buf len flags =>
      .recv a (.failed (stored.take len.toNat) code) s (buf.take len.toNat) len flags
  | .connect a real s name namelen => .connect a real s name namelen

/-- The action in a process where nothing is mapped behind the bytes that belong to it. -/
def Action.confined : Action → Action
  | .game e call => .game e call.confined
  | .client call => .client call
  | .server a => .server { a with behind := [] }

/-! ## The blocks in the array -/

/-- The system with the blocks that were read into the `data` array since it was zeroed. -/
structure ArrayTrace where
  system : System
  blocks : List Bytes

def ArrayTrace.init : ArrayTrace :=
  ⟨.init, []⟩

/-- The blocks behind an action. The array is declared anew for each client. -/
def blocksAfter (τ : ArrayTrace) : Action → List Bytes
  | .server _ =>
      match τ.system.server with
      | .running pipe (.reading _) => τ.blocks ++ (pipe.read buffSize).1.stored
      | .running _ .head => []
      | _ => τ.blocks
  | _ => τ.blocks

/-- A step of the system on the bytes that belong to it. -/
def confinedStep (τ : ArrayTrace) (a : Action) : Option ArrayTrace :=
  (step τ.system a.confined).map fun σ' => ⟨σ', blocksAfter τ a⟩

/-- The array holds the blocks. -/
structure Tracks (τ : ArrayTrace) : Prop where
  data : ∀ pipe data, τ.system.server = .running pipe (.reading data) →
    data = storeAll τ.blocks (zeros buffSize)
  fits : ∀ block ∈ τ.blocks, block.length ≤ buffSize

/-! ## Scans that return -/

/-- Every scan of the action meets a terminator, so that the action has a result. -/
def ScansReturn (τ : ArrayTrace) (a : Action) : Prop :=
  τ.system.server = .unloaded ∨ (confinedStep τ a).isSome

instance (τ : ArrayTrace) (a : Action) : Decidable (ScansReturn τ a) :=
  inferInstanceAs (Decidable (_ ∨ _))

/-- No block reached the position, or the last one that did left a terminator there. -/
def TerminatorAt (i : Nat) (blocks : List Bytes) : Prop :=
  ∀ block ∈ lastReaching i blocks, block[i]? = some 0

/-- The blocks leave a terminator in the array. -/
def TerminatorLeft (blocks : List Bytes) : Prop :=
  ∃ i < buffSize, TerminatorAt i blocks

/-- The message that is read, with those before it, leaves a terminator in the array, and a call of
the game finds one in its buffer. -/
def BytesTerminated (τ : ArrayTrace) : Action → Prop
  | .game _ call =>
      τ.system.server = .unloaded ∨ call.confined.Terminated τ.system.globals.gIsClientConnected
  | .client _ => True
  | .server _ => ∀ pipe data m, τ.system.server = .running pipe (.reading data) →
      (pipe.read buffSize).1 = .message m → TerminatorLeft (τ.blocks ++ [m.unread])

/-! ## The array from the blocks -/

theorem length_storeAll_zeros {blocks : List Bytes}
    (h : ∀ block ∈ blocks, block.length ≤ buffSize) :
    (storeAll blocks (zeros buffSize)).length = buffSize := by
  have hzeros : (zeros buffSize).length = buffSize := List.length_replicate
  rw [length_storeAll (by rwa [hzeros]), hzeros]

/-- The array shows a terminator where the blocks left one. -/
theorem getElem?_storeAll_zeros {blocks : List Bytes} {i : Nat} (hi : i < buffSize) :
    (storeAll blocks (zeros buffSize))[i]? = some 0 ↔ TerminatorAt i blocks := by
  rw [getElem?_storeAll, TerminatorAt]
  cases lastReaching i blocks with
  | some block => simp
  | none => simp [zeros, hi]

theorem zero_mem_storeAll_iff {blocks : List Bytes}
    (h : ∀ block ∈ blocks, block.length ≤ buffSize) :
    0 ∈ storeAll blocks (zeros buffSize) ↔ TerminatorLeft blocks := by
  constructor
  · intro hmem
    obtain ⟨i, hi⟩ := List.mem_iff_getElem?.mp hmem
    obtain ⟨hlt, -⟩ := List.getElem?_eq_some_iff.mp hi
    rw [length_storeAll_zeros h] at hlt
    exact ⟨i, hlt, (getElem?_storeAll_zeros hlt).mp hi⟩
  · intro hleft
    obtain ⟨i, hlt, hi⟩ := hleft
    exact List.mem_iff_getElem?.mpr ⟨i, (getElem?_storeAll_zeros hlt).mpr hi⟩

/-! ## One step -/

theorem tracks_init : Tracks .init :=
  ⟨(fun _ _ h => by cases h), (fun _ h => by cases h)⟩

theorem fits_blocksAfter {τ : ArrayTrace} (h : ∀ block ∈ τ.blocks, block.length ≤ buffSize)
    (a : Action) : ∀ block ∈ blocksAfter τ a, block.length ≤ buffSize := by
  unfold blocksAfter
  split
  · split
    · rename_i pipe _ _
      intro block hblock
      rcases List.mem_append.mp hblock with hold | hnew
      · exact h block hold
      · exact pipe.stored_read buffSize block hnew
    · exact fun block hblock => by cases hblock
    · exact h
  · exact h

/-- A step reads what the pipe gives, and nothing else changes the array. -/
theorem data_of_transition {τ : ArrayTrace} {σ' : System} {a : Action} (h : Tracks τ)
    (hstep : Transition τ.system a σ') {pipe : MessagePipe UInt8} {data : Bytes}
    (hserver : σ'.server = .running pipe (.reading data)) :
    data = storeAll (blocksAfter τ a) (zeros buffSize) := by
  cases hstep with
  | hooked loaded run => exact h.data pipe data hserver
  | unhooked unloaded => exact h.data pipe data hserver
  | clientIdle closed => exact h.data pipe data hserver
  | clientCall at_ =>
    obtain ⟨-, rfl⟩ := Server.running.inj hserver
    exact h.data _ _ at_
  -- a new client finds the array zeroed
  | pollSucceeds at_ flag =>
    obtain ⟨-, hloop⟩ := Server.running.inj hserver
    obtain rfl := Loop.reading.inj hloop
    simp only [blocksAfter, at_]
    rfl
  | pollFinds at_ flag =>
    obtain ⟨-, hloop⟩ := Server.running.inj hserver
    obtain rfl := Loop.reading.inj hloop
    simp only [blocksAfter, at_]
    rfl
  | served at_ read run =>
    obtain ⟨-, hloop⟩ := Server.running.inj hserver
    simp only [blocksAfter, at_, read, ReadResult.stored, storeAll_concat, ← h.data _ _ at_]
    split at hloop
    · cases hloop
    · exact (Loop.reading.inj hloop).symm
  | readPart at_ read =>
    obtain ⟨-, hloop⟩ := Server.running.inj hserver
    simp only [blocksAfter, at_, read, ReadResult.stored, storeAll_concat, ← h.data _ _ at_]
    exact (Loop.reading.inj hloop).symm
  | readFails at_ read kind =>
    obtain ⟨-, hloop⟩ := Server.running.inj hserver
    simp only [blocksAfter, at_, read, ReadResult.stored, List.append_nil, ← h.data _ _ at_]
    exact (Loop.reading.inj hloop).symm
  -- behind the other steps the server is not at `ReadFile`
  | notCreated at_ =>
    have hcreating : τ.system.server = .running pipe (.reading data) := hserver
    rw [at_] at hcreating
    cases hcreating
  | _ => cases hserver

theorem tracks_of_confinedStep {τ τ' : ArrayTrace} {a : Action} (h : Tracks τ)
    (hstep : confinedStep τ a = some τ') : Tracks τ' := by
  obtain ⟨σ', hσ', rfl⟩ := Option.map_eq_some_iff.mp hstep
  have hblocks : blocksAfter τ a.confined = blocksAfter τ a := by
    cases a <;> rfl
  refine ⟨?_, fits_blocksAfter h.fits a⟩
  intro pipe data hserver
  rw [← hblocks]
  exact data_of_transition h (transition_of_step hσ') hserver

/-- The server thread gets through with a message exactly when it leaves a terminator. -/
theorem serveMessage_isSome_iff {σ : System} {a : ServerAnswers} {pipe : MessagePipe UInt8}
    {data : Bytes} {m : Message UInt8} :
    (serveMessage σ { a with behind := [] } pipe data m).isSome ↔ 0 ∈ data := by
  rw [serveMessage, List.append_nil, Option.isSome_map]
  constructor
  · intro h
    obtain ⟨⟨br, c⟩, hrun⟩ := Option.isSome_iff_exists.mp h
    exact (dispatch_eq_some hrun).1
  · intro hmem
    obtain ⟨c, hserve⟩ := run_serve a.serve m.unread.length (branchOf (cBody 0 data)) hmem
      ⟨σ.globals, σ.serverError, []⟩
    rw [run_dispatch a.serve _ hmem, hserve]
    rfl

theorem readFile_isSome_iff {σ : System} {a : ServerAnswers} {pipe : MessagePipe UInt8}
    {data : Bytes} :
    (readFile σ { a with behind := [] } pipe data).isSome ↔
      ∀ m, (pipe.read buffSize).1 = .message m → 0 ∈ store m.unread data := by
  cases hread : (pipe.read buffSize).1 with
  | message m =>
    rw [readFile_of_message σ _ data hread, serveMessage_isSome_iff]
    constructor
    · rintro hmem m' ⟨⟩
      exact hmem
    · exact fun h => h m rfl
  | part bytes =>
    rw [readFile_of_part σ _ data hread]
    exact iff_of_true rfl (fun m h => by cases h)
  | failed why =>
    -- a read that fails looks for no terminator
    refine iff_of_true ?_ (fun m h => by cases h)
    unfold readFile
    generalize pipe.read buffSize = out at hread
    obtain ⟨result, pipe'⟩ := out
    subst hread
    simp only
    split <;> rfl

/-- The other steps of the server thread look for no terminator. -/
theorem serverStep_isSome {σ : System} (a : ServerAnswers)
    (h : ∀ pipe data, σ.server ≠ .running pipe (.reading data)) :
    σ.server = .unloaded ∨ (serverStep σ a).isSome := by
  cases hserver : σ.server with
  | running pipe loop =>
    cases loop with
    | reading data => exact absurd hserver (h pipe data)
    | head =>
      simp only [serverStep, hserver]
      right
      split <;> rfl
    | _ =>
      rw [serverStep, hserver]
      exact .inr rfl
  | unloaded => exact .inl rfl
  | _ =>
    rw [serverStep, hserver]
    exact .inr rfl

/-- The message on the array of its session. -/
theorem zero_mem_append_iff {τ : ArrayTrace} (h : Tracks τ) {pipe : MessagePipe UInt8}
    {m : Message UInt8} (hread : (pipe.read buffSize).1 = .message m) :
    0 ∈ store m.unread (storeAll τ.blocks (zeros buffSize)) ↔
      TerminatorLeft (τ.blocks ++ [m.unread]) := by
  rw [← storeAll_concat]
  apply zero_mem_storeAll_iff
  have hstored := pipe.stored_read buffSize
  rw [hread] at hstored
  intro block hblock
  rcases List.mem_append.mp hblock with hold | hnew
  · exact h.fits block hold
  · exact hstored block hnew

/-- A call of the game comes back exactly when its scans meet a terminator. -/
theorem hookedCall_isSome_iff {σ : System} (hloaded : σ.server ≠ .unloaded) {e : ErrorCode}
    {call : GameCall} :
    (hookedCall σ e call).isSome ↔ call.Terminated σ.globals.gIsClientConnected := by
  rw [hookedCall, if_neg hloaded, Option.isSome_map]
  constructor
  · intro h
    by_contra hterm
    rw [hooked_of_not_terminated hterm] at h
    cases h
  · intro hterm
    obtain ⟨out, c, hrun, -⟩ := pipeWrites_hooked (c := ⟨σ.globals, e, []⟩) hterm
    exact Option.isSome_iff_exists.mpr ⟨_, hrun⟩

/-- A step stays inside its bytes exactly when they hold a terminator. -/
theorem scansReturn_iff {τ : ArrayTrace} (h : Tracks τ) (a : Action) :
    ScansReturn τ a ↔ BytesTerminated τ a := by
  rw [ScansReturn, confinedStep, Option.isSome_map]
  cases a with
  | game e call => exact or_congr_right' fun h => hookedCall_isSome_iff h
  | client call => exact iff_of_true (.inr rfl) trivial
  | server a =>
    by_cases hreading : ∃ pipe data, τ.system.server = .running pipe (.reading data)
    · obtain ⟨pipe, data, hserver⟩ := hreading
      have hstep : step τ.system (Action.server a).confined =
          readFile τ.system { a with behind := [] } pipe data := by
        simp only [Action.confined, step, serverStep, hserver]
      rw [hstep, readFile_isSome_iff, hserver, h.data pipe data hserver]
      constructor
      · rintro (hunloaded | hmem) pipe' data' m hserver' hread
        · cases hunloaded
        · rw [hserver] at hserver'
          obtain ⟨rfl, -⟩ := Server.running.inj hserver'
          exact (zero_mem_append_iff h hread).mp (hmem m hread)
      · intro hleft
        refine .inr fun m hread => ?_
        exact (zero_mem_append_iff h hread).mpr (hleft pipe data m hserver hread)
    · have hnot : ∀ pipe data, τ.system.server ≠ .running pipe (.reading data) :=
        fun pipe data hserver => hreading ⟨pipe, data, hserver⟩
      exact iff_of_true (serverStep_isSome _ hnot)
        (fun pipe data _ hserver => absurd hserver (hnot pipe data))

/-! ## Every run -/

/-- **Scan bounds**: in a run of any calls of the game, any messages and any answers, every scan
stays inside its bytes exactly when they hold a terminator each time. -/
theorem scansReturn_iff_terminated (actions : List Action) :
    ActionsMeet confinedStep ScansReturn .init actions ↔
      ActionsMeet confinedStep BytesTerminated .init actions :=
  actionsMeet_congr (fun _ _ _ => tracks_of_confinedStep) (fun _ a h => scansReturn_iff h a)
    actions tracks_init

/-- A client sends a message that fills the array. -/
def fullMessage : List Action :=
  [.server .plain, .client .connect, .server .plain, .client (.write (List.replicate buffSize 65)),
    .server .plain]

/-- The game sends three characters. -/
def threeCharacters : List Action :=
  [.game 0 (.send ⟨.ok .zero, none, .ok 0⟩ (.sent 3 none) 5 (ascii "abc") 3 0)]

/-- The search of the array and that of the game's buffer find no terminator. -/
theorem scans_run_over :
    ¬ ActionsMeet confinedStep ScansReturn .init fullMessage ∧
      ¬ ActionsMeet confinedStep ScansReturn .init threeCharacters := by
  decide +kernel

end Doreto.Interop
