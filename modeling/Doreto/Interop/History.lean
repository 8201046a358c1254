import Doreto.Interop.Dispatch
import Doreto.Interop.Mirroring
import Doreto.Lib.Run

/-!
# Messages and the Messages Before Them

The `data` array of `RunPipeServer` is zeroed once per session. `ReadFile` writes a message over
its front, and the search for command words goes on to the first terminator, which may lie behind
the message, among the bytes of an earlier one. This module says for which messages the history
can show.

## Main results

- `dataShape_of_exec`: what the array looks like after any history of short messages.
- `exists_history`: every string that begins with the message and fits into the array comes about.
- `independent_iff_settled`: the messages that are served alike after every history.
-/

namespace Doreto.Interop

open Doreto.Lib

/-! ## The read loop over short messages -/

/-- The state of the read loop: the context and the `data` array. -/
structure Session where
  ctx : Ctx
  data : Bytes

/-- A new session: the array is zeroed. -/
def Session.start (c : Ctx) : Session :=
  ⟨c, zeros buffSize⟩

/-- One iteration of the loop: read the message over the array and serve it. There is no next
state when the loop ends. -/
def readMessage (σ : Session) : ServeAnswers × ShortMessage → Option Session
  | (a, m) =>
      match (dispatch a (store m.bytes σ.data) m.bytes.length).run σ.ctx with
      | some (.dettach, _) => none
      | some (_, c) => some ⟨c, store m.bytes σ.data⟩
      | none => none

/-- What is seen of serving one message. -/
structure Served where
  branch : Branch
  /-- The packets sent, with their sockets. -/
  sent : List (Socket × Bytes)
  /-- The bytes written to the pipe. -/
  mirrored : List Bytes
  deriving DecidableEq, Repr

/-- Serve the message on an array that holds `data`. -/
def outcome (a : ServeAnswers) (c : Ctx) (m : ShortMessage) (data : Bytes) : Option Served :=
  ((dispatch a (store m.bytes data) m.bytes.length).run { c with calls := [] }).map fun (br, c') =>
    ⟨br, sends c'.calls, pipeWrites c'.calls⟩

/-- After any two histories the message is served alike, from the same context. -/
def Independent (a : ServeAnswers) (c : Ctx) (m : ShortMessage) : Prop :=
  ∀ c₁ c₂ h₁ h₂ σ₁ σ₂, exec readMessage (.start c₁) h₁ = some σ₁ →
    exec readMessage (.start c₂) h₂ = some σ₂ →
    outcome a c m σ₁.data = outcome a c m σ₂.data

/-! ## The array after a history -/

/-- The array has its size and ends in a terminator that no short message reaches. -/
structure DataShape (data : Bytes) : Prop where
  length : data.length = buffSize
  last : data.drop (buffSize - 1) = [0]

theorem dataShape_zeros : DataShape (zeros buffSize) := by
  refine ⟨List.length_replicate, ?_⟩
  rw [zeros, List.drop_replicate]
  rfl

theorem DataShape.store {data : Bytes} (h : DataShape data) (m : ShortMessage) :
    DataShape (store m.bytes data) := by
  have hlen := h.length
  have hlt := m.lt
  refine ⟨(length_store (by omega)).trans hlen, ?_⟩
  have hfront : m.bytes.drop (buffSize - 1) = [] := List.drop_eq_nil_of_le (by omega)
  rw [Lib.store, List.drop_append, hfront, List.nil_append, List.drop_drop, ← h.last]
  congr 1
  omega

theorem DataShape.zero_mem {data : Bytes} (h : DataShape data) : 0 ∈ data := by
  apply List.mem_of_mem_drop (i := buffSize - 1)
  rw [h.last]
  exact List.mem_singleton_self 0

/-- The string in the array after a message: the message, and what is left behind it. -/
theorem cBody_store_eq {data : Bytes} (h : DataShape data) {m : ShortMessage} (hm : 0 ∉ m.bytes) :
    ∃ tail, 0 ∉ tail ∧ m.bytes.length + tail.length < buffSize ∧
      cBody 0 (store m.bytes data) = m.bytes ++ tail := by
  have hstr : cBody 0 (store m.bytes data) = m.bytes ++ cBody 0 (data.drop m.bytes.length) :=
    cBody_append_of_not_mem hm _
  refine ⟨cBody 0 (data.drop m.bytes.length), not_mem_cBody 0 _, ?_, hstr⟩
  -- the string is followed by a terminator, so it is shorter than the array
  obtain ⟨rest, hrest⟩ := eq_cBody_append (h.store m).zero_mem
  have hlen := congrArg List.length hrest
  rw [(h.store m).length, hstr, List.length_append, List.length_cons, List.length_append] at hlen
  omega

/-- The array after any history of short messages. -/
theorem dataShape_of_exec {c : Ctx} {h : List (ServeAnswers × ShortMessage)} {σ : Session}
    (hexec : exec readMessage (.start c) h = some σ) : DataShape σ.data := by
  refine exec_invariant (I := fun σ => DataShape σ.data) ?_ hexec dataShape_zeros
  -- reading a message stores it in the array, whatever it is taken for
  rintro σ ⟨a, m⟩ σ' hσ hstep
  have hdata : σ'.data = Lib.store m.bytes σ.data := by
    have hread : readMessage σ (a, m) = some σ' := hstep
    rw [readMessage] at hread
    split at hread
    · cases hread
    · cases hread
      rfl
    · cases hread
  rw [hdata]
  exact hσ.store m

/-- A message that is not taken for `!dettach` is served, and the loop goes on. -/
theorem readMessage_of_branch {σ : Session} (hσ : DataShape σ.data) (a : ServeAnswers)
    {m : ShortMessage} (h : branchOf (cBody 0 (store m.bytes σ.data)) ≠ .dettach) :
    ∃ c, readMessage σ (a, m) = some ⟨c, store m.bytes σ.data⟩ := by
  have hmem := (hσ.store m).zero_mem
  obtain ⟨c, hserve⟩ := run_serve a m.bytes.length (branchOf (cBody 0 (store m.bytes σ.data)))
    hmem σ.ctx
  refine ⟨c, ?_⟩
  rw [readMessage, run_dispatch a _ hmem, hserve, Option.map_some]
  cases hbr : branchOf (cBody 0 (store m.bytes σ.data)) with
  | dettach => exact absurd hbr h
  | getserver => rfl
  | findsocketfor socketStr => rfl
  | forward => rfl

theorem length_zeros_append (n : Nat) (tail : Bytes) :
    (zeros n ++ tail).length = n + tail.length := by
  rw [List.length_append, zeros, List.length_replicate]

/-- The message that leaves `tail` behind `m`: it has terminators where `m` is going to be. -/
def ShortMessage.leaving (m : ShortMessage) (tail : Bytes)
    (hfits : m.bytes.length + tail.length < buffSize) : ShortMessage where
  bytes := zeros m.bytes.length ++ tail
  pos := (Nat.lt_add_right _ m.pos).trans_eq (length_zeros_append _ tail).symm
  lt := (length_zeros_append _ tail).trans_lt hfits

/-- The message that leaves the tail is no command: its string is empty. -/
theorem cBody_leaving (m : ShortMessage) (tail : Bytes)
    (hfits : m.bytes.length + tail.length < buffSize) :
    cBody 0 (store (m.leaving tail hfits).bytes (zeros buffSize)) = [] := by
  have hpos := m.pos
  obtain ⟨n, hn⟩ : ∃ n, m.bytes.length = n + 1 := ⟨m.bytes.length - 1, by omega⟩
  simp [ShortMessage.leaving, Lib.store, zeros, hn, List.replicate_succ]

/-- Behind the message that leaves the tail, `m` is read with the tail. -/
theorem cBody_store_leaving {m : ShortMessage} (hm : 0 ∉ m.bytes) {tail : Bytes}
    (htail : 0 ∉ tail) (hfits : m.bytes.length + tail.length < buffSize) :
    cBody 0 (store m.bytes (store (m.leaving tail hfits).bytes (zeros buffSize))) =
      m.bytes ++ tail := by
  obtain ⟨k, hk⟩ : ∃ k, buffSize - (m.bytes.length + tail.length) = k + 1 :=
    ⟨buffSize - (m.bytes.length + tail.length) - 1, by omega⟩
  have hdata : store m.bytes (store (m.leaving tail hfits).bytes (zeros buffSize)) =
      m.bytes ++ (tail ++ 0 :: zeros k) := by
    simp [ShortMessage.leaving, Lib.store, zeros, List.drop_replicate, hk, List.replicate_succ]
  rw [hdata, cBody_append_of_not_mem hm, cBody_append_of_not_mem htail, cBody_cons_nul,
    List.append_nil]

/-- Every string that begins with the message and fits into the array comes about: one message
before it is enough. -/
theorem exists_history (a : ServeAnswers) (c : Ctx) {m : ShortMessage} (hm : 0 ∉ m.bytes)
    {tail : Bytes} (htail : 0 ∉ tail) (hfits : m.bytes.length + tail.length < buffSize) :
    ∃ h σ, exec readMessage (.start c) h = some σ ∧
      cBody 0 (store m.bytes σ.data) = m.bytes ++ tail := by
  have hother : branchOf (cBody 0 (store (m.leaving tail hfits).bytes (zeros buffSize))) ≠
      .dettach := by
    rw [cBody_leaving]
    decide
  obtain ⟨c', hread⟩ := readMessage_of_branch (σ := .start c) dataShape_zeros a hother
  refine ⟨[(a, m.leaving tail hfits)], ⟨c', store (m.leaving tail hfits).bytes (zeros buffSize)⟩,
    ?_, cBody_store_leaving hm htail hfits⟩
  rw [exec, hread]
  rfl

/-! ## The outcome as a function of the string -/

/-- What is seen of a branch, for the string in the array. Only the mirrored packet depends on the
string beyond the choice of the branch. -/
theorem outcome_eq {data : Bytes} (h : DataShape data) (a : ServeAnswers) (c : Ctx)
    (m : ShortMessage) :
    ∃ o, outcome a c m data = some o ∧ o.branch = branchOf (cBody 0 (store m.bytes data)) ∧
      (o.branch = .forward → c.globals.gSocket ≠ invalidSocket → o.mirrored =
        if mirrors c.globals.gIsClientConnected (cBody 0 (store m.bytes data)) then
          [cBody 0 (store m.bytes data)] else []) := by
  have hmem := (h.store m).zero_mem
  obtain ⟨c', hserve⟩ := run_serve a m.bytes.length (branchOf (cBody 0 (store m.bytes data)))
    hmem { c with calls := [] }
  refine ⟨⟨branchOf (cBody 0 (store m.bytes data)), sends c'.calls, pipeWrites c'.calls⟩,
    ?_, rfl, fun hbr hsocket => ?_⟩
  · rw [outcome, run_dispatch a _ hmem, hserve]
    rfl
  · have hbr' : branchOf (cBody 0 (store m.bytes data)) = .forward := hbr
    rw [hbr', serve, run_forwardPacket a _ (c := { c with calls := [] }) hsocket hmem] at hserve
    obtain ⟨-, rfl⟩ := Prod.mk.inj (Option.some.inj hserve)
    simp [pipeWrites_cons_of_not_writeFile, pipeWrites_mirrorCalls]

/-- Two arrays on which the message is taken for the same command serve it alike, and so do two
arrays on which it is a packet that is mirrored alike. -/
theorem outcome_congr {data₁ data₂ : Bytes} (h₁ : DataShape data₁) (h₂ : DataShape data₂)
    (a : ServeAnswers) (c : Ctx) (m : ShortMessage)
    (hbranch : branchOf (cBody 0 (store m.bytes data₁)) = branchOf (cBody 0 (store m.bytes data₂)))
    (hmirror : branchOf (cBody 0 (store m.bytes data₁)) = .forward →
      c.globals.gSocket = invalidSocket ∨
        mirrorCalls c.globals (cBody 0 (store m.bytes data₁)) (store m.bytes data₁) =
          mirrorCalls c.globals (cBody 0 (store m.bytes data₂)) (store m.bytes data₂)) :
    outcome a c m data₁ = outcome a c m data₂ := by
  have hmem₁ := (h₁.store m).zero_mem
  have hmem₂ := (h₂.store m).zero_mem
  rw [outcome, outcome, run_dispatch a _ hmem₁, run_dispatch a _ hmem₂, ← hbranch]
  cases hbr : branchOf (cBody 0 (store m.bytes data₁)) with
  | dettach => rfl
  | getserver => rfl
  | findsocketfor socketStr => rfl
  | forward =>
    simp only [serve]
    rcases hmirror hbr with hinvalid | hcalls
    · rw [run_forwardPacket_of_invalid a _ _ (c := { c with calls := [] }) hinvalid,
        run_forwardPacket_of_invalid a _ _ (c := { c with calls := [] }) hinvalid]
    · by_cases hinvalid : c.globals.gSocket = invalidSocket
      · rw [run_forwardPacket_of_invalid a _ _ (c := { c with calls := [] }) hinvalid,
          run_forwardPacket_of_invalid a _ _ (c := { c with calls := [] }) hinvalid]
      · have htake : ∀ data, (store m.bytes data).take m.bytes.length = m.bytes :=
          take_store m.bytes
        rw [run_forwardPacket a _ (c := { c with calls := [] }) hinvalid hmem₁,
          run_forwardPacket a _ (c := { c with calls := [] }) hinvalid hmem₂, htake, htake, hcalls]
        simp

/-! ## Settled messages -/

/-- A history can put the word into the string that begins with the message. -/
def Completable (word m : Bytes) : Prop :=
  ∃ tail, 0 ∉ tail ∧ m.length + tail.length < buffSize ∧ word <:+: m ++ tail

/-- The message alone decides how it is served. -/
def Settled (c : Ctx) (m : Bytes) : Prop :=
  0 ∈ m ∨ m.length + 1 = buffSize ∨ dettachCmd <:+: m ∨
    ¬ Completable dettachCmd m ∧
      (getserverCmd <:+: m ∨
        ¬ Completable getserverCmd m ∧ ¬ Completable findsocketforCmd m ∧
          (c.globals.gSocket = invalidSocket ∨
            mirrors c.globals.gIsClientConnected m = false))

theorem infix_append_right {word m : Bytes} (h : word <:+: m) (tail : Bytes) :
    word <:+: m ++ tail :=
  h.trans (List.prefix_append m tail).isInfix

theorem completable_of_contains {word m : Bytes} (hfits : m.length < buffSize) (h : word <:+: m) :
    Completable word m :=
  ⟨[], by simp, by simpa using hfits, by simpa using h⟩

/-- A settled message is served alike on all arrays. -/
theorem outcome_eq_of_settled {c : Ctx} {m : ShortMessage} (hsettled : Settled c m.bytes)
    (a : ServeAnswers) {data₁ data₂ : Bytes} (h₁ : DataShape data₁) (h₂ : DataShape data₂) :
    outcome a c m data₁ = outcome a c m data₂ := by
  -- with a terminator of its own the message is the whole string
  by_cases hm : 0 ∈ m.bytes
  · have hstr : ∀ data, cBody 0 (store m.bytes data) = cBody 0 m.bytes := fun data =>
      cBody_append_of_mem hm _
    refine outcome_congr h₁ h₂ a c m (by rw [hstr, hstr]) fun _ => .inr ?_
    simp only [mirrorCalls, hstr]
  · obtain ⟨tail₁, hno₁, hfits₁, hstr₁⟩ := cBody_store_eq h₁ hm
    obtain ⟨tail₂, hno₂, hfits₂, hstr₂⟩ := cBody_store_eq h₂ hm
    -- without one the two strings are the message with two tails
    rcases hsettled with hin | hfull | hdettach | ⟨hnd, hgetserver | ⟨hng, hnf, hquiet⟩⟩
    · exact absurd hin hm
    · -- the message reaches up to the last terminator
      have hnil₁ : tail₁ = [] := List.length_eq_zero_iff.mp (by omega)
      have hnil₂ : tail₂ = [] := List.length_eq_zero_iff.mp (by omega)
      subst hnil₁ hnil₂
      refine outcome_congr h₁ h₂ a c m (by rw [hstr₁, hstr₂]) fun _ => .inr ?_
      simp only [mirrorCalls, hstr₁, hstr₂]
    · have hbr : ∀ tail, branchOf (m.bytes ++ tail) = .dettach := fun tail =>
        branchOf_eq_dettach_iff.mpr (infix_append_right hdettach tail)
      refine outcome_congr h₁ h₂ a c m (by rw [hstr₁, hstr₂, hbr, hbr]) fun hforward => ?_
      rw [hstr₁, hbr] at hforward
      cases hforward
    · have hbr : ∀ tail, 0 ∉ tail → m.bytes.length + tail.length < buffSize →
          branchOf (m.bytes ++ tail) = .getserver := fun tail hno hfits =>
        branchOf_eq_getserver_iff.mpr
          ⟨fun hin => hnd ⟨tail, hno, hfits, hin⟩, infix_append_right hgetserver tail⟩
      refine outcome_congr h₁ h₂ a c m
        (by rw [hstr₁, hstr₂, hbr tail₁ hno₁ hfits₁, hbr tail₂ hno₂ hfits₂]) fun hforward => ?_
      rw [hstr₁, hbr tail₁ hno₁ hfits₁] at hforward
      cases hforward
    · have hbr : ∀ tail, 0 ∉ tail → m.bytes.length + tail.length < buffSize →
          branchOf (m.bytes ++ tail) = .forward := fun tail hno hfits =>
        branchOf_eq_forward_iff.mpr
          ⟨fun hin => hnd ⟨tail, hno, hfits, hin⟩, fun hin => hng ⟨tail, hno, hfits, hin⟩,
            fun hin => hnf ⟨tail, hno, hfits, hin⟩⟩
      refine outcome_congr h₁ h₂ a c m
        (by rw [hstr₁, hstr₂, hbr tail₁ hno₁ hfits₁, hbr tail₂ hno₂ hfits₂]) fun _ => ?_
      apply hquiet.imp_right
      intro hsilent
      -- what is not let through with the message alone is not let through with a tail either
      have hnone : ∀ tail, mirrors c.globals.gIsClientConnected (m.bytes ++ tail) = false := by
        intro tail
        rw [mirrors, containsOnlyASCII_append, ← Bool.and_assoc]
        rw [mirrors] at hsilent
        rw [hsilent, Bool.false_and]
      simp [mirrorCalls, hstr₁, hstr₂, hnone]

/-- A message that is served alike after every history is served alike for all strings that begin
with it and fit into the array. -/
theorem Independent.branchOf_eq {a : ServeAnswers} {c : Ctx} {m : ShortMessage}
    (h : Independent a c m) (hm : 0 ∉ m.bytes) {tail : Bytes} (htail : 0 ∉ tail)
    (hfits : m.bytes.length + tail.length < buffSize) :
    branchOf (m.bytes ++ tail) = branchOf m.bytes ∧
      (branchOf m.bytes = .forward → c.globals.gSocket ≠ invalidSocket →
        mirrors c.globals.gIsClientConnected m.bytes = true → containsOnlyASCII tail = true →
          tail = []) := by
  -- compare a history that leaves the tail with one that leaves nothing
  obtain ⟨h₁, σ₁, hexec₁, hstr₁⟩ := exists_history a c hm htail hfits
  have hnil : (0 : UInt8) ∉ ([] : Bytes) := List.not_mem_nil
  obtain ⟨h₂, σ₂, hexec₂, hstr₂⟩ := exists_history a c hm hnil (by simpa using m.lt)
  rw [List.append_nil] at hstr₂
  obtain ⟨o₁, ho₁, hbr₁, hmir₁⟩ := outcome_eq (dataShape_of_exec hexec₁) a c m
  obtain ⟨o₂, ho₂, hbr₂, hmir₂⟩ := outcome_eq (dataShape_of_exec hexec₂) a c m
  have hsame := h c c h₁ h₂ σ₁ σ₂ hexec₁ hexec₂
  rw [ho₁, ho₂] at hsame
  obtain rfl := Option.some.inj hsame
  rw [hstr₁] at hbr₁ hmir₁
  rw [hstr₂] at hbr₂ hmir₂
  refine ⟨hbr₁.symm.trans hbr₂, fun hforward hsocket hlet hascii => ?_⟩
  have hlet₁ : mirrors c.globals.gIsClientConnected (m.bytes ++ tail) = true := by
    rw [mirrors, containsOnlyASCII_append, hascii, Bool.and_true]
    exact hlet
  have heq := (hmir₁ (hbr₂.trans hforward) hsocket).symm.trans (hmir₂ (hbr₂.trans hforward) hsocket)
  rw [if_pos hlet₁, if_pos hlet] at heq
  simpa using heq

/-- A message that is served alike after every history is settled. -/
theorem settled_of_independent {a : ServeAnswers} {c : Ctx} {m : ShortMessage}
    (h : Independent a c m) : Settled c m.bytes := by
  by_cases hm : 0 ∈ m.bytes
  · exact .inl hm
  by_cases hfull : m.bytes.length + 1 = buffSize
  · exact .inr (.inl hfull)
  -- there is room for one character behind the message
  have hone : 0 ∉ ascii "x" ∧ m.bytes.length + (ascii "x").length < buffSize := by
    refine ⟨by decide, ?_⟩
    have hlt := m.lt
    have hlen : (ascii "x").length = 1 := rfl
    omega
  by_cases hd : dettachCmd <:+: m.bytes
  · exact .inr (.inr (.inl hd))
  -- a tail that completes a command would show
  have hnd : ¬ Completable dettachCmd m.bytes := by
    rintro ⟨tail, hno, hfits, hin⟩
    have hbr := (h.branchOf_eq hm hno hfits).1
    rw [branchOf_eq_dettach_iff.mpr hin] at hbr
    exact hd (branchOf_eq_dettach_iff.mp hbr.symm)
  refine .inr (.inr (.inr ⟨hnd, ?_⟩))
  by_cases hg : getserverCmd <:+: m.bytes
  · exact .inl hg
  have hng : ¬ Completable getserverCmd m.bytes := by
    rintro ⟨tail, hno, hfits, hin⟩
    have hbr := (h.branchOf_eq hm hno hfits).1
    have hget : branchOf (m.bytes ++ tail) = .getserver :=
      branchOf_eq_getserver_iff.mpr ⟨fun hin' => hnd ⟨tail, hno, hfits, hin'⟩, hin⟩
    rw [hget] at hbr
    exact hg (branchOf_eq_getserver_iff.mp hbr.symm).2
  have hnf : ¬ Completable findsocketforCmd m.bytes := by
    by_cases hf : findsocketforCmd <:+: m.bytes
    · -- one more character in the tail is one more character in the address
      obtain ⟨found, hfound⟩ := Option.isSome_iff_exists.mp (strstr_isSome_iff.mpr hf)
      have hbr := (h.branchOf_eq hm hone.1 hone.2).1
      rw [branchOf_of_find hd hg hfound,
        branchOf_of_find (fun hin => hnd ⟨_, hone.1, hone.2, hin⟩)
          (fun hin => hng ⟨_, hone.1, hone.2, hin⟩) (strstr_append hfound _)] at hbr
      have hlen : findsocketforCmd.length ≤ found.length := (startsWith_of_strstr hfound).length_le
      have hdrop := congrArg List.length (Branch.findsocketfor.inj hbr)
      rw [List.length_drop, List.length_drop, List.length_append] at hdrop
      have hx : (ascii "x").length = 1 := rfl
      omega
    · rintro ⟨tail, hno, hfits, hin⟩
      have hbr := (h.branchOf_eq hm hno hfits).1
      rw [branchOf_eq_forward_iff.mpr ⟨hd, hg, hf⟩] at hbr
      exact (branchOf_eq_forward_iff.mp hbr).2.2 hin
  refine .inr ⟨hng, hnf, ?_⟩
  by_cases hinvalid : c.globals.gSocket = invalidSocket
  · exact .inl hinvalid
  -- a packet that is mirrored shows the character behind it
  apply Or.inr
  apply Bool.eq_false_iff.mpr
  intro hlet
  have hforward : branchOf m.bytes = .forward :=
    branchOf_eq_forward_iff.mpr
      ⟨hd, hg, fun hf => hnf (completable_of_contains m.lt hf)⟩
  have hnil := (h.branchOf_eq hm hone.1 hone.2).2 hforward hinvalid hlet (by decide)
  exact absurd hnil (by decide)

/-- **Independence of the history**: a message is served alike after every two histories of short
messages exactly when it is settled. -/
theorem independent_iff_settled (a : ServeAnswers) (c : Ctx) (m : ShortMessage) :
    Independent a c m ↔ Settled c m.bytes := by
  refine ⟨settled_of_independent, fun h c₁ c₂ h₁ h₂ σ₁ σ₂ hexec₁ hexec₂ => ?_⟩
  exact outcome_eq_of_settled h a (dataShape_of_exec hexec₁) (dataShape_of_exec hexec₂)

/-- A lookup of an address. -/
def longLookup : ShortMessage :=
  ⟨ascii "!findsocketfor:172.65.206.180", by decide, by decide⟩

/-- A lookup of an address that the first one begins with. -/
def shortLookup : ShortMessage :=
  ⟨ascii "!findsocketfor:172.65.206.1", by decide, by decide⟩

/-- Behind the long lookup the short one is a lookup of the long address again. -/
theorem short_lookup_completed_by_long_lookup :
    ¬ Independent .failing ⟨Globals.init, 0, []⟩ shortLookup := by
  intro h
  have hfirst : cBody 0 (store longLookup.bytes (zeros buffSize)) = longLookup.bytes :=
    (cBody_store_zeros longLookup.lt).trans (by decide)
  have halone : cBody 0 (store shortLookup.bytes (zeros buffSize)) = shortLookup.bytes :=
    (cBody_store_zeros shortLookup.lt).trans (by decide)
  have hsame : store shortLookup.bytes (store longLookup.bytes (zeros buffSize)) =
      store longLookup.bytes (zeros buffSize) := store_store_of_isPrefix (by decide) _
  obtain ⟨c', hread⟩ := readMessage_of_branch (σ := .start ⟨Globals.init, 0, []⟩)
    (m := longLookup) dataShape_zeros .failing (by rw [Session.start, hfirst]; decide)
  have hlong : exec readMessage (.start ⟨Globals.init, 0, []⟩) [(.failing, longLookup)] =
      some ⟨c', store longLookup.bytes (zeros buffSize)⟩ := by
    rw [exec, hread]
    rfl
  obtain ⟨o, ho, hbr, -⟩ := outcome_eq (dataShape_zeros.store longLookup) .failing
    ⟨Globals.init, 0, []⟩ shortLookup
  obtain ⟨o', ho', hbr', -⟩ := outcome_eq dataShape_zeros .failing ⟨Globals.init, 0, []⟩
    shortLookup
  have heq := h _ ⟨Globals.init, 0, []⟩ _ [] _ _ hlong rfl
  rw [ho, show (Session.start ⟨Globals.init, 0, []⟩).data = zeros buffSize from rfl, ho'] at heq
  obtain rfl := Option.some.inj heq
  rw [hsame, hfirst] at hbr
  rw [halone] at hbr'
  exact absurd (hbr.symm.trans hbr') (by decide)

end Doreto.Interop
