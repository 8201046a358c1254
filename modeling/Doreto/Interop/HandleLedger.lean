import Doreto.Interop.SocketLookup
import Doreto.Lib.Ledger

/-!
# What a Lookup Releases

`FindSocketByIpAddr` releases by hand what it has acquired, on each of its exits. The calls that it
makes are read here as a ledger over its five variables: the process handle and the table for the
whole call, and the duplicated handle, the type buffer and the name buffer for each entry.

Three exits forget something. A match and a failed enumeration leave the table and the process
handle, and a failed type query leaves the type buffer.

## Main results

- `entry_ledger`: what one pass of the loop releases.
- `lookups_balanced_iff`: any number of lookups release what they acquire exactly when each of them
  avoids those three exits.
-/

namespace Doreto.Interop

open Doreto.Lib

/-! ## The ledger of some calls -/

/-- The entries of the ledger among some calls. -/
def ledgerOf (calls : List ApiCall) : List (LedgerEntry Resource) :=
  calls.filterMap fun
    | .acquire r => some (.acquire r)
    | .realloc r => some (.reuse r)
    | .release r => some (.release r)
    | _ => none

theorem ledgerOf_append (xs ys : List ApiCall) :
    ledgerOf (xs ++ ys) = ledgerOf xs ++ ledgerOf ys :=
  List.filterMap_append

theorem ledgerOf_flatMap {β : Type} (f : β → List ApiCall) (xs : List β) :
    ledgerOf (xs.flatMap f) = xs.flatMap fun x => ledgerOf (f x) := by
  induction xs with
  | nil => rfl
  | cons x xs ih => rw [List.flatMap_cons, ledgerOf_append, ih, List.flatMap_cons]

/-! ## One entry -/

/-- The type query fails for an entry of the process whose handle was duplicated. -/
def TableEntry.typeFails (pid : UInt32) (e : TableEntry) : Bool :=
  (e.1.processId = pid) && e.2.duplicated && !e.2.typeQueried

/-- The entries for an entry of the table, by the exits of the loop body. -/
theorem ledgerOf_lookupCalls (pid : UInt32) (e : TableEntry) :
    e.typeFails pid = true ∧ ledgerOf (e.lookupCalls pid) =
        [.acquire .dupHandle, .acquire .objectTypeInfo, .release .dupHandle] ∨
      e.typeFails pid = false ∧ ledgerOf (e.lookupCalls pid) ∈
        [[],
          [.acquire .dupHandle, .acquire .objectTypeInfo, .release .objectTypeInfo,
            .release .dupHandle],
          [.acquire .dupHandle, .acquire .objectTypeInfo, .acquire .objectNameInfo,
            .release .objectTypeInfo, .release .objectNameInfo, .release .dupHandle],
          [.acquire .dupHandle, .acquire .objectTypeInfo, .acquire .objectNameInfo,
            .reuse .objectNameInfo, .release .objectTypeInfo, .release .objectNameInfo,
            .release .dupHandle]] := by
  by_cases hown : e.1.processId = pid
  case neg => simp [TableEntry.typeFails, TableEntry.lookupCalls, hown, ledgerOf]
  cases hdup : e.2.duplicated with
  | false => simp [TableEntry.typeFails, TableEntry.lookupCalls, hdup, ledgerOf]
  | true =>
    cases htype : e.2.typeQueried with
    | false => simp [TableEntry.typeFails, TableEntry.lookupCalls, hown, hdup, htype, ledgerOf]
    | true =>
      right
      refine ⟨by simp [TableEntry.typeFails, htype], ?_⟩
      by_cases haccess : e.1.grantedAccess = 0x0012019f
      · simp [TableEntry.lookupCalls, hown, hdup, htype, haccess, ledgerOf]
      · -- the name is queried once or twice, and the peer is asked for or not
        cases hname : e.2.nameQueried <;> cases hafd : e.isAfd <;>
          simp [TableEntry.lookupCalls, TableEntry.nameCalls, hown, hdup, htype, haccess, hname,
            hafd, ledgerOf]

/-- The calls for an entry release what they acquire, unless the type query fails. They are about
the three variables of the loop body only. -/
theorem entry_ledger (pid : UInt32) (e : TableEntry) :
    Sound (ledgerOf (e.lookupCalls pid)) ∧
      (Balanced (ledgerOf (e.lookupCalls pid)) ↔ e.typeFails pid = false) ∧
      ∀ entry ∈ ledgerOf (e.lookupCalls pid),
        entry.resource ≠ .processHandle ∧ entry.resource ≠ .handleInfo := by
  rcases ledgerOf_lookupCalls pid e with ⟨hfails, hledger⟩ | ⟨hfails, hledger⟩
  · rw [hledger, hfails]
    refine ⟨fun r => ?_, iff_of_false (fun h => ?_) (by simp), by decide⟩
    · cases r <;> exact ⟨_, rfl⟩
    · -- the type buffer is still held
      exact absurd (h .objectTypeInfo) (by decide)
  · have hbalanced : Balanced (ledgerOf (e.lookupCalls pid)) := by
      intro r
      simp only [List.mem_cons, List.not_mem_nil, or_false] at hledger
      rcases hledger with h | h | h | h <;> rw [h] <;> cases r <;> rfl
    refine ⟨hbalanced.sound, iff_of_true hbalanced hfails, ?_⟩
    simp only [List.mem_cons, List.not_mem_nil, or_false] at hledger
    rcases hledger with h | h | h | h <;> rw [h] <;> decide

/-! ## One lookup -/

/-- The calls of the loop. Without a match they are those for all the entries. -/
theorem table_ledger (pid : UInt32) (ipaddr : Bytes) (handles : List TableEntry) :
    Sound (ledgerOf (tableCalls pid ipaddr handles)) ∧
      (∀ entry ∈ ledgerOf (tableCalls pid ipaddr handles),
        entry.resource ≠ .processHandle ∧ entry.resource ≠ .handleInfo) ∧
      (handles.find? (TableEntry.looksRight pid ipaddr) = none →
        (Balanced (ledgerOf (tableCalls pid ipaddr handles)) ↔
          ∀ e ∈ handles, e.typeFails pid = false)) := by
  induction handles with
  | nil => exact ⟨balanced_nil.sound, by simp [tableCalls, ledgerOf],
      fun _ => iff_of_true balanced_nil (by simp)⟩
  | cons e rest ih =>
    obtain ⟨hsound, hbalanced, hothers⟩ := entry_ledger pid e
    obtain ⟨hsoundRest, hothersRest, hbalancedRest⟩ := ih
    cases hlooks : e.looksRight pid ipaddr with
    | true =>
      have hcalls : tableCalls pid ipaddr (e :: rest) = e.lookupCalls pid := by
        simp [tableCalls, hlooks]
      rw [hcalls]
      exact ⟨hsound, hothers, fun hnone => by simp [hlooks] at hnone⟩
    | false =>
      have hcalls : tableCalls pid ipaddr (e :: rest) =
          e.lookupCalls pid ++ tableCalls pid ipaddr rest := by
        simp [tableCalls, hlooks]
      rw [hcalls, ledgerOf_append]
      refine ⟨sound_append hsound hsoundRest, fun entry hentry => ?_, fun hnone => ?_⟩
      · rcases List.mem_append.mp hentry with hentry | hentry
        · exact hothers entry hentry
        · exact hothersRest entry hentry
      · have hnone' : rest.find? (TableEntry.looksRight pid ipaddr) = none := by
          simpa [List.find?_cons, hlooks] using hnone
        rw [balanced_append hsound hsoundRest, hbalanced, hbalancedRest hnone',
          List.forall_mem_cons]

/-- The ledger of the calls before the loop. -/
def openingLedger (mismatches : Nat) : List (LedgerEntry Resource) :=
  [.acquire .processHandle, .acquire .handleInfo] ++
    List.replicate mismatches (.reuse .handleInfo)

/-- Before the loop the process handle and the table are held, and nothing else. -/
theorem exec_openingLedger (mismatches : Nat) (r : Resource) :
    exec (LedgerEntry.post r) .empty (openingLedger mismatches) =
      some ⟨r = .processHandle || r = .handleInfo, 0⟩ := by
  rw [openingLedger, exec_append]
  by_cases hr : r = .handleInfo
  · subst hr
    exact exec_post_replicate_reuse rfl mismatches
  · have hother : ∀ acc, exec (LedgerEntry.post r) acc
        (List.replicate mismatches (.reuse .handleInfo)) = some acc := by
      apply exec_post_of_untouched
      intro e he
      rw [List.eq_of_mem_replicate he]
      exact Ne.symm hr
    cases r <;> first | exact absurd rfl hr | exact hother _

/-- What a lookup has to avoid: a table that is not enumerated, a match, and a failed type query. -/
structure ReleasesAll (a : FinderAnswers) (ipaddr : Bytes) : Prop where
  enumerated : a.processOpened = true → a.handles.isSome = true
  noMatch : ∀ e ∈ a.table, e.looksRight a.pid ipaddr = false
  noFailure : ∀ e ∈ a.table, e.typeFails a.pid = false

theorem resource_opening {mismatches : Nat} {e : LedgerEntry Resource}
    (h : e ∈ openingLedger mismatches ++ [.release .handleInfo, .release .processHandle]) :
    e.resource = .processHandle ∨ e.resource = .handleInfo := by
  simp only [openingLedger, List.mem_append, List.mem_cons, List.not_mem_nil, or_false,
    List.mem_replicate] at h
  rcases h with ((rfl | rfl) | ⟨-, rfl⟩) | (rfl | rfl) <;> simp [LedgerEntry.resource]

theorem ledgerOf_calls {a : FinderAnswers} (hopened : a.processOpened = true) (ipaddr : Bytes) :
    ledgerOf (a.calls ipaddr) = openingLedger a.mismatches ++
      ledgerOf (tableCalls a.pid ipaddr a.table) ++
        if a.isEnumerated && (a.firstMatch ipaddr).isNone then
          [.release .handleInfo, .release .processHandle] else [] := by
  have hopening : ledgerOf ([.acquire .processHandle, .acquire .handleInfo] ++
      List.replicate a.mismatches (.realloc .handleInfo)) = openingLedger a.mismatches := by
    simp [ledgerOf, openingLedger]
  rw [FinderAnswers.calls, if_neg (by simp [hopened]), ledgerOf_append, ledgerOf_append, hopening]
  split <;> rfl

/-- A lookup releases nothing twice, and releases what it acquires exactly when it avoids the three
exits. -/
theorem lookup_ledger (a : FinderAnswers) (ipaddr : Bytes) :
    Sound (ledgerOf (a.calls ipaddr)) ∧
      (Balanced (ledgerOf (a.calls ipaddr)) ↔ ReleasesAll a ipaddr) := by
  cases hopened : a.processOpened with
  | false =>
    have hcalls : a.calls ipaddr = [] := by simp [FinderAnswers.calls, hopened]
    have htable : a.table = [] := by simp [FinderAnswers.table, hopened]
    rw [hcalls]
    refine ⟨balanced_nil.sound, iff_of_true balanced_nil ⟨?_, ?_, ?_⟩⟩
    · simp [hopened]
    · simp [htable]
    · simp [htable]
  | true =>
    have hopening : Sound (openingLedger a.mismatches) :=
      fun r => ⟨_, exec_openingLedger a.mismatches r⟩
    obtain ⟨hsound, hothers, hbalanced⟩ := table_ledger a.pid ipaddr a.table
    rw [ledgerOf_calls hopened]
    cases hclosing : a.isEnumerated && (a.firstMatch ipaddr).isNone with
    | true =>
      obtain ⟨henumerated, hnone⟩ := by simpa using hclosing
      have hbracket : Balanced (openingLedger a.mismatches ++
          [.release .handleInfo, .release .processHandle]) := by
        intro r
        rw [exec_append, exec_openingLedger]
        cases r <;> rfl
      have hother : ∀ e ∈ openingLedger a.mismatches ++
          [.release .handleInfo, .release .processHandle],
          ∀ e' ∈ ledgerOf (tableCalls a.pid ipaddr a.table), e.resource ≠ e'.resource := by
        intro e he e' he' heq
        rcases resource_opening he with h | h
        · exact (hothers e' he').1 (heq.symm.trans h)
        · exact (hothers e' he').2 (heq.symm.trans h)
      obtain ⟨hsound', hiff⟩ := balanced_bracket_iff hother hbracket hsound
      refine ⟨hsound', ?_⟩
      simp only [if_true]
      rw [hiff, hbalanced hnone]
      constructor
      · intro hfailure
        refine ⟨fun _ => ?_, fun e he => ?_, hfailure⟩
        · simpa [FinderAnswers.isEnumerated, hopened] using henumerated
        · simpa using List.find?_eq_none.mp hnone e he
      · exact ReleasesAll.noFailure
    | false =>
      -- the process handle and the table are still held
      have hopen : ¬ Balanced (openingLedger a.mismatches) := by
        intro h
        have hheld := (exec_openingLedger a.mismatches .processHandle).symm.trans (h .processHandle)
        exact absurd hheld (by decide)
      simp only [Bool.false_eq_true, if_false, List.append_nil]
      refine ⟨sound_append hopening hsound, iff_of_false (fun h => ?_) (fun h => ?_)⟩
      · exact hopen ((balanced_append hopening hsound).mp h).1
      · have henumerated : a.isEnumerated = true := by
          simp [FinderAnswers.isEnumerated, hopened, h.enumerated hopened]
        have hnone : a.firstMatch ipaddr = none :=
          List.find?_eq_none.mpr fun e he => by simp [h.noMatch e he]
        simp [henumerated, hnone] at hclosing

/-! ## Any number of lookups -/

/-- One lookup after the other, as the commands of the client ask for them. -/
def findSockets : List (FinderAnswers × Bytes) → Win Unit
  | [] => pure ()
  | (a, ipaddr) :: rest => do
      let _ ← findSocketByIpAddr a ipaddr
      findSockets rest

theorem run_findSockets (lookups : List (FinderAnswers × Bytes)) (c : Ctx) :
    ∃ err, (findSockets lookups).run c = some ((), { c with
      lastError := err
      calls := c.calls ++ lookups.flatMap fun l => l.1.calls l.2 }) := by
  induction lookups generalizing c with
  | nil => exact ⟨c.lastError, by simp [findSockets]⟩
  | cons l rest ih =>
    obtain ⟨err, hrun⟩ := run_findSocketByIpAddr l.1 l.2 c
    obtain ⟨err', hrest⟩ := ih { c with lastError := err, calls := c.calls ++ l.1.calls l.2 }
    refine ⟨err', ?_⟩
    rw [findSockets, StateT.run_bind, hrun]
    simpa using hrest

/-- **Releases**: after any number of lookups every handle and buffer has been released once exactly
when no lookup found a match, failed to enumerate the table or failed to query a type. -/
theorem lookups_balanced_iff (lookups : List (FinderAnswers × Bytes)) (c : Ctx) :
    ∃ c' cs, (findSockets lookups).run c = some ((), c') ∧ c'.calls = c.calls ++ cs ∧
      (Balanced (ledgerOf cs) ↔ ∀ l ∈ lookups, ReleasesAll l.1 l.2) := by
  obtain ⟨err, hrun⟩ := run_findSockets lookups c
  refine ⟨_, _, hrun, rfl, ?_⟩
  rw [ledgerOf_flatMap, balanced_flatMap_iff fun l _ => (lookup_ledger l.1 l.2).1]
  constructor
  · intro h l hl
    exact (lookup_ledger l.1 l.2).2.mp (h l hl)
  · intro h l hl
    exact (lookup_ledger l.1 l.2).2.mpr (h l hl)

/-- A table with one entry: the socket that is connected to the server. -/
def connectedSocket : FinderAnswers where
  pid := 7
  processOpened := true
  mismatches := 0
  handles := some [(⟨7, 0x1A4, 0x0016019f⟩,
    ⟨true, true, some ⟨22, "\\Device\\Afd"⟩, none, .ok ⟨172, 65, 206, 180⟩⟩)]

/-- A lookup that finds its socket keeps the table and the process handle. -/
theorem match_not_released :
    ∃ c', (findSockets [(connectedSocket, ascii "172.65.206.180")]).run ⟨Globals.init, 0, []⟩ =
      some ((), c') ∧ ¬ Balanced (ledgerOf c'.calls) := by
  refine ⟨_, rfl, fun h => ?_⟩
  exact absurd (h .processHandle) (by decide)

end Doreto.Interop
