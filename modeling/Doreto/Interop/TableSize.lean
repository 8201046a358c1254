import Doreto.Interop.SocketLookup
import Mathlib.Tactic.Ring

/-!
# The Size of the Handle Table

`FindSocketByIpAddr` does not know how much room the handle table takes, and doubles its buffer for
as long as `NtQuerySystemInformation` finds it too small. The size is a `ULONG`: the sixteenth
doubling makes it 0, and from there on it stays 0.

`findSocketByIpAddr` takes the number of doublings as an answer of the system. Here the loop itself
is followed, and the two agree.

## Main results

- `toNat_handleInfoSize`: the size after some doublings.
- `growing_iff`: the lookup returns exactly when the table fits into the buffer of one of the first
  sixteen queries, and what it returns and does is then what `findSocketByIpAddr` says.
-/

namespace Doreto.Interop

open Doreto.Lib

/-! ## The loop -/

/-- The answers of `NtQuerySystemInformation`: a buffer is too small when the table does not fit
into it. From one query to the next the table may change. -/
structure TableQueries where
  /-- The bytes that the table takes at a query. It has a header, so that it takes some. -/
  needed : Nat → Nat
  needed_pos : ∀ k, 0 < needed k
  /-- The answer to a query whose buffer is large enough. -/
  handles : Nat → Option (List (SystemHandle × EntryAnswers))

/-- `while (NtQuerySystemInformation(...) == STATUS_INFO_LENGTH_MISMATCH)`, from the query `k` on.
Without a result it has not ended within the fuel. -/
def growUntilFits (q : TableQueries) :
    Nat → Nat → UInt32 → Win (Option (Option (List (SystemHandle × EntryAnswers))))
  | 0, _, _ => return none
  | fuel + 1, k, handleInfoSize =>
      if handleInfoSize.toNat < q.needed k then do
        Win.call (.realloc .handleInfo)
        growUntilFits q fuel (k + 1) (handleInfoSize * 2)
      else
        return some (q.handles k)

/-- `FindSocketByIpAddr` with its first loop as the source has it. Without a result the loop has
not ended within the fuel. -/
def findSocketGrowing (q : TableQueries) (fuel : Nat) (a : FinderAnswers) (ipaddr : Bytes) :
    Win (Option Socket) := do
  if a.processOpened = false then
    return some 1
  else
    Win.call (.acquire .processHandle)
    Win.call (.acquire .handleInfo)
    match ← growUntilFits q fuel 0 0x10000 with
    | none => return none
    -- the query failed: the socket 1 is the answer, and nothing is released
    | some none => return some 1
    | some (some handles) =>
        match ← examineHandles a.pid ipaddr handles with
        | some socket => return some socket
        | none => do
            Win.call (.release .handleInfo)
            Win.call (.release .processHandle)
            return some invalidSocket

/-! ## The sizes -/

/-- `handleInfoSize` after `k` doublings. -/
def handleInfoSize : Nat → UInt32
  | 0 => 0x10000
  | k + 1 => handleInfoSize k * 2

/-- The sixteenth doubling goes over the end of a `ULONG`. -/
theorem toNat_handleInfoSize (k : Nat) :
    (handleInfoSize k).toNat = if k < 16 then 2 ^ (16 + k) else 0 := by
  induction k with
  | zero => rfl
  | succ k ih =>
    have hstep : (handleInfoSize (k + 1)).toNat = (handleInfoSize k).toNat * 2 % 2 ^ 32 :=
      UInt32.toNat_mul _ _
    rw [hstep, ih]
    by_cases hk : k + 1 < 16
    · have hlt : 2 ^ (16 + (k + 1)) < 2 ^ 32 := Nat.pow_lt_pow_right (by omega) (by omega)
      have hdouble : 2 ^ (16 + k) * 2 = 2 ^ (16 + (k + 1)) := rfl
      rw [if_pos (by omega), if_pos hk, hdouble, Nat.mod_eq_of_lt hlt]
    · rw [if_neg hk]
      by_cases hk' : k < 16
      · obtain rfl : k = 15 := by omega
        rfl
      · rw [if_neg hk', Nat.zero_mul, Nat.zero_mod]

/-- The table fits into the buffer of the query. -/
def TableQueries.fits (q : TableQueries) (k : Nat) : Bool :=
  q.needed k ≤ (handleInfoSize k).toNat

/-- The first query whose buffer is large enough, among those before the size is 0. -/
def TableQueries.firstFit (q : TableQueries) : Option Nat :=
  (List.range 16).find? fun k => q.needed k ≤ 2 ^ (16 + k)

/-- No table fits into a buffer of size 0. -/
theorem TableQueries.fits_iff {q : TableQueries} {k : Nat} :
    q.fits k = true ↔ k < 16 ∧ q.needed k ≤ 2 ^ (16 + k) := by
  have hpos := q.needed_pos k
  rw [TableQueries.fits, decide_eq_true_iff, toNat_handleInfoSize]
  split
  · simp [*]
  · constructor
    · intro hle
      omega
    · intro ⟨hlt, _⟩
      contradiction

theorem TableQueries.firstFit_eq_some {q : TableQueries} {k : Nat} (h : q.firstFit = some k) :
    q.fits k = true ∧ ∀ j < k, q.fits j = false := by
  obtain ⟨hneeded, hmem, hbefore⟩ := List.find?_range_eq_some.mp h
  refine ⟨TableQueries.fits_iff.mpr ⟨List.mem_range.mp hmem, by simpa using hneeded⟩, ?_⟩
  intro j hj
  rw [Bool.eq_false_iff]
  intro hfits
  have hlt := (TableQueries.fits_iff.mp hfits).2
  have hnot := hbefore j hj
  simp only [Bool.not_eq_eq_eq_not, Bool.not_true, decide_eq_false_iff_not] at hnot
  exact hnot hlt

theorem TableQueries.firstFit_eq_none {q : TableQueries} (h : q.firstFit = none) (k : Nat) :
    q.fits k = false := by
  rw [Bool.eq_false_iff]
  intro hfits
  obtain ⟨hlt, hneeded⟩ := TableQueries.fits_iff.mp hfits
  have hnot := List.find?_range_eq_none.mp h k hlt
  simp only [Bool.not_eq_eq_eq_not, Bool.not_true, decide_eq_false_iff_not] at hnot
  exact hnot hneeded

/-! ## The runs of the loop -/

/-- The loop ends at the first query whose buffer is large enough. -/
theorem run_growUntilFits {q : TableQueries} {n k : Nat} (hfits : q.fits (k + n) = true)
    (hbefore : ∀ j < n, q.fits (k + j) = false) {fuel : Nat} (hfuel : n < fuel) (c : Ctx) :
    (growUntilFits q fuel k (handleInfoSize k)).run c =
      some (some (q.handles (k + n)),
        { c with calls := c.calls ++ List.replicate n (.realloc .handleInfo) }) := by
  induction n generalizing k fuel c with
  | zero =>
    obtain ⟨fuel, rfl⟩ : ∃ m, fuel = m + 1 := ⟨fuel - 1, by omega⟩
    have hle : q.needed k ≤ (handleInfoSize k).toNat := by simpa [TableQueries.fits] using hfits
    rw [growUntilFits, if_neg (by omega)]
    simp
  | succ n ih =>
    obtain ⟨fuel, rfl⟩ : ∃ m, fuel = m + 1 := ⟨fuel - 1, by omega⟩
    have hlt : (handleInfoSize k).toNat < q.needed k := by
      simpa [TableQueries.fits] using hbefore 0 (by omega)
    have hnext : ∀ j, k + 1 + j = k + (j + 1) := fun j => by omega
    have hfuel' : n < fuel := by omega
    have hrest := ih (k := k + 1) (by rw [hnext]; exact hfits)
      (fun j hj => by rw [hnext]; exact hbefore (j + 1) (by omega)) hfuel'
      { c with calls := c.calls ++ [.realloc .handleInfo] }
    rw [growUntilFits, if_pos hlt]
    simpa [handleInfoSize, hnext, List.replicate_succ] using hrest

/-- While no buffer is large enough the loop does not end. -/
theorem run_growUntilFits_none {q : TableQueries} {fuel k : Nat}
    (h : ∀ j < fuel, q.fits (k + j) = false) (c : Ctx) :
    ∃ c', (growUntilFits q fuel k (handleInfoSize k)).run c = some (none, c') := by
  induction fuel generalizing k c with
  | zero => exact ⟨c, rfl⟩
  | succ fuel ih =>
    have hlt : (handleInfoSize k).toNat < q.needed k := by
      simpa [TableQueries.fits] using h 0 (by omega)
    have hnext : ∀ j, k + 1 + j = k + (j + 1) := fun j => by omega
    obtain ⟨c', hrest⟩ := ih (k := k + 1)
      (fun j hj => by rw [hnext]; exact h (j + 1) (by omega))
      { c with calls := c.calls ++ [.realloc .handleInfo] }
    refine ⟨c', ?_⟩
    rw [growUntilFits, if_pos hlt]
    simpa [handleInfoSize] using hrest

/-- Behind a loop that ends the lookup goes on as `findSocketByIpAddr` does. -/
theorem run_findSocketGrowing {q : TableQueries} {k : Nat} (hfit : q.firstFit = some k)
    (fuel : Nat) (hfuel : k < fuel) (a : FinderAnswers) (ipaddr : Bytes) (c : Ctx) :
    (findSocketGrowing q fuel a ipaddr).run c =
      ((findSocketByIpAddr { a with mismatches := k, handles := q.handles k } ipaddr).run c).map
        fun result => (some result.1, result.2) := by
  obtain ⟨hfits, hbefore⟩ := TableQueries.firstFit_eq_some hfit
  have hzero : ∀ j, 0 + j = j := Nat.zero_add
  have hloop := run_growUntilFits (k := 0) (by rw [hzero]; exact hfits)
    (fun j hj => by rw [hzero]; exact hbefore j hj) hfuel
  have hsize : handleInfoSize 0 = 0x10000 := rfl
  rw [hzero, hsize] at hloop
  cases hopened : a.processOpened with
  | false => simp [findSocketGrowing, findSocketByIpAddr, hopened]
  | true =>
    cases hhandles : q.handles k with
    | none =>
      simp [findSocketGrowing, findSocketByIpAddr, hopened, hloop, hhandles, run_growHandleInfo]
    | some handles =>
      obtain ⟨err, hrun⟩ := run_examineHandles a.pid ipaddr handles { c with
        calls := c.calls ++ [.acquire .processHandle] ++ [.acquire .handleInfo] ++
          List.replicate k (.realloc .handleInfo) }
      simp only [findSocketGrowing, findSocketByIpAddr, hopened, Bool.true_eq_false, if_false,
        StateT.run_bind, Win.run_call, Option.bind_eq_bind, Option.bind_some, hloop, hhandles,
        run_growHandleInfo, hrun]
      cases handles.find? (TableEntry.looksRight a.pid ipaddr) <;> simp

/-- A loop that does not end gives no result. -/
theorem run_findSocketGrowing_none {q : TableQueries} (fuel : Nat)
    (h : ∀ j < fuel, q.fits j = false) {a : FinderAnswers} (hopened : a.processOpened = true)
    (ipaddr : Bytes) (c : Ctx) :
    ∃ c', (findSocketGrowing q fuel a ipaddr).run c = some (none, c') := by
  obtain ⟨c', hloop⟩ := run_growUntilFits_none (q := q) (k := 0)
    (fun j hj => by rw [Nat.zero_add]; exact h j hj)
    { c with calls := c.calls ++ [.acquire .processHandle] ++ [.acquire .handleInfo] }
  have hsize : handleInfoSize 0 = 0x10000 := rfl
  rw [hsize] at hloop
  refine ⟨c', ?_⟩
  simp [findSocketGrowing, hopened] at hloop ⊢
  simp [hloop]

/-- The lookup returns within some fuel exactly when the process is not opened or the table fits
into the buffer of one of the first sixteen queries. What it returns and does is what
`findSocketByIpAddr` returns and does for the first such query. -/
theorem growing_iff (q : TableQueries) (a : FinderAnswers) (ipaddr : Bytes) (c c' : Ctx)
    (socket : Socket) :
    (∃ fuel, (findSocketGrowing q fuel a ipaddr).run c = some (some socket, c')) ↔
      (a.processOpened = false ∨ q.firstFit ≠ none) ∧
        (findSocketByIpAddr { a with
          mismatches := q.firstFit.getD 0
          handles := q.handles (q.firstFit.getD 0) } ipaddr).run c = some (socket, c') := by
  by_cases hclosed : a.processOpened = false
  case pos => simp [findSocketGrowing, findSocketByIpAddr, hclosed]
  case neg =>
    have hopened : a.processOpened = true := by simpa using hclosed
    cases hfit : q.firstFit with
    | none =>
      -- no buffer is ever large enough, also not behind the last doubling
      have hnever := TableQueries.firstFit_eq_none hfit
      apply iff_of_false
      · rintro ⟨fuel, hrun⟩
        obtain ⟨c'', hnone⟩ := run_findSocketGrowing_none fuel (fun j _ => hnever j) hopened
          ipaddr c
        rw [hnone] at hrun
        simp at hrun
      · rintro ⟨hclosed' | hfit', -⟩
        · exact hclosed hclosed'
        · exact hfit' rfl
    | some k =>
      have hresult := fun fuel hfuel => run_findSocketGrowing hfit fuel hfuel a ipaddr c
      simp only [Option.getD_some, ne_eq, reduceCtorEq, not_false_eq_true, or_true, true_and]
      constructor
      · rintro ⟨fuel, hrun⟩
        by_cases hfuel : k < fuel
        · rw [hresult fuel hfuel] at hrun
          obtain ⟨result, hresult', heq⟩ := Option.map_eq_some_iff.mp hrun
          simp only [Prod.mk.injEq, Option.some.injEq] at heq
          rw [hresult', ← heq.1, ← heq.2]
        · obtain ⟨-, hbefore⟩ := TableQueries.firstFit_eq_some hfit
          obtain ⟨c'', hnone⟩ := run_findSocketGrowing_none fuel
            (fun j hj => hbefore j (by omega)) hopened ipaddr c
          rw [hnone] at hrun
          simp at hrun
      · intro hrun
        refine ⟨k + 1, ?_⟩
        rw [hresult (k + 1) (by omega), hrun]
        rfl

end Doreto.Interop
