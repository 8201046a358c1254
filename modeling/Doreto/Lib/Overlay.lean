import Doreto.Lib.CString

/-!
# Blocks Written over the Front of Memory

Blocks of different lengths are written over the front of the same memory, one after another. At
each position the memory shows the last block that reached it, and what was there before when none
did.

- `storeAll`: memory after a list of blocks.
- `lastReaching`: the last block that reached a position.

## Main results

- `getElem?_storeAll`: what each position shows.
-/

namespace Doreto.Lib

variable {α : Type*}

theorem getElem?_store (block mem : List α) (i : Nat) :
    (store block mem)[i]? = if i < block.length then block[i]? else mem[i]? := by
  rw [store, List.getElem?_append]
  split
  · rfl
  · rw [List.getElem?_drop]
    congr 1
    omega

/-- Memory after the blocks were written at its start, in this order. -/
def storeAll (blocks : List (List α)) (mem : List α) : List α :=
  blocks.foldl (fun mem block => store block mem) mem

@[simp] theorem storeAll_nil (mem : List α) : storeAll [] mem = mem := rfl

@[simp] theorem storeAll_concat (blocks : List (List α)) (block mem : List α) :
    storeAll (blocks ++ [block]) mem = store block (storeAll blocks mem) := by
  simp [storeAll]

theorem length_storeAll {blocks : List (List α)} {mem : List α}
    (h : ∀ block ∈ blocks, block.length ≤ mem.length) :
    (storeAll blocks mem).length = mem.length := by
  induction blocks using List.reverseRecOn with
  | nil => rfl
  | append_singleton blocks block ih =>
    have hold := ih fun b hb => h b (List.mem_append_left _ hb)
    have hlast := h block (List.mem_append_right _ (List.mem_singleton_self _))
    rw [storeAll_concat, length_store (by omega), hold]

/-- The last block that reached the position. -/
def lastReaching (i : Nat) (blocks : List (List α)) : Option (List α) :=
  (blocks.filter fun block => i < block.length).getLast?

@[simp] theorem lastReaching_nil (i : Nat) : lastReaching i ([] : List (List α)) = none := rfl

theorem lastReaching_concat (i : Nat) (blocks : List (List α)) (block : List α) :
    lastReaching i (blocks ++ [block]) =
      if i < block.length then some block else lastReaching i blocks := by
  unfold lastReaching
  rw [List.filter_append]
  split
  · simp [*]
  · simp [*]

/-- Each position shows the last block that reached it. -/
theorem getElem?_storeAll (blocks : List (List α)) (mem : List α) (i : Nat) :
    (storeAll blocks mem)[i]? =
      match lastReaching i blocks with
      | some block => block[i]?
      | none => mem[i]? := by
  induction blocks using List.reverseRecOn with
  | nil => rfl
  | append_singleton blocks block ih =>
    rw [storeAll_concat, getElem?_store, lastReaching_concat, ih]
    -- the block covers the position, or what was there stays
    by_cases hi : i < block.length
    · rw [if_pos hi, if_pos hi]
    · rw [if_neg hi, if_neg hi]

end Doreto.Lib
