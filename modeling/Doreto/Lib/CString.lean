import Mathlib.Data.List.Basic
import Mathlib.Data.List.Infix
import Mathlib.Data.List.TakeWhile

/-!
# Strings That End at a Terminator

A C string is a pointer into memory together with the convention that the string stops at the
first terminator. Here memory is the list of elements mapped from the pointer on, over any
element type with a chosen terminator `nul`.

- `cBody`: the elements before the first terminator.
- `scan`: the loop that looks for the terminator, `none` when it runs off the mapped memory.
- `store`: a block written over the front of memory.
- `packets`: the non-empty pieces between terminators.
- `strstr`: the part of a string from the first occurrence of a word on.
-/

namespace Doreto.Lib

variable {α : Type*} [DecidableEq α] {nul : α}

/-! ## The string before the terminator -/

/-- The elements before the first terminator. -/
def cBody (nul : α) (mem : List α) : List α :=
  mem.takeWhile (· ≠ nul)

/-- The loop that looks for the terminator. It fails when the mapped memory has none. -/
def scan (nul : α) (mem : List α) : Option (List α) :=
  if nul ∈ mem then some (cBody nul mem) else none

@[simp] theorem cBody_nil : cBody nul ([] : List α) = [] := rfl

@[simp] theorem cBody_cons_nul (mem : List α) : cBody nul (nul :: mem) = [] := by
  simp [cBody]

theorem cBody_cons_of_ne {a : α} (ha : a ≠ nul) (mem : List α) :
    cBody nul (a :: mem) = a :: cBody nul mem := by
  simp [cBody, ha]

theorem scan_of_mem {mem : List α} (h : nul ∈ mem) : scan nul mem = some (cBody nul mem) :=
  if_pos h

theorem scan_of_not_mem {mem : List α} (h : nul ∉ mem) : scan nul mem = none :=
  if_neg h

theorem not_mem_cBody (nul : α) (mem : List α) : nul ∉ cBody nul mem := by
  intro h
  have := List.mem_takeWhile_imp h
  simp at this

theorem cBody_isPrefix (nul : α) (mem : List α) : cBody nul mem <+: mem :=
  List.takeWhile_prefix _

/-- Without a terminator the string is everything there is, and goes on behind it. -/
theorem cBody_append_of_not_mem {xs : List α} (h : nul ∉ xs) (ys : List α) :
    cBody nul (xs ++ ys) = xs ++ cBody nul ys := by
  apply List.takeWhile_append_of_pos
  intro a ha
  have hne : a ≠ nul := fun e => h (e ▸ ha)
  simpa using hne

theorem cBody_of_not_mem {xs : List α} (h : nul ∉ xs) : cBody nul xs = xs := by
  simpa using cBody_append_of_not_mem h []

/-- A terminator ends the string whatever lies behind it. -/
theorem cBody_append_of_mem {xs : List α} (h : nul ∈ xs) (ys : List α) :
    cBody nul (xs ++ ys) = cBody nul xs := by
  induction xs with
  | nil => simp at h
  | cons a xs ih =>
    by_cases ha : a = nul
    · subst ha; simp
    · have hxs : nul ∈ xs := by
        rcases List.mem_cons.mp h with rfl | hxs
        · exact absurd rfl ha
        · exact hxs
      rw [List.cons_append, cBody_cons_of_ne ha, cBody_cons_of_ne ha, ih hxs]

/-- Memory that holds a terminator is a string, the terminator and the rest. -/
theorem eq_cBody_append {mem : List α} (h : nul ∈ mem) :
    ∃ rest, mem = cBody nul mem ++ nul :: rest := by
  induction mem with
  | nil => simp at h
  | cons a mem ih =>
    by_cases ha : a = nul
    · subst ha; exact ⟨mem, by simp⟩
    · have hmem : nul ∈ mem := by
        rcases List.mem_cons.mp h with rfl | hmem
        · exact absurd rfl ha
        · exact hmem
      obtain ⟨rest, hrest⟩ := ih hmem
      exact ⟨rest, by rw [cBody_cons_of_ne ha, List.cons_append, ← hrest]⟩

/-! ## Writing over the front of memory -/

/-- Memory after `block` was written at its start. -/
def store (block mem : List α) : List α :=
  block ++ mem.drop block.length

omit [DecidableEq α] in
@[simp] theorem store_nil (mem : List α) : store [] mem = mem := by
  simp [store]

omit [DecidableEq α] in
theorem length_store {block mem : List α} (h : block.length ≤ mem.length) :
    (store block mem).length = mem.length := by
  simp [store]; omega

omit [DecidableEq α] in
/-- The written block is what the first cells hold. -/
theorem take_store (block mem : List α) : (store block mem).take block.length = block := by
  simp [store]

omit [DecidableEq α] in
/-- A block over one that begins with it changes nothing. -/
theorem store_store_of_isPrefix {block block' : List α} (h : block <+: block') (mem : List α) :
    store block (store block' mem) = store block' mem := by
  obtain ⟨rest, rfl⟩ := h
  simp [store]

/-! ## Packets -/

/-- The non-empty pieces between terminators. -/
def packets (nul : α) (bytes : List α) : List (List α) :=
  (bytes.splitOn nul).filter (· ≠ [])

/-- One string as a list of packets: none when it is empty. -/
def packet (xs : List α) : List (List α) :=
  if xs = [] then [] else [xs]

@[simp] theorem packets_nil : packets nul ([] : List α) = [] := by
  simp [packets]

theorem packets_of_not_mem {xs : List α} (h : nul ∉ xs) : packets nul xs = packet xs := by
  have hsplit : xs.splitOn nul = [xs] := by
    rw [List.splitOn_eq_splitOnP]
    -- nothing in the list is a terminator, so there is one piece
    apply List.splitOnP_eq_singleton
    intro x hx
    have hne : x ≠ nul := fun e => h (e ▸ hx)
    simpa using hne
  by_cases hxs : xs = [] <;> simp [packets, packet, hsplit, hxs]

/-- The first terminator ends the first packet. -/
theorem packets_append_nul {xs : List α} (h : nul ∉ xs) (ys : List α) :
    packets nul (xs ++ nul :: ys) = packet xs ++ packets nul ys := by
  have hsplit : (xs ++ nul :: ys).splitOn nul = xs :: ys.splitOn nul := by
    rw [List.splitOn_eq_splitOnP, List.splitOn_eq_splitOnP]
    refine List.splitOnP_append_cons_of_forall_mem (fun x hx => ?_) nul (by simp) ys
    have hne : x ≠ nul := fun e => h (e ▸ hx)
    simpa using hne
  rw [packets, hsplit]
  by_cases hxs : xs = [] <;> simp [packets, packet, hxs]

/-- Only terminators means no packet. -/
theorem packets_eq_nil_iff {xs : List α} : packets nul xs = [] ↔ ∀ x ∈ xs, x = nul := by
  induction xs with
  | nil => simp
  | cons a xs ih =>
    by_cases ha : a = nul
    · subst ha
      -- a terminator in front is an empty piece, which is no packet
      have hstep : packets a (a :: xs) = packets a xs := by
        have hnil : a ∉ ([] : List α) := List.not_mem_nil
        simpa [packet] using packets_append_nul hnil xs
      rw [hstep, ih]
      simp
    · -- the first element begins a packet
      have hne : packets nul (a :: xs) ≠ [] := by
        have hbody : packet (cBody nul (a :: xs)) ≠ [] := by
          simp [packet, cBody_cons_of_ne ha]
        by_cases hmem : nul ∈ a :: xs
        · obtain ⟨rest, hrest⟩ := eq_cBody_append hmem
          rw [hrest, packets_append_nul (not_mem_cBody nul _)]
          simp [hbody]
        · rw [packets_of_not_mem hmem]
          simp [packet]
      simp only [hne, false_iff]
      intro hall
      exact ha (hall a (by simp))

theorem cBody_eq_nil_iff {mem : List α} (h : nul ∈ mem) :
    cBody nul mem = [] ↔ mem.head? = some nul := by
  cases mem with
  | nil => simp at h
  | cons a mem =>
    by_cases ha : a = nul
    · subst ha; simp
    · simp [cBody_cons_of_ne ha, ha]

/-- The string read at a block carries the packets of the block and nothing from behind it exactly
when the block is one packet: nothing but terminators follows its first terminator, and there is a
terminator in it or right behind it. -/
theorem packets_cBody_append_iff {block rest : List α} (h : nul ∈ block ++ rest) :
    packets nul (cBody nul (block ++ rest)) = packets nul block ∧
        cBody nul (block ++ rest) <+: block ↔
      (∀ a ∈ block.drop (cBody nul block).length, a = nul) ∧
        (nul ∈ block ∨ rest.head? = some nul) := by
  -- either the string ends in the block or it goes on behind it
  by_cases hblock : nul ∈ block
  · obtain ⟨tail, htail⟩ := eq_cBody_append hblock
    have hdrop : block.drop (cBody nul block).length = nul :: tail := by
      have hsplit : (cBody nul block ++ nul :: tail).drop (cBody nul block).length = nul :: tail :=
        List.drop_left' rfl
      rwa [← htail] at hsplit
    have hpackets : packets nul block = packet (cBody nul block) ++ packets nul tail := by
      have hfirst := packets_append_nul (not_mem_cBody nul block) tail
      rwa [← htail] at hfirst
    rw [cBody_append_of_mem hblock, packets_of_not_mem (not_mem_cBody nul block), hpackets, hdrop]
    simp [hblock, cBody_isPrefix, ← packets_eq_nil_iff]
  · have hrest : nul ∈ rest := by simpa [hblock] using h
    -- the string runs over the end of the block unless a terminator is right behind it
    have hpre : block ++ cBody nul rest <+: block ↔ cBody nul rest = [] := by
      constructor
      · intro hle
        have hlen := hle.length_le
        rw [List.length_append] at hlen
        exact List.length_eq_zero_iff.mp (by omega)
      · intro hnil
        simp [hnil]
    rw [cBody_append_of_not_mem hblock, hpre, cBody_of_not_mem hblock, cBody_eq_nil_iff hrest]
    constructor
    · rintro ⟨-, hhead⟩
      simp [hhead]
    · rintro ⟨-, hhead⟩
      have hhead' : rest.head? = some nul := by simpa [hblock] using hhead
      simp [(cBody_eq_nil_iff hrest).mpr hhead', hhead']

/-! ## Sequences of packets -/

/-- Packets that are each followed by a terminator split back into the sequence. -/
theorem packets_flatMap_append_nul {xss : List (List α)} (h : ∀ xs ∈ xss, xs ≠ [] ∧ nul ∉ xs) :
    packets nul (xss.flatMap (· ++ [nul])) = xss := by
  induction xss with
  | nil => simp
  | cons xs xss ih =>
    obtain ⟨hne, hnul⟩ := h xs (by simp)
    have ihs : packets nul (xss.flatMap (· ++ [nul])) = xss := by
      apply ih
      intro ys hys
      exact h ys (by simp [hys])
    have hfirst := packets_append_nul hnul (xss.flatMap (· ++ [nul]))
    rw [ihs] at hfirst
    simpa [packet, hne] using hfirst

/-- Packets with nothing between them are one packet to a reader. -/
theorem packets_flatten_eq_iff {xss : List (List α)} (h : ∀ xs ∈ xss, xs ≠ [] ∧ nul ∉ xs) :
    packets nul xss.flatten = xss ↔ xss.length ≤ 1 := by
  have hnul : nul ∉ xss.flatten := by
    intro hmem
    obtain ⟨xs, hxs, hin⟩ := List.mem_flatten.mp hmem
    exact (h xs hxs).2 hin
  rw [packets_of_not_mem hnul]
  match xss with
  | [] => simp [packet]
  | [xs] =>
    have hne : xs ≠ [] := (h xs (by simp)).1
    simp [packet, hne]
  | xs :: ys :: xss =>
    have hne : xs ≠ [] := (h xs (by simp)).1
    simp [packet, hne]

omit [DecidableEq α] in
/-- With at most one element there is at most one packet, and it holds that element. -/
theorem eq_packet_flatten {xss : List (List α)} (h : ∀ xs ∈ xss, xs ≠ [])
    (hle : xss.flatten.length ≤ 1) : xss = packet xss.flatten := by
  match xss with
  | [] => simp [packet]
  | [] :: xss => exact absurd rfl (h [] (by simp))
  | (a :: xs) :: xss =>
    have hlen : xs.length + xss.flatten.length ≤ 0 := by
      simp only [List.flatten_cons, List.length_append, List.length_cons] at hle
      omega
    have hxs : xs = [] := List.length_eq_zero_iff.mp (by omega)
    have hflat : xss.flatten = [] := List.length_eq_zero_iff.mp (by omega)
    have hxss : xss = [] := by
      apply List.eq_nil_iff_forall_not_mem.mpr
      intro ys hys
      exact h ys (by simp [hys]) (List.flatten_eq_nil_iff.mp hflat ys hys)
    simp [hxs, hxss, packet]

omit [DecidableEq α] in
/-- Packets with nothing between them are determined by their elements exactly when there is at
most one element: two elements are one packet or two. -/
theorem flatten_determines_iff {xss : List (List α)} (h : ∀ xs ∈ xss, xs ≠ []) :
    (∀ yss : List (List α), (∀ ys ∈ yss, ys ≠ []) → yss.flatten = xss.flatten → yss = xss) ↔
      xss.flatten.length ≤ 1 := by
  constructor
  · intro hall
    match hflat : xss.flatten with
    | [] => simp
    | [a] => simp
    | a :: b :: rest =>
      have hone : [a :: b :: rest] = xss := hall _ (by simp) (by simp [hflat])
      have htwo : [[a], b :: rest] = xss := hall _ (by simp) (by simp [hflat])
      cases hone.trans htwo.symm
  · intro hle yss hys hflat
    calc yss = packet yss.flatten := eq_packet_flatten hys (hflat ▸ hle)
      _ = packet xss.flatten := by rw [hflat]
      _ = xss := (eq_packet_flatten h hle).symm

/-! ## Searching for a word -/

/-- The part of the string from the first occurrence of `word` on, if there is one. -/
def strstr (word : List α) : List α → Option (List α)
  | [] => if word = [] then some [] else none
  | a :: s => if word <+: a :: s then some (a :: s) else strstr word s

theorem strstr_isSome_iff {word s : List α} : (strstr word s).isSome = true ↔ word <:+: s := by
  induction s with
  | nil => by_cases hw : word = [] <;> simp [strstr, hw]
  | cons a s ih =>
    by_cases hp : word <+: a :: s
    · simp [strstr, hp, hp.isInfix]
    · simp [strstr, hp, ih, List.infix_cons_iff]

theorem strstr_eq_none_iff {word s : List α} : strstr word s = none ↔ ¬ word <:+: s := by
  rw [← strstr_isSome_iff]
  simp

/-- A word at the start of the string is its own first occurrence. -/
theorem strstr_of_startsWith {word s : List α} (h : word <+: s) : strstr word s = some s := by
  cases s with
  | nil => simp [strstr, List.prefix_nil.mp h]
  | cons a s => simp [strstr, h]

/-- The word is at the start of its first occurrence. -/
theorem startsWith_of_strstr {word s found : List α} (h : strstr word s = some found) :
    word <+: found := by
  induction s with
  | nil =>
    by_cases hw : word = []
    · exact hw ▸ List.nil_prefix
    · simp [strstr, hw] at h
  | cons a s ih =>
    by_cases hp : word <+: a :: s
    · have hfound : found = a :: s := by simpa [strstr, hp] using h.symm
      exact hfound ▸ hp
    · exact ih (by simpa [strstr, hp] using h)

/-- What follows the string does not move the first occurrence. -/
theorem strstr_append {word s found : List α} (h : strstr word s = some found) (t : List α) :
    strstr word (s ++ t) = some (found ++ t) := by
  induction s with
  | nil =>
    by_cases hw : word = []
    · have hfound : found = [] := by simpa [strstr, hw] using h.symm
      subst hw hfound
      exact strstr_of_startsWith List.nil_prefix
    · simp [strstr, hw] at h
  | cons a s ih =>
    by_cases hp : word <+: a :: s
    · have hfound : found = a :: s := by simpa [strstr, hp] using h.symm
      subst hfound
      exact strstr_of_startsWith (hp.trans (List.prefix_append _ _))
    · have hs : strstr word s = some found := by simpa [strstr, hp] using h
      -- the word lies further on, so what is in front of it is long enough to hold it
      have hlen : word.length ≤ s.length := by
        have hin : word <:+: s := strstr_isSome_iff.mp (by simp [hs])
        exact hin.length_le
      have hp' : ¬ word <+: a :: (s ++ t) := by
        intro hpre
        apply hp
        have hpre' : word <+: (a :: s) ++ t := by simpa using hpre
        exact List.prefix_of_prefix_length_le hpre' (List.prefix_append _ _) (by simp; omega)
      simp only [List.cons_append, strstr, hp', if_false]
      exact ih hs

end Doreto.Lib
