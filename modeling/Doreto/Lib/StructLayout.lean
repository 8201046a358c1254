import Mathlib.Data.Nat.Digits.Defs
import Mathlib.Tactic.Ring

/-!
# Structs Laid Out in Memory

A struct is a list of fields that lie one behind the other, each at the next offset that its
alignment allows, and a number is some bytes of which the lowest comes first.

- `leNat` and `leBytes`: a number in memory, inverse to each other.
- `wchars` and `wbytes`: a text of wide characters.
- `encode` and `decode`: the fields of a struct and the bytes it takes, inverse to each other
  whatever the padding holds.
- `HoldsField`: some bytes are a struct with a given field, which `holdsField_iff` reads back.
-/

namespace Doreto.Lib

/-! ## Numbers -/

/-- The number that some bytes hold, the lowest byte first. -/
def leNat (bytes : List UInt8) : Nat :=
  Nat.ofDigits 256 (bytes.map UInt8.toNat)

/-- The lowest `k` bytes of a number. -/
def leBytes : Nat → Nat → List UInt8
  | 0, _ => []
  | k + 1, n => UInt8.ofNat n :: leBytes k (n / 256)

@[simp] theorem leNat_nil : leNat [] = 0 := rfl

@[simp] theorem leNat_cons (b : UInt8) (bytes : List UInt8) :
    leNat (b :: bytes) = b.toNat + 256 * leNat bytes := by
  simp [leNat, Nat.ofDigits_cons]

@[simp] theorem length_leBytes (k n : Nat) : (leBytes k n).length = k := by
  induction k generalizing n with
  | zero => rfl
  | succ k ih => simp [leBytes, ih]

theorem leNat_leBytes {k n : Nat} (h : n < 256 ^ k) : leNat (leBytes k n) = n := by
  induction k generalizing n with
  | zero =>
    have hn : n = 0 := by simpa using h
    simp [leBytes, hn]
  | succ k ih =>
    have hdiv : n / 256 < 256 ^ k := by
      apply Nat.div_lt_of_lt_mul
      rwa [pow_succ, mul_comm] at h
    rw [leBytes, leNat_cons, ih hdiv]
    have hbyte : (UInt8.ofNat n).toNat = n % 256 := by simp
    rw [hbyte]
    omega

theorem leBytes_leNat (bytes : List UInt8) : leBytes bytes.length (leNat bytes) = bytes := by
  induction bytes with
  | nil => rfl
  | cons b bytes ih =>
    have hlow : UInt8.ofNat (b.toNat + 256 * leNat bytes) = b := by
      apply UInt8.toNat_inj.mp
      have hlt : b.toNat < 256 := b.toNat_lt
      simp only [UInt8.toNat_ofNat']
      omega
    have hhigh : (b.toNat + 256 * leNat bytes) / 256 = leNat bytes := by
      have hlt : b.toNat < 256 := b.toNat_lt
      omega
    rw [List.length_cons, leNat_cons, leBytes, hlow, hhigh, ih]

theorem leNat_lt (bytes : List UInt8) : leNat bytes < 256 ^ bytes.length := by
  induction bytes with
  | nil => simp
  | cons b bytes ih =>
    have hlt : b.toNat < 256 := b.toNat_lt
    rw [leNat_cons, List.length_cons, pow_succ]
    omega

/-! ## Wide characters -/

/-- The wide characters that some bytes hold. Half a character is none. -/
def wchars : List UInt8 → List UInt16
  | lo :: hi :: rest => UInt16.ofNat (leNat [lo, hi]) :: wchars rest
  | _ => []

/-- The bytes of a text of wide characters. -/
def wbytes (text : List UInt16) : List UInt8 :=
  text.flatMap fun c => leBytes 2 c.toNat

theorem length_wbytes (text : List UInt16) : (wbytes text).length = 2 * text.length := by
  induction text with
  | nil => rfl
  | cons c text ih =>
    have hcons : wbytes (c :: text) = leBytes 2 c.toNat ++ wbytes text := rfl
    rw [hcons, List.length_append, length_leBytes, ih, List.length_cons]
    omega

theorem wbytes_append (text text' : List UInt16) :
    wbytes (text ++ text') = wbytes text ++ wbytes text' :=
  List.flatMap_append

theorem wchars_wbytes_append (text : List UInt16) (rest : List UInt8) :
    wchars (wbytes text ++ rest) = text ++ wchars rest := by
  induction text with
  | nil => rfl
  | cons c text ih =>
    have hlt : c.toNat < 256 ^ 2 := c.toNat_lt
    have hchar : UInt16.ofNat (leNat (leBytes 2 c.toNat)) = c := by
      rw [leNat_leBytes hlt]
      exact UInt16.ofNat_toNat
    show UInt16.ofNat (leNat (leBytes 2 c.toNat)) :: wchars (wbytes text ++ rest) = _
    rw [hchar, ih]
    rfl

/-- Some bytes are a text, and at most one byte more. -/
theorem exists_wbytes : ∀ bytes : List UInt8,
    ∃ half : List UInt8, half.length < 2 ∧ bytes = wbytes (wchars bytes) ++ half
  | [] => ⟨[], by decide, rfl⟩
  | [b] => ⟨[b], by simp, rfl⟩
  | lo :: hi :: rest => by
    obtain ⟨half, hhalf, hrest⟩ := exists_wbytes rest
    refine ⟨half, hhalf, ?_⟩
    have hchar : leBytes 2 (UInt16.ofNat (leNat [lo, hi])).toNat = [lo, hi] := by
      have hlt : leNat [lo, hi] < 256 ^ 2 := leNat_lt [lo, hi]
      have hsize : leNat [lo, hi] < UInt16.size := by
        norm_num [UInt16.size] at hlt ⊢
        exact hlt
      rw [UInt16.toNat_ofNat_of_lt' hsize]
      exact leBytes_leNat [lo, hi]
    show lo :: hi :: rest =
      leBytes 2 (UInt16.ofNat (leNat [lo, hi])).toNat ++ wbytes (wchars rest) ++ half
    rw [hchar, List.append_assoc, ← hrest]
    rfl

theorem length_wchars (bytes : List UInt8) : 2 * (wchars bytes).length ≤ bytes.length := by
  obtain ⟨half, -, hbytes⟩ := exists_wbytes bytes
  have hlength := congrArg List.length hbytes
  rw [List.length_append, length_wbytes] at hlength
  omega

/-- The text of some bytes is the front of the text that goes on behind them. -/
theorem wchars_append (bytes rest : List UInt8) :
    ∃ more, wchars (bytes ++ rest) = wchars bytes ++ more := by
  obtain ⟨half, -, hbytes⟩ := exists_wbytes bytes
  refine ⟨wchars (half ++ rest), ?_⟩
  calc wchars (bytes ++ rest)
      = wchars (wbytes (wchars bytes) ++ (half ++ rest)) := by rw [← List.append_assoc, ← hbytes]
    _ = wchars bytes ++ wchars (half ++ rest) := wchars_wbytes_append _ _

/-! ## Pieces of memory -/

section Layout

variable {α : Type*}

/-- The cells from `n` up to `m`. -/
def slice (mem : List α) (n m : Nat) : List α :=
  (mem.drop n).take (m - n)

theorem slice_append {mem : List α} {n m k : Nat} (hnm : n ≤ m) (hmk : m ≤ k) :
    slice mem n m ++ slice mem m k = slice mem n k := by
  have hm : mem.drop m = (mem.drop n).drop (m - n) := by
    rw [List.drop_drop, Nat.add_sub_cancel' hnm]
  have hk : k - n = (m - n) + (k - m) := by omega
  rw [slice, slice, slice, hm, hk, List.take_add]

theorem length_slice {mem : List α} {n m : Nat} (h : m ≤ mem.length) :
    (slice mem n m).length = m - n := by
  rw [slice, List.length_take, List.length_drop]
  omega

theorem slice_self (mem : List α) (n : Nat) : slice mem n n = [] := by
  simp [slice]

/-- A block behind some cells is the slice that begins there. -/
theorem slice_block {front block rest : List α} {n m : Nat} (hn : front.length = n)
    (hm : n + block.length = m) : slice (front ++ block ++ rest) n m = block := by
  subst hn hm
  rw [slice, List.append_assoc, List.drop_left, Nat.add_sub_cancel_left, List.take_left]

/-- The cells that the function puts from `n` up to `m`. -/
def padding (pad : Nat → α) (n m : Nat) : List α :=
  (List.range' n (m - n)).map pad

@[simp] theorem length_padding (pad : Nat → α) (n m : Nat) : (padding pad n m).length = m - n := by
  simp [padding]

/-- Padding with what is there changes nothing. -/
theorem padding_getD {mem : List α} {n m : Nat} (h : m ≤ mem.length) (a : α) :
    padding (fun i => mem.getD i a) n m = slice mem n m := by
  apply List.ext_getElem
  · rw [length_padding, length_slice h]
  · intro i hi _
    rw [length_padding] at hi
    have hlt : n + i < mem.length := by omega
    simp [padding, slice, hlt]

/-! ## Fields -/

/-- What a field asks for: its size, and what its offset must be a multiple of. -/
structure Slot where
  size : Nat
  align : Nat
  deriving DecidableEq, Repr

/-- A field of `n` values of a kind. -/
def Slot.array (n : Nat) (s : Slot) : Slot :=
  ⟨n * s.size, s.align⟩

/-- The next multiple of `a`. -/
def alignUp (n a : Nat) : Nat :=
  n + (a - n % a) % a

theorem le_alignUp (n a : Nat) : n ≤ alignUp n a :=
  Nat.le_add_right _ _

/-- The offset behind the fields, when the first one may begin at `n`. -/
def fieldsEnd : Nat → List Slot → Nat
  | n, [] => n
  | n, s :: ss => fieldsEnd (alignUp n s.align + s.size) ss

/-- The alignment of a struct: the largest of its fields. -/
def structAlign (ss : List Slot) : Nat :=
  ss.foldr (fun s a => max s.align a) 1

/-- The size of a struct. There is padding behind the last field as well. -/
def structSize (ss : List Slot) : Nat :=
  alignUp (fieldsEnd 0 ss) (structAlign ss)

/-- A struct as a field of another one. -/
def Slot.struct (ss : List Slot) : Slot :=
  ⟨structSize ss, structAlign ss⟩

theorem le_fieldsEnd (n : Nat) (ss : List Slot) : n ≤ fieldsEnd n ss := by
  induction ss generalizing n with
  | nil => exact le_refl n
  | cons s ss ih =>
    calc n ≤ alignUp n s.align := le_alignUp n s.align
      _ ≤ alignUp n s.align + s.size := Nat.le_add_right _ _
      _ ≤ fieldsEnd n (s :: ss) := ih _

/-! ## Encoding and decoding -/

/-- The blocks are as long as the fields. -/
def Fits (ss : List Slot) (blocks : List (List α)) : Prop :=
  blocks.map List.length = ss.map Slot.size

/-- The bytes of the fields from offset `n` on. -/
def encodeFields (pad : Nat → α) : Nat → List Slot → List (List α) → List α
  | n, s :: ss, block :: blocks =>
      padding pad n (alignUp n s.align) ++ block ++
        encodeFields pad (alignUp n s.align + s.size) ss blocks
  | _, _, _ => []

/-- The bytes of a struct. -/
def encode (pad : Nat → α) (ss : List Slot) (blocks : List (List α)) : List α :=
  encodeFields pad 0 ss blocks ++ padding pad (fieldsEnd 0 ss) (structSize ss)

/-- The blocks of the fields from offset `n` on. -/
def decodeFields (mem : List α) : Nat → List Slot → List (List α)
  | _, [] => []
  | n, s :: ss =>
      slice mem (alignUp n s.align) (alignUp n s.align + s.size) ::
        decodeFields mem (alignUp n s.align + s.size) ss

/-- The blocks of the fields of a struct. -/
def decode (ss : List Slot) (mem : List α) : List (List α) :=
  decodeFields mem 0 ss

theorem Fits.nil_right {ss : List Slot} (h : Fits ss ([] : List (List α))) : ss = [] := by
  simpa [Fits] using h.symm

theorem fits_cons {s : Slot} {ss : List Slot} {block : List α} {blocks : List (List α)} :
    Fits (s :: ss) (block :: blocks) ↔ block.length = s.size ∧ Fits ss blocks := by
  simp [Fits]

theorem length_encodeFields {pad : Nat → α} {ss : List Slot} {blocks : List (List α)}
    (hfits : Fits ss blocks) (n : Nat) :
    (encodeFields pad n ss blocks).length = fieldsEnd n ss - n := by
  induction ss generalizing n blocks with
  | nil => simp [encodeFields, fieldsEnd]
  | cons s ss ih =>
    cases blocks with
    | nil => cases hfits.nil_right
    | cons block blocks =>
      obtain ⟨hblock, hrest⟩ := fits_cons.mp hfits
      have hle := le_alignUp n s.align
      have hend := le_fieldsEnd (alignUp n s.align + s.size) ss
      rw [encodeFields, List.length_append, List.length_append, length_padding, hblock, ih hrest,
        fieldsEnd]
      omega

theorem length_encode {pad : Nat → α} {ss : List Slot} {blocks : List (List α)}
    (hfits : Fits ss blocks) : (encode pad ss blocks).length = structSize ss := by
  have hle : fieldsEnd 0 ss ≤ structSize ss := le_alignUp _ _
  rw [encode, List.length_append, length_encodeFields hfits, length_padding]
  omega

/-- The fields are found again behind whatever is in front of them. -/
theorem decodeFields_encodeFields {pad : Nat → α} {ss : List Slot} {blocks : List (List α)}
    (hfits : Fits ss blocks) {front : List α} {n : Nat} (hn : front.length = n) (rest : List α) :
    decodeFields (front ++ encodeFields pad n ss blocks ++ rest) n ss = blocks := by
  induction ss generalizing n front blocks with
  | nil =>
    have hblocks : blocks = [] := by simpa [Fits] using hfits
    rw [hblocks]
    rfl
  | cons s ss ih =>
    cases blocks with
    | nil => cases hfits.nil_right
    | cons block blocks =>
      obtain ⟨hblock, hrest⟩ := fits_cons.mp hfits
      have hle := le_alignUp n s.align
      -- the block stands behind the padding, and the other fields stand behind the block
      have hfront : (front ++ padding pad n (alignUp n s.align)).length = alignUp n s.align := by
        rw [List.length_append, length_padding]
        omega
      have hbehind : (front ++ padding pad n (alignUp n s.align) ++ block).length =
          alignUp n s.align + s.size := by
        rw [List.length_append, hfront, hblock]
      have hmem : front ++ encodeFields pad n (s :: ss) (block :: blocks) ++ rest =
          front ++ padding pad n (alignUp n s.align) ++ block ++
            (encodeFields pad (alignUp n s.align + s.size) ss blocks ++ rest) := by
        simp [encodeFields]
      rw [decodeFields, hmem, slice_block hfront (by rw [hblock]), ← List.append_assoc,
        ih hrest hbehind]

/-- What a struct was made of is what is read from it. -/
theorem decode_encode {pad : Nat → α} {ss : List Slot} {blocks : List (List α)}
    (hfits : Fits ss blocks) : decode ss (encode pad ss blocks) = blocks := by
  have hempty : ([] : List α).length = 0 := rfl
  exact decodeFields_encodeFields hfits hempty _

theorem fits_decodeFields {mem : List α} {ss : List Slot} {n : Nat}
    (hlen : fieldsEnd n ss ≤ mem.length) : Fits ss (decodeFields mem n ss) := by
  induction ss generalizing n with
  | nil => rfl
  | cons s ss ih =>
    have hend := le_fieldsEnd (alignUp n s.align + s.size) ss
    rw [fieldsEnd] at hlen
    apply fits_cons.mpr
    refine ⟨?_, ih hlen⟩
    rw [length_slice (by omega), Nat.add_sub_cancel_left]

theorem fits_decode {mem : List α} {ss : List Slot} (hlen : mem.length = structSize ss) :
    Fits ss (decode ss mem) :=
  fits_decodeFields (hlen ▸ le_alignUp _ _)

theorem encodeFields_decodeFields {mem : List α} {ss : List Slot} {n : Nat}
    (hlen : fieldsEnd n ss ≤ mem.length) (a : α) :
    encodeFields (fun i => mem.getD i a) n ss (decodeFields mem n ss) =
      slice mem n (fieldsEnd n ss) := by
  induction ss generalizing n with
  | nil => exact (slice_self mem n).symm
  | cons s ss ih =>
    have hle := le_alignUp n s.align
    have hend := le_fieldsEnd (alignUp n s.align + s.size) ss
    rw [fieldsEnd] at hlen ⊢
    rw [decodeFields, encodeFields, ih hlen, padding_getD (by omega), slice_append hle (by omega),
      slice_append (by omega) hend]

/-- Some bytes of the size of a struct are the struct of the fields that are read from them. -/
theorem encode_decode {mem : List α} {ss : List Slot} (hlen : mem.length = structSize ss) (a : α) :
    encode (fun i => mem.getD i a) ss (decode ss mem) = mem := by
  have hle : fieldsEnd 0 ss ≤ structSize ss := le_alignUp _ _
  have hwhole : slice mem 0 (structSize ss) = mem := by
    rw [slice, List.drop_zero, Nat.sub_zero, ← hlen, List.take_length]
  rw [encode, decode, encodeFields_decodeFields (hlen ▸ hle), padding_getD (hlen ▸ le_refl _),
    slice_append (Nat.zero_le _) hle, hwhole]

/-- The block of a field. -/
def field (ss : List Slot) (i : Nat) (mem : List α) : List α :=
  (decode ss mem).getD i []

/-- The bytes are a struct in which the field `i` holds the block. -/
def HoldsField (ss : List Slot) (i : Nat) (block mem : List α) : Prop :=
  ∃ pad blocks, Fits ss blocks ∧ blocks[i]? = some block ∧ mem = encode pad ss blocks

theorem holdsField_encode {ss : List Slot} {i : Nat} {block : List α} {blocks : List (List α)}
    (hfits : Fits ss blocks) (hblock : blocks[i]? = some block) (pad : Nat → α) :
    HoldsField ss i block (encode pad ss blocks) :=
  ⟨pad, blocks, hfits, hblock, rfl⟩

/-- What a field holds is what is read from it. -/
theorem HoldsField.field_eq {ss : List Slot} {i : Nat} {block mem : List α}
    (h : HoldsField ss i block mem) : field ss i mem = block := by
  obtain ⟨pad, blocks, hfits, hblock, rfl⟩ := h
  rw [field, decode_encode hfits, List.getD_eq_getElem?_getD, hblock]
  rfl

theorem HoldsField.length_eq {ss : List Slot} {i : Nat} {block mem : List α}
    (h : HoldsField ss i block mem) : mem.length = structSize ss := by
  obtain ⟨pad, blocks, hfits, -, rfl⟩ := h
  exact length_encode hfits

theorem HoldsField.length_block {ss : List Slot} {i : Nat} {block mem : List α}
    (h : HoldsField ss i block mem) : ∃ s, ss[i]? = some s ∧ block.length = s.size := by
  obtain ⟨pad, blocks, hfits, hblock, -⟩ := h
  have hsizes : (blocks.map List.length)[i]? = (ss.map Slot.size)[i]? := by rw [hfits]
  rw [List.getElem?_map, List.getElem?_map, hblock] at hsizes
  obtain ⟨s, hs, hsize⟩ := Option.map_eq_some_iff.mp hsizes.symm
  exact ⟨s, hs, hsize.symm⟩

/-- Some bytes hold a field exactly when they have the size of the struct and the field is read
from them. -/
theorem holdsField_iff [Inhabited α] {ss : List Slot} {i : Nat} (hi : i < ss.length)
    {block mem : List α} :
    HoldsField ss i block mem ↔ mem.length = structSize ss ∧ field ss i mem = block := by
  constructor
  · intro h
    exact ⟨h.length_eq, h.field_eq⟩
  · rintro ⟨hlen, rfl⟩
    have hfits := fits_decode hlen
    have hlength : (decode ss mem).length = ss.length := by
      simpa using congrArg List.length hfits
    refine ⟨_, decode ss mem, hfits, ?_, (encode_decode hlen default).symm⟩
    rw [field, List.getD_eq_getElem?_getD, List.getElem?_eq_getElem (hlength ▸ hi)]
    rfl

theorem length_field [Inhabited α] {ss : List Slot} {i : Nat} {s : Slot} (hs : ss[i]? = some s)
    {mem : List α} (hlen : mem.length = structSize ss) : (field ss i mem).length = s.size := by
  have hi : i < ss.length := (List.getElem?_eq_some_iff.mp hs).1
  obtain ⟨s', hs', hlength⟩ := ((holdsField_iff hi).mpr ⟨hlen, rfl⟩).length_block
  rw [hlength, Option.some.inj (hs'.symm.trans hs)]

end Layout

/-- A field of some bytes holds the number that is read from it. -/
theorem holdsField_leNat {ss : List Slot} {i : Nat} {s : Slot} (hs : ss[i]? = some s)
    {mem : List UInt8} (hlen : mem.length = structSize ss) :
    HoldsField ss i (leBytes s.size (leNat (field ss i mem))) mem ∧
      leNat (field ss i mem) < 256 ^ s.size := by
  have hi : i < ss.length := (List.getElem?_eq_some_iff.mp hs).1
  have hlength : (field ss i mem).length = s.size := length_field hs hlen
  rw [← hlength]
  refine ⟨?_, leNat_lt _⟩
  rw [leBytes_leNat]
  exact (holdsField_iff hi).mpr ⟨hlen, rfl⟩

end Doreto.Lib
