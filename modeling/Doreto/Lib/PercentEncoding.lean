import Mathlib.Data.List.Infix

/-!
# Percent-Encoded Text

A text is a list of UTF-16 code units. An escape is a percent sign with two hexadecimal digits and
stands for a byte, and escapes whose bytes encode a character in UTF-8 stand for the character.
Unescaping replaces such escapes from the start to the end of the text and keeps all the rest,
escapes that encode nothing among it.

- `escapedChar`: the character that is encoded at the start of a text.
- `unescape`: the text with its characters decoded.
- `NoEscape`: no character is encoded anywhere in the text.

## Main results

- `length_unescape_le`: unescaping makes no text longer.
- `unescape_eq_self_iff`: it keeps exactly the texts without encoded characters.
-/

namespace Doreto.Lib

/-- A UTF-16 code unit. -/
abbrev CodeUnit := UInt16

/-- The code units of a character: one, or a surrogate pair. -/
def utf16 (c : Char) : List CodeUnit :=
  if c.toNat < 0x10000 then [.ofNat c.toNat]
  else
    [.ofNat (0xD800 + (c.toNat - 0x10000) / 0x400), .ofNat (0xDC00 + (c.toNat - 0x10000) % 0x400)]

/-- The code units of a string. -/
def codeUnits (s : String) : List CodeUnit :=
  s.toList.flatMap utf16

/-! ## Escapes -/

def percentSign : CodeUnit := 0x25

/-- The value of a hexadecimal digit, in either case. -/
def hexValue (u : CodeUnit) : Option UInt8 :=
  if 0x30 ≤ u ∧ u ≤ 0x39 then some (u - 0x30).toUInt8
  else if 0x41 ≤ u ∧ u ≤ 0x46 then some (u - 0x37).toUInt8
  else if 0x61 ≤ u ∧ u ≤ 0x66 then some (u - 0x57).toUInt8
  else none

/-- The byte of the escape at the start of the text. -/
def escapedByte : List CodeUnit → Option UInt8
  | sign :: hi :: lo :: _ =>
      if sign = percentSign then
        (hexValue hi).bind fun h => (hexValue lo).map fun l => 16 * h + l
      else none
  | _ => none

/-- The bytes of the escapes that follow one another from the start of the text, at most `n`. -/
def escapedBytes : Nat → List CodeUnit → List UInt8
  | 0, _ => []
  | n + 1, s =>
      match escapedByte s with
      | some b => b :: escapedBytes n (s.drop 3)
      | none => []

/-- The character that is encoded at the start of the text. No character takes more than four
bytes. -/
def escapedChar (s : List CodeUnit) : Option Char :=
  (escapedBytes 4 s).toByteArray.utf8DecodeChar? 0

/-- Decode what follows the next `skip` code units. -/
def unescapeFrom : Nat → List CodeUnit → List CodeUnit
  | _, [] => []
  | skip + 1, _ :: s => unescapeFrom skip s
  | 0, u :: s =>
      match escapedChar (u :: s) with
      -- the escapes of the character are passed over
      | some c => utf16 c ++ unescapeFrom (3 * c.utf8Size - 1) s
      | none => u :: unescapeFrom 0 s

/-- The text with its characters decoded. -/
def unescape (s : List CodeUnit) : List CodeUnit :=
  unescapeFrom 0 s

/-- No character is encoded anywhere in the text. -/
def NoEscape (s : List CodeUnit) : Prop :=
  ∀ t, t <:+ s → escapedChar t = none

/-! ## Lengths -/

theorem length_utf16_le (c : Char) : (utf16 c).length ≤ 2 := by
  unfold utf16
  split <;> simp

theorem three_le_of_escapedByte {s : List CodeUnit} {b : UInt8} (h : escapedByte s = some b) :
    3 ≤ s.length := by
  match s with
  | sign :: hi :: lo :: rest => simp
  | [] => cases h
  | [_] => cases h
  | [_, _] => cases h

theorem length_escapedBytes_le (n : Nat) (s : List CodeUnit) :
    3 * (escapedBytes n s).length ≤ s.length := by
  induction n generalizing s with
  | zero => simp [escapedBytes]
  | succ n ih =>
    rw [escapedBytes]
    cases h : escapedByte s with
    | none => simp
    | some b =>
      have hthree := three_le_of_escapedByte h
      have hrest := ih (s.drop 3)
      rw [List.length_drop] at hrest
      simp only [List.length_cons]
      omega

/-- The escapes of a character lie in the text. -/
theorem utf8Size_le_of_escapedChar {s : List CodeUnit} {c : Char} (h : escapedChar s = some c) :
    3 * c.utf8Size ≤ s.length := by
  have hbytes := congrArg ByteArray.size
    (String.toByteArray_utf8EncodeChar_of_utf8DecodeChar?_eq_some h)
  have hlen := length_escapedBytes_le 4 s
  simp only [List.size_toByteArray, String.length_utf8EncodeChar, ByteArray.size_extract] at hbytes
  omega

theorem unescapeFrom_of_escapedChar {u : CodeUnit} {s : List CodeUnit} {c : Char}
    (h : escapedChar (u :: s) = some c) :
    unescapeFrom 0 (u :: s) = utf16 c ++ unescapeFrom (3 * c.utf8Size - 1) s := by
  rw [unescapeFrom, h]

theorem unescapeFrom_of_eq_none {u : CodeUnit} {s : List CodeUnit}
    (h : escapedChar (u :: s) = none) : unescapeFrom 0 (u :: s) = u :: unescapeFrom 0 s := by
  rw [unescapeFrom, h]

/-- What is passed over is gone, and the rest becomes no longer. -/
theorem length_unescapeFrom_le (skip : Nat) (s : List CodeUnit) :
    (unescapeFrom skip s).length ≤ s.length - skip := by
  induction s generalizing skip with
  | nil => simp [unescapeFrom]
  | cons u s ih =>
    cases skip with
    | succ skip =>
      have hrest := ih skip
      simp only [unescapeFrom, List.length_cons]
      omega
    | zero =>
      cases h : escapedChar (u :: s) with
      | some c =>
        -- the escapes of a character are longer than the character
        have hrest := ih (3 * c.utf8Size - 1)
        have hpos := c.utf8Size_pos
        have hunits := length_utf16_le c
        have hlen := utf8Size_le_of_escapedChar h
        rw [unescapeFrom_of_escapedChar h, List.length_append]
        simp only [List.length_cons] at hlen ⊢
        omega
      | none =>
        have hrest := ih 0
        rw [unescapeFrom_of_eq_none h]
        simp only [List.length_cons]
        omega

theorem length_unescape_le (s : List CodeUnit) : (unescape s).length ≤ s.length :=
  length_unescapeFrom_le 0 s

/-- A text that begins with an encoded character becomes shorter. -/
theorem length_unescape_lt {u : CodeUnit} {s : List CodeUnit} {c : Char}
    (h : escapedChar (u :: s) = some c) : (unescape (u :: s)).length < (u :: s).length := by
  have hrest := length_unescapeFrom_le (3 * c.utf8Size - 1) s
  have hpos := c.utf8Size_pos
  have hunits := length_utf16_le c
  have hlen := utf8Size_le_of_escapedChar h
  rw [unescape, unescapeFrom_of_escapedChar h, List.length_append]
  simp only [List.length_cons] at hlen ⊢
  omega

/-! ## Texts that are kept -/

theorem noEscape_nil : NoEscape [] := by
  intro t ht
  obtain rfl := List.suffix_nil.mp ht
  rfl

theorem noEscape_cons {u : CodeUnit} {s : List CodeUnit} :
    NoEscape (u :: s) ↔ escapedChar (u :: s) = none ∧ NoEscape s := by
  constructor
  · intro h
    refine ⟨h _ (List.suffix_refl _), fun t ht => ?_⟩
    exact h t (ht.trans (List.suffix_cons u s))
  · intro h t ht
    rcases List.suffix_cons_iff.mp ht with rfl | hs
    · exact h.1
    · exact h.2 t hs

/-- Unescaping keeps exactly the texts in which no character is encoded. -/
theorem unescape_eq_self_iff {s : List CodeUnit} : unescape s = s ↔ NoEscape s := by
  induction s with
  | nil => exact iff_of_true rfl noEscape_nil
  | cons u s ih =>
    rw [noEscape_cons]
    cases h : escapedChar (u :: s) with
    | some c =>
      refine iff_of_false (fun heq => ?_) (fun hno => by cases hno.1)
      have hlt := length_unescape_lt h
      rw [heq] at hlt
      exact Nat.lt_irrefl _ hlt
    | none =>
      rw [unescape, unescapeFrom_of_eq_none h, List.cons_inj_right]
      rw [unescape] at ih
      simp [ih]

end Doreto.Lib
