import Doreto.Lib.PercentEncoding
import Doreto.Lib.QueryString

/-!
# Notifications

`ShowNotification` puts its message behind `message=` and hands the text to `DialogParameters`,
which reads it as a query: it splits at every `&` and unescapes names and values.
`OnDialogOpened` shows the value that it finds under `message`. The message is not escaped on the
way in, so it is cut at its first `&` and what looks like an escape in it is decoded.

## Main results

- `message_onDialogOpened`: the message that is shown.
- `message_shown_iff`: the messages that are shown as they are.
-/

namespace Doreto.Wpf

open Doreto.Lib

/-- A string of .NET. -/
abbrev Str := List CodeUnit

def ampersand : CodeUnit := 0x26
def equalsSign : CodeUnit := 0x3D
def questionMark : CodeUnit := 0x3F

/-! ## Dialog parameters -/

/-- The entries of a query: the parameters that have a value, unescaped. -/
def queryEntries (query : Str) : List (Str × Str) :=
  (parameters (· = ampersand) equalsSign query).filterMap fun (key, value) =>
    value.map fun value => (unescape key, unescape value)

/-- `DialogParameters` of Prism, as far as it is used. A question mark in front of a query is not
part of it. -/
structure Prism where
  DialogParameters : Type
  /-- `new DialogParameters(query)`. -/
  ofQuery : Str → DialogParameters
  /-- `GetValue<string>(key)`, `none` for `null`. -/
  getValue : DialogParameters → Str → Option Str
  /-- Keys are compared ignoring case. -/
  sameKey : Str → Str → Bool
  sameKey_self : ∀ key, sameKey key key = true
  /-- The value of the first entry with the key. -/
  getValue_ofQuery : ∀ query key, query.head? ≠ some questionMark →
    getValue (ofQuery query) key =
      ((queryEntries query).find? fun entry => sameKey entry.1 key).map Prod.snd

/-- Capital letters become small ones. -/
def lowerCase (s : Str) : Str :=
  s.map fun u => if 0x41 ≤ u ∧ u ≤ 0x5A then u + 0x20 else u

/-- The entries in a list, and keys compared letter by letter. -/
def Prism.entryList : Prism where
  DialogParameters := List (Str × Str)
  ofQuery := queryEntries
  getValue entries key :=
    (entries.find? fun entry => lowerCase entry.1 = lowerCase key).map Prod.snd
  sameKey key key' := lowerCase key = lowerCase key'
  sameKey_self _ := decide_eq_true rfl
  getValue_ofQuery _ _ _ := rfl

/-! ## The dialog -/

variable (prism : Prism)

/-- The name of the parameter. -/
def messageKey : Str := codeUnits "message"

/-- The parameters that `ShowNotification` passes to the dialog. -/
def showNotification (message : Str) : prism.DialogParameters :=
  prism.ofQuery (codeUnits "message=" ++ message)

/-- `SimpleDialogViewModel`. -/
structure SimpleDialogViewModel where
  message : Option Str

/-- `OnDialogOpened`. -/
def onDialogOpened (vm : SimpleDialogViewModel) (parameters : prism.DialogParameters) :
    SimpleDialogViewModel :=
  { vm with message := prism.getValue parameters messageKey }

/-! ## What is shown -/

variable {prism}

theorem head?_query_ne (message : Str) :
    (codeUnits "message=" ++ message).head? ≠ some questionMark := by
  have hhead : (codeUnits "message=" ++ message).head? = some 0x6D := rfl
  rw [hhead]
  decide

/-- The first entry is the message up to its first ampersand. -/
theorem queryEntries_message (message : Str) :
    ∃ more, queryEntries (codeUnits "message=" ++ message) =
      (messageKey, unescape (message.takeWhile (· ≠ ampersand))) :: more := by
  have hname : ∀ u ∈ codeUnits "message=", (!decide (u = ampersand)) = true :=
    List.all_eq_true.mp rfl
  have hfirst : (codeUnits "message=" ++ message).takeWhile (fun u => !decide (u = ampersand)) =
      messageKey ++ equalsSign :: message.takeWhile (· ≠ ampersand) := by
    have hunits : codeUnits "message=" = messageKey ++ [equalsSign] := rfl
    rw [List.takeWhile_append_of_pos hname, hunits, List.append_assoc]
    simp
  have hentry : parameter equalsSign
      (messageKey ++ equalsSign :: message.takeWhile (· ≠ ampersand)) =
        (messageKey, some (message.takeWhile (· ≠ ampersand))) :=
    parameter_append (by decide) _
  -- the name has no escape in it
  have hkey : unescape messageKey = messageKey := by decide +kernel
  obtain ⟨more, hparameters⟩ : ∃ more, parameters (· = ampersand) equalsSign
      (codeUnits "message=" ++ message) = _ :: more := exists_parameters_eq_cons _
  rw [hfirst, hentry] at hparameters
  rw [queryEntries, hparameters, List.filterMap_cons]
  simp [hkey]

/-- The message that is shown is the one that was given, up to its first ampersand and unescaped. -/
theorem message_onDialogOpened (vm : SimpleDialogViewModel) (message : Str) :
    (onDialogOpened prism vm (showNotification prism message)).message =
      some (unescape (message.takeWhile (· ≠ ampersand))) := by
  obtain ⟨more, hentries⟩ := queryEntries_message message
  have hvalue := prism.getValue_ofQuery _ messageKey (head?_query_ne message)
  rw [hentries, List.find?_cons_of_pos (by exact prism.sameKey_self messageKey)] at hvalue
  exact hvalue

/-- Unescaping a message that was cut does not give the message. -/
theorem unescape_takeWhile_eq_iff {message : Str} :
    unescape (message.takeWhile (· ≠ ampersand)) = message ↔
      ampersand ∉ message ∧ NoEscape message := by
  by_cases hamp : ampersand ∈ message
  · refine iff_of_false (fun heq => ?_) (fun h => h.1 hamp)
    -- what is cut off is not made up for
    have hlen := length_unescape_le (message.takeWhile (· ≠ ampersand))
    rw [heq] at hlen
    have hprefix : message.takeWhile (· ≠ ampersand) <+: message := List.takeWhile_prefix _
    have hwhole := hprefix.eq_of_length_le hlen
    have hne := List.takeWhile_eq_self_iff.mp hwhole ampersand hamp
    simp at hne
  · have hall : message.takeWhile (· ≠ ampersand) = message := by
      apply List.takeWhile_eq_self_iff.mpr
      intro u hu
      have hne : u ≠ ampersand := fun heq => hamp (heq ▸ hu)
      simpa using hne
    rw [hall, unescape_eq_self_iff]
    exact (and_iff_right hamp).symm

/-- **Notifications**: a message is shown as it was given exactly when there is no ampersand in it
and nothing that decodes to a character. -/
theorem message_shown_iff (vm : SimpleDialogViewModel) (message : Str) :
    (onDialogOpened prism vm (showNotification prism message)).message = some message ↔
      ampersand ∉ message ∧ NoEscape message := by
  rw [message_onDialogOpened, Option.some.injEq]
  exact unescape_takeWhile_eq_iff

/-- A message is cut at its ampersand, and an escape in it is decoded. -/
theorem messages_changed :
    let shown := fun message =>
      (onDialogOpened .entryList ⟨none⟩ (showNotification .entryList message)).message
    shown (codeUnits "Shop & bank") = some (codeUnits "Shop ") ∧
      shown (codeUnits "100%41") = some (codeUnits "100A") ∧
      ¬ ∀ message, shown message = some message := by
  intro shown
  have hcut : shown (codeUnits "Shop & bank") = some (codeUnits "Shop ") := by decide +kernel
  refine ⟨hcut, by decide +kernel, fun hall => ?_⟩
  have hsame := hcut.symm.trans (hall _)
  exact absurd hsame (by decide)

end Doreto.Wpf
