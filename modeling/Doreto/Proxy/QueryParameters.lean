import Doreto.Lib.QueryString
import Doreto.Proxy.DofusProxyServer

/-!
# Auto-Login Parameters

A request logs in when its query has the parameters `game`, `certificate_id` and
`certificate_hash` one behind another and there is an `apikey` header. The handler does not split
the query. It searches it for a pattern that is bound to neither end of a parameter, so that it
also finds the pattern behind a longer name or in front of a longer value, and it takes the first
place only. It asks for the header behind that, and a request without one makes it throw.

## Main results

- `search_eq_some_iff_firstOccurrence`: what the pattern finds in a query.
- `FirstOccurrence.hasLoginParameters`: what is found between separators are the parameters.
- `agreesWithParameters_iff`: the requests for which the handler does what the parameters say.
-/

namespace Doreto.Proxy

open Doreto.Lib

/-! ## Parameters of a query -/

/-- What stands between parameters. -/
def isSeparator (c : Char) : Bool :=
  c = '?' || c = '&'

/-- The parameters of a query, with its question mark. -/
def queryParameters (query : Text) : List (Text × Option Text) :=
  parameters isSeparator '=' query

/-- The three parameters of a request that logs in. -/
def loginParameters (certificateId certificateHash : Text) : List (Text × Option Text) :=
  [("game".toList, some "101".toList), ("certificate_id".toList, some certificateId),
    ("certificate_hash".toList, some certificateHash)]

/-- The query has the three parameters one behind another, with values of the right characters. -/
structure HasLoginParameters (query certificateId certificateHash : Text) : Prop where
  parameters : loginParameters certificateId certificateHash <:+: queryParameters query
  id : IsRun isDigit certificateId
  hash : IsRun isHashChar certificateHash

/-- The handler raises the event for the parameters and the key of the request, and returns. -/
structure AgreesWithParameters (r : Request) : Prop where
  raised : ∀ info, dofusProxyServerBeforeRequest r = .ok (some info) ↔
    HasLoginParameters r.query info.certId info.certHash ∧ r.headers apikey = some info.apiKey
  returns : ∀ e, dofusProxyServerBeforeRequest r ≠ .error e

/-! ## Occurrences of the pattern -/

/-- The text of the pattern stands in the query, and the hash ends where its characters end. -/
structure Occurrence (query before certificateId certificateHash rest : Text) : Prop where
  text : query = before ++ (certificateIdPart ++ (certificateId ++ (certificateHashPart ++
    (certificateHash ++ rest))))
  id : IsRun isDigit certificateId
  hash : IsRun isHashChar certificateHash
  ends : ∀ c ∈ rest.head?, isHashChar c = false

/-- There is no occurrence further in front. -/
structure FirstOccurrence (query before certificateId certificateHash rest : Text) : Prop
    extends Occurrence query before certificateId certificateHash rest where
  first : ∀ before' certificateId' certificateHash' rest',
    Occurrence query before' certificateId' certificateHash' rest' → before.length ≤ before'.length

/-- The pattern at the start of a text. -/
theorem matchHere_autoLoginPattern_iff {text : Text} {groups : List Text} :
    PatternItem.matchHere autoLoginPattern text = some groups ↔
      ∃ certificateId certificateHash rest, groups = [certificateId, certificateHash] ∧
        Occurrence text [] certificateId certificateHash rest := by
  -- the id ends at an ampersand, which is no digit
  have hpart : PatternItem.word certificateHashPart ++ [.group isHashChar] =
      .lit '&' :: (PatternItem.word "certificate_hash=".toList ++ [.group isHashChar]) := rfl
  rw [autoLoginPattern, hpart, PatternItem.matchHere_word_append_iff]
  constructor
  · rintro ⟨behindWord, rfl, hid⟩
    obtain ⟨certificateId, behindId, groups', rfl, rfl, hne, hall, hhash⟩ :=
      (PatternItem.matchHere_group_lit_iff (by decide)).mp hid
    obtain ⟨behindName, rfl, hlast⟩ := PatternItem.matchHere_word_append_iff.mp hhash
    obtain ⟨certificateHash, rest, rfl, rfl, hne', hall', hends⟩ :=
      PatternItem.matchHere_group_iff.mp hlast
    exact ⟨certificateId, certificateHash, rest, rfl, rfl, ⟨hne, hall⟩, ⟨hne', hall'⟩, hends⟩
  · rintro ⟨certificateId, certificateHash, rest, rfl, htext, ⟨hne, hall⟩, ⟨hne', hall'⟩, hends⟩
    refine ⟨_, htext, (PatternItem.matchHere_group_lit_iff (by decide)).mpr ?_⟩
    refine ⟨certificateId, _, [certificateHash], rfl, rfl, hne, hall, ?_⟩
    refine PatternItem.matchHere_word_append_iff.mpr ⟨_, rfl, ?_⟩
    exact PatternItem.matchHere_group_iff.mpr
      ⟨certificateHash, rest, rfl, rfl, hne', hall', hends⟩

/-- An occurrence is one at the start of what it stands in front of. -/
theorem occurrence_append_iff {before text certificateId certificateHash rest : Text} :
    Occurrence (before ++ text) before certificateId certificateHash rest ↔
      Occurrence text [] certificateId certificateHash rest := by
  constructor
  · intro h
    exact ⟨List.append_cancel_left h.text, h.id, h.hash, h.ends⟩
  · intro h
    exact ⟨congrArg (before ++ ·) h.text, h.id, h.hash, h.ends⟩

/-- What the pattern finds are the values of the first occurrence. -/
theorem search_eq_some_iff_firstOccurrence {query certificateId certificateHash : Text} :
    PatternItem.search autoLoginPattern query = some [certificateId, certificateHash] ↔
      ∃ before rest, FirstOccurrence query before certificateId certificateHash rest := by
  rw [PatternItem.search_eq_some_iff]
  constructor
  · rintro ⟨before, text, rfl, hmatch, hfirst⟩
    obtain ⟨id, hash, rest, hgroups, hoccurs⟩ := matchHere_autoLoginPattern_iff.mp hmatch
    obtain ⟨rfl, rfl⟩ : certificateId = id ∧ certificateHash = hash := by simpa using hgroups
    refine ⟨before, rest, occurrence_append_iff.mpr hoccurs, ?_⟩
    intro before' id' hash' rest' hoccurs'
    -- an occurrence further in front would have been found
    by_contra hlt
    have hquery := hoccurs'.text
    have hnone := hfirst before' _ hquery (by omega)
    rw [hquery, occurrence_append_iff] at hoccurs'
    rw [matchHere_autoLoginPattern_iff.mpr ⟨id', hash', rest', rfl, hoccurs'⟩] at hnone
    cases hnone
  · rintro ⟨before, rest, hoccurs, hfirst⟩
    have hquery := hoccurs.text
    rw [hquery, occurrence_append_iff] at hoccurs
    refine ⟨before, _, hquery, ?_, fun before' text' hquery' hlt => ?_⟩
    · exact matchHere_autoLoginPattern_iff.mpr ⟨_, _, rest, rfl, hoccurs⟩
    · rw [Option.eq_none_iff_forall_ne_some]
      intro groups hmatch
      obtain ⟨id', hash', rest', -, hoccurs'⟩ := matchHere_autoLoginPattern_iff.mp hmatch
      have hle := hfirst before' id' hash' rest' (hquery' ▸ occurrence_append_iff.mpr hoccurs')
      omega

theorem isSeparator_of_isHashChar {c : Char} (h : isHashChar c = true) :
    isSeparator c = false := by
  have hquestion : c ≠ '?' := by
    rintro rfl
    exact absurd h (by decide)
  have hampersand : c ≠ '&' := by
    rintro rfl
    exact absurd h (by decide)
  simp [isSeparator, hquestion, hampersand]

theorem isHashChar_of_isDigit {c : Char} (h : isDigit c = true) : isHashChar c = true := by
  simp [isHashChar, h]

/-- There is no separator among the characters of a hash. -/
theorem any_isSeparator_of_isHashChar {text : Text} (h : ∀ c ∈ text, isHashChar c = true) :
    text.any isSeparator = false := by
  apply List.any_eq_false.mpr
  intro c hc
  simp [isSeparator_of_isHashChar (h c hc)]

/-- The text of the pattern is a query of the three parameters. -/
theorem queryParameters_pattern {certificateId certificateHash : Text}
    (hid : IsRun isDigit certificateId) (hhash : IsRun isHashChar certificateHash) :
    queryParameters (certificateIdPart ++ (certificateId ++ (certificateHashPart ++
      certificateHash))) = loginParameters certificateId certificateHash := by
  have hgame : queryParameters ("game".toList ++ '=' :: "101".toList) =
      [("game".toList, some "101".toList)] :=
    parameters_singleton rfl rfl rfl (by decide)
  have hcertId : queryParameters ("certificate_id".toList ++ '=' :: certificateId) =
      [("certificate_id".toList, some certificateId)] := by
    refine parameters_singleton rfl ?_ rfl (by decide)
    exact any_isSeparator_of_isHashChar fun c hc => isHashChar_of_isDigit (hid.2 c hc)
  have hcertHash : queryParameters ("certificate_hash".toList ++ '=' :: certificateHash) =
      [("certificate_hash".toList, some certificateHash)] :=
    parameters_singleton rfl (any_isSeparator_of_isHashChar hhash.2) rfl (by decide)
  -- the pattern joins them with ampersands
  have htext : certificateIdPart ++ (certificateId ++ (certificateHashPart ++ certificateHash)) =
      ("game".toList ++ '=' :: "101".toList) ++ '&' ::
        (("certificate_id".toList ++ '=' :: certificateId) ++ '&' ::
          ("certificate_hash".toList ++ '=' :: certificateHash)) := rfl
  have hamp : isSeparator '&' = true := rfl
  rw [htext, queryParameters, parameters_append hamp, parameters_append hamp]
  exact congrArg₂ (· ++ ·) hgame (congrArg₂ (· ++ ·) hcertId hcertHash)

/-- What is found between separators are the three parameters. -/
theorem Occurrence.hasLoginParameters {query before certificateId certificateHash rest : Text}
    (h : Occurrence query before certificateId certificateHash rest)
    (hbefore : EndsAtSep isSeparator before) (hrest : BeginsAtSep isSeparator rest) :
    HasLoginParameters query certificateId certificateHash := by
  have hinfix : queryParameters (certificateIdPart ++ (certificateId ++ (certificateHashPart ++
      certificateHash))) <:+: queryParameters (before ++ (certificateIdPart ++ (certificateId ++
        (certificateHashPart ++ certificateHash))) ++ rest) :=
    parameters_infix hbefore hrest _
  rw [queryParameters_pattern h.id h.hash] at hinfix
  refine ⟨?_, h.id, h.hash⟩
  rw [h.text]
  simpa only [List.append_assoc] using hinfix

/-! ## Requests that are handled as their parameters say -/

/-- The pattern finds the parameters and nothing else, and it finds nothing without a key. -/
structure WholeParameters (r : Request) : Prop where
  /-- A query in which the pattern occurs comes with a key. -/
  key : ∀ before certificateId certificateHash rest,
    FirstOccurrence r.query before certificateId certificateHash rest → (r.headers apikey).isSome
  /-- The first occurrence stands between separators, or its values are those of parameters
  elsewhere in the query. -/
  whole : ∀ before certificateId certificateHash rest,
    FirstOccurrence r.query before certificateId certificateHash rest →
      EndsAtSep isSeparator before ∧ BeginsAtSep isSeparator rest ∨
        HasLoginParameters r.query certificateId certificateHash
  /-- All parameters that log in have the values of the first occurrence. -/
  found : (r.headers apikey).isSome → ∀ certificateId certificateHash,
    HasLoginParameters r.query certificateId certificateHash →
      ∃ before rest, FirstOccurrence r.query before certificateId certificateHash rest

/-- The values of a first occurrence are those that are found. -/
theorem FirstOccurrence.search_eq {query before certificateId certificateHash rest : Text}
    (h : FirstOccurrence query before certificateId certificateHash rest) :
    PatternItem.search autoLoginPattern query = some [certificateId, certificateHash] :=
  search_eq_some_iff_firstOccurrence.mpr ⟨before, rest, h⟩

/-- Without an occurrence nothing is raised, so there must be nothing to raise. -/
theorem agreesWithParameters_of_not_found {r : Request}
    (h : PatternItem.search autoLoginPattern r.query = none) :
    AgreesWithParameters r ↔ WholeParameters r := by
  have hhandler : dofusProxyServerBeforeRequest r = .ok none := by
    rw [dofusProxyServerBeforeRequest, h]
  have hno : ∀ before id hash rest, ¬ FirstOccurrence r.query before id hash rest := by
    intro before id hash rest hfirst
    rw [hfirst.search_eq] at h
    cases h
  constructor
  · intro hagrees
    refine ⟨fun _ _ _ _ hfirst => absurd hfirst (hno _ _ _ _),
      fun _ _ _ _ hfirst => absurd hfirst (hno _ _ _ _), fun hsome id hash hlogin => ?_⟩
    obtain ⟨key, hkey⟩ := Option.isSome_iff_exists.mp hsome
    have hraised := (hagrees.raised ⟨id, hash, key⟩).mpr ⟨hlogin, hkey⟩
    rw [hhandler] at hraised
    cases hraised
  · intro hwhole
    refine ⟨fun info => ?_, fun e herror => ?_⟩
    · constructor
      · intro hraised
        rw [hhandler] at hraised
        cases hraised
      · intro hlogin
        obtain ⟨before, rest, hfirst⟩ := hwhole.found (by simp [hlogin.2]) _ _ hlogin.1
        exact absurd hfirst (hno _ _ _ _)
    · rw [hhandler] at herror
      cases herror

/-- With an occurrence and a key its values are raised, so they must be those of the parameters. -/
theorem agreesWithParameters_of_found {r : Request} {before id hash rest : Text}
    (h : FirstOccurrence r.query before id hash rest) :
    AgreesWithParameters r ↔ WholeParameters r := by
  have hsame : ∀ before' id' hash' rest', FirstOccurrence r.query before' id' hash' rest' →
      id' = id ∧ hash' = hash := by
    intro before' id' hash' rest' h'
    simpa using h'.search_eq.symm.trans h.search_eq
  cases hkey : r.headers apikey with
  | none =>
    have hhandler : dofusProxyServerBeforeRequest r = .error (.keyNotFound apikey) := by
      rw [dofusProxyServerBeforeRequest, h.search_eq, hkey]
    refine iff_of_false (fun hagrees => hagrees.returns _ hhandler) (fun hwhole => ?_)
    have hsome := hwhole.key _ _ _ _ h
    rw [hkey] at hsome
    cases hsome
  | some key =>
    have hhandler : dofusProxyServerBeforeRequest r = .ok (some ⟨id, hash, key⟩) := by
      rw [dofusProxyServerBeforeRequest, h.search_eq, hkey]
    constructor
    · intro hagrees
      have hlogin := ((hagrees.raised ⟨id, hash, key⟩).mp hhandler).1
      refine ⟨fun _ _ _ _ _ => by simp [hkey], fun _ id' hash' _ h' => ?_,
        fun _ id' hash' hlogin' => ?_⟩
      · obtain ⟨rfl, rfl⟩ := hsame _ _ _ _ h'
        exact .inr hlogin
      · -- other parameters would be raised with the same call
        have hraised := (hagrees.raised ⟨id', hash', key⟩).mpr ⟨hlogin', hkey⟩
        obtain ⟨rfl, rfl⟩ : id = id' ∧ hash = hash' := by simpa [hhandler] using hraised
        exact ⟨before, rest, h⟩
    · intro hwhole
      have hlogin : HasLoginParameters r.query id hash := by
        rcases hwhole.whole _ _ _ _ h with ⟨hbefore, hrest⟩ | hlogin
        · exact h.hasLoginParameters hbefore hrest
        · exact hlogin
      refine ⟨fun info => ?_, fun e herror => ?_⟩
      · constructor
        · intro hraised
          obtain rfl : ⟨id, hash, key⟩ = info := by simpa [hhandler] using hraised
          exact ⟨hlogin, hkey⟩
        · intro hlogin'
          obtain ⟨_, _, hfirst⟩ := hwhole.found (by simp [hkey]) _ _ hlogin'.1
          obtain ⟨hid, hhash⟩ := hsame _ _ _ _ hfirst
          have hinfo : info = ⟨id, hash, key⟩ := by
            cases info
            simp_all
          rw [hinfo, hhandler]
      · rw [hhandler] at herror
        cases herror

/-- **Auto-login parameters**: the handler does what the parameters of the query say exactly when
the first occurrence of the pattern, if there is one, comes with a key and is made of whole
parameters, and the query has no other parameters that log in. -/
theorem agreesWithParameters_iff (r : Request) :
    AgreesWithParameters r ↔ WholeParameters r := by
  cases h : PatternItem.search autoLoginPattern r.query with
  | none => exact agreesWithParameters_of_not_found h
  | some groups =>
    obtain ⟨certificateId, certificateHash, rfl⟩ := search_autoLoginPattern h
    obtain ⟨before, rest, hfirst⟩ := search_eq_some_iff_firstOccurrence.mp h
    exact agreesWithParameters_of_found hfirst

/-- A request that logs in, without its key. -/
def loginWithoutKey : Request :=
  { login with headers := fun _ => none }

/-- A request whose first parameter has a longer name. -/
def longerName : Request :=
  { login with query := "?xgame=101&certificate_id=7&certificate_hash=a1".toList }

/-- A request whose hash goes on with a capital letter. -/
def longerHash : Request :=
  { login with query := "?game=101&certificate_id=7&certificate_hash=a1B2".toList }

/-- The first request makes the handler throw, the second one raises the event, and the third one
raises it with the beginning of the hash. -/
theorem handler_disagrees :
    ¬ AgreesWithParameters loginWithoutKey ∧ ¬ AgreesWithParameters longerName ∧
      ¬ AgreesWithParameters longerHash := by
  refine ⟨fun h => ?_, fun h => ?_, fun h => ?_⟩
  · have hthrows : dofusProxyServerBeforeRequest loginWithoutKey =
        .error (.keyNotFound apikey) := by decide +kernel
    exact h.returns _ hthrows
  · have hraised : dofusProxyServerBeforeRequest longerName =
        .ok (some ⟨"7".toList, "a1".toList, "k".toList⟩) := by decide +kernel
    have hlogin := ((h.raised _).mp hraised).1.parameters
    exact absurd hlogin (by decide +kernel)
  · have hraised : dofusProxyServerBeforeRequest longerHash =
        .ok (some ⟨"7".toList, "a1".toList, "k".toList⟩) := by decide +kernel
    have hlogin := ((h.raised _).mp hraised).1.parameters
    exact absurd hlogin (by decide +kernel)

end Doreto.Proxy
