import Doreto.Lib.CString
import Doreto.Lib.GroupPattern
import Doreto.Lib.Run

/-!
# The Proxy Server

`DofusProxyServer` puts itself between the machine and the network. Its owner starts and stops it.
Of the HTTPS connections it decrypts those whose host `Ep_BeforeTunnelConnectRequest` picks, and
`DofusProxyServer_BeforeRequest` looks into every request that can be read and raises
`NewAutoLoginInfoReceived` for those that log in.

A run is any interleaving of the owner's calls with requests, over any number of connections that
stay open.

## Main results

- `raisedBy_of_isAutoLogin`, `raisedBy_of_not_isAutoLogin`: the requests that raise the event.
- `forall_deliveries_of_step`, `forall_tunnels_of_step`: what a step adds to the record.
-/

namespace Doreto.Proxy

open Doreto.Lib

/-- The characters of a string. -/
abbrev Text := List Char

/-! ## Requests -/

/-- What `NewAutoLoginInfoReceived` carries. -/
structure AutoLoginInfo where
  certId : Text
  certHash : Text
  apiKey : Text
  deriving DecidableEq, Repr

/-- A request, as far as it is looked at. -/
structure Request where
  /-- `RequestUri.Query`. -/
  query : Text
  /-- `Headers.Headers`, which throws for a key that it does not have. -/
  headers : Text → Option Text

/-- `[0-9]`. -/
def isDigit (c : Char) : Bool :=
  '0' ≤ c && c ≤ '9'

/-- `[a-z0-9]`. -/
def isHashChar (c : Char) : Bool :=
  'a' ≤ c && c ≤ 'z' || isDigit c

def certificateIdPart : Text := "game=101&certificate_id=".toList
def certificateHashPart : Text := "&certificate_hash=".toList

/-- `game=101&certificate_id=([0-9]+)&certificate_hash=([a-z0-9]+)`. -/
def autoLoginPattern : List (PatternItem Char) :=
  PatternItem.word certificateIdPart ++ .group isDigit ::
    (PatternItem.word certificateHashPart ++ [.group isHashChar])

/-- The header that holds the key. -/
def apikey : Text := "apikey".toList

/-- An exception that leaves a handler. -/
inductive HandlerException where
  | keyNotFound (key : Text)
  deriving DecidableEq, Repr

/-- `DofusProxyServer_BeforeRequest`: what the event is raised with, if it is raised. -/
def dofusProxyServerBeforeRequest (r : Request) :
    Except HandlerException (Option AutoLoginInfo) :=
  -- the host of the request plays no part
  match PatternItem.search autoLoginPattern r.query with
  | some [certificateId, certificateHash] =>
      match r.headers apikey with
      | some apiKey => .ok (some ⟨certificateId, certificateHash, apiKey⟩)
      | none => .error (.keyNotFound apikey)
  | _ => .ok none

/-- The events that one call of the handler raises. An exception comes before the event. -/
def raisedBy (r : Request) : List AutoLoginInfo :=
  match dofusProxyServerBeforeRequest r with
  | .ok (some info) => [info]
  | _ => []

/-! ## Hosts -/

/-- The name that is looked for in a host. -/
def haapiHost : Text := "haapi.ankama.com".toList

/-- The characters of ordinary host names with a port. -/
def isHostText (s : Text) : Bool :=
  s.all fun c => c.isAlphanum || c == '.' || c == '-' || c == ':'

/-- `Contains` with `InvariantCultureIgnoreCase`. For the characters of host names it compares
letter by letter, in either case. -/
structure InvariantCulture where
  contains : Text → Text → Bool
  contains_hostText : ∀ s t, isHostText s = true → isHostText t = true →
    (contains s t = true ↔ t.map Char.toLower <:+: s.map Char.toLower)

/-- The comparison letter by letter. -/
def InvariantCulture.ordinal : InvariantCulture where
  contains s t := (strstr (t.map Char.toLower) (s.map Char.toLower)).isSome
  contains_hostText _ _ _ _ := strstr_isSome_iff

/-! ## The state -/

/-- A connection that was opened with `CONNECT`. -/
structure Tunnel where
  host : Text
  decryptSsl : Bool
  deriving DecidableEq, Repr

/-- A request for which the subscribers of `BeforeRequest` were called. -/
structure Delivery where
  /-- The target host: that of the request, or that of its tunnel. -/
  host : Text
  request : Request
  /-- The events that were raised. -/
  raised : List AutoLoginInfo

inductive Phase where
  | stopped
  | running
  | disposed
  deriving DecidableEq, Repr

structure DofusProxyServer where
  phase : Phase
  /-- How many times `DofusProxyServer_BeforeRequest` is subscribed to `BeforeRequest`. -/
  beforeRequest : Nat
  /-- The tunnels, in the order in which they were opened. -/
  tunnels : List Tunnel
  /-- The requests that were delivered, oldest first. -/
  deliveries : List Delivery

def DofusProxyServer.new : DofusProxyServer :=
  ⟨.stopped, 0, [], []⟩

/-! ## The owner's calls -/

/-- `Start`. The end point is new and has one subscriber of its own. -/
def start (σ : DofusProxyServer) : DofusProxyServer :=
  { σ with phase := .running, beforeRequest := σ.beforeRequest + 1 }

/-- `Stop`. The subscription to `BeforeRequest` stays. -/
def stop (σ : DofusProxyServer) : DofusProxyServer :=
  { σ with phase := .stopped }

def stopAndDispose (σ : DofusProxyServer) : DofusProxyServer :=
  { σ with phase := .disposed }

/-! ## Requests through the server -/

/-- `Ep_BeforeTunnelConnectRequest`. -/
def epBeforeTunnelConnectRequest (culture : InvariantCulture) (host : Text) : Tunnel :=
  ⟨host, culture.contains host haapiHost⟩

inductive Action where
  | start
  | stop
  | stopAndDispose
  /-- A request without TLS. -/
  | http (host : Text) (r : Request)
  /-- `CONNECT` to a host. -/
  | connect (host : Text)
  /-- A request inside the `i`-th tunnel. -/
  | inTunnel (i : Nat) (r : Request)

/-- The request that is delivered to the subscribers of `BeforeRequest`, with its target host. -/
def delivered (σ : DofusProxyServer) : Action → Option (Text × Request)
  | .http host r => some (host, r)
  | .inTunnel i r =>
      σ.tunnels[i]?.bind fun t =>
        -- a tunnel that is not decrypted cannot be read
        if t.decryptSsl then some (t.host, r) else none
  | _ => none

/-- Every subscription of the handler is called for the request. -/
def deliver (subscriptions : Nat) : Text × Request → Delivery
  | (host, r) => ⟨host, r, (List.replicate subscriptions (raisedBy r)).flatten⟩

/-- The phase in which an action comes: `Start` and `Stop` alternate, and requests come while the
server runs. -/
def Action.phase : Action → Phase
  | .start => .stopped
  | _ => .running

/-- What an action does. -/
def act (culture : InvariantCulture) (σ : DofusProxyServer) (a : Action) : DofusProxyServer :=
  match a with
  | .start => start σ
  | .stop => stop σ
  | .stopAndDispose => stopAndDispose σ
  | .connect host =>
      { σ with tunnels := σ.tunnels ++ [epBeforeTunnelConnectRequest culture host] }
  | .http .. | .inTunnel .. =>
      { σ with
        deliveries := σ.deliveries ++ (delivered σ a).toList.map (deliver σ.beforeRequest) }

/-- One call of the owner or one request. -/
def step (culture : InvariantCulture) (σ : DofusProxyServer) (a : Action) :
    Option DofusProxyServer :=
  if σ.phase = a.phase then some (act culture σ a) else none

/-! ## Which requests raise the event -/

/-- One or more characters of a class. -/
def IsRun (p : Char → Bool) (text : Text) : Prop :=
  text ≠ [] ∧ ∀ c ∈ text, p c = true

/-- The query holds the three parameters one behind another, and there is a key. -/
def IsAutoLogin (r : Request) : Prop :=
  (∃ before certificateId certificateHash rest, r.query = before ++ (certificateIdPart ++
      (certificateId ++ (certificateHashPart ++ certificateHash))) ++ rest ∧
      IsRun isDigit certificateId ∧ IsRun isHashChar certificateHash) ∧
    (r.headers apikey).isSome

theorem matches_autoLoginPattern {text : Text} {groups : List Text} :
    PatternItem.Matches autoLoginPattern text groups ↔
      ∃ certificateId certificateHash, groups = [certificateId, certificateHash] ∧
        text = certificateIdPart ++ (certificateId ++ (certificateHashPart ++ certificateHash)) ∧
        IsRun isDigit certificateId ∧ IsRun isHashChar certificateHash := by
  rw [autoLoginPattern, PatternItem.matches_word_append]
  constructor
  · rintro ⟨_, rfl, hid⟩
    cases hid with
    | group hne hall hmatch =>
      obtain ⟨_, rfl, hhash⟩ := PatternItem.matches_word_append.mp hmatch
      cases hhash with
      | @group _ certificateHash _ _ _ hne' hall' hend =>
        cases hend
        refine ⟨_, certificateHash, rfl, ?_, ⟨hne, hall⟩, ⟨hne', hall'⟩⟩
        rw [List.append_nil]
  · rintro ⟨certificateId, certificateHash, rfl, rfl, ⟨hne, hall⟩, ⟨hne', hall'⟩⟩
    refine ⟨_, rfl, .group hne hall (PatternItem.matches_word_append.mpr ⟨_, rfl, ?_⟩)⟩
    have hlast := PatternItem.Matches.group hne' hall' .nil
    rwa [List.append_nil] at hlast

/-- The search in a query, when it finds anything. -/
theorem search_autoLoginPattern {query : Text} {groups : List Text}
    (h : PatternItem.search autoLoginPattern query = some groups) :
    ∃ certificateId certificateHash, groups = [certificateId, certificateHash] := by
  obtain ⟨before, text, rest, -, hmatch⟩ := PatternItem.search_sound h
  obtain ⟨certificateId, certificateHash, hgroups, -⟩ := matches_autoLoginPattern.mp hmatch
  exact ⟨certificateId, certificateHash, hgroups⟩

theorem raisedBy_of_search {r : Request} {certificateId certificateHash : Text}
    (h : PatternItem.search autoLoginPattern r.query = some [certificateId, certificateHash]) :
    raisedBy r = (r.headers apikey).toList.map (⟨certificateId, certificateHash, ·⟩) := by
  rw [raisedBy, dofusProxyServerBeforeRequest, h]
  cases r.headers apikey <;> rfl

theorem raisedBy_of_search_eq_none {r : Request}
    (h : PatternItem.search autoLoginPattern r.query = none) : raisedBy r = [] := by
  rw [raisedBy, dofusProxyServerBeforeRequest, h]

theorem search_autoLoginPattern_isSome_iff {query : Text} :
    (PatternItem.search autoLoginPattern query).isSome ↔
      ∃ before certificateId certificateHash rest, query = before ++ (certificateIdPart ++
        (certificateId ++ (certificateHashPart ++ certificateHash))) ++ rest ∧
        IsRun isDigit certificateId ∧ IsRun isHashChar certificateHash := by
  rw [PatternItem.search_isSome_iff]
  constructor
  · rintro ⟨before, text, rest, groups, hquery, hmatch⟩
    obtain ⟨certificateId, certificateHash, -, rfl, hruns⟩ := matches_autoLoginPattern.mp hmatch
    exact ⟨before, certificateId, certificateHash, rest, hquery, hruns⟩
  · rintro ⟨before, certificateId, certificateHash, rest, hquery, hruns⟩
    exact ⟨before, _, rest, _, hquery,
      matches_autoLoginPattern.mpr ⟨certificateId, certificateHash, rfl, rfl, hruns⟩⟩

theorem isAutoLogin_iff {r : Request} :
    IsAutoLogin r ↔
      (PatternItem.search autoLoginPattern r.query).isSome ∧ (r.headers apikey).isSome := by
  rw [IsAutoLogin, search_autoLoginPattern_isSome_iff]

instance (r : Request) : Decidable (IsAutoLogin r) :=
  decidable_of_iff _ isAutoLogin_iff.symm

/-- A request that logs in raises one event in each call of the handler. -/
theorem raisedBy_of_isAutoLogin {r : Request} (h : IsAutoLogin r) :
    ∃ info, raisedBy r = [info] := by
  obtain ⟨hsearch, hkey⟩ := isAutoLogin_iff.mp h
  obtain ⟨groups, hgroups⟩ := Option.isSome_iff_exists.mp hsearch
  obtain ⟨key, hkey⟩ := Option.isSome_iff_exists.mp hkey
  obtain ⟨certificateId, certificateHash, rfl⟩ := search_autoLoginPattern hgroups
  refine ⟨⟨certificateId, certificateHash, key⟩, ?_⟩
  rw [raisedBy_of_search hgroups, hkey]
  rfl

/-- No other request raises one. -/
theorem raisedBy_of_not_isAutoLogin {r : Request} (h : ¬ IsAutoLogin r) : raisedBy r = [] := by
  rw [isAutoLogin_iff] at h
  cases hsearch : PatternItem.search autoLoginPattern r.query with
  | none => exact raisedBy_of_search_eq_none hsearch
  | some groups =>
    obtain ⟨certificateId, certificateHash, rfl⟩ := search_autoLoginPattern hsearch
    rw [raisedBy_of_search hsearch]
    cases hkey : r.headers apikey with
    | none => rfl
    | some key => exact absurd ⟨by rw [hsearch]; rfl, by rw [hkey]; rfl⟩ h

/-- A request that logs in. -/
def login : Request where
  query := "?game=101&certificate_id=7&certificate_hash=a1".toList
  headers key := if key = apikey then some "k".toList else none

example : raisedBy login = [⟨"7".toList, "a1".toList, "k".toList⟩] := by decide +kernel

theorem raised_deliver_eq_nil_iff {n : Nat} {host : Text} {r : Request} (hn : 0 < n) :
    (deliver n (host, r)).raised = [] ↔ ¬ IsAutoLogin r := by
  show (List.replicate n (raisedBy r)).flatten = [] ↔ _
  constructor
  · intro h hlogin
    obtain ⟨info, hinfo⟩ := raisedBy_of_isAutoLogin hlogin
    rw [List.flatten_eq_nil_iff] at h
    have hnil := h _ (List.mem_replicate.mpr ⟨by omega, rfl⟩)
    rw [hinfo] at hnil
    cases hnil
  · intro h
    rw [raisedBy_of_not_isAutoLogin h]
    simp

/-- A request that logs in raises as many events as there are subscriptions. -/
theorem length_raised_deliver {n : Nat} {host : Text} {r : Request} (h : IsAutoLogin r) :
    (deliver n (host, r)).raised.length = n := by
  obtain ⟨info, hinfo⟩ := raisedBy_of_isAutoLogin h
  show (List.replicate n (raisedBy r)).flatten.length = n
  simp [hinfo]

/-! ## What a step does -/

section Step

variable {culture : InvariantCulture} {σ τ : DofusProxyServer} {a : Action}

theorem act_of_step (h : step culture σ a = some τ) :
    σ.phase = a.phase ∧ τ = act culture σ a := by
  obtain ⟨hphase, hact⟩ := Option.ite_none_right_eq_some.mp h
  exact ⟨hphase, (Option.some.inj hact).symm⟩

theorem deliveries_of_step (h : step culture σ a = some τ) :
    τ.deliveries = σ.deliveries ++ (delivered σ a).toList.map (deliver σ.beforeRequest) := by
  obtain ⟨-, rfl⟩ := act_of_step h
  cases a with
  | http host r => rfl
  | inTunnel i r => rfl
  -- the other actions deliver nothing
  | _ => exact (List.append_nil _).symm

/-- The tunnel that an action opens. -/
def opened (culture : InvariantCulture) : Action → List Tunnel
  | .connect host => [epBeforeTunnelConnectRequest culture host]
  | _ => []

theorem tunnels_of_step (h : step culture σ a = some τ) :
    τ.tunnels = σ.tunnels ++ opened culture a := by
  obtain ⟨-, rfl⟩ := act_of_step h
  cases a with
  | connect host => rfl
  | _ => exact (List.append_nil _).symm

/-- What holds of the record holds of the longer one exactly when it holds of what is new. -/
theorem forall_deliveries_of_step {P : Delivery → Prop} (hσ : ∀ d ∈ σ.deliveries, P d)
    (h : step culture σ a = some τ) :
    (∀ d ∈ τ.deliveries, P d) ↔
      ∀ host r, delivered σ a = some (host, r) → P (deliver σ.beforeRequest (host, r)) := by
  rw [deliveries_of_step h, List.forall_mem_append, and_iff_right hσ, List.forall_mem_map]
  constructor
  · intro hnew host r hdelivered
    exact hnew (host, r) (Option.mem_toList.mpr hdelivered)
  · intro hnew p hp
    exact hnew p.1 p.2 (Option.mem_toList.mp hp)

theorem forall_tunnels_of_step {P : Tunnel → Prop} (hσ : ∀ t ∈ σ.tunnels, P t)
    (h : step culture σ a = some τ) :
    (∀ t ∈ τ.tunnels, P t) ↔ ∀ t ∈ opened culture a, P t := by
  rw [tunnels_of_step h, List.forall_mem_append, and_iff_right hσ]

/-- A server that runs has been started. -/
def Subscribed (σ : DofusProxyServer) : Prop :=
  σ.phase = .running → 0 < σ.beforeRequest

theorem subscribed_of_step (hσ : Subscribed σ) (h : step culture σ a = some τ) :
    Subscribed τ := by
  obtain ⟨-, rfl⟩ := act_of_step h
  cases a with
  | start => exact fun _ => Nat.succ_pos _
  | stop => exact fun hphase => by cases hphase
  | stopAndDispose => exact fun hphase => by cases hphase
  | _ => exact hσ

/-- What is delivered comes while the server runs. -/
theorem phase_of_delivered {host : Text} {r : Request} (h : delivered σ a = some (host, r)) :
    a.phase = .running := by
  cases a with
  | start => cases h
  | _ => rfl

theorem running_of_delivered {host : Text} {r : Request} (h : step culture σ a = some τ)
    (hdelivered : delivered σ a = some (host, r)) : σ.phase = .running :=
  (act_of_step h).1.trans (phase_of_delivered hdelivered)

end Step

end Doreto.Proxy
