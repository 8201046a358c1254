import Doreto.Proxy.DofusProxyServer

/-!
# Starting the Proxy Server Again

`Start` subscribes `DofusProxyServer_BeforeRequest` to `BeforeRequest` and `Stop` does not take the
subscription back. Behind the second `Start` every request that logs in raises its event twice,
behind the third one three times.

## Main results

- `beforeRequest_of_exec`: there are as many subscriptions as there were starts.
- `raisedOnce_iff_subscribedOnce`: a step raises each event once exactly when a request that logs
  in finds one subscription.
- `raisedOnce_iff_startedOnce`: the same for runs, in terms of the starts.
-/

namespace Doreto.Proxy

open Doreto.Lib

variable {culture : InvariantCulture}

/-- Every request that logs in has raised one event. -/
def RaisedOnce (σ : DofusProxyServer) : Prop :=
  ∀ d ∈ σ.deliveries, IsAutoLogin d.request → d.raised.length = 1

instance (σ : DofusProxyServer) : Decidable (RaisedOnce σ) :=
  inferInstanceAs (Decidable (∀ d ∈ σ.deliveries, _))

/-- A request that logs in finds one subscription. -/
def SubscribedOnce (σ : DofusProxyServer) (a : Action) : Prop :=
  ∀ host r, delivered σ a = some (host, r) → IsAutoLogin r → σ.beforeRequest = 1

/-! ## The subscriptions -/

def Action.isStart : Action → Bool
  | .start => true
  | _ => false

theorem beforeRequest_of_step {σ τ : DofusProxyServer} {a : Action}
    (h : step culture σ a = some τ) :
    τ.beforeRequest = σ.beforeRequest + [a].countP Action.isStart := by
  obtain ⟨-, rfl⟩ := act_of_step h
  cases a <;> rfl

/-- There are as many subscriptions as there were starts. -/
theorem beforeRequest_of_exec {σ τ : DofusProxyServer} {actions : List Action}
    (h : exec (step culture) σ actions = some τ) :
    τ.beforeRequest = σ.beforeRequest + actions.countP Action.isStart := by
  induction actions generalizing σ with
  | nil =>
    obtain rfl := Option.some.inj h
    rfl
  | cons a actions ih =>
    obtain ⟨ρ, hstep, hrest⟩ := Option.bind_eq_some_iff.mp h
    rw [ih hrest, beforeRequest_of_step hstep, Nat.add_assoc, ← List.countP_append]
    rfl

/-! ## One step -/

/-- A step raises each event once exactly when a request that logs in finds one subscription. -/
theorem raisedOnce_iff_subscribedOnce {σ τ : DofusProxyServer} {a : Action} (hσ : RaisedOnce σ)
    (h : step culture σ a = some τ) : RaisedOnce τ ↔ SubscribedOnce σ a := by
  rw [RaisedOnce, forall_deliveries_of_step hσ h, SubscribedOnce]
  apply forall₃_congr
  intro host r hdelivered
  apply forall_congr'
  intro hlogin
  have hlogin' : IsAutoLogin r := hlogin
  rw [length_raised_deliver hlogin']

/-! ## Every run -/

/-- Every request that logs in comes behind the first start and before the second one. -/
def StartedOnce (culture : InvariantCulture) (actions : List Action) : Prop :=
  ∀ before a σ host r, before ++ [a] <+: actions → exec (step culture) .new before = some σ →
    σ.phase = .running → delivered σ a = some (host, r) → IsAutoLogin r →
    before.countP Action.isStart = 1

theorem stepsMeet_subscribedOnce_iff (actions : List Action) :
    StepsMeet (step culture) SubscribedOnce .new actions ↔ StartedOnce culture actions := by
  rw [stepsMeet_iff]
  constructor
  · intro h before a σ host r hpre hexec hrunning hdelivered hlogin
    have hstep : step culture σ a = some (act culture σ a) :=
      if_pos (hrunning.trans (phase_of_delivered hdelivered).symm)
    have honce := h before a σ _ hpre hexec hstep host r hdelivered hlogin
    rw [beforeRequest_of_exec hexec] at honce
    rwa [← Nat.zero_add (before.countP _)]
  · intro h before a σ τ hpre hexec hstep host r hdelivered hlogin
    have honce := h before a σ host r hpre hexec (running_of_delivered hstep hdelivered) hdelivered
      hlogin
    rw [beforeRequest_of_exec hexec, honce]
    rfl

/-- **Restarts**: in a run of alternating calls of `Start` and `Stop` with any requests between
them, every request that logs in raises its event once exactly when it comes before the second
start. -/
theorem raisedOnce_iff_startedOnce (culture : InvariantCulture) (actions : List Action) :
    HoldsAlong (step culture) RaisedOnce .new actions ↔ StartedOnce culture actions := by
  rw [← stepsMeet_subscribedOnce_iff]
  apply holdsAlong_iff_stepsMeet (I := fun _ => True)
  · exact fun _ _ _ _ _ => trivial
  · exact fun _ _ _ _ hσ h => raisedOnce_iff_subscribedOnce hσ h
  · exact trivial
  · exact fun d hd => by cases hd

/-- The second start makes a login raise its event twice. -/
theorem login_raised_twice :
    ¬ HoldsAlong (step .ordinal) RaisedOnce .new
      [.start, .stop, .start, .http haapiHost login] := by
  decide +kernel

end Doreto.Proxy
