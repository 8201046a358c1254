import Mathlib.Data.List.Basic

/-!
# Events Delivered Along a Route

An event visits the elements of its route in order. A handler may change the state, fail, and mark
the event as handled; a handled event passes the rest of its route by.

- `deliver`: the visit of a route.
- `deliver_invariant`: what every handler keeps, the delivery keeps, and it does not fail.
- `deliver_ok`: what every handler keeps when it returns, a delivery keeps when it returns.
- `deliver_of_handled`: a handled event changes nothing.
-/

namespace Doreto.Lib

variable {S V ε : Type*} {handled : S → Bool} {handler : V → S → Except ε S}

/-- A computation in two parts that succeeds: both parts succeed. -/
theorem bind_eq_ok {T : Type*} {x : Except ε S} {f : S → Except ε T} {t : T}
    (h : x.bind f = .ok t) : ∃ s, x = .ok s ∧ f s = .ok t := by
  cases x with
  | error fault => cases h
  | ok s => exact ⟨s, rfl, h⟩

/-- Call the handlers along the route until the event is handled. -/
def deliver (handled : S → Bool) (handler : V → S → Except ε S) : List V → S → Except ε S
  | [], s => .ok s
  | v :: route, s =>
      if handled s then deliver handled handler route s
      else (handler v s).bind (deliver handled handler route)

theorem deliver_of_handled {s : S} (h : handled s = true) (route : List V) :
    deliver handled handler route s = .ok s := by
  induction route with
  | nil => rfl
  | cons v route ih => rw [deliver, if_pos h, ih]

theorem deliver_cons_ok {v : V} {s t : S} (hs : handled s = false) (hv : handler v s = .ok t)
    (route : List V) :
    deliver handled handler (v :: route) s = deliver handled handler route t := by
  rw [deliver, if_neg (by simp [hs]), hv]
  rfl

theorem deliver_append (xs ys : List V) (s : S) :
    deliver handled handler (xs ++ ys) s =
      (deliver handled handler xs s).bind (deliver handled handler ys) := by
  induction xs generalizing s with
  | nil => rfl
  | cons v xs ih =>
    by_cases hs : handled s = true
    · rw [deliver_of_handled hs, deliver_of_handled hs]
      exact (deliver_of_handled hs ys).symm
    · rw [List.cons_append, deliver, deliver, if_neg hs, if_neg hs]
      cases handler v s with
      | error fault => rfl
      | ok t => exact ih t

/-- When no handler on the route fails and all of them keep the invariant, the delivery does not
fail and keeps it. -/
theorem deliver_invariant {I : S → Prop} {route : List V}
    (hstep : ∀ v ∈ route, ∀ s, I s → ∃ t, handler v s = .ok t ∧ I t) {s : S} (hs : I s) :
    ∃ t, deliver handled handler route s = .ok t ∧ I t := by
  induction route generalizing s with
  | nil => exact ⟨s, rfl, hs⟩
  | cons v route ih =>
    rw [List.forall_mem_cons] at hstep
    by_cases hh : handled s = true
    · exact ⟨s, deliver_of_handled hh _, hs⟩
    · obtain ⟨t, hv, ht⟩ := hstep.1 s hs
      obtain ⟨u, hrest, hu⟩ := ih hstep.2 ht
      refine ⟨u, ?_, hu⟩
      rw [deliver_cons_ok (Bool.eq_false_iff.mpr hh) hv]
      exact hrest

/-- What every handler keeps when it returns, a delivery that returns keeps. -/
theorem deliver_ok {I : S → Prop} (hstep : ∀ v s t, handler v s = .ok t → I s → I t)
    {route : List V} {s t : S} (h : deliver handled handler route s = .ok t) (hs : I s) : I t := by
  induction route generalizing s with
  | nil => exact Except.ok.inj h ▸ hs
  | cons v route ih =>
    by_cases hh : handled s = true
    · rw [deliver_of_handled hh] at h
      exact Except.ok.inj h ▸ hs
    · rw [deliver, if_neg hh] at h
      obtain ⟨u, hv, hrest⟩ := bind_eq_ok h
      exact ih hrest (hstep v s u hv hs)

end Doreto.Lib
