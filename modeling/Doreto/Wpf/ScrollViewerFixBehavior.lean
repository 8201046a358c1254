import Doreto.Lib.RoutedEvent

/-!
# The Scroll Behavior of Nested Viewers

`ScrollViewerBehavior` attaches a handler for preview wheel events to nested scroll viewers. The
handler raises a fake event of its own on the source of the event it got, which runs the handlers
of the whole chain again before it goes on, and decides on the way back which viewer scrolls.

WPF gives a preview event to the viewers on the route to its source from the outermost to the
innermost one, and skips the rest once the event is handled. Events are objects that are compared
by identity, so each of them gets a number. `K` is the type of offsets and heights, `V` the type
of viewers.
-/

namespace Doreto.Wpf

open Doreto.Lib

variable {K V : Type} [DecidableEq V]

/-! ## Viewers -/

/-- What the behavior reads of a `ScrollViewer`. -/
structure ScrollViewer (K : Type) where
  isEnabled : Bool
  verticalOffset : K
  scrollableHeight : K

section Scrolling

variable [Zero K] [LT K] [LE K] [DecidableLT K] [DecidableLE K]

/-- The viewer has a scrollbar that can be used. -/
def isScrollSupported (scrollViewer : ScrollViewer K) : Bool :=
  decide (scrollViewer.scrollableHeight > 0) && scrollViewer.isEnabled

/-- The viewer has reached the bound in the direction of `delta`. -/
def isScrollingOutOfBounds (scrollViewer : ScrollViewer K) (delta : Int) : Bool :=
  (decide (delta > 0) && decide (scrollViewer.verticalOffset ≤ 0)) ||
    (decide (delta ≤ 0) && decide (scrollViewer.verticalOffset ≥ scrollViewer.scrollableHeight))

def canScroll (scrollViewer : ScrollViewer K) (delta : Int) : Bool :=
  if !isScrollSupported scrollViewer || isScrollingOutOfBounds scrollViewer delta then false
  else true

end Scrolling

/-! ## Events and the shared state -/

/-- `MouseWheelEventArgs`. -/
structure MouseWheelEventArgs (V : Type) where
  id : Nat
  delta : Int
  /-- The viewers on the route to the source, outermost first, when the source is an input
  element. -/
  originalSource : Option (List V)

/-- `ScrollViewerBehaviorSequence`. -/
structure ScrollViewerBehaviorSequence (V : Type) where
  fakeEvents : List Nat
  originalEvent : Nat
  scrollViewers : List V
  deriving DecidableEq

/-- A `MouseWheel` event that the behavior raised. -/
structure ForcedWheel (V : Type) where
  target : V
  source : V
  delta : Int
  deriving DecidableEq

/-- One activation of the handler's body, for the record: what `s_sequence` was before it, behind
the push, behind `RaiseEvent` and in the end. -/
structure Activation (V : Type) where
  scrollViewer : V
  event : Nat
  fakeEvent : Nat
  before : Option (ScrollViewerBehaviorSequence V)
  pushed : Option (ScrollViewerBehaviorSequence V)
  returned : Option (ScrollViewerBehaviorSequence V)
  after : Option (ScrollViewerBehaviorSequence V)
  deriving DecidableEq

/-- The static fields of the behavior, the events and the record. -/
structure Ui (V : Type) where
  /-- The number of the next event. -/
  nextEvent : Nat
  /-- The events whose `Handled` is set. -/
  handled : List Nat
  /-- `s_currentOriginalEventArg`. -/
  currentOriginalEventArg : Option Nat
  /-- `s_sequence`. -/
  sequence : Option (ScrollViewerBehaviorSequence V)
  /-- `s_sequence` at each entry of the handler. -/
  entries : List (Option (ScrollViewerBehaviorSequence V))
  activations : List (Activation V)
  forced : List (ForcedWheel V)
  deriving DecidableEq

def Ui.init : Ui V :=
  { nextEvent := 0
    handled := []
    currentOriginalEventArg := none
    sequence := none
    entries := []
    activations := []
    forced := [] }

/-- Ways for the handler not to return. -/
inductive Fault where
  | outOfFuel
  | nullReference
  deriving DecidableEq, Repr

/-! ## The sequence -/

def Ui.setHandled (s : Ui V) (e : Nat) : Ui V :=
  { s with handled := e :: s.handled }

/-- `HandleEvents`. -/
def handleEvents (q : ScrollViewerBehaviorSequence V) (s : Ui V) : Ui V :=
  { s with handled := q.originalEvent :: (q.fakeEvents ++ s.handled) }

/-- The viewers before `scrollViewer` in the sequence, in the order in which the loop of
`ForceMouseWheelEvent` visits them. -/
def parents (q : ScrollViewerBehaviorSequence V) (scrollViewer : V) : List V :=
  match q.scrollViewers.idxOf? scrollViewer with
  | none => []
  | some index => (q.scrollViewers.take index).reverse

variable [Zero K] [LT K] [LE K] [DecidableLT K] [DecidableLE K]

/-- `ForceMouseWheelEvent`. -/
def forceMouseWheelEvent (view : V → ScrollViewer K) (q : ScrollViewerBehaviorSequence V)
    (scrollViewer : V) (e : MouseWheelEventArgs V) (s : Ui V) : Ui V :=
  match (parents q scrollViewer).find? fun parent => canScroll (view parent) e.delta with
  | none => s
  | some parentScrollViewer =>
      -- the first parent that can scroll gets the event, and everything on the way is handled
      let s := handleEvents q (s.setHandled e.id)
      { s with forced := s.forced ++ [⟨parentScrollViewer, scrollViewer, e.delta⟩] }

/-! ## The handler -/

/-- Record an entry of the handler. -/
def Ui.enter (s : Ui V) : Ui V :=
  { s with entries := s.entries ++ [s.sequence] }

omit [Zero K] [LT K] [LE K] [DecidableLT K] [DecidableLE K] in
/-- The condition at the entry: the event is not handled, it is fake or an original event that is
new, and the viewer is not in the sequence. -/
def Ui.processes (s : Ui V) (scrollViewer : V) (e : MouseWheelEventArgs V) : Bool :=
  decide (e.id ∉ s.handled) && decide (some e.id ≠ s.currentOriginalEventArg) &&
    match s.sequence with
    | none => true
    | some q => decide (scrollViewer ∉ q.scrollViewers) && decide (e.id ∈ q.fakeEvents)

/-- Begin a sequence, or add the fake event and the viewer to the one there is. -/
def Ui.push (s : Ui V) (e : MouseWheelEventArgs V) (scrollViewer : V) (previewEventArg : Nat) :
    Ui V :=
  match s.sequence with
  | none =>
      { s with
        sequence := some ⟨[previewEventArg], e.id, [scrollViewer]⟩
        currentOriginalEventArg := some e.id }
  | some q =>
      { s with sequence := some { q with
          fakeEvents := q.fakeEvents ++ [previewEventArg]
          scrollViewers := q.scrollViewers ++ [scrollViewer] } }

section PushFields

omit [Zero K] [LT K] [LE K] [DecidableLT K] [DecidableLE K]

variable (s : Ui V) (e : MouseWheelEventArgs V) (v : V) (f : Nat)

omit [DecidableEq V] in
@[simp] theorem Ui.push_entries : (s.push e v f).entries = s.entries := by
  unfold Ui.push
  split <;> rfl

omit [DecidableEq V] in
@[simp] theorem Ui.push_activations : (s.push e v f).activations = s.activations := by
  unfold Ui.push
  split <;> rfl

omit [DecidableEq V] in
@[simp] theorem Ui.push_forced : (s.push e v f).forced = s.forced := by
  unfold Ui.push
  split <;> rfl

omit [DecidableEq V] in
@[simp] theorem Ui.push_handled : (s.push e v f).handled = s.handled := by
  unfold Ui.push
  split <;> rfl

omit [DecidableEq V] in
@[simp] theorem Ui.push_nextEvent : (s.push e v f).nextEvent = s.nextEvent := by
  unfold Ui.push
  split <;> rfl

end PushFields

/-- The way back, behind `RaiseEvent`. -/
def goBackUp (view : V → ScrollViewer K) (scrollViewer : V) (e : MouseWheelEventArgs V)
    (previewEventArg : Nat) (s : Ui V) : Except Fault (Ui V) :=
  match s.sequence with
  | none => .error .nullReference
  | some q =>
      -- the original event is none of the fake ones: its viewer only cleans up
      if e.id ∈ q.fakeEvents then
        if previewEventArg ∈ s.handled then
          .ok (s.setHandled e.id)
        else
          -- a viewer with a scrollbar handles the fake event, at its bound as well
          let s := if isScrollSupported (view scrollViewer) then s.setHandled e.id else s
          if isScrollingOutOfBounds (view scrollViewer) e.delta then
            .ok (forceMouseWheelEvent view q scrollViewer e s)
          else .ok s
      else .ok s

/-- Remove the fake event and the viewer, and end the sequence when it is empty. -/
def Ui.pop (s : Ui V) (scrollViewer : V) (previewEventArg : Nat) : Except Fault (Ui V) :=
  match s.sequence with
  | none => .error .nullReference
  | some q =>
      let q := { q with
        fakeEvents := q.fakeEvents.erase previewEventArg
        scrollViewers := q.scrollViewers.erase scrollViewer }
      .ok { s with sequence := if q.fakeEvents.length = 0 then none else some q }

/-- `RaiseEvent` of a preview event whose handler is `handler`. -/
def raiseEvent (handler : V → Ui V → Except Fault (Ui V)) (e : Nat) (route : List V) (s : Ui V) :
    Except Fault (Ui V) :=
  deliver (fun s => decide (e ∈ s.handled)) handler route s

/-- `OnScrollViewerPreviewMouseWheel`, with `fuel` for the depth of the nested events. -/
def onScrollViewerPreviewMouseWheel (view : V → ScrollViewer K) :
    Nat → MouseWheelEventArgs V → V → Ui V → Except Fault (Ui V)
  | 0, _, _, _ => .error .outOfFuel
  | fuel + 1, e, scrollViewer, entry => do
      let s := entry.enter
      if s.processes scrollViewer e then
        let previewEventArg : MouseWheelEventArgs V := ⟨s.nextEvent, e.delta, e.originalSource⟩
        -- the fake event is made before the source is looked at
        let s := { s with nextEvent := s.nextEvent + 1 }
        match e.originalSource with
        | none => return s
        | some route =>
            let pushed := s.push e scrollViewer previewEventArg.id
            -- the fake event goes to the same viewers again
            let returned ← raiseEvent
              (fun child s => onScrollViewerPreviewMouseWheel view fuel previewEventArg child s)
              previewEventArg.id route pushed
            let s ← goBackUp view scrollViewer e previewEventArg.id returned
            let s ← s.pop scrollViewer previewEventArg.id
            return { s with activations := s.activations ++
              [⟨scrollViewer, e.id, previewEventArg.id, entry.sequence, pushed.sequence,
                returned.sequence, s.sequence⟩] }
      else return s

section Equations

variable {view : V → ScrollViewer K} {fuel : Nat} {e : MouseWheelEventArgs V} {v : V} {s : Ui V}

theorem handler_of_not_processes (h : s.enter.processes v e = false) :
    onScrollViewerPreviewMouseWheel view (fuel + 1) e v s = .ok s.enter := by
  rw [onScrollViewerPreviewMouseWheel]
  simp only [h]
  rfl

theorem handler_of_no_source (h : s.enter.processes v e = true) (hsource : e.originalSource = none) :
    onScrollViewerPreviewMouseWheel view (fuel + 1) e v s =
      .ok { s.enter with nextEvent := s.nextEvent + 1 } := by
  rw [onScrollViewerPreviewMouseWheel]
  simp only [h, hsource]
  rfl

/-- An activation: push, raise the fake event, go back up and pop. -/
theorem handler_of_processes (h : s.enter.processes v e = true) {route : List V}
    (hsource : e.originalSource = some route) {pushed returned back popped : Ui V}
    (hpush : ({ s.enter with nextEvent := s.nextEvent + 1 } : Ui V).push e v s.nextEvent = pushed)
    (hraise : raiseEvent
      (onScrollViewerPreviewMouseWheel view fuel ⟨s.nextEvent, e.delta, some route⟩)
      s.nextEvent route pushed = .ok returned)
    (hback : goBackUp view v e s.nextEvent returned = .ok back)
    (hpop : back.pop v s.nextEvent = .ok popped) :
    onScrollViewerPreviewMouseWheel view (fuel + 1) e v s =
      .ok { popped with activations := popped.activations ++
        [⟨v, e.id, s.nextEvent, s.sequence, pushed.sequence, returned.sequence,
          popped.sequence⟩] } := by
  subst hpush
  have hnext : s.enter.nextEvent = s.nextEvent := rfl
  simp only [onScrollViewerPreviewMouseWheel, h, hsource, if_true, hnext]
  rw [hraise]
  simp only [bind, Except.bind, hback, hpop]
  rfl

end Equations

/-! ## Original events -/

/-- WPF raises a wheel event of the user on the viewers of its route, outermost first. There is fuel
for one activation of each viewer, and `extra`. -/
def raiseWheel (extra : Nat) (chain : List V) (view : V → ScrollViewer K) (delta : Int)
    (isInputElement : Bool) (s : Ui V) : Except Fault (Ui V) :=
  let e : MouseWheelEventArgs V := ⟨s.nextEvent, delta, if isInputElement then some chain else none⟩
  raiseEvent (onScrollViewerPreviewMouseWheel view (chain.length + 1 + extra) e) e.id chain
    { s with nextEvent := s.nextEvent + 1 }

/-- A wheel event of the user: the viewers on its route, outermost first, with what they show
while the event is handled. -/
structure WheelInput (K V : Type) where
  chain : List V
  nodup : chain.Nodup
  view : V → ScrollViewer K
  delta : Int
  /-- The source of the event is an input element. -/
  isInputElement : Bool

/-- The event is raised. -/
def WheelInput.raise (extra : Nat) (input : WheelInput K V) (s : Ui V) : Except Fault (Ui V) :=
  raiseWheel extra input.chain input.view input.delta input.isInputElement s

/-- One original event after the other. -/
def raiseAll (extra : Nat) : List (WheelInput K V) → Ui V → Except Fault (Ui V)
  | [], s => .ok s
  | input :: inputs, s => (input.raise extra s).bind (raiseAll extra inputs)

end Doreto.Wpf
