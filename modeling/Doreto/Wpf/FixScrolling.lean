import Doreto.Lib.Run
import Doreto.Wpf.HandOver

/-!
# The FixScrolling Property

`OnFixScrollingPropertyChanged` adds the wheel handler to a viewer when `FixScrolling` becomes true
and removes it when it becomes false. WPF calls it when the value of the property changes, and calls
a handler of a preview event as often as it was added. For an element that is no `ScrollViewer` it
throws, and the value stays changed.

The viewers whose handlers a wheel event runs are those on the way to its source to which the
handler is attached. Here the property and the events are one system, and what was shown of chains
of viewers holds of the elements of a window.

## Main results

- `Window.Sound`: the handler is attached once to each viewer that has the property.
- `window_hands_over`: after any changes of the property and any wheel events, the next wheel event
  is handed over among the viewers that have the property then.
-/

namespace Doreto.Wpf

open Doreto.Lib

variable {K V : Type} [DecidableEq V]

/-! ## The window -/

/-- The elements of a window, with the static fields of the behavior. -/
structure Window (V : Type) where
  /-- The value of `FixScrolling`. -/
  fixScrolling : V → Bool
  /-- How often `OnScrollViewerPreviewMouseWheel` was added to `PreviewMouseWheel`. -/
  previewMouseWheel : V → Nat
  ui : Ui V

/-- No property is set yet. -/
def Window.init : Window V where
  fixScrolling _ := false
  previewMouseWheel _ := 0
  ui := .init

/-- `OnFixScrollingPropertyChanged`. It throws for an element that is no `ScrollViewer`. -/
def onFixScrollingPropertyChanged (isScrollViewer : V → Bool) (sender : V) (newValue : Bool)
    (w : Window V) : Option (Window V) :=
  if isScrollViewer sender then
    if newValue then
      some { w with previewMouseWheel :=
        Function.update w.previewMouseWheel sender (w.previewMouseWheel sender + 1) }
    else
      -- one of the handlers is removed, when there is one
      some { w with previewMouseWheel :=
        Function.update w.previewMouseWheel sender (w.previewMouseWheel sender - 1) }
  else none

/-- `SetFixScrolling`. The handler of the change is called when the value changes, and what it
throws does not take the value back. -/
def setFixScrolling (isScrollViewer : V → Bool) (obj : V) (value : Bool) (w : Window V) :
    Window V :=
  if w.fixScrolling obj = value then w
  else
    let w := { w with fixScrolling := Function.update w.fixScrolling obj value }
    (onFixScrollingPropertyChanged isScrollViewer obj value w).getD w

/-- The way from the root of a window to the source of an event. -/
structure TreePath (V : Type) where
  elements : List V
  nodup : elements.Nodup

/-- The viewers whose handlers an event with this path runs, outermost first. -/
def Window.chain (w : Window V) (path : TreePath V) : List V :=
  path.elements.flatMap fun v => List.replicate (w.previewMouseWheel v) v

/-- What may happen to a window. -/
inductive WindowAction (K V : Type) where
  | setFixScrolling (obj : V) (value : Bool)
  /-- A wheel event, with what the viewers show while it is handled. -/
  | wheel (path : TreePath V) (view : V → ScrollViewer K) (delta : Int) (isInputElement : Bool)

variable [Zero K] [LinearOrder K]

/-- A change of the property or a wheel event. It has no result when a handler does not return. -/
def Window.step (isScrollViewer : V → Bool) (extra : Nat) (w : Window V) :
    WindowAction K V → Option (Window V)
  | .setFixScrolling obj value => some (Wpf.setFixScrolling isScrollViewer obj value w)
  | .wheel path view delta isInputElement =>
      match raiseWheel extra (w.chain path) view delta isInputElement w.ui with
      | .ok ui => some { w with ui := ui }
      | .error _ => none

/-! ## Attached once -/

/-- The handler is attached once to the viewers that have the property, and no wheel event is under
way. -/
structure Window.Sound (isScrollViewer : V → Bool) (w : Window V) : Prop where
  attached : ∀ v, w.previewMouseWheel v = if isScrollViewer v && w.fixScrolling v then 1 else 0
  idle : Idle w.ui

/-- The elements on the path that are viewers and have the property. -/
def Window.fixed (isScrollViewer : V → Bool) (w : Window V) (path : TreePath V) : List V :=
  path.elements.filter fun v => isScrollViewer v && w.fixScrolling v

omit [DecidableEq V] in
theorem sound_init (isScrollViewer : V → Bool) :
    (Window.init : Window V).Sound isScrollViewer :=
  ⟨fun v => by simp [Window.init], idle_init⟩

theorem sound_setFixScrolling {isScrollViewer : V → Bool} {w : Window V}
    (h : w.Sound isScrollViewer) (obj : V) (value : Bool) :
    (setFixScrolling isScrollViewer obj value w).Sound isScrollViewer := by
  unfold setFixScrolling
  split
  case isTrue => exact h
  case isFalse hchanged =>
    refine ⟨fun v => ?_, ?_⟩
    · have hold := h.attached v
      by_cases hviewer : isScrollViewer obj = true
      · by_cases hv : v = obj
        · subst hv
          -- the value was the other one, so that the handler is there once or not at all
          cases value <;>
            simp_all [onFixScrollingPropertyChanged]
        · cases value <;>
            simp [onFixScrollingPropertyChanged, hviewer, Function.update_of_ne hv, hold]
      · by_cases hv : v = obj
        · subst hv
          simp [onFixScrollingPropertyChanged, hviewer, hold]
        · simp [onFixScrollingPropertyChanged, hviewer, Function.update_of_ne hv, hold]
    · unfold onFixScrollingPropertyChanged
      split
      · split <;> exact h.idle
      · exact h.idle

omit [DecidableEq V] in
/-- The chain of an event is made of the viewers with the property, each of them once. -/
theorem Window.Sound.chain_eq {isScrollViewer : V → Bool} {w : Window V}
    (h : w.Sound isScrollViewer) (path : TreePath V) :
    w.chain path = w.fixed isScrollViewer path := by
  unfold Window.chain Window.fixed
  induction path.elements with
  | nil => rfl
  | cons v rest ih =>
    rw [List.flatMap_cons, ih, h.attached v, List.filter_cons]
    split <;> rfl

/-! ## Runs of a window -/

/-- A wheel event on a window is one on the chain of viewers that have the property. -/
theorem raiseWheel_eq {isScrollViewer : V → Bool} {w : Window V} (h : w.Sound isScrollViewer)
    (path : TreePath V) (extra : Nat) (input : WheelInput K V)
    (hchain : input.chain = w.fixed isScrollViewer path) :
    raiseWheel extra (w.chain path) input.view input.delta input.isInputElement w.ui =
      input.raise extra w.ui := by
  rw [h.chain_eq, ← hchain]
  rfl

theorem sound_of_step (isScrollViewer : V → Bool) (extra : Nat) {w : Window V}
    (h : w.Sound isScrollViewer) (a : WindowAction K V) :
    ∃ w', w.step isScrollViewer extra a = some w' ∧ w'.Sound isScrollViewer := by
  cases a with
  | setFixScrolling obj value => exact ⟨_, rfl, sound_setFixScrolling h obj value⟩
  | wheel path view delta isInputElement =>
    let input : WheelInput K V := {
      chain := w.fixed isScrollViewer path
      nodup := path.nodup.filter _
      view := view
      delta := delta
      isInputElement := isInputElement }
    obtain ⟨t, ht, hidle, -⟩ := raise_restores extra input h.idle
    have hraise : raiseWheel extra (w.chain path) view delta isInputElement w.ui = .ok t :=
      (raiseWheel_eq h path extra input rfl).trans ht
    exact ⟨{ w with ui := t }, by rw [Window.step, hraise], h.attached, hidle⟩

/-- Every run of a window has a result, in which the handler is attached as it should be. -/
theorem exec_sound (isScrollViewer : V → Bool) (extra : Nat) (actions : List (WindowAction K V))
    {w : Window V} (h : w.Sound isScrollViewer) :
    ∃ w', exec (Window.step isScrollViewer extra) w actions = some w' ∧
      w'.Sound isScrollViewer := by
  induction actions generalizing w with
  | nil => exact ⟨w, rfl, h⟩
  | cons a actions ih =>
    obtain ⟨w', hstep, hsound⟩ := sound_of_step isScrollViewer extra h a
    obtain ⟨w'', hrest, hsound'⟩ := ih hsound
    refine ⟨w'', ?_, hsound'⟩
    rw [exec, hstep]
    exact hrest

/-- After any changes of the property and any wheel events, the handler is attached once to the
viewers that have the property and to no other element, and the next wheel event over nested
viewers is handed over among those that have the property on its path. -/
theorem window_hands_over (isScrollViewer : V → Bool) (extra : Nat)
    (actions : List (WindowAction K V)) :
    ∃ w, exec (Window.step isScrollViewer extra) .init actions = some w ∧
      w.ui.sequence = none ∧
      (∀ v, w.previewMouseWheel v = if isScrollViewer v && w.fixScrolling v then 1 else 0) ∧
      ∀ (path : TreePath V) (input : NestedViewers K V),
        input.chain = w.fixed isScrollViewer path →
        ∃ w', w.step isScrollViewer extra
            (.wheel path input.view input.delta input.isInputElement) = some w' ∧
          input.HandedOver w.ui.nextEvent w.ui w'.ui := by
  obtain ⟨w, hexec, hsound⟩ := exec_sound isScrollViewer extra actions (sound_init isScrollViewer)
  refine ⟨w, hexec, hsound.idle.sequence, hsound.attached, fun path input hchain => ?_⟩
  obtain ⟨t, ht, hover⟩ := input.handedOver_of_idle extra hsound.idle
  have hraise := (raiseWheel_eq hsound path extra input.toWheelInput hchain).trans ht
  exact ⟨{ w with ui := t }, by rw [Window.step, hraise], hover⟩

end Doreto.Wpf
