import Mathlib.Algebra.Ring.Int.Defs
import Mathlib.Data.List.Nodup
import Doreto.Wpf.ScrollSequence

/-!
# Each Viewer Is Processed Once

The handler asks for a viewer that was not already processed, and looks for it in the sequence.
A viewer leaves the sequence when its activation returns. A fake event that comes back unhandled
goes on down the chain and finds the viewers below as if they were new, so they are processed
again.

This needs a fake event with two viewers in front of it. When one of the two innermost viewers
handles its event, every event above is handled on the way back and nothing goes on.

## Main results

- `handler_records`: a call of the handler only adds to the record.
- `descends_once`: what a fake event does when the two innermost viewers settle it.
- `descends_twice`: what it does otherwise.
- `processedOnce_iff_settlesSoon`: no viewer is processed twice exactly in the first case.
-/

namespace Doreto.Wpf

open Doreto.Lib

variable {K V : Type}

/-! ## The property and the condition -/

/-- From `s` to `t` no viewer was activated twice. A body that is entered makes one event at
once, so no more of them were entered than the chain has viewers, the original event apart. -/
structure ProcessedOnce (input : WheelInput K V) (s t : Ui V) : Prop where
  activations : ∃ acts, t.activations = s.activations ++ acts ∧
    (acts.map Activation.scrollViewer).Nodup
  events : t.nextEvent ≤ s.nextEvent + 1 + input.chain.length

section Conditions

variable [Zero K] [LT K] [LE K] [DecidableLT K] [DecidableLE K]

/-- On the way back the viewer handles an event that no viewer below it has handled: it has a
scrollbar, or it is at its bound and finds a viewer above it that can scroll. -/
def Handles (view : V → ScrollViewer K) (delta : Int) (above : List V) (v : V) : Prop :=
  isScrollSupported (view v) = true ∨
    isScrollingOutOfBounds (view v) delta = true ∧
      ∃ parent ∈ above, canScroll (view parent) delta = true

/-- Some viewer of the list handles its event, below those of `above`. -/
def SomeHandles (view : V → ScrollViewer K) (delta : Int) : List V → List V → Prop
  | _, [] => False
  | above, v :: rest => Handles view delta above v ∨ SomeHandles view delta (above ++ [v]) rest

/-- When the list has two viewers, one of its two innermost handles its event. -/
def LastTwoHandle (view : V → ScrollViewer K) (delta : Int) (above rest : List V) : Prop :=
  ∀ outer u l, rest = outer ++ [u, l] →
    Handles view delta (above ++ outer) u ∨ Handles view delta (above ++ outer ++ [u]) l

/-- The event settles before it can go on: the chain has at most two viewers, or one of its two
innermost handles its event, or nothing is raised at all. -/
def SettlesSoon (input : WheelInput K V) : Prop :=
  input.isInputElement = true → ∀ v rest, input.chain = v :: rest →
    LastTwoHandle input.view input.delta [v] rest

variable {view : V → ScrollViewer K} {delta : Int}

theorem someHandles_append {above xs ys : List V} :
    SomeHandles view delta above (xs ++ ys) ↔
      SomeHandles view delta above xs ∨ SomeHandles view delta (above ++ xs) ys := by
  induction xs generalizing above with
  | nil => simp [SomeHandles]
  | cons v xs ih => simp [SomeHandles, ih, or_assoc]

/-- Two viewers or more are enough to settle an event. -/
theorem LastTwoHandle.someHandles {above rest : List V} (h : LastTwoHandle view delta above rest)
    (hlength : 2 ≤ rest.length) : SomeHandles view delta above rest := by
  obtain ⟨outer, u, l, rfl⟩ : ∃ outer u l, rest = outer ++ [u, l] := by
    have hne : rest ≠ [] := List.ne_nil_of_length_pos (by omega)
    have hne' : rest.dropLast ≠ [] := by
      apply List.ne_nil_of_length_pos
      rw [List.length_dropLast]
      omega
    refine ⟨rest.dropLast.dropLast, rest.dropLast.getLast hne', rest.getLast hne, ?_⟩
    calc rest = rest.dropLast ++ [rest.getLast hne] := (List.dropLast_append_getLast hne).symm
      _ = (rest.dropLast.dropLast ++ [rest.dropLast.getLast hne']) ++ [rest.getLast hne] := by
          rw [List.dropLast_append_getLast hne']
      _ = _ := by simp
  rw [someHandles_append]
  rcases h outer u l rfl with hu | hl
  · exact .inr (.inl hu)
  · exact .inr (.inr (.inl hl))

theorem LastTwoHandle.tail {above rest : List V} {v : V}
    (h : LastTwoHandle view delta above (v :: rest)) :
    LastTwoHandle view delta (above ++ [v]) rest := by
  intro outer u l hrest
  have hlast := h (v :: outer) u l (by rw [hrest]; rfl)
  simpa using hlast

theorem lastTwoHandle_singleton (above : List V) (v : V) :
    LastTwoHandle view delta above [v] := by
  intro outer u l hrest
  have hlength := congrArg List.length hrest
  simp at hlength

end Conditions

section Handler

variable [DecidableEq V] [Zero K] [LT K] [LE K] [DecidableLT K] [DecidableLE K]
  {view : V → ScrollViewer K} {chain : List V} {delta : Int} {q : ScrollViewerBehaviorSequence V}

/-! ## The record grows -/

/-- The way back records nothing and makes no event. -/
theorem goBackUp_same {v : V} {e : MouseWheelEventArgs V} {previewEventArg : Nat} {s t : Ui V}
    (h : goBackUp view v e previewEventArg s = .ok t) :
    t.activations = s.activations ∧ t.nextEvent = s.nextEvent := by
  have hforce : ∀ q (s : Ui V), (forceMouseWheelEvent view q v e s).activations = s.activations ∧
      (forceMouseWheelEvent view q v e s).nextEvent = s.nextEvent := by
    intro q s
    unfold forceMouseWheelEvent
    split <;> exact ⟨rfl, rfl⟩
  unfold goBackUp at h
  split at h
  case h_1 => cases h
  case h_2 q hq =>
    dsimp only at h
    split_ifs at h <;> obtain rfl := Except.ok.inj h
    -- a wheel event may be forced behind the marks, or not
    all_goals first | exact ⟨rfl, rfl⟩ | exact hforce q _

theorem pop_activations {v : V} {f : Nat} {s t : Ui V} (h : s.pop v f = .ok t) :
    t.activations = s.activations := by
  unfold Ui.pop at h
  split at h
  · cases h
  · exact Except.ok.inj h ▸ rfl

/-- A body that is entered and returns: the nested calls, the way back and the record of the
activation. -/
theorem handler_of_ok {fuel : Nat} {e : MouseWheelEventArgs V} {v : V} {s t : Ui V}
    (hprocesses : s.enter.processes v e = true) {route : List V}
    (hsource : e.originalSource = some route)
    (h : onScrollViewerPreviewMouseWheel view (fuel + 1) e v s = .ok t) :
    ∃ returned a,
      raiseEvent (onScrollViewerPreviewMouseWheel view fuel ⟨s.nextEvent, e.delta, some route⟩)
        s.nextEvent route (begun s e v) = .ok returned ∧
      t.activations = returned.activations ++ [a] ∧ a.scrollViewer = v := by
  simp only [onScrollViewerPreviewMouseWheel, hprocesses, hsource, if_true] at h
  obtain ⟨returned, hraise, h⟩ := bind_eq_ok h
  obtain ⟨back, hback, h⟩ := bind_eq_ok h
  obtain ⟨popped, hpop, h⟩ := bind_eq_ok h
  obtain rfl := Except.ok.inj h
  have hsame : popped.activations = returned.activations :=
    (pop_activations hpop).trans (goBackUp_same hback).1
  exact ⟨returned, ⟨v, _, _, _, _, _, _⟩, hraise, congrArg (· ++ [_]) hsame, rfl⟩

/-- A call of the handler adds to the record and takes nothing out of it. -/
theorem handler_records (fuel : Nat) {e : MouseWheelEventArgs V} {v : V} {s t : Ui V}
    (h : onScrollViewerPreviewMouseWheel view fuel e v s = .ok t) :
    s.activations <+: t.activations := by
  induction fuel generalizing e v s t with
  | zero => cases h
  | succ fuel ih =>
    by_cases hprocesses : s.enter.processes v e = true
    · cases hsource : e.originalSource with
      | none =>
        rw [handler_of_no_source hprocesses hsource] at h
        exact Except.ok.inj h ▸ List.prefix_rfl
      | some route =>
        obtain ⟨returned, a, hraise, hacts, -⟩ := handler_of_ok hprocesses hsource h
        -- the nested calls only add to what was there at the push
        have hnested : s.activations <+: returned.activations := by
          apply deliver_ok (I := fun u => s.activations <+: u.activations) _ hraise
          · exact (begun_activations s e v).symm ▸ List.prefix_rfl
          · intro w u u' hu hpre
            exact hpre.trans (ih hu)
        rw [hacts]
        exact hnested.trans (List.prefix_append _ _)
    · rw [handler_of_not_processes (Bool.eq_false_iff.mpr hprocesses)] at h
      exact Except.ok.inj h ▸ List.prefix_rfl

theorem raiseEvent_records {fuel : Nat} {e : MouseWheelEventArgs V} {f : Nat} {route : List V}
    {s t : Ui V}
    (h : raiseEvent (onScrollViewerPreviewMouseWheel view fuel e) f route s = .ok t) :
    s.activations <+: t.activations :=
  deliver_ok (I := fun u => s.activations <+: u.activations)
    (fun _ _ _ hu hpre => hpre.trans (handler_records fuel hu)) h List.prefix_rfl

/-! ## One activation -/

/-- From `s` to `t` the sequence was kept, and when an event of it was handled, `e` was. -/
structure Passed (chain : List V) (q : ScrollViewerBehaviorSequence V) (e : Nat) (s t : Ui V) :
    Prop where
  inSequence : InSequence chain q t
  others : ∀ f ∈ q.fakeEvents, f ∈ t.handled → f ∈ s.handled ∨ e ∈ t.handled

/-- A viewer that looks for a parent handles its event when it finds one. -/
theorem forceMouseWheelEvent_handles (view : V → ScrollViewer K) (s : Ui V) {above : List V} {v : V}
    (hq : q.scrollViewers = above ++ [v]) (hv : v ∉ above) {e : MouseWheelEventArgs V}
    (he : e.id ∈ q.fakeEvents) (hdelta : e.delta = delta) :
    (e.id ∈ (forceMouseWheelEvent view q v e s).handled ↔
        e.id ∈ s.handled ∨ ∃ parent ∈ above, canScroll (view parent) delta = true) ∧
      ∀ f ∈ (forceMouseWheelEvent view q v e s).handled,
        f ∈ s.handled ∨ e.id ∈ (forceMouseWheelEvent view q v e s).handled := by
  rw [forceMouseWheelEvent, parents_last hq hv, hdelta]
  cases hfind : above.reverse.find? fun parent => canScroll (view parent) delta with
  | none =>
    have hnone : ¬ ∃ parent ∈ above, canScroll (view parent) delta = true := by
      rintro ⟨parent, hparent, hcan⟩
      exact List.find?_eq_none.mp hfind parent (List.mem_reverse.mpr hparent) hcan
    simp only [hnone, or_false, true_and]
    exact fun f hf => .inl hf
  | some parent =>
    have hparent := List.mem_reverse.mp (List.mem_of_find?_eq_some hfind)
    have hcan : canScroll (view parent) delta = true := by simpa using List.find?_some hfind
    have hsome : ∃ parent ∈ above, canScroll (view parent) delta = true := ⟨parent, hparent, hcan⟩
    simp only [hsome, or_true, iff_true]
    -- everything on the way is handled
    have hall : e.id ∈ (handleEvents q (s.setHandled e.id)).handled := by
      simp [handleEvents, he]
    exact ⟨hall, fun f _ => .inr hall⟩

/-- The way back of a viewer handles its event when the fake event was handled or the viewer
handles it. -/
theorem goBackUp_handles (view : V → ScrollViewer K) {s : Ui V} (h : InSequence chain q s)
    {above : List V} {v : V}
    (hq : q.scrollViewers = above ++ [v]) (hv : v ∉ above) {e : MouseWheelEventArgs V}
    (he : e.id ∈ q.fakeEvents) (hdelta : e.delta = delta) (f : Nat) :
    ∃ t, goBackUp view v e f s = .ok t ∧ Passed chain q e.id s t ∧
      (e.id ∈ t.handled ↔ e.id ∈ s.handled ∨ f ∈ s.handled ∨ Handles view delta above v) := by
  obtain ⟨t, ht, hkept⟩ := goBackUp_keeps view h v he hdelta f
  refine ⟨t, ht, ?_⟩
  rw [goBackUp, h.sequence] at ht
  simp only [if_pos he, hdelta] at ht
  by_cases hf : f ∈ s.handled
  · rw [if_pos hf] at ht
    obtain rfl := Except.ok.inj ht
    simp only [hf, true_or, or_true, iff_true]
    exact ⟨⟨hkept.inSequence, fun _ _ _ => .inr List.mem_cons_self⟩, List.mem_cons_self⟩
  · rw [if_neg hf] at ht
    -- first the scrollbar, then the bound
    obtain ⟨s', hs', hmem, hothers⟩ : ∃ s', s' = (if isScrollSupported (view v) then
        s.setHandled e.id else s) ∧
        (e.id ∈ s'.handled ↔ e.id ∈ s.handled ∨ isScrollSupported (view v) = true) ∧
        ∀ f ∈ s'.handled, f ∈ s.handled ∨ e.id ∈ s'.handled := by
      refine ⟨_, rfl, ?_⟩
      cases isScrollSupported (view v) with
      | false => exact ⟨by simp, fun f hf => .inl hf⟩
      | true => exact ⟨by simp [Ui.setHandled], fun f _ => .inr List.mem_cons_self⟩
    rw [← hs'] at ht
    obtain ⟨hforce, hforceOthers⟩ := forceMouseWheelEvent_handles view s' hq hv he hdelta
    cases hbounds : isScrollingOutOfBounds (view v) delta with
    | true =>
      rw [if_pos hbounds] at ht
      obtain rfl := Except.ok.inj ht
      refine ⟨⟨hkept.inSequence, fun f _ hmem' => ?_⟩, ?_⟩
      · rcases hforceOthers f hmem' with hold | hnew
        · rcases hothers f hold with hold' | hnew
          · exact .inl hold'
          · exact .inr (hforce.mpr (.inl hnew))
        · exact .inr hnew
      · rw [hforce, hmem]
        simp [Handles, hbounds, hf, or_assoc]
    | false =>
      rw [if_neg (by simp [hbounds])] at ht
      obtain rfl := Except.ok.inj ht
      refine ⟨⟨hkept.inSequence, fun f _ => hothers f⟩, ?_⟩
      rw [hmem]
      simp [Handles, hbounds, hf]

/-- An activation whose fake event has come back: it is recorded behind the nested ones, and its
event is handled when the fake event is or when the viewer handles it. -/
theorem activation_returns {fuel : Nat} {s : Ui V} (h : InSequence chain q s) {v : V}
    (hnew : v ∉ q.scrollViewers) {e : MouseWheelEventArgs V} (he : e.id ∈ q.fakeEvents)
    (hdelta : e.delta = delta) (hsource : e.originalSource = some chain)
    (hhandled : e.id ∉ s.handled) {returned : Ui V}
    (hraise : raiseEvent
      (onScrollViewerPreviewMouseWheel view fuel ⟨s.nextEvent, e.delta, some chain⟩)
      s.nextEvent chain (begun s e v) = .ok returned)
    (hpassed : Passed chain (q.pushed s.nextEvent v) s.nextEvent (begun s e v) returned) :
    ∃ t a, onScrollViewerPreviewMouseWheel view (fuel + 1) e v s = .ok t ∧
      Passed chain q e.id s t ∧ t.activations = returned.activations ++ [a] ∧
      a.scrollViewer = v ∧ t.nextEvent = returned.nextEvent ∧
      (e.id ∈ t.handled ↔ s.nextEvent ∈ returned.handled ∨
        Handles view delta q.scrollViewers v) := by
  obtain ⟨back, hback, hbacked, hiff⟩ := goBackUp_handles view hpassed.inSequence rfl hnew
    (List.mem_append_left _ he) hdelta s.nextEvent
  obtain ⟨hacts, hnext⟩ := goBackUp_same hback
  have hprocesses := processes_of_new h hnew he hhandled
  have hpop := pop_of_push hbacked.inSequence.sequence h.fresh hnew
  -- the event is in the sequence below the pushed one, so the sequence does not end here
  have hcount : q.fakeEvents.length ≠ 0 := Nat.pos_iff_ne_zero.mp (List.length_pos_of_mem he)
  rw [if_neg hcount] at hpop
  -- an event of the sequence that was handled while the fake one went down
  have hbelow : ∀ f ∈ q.fakeEvents, f ∈ returned.handled →
      f ∈ s.handled ∨ s.nextEvent ∈ returned.handled := by
    intro f hf hmem
    have hold := hpassed.others f (List.mem_append_left _ hf) hmem
    rwa [begun_handled] at hold
  have hiff' : e.id ∈ back.handled ↔ s.nextEvent ∈ returned.handled ∨
      Handles view delta q.scrollViewers v := by
    rw [hiff]
    constructor
    · rintro (hmem | hor)
      · exact .inl ((hbelow e.id he hmem).resolve_left hhandled)
      · exact hor
    · exact .inr
  obtain ⟨a, ha, hhandler⟩ : ∃ a : Activation V, a.scrollViewer = v ∧
      onScrollViewerPreviewMouseWheel view (fuel + 1) e v s = .ok { back with
        sequence := some q, activations := back.activations ++ [a] } := by
    refine ⟨_, ?viewer, handler_of_processes hprocesses hsource rfl hraise hback hpop⟩
    case viewer => rfl
  have hin := hbacked.inSequence
  refine ⟨_, a, hhandler, ⟨⟨rfl, hin.current, h.paired, h.subset,
    fun f hf => hin.fakeEvents_lt f (List.mem_append_left _ hf), hin.original_lt,
    h.original_not_mem, hin.handled_lt⟩, fun f hf hmem => ?_⟩, congrArg (· ++ [a]) hacts, ha,
    hnext, hiff'⟩
  rcases hbacked.others f (List.mem_append_left _ hf) hmem with hold | hnew'
  · rcases hbelow f hf hold with hold' | hfake
    · exact .inl hold'
    · exact .inr (hiff'.mpr (.inl hfake))
  · exact .inr hnew'

/-! ## The way down -/

/-- A fake event that has passed the viewers of the sequence goes down the rest of the chain. When
one of the two innermost viewers settles it, each viewer is activated once, from the innermost to
the outermost. -/
theorem descends_once (hnodup : chain.Nodup) {rest : List V} {fuel : Nat} {s : Ui V}
    (h : InSequence chain q s) (hchain : chain = q.scrollViewers ++ rest)
    (hsoon : LastTwoHandle view delta q.scrollViewers rest) (hfuel : rest.length < fuel)
    {e : MouseWheelEventArgs V} (he : e.id ∈ q.fakeEvents) (hdelta : e.delta = delta)
    (hsource : e.originalSource = some chain) (hhandled : e.id ∉ s.handled) :
    ∃ t acts, raiseEvent (onScrollViewerPreviewMouseWheel view fuel e) e.id chain s = .ok t ∧
      Passed chain q e.id s t ∧ t.activations = s.activations ++ acts ∧
      acts.map Activation.scrollViewer = rest.reverse ∧
      t.nextEvent = s.nextEvent + rest.length ∧
      (e.id ∈ t.handled ↔ SomeHandles view delta q.scrollViewers rest) := by
  -- on the viewers that the event has not passed
  induction rest generalizing fuel q s e with
  | nil =>
    obtain ⟨fuel, rfl⟩ : ∃ n, fuel = n + 1 := ⟨fuel - 1, by simp at hfuel; omega⟩
    have hroute : chain ⊆ q.scrollViewers := by
      rw [hchain, List.append_nil]
      exact List.Subset.refl _
    obtain ⟨es, hraise⟩ := raiseEvent_skips view fuel h.sequence hroute e
    exact ⟨_, [], hraise, ⟨h.withEntries es, fun _ _ hmem => .inl hmem⟩,
      (List.append_nil _).symm, rfl, rfl, iff_of_false hhandled id⟩
  | cons v rest ih =>
    obtain ⟨fuel, rfl⟩ : ∃ n, fuel = n + 1 := ⟨fuel - 1, by omega⟩
    have hnew : v ∉ q.scrollViewers := not_mem_of_chain hnodup hchain
    obtain ⟨s₁, hreach⟩ := reaches_next view fuel h hchain hnew hhandled
    have hhandled₁ : e.id ∉ s₁.handled := hreach.handled ▸ hhandled
    -- the viewer is activated, and its own fake event goes down the rest
    obtain ⟨returned, acts, hraise, hpassed, hacts, hviewers, hnext, hiff⟩ := ih hreach.begun
      (by simp [hchain]) hsoon.tail (by simp at hfuel; omega)
      (e := ⟨s₁.nextEvent, e.delta, some chain⟩)
      (List.mem_append_right _ (List.mem_singleton_self _)) hdelta rfl hreach.fake
    obtain ⟨t, a, ht, hpassed', hacts', ha, hnext', hiff'⟩ := activation_returns
      hreach.inSequence hnew he hdelta hsource hhandled₁ hraise hpassed
    have hsettles : e.id ∈ t.handled ↔ SomeHandles view delta q.scrollViewers (v :: rest) := by
      rw [hiff', hiff]
      exact or_comm
    refine ⟨t, acts ++ [a], ?_, ⟨hpassed'.inSequence, fun f hf hmem => ?_⟩, ?_, ?_, ?_, hsettles⟩
    · rw [hreach.raise, ht]
      -- the event goes on only when there is nothing left to go on to
      cases rest with
      | nil => rfl
      | cons w rest =>
        have hmem := hsettles.mpr (hsoon.someHandles (by simp))
        exact deliver_of_handled (by simpa using hmem) _
    · exact hreach.handled ▸ hpassed'.others f hf hmem
    · rw [hacts', hacts, begun_activations, hreach.activations, List.append_assoc]
    · rw [List.map_append, hviewers, List.reverse_cons]
      exact congrArg (rest.reverse ++ [·]) ha
    · rw [hnext', hnext, begun_nextEvent, hreach.nextEvent]
      show s.nextEvent + 1 + rest.length = s.nextEvent + (rest.length + 1)
      omega

/-- When neither of the two innermost viewers handles its event, the innermost viewer is activated
again. -/
theorem descends_twice (hnodup : chain.Nodup) {outer : List V} {u l : V} {fuel : Nat} {s : Ui V}
    (h : InSequence chain q s) (hchain : chain = q.scrollViewers ++ (outer ++ [u, l]))
    (hu : ¬ Handles view delta (q.scrollViewers ++ outer) u)
    (hl : ¬ Handles view delta (q.scrollViewers ++ outer ++ [u]) l)
    (hfuel : outer.length + 2 < fuel) {e : MouseWheelEventArgs V} (he : e.id ∈ q.fakeEvents)
    (hdelta : e.delta = delta) (hsource : e.originalSource = some chain)
    (hhandled : e.id ∉ s.handled) {t : Ui V}
    (ht : raiseEvent (onScrollViewerPreviewMouseWheel view fuel e) e.id chain s = .ok t) :
    ∃ acts, t.activations = s.activations ++ acts ∧
      ¬ (acts.map Activation.scrollViewer).Nodup := by
  -- on the viewers between those that the event has passed and the two innermost ones
  induction outer generalizing fuel q s e t with
  | nil =>
    obtain ⟨fuel, rfl⟩ : ∃ n, fuel = n + 1 := ⟨fuel - 1, by omega⟩
    have hchain' : chain = q.scrollViewers ++ u :: [l] := hchain
    have hnew : u ∉ q.scrollViewers := not_mem_of_chain hnodup hchain'
    obtain ⟨s₁, hreach⟩ := reaches_next view fuel h hchain' hnew hhandled
    have hhandled₁ : e.id ∉ s₁.handled := hreach.handled ▸ hhandled
    have hfuel' : [l].length < fuel := by
      simp only [List.length_nil, List.length_singleton] at hfuel ⊢
      omega
    have hone : LastTwoHandle view delta (q.scrollViewers ++ [u]) [l] := lastTwoHandle_singleton _ l
    -- the innermost viewer is activated once and does not handle its event
    obtain ⟨returned, acts, hraise, hpassed, hacts, hviewers, -, hiff⟩ := descends_once hnodup
      hreach.begun (by simp [hchain]) hone hfuel'
      (e := ⟨s₁.nextEvent, e.delta, some chain⟩)
      (List.mem_append_right _ (List.mem_singleton_self _)) hdelta rfl hreach.fake
    -- neither does the one above it, and the event goes on
    obtain ⟨t₁, a, ht₁, hpassed₁, hacts₁, -, -, hiff₁⟩ := activation_returns hreach.inSequence
      hnew he hdelta hsource hhandled₁ hraise hpassed
    have hon : e.id ∉ t₁.handled := by
      rw [hiff₁, hiff]
      simpa [SomeHandles] using ⟨by simpa using hl, by simpa using hu⟩
    rw [hreach.raise, ht₁] at ht
    have hrest : deliver (fun s : Ui V => decide (e.id ∈ s.handled))
        (onScrollViewerPreviewMouseWheel view (fuel + 1) e) [l] t₁ = .ok t := ht
    rw [deliver, if_neg (by simpa using hon)] at hrest
    obtain ⟨t₂, hagain, hend⟩ := bind_eq_ok hrest
    obtain rfl := Except.ok.inj hend
    have hnewl : l ∉ q.scrollViewers := by
      have hchain'' : chain = (q.scrollViewers ++ [u]) ++ l :: [] := by simp [hchain]
      exact fun hmem => not_mem_of_chain (q := q.pushed 0 u) hnodup hchain''
        (List.mem_append_left _ hmem)
    obtain ⟨returned₂, a₂, hraise₂, hacts₂, ha₂⟩ := handler_of_ok
      (processes_of_new hpassed₁.inSequence hnewl he hon) hsource hagain
    obtain ⟨more, hmore⟩ := raiseEvent_records hraise₂
    refine ⟨acts ++ ([a] ++ more ++ [a₂]), ?_, fun hnd => ?_⟩
    · rw [hacts₂, ← hmore, begun_activations, hacts₁, hacts, begun_activations,
        hreach.activations]
      simp
    · rw [List.map_append, hviewers] at hnd
      simp [ha₂] at hnd
  | cons w outer ih =>
    obtain ⟨fuel, rfl⟩ : ∃ n, fuel = n + 1 := ⟨fuel - 1, by omega⟩
    have hchain' : chain = q.scrollViewers ++ w :: (outer ++ [u, l]) := hchain
    have hnew : w ∉ q.scrollViewers := not_mem_of_chain hnodup hchain'
    obtain ⟨s₁, hreach⟩ := reaches_next view fuel h hchain' hnew hhandled
    have hhandled₁ : e.id ∉ s₁.handled := hreach.handled ▸ hhandled
    -- the repetition happens while the fake event of the viewer goes down
    obtain ⟨t₁, hhandler, hrest⟩ := bind_eq_ok (hreach.raise.symm.trans ht)
    obtain ⟨returned, a, hraise, hacts, -⟩ := handler_of_ok
      (processes_of_new hreach.inSequence hnew he hhandled₁) hsource hhandler
    obtain ⟨acts, hacts', htwice⟩ := ih hreach.begun (by simp [hchain]) (by simpa using hu)
      (by simpa using hl) (by simp at hfuel; omega) (e := ⟨s₁.nextEvent, e.delta, some chain⟩)
      (List.mem_append_right _ (List.mem_singleton_self _)) hdelta rfl hreach.fake hraise
    -- and what comes behind it only adds to the record
    obtain ⟨more, hmore⟩ := raiseEvent_records hrest
    refine ⟨acts ++ ([a] ++ more), ?_, fun hnd => ?_⟩
    · rw [← hmore, hacts, hacts', begun_activations, hreach.activations]
      simp
    · rw [List.map_append] at hnd
      exact htwice hnd.of_append_left

/-! ## Original events -/

/-- An event without an input element at its source is entered by each viewer once, and nothing
comes of it. -/
theorem no_source_once (view : V → ScrollViewer K) (fuel : Nat) {e : MouseWheelEventArgs V}
    (hsource : e.originalSource = none) (route : List V) (s : Ui V) :
    ∃ t, raiseEvent (onScrollViewerPreviewMouseWheel view (fuel + 1) e) e.id route s = .ok t ∧
      t.activations = s.activations ∧ t.nextEvent ≤ s.nextEvent + route.length := by
  induction route generalizing s with
  | nil => exact ⟨s, rfl, rfl, Nat.le_refl _⟩
  | cons v route ih =>
    by_cases hhandled : e.id ∈ s.handled
    · exact ⟨s, deliver_of_handled (by simpa using hhandled) _, rfl, Nat.le_add_right _ _⟩
    · obtain ⟨u, hu, hacts, hnext⟩ : ∃ u,
          onScrollViewerPreviewMouseWheel view (fuel + 1) e v s = .ok u ∧
          u.activations = s.activations ∧ u.nextEvent ≤ s.nextEvent + 1 := by
        by_cases hprocesses : s.enter.processes v e = true
        · exact ⟨_, handler_of_no_source hprocesses hsource, rfl, Nat.le_refl _⟩
        · exact ⟨_, handler_of_not_processes (Bool.eq_false_iff.mpr hprocesses), rfl,
            Nat.le_succ _⟩
      obtain ⟨t, ht, hacts', hnext'⟩ := ih u
      refine ⟨t, ?_, hacts'.trans hacts, ?_⟩
      · rw [raiseEvent, deliver_cons_ok (by simpa using hhandled) hu]
        exact ht
      · rw [List.length_cons]
        omega

/-- The fake event of the outermost viewer comes back, its activation is recorded, and the other
viewers do not process the original event. -/
theorem original_returns (view : V → ScrollViewer K) {v : V} {rest : List V}
    (hchain : chain = v :: rest) {s : Ui V} (h : Idle s) {e : MouseWheelEventArgs V}
    (hfresh : Fresh s e) (hdelta : e.delta = delta) (hsource : e.originalSource = some chain)
    {fuel : Nat} (hfuel : chain.length ≤ fuel) :
    ∃ returned t a, raiseEvent
        (onScrollViewerPreviewMouseWheel view fuel ⟨s.nextEvent, e.delta, some chain⟩)
        s.nextEvent chain (begun s e v) = .ok returned ∧
      raiseEvent (onScrollViewerPreviewMouseWheel view (fuel + 1) e) e.id chain s = .ok t ∧
      t.activations = returned.activations ++ [a] ∧ a.scrollViewer = v ∧
      t.nextEvent = returned.nextEvent := by
  have hv : v ∈ chain := by simp [hchain]
  have hbegun := inSequence_begun h hfresh hv
  obtain ⟨returned, hraise, hreturned⟩ := raiseEvent_keeps (handler_keeps view chain delta fuel)
    hbegun (e := ⟨s.nextEvent, e.delta, some chain⟩) hdelta
    (fun route hroute => (Option.some.inj hroute).symm) (by simp; omega)
  have hfirst := outermost_returns h hfresh hsource hraise hreturned.inSequence
  obtain ⟨a, ha, hfirst'⟩ : ∃ a : Activation V, a.scrollViewer = v ∧
      onScrollViewerPreviewMouseWheel view (fuel + 1) e v s = .ok { returned with
        sequence := none, activations := returned.activations ++ [a] } := ⟨_, rfl, hfirst⟩
  obtain ⟨es, hothers, -⟩ := raiseEvent_others view fuel (e := e)
    (idle_of_returned hreturned.inSequence (returned.activations ++ [a]))
    hreturned.inSequence.current rest
  refine ⟨returned, { returned with
    sequence := none, activations := returned.activations ++ [a], entries := es }, a, hraise, ?_, rfl,
    ha, rfl⟩
  rw [hchain]
  rw [raiseEvent, deliver_cons_ok (by simpa using hfresh.not_handled) hfirst']
  exact hothers

/-- The activations of an event on a chain of nested viewers. -/
theorem original_once_iff (view : V → ScrollViewer K) (hnodup : chain.Nodup) {v : V}
    {rest : List V} (hchain : chain = v :: rest) {s : Ui V} (h : Idle s)
    {e : MouseWheelEventArgs V} (hfresh : Fresh s e) (hdelta : e.delta = delta)
    (hsource : e.originalSource = some chain) {fuel : Nat} (hfuel : chain.length ≤ fuel) :
    ∃ t acts, raiseEvent (onScrollViewerPreviewMouseWheel view (fuel + 1) e) e.id chain s = .ok t ∧
      t.activations = s.activations ++ acts ∧
      ((acts.map Activation.scrollViewer).Nodup ↔ LastTwoHandle view delta [v] rest) ∧
      (LastTwoHandle view delta [v] rest → t.nextEvent = s.nextEvent + chain.length) := by
  have hv : v ∈ chain := by simp [hchain]
  have hbegun := inSequence_begun h hfresh hv
  have hfake : s.nextEvent ∉ (begun s e v).handled := by
    rw [begun_handled]
    exact fun hmem => Nat.lt_irrefl _ (h.handled_lt _ hmem)
  have hfuel' : rest.length < fuel := by
    rw [hchain, List.length_cons] at hfuel
    omega
  obtain ⟨returned, t, a, hraise, ht, hacts, ha, hnext⟩ := original_returns view hchain h hfresh
    hdelta hsource hfuel
  by_cases hsoon : LastTwoHandle view delta [v] rest
  · obtain ⟨returned', acts, hraise', -, hacts', hviewers, hnext', -⟩ := descends_once hnodup hbegun
      hchain hsoon hfuel' (e := ⟨s.nextEvent, e.delta, some chain⟩) (List.mem_singleton_self _)
      hdelta rfl hfake
    obtain rfl := Except.ok.inj (hraise.symm.trans hraise')
    refine ⟨t, acts ++ [a], ht, ?_, iff_of_true ?_ hsoon, fun _ => ?_⟩
    · rw [hacts, hacts', begun_activations, List.append_assoc]
    · -- the viewers of the chain, from the innermost to the outermost
      have hall : (acts ++ [a]).map Activation.scrollViewer = chain.reverse := by
        rw [List.map_append, hviewers, hchain, List.reverse_cons]
        exact congrArg (rest.reverse ++ [·]) ha
      rw [hall]
      exact List.nodup_reverse.mpr hnodup
    · rw [hnext, hnext', begun_nextEvent, hchain, List.length_cons]
      show s.nextEvent + 1 + rest.length = s.nextEvent + (rest.length + 1)
      omega
  · obtain ⟨outer, u, l, hrest, hneither⟩ : ∃ outer u l, rest = outer ++ [u, l] ∧
        ¬ (Handles view delta ([v] ++ outer) u ∨ Handles view delta ([v] ++ outer ++ [u]) l) := by
      simpa [LastTwoHandle] using hsoon
    rw [not_or] at hneither
    have hfuel'' : outer.length + 2 < fuel := by
      rw [hrest, List.length_append] at hfuel'
      exact hfuel'
    obtain ⟨acts, hacts', htwice⟩ := descends_twice hnodup hbegun (hrest ▸ hchain) hneither.1
      hneither.2 hfuel'' (e := ⟨s.nextEvent, e.delta, some chain⟩) (List.mem_singleton_self _)
      hdelta rfl hfake hraise
    refine ⟨t, acts ++ [a], ht, ?_, iff_of_false (fun hnd => ?_) hsoon, fun h => absurd h hsoon⟩
    · rw [hacts, hacts', begun_activations, List.append_assoc]
    · rw [List.map_append] at hnd
      exact htwice hnd.of_append_left

/-- From any state between two original events. -/
theorem processedOnce_of_idle (extra : Nat) (input : WheelInput K V) {s : Ui V} (h : Idle s) :
    ∃ t, input.raise extra s = .ok t ∧ (ProcessedOnce input s t ↔ SettlesSoon input) := by
  obtain ⟨hstart, hfresh⟩ := fresh_next h input.delta (some input.chain)
  have hfuel : input.chain.length + 1 + extra = input.chain.length + extra + 1 := by omega
  simp only [WheelInput.raise, raiseWheel, hfuel]
  cases helement : input.isInputElement with
  | false =>
    obtain ⟨t, ht, hacts, hnext⟩ := no_source_once input.view
      (input.chain.length + extra) (e := ⟨s.nextEvent, input.delta, none⟩) rfl input.chain
      ({ s with nextEvent := s.nextEvent + 1 } : Ui V)
    refine ⟨t, ht, iff_of_true ⟨⟨[], ?_, List.nodup_nil⟩, hnext⟩ fun htrue => ?_⟩
    · rw [hacts, List.append_nil]
    · rw [helement] at htrue
      cases htrue
  | true =>
    cases hchain : input.chain with
    | nil =>
      refine ⟨_, rfl, iff_of_true ⟨⟨[], (List.append_nil _).symm, List.nodup_nil⟩, ?_⟩ ?_⟩
      · exact Nat.le_add_right _ _
      · intro _ v rest hcons
        rw [hchain] at hcons
        cases hcons
    | cons v rest =>
      rw [← hchain]
      obtain ⟨t, acts, ht, hacts, hiff, hnext⟩ := original_once_iff input.view input.nodup hchain
        hstart (e := ⟨s.nextEvent, input.delta, some input.chain⟩) hfresh rfl rfl
        (Nat.le_add_right _ extra)
      refine ⟨t, ht, fun honce _ v' rest' hcons => ?_, fun hsoon => ⟨⟨acts, hacts, ?_⟩, ?_⟩⟩
      · obtain ⟨rfl, rfl⟩ := List.cons.inj (hchain.symm.trans hcons)
        obtain ⟨acts', hacts', hnd⟩ := honce.activations
        obtain rfl := List.append_cancel_left (hacts.symm.trans hacts')
        exact hiff.mp hnd
      · exact hiff.mpr (hsoon helement v rest hchain)
      · exact Nat.le_of_eq (hnext (hsoon helement v rest hchain))

/-- **Once for each viewer**: after any number of original events, the next one activates no viewer
twice exactly when it settles before it can go on. -/
theorem processedOnce_iff_settlesSoon (extra : Nat) (inputs : List (WheelInput K V))
    (input : WheelInput K V) :
    ∃ s t, raiseAll extra inputs .init = .ok s ∧ input.raise extra s = .ok t ∧
      (ProcessedOnce input s t ↔ SettlesSoon input) := by
  obtain ⟨s, hs, hidle, -⟩ := raiseAll_restores extra inputs idle_init
    (sequenceRestored_init (V := V))
  obtain ⟨t, ht, hiff⟩ := processedOnce_of_idle extra input hidle
  exact ⟨s, t, hs, ht, hiff⟩

end Handler

/-! ## Viewers without a scrollbar -/

/-- Three viewers whose contents fit. -/
def withoutScrollbars : WheelInput Int Nat where
  chain := [0, 1, 2]
  nodup := by decide
  view _ := ⟨true, 0, 0⟩
  delta := -120
  isInputElement := true

/-- The two inner viewers are activated twice. -/
theorem inner_viewers_processed_twice :
    ∃ t, withoutScrollbars.raise 0 .init = .ok t ∧ ¬ ProcessedOnce withoutScrollbars .init t := by
  refine ⟨_, rfl, fun h => ?_⟩
  obtain ⟨acts, hacts, hnd⟩ := h.activations
  have hviewers : [2, 1, 1, 2, 0] = acts.map Activation.scrollViewer :=
    congrArg (List.map Activation.scrollViewer) hacts
  rw [← hviewers] at hnd
  simp at hnd

end Doreto.Wpf
