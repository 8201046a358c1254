import Mathlib.Algebra.Ring.Int.Defs
import Mathlib.Data.Int.Order.Basic
import Mathlib.Order.Lattice
import Doreto.Wpf.ScrollSequence

/-!
# Which Viewer Scrolls

The fake events go down the chain to the innermost viewer. If it cannot scroll, it looks for the
first viewer above it that can and hands the wheel event over to it, and everything that was
raised on the way is handled. If it can scroll, its fake event is handled on the way back and the
original event is left to it.

## Main results

- `NestedViewers.canScroll_iff`: which viewers can scroll, by their offsets and heights.
- `descend`: what comes of a fake event that has passed some of the viewers.
- `handedOver`: the wheel event goes to the right viewer exactly once.
-/

namespace Doreto.Wpf

open Doreto.Lib

variable {K V : Type} [Zero K] [LinearOrder K]

/-! ## Nested viewers -/

/-- A wheel event over nested viewers: all of them are enabled, and their offsets lie between zero
and their heights. -/
structure NestedViewers (K V : Type) [Zero K] [LinearOrder K] extends WheelInput K V where
  ne_nil : chain ≠ []
  enabled : ∀ v ∈ chain, (view v).isEnabled = true
  offset_nonneg : ∀ v ∈ chain, 0 ≤ (view v).verticalOffset
  offset_le : ∀ v ∈ chain, (view v).verticalOffset ≤ (view v).scrollableHeight
  source : isInputElement = true

namespace NestedViewers

/-- The viewer can scroll in the direction of the event. -/
def CanScroll (input : NestedViewers K V) (v : V) : Prop :=
  canScroll (input.view v) input.delta = true

def innermost (input : NestedViewers K V) : V :=
  input.chain.getLast input.ne_nil

/-- The innermost viewer of the chain among those that can scroll. -/
def InnermostThatScrolls (input : NestedViewers K V) (v : V) : Prop :=
  ∃ outer inner, input.chain = outer ++ v :: inner ∧ input.CanScroll v ∧
    ∀ w ∈ inner, ¬ input.CanScroll w

/-- What becomes of the original event from `s` to `t`. -/
structure HandedOver (input : NestedViewers K V) (original : Nat) (s t : Ui V) : Prop where
  /-- The innermost viewer scrolls by itself, or nobody can: the event is left alone. -/
  left : input.CanScroll input.innermost ∨ (∀ v ∈ input.chain, ¬ input.CanScroll v) →
    t.forced = s.forced ∧ original ∉ t.handled
  /-- Otherwise one wheel event goes to the innermost viewer that can scroll. -/
  handed : ¬ input.CanScroll input.innermost → (∃ v ∈ input.chain, input.CanScroll v) →
    (∃ v, input.InnermostThatScrolls v ∧
      t.forced = s.forced ++ [⟨v, input.innermost, input.delta⟩]) ∧
    original ∈ t.handled

end NestedViewers

section Descent

variable [DecidableEq V] {view : V → ScrollViewer K} {chain : List V} {delta : Int}
  {q : ScrollViewerBehaviorSequence V}

/-! ## The way back -/

/-- From `s` to `t` the event `e` was handled, the wheel events `wheels` were forced, and the
original event was handled if there are any. -/
structure Settled (chain : List V) (q : ScrollViewerBehaviorSequence V) (e : Nat)
    (wheels : List (ForcedWheel V)) (s t : Ui V) : Prop where
  inSequence : InSequence chain q t
  handled : e ∈ t.handled
  forced : t.forced = s.forced ++ wheels
  original : q.originalEvent ∈ t.handled ↔ wheels ≠ []

/-- An innermost viewer that cannot scroll has reached its bound, and a viewer above it can. -/
def CanHandOver (view : V → ScrollViewer K) (delta : Int) (outer : List V) (innermost : V) : Prop :=
  canScroll (view innermost) delta = false →
    isScrollingOutOfBounds (view innermost) delta = true ∧
      ∃ parent ∈ outer, canScroll (view parent) delta = true

/-- What the innermost viewer forces. -/
def wheelsOf (view : V → ScrollViewer K) (delta : Int) (outer : List V) (innermost : V) :
    List (ForcedWheel V) :=
  if canScroll (view innermost) delta then []
  else
    match outer.reverse.find? fun parent => canScroll (view parent) delta with
    | none => []
    | some parent => [⟨parent, innermost, delta⟩]

/-- The way back from a child whose fake event is handled. -/
theorem goBackUp_of_handled (view : V → ScrollViewer K) {s : Ui V} (h : InSequence chain q s) (v : V)
    {e : MouseWheelEventArgs V} (he : e.id ∈ q.fakeEvents) {previewEventArg : Nat}
    {wheels : List (ForcedWheel V)} {s₀ : Ui V}
    (hsettled : Settled chain q previewEventArg wheels s₀ s) :
    ∃ t, goBackUp view v e previewEventArg s = .ok t ∧ Settled chain q e.id wheels s₀ t := by
  refine ⟨s.setHandled e.id, ?_, h.setHandled he, List.mem_cons_self, hsettled.forced, ?_⟩
  · rw [goBackUp, h.sequence]
    simp only [if_pos he, if_pos hsettled.handled]
  · rw [← hsettled.original, Ui.setHandled, List.mem_cons]
    have hne := (h.ne_original he).symm
    simp [hne]

omit [DecidableEq V] in
theorem canScroll_eq_true_iff {viewer : ScrollViewer K} :
    canScroll viewer delta = true ↔
      isScrollSupported viewer = true ∧ isScrollingOutOfBounds viewer delta = false := by
  unfold canScroll
  cases isScrollSupported viewer <;> cases isScrollingOutOfBounds viewer delta <;> simp

/-- The way back of the innermost viewer. -/
theorem goBackUp_of_innermost {s : Ui V} (h : InSequence chain q s) {outer : List V} {v : V}
    (hq : q.scrollViewers = outer ++ [v]) (hv : v ∉ outer) {e : MouseWheelEventArgs V}
    (he : e.id ∈ q.fakeEvents) (hdelta : e.delta = delta) {previewEventArg : Nat}
    (hpreview : previewEventArg ∉ s.handled) (horiginal : q.originalEvent ∉ s.handled)
    (hover : CanHandOver view delta outer v) :
    ∃ t, goBackUp view v e previewEventArg s = .ok t ∧
      Settled chain q e.id (wheelsOf view delta outer v) s t := by
  have hne := (h.ne_original he).symm
  rw [goBackUp, h.sequence]
  simp only [if_pos he, if_neg hpreview, hdelta]
  -- a viewer that can scroll keeps the event, one that cannot looks for a parent
  cases hcan : canScroll (view v) delta with
  | true =>
    obtain ⟨hsupported, hbounds⟩ := canScroll_eq_true_iff.mp hcan
    refine ⟨s.setHandled e.id, ?_, h.setHandled he, List.mem_cons_self, ?_, ?_⟩
    · simp [hsupported, hbounds]
    · simp [wheelsOf, hcan, Ui.setHandled]
    · simp [wheelsOf, hcan, Ui.setHandled, hne, horiginal]
  | false =>
    obtain ⟨hbounds, parent, hparent, hscrolls⟩ := hover hcan
    obtain ⟨target, hfind⟩ : ∃ target, outer.reverse.find?
        (fun parent => canScroll (view parent) delta) = some target :=
      Option.isSome_iff_exists.mp (List.find?_isSome.mpr
        ⟨parent, List.mem_reverse.mpr hparent, hscrolls⟩)
    have hwheels : wheelsOf view delta outer v = [⟨target, v, delta⟩] := by
      simp [wheelsOf, hcan, hfind]
    have hsupported : InSequence chain q
        (if isScrollSupported (view v) then s.setHandled e.id else s) := by
      split
      · exact h.setHandled he
      · exact h
    have hkept := forceMouseWheelEvent_keeps view hsupported v he hdelta
    refine ⟨_, if_pos hbounds, hkept.inSequence, ?_, ?_, ?_⟩
    · simp [forceMouseWheelEvent, parents_last hq hv, hdelta, hfind, handleEvents, he]
    · rw [hwheels]
      simp only [forceMouseWheelEvent, parents_last hq hv, hdelta, hfind]
      split <;> rfl
    · rw [hwheels]
      simp [forceMouseWheelEvent, parents_last hq hv, hdelta, hfind, handleEvents]

/-- The innermost viewer raises its fake event, which nobody processes, and goes back up. -/
theorem innermost_settles {fuel : Nat} {s : Ui V} (h : InSequence chain q s) {outer : List V}
    {v : V} (hq : q.scrollViewers = outer ++ [v]) (hchain : chain = outer ++ [v]) (hv : v ∉ outer)
    {e : MouseWheelEventArgs V} (he : e.id ∈ q.fakeEvents) (hdelta : e.delta = delta)
    (fake : MouseWheelEventArgs V) (hfake : fake.id ∉ s.handled)
    (horiginal : q.originalEvent ∉ s.handled) (hover : CanHandOver view delta outer v) :
    ∃ returned back,
      raiseEvent (onScrollViewerPreviewMouseWheel view (fuel + 1) fake) fake.id chain s =
        .ok returned ∧
      goBackUp view v e fake.id returned = .ok back ∧
      Settled chain q e.id (wheelsOf view delta outer v) s back := by
  have hroute : chain ⊆ q.scrollViewers := by
    rw [hq, hchain]
    exact List.Subset.refl _
  obtain ⟨es, hraise⟩ := raiseEvent_skips view fuel h.sequence hroute fake
  obtain ⟨back, hback, hsettled⟩ := goBackUp_of_innermost (h.withEntries es) hq hv he hdelta hfake
    horiginal hover
  exact ⟨_, back, hraise, hback, hsettled.inSequence, hsettled.handled, hsettled.forced,
    hsettled.original⟩

/-- An activation whose way back is settled. -/
theorem activation_settles {fuel : Nat} {s : Ui V} (h : InSequence chain q s) {v : V}
    (hnew : v ∉ q.scrollViewers) {e : MouseWheelEventArgs V} (he : e.id ∈ q.fakeEvents)
    (hhandled : e.id ∉ s.handled) (hsource : e.originalSource = some chain)
    {wheels : List (ForcedWheel V)} {returned back : Ui V}
    (hraise : raiseEvent
      (onScrollViewerPreviewMouseWheel view fuel ⟨s.nextEvent, e.delta, some chain⟩)
      s.nextEvent chain
      (({ s.enter with nextEvent := s.nextEvent + 1 } : Ui V).push e v s.nextEvent) = .ok returned)
    (hback : goBackUp view v e s.nextEvent returned = .ok back)
    (hsettled : Settled chain { q with
        fakeEvents := q.fakeEvents ++ [s.nextEvent], scrollViewers := q.scrollViewers ++ [v] }
      e.id wheels s back) :
    ∃ t, onScrollViewerPreviewMouseWheel view (fuel + 1) e v s = .ok t ∧
      Settled chain q e.id wheels s t := by
  have hprocesses := processes_of_new h hnew he hhandled
  have hpop := pop_of_push hsettled.inSequence.sequence h.fresh hnew
  -- the event is in the sequence below the pushed one, so the sequence does not end here
  have hcount : q.fakeEvents.length ≠ 0 := Nat.pos_iff_ne_zero.mp (List.length_pos_of_mem he)
  rw [if_neg hcount] at hpop
  refine ⟨_, handler_of_processes hprocesses hsource rfl hraise hback hpop, ?_, hsettled.handled,
    hsettled.forced, hsettled.original⟩
  have hin := hsettled.inSequence
  exact ⟨rfl, hin.current, h.paired, h.subset,
    fun f hf => hin.fakeEvents_lt f (List.mem_append_left _ hf), hin.original_lt,
    h.original_not_mem, hin.handled_lt⟩

/-! ## The way down -/

/-- A fake event that has passed the viewers `before` goes down the rest of the chain. The
innermost viewer decides what is forced, and the event comes back handled. -/
theorem descend {outer : List V} {last : V} (hlast : chain = outer ++ [last])
    (hnodup : chain.Nodup)
    (hover : CanHandOver view delta outer last)
    {before rest : List V} (hchain : chain = before ++ rest) (hrest : rest ≠ []) {fuel : Nat}
    (hfuel : rest.length < fuel) {s : Ui V} (h : InSequence chain q s)
    (hq : q.scrollViewers = before) {e : MouseWheelEventArgs V} (he : e.id ∈ q.fakeEvents)
    (hdelta : e.delta = delta) (hsource : e.originalSource = some chain)
    (hhandled : e.id ∉ s.handled) (horiginal : q.originalEvent ∉ s.handled) :
    ∃ t, raiseEvent (onScrollViewerPreviewMouseWheel view fuel e) e.id chain s = .ok t ∧
      Settled chain q e.id (wheelsOf view delta outer last) s t := by
  -- on the viewers that the event has not passed; the ones above are in the sequence
  induction rest generalizing before fuel q s e with
  | nil => exact absurd rfl hrest
  | cons v rest ih =>
    obtain ⟨fuel, rfl⟩ : ∃ n, fuel = n + 1 := ⟨fuel - 1, by omega⟩
    have hnew : v ∉ q.scrollViewers := not_mem_of_chain hnodup (hq ▸ hchain)
    -- the viewers of the sequence let the event pass
    obtain ⟨s₁, hreach⟩ := reaches_next view fuel h (hq ▸ hchain) hnew hhandled
    have hhandled₁ : e.id ∉ s₁.handled := hreach.handled ▸ hhandled
    have horiginal₁ : q.originalEvent ∉ (begun s₁ e v).handled := by
      rw [begun_handled, hreach.handled]
      exact horiginal
    -- the next viewer is activated and its own fake event goes on
    obtain ⟨returned, back, hraise, hback, hsettled⟩ : ∃ returned back,
        raiseEvent (onScrollViewerPreviewMouseWheel view fuel ⟨s₁.nextEvent, e.delta, some chain⟩)
          s₁.nextEvent chain (begun s₁ e v) = .ok returned ∧
        goBackUp view v e s₁.nextEvent returned = .ok back ∧
        Settled chain (q.pushed s₁.nextEvent v) e.id (wheelsOf view delta outer last)
          (begun s₁ e v) back := by
      cases rest with
      | nil =>
        obtain ⟨hsame, hlast'⟩ := List.append_inj' (hchain.symm.trans hlast) rfl
        obtain rfl := List.singleton_inj.mp hlast'
        subst hsame
        obtain ⟨fuel, rfl⟩ : ∃ n, fuel = n + 1 :=
          ⟨fuel - 1, by rw [List.length_singleton] at hfuel; omega⟩
        exact innermost_settles hreach.begun (congrArg (· ++ [v]) hq) hchain (hq ▸ hnew)
          (List.mem_append_left _ he) hdelta ⟨s₁.nextEvent, e.delta, some chain⟩ hreach.fake
          horiginal₁ hover
      | cons w rest =>
        have hchain' : chain = (before ++ [v]) ++ w :: rest := by
          rw [hchain, List.append_assoc]
          rfl
        have hfuel' : (w :: rest).length < fuel := by
          rw [List.length_cons] at hfuel
          omega
        obtain ⟨returned, hraise, hreturned⟩ := ih hchain' (by simp) hfuel' hreach.begun
          (congrArg (· ++ [v]) hq) (e := ⟨s₁.nextEvent, e.delta, some chain⟩)
          (List.mem_append_right _ (List.mem_singleton_self _)) hdelta rfl hreach.fake horiginal₁
        obtain ⟨back, hback, hsettled⟩ := goBackUp_of_handled view hreturned.inSequence v
          (List.mem_append_left _ he) hreturned
        exact ⟨returned, back, hraise, hback, hsettled⟩
    obtain ⟨t, ht, hsettled'⟩ := activation_settles hreach.inSequence hnew he hhandled₁ hsource
      hraise hback ⟨hsettled.inSequence, hsettled.handled,
        by rw [hsettled.forced, begun_forced], hsettled.original⟩
    -- the event is handled now, and the rest of its route is skipped
    refine ⟨t, ?_, hsettled'.inSequence, hsettled'.handled, ?_, hsettled'.original⟩
    · rw [hreach.raise, ht]
      exact deliver_of_handled (by simpa using hsettled'.handled) rest
    · rw [hsettled'.forced, hreach.forced]

/-- The fake event of the outermost viewer comes back. -/
theorem begun_returns {outer : List V} {last : V} (hlast : chain = outer ++ [last])
    (hnodup : chain.Nodup)
    (hover : CanHandOver view delta outer last)
    {s : Ui V} (h : Idle s) {e : MouseWheelEventArgs V} (hfresh : Fresh s e)
    (hdelta : e.delta = delta) {v : V} {rest : List V} (hchain : chain = v :: rest) {fuel : Nat}
    (hfuel : chain.length ≤ fuel) :
    ∃ returned, raiseEvent
        (onScrollViewerPreviewMouseWheel view fuel ⟨s.nextEvent, e.delta, some chain⟩)
        s.nextEvent chain (begun s e v) = .ok returned ∧
      InSequence chain ⟨[s.nextEvent], e.id, [v]⟩ returned ∧
      returned.forced = s.forced ++ wheelsOf view delta outer last ∧
      (e.id ∈ returned.handled ↔ wheelsOf view delta outer last ≠ []) := by
  have hv : v ∈ chain := by simp [hchain]
  have hbegun := inSequence_begun h hfresh hv
  have hhandled : (begun s e v).handled = s.handled := begun_handled s e v
  have hforced : (begun s e v).forced = s.forced := begun_forced s e v
  cases rest with
  | nil =>
    obtain ⟨rfl, hinnermost⟩ : outer = [] ∧ v = last := by
      cases outer with
      | nil => exact ⟨rfl, List.head_eq_of_cons_eq (hchain.symm.trans hlast)⟩
      | cons w outer =>
        have hlen := congrArg List.length (hchain.symm.trans hlast)
        simp at hlen
    -- a single viewer has nobody to hand over to
    have hwheels : wheelsOf view delta [] last = [] := by simp [wheelsOf]
    obtain ⟨fuel, rfl⟩ : ∃ n, fuel = n + 1 :=
      ⟨fuel - 1, by rw [hchain, List.length_singleton] at hfuel; omega⟩
    have hroute : chain ⊆ [v] := by
      rw [hchain]
      exact List.Subset.refl _
    obtain ⟨es, hraise⟩ := raiseEvent_skips view fuel hbegun.sequence hroute
      ⟨s.nextEvent, e.delta, some chain⟩
    refine ⟨_, hraise, hbegun.withEntries es, ?_, ?_⟩
    · rw [hwheels, List.append_nil]
      exact hforced
    · simp only [hwheels, hhandled]
      simp [hfresh.not_handled]
  | cons w rest =>
    have hfake : s.nextEvent ∉ (begun s e v).handled := by
      rw [hhandled]
      exact fun hmem => Nat.lt_irrefl _ (h.handled_lt _ hmem)
    have hchain' : chain = [v] ++ w :: rest := hchain
    have hfuel' : (w :: rest).length < fuel := by
      rw [hchain, List.length_cons] at hfuel
      omega
    obtain ⟨returned, hraise, hsettled⟩ := descend hlast hnodup hover hchain' (by simp) hfuel'
      hbegun rfl (e := ⟨s.nextEvent, e.delta, some chain⟩) (List.mem_singleton_self _) hdelta rfl hfake
      (by rw [hhandled]; exact hfresh.not_handled)
    exact ⟨returned, hraise, hsettled.inSequence, by rw [hsettled.forced, hforced],
      hsettled.original⟩

/-- What an original event comes to when the innermost viewer or one above it can scroll. -/
theorem original_settles {outer : List V} {last : V} (hlast : chain = outer ++ [last])
    (hnodup : chain.Nodup)
    (hover : CanHandOver view delta outer last)
    {s : Ui V} (h : Idle s) {e : MouseWheelEventArgs V} (hfresh : Fresh s e)
    (hdelta : e.delta = delta) (hsource : e.originalSource = some chain) {fuel : Nat}
    (hfuel : chain.length ≤ fuel) :
    ∃ t, raiseEvent (onScrollViewerPreviewMouseWheel view (fuel + 1) e) e.id chain s = .ok t ∧
      t.forced = s.forced ++ wheelsOf view delta outer last ∧
      (e.id ∈ t.handled ↔ wheelsOf view delta outer last ≠ []) := by
  obtain ⟨v, rest, hchain⟩ : ∃ v rest, chain = v :: rest :=
    List.exists_cons_of_ne_nil (by simp [hlast])
  obtain ⟨returned, hraise, hin, hforced, horiginal⟩ :=
    begun_returns hlast hnodup hover h hfresh hdelta hchain hfuel
  have hfirst := outermost_returns (v := v) h hfresh hsource hraise hin
  obtain ⟨es, hrest, -⟩ := raiseEvent_others view fuel (e := e)
    (idle_of_returned hin (returned.activations ++ [⟨v, e.id, s.nextEvent, s.sequence,
        (begun s e v).sequence, returned.sequence, none⟩])) hin.current rest
  have hroute : raiseEvent (onScrollViewerPreviewMouseWheel view (fuel + 1) e) e.id chain s =
      raiseEvent (onScrollViewerPreviewMouseWheel view (fuel + 1) e) e.id (v :: rest) s := by
    rw [hchain]
  have hcons : raiseEvent (onScrollViewerPreviewMouseWheel view (fuel + 1) e) e.id (v :: rest) s =
      raiseEvent (onScrollViewerPreviewMouseWheel view (fuel + 1) e) e.id rest _ :=
    deliver_cons_ok (by simpa using hfresh.not_handled) hfirst rest
  exact ⟨_, hroute.trans (hcons.trans hrest), hforced, horiginal⟩

end Descent

/-! ## Hand-over -/

namespace NestedViewers

variable [DecidableEq V]

omit [DecidableEq V] in
/-- A viewer of the chain can scroll up while its offset is above zero, and down while it is below
its height. -/
theorem canScroll_iff (input : NestedViewers K V) {v : V} (hv : v ∈ input.chain) :
    input.CanScroll v ↔
      if 0 < input.delta then 0 < (input.view v).verticalOffset
      else (input.view v).verticalOffset < (input.view v).scrollableHeight := by
  have henabled := input.enabled v hv
  have hnonneg := input.offset_nonneg v hv
  have hle := input.offset_le v hv
  rw [CanScroll, canScroll_eq_true_iff]
  by_cases hup : 0 < input.delta
  · have hdown : ¬ input.delta ≤ 0 := by omega
    simp only [isScrollSupported, isScrollingOutOfBounds, henabled, hup, hdown, if_true]
    -- an offset above zero shows that there is a scrollbar
    simpa using fun hoffset => lt_of_lt_of_le hoffset hle
  · have hdown : input.delta ≤ 0 := by omega
    simp only [isScrollSupported, isScrollingOutOfBounds, henabled, hup, hdown, if_false]
    simpa using fun hoffset => lt_of_le_of_lt hnonneg hoffset

omit [DecidableEq V] in
/-- A viewer of the chain that cannot scroll has reached its bound. -/
theorem outOfBounds_of_not_canScroll (input : NestedViewers K V) {v : V} (hv : v ∈ input.chain)
    (h : canScroll (input.view v) input.delta = false) :
    isScrollingOutOfBounds (input.view v) input.delta = true := by
  have hcannot : ¬ input.CanScroll v := by
    rw [CanScroll, h]
    decide
  rw [input.canScroll_iff hv] at hcannot
  by_cases hup : 0 < input.delta
  · rw [if_pos hup, not_lt] at hcannot
    simp [isScrollingOutOfBounds, hup, hcannot]
  · rw [if_neg hup, not_lt] at hcannot
    have hdown : input.delta ≤ 0 := by omega
    simp [isScrollingOutOfBounds, hdown, hcannot]

/-- The outcome when some viewer can scroll. -/
theorem settles_of_exists (extra : Nat) (input : NestedViewers K V) {s t : Ui V} (h : Idle s)
    (hsome : ∃ v ∈ input.chain, input.CanScroll v) (ht : input.raise extra s = .ok t) :
    t.forced = s.forced ++
        wheelsOf input.view input.delta input.chain.dropLast input.innermost ∧
      (s.nextEvent ∈ t.handled ↔
        wheelsOf input.view input.delta input.chain.dropLast input.innermost ≠ []) := by
  have hlast : input.chain = input.chain.dropLast ++ [input.innermost] :=
    (List.dropLast_append_getLast input.ne_nil).symm
  have hover : CanHandOver input.view input.delta input.chain.dropLast input.innermost := by
    intro hcannot
    refine ⟨input.outOfBounds_of_not_canScroll (List.getLast_mem input.ne_nil) hcannot, ?_⟩
    obtain ⟨v, hv, hcan⟩ := hsome
    rw [hlast] at hv
    rcases List.mem_append.mp hv with houter | hinner
    · exact ⟨v, houter, hcan⟩
    · rw [List.mem_singleton.mp hinner, CanScroll, hcannot] at hcan
      cases hcan
  obtain ⟨hstart, hfresh⟩ := fresh_next h input.delta (some input.chain)
  have hlength : input.chain.length ≤ input.chain.length + extra := Nat.le_add_right _ _
  obtain ⟨t', ht', hforced, horiginal⟩ := original_settles hlast input.nodup hover hstart hfresh
    rfl rfl hlength
  have hfuel : input.chain.length + 1 + extra = input.chain.length + extra + 1 := by omega
  simp only [WheelInput.raise, raiseWheel, hfuel, input.source, if_true] at ht
  obtain rfl := Except.ok.inj (ht.symm.trans ht')
  exact ⟨hforced, horiginal⟩

omit [DecidableEq V] in
/-- The wheel event that is forced when the innermost viewer cannot scroll. -/
theorem wheelsOf_eq (input : NestedViewers K V) (hcannot : ¬ input.CanScroll input.innermost)
    (hsome : ∃ v ∈ input.chain, input.CanScroll v) :
    ∃ v, input.InnermostThatScrolls v ∧
      wheelsOf input.view input.delta input.chain.dropLast input.innermost =
        [⟨v, input.innermost, input.delta⟩] := by
  have hlast : input.chain = input.chain.dropLast ++ [input.innermost] :=
    (List.dropLast_append_getLast input.ne_nil).symm
  have hcannot' : canScroll (input.view input.innermost) input.delta = false :=
    Bool.eq_false_iff.mpr hcannot
  have houter : ∃ v ∈ input.chain.dropLast, input.CanScroll v := by
    obtain ⟨v, hv, hcan⟩ := hsome
    rw [hlast] at hv
    rcases List.mem_append.mp hv with houter | hinner
    · exact ⟨v, houter, hcan⟩
    · exact absurd (List.mem_singleton.mp hinner ▸ hcan) hcannot
  obtain ⟨w, hw, hcan⟩ := houter
  obtain ⟨v, hfind⟩ : ∃ v, input.chain.dropLast.reverse.find?
      (fun parent => canScroll (input.view parent) input.delta) = some v :=
    Option.isSome_iff_exists.mp (List.find?_isSome.mpr ⟨w, List.mem_reverse.mpr hw, hcan⟩)
  refine ⟨v, ?_, by simp [wheelsOf, hcannot', hfind]⟩
  -- the viewers that the search passed lie inside of the one that it found
  obtain ⟨hscrolls, passed, left, hreverse, hpassed⟩ := List.find?_eq_some_iff_append.mp hfind
  have hsplit : input.chain.dropLast = left.reverse ++ v :: passed.reverse := by
    rw [← List.reverse_reverse input.chain.dropLast, hreverse]
    simp
  refine ⟨left.reverse, passed.reverse ++ [input.innermost], ?_, hscrolls, fun u hu => ?_⟩
  · calc input.chain = input.chain.dropLast ++ [input.innermost] := hlast
      _ = left.reverse ++ v :: (passed.reverse ++ [input.innermost]) := by rw [hsplit]; simp
  · rcases List.mem_append.mp hu with hu | hu
    · have hnot := hpassed u (List.mem_reverse.mp hu)
      rw [CanScroll]
      simpa using hnot
    · rw [List.mem_singleton.mp hu]
      exact hcannot

/-- From any state between two original events, the wheel event goes to the right viewer. -/
theorem handedOver_of_idle (extra : Nat) (input : NestedViewers K V) {s : Ui V} (h : Idle s) :
    ∃ t, input.raise extra s = .ok t ∧ input.HandedOver s.nextEvent s t := by
  obtain ⟨t, ht, -, hprogress, -⟩ := raise_restores extra input.toWheelInput h
  have hnew : s.nextEvent ∉ s.handled := fun hmem => Nat.lt_irrefl _ (h.handled_lt _ hmem)
  refine ⟨t, ht, ?_⟩
  -- who can scroll decides what is forced
  by_cases hsome : ∃ v ∈ input.chain, input.CanScroll v
  · obtain ⟨hforced, horiginal⟩ := input.settles_of_exists extra h hsome ht
    refine ⟨fun hleft => ?_, fun hcannot _ => ?_⟩
    · -- the innermost viewer can scroll
      have hcan : canScroll (input.view input.innermost) input.delta = true := by
        rcases hleft with hcan | hnone
        · exact hcan
        · obtain ⟨v, hv, hcan⟩ := hsome
          exact absurd hcan (hnone v hv)
      have hwheels : wheelsOf input.view input.delta input.chain.dropLast input.innermost = [] :=
        if_pos hcan
      rw [hwheels, List.append_nil] at hforced
      exact ⟨hforced, fun hmem => horiginal.mp hmem hwheels⟩
    · obtain ⟨v, hv, hwheels⟩ := input.wheelsOf_eq hcannot hsome
      rw [hwheels] at hforced horiginal
      exact ⟨⟨v, hv, hforced⟩, horiginal.mpr (List.cons_ne_nil _ _)⟩
  · -- nobody can scroll
    have hnone : ∀ v ∈ input.chain, ¬ input.CanScroll v := fun v hv hcan => hsome ⟨v, hv, hcan⟩
    obtain ⟨hforced, horiginal⟩ := hprogress.quiet fun v hv => Bool.eq_false_iff.mpr (hnone v hv)
    exact ⟨fun _ => ⟨hforced, fun hmem => hnew (horiginal hmem)⟩,
      fun _ hex => absurd hex hsome⟩

/-- **Hand-over**: after any number of original events, the next one over nested viewers is left
alone when the innermost viewer can scroll or nobody can, and otherwise goes to the innermost
viewer that can, once. -/
theorem handedOver (extra : Nat) (inputs : List (WheelInput K V)) (input : NestedViewers K V) :
    ∃ s t, raiseAll extra inputs .init = .ok s ∧ input.raise extra s = .ok t ∧
      input.HandedOver s.nextEvent s t := by
  obtain ⟨s, hs, hidle, -⟩ := raiseAll_restores extra inputs idle_init
    (sequenceRestored_init (V := V))
  obtain ⟨t, ht, hover⟩ := input.handedOver_of_idle extra hidle
  exact ⟨s, t, hs, ht, hover⟩

/-- A viewer halfway down its height around one that is at its end. -/
def scrolledDown : NestedViewers Int Nat where
  chain := [0, 1]
  nodup := by decide
  view v := if v = 0 then ⟨true, 5, 10⟩ else ⟨true, 10, 10⟩
  delta := -120
  isInputElement := true
  ne_nil := by decide
  enabled := by decide
  offset_nonneg := by decide
  offset_le := by decide
  source := rfl

example : (scrolledDown.raise 0 .init).map Ui.forced = .ok [⟨0, 1, -120⟩] := by decide

end NestedViewers

end Doreto.Wpf
