import Mathlib.Data.List.Nodup
import Mathlib.Data.List.Perm.Subperm
import Doreto.Wpf.ScrollViewerFixBehavior

/-!
# The Sequence Is Restored

The handler of the scroll behavior calls itself through the events that it raises, and all its
activations share one sequence of fake events and viewers. Each nested activation adds a viewer
that is not in the sequence, so the nesting is no deeper than the chain is long, and each removes
what it added, so it leaves the sequence as it found it.

## Main results

- `handler_keeps`: a nested call of the handler returns and leaves the sequence as it was.
- `raise_restores`: an original event is processed and leaves no sequence behind.
- `sequence_restored`: the same after any number of original events.
-/

namespace Doreto.Wpf

open Doreto.Lib

variable {K V : Type}

/-! ## The invariant -/

/-- Every fake event has its viewer, and nothing is in the sequence twice. -/
structure ScrollViewerBehaviorSequence.Paired (q : ScrollViewerBehaviorSequence V) : Prop where
  length : q.fakeEvents.length = q.scrollViewers.length
  fakeEvents : q.fakeEvents.Nodup
  scrollViewers : q.scrollViewers.Nodup

/-- The activation removes exactly what it pushed, and the sequence is there behind `RaiseEvent`. -/
structure Activation.Balanced (a : Activation V) : Prop where
  pushed : ∃ q, a.pushed = some q ∧
    q.fakeEvents = (a.before.elim [] (·.fakeEvents)) ++ [a.fakeEvent] ∧
    q.scrollViewers = (a.before.elim [] (·.scrollViewers)) ++ [a.scrollViewer]
  returned : a.returned = a.pushed
  after : a.after = a.before

/-- A state in which the sequence of the current original event is `q`. -/
structure InSequence (chain : List V) (q : ScrollViewerBehaviorSequence V) (s : Ui V) : Prop where
  sequence : s.sequence = some q
  current : s.currentOriginalEventArg = some q.originalEvent
  paired : q.Paired
  subset : q.scrollViewers ⊆ chain
  fakeEvents_lt : ∀ f ∈ q.fakeEvents, f < s.nextEvent
  original_lt : q.originalEvent < s.nextEvent
  original_not_mem : q.originalEvent ∉ q.fakeEvents
  handled_lt : ∀ h ∈ s.handled, h < s.nextEvent

section Progress

variable [Zero K] [LT K] [LE K] [DecidableLT K] [DecidableLE K]

/-- What can happen from `s` to `t` while an original event is processed. -/
structure Progress (view : V → ScrollViewer K) (chain : List V) (delta : Int) (original : Nat)
    (s t : Ui V) : Prop where
  next_le : s.nextEvent ≤ t.nextEvent
  /-- New entries found a sequence in order. -/
  entries : ∀ x ∈ t.entries, x ∈ s.entries ∨ ∀ q, x = some q → q.Paired
  activations : ∀ a ∈ t.activations, a ∈ s.activations ∨ a.Balanced
  /-- When no viewer of the chain can scroll, no wheel event is forced and the original event is
  not handled. -/
  quiet : (∀ v ∈ chain, canScroll (view v) delta = false) →
    t.forced = s.forced ∧ (original ∈ t.handled → original ∈ s.handled)

variable {view : V → ScrollViewer K} {chain : List V} {delta : Int} {original : Nat}

theorem Progress.refl (s : Ui V) : Progress view chain delta original s s :=
  ⟨Nat.le_refl _, fun _ hx => .inl hx, fun _ ha => .inl ha, fun _ => ⟨rfl, id⟩⟩

theorem Progress.trans {s t u : Ui V} (h₁ : Progress view chain delta original s t)
    (h₂ : Progress view chain delta original t u) : Progress view chain delta original s u := by
  refine ⟨Nat.le_trans h₁.next_le h₂.next_le, fun x hx => ?_, fun a ha => ?_, fun hstuck => ?_⟩
  · rcases h₂.entries x hx with hold | hok
    · exact h₁.entries x hold
    · exact .inr hok
  · rcases h₂.activations a ha with hold | hok
    · exact h₁.activations a hold
    · exact .inr hok
  · obtain ⟨hforced₁, hhandled₁⟩ := h₁.quiet hstuck
    obtain ⟨hforced₂, hhandled₂⟩ := h₂.quiet hstuck
    exact ⟨hforced₂.trans hforced₁, fun h => hhandled₁ (hhandled₂ h)⟩

/-- A step that leaves the record and the handled events alone. -/
theorem Progress.of_same {s t : Ui V} (hnext : s.nextEvent ≤ t.nextEvent)
    (hentries : t.entries = s.entries) (hactivations : t.activations = s.activations)
    (hforced : t.forced = s.forced) (hhandled : t.handled = s.handled) :
    Progress view chain delta original s t := by
  refine ⟨hnext, fun x hx => .inl ?_, fun a ha => .inl ?_, fun _ => ⟨hforced, fun h => ?_⟩⟩
  · rwa [hentries] at hx
  · rwa [hactivations] at ha
  · rwa [hhandled] at h

theorem progress_enter {s : Ui V} (hpaired : ∀ q, s.sequence = some q → q.Paired) :
    Progress view chain delta original s s.enter := by
  refine ⟨Nat.le_refl _, fun x hx => ?_, fun _ ha => .inl ha, fun _ => ⟨rfl, id⟩⟩
  rcases List.mem_append.mp hx with hold | hnew
  · exact .inl hold
  · rw [List.mem_singleton.mp hnew]
    exact .inr hpaired

theorem progress_record {s : Ui V} {a : Activation V} (ha : a.Balanced) :
    Progress view chain delta original s { s with activations := s.activations ++ [a] } := by
  refine ⟨Nat.le_refl _, fun _ hx => .inl hx, fun a' ha' => ?_, fun _ => ⟨rfl, id⟩⟩
  rcases List.mem_append.mp ha' with hold | hnew
  · exact .inl hold
  · rw [List.mem_singleton.mp hnew]
    exact .inr ha

/-- Handling an event that is not the original one. -/
theorem progress_setHandled {s : Ui V} {e : Nat} (he : e ≠ original) :
    Progress view chain delta original s (s.setHandled e) := by
  refine ⟨Nat.le_refl _, fun _ hx => .inl hx, fun _ ha => .inl ha, fun _ => ⟨rfl, fun h => ?_⟩⟩
  rcases List.mem_cons.mp h with heq | hold
  · exact absurd heq.symm he
  · exact hold

end Progress

/-! ## The steps of an activation -/

section Steps

variable {chain : List V} {q : ScrollViewerBehaviorSequence V}

theorem InSequence.enter {s : Ui V} (h : InSequence chain q s) : InSequence chain q s.enter :=
  ⟨h.sequence, h.current, h.paired, h.subset, h.fakeEvents_lt, h.original_lt, h.original_not_mem,
    h.handled_lt⟩

theorem InSequence.withEntries {s : Ui V} (h : InSequence chain q s)
    (es : List (Option (ScrollViewerBehaviorSequence V))) :
    InSequence chain q { s with entries := es } :=
  ⟨h.sequence, h.current, h.paired, h.subset, h.fakeEvents_lt, h.original_lt, h.original_not_mem,
    h.handled_lt⟩

theorem InSequence.paired_of_eq {s : Ui V} (h : InSequence chain q s)
    (q' : ScrollViewerBehaviorSequence V) (hq' : s.sequence = some q') : q'.Paired := by
  obtain rfl := Option.some.inj (hq'.symm.trans h.sequence)
  exact h.paired

theorem InSequence.ne_original {s : Ui V} (h : InSequence chain q s) {f : Nat}
    (hf : f ∈ q.fakeEvents) : f ≠ q.originalEvent :=
  fun heq => h.original_not_mem (heq ▸ hf)

theorem InSequence.fresh {s : Ui V} (h : InSequence chain q s) : s.nextEvent ∉ q.fakeEvents :=
  fun hmem => Nat.lt_irrefl _ (h.fakeEvents_lt _ hmem)

theorem InSequence.setHandled {s : Ui V} (h : InSequence chain q s) {e : Nat}
    (he : e ∈ q.fakeEvents) : InSequence chain q (s.setHandled e) := by
  refine ⟨h.sequence, h.current, h.paired, h.subset, h.fakeEvents_lt, h.original_lt,
    h.original_not_mem, fun x hx => ?_⟩
  rcases List.mem_cons.mp hx with rfl | hx
  · exact h.fakeEvents_lt x he
  · exact h.handled_lt x hx

/-- The new fake event and the viewer behind those of the sequence. -/
theorem InSequence.push {s : Ui V} (h : InSequence chain q s) {v : V} (hv : v ∈ chain)
    (hnew : v ∉ q.scrollViewers) (e : MouseWheelEventArgs V) :
    InSequence chain { q with
        fakeEvents := q.fakeEvents ++ [s.nextEvent]
        scrollViewers := q.scrollViewers ++ [v] }
      (({ s with nextEvent := s.nextEvent + 1 } : Ui V).push e v s.nextEvent) := by
  rw [Ui.push, h.sequence]
  refine ⟨rfl, h.current, ⟨?_, ?_, ?_⟩, ?_, fun f hf => ?_, ?_, ?_, fun x hx => ?_⟩
  · simpa using h.paired.length
  · simpa using h.paired.fakeEvents.concat h.fresh
  · simpa using h.paired.scrollViewers.concat hnew
  · exact List.append_subset.mpr ⟨h.subset, by simpa using hv⟩
  · rcases List.mem_append.mp hf with hf | hf
    · exact Nat.lt_succ_of_lt (h.fakeEvents_lt f hf)
    · rw [List.mem_singleton.mp hf]
      exact Nat.lt_succ_self _
  · exact Nat.lt_succ_of_lt h.original_lt
  · have hne := Nat.ne_of_lt h.original_lt
    simpa [hne] using h.original_not_mem
  · exact Nat.lt_succ_of_lt (h.handled_lt x hx)

variable [DecidableEq V]

/-- What was pushed last is what is removed. -/
theorem pop_of_push {s : Ui V} {v : V} {f : Nat} (hseq : s.sequence = some { q with
      fakeEvents := q.fakeEvents ++ [f], scrollViewers := q.scrollViewers ++ [v] })
    (hf : f ∉ q.fakeEvents) (hv : v ∉ q.scrollViewers) :
    s.pop v f = .ok { s with sequence := if q.fakeEvents.length = 0 then none else some q } := by
  rw [Ui.pop, hseq]
  simp only [List.erase_append_right _ hf, List.erase_append_right _ hv, List.erase_cons_head,
    List.append_nil]

theorem processes_of_inSequence {s : Ui V} (h : InSequence chain q s) {v : V}
    {e : MouseWheelEventArgs V} (hprocesses : s.processes v e = true) :
    v ∉ q.scrollViewers ∧ e.id ∈ q.fakeEvents := by
  simp only [Ui.processes, h.sequence, Bool.and_eq_true, decide_eq_true_eq] at hprocesses
  exact hprocesses.2

/-- A fake event of the sequence that is not handled is processed by a viewer that is not in the
sequence. -/
theorem processes_of_new {s : Ui V} (h : InSequence chain q s) {v : V}
    (hnew : v ∉ q.scrollViewers) {e : MouseWheelEventArgs V} (he : e.id ∈ q.fakeEvents)
    (hhandled : e.id ∉ s.handled) : s.enter.processes v e = true := by
  have hne := h.ne_original he
  simp [Ui.processes, Ui.enter, h.sequence, h.current, hhandled, hnew, he, hne]

theorem parents_subset (q : ScrollViewerBehaviorSequence V) (v : V) :
    parents q v ⊆ q.scrollViewers := by
  intro p hp
  unfold parents at hp
  split at hp
  · cases hp
  · exact List.mem_of_mem_take (List.mem_reverse.mp hp)

theorem idxOf_last {outer : List V} {v : V} (hv : v ∉ outer) :
    (outer ++ [v]).idxOf? v = some outer.length := by
  induction outer with
  | nil => simp
  | cons w outer ih =>
    rw [List.mem_cons, not_or] at hv
    have hne : (w == v) = false := by simpa using Ne.symm hv.1
    rw [List.cons_append, List.idxOf?_cons, hne, ih hv.2]
    rfl

/-- The parents of the viewer that was pushed last are all the others. -/
theorem parents_last {outer : List V} {v : V} (hq : q.scrollViewers = outer ++ [v])
    (hv : v ∉ outer) : parents q v = outer.reverse := by
  rw [parents, hq, idxOf_last hv]
  simp

end Steps

/-! ## The handler keeps the sequence -/

section Handler

variable [DecidableEq V] [Zero K] [LT K] [LE K] [DecidableLT K] [DecidableLE K]

/-- From `s` to `t` the sequence `q` was kept. -/
structure Kept (view : V → ScrollViewer K) (chain : List V) (delta : Int)
    (q : ScrollViewerBehaviorSequence V) (s t : Ui V) : Prop where
  inSequence : InSequence chain q t
  progress : Progress view chain delta q.originalEvent s t

/-- A nested call with this fuel returns and keeps the sequence. -/
def HandlerKeeps (view : V → ScrollViewer K) (chain : List V) (delta : Int) (fuel : Nat) : Prop :=
  ∀ (q : ScrollViewerBehaviorSequence V) (s : Ui V) (e : MouseWheelEventArgs V) (v : V),
    InSequence chain q s → v ∈ chain → e.delta = delta →
    (∀ route, e.originalSource = some route → route = chain) →
    chain.length < fuel + q.scrollViewers.length →
    ∃ t, onScrollViewerPreviewMouseWheel view fuel e v s = .ok t ∧ Kept view chain delta q s t

variable {view : V → ScrollViewer K} {chain : List V} {delta : Int}
  {q : ScrollViewerBehaviorSequence V}

theorem forceMouseWheelEvent_keeps (view : V → ScrollViewer K) {s : Ui V}
    (h : InSequence chain q s) (v : V) {e : MouseWheelEventArgs V} (he : e.id ∈ q.fakeEvents)
    (hdelta : e.delta = delta) :
    Kept view chain delta q s (forceMouseWheelEvent view q v e s) := by
  unfold forceMouseWheelEvent
  split
  case h_1 => exact ⟨h, .refl s⟩
  case h_2 parent hfind =>
    refine ⟨⟨h.sequence, h.current, h.paired, h.subset, h.fakeEvents_lt, h.original_lt,
      h.original_not_mem, fun x hx => ?_⟩, Nat.le_refl _, fun _ hx => .inl hx,
      fun _ ha => .inl ha, fun hstuck => ?_⟩
    · rcases List.mem_cons.mp hx with rfl | hx
      · exact h.original_lt
      rcases List.mem_append.mp hx with hx | hx
      · exact h.fakeEvents_lt x hx
      · exact (h.setHandled he).handled_lt x hx
    · -- the parent that was found can scroll
      have hparent := h.subset (parents_subset q v (List.mem_of_find?_eq_some hfind))
      have hcan := List.find?_some hfind
      rw [hdelta, hstuck parent hparent] at hcan
      cases hcan

theorem goBackUp_keeps (view : V → ScrollViewer K) {s : Ui V} (h : InSequence chain q s) (v : V)
    {e : MouseWheelEventArgs V} (he : e.id ∈ q.fakeEvents) (hdelta : e.delta = delta)
    (previewEventArg : Nat) :
    ∃ t, goBackUp view v e previewEventArg s = .ok t ∧ Kept view chain delta q s t := by
  have hhandled : Kept view chain delta q s (s.setHandled e.id) :=
    ⟨h.setHandled he, progress_setHandled (h.ne_original he)⟩
  simp only [goBackUp, h.sequence, if_pos he]
  split
  · exact ⟨_, rfl, hhandled⟩
  · have hsupported : Kept view chain delta q s
        (if isScrollSupported (view v) then s.setHandled e.id else s) := by
      split
      · exact hhandled
      · exact ⟨h, .refl s⟩
    split
    · have hforced := forceMouseWheelEvent_keeps view hsupported.inSequence v he hdelta
      exact ⟨_, rfl, hforced.inSequence, hsupported.progress.trans hforced.progress⟩
    · exact ⟨_, rfl, hsupported⟩

/-- Raising an event whose handlers keep the sequence keeps it. -/
theorem raiseEvent_keeps {fuel : Nat} (hkeeps : HandlerKeeps view chain delta fuel) {s : Ui V}
    (h : InSequence chain q s) {e : MouseWheelEventArgs V} (hdelta : e.delta = delta)
    (hsource : ∀ route, e.originalSource = some route → route = chain)
    (hfuel : chain.length < fuel + q.scrollViewers.length) :
    ∃ t, raiseEvent (onScrollViewerPreviewMouseWheel view fuel e) e.id chain s = .ok t ∧
      Kept view chain delta q s t := by
  refine deliver_invariant (I := Kept view chain delta q s) (fun v hv t ht => ?_) ⟨h, .refl s⟩
  obtain ⟨u, hu, hkept⟩ := hkeeps q t e v ht.inSequence hv hdelta hsource hfuel
  exact ⟨u, hu, hkept.inSequence, ht.progress.trans hkept.progress⟩

/-- An activation in a state with a sequence: the fake event runs the handlers with the sequence
that was pushed, and the way back removes what was pushed. -/
theorem activation_keeps {fuel : Nat} (hkeeps : HandlerKeeps view chain delta fuel) {s : Ui V}
    (h : InSequence chain q s) {v : V} (hv : v ∈ chain) {e : MouseWheelEventArgs V}
    (hdelta : e.delta = delta) (hsource : e.originalSource = some chain)
    (hprocesses : s.enter.processes v e = true)
    (hfuel : chain.length < fuel + 1 + q.scrollViewers.length) :
    ∃ t, onScrollViewerPreviewMouseWheel view (fuel + 1) e v s = .ok t ∧
      Kept view chain delta q s t := by
  -- only a fake event is processed, by a viewer that is not in the sequence
  obtain ⟨hnew, he⟩ := processes_of_inSequence h.enter hprocesses
  have hpush := h.enter.push hv hnew e
  obtain ⟨returned, hraise, hreturned⟩ := raiseEvent_keeps hkeeps hpush
    (e := ⟨s.nextEvent, e.delta, some chain⟩) hdelta
    (fun route hroute => (Option.some.inj hroute).symm)
    (by rw [List.length_append, List.length_singleton]; omega)
  obtain ⟨back, hback, hbacked⟩ := goBackUp_keeps view hreturned.inSequence v
    (List.mem_append_left _ he) hdelta s.nextEvent
  have hpop := pop_of_push hbacked.inSequence.sequence h.enter.fresh hnew
  have hcount : q.fakeEvents.length ≠ 0 := Nat.pos_iff_ne_zero.mp (List.length_pos_of_mem he)
  rw [if_neg hcount] at hpop
  refine ⟨_, handler_of_processes hprocesses hsource rfl hraise hback hpop, ?_, ?_⟩
  · exact ⟨rfl, hbacked.inSequence.current, h.paired, h.subset,
      fun f hf => hbacked.inSequence.fakeEvents_lt f (List.mem_append_left _ hf),
      hbacked.inSequence.original_lt, h.original_not_mem, hbacked.inSequence.handled_lt⟩
  · have hpushed : Progress view chain delta q.originalEvent s.enter
        (({ s.enter with nextEvent := s.nextEvent + 1 } : Ui V).push e v s.nextEvent) :=
      .of_same (by simp [Ui.enter]) (by simp) (by simp) (by simp) (by simp)
    have hpopped : Progress view chain delta q.originalEvent back { back with sequence := some q } :=
      .of_same (Nat.le_refl _) rfl rfl rfl rfl
    refine (progress_enter h.paired_of_eq).trans (hpushed.trans (hreturned.progress.trans
      (hbacked.progress.trans (hpopped.trans (progress_record ?_)))))
    refine ⟨⟨_, hpush.sequence, ?_, ?_⟩, ?_, h.sequence.symm⟩
    · simp [h.sequence, Ui.enter]
    · simp [h.sequence]
    · exact hreturned.inSequence.sequence.trans hpush.sequence.symm

/-- The nesting is no deeper than the chain is long: each level has one more viewer of the chain in
the sequence. -/
theorem handler_keeps (view : V → ScrollViewer K) (chain : List V) (delta : Int) (fuel : Nat) :
    HandlerKeeps view chain delta fuel := by
  induction fuel with
  | zero =>
    intro q s e v h _ _ _ hfuel
    -- the sequence has no viewer twice, so it is no longer than the chain
    have hle := (h.paired.scrollViewers.subperm h.subset).length_le
    omega
  | succ fuel ih =>
    intro q s e v h hv hdelta hsource hfuel
    have hentry : Progress view chain delta q.originalEvent s s.enter :=
      progress_enter h.paired_of_eq
    by_cases hprocesses : s.enter.processes v e = true
    · cases hroute : e.originalSource with
      | none =>
        refine ⟨_, handler_of_no_source hprocesses hroute, ⟨h.sequence, h.current, h.paired,
          h.subset, fun f hf => Nat.lt_succ_of_lt (h.fakeEvents_lt f hf),
          Nat.lt_succ_of_lt h.original_lt, h.original_not_mem,
          fun x hx => Nat.lt_succ_of_lt (h.handled_lt x hx)⟩, ?_⟩
        exact hentry.trans (.of_same (Nat.le_succ _) rfl rfl rfl rfl)
      | some route =>
        obtain rfl := hsource route hroute
        exact activation_keeps ih h hv hdelta hroute hprocesses hfuel
    · exact ⟨_, handler_of_not_processes (Bool.eq_false_iff.mpr hprocesses), h.enter, hentry⟩

/-! ## Viewers that are passed -/

/-- The viewers of the sequence do not process an event. -/
theorem raiseEvent_skips (view : V → ScrollViewer K) (fuel : Nat) {s : Ui V}
    (h : s.sequence = some q) {route : List V} (hroute : route ⊆ q.scrollViewers)
    (e : MouseWheelEventArgs V) :
    ∃ es, raiseEvent (onScrollViewerPreviewMouseWheel view (fuel + 1) e) e.id route s =
      .ok { s with entries := es } := by
  have hdeliver : ∃ t, raiseEvent (onScrollViewerPreviewMouseWheel view (fuel + 1) e) e.id route s =
      .ok t ∧ ∃ es, t = { s with entries := es } := by
    refine deliver_invariant (fun v hv t ht => ?_) ⟨s.entries, rfl⟩
    obtain ⟨es, rfl⟩ := ht
    refine ⟨_, handler_of_not_processes ?_, _, rfl⟩
    simp [Ui.processes, Ui.enter, h, hroute hv]
  obtain ⟨_, ht, es, rfl⟩ := hdeliver
  exact ⟨es, ht⟩

/-- An event on the chain comes to the first viewer that is not in the sequence, and goes on from
it. -/
theorem raiseEvent_reaches (view : V → ScrollViewer K) (fuel : Nat) {s : Ui V}
    (h : InSequence chain q s) {rest : List V} {v : V} (hchain : chain = q.scrollViewers ++ v :: rest)
    {e : MouseWheelEventArgs V} (hhandled : e.id ∉ s.handled) :
    ∃ es, raiseEvent (onScrollViewerPreviewMouseWheel view (fuel + 1) e) e.id chain s =
      (onScrollViewerPreviewMouseWheel view (fuel + 1) e v { s with entries := es }).bind
        (raiseEvent (onScrollViewerPreviewMouseWheel view (fuel + 1) e) e.id rest) := by
  obtain ⟨es, hskip⟩ := raiseEvent_skips view fuel h.sequence (List.Subset.refl _) e
  refine ⟨es, ?_⟩
  have hnext : raiseEvent (onScrollViewerPreviewMouseWheel view (fuel + 1) e) e.id (v :: rest)
      { s with entries := es } =
        (onScrollViewerPreviewMouseWheel view (fuel + 1) e v { s with entries := es }).bind
          (raiseEvent (onScrollViewerPreviewMouseWheel view (fuel + 1) e) e.id rest) := by
    rw [raiseEvent, deliver, if_neg (by simpa using hhandled)]
    rfl
  rw [raiseEvent] at hskip
  rw [raiseEvent, hchain, deliver_append, hskip]
  exact hnext

/-! ## Original events -/

/-- A state between two original events. -/
structure Idle (s : Ui V) : Prop where
  sequence : s.sequence = none
  current_lt : ∀ c, s.currentOriginalEventArg = some c → c < s.nextEvent
  handled_lt : ∀ h ∈ s.handled, h < s.nextEvent

omit [DecidableEq V] in
theorem idle_init : Idle (Ui.init : Ui V) := by
  refine ⟨rfl, fun c hc => ?_, fun x hx => ?_⟩
  · cases hc
  · cases hx

omit [DecidableEq V] in
theorem Idle.progress_enter {s : Ui V} (h : Idle s) {original : Nat} :
    Progress view chain delta original s s.enter := by
  apply Wpf.progress_enter
  intro q hq
  rw [h.sequence] at hq
  cases hq

/-- The original event was processed: the outermost viewer began a sequence for it. -/
def Processed (input : WheelInput K V) (original : Nat) (t : Ui V) : Prop :=
  input.isInputElement = true → ∀ v, input.chain.head? = some v →
    ∃ a ∈ t.activations, a.scrollViewer = v ∧ a.event = original ∧ a.before = none

/-- An original event that is new. -/
structure Fresh (s : Ui V) (e : MouseWheelEventArgs V) : Prop where
  id_lt : e.id < s.nextEvent
  not_handled : e.id ∉ s.handled
  not_current : some e.id ≠ s.currentOriginalEventArg

/-- The state in which the outermost viewer raises its fake event. -/
def begun (s : Ui V) (e : MouseWheelEventArgs V) (v : V) : Ui V :=
  ({ s.enter with nextEvent := s.nextEvent + 1 } : Ui V).push e v s.nextEvent

omit [DecidableEq V] in
@[simp] theorem begun_handled (s : Ui V) (e : MouseWheelEventArgs V) (v : V) :
    (begun s e v).handled = s.handled := by
  rw [begun, Ui.push_handled]
  rfl

omit [DecidableEq V] in
@[simp] theorem begun_activations (s : Ui V) (e : MouseWheelEventArgs V) (v : V) :
    (begun s e v).activations = s.activations := by
  rw [begun, Ui.push_activations]
  rfl

omit [DecidableEq V] in
@[simp] theorem begun_nextEvent (s : Ui V) (e : MouseWheelEventArgs V) (v : V) :
    (begun s e v).nextEvent = s.nextEvent + 1 := by
  rw [begun, Ui.push_nextEvent]

omit [DecidableEq V] in
@[simp] theorem begun_forced (s : Ui V) (e : MouseWheelEventArgs V) (v : V) :
    (begun s e v).forced = s.forced := by
  rw [begun, Ui.push_forced]
  rfl

omit [DecidableEq V] in
/-- The outermost viewer begins a sequence of one fake event and one viewer. -/
theorem inSequence_begun {s : Ui V} (h : Idle s) {e : MouseWheelEventArgs V} (hfresh : Fresh s e)
    {v : V} (hv : v ∈ chain) : InSequence chain ⟨[s.nextEvent], e.id, [v]⟩ (begun s e v) := by
  have hpushed : begun s e v =
      { s.enter with
        nextEvent := s.nextEvent + 1
        sequence := some ⟨[s.nextEvent], e.id, [v]⟩
        currentOriginalEventArg := some e.id } := by
    rw [begun, Ui.push]
    simp only [Ui.enter, h.sequence]
  rw [hpushed]
  refine ⟨rfl, rfl, ⟨rfl, List.nodup_singleton _, List.nodup_singleton _⟩, ?_, fun f hf => ?_,
    Nat.lt_succ_of_lt hfresh.id_lt, ?_, fun x hx => Nat.lt_succ_of_lt (h.handled_lt x hx)⟩
  · simpa using hv
  · rw [List.mem_singleton.mp hf]
    exact Nat.lt_succ_self _
  · simpa using Nat.ne_of_lt hfresh.id_lt

/-! ## The next viewer -/

/-- The sequence with a fake event and a viewer behind the others. -/
abbrev ScrollViewerBehaviorSequence.pushed (q : ScrollViewerBehaviorSequence V) (f : Nat) (v : V) :
    ScrollViewerBehaviorSequence V :=
  { q with fakeEvents := q.fakeEvents ++ [f], scrollViewers := q.scrollViewers ++ [v] }

omit [DecidableEq V] in
/-- The activation of a viewer makes a fake event that is new. -/
theorem InSequence.begun {s : Ui V} (h : InSequence chain q s) {v : V} (hv : v ∈ chain)
    (hnew : v ∉ q.scrollViewers) (e : MouseWheelEventArgs V) :
    InSequence chain (q.pushed s.nextEvent v) (begun s e v) ∧
      s.nextEvent ∉ (Wpf.begun s e v).handled := by
  refine ⟨h.enter.push hv hnew e, fun hmem => ?_⟩
  rw [begun_handled] at hmem
  exact Nat.lt_irrefl _ (h.handled_lt _ hmem)

omit [DecidableEq V] in
theorem not_mem_of_chain (hnodup : chain.Nodup) {v : V} {rest : List V}
    (hchain : chain = q.scrollViewers ++ v :: rest) : v ∉ q.scrollViewers := by
  rw [hchain] at hnodup
  intro hmem
  exact (List.nodup_append.mp hnodup).2.2 v hmem v List.mem_cons_self rfl

/-- The event of `s` comes to the viewer `v` in `s₁`, and goes on from it to the rest. The viewer's
own fake event is new. -/
structure Reaches (view : V → ScrollViewer K) (chain : List V) (q : ScrollViewerBehaviorSequence V)
    (fuel : Nat) (e : MouseWheelEventArgs V) (v : V) (rest : List V) (s s₁ : Ui V) : Prop where
  activations : s₁.activations = s.activations
  nextEvent : s₁.nextEvent = s.nextEvent
  handled : s₁.handled = s.handled
  forced : s₁.forced = s.forced
  inSequence : InSequence chain q s₁
  begun : InSequence chain (q.pushed s₁.nextEvent v) (begun s₁ e v)
  fake : s₁.nextEvent ∉ (Wpf.begun s₁ e v).handled
  raise : raiseEvent (onScrollViewerPreviewMouseWheel view (fuel + 1) e) e.id chain s =
    (onScrollViewerPreviewMouseWheel view (fuel + 1) e v s₁).bind
      (raiseEvent (onScrollViewerPreviewMouseWheel view (fuel + 1) e) e.id rest)

/-- An event that is not handled comes to the first viewer that it has not passed. -/
theorem reaches_next (view : V → ScrollViewer K) (fuel : Nat) {s : Ui V}
    (h : InSequence chain q s) {v : V} {rest : List V}
    (hchain : chain = q.scrollViewers ++ v :: rest) (hnew : v ∉ q.scrollViewers)
    {e : MouseWheelEventArgs V} (hhandled : e.id ∉ s.handled) :
    ∃ s₁, Reaches view chain q fuel e v rest s s₁ := by
  have hv : v ∈ chain := hchain ▸ List.mem_append_right _ List.mem_cons_self
  obtain ⟨es, hraise⟩ := raiseEvent_reaches view fuel h hchain hhandled
  have hin := h.withEntries es
  obtain ⟨hbegun, hfake⟩ := hin.begun hv hnew e
  exact ⟨{ s with entries := es }, rfl, rfl, rfl, rfl, hin, hbegun, hfake, hraise⟩

/-! ## The way back of the outermost viewer -/

/-- When its fake event has come back, the outermost viewer ends the sequence. The original event
is none of the fake ones, so nothing else happens on the way back. -/
theorem outermost_returns {fuel : Nat} {s : Ui V} (h : Idle s) {e : MouseWheelEventArgs V}
    (hfresh : Fresh s e) (hsource : e.originalSource = some chain) {v : V} {returned : Ui V}
    (hraise : raiseEvent
      (onScrollViewerPreviewMouseWheel view fuel ⟨s.nextEvent, e.delta, some chain⟩)
      s.nextEvent chain (begun s e v) = .ok returned)
    (hin : InSequence chain ⟨[s.nextEvent], e.id, [v]⟩ returned) :
    onScrollViewerPreviewMouseWheel view (fuel + 1) e v s = .ok { returned with
      sequence := none
      activations := returned.activations ++ [⟨v, e.id, s.nextEvent, s.sequence,
        (begun s e v).sequence, returned.sequence, none⟩] } := by
  have hprocesses : s.enter.processes v e = true := by
    simp [Ui.processes, Ui.enter, hfresh.not_handled, hfresh.not_current, h.sequence]
  -- the original event is not among the fake ones, so nothing is decided for it
  have hback : goBackUp view v e s.nextEvent returned = .ok returned := by
    rw [goBackUp, hin.sequence]
    exact if_neg hin.original_not_mem
  have hpop := pop_of_push (q := ⟨[], e.id, []⟩) hin.sequence (by simp) (by simp)
  exact handler_of_processes hprocesses hsource rfl hraise hback hpop

omit [DecidableEq V] in
theorem idle_of_returned {returned : Ui V} (hin : InSequence chain q returned)
    (activations : List (Activation V)) :
    Idle { returned with sequence := none, activations := activations } := by
  refine ⟨rfl, fun c hc => ?_, hin.handled_lt⟩
  obtain rfl := Option.some.inj (hin.current.symm.trans hc)
  exact hin.original_lt

/-- The outermost viewer begins a sequence for an original event, runs the handlers of the chain
with its fake event, and ends the sequence. -/
theorem outermost_restores (view : V → ScrollViewer K) {fuel : Nat} {s : Ui V} (h : Idle s)
    {v : V} (hv : v ∈ chain)
    {e : MouseWheelEventArgs V} (hfresh : Fresh s e) (hdelta : e.delta = delta)
    (hsource : e.originalSource = some chain) (hfuel : chain.length ≤ fuel) :
    ∃ t, onScrollViewerPreviewMouseWheel view (fuel + 1) e v s = .ok t ∧ Idle t ∧
      t.currentOriginalEventArg = some e.id ∧ Progress view chain delta e.id s t ∧
      ∃ a ∈ t.activations, a.scrollViewer = v ∧ a.event = e.id ∧ a.before = none := by
  have hbegun := inSequence_begun h hfresh hv
  obtain ⟨returned, hraise, hreturned⟩ := raiseEvent_keeps (handler_keeps view chain delta fuel)
    hbegun (e := ⟨s.nextEvent, e.delta, some chain⟩) hdelta
    (fun route hroute => (Option.some.inj hroute).symm) (by simp; omega)
  have hbalanced : Activation.Balanced ⟨v, e.id, s.nextEvent, s.sequence, (begun s e v).sequence,
      returned.sequence, none⟩ := by
    refine ⟨⟨_, hbegun.sequence, ?_, ?_⟩, ?_, h.sequence.symm⟩
    · simp [h.sequence]
    · simp [h.sequence]
    · exact hreturned.inSequence.sequence.trans hbegun.sequence.symm
  refine ⟨_, outermost_returns h hfresh hsource hraise hreturned.inSequence,
    idle_of_returned hreturned.inSequence _, hreturned.inSequence.current, ?_, ?_⟩
  · have hentry : Progress view chain delta e.id s s.enter := h.progress_enter
    have hpushed : Progress view chain delta e.id s.enter (begun s e v) :=
      .of_same (by simp [begun, Ui.enter]) (by simp [begun]) (by simp [begun]) (by simp [begun])
        (by simp [begun])
    have hpopped : Progress view chain delta e.id returned { returned with sequence := none } :=
      .of_same (Nat.le_refl _) rfl rfl rfl rfl
    exact hentry.trans (hpushed.trans (hreturned.progress.trans (hpopped.trans
      (progress_record hbalanced))))
  · exact ⟨_, List.mem_append_right _ (List.mem_singleton_self _), rfl, rfl, h.sequence⟩

/-- Behind the outermost viewer the other viewers do not process the original event. -/
theorem raiseEvent_others (view : V → ScrollViewer K) (fuel : Nat) {s : Ui V} (h : Idle s)
    {e : MouseWheelEventArgs V} (hcurrent : s.currentOriginalEventArg = some e.id) (route : List V) :
    ∃ es, raiseEvent (onScrollViewerPreviewMouseWheel view (fuel + 1) e) e.id route s =
      .ok { s with entries := es } ∧ ∀ x ∈ es, x ∈ s.entries ∨ x = none := by
  have hdeliver : ∃ t, raiseEvent (onScrollViewerPreviewMouseWheel view (fuel + 1) e) e.id route s =
      .ok t ∧ ∃ es, t = { s with entries := es } ∧ ∀ x ∈ es, x ∈ s.entries ∨ x = none := by
    refine deliver_invariant (fun v _ t ht => ?_) ⟨s.entries, rfl, fun _ hx => .inl hx⟩
    obtain ⟨es, rfl, hes⟩ := ht
    refine ⟨_, handler_of_not_processes (by simp [Ui.processes, Ui.enter, hcurrent]),
      es ++ [none], by rw [Ui.enter, h.sequence], fun x hx => ?_⟩
    rcases List.mem_append.mp hx with hold | hnew
    · exact hes x hold
    · exact .inr (List.mem_singleton.mp hnew)
  obtain ⟨_, ht, es, rfl, hes⟩ := hdeliver
  exact ⟨es, ht, hes⟩

/-- Without an input element at its source the event is not processed. -/
theorem no_source_skips (view : V → ScrollViewer K) (chain : List V) (delta : Int) {fuel : Nat}
    {s : Ui V} (h : Idle s) {e : MouseWheelEventArgs V}
    (hsource : e.originalSource = none) (original : Nat) (v : V) :
    ∃ t, onScrollViewerPreviewMouseWheel view (fuel + 1) e v s = .ok t ∧ Idle t ∧
      Progress view chain delta original s t := by
  have hentry : Progress view chain delta original s s.enter := h.progress_enter
  by_cases hprocesses : s.enter.processes v e = true
  · refine ⟨_, handler_of_no_source hprocesses hsource, ⟨h.sequence,
      fun c hc => Nat.lt_succ_of_lt (h.current_lt c hc),
      fun x hx => Nat.lt_succ_of_lt (h.handled_lt x hx)⟩, ?_⟩
    exact hentry.trans (.of_same (Nat.le_succ _) rfl rfl rfl rfl)
  · exact ⟨_, handler_of_not_processes (Bool.eq_false_iff.mpr hprocesses),
      ⟨h.sequence, h.current_lt, h.handled_lt⟩, hentry⟩

/-- Such an event leaves no sequence behind on its route. -/
theorem no_source_restores (view : V → ScrollViewer K) (chain : List V) (delta : Int) {fuel : Nat}
    {s : Ui V} (h : Idle s) {e : MouseWheelEventArgs V} (hsource : e.originalSource = none)
    (original : Nat) (route : List V) :
    ∃ t, raiseEvent (onScrollViewerPreviewMouseWheel view (fuel + 1) e) e.id route s = .ok t ∧
      Idle t ∧ Progress view chain delta original s t := by
  refine deliver_invariant (fun v _ t ht => ?_) ⟨h, .refl s⟩
  obtain ⟨u, hu, hidle, hprogress⟩ :=
    no_source_skips view chain delta ht.1 hsource original v
  exact ⟨u, hu, hidle, ht.2.trans hprogress⟩

/-- An original event with a source is processed and leaves no sequence behind. -/
theorem original_restores (view : V → ScrollViewer K) {fuel : Nat} {s : Ui V} (h : Idle s)
    {e : MouseWheelEventArgs V} (hfresh : Fresh s e) (hdelta : e.delta = delta)
    (hsource : e.originalSource = some chain)
    (hfuel : chain.length ≤ fuel) :
    ∃ t, raiseEvent (onScrollViewerPreviewMouseWheel view (fuel + 1) e) e.id chain s = .ok t ∧
      Idle t ∧ Progress view chain delta e.id s t ∧ ∀ v, chain.head? = some v →
        ∃ a ∈ t.activations, a.scrollViewer = v ∧ a.event = e.id ∧ a.before = none := by
  -- the outermost viewer processes the event, the others pass it on
  cases chain with
  | nil => exact ⟨s, rfl, h, .refl s, fun v hv => by cases hv⟩
  | cons v rest =>
    obtain ⟨t, ht, hidle, hcurrent, hprogress, a, ha, hav⟩ := outermost_restores view h
      List.mem_cons_self hfresh hdelta hsource hfuel
    obtain ⟨es, hrest, hes⟩ := raiseEvent_others view fuel hidle hcurrent rest
    refine ⟨{ t with entries := es }, ?_, ⟨hidle.sequence, hidle.current_lt, hidle.handled_lt⟩,
      hprogress.trans ⟨Nat.le_refl _, fun x hx => ?_, fun _ ha => .inl ha, fun _ => ⟨rfl, id⟩⟩,
      fun w hw => ?_⟩
    · rw [raiseEvent, deliver_cons_ok (by simpa using hfresh.not_handled) ht]
      exact hrest
    · rcases hes x hx with hold | hnone
      · exact .inl hold
      · exact .inr fun q hq => by rw [hnone] at hq; cases hq
    · obtain rfl := Option.some.inj hw
      exact ⟨a, ha, hav⟩

omit [DecidableEq V] in
/-- The event that WPF makes for an input is new. -/
theorem fresh_next {s : Ui V} (h : Idle s) (delta : Int) (source : Option (List V)) :
    Idle ({ s with nextEvent := s.nextEvent + 1 } : Ui V) ∧
      Fresh ({ s with nextEvent := s.nextEvent + 1 } : Ui V) ⟨s.nextEvent, delta, source⟩ :=
  ⟨⟨h.sequence, fun c hc => Nat.lt_succ_of_lt (h.current_lt c hc),
      fun x hx => Nat.lt_succ_of_lt (h.handled_lt x hx)⟩,
    ⟨Nat.lt_succ_self _, fun hmem => Nat.lt_irrefl _ (h.handled_lt _ hmem),
      fun heq => Nat.lt_irrefl _ (h.current_lt _ heq.symm)⟩⟩

/-- An original event is processed and leaves no sequence behind. -/
theorem raise_restores (extra : Nat) (input : WheelInput K V) {s : Ui V} (h : Idle s) :
    ∃ t, input.raise extra s = .ok t ∧ Idle t ∧
      Progress input.view input.chain input.delta s.nextEvent s t ∧
      Processed input s.nextEvent t := by
  obtain ⟨hstart, hfresh⟩ := fresh_next h input.delta (some input.chain)
  have hstarted : Progress input.view input.chain input.delta s.nextEvent s
      ({ s with nextEvent := s.nextEvent + 1 } : Ui V) :=
    .of_same (Nat.le_succ _) rfl rfl rfl rfl
  have hfuel : input.chain.length + 1 + extra = input.chain.length + extra + 1 := by omega
  -- without an input element there is nothing to raise the fake event on
  simp only [WheelInput.raise, raiseWheel, hfuel]
  cases helement : input.isInputElement with
  | false =>
    obtain ⟨t, ht, hidle, hprogress⟩ := no_source_restores input.view input.chain input.delta
      hstart (e := ⟨s.nextEvent, input.delta, none⟩) rfl s.nextEvent input.chain
    refine ⟨t, ht, hidle, hstarted.trans hprogress, fun htrue => ?_⟩
    rw [helement] at htrue
    cases htrue
  | true =>
    have hlength : input.chain.length ≤ input.chain.length + extra := Nat.le_add_right _ _
    obtain ⟨t, ht, hidle, hprogress, hprocessed⟩ := original_restores input.view hstart
      (e := ⟨s.nextEvent, input.delta, some input.chain⟩) hfresh rfl rfl hlength
    exact ⟨t, ht, hidle, hstarted.trans hprogress, fun _ => hprocessed⟩

/-! ## Runs of original events -/

/-- Nothing is left of a sequence, every entry of the handler found a sequence in order, and every
activation removed what it pushed. -/
structure SequenceRestored (s : Ui V) : Prop where
  sequence : s.sequence = none
  entries : ∀ q, some q ∈ s.entries → q.Paired
  activations : ∀ a ∈ s.activations, a.Balanced

omit [DecidableEq V] in
theorem SequenceRestored.progress {s t : Ui V} (h : SequenceRestored s)
    {view : V → ScrollViewer K} {chain : List V} {delta : Int} {original : Nat}
    (hprogress : Progress view chain delta original s t) (hsequence : t.sequence = none) :
    SequenceRestored t := by
  refine ⟨hsequence, fun q hq => ?_, fun a ha => ?_⟩
  · rcases hprogress.entries _ hq with hold | hok
    · exact h.entries q hold
    · exact hok q rfl
  · rcases hprogress.activations a ha with hold | hok
    · exact h.activations a hold
    · exact hok

/-- Any number of original events is processed. -/
theorem raiseAll_restores (extra : Nat) (inputs : List (WheelInput K V)) {s : Ui V} (h : Idle s)
    (hrestored : SequenceRestored s) :
    ∃ t, raiseAll extra inputs s = .ok t ∧ Idle t ∧ SequenceRestored t := by
  induction inputs generalizing s with
  | nil => exact ⟨s, rfl, h, hrestored⟩
  | cons input inputs ih =>
    obtain ⟨t, ht, hidle, hprogress, -⟩ := raise_restores extra input h
    obtain ⟨u, hu, hidle', hrestored'⟩ := ih hidle (hrestored.progress hprogress hidle.sequence)
    refine ⟨u, ?_, hidle', hrestored'⟩
    rw [raiseAll, ht]
    exact hu

omit [DecidableEq V] in
theorem sequenceRestored_init : SequenceRestored (Ui.init : Ui V) := by
  refine ⟨rfl, fun q hq => ?_, fun a ha => ?_⟩
  · cases hq
  · cases ha

/-- **Termination and restoration**: after any number of original events the next one is processed
as well, the handler returns from all its nested calls, and nothing is left of the sequence. -/
theorem sequence_restored (extra : Nat) (inputs : List (WheelInput K V))
    (input : WheelInput K V) :
    ∃ s t, raiseAll extra inputs .init = .ok s ∧ SequenceRestored s ∧
      input.raise extra s = .ok t ∧ SequenceRestored t ∧ Processed input s.nextEvent t := by
  obtain ⟨s, hs, hidle, hrestored⟩ := raiseAll_restores extra inputs idle_init
    (sequenceRestored_init (V := V))
  obtain ⟨t, ht, hidle', hprogress, hprocessed⟩ := raise_restores extra input hidle
  exact ⟨s, t, hs, hrestored, ht, hrestored.progress hprogress hidle'.sequence, hprocessed⟩

end Handler

end Doreto.Wpf
