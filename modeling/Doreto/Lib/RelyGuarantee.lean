import Mathlib.Logic.Relation
import Doreto.Lib.Threads

/-!
# Rely and Guarantee

A discipline says what a step of each thread may do to the shared state. A program meets it when
each of its own steps is one that its thread may take, whatever the other threads have done before
within the discipline. When all calls meet the discipline, every run of the pool keeps to it, no
thread is ever stopped, and every call returns as its specification says.

- `Discipline`: an invariant of the shared state and the steps that threads may take.
- `Discipline.Meets`: a program keeps to the discipline, from a state on, and returns as specified.
- `Meets.bind`, `meets_read`, `meets_write`, `meets_emit`: the rules for programs.

## Main results

- `Sound.step`: the rule for pools.
- `Sound.run`: the same for a whole run.
-/

namespace Doreto.Lib

open Relation

/-- What the threads agree on. -/
structure Discipline (T S : Type) where
  inv : S → Prop
  /-- A step that a thread may take. -/
  may : T → S → S → Prop
  keeps : ∀ {t s s'}, inv s → may t s s' → inv s'
  /-- A thread may leave the state as it is. -/
  idle : ∀ {t s}, may t s s

namespace Discipline

variable {T S E R Q C : Type}

section Programs

variable (D : Discipline T S) (t : T)

/-- A step of another thread. -/
def Other (s s' : S) : Prop :=
  ∃ u, u ≠ t ∧ D.may u s s'

/-- The other threads have taken any number of steps. -/
def Others : S → S → Prop :=
  ReflTransGen (D.Other t)

/-- From this state on, whatever the others do between its steps, the program takes steps that its
thread may take, is not stopped, and returns with the specification. What it has shown before is
given. -/
def Meets (spec : List E → R → S → Prop) : List E → Prog S E R → S → Prop
  | es, .done r, s => ∀ s', D.inv s' → D.Others t s s' → spec es r s'
  | _, .fault, _ => False
  | es, .act update shows next, s => ∀ s', D.inv s' → D.Others t s s' →
      D.may t s' (update s') ∧ Meets spec (es ++ shows s') (next s') (update s')

/-- A property of the shared state that no step of a thread takes away. -/
def Stable (P : S → Prop) : Prop :=
  ∀ u s s', D.inv s → D.may u s s' → P s → P s'

end Programs

variable {D : Discipline T S} {t : T} {spec : List E → R → S → Prop}

theorem inv_of_others {s s' : S} (h : D.Others t s s') (hs : D.inv s) : D.inv s' := by
  induction h with
  | refl => exact hs
  | tail _ hstep ih =>
    obtain ⟨u, -, hmay⟩ := hstep
    exact D.keeps ih hmay

/-- What no step of another thread takes away, the other threads leave alone. -/
theorem others_keep {P : S → Prop} (hP : ∀ s s', D.inv s → D.Other t s s' → P s → P s')
    {s s' : S} (h : D.Others t s s') (hinv : D.inv s) (hs : P s) : P s' := by
  induction h with
  | refl => exact hs
  | tail hsteps hstep ih => exact hP _ _ (inv_of_others hsteps hinv) hstep ih

theorem Stable.others {P : S → Prop} (hP : D.Stable P) {s s' : S} (h : D.Others t s s')
    (hinv : D.inv s) (hs : P s) : P s' :=
  others_keep (fun s s' hs ⟨u, _, hmay⟩ => hP u s s' hs hmay) h hinv hs

/-- A step of another thread takes nothing away. -/
theorem Meets.other {es : List E} {p : Prog S E R} {s s' : S} (h : D.Meets t spec es p s)
    (hother : D.Other t s s') : D.Meets t spec es p s' := by
  cases p with
  | done r => exact fun u hu hothers => h u hu (hothers.head hother)
  | fault => exact h
  | act update shows next => exact fun u hu hothers => h u hu (hothers.head hother)

theorem Meets.mono {spec' : List E → R → S → Prop} {es : List E} {p : Prog S E R} {s : S}
    (h : D.Meets t spec es p s) (himp : ∀ es r s, D.inv s → spec es r s → spec' es r s) :
    D.Meets t spec' es p s := by
  induction p generalizing es s with
  | done r => exact fun s' hs' hothers => himp _ _ _ hs' (h s' hs' hothers)
  | fault => exact h
  | act update shows next ih =>
    intro s' hs' hothers
    obtain ⟨hmay, hnext⟩ := h s' hs' hothers
    exact ⟨hmay, ih s' hnext⟩

/-- What no step of any thread takes away still holds when the program returns. -/
theorem Meets.frame {es : List E} {p : Prog S E R} {s : S} (h : D.Meets t spec es p s)
    {Q : S → Prop} (hQ : D.Stable Q) (hinv : D.inv s) (hs : Q s) :
    D.Meets t (fun es r s => spec es r s ∧ Q s) es p s := by
  induction p generalizing es s with
  | done r =>
    exact fun s' hs' hothers => ⟨h s' hs' hothers, hQ.others hothers hinv hs⟩
  | fault => exact h
  | act update shows next ih =>
    intro s' hs' hothers
    obtain ⟨hmay, hnext⟩ := h s' hs' hothers
    have hs'' : Q (update s') := hQ t _ _ hs' hmay (hQ.others hothers hinv hs)
    exact ⟨hmay, ih s' hnext (D.keeps hs' hmay) hs''⟩

/-! ## Rules for programs -/

theorem meets_pure {es : List E} {r : R} {s : S}
    (h : ∀ s', D.inv s' → D.Others t s s' → spec es r s') :
    D.Meets t spec es (pure r) s := h

/-- The second program meets the discipline wherever the first one may leave the state. -/
theorem Meets.bind {mid : List E → R → S → Prop} {spec : List E → Q → S → Prop} {es : List E}
    {p : Prog S E R} {k : R → Prog S E Q} {s : S} (h : D.Meets t mid es p s) (hinv : D.inv s)
    (hk : ∀ es r s, D.inv s → mid es r s → D.Meets t spec es (k r) s) :
    D.Meets t spec es (p >>= k) s := by
  show D.Meets t spec es (p.bind k) s
  induction p generalizing es s with
  | done r => exact hk es r s hinv (h s hinv .refl)
  | fault => exact h
  | act update shows next ih =>
    intro s' hs' hothers
    obtain ⟨hmay, hnext⟩ := h s' hs' hothers
    exact ⟨hmay, ih s' hnext (D.keeps hs' hmay)⟩

/-- A read, and what follows it. -/
theorem meets_read {spec : List E → Q → S → Prop} {f : S → R} {k : R → Prog S E Q} {es : List E}
    {s : S} (h : ∀ s', D.inv s' → D.Others t s s' → D.Meets t spec es (k (f s')) s') :
    D.Meets t spec es (Prog.read f >>= k) s := by
  intro s' hs' hothers
  refine ⟨D.idle, ?_⟩
  rw [List.append_nil]
  exact h s' hs' hothers

/-- A write, and what follows it. -/
theorem meets_write {spec : List E → Q → S → Prop} {f : S → S} {k : Unit → Prog S E Q}
    {es : List E} {s : S} (h : ∀ s', D.inv s' → D.Others t s s' →
      D.may t s' (f s') ∧ D.Meets t spec es (k ()) (f s')) :
    D.Meets t spec es (Prog.write f >>= k) s := by
  intro s' hs' hothers
  obtain ⟨hmay, hnext⟩ := h s' hs' hothers
  refine ⟨hmay, ?_⟩
  rw [List.append_nil]
  exact hnext

/-- Something is shown, and what follows it. -/
theorem meets_emit {spec : List E → Q → S → Prop} {es' : List E} {k : Unit → Prog S E Q}
    {es : List E} {s : S} (h : ∀ s', D.inv s' → D.Others t s s' →
      D.Meets t spec (es ++ es') (k ()) s') :
    D.Meets t spec es (Prog.emit es' >>= k) s :=
  fun s' hs' hothers => ⟨D.idle, h s' hs' hothers⟩

/-- Memory of the thread's own that is there. -/
theorem meets_access {spec : List E → Q → S → Prop} {r : R} {k : R → Prog S E Q} {es : List E}
    {s : S} (h : D.Meets t spec es (k r) s) :
    D.Meets t spec es (Prog.access (some r) >>= k) s := h

/-! ## The rule for pools -/

/-- What a thread's call returns, given the state in which it began. -/
abbrev Spec (T S E R C : Type) := T → C → S → List E → R → S → Prop

/-- All threads keep to the discipline and to their specifications. -/
structure Sound (D : Discipline T S) (spec : Spec T S E R C) (σ : Pool T S E R C) : Prop where
  inv : D.inv σ.shared
  running : ∀ t r, σ.running t = some r →
    D.Meets t (spec t r.call r.since) r.shown r.rest σ.shared
  finished : ∀ f ∈ σ.finished, spec f.thread f.call f.since f.shown f.result σ.shared

theorem sound_init {spec : Spec T S E R C} {s : S} (h : D.inv s) : Sound D spec (.init s) :=
  ⟨h, by simp [Pool.init], by simp [Pool.init]⟩

/-- No step of a thread takes the specification of a call that has returned away. -/
def StableSpec (D : Discipline T S) (spec : Spec T S E R C) : Prop :=
  ∀ t c s₀ es r, D.Stable (spec t c s₀ es r)

/-- In every state that the discipline allows, the call's program meets it. -/
def Admits (D : Discipline T S) (spec : Spec T S E R C) (code : Code T S E R C) (t : T) (c : C) :
    Prop :=
  ∀ s, D.inv s → code.begins t c s = true → D.Meets t (spec t c s) [] (code.prog c) s

/-- The thread that takes a step is in what it goes on with, any other one is where it was. -/
theorem eq_or_ne_of_update [DecidableEq T] {f : T → Option Q} {t u : T} {now : Option Q} {r : Q}
    (h : Function.update f t now u = some r) : u = t ∧ now = some r ∨ u ≠ t ∧ f u = some r := by
  by_cases hut : u = t
  · subst hut
    rw [Function.update_self] at h
    exact .inl ⟨rfl, h⟩
  · rw [Function.update_of_ne hut] at h
    exact .inr ⟨hut, h⟩

/-- The other threads go on as they were when one of them takes a step. -/
theorem Sound.running_update [DecidableEq T] {spec : Spec T S E R C} {σ : Pool T S E R C}
    (hI : Sound D spec σ) {t : T} {s' : S} (hmay : D.may t σ.shared s')
    {now : Option (Running S E R C)}
    (hnow : ∀ r, now = some r → D.Meets t (spec t r.call r.since) r.shown r.rest s') :
    ∀ u r, Function.update σ.running t now u = some r →
      D.Meets u (spec u r.call r.since) r.shown r.rest s' := by
  intro u r hr
  rcases eq_or_ne_of_update hr with ⟨rfl, hnew⟩ | ⟨hut, hold⟩
  · exact hnow r hnew
  · exact (hI.running u r hold).other ⟨t, fun h => hut h.symm, hmay⟩

/-- Every step keeps all threads to the discipline when calls that meet it are begun. -/
theorem Sound.step [DecidableEq T] {spec : Spec T S E R C} {code : Code T S E R C}
    {σ σ' : Pool T S E R C} {m : Move T C} (hspec : StableSpec D spec) (hI : Sound D spec σ)
    (hcalls : ∀ t c, m = .call t c → Admits D spec code t c)
    (h : Pool.Transition code σ m σ') : Sound D spec σ' := by
  cases h with
  | @begins t c idle can =>
    refine ⟨hI.inv, hI.running_update D.idle ?_, hI.finished⟩
    intro r hr
    obtain rfl := Option.some.inj hr
    exact hcalls t c rfl σ.shared hI.inv can
  | @finishes t r result at_ rest =>
    refine ⟨hI.inv, hI.running_update D.idle (by simp), ?_⟩
    intro f hf
    rcases List.mem_append.mp hf with hold | hnew
    · exact hI.finished f hold
    · obtain rfl := List.mem_singleton.mp hnew
      have hmeets := hI.running t r at_
      rw [rest] at hmeets
      exact hmeets σ.shared hI.inv .refl
  | @acts t r update shows next at_ rest =>
    have hmeets := hI.running t r at_
    rw [rest] at hmeets
    obtain ⟨hmay, hnext⟩ := hmeets σ.shared hI.inv .refl
    refine ⟨D.keeps hI.inv hmay, hI.running_update hmay ?_, ?_⟩
    · intro r' hr'
      obtain rfl := Option.some.inj hr'
      exact hnext
    · intro f hf
      exact hspec _ _ _ _ _ t _ _ hI.inv hmay (hI.finished f hf)

/-- A run in which every call that is begun meets the discipline, and what the steps of such a run
keep. -/
theorem Sound.run_keeps [DecidableEq T] {spec : Spec T S E R C} {code : Code T S E R C}
    (hspec : StableSpec D spec) {K : Pool T S E R C → Prop}
    (hK : ∀ σ σ' m, Sound D spec σ → Pool.Transition code σ m σ' → K σ → K σ')
    {σ σ' : Pool T S E R C} {moves : List (Move T C)} (hI : Sound D spec σ) (hσ : K σ)
    (hcalls : ∀ t c, .call t c ∈ moves → Admits D spec code t c)
    (h : exec (Pool.step code) σ moves = some σ') : Sound D spec σ' ∧ K σ' := by
  induction moves generalizing σ with
  | nil =>
    obtain rfl := Option.some.inj h
    exact ⟨hI, hσ⟩
  | cons m moves ih =>
    obtain ⟨τ, hτ, hrest⟩ := Option.bind_eq_some_iff.mp h
    have hstep := Pool.transition_of_step hτ
    apply ih _ (hK σ τ m hI hstep hσ) (fun t c hc => hcalls t c (List.mem_cons_of_mem m hc)) hrest
    apply hI.step hspec _ hstep
    intro t c hm
    apply hcalls t c
    rw [hm]
    exact List.mem_cons_self

theorem Sound.run [DecidableEq T] {spec : Spec T S E R C} {code : Code T S E R C}
    (hspec : StableSpec D spec) {σ σ' : Pool T S E R C} {moves : List (Move T C)}
    (hI : Sound D spec σ) (hcalls : ∀ t c, .call t c ∈ moves → Admits D spec code t c)
    (h : exec (Pool.step code) σ moves = some σ') : Sound D spec σ' :=
  (Sound.run_keeps (K := fun _ => True) hspec (fun _ _ _ _ _ _ => trivial) hI trivial hcalls h).1

/-- No thread is ever stopped. -/
theorem Sound.goes_on [DecidableEq T] {spec : Spec T S E R C} {code : Code T S E R C}
    {σ : Pool T S E R C} (hI : Sound D spec σ) {t : T} {r : Running S E R C}
    (at_ : σ.running t = some r) : (Pool.step code σ (.go t)).isSome = true := by
  have hmeets := hI.running t r at_
  cases rest : r.rest with
  | done result => simp [Pool.step, at_, rest]
  | fault =>
    rw [rest] at hmeets
    exact hmeets.elim
  | act update shows next => simp [Pool.step, at_, rest]

/-! ## Calls that begin later -/

/-- Something holds now, and did so when each call of a thread began that is not among the first
`n` that have returned. -/
structure SinceThen (J : S → Prop) (t : T) (n : Nat) (σ : Pool T S E R C) : Prop where
  now : J σ.shared
  running : ∀ r, σ.running t = some r → J r.since
  earlier : n ≤ σ.finished.length
  finished : ∀ f ∈ σ.finished.drop n, f.thread = t → J f.since

theorem sinceThen_idle {J : S → Prop} {t : T} {σ : Pool T S E R C} (h : J σ.shared)
    (hidle : σ.running t = none) : SinceThen J t σ.finished.length σ :=
  ⟨h, by simp [hidle], Nat.le_refl _, by simp⟩

/-- What no step takes away holds whenever a later call begins. -/
theorem SinceThen.step [DecidableEq T] {J : S → Prop} (hJ : D.Stable J) {spec : Spec T S E R C}
    {code : Code T S E R C} {σ σ' : Pool T S E R C} {m : Move T C} (hI : Sound D spec σ) {u : T}
    {n : Nat} (hσ : SinceThen J u n σ) (h : Pool.Transition code σ m σ') : SinceThen J u n σ' := by
  cases h with
  | @begins t c idle can =>
    refine ⟨hσ.now, fun r hr => ?_, hσ.earlier, hσ.finished⟩
    rcases eq_or_ne_of_update hr with ⟨-, hnew⟩ | ⟨-, hold⟩
    · obtain rfl := Option.some.inj hnew
      exact hσ.now
    · exact hσ.running r hold
  | @finishes t r result at_ rest =>
    refine ⟨hσ.now, fun r' hr' => ?_, ?_, fun f hf hthread => ?_⟩
    · rcases eq_or_ne_of_update hr' with ⟨-, hnew⟩ | ⟨-, hold⟩
      · cases hnew
      · exact hσ.running r' hold
    · show n ≤ (σ.finished ++ [_]).length
      rw [List.length_append]
      exact Nat.le_add_right_of_le hσ.earlier
    · have hf' : f ∈ (σ.finished ++
          [(⟨t, r.call, r.since, r.shown, result⟩ : Finished T S E R C)]).drop n := hf
      rw [List.drop_append_of_le_length hσ.earlier] at hf'
      rcases List.mem_append.mp hf' with hold | hnew
      · exact hσ.finished f hold hthread
      · obtain rfl := List.mem_singleton.mp hnew
        obtain rfl : t = u := hthread
        exact hσ.running r at_
  | @acts t r update shows next at_ rest =>
    have hmeets := hI.running t r at_
    rw [rest] at hmeets
    have hmay := (hmeets σ.shared hI.inv .refl).1
    refine ⟨hJ t _ _ hI.inv hmay hσ.now, fun r' hr' => ?_, hσ.earlier, hσ.finished⟩
    rcases eq_or_ne_of_update hr' with ⟨rfl, hnew⟩ | ⟨-, hold⟩
    · obtain rfl := Option.some.inj hnew
      exact hσ.running r at_
    · exact hσ.running r' hold

end Discipline

end Doreto.Lib
