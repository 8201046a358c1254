import Mathlib.Logic.Function.Basic
import Doreto.Lib.Run

/-!
# Threads over Shared Memory

A thread runs a program that reads and changes a shared state in single steps, and between two of
them any other thread may take steps of its own. What a thread keeps to itself is in the values
that its program goes on with.

- `Prog`: the program of a thread, a tree that branches over what the next step finds.
- `Prog.solo`: a program that is not interrupted.
- `Pool`: the threads, the calls they are in and what they have shown outside.
- `Pool.step`: an idle thread is called, or a thread takes its next step.

## Main results

- `exec_call`: in a pool, a call that is not interrupted does what `Prog.solo` says.
- `shownBy_along`: what a thread has shown is what its calls have shown, in their order.
-/

namespace Doreto.Lib

/-! ## Programs -/

/-- What a thread has still to do. An action changes the shared state in one step, shows something
outside and goes on with what it has found. -/
inductive Prog (S E R : Type) where
  | done (r : R)
  /-- The process is stopped. -/
  | fault
  | act (update : S → S) (shows : S → List E) (next : S → Prog S E R)

namespace Prog

variable {S E R Q : Type}

protected def bind : Prog S E R → (R → Prog S E Q) → Prog S E Q
  | .done r, k => k r
  | .fault, _ => .fault
  | .act update shows next, k => .act update shows fun s => (next s).bind k

instance : Monad (Prog S E) where
  pure := .done
  bind := Prog.bind

instance : LawfulMonad (Prog S E) :=
  LawfulMonad.mk' _
    (fun p => by
      show p.bind .done = p
      induction p with
      | done r => rfl
      | fault => rfl
      | act update shows next ih => exact congrArg _ (funext ih))
    (fun _ _ => rfl)
    (fun p k k' => by
      show (p.bind k).bind k' = p.bind fun r => (k r).bind k'
      induction p with
      | done r => rfl
      | fault => rfl
      | act update shows next ih => exact congrArg _ (funext ih))

/-- Read from the shared state. -/
def read (f : S → R) : Prog S E R :=
  .act id (fun _ => []) fun s => .done (f s)

/-- Write to the shared state. -/
def write (f : S → S) : Prog S E Unit :=
  .act f (fun _ => []) fun _ => .done ()

/-- Do something that others see outside the shared state. -/
def emit (es : List E) : Prog S E Unit :=
  .act id (fun _ => es) fun _ => .done ()

/-- Read memory of the thread's own through a pointer. -/
def access : Option R → Prog S E R
  | some r => .done r
  | none => .fault

/-- The result of a program that is not interrupted, with the state behind it and what it has
shown. -/
def solo : Prog S E R → S → Option (R × S × List E)
  | .done r, s => some (r, s, [])
  | .fault, _ => none
  | .act update shows next, s =>
      ((next s).solo (update s)).map fun (r, t, es) => (r, t, shows s ++ es)

@[simp] theorem solo_pure (r : R) (s : S) :
    (pure r : Prog S E R).solo s = some (r, s, []) := rfl

@[simp] theorem solo_fault (s : S) : (fault : Prog S E R).solo s = none := rfl

@[simp] theorem solo_read (f : S → R) (s : S) :
    (read f : Prog S E R).solo s = some (f s, s, []) := rfl

@[simp] theorem solo_write (f : S → S) (s : S) :
    (write f : Prog S E Unit).solo s = some ((), f s, []) := rfl

@[simp] theorem solo_emit (es : List E) (s : S) :
    (emit es : Prog S E Unit).solo s = some ((), s, es) := by
  show some ((), s, es ++ []) = _
  rw [List.append_nil]

@[simp] theorem solo_access_some (r : R) (s : S) :
    (access (some r) : Prog S E R).solo s = some (r, s, []) := rfl

@[simp] theorem solo_access_none (s : S) : (access none : Prog S E R).solo s = none := rfl

/-- The second program goes on in the state that the first one leaves. -/
theorem solo_bind (p : Prog S E R) (k : R → Prog S E Q) (s : S) :
    (p >>= k).solo s = (p.solo s).bind fun (r, t, es) =>
      ((k r).solo t).map fun (q, u, es') => (q, u, es ++ es') := by
  show (p.bind k).solo s = _
  induction p generalizing s with
  | done r => simp [Prog.bind, solo]
  | fault => rfl
  | act update shows next ih =>
    simp only [Prog.bind, solo, ih]
    cases (next s).solo (update s) with
    | none => rfl
    | some out => simp [Function.comp_def, List.append_assoc]

theorem solo_map (f : R → Q) (p : Prog S E R) (s : S) :
    (f <$> p).solo s = (p.solo s).map fun (r, t, es) => (f r, t, es) := by
  rw [map_eq_pure_bind, solo_bind]
  cases p.solo s with
  | none => rfl
  | some out => simp

end Prog

/-! ## Pools -/

/-- The call that a thread is in. -/
structure Running (S E R C : Type) where
  call : C
  /-- The shared state when the call began. -/
  since : S
  shown : List E
  rest : Prog S E R

/-- A call that has returned. -/
structure Finished (T S E R C : Type) where
  thread : T
  call : C
  since : S
  shown : List E
  result : R

/-- Threads that share a state. -/
structure Pool (T S E R C : Type) where
  shared : S
  running : T → Option (Running S E R C)
  /-- The calls that have returned, in the order of their returns. -/
  finished : List (Finished T S E R C)
  /-- What the threads have shown, in the order in which they did. -/
  trace : List (T × E)

/-- The programs of the calls, and when a thread may begin one. -/
structure Code (T S E R C : Type) where
  prog : C → Prog S E R
  begins : T → C → S → Bool

/-- An idle thread is called, or a thread takes its next step. -/
inductive Move (T C : Type) where
  | call (t : T) (c : C)
  | go (t : T)

/-- The steps that a thread takes when nobody interrupts it. -/
def goSolo {T C : Type} (t : T) (n : Nat) : List (Move T C) :=
  List.replicate n (.go t)

namespace Pool

variable {T S E R C : Type} [DecidableEq T]

/-- The threads before the first call. -/
def init (s : S) : Pool T S E R C :=
  ⟨s, fun _ => none, [], []⟩

/-- A thread begins a call. -/
def begin (code : Code T S E R C) (σ : Pool T S E R C) (t : T) (c : C) : Pool T S E R C :=
  { σ with running := Function.update σ.running t (some ⟨c, σ.shared, [], code.prog c⟩) }

/-- The call of a thread returns. -/
def finish (σ : Pool T S E R C) (t : T) (r : Running S E R C) (result : R) : Pool T S E R C :=
  { σ with
    running := Function.update σ.running t none
    finished := σ.finished ++ [⟨t, r.call, r.since, r.shown, result⟩] }

/-- A thread takes an action. -/
def advance (σ : Pool T S E R C) (t : T) (r : Running S E R C) (update : S → S)
    (shows : S → List E) (next : S → Prog S E R) : Pool T S E R C :=
  { σ with
    shared := update σ.shared
    running := Function.update σ.running t
      (some { r with shown := r.shown ++ shows σ.shared, rest := next σ.shared })
    trace := σ.trace ++ (shows σ.shared).map (t, ·) }

def step (code : Code T S E R C) (σ : Pool T S E R C) : Move T C → Option (Pool T S E R C)
  | .call t c =>
      match σ.running t with
      | none => if code.begins t c σ.shared then some (σ.begin code t c) else none
      | some _ => none
  | .go t =>
      match σ.running t with
      | none => none
      | some r =>
        match r.rest with
        | .done result => some (σ.finish t r result)
        | .fault => none
        | .act update shows next => some (σ.advance t r update shows next)

/-- The steps of a pool. -/
inductive Transition (code : Code T S E R C) (σ : Pool T S E R C) :
    Move T C → Pool T S E R C → Prop
  | begins {t c} (idle : σ.running t = none) (can : code.begins t c σ.shared = true) :
      Transition code σ (.call t c) (σ.begin code t c)
  | finishes {t r result} (at_ : σ.running t = some r) (rest : r.rest = .done result) :
      Transition code σ (.go t) (σ.finish t r result)
  | acts {t r update shows next} (at_ : σ.running t = some r)
      (rest : r.rest = .act update shows next) :
      Transition code σ (.go t) (σ.advance t r update shows next)

theorem transition_of_step {code : Code T S E R C} {σ σ' : Pool T S E R C} {m : Move T C}
    (h : step code σ m = some σ') : Transition code σ m σ' := by
  cases m with
  | call t c =>
    unfold step at h
    cases at_ : σ.running t with
    | some r => simp [at_] at h
    | none =>
      simp only [at_, Option.ite_none_right_eq_some] at h
      obtain ⟨can, hσ'⟩ := h
      obtain rfl := Option.some.inj hσ'
      exact .begins at_ can
  | go t =>
    unfold step at h
    cases at_ : σ.running t with
    | none => simp [at_] at h
    | some r =>
      simp only [at_] at h
      cases rest : r.rest with
      | done result =>
        simp only [rest] at h
        obtain rfl := Option.some.inj h
        exact .finishes at_ rest
      | fault => simp [rest] at h
      | act update shows next =>
        simp only [rest] at h
        obtain rfl := Option.some.inj h
        exact .acts at_ rest

/-! ## Calls that are not interrupted -/

/-- A thread that nobody interrupts runs the first part of its program. -/
theorem exec_part (code : Code T S E R C) {Q : Type} {p : Prog S E Q} {k : Q → Prog S E R}
    {s' : S} {out : Q} {es : List E} {σ : Pool T S E R C} {t : T} {r : Running S E R C}
    (hsolo : p.solo σ.shared = some (out, s', es)) (at_ : σ.running t = some r)
    (hrest : r.rest = p >>= k) :
    ∃ n τ, exec (step code) σ (goSolo t n) = some τ ∧ τ.shared = s' ∧
      τ.running = Function.update σ.running t
        (some { r with shown := r.shown ++ es, rest := k out }) ∧
      τ.finished = σ.finished ∧ τ.trace = σ.trace ++ es.map (t, ·) := by
  induction p generalizing σ r es with
  | done result =>
    obtain ⟨rfl, rfl, rfl⟩ : result = out ∧ σ.shared = s' ∧ es = [] := by
      simpa [Prog.solo, eq_comm] using hsolo
    have hr : { r with shown := r.shown ++ [], rest := k result } = r := by
      rw [List.append_nil, show k result = r.rest from hrest.symm]
    refine ⟨0, σ, rfl, rfl, ?_, rfl, by simp⟩
    rw [hr, ← at_, Function.update_eq_self]
  | fault => cases hsolo
  | act update shows next ih =>
    obtain ⟨⟨out', u, es'⟩, hnext, heq⟩ := Option.map_eq_some_iff.mp hsolo
    obtain ⟨rfl, rfl, rfl⟩ : out' = out ∧ u = s' ∧ shows σ.shared ++ es' = es := by
      simpa using heq
    have hact : r.rest = .act update shows fun s => next s >>= k := hrest
    have hstep : step code σ (.go t) =
        some (σ.advance t r update shows fun s => next s >>= k) := by
      simp [step, at_, hact]
    obtain ⟨n, τ, hn, hshared, hrunning, hfinished, htrace⟩ := ih σ.shared
      (σ := σ.advance t r update shows fun s => next s >>= k) hnext
      (Function.update_self ..) rfl
    refine ⟨n + 1, τ, ?_, hshared, ?_, hfinished, ?_⟩
    · rw [goSolo, List.replicate_succ, exec, hstep, Option.bind_some]
      exact hn
    · rw [hrunning, advance, Function.update_idem, List.append_assoc]
    · rw [htrace, advance, List.map_append, List.append_assoc]

/-- A thread that nobody interrupts finishes its call. -/
theorem exec_rest (code : Code T S E R C) {s' : S} {out : R} {es : List E} {σ : Pool T S E R C}
    {t : T} {r : Running S E R C} (hsolo : r.rest.solo σ.shared = some (out, s', es))
    (at_ : σ.running t = some r) :
    ∃ n τ, exec (step code) σ (goSolo t n) = some τ ∧ τ.shared = s' ∧
      τ.running = Function.update σ.running t none ∧
      τ.finished = σ.finished ++ [⟨t, r.call, r.since, r.shown ++ es, out⟩] ∧
      τ.trace = σ.trace ++ es.map (t, ·) := by
  obtain ⟨n, τ, hn, hshared, hrunning, hfinished, htrace⟩ :=
    exec_part code (k := pure) hsolo at_ (bind_pure r.rest).symm
  have hat : τ.running t = some { r with shown := r.shown ++ es, rest := .done out } := by
    rw [hrunning, Function.update_self]
    rfl
  refine ⟨n + 1, τ.finish t { r with shown := r.shown ++ es, rest := .done out } out, ?_, hshared,
    ?_, ?_, htrace⟩
  · rw [goSolo, List.replicate_succ', exec_append]
    refine (congrArg (Option.bind · _) hn).trans ?_
    simp [exec, step, hat]
  · rw [finish, hrunning, Function.update_idem]
  · rw [finish, hfinished]

/-- A call begins and runs its first part. -/
theorem exec_begin (code : Code T S E R C) {Q : Type} {p : Prog S E Q} {k : Q → Prog S E R}
    {s' : S} {out : Q} {es : List E} {σ : Pool T S E R C} {t : T} {c : C}
    (hidle : σ.running t = none) (hbegins : code.begins t c σ.shared = true)
    (hprog : code.prog c = p >>= k) (hsolo : p.solo σ.shared = some (out, s', es)) :
    ∃ n τ, exec (step code) σ (.call t c :: goSolo t n) = some τ ∧ τ.shared = s' ∧
      τ.running = Function.update σ.running t (some ⟨c, σ.shared, es, k out⟩) ∧
      τ.finished = σ.finished ∧ τ.trace = σ.trace ++ es.map (t, ·) := by
  have hcall : step code σ (.call t c) = some (σ.begin code t c) := by
    simp [step, hidle, hbegins]
  obtain ⟨n, τ, hn, hshared, hrunning, hfinished, htrace⟩ :=
    exec_part code (σ := σ.begin code t c) hsolo (Function.update_self ..) hprog
  refine ⟨n, τ, ?_, hshared, ?_, hfinished, htrace⟩
  · rw [exec, hcall, Option.bind_some]
    exact hn
  · rw [hrunning, begin, Function.update_idem]
    rfl

/-- A call that nobody interrupts does to the pool what its program does. -/
theorem exec_call (code : Code T S E R C) {s' : S} {out : R} {es : List E} {σ : Pool T S E R C}
    {t : T} {c : C} (hidle : σ.running t = none) (hbegins : code.begins t c σ.shared = true)
    (hsolo : (code.prog c).solo σ.shared = some (out, s', es)) :
    ∃ n τ, exec (step code) σ (.call t c :: goSolo t n) = some τ ∧ τ.shared = s' ∧
      τ.running = σ.running ∧ τ.finished = σ.finished ++ [⟨t, c, σ.shared, es, out⟩] ∧
      τ.trace = σ.trace ++ es.map (t, ·) := by
  have hcall : step code σ (.call t c) = some (σ.begin code t c) := by
    simp [step, hidle, hbegins]
  obtain ⟨n, τ, hn, hshared, hrunning, hfinished, htrace⟩ :=
    exec_rest code (σ := σ.begin code t c) hsolo (Function.update_self ..)
  refine ⟨n, τ, ?_, hshared, ?_, hfinished, htrace⟩
  · rw [exec, hcall, Option.bind_some]
    exact hn
  · rw [hrunning, begin, Function.update_idem, ← hidle, Function.update_eq_self]

/-! ## What a thread has shown -/

/-- What the pool has seen of a thread. -/
def shownBy (t : T) (σ : Pool T S E R C) : List E :=
  σ.trace.filterMap fun x => if x.1 = t then some x.2 else none

/-- The calls of a thread that have returned. -/
def returned (t : T) (σ : Pool T S E R C) : List (Finished T S E R C) :=
  σ.finished.filter fun f => f.thread = t

/-- What the call that a thread is in has shown so far. -/
def showing (t : T) (σ : Pool T S E R C) : List E :=
  ((σ.running t).map Running.shown).getD []

/-- What a thread has shown is what its calls have shown, one behind the other. -/
def CallsInOrder (t : T) (σ : Pool T S E R C) : Prop :=
  σ.shownBy t = (σ.returned t).flatMap Finished.shown ++ σ.showing t

theorem callsInOrder_init (t : T) (s : S) : CallsInOrder t (init s : Pool T S E R C) := rfl

theorem filterMap_own (t u : T) (es : List E) :
    (es.map fun e => (t, e)).filterMap (fun x => if x.1 = u then some x.2 else none) =
      if t = u then es else [] := by
  by_cases htu : t = u
  · simp [List.filterMap_map, htu]
  · simp [List.filterMap_map, htu]

theorem callsInOrder_step {code : Code T S E R C} {σ σ' : Pool T S E R C} {m : Move T C} (u : T)
    (hI : CallsInOrder u σ) (h : Transition code σ m σ') : CallsInOrder u σ' := by
  unfold CallsInOrder at hI ⊢
  cases h with
  | @begins t c idle can =>
    by_cases htu : u = t
    · subst htu
      simpa [shownBy, returned, showing, begin, idle] using hI
    · simpa [shownBy, returned, showing, begin, Function.update_of_ne htu] using hI
  | @finishes t r result at_ rest =>
    by_cases htu : u = t
    · subst htu
      simpa [shownBy, returned, showing, finish, at_, List.filter_append] using hI
    · have hne : ¬ t = u := fun h => htu h.symm
      simpa [shownBy, returned, showing, finish, Function.update_of_ne htu, List.filter_append,
        hne] using hI
  | @acts t r update shows next at_ rest =>
    by_cases htu : u = t
    · subst htu
      simp only [shownBy, returned, showing, advance, List.filterMap_append, filterMap_own,
        if_true, Function.update_self, Option.map_some, Option.getD_some] at hI ⊢
      rw [hI, at_]
      simp [List.append_assoc]
    · have hne : ¬ t = u := fun h => htu h.symm
      simpa [shownBy, returned, showing, advance, List.filterMap_append, filterMap_own, hne,
        Function.update_of_ne htu] using hI

theorem shownBy_along {code : Code T S E R C} {s : S} {moves : List (Move T C)}
    {σ : Pool T S E R C} (h : exec (step code) (init s) moves = some σ) (t : T) :
    σ.shownBy t = (σ.returned t).flatMap Finished.shown ++ σ.showing t :=
  exec_invariant (I := CallsInOrder t)
    (fun _ _ _ hI hstep => callsInOrder_step t hI (transition_of_step hstep)) h
    (callsInOrder_init t s)

end Pool

end Doreto.Lib
