import Doreto.Native.LoadedProcess

/-!
# Waiting for a Process

`CharacterRegistrator.WaitForProcessToSpawn` looks at the running processes with every tick of a
timer, until one of them has the arguments in its command line. The condition of its loop awaits
the next tick before it looks at what was found, so that a process is returned one tick after it was
found.

## Main results

- `search_loaded`: a search among processes that are loaded or cannot be read finds the first one
  whose command line contains the arguments.
- `left_iff`: the loop is left behind ticks at which nothing was found, with one of the endings. A
  process that is returned is the first one found, and the next tick was awaited without being
  cancelled.
- `search_keeps`: no run of the loop leaves a handle open, and none dereferences `null`.
-/

namespace Doreto.DofusClient

open Doreto.Lib Doreto.Native

/-! ## The search -/

/-- A running process, with the answers of the system about it. -/
structure Process where
  id : Nat
  answers : Answers

/-- What the caller looks for: processes that have the arguments, or any when it gives none.
`Contains` with `InvariantCultureIgnoreCase` is a parameter. -/
structure Request where
  contains : List UInt16 → List UInt16 → Bool
  processHavingArguments : Option (List UInt16)

/-- `string.IsNullOrEmpty`. -/
def isNullOrEmpty (text : Option (List UInt16)) : Bool :=
  text.all List.isEmpty

/-- The condition of `Where`. -/
def hasArguments (contains : List UInt16 → Bool) (p : Process) : Code Bool := do
  let (result, processArguments) ← retrieve p.answers
  if result = 0 then
    match processArguments with
    | some text => return contains text
    | none => Guarded.throw .nullReference
  else
    return false

/-- `processes.Where(...).ToArray()`. -/
def whereArguments (contains : List UInt16 → Bool) : List Process → Code (List Process)
  | [] => return []
  | p :: processes => do
      let keep ← hasArguments contains p
      let rest ← whereArguments contains processes
      return if keep then p :: rest else rest

/-- The body of the loop, for the processes of that name. -/
def lookForProcess (r : Request) (processes : List Process) : Code (Option Process) := do
  if isNullOrEmpty r.processHavingArguments then
    return processes.head?
  else
    let processes ← whereArguments
      (fun text => r.contains text (r.processHavingArguments.getD [])) processes
    return processes.head?

/-! ## The loop -/

/-- How an await of the timer ends. -/
inductive Event where
  /-- The timer ticks. `Process.GetProcessesByName` then gives these processes. -/
  | tick (processes : List Process)
  /-- The token is cancelled. -/
  | cancelled

/-- What the loop may throw. -/
inductive WaitExn where
  | operationCanceled
  /-- Thrown by its body. -/
  | body (e : Exn)
  deriving DecidableEq, Repr

/-- Where the loop is. -/
inductive Phase where
  /-- It awaits the timer, with this `output`. -/
  | waiting (output : Option Process)
  | left (exit : Exit WaitExn Process)

/-- The state of the loop, with the entries that its searches made in the ledger. -/
structure Wait where
  ledger : List (LedgerEntry Resource)
  phase : Phase

/-- `WaitForProcessToSpawn` when it is called. -/
def Wait.start : Wait := ⟨[], .waiting none⟩

/-- What the body of the loop makes of its phase. -/
def Phase.ofBody : Exit Exn (Option Process) → Phase
  | .returned output => .waiting output
  | .threw e => .left (.threw (.body e))
  | .died => .left .died

/-- An await of the timer ends. The tick comes first in the condition of the loop and `output`
second. -/
def step (r : Request) (w : Wait) (event : Event) : Option Wait :=
  match w.phase, event with
  | .waiting _, .cancelled => some { w with phase := .left (.threw .operationCanceled) }
  | .waiting none, .tick processes =>
      some ⟨w.ledger ++ (lookForProcess r processes).ledger,
        .ofBody (lookForProcess r processes).exit⟩
  | .waiting (some output), .tick _ => some { w with phase := .left (.returned output) }
  | .left _, _ => none

/-! ## What a search finds -/

/-- The process is loaded with a command line that contains the arguments. -/
def Process.Has (contains : List UInt16 → Bool) (p : Process) : Prop :=
  ∃ loaded : LoadedProcess p.answers.pointerSize,
    Shows p.answers loaded ∧ contains loaded.text = true

/-- The process is loaded, or a step of `Retrieve` fails for it. -/
def Process.Settled (p : Process) : Prop :=
  (∀ allocation, p.answers.outOfMemory allocation = false) ∧
    (p.answers.firstFailure ≠ none ∨
      ∃ loaded : LoadedProcess p.answers.pointerSize, Shows p.answers loaded)

/-- `Retrieve` reads a command line that contains the arguments. -/
def Process.has (contains : List UInt16 → Bool) (p : Process) : Bool :=
  p.answers.firstFailure.isNone && contains (cBody 0 (wchars p.answers.textRead.bytes))

theorem Process.has_iff {contains : List UInt16 → Bool} {p : Process} (h : p.Settled) :
    p.has contains = true ↔ p.Has contains := by
  constructor
  · intro hhas
    obtain ⟨hfirst, hcontains⟩ : p.answers.firstFailure = none ∧ _ := by
      simpa [Process.has] using hhas
    obtain ⟨loaded, hshows⟩ := h.2.resolve_left (by simp [hfirst])
    exact ⟨loaded, hshows, hshows.text_eq.2 ▸ hcontains⟩
  · rintro ⟨loaded, hshows, hcontains⟩
    simp [Process.has, hshows.firstFailure_eq, hshows.text_eq.2, hcontains]

theorem hasArguments_exit {contains : List UInt16 → Bool} {p : Process} (h : p.Settled) :
    (hasArguments contains p).exit = .returned (p.has contains) := by
  obtain ⟨hmemory, hsettled⟩ := h
  have hretrieve := retrieve_exit hmemory
  cases hfirst : p.answers.firstFailure with
  | some s =>
    rw [Answers.outcome_of_fails hfirst] at hretrieve
    simp [hasArguments, hretrieve, s.code_ne_zero, Process.has, hfirst]
  | none =>
    obtain ⟨loaded, hshows⟩ := hsettled.resolve_left (by simp [hfirst])
    rw [Answers.outcome_of_succeeds hfirst, scan_memCL hshows.text_eq.1] at hretrieve
    simp [hasArguments, hretrieve, Process.has, hfirst]

theorem whereArguments_exit {contains : List UInt16 → Bool} {processes : List Process}
    (h : ∀ p ∈ processes, p.Settled) :
    (whereArguments contains processes).exit =
      .returned (processes.filter (Process.has contains)) := by
  induction processes with
  | nil => rfl
  | cons p processes ih =>
    rw [List.forall_mem_cons] at h
    rw [whereArguments, Guarded.exit_bind, hasArguments_exit h.1, Exit.andThen_returned,
      Guarded.exit_bind, ih h.2, Exit.andThen_returned, List.filter_cons, Guarded.exit_pure]

/-- Among processes that are loaded or cannot be read, the search finds the first one whose command
line contains the arguments, and none when there is no such process. -/
theorem search_loaded (r : Request) (arguments : List UInt16) (processes : List Process)
    (harguments : r.processHavingArguments = some arguments) (hne : arguments ≠ [])
    (h : ∀ p ∈ processes, p.Settled) :
    ∃ found, (lookForProcess r processes).exit = .returned found ∧
      ∀ p, found = some p ↔ ∃ before behind, processes = before ++ p :: behind ∧
        p.Has (fun text => r.contains text arguments) ∧
        ∀ q ∈ before, ¬ q.Has fun text => r.contains text arguments := by
  have hempty : isNullOrEmpty r.processHavingArguments = false := by
    rw [harguments]
    simpa [isNullOrEmpty] using hne
  have hexit : (lookForProcess r processes).exit = .returned
      (processes.find? (Process.has fun text => r.contains text arguments)) := by
    unfold lookForProcess
    rw [if_neg (by simp [hempty]), Guarded.exit_bind, whereArguments_exit h, Exit.andThen_returned,
      harguments]
    simp [List.head?_filter]
  refine ⟨_, hexit, fun p => ?_⟩
  rw [List.find?_eq_some_iff_append]
  constructor
  · rintro ⟨hp, before, behind, hsplit, hbefore⟩
    refine ⟨before, behind, hsplit, (Process.has_iff (h p (by simp [hsplit]))).mp hp, ?_⟩
    intro q hq hhas
    have hq' := (Process.has_iff (h q (by simp [hsplit, hq]))).mpr hhas
    simpa [hq'] using hbefore q hq
  · rintro ⟨before, behind, hsplit, hp, hbefore⟩
    refine ⟨(Process.has_iff (h p (by simp [hsplit]))).mpr hp, before, behind, hsplit, ?_⟩
    intro q hq
    have hq' : q.has (fun text => r.contains text arguments) ≠ true := fun hhas =>
      hbefore q hq ((Process.has_iff (h q (by simp [hsplit, hq]))).mp hhas)
    simpa using hq'

/-- The caller looks for `a`, letter by letter. -/
def lookForA : Request where
  contains text arguments := (strstr arguments text).isSome
  processHavingArguments := some [97]

/-- A process that cannot be opened in front of one that was started as `a`. -/
def twoProcesses : List Process :=
  [⟨1, { startedAnswers with processOpened := false }⟩, ⟨2, startedAnswers⟩]

theorem twoProcesses_settled : ∀ p ∈ twoProcesses, p.Settled := by
  rw [twoProcesses, List.forall_mem_cons, List.forall_mem_singleton]
  constructor
  · refine ⟨fun _ => rfl, .inl ?_⟩
    simp [Answers.firstFailure, Step.all, Answers.succeeds]
  · exact ⟨fun _ => rfl, .inr ⟨startedProcess, startedAnswers_shows⟩⟩

theorem second_process_found :
    ∃ found, (lookForProcess lookForA twoProcesses).exit = .returned found ∧
      ∀ p, found = some p ↔ ∃ before behind, twoProcesses = before ++ p :: behind ∧
        p.Has (fun text => lookForA.contains text [97]) ∧
        ∀ q ∈ before, ¬ q.Has fun text => lookForA.contains text [97] :=
  search_loaded lookForA [97] twoProcesses rfl (by decide) twoProcesses_settled

/-! ## The runs of the loop -/

/-- How the loop ends, behind the ticks at which it found nothing. -/
inductive Ending (r : Request) : List Event → Exit WaitExn Process → Prop where
  /-- What is found is returned with the next tick. -/
  | spawned {found last : List Process} {p : Process}
      (h : (lookForProcess r found).exit = .returned (some p)) :
      Ending r [.tick found, .tick last] (.returned p)
  /-- What is found is lost when the token is cancelled before the next tick. -/
  | lost {found : List Process} {p : Process}
      (h : (lookForProcess r found).exit = .returned (some p)) :
      Ending r [.tick found, .cancelled] (.threw .operationCanceled)
  | cancelled : Ending r [.cancelled] (.threw .operationCanceled)
  | threw {processes : List Process} {e : Exn} (h : (lookForProcess r processes).exit = .threw e) :
      Ending r [.tick processes] (.threw (.body e))
  | died {processes : List Process} (h : (lookForProcess r processes).exit = .died) :
      Ending r [.tick processes] .died

/-- An event with which the loop is left is the last one. -/
theorem exec_of_left {r : Request} {w : Wait} {event : Event} {events : List Event}
    {exit exit' : Exit WaitExn Process}
    (hleft : (step r w event).map Wait.phase = some (.left exit))
    (h : (exec (step r) w (event :: events)).map Wait.phase = some (.left exit')) :
    events = [] ∧ exit = exit' := by
  obtain ⟨w', hstep, hphase⟩ := Option.map_eq_some_iff.mp hleft
  rw [exec, hstep, Option.bind_some] at h
  cases events with
  | nil =>
    rw [exec, Option.map_some, hphase] at h
    exact ⟨rfl, Phase.left.inj (Option.some.inj h)⟩
  | cons event events => simp [exec, step, hphase] at h

/-- A tick at which nothing is found goes back to the await. -/
theorem exec_tick_none (r : Request) (ledger : List (LedgerEntry Resource))
    {processes : List Process} (h : (lookForProcess r processes).exit = .returned none)
    (events : List Event) :
    exec (step r) ⟨ledger, .waiting none⟩ (.tick processes :: events) =
      exec (step r) ⟨ledger ++ (lookForProcess r processes).ledger, .waiting none⟩ events := by
  simp [exec, step, h, Phase.ofBody]

/-- The runs that go through an ending. -/
theorem exec_ending {r : Request} {events : List Event} {exit : Exit WaitExn Process}
    (h : Ending r events exit) (ledger : List (LedgerEntry Resource)) :
    (exec (step r) ⟨ledger, .waiting none⟩ events).map Wait.phase = some (.left exit) := by
  cases h with
  | spawned h => simp [exec, step, h, Phase.ofBody]
  | lost h => simp [exec, step, h, Phase.ofBody]
  | cancelled => rfl
  | threw h => simp [exec, step, h, Phase.ofBody]
  | died h => simp [exec, step, h, Phase.ofBody]

theorem ending_of_exec {r : Request} {events : List Event} {exit : Exit WaitExn Process}
    {ledger : List (LedgerEntry Resource)}
    (h : (exec (step r) ⟨ledger, .waiting none⟩ events).map Wait.phase = some (.left exit)) :
    ∃ idle ending, events = List.map Event.tick idle ++ ending ∧
      (∀ processes ∈ idle, (lookForProcess r processes).exit = .returned none) ∧
      Ending r ending exit := by
  induction events generalizing ledger with
  | nil => simp [exec] at h
  | cons event events ih =>
    cases event with
    | cancelled =>
      obtain ⟨rfl, rfl⟩ := exec_of_left rfl h
      exact ⟨[], _, rfl, by simp, .cancelled⟩
    | tick processes =>
      cases hbody : (lookForProcess r processes).exit with
      | threw e =>
        have hleft : (step r ⟨ledger, .waiting none⟩ (.tick processes)).map Wait.phase =
            some (.left (.threw (.body e))) := by simp [step, hbody, Phase.ofBody]
        obtain ⟨rfl, rfl⟩ := exec_of_left hleft h
        exact ⟨[], _, rfl, by simp, .threw hbody⟩
      | died =>
        have hleft : (step r ⟨ledger, .waiting none⟩ (.tick processes)).map Wait.phase =
            some (.left .died) := by simp [step, hbody, Phase.ofBody]
        obtain ⟨rfl, rfl⟩ := exec_of_left hleft h
        exact ⟨[], _, rfl, by simp, .died hbody⟩
      | returned output =>
        cases output with
        | none =>
          rw [exec_tick_none r ledger hbody] at h
          obtain ⟨idle, ending, rfl, hidle, hending⟩ := ih h
          refine ⟨processes :: idle, ending, rfl, ?_, hending⟩
          rw [List.forall_mem_cons]
          exact ⟨hbody, hidle⟩
        | some p =>
          -- the next await decides whether the process is returned
          have hfound : exec (step r) ⟨ledger, .waiting none⟩ (.tick processes :: events) =
              exec (step r) ⟨ledger ++ (lookForProcess r processes).ledger, .waiting (some p)⟩
                events := by
            simp [exec, step, hbody, Phase.ofBody]
          rw [hfound] at h
          cases events with
          | nil => simp [exec] at h
          | cons next events =>
            cases next with
            | cancelled =>
              obtain ⟨rfl, rfl⟩ := exec_of_left rfl h
              exact ⟨[], _, rfl, by simp, .lost hbody⟩
            | tick last =>
              obtain ⟨rfl, rfl⟩ := exec_of_left rfl h
              exact ⟨[], _, rfl, by simp, .spawned hbody⟩

/-- The loop is left exactly in these ways: behind ticks at which nothing is found, with an
ending. -/
theorem left_iff (r : Request) (events : List Event) (exit : Exit WaitExn Process) :
    (exec (step r) .start events).map Wait.phase = some (.left exit) ↔
      ∃ idle ending, events = List.map Event.tick idle ++ ending ∧
        (∀ processes ∈ idle, (lookForProcess r processes).exit = .returned none) ∧
        Ending r ending exit := by
  constructor
  · exact ending_of_exec
  · rintro ⟨idle, ending, rfl, hidle, hending⟩
    show (exec (step r) ⟨[], .waiting none⟩ (List.map Event.tick idle ++ ending)).map Wait.phase = _
    generalize ([] : List (LedgerEntry Resource)) = ledger
    induction idle generalizing ledger with
    | nil => exact exec_ending hending ledger
    | cons processes idle ih =>
      rw [List.forall_mem_cons] at hidle
      rw [List.map_cons, List.cons_append, exec_tick_none r ledger hidle.1]
      exact ih hidle.2 _

/-! ## What every run keeps -/

theorem tidy_hasArguments (contains : List UInt16 → Bool) (p : Process) :
    Tidy [] (hasArguments contains p) := by
  apply Tidy.bind (tidy_retrieve p.answers)
  rintro ⟨result, processArguments⟩
  apply Tidy.ite
  · cases processArguments with
    | some text => exact Tidy.pure _ _
    | none => exact Tidy.throw _ Exn.nullReference
  · exact Tidy.pure _ _

theorem tidy_whereArguments (contains : List UInt16 → Bool) (processes : List Process) :
    Tidy [] (whereArguments contains processes) := by
  induction processes with
  | nil => exact Tidy.pure _ _
  | cons p processes ih =>
    apply Tidy.bind (tidy_hasArguments contains p)
    intro keep
    apply Tidy.bind ih
    intro rest
    exact Tidy.pure _ _

theorem tidy_lookForProcess (r : Request) (processes : List Process) :
    Tidy [] (lookForProcess r processes) := by
  apply Tidy.ite
  · exact Tidy.pure _ _
  · apply Tidy.bind (tidy_whereArguments _ processes)
    intro found
    exact Tidy.pure _ _

/-- The text that the condition of `Where` looks at is never `null`. -/
theorem hasArguments_ne_nullReference (contains : List UInt16 → Bool) (p : Process) :
    (hasArguments contains p).exit ≠ .threw .nullReference := by
  intro h
  rw [hasArguments, Guarded.exit_bind, Exit.andThen_eq_threw_iff] at h
  rcases h with h | ⟨⟨result, processArguments⟩, hreturned, h⟩
  · cases retrieve_threw h
  · rcases retrieve_returned hreturned with ⟨s, -, rfl, rfl⟩ | ⟨-, rfl, text, rfl⟩
    · simp [s.code_ne_zero] at h
    · simp at h

theorem whereArguments_ne_nullReference (contains : List UInt16 → Bool)
    (processes : List Process) :
    (whereArguments contains processes).exit ≠ .threw .nullReference := by
  induction processes with
  | nil =>
    intro h
    cases h
  | cons p processes ih =>
    intro h
    rw [whereArguments, Guarded.exit_bind, Exit.andThen_eq_threw_iff] at h
    rcases h with h | ⟨keep, -, h⟩
    · exact hasArguments_ne_nullReference contains p h
    · rw [Guarded.exit_bind, Exit.andThen_eq_threw_iff] at h
      rcases h with h | ⟨rest, -, h⟩
      · exact ih h
      · cases h

theorem lookForProcess_ne_nullReference (r : Request) (processes : List Process) :
    (lookForProcess r processes).exit ≠ .threw .nullReference := by
  intro h
  unfold lookForProcess at h
  rw [Guarded.exit_ite] at h
  split at h
  case isTrue => cases h
  case isFalse =>
    rw [Guarded.exit_bind, Exit.andThen_eq_threw_iff] at h
    rcases h with h | ⟨found, -, h⟩
    · exact whereArguments_ne_nullReference _ _ h
    · cases h

/-- Unless the process has died, everything is released, and `null` was not dereferenced. -/
def Wait.Safe (w : Wait) : Prop :=
  (w.phase = .left .died ∨ Keeps [] w.ledger) ∧ w.phase ≠ .left (.threw (.body .nullReference))

theorem safe_of_step (r : Request) (w : Wait) (event : Event) (w' : Wait) (hsafe : w.Safe)
    (h : step r w event = some w') : w'.Safe := by
  obtain ⟨hledger, hnull⟩ := hsafe
  obtain ⟨ledger, phase⟩ := w
  match phase, event with
  | .left exit, event => simp [step] at h
  | .waiting output, .cancelled =>
    obtain rfl : ⟨ledger, .left (.threw .operationCanceled)⟩ = w' := by simpa [step] using h
    exact ⟨.inr (hledger.resolve_left (by simp)), by simp⟩
  | .waiting (some output), .tick _ =>
    obtain rfl : ⟨ledger, .left (.returned output)⟩ = w' := by simpa [step] using h
    exact ⟨.inr (hledger.resolve_left (by simp)), by simp⟩
  | .waiting none, .tick processes =>
    have hkeeps : Keeps [] ledger := hledger.resolve_left (by simp)
    have htidy := tidy_lookForProcess r processes
    have hbody := lookForProcess_ne_nullReference r processes
    obtain rfl : ⟨ledger ++ (lookForProcess r processes).ledger,
        .ofBody (lookForProcess r processes).exit⟩ = w' := by simpa [step] using h
    cases hexit : (lookForProcess r processes).exit with
    | returned output =>
      exact ⟨.inr (hkeeps.append (htidy (by simp [hexit]))), by simp [Phase.ofBody]⟩
    | threw e =>
      refine ⟨.inr (hkeeps.append (htidy (by simp [hexit]))), ?_⟩
      rw [hexit] at hbody
      simpa [Phase.ofBody] using hbody
    | died => exact ⟨.inl rfl, by simp [Phase.ofBody]⟩

/-- In every state that a run of the loop reaches, all that its searches have acquired is released,
unless the process has died, and none of them has dereferenced `null`. -/
theorem search_keeps (r : Request) (events : List Event) (w : Wait)
    (h : exec (step r) .start events = some w) :
    (w.phase = .left .died ∨ Balanced w.ledger) ∧
      w.phase ≠ .left (.threw (.body .nullReference)) := by
  have hstart : Wait.start.Safe := ⟨.inr (keeps_nil []), by simp [Wait.start]⟩
  obtain ⟨hledger, hnull⟩ := exec_invariant (safe_of_step r) h hstart
  exact ⟨hledger.imp id Keeps.balanced, hnull⟩

/-- A search for which the system refuses to answer, and then the token is cancelled. -/
def refusedWait : Wait where
  ledger := [.acquire .hProcess, .acquire .memPBI, .reuse .hProcess, .reuse .memPBI,
    .release .memPBI, .release .hProcess]
  phase := .left (.threw .operationCanceled)

theorem refused_keeps :
    (refusedWait.phase = .left .died ∨ Balanced refusedWait.ledger) ∧
      refusedWait.phase ≠ .left (.threw (.body .nullReference)) :=
  search_keeps lookForA [.tick [⟨1, { startedAnswers with status := 5 }⟩], .cancelled]
    refusedWait rfl

end Doreto.DofusClient
