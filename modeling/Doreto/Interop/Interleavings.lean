import Doreto.Interop.ThreadRules

/-!
# What Holds in Every Interleaving

Any number of threads of the game call the hooks while the server thread serves its client. The
theorems of this module hold for every order in which the single steps of all these threads may be
taken.

## Main results

- `no_thread_stopped`: no loop over `g_ServerIp` leaves the array.
- `transparent_interleaved`: every call of the game returns what the real function returns.
- `answers_spliced`: every byte of an answer to `!getserver` is one of an address of a peer.
- `answers_whole`: with one peer, the answer is its address once a call has returned.
- `forwards_valid`: a packet goes to a valid socket when the game passes in no other.
-/

namespace Doreto.Interop.Threads

open Doreto.Lib

/-! ## The calls of a run -/

namespace Call

/-- Every string that the call reads has a terminator in memory of the caller's own. -/
def Terminated : Call → Prop
  | .game call => call.Terminated true
  | .pass (.message _ data _) => 0 ∈ data
  | .pass _ => True

instance : (c : Call) → Decidable c.Terminated
  | .game call => inferInstanceAs (Decidable (call.Terminated true))
  | .pass (.message _ data _) => inferInstanceAs (Decidable (0 ∈ data))
  | .pass (.create _) => .isTrue trivial
  | .pass (.poll _) => .isTrue trivial
  | .pass (.readFails _) => .isTrue trivial

/-- The address that the call copies. -/
def peer : Call → Option InAddr
  | .game call => some (peerAddress call.peer)
  | .pass (.message a _ _) => some (peerAddress a.hook.peer)
  | .pass _ => none

/-- The socket that the game passes in. -/
def socket : Call → Option Socket
  | .game call => some call.socket
  | .pass _ => none

end Call

/-- The calls that are begun in a run. -/
def callsOf (moves : List (Move Thread Call)) : List Call :=
  moves.filterMap fun
    | .call _ c => some c
    | .go _ => none

theorem mem_callsOf {moves : List (Move Thread Call)} {t : Thread} {c : Call}
    (h : .call t c ∈ moves) : c ∈ callsOf moves :=
  List.mem_filterMap.mpr ⟨_, h, rfl⟩

/-- The addresses that are copied in a run. -/
def peersOf (moves : List (Move Thread Call)) (a : InAddr) : Prop :=
  a ∈ (callsOf moves).filterMap Call.peer

/-- The sockets that the game passes in. -/
def socketsOf (moves : List (Move Thread Call)) (x : Socket) : Prop :=
  x ∈ (callsOf moves).filterMap Call.socket

/-- No buffer of a run is without a terminator. -/
def AllTerminated (moves : List (Move Thread Call)) : Prop :=
  ∀ c ∈ callsOf moves, c.Terminated

/-- What the calls of the threads return. -/
def spec (P : InAddr → Prop) (V : Socket → Prop) :
    Discipline.Spec Thread Shared ApiCall Result Call
  | .game _, .game call, _, es, r, s => r = some (directResult call) ∧
      (∃ connected, es = shows call connected) ∧ P (peerAddress call.peer) ∧
      Copied P (peerAddress call.peer) inetAddrStrLen s
  | .server, .pass (.message a data read), s₀, es, _, _ => MessageShown P V a data read s₀ es
  | .server, .pass _, _, es, _, _ => es = []
  | _, _, _, _, _, _ => False

theorem stable_spec (P : InAddr → Prop) (V : Socket → Prop) :
    Discipline.StableSpec (rules P V) (spec P V) := by
  intro t c s₀ es r u s s' hs hmay hspec
  cases t with
  | server =>
    cases c with
    | game call => exact hspec
    | pass pass => cases pass <;> exact hspec
  | game id =>
    cases c with
    | game call =>
      obtain ⟨hresult, hshown, hpeer, hcopied⟩ := hspec
      exact ⟨hresult, hshown, hpeer, stable_copied _ _ u s s' hs hmay hcopied⟩
    | pass pass => exact hspec

/-- Every call of a run keeps to the rules. -/
theorem admits {P : InAddr → Prop} {V : Socket → Prop} (t : Thread) {c : Call}
    (hterm : c.Terminated) (hpeer : ∀ a, c.peer = some a → P a)
    (hsocket : ∀ x, c.socket = some x → V x) :
    Discipline.Admits (rules P V) (spec P V) code t c := by
  intro s hs hbegins
  cases t with
  | game id =>
    cases c with
    | pass pass => cases hbegins
    | game call =>
      have hx : (Thread.game id).sockets V call.socket := hsocket _ rfl
      show Discipline.Meets _ _ _ [] (hooked call >>= fun out => pure (some out)) s
      apply (meets_hooked (hpeer _ rfl) hx hterm [] hs).bind hs
      rintro _ _ s₁ hs₁ ⟨rfl, ⟨connected, rfl⟩, hcopied⟩
      apply Discipline.meets_pure
      intro s₂ _ hothers
      exact ⟨rfl, ⟨connected, rfl⟩, hpeer _ rfl,
        (stable_copied _ _).others hothers hs₁ hcopied⟩
  | server =>
    cases c with
    | game call => cases hbegins
    | pass pass =>
      have hplace : pass.place = s.place := of_decide_eq_true hbegins
      show Discipline.Meets _ _ _ [] (pass.prog >>= fun _ => pure none) s
      cases pass with
      | create answer =>
        apply (meets_createPipeServer answer hs hplace.symm).bind hs
        rintro _ _ _ _ rfl
        exact Discipline.meets_pure fun _ _ _ => rfl
      | poll answer =>
        apply (meets_waitForClient answer hs (by rw [← hplace]; simp [Pass.place])).bind hs
        rintro _ _ _ _ rfl
        exact Discipline.meets_pure fun _ _ _ => rfl
      | message a data read =>
        apply (meets_serveMessage a read (hpeer _ rfl) hterm hs
          (by rw [← hplace]; simp [Pass.place])).bind hs
        intro es _ _ _ hshown
        exact Discipline.meets_pure fun _ _ _ => hshown
      | readFails code =>
        apply (meets_noMessage code hs (by rw [← hplace]; simp [Pass.place])).bind hs
        rintro _ _ _ _ rfl
        exact Discipline.meets_pure fun _ _ _ => rfl

theorem inv_init (P : InAddr → Prop) (V : Socket → Prop) : (rules P V).inv Shared.init := by
  refine ⟨fun k hk => ?_, by simp [Shared.init], by simp [Shared.init]⟩
  refine absurd ?_ hk
  rw [Shared.byte, Shared.init, Vector.getElem?_replicate]
  split <;> rfl

/-- The rules of a run: the addresses and the sockets are those of its calls. -/
abbrev rulesOf (moves : List (Move Thread Call)) : Discipline Thread Shared :=
  rules (peersOf moves) (socketsOf moves)

abbrev specOf (moves : List (Move Thread Call)) : Discipline.Spec Thread Shared ApiCall Result Call :=
  spec (peersOf moves) (socketsOf moves)

/-- The calls of a part of a run keep to the rules of the run. -/
theorem admits_part {part all : List (Move Thread Call)} (hsub : ∀ m ∈ part, m ∈ all)
    (hterm : AllTerminated all) (t : Thread) (c : Call) (hc : .call t c ∈ part) :
    Discipline.Admits (rulesOf all) (specOf all) code t c := by
  have hc' := mem_callsOf (hsub _ hc)
  exact admits t (hterm c hc') (fun a ha => List.mem_filterMap.mpr ⟨c, hc', ha⟩)
    (fun x hx => List.mem_filterMap.mpr ⟨c, hc', hx⟩)

theorem sound_part {part all : List (Move Thread Call)} (hsub : ∀ m ∈ part, m ∈ all)
    (hterm : AllTerminated all) {σ : ThreadPool} (h : exec step .init part = some σ) :
    Discipline.Sound (rulesOf all) (specOf all) σ :=
  (Discipline.sound_init (inv_init _ _)).run (stable_spec _ _) (admits_part hsub hterm) h

theorem sound_along {moves : List (Move Thread Call)} (hterm : AllTerminated moves)
    {σ : ThreadPool} (h : exec step .init moves = some σ) :
    Discipline.Sound (rulesOf moves) (specOf moves) σ :=
  sound_part (fun _ hm => hm) hterm h

/-! ## Results -/

/-- The server thread creates the pipe and finds a client. -/
def joins : List (Move Thread Call) :=
  .call .server (.pass (.create .created)) :: goSolo .server 4 ++
    .call .server (.pass (.poll (.ok ()))) :: goSolo .server 7

/-- The game connects socket 5 to 1.2.3.4. -/
def gameConnects : GameCall :=
  .connect ⟨.ok ⟨1, 2, 3, 4⟩, none, .ok 0⟩ (.connected none) 5 [] 0

/-- A pass of the server thread with a message that ends at its terminator. -/
def servePass (message : Bytes) : Call :=
  .pass (.message { ServeAnswers.failing with hook := ⟨.ok ⟨1, 2, 3, 4⟩, none, .ok 0⟩ }
    (message ++ [0]) message.length)

/-- A client asks for the server while the game connects. -/
def asksMeanwhile : List (Move Thread Call) :=
  joins ++ .call (.game 0) (.game gameConnects) :: goSolo (.game 0) 6 ++
    .call .server (servePass getserverCmd) :: goSolo .server 13 ++ goSolo (.game 0) 7

theorem allTerminated_asksMeanwhile : AllTerminated asksMeanwhile := by
  unfold AllTerminated
  decide

/-- **Bounds**: in every interleaving each byte of `g_ServerIp` is a terminator or a byte of the
address of a peer at its place, and no thread is stopped. -/
theorem no_thread_stopped {moves : List (Move Thread Call)} (hterm : AllTerminated moves)
    {σ : ThreadPool} (h : exec step .init moves = some σ) :
    Spliced (peersOf moves) σ.shared ∧
      ∀ t r, σ.running t = some r → (step σ (.go t)).isSome = true := by
  have hI := sound_along hterm h
  exact ⟨hI.inv.1, fun t r at_ => hI.goes_on at_⟩

theorem asks_meanwhile_goes_on :
    ∃ σ : ThreadPool, exec step .init asksMeanwhile = some σ ∧
      Spliced (peersOf asksMeanwhile) σ.shared ∧
      ∀ t r, σ.running t = some r → (step σ (.go t)).isSome = true := by
  obtain ⟨σ, hσ⟩ : ∃ σ : ThreadPool, exec step .init asksMeanwhile = some σ := ⟨_, rfl⟩
  exact ⟨σ, hσ, no_thread_stopped allTerminated_asksMeanwhile hσ⟩

/-- **Transparency**: in every interleaving a thread of the game shows what its calls show, one
behind the other, and each call that has returned has made the real call, has written to the pipe
behind it at most once, and gives back what the real function gives back. -/
theorem transparent_interleaved {moves : List (Move Thread Call)} (hterm : AllTerminated moves)
    {σ : ThreadPool} (h : exec step .init moves = some σ) (id : Nat) :
    σ.shownBy (.game id) =
        (σ.returned (.game id)).flatMap Finished.shown ++ σ.showing (.game id) ∧
      ∀ f ∈ σ.returned (.game id), ∃ call, f.call = .game call ∧
        f.result = some (directResult call) ∧ ∃ connected, f.shown = shows call connected := by
  refine ⟨Pool.shownBy_along h _, fun f hf => ?_⟩
  obtain ⟨hmem, hthread⟩ := List.mem_filter.mp hf
  have hspec := (sound_along hterm h).finished f hmem
  rw [of_decide_eq_true hthread] at hspec
  cases hcall : f.call with
  | pass pass =>
    rw [hcall] at hspec
    exact hspec.elim
  | game call =>
    rw [hcall] at hspec
    exact ⟨call, rfl, hspec.1, hspec.2.1⟩

theorem connect_meanwhile_transparent :
    ∃ σ : ThreadPool, exec step .init asksMeanwhile = some σ ∧
      σ.shownBy (.game 0) = [.connect 5 [] 0, .getpeername 5] ∧
      ∀ f ∈ σ.returned (.game 0), ∃ call, f.call = .game call ∧
        f.result = some (directResult call) ∧ ∃ connected, f.shown = shows call connected := by
  obtain ⟨σ, hσ, hshown⟩ : ∃ σ : ThreadPool, exec step .init asksMeanwhile = some σ ∧
      σ.shownBy (.game 0) = [.connect 5 [] 0, .getpeername 5] := ⟨_, rfl, rfl⟩
  exact ⟨σ, hσ, hshown, (transparent_interleaved allTerminated_asksMeanwhile hσ 0).2⟩

/-- What the server thread has shown for a message. -/
theorem messageShown_along {moves : List (Move Thread Call)} (hterm : AllTerminated moves)
    {σ : ThreadPool} (h : exec step .init moves = some σ)
    {f : Finished Thread Shared ApiCall Result Call} (hf : f ∈ σ.finished) {a : ServeAnswers}
    {data : Bytes} {read : Nat} (hcall : f.call = .pass (.message a data read)) :
    MessageShown (peersOf moves) (socketsOf moves) a data read f.since f.shown := by
  have hspec := (sound_along hterm h).finished f hf
  rw [hcall] at hspec
  cases hthread : f.thread with
  | server =>
    rw [hthread] at hspec
    exact hspec
  | game id =>
    rw [hthread] at hspec
    exact hspec.elim

/-- **Answers**: in every interleaving a `!getserver` is answered with a text that is not empty and
each of whose bytes stands at its place in the address of a peer, or it came before any address was
copied. -/
theorem answers_spliced {moves : List (Move Thread Call)} (hterm : AllTerminated moves)
    {σ : ThreadPool} (h : exec step .init moves = some σ)
    {f : Finished Thread Shared ApiCall Result Call} (hf : f ∈ σ.finished) {a : ServeAnswers}
    {data : Bytes} {read : Nat} (hcall : f.call = .pass (.message a data read))
    (hbranch : branchOf (cBody 0 data) = .getserver) :
    f.shown = [] ∧ f.since.byte 0 = 0 ∨
      ∃ ip, f.shown = [.writeFile .created (setserverReply ++ ip)] ∧ ip ≠ [] ∧
        ∀ (i : Nat) (c : UInt8), ip[i]? = some c →
          ∃ b, peersOf moves b ∧ (inetNtoa b)[i]? = some c := by
  have hshown := messageShown_along hterm h hf hcall
  rw [MessageShown, hbranch] at hshown
  rcases hshown with hempty | ⟨ip, hanswered, hes⟩
  · exact .inl hempty
  · exact .inr ⟨ip, hes, hanswered.nonempty, hanswered.spliced⟩

theorem asks_meanwhile_answered :
    ∃ (σ : ThreadPool) (f : Finished Thread Shared ApiCall Result Call),
      exec step .init asksMeanwhile = some σ ∧ f ∈ σ.finished ∧
      (f.shown = [] ∧ f.since.byte 0 = 0 ∨
        ∃ ip, f.shown = [.writeFile .created (setserverReply ++ ip)] ∧ ip ≠ [] ∧
          ∀ (i : Nat) (c : UInt8), ip[i]? = some c →
            ∃ b, peersOf asksMeanwhile b ∧ (inetNtoa b)[i]? = some c) := by
  obtain ⟨σ, f, hσ, hf, hcall⟩ : ∃ (σ : ThreadPool)
      (f : Finished Thread Shared ApiCall Result Call),
      exec step .init asksMeanwhile = some σ ∧ f ∈ σ.finished ∧
      f.call = servePass getserverCmd := ⟨_, _, rfl, .tail _ (.tail _ (.head _)), rfl⟩
  exact ⟨σ, f, hσ, hf, answers_spliced allTerminated_asksMeanwhile hσ hf hcall (by decide)⟩

/-- The client gets the part of the address that was copied when it asked. -/
example : ∃ (σ : ThreadPool) (f : Finished Thread Shared ApiCall Result Call),
    exec step .init asksMeanwhile = some σ ∧ f ∈ σ.finished ∧
      f.shown = [.writeFile .created (setserverReply ++ ascii "1.2.")] :=
  ⟨_, _, rfl, .tail _ (.tail _ (.head _)), rfl⟩

/-- **Forwarding**: in every interleaving in which the game passes in valid sockets only, a packet
of the client goes to a valid socket or nowhere, although the socket is read again behind the
check. -/
theorem forwards_valid {moves : List (Move Thread Call)} (hterm : AllTerminated moves)
    (hvalid : ¬ socketsOf moves invalidSocket) {σ : ThreadPool}
    (h : exec step .init moves = some σ)
    {f : Finished Thread Shared ApiCall Result Call} (hf : f ∈ σ.finished) {a : ServeAnswers}
    {data : Bytes} {read : Nat} (hcall : f.call = .pass (.message a data read))
    (hbranch : branchOf (cBody 0 data) = .forward) :
    f.shown = [] ∨ ∃ x connected, x ≠ invalidSocket ∧
      f.shown = sendShown x data read 0 connected := by
  have hshown := messageShown_along hterm h hf hcall
  rw [MessageShown, hbranch] at hshown
  rcases hshown with hnone | ⟨x, connected, hx, hes⟩
  · exact .inl hnone
  · refine .inr ⟨x, connected, ?_, hes⟩
    rcases hx with hne | hgame
    · exact hne
    · rintro rfl
      exact hvalid hgame

/-- A client sends a packet while the game connects. -/
def sendsMeanwhile : List (Move Thread Call) :=
  joins ++ .call (.game 0) (.game gameConnects) :: goSolo (.game 0) 11 ++
    .call .server (servePass (ascii "hi")) :: goSolo .server 17

theorem packet_meanwhile_forwarded :
    ∃ (σ : ThreadPool) (f : Finished Thread Shared ApiCall Result Call),
      exec step .init sendsMeanwhile = some σ ∧ f ∈ σ.finished ∧
      (f.shown = [] ∨ ∃ x connected, x ≠ invalidSocket ∧
        f.shown = sendShown x (ascii "hi" ++ [0]) 2 0 connected) := by
  have hterm : AllTerminated sendsMeanwhile := by
    unfold AllTerminated
    decide
  have hvalid : ¬ socketsOf sendsMeanwhile invalidSocket := by
    unfold socketsOf
    decide
  obtain ⟨σ, f, hσ, hf, hcall⟩ : ∃ (σ : ThreadPool)
      (f : Finished Thread Shared ApiCall Result Call),
      exec step .init sendsMeanwhile = some σ ∧ f ∈ σ.finished ∧
      f.call = servePass (ascii "hi") := ⟨_, _, rfl, .tail _ (.tail _ (.head _)), rfl⟩
  exact ⟨σ, f, hσ, hf, forwards_valid hterm hvalid hσ hf hcall (by decide)⟩

/-- A call of the game that has returned has left the address of its peer in the array, when there
is no other one. -/
theorem copied_of_returned {P : InAddr → Prop} {V : Socket → Prop} {σ : ThreadPool}
    (hI : Discipline.Sound (rules P V) (spec P V) σ)
    {f : Finished Thread Shared ApiCall Result Call} (hf : f ∈ σ.finished) {call : GameCall}
    (hcall : f.call = .game call) :
    P (peerAddress call.peer) ∧ Copied P (peerAddress call.peer) inetAddrStrLen σ.shared := by
  have hspec := hI.finished f hf
  rw [hcall] at hspec
  cases hthread : f.thread with
  | server =>
    rw [hthread] at hspec
    exact hspec.elim
  | game id =>
    rw [hthread] at hspec
    exact hspec.2.2

/-- **The one peer**: in every interleaving in which all peers have one address, once a call of the
game has returned, each `!getserver` that comes is answered with exactly that address. -/
theorem answers_whole {before behind : List (Move Thread Call)}
    (hterm : AllTerminated (before ++ behind)) {a : InAddr}
    (honly : ∀ b, peersOf (before ++ behind) b → b = a) {σ τ : ThreadPool}
    (hbefore : exec step .init before = some σ)
    (hreturned : ∃ f ∈ σ.finished, ∃ call, f.call = .game call)
    (hidle : σ.running .server = none) (hbehind : exec step σ behind = some τ)
    {f : Finished Thread Shared ApiCall Result Call}
    (hf : f ∈ τ.finished.drop σ.finished.length) {answers : ServeAnswers} {data : Bytes}
    {read : Nat} (hcall : f.call = .pass (.message answers data read))
    (hbranch : branchOf (cBody 0 data) = .getserver) :
    f.shown = [.writeFile .created (setserverReply ++ inetNtoa a)] := by
  have hI := sound_part (fun m hm => List.mem_append_left _ hm) hterm hbefore
  obtain ⟨g, hg, call, hgame⟩ := hreturned
  obtain ⟨hpeer, hcopied⟩ := copied_of_returned hI hg hgame
  rw [honly _ hpeer] at hcopied
  obtain ⟨hsound, hsince⟩ := hI.run_keeps (stable_spec _ _)
    (fun _ _ _ hI hstep hσ => hσ.step (stable_copied a inetAddrStrLen) hI hstep)
    (Discipline.sinceThen_idle hcopied hidle)
    (admits_part (fun m hm => List.mem_append_right _ hm) hterm) hbehind
  have hspec := hsound.finished f (List.mem_of_mem_drop hf)
  have hstart := hsince.finished f hf
  rw [hcall] at hspec
  cases hthread : f.thread with
  | game id =>
    rw [hthread] at hspec
    exact hspec.elim
  | server =>
    rw [hthread] at hspec
    have hwhole := hstart hthread
    have hshown : MessageShown _ _ answers data read f.since f.shown := hspec
    rw [MessageShown, hbranch] at hshown
    rcases hshown with ⟨-, hzero⟩ | ⟨ip, hanswered, hes⟩
    · -- the first byte was copied before the message came
      obtain ⟨c, rest, htext, hne⟩ := exists_first_byte a
      have hfirst : f.since.byte 0 = c := by
        apply hwhole honly 0 c (by decide)
        rw [htext]
        rfl
      exact absurd (hfirst.symm.trans hzero) hne
    · rw [hes, hanswered.whole a honly hwhole]

/-- The game has connected before the client asks. -/
def connectsFirst : List (Move Thread Call) :=
  joins ++ .call (.game 0) (.game gameConnects) :: goSolo (.game 0) 13

/-- The client asks while the game connects again. -/
def asksAgain : List (Move Thread Call) :=
  .call (.game 0) (.game gameConnects) :: goSolo (.game 0) 6 ++
    .call .server (servePass getserverCmd) :: goSolo .server 19

theorem asks_again_answered :
    ∃ (σ τ : ThreadPool) (f : Finished Thread Shared ApiCall Result Call),
      exec step .init connectsFirst = some σ ∧ exec step σ asksAgain = some τ ∧
      f ∈ τ.finished.drop σ.finished.length ∧
      f.shown = [.writeFile .created (setserverReply ++ inetNtoa ⟨1, 2, 3, 4⟩)] := by
  have hterm : AllTerminated (connectsFirst ++ asksAgain) := by
    unfold AllTerminated
    decide
  have honly : ∀ b, peersOf (connectsFirst ++ asksAgain) b → b = ⟨1, 2, 3, 4⟩ := by
    unfold peersOf
    decide
  obtain ⟨σ, hσ, hreturned, hidle, τ, f, hτ, hf, hcall⟩ : ∃ σ : ThreadPool,
      exec step .init connectsFirst = some σ ∧
      (∃ f ∈ σ.finished, ∃ call, f.call = .game call) ∧ σ.running .server = none ∧
      ∃ (τ : ThreadPool) (f : Finished Thread Shared ApiCall Result Call),
        exec step σ asksAgain = some τ ∧ f ∈ τ.finished.drop σ.finished.length ∧
        f.call = servePass getserverCmd :=
    ⟨_, rfl, ⟨_, .tail _ (.tail _ (.head _)), _, rfl⟩, rfl, _, _, rfl, .head _, rfl⟩
  exact ⟨σ, τ, f, hσ, hτ, hf,
    answers_whole hterm honly hσ hreturned hidle hτ hf hcall (by decide)⟩

end Doreto.Interop.Threads
