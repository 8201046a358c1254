import Doreto.Interop.Mirroring
import Doreto.Interop.PipeServer
import Doreto.Interop.SocketLookup

/-!
# The Remembered Server

`g_ServerIp` and `g_Socket` are the server that the DLL remembers. Every hook asks for the peer of
its socket and stores the pair, and `GetIpFromSocket` does not look at the result of
`getpeername`: when the call fails, the text of the zeroed address is remembered with the socket.

A run is followed by a record of the answers: the peers that were told, and what became of the
pair where none was.

## Main results

- `remembered_of_transition`: what each step does to the pair.
- `realServer_iff_peersTold_step`: a step keeps the pair real exactly when the peer is told, or the pair
  is the one that a failure leaves.
- `realServer_iff_peersTold`: the same for runs.
-/

namespace Doreto.Interop

open Doreto.Lib

/-! ## Questions for a peer -/

/-- `g_ServerIp` and `g_Socket`. -/
def Globals.remembered (g : Globals) : ServerIp × Socket :=
  (g.gServerIp, g.gSocket)

/-- The hook that a message makes the server call: its socket and the answer about its peer. -/
def branchQuery (g : Globals) (a : ServeAnswers) : Branch → Option (Socket × PeerAnswer)
  | .findsocketfor ipaddr => some (a.finder.foundSocket ipaddr, a.hook.peer)
  | .forward => if g.gSocket = invalidSocket then none else some (g.gSocket, a.hook.peer)
  | _ => none

/-- The hook that runs in a step: its socket and the answer about its peer. -/
def peerQuery (σ : System) : Action → Option (Socket × PeerAnswer)
  | .game _ call => if σ.server = .unloaded then none else some (call.socket, call.peer)
  | .client _ => none
  | .server a =>
      match σ.server with
      | .running pipe (.reading data) =>
          match (pipe.read buffSize).1 with
          | .message m =>
              branchQuery σ.globals a.serve (branchOf (cBody 0 (store m.unread data ++ a.behind)))
          | _ => none
      | _ => none

/-- The hook that runs in a step of the server is the one that serving its message calls. -/
theorem peerQuery_server (σ : System) (a : ServerAnswers) :
    peerQuery σ (.server a) =
      (servedIn σ (.server a)).bind fun d => branchQuery σ.globals d.1 d.2.2 := by
  cases hserver : σ.server with
  | running pipe loop =>
    cases loop with
    | reading data =>
      cases hread : (pipe.read buffSize).1 with
      | message m =>
        simp only [peerQuery, servedIn, hserver, hread]
        rfl
      | _ =>
        simp only [peerQuery, servedIn, hserver, hread]
        rfl
    | _ =>
      simp only [peerQuery, servedIn, hserver]
      rfl
  | _ =>
    simp only [peerQuery, servedIn, hserver]
    rfl

/-- The pair behind a hook, or behind a step without one. -/
def rememberedAfter (pair : ServerIp × Socket) : Option (Socket × PeerAnswer) → ServerIp × Socket
  | none => pair
  | some (s, peer) => (.ofAddress (peerAddress peer), s)

/-- What serving a message does to the pair. -/
theorem remembered_of_dispatch {a : ServeAnswers} {data : Bytes} {read : Nat} {c c' : Ctx}
    {br : Branch} (h : (dispatch a data read).run c = some (br, c')) :
    c'.globals.remembered = rememberedAfter c.globals.remembered (branchQuery c.globals a br) := by
  cases br with
  | findsocketfor ipaddr =>
    rw [(lookup_effect h).1]
    rfl
  | dettach =>
    obtain ⟨-, -, hserve⟩ := dispatch_eq_some h
    obtain ⟨-, rfl⟩ := Prod.mk.inj (Option.some.inj hserve)
    rfl
  | getserver =>
    obtain ⟨-, -, hserve⟩ := dispatch_eq_some h
    rw [serve, run_sendServer] at hserve
    obtain ⟨-, rfl⟩ := Prod.mk.inj (Option.some.inj hserve)
    split <;> rfl
  | forward =>
    obtain ⟨hmem, -, hserve⟩ := dispatch_eq_some h
    by_cases hsocket : c.globals.gSocket = invalidSocket
    · rw [serve, run_forwardPacket_of_invalid a data read hsocket] at hserve
      obtain ⟨-, rfl⟩ := Prod.mk.inj (Option.some.inj hserve)
      rw [branchQuery, if_pos hsocket]
      rfl
    · rw [serve, run_forwardPacket a read hsocket hmem] at hserve
      obtain ⟨-, rfl⟩ := Prod.mk.inj (Option.some.inj hserve)
      rw [branchQuery, if_neg hsocket]
      rfl

/-- What each step does to the pair. -/
theorem remembered_of_transition {σ σ' : System} {a : Action} (h : Transition σ a σ') :
    σ'.globals.remembered = rememberedAfter σ.globals.remembered (peerQuery σ a) := by
  cases h with
  | hooked loaded run =>
    rw [globals_hooked run, peerQuery, if_neg loaded]
    rfl
  | unhooked unloaded =>
    rw [peerQuery, if_pos unloaded]
    rfl
  | served at_ read run =>
    obtain ⟨-, rfl, -⟩ := dispatch_eq_some run
    simp only [peerQuery, at_, read]
    exact remembered_of_dispatch run
  | readPart at_ read =>
    simp only [peerQuery, at_, read]
    rfl
  | readFails at_ read kind =>
    simp only [peerQuery, at_, read]
    rfl
  | readBroken at_ read =>
    simp only [peerQuery, at_, read]
    rfl
  | clientIdle closed => rfl
  | clientCall at_ => rfl
  -- in the other steps the server does not read
  | _ at_ =>
    simp only [peerQuery, at_]
    rfl

/-! ## The record of the answers -/

/-- A hook that was told no peer: the pair before it and behind it. -/
structure FailedQuery where
  before : ServerIp × Socket
  behind : ServerIp × Socket

/-- The system with a record of the answers about peers. -/
structure Traced where
  system : System
  /-- The peers that were told, with the sockets. -/
  known : List (Socket × InAddr)
  failures : List FailedQuery

def Traced.init : Traced :=
  ⟨.init, [], []⟩

/-- The peer that was told. -/
def knownOf : Option (Socket × PeerAnswer) → List (Socket × InAddr)
  | some (s, .ok address) => [(s, address)]
  | _ => []

/-- The failure, with what became of the pair. -/
def failureOf (before behind : ServerIp × Socket) : Option (Socket × PeerAnswer) → List FailedQuery
  | some (_, .error _) => [⟨before, behind⟩]
  | _ => []

/-- A step of the system, recorded. -/
def tracedStep (τ : Traced) (a : Action) : Option Traced :=
  (step τ.system a).map fun σ' =>
    { system := σ'
      known := τ.known ++ knownOf (peerQuery τ.system a)
      failures := τ.failures ++
        failureOf τ.system.globals.remembered σ'.globals.remembered (peerQuery τ.system a) }

/-- The text of the pair, if there is one, is that of a peer that was told for the socket. -/
def RealPair (known : List (Socket × InAddr)) (pair : ServerIp × Socket) : Prop :=
  pair.1.text ≠ [] → ∃ address, (pair.2, address) ∈ known ∧ pair.1.text = inetNtoa address

/-- The remembered server is real. -/
structure RealServer (τ : Traced) : Prop where
  remembered : RealPair τ.known τ.system.globals.remembered
  /-- So is every server that the client was told. -/
  answers : ∀ m, .served m ∈ τ.system.events → m.branch = .getserver →
    ∀ bytes ∈ pipeWrites m.calls, ∃ address, (m.socket, address) ∈ τ.known ∧
      bytes = setserverReply ++ inetNtoa address
  /-- A hook that was told no peer left the pair as it was. -/
  failures : ∀ f ∈ τ.failures, f.behind = f.before

/-- The peer is told, or the pair is the one that a failure leaves anyway. -/
def PeersTold (τ : Traced) (a : Action) : Prop :=
  ∀ s code, peerQuery τ.system a = some (s, .error code) →
    τ.system.globals.remembered = (.ofAddress .zero, s)

/-! ## One step -/

/-- An answer to `!getserver` names the remembered server. -/
theorem answer_of_dispatch {a : ServeAnswers} {data : Bytes} {read : Nat} {g : Globals}
    {e : ErrorCode} {c : Ctx}
    (h : (dispatch a data read).run ⟨g, e, []⟩ = some (.getserver, c)) :
    c.globals = g ∧ ∀ bytes ∈ pipeWrites c.calls,
      g.gServerIp.text ≠ [] ∧ bytes = setserverReply ++ g.gServerIp.text := by
  obtain ⟨-, -, hserve⟩ := dispatch_eq_some h
  rw [serve, run_sendServer] at hserve
  obtain ⟨-, rfl⟩ := Prod.mk.inj (Option.some.inj hserve)
  by_cases hip : 0 < g.gServerIp.text.length
  · rw [if_pos hip]
    refine ⟨rfl, fun bytes hbytes => ⟨List.ne_nil_of_length_pos hip, ?_⟩⟩
    exact List.mem_singleton.mp hbytes
  · rw [if_neg hip]
    refine ⟨rfl, fun bytes hbytes => ?_⟩
    cases hbytes

/-- A step serves no message, or one more than before. -/
theorem served_of_transition {σ σ' : System} {a : Action} (h : Transition σ a σ')
    {m : ServedMessage} (hm : .served m ∈ σ'.events) (hbranch : m.branch = .getserver) :
    .served m ∈ σ.events ∨ m.socket = σ.globals.gSocket ∧
      ∀ bytes ∈ pipeWrites m.calls, σ.globals.gServerIp.text ≠ [] ∧
        bytes = setserverReply ++ σ.globals.gServerIp.text := by
  cases h with
  | served at_ read run =>
    rcases List.mem_append.mp hm with hold | hnew
    · exact .inl hold
    · obtain rfl := Event.served.inj (List.mem_singleton.mp hnew)
      obtain rfl : _ = Branch.getserver := hbranch
      obtain ⟨hglobals, hwrites⟩ := answer_of_dispatch run
      exact .inr ⟨congrArg Globals.gSocket hglobals, hwrites⟩
  | @clientCall call pipe loop at_ =>
    rcases List.mem_append.mp hm with hold | hnew
    · exact .inl hold
    · cases call <;> cases pipe <;> simp [ClientCall.record] at hnew
  | _ =>
    left
    simpa using hm

theorem RealPair.append {known : List (Socket × InAddr)} {pair : ServerIp × Socket}
    (h : RealPair known pair) (more : List (Socket × InAddr)) : RealPair (known ++ more) pair := by
  intro htext
  obtain ⟨address, hmem, heq⟩ := h htext
  exact ⟨address, List.mem_append_left _ hmem, heq⟩

/-- The answers behind a step name servers that were real before it. -/
theorem answers_of_step {τ : Traced} (h : RealServer τ) {σ' : System} {a : Action}
    (htrans : Transition τ.system a σ') (more : List (Socket × InAddr)) :
    ∀ m, .served m ∈ σ'.events → m.branch = .getserver → ∀ bytes ∈ pipeWrites m.calls,
      ∃ address, (m.socket, address) ∈ τ.known ++ more ∧
        bytes = setserverReply ++ inetNtoa address := by
  intro m hm hbranch bytes hbytes
  rcases served_of_transition htrans hm hbranch with hold | ⟨hsocket, hanswer⟩
  · obtain ⟨address, hmem, heq⟩ := h.answers m hold hbranch bytes hbytes
    exact ⟨address, List.mem_append_left _ hmem, heq⟩
  · -- the answer is made of the pair
    obtain ⟨htext, rfl⟩ := hanswer bytes hbytes
    obtain ⟨address, hmem, heq⟩ := h.remembered htext
    have heq' : τ.system.globals.gServerIp.text = inetNtoa address := heq
    exact ⟨address, List.mem_append_left _ (hsocket ▸ hmem), by rw [heq']⟩

/-- From a state in which the remembered server is real, a step leads to one exactly when the peer
is told, or the pair is the one that a failure leaves. -/
theorem realServer_iff_peersTold_step {τ τ' : Traced} {a : Action} (h : RealServer τ)
    (hstep : tracedStep τ a = some τ') : RealServer τ' ↔ PeersTold τ a := by
  obtain ⟨σ', hσ', rfl⟩ := Option.map_eq_some_iff.mp hstep
  have htrans := transition_of_step hσ'
  have hpair := remembered_of_transition htrans
  have hanswers := answers_of_step h htrans (knownOf (peerQuery τ.system a))
  generalize hquery : peerQuery τ.system a = query at hpair hanswers ⊢
  rcases query with _ | ⟨s, code | address⟩
  · -- no hook runs
    refine iff_of_true ⟨?_, hanswers, ?_⟩ fun s code hs => ?_
    · exact hpair ▸ h.remembered.append _
    · intro f hf
      exact h.failures f (by simpa [failureOf] using hf)
    · rw [hquery] at hs
      cases hs
  · -- the peer is not told: the pair must be what the failure leaves
    constructor
    · intro h' s' code' hs
      obtain ⟨rfl, -⟩ := Prod.mk.inj (Option.some.inj (hquery.symm.trans hs))
      have hsame := h'.failures _ (List.mem_append_right _ (List.mem_singleton_self _))
      exact hsame.symm.trans hpair
    · intro htold
      have hsame := hpair.trans (htold s code hquery).symm
      refine ⟨?_, hanswers, fun f hf => ?_⟩
      · show RealPair _ σ'.globals.remembered
        rw [hsame]
        exact h.remembered.append _
      · rcases List.mem_append.mp hf with hold | hnew
        · exact h.failures f hold
        · obtain rfl := List.mem_singleton.mp hnew
          exact hsame
  · -- the peer is told, and the pair is new
    refine iff_of_true ⟨?_, hanswers, ?_⟩ fun s' code hs => ?_
    · intro _
      refine ⟨address, ?_, ?_⟩
      · rw [hpair]
        exact List.mem_append_right _ (List.mem_singleton_self _)
      · rw [hpair]
        rfl
    · intro f hf
      exact h.failures f (by simpa [failureOf] using hf)
    · rw [hquery] at hs
      cases hs

/-! ## Every run -/

theorem realServer_init : RealServer .init := by
  refine ⟨fun htext => absurd rfl htext, fun m hm => ?_, fun f hf => ?_⟩
  · cases hm
  · cases hf

/-- **The remembered server**: in a run of the game, the client and the server the remembered server
is real in every state exactly when every hook is told its peer, or finds the pair as its failure
leaves it. -/
theorem realServer_iff_peersTold (actions : List Action) :
    HoldsAlong tracedStep RealServer .init actions ↔
      StepsMeet tracedStep PeersTold .init actions :=
  holdsAlong_iff_stepsMeet (I := fun _ => True) (fun _ _ _ _ _ => trivial)
    (fun _ _ _ _ hreal hstep => realServer_iff_peersTold_step hreal hstep) actions trivial
    realServer_init

/-- A connect on a socket that does not block: it is still pending when the hook asks for the
peer. -/
def pendingConnect : Action :=
  .game 0 (.connect ⟨.error wsaNotConn, none, .error errorInvalidHandle⟩ (.failed wsaWouldBlock) 5
    [2, 0, 21, 187] 16)

/-- Behind it the server 0.0.0.0 is remembered. -/
theorem pending_connect_remembered :
    ¬ HoldsAlong tracedStep RealServer .init [pendingConnect] := by
  intro h
  obtain ⟨τ, hexec, hpair, hknown⟩ : ∃ τ, exec tracedStep .init [pendingConnect] = some τ ∧
      τ.system.globals.remembered = (.ofAddress .zero, 5) ∧ τ.known = [] := ⟨_, rfl, rfl, rfl⟩
  have hreal := h.last hexec
  have hremembered := hreal.remembered
  rw [hpair, hknown] at hremembered
  obtain ⟨address, hmem, -⟩ := hremembered (by decide)
  cases hmem

end Doreto.Interop
