import Doreto.Interop.SocketLookup
import Doreto.Interop.Threads
import Doreto.Interop.Transparency
import Doreto.Lib.RelyGuarantee

/-!
# The Rules That the Threads Keep

The hooks and the server thread share `g_Socket` and `g_ServerIp` without a lock. A step of theirs
still does not do just anything: it stores a socket that was passed in or looked up, or a byte of an
address at the place where it stands in that address. These are the rules of this module, and every
program of the threads is shown to keep to them, whatever the others do between its steps.

## Main results

- `meets_hooked`: a call of the game returns what the real function returns.
- `meets_scanServerIp`: `g_ServerIp` is read to a terminator while others write to it.
- `meets_sendServer`, `meets_findSocketFor`, `meets_forwardPacket`: what is shown in each branch.
- `meets_createPipeServer`, `meets_waitForClient`, `meets_noMessage`, `meets_serveMessage`: the
  passes of the server thread.
-/

namespace Doreto.Interop.Threads

open Doreto.Lib

/-! ## The discipline -/

/-- The bytes of `g_ServerIp` are bytes of addresses, each of them at its place. -/
def Spliced (P : InAddr → Prop) (s : Shared) : Prop :=
  ∀ k, s.byte k ≠ 0 → ∃ a, P a ∧ (inetNtoa a)[k]? = some (s.byte k)

/-- The server looks for clients once the pipe is there. -/
structure Placed (s : Shared) : Prop where
  handle : s.place ≠ .creating → s.gPipeServer = .created
  flag : s.gIsClientConnected = true → s.place ≠ .creating

/-- What a step of a hook does to the globals. -/
inductive HookStep (P : InAddr → Prop) (V : Socket → Prop) (s : Shared) : Shared → Prop
  | idle : HookStep P V s s
  | byte {a k c} (h : k < inetAddrStrLen) (ha : P a) (hc : (inetNtoa a ++ [0])[k]? = some c) :
      HookStep P V s (s.setByte k c h)
  | socket {x} (hx : V x) : HookStep P V s { s with gSocket := x }

/-- What a step of the server thread does to the other globals. -/
structure PassStep (s s' : Shared) : Prop where
  serverIp : s'.gServerIp = s.gServerIp
  socket : s'.gSocket = s.gSocket
  placed : Placed s → Placed s'
  place : s.place ≠ .creating → s'.place ≠ .creating

/-- The sockets that a thread may store. A lookup may find any. -/
def Thread.sockets (V : Socket → Prop) : Thread → Socket → Prop
  | .game _ => V
  | .server => fun _ => True

/-- The steps of the threads, when `P` are the addresses of the peers and `V` the sockets of the
game. -/
def ThreadStep (P : InAddr → Prop) (V : Socket → Prop) (t : Thread) (s s' : Shared) : Prop :=
  HookStep P (t.sockets V) s s' ∨ t = .server ∧ PassStep s s'

/-- A step leaves a byte as it is or puts the byte of an address there. -/
theorem byte_of_step {P : InAddr → Prop} {V : Socket → Prop} {t : Thread} {s s' : Shared}
    (h : ThreadStep P V t s s') (k : Nat) :
    s'.byte k = s.byte k ∨ ∃ a, P a ∧ (inetNtoa a ++ [0])[k]? = some (s'.byte k) := by
  rcases h with hhook | ⟨-, hpass⟩
  · cases hhook with
    | idle => exact .inl rfl
    | @byte a j c h ha hc =>
      rw [Shared.byte_setByte]
      by_cases hjk : j = k
      · subst hjk
        rw [if_pos rfl]
        exact .inr ⟨a, ha, hc⟩
      · rw [if_neg hjk]
        exact .inl rfl
    | socket hx => exact .inl rfl
  · left
    rw [Shared.byte, hpass.serverIp, Shared.byte]

/-- No step goes back to creating the pipe. -/
theorem place_of_step {P : InAddr → Prop} {V : Socket → Prop} {t : Thread} {s s' : Shared}
    (h : ThreadStep P V t s s') (hplace : s.place ≠ .creating) : s'.place ≠ .creating := by
  rcases h with hhook | ⟨-, hpass⟩
  · cases hhook <;> exact hplace
  · exact hpass.place hplace

theorem placed_of_step {P : InAddr → Prop} {V : Socket → Prop} {t : Thread} {s s' : Shared}
    (h : ThreadStep P V t s s') (hplaced : Placed s) : Placed s' := by
  rcases h with hhook | ⟨-, hpass⟩
  · cases hhook <;> exact ⟨hplaced.handle, hplaced.flag⟩
  · exact hpass.placed hplaced

/-- A byte of a text or its terminator. -/
theorem getElem?_of_ne_zero {text : Bytes} {k : Nat} {c : UInt8}
    (h : (text ++ [0])[k]? = some c) (hc : c ≠ 0) : text[k]? = some c := by
  rw [List.getElem?_append] at h
  split at h
  · exact h
  · rw [List.getElem?_singleton] at h
    split at h
    · exact absurd (Option.some.inj h).symm hc
    · cases h

/-- The rules of the threads. -/
def rules (P : InAddr → Prop) (V : Socket → Prop) : Discipline Thread Shared where
  inv s := Spliced P s ∧ Placed s
  may := ThreadStep P V
  keeps := by
    intro t s s' ⟨hspliced, hplaced⟩ hmay
    refine ⟨fun k hk => ?_, placed_of_step hmay hplaced⟩
    rcases byte_of_step hmay k with hsame | ⟨a, ha, hc⟩
    · rw [hsame] at hk ⊢
      exact hspliced k hk
    · exact ⟨a, ha, getElem?_of_ne_zero hc hk⟩
  idle := .inl .idle

variable {P : InAddr → Prop} {V : Socket → Prop}

/-- The first cells hold the text of the address, when it is the only one. -/
def Copied (P : InAddr → Prop) (a : InAddr) (n : Nat) (s : Shared) : Prop :=
  (∀ b, P b → b = a) → ∀ k c, k < n → (inetNtoa a ++ [0])[k]? = some c → s.byte k = c

theorem stable_copied (a : InAddr) (n : Nat) : (rules P V).Stable (Copied P a n) := by
  intro t s s' _ hmay hcopied honly k c hk hc
  rcases byte_of_step hmay k with hsame | ⟨b, hb, hc'⟩
  · rw [hsame]
    exact hcopied honly k c hk hc
  · obtain rfl := honly b hb
    exact Option.some.inj (hc'.symm.trans hc)

theorem stable_place : (rules P V).Stable fun s => s.place ≠ .creating :=
  fun _ _ _ _ hmay hplace => place_of_step hmay hplace

/-- The first byte of an address is not the terminator. -/
theorem exists_first_byte (a : InAddr) : ∃ c rest, inetNtoa a = c :: rest ∧ c ≠ 0 := by
  cases htext : inetNtoa a with
  | nil => simp [inetNtoa, ascii] at htext
  | cons c rest =>
    refine ⟨c, rest, rfl, fun hzero => zero_not_mem_inetNtoa a ?_⟩
    rw [htext, hzero]
    exact List.mem_cons_self

/-- Once there is a first byte there always is one. -/
theorem stable_first_byte : (rules P V).Stable fun s => s.byte 0 ≠ 0 := by
  intro t s s' _ hmay hfirst
  show s'.byte 0 ≠ 0
  rcases byte_of_step hmay 0 with hsame | ⟨a, ha, hc⟩
  · rw [hsame]
    exact hfirst
  · obtain ⟨c, rest, htext, hne⟩ := exists_first_byte a
    rw [htext] at hc
    rw [← Option.some.inj hc]
    exact hne

/-- Behind the longest address there is a terminator. -/
theorem last_byte {s : Shared} (hs : Spliced P s) : s.byte (inetAddrStrLen - 1) = 0 := by
  by_contra hne
  obtain ⟨a, -, ha⟩ := hs _ hne
  have hlt := length_inetNtoa_lt a
  obtain ⟨hk, -⟩ := List.getElem?_eq_some_iff.mp ha
  omega

theorem may_of_hookStep {t : Thread} {s s' : Shared} (h : HookStep P (t.sockets V) s s') :
    (rules P V).may t s s' := .inl h

/-! ## The hooks -/

/-- The copy of an address goes through, and leaves the address when it is the only one. -/
theorem meets_strcpyServerIp {a : InAddr} (ha : P a) {t : Thread} (rest : Bytes) {k : Nat}
    (hrest : (inetNtoa a ++ [0]).drop k = rest) {es : List ApiCall} {s : Shared}
    (hinv : (rules P V).inv s) (hcopied : Copied P a k s) :
    (rules P V).Meets t (fun es' _ s' => es' = es ∧ Copied P a inetAddrStrLen s') es
      (strcpyServerIp k rest) s := by
  induction rest generalizing k s with
  | nil =>
    apply Discipline.meets_pure
    intro s' hs' hothers
    refine ⟨rfl, fun honly j c _ hc => ?_⟩
    have hle := List.drop_eq_nil_iff.mp hrest
    obtain ⟨hj, -⟩ := List.getElem?_eq_some_iff.mp hc
    exact (stable_copied a k).others hothers hinv hcopied honly j c (by omega) hc
  | cons c rest ih =>
    have hc : (inetNtoa a ++ [0])[k]? = some c := by
      rw [← List.head?_drop, hrest]
      rfl
    have hnext : (inetNtoa a ++ [0]).drop (k + 1) = rest := by
      rw [← List.tail_drop, hrest]
      rfl
    obtain ⟨hk, -⟩ := List.getElem?_eq_some_iff.mp hc
    have hlt := length_inetNtoa_lt a
    rw [List.length_append, List.length_singleton] at hk
    have hk' : k < inetAddrStrLen := by omega
    rw [strcpyServerIp, dif_pos hk']
    apply Discipline.meets_write
    intro s' hs' hothers
    have hstep : HookStep P (t.sockets V) s' (s'.setByte k c hk') := .byte hk' ha hc
    refine ⟨may_of_hookStep hstep, ih hnext ((rules P V).keeps hs' (may_of_hookStep hstep)) ?_⟩
    -- the cells before this one are not touched by the others
    intro honly j c' hj hc'
    rw [Shared.byte_setByte]
    by_cases hkj : k = j
    · subst hkj
      rw [if_pos rfl]
      exact Option.some.inj (hc.symm.trans hc')
    · rw [if_neg hkj]
      exact (stable_copied a k).others hothers hinv hcopied honly j c' (by omega) hc'

theorem meets_updateSocketAndIp (a : HookAnswers) {x : Socket} {t : Thread}
    (ha : P (peerAddress a.peer)) (hx : t.sockets V x) (es : List ApiCall) (s : Shared) :
    (rules P V).Meets t (fun es' _ s' => es' = es ++ [.getpeername x] ∧
      Copied P (peerAddress a.peer) inetAddrStrLen s') es (updateSocketAndIp a x) s := by
  unfold updateSocketAndIp getIpFromSocket
  simp only [bind_assoc, pure_bind]
  apply Discipline.meets_emit
  intro s₁ hs₁ _
  apply (meets_strcpyServerIp ha _ rfl hs₁ (by intro _ k c hk; omega)).bind hs₁
  intro es' _ s₂ hs₂ ⟨hes, hcopied⟩ s₃ hs₃ hothers
  refine ⟨may_of_hookStep (.socket hx), ?_⟩
  rw [List.append_nil]
  intro s₄ hs₄ hothers'
  refine ⟨hes, ?_⟩
  have hcopied₃ := (stable_copied _ _).others hothers hs₂ hcopied
  exact (stable_copied _ _).others hothers' ((rules P V).keeps hs₃ (may_of_hookStep (.socket hx)))
    hcopied₃

/-- The pipe write of a string that is mirrored. -/
def mirrored (connected : Bool) (str bytes : Bytes) : List ApiCall :=
  if mirrors connected str then [.writeFile .created bytes] else []

/-- A string is written to the pipe, which is there. -/
theorem meets_writeToPipe {R : Type} {t : Thread} {spec : List ApiCall → R → Shared → Prop}
    {buf : Bytes} (hbuf : 0 ∈ buf) {k : Unit → Act R} {es : List ApiCall} {s : Shared}
    (hinv : (rules P V).inv s) (hplace : s.place ≠ .creating)
    (hk : ∀ s', (rules P V).inv s' → (rules P V).Others t s s' →
      (rules P V).Meets t spec (es ++ [.writeFile .created (cBody 0 buf)]) (k ()) s') :
    (rules P V).Meets t spec es
      (Prog.read Shared.gPipeServer >>= fun pipe => writeToPipe pipe buf >>= k) s := by
  apply Discipline.meets_read
  intro s' hs' hothers
  have hhandle : s'.gPipeServer = .created :=
    hs'.2.handle (stable_place.others hothers hinv hplace)
  simp only [writeToPipe, cString, scan_of_mem hbuf, bind_assoc, hhandle]
  apply Discipline.meets_access
  apply Discipline.meets_emit
  intro s'' hs'' hothers'
  rw [take_length_cBody]
  exact hk s'' hs'' (hothers.trans hothers')

/-- The end of a hook: the string is mirrored when a client is connected and the string is ASCII. -/
theorem meets_mirror {R : Type} {t : Thread} {spec : List ApiCall → R → Shared → Prop}
    {str buf : Bytes} (hbuf : mirrors true str = true → 0 ∈ buf) {r : R} {write : Act R}
    (hwrite : mirrors true str = true → write =
      Prog.read Shared.gPipeServer >>= fun pipe => writeToPipe pipe buf >>= fun _ => pure r)
    {es : List ApiCall} {s : Shared}
    (hspec : ∀ connected s', (rules P V).inv s' → (rules P V).Others t s s' →
      spec (es ++ mirrored connected str (cBody 0 buf)) r s') :
    (rules P V).Meets t spec es (Prog.read Shared.gIsClientConnected >>= fun connected =>
      if connected = true then
        if containsOnlyASCII str = true then write else pure r
      else pure r) s := by
  apply Discipline.meets_read
  intro s' hs' hothers
  have hquiet : ∀ connected, mirrors connected str = false →
      (rules P V).Meets t spec es (pure r) s' := by
    intro connected hno
    apply Discipline.meets_pure
    intro s'' hs'' hothers'
    simpa [mirrored, hno] using hspec connected s'' hs'' (hothers.trans hothers')
  cases hflag : s'.gIsClientConnected with
  | false => exact hquiet false rfl
  | true =>
    cases hascii : containsOnlyASCII str with
    | false => exact hquiet true (by rw [mirrors, hascii]; rfl)
    | true =>
      have hyes : mirrors true str = true := by rw [mirrors, hascii]; rfl
      rw [if_pos rfl, if_pos rfl, hwrite hyes]
      apply meets_writeToPipe (hbuf hyes) hs' (hs'.2.flag hflag)
      intro s'' hs'' hothers'
      apply Discipline.meets_pure
      intro u hu hothers''
      simpa [mirrored, hyes] using hspec true u hu (hothers.trans (hothers'.trans hothers''))

/-- What a call of `MySend` shows. -/
def sendShown (x : Socket) (buf : Bytes) (len flags : Int) (connected : Bool) : List ApiCall :=
  [.getpeername x, .send x (buf.take len.toNat) len flags] ++
    mirrored connected (cBody 0 buf) (cBody 0 buf)

theorem meets_mySend (a : HookAnswers) (real : SendAnswer) {x : Socket} {buf : Bytes}
    (len flags : Int) {t : Thread} (ha : P (peerAddress a.peer)) (hx : t.sockets V x)
    (hbuf : 0 ∈ buf) (es : List ApiCall) {s : Shared} (hinv : (rules P V).inv s) :
    (rules P V).Meets t (fun es' r s' => r = real.result ∧
      (∃ connected, es' = es ++ sendShown x buf len flags connected) ∧
      Copied P (peerAddress a.peer) inetAddrStrLen s') es (mySend a real x buf len flags) s := by
  unfold mySend
  apply (meets_updateSocketAndIp a ha hx es s).bind hinv
  rintro _ _ s₁ hs₁ ⟨rfl, hcopied⟩
  simp only [cString, scan_of_mem hbuf, pSend, bind_assoc, pure_bind]
  apply Discipline.meets_access
  apply Discipline.meets_emit
  intro s₂ hs₂ hothers₂
  apply meets_mirror (fun _ => hbuf) (fun _ => rfl)
  intro connected s₃ hs₃ hothers₃
  refine ⟨rfl, ⟨connected, ?_⟩, (stable_copied _ _).others (hothers₂.trans hothers₃) hs₁ hcopied⟩
  simp [sendShown, List.append_assoc]

/-- What a call of a hook shows. -/
def shows : GameCall → Bool → List ApiCall
  | .send _ _ x buf len flags, connected => sendShown x buf len flags connected
  | .recv _ real x buf len flags, connected =>
      [.getpeername x, .recv x len flags] ++
        mirrored connected (cBody 0 buf) (cBody 0 (store real.stored buf))
  | .connect _ _ x name namelen, _ => [.connect x name namelen, .getpeername x]

/-- What the game gets from the real function: the return value and the memory at its pointer. -/
def directResult (call : GameCall) : Int × Bytes :=
  ((directly 0 call).result, (directly 0 call).buffer)

/-- A call of the game returns what the real function returns, and has made the real call. -/
theorem meets_hooked {call : GameCall} {t : Thread} (ha : P (peerAddress call.peer))
    (hx : t.sockets V call.socket) (hterm : call.Terminated true) (es : List ApiCall) {s : Shared}
    (hinv : (rules P V).inv s) :
    (rules P V).Meets t (fun es' r s' => r = directResult call ∧
      (∃ connected, es' = es ++ shows call connected) ∧
      Copied P (peerAddress call.peer) inetAddrStrLen s') es (hooked call) s := by
  cases call with
  | send a real x buf len flags =>
    unfold hooked
    apply (meets_mySend a real len flags ha hx hterm es hinv).bind hinv
    rintro _ r s₁ hs₁ ⟨rfl, ⟨connected, rfl⟩, hcopied⟩
    apply Discipline.meets_pure
    intro s₂ hs₂ hothers
    exact ⟨rfl, ⟨connected, rfl⟩, (stable_copied _ _).others hothers hs₁ hcopied⟩
  | recv a real x buf len flags =>
    obtain ⟨hbuf, hstored⟩ : recvTerminated true real buf := hterm
    unfold hooked myRecv
    apply (meets_updateSocketAndIp a ha hx es s).bind hinv
    rintro _ _ s₁ hs₁ ⟨rfl, hcopied⟩
    simp only [cString, scan_of_mem hbuf, pRecv, bind_assoc, pure_bind]
    apply Discipline.meets_access
    apply Discipline.meets_emit
    intro s₂ hs₂ hothers₂
    apply meets_mirror hstored (fun hyes => by rw [scan_of_mem (hstored hyes)]; rfl)
    intro connected s₃ hs₃ hothers₃
    refine ⟨rfl, ⟨connected, ?_⟩, (stable_copied _ _).others (hothers₂.trans hothers₃) hs₁ hcopied⟩
    simp [shows, GameCall.socket, List.append_assoc]
  | connect a real x name namelen =>
    unfold hooked myConnect pConnect
    simp only [bind_assoc, pure_bind]
    apply Discipline.meets_emit
    intro s₁ hs₁ _
    apply (meets_updateSocketAndIp a ha hx _ s₁).bind hs₁
    rintro _ _ s₂ hs₂ ⟨rfl, hcopied⟩
    apply Discipline.meets_read
    intro s₃ hs₃ hothers₃
    apply Discipline.meets_pure
    intro s₄ hs₄ hothers₄
    refine ⟨rfl, ⟨true, ?_⟩, (stable_copied _ _).others (hothers₃.trans hothers₄) hs₂ hcopied⟩
    simp [shows, GameCall.socket, List.append_assoc]

/-! ## The server thread -/

/-- A string that was read from `g_ServerIp[k]` on while others wrote. -/
structure ScannedFrom (P : InAddr → Prop) (k : Nat) (s : Shared) (str : Bytes) : Prop where
  spliced : ∀ i c, str[i]? = some c → ∃ a, P a ∧ (inetNtoa a)[k + i]? = some c
  started : k = 0 → s.byte 0 ≠ 0 → str ≠ []
  whole : ∀ a, (∀ b, P b → b = a) → Copied P a inetAddrStrLen s → str = (inetNtoa a).drop k

/-- The byte that is read where a copied address stands. -/
theorem byte_of_copied {a : InAddr} (honly : ∀ b, P b → b = a) {s : Shared} (hs : Spliced P s)
    (hcopied : Copied P a inetAddrStrLen s) (k : Nat) :
    s.byte k = 0 ∧ (inetNtoa a).length ≤ k ∨ s.byte k ≠ 0 ∧ (inetNtoa a)[k]? = some (s.byte k) := by
  have hlt := length_inetNtoa_lt a
  by_cases hzero : s.byte k = 0
  · left
    refine ⟨hzero, ?_⟩
    by_contra hk
    obtain ⟨c, hc⟩ : ∃ c, (inetNtoa a)[k]? = some c :=
      ⟨_, List.getElem?_eq_getElem (Nat.lt_of_not_le hk)⟩
    have hbyte : s.byte k = c := by
      apply hcopied honly k c (by omega)
      rw [List.getElem?_append_left (Nat.lt_of_not_le hk)]
      exact hc
    apply zero_not_mem_inetNtoa a
    rw [← hzero, hbyte]
    exact List.mem_of_getElem? hc
  · right
    obtain ⟨b, hb, hc⟩ := hs k hzero
    obtain rfl := honly b hb
    exact ⟨hzero, hc⟩

/-- A string is read to its end, whatever the hooks write meanwhile. -/
theorem meets_scanServerIp {t : Thread} {es : List ApiCall} (n : Nat) (hpos : 0 < n)
    (hle : n ≤ inetAddrStrLen) {s : Shared} (hinv : (rules P V).inv s) :
    (rules P V).Meets t (fun es' str s' => es' = es ∧
      ScannedFrom P (inetAddrStrLen - n) s str ∧
      (n = inetAddrStrLen → str ≠ [] → s'.byte 0 ≠ 0)) es (scanServerIp n) s := by
  induction n generalizing s with
  | zero => cases hpos
  | succ n ih =>
    unfold scanServerIp
    apply Discipline.meets_read
    intro s₁ hs₁ hothers
    have hcopied : ∀ a, Copied P a inetAddrStrLen s → Copied P a inetAddrStrLen s₁ :=
      fun a => (stable_copied a _).others hothers hinv
    have hfirst : s.byte 0 ≠ 0 → s₁.byte 0 ≠ 0 := stable_first_byte.others hothers hinv
    generalize hk : inetAddrStrLen - (n + 1) = k
    by_cases hzero : s₁.byte k = 0
    · rw [if_pos hzero]
      apply Discipline.meets_pure
      intro s₂ _ _
      refine ⟨rfl, ⟨by simp, fun hk0 hne => ?_, fun a honly hwhole => ?_⟩, by simp⟩
      · subst hk0
        exact absurd hzero (hfirst hne)
      · rcases byte_of_copied honly hs₁.1 (hcopied a hwhole) k with ⟨-, hlen⟩ | ⟨hne, -⟩
        · exact (List.drop_eq_nil_of_le hlen).symm
        · exact absurd hzero hne
    · rw [if_neg hzero]
      -- the last byte is a terminator, so this is not the last one
      have hn : 0 < n := by
        by_contra hn
        obtain rfl : n = 0 := Nat.eq_zero_of_not_pos hn
        rw [← hk] at hzero
        exact hzero (last_byte hs₁.1)
      have hnext : inetAddrStrLen - n = k + 1 := by omega
      have hstays : (rules P V).Stable fun s => n + 1 = inetAddrStrLen → s.byte 0 ≠ 0 :=
        fun u s s' hs hmay hfirst heq => stable_first_byte u s s' hs hmay (hfirst heq)
      have hnow : n + 1 = inetAddrStrLen → s₁.byte 0 ≠ 0 := by
        intro heq
        rwa [show k = 0 by omega] at hzero
      apply ((ih hn (by omega) hs₁).frame hstays hs₁ hnow).bind hs₁
      rintro _ rest s₂ hs₂ ⟨⟨rfl, hrest, -⟩, hfirst₂⟩
      rw [hnext] at hrest
      apply Discipline.meets_pure
      intro s₃ _ hothers₃
      refine ⟨rfl, ⟨fun i c hc => ?_, by simp, fun a honly hwhole => ?_⟩, fun heq _ => ?_⟩
      · cases i with
        | zero =>
          obtain rfl := Option.some.inj hc
          exact hs₁.1 k hzero
        | succ i =>
          obtain ⟨a, ha, hi⟩ := hrest.spliced i c hc
          refine ⟨a, ha, ?_⟩
          rw [← hi]
          congr 1
          omega
      · rcases byte_of_copied honly hs₁.1 (hcopied a hwhole) k with ⟨hyes, -⟩ | ⟨-, hbyte⟩
        · exact absurd hyes hzero
        · obtain ⟨hlt, hget⟩ := List.getElem?_eq_some_iff.mp hbyte
          rw [hrest.whole a honly (hcopied a hwhole), List.drop_eq_getElem_cons hlt, hget]
      · exact stable_first_byte.others hothers₃ hs₂ (hfirst₂ heq)

/-- The address in the answer to a `!getserver` that came when the globals were `s`. -/
structure Answered (P : InAddr → Prop) (s : Shared) (ip : Bytes) : Prop where
  /-- Every byte stands where it stands in the address of a peer. -/
  spliced : ∀ (i : Nat) (c : UInt8), ip[i]? = some c → ∃ a, P a ∧ (inetNtoa a)[i]? = some c
  nonempty : ip ≠ []
  /-- When there is one address only, and it was copied before, it is the answer. -/
  whole : ∀ a, (∀ b, P b → b = a) → Copied P a inetAddrStrLen s → ip = inetNtoa a

theorem Answered.length_lt {s : Shared} {ip : Bytes} (h : Answered P s ip) :
    ip.length < inetAddrStrLen := by
  obtain ⟨n, hn⟩ := Nat.exists_eq_add_of_lt (List.length_pos_of_ne_nil h.nonempty)
  obtain ⟨a, -, ha⟩ := h.spliced (ip.length - 1) _ (List.getElem?_eq_getElem (by omega))
  obtain ⟨hlt, -⟩ := List.getElem?_eq_some_iff.mp ha
  have := length_inetNtoa_lt a
  omega

theorem Answered.noNul {s : Shared} {ip : Bytes} (h : Answered P s ip) : 0 ∉ ip := by
  intro hzero
  obtain ⟨i, hi⟩ := List.mem_iff_getElem?.mp hzero
  obtain ⟨a, -, ha⟩ := h.spliced i 0 hi
  exact zero_not_mem_inetNtoa a (List.mem_of_getElem? ha)

theorem zero_not_mem_setserver {ip : Bytes} (h : 0 ∉ ip) : 0 ∉ setserverReply ++ ip := by
  have hreply : 0 ∉ setserverReply := by decide
  simp [hreply, h]

theorem length_setserver_lt {ip : Bytes} (h : ip.length < inetAddrStrLen) :
    (setserverReply ++ ip).length < buffSize := by
  have hreply : setserverReply.length = 11 := rfl
  rw [List.length_append, hreply]
  simp only [inetAddrStrLen] at h
  simp only [buffSize]
  omega

/-- What was there when a call began, as far as no thread takes it away. -/
def Kept (P : InAddr → Prop) (s s' : Shared) : Prop :=
  (s.place ≠ .creating → s'.place ≠ .creating) ∧
    ∀ a, Copied P a inetAddrStrLen s → Copied P a inetAddrStrLen s'

theorem stable_kept (s : Shared) : (rules P V).Stable (Kept P s) := by
  intro t s₁ s₂ hs hmay ⟨hplace, hcopied⟩
  exact ⟨fun h => stable_place t s₁ s₂ hs hmay (hplace h),
    fun a h => stable_copied a _ t s₁ s₂ hs hmay (hcopied a h)⟩

theorem Kept.refl (s : Shared) : Kept P s s :=
  ⟨id, fun _ => id⟩

/-- `!getserver` is answered once, with an address, or nothing was copied yet. -/
theorem meets_sendServer {t : Thread} (es : List ApiCall) {s : Shared}
    (hinv : (rules P V).inv s) (hplace : s.place ≠ .creating) :
    (rules P V).Meets t (fun es' _ _ => es' = es ∧ s.byte 0 = 0 ∨
      ∃ ip, Answered P s ip ∧ es' = es ++ [.writeFile .created (setserverReply ++ ip)]) es
      sendServer s := by
  unfold sendServer
  apply ((meets_scanServerIp inetAddrStrLen (by decide) le_rfl hinv).frame (stable_kept s) hinv
    (Kept.refl s)).bind hinv
  rintro _ str s₁ hs₁ ⟨⟨rfl, hstr, hfirst⟩, hkept₁⟩
  by_cases hempty : str = []
  · -- the array is still empty
    rw [if_neg (by simp [hempty])]
    apply Discipline.meets_pure
    intro _ _ _
    refine .inl ⟨rfl, ?_⟩
    by_contra hne
    exact hstr.started (Nat.sub_self _) hne hempty
  · rw [if_pos (List.length_pos_of_ne_nil hempty)]
    apply ((meets_scanServerIp inetAddrStrLen (by decide) le_rfl hs₁).frame (stable_kept s) hs₁
      hkept₁).bind hs₁
    rintro _ ip s₂ hs₂ ⟨⟨rfl, hip, -⟩, hplace₂, -⟩
    rw [Nat.sub_self] at hip
    have hanswered : Answered P s ip := by
      refine ⟨fun i c hc => ?_, hip.started rfl (hfirst rfl hempty), fun a honly hwhole => ?_⟩
      · obtain ⟨a, ha, hget⟩ := hip.spliced i c hc
        exact ⟨a, ha, by rwa [Nat.zero_add] at hget⟩
      · exact hip.whole a honly (hkept₁.2 a hwhole)
    have hlt := length_setserver_lt hanswered.length_lt
    have hbody := cBody_store_zeros hlt
    rw [cBody_of_not_mem (zero_not_mem_setserver hanswered.noNul)] at hbody
    rw [← bind_pure (Prog.read Shared.gPipeServer >>= _), bind_assoc]
    apply meets_writeToPipe (zero_mem_store_zeros hlt) hs₂ (hplace₂ hplace)
    intro s₃ hs₃ _
    apply Discipline.meets_pure
    intro _ _ _
    rw [hbody]
    exact .inr ⟨ip, hanswered, rfl⟩

/-- A lookup makes its calls and finds a socket. -/
theorem privately_findSocketByIpAddr (a : FinderAnswers) (ipaddr : Bytes) :
    privately (findSocketByIpAddr a ipaddr) =
      Prog.emit (a.calls ipaddr) >>= fun _ => pure (a.foundSocket ipaddr) := by
  obtain ⟨err, hrun⟩ := run_findSocketByIpAddr a ipaddr ⟨.init, 0, []⟩
  rw [privately, hrun]
  rfl

/-- The first packet to a socket that was looked up. -/
theorem sendShown_whoami (x : Socket) (connected : Bool) :
    sendShown x (store whoami (zeros buffSize)) 4 0 connected =
      sendShown x (whoami ++ [0]) 4 0 connected := by
  have hbody : cBody 0 (store whoami (zeros buffSize)) = cBody 0 (whoami ++ [0]) :=
    (cBody_store_zeros (by decide)).trans (by decide)
  have htake : (store whoami (zeros buffSize)).take (4 : Int).toNat =
      (whoami ++ [0]).take (4 : Int).toNat := by decide
  rw [sendShown, sendShown, hbody, htake]

theorem meets_findSocketFor (a : ServeAnswers) (socketStr : Bytes)
    (ha : P (peerAddress a.hook.peer)) (es : List ApiCall) (s : Shared) :
    (rules P V).Meets .server (fun es' _ _ => ∃ connected, es' = es ++ a.finder.calls socketStr ++
      sendShown (a.finder.foundSocket socketStr) (whoami ++ [0]) 4 0 connected) es
      (findSocketFor a socketStr) s := by
  unfold findSocketFor
  rw [privately_findSocketByIpAddr]
  simp only [bind_assoc, pure_bind]
  apply Discipline.meets_emit
  intro s₁ hs₁ _
  apply Discipline.meets_write
  intro s₂ hs₂ _
  have hany : Thread.server.sockets V (a.finder.foundSocket socketStr) := trivial
  have hfound : HookStep P (Thread.server.sockets V) s₂
      { s₂ with gSocket := a.finder.foundSocket socketStr } := .socket hany
  refine ⟨may_of_hookStep hfound, ?_⟩
  have hmem : (0 : UInt8) ∈ store whoami (zeros buffSize) := zero_mem_store_zeros (by decide)
  have hbody : cBody 0 (store whoami (zeros buffSize)) = whoami :=
    (cBody_store_zeros (by decide)).trans (by decide)
  simp only [cString, scan_of_mem hmem, hbody]
  apply Discipline.meets_access
  have hs₃ := (rules P V).keeps hs₂ (may_of_hookStep hfound)
  apply (meets_mySend a.hook a.send _ _ ha hany hmem _ hs₃).bind hs₃
  rintro _ _ s₄ _ ⟨-, ⟨connected, rfl⟩, -⟩
  apply Discipline.meets_pure
  intro _ _ _
  refine ⟨connected, ?_⟩
  rw [← sendShown_whoami]
  rfl

/-- The other threads store sockets of the game only. -/
theorem socket_of_others {s s' : Shared} (h : (rules P V).Others .server s s')
    (hinv : (rules P V).inv s) (hsocket : s.gSocket ≠ invalidSocket ∨ V s.gSocket) :
    s'.gSocket ≠ invalidSocket ∨ V s'.gSocket := by
  refine Discipline.others_keep (P := fun s => s.gSocket ≠ invalidSocket ∨ V s.gSocket)
    (fun s₁ s₂ _ hother hs => ?_) h hinv hsocket
  obtain ⟨u, hu, hhook | ⟨hserver, -⟩⟩ := hother
  · cases u with
    | server => exact absurd rfl hu
    | game id =>
      cases hhook with
      | idle => exact hs
      | byte => exact hs
      | socket hx => exact .inr hx
  · exact absurd hserver hu

/-- A packet goes to a socket that is valid, or that the game has passed in. -/
theorem meets_forwardPacket (a : ServeAnswers) {data : Bytes} (read : Nat)
    (ha : P (peerAddress a.hook.peer)) (hdata : 0 ∈ data) (es : List ApiCall) {s : Shared} :
    (rules P V).Meets .server (fun es' _ _ => es' = es ∨ ∃ x connected,
      (x ≠ invalidSocket ∨ V x) ∧ es' = es ++ sendShown x data read 0 connected) es
      (forwardPacket a data read) s := by
  unfold forwardPacket
  apply Discipline.meets_read
  intro s₁ hs₁ _
  by_cases hvalid : s₁.gSocket ≠ invalidSocket
  · rw [if_pos hvalid]
    apply Discipline.meets_read
    intro s₂ hs₂ hothers
    have hany : Thread.server.sockets V s₂.gSocket := trivial
    apply (meets_mySend a.hook a.send read 0 ha hany hdata es hs₂).bind hs₂
    rintro _ _ s₃ _ ⟨-, ⟨connected, rfl⟩, -⟩
    apply Discipline.meets_pure
    intro _ _ _
    exact .inr ⟨s₂.gSocket, connected, socket_of_others hothers hs₁ (.inl hvalid), rfl⟩
  · rw [if_neg hvalid]
    apply Discipline.meets_pure
    intro _ _ _
    exact .inl rfl

/-- What is shown while a message is served that came when the globals were `s`. -/
def MessageShown (P : InAddr → Prop) (V : Socket → Prop) (a : ServeAnswers) (data : Bytes)
    (read : Nat) (s : Shared) (es : List ApiCall) : Prop :=
  match branchOf (cBody 0 data) with
  | .dettach => es = []
  | .getserver => es = [] ∧ s.byte 0 = 0 ∨
      ∃ ip, Answered P s ip ∧ es = [.writeFile .created (setserverReply ++ ip)]
  | .findsocketfor socketStr => ∃ connected, es = a.finder.calls socketStr ++
      sendShown (a.finder.foundSocket socketStr) (whoami ++ [0]) 4 0 connected
  | .forward => es = [] ∨ ∃ x connected,
      (x ≠ invalidSocket ∨ V x) ∧ es = sendShown x data read 0 connected

theorem meets_dispatch (a : ServeAnswers) {data : Bytes} (read : Nat)
    (ha : P (peerAddress a.hook.peer)) (hdata : 0 ∈ data) {s : Shared}
    (hinv : (rules P V).inv s) (hplace : s.place ≠ .creating) :
    (rules P V).Meets .server (fun es _ s' => MessageShown P V a data read s es ∧
      s'.place ≠ .creating) [] (dispatch a data read) s := by
  refine Discipline.Meets.frame ?_ stable_place hinv hplace
  simp only [dispatch, cString, scan_of_mem hdata]
  apply Discipline.meets_access
  unfold MessageShown branchOf
  cases strstr dettachCmd (cBody 0 data) with
  | some found => exact Discipline.meets_pure fun _ _ _ => rfl
  | none =>
    cases strstr getserverCmd (cBody 0 data) with
    | some found =>
      apply (meets_sendServer [] hinv hplace).bind hinv
      intro es _ s₁ _ hshown
      exact Discipline.meets_pure fun _ _ _ => hshown
    | none =>
      cases strstr findsocketforCmd (cBody 0 data) with
      | some found =>
        apply (meets_findSocketFor a _ ha [] s).bind hinv
        intro es _ s₁ _ hshown
        exact Discipline.meets_pure fun _ _ _ => hshown
      | none =>
        apply (meets_forwardPacket a read ha hdata []).bind hinv
        intro es _ s₁ _ hshown
        exact Discipline.meets_pure fun _ _ _ => hshown

/-- The server thread alone decides where it is, and it alone writes the handle and the flags. -/
structure Own (s s' : Shared) : Prop where
  place : s'.place = s.place
  handle : s'.gPipeServer = s.gPipeServer
  flag : s'.gIsClientConnected = s.gIsClientConnected

theorem own_of_others {s s' : Shared} (h : (rules P V).Others .server s s')
    (hinv : (rules P V).inv s) : Own s s' := by
  refine Discipline.others_keep (P := Own s) (fun s₁ s₂ _ hother hown => ?_) h hinv ⟨rfl, rfl, rfl⟩
  obtain ⟨u, hu, hhook | ⟨hserver, -⟩⟩ := hother
  · cases hhook <;> exact ⟨hown.place, hown.handle, hown.flag⟩
  · exact absurd hserver hu

/-- Behind the loop that creates the pipe, the server thread may go anywhere and set the flags. -/
theorem passStep_of_created {s : Shared} (hplace : s.place ≠ .creating) (flag waiting : Bool)
    {place : Place} (hplace' : place ≠ .creating) :
    PassStep s { s with
      gIsClientConnected := flag
      gIsPipeServerWaitingForClients := waiting
      place := place } :=
  ⟨rfl, rfl, fun hplaced => ⟨fun _ => hplaced.handle hplace, fun _ => hplace'⟩, fun _ => hplace'⟩

/-- A write of the server thread behind the loop that creates the pipe. -/
theorem meets_set {R : Type} {spec : List ApiCall → R → Shared → Prop} {k : Unit → Act R}
    {es : List ApiCall} {s : Shared} (hinv : (rules P V).inv s) (hplace : s.place ≠ .creating)
    {f : Shared → Shared} (hf : ∀ s, s.place ≠ .creating → PassStep s (f s))
    (hk : ∀ s', (rules P V).inv s' → s'.place ≠ .creating →
      (rules P V).Meets .server spec es (k ()) s') :
    (rules P V).Meets .server spec es (Prog.write f >>= k) s := by
  apply Discipline.meets_write
  intro s₁ hs₁ hothers
  have hplace₁ := stable_place.others hothers hinv hplace
  have hmay : (rules P V).may .server s₁ (f s₁) := .inr ⟨rfl, hf s₁ hplace₁⟩
  exact ⟨hmay, hk _ ((rules P V).keeps hs₁ hmay) (place_of_step hmay hplace₁)⟩

/-- The server thread goes on behind the loop that creates the pipe. -/
theorem meets_goTo {es : List ApiCall} {s : Shared} (hinv : (rules P V).inv s)
    (hplace : s.place ≠ .creating) {place : Place} (hplace' : place ≠ .creating) :
    (rules P V).Meets .server (fun es' _ _ => es' = es) es (Pass.goTo place) s := by
  rw [← bind_pure (Pass.goTo place)]
  exact meets_set hinv hplace (fun s hs => passStep_of_created hs _ _ hplace')
    fun _ _ _ => Discipline.meets_pure fun _ _ _ => rfl

theorem meets_createPipeServer (answer : Handle) {es : List ApiCall} {s : Shared}
    (hinv : (rules P V).inv s) (hplace : s.place = .creating) :
    (rules P V).Meets .server (fun es' _ _ => es' = es) es (Pass.createPipeServer answer) s := by
  unfold Pass.createPipeServer
  apply Discipline.meets_write
  intro s₁ hs₁ hothers
  have hplace₁ : s₁.place = .creating := (own_of_others hothers hinv).place.trans hplace
  have hmay : (rules P V).may .server s₁ { s₁ with gPipeServer := answer } :=
    .inr ⟨rfl, rfl, rfl, fun hplaced => ⟨fun hne => absurd hplace₁ hne, hplaced.flag⟩,
      fun hne => absurd hplace₁ hne⟩
  refine ⟨hmay, ?_⟩
  have hs₂ := (rules P V).keeps hs₁ hmay
  apply Discipline.meets_read
  intro s₃ hs₃ hothers₃
  by_cases hcreated : s₃.gPipeServer = .created
  · rw [if_pos hcreated]
    intro s₄ hs₄ hothers₄
    have hhandle : s₄.gPipeServer = .created :=
      (own_of_others hothers₄ hs₃).handle.trans hcreated
    refine ⟨.inr ⟨rfl, rfl, rfl, fun _ => ⟨fun _ => hhandle, ?_⟩, ?_⟩, ?_⟩
    · intro _ h
      cases h
    · intro _ h
      cases h
    · rw [List.append_nil]
      exact fun _ _ _ => rfl
  · rw [if_neg hcreated]
    exact Discipline.meets_pure fun _ _ _ => rfl

theorem meets_waitForClient (answer : Except ErrorCode Unit) {es : List ApiCall} {s : Shared}
    (hinv : (rules P V).inv s) (hplace : s.place ≠ .creating) :
    (rules P V).Meets .server (fun es' _ _ => es' = es) es (Pass.waitForClient answer) s := by
  unfold Pass.waitForClient
  have hflags : ∀ (flag : Bool) (s : Shared), s.place ≠ .creating →
      PassStep s { s with gIsClientConnected := flag } :=
    fun flag s hs => passStep_of_created hs flag _ hs
  have hwaiting : ∀ (waiting : Bool) (s : Shared), s.place ≠ .creating →
      PassStep s { s with gIsPipeServerWaitingForClients := waiting } :=
    fun waiting s hs => passStep_of_created hs _ waiting hs
  have hend : ∀ s, (rules P V).inv s → s.place ≠ .creating →
      (rules P V).Meets .server (fun es' _ _ => es' = es) es
        (Prog.write fun s => { s with gIsClientConnected := false }) s := by
    intro s hs hplace
    rw [← bind_pure (Prog.write _)]
    exact meets_set hs hplace (hflags false) fun _ _ _ => Discipline.meets_pure fun _ _ _ => rfl
  apply Discipline.meets_read
  intro s₁ hs₁ hothers₁
  have hplace₁ := stable_place.others hothers₁ hinv hplace
  cases s₁.gIsClientConnected with
  | true => exact meets_goTo hs₁ hplace₁ (by simp)
  | false =>
    apply meets_set hs₁ hplace₁ (hflags _)
    intro s₂ hs₂ hplace₂
    apply Discipline.meets_read
    intro s₃ hs₃ hothers₃
    have hplace₃ := stable_place.others hothers₃ hs₂ hplace₂
    cases s₃.gIsClientConnected with
    | true =>
      apply meets_set hs₃ hplace₃ (hflags true)
      intro s₄ hs₄ hplace₄
      apply meets_set hs₄ hplace₄ (hwaiting false)
      intro s₅ hs₅ hplace₅
      exact meets_goTo hs₅ hplace₅ (by simp)
    | false =>
      apply Discipline.meets_read
      intro s₄ hs₄ hothers₄
      have hplace₄ := stable_place.others hothers₄ hs₃ hplace₃
      cases s₄.gIsPipeServerWaitingForClients with
      | true => exact hend s₄ hs₄ hplace₄
      | false => exact meets_set hs₄ hplace₄ (hwaiting true) hend

theorem meets_noMessage (code : ErrorCode) {es : List ApiCall} {s : Shared}
    (hinv : (rules P V).inv s) (hplace : s.place ≠ .creating) :
    (rules P V).Meets .server (fun es' _ _ => es' = es) es (Pass.noMessage code) s := by
  unfold Pass.noMessage
  by_cases hbroken : code = errorBrokenPipe
  · rw [if_pos hbroken]
    apply meets_set hinv hplace (fun s hs => passStep_of_created hs false _ hs)
    intro s' hs' hplace'
    exact meets_goTo hs' hplace' (by simp)
  · rw [if_neg hbroken]
    exact Discipline.meets_pure fun _ _ _ => rfl

theorem meets_serveMessage (a : ServeAnswers) {data : Bytes} (read : Nat)
    (ha : P (peerAddress a.hook.peer)) (hdata : 0 ∈ data) {s : Shared}
    (hinv : (rules P V).inv s) (hplace : s.place ≠ .creating) :
    (rules P V).Meets .server (fun es _ _ => MessageShown P V a data read s es) []
      (Pass.serveMessage a data read) s := by
  unfold Pass.serveMessage
  apply (meets_dispatch a read ha hdata hinv hplace).bind hinv
  intro es br s₁ hs₁ ⟨hshown, hplace₁⟩
  by_cases hdettach : br = .dettach
  · rw [if_pos hdettach]
    apply (meets_goTo hs₁ hplace₁ (by simp)).mono
    rintro _ _ _ _ rfl
    exact hshown
  · rw [if_neg hdettach]
    exact Discipline.meets_pure fun _ _ _ => hshown

end Doreto.Interop.Threads
