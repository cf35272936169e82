import Libasync.Reactor.Connecting
import Libasync.Reactor.Numbers

/-! # The two closing orders

A socket is closed by `close` and by its peer. The local `close` of a connected socket closes the
descriptor, and with it the way on which the peer's close would be read. -/

namespace Libasync.Reactor

open Promise Socket Automaton

variable {V E F : Type*}

/-! ### Sockets and their peers -/

/-- The machine, the sockets whose peers have closed their side, and the sockets on which `close`
has been called. -/
structure Net (V E F : Type*) where
  config : Config V E F := {}
  peerClosed : List ℕ := []
  closedLocally : List ℕ := []

inductive NetLabel where
  | peerCloses (i : ℕ)
  | code (l : Label)
  deriving DecidableEq, Repr

/-- A `close` of an established connection that does not throw. -/
def closeReturns (answer : Answer) (sock : SocketObject) : Bool :=
  !unconnected sock.status &&
    (decide (sock.status = .closed ∨ sock.fd < 0) || answer matches .ret _)

/-- The socket that a step closes locally. -/
def Config.closes? (c : Config V E F) (l : Label) : Option ℕ :=
  match c.stack with
  | frame :: _ =>
      match closeCall? frame l with
      | some (i, answer) =>
          if (c.world.sockets[i]?).any (closeReturns answer) then some i else none
      | none => none
  | [] => none

/-- A read returns the end of file when the peer has closed its side. -/
def netStep [Blank V] (backend : Backend) (n : Net V E F) : NetLabel → Option (Net V E F)
  | .peerCloses i =>
      if (n.config.world.status? i).any (· ≠ .idle) && !n.peerClosed.contains i then
        some { n with peerClosed := i :: n.peerClosed }
      else none
  | .code l =>
      if (n.config.stack.head?.bind fun frame => readsEof? frame l).all n.peerClosed.contains then
        (step backend n.config l).map fun config =>
          { n with config, closedLocally := (n.config.closes? l).toList ++ n.closedLocally }
      else none

/-! ### What is to hold -/

/-- The status is `CLOSED`, "close" has fired once, and neither a descriptor nor an entry in the
table is left. -/
structure Config.ClosedDown (c : Config V E F) (i : ℕ) : Prop where
  status : c.world.status? i = some .closed
  once : (fired i c.world.log).count .close = 1
  descriptor : ∀ n, c.world.descriptors n ≠ some (some (.socket i))
  entry : ∀ n, c.world.table n ≠ some (some (.socket i))

/-- When both sides have closed, and no call of `close` is still running, the socket is closed
down. A run that has crashed goes no further. -/
def Net.OrdersAgree (n : Net V E F) (i : ℕ) : Prop :=
  i ∈ n.closedLocally → i ∈ n.peerClosed → n.config.stack ≠ [] →
    .closeTail i ∉ n.config.stack → n.config.ClosedDown i

/-! ### The condition -/

/-- The socket takes an end of file when it is half closed or closed. -/
def Config.takesLateEof (i : ℕ) (c : Config V E F) (l : Label) : Bool :=
  match c.stack, l with
  | .readTail k true _ _ :: _, .tau =>
      decide (k = i) && (c.world.status? i).any fun status =>
        decide (status = .halfClosed ∨ status = .closed)
  | _, _ => false

/-- An exception leaves a "close" handler that runs in `close`. -/
def Config.leavesClose (i : ℕ) (c : Config V E F) (l : Label) : Bool :=
  match c.stack, l with
  | .user _ :: .closeTail k :: _, .throw_ => decide (k = i)
  | _, _ => false

/-- The peer closes its side before `close` is called, and `close` is called after the end of file
was taken. -/
def Net.PeerFirst (i : ℕ) (n : Net V E F) : NetLabel → Prop
  | .peerCloses k => k = i → i ∉ n.closedLocally
  | .code l =>
      (n.config.closes? l = some i → n.config.world.status? i = some .connected →
        i ∉ n.peerClosed) ∧
      n.config.takesLateEof i l = false ∧ n.config.leavesClose i l = false

instance (i : ℕ) (n : Net V E F) : ∀ l, Decidable (n.PeerFirst i l)
  | .peerCloses _ => inferInstanceAs (Decidable (_ → _))
  | .code _ => inferInstanceAs (Decidable (_ ∧ _))

/-! ### The local close -/

namespace World

variable {w w' : World V E F} {i : ℕ} {answer : Answer} {eff : Effect} {sock : SocketObject}

/-- A `close` that throws, or of a socket that has never been connected. -/
theorem closeSocket_quiet (h : w.closeSocket i answer = some (w', eff))
    (hget : w.sockets[i]? = some sock) (hreturns : closeReturns answer sock = false) :
    Same i w w' := by
  simp only [closeSocket, hget] at h
  split at h
  · simp only [Option.some.injEq, Prod.mk.injEq] at h
    rw [← h.1]
    exact ⟨rfl, by simp [record]⟩
  · rename_i hopen
    have hconnected : unconnected sock.status = false := by
      rw [unconnected, decide_eq_false_iff_not]
      rintro (hidle | hconnecting)
      · exact hopen ⟨by simp [hidle], by simp [hidle]⟩
      · exact hopen ⟨by simp [hconnecting], by simp [hconnecting]⟩
    simp only [closeReturns, hconnected, Bool.not_false, Bool.true_and, Bool.or_eq_false_iff,
      decide_eq_false_iff_not, not_or] at hreturns
    have hfd : 0 ≤ sock.fd := Int.not_lt.mp hreturns.1.2
    rw [if_pos hfd] at h
    cases answer with
    | ret count => simp at hreturns
    | err errno =>
        simp only [Option.some.injEq, Prod.mk.injEq] at h
        rw [← h.1]
        exact ⟨rfl, by simp [record]⟩

/-- The `close` that follows an end of file. -/
theorem closeSocket_full {count : ℕ} (h : w.closeSocket i (.ret count) = some (w', eff))
    (hget : w.sockets[i]? = some sock) (hhalf : sock.status = .halfClosed) (hfd : 0 ≤ sock.fd) :
    w'.core? i = some (sock.fd, .closed) ∧ fired i w'.log = fired i w.log ++ [.close] ∧
      w'.descriptors sock.fd = none ∧ eff = .push [.user [], .closeTail i] := by
  simp only [closeSocket, hget, hhalf, hfd, closeRest, reduceCtorEq, ne_eq, not_false_eq_true,
    not_true_eq_false, and_false, and_self, if_true, if_false, Option.ite_none_right_eq_some,
    Option.some.injEq, Prod.mk.injEq] at h
  rw [← h.2.1]
  refine ⟨?_, by simp [record, modifySocket, closeFd], by simp [record, modifySocket, closeFd],
    h.2.2.symm⟩
  rw [core?_record]
  exact core?_modifySocket_self ((w.record _).closeFd _ _) hget _

end World

section Machine

variable [Blank V] {backend : Backend} {c c' : Config V E F} {l : Label} {i : ℕ}

/-- A call of `close`, by user code or after "error". -/
theorem Stepped.close_call {frame : Frame} {rest : List Frame} {answer : Answer}
    (h : Stepped backend c l c') (hstack : c.stack = frame :: rest)
    (hcall : closeCall? frame l = some (i, answer)) :
    ∃ w' eff, c.world.closeSocket i answer = some (w', eff) ∧
      c' = Config.after (frame.below rest) (w', eff) := by
  obtain ⟨w, stack⟩ := c
  obtain rfl : stack = frame :: rest := hstack
  simp only [closeCall?] at hcall
  split at hcall
  all_goals simp only [Option.some.injEq, Prod.mk.injEq, reduceCtorEq] at hcall
  all_goals obtain ⟨rfl, rfl⟩ := hcall
  · cases h with
    | user w handlers rest l w' eff call => exact ⟨w', eff, call, rfl⟩
    | library w frame rest l w' eff piece => simp [libraryStep_user] at piece
  · cases h with
    | library w frame rest l w' eff piece => exact ⟨w', eff, piece, rfl⟩

omit [Blank V] in
theorem Config.closes?_eq {frame : Frame} {rest : List Frame} {answer : Answer}
    {sock : SocketObject} (hstack : c.stack = frame :: rest)
    (hcall : closeCall? frame l = some (i, answer)) (hget : c.world.sockets[i]? = some sock) :
    c.closes? l = if closeReturns answer sock then some i else none := by
  simp [closes?, hstack, hcall, hget]

omit [Blank V] in
theorem Config.closes?_eq_some (h : c.closes? l = some i) :
    ∃ frame rest answer sock, c.stack = frame :: rest ∧ closeCall? frame l = some (i, answer) ∧
      c.world.sockets[i]? = some sock ∧ closeReturns answer sock = true := by
  simp only [closes?] at h
  split at h
  · rename_i frame rest hstack
    split at h
    · rename_i k answer hcall
      simp only [Option.ite_none_right_eq_some, Option.some.injEq, Option.any_eq_true] at h
      obtain ⟨⟨sock, hget, hreturns⟩, rfl⟩ := h
      exact ⟨frame, rest, answer, sock, hstack, hcall, hget, hreturns⟩
    · cases h
  · cases h

/-! ### A socket that is closed down -/

/-- The socket is closed down, but for the entry that a running call of `close` will remove. -/
structure Config.ClosingDown (c : Config V E F) (i : ℕ) : Prop where
  core : ∃ fd, c.world.core? i = some (fd, .closed) ∧ 0 ≤ fd
  once : (fired i c.world.log).count .close = 1
  descriptor : ∀ n, c.world.descriptors n ≠ some (some (.socket i))
  entry : .closeTail i ∈ c.stack ∨ ∀ n, c.world.table n ≠ some (some (.socket i))

/-- What leaves a closed socket closed. -/
theorem Turn.stays_closed {w w' : World V E F} {sock sock' : SocketObject} {frame : Frame}
    {eff : Effect} {names : List EventName} (h : Turn w i sock frame l w' eff sock' names)
    (hclosed : sock.status = .closed)
    (heof : ∀ slot since, frame = .readTail i true slot since → l ≠ .tau) :
    sock'.status = .closed ∧ sock'.fd = sock.fd ∧ names.count .close = 0 := by
  cases h with
  | quiet | read => exact ⟨hclosed, rfl, rfl⟩
  | wrote handlers data answers w' eff r written =>
      exact ⟨(wrote_status written).1.trans hclosed, (wrote_status written).2, rfl⟩
  | flushed since answers w' eff r settled written =>
      exact ⟨(flushed_status written).1.trans hclosed, (flushed_status written).2, rfl⟩
  | eofFirst slot since => exact absurd rfl (heof slot since rfl)
  | eofAgain slot since => exact absurd rfl (heof slot since rfl)
  | connected handlers count w' idle => simp [idle] at hclosed
  | connecting handlers w' idle => simp [idle] at hclosed
  | halfClosed frame l answer w' call connected => simp [connected] at hclosed
  | fullClosed frame l count w' call half => simp [half] at hclosed
  | established since w' pending => simp [pending] at hclosed
  | refused since answer w' pending => simp [pending] at hclosed

/-- The tail that unregisters a number does so when the "close" handlers have returned. -/
theorem Stepped.unregisters (h : Stepped backend c l c') (hs : c.Sound) {n : Fd}
    (hn : c.world.fd? i = some n) (halive : c'.stack ≠ []) {frame : Frame}
    (hframe : frame.unregisters? = some i) (hmem : frame ∈ c.stack) :
    frame ∈ c'.stack ∨ c'.world.table n = none ∨
      ∃ handlers rest, l = .throw_ ∧ c.stack = .user handlers :: frame :: rest := by
  have hbase : frame.isBase = false := by
    cases frame <;> simp [Frame.unregisters?] at hframe <;> rfl
  refine (h.keeps hs.layered halive hmem hbase).imp_right (Or.imp_left ?_)
  rintro ⟨rest, w', eff, hstack, hpiece, rfl⟩
  have hunreg : ∃ frames, c.world.unregTail i frames = some (w', eff) := by
    cases frame with
    | closeTail k | closedTail k =>
        obtain rfl : k = i := by simpa [Frame.unregisters?] using hframe
        cases l with
        | tau => exact ⟨_, hpiece⟩
        | _ => cases hpiece
    | _ => simp [Frame.unregisters?] at hframe
  obtain ⟨frames, hunreg⟩ := hunreg
  rw [Config.after_world]
  exact World.unregTail_table hunreg hn

/-- The entry is removed when the "close" handlers have returned. -/
theorem Stepped.removes_entry (h : Stepped backend c l c') (hs : c.Sound)
    (hnum : c.world.Numbered i) {fd : Fd} {status : Status}
    (hcore : c.world.core? i = some (fd, status)) (hnonneg : 0 ≤ fd) (halive : c'.stack ≠ [])
    {frame : Frame} (hframe : frame.unregisters? = some i) (hmem : frame ∈ c.stack)
    (hthrow : ∀ handlers rest, c.stack = .user handlers :: frame :: rest → l ≠ .throw_) :
    frame ∈ c'.stack ∨ ∀ n, c'.world.table n ≠ some (some (.socket i)) := by
  have hfd : c.world.fd? i = some fd := World.fd?_eq_some.mpr ⟨status, hcore⟩
  rcases h.unregisters hs hfd halive hframe hmem with
    hkept | hnone | ⟨handlers, rest, hl, hstack⟩
  · exact .inl hkept
  · right
    intro n hn
    have hold := (h.entries_inv hs (by simp [hcore])).2 hn
    obtain rfl := (hnum.registered n hold).eq hfd hnonneg
    rw [hnone] at hn
    cases hn
  · exact absurd hl (hthrow handlers rest hstack)

theorem Config.ClosingDown.step (h : c.ClosingDown i) (hs : c.Sound) (hnum : c.world.Numbered i)
    (hstep : Stepped backend c l c') (halive : c'.stack ≠ [])
    (heof : c.takesLateEof i l = false) (hleaves : c.leavesClose i l = false) :
    c'.ClosingDown i := by
  obtain ⟨fd, hcore, hnonneg⟩ := h.core
  obtain ⟨sock, hget, heq⟩ := Option.map_eq_some_iff.mp hcore
  obtain ⟨rfl, hclosed⟩ := Prod.mk.inj heq
  obtain ⟨sock', names, hmoved, hget', hfired⟩ := hstep.moved hget
  have hold : c.world.core? i ≠ none := by simp [hcore]
  have hinv {n : Fd} := hstep.entries_inv hs hold (n := n)
  have hstays : sock'.status = .closed ∧ sock'.fd = sock.fd ∧ names.count .close = 0 := by
    cases hmoved with
    | stays => exact ⟨hclosed, rfl, rfl⟩
    | turns top rest w' eff sock' names stack turn =>
        refine turn.stays_closed hclosed ?_
        rintro slot since rfl rfl
        simp [takesLateEof, stack, World.status?_eq _ hget, hclosed] at heof
  obtain ⟨hclosed', hfd', hnames⟩ := hstays
  refine ⟨⟨sock'.fd, ?_, by rw [hfd']; exact hnonneg⟩, ?_, ?_, ?_⟩
  · rw [World.core?_eq _ hget', hclosed']
  · rw [hfired, List.count_append, h.once, hnames]
  · exact fun n hn => h.descriptor n (hinv.1 hn)
  · rcases h.entry with hmem | hnone
    · refine hstep.removes_entry hs hnum hcore hnonneg halive rfl hmem ?_
      rintro handlers rest hstack rfl
      simp [Config.leavesClose, hstack] at hleaves
    · exact .inr fun n hn => hnone n (hinv.2 hn)

/-! ### Along a run -/

/-- A socket on which `close` has not been called is open, and "close" has not fired. When both
sides have closed it is closed down. -/
structure Net.Ordered (i : ℕ) (n : Net V E F) : Prop where
  sound : n.config.Sound
  numbered : n.config.world.Numbered i
  opened : i ∉ n.closedLocally → (fired i n.config.world.log).count .close = 0 ∧
    ∀ sock, n.config.world.sockets[i]? = some sock → 0 ≤ sock.fd ∧ sock.status ≠ .closed
  closed : i ∈ n.closedLocally → i ∈ n.peerClosed → n.config.stack ≠ [] →
    n.config.ClosingDown i

omit [Blank V] in
theorem Net.Ordered.initial : ({} : Net V E F).Ordered i where
  sound := .initial
  numbered := .initial
  opened _ := ⟨rfl, by simp⟩
  closed h := by simp at h

/-- What leaves a socket open that is not closed locally. -/
theorem Turn.stays_open {w w' : World V E F} {sock sock' : SocketObject} {frame : Frame}
    {eff : Effect} {names : List EventName} (h : Turn w i sock frame l w' eff sock' names)
    (hopen : sock.status ≠ .closed) (hcall : ∀ answer, closeCall? frame l ≠ some (i, answer))
    (heof : ∀ slot since, frame = .readTail i true slot since → l = .tau →
      sock.status ≠ .halfClosed) :
    sock'.status ≠ .closed ∧ sock'.fd = sock.fd ∧ names.count .close = 0 := by
  cases h with
  | quiet | read | refused => exact ⟨hopen, rfl, rfl⟩
  | wrote handlers data answers w' eff r written =>
      exact ⟨(wrote_status written).1 ▸ hopen, (wrote_status written).2, rfl⟩
  | flushed since answers w' eff r settled written =>
      exact ⟨(flushed_status written).1 ▸ hopen, (flushed_status written).2, rfl⟩
  | connected | connecting | eofFirst | established => exact ⟨by simp, rfl, rfl⟩
  | eofAgain slot since w' half => exact absurd half (heof slot since rfl rfl)
  | halfClosed frame l answer w' call => exact absurd call (hcall answer)
  | fullClosed frame l count w' call => exact absurd call (hcall _)

theorem Config.stays_open (hs : c.Sound) (hnum : c.world.Numbered i)
    (hstep : Stepped backend c l c')
    (hopened : (fired i c.world.log).count .close = 0 ∧
      ∀ sock, c.world.sockets[i]? = some sock → 0 ≤ sock.fd ∧ sock.status ≠ .closed)
    (hcloses : c.closes? l ≠ some i) (heof : c.takesLateEof i l = false) :
    (fired i c'.world.log).count .close = 0 ∧
      ∀ sock, c'.world.sockets[i]? = some sock → 0 ≤ sock.fd ∧ sock.status ≠ .closed := by
  obtain ⟨hcount, hopened⟩ := hopened
  cases hget : c.world.sockets[i]? with
  | none =>
      obtain ⟨hmade, hfired⟩ := hstep.made hget
      refine ⟨by rw [hfired]; exact hcount, ?_⟩
      intro sock' hget'
      rcases hmade with hnone | ⟨fd, status, hnew, hfresh⟩
      · rw [hnone] at hget'
        cases hget'
      · obtain rfl := Option.some.inj (hnew.symm.trans hget')
        have hvalid := (hnum.step hs hstep).valid fd status (World.core?_eq _ hnew)
        rcases hfresh with rfl | rfl <;> simpa using hvalid
  | some sock =>
      obtain ⟨hfd, hstatus⟩ := hopened sock hget
      have hsame (h : World.Same i c.world c'.world) : (fired i c'.world.log).count .close = 0 ∧
          ∀ sock, c'.world.sockets[i]? = some sock → 0 ≤ sock.fd ∧ sock.status ≠ .closed := by
        refine ⟨by rw [h.fired_eq]; exact hcount, ?_⟩
        intro sock' hget'
        rw [h.sockets] at hget'
        exact hopened sock' hget'
      by_cases hcall : ∃ frame rest answer, c.stack = frame :: rest ∧
          closeCall? frame l = some (i, answer)
      · obtain ⟨frame, rest, answer, hstack, hcall⟩ := hcall
        rw [Config.closes?_eq hstack hcall hget] at hcloses
        obtain ⟨w', eff, hclose, rfl⟩ := hstep.close_call hstack hcall
        apply hsame
        rw [Config.after_world]
        exact World.closeSocket_quiet hclose hget (by simpa using hcloses)
      · obtain ⟨sock₁, names, hmoved, hget₁, hfired⟩ := hstep.moved hget
        have hstays : sock₁.status ≠ .closed ∧ sock₁.fd = sock.fd ∧ names.count .close = 0 := by
          cases hmoved with
          | stays => exact ⟨hstatus, rfl, rfl⟩
          | turns top rest w' eff sock' names stack turn =>
              refine turn.stays_open hstatus ?_ ?_
              · exact fun answer heq => hcall ⟨top, rest, answer, stack, heq⟩
              · rintro slot since rfl rfl hhalf
                simp [takesLateEof, stack, World.status?_eq _ hget, hhalf] at heof
        refine ⟨by rw [hfired, List.count_append, hcount, hstays.2.2], ?_⟩
        intro sock' hget'
        obtain rfl := Option.some.inj (hget₁.symm.trans hget')
        exact ⟨by rw [hstays.2.1]; exact hfd, hstays.1⟩

/-- The `close` that follows an end of file closes the socket down. -/
theorem Config.closes_down (hs : c.Sound) (hnum : c.world.Numbered i)
    (hstep : Stepped backend c l c') (hcount : (fired i c.world.log).count .close = 0)
    (hopened : ∀ sock, c.world.sockets[i]? = some sock → 0 ≤ sock.fd ∧ sock.status ≠ .closed)
    (hcloses : c.closes? l = some i) (hconnected : c.world.status? i ≠ some .connected) :
    c'.ClosingDown i := by
  obtain ⟨frame, rest, answer, sock, hstack, hcall, hget, hreturns⟩ :=
    Config.closes?_eq_some hcloses
  obtain ⟨hfd, hstatus⟩ := hopened sock hget
  obtain ⟨w', eff, hclose, rfl⟩ := hstep.close_call hstack hcall
  rw [World.status?_eq _ hget] at hconnected
  have hhalf : sock.status = .halfClosed := by
    cases hsock : sock.status with
    | idle | connecting => simp [closeReturns, unconnected, hsock] at hreturns
    | connected => exact absurd (congrArg some hsock) hconnected
    | halfClosed => rfl
    | closed => exact absurd hsock hstatus
  cases answer with
  | err errno => simp [closeReturns, hhalf, unconnected, Int.not_lt.mpr hfd] at hreturns
  | ret count =>
      obtain ⟨hcore, hfired, hdescriptor, rfl⟩ := World.closeSocket_full hclose hget hhalf hfd
      have hold : c.world.core? i ≠ none := by simp [World.core?_eq _ hget]
      have hinv {n : Fd} := hstep.entries_inv hs hold (n := n)
      refine ⟨⟨sock.fd, hcore, hfd⟩, ?_, ?_, .inl (by simp [Config.after])⟩
      · rw [Config.after_world, hfired, List.count_append, hcount]
        rfl
      · intro n hn
        have hnumber := hnum.opened n (hinv.1 hn)
        obtain rfl := hnumber.eq (World.fd?_eq_some.mpr ⟨_, World.core?_eq _ hget⟩) hfd
        rw [Config.after_world, hdescriptor] at hn
        cases hn

theorem netStep_code {n n' : Net V E F} (h : netStep backend n (.code l) = some n') :
    ∃ c', step backend n.config l = some c' ∧
      n' = ⟨c', n.peerClosed, (n.config.closes? l).toList ++ n.closedLocally⟩ := by
  simp only [netStep, Option.ite_none_right_eq_some, Option.map_eq_some_iff] at h
  obtain ⟨-, c', hc', heq⟩ := h
  exact ⟨c', hc', heq.symm⟩

theorem netStep_peer {n n' : Net V E F} {k : ℕ}
    (h : netStep backend n (.peerCloses k) = some n') :
    n' = { n with peerClosed := k :: n.peerClosed } := by
  simp only [netStep, Option.ite_none_right_eq_some, Option.some.injEq] at h
  exact h.2.symm

theorem Net.Ordered.step {n n' : Net V E F} {l : NetLabel} (h : n.Ordered i)
    (hguard : n.PeerFirst i l) (hl : netStep backend n l = some n') : n'.Ordered i := by
  cases l with
  | peerCloses k =>
      obtain rfl := netStep_peer hl
      refine ⟨h.sound, h.numbered, h.opened, ?_⟩
      intro hlocal hpeer halive
      rcases List.mem_cons.mp hpeer with rfl | hpeer
      · exact absurd hlocal (hguard rfl)
      · exact h.closed hlocal hpeer halive
  | code l =>
      obtain ⟨c', hc', rfl⟩ := netStep_code hl
      obtain ⟨hfirst, heof, hleaves⟩ := hguard
      have hstep := stepped hc'
      have halive : n.config.stack ≠ [] := by
        intro hnil
        simp [Reactor.step, hnil] at hc'
      refine ⟨h.sound.step hc', h.numbered.step h.sound hstep, ?_, ?_⟩
      · intro hlocal
        rw [List.mem_append, not_or, Option.mem_toList] at hlocal
        exact Config.stays_open h.sound h.numbered hstep (h.opened hlocal.2) hlocal.1 heof
      · intro hlocal hpeer halive'
        by_cases hbefore : i ∈ n.closedLocally
        · exact (h.closed hbefore hpeer halive).step h.sound h.numbered hstep halive' heof hleaves
        · have hcloses : n.config.closes? l = some i := by
            simpa [hbefore] using hlocal
          obtain ⟨hcount, hopened⟩ := h.opened hbefore
          refine Config.closes_down h.sound h.numbered hstep hcount hopened hcloses ?_
          exact fun hconnected => hfirst hcloses hconnected hpeer

/-- When the peer closes first, `close` comes after its end of file was taken, the socket takes no
further end of file, and no exception leaves the "close" handlers, the socket is closed down once
both sides have closed. -/
theorem closing_orders_agree {ls : List NetLabel} {n : Net V E F}
    (hrun : run (netStep backend) {} ls = some n)
    (hguard : EachStep (netStep backend) (Net.PeerFirst i) ({} : Net V E F) ls) :
    n.OrdersAgree i := by
  have hordered : n.Ordered i :=
    run_invariant (fun _ _ _ h hg hl => h.step hg hl) .initial hguard hrun
  intro hlocal hpeer halive htail
  have hclosing := hordered.closed hlocal hpeer halive
  obtain ⟨fd, hcore, -⟩ := hclosing.core
  exact ⟨World.status?_eq_some.mpr ⟨fd, hcore⟩, hclosing.once, hclosing.descriptor,
    hclosing.entry.resolve_left htail⟩

end Machine

/-- A connected socket. -/
def established (rest : List NetLabel) : List NetLabel :=
  [.code (.newSocket 3 none), .code (.connect 0 (.ret 0)), .code .return_, .code .tau] ++ rest

/-- The peer closes first, and `close` is called after the "end" event. -/
def peerFirstRun : List NetLabel :=
  established [.peerCloses 0, .code (.poll [(⟨3, true, false⟩, .socket 0)]), .code .tau,
    .code (.read [.endOfFile]), .code .tau, .code .return_, .code .tau, .code .tau,
    .code .tau, .code (.close 0 (.ret 0)), .code .return_, .code .tau]

theorem closing_orders_agree_sample : ∃ n : Net ℕ ℕ SampleHandler,
    run (netStep .epoll) {} peerFirstRun = some n ∧ n.config.ClosedDown 0 := by
  obtain ⟨n, hrun, hlocal, hpeer, hstack⟩ : ∃ n : Net ℕ ℕ SampleHandler,
      run (netStep .epoll) {} peerFirstRun = some n ∧ n.closedLocally = [0] ∧
        n.peerClosed = [0] ∧ n.config.stack = [.user []] := ⟨_, rfl, rfl, rfl, rfl⟩
  refine ⟨n, hrun, ?_⟩
  have hagree := closing_orders_agree (i := 0) hrun (by decide +kernel)
  exact hagree (by simp [hlocal]) (by simp [hpeer]) (by simp [hstack]) (by simp [hstack])

/-- `close` is called first, then the peer closes, and `close` is called again. -/
def localFirstRun : List NetLabel :=
  established [.code (.close 0 (.ret 0)), .peerCloses 0, .code (.close 0 (.ret 0))]

/-- The socket stays `HALF_CLOSED`, "close" does not fire and the entry stays in the table. -/
theorem localFirstRun_stays_half : ∃ n : Net ℕ ℕ SampleHandler,
    run (netStep .epoll) {} localFirstRun = some n ∧ n.config.stack = [.user []] ∧
      n.config.world.status? 0 = some .halfClosed ∧ fired 0 n.config.world.log = [.connect] ∧
      n.config.world.table 3 = some (some (.socket 0)) ∧ ¬ n.OrdersAgree 0 := by
  obtain ⟨n, hrun, hstack, hstatus, hfired, htable, hlocal, hpeer⟩ : ∃ n : Net ℕ ℕ SampleHandler,
      run (netStep .epoll) {} localFirstRun = some n ∧ n.config.stack = [.user []] ∧
        n.config.world.status? 0 = some .halfClosed ∧ fired 0 n.config.world.log = [.connect] ∧
        n.config.world.table 3 = some (some (.socket 0)) ∧ 0 ∈ n.closedLocally ∧
        0 ∈ n.peerClosed := ⟨_, rfl, rfl, rfl, rfl, rfl, by decide, by decide⟩
  refine ⟨n, hrun, hstack, hstatus, hfired, htable, ?_⟩
  intro hagree
  have hdown := hagree hlocal hpeer (by simp [hstack]) (by simp [hstack])
  exact hdown.entry 3 htable

end Libasync.Reactor
