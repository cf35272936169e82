import Libasync.Foundation.History
import Libasync.Reactor.Closing
import Libasync.Reactor.Promises
import Libasync.Reactor.Turns

/-! # Connect comes first

The read branch of an event runs before its connect branch, and the connect branch tests the
status that an end of file changes. What the sockets announce first depends on what the reads
return while the socket is connecting. -/

namespace Libasync.Reactor

open Promise Socket Automaton Foundation

variable {V E F : Type*}

/-! ### What is to hold -/

/-- The events that a connection brings. -/
def EventName.needsConnection : EventName → Bool
  | .data | .end_ | .close => true
  | .connect | .error => false

/-- The read loop yields data or an end of file. -/
def yields (answers : List ReadAnswer) : Bool :=
  match readLoop answers with
  | some (.ok (data, closed)) => !data.isEmpty || closed
  | _ => false

/-- The answer of the kernel shows that the connection of the socket is established. -/
def Config.showsConnected (i : ℕ) (c : Config V E F) (l : Label) : Prop :=
  match c.stack, l with
  | .user _ :: _, .connect k (.ret _) => k = i ∧ c.world.status? i = some .idle
  | .writePart k true _ :: _, .soError (.ret 0) => k = i
  | .reading k _ _ :: _, .read answers => k = i ∧ yields answers = true
  | _, _ => False

/-- The promise is resolved, or its internal handler is still to run after the "connect" handlers
that are running. A run that has crashed goes no further. -/
def Config.Resolves [Blank V] (c : Config V E F) (p : Ref) : Prop :=
  c.stack = [] ∨ IsResolved c.world.promises p ∨
    ∃ handlers, .user handlers ∈ c.stack ∧ p ∈ handlers

def unconnected (status : Status) : Bool :=
  decide (status = .idle ∨ status = .connecting)

/-- The socket reads data or an end of file before its connect branch has run. -/
def Config.readsEarly (i : ℕ) (c : Config V E F) (l : Label) : Bool :=
  match c.stack, l with
  | .reading k _ _ :: _, .read answers =>
      decide (k = i) && yields answers && (c.world.status? i).any unconnected
  | _, _ => false

/-- An exception leaves a "connect" handler that runs before the internal one of the socket. -/
def Config.skipsHandler (i : ℕ) (c : Config V E F) (l : Label) : Bool :=
  match c.stack, l with
  | .user handlers :: _ :: _, .throw_ =>
      (c.world.sockets[i]?).any fun sock => sock.connectHandlers.any fun p => handlers.contains p
  | _, _ => false

def Config.KeepsOrder (i : ℕ) (c : Config V E F) (l : Label) : Prop :=
  c.readsEarly i l = false ∧ c.skipsHandler i l = false

instance (i : ℕ) (c : Config V E F) (l : Label) : Decidable (c.KeepsOrder i l) :=
  inferInstanceAs (Decidable (_ ∧ _))

/-! ### The internal handlers -/

section Machine

variable [Blank V] {backend : Backend} {c c' : Config V E F} {l : Label} {i : ℕ} {p : Ref}

omit [Blank V] in
/-- An exception passes no user code. -/
theorem mem_unwind {stack : List Frame} {handlers : List Ref} (h : .user handlers ∈ stack) :
    .user handlers ∈ unwind stack := by
  induction stack with
  | nil => cases h
  | cons frame rest ih =>
      cases frame with
      | user handlers' => exact h
      | _ => exact ih ((List.mem_cons.mp h).resolve_left (by simp))

omit [Blank V] in
theorem mem_after {rest : List Frame} (w : World V E F) (eff : Effect) {handlers : List Ref}
    (h : .user handlers ∈ rest) : (Config.after rest (w, eff)).stack = [] ∨
      .user handlers ∈ (Config.after rest (w, eff)).stack := by
  cases eff with
  | push frames => exact .inr (List.mem_append_right frames h)
  | throw failure => exact .inr (mem_unwind h)
  | crash => exact .inl rfl

/-- An internal handler stays on the stack until it is run or an exception skips it. -/
theorem Config.Resolves.step (h : c.Resolves p) (hstep : Stepped backend c l c')
    (hok : NoneRejected c.world.promises) (hp : ∃ status, c.world.promises.status? p = some status)
    (hskip : ∀ handlers frame rest, l = .throw_ → c.stack = .user handlers :: frame :: rest →
      p ∉ handlers) : c'.Resolves p := by
  rcases h with hnil | hresolved | ⟨handlers, hmem, hhandler⟩
  · cases hstep <;> cases hnil
  · exact .inr (.inl (hresolved.mono hstep.resolving))
  · cases hstep with
    | handler w q handlers' rest =>
        rcases List.mem_cons.mp hmem with heq | hmem
        · obtain rfl : handlers = q :: handlers' := by simpa using heq
          rcases List.mem_cons.mp hhandler with rfl | hhandler
          · obtain ⟨status, hstatus⟩ := hp
            exact .inr (.inl (hok.isResolved hstatus))
          · exact .inr (.inr ⟨handlers', by simp, hhandler⟩)
        · exact .inr (.inr ⟨handlers, List.mem_cons_of_mem _ hmem, hhandler⟩)
    | return_ w frame rest =>
        rcases List.mem_cons.mp hmem with heq | hmem
        · obtain rfl : handlers = [] := by simpa using heq
          cases hhandler
        · exact .inr (.inr ⟨handlers, hmem, hhandler⟩)
    | throw_ w handlers' frame rest =>
        rcases List.mem_cons.mp hmem with heq | hmem
        · obtain rfl : handlers = handlers' := by simpa using heq
          exact absurd hhandler (hskip handlers frame rest rfl rfl)
        · exact .inr (.inr ⟨handlers, mem_unwind hmem, hhandler⟩)
    | user w handlers' rest l w' eff call =>
        rcases mem_after w' eff hmem with hcrash | hkept
        · exact .inl hcrash
        · exact .inr (.inr ⟨handlers, hkept, hhandler⟩)
    | library w frame rest l w' eff piece =>
        have hrest : .user handlers ∈ rest := by
          refine (List.mem_cons.mp hmem).resolve_left ?_
          rintro rfl
          simp [libraryStep_user] at piece
        rcases mem_after w' eff hrest with hcrash | hkept
        · exact .inl hcrash
        · exact .inr (.inr ⟨handlers, hkept, hhandler⟩)

/-! ### Reads of an unconnected socket -/

/-- An end of file comes from the read loop of the socket. -/
theorem Stepped.eof_yields (h : Stepped backend c l c') (hseen : c.EofSeen)
    (hmem : .endOfFile i ∈ c'.world.log) : .endOfFile i ∈ c.world.log ∨
      ∃ slot since rest answers, c.stack = .reading i slot since :: rest ∧
        l = .read answers ∧ yields answers = true := by
  refine (h.readsEof hseen hmem).imp_right ?_
  intro hpermits
  obtain ⟨w, stack⟩ := c
  cases stack with
  | nil => cases hpermits
  | cons frame rest =>
      have hreads : readsEof? frame l = some i := hpermits
      simp only [readsEof?] at hreads
      split at hreads
      · split at hreads
        · rename_i hloop
          obtain rfl := Option.some.inj hreads
          exact ⟨_, _, _, _, rfl, rfl, by simp [yields, hloop]⟩
        · cases hreads
      · cases hreads

omit [Blank V] in
theorem yields_of_data {answers : List ReadAnswer} {bytes : List Byte} {closed : Bool}
    (h : readLoop answers = some (.ok (bytes, closed))) (hbytes : bytes ≠ []) :
    yields answers = true := by
  simp [yields, h, hbytes]

omit [Blank V] in
theorem Config.connected_of_yields {slot : Option ℕ} {since : ℕ} {rest : List Frame}
    {answers : List ReadAnswer} {sock : SocketObject} (hguard : c.readsEarly i l = false)
    (hstack : c.stack = .reading i slot since :: rest) (hl : l = .read answers)
    (hyields : yields answers = true) (hget : c.world.sockets[i]? = some sock) :
    unconnected sock.status = false := by
  subst hl
  simpa [readsEarly, hstack, hyields, World.status?, World.core?, hget] using hguard

/-! ### Before the socket is connected -/

/-- Nothing has happened to a socket that has not been connected. -/
structure Config.Unused (i : ℕ) (c : Config V E F) : Prop where
  sound : c.Sound
  ok : NoneRejected c.world.promises
  missing : c.world.sockets[i]? = none → fired i c.world.log = [] ∧ .endOfFile i ∉ c.world.log
  idle : ∀ sock, c.world.sockets[i]? = some sock → sock.status = .idle →
    sock.connectHandlers = [] ∧ fired i c.world.log = [] ∧ .endOfFile i ∉ c.world.log

theorem wrote_status {sock : SocketData} {s : State V E F} {data : List Byte}
    {answers : List Answer} {r : Result V E F Ref} (h : sock.write s data answers = some r) :
    r.sock.status = sock.status ∧ r.sock.fd = sock.fd := by
  cases SocketData.wrote h <;> exact ⟨rfl, rfl⟩

theorem flushed_status {sock : SocketData} {s : State V E F} {answers : List Answer}
    {r : Result V E F Unit} (h : sock.onWritable s answers = some r) :
    r.sock.status = sock.status ∧ r.sock.fd = sock.fd := by
  cases SocketData.flushed h <;> exact ⟨rfl, rfl⟩

/-- What leaves a socket idle. -/
theorem Turn.of_idle {w w' : World V E F} {sock sock' : SocketObject} {frame : Frame} {eff : Effect}
    {names : List EventName} (h : Turn w i sock frame l w' eff sock' names)
    (hidle : sock'.status = .idle) : sock.status = .idle ∧
      sock'.connectHandlers = sock.connectHandlers ∧ (names = [] ∨
        ∃ slot since answers, frame = .reading i slot since ∧ l = .read answers ∧
          yields answers = true) := by
  cases h with
  | quiet => exact ⟨hidle, rfl, .inl rfl⟩
  | wrote handlers data answers w' eff r written =>
      exact ⟨(wrote_status written).1.symm.trans hidle, rfl, .inl rfl⟩
  | flushed since answers w' eff r settled written =>
      exact ⟨(flushed_status written).1.symm.trans hidle, rfl, .inl rfl⟩
  | read slot since answers bytes closed w' answered some_data =>
      exact ⟨hidle, rfl, .inr ⟨_, _, _, rfl, rfl, yields_of_data answered some_data⟩⟩
  | refused since answer w' pending => simp [pending] at hidle
  | connected | connecting | halfClosed | fullClosed | eofFirst | eofAgain | established =>
      cases hidle

/-- A socket that exists has a piece at work for it. -/
theorem Stepped.exists_of_reading (h : Stepped backend c l c') {slot : Option ℕ}
    {since : ℕ} {rest : List Frame} {answers : List ReadAnswer}
    (hstack : c.stack = .reading i slot since :: rest) (hl : l = .read answers) :
    c.world.sockets[i]? ≠ none := by
  intro hnone
  subst hl
  cases h with
  | user => cases hstack
  | library w frame rest' l w' eff piece =>
      obtain ⟨rfl, rfl⟩ := List.cons.inj hstack
      have hpiece := pieceStep_of_library piece
      rw [pieceStep_of_none hnone rfl] at hpiece
      cases hpiece

theorem Config.Unused.step (h : c.Unused i) (hguard : c.KeepsOrder i l)
    (hl : Reactor.step backend c l = some c') : c'.Unused i := by
  have hstep := stepped hl
  refine ⟨h.sound.step hl, h.ok.resolving hstep.resolving, ?_, ?_⟩
  · intro hget'
    cases hget : c.world.sockets[i]? with
    | some sock =>
        obtain ⟨sock', names, -, hsock', -⟩ := hstep.moved hget
        rw [hsock'] at hget'
        cases hget'
    | none =>
        obtain ⟨hfired, hnot⟩ := h.missing hget
        refine ⟨(hstep.made hget).2.trans hfired, ?_⟩
        intro hmem
        rcases hstep.eof_yields h.sound.seen hmem with
          hold | ⟨slot, since, rest, answers, hstack, hread, -⟩
        · exact hnot hold
        · exact hstep.exists_of_reading hstack hread hget
  · intro sock' hget' hidle
    cases hget : c.world.sockets[i]? with
    | none =>
        obtain ⟨hfired, hnot⟩ := h.missing hget
        obtain ⟨hmade, hsame⟩ := hstep.made hget
        rcases hmade with hnone | ⟨fd, status, hnew, -⟩
        · rw [hnone] at hget'
          cases hget'
        · obtain rfl : _ = sock' := Option.some.inj (hnew.symm.trans hget')
          refine ⟨rfl, hsame.trans hfired, ?_⟩
          intro hmem
          rcases hstep.eof_yields h.sound.seen hmem with
            hold | ⟨slot, since, rest, answers, hstack, hread, -⟩
          · exact hnot hold
          · exact hstep.exists_of_reading hstack hread hget
    | some sock =>
        obtain ⟨sock₁, names, hmoved, hget₁, hfired'⟩ := hstep.moved hget
        obtain rfl : sock₁ = sock' := Option.some.inj (hget₁.symm.trans hget')
        have hearly {slot : Option ℕ} {since : ℕ} {rest : List Frame} {answers : List ReadAnswer}
            (hstack : c.stack = .reading i slot since :: rest) (hread : l = .read answers)
            (hyields : yields answers = true) : sock.status ≠ .idle := by
          intro hstatus
          have hconnected := Config.connected_of_yields hguard.1 hstack hread hyields hget
          simp [unconnected, hstatus] at hconnected
        have hold : sock.status = .idle ∧ sock₁.connectHandlers = sock.connectHandlers ∧
            names = [] := by
          cases hmoved with
          | stays c' => exact ⟨hidle, rfl, rfl⟩
          | turns top rest w' eff sock' names stack turn =>
              obtain ⟨hstatus, hhandlers, hnames | ⟨_, _, _, rfl, rfl, hyields⟩⟩ :=
                turn.of_idle hidle
              · exact ⟨hstatus, hhandlers, hnames⟩
              · exact absurd hstatus (hearly stack rfl hyields)
        obtain ⟨hstatus, hhandlers, rfl⟩ := hold
        obtain ⟨hnil, hnone, hnot⟩ := h.idle sock hget hstatus
        refine ⟨hhandlers.trans hnil, by simpa [hnone] using hfired', ?_⟩
        intro hmem
        rcases hstep.eof_yields h.sound.seen hmem with
          hold | ⟨slot, since, rest, answers, hstack, hread, hyields⟩
        · exact hnot hold
        · exact hearly hstack hread hyields hstatus

/-! ### From the call of connect on -/

/-- A socket on which `connect` has been called. The contexts `ps` are those of the promise that
the call has returned, if that was pending. -/
structure Outgoing (ps : List Ref) (sock : SocketObject) (events : List EventName)
    (eof : Prop) : Prop where
  fresh : sock.status = .idle → sock.connectHandlers = []
  waiting : unconnected sock.status = true → ¬ eof ∧ ∀ name ∈ events, name = .error
  connected : unconnected sock.status = false → .connect ∈ events
  once : events.count .connect ≤ 1
  first : AtEach (fun before name => name.needsConnection = true → .connect ∈ before) events
  handlers : ∀ p ∈ ps, p ∈ sock.connectHandlers

structure Config.Connecting (i : ℕ) (ps : List Ref) (c : Config V E F) : Prop where
  sound : c.Sound
  ok : NoneRejected c.world.promises
  socket : ∃ sock, c.world.sockets[i]? = some sock ∧
    Outgoing ps sock (fired i c.world.log) (.endOfFile i ∈ c.world.log) ∧
    (∀ p ∈ sock.connectHandlers, ∃ status, c.world.promises.status? p = some status) ∧
    (.connect ∈ fired i c.world.log → ∀ p ∈ sock.connectHandlers, c.Resolves p)

namespace Outgoing

variable {ps : List Ref} {sock sock' : SocketObject} {events : List EventName} {eof eof' : Prop}

omit [Blank V]

theorem count_eq_zero (h : Outgoing ps sock events eof)
    (hwaiting : unconnected sock.status = true) : events.count .connect = 0 := by
  apply List.count_eq_zero_of_not_mem
  intro hmem
  cases (h.waiting hwaiting).2 _ hmem

theorem of_eof (h : Outgoing ps sock events eof) (heof : eof) :
    unconnected sock.status = false := by
  rw [← Bool.not_eq_true]
  intro hwaiting
  exact (h.waiting hwaiting).1 heof

/-- Other data of the socket changes. -/
theorem congr (sock' : SocketObject) (h : Outgoing ps sock events eof)
    (hstatus : sock'.status = sock.status)
    (hhandlers : sock'.connectHandlers = sock.connectHandlers)
    (heof : eof' → unconnected sock.status = true → eof) : Outgoing ps sock' events eof' where
  fresh hidle := hhandlers.trans (h.fresh (hstatus ▸ hidle))
  waiting hwaiting := by
    rw [hstatus] at hwaiting
    exact ⟨fun heof' => (h.waiting hwaiting).1 (heof heof' hwaiting), (h.waiting hwaiting).2⟩
  connected hconnected := h.connected (hstatus ▸ hconnected)
  once := h.once
  first := h.first
  handlers p hp := hhandlers ▸ h.handlers p hp

/-- A connected socket changes its status, and an event may fire. -/
theorem advance (sock' : SocketObject) (h : Outgoing ps sock events eof)
    (hbefore : unconnected sock.status = false)
    (hafter : unconnected sock'.status = false)
    (hhandlers : sock'.connectHandlers = sock.connectHandlers) {names : List EventName}
    (hnames : names = [] ∨ ∃ name, names = [name] ∧ name ≠ .connect) :
    Outgoing ps sock' (events ++ names) eof' where
  fresh hidle := by simp [unconnected, hidle] at hafter
  waiting hwaiting := by simp [hafter] at hwaiting
  connected _ := List.mem_append_left names (h.connected hbefore)
  once := by
    rcases hnames with rfl | ⟨name, rfl, hname⟩
    · simpa using h.once
    · rw [List.count_append, List.count_singleton, if_neg (by simpa using hname)]
      exact h.once
  first := by
    rcases hnames with rfl | ⟨name, rfl, hname⟩
    · simpa using h.first
    · exact atEach_concat.mpr ⟨h.first, fun _ => h.connected hbefore⟩
  handlers p hp := hhandlers ▸ h.handlers p hp

/-- The connection is announced. -/
theorem connect (h : Outgoing ps sock events eof) (hbefore : unconnected sock.status = true) :
    Outgoing ps { sock with status := .connected } (events ++ [.connect]) eof' where
  fresh hidle := by cases hidle
  waiting hwaiting := by cases hwaiting
  connected _ := List.mem_append_right events (by simp)
  once := by
    rw [List.count_append, h.count_eq_zero hbefore]
    decide
  first := by
    refine atEach_concat.mpr ⟨h.first, ?_⟩
    intro hname
    cases hname
  handlers := h.handlers

end Outgoing

/-- What the branches do to a socket on which `connect` has been called. -/
theorem Outgoing.turn {ps : List Ref} {w w' : World V E F} {sock sock' : SocketObject}
    {frame : Frame} {eff : Effect} {events names : List EventName} {eof eof' : Prop}
    (h : Outgoing ps sock events eof) (hturn : Turn w i sock frame l w' eff sock' names)
    (heof : eof' → unconnected sock.status = true → eof)
    (htakes : frame.takesEof? = some i → eof)
    (hdata : ∀ slot since answers, frame = .reading i slot since → l = .read answers →
      yields answers = true → unconnected sock.status = false) :
    Outgoing ps sock' (events ++ names) eof' := by
  cases hturn with
  | quiet =>
      rw [List.append_nil]
      exact h.congr _ rfl rfl heof
  | wrote handlers data answers w' eff r written =>
      rw [List.append_nil]
      exact h.congr { sock with toSocketData := r.sock } (wrote_status written).1 rfl heof
  | flushed since answers w' eff r settled written =>
      rw [List.append_nil]
      exact h.congr { sock with toSocketData := r.sock } (flushed_status written).1 rfl heof
  | connected handlers count w' idle => exact h.connect (by simp [unconnected, idle])
  | established since w' pending => exact h.connect (by simp [unconnected, pending])
  | connecting handlers w' idle =>
      have hwaiting : unconnected sock.status = true := by simp [unconnected, idle]
      refine ⟨by simp, fun _ => ⟨fun heof' => ?_, ?_⟩, by simp [unconnected], ?_, ?_, ?_⟩
      · exact (h.waiting hwaiting).1 (heof heof' hwaiting)
      · simpa using (h.waiting hwaiting).2
      · simpa using h.once
      · simpa using h.first
      · intro p hp
        exact List.mem_append_left _ (h.handlers p hp)
  | refused since answer w' pending =>
      have hwaiting : unconnected sock.status = true := by simp [unconnected, pending]
      refine ⟨h.fresh, fun _ => ⟨fun heof' => ?_, ?_⟩, ?_, ?_, ?_, h.handlers⟩
      · exact (h.waiting hwaiting).1 (heof heof' hwaiting)
      · intro name hname
        rcases List.mem_append.mp hname with hname | hname
        · exact (h.waiting hwaiting).2 name hname
        · exact List.mem_singleton.mp hname
      · intro hconnected
        simp [hwaiting] at hconnected
      · rw [List.count_append, h.count_eq_zero hwaiting]
        decide
      · exact atEach_concat.mpr ⟨h.first, by simp [EventName.needsConnection]⟩
  | halfClosed frame l answer w' call connected =>
      exact h.advance { sock with fd := -1, status := .halfClosed }
        (by simp [unconnected, connected]) rfl rfl (.inl rfl)
  | fullClosed frame l count w' call half =>
      exact h.advance { sock with status := .closed } (by simp [unconnected, half]) rfl rfl
        (.inr ⟨.close, rfl, by simp⟩)
  | eofAgain slot since w' half =>
      exact h.advance { sock with status := .closed } (by simp [unconnected, half]) rfl rfl
        (.inr ⟨.close, rfl, by simp⟩)
  | eofFirst slot since w' open_ =>
      exact h.advance { sock with status := .halfClosed } (h.of_eof (htakes rfl)) rfl rfl
        (.inr ⟨.end_, rfl, by simp⟩)
  | read slot since answers bytes closed w' answered some_data =>
      have hconnected := hdata slot since answers rfl rfl (yields_of_data answered some_data)
      exact h.advance { sock with bytesRead := sock.bytesRead + bytes.length } hconnected
        hconnected rfl (.inr ⟨.data, rfl, by simp⟩)

omit [Blank V] in
theorem status?_of_lt {s : State V E F} {p : Ref} (h : p < s.heap.length) :
    ∃ status, s.status? p = some status := by
  simp [State.status?, State.get?, List.getElem?_eq_getElem h]

/-- Promises are not removed. -/
theorem Resolving.known {s t : State V E F} (h : Resolving s t)
    (hp : ∃ status, s.status? p = some status) : ∃ status, t.status? p = some status := by
  obtain ⟨status, hstatus⟩ := hp
  exact status?_of_lt (Nat.lt_of_lt_of_le (lt_of_status? hstatus) h.changes.length_le)

theorem Config.Connecting.step {ps : List Ref} (h : c.Connecting i ps) (hguard : c.KeepsOrder i l)
    (hl : Reactor.step backend c l = some c') : c'.Connecting i ps := by
  have hstep := stepped hl
  obtain ⟨sock, hget, hout, hknown, hresolves⟩ := h.socket
  obtain ⟨sock', names, hmoved, hget', hfired⟩ := hstep.moved hget
  refine ⟨h.sound.step hl, h.ok.resolving hstep.resolving, sock', hget', ?_⟩
  rw [hfired]
  have heof : .endOfFile i ∈ c'.world.log → unconnected sock.status = true →
      .endOfFile i ∈ c.world.log := by
    intro hmem hwaiting
    refine (hstep.eof_yields h.sound.seen hmem).resolve_right ?_
    rintro ⟨slot, since, rest, answers, hstack, hread, hyields⟩
    have hconnected := Config.connected_of_yields hguard.1 hstack hread hyields hget
    simp [hwaiting] at hconnected
  have hknown' : ∀ p ∈ sock.connectHandlers,
      ∃ status, c'.world.promises.status? p = some status :=
    fun p hp => hstep.resolving.known (hknown p hp)
  -- an internal handler that is on the stack is not skipped
  have hkept : .connect ∈ fired i c.world.log → ∀ p ∈ sock.connectHandlers, c'.Resolves p := by
    intro hconnect p hp
    apply (hresolves hconnect p hp).step hstep h.ok (hknown p hp)
    intro handlers frame rest hthrow hstack hmem
    have hskip := hguard.2
    subst hthrow
    simp only [Config.skipsHandler, hstack, hget, Option.any_some, List.any_eq_false] at hskip
    exact hskip p hp (by simpa using hmem)
  have hturned :
      Outgoing ps sock' (fired i c.world.log ++ names) (.endOfFile i ∈ c'.world.log) := by
    cases hmoved with
    | stays c' =>
        rw [List.append_nil]
        exact hout.congr sock rfl rfl heof
    | turns top rest w' eff sock' names stack turn =>
        apply hout.turn turn heof
        · intro htakes
          exact h.sound.seen top (by simp [stack]) i htakes
        · intro slot since answers htop hread hyields
          subst htop
          exact Config.connected_of_yields hguard.1 stack hread hyields hget
  refine ⟨hturned, ?_⟩
  cases hmoved with
  | stays c' =>
      rw [List.append_nil]
      exact ⟨hknown', hkept⟩
  | turns top rest w' eff sock' names stack turn =>
      cases turn with
      | connecting handlers w' idle promises =>
          refine ⟨?_, ?_⟩
          · intro p hp
            rcases List.mem_append.mp hp with hp | hp
            · exact hknown' p hp
            · obtain rfl := List.mem_singleton.mp hp
              refine ⟨.pending, ?_⟩
              rw [Config.after_world, promises, State.status?_create, if_pos rfl]
          · intro hconnect
            rw [List.append_nil] at hconnect
            cases (hout.waiting (by simp [unconnected, idle])).2 _ hconnect
      | connected handlers count w' idle =>
          refine ⟨hknown', ?_⟩
          intro _ p hp
          have hnil := hout.fresh idle
          simp [hnil] at hp
      | established since w' pending =>
          refine ⟨hknown', ?_⟩
          intro _ p hp
          exact .inr (.inr ⟨sock.connectHandlers, List.mem_cons_self, hp⟩)
      | quiet | wrote | flushed | halfClosed | fullClosed | eofFirst | eofAgain | read | refused =>
          refine ⟨hknown', ?_⟩
          intro hconnect
          apply hkept
          simpa using hconnect

/-! ### The call of connect -/

omit [Blank V] in
theorem World.connectEvent_connected {w w' : World V E F} {since : ℕ} {eff : Effect}
    (h : w.connectEvent i since (.ret 0) = some (w', eff)) : w'.status? i = some .connected := by
  cases hget : w.sockets[i]? with
  | none => simp [World.connectEvent, hget] at h
  | some sock =>
      simp only [World.connectEvent, hget, Option.ite_none_right_eq_some, if_true,
        Option.some.injEq, Prod.mk.injEq] at h
      rw [← h.2.1, World.status?, World.core?_record, w.core?_modifySocket_self hget]
      rfl

theorem World.connect_connected {w w' : World V E F} {count : ℕ} {eff : Effect}
    (h : w.connect i (.ret count) = some (w', eff)) (hidle : w.status? i = some .idle) :
    w'.status? i = some .connected := by
  obtain ⟨sock, hget, hstatus⟩ := World.socket_of_status hidle
  simp only [World.connect, hget, hstatus, ne_eq, not_true_eq_false, if_false,
    Option.ite_none_right_eq_some, Option.some.injEq, Prod.mk.injEq] at h
  rw [← h.2.1, World.status?, World.core?_record, w.core?_modifySocket_self hget]
  rfl

/-- A call that has to wait returns a promise that "connect" will resolve. -/
theorem World.connect_waits {w w' : World V E F} {sock : SocketObject} {eff : Effect}
    (h : w.connect i (.err .inProgress) = some (w', eff)) (hget : w.sockets[i]? = some sock)
    (hidle : sock.status = .idle) :
    ∃ sock', w'.sockets[i]? = some sock' ∧ w.promises.heap.length ∈ sock'.connectHandlers := by
  simp only [World.connect, hget, hidle, ne_eq, not_true_eq_false, if_false,
    Option.ite_none_right_eq_some, Option.some.injEq, Prod.mk.injEq] at h
  rw [← h.2.1]
  exact ⟨_, by rw [getElem?_modifySocket]; simp [hget]; rfl, by simp [State.create, State.alloc]⟩

theorem Stepped.connect_call {answer : Answer} (h : Stepped backend c (.connect i answer) c') :
    ∃ eff, c.world.connect i answer = some (c'.world, eff) := by
  obtain ⟨-, -, eff, -, hcall⟩ := h.called rfl nofun nofun nofun
  exact ⟨eff, hcall⟩

theorem Stepped.write_call {data : List Byte} {answers : List Answer}
    (h : Stepped backend c (.write i data answers) c') :
    ∃ eff, c.world.write i data answers = some (c'.world, eff) := by
  obtain ⟨-, -, eff, -, hcall⟩ := h.called rfl nofun nofun nofun
  exact ⟨eff, hcall⟩

theorem Config.Unused.connecting (h : c.Unused i) (hidle : c.world.status? i = some .idle) :
    c.Connecting i [] := by
  obtain ⟨sock, hget, hstatus⟩ := World.socket_of_status hidle
  obtain ⟨hhandlers, hfired, heof⟩ := h.idle sock hget hstatus
  have hwaiting : unconnected sock.status = true := by simp [unconnected, hstatus]
  refine ⟨h.sound, h.ok, sock, hget, ⟨fun _ => hhandlers, fun _ => ⟨heof, ?_⟩, ?_, ?_, ?_, ?_⟩,
    ?_, ?_⟩
  · simp [hfired]
  · simp [hwaiting]
  · simp [hfired]
  · simp [hfired]
  · simp
  · simp [hhandlers]
  · simp [hhandlers]

theorem Config.Unused.initial : Config.Unused i ({} : Config V E F) where
  sound := .initial
  ok := by simp [NoneRejected, State.status?, State.get?]
  missing := by simp
  idle := by simp

/-- The socket reports its connection, if the kernel has shown it. -/
theorem Config.Connecting.shown {ps : List Ref} (h : c.Connecting i ps) (hguard : c.KeepsOrder i l)
    (hshown : c.showsConnected i l) (hl : Reactor.step backend c l = some c') :
    .connect ∈ fired i c'.world.log := by
  have hstep := stepped hl
  obtain ⟨sock', hget', hout', -⟩ := (h.step hguard hl).socket
  have hconnected (hstatus : c'.world.status? i = some .connected) :
      .connect ∈ fired i c'.world.log := by
    apply hout'.connected
    simp only [World.status?, World.core?, hget', Option.map_some, Option.some.injEq] at hstatus
    simp [unconnected, hstatus]
  simp only [showsConnected] at hshown
  split at hshown
  · rename_i handlers rest k count hstack
    obtain ⟨rfl, hidle⟩ := hshown
    obtain ⟨eff, hcall⟩ := hstep.connect_call
    exact hconnected (World.connect_connected hcall hidle)
  · rename_i k since rest hstack
    subst hshown
    obtain ⟨w, stack⟩ := c
    obtain rfl : stack = .writePart k true since :: rest := hstack
    cases hstep with
    | library w frame rest l w' eff piece =>
        rw [Config.after_world] at hconnected ⊢
        exact hconnected (World.connectEvent_connected piece)
  · rename_i k slot since rest answers hstack
    obtain ⟨rfl, hyields⟩ := hshown
    obtain ⟨sock, hget, hout, -⟩ := h.socket
    obtain ⟨sock₁, names, -, -, hfired⟩ := hstep.moved hget
    rw [hfired]
    apply List.mem_append_left
    exact hout.connected (Config.connected_of_yields hguard.1 hstack rfl hyields hget)
  · cases hshown

end Machine

end Libasync.Reactor
