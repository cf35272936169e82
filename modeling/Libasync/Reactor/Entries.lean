import Libasync.Reactor.Forward
import Libasync.Reactor.Ownership

/-! # The entries of the lookup table

An entry is put into the table together with its descriptor. It is removed before the descriptor
is closed, or by the tail that runs when the "close" handlers have returned. A local close of a
connected socket leaves it. -/

namespace Libasync.Reactor

open Promise Socket Automaton

variable {V E F : Type*}

/-! ### What is to hold -/

namespace World

/-- The status of a socket. -/
def socketStatus? (w : World V E F) : Target → Option Status
  | .socket i => w.status? i
  | .server _ => none

/-- The object has this number and its open descriptor, and is not a closed socket. -/
structure Live (w : World V E F) (t : Target) (n : Fd) : Prop where
  number : w.number? t = some n
  descriptor : w.descriptors n = some (some t)
  notClosed : w.socketStatus? t ≠ some .closed

instance (w : World V E F) (t : Target) (n : Fd) : Decidable (w.Live t n) :=
  decidable_of_iff
    (w.number? t = some n ∧ w.descriptors n = some (some t) ∧ w.socketStatus? t ≠ some .closed)
    ⟨fun ⟨number, descriptor, notClosed⟩ => ⟨number, descriptor, notClosed⟩,
      fun h => ⟨h.number, h.descriptor, h.notClosed⟩⟩

/-- Every key of the table is an open descriptor of the object that its entry refers to, so the
entry of a closed socket is gone. -/
structure TableLive (w : World V E F) : Prop where
  entries : ∀ n entry, w.table n = some entry → ∃ t, entry = some t ∧ w.Live t n
  closed : ∀ i, w.status? i = some .closed → ∀ n, w.table n ≠ some (some (.socket i))

end World

/-! ### The condition -/

/-- The step closes the descriptor of a connected socket, and the table has an entry for it. -/
def Config.closesRegistered (c : Config V E F) (l : Label) : Bool :=
  match c.stack.head?.bind fun frame => c.world.closed? frame l with
  | some (.socket i, n) =>
      decide (c.world.status? i = some .connected) && (c.world.table n).isSome
  | _ => false

/-- An exception leaves a "close" handler, and the entry of the number that would have been
unregistered is not that of an open object. -/
def Config.abandonsEntry (c : Config V E F) (l : Label) : Bool :=
  match c.stack, l with
  | .user _ :: frame :: _, .throw_ =>
      (frame.unregisters?.bind c.world.fd?).any fun n =>
        match c.world.table n with
        | some (some t) => !decide (c.world.Live t n)
        | _ => false
  | _, _ => false

/-- What is closed is unregistered. -/
def Config.Unregisters (c : Config V E F) (l : Label) : Prop :=
  c.closesRegistered l = false ∧ c.abandonsEntry l = false

instance (c : Config V E F) (l : Label) : Decidable (c.Unregisters l) :=
  inferInstanceAs (Decidable (_ ∧ _))

/-! ### Elementary changes -/

/-- What ends the time in which `t` may be the entry of `n`: the number is closed, or the socket
takes its second end of file. -/
def Permits.Ends (P : Permits) (t : Target) (n : Fd) : Prop :=
  (∃ t', P.closes t' n) ∨ ∃ i, t = .socket i ∧ P.eofAgain i

section Changes

variable {P : Permits} {w w' : World V E F} {t : Target} {n : Fd}

theorem World.live_socket {i : ℕ} : w.Live (.socket i) n ↔
    (∃ status, w.core? i = some (n, status) ∧ status ≠ .closed) ∧
      w.descriptors n = some (some (.socket i)) := by
  constructor
  · intro h
    obtain ⟨status, hcore⟩ := World.fd?_eq_some.mp h.number
    refine ⟨⟨status, hcore, ?_⟩, h.descriptor⟩
    rintro rfl
    exact h.notClosed (World.status?_eq_some.mpr ⟨n, hcore⟩)
  · rintro ⟨⟨status, hcore, hstatus⟩, hdescriptor⟩
    refine ⟨World.fd?_eq_some.mpr ⟨status, hcore⟩, hdescriptor, ?_⟩
    intro hclosed
    obtain ⟨fd, hcore'⟩ := World.status?_eq_some.mp hclosed
    obtain ⟨-, rfl⟩ := Prod.mk.inj (Option.some.inj (hcore.symm.trans hcore'))
    exact hstatus rfl

/-- An open socket keeps its number and stays open until the number is closed or a second end of
file is taken. -/
theorem Change.stays_open {i : ℕ} {status : Status} (hc : Change P w w') (hn : 0 ≤ n)
    (hcore : w.core? i = some (n, status)) (hstatus : status ≠ .closed) :
    (∃ status', w'.core? i = some (n, status') ∧ status' ≠ .closed) ∨
      P.Ends (.socket i) n := by
  have hown {k : ℕ} {sock : SocketObject} (hget : w.sockets[k]? = some sock) (hk : i = k) :
      sock.fd = n := by
    subst hk
    exact (Prod.mk.inj (Option.some.inj ((w.core?_eq hget).symm.trans hcore))).1
  cases hc with
  | neutral h => exact .inl ⟨status, (h.core i).trans hcore, hstatus⟩
  | addSocket fd fresh =>
      have hi : i ≠ w.sockets.length := by
        rintro rfl
        simp [World.core?] at hcore
      exact .inl ⟨status, (w.core?_addSocket_of_ne hi fd fresh).trans hcore, hstatus⟩
  | addServer | leak | closeCalled | closeServer | endOfFile | unreg | nullEntry | polled =>
      exact .inl ⟨status, hcore, hstatus⟩
  | advance k f sock get fd_eq before after =>
      left
      by_cases hk : i = k
      · refine ⟨(f sock).status, ?_, ?_⟩
        · rw [hk, w.core?_modifySocket_self get, fd_eq, hown get hk]
        · rcases after with hafter | hafter <;> simp [hafter]
      · exact ⟨status, (w.core?_modifySocket_of_ne hk f).trans hcore, hstatus⟩
  | halfClose k sock get half called drop =>
      by_cases hk : i = k
      · obtain rfl := hown get hk
        exact .inr (.inl ⟨_, drop hn⟩)
      · refine .inl ⟨status, ?_, hstatus⟩
        rw [World.core?_modifySocket_of_ne _ hk]
        split <;> exact hcore
  | fullClose k sock get half nonneg called drop =>
      by_cases hk : i = k
      · obtain rfl := hown get hk
        exact .inr (.inl ⟨_, drop⟩)
      · exact .inl ⟨status, ((w.closeFd _ _).core?_modifySocket_of_ne hk _).trans hcore, hstatus⟩
  | eofAgain k sock get half allowed seen =>
      by_cases hk : i = k
      · exact .inr (.inr ⟨k, by rw [hk], allowed⟩)
      · exact .inl ⟨status, (w.core?_modifySocket_of_ne hk _).trans hcore, hstatus⟩
  | eofFirst k sock get open_ seen =>
      left
      by_cases hk : i = k
      · refine ⟨.halfClosed, ?_, by simp⟩
        rw [hk, w.core?_modifySocket_self get, hown get hk]
      · exact ⟨status, (w.core?_modifySocket_of_ne hk _).trans hcore, hstatus⟩

theorem World.Live.change (h : w.Live t n) (hn : 0 ≤ n) (hc : Change P w w') :
    w'.Live t n ∨ P.Ends t n := by
  have hdescriptor : w'.descriptors n = some (some t) ∨ P.Ends t n := by
    have hused : w.free n ≠ true := by simp [free, h.descriptor]
    cases hc.number n with
    | opened t' free => exact absurd free hused
    | leaked free => exact absurd free hused
    | closed t' drop => exact .inr (.inl ⟨t', drop⟩)
    | same table descriptor | unregistered t' drop table descriptor
    | nullEntry allowed missing table descriptor => exact .inl (descriptor.trans h.descriptor)
  rcases hdescriptor with hdescriptor | hends
  · cases t with
    | socket i =>
        obtain ⟨⟨status, hcore, hstatus⟩, -⟩ := live_socket.mp h
        refine (hc.stays_open hn hcore hstatus).imp_left fun hopen => ?_
        exact live_socket.mpr ⟨hopen, hdescriptor⟩
    | server j => exact .inl ⟨hc.serverFd? h.number, hdescriptor, by simp [socketStatus?]⟩
  · exact .inr hends

theorem World.Live.changes (h : w.Live t n) (hn : 0 ≤ n) (hc : Changes P w w') :
    w'.Live t n ∨ P.Ends t n := by
  refine hc.induct (I := fun v => v.Live t n ∨ P.Ends t n) ?_ (.inl h)
  intro v v' hv hchange
  rcases hv with hlive | hends
  · exact hlive.change hn hchange
  · exact .inr hends

/-- A new object is the entry of its number. -/
theorem World.live_addSocket (w : World V E F) (fd : Fd) {status : Status}
    (hfresh : status = .idle ∨ status = .connected) :
    (w.addSocket fd status).Live (.socket w.sockets.length) fd := by
  refine live_socket.mpr ⟨⟨status, w.core?_addSocket_self fd status, ?_⟩, ?_⟩
  · rcases hfresh with rfl | rfl <;> simp
  · simp [addSocket, reactorRegister]

theorem World.live_addServer (w : World V E F) (fd : Fd) :
    (w.addServer fd).Live (.server w.servers.length) fd where
  number := by simp [number?, serverFd?, addServer, reactorRegister]
  descriptor := by simp [addServer, reactorRegister]
  notClosed := by simp [socketStatus?]

/-- An entry is put in for an object that is made together with its descriptor. -/
theorem Change.entry_inv {entry : Option Target} (hc : Change P w w') (hnull : ¬ P.nullEntry)
    (h : w'.table n = some entry) :
    w.table n = some entry ∨ P.opens n ∧ 0 ≤ n ∧ ∃ t, entry = some t ∧ w'.Live t n := by
  have hupdate {fd : Fd} {new : Option (Option Target)}
      (h : Function.update w.table fd new n = some entry) :
      w.table n = some entry ∨ n = fd ∧ new = some entry := by
    by_cases hn : n = fd
    · subst hn
      rw [Function.update_self] at h
      exact .inr ⟨rfl, h⟩
    · rw [Function.update_of_ne hn] at h
      exact .inl h
  cases hc with
  | neutral hn => exact .inl (hn.table ▸ h)
  | addSocket fd status free opens noDrop fresh =>
      refine (hupdate h).imp_right ?_
      rintro ⟨rfl, hnew⟩
      exact ⟨opens, World.nonneg_of_free free, _, (Option.some.inj hnew).symm,
        w.live_addSocket n fresh⟩
  | addServer fd free opens noDrop =>
      refine (hupdate h).imp_right ?_
      rintro ⟨rfl, hnew⟩
      exact ⟨opens, World.nonneg_of_free free, _, (Option.some.inj hnew).symm, w.live_addServer n⟩
  | unreg t fd => exact .inl ((hupdate h).resolve_right fun hnew => by simp at hnew)
  | nullEntry fd allowed => exact absurd allowed hnull
  | halfClose i sock get status called drop => split at h <;> exact .inl h
  | leak | advance | closeCalled | endOfFile | eofAgain | eofFirst | polled | fullClose
  | closeServer => exact .inl h

theorem Changes.entry_inv {entry : Option Target} (hc : Changes P w w') (hnull : ¬ P.nullEntry)
    (h : w'.table n = some entry) : w.table n = some entry ∨
      P.opens n ∧ ∃ t, entry = some t ∧ (w'.Live t n ∨ P.Ends t n) := by
  have hall := hc.induct (I := fun v => v.table n = some entry → w.table n = some entry ∨
    P.opens n ∧ 0 ≤ n ∧ ∃ t, entry = some t ∧ (v.Live t n ∨ P.Ends t n)) ?_ .inl
  · exact (hall h).imp_right fun ⟨opens, _, hlive⟩ => ⟨opens, hlive⟩
  · intro v v' hv hchange htable
    rcases hchange.entry_inv hnull htable with hold | ⟨opens, hn, t, heq, hlive⟩
    · rcases hv hold with hold | ⟨opens, hn, t, heq, hlive | hends⟩
      · exact .inl hold
      · exact .inr ⟨opens, hn, t, heq, hlive.change hn hchange⟩
      · exact .inr ⟨opens, hn, t, heq, .inr hends⟩
    · exact .inr ⟨opens, hn, t, heq, .inl hlive⟩

end Changes

/-! ### One step -/

namespace World

/-- The socket is closed on one side or on both, and has this number. -/
def Shut (w : World V E F) (i : ℕ) (n : Fd) : Prop :=
  ∃ status, w.core? i = some (n, status) ∧ (status = .halfClosed ∨ status = .closed)

variable {w w' : World V E F} {i : ℕ} {n : Fd}

theorem endOfFile_again {slot : Option ℕ} {since : ℕ} {eff : Effect}
    (h : w.endOfFile i true slot since = some (w', eff))
    (hcore : w.core? i = some (n, .halfClosed)) :
    w'.core? i = some (n, .closed) ∧ eff = .push [.user [], .closedTail i slot since] := by
  obtain ⟨sock, hget, heq⟩ := Option.map_eq_some_iff.mp hcore
  obtain ⟨rfl, hhalf⟩ := Prod.mk.inj heq
  simp only [World.endOfFile, hget, hhalf, if_true, Option.some.injEq, Prod.mk.injEq] at h
  rw [← h.1, core?_record, w.core?_modifySocket_self hget]
  exact ⟨rfl, h.2.symm⟩

end World

section Machine

variable [Blank V] {backend : Backend} {c c' : Config V E F} {l : Label} {t : Target} {n : Fd}

/-- A frame on the stack unregisters this number. -/
def Config.WillUnregister (c : Config V E F) (n : Fd) : Prop :=
  ∃ frame ∈ c.stack, ∃ i, frame.unregisters? = some i ∧ c.world.Shut i n

/-- A step that closes a number, or takes an end of file, runs a piece. -/
theorem Stepped.piece_of_ends (h : Stepped backend c l c')
    (hends : (c.permits backend l).Ends t n) :
    ∃ top rest eff, c.stack = top :: rest ∧
      pieceStep backend c.world top l = some (c'.world, eff) ∧
      c' = Config.after (top.below rest) (c'.world, eff) := by
  cases h with
  | handler w p handlers rest | return_ w frame rest | throw_ w handlers frame rest =>
      simp [Permits.Ends, Config.permits, World.permits, World.closed?, Frame.takesEof?] at hends
  | user w handlers rest l w' eff call =>
      rw [Config.after_world]
      exact ⟨.user handlers, rest, eff, rfl, call, rfl⟩
  | library w frame rest l w' eff piece =>
      have hbelow : frame.below rest = rest := by
        cases frame with
        | user handlers => simp [libraryStep_user] at piece
        | _ => rfl
      rw [Config.after_world]
      refine ⟨frame, rest, eff, rfl, pieceStep_of_library piece, ?_⟩
      rw [hbelow]

/-- A number that a step closes is unregistered by the step or by a frame that it pushes, unless
the socket was connected. -/
theorem Stepped.closed (h : Stepped backend c l c') (hguard : c.closesRegistered l = false)
    {entry entry' : Option Target} (hentry : c.world.table n = some entry)
    (hentry' : c'.world.table n = some entry') (hclose : (c.permits backend l).closes t n) :
    c'.WillUnregister n := by
  obtain ⟨top, rest, eff, hstack, hpiece, hc'⟩ := h.piece_of_ends (t := t) (.inl ⟨t, hclose⟩)
  have hclosed : c.world.closed? top l = some (t, n) := by
    simpa [Config.permits, hstack, World.permits] using hclose
  rcases pieceStep_closed hpiece hclosed with hunreg | ⟨i, rfl, hconnected | ⟨rfl, hcore⟩⟩
  · rw [pieceStep_unregistered hpiece hunreg] at hentry'
    cases hentry'
  · simp [Config.closesRegistered, hstack, hclosed, hconnected, hentry] at hguard
  · refine ⟨.closeTail i, ?_, i, rfl, .closed, hcore, .inr rfl⟩
    rw [hc']
    simp [Config.after]

/-- A socket that takes its second end of file is unregistered by a frame that the step pushes. -/
theorem Stepped.eofAgain (h : Stepped backend c l c') {i : ℕ} (hnumber : c.world.fd? i = some n)
    (hagain : (c.permits backend l).eofAgain i) : c'.WillUnregister n := by
  obtain ⟨top, rest, eff, hstack, hpiece, hc'⟩ :=
    h.piece_of_ends (t := .socket i) (n := n) (.inr ⟨i, rfl, hagain⟩)
  simp only [Config.permits, hstack, World.permits] at hagain
  obtain ⟨htakes, hhalf⟩ := hagain
  obtain ⟨status, hcore⟩ := World.fd?_eq_some.mp hnumber
  obtain ⟨fd, hcore'⟩ := World.status?_eq_some.mp hhalf
  obtain ⟨rfl, rfl⟩ := Prod.mk.inj (Option.some.inj (hcore.symm.trans hcore'))
  cases top with
  | readTail k closed slot since =>
      cases closed with
      | false => cases htakes
      | true =>
          obtain rfl : k = i := by simpa [Frame.takesEof?] using htakes
          cases l with
          | tau =>
              obtain ⟨hclosed, rfl⟩ := World.endOfFile_again hpiece hcore
              refine ⟨.closedTail k slot since, ?_, k, rfl, .closed, hclosed, .inr rfl⟩
              rw [hc']
              simp [Config.after]
          | _ => cases hpiece
  | _ => cases htakes

omit [Blank V] in
/-- What makes an object closes nothing. -/
theorem Config.not_ends_of_opens (hopens : (c.permits backend l).opens n) :
    ¬ (c.permits backend l).Ends t n := by
  obtain ⟨w, stack⟩ := c
  cases stack with
  | nil => simp [Config.permits, Permits.none] at hopens
  | cons top rest =>
      simp only [Config.permits, World.permits] at hopens
      rintro (⟨t', hclose⟩ | ⟨i, -, htakes, -⟩)
      · simp [opened?_of_closing (closing?_of_closed hclose)] at hopens
      · cases top with
        | readTail => simp [opened?] at hopens
        | _ => cases htakes

/-- The entries after a step are old, or those of objects that it has made. -/
theorem Stepped.entry_inv (h : Stepped backend c l c') (hseen : c.EofSeen) (halive : c'.stack ≠ [])
    {entry : Option Target} (hentry : c'.world.table n = some entry) :
    c.world.table n = some entry ∨ ∃ t, entry = some t ∧ c'.world.Live t n := by
  refine ((h.changes_of_alive hseen halive).entry_inv id hentry).imp_right ?_
  rintro ⟨hopens, t, heq, hlive | hends⟩
  · exact ⟨t, heq, hlive⟩
  · exact absurd hends (Config.not_ends_of_opens hopens)

/-- A socket that is shut keeps its number and stays shut. -/
theorem Stepped.stays_shut (h : Stepped backend c l c') {i : ℕ} (hshut : c.world.Shut i n) :
    c'.world.Shut i n := by
  obtain ⟨status, hcore, hstatus⟩ := hshut
  obtain ⟨sock, hget, heq⟩ := Option.map_eq_some_iff.mp hcore
  obtain ⟨rfl, rfl⟩ := Prod.mk.inj heq
  obtain ⟨sock', names, hpassed, hget', -⟩ := h.passed hget
  refine ⟨sock'.status, ?_⟩
  rw [World.core?_eq _ hget']
  generalize hfd' : sock'.fd = fd' at hpassed
  generalize hstatus' : sock'.status = status' at hpassed
  cases hpassed with
  | stays names quiet => exact ⟨rfl, hstatus⟩
  | pending idle => simp [idle] at hstatus
  | connected unconnected => rcases unconnected with h | h <;> simp [h] at hstatus
  | closedOwn connected => simp [connected] at hstatus
  | closedBoth | eofAgain => exact ⟨rfl, .inr rfl⟩
  | eofFirst => exact ⟨rfl, .inl rfl⟩

/-! ### Along a run -/

/-- Every entry is that of an open object, or it will be removed. -/
structure Config.Entered (c : Config V E F) : Prop where
  sound : c.Sound
  entries : c.stack ≠ [] → ∀ n entry, c.world.table n = some entry →
    ∃ t, entry = some t ∧ (c.world.Live t n ∨ c.WillUnregister n)

omit [Blank V] in
theorem Config.Entered.initial : ({} : Config V E F).Entered :=
  ⟨.initial, by simp⟩

/-- The frame that will unregister a number stays on the stack until it does. -/
theorem Config.WillUnregister.step (h : c.WillUnregister n) (hs : c.Sound)
    (hstep : Stepped backend c l c') (hguard : c.abandonsEntry l = false) (halive : c'.stack ≠ [])
    (hentry : c.world.table n = some (some t)) (hentry' : c'.world.table n = some (some t)) :
    c'.world.Live t n ∨ c'.WillUnregister n := by
  obtain ⟨frame, hmem, i, hframe, hshut⟩ := h
  have hnumber : c.world.fd? i = some n := by
    obtain ⟨status, hcore, -⟩ := hshut
    exact World.fd?_eq_some.mpr ⟨status, hcore⟩
  rcases hstep.unregisters hs hnumber halive hframe hmem with
    hkept | hnone | ⟨handlers, rest, rfl, hstack⟩
  · exact .inr ⟨frame, hkept, i, hframe, hstep.stays_shut hshut⟩
  · rw [hnone] at hentry'
    cases hentry'
  · have hworld : c'.world = c.world := by
      cases hstep with
      | throw_ w handlers frame rest => rfl
      | user w handlers rest l w' eff call => cases call
      | library w frame rest l w' eff piece => cases libraryStep_label piece
    left
    rw [hworld]
    simpa [Config.abandonsEntry, hstack, hframe, hnumber, hentry] using hguard

theorem Config.Entered.step (h : c.Entered) (hguard : c.Unregisters l)
    (hstep : Reactor.step backend c l = some c') : c'.Entered := by
  refine ⟨h.sound.step hstep, fun halive n entry hentry' => ?_⟩
  have hstepped := stepped hstep
  have hstack : c.stack ≠ [] := by
    cases hstepped <;> simp
  rcases hstepped.entry_inv h.sound.seen halive hentry' with hold | ⟨t, rfl, hlive⟩
  · obtain ⟨t, rfl, hlive | hwill⟩ := h.entries hstack n entry hold
    · refine ⟨t, rfl, ?_⟩
      have hn : 0 ≤ n := h.sound.world.nonneg n (by simp [hlive.descriptor])
      rcases hlive.changes hn (hstepped.changes h.sound.seen) with hlive' | ⟨t', hclose⟩ | hagain
      · exact .inl hlive'
      · exact .inr (hstepped.closed hguard.1 hold hentry' hclose)
      · obtain ⟨i, rfl, hagain⟩ := hagain
        exact .inr (hstepped.eofAgain hlive.number hagain)
    · exact ⟨t, rfl, hwill.step h.sound hstepped hguard.2 halive hold hentry'⟩
  · exact ⟨t, rfl, .inl hlive⟩

/-- In a run in which what is closed is unregistered, the entries in the table when control is back
in the main program are those of open objects. -/
theorem table_live {ls : List Label} (hrun : run (step backend) {} ls = some c)
    (hguard : EachStep (step backend) Config.Unregisters ({} : Config V E F) ls)
    (hback : c.stack = [.user []]) : c.world.TableLive := by
  have hentered : c.Entered :=
    run_invariant (fun _ _ _ h hg hl => h.step hg hl) .initial hguard hrun
  have hentries : ∀ n entry, c.world.table n = some entry →
      ∃ t, entry = some t ∧ c.world.Live t n := by
    intro n entry hentry
    obtain ⟨t, rfl, hlive | ⟨frame, hmem, i, hframe, -⟩⟩ :=
      hentered.entries (by simp [hback]) n entry hentry
    · exact ⟨t, rfl, hlive⟩
    · rw [hback, List.mem_singleton] at hmem
      subst hmem
      cases hframe
  refine ⟨hentries, fun i hclosed n hentry => ?_⟩
  obtain ⟨t, heq, hlive⟩ := hentries n _ hentry
  obtain rfl := Option.some.inj heq
  exact hlive.notClosed hclosed

/-- A server socket and a connected socket; the peer closes, the socket takes the end of file and
is closed. -/
def closedByPeerRun : List Label :=
  [.newServer 4 none, .newSocket 3 none, .connect 0 (.ret 0), .return_, .tau,
    .poll [(⟨3, true, false⟩, .socket 0)], .tau, .read [.endOfFile], .tau, .return_, .tau, .tau,
    .tau, .close 0 (.ret 0), .return_, .tau]

theorem table_live_sample : ∃ c : Config ℕ ℕ SampleHandler,
    run (step .epoll) {} closedByPeerRun = some c ∧ c.world.table 3 = none ∧
      c.world.table 4 = some (some (.server 0)) ∧ c.world.TableLive := by
  obtain ⟨c, hrun, hclosed, hserver, hback⟩ : ∃ c : Config ℕ ℕ SampleHandler,
      run (step .epoll) {} closedByPeerRun = some c ∧ c.world.table 3 = none ∧
        c.world.table 4 = some (some (.server 0)) ∧ c.stack = [.user []] :=
    ⟨_, rfl, rfl, rfl, rfl⟩
  exact ⟨c, hrun, hclosed, hserver, table_live hrun (by decide +kernel) hback⟩

/-- A connected socket is closed: its number is taken away and never unregistered. -/
theorem closedRun_entry : ∃ c : Config ℕ ℕ SampleHandler,
    run (step .epoll) {} [.newSocket 3 none, .connect 0 (.ret 0), .return_, .tau,
        .close 0 (.ret 0)] = some c ∧
      c.stack = [.user []] ∧ c.world.fd? 0 = some (-1) ∧ c.world.descriptors 3 = none ∧
      c.world.table 3 = some (some (.socket 0)) ∧ ¬ c.world.TableLive := by
  refine ⟨_, rfl, rfl, rfl, rfl, rfl, fun h => ?_⟩
  obtain ⟨t, -, hlive⟩ := h.entries 3 (some (.socket 0)) rfl
  cases hlive.descriptor

end Machine

end Libasync.Reactor
