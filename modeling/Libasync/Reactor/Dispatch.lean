import Libasync.Reactor.Reachable

/-! # Dispatch of a batch

A batch of events is a snapshot. While its events are handled, handlers close, unregister and
reuse the numbers of events that are still to come. -/

namespace Libasync.Reactor

open Promise Socket Automaton

variable {V E F : Type*}

/-! ### Events still to come -/

/-- The events that a loop of `reactor_task` has still to handle. -/
def Frame.window (events : List (Event × Target)) : Frame → List (Event × Target)
  | .batch k n => (events.drop k).take (n - k)
  | _ => []

/-- The events that are still to come for the loops on the stack. -/
def Config.awaited (c : Config V E F) : List (Event × Target) :=
  c.stack.flatMap (Frame.window c.world.events)

/-- An event is still to come for this number. -/
def Config.awaits (c : Config V E F) (n : Fd) : Bool := c.awaited.any fun e => decide (e.1.fd = n)

theorem Frame.mem_window {events : List (Event × Target)} {k n : ℕ} {e : Event × Target} :
    e ∈ (Frame.batch k n).window events ↔ ∃ i, k ≤ i ∧ i < n ∧ events[i]? = some e := by
  simp only [window, List.mem_iff_getElem?, List.getElem?_take, List.getElem?_drop]
  constructor
  · rintro ⟨j, hj⟩
    split at hj
    · exact ⟨k + j, by omega, by omega, hj⟩
    · cases hj
  · rintro ⟨i, hk, hn, hi⟩
    refine ⟨i - k, ?_⟩
    rw [if_pos (by omega), show k + (i - k) = i by omega]
    exact hi

/-- The number is open for its object and registered for it. -/
structure World.Intact (w : World V E F) (n : Fd) (t : Target) : Prop where
  descriptor : w.descriptors n = some (some t)
  table : w.table n = some (some t)

/-- A socket that is about to unregister this number. -/
def World.Closing (w : World V E F) (n : Fd) (i : ℕ) : Prop :=
  ∃ status, w.core? i = some (n, status) ∧ (status = .halfClosed ∨ status = .closed)

/-- An event to come will be delivered to the right target. On kqueue it may also be skipped:
its number is not in the table, or one of `held`, the sockets whose `close` will unregister their
number before the event is looked at, has the number. -/
def EventOk (backend : Backend) (w : World V E F) (held : List ℕ) (e : Event × Target) : Prop :=
  w.Intact e.1.fd e.2 ∨
    backend = .kqueue ∧ (w.table e.1.fd = none ∨ ∃ i ∈ held, w.Closing e.1.fd i)

theorem EventOk.mono {backend : Backend} {w : World V E F} {held held' : List ℕ}
    {e : Event × Target} (h : EventOk backend w held e) (hsub : held ⊆ held') :
    EventOk backend w held' e := by
  refine h.imp_right (And.imp_right (Or.imp_right ?_))
  rintro ⟨i, hi, hclosing⟩
  exact ⟨i, hsub hi, hclosing⟩

theorem EventOk.of_same {backend : Backend} {w w' : World V E F} {held : List ℕ}
    {e : Event × Target} (h : EventOk backend w held e) (htable : w'.table = w.table)
    (hdescriptors : w'.descriptors = w.descriptors) (hcore : ∀ i, w'.core? i = w.core? i) :
    EventOk backend w' held e := by
  rcases h with ⟨hdescriptor, hentry⟩ | ⟨hkqueue, hnone | ⟨i, hi, status, hclosing, hstatus⟩⟩
  · exact .inl ⟨by rw [hdescriptors, hdescriptor], by rw [htable, hentry]⟩
  · exact .inr ⟨hkqueue, .inl (by rw [htable, hnone])⟩
  · exact .inr ⟨hkqueue, .inr ⟨i, hi, status, by rw [hcore, hclosing], hstatus⟩⟩

/-- All events to come for the loops on the stack. Frames above a loop run before it. -/
def Safe (backend : Backend) (w : World V E F) : List ℕ → List Frame → Prop
  | _, [] => True
  | held, .batch k n :: rest =>
      (∀ e ∈ (Frame.batch k n).window w.events, EventOk backend w held e) ∧
        Safe backend w held rest
  | held, .closeTail i :: rest => Safe backend w (i :: held) rest
  | held, _ :: rest => Safe backend w held rest

variable {backend : Backend}

theorem Safe.tail {w : World V E F} {held : List ℕ} {frame : Frame} {rest : List Frame}
    (h : Safe backend w held (frame :: rest)) (hframe : ∀ i, frame ≠ .closeTail i) :
    Safe backend w held rest := by
  cases frame with
  | batch k n => exact h.2
  | closeTail i => exact absurd rfl (hframe i)
  | _ => exact h

/-- A step that keeps the events to come in order below it. -/
theorem Safe.imp {w w' : World V E F} {held held' : List ℕ} {stack : List Frame}
    (h : Safe backend w held stack)
    (hstep : ∀ frame ∈ stack, ∀ e ∈ frame.window w'.events, ∀ more,
      (e ∈ frame.window w.events → EventOk backend w (more ++ held) e) →
        EventOk backend w' (more ++ held') e) : Safe backend w' held' stack := by
  induction stack generalizing held held' with
  | nil => trivial
  | cons frame rest ih =>
      have hrest : ∀ below ∈ rest, ∀ e ∈ below.window w'.events, ∀ more,
          (e ∈ below.window w.events → EventOk backend w (more ++ held) e) →
            EventOk backend w' (more ++ held') e := fun below hbelow =>
        hstep below (List.mem_cons_of_mem frame hbelow)
      cases frame with
      | batch k n =>
          refine ⟨?_, ih h.2 hrest⟩
          intro e he
          exact hstep (.batch k n) (by simp) e he [] fun hold => h.1 e hold
      | closeTail i =>
          change Safe backend w (i :: held) rest at h
          refine ih h ?_
          intro below hbelow e he more hold
          have hnext := hrest below hbelow e he (more ++ [i])
          simp only [List.append_assoc, List.singleton_append] at hnext
          exact hnext hold
      | _ => exact ih h hrest

/-- The loops that an exception passes are gone. -/
theorem Safe.unwind {w : World V E F} {held : List ℕ} {rest : List Frame}
    (h : Safe backend w held rest) (hrest : rest.IsChain Frame.Above)
    (hbase : ∀ below ∈ rest.head?, below.isBase = true) :
    Safe backend w held (unwind rest) := by
  obtain ⟨loops, hsplit, hloops⟩ := unwind_split hrest hbase
  rw [hsplit] at h
  generalize Reactor.unwind rest = below at h
  clear hsplit
  induction loops with
  | nil => exact h
  | cons frame loops ih =>
      obtain ⟨k, n, rfl⟩ := hloops frame (by simp)
      exact ih (fun frame hmem => hloops frame (List.mem_cons_of_mem _ hmem)) h.2

/-! ### One round of the loop -/

/-- The exits of a round of `reactor_task`. -/
inductive Dispatched (backend : Backend) (w : World V E F) (k n : ℕ) :
    World V E F × Effect → Prop where
  | done (le : n ≤ k) : Dispatched backend w k n (w, .push [])
  | delivered (event reported t) (lt : k < n) (get : w.events[k]? = some (event, reported))
      (entry : w.table event.fd = some (some t)) :
      Dispatched backend w k n
        (w.record (.delivered event reported (some t)),
          .push [(w.record (.delivered event reported (some t))).startEvent backend k event t,
            .batch (k + 1) n])
  | skipped (event reported) (lt : k < n) (get : w.events[k]? = some (event, reported))
      (kqueue : backend = .kqueue) (missing : w.table event.fd = none) :
      Dispatched backend w k n (w, .push [.batch (k + 1) n])
  | crashed (event reported w') (lt : k < n) (get : w.events[k]? = some (event, reported))
      (entry : ∀ t, w.table event.fd ≠ some (some t))
      (null : backend = .kqueue → w.table event.fd ≠ none) :
      Dispatched backend w k n (w', .crash)

theorem World.dispatched {w w' : World V E F} {k n : ℕ} {eff : Effect}
    (h : w.dispatch backend k n = some (w', eff)) : Dispatched backend w k n (w', eff) := by
  simp only [dispatch] at h
  split at h
  · rename_i hdone
    simp only [Option.some.injEq, Prod.mk.injEq] at h
    obtain ⟨rfl, rfl⟩ := h
    exact .done hdone
  · rename_i hmore
    have hlt := Nat.lt_of_not_le hmore
    cases hevent : w.events[k]? with
    | none => simp [hevent] at h
    | some pending =>
        obtain ⟨event, reported⟩ := pending
        cases htable : w.table event.fd with
        | none =>
            cases backend with
            | epoll =>
                simp only [hevent, htable, Option.some.injEq, Prod.mk.injEq] at h
                obtain ⟨rfl, rfl⟩ := h
                exact .crashed event reported _ hlt hevent (by simp [htable]) (by simp)
            | kqueue =>
                simp only [hevent, htable, Option.some.injEq, Prod.mk.injEq] at h
                obtain ⟨rfl, rfl⟩ := h
                exact .skipped event reported hlt hevent rfl htable
        | some entry =>
            cases entry with
            | none =>
                simp only [hevent, htable, Option.some.injEq, Prod.mk.injEq] at h
                obtain ⟨rfl, rfl⟩ := h
                exact .crashed event reported _ hlt hevent (by simp [htable]) (by simp [htable])
            | some t =>
                simp only [hevent, htable, Option.some.injEq, Prod.mk.injEq] at h
                obtain ⟨rfl, rfl⟩ := h
                exact .delivered event reported t hlt hevent htable

/-! ### What a step does to an event to come -/

theorem World.Intact.change {P : Permits} {w w' : World V E F} {n : Fd} {t : Target}
    (h : w.Intact n t) (hc : Change P w w')
    (hdrop : ∀ t, ¬ P.closes t n ∧ ¬ P.unregisters t n) : w'.Intact n t := by
  have hused : w.free n ≠ true := by simp [World.free, h.descriptor]
  cases hc.number n with
  | same table descriptor => exact ⟨descriptor.trans h.descriptor, table.trans h.table⟩
  | opened t free => exact absurd free hused
  | leaked free => exact absurd free hused
  | closed t drop => exact absurd drop (hdrop t).1
  | unregistered t drop => exact absurd drop (hdrop t).2
  | nullEntry allowed missing => exact absurd h.table (by simp [missing])

/-- A missing entry stays missing until the number is given to a new object. -/
theorem Change.table_none {P : Permits} {w w' : World V E F} {n : Fd} (hc : Change P w w')
    (h : w.table n = none) (hopen : ¬ P.opens n) (hnull : ¬ P.nullEntry) : w'.table n = none := by
  cases hc.number n with
  | same table descriptor => exact table.trans h
  | opened t free opens => exact absurd opens hopen
  | leaked free table => exact table.trans h
  | closed t drop called table => exact table.trans h
  | unregistered t drop table => exact table
  | nullEntry allowed => exact absurd allowed hnull

theorem World.Closing.change {P : Permits} {w w' : World V E F} {n : Fd} {i : ℕ}
    (h : w.Closing n i) (hc : Change P w w') : w'.Closing n i := by
  obtain ⟨status, hcore, hstatus⟩ := h
  cases hc.core i with
  | same core => exact ⟨status, core.trans hcore, hstatus⟩
  | added fd₁ status₁ none => simp [none] at hcore
  | advanced fd₁ status₁ status' before core open_ =>
      obtain ⟨rfl, rfl⟩ := Prod.mk.inj (Option.some.inj (before.symm.trans hcore))
      rcases hstatus with rfl | rfl <;> simp at open_
  | halfClosed fd₁ before core =>
      obtain ⟨rfl, rfl⟩ := Prod.mk.inj (Option.some.inj (before.symm.trans hcore))
      simp at hstatus
  | fullClosed fd₁ before core =>
      obtain ⟨rfl, rfl⟩ := Prod.mk.inj (Option.some.inj (before.symm.trans hcore))
      exact ⟨.closed, core, .inr rfl⟩
  | eofAgain fd₁ before core =>
      obtain ⟨rfl, rfl⟩ := Prod.mk.inj (Option.some.inj (before.symm.trans hcore))
      exact ⟨.closed, core, .inr rfl⟩
  | eofFirst fd₁ status₁ before core =>
      obtain ⟨rfl, rfl⟩ := Prod.mk.inj (Option.some.inj (before.symm.trans hcore))
      exact ⟨.halfClosed, core, .inl rfl⟩

/-- An event to come stays in order when its number is neither closed, unregistered nor, on
kqueue, given to a new object. -/
theorem EventOk.changes {P : Permits} {w w' : World V E F} {held : List ℕ} {e : Event × Target}
    (h : EventOk backend w held e) (hc : Changes P w w')
    (hdrop : ∀ t, ¬ P.closes t e.1.fd ∧ ¬ P.unregisters t e.1.fd)
    (hopen : backend = .kqueue → ¬ P.opens e.1.fd ∧ ¬ P.nullEntry) :
    EventOk backend w' held e := by
  refine hc.induct (I := fun w => EventOk backend w held e) ?_ h
  intro w w' h hc
  rcases h with h | ⟨hkqueue, htable | ⟨i, hi, hclosing⟩⟩
  · exact .inl (h.change hc hdrop)
  · obtain ⟨hopen, hnull⟩ := hopen hkqueue
    exact .inr ⟨hkqueue, .inl (hc.table_none htable hopen hnull)⟩
  · exact .inr ⟨hkqueue, .inr ⟨i, hi, hclosing.change hc⟩⟩

/-! ### Numbers that a step closes or unregisters -/

theorem World.closeServer_table {w w' : World V E F} {j : ℕ} {answer : Answer} {eff : Effect}
    {n : Fd} (h : w.closeServer j answer = some (w', eff)) (hn : w.serverFd? j = some n) :
    w'.table n = none := by
  obtain ⟨server, hget, rfl⟩ := Option.map_eq_some_iff.mp hn
  simp only [World.closeServer, hget] at h
  cases answer with
  | err errno =>
      simp only [Option.some.injEq, Prod.mk.injEq] at h
      rw [← h.1]
      simp [World.reactorUnreg]
  | ret count =>
      simp only [Option.ite_none_right_eq_some, Option.some.injEq, Prod.mk.injEq] at h
      rw [← h.2.1]
      simp [World.reactorUnreg, World.record, World.modifyServer, World.closeFd]

/-- A number that `Socket::close` closes is that of a connected socket, or the socket is about to
unregister it. -/
theorem World.closeSocket_drops {w w' : World V E F} {i : ℕ} {answer : Answer} {eff : Effect}
    {n : Fd} (h : w.closeSocket i answer = some (w', eff)) (hn : w.closeDrops? i answer = some n) :
    w.status? i = some .connected ∨
      eff = .push [.user [], .closeTail i] ∧ w'.core? i = some (n, .closed) := by
  obtain ⟨sock, hget, rfl, hfd, hopen, hrest⟩ := closeSocket_of_drops h hn
  rcases hopen with hconnected | hhalf
  · exact .inl (by simp [status?, core?, hget, hconnected])
  · simp only [closeRest, hhalf, hfd, reduceCtorEq, if_false, if_true, and_self,
      Prod.mk.injEq] at hrest
    right
    refine ⟨hrest.2.symm, ?_⟩
    rw [← hrest.1, core?_record]
    exact core?_modifySocket_self ((w.record _).closeFd _ _) hget _

section Machine

variable [Blank V]

theorem pieceStep_unregistered {w w' : World V E F} {top : Frame} {l : Label} {eff : Effect}
    {t : Target} {n : Fd} (h : pieceStep backend w top l = some (w', eff))
    (hn : w.unregistered? top l = some (t, n)) : w'.table n = none := by
  simp only [World.unregistered?] at hn
  split at hn
  · obtain ⟨fd, hfd, heq⟩ := Option.map_eq_some_iff.mp hn
    rw [← (Prod.mk.inj heq).2]
    exact World.closeServer_table h hfd
  · obtain ⟨fd, hfd, heq⟩ := Option.map_eq_some_iff.mp hn
    rw [← (Prod.mk.inj heq).2]
    exact World.unregTail_table h hfd
  · obtain ⟨fd, hfd, heq⟩ := Option.map_eq_some_iff.mp hn
    rw [← (Prod.mk.inj heq).2]
    exact World.unregTail_table h hfd
  · cases hn

theorem pieceStep_closed {w w' : World V E F} {top : Frame} {l : Label} {eff : Effect}
    {t : Target} {n : Fd} (h : pieceStep backend w top l = some (w', eff))
    (hn : w.closed? top l = some (t, n)) :
    w.unregistered? top l = some (t, n) ∨ ∃ i, t = .socket i ∧
      (w.status? i = some .connected ∨
        eff = .push [.user [], .closeTail i] ∧ w'.core? i = some (n, .closed)) := by
  simp only [World.closed?] at hn
  split at hn
  · obtain ⟨fd, hfd, heq⟩ := Option.map_eq_some_iff.mp hn
    obtain ⟨rfl, rfl⟩ := Prod.mk.inj heq
    exact .inr ⟨_, rfl, World.closeSocket_drops h hfd⟩
  · exact .inl hn
  · obtain ⟨fd, hfd, heq⟩ := Option.map_eq_some_iff.mp hn
    obtain ⟨rfl, rfl⟩ := Prod.mk.inj heq
    exact .inr ⟨_, rfl, World.closeSocket_drops h hfd⟩
  · cases hn

/-! ### Guarded steps -/

omit [Blank V] in
/-- Every event that `epoll_wait` reports is for a number in the table. -/
def Config.pollsRegistered (c : Config V E F) : Label → Bool
  | .poll batch => batch.all fun e => (c.world.table e.1.fd).any Option.isSome
  | _ => true

omit [Blank V] in
/-- The step closes or unregisters a number for which an event is still to come. -/
def Config.dropsAwaited (c : Config V E F) (l : Label) : Bool :=
  (c.dropped l).any fun drop => c.awaits drop.2

omit [Blank V] in
/-- The step closes a connected socket, which stays in the table, and an event is still to come for
its number. -/
def Config.closesConnected (c : Config V E F) (l : Label) : Bool :=
  match c.stack.head?.bind fun frame => c.world.closed? frame l with
  | some (.socket i, n) => decide (c.world.status? i = some .connected) && c.awaits n
  | _ => false

omit [Blank V] in
/-- The step gives a new object a number for which an event is still to come. -/
def Config.reusesAwaited (c : Config V E F) (l : Label) : Bool :=
  (c.stack.head?.bind fun frame => opened? frame l).any c.awaits

omit [Blank V] in
/-- An exception of a "close" handler skips unregistering a number for which an event is still to
come. -/
def Config.abandonsClose (c : Config V E F) : Label → Bool
  | .throw_ =>
      match c.stack.tail.head? with
      | some (.closeTail i) => (c.world.fd? i).any c.awaits
      | _ => false
  | _ => false

omit [Blank V] in
/-- What the handlers may not do while a batch is handled. -/
def Config.Steady (backend : Backend) (c : Config V E F) (l : Label) : Prop :=
  match backend with
  | .epoll => c.pollsRegistered l = true ∧ c.dropsAwaited l = false
  | .kqueue =>
      c.closesConnected l = false ∧ c.reusesAwaited l = false ∧ c.abandonsClose l = false

instance (backend : Backend) (c : Config V E F) (l : Label) : Decidable (c.Steady backend l) :=
  match backend with
  | .epoll => inferInstanceAs (Decidable (_ ∧ _))
  | .kqueue => inferInstanceAs (Decidable (_ ∧ _ ∧ _))

omit [Blank V] in
theorem Config.awaits_of_mem {c : Config V E F} {frame : Frame} {e : Event × Target}
    (hframe : frame ∈ c.stack) (he : e ∈ frame.window c.world.events) :
    c.awaits e.1.fd = true :=
  List.any_eq_true.mpr ⟨e, List.mem_flatMap.mpr ⟨frame, hframe, he⟩, by simp⟩

/-- The sockets that will unregister their number before the frames below are run. -/
def Effect.closers : Effect → List ℕ
  | .push [.user _, .closeTail i] => [i]
  | _ => []

/-- A call or a piece keeps an event to come in order. -/
theorem EventOk.piece {w w' : World V E F} {top : Frame} {stack : List Frame} {l : Label}
    {eff : Effect} {held : List ℕ} {e : Event × Target} (h : EventOk backend w held e)
    (hpiece : pieceStep backend w top l = some (w', eff))
    (hchanges : Changes (w.permits backend top l) w w')
    (hsteady : Config.Steady backend ⟨w, top :: stack⟩ l)
    (hawaits : Config.awaits ⟨w, top :: stack⟩ e.1.fd = true) :
    EventOk backend w' (eff.closers ++ held) e := by
  have hmore {held : List ℕ} (h : EventOk backend w' held e) :
      EventOk backend w' (eff.closers ++ held) e := h.mono (List.subset_append_right _ held)
  cases backend with
  | epoll =>
      have hdropped := List.any_eq_false.mp hsteady.2
      refine hmore (h.changes hchanges ?_ (by simp))
      intro t
      have hnot : ((t, e.1.fd) : Target × Fd) ∉ Config.dropped ⟨w, top :: stack⟩ l := fun hmem =>
        absurd hawaits (by simpa using hdropped _ hmem)
      exact ⟨fun hc => hnot (Config.mem_dropped (.inl hc)),
        fun hu => hnot (Config.mem_dropped (.inr hu))⟩
  | kqueue =>
      obtain ⟨hconnected, hreuses, -⟩ := hsteady
      by_cases hunreg : ∃ t, w.unregistered? top l = some (t, e.1.fd)
      · obtain ⟨t, hunreg⟩ := hunreg
        exact .inr ⟨rfl, .inl (pieceStep_unregistered hpiece hunreg)⟩
      · by_cases hclosed : ∃ t, w.closed? top l = some (t, e.1.fd)
        · obtain ⟨t, hclosed⟩ := hclosed
          rcases pieceStep_closed hpiece hclosed with hu | ⟨i, rfl, hstatus | ⟨rfl, hcore⟩⟩
          · exact absurd ⟨t, hu⟩ hunreg
          · simp [Config.closesConnected, hclosed, hstatus, hawaits] at hconnected
          · refine .inr ⟨rfl, .inr ⟨i, ?_, .closed, hcore, .inr rfl⟩⟩
            simp [Effect.closers]
        · refine hmore (h.changes hchanges ?_ ?_)
          · exact fun t => ⟨fun hc => hclosed ⟨t, hc⟩, fun hu => hunreg ⟨t, hu⟩⟩
          · intro _
            refine ⟨?_, by simp [World.permits]⟩
            intro (hopened : opened? top l = some e.1.fd)
            simp [Config.reusesAwaited, hopened, hawaits] at hreuses

omit [Blank V] in
/-- A polled event is for a number in the table, or kqueue will skip it. -/
theorem EventOk.polled {w : World V E F} {batch : List (Event × Target)} {e : Event × Target}
    (hsound : w.Sound) (hnull : backend = .kqueue → ∀ n, w.table n ≠ some none)
    (hreports : w.reports backend batch = true) (he : e ∈ batch)
    (hregistered : backend = .epoll → (w.table e.1.fd).any Option.isSome = true) :
    EventOk backend w [] e := by
  have hdescriptor : w.descriptors e.1.fd = some (some e.2) := by
    simp only [World.reports, Bool.and_eq_true, List.all_eq_true, decide_eq_true_eq] at hreports
    exact hreports.1.2 e he
  rcases hsound.registered _ _ hdescriptor with htable | htable | htable
  · cases backend with
    | epoll => simp [htable] at hregistered
    | kqueue => exact .inr ⟨rfl, .inl htable⟩
  · cases backend with
    | epoll => simp [htable] at hregistered
    | kqueue => exact absurd htable (hnull rfl _)
  · exact .inl ⟨hdescriptor, htable⟩

omit [Blank V] in
/-- The events of a new batch replace the first ones of the buffer. -/
theorem Frame.window_polled {events batch : List (Event × Target)} {frame : Frame}
    {e : Event × Target} (he : e ∈ frame.window (batch ++ events.drop batch.length)) :
    e ∈ batch ∨ e ∈ frame.window events := by
  cases frame with
  | batch k n =>
      obtain ⟨i, hk, hn, hi⟩ := mem_window.mp he
      rcases Nat.lt_or_ge i batch.length with hlt | hge
      · rw [List.getElem?_append_left hlt] at hi
        exact .inl (List.mem_of_getElem? hi)
      · rw [List.getElem?_append_right hge, List.getElem?_drop,
          Nat.add_sub_cancel' hge] at hi
        exact .inr (mem_window.mpr ⟨i, hk, hn, hi⟩)
  | _ => cases he

/-- The invariants of guarded runs. -/
structure Config.DispatchInv (backend : Backend) (c : Config V E F) : Prop where
  sound : c.Sound
  safe : Safe backend c.world [] c.stack
  noNull : backend = .kqueue → ∀ n, c.world.table n ≠ some none

namespace Config.DispatchInv

variable {c c' : Config V E F} {l : Label}

omit [Blank V] in
theorem initial : Config.DispatchInv backend ({} : Config V E F) :=
  ⟨.initial, trivial, by simp⟩

/-- A call or a piece keeps the events to come for the frames below it in order. -/
theorem below_ok {w w' : World V E F} {top : Frame} {rest below : List Frame} {eff : Effect}
    {held : List ℕ} (hsafe : Safe backend w held below) (hbelow : below ⊆ top :: rest)
    (hpiece : pieceStep backend w top l = some (w', eff))
    (hchanges : Changes (w.permits backend top l) w w')
    (hsteady : Config.Steady backend ⟨w, top :: rest⟩ l) (hevents : w'.events = w.events) :
    Safe backend w' (eff.closers ++ held) below := by
  refine hsafe.imp ?_
  intro frame hframe e he more hold
  rw [hevents] at he
  have hok := (hold he).piece hpiece hchanges hsteady (awaits_of_mem (hbelow hframe) he)
  exact hok.mono (by simp)

omit [Blank V] in
/-- The frames that a call or a piece pushes, other than those of `reactor_task`. -/
theorem push {w w' : World V E F} {top : Frame} {below frames : List Frame}
    (hsafe : Safe backend w' (Effect.push frames).closers below)
    (hpushed : Pushed w w' l top frames) (hpoll : ∀ batch, l ≠ .poll batch)
    (htop : ∀ k n, top ≠ .batch k n) : Safe backend w' [] (frames ++ below) := by
  cases hpushed with
  | polled top batch label => exact absurd label (hpoll batch)
  | delivered w₁ backend k n => exact absurd rfl (htop k n)
  | skipped k n => exact absurd rfl (htop k n)
  | nothing | handlers | connecting | closing | noData | data | eofAgain | eofFirst | rest | error
  | accepted => exact hsafe

/-- A call or a piece, other than those of `reactor_task`. -/
theorem after {w w' : World V E F} {top : Frame} {rest below : List Frame} {eff : Effect}
    (hsafe : Safe backend w [] below) (hbelow : below ⊆ top :: rest)
    (hpiece : pieceStep backend w top l = some (w', eff))
    (hchanges : Changes (w.permits backend top l) w w')
    (hsteady : Config.Steady backend ⟨w, top :: rest⟩ l) (hpoll : ∀ batch, l ≠ .poll batch)
    (htop : ∀ k n, top ≠ .batch k n) (hchain : below.IsChain Frame.Above)
    (hbase : ∀ frame ∈ below.head?, frame.isBase = true)
    (hpushed : ∀ frames, eff = .push frames → Pushed w w' l top frames) :
    Safe backend w' [] (Config.after below (w', eff)).stack := by
  have hnext := below_ok hsafe hbelow hpiece hchanges hsteady (hchanges.events_eq hpoll)
  cases eff with
  | push frames =>
      rw [List.append_nil] at hnext
      exact push hnext (hpushed frames rfl) hpoll htop
  | throw failure => exact hnext.unwind hchain hbase
  | crash => trivial

omit [Blank V] in
/-- An exception that leaves user code. -/
theorem throw_ {w : World V E F} {handlers : List Ref} {top : Frame} {rest : List Frame}
    (h : DispatchInv backend ⟨w, .user handlers :: top :: rest⟩)
    (hsteady : Config.Steady backend ⟨w, .user handlers :: top :: rest⟩ .throw_) :
    Safe backend w [] (unwind (top :: rest)) := by
  have hsafe : Safe backend w [] (top :: rest) := h.safe
  have hchain : (top :: rest).IsChain Frame.Above := h.sound.layered.tail
  have hrest : Safe backend w [] rest := by
    cases top with
    | closeTail i =>
        have hsafe : Safe backend w [i] rest := hsafe
        refine hsafe.imp ?_
        intro frame hframe e he more hold
        rcases hold he with hok | ⟨hkqueue, hok | ⟨k, hk, hclosing⟩⟩
        · exact .inl hok
        · exact .inr ⟨hkqueue, .inl hok⟩
        · rcases List.mem_append.mp hk with hk | hk
          · exact .inr ⟨hkqueue, .inr ⟨k, List.mem_append_left _ hk, hclosing⟩⟩
          · -- the number of the socket is awaited, so the exception is excluded
            obtain rfl := List.mem_singleton.mp hk
            subst hkqueue
            have hawaits : Config.awaits ⟨w, .user handlers :: .closeTail k :: rest⟩ e.1.fd =
                true := awaits_of_mem (by simp [hframe]) he
            obtain ⟨status, hcore, -⟩ := hclosing
            have habandons := hsteady.2.2
            simp [Config.abandonsClose, World.fd?, hcore, hawaits] at habandons
    | batch k n => exact hsafe.2
    | _ => exact hsafe
  have hunwound (htop : top.isUser = false) : Safe backend w [] (Reactor.unwind rest) :=
    hrest.unwind hchain.tail fun below hbelow =>
      ((List.isChain_cons.mp hchain).1 below hbelow).resolve_left (by simp [htop])
  cases top with
  | user handlers' => exact hsafe
  | _ => exact hunwound rfl

theorem poll {w w' : World V E F} {handlers : List Ref} {rest : List Frame} {eff : Effect}
    {batch : List (Event × Target)}
    (h : DispatchInv backend ⟨w, .user handlers :: rest⟩)
    (hsteady : Config.Steady backend ⟨w, .user handlers :: rest⟩ (.poll batch))
    (call : userStep backend w (.poll batch) = some (w', eff)) :
    Safe backend w' [] (Config.after (.user handlers :: rest) (w', eff)).stack := by
  simp only [userStep, World.poll, Option.ite_none_right_eq_some, Bool.and_eq_true,
    Option.some.injEq, Prod.mk.injEq] at call
  obtain ⟨⟨-, hreports⟩, rfl, rfl⟩ := call
  let polled : World V E F := { w with events := batch ++ w.events.drop batch.length }
  have hpolled : ∀ e ∈ batch, EventOk backend polled [] e := by
    intro e he
    have hok := EventOk.polled h.sound.world h.noNull hreports he ?_
    · exact hok.of_same rfl rfl fun _ => rfl
    · rintro rfl
      exact List.all_eq_true.mp hsteady.1 e he
  refine ⟨?_, ?_⟩
  · intro e he
    obtain ⟨i, -, hi, hget⟩ := Frame.mem_window.mp he
    rw [List.getElem?_append_left hi] at hget
    exact hpolled e (List.mem_of_getElem? hget)
  · have hsafe : Safe backend w [] rest := h.safe
    suffices hnext : Safe backend polled [] rest from hnext
    refine hsafe.imp ?_
    intro frame hframe e he more hold
    rcases Frame.window_polled he with hnew | hold'
    · exact (hpolled e hnew).mono (by simp)
    · exact (hold hold').of_same rfl rfl fun _ => rfl

/-- `Socket::close` unregisters the number of the socket. -/
theorem unregistered {w w' : World V E F} {i : ℕ} {rest : List Frame} {eff : Effect}
    (hsafe : Safe backend w [i] rest) (piece : w.unregTail i [] = some (w', eff))
    (hchanges : Changes (w.permits backend (.closeTail i) .tau) w w')
    (hsteady : Config.Steady backend ⟨w, .closeTail i :: rest⟩ .tau) :
    Safe backend w' [] (Config.after rest (w', eff)).stack := by
  have hevents := hchanges.events_eq (by simp [World.permits])
  have htable {n : Fd} (hn : w.fd? i = some n) := World.unregTail_table piece hn
  have hsame : eff = .push [] ∧ w'.core? i = w.core? i := by
    cases hget : w.sockets[i]? with
    | none => simp [World.unregTail, hget] at piece
    | some sock =>
        simp only [World.unregTail, hget, Option.some.injEq, Prod.mk.injEq] at piece
        exact ⟨piece.2.symm, by rw [← piece.1, World.core?_reactorUnreg]⟩
  obtain ⟨rfl, hcore⟩ := hsame
  have hsafe : Safe backend w [i] rest := hsafe
  have hpiece : pieceStep backend w (.closeTail i) .tau = some (w', .push []) := piece
  refine hsafe.imp ?_
  intro frame hframe e he more hold
  rw [hevents] at he
  have hawaits := awaits_of_mem (c := ⟨w, .closeTail i :: rest⟩) (by simp [hframe]) he
  have hok : EventOk backend w' (more ++ [i]) e :=
    (hold he).piece hpiece hchanges hsteady hawaits
  rcases hok with hok | ⟨hkqueue, hok | ⟨k, hk, hclosing⟩⟩
  · exact .inl hok
  · exact .inr ⟨hkqueue, .inl hok⟩
  · rcases List.mem_append.mp hk with hk | hk
    · exact .inr ⟨hkqueue, .inr ⟨k, List.mem_append_left _ hk, hclosing⟩⟩
    · obtain rfl := List.mem_singleton.mp hk
      obtain ⟨status, hcore', -⟩ := hclosing
      refine .inr ⟨hkqueue, .inl (htable ?_)⟩
      rw [World.fd?, ← hcore, hcore']
      rfl

omit [Blank V] in
/-- A round of `reactor_task` leaves the events after it. -/
theorem dispatched {w w' : World V E F} {k n : ℕ} {rest : List Frame} {eff : Effect}
    (hsafe : Safe backend w [] (.batch k n :: rest))
    (piece : w.dispatch backend k n = some (w', eff))
    (hchanges : Changes (w.permits backend (.batch k n) .tau) w w') :
    Safe backend w' [] (Config.after rest (w', eff)).stack := by
  have hevents := hchanges.events_eq (by simp [World.permits])
  have hsame : Safe backend w' [] (.batch k n :: rest) := by
    refine hsafe.imp ?_
    intro frame hframe e he more hold
    rw [hevents] at he
    refine (hold he).changes hchanges ?_ ?_
    · intro t
      simp [World.permits, World.closed?, World.unregistered?]
    · rintro rfl
      simp [World.permits, opened?]
  have hnext : Safe backend w' [] (.batch (k + 1) n :: rest) := by
    refine ⟨?_, hsame.2⟩
    intro e he
    obtain ⟨i, hk, hn, hi⟩ := Frame.mem_window.mp he
    exact hsame.1 e (Frame.mem_window.mpr ⟨i, Nat.le_of_succ_le hk, hn, hi⟩)
  cases World.dispatched piece with
  | done le => exact hsame.2
  | delivered event reported t lt get entry =>
      cases t with
      | server j => exact hnext
      | socket i =>
          simp only [Config.after, World.startEvent]
          split <;> exact hnext
  | skipped event reported lt get kqueue missing => exact hnext
  | crashed => trivial

omit [Blank V] in
theorem permits_nullEntry (h : (c.permits backend l).nullEntry) : backend = .epoll := by
  obtain ⟨w, stack⟩ := c
  cases stack with
  | nil => exact h.elim
  | cons frame rest => exact h

theorem step (h : c.DispatchInv backend) (hsteady : c.Steady backend l)
    (hl : Reactor.step backend c l = some c') : c'.DispatchInv backend := by
  have hstep := stepped hl
  have hchanges := hstep.changes h.sound.seen
  refine ⟨h.sound.step hl, ?_, ?_⟩
  · cases hstep with
    | handler w p handlers rest =>
        have hsafe : Safe backend w [] rest := h.safe
        refine hsafe.imp ?_
        intro frame hframe e he more hold
        exact (hold he).of_same rfl rfl fun _ => rfl
    | return_ w top rest => exact h.safe
    | throw_ w handlers top rest => exact h.throw_ hsteady
    | user w handlers rest l w' eff call =>
        rw [Config.after_world]
        have hchanges : Changes (w.permits backend (.user handlers) l) w w' :=
          userStep_changes call
        have hbase : ∀ frame ∈ (.user handlers :: rest : List Frame).head?,
            frame.isBase = true := by
          simp [Frame.isBase]
        by_cases hpoll : ∃ batch, l = .poll batch
        · obtain ⟨batch, rfl⟩ := hpoll
          exact h.poll hsteady call
        · refine after h.safe (List.Subset.refl _) call hchanges hsteady
            (fun batch hbatch => hpoll ⟨batch, hbatch⟩) (by simp) h.sound.layered hbase ?_
          rintro frames rfl
          exact userStep_pushed call
    | library w top rest l w' eff piece =>
        rw [Config.after_world]
        obtain ⟨habove, hchain⟩ := List.isChain_cons.mp h.sound.layered
        have hbase : ∀ frame ∈ rest.head?, frame.isBase = true := fun frame hframe =>
          (habove frame hframe).resolve_left (by
            cases top with
            | user handlers => simp [libraryStep_user] at piece
            | _ => simp [Frame.isUser])
        have hchanges : Changes (w.permits backend top l) w w' :=
          libraryStep_changes piece fun i hi => h.sound.seen top (by simp) i hi
        have hpoll : ∀ batch, l ≠ .poll batch := by
          rintro batch rfl
          cases top <;> simp [libraryStep] at piece
        cases top with
        | batch k n =>
            cases l with
            | tau => exact dispatched h.safe piece hchanges
            | _ => cases piece
        | closeTail i =>
            cases l with
            | tau => exact unregistered h.safe piece hchanges hsteady
            | _ => cases piece
        | _ =>
            refine after (h.safe.tail (by simp)) (List.subset_cons_self _ rest)
              (pieceStep_of_library piece) hchanges hsteady hpoll (by simp) hchain hbase ?_
            rintro frames rfl
            exact libraryStep_pushed piece
  · intro hkqueue
    refine hchanges.induct (I := fun w => ∀ n, w.table n ≠ some none) ?_ (h.noNull hkqueue)
    intro w w' hw hc n
    cases hc.number n with
    | same table | leaked free table | closed t drop called table =>
        rw [table]
        exact hw n
    | opened t free opens noDrop table => simp [table]
    | unregistered t drop table => simp [table]
    | nullEntry allowed =>
        have hepoll := permits_nullEntry allowed
        simp [hkqueue] at hepoll

theorem run {ls : List Label}
    (hsteady : EachStep (Reactor.step backend) (Config.Steady backend) ({} : Config V E F) ls)
    (hrun : Automaton.run (Reactor.step backend) {} ls = some c) : c.DispatchInv backend :=
  run_invariant (fun _ _ _ h hs hl => h.step hs hl) initial hsteady hrun

end Config.DispatchInv

/-! ### Delivery -/

/-- The round of `reactor_task` for an event delivers it to the object for which it was reported,
which is open and registered, or skips it. -/
def HitsTarget (backend : Backend) (c : Config V E F) (l : Label) : Prop :=
  ∀ k n rest event reported c', c.stack = .batch k n :: rest → k < n →
    c.world.events[k]? = some (event, reported) → step backend c l = some c' →
      (c.world.Intact event.fd reported ∧
        c'.world = c.world.record (.delivered event reported (some reported)) ∧
        c'.stack = c'.world.startEvent backend k event reported :: .batch (k + 1) n :: rest) ∨
      (c'.world = c.world ∧ c'.stack = .batch (k + 1) n :: rest)

theorem Config.DispatchInv.hits {c : Config V E F} {l : Label} (h : c.DispatchInv backend) :
    HitsTarget backend c l := by
  intro k n rest event reported c' hstack hlt hget hl
  obtain ⟨w, stack⟩ := c
  subst hstack
  have hok : EventOk backend w [] (event, reported) :=
    h.safe.1 _ (Frame.mem_window.mpr ⟨k, Nat.le_refl k, hlt, hget⟩)
  have hentry : w.Intact event.fd reported ∨ backend = .kqueue ∧ w.table event.fd = none := by
    rcases hok with hok | ⟨hkqueue, hok | ⟨i, hi, -⟩⟩
    · exact .inl hok
    · exact .inr ⟨hkqueue, hok⟩
    · cases hi
  have hsame {event' : Event} {reported' : Target}
      (hget' : w.events[k]? = some (event', reported')) :
      event' = event ∧ reported' = reported :=
    Prod.mk.inj (Option.some.inj (hget'.symm.trans hget))
  cases stepped hl with
  | library w' top rest l w' eff piece =>
      have hround : w.dispatch backend k n = some (w', eff) := by
        cases l with
        | tau => exact piece
        | _ => cases piece
      cases World.dispatched hround with
      | done le => exact absurd hlt (Nat.not_lt.mpr le)
      | delivered event' reported' t lt get entry =>
          obtain ⟨rfl, rfl⟩ := hsame get
          rcases hentry with hintact | ⟨-, hnone⟩
          · obtain rfl : t = reported' := by
              simpa [entry] using hintact.table
            exact .inl ⟨hintact, rfl, rfl⟩
          · simp [entry] at hnone
      | skipped event' reported' lt get kqueue missing => exact .inr ⟨rfl, rfl⟩
      | crashed event' reported' w' lt get entry null =>
          obtain ⟨rfl, rfl⟩ := hsame get
          rcases hentry with hintact | ⟨hkqueue, hnone⟩
          · exact absurd hintact.table (entry _)
          · exact absurd hnone (null hkqueue)

/-- In a run whose steps are steady every event is delivered to the object for which it was
reported, while it is open and registered, or skipped. -/
theorem dispatch_hits_target {ls : List Label}
    (hsteady : EachStep (step backend) (Config.Steady backend) ({} : Config V E F) ls) :
    EachStep (step backend) (HitsTarget backend) ({} : Config V E F) ls := by
  intro before l after c₁ hls hbefore
  have hprefix : before <+: ls := ⟨l :: after, hls.symm⟩
  exact (Config.DispatchInv.run (hsteady.of_prefix hprefix) hbefore).hits

end Machine

/-- Two connected sockets and the handler of an event of the first one, while an event of the
second one is still to come. -/
def twoEventsRun (handler : List Label) : List Label :=
  [.newSocket 3 none, .newSocket 4 none, .connect 0 (.ret 0), .return_, .tau,
    .connect 1 (.ret 0), .return_, .tau,
    .poll [(⟨3, true, false⟩, .socket 0), (⟨4, true, false⟩, .socket 1)], .tau,
    .read [.data [7], .err .again]] ++ handler ++ [.return_, .tau, .tau]

/-- The handler makes a new socket and closes its own one. -/
theorem dispatch_hits_target_sample :
    EachStep (step .epoll) (HitsTarget .epoll) ({} : Config ℕ ℕ SampleHandler)
      (twoEventsRun [.newSocket 5 none, .close 0 (.ret 0)] ++ [.tau]) :=
  dispatch_hits_target (by decide +kernel)

/-- The handler closes the second socket and makes a new one, which gets its number and then its
event. -/
theorem staleRun_hits_new_socket :
    (run (step .epoll) ({} : Config ℕ ℕ SampleHandler)
        (twoEventsRun [.close 1 (.ret 0), .newSocket 4 none] ++ [.tau])).map
        (fun c => c.world.log.getLast?) =
      some (some (.delivered ⟨4, true, false⟩ (.socket 1) (some (.socket 2)))) ∧
    ¬ EachStep (step .epoll) (HitsTarget .epoll) ({} : Config ℕ ℕ SampleHandler)
      (twoEventsRun [.close 1 (.ret 0), .newSocket 4 none] ++ [.tau]) := by
  refine ⟨by decide +kernel, ?_⟩
  intro hhits
  let before := twoEventsRun [.close 1 (.ret 0), .newSocket 4 none]
  have hcheck : (run (step .epoll) ({} : Config ℕ ℕ SampleHandler) before).map
      (fun c => (c.stack, c.world.events[1]?, c.world.table 4,
        (step .epoll c .tau).map fun c' => c'.stack.length)) =
      some ([.batch 1 2, .user []], some (⟨4, true, false⟩, .socket 1), some (some (.socket 2)),
        some 3) := by
    decide +kernel
  obtain ⟨c, hc, hcheck⟩ := Option.map_eq_some_iff.mp hcheck
  simp only [Prod.mk.injEq] at hcheck
  obtain ⟨hstack, hevent, htable, hstep⟩ := hcheck
  obtain ⟨c', hstep, hlength⟩ := Option.map_eq_some_iff.mp hstep
  rcases hhits before .tau [] c rfl hc 1 2 _ _ _ c' hstack (by decide) hevent hstep with
    ⟨hintact, -⟩ | ⟨-, hstack'⟩
  · have hentry := hintact.table
    rw [htable] at hentry
    cases hentry
  · rw [hstack'] at hlength
    cases hlength

end Libasync.Reactor
