import Libasync.Reactor.Reachable

/-! # Both sides of a connection

`HALF_CLOSED` stands for a local close and for an end of file, so the history decides whether a
closed socket was closed by both sides. -/

namespace Libasync.Reactor

open Promise Socket Automaton

variable {V E F : Type*}

/-! ### What a step may not do -/

/-- The step closes and unregisters numbers of its own object only. -/
structure Permits.Tame (P : Permits) (w : World V E F) : Prop where
  own : ∀ t n, P.closes t n ∨ P.unregisters t n → ∀ t', w.descriptors n = some (some t') → t' = t
  called : ∀ i n, P.unregisters (.socket i) n → .closeCalled (.socket i) ∈ w.log
  again : ∀ i, P.eofAgain i → .closeCalled (.socket i) ∈ w.log

theorem Permits.Tame.change {P : Permits} {w w' : World V E F} (h : P.Tame w)
    (hc : Change P w w') : P.Tame w' where
  own t n hdrop t' ht' := by
    cases hc.number n with
    | same table descriptor | unregistered t₁ drop table descriptor
    | nullEntry allowed missing table descriptor =>
        rw [descriptor] at ht'
        exact h.own t n hdrop t' ht'
    | opened t₁ free opens noDrop table descriptor =>
        exact absurd hdrop (not_or.mpr (noDrop t n))
    | leaked free table descriptor => simp [descriptor] at ht'
    | closed t₁ drop called table descriptor => simp [descriptor] at ht'
  called i n hdrop := (Changes.log_grows (.single hc)).subset (h.called i n hdrop)
  again i hi := (Changes.log_grows (.single hc)).subset (h.again i hi)

/-! ### Invariants of the world -/

/-- The socket is open, and its number is registered for it. -/
def World.Registered (w : World V E F) (i : ℕ) (fd : Fd) : Prop :=
  0 ≤ fd ∧ w.descriptors fd = some (some (.socket i)) ∧ w.table fd = some (some (.socket i))

/-- A socket that was not closed locally is open and registered. -/
def World.Owned (w : World V E F) : Prop :=
  ∀ i fd status, w.core? i = some (fd, status) → .closeCalled (.socket i) ∉ w.log →
    w.Registered i fd

/-- Registered sockets stay so, unless they are closed locally. -/
theorem World.Registered.change {P : Permits} {w w' : World V E F} {i : ℕ} {fd : Fd}
    (h : w.Registered i fd) (hP : P.Tame w) (hc : Change P w w')
    (hopen : .closeCalled (.socket i) ∉ w.log) : w'.Registered i fd := by
  obtain ⟨hfd, hdescriptor, htable⟩ := h
  have hused : w.free fd ≠ true := by simp [World.free, hdescriptor]
  cases hc.number fd with
  | same table descriptor => exact ⟨hfd, descriptor.trans hdescriptor, table.trans htable⟩
  | opened t free => exact absurd free hused
  | leaked free => exact absurd free hused
  | closed t drop called table descriptor =>
      have hown := hP.own t fd (.inl drop) _ hdescriptor
      exact absurd (called i hown.symm) hopen
  | unregistered t drop table descriptor =>
      have hown := hP.own t fd (.inr drop) _ hdescriptor
      subst hown
      exact absurd (hP.called i fd drop) hopen
  | nullEntry allowed missing table descriptor => simp [missing] at htable

theorem World.Owned.change {P : Permits} {w w' : World V E F} (h : w.Owned) (hP : P.Tame w)
    (hc : Change P w w') : w'.Owned := by
  intro i fd status hcore hnot
  have hopen : .closeCalled (.socket i) ∉ w.log := fun hmem =>
    hnot ((Changes.log_grows (.single hc)).subset hmem)
  have hkeep {status₁ : Status} (hbefore : w.core? i = some (fd, status₁)) :
      w'.Registered i fd :=
    (h i fd status₁ hbefore hopen).change hP hc hopen
  cases hc.core i with
  | same core => exact hkeep (core.symm.trans hcore)
  | added fd₁ status₁ none core fresh free table descriptor =>
      obtain ⟨rfl, rfl⟩ := Prod.mk.inj (Option.some.inj (core.symm.trans hcore))
      exact ⟨World.nonneg_of_free free, descriptor, table⟩
  | advanced fd₁ status₁ status₂ before core =>
      obtain ⟨rfl, rfl⟩ := Prod.mk.inj (Option.some.inj (core.symm.trans hcore))
      exact hkeep before
  | halfClosed fd₁ before core called => exact absurd called hopen
  | fullClosed fd₁ before core nonneg called => exact absurd called hopen
  | eofAgain fd₁ before core =>
      obtain ⟨rfl, rfl⟩ := Prod.mk.inj (Option.some.inj (core.symm.trans hcore))
      exact hkeep before
  | eofFirst fd₁ status₁ before core =>
      obtain ⟨rfl, rfl⟩ := Prod.mk.inj (Option.some.inj (core.symm.trans hcore))
      exact hkeep before

/-- The socket was closed locally, and its peer has sent an end of file. -/
def World.BothClosed (w : World V E F) (i : ℕ) : Prop :=
  .closeCalled (.socket i) ∈ w.log ∧ .endOfFile i ∈ w.log

structure World.BothSides (w : World V E F) : Prop where
  closed : ∀ i, w.status? i = some .closed → w.BothClosed i
  fired : ∀ i, .triggered (.socket i) .close ∈ w.log → w.BothClosed i
  half : ∀ i fd, w.core? i = some (fd, .halfClosed) → 0 ≤ fd → .endOfFile i ∈ w.log

/-- The "close" event comes with the status. -/
theorem Change.fired_mem {P : Permits} {w w' : World V E F} (h : Change P w w') {i : ℕ}
    (hmem : .triggered (.socket i) .close ∈ w'.log) :
    .triggered (.socket i) .close ∈ w.log ∨ w'.status? i = some .closed := by
  cases h with
  | neutral h => exact .inl (h.mem_of_mem hmem fun hn => hn rfl)
  | addSocket | addServer | leak | advance | eofFirst | unreg | nullEntry | polled =>
      exact .inl hmem
  | closeCalled | endOfFile | closeServer =>
      left
      simpa using hmem
  | halfClose k sock get status called drop =>
      left
      split at hmem <;> simpa using hmem
  | fullClose k sock get status nonneg called drop =>
      simp only [World.record_log, World.modifySocket_log, World.closeFd_log, List.mem_append,
        List.mem_singleton, Happening.triggered.injEq, Target.socket.injEq, and_true,
        reduceCtorEq, or_false] at hmem
      rcases hmem with hmem | rfl
      · exact .inl hmem
      · right
        rw [World.status?, World.core?_record, (w.closeFd _ _).core?_modifySocket_self get]
        rfl
  | eofAgain k sock get status allowed seen =>
      simp only [World.record_log, World.modifySocket_log, List.mem_append, List.mem_singleton,
        Happening.triggered.injEq, Target.socket.injEq, and_true] at hmem
      rcases hmem with hmem | rfl
      · exact .inl hmem
      · right
        rw [World.status?, World.core?_record, World.core?_modifySocket_self _ get]
        rfl

theorem World.BothSides.change {P : Permits} {w w' : World V E F} (h : w.BothSides)
    (hP : P.Tame w) (hc : Change P w w') : w'.BothSides := by
  have hgrows := (Changes.log_grows (.single hc)).subset
  have hclosed : ∀ i, w'.status? i = some .closed → w'.BothClosed i := by
    intro i hi
    obtain ⟨fd, hcore'⟩ := World.status?_eq_some.mp hi
    suffices hboth : w.BothClosed i from ⟨hgrows hboth.1, hgrows hboth.2⟩
    cases hc.core i with
    | same core => exact h.closed i (World.status?_eq_some.mpr ⟨fd, core.symm.trans hcore'⟩)
    | added fd₁ status none core fresh =>
        obtain ⟨rfl, rfl⟩ := Prod.mk.inj (Option.some.inj (core.symm.trans hcore'))
        simp at fresh
    | advanced fd₁ status status' before core open_ open' =>
        obtain ⟨rfl, rfl⟩ := Prod.mk.inj (Option.some.inj (core.symm.trans hcore'))
        simp at open'
    | halfClosed fd₁ before core => simp [core] at hcore'
    | fullClosed fd₁ before core nonneg called => exact ⟨called, h.half i fd₁ before nonneg⟩
    | eofAgain fd₁ before core allowed seen => exact ⟨hP.again i allowed, seen⟩
    | eofFirst fd₁ status before core => simp [core] at hcore'
  refine ⟨hclosed, ?_, ?_⟩
  · intro i hfired
    rcases hc.fired_mem hfired with hold | hnew
    · obtain ⟨hcalled, hseen⟩ := h.fired i hold
      exact ⟨hgrows hcalled, hgrows hseen⟩
    · exact hclosed i hnew
  · intro i fd hcore' hfd
    apply hgrows
    cases hc.core i with
    | same core => exact h.half i fd (core.symm.trans hcore') hfd
    | added fd₁ status none core fresh =>
        obtain ⟨rfl, rfl⟩ := Prod.mk.inj (Option.some.inj (core.symm.trans hcore'))
        simp at fresh
    | advanced fd₁ status status' before core open_ open' =>
        obtain ⟨rfl, rfl⟩ := Prod.mk.inj (Option.some.inj (core.symm.trans hcore'))
        simp at open'
    | halfClosed fd₁ before core =>
        obtain ⟨rfl, -⟩ := Prod.mk.inj (Option.some.inj (core.symm.trans hcore'))
        exact absurd hfd (by decide)
    | fullClosed fd₁ before core => simp [core] at hcore'
    | eofAgain fd₁ before core => simp [core] at hcore'
    | eofFirst fd₁ status before core not_half seen => exact seen

/-- A socket that is half closed by its peer stays so until it is closed locally. -/
theorem Change.half_stays {P : Permits} {w w' : World V E F} (hc : Change P w w') (hP : P.Tame w)
    {i : ℕ} (hhalf : w.status? i = some .halfClosed)
    (hopen : .closeCalled (.socket i) ∉ w.log) : w'.status? i = some .halfClosed := by
  obtain ⟨fd, hcore⟩ := World.status?_eq_some.mp hhalf
  cases hc.core i with
  | same core => exact World.status?_eq_some.mpr ⟨fd, core.trans hcore⟩
  | added fd₁ status none => simp [none] at hcore
  | advanced fd₁ status status' before core open_ =>
      obtain ⟨rfl, rfl⟩ := Prod.mk.inj (Option.some.inj (before.symm.trans hcore))
      simp at open_
  | halfClosed fd₁ before core called => exact absurd called hopen
  | fullClosed fd₁ before core nonneg called => exact absurd called hopen
  | eofAgain fd₁ before core allowed => exact absurd (hP.again i allowed) hopen
  | eofFirst fd₁ status before core => exact World.status?_eq_some.mpr ⟨fd₁, core⟩

/-! ### Reading an end of file -/

theorem Change.eof_mem {P : Permits} {w w' : World V E F} (h : Change P w w') {i : ℕ}
    (hmem : .endOfFile i ∈ w'.log) : .endOfFile i ∈ w.log ∨ P.readsEof i := by
  cases h with
  | neutral h => exact .inl (h.mem_of_mem hmem id)
  | addSocket | addServer | leak | advance | eofFirst | unreg | nullEntry | polled =>
      exact .inl hmem
  | closeCalled | eofAgain | closeServer | fullClose =>
      left
      simpa using hmem
  | halfClose k sock get status called drop =>
      left
      split at hmem <;> simpa using hmem
  | endOfFile k allowed =>
      simp only [World.record_log, List.mem_append, List.mem_singleton,
        Happening.endOfFile.injEq] at hmem
      rcases hmem with hmem | rfl
      · exact .inl hmem
      · exact .inr allowed

theorem readEvent_pushes_eof {w w' : World V E F} {eff : Effect} {i : ℕ} {slot : Option ℕ}
    {since : ℕ} {answers : List ReadAnswer} {data : List Byte}
    (h : w.readEvent i slot since answers = some (w', eff))
    (hloop : readLoop answers = some (.ok (data, true))) :
    ∃ frames, eff = .push frames ∧ .readTail i true slot since ∈ frames := by
  cases hget : w.sockets[i]? with
  | none => simp [World.readEvent, hget] at h
  | some sock =>
      simp only [World.readEvent, hget, hloop, Option.ite_none_right_eq_some] at h
      obtain ⟨-, h⟩ := h
      split at h
      · simp only [Option.some.injEq, Prod.mk.injEq] at h
        exact ⟨_, h.2.symm, by simp⟩
      · simp only [Option.some.injEq, Prod.mk.injEq] at h
        exact ⟨_, h.2.symm, by simp⟩

/-- An end of file is read by a step that may do so. -/
theorem Stepped.readsEof [Blank V] {backend : Backend} {c c' : Config V E F} {l : Label}
    (h : Stepped backend c l c') (hseen : c.EofSeen) {i : ℕ}
    (hmem : .endOfFile i ∈ c'.world.log) :
    .endOfFile i ∈ c.world.log ∨ (c.permits backend l).readsEof i := by
  refine (h.changes hseen).induct (I := fun w => .endOfFile i ∈ w.log →
    .endOfFile i ∈ c.world.log ∨ (c.permits backend l).readsEof i) ?_ .inl hmem
  intro w w' hw hc hmem'
  exact (hc.eof_mem hmem').elim hw .inr

/-- An end of file that was read will be taken. -/
theorem Stepped.eof_read [Blank V] {backend : Backend} {c c' : Config V E F} {l : Label}
    (h : Stepped backend c l c') (hseen : c.EofSeen) {i : ℕ}
    (hmem : .endOfFile i ∈ c'.world.log) :
    .endOfFile i ∈ c.world.log ∨ ∃ frame ∈ c'.stack, frame.takesEof? = some i := by
  refine (h.readsEof hseen hmem).imp_right ?_
  intro hpermits
  cases h with
  | handler | return_ | throw_ | user => cases hpermits
  | library w frame rest l w' eff piece =>
      have hreads : readsEof? frame l = some i := hpermits
      cases frame with
      | reading k slot since =>
          cases l with
          | read answers =>
              simp only [readsEof?] at hreads
              split at hreads
              · rename_i data hloop
                obtain rfl := Option.some.inj hreads
                obtain ⟨frames, rfl, hframe⟩ := readEvent_pushes_eof piece hloop
                exact ⟨_, List.mem_append_left rest hframe, rfl⟩
              · cases hreads
          | _ => cases hreads
      | _ => cases hreads

/-! ### Guarded steps -/

/-- The step takes an end of file of a socket that is half closed because of an earlier end of
file: `close` was not called. -/
def Config.takesEofAgain (c : Config V E F) : Bool :=
  match c.stack.head?.bind Frame.takesEof? with
  | some i =>
      decide (c.world.status? i = some .halfClosed ∧ .closeCalled (.socket i) ∉ c.world.log)
  | none => false

/-- An exception of a "data" handler skips the transition of an end of file that was read. -/
def Config.losesEof (c : Config V E F) : Label → Bool
  | .throw_ =>
      match c.stack.tail.head?.bind Frame.takesEof? with
      | some i =>
          decide (c.world.status? i ≠ some .halfClosed ∧ .closeCalled (.socket i) ∉ c.world.log)
      | none => false
  | _ => false

/-- The number is open for another object. -/
def World.isForeign (w : World V E F) (drop : Target × Fd) : Bool :=
  match w.descriptors drop.2 with
  | some (some t) => decide (t ≠ drop.1)
  | _ => false

/-- The step closes or unregisters a number that is open for another object. -/
def Config.dropsForeign (c : Config V E F) (l : Label) : Bool :=
  (c.dropped l).any c.world.isForeign

/-- No end of file is taken for a local close or lost, and no number of another object is
closed. -/
def Config.Fair (c : Config V E F) (l : Label) : Prop :=
  c.takesEofAgain = false ∧ c.losesEof l = false ∧ c.dropsForeign l = false

instance (c : Config V E F) (l : Label) : Decidable (c.Fair l) :=
  inferInstanceAs (Decidable (_ ∧ _ ∧ _))

/-- The socket of which a frame will unregister the number. -/
def Frame.unregisters? : Frame → Option ℕ
  | .closeTail i => some i
  | .closedTail i _ _ => some i
  | _ => none

section Machine

variable [Blank V] {backend : Backend}

omit [Blank V] in
theorem endOfFile_half {w w' : World V E F} {eff : Effect} {i : ℕ} {slot : Option ℕ} {since : ℕ}
    (h : w.endOfFile i true slot since = some (w', eff)) :
    w.status? i = some .halfClosed ∨ w'.status? i = some .halfClosed := by
  cases hget : w.sockets[i]? with
  | none => simp [World.endOfFile, hget] at h
  | some sock =>
      by_cases hhalf : sock.status = .halfClosed
      · exact .inl (by simp [World.status?, w.core?_eq hget, hhalf])
      · simp only [World.endOfFile, hget, hhalf, if_true, if_false, Option.some.injEq,
          Prod.mk.injEq] at h
        right
        rw [← h.1, World.status?, World.core?_record, w.core?_modifySocket_self hget]
        rfl

omit [Blank V] in
/-- A pushed frame that will unregister a number comes from a local close or from a second end of
file. -/
theorem Pushed.called {w w' : World V E F} {l : Label} {top frame : Frame}
    {frames : List Frame} (h : Pushed w w' l top frames) (hmem : frame ∈ frames) {i : ℕ}
    (hi : frame.unregisters? = some i)
    (hagain : top.takesEof? = some i → w.status? i = some .halfClosed →
      .closeCalled (.socket i) ∈ w'.log) : .closeCalled (.socket i) ∈ w'.log := by
  cases h with
  | closing top k called =>
      rcases List.mem_pair.mp hmem with rfl | rfl
      · simp [Frame.unregisters?] at hi
      · obtain rfl : k = i := by simpa [Frame.unregisters?] using hi
        exact called
  | eofAgain k slot since half =>
      rcases List.mem_pair.mp hmem with rfl | rfl
      · simp [Frame.unregisters?] at hi
      · obtain rfl : k = i := by simpa [Frame.unregisters?] using hi
        exact hagain rfl half
  | delivered w₁ backend k n event t more =>
      rcases List.mem_pair.mp hmem with rfl | rfl
      · cases t with
        | socket j =>
            simp only [World.startEvent] at hi
            split at hi <;> simp [Frame.unregisters?] at hi
        | server j => simp [World.startEvent, Frame.unregisters?] at hi
      · simp [Frame.unregisters?] at hi
  | nothing => cases hmem
  | handlers | polled | noData | rest | skipped =>
      obtain rfl := List.mem_singleton.mp hmem
      simp [Frame.unregisters?] at hi
  | connecting | data | eofFirst | error | accepted =>
      rcases List.mem_pair.mp hmem with rfl | rfl <;> simp [Frame.unregisters?] at hi

/-- The invariants of guarded runs. -/
structure Config.ClosingInv (c : Config V E F) : Prop where
  sound : c.Sound
  owned : c.world.Owned
  both : c.world.BothSides
  pending : c.stack ≠ [] → ∀ i, .endOfFile i ∈ c.world.log →
    .closeCalled (.socket i) ∉ c.world.log →
      (∃ frame ∈ c.stack, frame.takesEof? = some i) ∨ c.world.status? i = some .halfClosed
  tails : ∀ frame ∈ c.stack, ∀ i, frame.unregisters? = some i →
    .closeCalled (.socket i) ∈ c.world.log

namespace Config.ClosingInv

variable {c c' : Config V E F} {l : Label}

omit [Blank V] in
theorem initial : Config.ClosingInv ({} : Config V E F) where
  sound := .initial
  owned := by simp [World.Owned, World.core?]
  both := ⟨by simp [World.status?, World.core?], by simp, by simp [World.core?]⟩
  pending := by simp
  tails := by simp [Frame.unregisters?]

omit [Blank V] in
theorem tame (h : c.ClosingInv) (hfair : c.Fair l) : (c.permits backend l).Tame c.world := by
  obtain ⟨hagain, -, hforeign⟩ := hfair
  refine ⟨?_, ?_, ?_⟩
  · intro t n hdrop t' ht'
    have hown := List.any_eq_false.mp hforeign (t, n) (c.mem_dropped hdrop)
    simpa [World.isForeign, ht'] using hown
  · obtain ⟨w, stack⟩ := c
    cases stack with
    | nil => simp [permits, Permits.none]
    | cons frame rest =>
        intro i n hdrop
        have hframe : frame.unregisters? = some i := by
          simp only [permits, World.permits, World.unregistered?] at hdrop
          split at hdrop <;> simp_all [Frame.unregisters?]
        exact h.tails frame (by simp) i hframe
  · obtain ⟨w, stack⟩ := c
    cases stack with
    | nil => simp [permits, Permits.none]
    | cons frame rest =>
        rintro i ⟨htakes, hhalf⟩
        simp only [takesEofAgain, List.head?_cons, Option.bind_some, htakes] at hagain
        by_contra hopen
        simp [hhalf, hopen] at hagain

/-- The world after a guarded step. -/
theorem world_step (h : c.ClosingInv) (hfair : c.Fair l) (hstep : Stepped backend c l c') :
    c'.world.Owned ∧ c'.world.BothSides ∧ ∀ i, c.world.status? i = some .halfClosed →
      .closeCalled (.socket i) ∉ c'.world.log → c'.world.status? i = some .halfClosed := by
  have hinv := (hstep.changes h.sound.seen).induct
    (I := fun w => (c.permits backend l).Tame w ∧ w.Owned ∧ w.BothSides ∧
      ∀ i, c.world.status? i = some .halfClosed → .closeCalled (.socket i) ∉ w.log →
        w.status? i = some .halfClosed) ?_ ⟨h.tame hfair, h.owned, h.both, fun _ hi _ => hi⟩
  · exact hinv.2
  · rintro w w' ⟨htame, howned, hboth, hhalf⟩ hc
    refine ⟨htame.change hc, howned.change htame hc, hboth.change htame hc, ?_⟩
    intro i hi hnot
    have hopen : .closeCalled (.socket i) ∉ w.log := fun hmem =>
      hnot ((Changes.log_grows (.single hc)).subset hmem)
    exact hc.half_stays htame (hhalf i hi hopen) hopen

theorem step (h : c.ClosingInv) (hfair : c.Fair l) (hl : Reactor.step backend c l = some c') :
    c'.ClosingInv := by
  have hstep := stepped hl
  have hgrows := (hstep.changes h.sound.seen).log_grows.subset
  obtain ⟨howned, hboth, hhalf⟩ := h.world_step hfair hstep
  refine ⟨h.sound.step hl, howned, hboth, ?_, ?_⟩
  · intro halive i hseen hnot
    have hopen : .closeCalled (.socket i) ∉ c.world.log := fun hmem => hnot (hgrows hmem)
    rcases hstep.eof_read h.sound.seen hseen with hold | hnew
    · have hstart : c.stack ≠ [] := by
        intro hnil
        simp [Reactor.step, hnil] at hl
      rcases h.pending hstart i hold hopen with ⟨frame, hmem, htakes⟩ | hi
      · have hbase : frame.isBase = false := by
          cases frame <;> simp_all [Frame.takesEof?, Frame.isBase]
        rcases hstep.keeps h.sound.layered halive hmem hbase with
          hkept | ⟨rest, w', eff, hstack, hpiece, rfl⟩ | ⟨handlers, rest, rfl, hstack⟩
        · exact .inl ⟨frame, hkept, htakes⟩
        · -- the frame on top takes the end of file
          rw [Config.after_world] at hhalf hnot ⊢
          cases frame with
          | readTail k closed slot since =>
              cases closed with
              | true =>
                  obtain rfl : k = i := by simpa [Frame.takesEof?] using htakes
                  cases l with
                  | tau =>
                      right
                      rcases endOfFile_half hpiece with hi | hi
                      · exact hhalf k hi hnot
                      · exact hi
                  | _ => cases hpiece
              | false => cases htakes
          | _ => cases htakes
        · -- the exception is thrown when the socket is half closed already
          have hlost := hfair.2.1
          simp only [Config.losesEof, hstack, List.tail_cons, List.head?_cons, Option.bind_some,
            htakes, decide_eq_false_iff_not, not_and, not_not] at hlost
          refine .inr (hhalf i ?_ hnot)
          by_contra hi
          exact hopen (hlost hi)
      · exact .inr (hhalf i hi hnot)
    · exact .inl hnew
  · intro frame hmem i hi
    rcases hstep.mem_stack hmem with hold | ⟨handlers, rfl⟩ | ⟨top, frames, htop, hpushed, hnew⟩
    · exact hgrows (h.tails frame hold i hi)
    · simp [Frame.unregisters?] at hi
    · refine hpushed.called hnew hi ?_
      intro htakes hhalf
      refine hgrows ?_
      have hagain := hfair.1
      by_contra hopen
      simp [Config.takesEofAgain, htop, htakes, hhalf, hopen] at hagain

theorem run {ls : List Label}
    (hfair : EachStep (Reactor.step backend) Config.Fair ({} : Config V E F) ls)
    (hrun : Automaton.run (Reactor.step backend) ({} : Config V E F) ls = some c) :
    c.ClosingInv :=
  run_invariant (fun _ _ _ h hf hl => h.step hf hl) initial hfair hrun

end Config.ClosingInv

/-! ### The statuses of a guarded run -/

end Machine

end Libasync.Reactor
