import Libasync.Reactor.Change

/-! # Descriptors and closed sockets

What holds of the descriptors, the table and the numbers of closed objects after every step. -/

namespace Libasync.Reactor

open Promise Socket

variable {V E F : Type*}

/-! ### Computation rules -/

namespace World

variable (w : World V E F)

@[simp] theorem core?_record (h : Happening) (i : ℕ) : (w.record h).core? i = w.core? i := rfl

@[simp] theorem core?_closeFd (t : Target) (fd : Fd) (i : ℕ) :
    (w.closeFd t fd).core? i = w.core? i := rfl

@[simp] theorem core?_leak (fd : Fd) (i : ℕ) : (w.leak fd).core? i = w.core? i := rfl

@[simp] theorem core?_reactorUnreg (fd : Fd) (i : ℕ) :
    (w.reactorUnreg fd).core? i = w.core? i := rfl

@[simp] theorem core?_modifyServer (j : ℕ) (f : ServerSocketData → ServerSocketData) (i : ℕ) :
    (w.modifyServer j f).core? i = w.core? i := rfl

@[simp] theorem core?_addServer (fd : Fd) (i : ℕ) : (w.addServer fd).core? i = w.core? i := rfl

theorem core?_eq {i : ℕ} {sock : SocketObject} (hget : w.sockets[i]? = some sock) :
    w.core? i = some (sock.fd, sock.status) := by
  simp [core?, hget]

theorem status?_eq {i : ℕ} {sock : SocketObject} (hget : w.sockets[i]? = some sock) :
    w.status? i = some sock.status := by
  simp [status?, core?, hget]

variable {w} in
theorem fd?_eq_some {i : ℕ} {n : Fd} :
    w.fd? i = some n ↔ ∃ status, w.core? i = some (n, status) := by
  simp [fd?]

variable {w} in
theorem status?_eq_some {i : ℕ} {status : Status} :
    w.status? i = some status ↔ ∃ fd, w.core? i = some (fd, status) := by
  simp [status?]

variable {w} in
theorem status_eq {i : ℕ} {sock : SocketObject} {status : Status}
    (hget : w.sockets[i]? = some sock) (h : w.status? i = some status) : sock.status = status :=
  Option.some.inj ((w.status?_eq hget).symm.trans h)

variable {w} in
theorem socket_of_status {i : ℕ} {status : Status} (h : w.status? i = some status) :
    ∃ sock, w.sockets[i]? = some sock ∧ sock.status = status := by
  obtain ⟨fd, hcore⟩ := status?_eq_some.mp h
  obtain ⟨sock, hget, heq⟩ := Option.map_eq_some_iff.mp hcore
  exact ⟨sock, hget, (Prod.mk.inj heq).2⟩

theorem core?_modifySocket_self {i : ℕ} {sock : SocketObject} (hget : w.sockets[i]? = some sock)
    (f : SocketObject → SocketObject) :
    (w.modifySocket i f).core? i = some ((f sock).fd, (f sock).status) := by
  simp [core?, modifySocket, hget]

theorem core?_modifySocket_of_ne {i k : ℕ} (hk : k ≠ i) (f : SocketObject → SocketObject) :
    (w.modifySocket i f).core? k = w.core? k := by
  simp [core?, modifySocket, hk.symm]

theorem core?_addSocket_self (fd : Fd) (status : Status) :
    (w.addSocket fd status).core? w.sockets.length = some (fd, status) := by
  simp [core?, addSocket, reactorRegister]

theorem core?_addSocket_of_ne {i : ℕ} (hi : i ≠ w.sockets.length) (fd : Fd) (status : Status) :
    (w.addSocket fd status).core? i = w.core? i := by
  simp only [core?, addSocket, reactorRegister]
  rcases Nat.lt_or_gt_of_ne hi with hlt | hgt
  · rw [List.getElem?_append_left hlt]
  · rw [List.getElem?_eq_none (by simp; omega), List.getElem?_eq_none (by omega)]

theorem serverFd?_addServer_of_some {fd n : Fd} {j : ℕ} (h : w.serverFd? j = some n) :
    (w.addServer fd).serverFd? j = some n := by
  obtain ⟨server, hget, hfd⟩ := Option.map_eq_some_iff.mp h
  have hlt : j < w.servers.length := (List.getElem?_eq_some_iff.mp hget).1
  have happ : (w.addServer fd).servers[j]? = some server := by
    simp [addServer, reactorRegister, List.getElem?_append_left hlt, hget]
  simp [serverFd?, happ, hfd]

theorem serverFd?_modifyServer (j k : ℕ) {f : ServerSocketData → ServerSocketData}
    (hf : ∀ server, (f server).fd = server.fd) :
    (w.modifyServer j f).serverFd? k = w.serverFd? k := by
  simp only [serverFd?, modifyServer, List.getElem?_modify]
  by_cases hk : j = k
  · subst hk
    cases w.servers[j]? <;> simp [hf]
  · simp [hk]

@[simp] theorem closeFd_log (t : Target) (fd : Fd) :
    (w.closeFd t fd).log = w.log ++ [.closed t fd] := rfl

@[simp] theorem record_log (h : Happening) : (w.record h).log = w.log ++ [h] := rfl

@[simp] theorem modifySocket_log (i : ℕ) (f : SocketObject → SocketObject) :
    (w.modifySocket i f).log = w.log := rfl

@[simp] theorem modifyServer_log (j : ℕ) (f : ServerSocketData → ServerSocketData) :
    (w.modifyServer j f).log = w.log := rfl

@[simp] theorem addSocket_log (fd : Fd) (status : Status) :
    (w.addSocket fd status).log = w.log := rfl

@[simp] theorem addServer_log (fd : Fd) : (w.addServer fd).log = w.log := rfl

@[simp] theorem leak_log (fd : Fd) : (w.leak fd).log = w.log := rfl

@[simp] theorem reactorUnreg_log (fd : Fd) : (w.reactorUnreg fd).log = w.log := rfl

omit w in
theorem unregTail_table {w w' : World V E F} {i : ℕ} {frames : List Frame} {eff : Effect}
    {n : Fd} (h : w.unregTail i frames = some (w', eff)) (hn : w.fd? i = some n) :
    w'.table n = none := by
  obtain ⟨⟨fd, status⟩, hcore, rfl⟩ := Option.map_eq_some_iff.mp hn
  obtain ⟨sock, hget, heq⟩ := Option.map_eq_some_iff.mp hcore
  obtain ⟨rfl, rfl⟩ := Prod.mk.inj heq
  simp only [unregTail, hget, Option.some.injEq, Prod.mk.injEq] at h
  rw [← h.1]
  simp [reactorUnreg]

end World

/-- The record only grows. -/
theorem Changes.log_grows {P : Permits} {w w' : World V E F} (h : Changes P w w') :
    w.log <+: w'.log := by
  refine h.induct (I := fun v => w.log <+: v.log) ?_ List.prefix_rfl
  intro v v' hv hchange
  refine hv.trans ?_
  cases hchange with
  | neutral h =>
      obtain ⟨rest, hlog, -⟩ := h.log
      exact ⟨rest, hlog.symm⟩
  | addSocket | addServer | leak | advance | eofFirst | unreg | nullEntry | polled =>
      exact List.prefix_rfl
  | closeCalled | endOfFile | eofAgain | closeServer => exact ⟨_, rfl⟩
  | halfClose i sock get status called drop =>
      by_cases hfd : 0 ≤ sock.fd
      · rw [if_pos hfd]
        exact ⟨_, rfl⟩
      · rw [if_neg hfd]
        exact List.prefix_rfl
  | fullClose i sock get status nonneg called drop =>
      exact ⟨_, (List.append_assoc ..).symm⟩

/-- The event buffer is filled by polling only. -/
theorem Changes.events_eq {P : Permits} {w w' : World V E F} (h : Changes P w w')
    (hpoll : ∀ batch, ¬ P.polls batch) : w'.events = w.events := by
  refine h.induct (I := fun v => v.events = w.events) ?_ rfl
  intro v v' hv hchange
  cases hchange with
  | neutral h => exact h.events.trans hv
  | polled batch allowed => exact absurd allowed (hpoll batch)
  | halfClose i sock get status called drop =>
      split <;> exact hv
  | addSocket | addServer | leak | advance | closeCalled | fullClose | closeServer | endOfFile
  | eofAgain | eofFirst | unreg | nullEntry => exact hv

/-! ### One number -/

/-- What a change does to a number. -/
inductive NumberChange (P : Permits) (w w' : World V E F) (n : Fd) : Prop where
  | same (table : w'.table n = w.table n) (descriptor : w'.descriptors n = w.descriptors n)
  | opened (t) (free : w.free n = true) (opens : P.opens n) (noDrop : P.DropsNothing)
      (table : w'.table n = some (some t)) (descriptor : w'.descriptors n = some (some t))
  | leaked (free : w.free n = true) (table : w'.table n = w.table n)
      (descriptor : w'.descriptors n = some none)
  | closed (t) (drop : P.closes t n)
      (called : ∀ i, t = .socket i → .closeCalled (.socket i) ∈ w.log)
      (table : w'.table n = w.table n)
      (descriptor : w'.descriptors n = none)
  | unregistered (t) (drop : P.unregisters t n) (table : w'.table n = none)
      (descriptor : w'.descriptors n = w.descriptors n)
  | nullEntry (allowed : P.nullEntry) (missing : w.table n = none)
      (table : w'.table n = some none)
      (descriptor : w'.descriptors n = w.descriptors n)

theorem Change.number {P : Permits} {w w' : World V E F} (h : Change P w w') (n : Fd) :
    NumberChange P w w' n := by
  cases h with
  | neutral h => exact .same (by rw [h.table]) (by rw [h.descriptors])
  | addSocket fd status free opens noDrop fresh =>
      by_cases hn : n = fd
      · subst hn
        exact .opened (.socket w.sockets.length) free opens noDrop
          (by simp [World.addSocket, World.reactorRegister])
          (by simp [World.addSocket, World.reactorRegister])
      · exact .same (by simp [World.addSocket, World.reactorRegister, hn])
          (by simp [World.addSocket, World.reactorRegister, hn])
  | addServer fd free opens noDrop =>
      by_cases hn : n = fd
      · subst hn
        exact .opened (.server w.servers.length) free opens noDrop
          (by simp [World.addServer, World.reactorRegister])
          (by simp [World.addServer, World.reactorRegister])
      · exact .same (by simp [World.addServer, World.reactorRegister, hn])
          (by simp [World.addServer, World.reactorRegister, hn])
  | leak fd free =>
      by_cases hn : n = fd
      · subst hn
        exact .leaked free rfl (by simp [World.leak])
      · exact .same rfl (by simp [World.leak, hn])
  | advance | closeCalled | endOfFile | eofAgain | eofFirst | polled => exact .same rfl rfl
  | halfClose i sock get status called drop =>
      by_cases hfd : 0 ≤ sock.fd
      · rw [if_pos hfd]
        by_cases hn : n = sock.fd
        · subst hn
          exact .closed (.socket i) (drop hfd) (by simpa using called) rfl
            (by simp [World.closeFd, World.record, World.modifySocket])
        · exact .same rfl (by simp [World.closeFd, World.record, World.modifySocket, hn])
      · rw [if_neg hfd]
        exact .same rfl rfl
  | fullClose i sock get status nonneg called drop =>
      by_cases hn : n = sock.fd
      · subst hn
        exact .closed (.socket i) drop (by simpa using called) rfl
          (by simp [World.closeFd, World.record, World.modifySocket])
      · exact .same rfl (by simp [World.closeFd, World.record, World.modifySocket, hn])
  | closeServer j server get drop =>
      by_cases hn : n = server.fd
      · subst hn
        exact .closed (.server j) drop (by simp) rfl
          (by simp [World.closeFd, World.record, World.modifyServer])
      · exact .same rfl (by simp [World.closeFd, World.record, World.modifyServer, hn])
  | unreg t fd drop =>
      by_cases hn : n = fd
      · subst hn
        exact .unregistered t drop (by simp [World.reactorUnreg]) rfl
      · exact .same (by simp [World.reactorUnreg, hn]) rfl
  | nullEntry fd allowed missing =>
      by_cases hn : n = fd
      · subst hn
        exact .nullEntry allowed missing (by simp) rfl
      · exact .same (by simp [hn]) rfl

/-! ### One socket -/

/-- What a change does to the number and status of a socket. -/
inductive CoreChange (P : Permits) (w w' : World V E F) (i : ℕ) : Prop where
  | same (core : w'.core? i = w.core? i)
  | added (fd status) (none : w.core? i = none) (core : w'.core? i = some (fd, status))
      (fresh : status = .idle ∨ status = .connected) (free : w.free fd = true)
      (table : w'.table fd = some (some (.socket i)))
      (descriptor : w'.descriptors fd = some (some (.socket i)))
  | advanced (fd status status') (before : w.core? i = some (fd, status))
      (core : w'.core? i = some (fd, status')) (open_ : status = .idle ∨ status = .connecting)
      (open' : status' = .connecting ∨ status' = .connected)
  | halfClosed (fd) (before : w.core? i = some (fd, .connected))
      (core : w'.core? i = some (-1, .halfClosed)) (called : .closeCalled (.socket i) ∈ w.log)
  | fullClosed (fd) (before : w.core? i = some (fd, .halfClosed))
      (core : w'.core? i = some (fd, .closed)) (nonneg : 0 ≤ fd)
      (called : .closeCalled (.socket i) ∈ w.log)
  | eofAgain (fd) (before : w.core? i = some (fd, .halfClosed))
      (core : w'.core? i = some (fd, .closed)) (allowed : P.eofAgain i)
      (seen : .endOfFile i ∈ w.log)
  | eofFirst (fd status) (before : w.core? i = some (fd, status))
      (core : w'.core? i = some (fd, .halfClosed)) (not_half : status ≠ .halfClosed)
      (seen : .endOfFile i ∈ w.log)

theorem Change.core {P : Permits} {w w' : World V E F} (h : Change P w w') (k : ℕ) :
    CoreChange P w w' k := by
  cases h with
  | neutral h => exact .same (h.core k)
  | addSocket fd status free opens noDrop fresh =>
      by_cases hk : k = w.sockets.length
      · subst hk
        exact .added fd status (by simp [World.core?]) (w.core?_addSocket_self fd status) fresh free
          (by simp [World.addSocket, World.reactorRegister])
          (by simp [World.addSocket, World.reactorRegister])
      · exact .same (w.core?_addSocket_of_ne hk fd status)
  | addServer | leak | closeCalled | closeServer | endOfFile | unreg | nullEntry | polled =>
      exact .same rfl
  | advance i f sock get fd_eq before after =>
      by_cases hk : k = i
      · subst hk
        refine .advanced sock.fd sock.status (f sock).status (w.core?_eq get) ?_ before after
        rw [w.core?_modifySocket_self get, fd_eq]
      · exact .same (w.core?_modifySocket_of_ne hk f)
  | halfClose i sock get status called drop =>
      by_cases hk : k = i
      · subst hk
        refine .halfClosed sock.fd (by rw [w.core?_eq get, status]) ?_ called
        split
        · exact (w.closeFd _ _).core?_modifySocket_self get _
        · exact w.core?_modifySocket_self get _
      · refine .same ?_
        rw [World.core?_modifySocket_of_ne _ hk]
        split <;> rfl
  | fullClose i sock get status nonneg called drop =>
      by_cases hk : k = i
      · subst hk
        exact .fullClosed sock.fd (by rw [w.core?_eq get, status])
          ((w.closeFd _ _).core?_modifySocket_self get _) nonneg called
      · exact .same ((w.closeFd _ _).core?_modifySocket_of_ne hk _)
  | eofAgain i sock get status allowed seen =>
      by_cases hk : k = i
      · subst hk
        exact .eofAgain sock.fd (by rw [w.core?_eq get, status])
          (w.core?_modifySocket_self get _) allowed seen
      · exact .same (w.core?_modifySocket_of_ne hk _)
  | eofFirst i sock get status seen =>
      by_cases hk : k = i
      · subst hk
        exact .eofFirst sock.fd sock.status (w.core?_eq get)
          (w.core?_modifySocket_self get _) status seen
      · exact .same (w.core?_modifySocket_of_ne hk _)

/-- When a number is closed its owner loses it or is closed with it. -/
theorem Change.closed_mem {P : Permits} {w w' : World V E F} (h : Change P w w') {t : Target}
    {n : Fd} (hmem : .closed t n ∈ w'.log) :
    .closed t n ∈ w.log ∨
      (∃ i, t = .socket i ∧
        (w'.core? i = some (-1, .halfClosed) ∨ w'.core? i = some (n, .closed))) ∨
      ∃ j, t = .server j ∧ w.serverFd? j = some n := by
  cases h with
  | neutral h => exact .inl (h.mem_of_mem hmem id)
  | addSocket | addServer | leak | advance | eofFirst | unreg | nullEntry | polled =>
      exact .inl hmem
  | closeCalled | endOfFile | eofAgain =>
      left
      simpa using hmem
  | halfClose i sock get status called drop =>
      by_cases hfd : 0 ≤ sock.fd
      · rw [if_pos hfd] at hmem ⊢
        simp only [World.modifySocket_log, World.closeFd_log, List.mem_append,
          List.mem_singleton, Happening.closed.injEq] at hmem
        rcases hmem with hmem | ⟨rfl, rfl⟩
        · exact .inl hmem
        · exact .inr (.inl ⟨i, rfl, .inl ((w.closeFd _ _).core?_modifySocket_self get _)⟩)
      · rw [if_neg hfd] at hmem
        exact .inl hmem
  | fullClose i sock get status nonneg called drop =>
      simp only [World.record_log, World.modifySocket_log, World.closeFd_log, List.mem_append,
        List.mem_singleton, Happening.closed.injEq, reduceCtorEq, or_false] at hmem
      rcases hmem with hmem | ⟨rfl, rfl⟩
      · exact .inl hmem
      · exact .inr (.inl ⟨i, rfl, .inr ((w.closeFd _ _).core?_modifySocket_self get _)⟩)
  | closeServer j server get drop =>
      simp only [World.modifyServer_log, World.closeFd_log, List.mem_append, List.mem_singleton,
        Happening.closed.injEq] at hmem
      rcases hmem with hmem | ⟨rfl, rfl⟩
      · exact .inl hmem
      · exact .inr (.inr ⟨j, rfl, by simp [World.serverFd?, get]⟩)

/-- A server socket keeps its number. -/
theorem Change.serverFd? {P : Permits} {w w' : World V E F} (h : Change P w w') {j : ℕ} {n : Fd}
    (hj : w.serverFd? j = some n) : w'.serverFd? j = some n := by
  cases h with
  | neutral h => rw [h.servers, hj]
  | addServer fd free opens noDrop => exact w.serverFd?_addServer_of_some hj
  | closeServer k server get drop =>
      rw [World.serverFd?_modifyServer _ k j (by simp)]
      exact hj
  | halfClose i sock get status called drop =>
      split <;> exact hj
  | addSocket | leak | advance | closeCalled | fullClose | endOfFile | eofAgain | eofFirst | unreg
  | nullEntry | polled => exact hj

/-! ### Invariants -/

/-- What holds of every world that is reached. A closed socket keeps its number or has none, and
the entry of a number in the table is missing, null or its owner. -/
structure World.Sound (w : World V E F) : Prop where
  nonneg : ∀ n, w.descriptors n ≠ none → 0 ≤ n
  registered : ∀ n t, w.descriptors n = some (some t) →
    w.table n = none ∨ w.table n = some none ∨ w.table n = some (some t)
  closedSocket : ∀ i n, .closed (.socket i) n ∈ w.log → ∃ fd status,
    w.core? i = some (fd, status) ∧ (status = .halfClosed ∨ status = .closed) ∧
      (fd = -1 ∨ fd = n)
  closedServer : ∀ j n, .closed (.server j) n ∈ w.log → w.serverFd? j = some n

theorem World.nonneg_of_free {w : World V E F} {n : Fd} (h : w.free n = true) : 0 ≤ n := by
  simp only [free, Bool.and_eq_true, decide_eq_true_eq] at h
  exact h.1

/-- A closed socket stays closed, with its number or none. -/
theorem Change.core_closed {P : Permits} {w w' : World V E F} (h : Change P w w') {i : ℕ}
    {n fd : Fd} {status : Status} (hcore : w.core? i = some (fd, status))
    (hstatus : status = .halfClosed ∨ status = .closed) (hfd : fd = -1 ∨ fd = n) :
    ∃ fd' status', w'.core? i = some (fd', status') ∧
      (status' = .halfClosed ∨ status' = .closed) ∧ (fd' = -1 ∨ fd' = n) := by
  cases h.core i with
  | same core => exact ⟨fd, status, core.trans hcore, hstatus, hfd⟩
  | added fd₁ status₁ none => simp [none] at hcore
  | advanced fd₁ status₁ status' before core open_ open' =>
      obtain ⟨rfl, rfl⟩ := Prod.mk.inj (Option.some.inj (hcore.symm.trans before))
      rcases hstatus with rfl | rfl <;> simp at open_
  | halfClosed fd₁ before core called =>
      exact ⟨-1, .halfClosed, core, .inl rfl, .inl rfl⟩
  | fullClosed fd₁ before core nonneg called =>
      obtain ⟨rfl, rfl⟩ := Prod.mk.inj (Option.some.inj (hcore.symm.trans before))
      exact ⟨fd, .closed, core, .inr rfl, hfd⟩
  | eofAgain fd₁ before core allowed seen =>
      obtain ⟨rfl, rfl⟩ := Prod.mk.inj (Option.some.inj (hcore.symm.trans before))
      exact ⟨fd, .closed, core, .inr rfl, hfd⟩
  | eofFirst fd₁ status₁ before core not_half seen =>
      obtain ⟨rfl, rfl⟩ := Prod.mk.inj (Option.some.inj (hcore.symm.trans before))
      exact ⟨fd, .halfClosed, core, .inl rfl, hfd⟩

theorem World.Sound.change {P : Permits} {w w' : World V E F} (h : w.Sound) (hc : Change P w w') :
    w'.Sound where
  nonneg n hn := by
    cases hc.number n with
    | same table descriptor | unregistered t drop table descriptor
    | nullEntry allowed missing table descriptor =>
        rw [descriptor] at hn
        exact h.nonneg n hn
    | opened t free => exact nonneg_of_free free
    | leaked free => exact nonneg_of_free free
    | closed t drop called table descriptor => exact absurd descriptor hn
  registered n t hn := by
    cases hc.number n with
    | same table descriptor =>
        rw [descriptor] at hn
        rw [table]
        exact h.registered n t hn
    | opened t' free opens noDrop table descriptor =>
        rw [hn] at descriptor
        rw [table, ← descriptor]
        simp
    | leaked free table descriptor => simp [descriptor] at hn
    | closed t drop called table descriptor => simp [descriptor] at hn
    | unregistered t' drop table descriptor => exact .inl table
    | nullEntry allowed missing table descriptor => exact .inr (.inl table)
  closedSocket i n hmem := by
    rcases hc.closed_mem hmem with hmem | ⟨k, hk, hcore⟩ | ⟨j, hj, -⟩
    · obtain ⟨fd, status, hcore, hstatus, hfd⟩ := h.closedSocket i n hmem
      exact hc.core_closed hcore hstatus hfd
    · obtain rfl : i = k := by simpa using hk
      rcases hcore with hcore | hcore
      · exact ⟨-1, .halfClosed, hcore, .inl rfl, .inl rfl⟩
      · exact ⟨n, .closed, hcore, .inr rfl, .inr rfl⟩
    · cases hj
  closedServer j n hmem := by
    rcases hc.closed_mem hmem with hmem | ⟨k, hk, -⟩ | ⟨k, hk, hfd⟩
    · exact hc.serverFd? (h.closedServer j n hmem)
    · cases hk
    · obtain rfl : j = k := by simpa using hk
      exact hc.serverFd? hfd

theorem World.Sound.initial : World.Sound (V := V) (E := E) (F := F) {} :=
  ⟨by simp, by simp, by simp, by simp⟩

end Libasync.Reactor
