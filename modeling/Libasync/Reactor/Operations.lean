import Libasync.Reactor.Change
import Libasync.Socket.Writing

/-! # What the operations and the pieces consist of

One lemma for each operation of user code and for each piece of a library function: it is a
sequence of elementary changes. -/

namespace Libasync.Reactor

open Promise Socket

variable {V E F : Type*} {P : Permits}

namespace World

variable {w w' : World V E F} {eff : Effect}

/-! ### The operations of user code -/

/-- The promises are not looked at by the changes. -/
theorem promises_changes (promises : State V E F) :
    Changes P w { w with promises } :=
  .single (.neutral (.of_eq rfl rfl rfl rfl rfl rfl))

theorem newSocket_changes {fd : Fd} {failure : Option SetupFailure}
    (h : w.newSocket fd failure = some (w', eff)) (hopen : failure = none → P.opens fd)
    (hD : P.DropsNothing) : Changes P w w' := by
  cases failure with
  | none =>
      simp only [newSocket, Option.ite_none_right_eq_some, Bool.and_eq_true, Option.some.injEq,
        Prod.mk.injEq] at h
      obtain ⟨⟨hfree, -⟩, rfl, -⟩ := h
      exact .single (.addSocket w fd _ hfree (hopen rfl) hD (.inl rfl))
  | some failure =>
      simp only [newSocket, Option.ite_none_right_eq_some, Option.some.injEq,
        Prod.mk.injEq] at h
      obtain ⟨hfree, rfl, -⟩ := h
      exact .single (.leak w fd hfree)

theorem newServer_changes {fd : Fd} {failure : Option SetupFailure}
    (h : w.newServer fd failure = some (w', eff)) (hopen : failure = none → P.opens fd)
    (hD : P.DropsNothing) : Changes P w w' := by
  cases failure with
  | none =>
      simp only [newServer, Option.ite_none_right_eq_some, Bool.and_eq_true, Option.some.injEq,
        Prod.mk.injEq] at h
      obtain ⟨⟨hfree, -⟩, rfl, -⟩ := h
      exact .single (.addServer w fd hfree (hopen rfl) hD)
  | some failure =>
      simp only [newServer, Option.ite_none_right_eq_some, Option.some.injEq,
        Prod.mk.injEq] at h
      obtain ⟨hfree, rfl, -⟩ := h
      exact .single (.leak w fd hfree)

theorem connect_changes [Blank V] {i : ℕ} {answer : Answer}
    (h : w.connect i answer = some (w', eff)) : Changes P w w' := by
  cases hget : w.sockets[i]? with
  | none => simp [connect, hget] at h
  | some sock =>
      simp only [connect, hget] at h
      by_cases hidle : sock.status = .idle
      · simp only [hidle, ne_eq, not_true_eq_false, if_false, Option.ite_none_right_eq_some] at h
        obtain ⟨-, h⟩ := h
        cases answer with
        | ret count =>
            simp only [Option.some.injEq, Prod.mk.injEq] at h
            obtain ⟨rfl, -⟩ := h
            have hadvance := Change.advance (P := P) w i
              (fun sock => { sock with status := .connected }) sock hget rfl (.inl hidle) (.inr rfl)
            exact .head hadvance (.single (.neutral (.record _ (by simp [Happening.Neutral]))))
        | err errno =>
            cases errno with
            | inProgress =>
                simp only [Option.some.injEq, Prod.mk.injEq] at h
                obtain ⟨rfl, -⟩ := h
                exact (promises_changes _).tail
                  (.advance _ i _ sock hget rfl (.inl hidle) (.inl rfl))
            | again | wouldBlock | other code =>
                simp only [Option.some.injEq, Prod.mk.injEq] at h
                obtain ⟨rfl, -⟩ := h
                exact .refl
      · simp only [hidle, ne_eq, not_false_eq_true, if_true, Option.some.injEq, Prod.mk.injEq] at h
        obtain ⟨rfl, -⟩ := h
        exact promises_changes _

/-- The promises and the data of a socket change, but not its number and status, and calls on a
descriptor are made. -/
theorem data_changes (promises : State V E F) (call : IoCall) (n : ℕ) {i : ℕ}
    {sock : SocketObject} {data : SocketData} (hget : w.sockets[i]? = some sock)
    (hfd : data.fd = sock.fd) (hstatus : data.status = sock.status) :
    Changes P w
      (({ w with promises := promises }.modifySocket i fun sock =>
        { sock with toSocketData := data }).recordIo (.socket i) call sock.fd n) := by
  refine .tail (.tail (promises_changes promises) (.neutral ?_)) (.neutral (.recordIo ..))
  refine .modifySocket _ i ?_
  intro sock' hget'
  obtain rfl : sock = sock' := Option.some.inj (hget.symm.trans hget')
  exact ⟨hfd, hstatus⟩

theorem write_changes [Blank V] {i : ℕ} {data : List Byte} {answers : List Answer}
    (h : w.write i data answers = some (w', eff)) : Changes P w w' := by
  cases hget : w.sockets[i]? with
  | none => simp [write, hget] at h
  | some sock =>
      simp only [write, hget, Option.ite_none_right_eq_some] at h
      obtain ⟨-, h⟩ := h
      cases hr : sock.toSocketData.write w.promises data answers with
      | none => simp [hr] at h
      | some r =>
          have hkeeps : r.sock.fd = sock.fd ∧ r.sock.status = sock.status := by
            cases SocketData.wrote hr <;> exact ⟨rfl, rfl⟩
          have hchanges := data_changes (P := P) r.promises .write answers.length hget
            hkeeps.1 hkeeps.2
          rw [hr] at h
          cases hresult : r.result with
          | ok p =>
              simp only [hresult, Option.some.injEq, Prod.mk.injEq] at h
              rw [← h.1]
              exact hchanges
          | error error =>
              simp only [hresult, Option.some.injEq, Prod.mk.injEq] at h
              rw [← h.1]
              exact hchanges

/-- After the call is recorded. -/
theorem closeSocket_changes_of_called {i : ℕ} {answer : Answer}
    (h : w.closeSocket i answer = some (w', eff))
    (hD : ∀ fd, w.closeDrops? i answer = some fd → P.closes (.socket i) fd) :
    Changes P (w.record (.closeCalled (.socket i))) w' := by
  cases hget : w.sockets[i]? with
  | none => simp [closeSocket, hget] at h
  | some sock =>
      let called := w.record (.closeCalled (.socket i))
      have hcalled : .closeCalled (.socket i) ∈ called.log := by simp [called, record]
      simp only [closeSocket, hget] at h
      split at h
      · simp only [Option.some.injEq, Prod.mk.injEq] at h
        rw [← h.1]
      · rename_i hopen
        split at h
        · rename_i hfd
          cases answer with
          | err errno =>
              simp only [Option.some.injEq, Prod.mk.injEq] at h
              rw [← h.1]
          | ret count =>
              simp only [Option.ite_none_right_eq_some, Option.some.injEq] at h
              obtain ⟨-, h⟩ := h
              by_cases hc : sock.status = .connected
              · have hdrop : P.closes (.socket i) sock.fd :=
                  hD sock.fd (by simp [closeDrops?, hget, hc, hfd])
                have hchange := Change.halfClose (P := P) called i sock hget hc hcalled
                  fun _ => hdrop
                simp only [closeRest, hc, if_true, Prod.mk.injEq] at h
                simp only [hfd, if_true] at hchange
                rw [← h.1]
                exact .single hchange
              · have hhalf : sock.status = .halfClosed := by
                  by_contra hne
                  exact hopen ⟨hc, hne⟩
                have hdrop : P.closes (.socket i) sock.fd :=
                  hD sock.fd (by simp [closeDrops?, hget, hhalf, hfd])
                simp only [closeRest, hhalf, hfd, reduceCtorEq, if_true, if_false, and_self,
                  Prod.mk.injEq] at h
                rw [← h.1]
                exact .single (.fullClose called i sock hget hhalf hfd hcalled hdrop)
        · rename_i hfd
          by_cases hc : sock.status = .connected
          · have hchange := Change.halfClose (P := P) called i sock hget hc
              hcalled fun h => absurd h hfd
            simp only [Option.some.injEq, closeRest, hc, if_true, Prod.mk.injEq] at h
            simp only [hfd, if_false] at hchange
            rw [← h.1]
            exact .single hchange
          · simp only [Option.some.injEq, closeRest, hc, hfd, if_false, and_false,
              Prod.mk.injEq] at h
            rw [← h.1]

theorem closeSocket_changes {i : ℕ} {answer : Answer}
    (h : w.closeSocket i answer = some (w', eff))
    (hD : ∀ fd, w.closeDrops? i answer = some fd → P.closes (.socket i) fd) : Changes P w w' :=
  .head (.closeCalled w (.socket i)) (closeSocket_changes_of_called h hD)

theorem listen_changes {j : ℕ} {bind listen : Answer}
    (h : w.listen j bind listen = some (w', eff)) : Changes P w w' := by
  cases hget : w.servers[j]? with
  | none => simp [World.listen, hget] at h
  | some server =>
      have hmodify : Neutral w
          (w.modifyServer j fun server => { server with status := .listening }) := by
        refine ⟨fun _ => rfl, ?_, rfl, rfl, rfl, [], by simp [modifyServer], by simp⟩
        intro k
        simp only [serverFd?, modifyServer, List.getElem?_modify]
        by_cases hk : j = k
        · simp [hk, Function.comp_def]
        · simp [hk]
      simp only [World.listen, hget] at h
      split at h
      · simp only [Option.some.injEq, Prod.mk.injEq] at h
        rw [← h.1]
      · cases bind with
        | err errno =>
            simp only [Option.some.injEq, Prod.mk.injEq] at h
            rw [← h.1]
        | ret count =>
            cases listen with
            | err errno =>
                simp only [Option.some.injEq, Prod.mk.injEq] at h
                rw [← h.1]
            | ret count =>
                simp only [Option.ite_none_right_eq_some, Option.some.injEq, Prod.mk.injEq] at h
                obtain ⟨-, h, -⟩ := h
                rw [← h]
                exact .single (.neutral hmodify)

theorem closeServer_changes {j : ℕ} {answer : Answer}
    (h : w.closeServer j answer = some (w', eff))
    (hcloses : ∀ fd, w.serverFd? j = some fd → (∀ errno, answer ≠ .err errno) →
      P.closes (.server j) fd)
    (hunreg : ∀ fd, w.serverFd? j = some fd → P.unregisters (.server j) fd) :
    Changes P w w' := by
  cases hget : w.servers[j]? with
  | none => simp [closeServer, hget] at h
  | some server =>
      have hfd : w.serverFd? j = some server.fd := by simp [serverFd?, hget]
      refine .head (.closeCalled w (.server j))
        (.head (.unreg _ (.server j) server.fd (hunreg _ hfd)) ?_)
      simp only [closeServer, hget] at h
      cases answer with
      | err errno =>
          simp only [Option.some.injEq, Prod.mk.injEq] at h
          rw [← h.1]
      | ret count =>
          simp only [Option.ite_none_right_eq_some, Option.some.injEq, Prod.mk.injEq] at h
          obtain ⟨-, h, -⟩ := h
          rw [← h]
          exact .head (.closeServer _ j server hget (hcloses _ hfd (by simp)))
            (.single (.neutral (.record _ trivial)))

theorem poll_changes {backend : Backend} {batch : List (Event × Target)}
    (h : w.poll backend batch = some (w', eff)) (hpoll : P.polls batch) : Changes P w w' := by
  simp only [poll, Option.ite_none_right_eq_some, Option.some.injEq, Prod.mk.injEq] at h
  obtain ⟨-, h, -⟩ := h
  rw [← h]
  exact .single (.polled w batch hpoll)

/-! ### The pieces of library functions -/

theorem dispatch_changes {backend : Backend} {k n : ℕ}
    (h : w.dispatch backend k n = some (w', eff))
    (hN : backend = .epoll → eff = .crash → P.nullEntry) : Changes P w w' := by
  simp only [dispatch] at h
  split at h
  · simp only [Option.some.injEq, Prod.mk.injEq] at h
    rw [← h.1]
  · cases hevent : w.events[k]? with
    | none => simp [hevent] at h
    | some pending =>
        obtain ⟨event, reported⟩ := pending
        simp only [hevent] at h
        have hdelivered (w : World V E F) (target : Option Target) :
            Change P w (w.record (.delivered event reported target)) :=
          .neutral (.record w trivial)
        cases htable : w.table event.fd with
        | none =>
            cases backend with
            | epoll =>
                simp only [htable, Option.some.injEq, Prod.mk.injEq] at h
                obtain ⟨rfl, rfl⟩ := h
                exact .head (.nullEntry w event.fd (hN rfl rfl) htable)
                  (.single (hdelivered _ none))
            | kqueue =>
                simp only [htable, Option.some.injEq, Prod.mk.injEq] at h
                rw [← h.1]
        | some entry =>
            cases entry with
            | none =>
                simp only [htable, Option.some.injEq, Prod.mk.injEq] at h
                rw [← h.1]
                exact .single (hdelivered w none)
            | some t =>
                simp only [htable, Option.some.injEq, Prod.mk.injEq] at h
                rw [← h.1]
                exact .single (hdelivered w (some t))

theorem readEvent_changes {i : ℕ} {slot : Option ℕ} {since : ℕ} {answers : List ReadAnswer}
    (h : w.readEvent i slot since answers = some (w', eff))
    (heof : ∀ data, readLoop answers = some (.ok (data, true)) → P.readsEof i) :
    Changes P w w' := by
  cases hget : w.sockets[i]? with
  | none => simp [readEvent, hget] at h
  | some sock =>
      simp only [readEvent, hget, Option.ite_none_right_eq_some] at h
      obtain ⟨-, h⟩ := h
      have hio : Changes P w (w.recordIo (.socket i) .read sock.fd answers.length) :=
        .single (.neutral (.recordIo ..))
      cases hloop : readLoop answers with
      | none => simp [hloop] at h
      | some result =>
          cases result with
          | error errno =>
              simp only [hloop, Option.some.injEq, Prod.mk.injEq] at h
              rw [← h.1]
              exact hio
          | ok result =>
              obtain ⟨data, closed⟩ := result
              let seen := if closed then
                  (w.recordIo (.socket i) .read sock.fd answers.length).record (.endOfFile i)
                else w.recordIo (.socket i) .read sock.fd answers.length
              have hseen : Changes P w seen := by
                cases closed with
                | true => exact hio.tail (.endOfFile _ i (heof data hloop))
                | false => exact hio
              simp only [hloop] at h
              by_cases hdata : data = []
              · simp only [hdata, if_true, Option.some.injEq, Prod.mk.injEq] at h
                rw [← h.1]
                exact hseen
              · simp only [hdata, if_false, Option.some.injEq, Prod.mk.injEq] at h
                rw [← h.1]
                have hbytes := Neutral.modifySocket seen i
                  (f := fun sock => { sock with bytesRead := sock.bytesRead + data.length })
                  fun _ _ => ⟨rfl, rfl⟩
                exact (hseen.tail (.neutral hbytes)).tail
                  (.neutral (.record _ (by simp [Happening.Neutral])))

theorem endOfFile_changes {i : ℕ} {closed : Bool} {slot : Option ℕ} {since : ℕ}
    (h : w.endOfFile i closed slot since = some (w', eff))
    (hseen : closed = true → .endOfFile i ∈ w.log)
    (hA : closed = true → w.status? i = some .halfClosed → P.eofAgain i) : Changes P w w' := by
  cases hget : w.sockets[i]? with
  | none => simp [World.endOfFile, hget] at h
  | some sock =>
      simp only [World.endOfFile, hget] at h
      cases closed with
      | false =>
          simp only [Bool.false_eq_true, if_false, Option.some.injEq, Prod.mk.injEq] at h
          rw [← h.1]
      | true =>
          by_cases hhalf : sock.status = .halfClosed
          · simp only [if_true, hhalf, Option.some.injEq, Prod.mk.injEq] at h
            rw [← h.1]
            have hallowed : P.eofAgain i := hA rfl (by simp [status?, core?, hget, hhalf])
            exact .single (.eofAgain w i sock hget hhalf hallowed (hseen rfl))
          · simp only [if_true, hhalf, if_false, Option.some.injEq, Prod.mk.injEq] at h
            rw [← h.1]
            exact .head (.eofFirst w i sock hget hhalf (hseen rfl))
              (.single (.neutral (.record _ (by simp [Happening.Neutral]))))

theorem unregTail_changes {i : ℕ} {frames : List Frame}
    (h : w.unregTail i frames = some (w', eff))
    (hD : ∀ fd, w.fd? i = some fd → P.unregisters (.socket i) fd) : Changes P w w' := by
  cases hget : w.sockets[i]? with
  | none => simp [unregTail, hget] at h
  | some sock =>
      simp only [unregTail, hget, Option.some.injEq, Prod.mk.injEq] at h
      rw [← h.1]
      exact .single (.unreg w (.socket i) sock.fd (hD sock.fd (by simp [fd?, core?, hget])))

theorem connectEvent_changes {i : ℕ} {since : ℕ} {answer : Answer}
    (h : w.connectEvent i since answer = some (w', eff)) : Changes P w w' := by
  cases hget : w.sockets[i]? with
  | none => simp [connectEvent, hget] at h
  | some sock =>
      simp only [connectEvent, hget, Option.ite_none_right_eq_some] at h
      obtain ⟨⟨hconnecting, -⟩, h⟩ := h
      split at h
      · simp only [Option.some.injEq, Prod.mk.injEq] at h
        rw [← h.1]
        have hadvance := Change.advance (P := P) w i
          (fun sock => { sock with status := .connected }) sock hget rfl (.inr hconnecting)
          (.inr rfl)
        exact .head hadvance (.single (.neutral (.record _ (by simp [Happening.Neutral]))))
      · simp only [Option.some.injEq, Prod.mk.injEq] at h
        rw [← h.1]
        exact .single (.neutral (.record _ (by simp [Happening.Neutral])))

theorem flushEvent_changes [Blank V] {i : ℕ} {answers : List Answer}
    (h : w.flushEvent i answers = some (w', eff)) : Changes P w w' := by
  cases hget : w.sockets[i]? with
  | none => simp [flushEvent, hget] at h
  | some sock =>
      simp only [flushEvent, hget, Option.ite_none_right_eq_some] at h
      obtain ⟨-, h⟩ := h
      cases hr : sock.toSocketData.onWritable w.promises answers with
      | none => simp [hr] at h
      | some r =>
          have hkeeps : r.sock.fd = sock.fd ∧ r.sock.status = sock.status := by
            cases SocketData.flushed hr <;> exact ⟨rfl, rfl⟩
          have hchanges := data_changes (P := P) r.promises .write answers.length hget
            hkeeps.1 hkeeps.2
          rw [hr] at h
          cases hresult : r.result with
          | ok =>
              simp only [hresult, Option.some.injEq, Prod.mk.injEq] at h
              rw [← h.1]
              exact hchanges
          | error error =>
              simp only [hresult, Option.some.injEq, Prod.mk.injEq] at h
              rw [← h.1]
              exact hchanges

/-- After the call of `accept` on the number of the server. -/
theorem acceptEvent_changes_of_get {backend : Backend} {j : ℕ} {since : ℕ}
    {answer : AcceptAnswer} {server : ServerSocketData} (hget : w.servers[j]? = some server)
    (h : w.acceptEvent backend j since answer = some (w', eff))
    (hopen : ∀ fd, answer.opens? = some fd → P.opens fd) (hD : P.DropsNothing) :
    Changes P (w.recordIo (.server j) .accept server.fd 1) w' := by
  simp only [acceptEvent, hget] at h
  cases answer with
  | err errno =>
      by_cases hblocked : errno.blocked = true
      · simp only [hblocked, if_true, Option.ite_none_right_eq_some, Option.some.injEq,
          Prod.mk.injEq] at h
        rw [← h.2.1]
      · simp only [hblocked, if_false, Bool.false_eq_true, Option.some.injEq, Prod.mk.injEq] at h
        rw [← h.1]
  | conn fd =>
      simp only [Option.ite_none_right_eq_some, Bool.and_eq_true, Option.some.injEq,
        Prod.mk.injEq] at h
      obtain ⟨⟨⟨-, hfree⟩, -⟩, h, -⟩ := h
      rw [← h]
      exact .head (.addSocket _ fd _ hfree (hopen fd rfl) hD (.inr rfl))
        (.single (.neutral (.record _ trivial)))
  | setupFails fd failure =>
      simp only [Option.ite_none_right_eq_some, Bool.and_eq_true, Option.some.injEq,
        Prod.mk.injEq] at h
      obtain ⟨⟨-, hfree⟩, h, -⟩ := h
      rw [← h]
      exact .single (.leak _ fd hfree)
  | addressFails fd errno =>
      simp only [Option.ite_none_right_eq_some, Bool.and_eq_true, Option.some.injEq,
        Prod.mk.injEq] at h
      obtain ⟨⟨⟨⟨-, hfree⟩, -⟩, -⟩, h, -⟩ := h
      rw [← h]
      exact .single (.addSocket _ fd _ hfree (hopen fd rfl) hD (.inr rfl))

theorem acceptEvent_changes {backend : Backend} {j : ℕ} {since : ℕ} {answer : AcceptAnswer}
    (h : w.acceptEvent backend j since answer = some (w', eff))
    (hopen : ∀ fd, answer.opens? = some fd → P.opens fd) (hD : P.DropsNothing) :
    Changes P w w' := by
  cases hget : w.servers[j]? with
  | none => simp [acceptEvent, hget] at h
  | some server =>
      exact .head (.neutral (.recordIo w (.server j) .accept server.fd 1))
        (acceptEvent_changes_of_get hget h hopen hD)

end World

end Libasync.Reactor
