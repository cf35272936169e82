import Libasync.Reactor.Descriptors
import Libasync.Reactor.Steps

/-! # What a step does to one socket

The data of a socket and its events change together. Each case below is one branch of the code,
with the frames it leaves, and the steps of all other branches leave the socket as it is. -/

namespace Libasync.Reactor

open Promise Socket

variable {V E F : Type*}

/-- The events of a socket, in the order in which they have fired. -/
def fired (i : ℕ) (log : List Happening) : List EventName :=
  log.filterMap fun
    | .triggered (.socket k) name => if k = i then some name else none
    | _ => none

/-- The step calls `Socket::close`. -/
def closeCall? : Frame → Label → Option (ℕ × Answer)
  | .user _, .close i answer => some (i, answer)
  | .errorTail i _, .closing answer => some (i, answer)
  | _, _ => none

/-- The branches that change socket `i`, which is `sock` before, or fire one of its events. -/
inductive Turn [Blank V] (w : World V E F) (i : ℕ) (sock : SocketObject) :
    Frame → Label → World V E F → Effect → SocketObject → List EventName → Prop where
  | quiet (frame l w' eff) : Turn w i sock frame l w' eff sock []
  | connected (handlers count w') (idle : sock.status = .idle)
      (promises : w'.promises = w.promises) :
      Turn w i sock (.user handlers) (.connect i (.ret count)) w'
        (.push [.user sock.connectHandlers, .connectTail]) { sock with status := .connected }
        [.connect]
  | connecting (handlers w') (idle : sock.status = .idle)
      (promises : w'.promises = w.promises.create.1) :
      Turn w i sock (.user handlers) (.connect i (.err .inProgress)) w' (.push [])
        { sock with
          status := .connecting
          connectHandlers := sock.connectHandlers ++ [w.promises.heap.length] } []
  | wrote (handlers data answers w' eff r)
      (written : sock.toSocketData.write w.promises data answers = some r)
      (promises : w'.promises = r.promises) :
      Turn w i sock (.user handlers) (.write i data answers) w' eff
        { sock with toSocketData := r.sock } []
  | halfClosed (frame l answer w') (call : closeCall? frame l = some (i, answer))
      (connected : sock.status = .connected) (promises : w'.promises = w.promises) :
      Turn w i sock frame l w' (.push []) { sock with fd := -1, status := .halfClosed } []
  | fullClosed (frame l count w') (call : closeCall? frame l = some (i, .ret count))
      (half : sock.status = .halfClosed) (fd_nonneg : 0 ≤ sock.fd)
      (promises : w'.promises = w.promises) :
      Turn w i sock frame l w' (.push [.user [], .closeTail i]) { sock with status := .closed }
        [.close]
  | read (slot since answers bytes closed w')
      (answered : readLoop answers = some (.ok (bytes, closed))) (some_data : bytes ≠ []) :
      Turn w i sock (.reading i slot since) (.read answers) w'
        (.push [.user [], .readTail i closed slot since])
        { sock with bytesRead := sock.bytesRead + bytes.length } [.data]
  | eofFirst (slot since w') (open_ : sock.status ≠ .halfClosed) :
      Turn w i sock (.readTail i true slot since) .tau w'
        (.push [.user [], .readTail i false slot since]) { sock with status := .halfClosed }
        [.end_]
  | eofAgain (slot since w') (half : sock.status = .halfClosed)
      (promises : w'.promises = w.promises) :
      Turn w i sock (.readTail i true slot since) .tau w'
        (.push [.user [], .closedTail i slot since]) { sock with status := .closed } [.close]
  | established (since w') (pending : sock.status = .connecting)
      (promises : w'.promises = w.promises) :
      Turn w i sock (.writePart i true since) (.soError (.ret 0)) w'
        (.push [.user sock.connectHandlers]) { sock with status := .connected } [.connect]
  | refused (since answer w') (pending : sock.status = .connecting) (error : answer ≠ .ret 0)
      (promises : w'.promises = w.promises) :
      Turn w i sock (.writePart i true since) (.soError answer) w'
        (.push [.user [], .errorTail i since]) sock [.error]
  | flushed (since answers w' eff r) (settled : sock.status ≠ .connecting)
      (written : sock.toSocketData.onWritable w.promises answers = some r)
      (promises : w'.promises = r.promises) :
      Turn w i sock (.writePart i true since) (.flush answers) w' eff
        { sock with toSocketData := r.sock } []

/-! ### Computation rules -/

@[simp] theorem fired_append (i : ℕ) (log rest : List Happening) :
    fired i (log ++ rest) = fired i log ++ fired i rest :=
  List.filterMap_append

@[simp] theorem fired_nil (i : ℕ) : fired i [] = [] := rfl

variable (i : ℕ) (log : List Happening)

@[simp] theorem fired_triggered (k : ℕ) (name : EventName) :
    fired i (.triggered (.socket k) name :: log) =
      if k = i then name :: fired i log else fired i log := by
  by_cases h : k = i <;> simp [fired, h]

@[simp] theorem fired_triggered_server (j : ℕ) (name : EventName) :
    fired i (.triggered (.server j) name :: log) = fired i log := rfl

@[simp] theorem fired_io (t : Target) (call : IoCall) (fd : Fd) :
    fired i (.io t call fd :: log) = fired i log := rfl

@[simp] theorem fired_closeCalled (t : Target) :
    fired i (.closeCalled t :: log) = fired i log := rfl

@[simp] theorem fired_closed (t : Target) (fd : Fd) :
    fired i (.closed t fd :: log) = fired i log := rfl

@[simp] theorem fired_endOfFile (k : ℕ) : fired i (.endOfFile k :: log) = fired i log := rfl

@[simp] theorem fired_delivered (event : Event) (reported : Target) (target : Option Target) :
    fired i (.delivered event reported target :: log) = fired i log := rfl

@[simp] theorem fired_replicate_io (n : ℕ) (t : Target) (call : IoCall) (fd : Fd) :
    fired i (List.replicate n (.io t call fd)) = [] := by
  induction n with
  | zero => rfl
  | succ n ih => exact ih

namespace World

variable {w w' : World V E F}

theorem getElem?_modifySocket (w : World V E F) (k i : ℕ) (f : SocketObject → SocketObject) :
    (w.modifySocket k f).sockets[i]? =
      if k = i then (w.sockets[i]?).map f else w.sockets[i]? := by
  simp only [modifySocket, List.getElem?_modify]
  by_cases h : k = i <;> simp [h]

@[simp] theorem record_sockets (w : World V E F) (h : Happening) :
    (w.record h).sockets = w.sockets := rfl

@[simp] theorem recordIo_sockets (w : World V E F) (t : Target) (call : IoCall) (fd : Fd) (n : ℕ) :
    (w.recordIo t call fd n).sockets = w.sockets := rfl

@[simp] theorem recordIo_log (w : World V E F) (t : Target) (call : IoCall) (fd : Fd) (n : ℕ) :
    (w.recordIo t call fd n).log = w.log ++ List.replicate n (.io t call fd) := rfl

@[simp] theorem leak_sockets (w : World V E F) (fd : Fd) : (w.leak fd).sockets = w.sockets := rfl

@[simp] theorem closeFd_sockets (w : World V E F) (t : Target) (fd : Fd) :
    (w.closeFd t fd).sockets = w.sockets := rfl

/-- The socket and its events are as before. -/
structure Same (i : ℕ) (w w' : World V E F) : Prop where
  sockets : w'.sockets[i]? = w.sockets[i]?
  fired_eq : fired i w'.log = fired i w.log

/-- A socket that did not exist has just been made. -/
def IsNew (w : World V E F) (i : ℕ) : Prop :=
  ∃ fd status, w.sockets[i]? = some { fd := fd, status := status } ∧
    (status = .idle ∨ status = .connected)

/-- One of the branches describes what the step does to socket `i`. -/
def HasTurn [Blank V] (w : World V E F) (i : ℕ) (sock : SocketObject) (frame : Frame) (l : Label)
    (w' : World V E F) (eff : Effect) : Prop :=
  ∃ sock' names, Turn w i sock frame l w' eff sock' names ∧ w'.sockets[i]? = some sock' ∧
    fired i w'.log = fired i w.log ++ names

variable {i k : ℕ} {sock : SocketObject} {frame : Frame} {l : Label} {eff : Effect}

theorem HasTurn.of_same [Blank V] (h : Same i w w') (hget : w.sockets[i]? = some sock) :
    HasTurn w i sock frame l w' eff :=
  ⟨sock, [], .quiet frame l w' eff, h.sockets.trans hget, by simp [h.fired_eq]⟩

/-! ### What leaves a socket as it is -/

theorem addSocket_same (fd : Fd) (status : Status) (hi : i ≠ w.sockets.length) :
    (w.addSocket fd status).sockets[i]? = w.sockets[i]? := by
  simp only [addSocket, reactorRegister]
  rcases Nat.lt_or_gt_of_ne hi with hlt | hgt
  · rw [List.getElem?_append_left hlt]
  · rw [List.getElem?_eq_none (by simp; omega), List.getElem?_eq_none (by omega)]

theorem addSocket_new (fd : Fd) {status : Status} (hstatus : status = .idle ∨ status = .connected) :
    (w.addSocket fd status).IsNew w.sockets.length :=
  ⟨fd, status, by simp [addSocket, reactorRegister], hstatus⟩

theorem connect_same [Blank V] {answer : Answer} (h : w.connect k answer = some (w', eff))
    (hne : k ≠ i) : Same i w w' := by
  simp only [connect] at h
  repeat' split at h
  all_goals simp only [Option.some.injEq, Prod.mk.injEq, reduceCtorEq] at h
  all_goals rw [← h.1]
  · exact ⟨rfl, rfl⟩
  · exact ⟨by simp [getElem?_modifySocket, hne], by simp [record, modifySocket, hne]⟩
  · exact ⟨by rw [getElem?_modifySocket, if_neg hne], by simp [modifySocket]⟩
  · exact ⟨rfl, rfl⟩

theorem write_same [Blank V] {data : List Byte} {answers : List Answer}
    (h : w.write k data answers = some (w', eff)) (hne : k ≠ i) : Same i w w' := by
  simp only [write] at h
  repeat' split at h
  all_goals simp only [Option.some.injEq, Prod.mk.injEq, reduceCtorEq] at h
  all_goals
    rw [← h.1]
    exact ⟨by rw [recordIo_sockets, getElem?_modifySocket, if_neg hne], by simp [modifySocket]⟩

theorem closeRest_same (hne : k ≠ i) : Same i w (w.closeRest k sock).1 := by
  unfold closeRest
  split
  · exact ⟨by rw [getElem?_modifySocket, if_neg hne], rfl⟩
  · split
    · exact ⟨by rw [record_sockets, getElem?_modifySocket, if_neg hne],
        by simp [record, modifySocket, hne]⟩
    · exact ⟨rfl, rfl⟩

theorem closeSocket_same {answer : Answer} (h : w.closeSocket k answer = some (w', eff))
    (hne : k ≠ i) : Same i w w' := by
  simp only [closeSocket] at h
  repeat' split at h
  all_goals simp only [Option.some.injEq, Prod.mk.injEq, reduceCtorEq] at h
  · rw [← h.1]
    exact ⟨rfl, by simp [record]⟩
  · rw [← h.1]
    exact ⟨rfl, by simp [record]⟩
  · obtain ⟨hsockets, hfired⟩ := congrArg Prod.fst h ▸ closeRest_same hne
    exact ⟨hsockets, hfired.trans (by simp [record, closeFd])⟩
  · obtain ⟨hsockets, hfired⟩ := congrArg Prod.fst h ▸ closeRest_same hne
    exact ⟨hsockets, hfired.trans (by simp [record])⟩

theorem newServer_same {fd : Fd} {failure : Option SetupFailure}
    (h : w.newServer fd failure = some (w', eff)) : Same i w w' := by
  simp only [newServer] at h
  repeat' split at h
  all_goals simp only [Option.some.injEq, Prod.mk.injEq, reduceCtorEq] at h
  all_goals
    rw [← h.1]
    exact ⟨rfl, rfl⟩

theorem listen_same {j : ℕ} {bind listen : Answer}
    (h : w.listen j bind listen = some (w', eff)) : Same i w w' := by
  simp only [World.listen] at h
  repeat' split at h
  all_goals simp only [Option.some.injEq, Prod.mk.injEq, reduceCtorEq] at h
  all_goals
    rw [← h.1]
    exact ⟨rfl, rfl⟩

theorem closeServer_same {j : ℕ} {answer : Answer} (h : w.closeServer j answer = some (w', eff)) :
    Same i w w' := by
  simp only [closeServer] at h
  repeat' split at h
  all_goals simp only [Option.some.injEq, Prod.mk.injEq, reduceCtorEq] at h
  all_goals
    rw [← h.1]
    exact ⟨rfl, by simp [record, modifyServer, closeFd, reactorUnreg]⟩

theorem poll_same {backend : Backend} {batch : List (Event × Target)}
    (h : w.poll backend batch = some (w', eff)) : Same i w w' := by
  simp only [poll, Option.ite_none_right_eq_some, Option.some.injEq, Prod.mk.injEq] at h
  rw [← h.2.1]
  exact ⟨rfl, rfl⟩

theorem dispatch_same {backend : Backend} {n m : ℕ} (h : w.dispatch backend n m = some (w', eff)) :
    Same i w w' := by
  simp only [dispatch] at h
  repeat' split at h
  all_goals simp only [Option.some.injEq, Prod.mk.injEq, reduceCtorEq] at h
  all_goals
    rw [← h.1]
    exact ⟨rfl, by simp [record]⟩

theorem unregTail_same {frames : List Frame} (h : w.unregTail k frames = some (w', eff)) :
    Same i w w' := by
  simp only [unregTail] at h
  split at h
  · cases h
  · simp only [Option.some.injEq, Prod.mk.injEq] at h
    rw [← h.1]
    exact ⟨rfl, rfl⟩

theorem readEvent_same {slot : Option ℕ} {since : ℕ} {answers : List ReadAnswer}
    (h : w.readEvent k slot since answers = some (w', eff)) (hne : k ≠ i) : Same i w w' := by
  simp only [readEvent] at h
  repeat' split at h
  all_goals simp only [Option.some.injEq, Prod.mk.injEq, reduceCtorEq] at h
  all_goals rw [← h.1]
  · exact ⟨rfl, by simp⟩
  · exact ⟨rfl, by simp [record]⟩
  · exact ⟨rfl, by simp⟩
  all_goals
    exact ⟨by simp [getElem?_modifySocket, hne], by simp [record, modifySocket, hne]⟩

theorem endOfFile_same {closed : Bool} {slot : Option ℕ} {since : ℕ}
    (h : w.endOfFile k closed slot since = some (w', eff)) (hne : k ≠ i) : Same i w w' := by
  simp only [World.endOfFile] at h
  repeat' split at h
  all_goals simp only [Option.some.injEq, Prod.mk.injEq, reduceCtorEq] at h
  all_goals rw [← h.1]
  · exact ⟨by simp [getElem?_modifySocket, hne], by simp [record, modifySocket, hne]⟩
  · exact ⟨by simp [getElem?_modifySocket, hne], by simp [record, modifySocket, hne]⟩
  · exact ⟨rfl, rfl⟩

theorem connectEvent_same {since : ℕ} {answer : Answer}
    (h : w.connectEvent k since answer = some (w', eff)) (hne : k ≠ i) : Same i w w' := by
  simp only [connectEvent] at h
  repeat' split at h
  all_goals simp only [Option.some.injEq, Prod.mk.injEq, reduceCtorEq] at h
  all_goals rw [← h.1]
  · exact ⟨by simp [getElem?_modifySocket, hne], by simp [record, modifySocket, hne]⟩
  · exact ⟨rfl, by simp [record, hne]⟩

theorem flushEvent_same [Blank V] {answers : List Answer}
    (h : w.flushEvent k answers = some (w', eff)) (hne : k ≠ i) : Same i w w' := by
  simp only [flushEvent] at h
  repeat' split at h
  all_goals simp only [Option.some.injEq, Prod.mk.injEq, reduceCtorEq] at h
  all_goals
    rw [← h.1]
    exact ⟨by rw [recordIo_sockets, getElem?_modifySocket, if_neg hne], by simp [modifySocket]⟩

theorem newSocket_same {fd : Fd} {failure : Option SetupFailure}
    (h : w.newSocket fd failure = some (w', eff)) (hi : failure = none → i ≠ w.sockets.length) :
    Same i w w' := by
  simp only [newSocket] at h
  repeat' split at h
  all_goals simp only [Option.some.injEq, Prod.mk.injEq, reduceCtorEq] at h
  all_goals rw [← h.1]
  · exact ⟨addSocket_same fd .idle (hi rfl), rfl⟩
  · exact ⟨rfl, rfl⟩

theorem newSocket_new {fd : Fd} (h : w.newSocket fd none = some (w', eff)) :
    w'.IsNew w.sockets.length ∧ w'.log = w.log := by
  simp only [newSocket, Option.ite_none_right_eq_some, Option.some.injEq, Prod.mk.injEq] at h
  rw [← h.2.1]
  exact ⟨addSocket_new fd (.inl rfl), rfl⟩

theorem acceptEvent_same {backend : Backend} {j since : ℕ} {answer : AcceptAnswer}
    (h : w.acceptEvent backend j since answer = some (w', eff))
    (hi : answer.opens? ≠ none → i ≠ w.sockets.length) : Same i w w' := by
  simp only [acceptEvent] at h
  repeat' split at h
  all_goals simp only [Option.some.injEq, Prod.mk.injEq, reduceCtorEq] at h
  all_goals rw [← h.1]
  · exact ⟨rfl, by simp⟩
  · exact ⟨rfl, by simp⟩
  · exact ⟨addSocket_same _ _ (hi (by simp [AcceptAnswer.opens?])), by
      simp [addSocket, reactorRegister, record]⟩
  · exact ⟨rfl, by simp [leak]⟩
  · exact ⟨addSocket_same _ _ (hi (by simp [AcceptAnswer.opens?])), by
      simp [addSocket, reactorRegister]⟩

theorem acceptEvent_new {backend : Backend} {j since : ℕ} {answer : AcceptAnswer}
    (h : w.acceptEvent backend j since answer = some (w', eff)) (hopens : answer.opens? ≠ none) :
    w'.IsNew w.sockets.length ∧ fired i w'.log = fired i w.log := by
  have hadded (w : World V E F) (n : ℕ) (call : IoCall) (fd fd' : Fd) (t : Target) :
      ((w.recordIo t call fd n).addSocket fd' .connected).IsNew w.sockets.length :=
    addSocket_new (w := w.recordIo t call fd n) fd' (.inr rfl)
  simp only [acceptEvent] at h
  repeat' split at h
  all_goals simp only [Option.some.injEq, Prod.mk.injEq, reduceCtorEq] at h
  all_goals rw [← h.1]
  · exact absurd rfl hopens
  · exact absurd rfl hopens
  · exact ⟨hadded w 1 _ _ _ _, by simp [addSocket, reactorRegister, record]⟩
  · exact absurd rfl hopens
  · exact ⟨hadded w 1 _ _ _ _, by simp [addSocket, reactorRegister]⟩

/-! ### The branches for one socket -/

variable [Blank V]

theorem connect_turn {answer : Answer} {handlers : List Ref}
    (h : w.connect i answer = some (w', eff)) (hget : w.sockets[i]? = some sock) :
    HasTurn w i sock (.user handlers) (.connect i answer) w' eff := by
  simp only [connect, hget] at h
  split at h
  · simp only [Option.some.injEq, Prod.mk.injEq] at h
    rw [← h.1]
    exact .of_same ⟨rfl, rfl⟩ hget
  · rename_i hidle
    rw [ne_eq, not_not] at hidle
    simp only [Option.ite_none_right_eq_some] at h
    obtain ⟨-, h⟩ := h
    cases answer with
    | ret count =>
        simp only [Option.some.injEq, Prod.mk.injEq] at h
        obtain ⟨rfl, rfl⟩ := h
        exact ⟨_, _, .connected handlers count _ hidle rfl,
          by simp [getElem?_modifySocket, hget], by simp [record, modifySocket]⟩
    | err errno =>
        cases errno with
        | inProgress =>
            simp only [Option.some.injEq, Prod.mk.injEq] at h
            obtain ⟨rfl, rfl⟩ := h
            exact ⟨_, _, .connecting handlers _ hidle rfl,
              by rw [getElem?_modifySocket]; simp [hget]; rfl, by simp [modifySocket]⟩
        | again | wouldBlock | other code =>
            simp only [Option.some.injEq, Prod.mk.injEq] at h
            rw [← h.1]
            exact .of_same ⟨rfl, rfl⟩ hget

omit [Blank V] in
/-- What is left when the result of a write has been stored in the socket. -/
theorem recordIo_written {R : Type*} {r : Result V E F R} {n : ℕ}
    (hget : w.sockets[i]? = some sock)
    (hw : w' = ({ w with promises := r.promises }.modifySocket i fun sock =>
      { sock with toSocketData := r.sock }).recordIo (.socket i) .write sock.fd n) :
    w'.promises = r.promises ∧ w'.sockets[i]? = some { sock with toSocketData := r.sock } ∧
      fired i w'.log = fired i w.log := by
  rw [hw]
  refine ⟨rfl, ?_, by simp [recordIo, modifySocket]⟩
  rw [recordIo_sockets, getElem?_modifySocket]
  simp [hget]

/-- `write` runs on the data of the socket. -/
theorem write_result {data : List Byte} {answers : List Answer}
    (h : w.write i data answers = some (w', eff)) (hget : w.sockets[i]? = some sock) :
    ∃ r, sock.toSocketData.write w.promises data answers = some r ∧ w'.promises = r.promises ∧
      w'.sockets[i]? = some { sock with toSocketData := r.sock } ∧
      fired i w'.log = fired i w.log := by
  simp only [write, hget, Option.ite_none_right_eq_some] at h
  obtain ⟨-, h⟩ := h
  cases hr : sock.toSocketData.write w.promises data answers with
  | none => simp [hr] at h
  | some r =>
      have hw : w' = ({ w with promises := r.promises }.modifySocket i fun sock =>
          { sock with toSocketData := r.sock }).recordIo (.socket i) .write sock.fd
            answers.length := by
        rw [hr] at h
        cases hresult : r.result <;>
          simp only [hresult, Option.some.injEq, Prod.mk.injEq] at h <;> exact h.1.symm
      exact ⟨r, rfl, recordIo_written hget hw⟩

theorem write_turn {data : List Byte} {answers : List Answer} {handlers : List Ref}
    (h : w.write i data answers = some (w', eff)) (hget : w.sockets[i]? = some sock) :
    HasTurn w i sock (.user handlers) (.write i data answers) w' eff := by
  obtain ⟨r, hr, hpromises, hget', hfired⟩ := write_result h hget
  exact ⟨_, _, .wrote handlers data answers _ eff r hr hpromises, hget', by simp [hfired]⟩

/-- After the descriptor is closed. -/
theorem closeRest_turn {called : World V E F} {answer : Answer}
    (h : called.closeRest i sock = (w', eff)) (hcall : closeCall? frame l = some (i, answer))
    (hanswer : 0 ≤ sock.fd → ∃ count, answer = .ret count)
    (hpromises : called.promises = w.promises) (hsame : Same i w called)
    (hget : w.sockets[i]? = some sock) : HasTurn w i sock frame l w' eff := by
  have hcalled : called.sockets[i]? = some sock := hsame.sockets.trans hget
  simp only [closeRest] at h
  split at h
  · rename_i hconnected
    obtain ⟨rfl, rfl⟩ := Prod.mk.inj h
    exact ⟨_, _, .halfClosed frame l answer _ hcall hconnected hpromises,
      by rw [getElem?_modifySocket]; simp [hcalled],
      by simpa [modifySocket] using hsame.fired_eq⟩
  · split at h
    · rename_i hhalf
      obtain ⟨rfl, rfl⟩ := Prod.mk.inj h
      obtain ⟨count, rfl⟩ := hanswer hhalf.2
      exact ⟨_, _, .fullClosed frame l count _ hcall hhalf.1 hhalf.2 hpromises,
        by rw [record_sockets, getElem?_modifySocket]; simp [hcalled],
        by simp [record, modifySocket, hsame.fired_eq]⟩
    · obtain ⟨rfl, -⟩ := Prod.mk.inj h
      exact .of_same hsame hget

theorem closeSocket_turn {answer : Answer} (h : w.closeSocket i answer = some (w', eff))
    (hcall : closeCall? frame l = some (i, answer)) (hget : w.sockets[i]? = some sock) :
    HasTurn w i sock frame l w' eff := by
  simp only [closeSocket, hget] at h
  split at h
  · simp only [Option.some.injEq, Prod.mk.injEq] at h
    rw [← h.1]
    exact .of_same ⟨rfl, by simp [record]⟩ hget
  · split at h
    · cases answer with
      | err errno =>
          simp only [Option.some.injEq, Prod.mk.injEq] at h
          rw [← h.1]
          exact .of_same ⟨rfl, by simp [record]⟩ hget
      | ret count =>
          simp only [Option.ite_none_right_eq_some, Option.some.injEq] at h
          exact closeRest_turn h.2 hcall (fun _ => ⟨count, rfl⟩) rfl
            ⟨rfl, by simp [record, closeFd]⟩ hget
    · rename_i hfd
      exact closeRest_turn (Option.some.inj h) hcall (fun hnonneg => absurd hnonneg hfd) rfl
        ⟨rfl, by simp [record]⟩ hget

theorem readEvent_turn {slot : Option ℕ} {since : ℕ} {answers : List ReadAnswer}
    (h : w.readEvent i slot since answers = some (w', eff))
    (hget : w.sockets[i]? = some sock) :
    HasTurn w i sock (.reading i slot since) (.read answers) w' eff := by
  simp only [readEvent, hget, Option.ite_none_right_eq_some] at h
  obtain ⟨-, h⟩ := h
  cases hloop : readLoop answers with
  | none => simp [hloop] at h
  | some result =>
      cases result with
      | error errno =>
          simp only [hloop, Option.some.injEq, Prod.mk.injEq] at h
          rw [← h.1]
          exact .of_same ⟨rfl, by simp⟩ hget
      | ok result =>
          obtain ⟨bytes, closed⟩ := result
          simp only [hloop] at h
          split at h
          · simp only [Option.some.injEq, Prod.mk.injEq] at h
            rw [← h.1]
            exact .of_same ⟨by cases closed <;> rfl, by cases closed <;> simp [record]⟩ hget
          · rename_i hbytes
            simp only [Option.some.injEq, Prod.mk.injEq] at h
            obtain ⟨rfl, rfl⟩ := h
            refine ⟨_, _, .read slot since answers bytes closed _ hloop hbytes, ?_, ?_⟩
            · rw [record_sockets, getElem?_modifySocket]
              cases closed <;> simp [hget]
            · cases closed <;> simp [record, modifySocket]

theorem endOfFile_turn {closed : Bool} {slot : Option ℕ} {since : ℕ}
    (h : w.endOfFile i closed slot since = some (w', eff))
    (hget : w.sockets[i]? = some sock) :
    HasTurn w i sock (.readTail i closed slot since) .tau w' eff := by
  simp only [World.endOfFile, hget] at h
  cases closed with
  | false =>
      simp only [Bool.false_eq_true, if_false, Option.some.injEq, Prod.mk.injEq] at h
      rw [← h.1]
      exact .of_same ⟨rfl, rfl⟩ hget
  | true =>
      by_cases hhalf : sock.status = .halfClosed
      · simp only [if_true, hhalf, Option.some.injEq, Prod.mk.injEq] at h
        obtain ⟨rfl, rfl⟩ := h
        exact ⟨_, _, .eofAgain slot since _ hhalf rfl,
          by rw [record_sockets, getElem?_modifySocket]; simp [hget],
          by simp [record, modifySocket]⟩
      · simp only [if_true, hhalf, if_false, Option.some.injEq, Prod.mk.injEq] at h
        obtain ⟨rfl, rfl⟩ := h
        exact ⟨_, _, .eofFirst slot since _ hhalf,
          by rw [record_sockets, getElem?_modifySocket]; simp [hget],
          by simp [record, modifySocket]⟩

theorem connectEvent_turn {since : ℕ} {answer : Answer}
    (h : w.connectEvent i since answer = some (w', eff)) (hget : w.sockets[i]? = some sock) :
    HasTurn w i sock (.writePart i true since) (.soError answer) w' eff := by
  simp only [connectEvent, hget, Option.ite_none_right_eq_some] at h
  obtain ⟨⟨hpending, -⟩, h⟩ := h
  split at h
  · rename_i hanswer
    subst hanswer
    simp only [Option.some.injEq, Prod.mk.injEq] at h
    obtain ⟨rfl, rfl⟩ := h
    exact ⟨_, _, .established since _ hpending rfl,
      by rw [record_sockets, getElem?_modifySocket]; simp [hget], by simp [record, modifySocket]⟩
  · rename_i hanswer
    simp only [Option.some.injEq, Prod.mk.injEq] at h
    obtain ⟨rfl, rfl⟩ := h
    exact ⟨_, _, .refused since answer _ hpending hanswer rfl, hget, by simp [record]⟩

/-- The write branch runs on the data of the socket. -/
theorem flushEvent_result {answers : List Answer} (h : w.flushEvent i answers = some (w', eff))
    (hget : w.sockets[i]? = some sock) : sock.status ≠ .connecting ∧
      ∃ r, sock.toSocketData.onWritable w.promises answers = some r ∧ w'.promises = r.promises ∧
        w'.sockets[i]? = some { sock with toSocketData := r.sock } ∧
        fired i w'.log = fired i w.log := by
  simp only [flushEvent, hget, Option.ite_none_right_eq_some] at h
  obtain ⟨⟨hsettled, -⟩, h⟩ := h
  refine ⟨hsettled, ?_⟩
  cases hr : sock.toSocketData.onWritable w.promises answers with
  | none => simp [hr] at h
  | some r =>
      have hw : w' = ({ w with promises := r.promises }.modifySocket i fun sock =>
          { sock with toSocketData := r.sock }).recordIo (.socket i) .write sock.fd
            answers.length := by
        rw [hr] at h
        cases hresult : r.result <;>
          simp only [hresult, Option.some.injEq, Prod.mk.injEq] at h <;> exact h.1.symm
      exact ⟨r, rfl, recordIo_written hget hw⟩

theorem flushEvent_turn {since : ℕ} {answers : List Answer}
    (h : w.flushEvent i answers = some (w', eff)) (hget : w.sockets[i]? = some sock) :
    HasTurn w i sock (.writePart i true since) (.flush answers) w' eff := by
  obtain ⟨hsettled, r, hr, hpromises, hget', hfired⟩ := flushEvent_result h hget
  exact ⟨_, _, .flushed since answers _ eff r hsettled hr hpromises, hget', by simp [hfired]⟩

end World

/-! ### Calls and pieces -/

section Machine

variable [Blank V] {backend : Backend} {w w' : World V E F} {i : ℕ} {sock : SocketObject}
  {eff : Effect} {l : Label} {frame : Frame}

/-- The socket that a call or a piece works on. -/
def socket? : Frame → Label → Option ℕ
  | .user _, .connect i _ | .user _, .write i _ _ | .user _, .close i _ => some i
  | .reading i _ _, .read _ | .readTail i _ _ _, .tau | .writePart i true _, .soError _
  | .writePart i true _, .flush _ | .errorTail i _, .closing _ => some i
  | _, _ => none

theorem userStep_same {handlers : List Ref} (h : userStep backend w l = some (w', eff))
    (hne : socket? (.user handlers) l ≠ some i)
    (hi : opened? (.user handlers) l ≠ none → i ≠ w.sockets.length) : World.Same i w w' := by
  cases l with
  | newSocket fd failure =>
      refine World.newSocket_same h fun hnone => hi ?_
      simp [opened?, hnone]
  | newServer fd failure => exact World.newServer_same h
  | connect k answer => exact World.connect_same h fun hk => hne (congrArg some hk)
  | write k data answers => exact World.write_same h fun hk => hne (congrArg some hk)
  | close k answer => exact World.closeSocket_same h fun hk => hne (congrArg some hk)
  | listen j bind listen => exact World.listen_same h
  | closeServer j answer => exact World.closeServer_same h
  | poll batch => exact World.poll_same h
  | createFails errno | pollFails =>
      simp only [userStep, Option.some.injEq, Prod.mk.injEq] at h
      rw [← h.1]
      exact ⟨rfl, rfl⟩
  | handler | return_ | throw_ | tau | read answers | soError answer | flush answers
  | closing answer | accept answer => cases h

theorem libraryStep_same (h : libraryStep backend w frame l = some (w', eff))
    (hne : socket? frame l ≠ some i) (hi : opened? frame l ≠ none → i ≠ w.sockets.length) :
    World.Same i w w' := by
  simp only [libraryStep] at h
  split at h
  · exact World.unregTail_same h
  · simp only [Option.some.injEq, Prod.mk.injEq] at h
    rw [← h.1]
    exact ⟨rfl, rfl⟩
  · exact World.readEvent_same h fun hk => hne (congrArg some hk)
  · exact World.endOfFile_same h fun hk => hne (congrArg some hk)
  · exact World.unregTail_same h
  · simp only [Option.some.injEq, Prod.mk.injEq] at h
    rw [← h.1]
    exact ⟨rfl, rfl⟩
  · exact World.connectEvent_same h fun hk => hne (congrArg some hk)
  · exact World.flushEvent_same h fun hk => hne (congrArg some hk)
  · exact World.closeSocket_same h fun hk => hne (congrArg some hk)
  · exact World.acceptEvent_same h hi
  · exact World.dispatch_same h
  · cases h

/-- A step leaves the sockets alone that it does not work on. -/
theorem pieceStep_same (h : pieceStep backend w frame l = some (w', eff))
    (hne : socket? frame l ≠ some i) (hi : opened? frame l ≠ none → i ≠ w.sockets.length) :
    World.Same i w w' := by
  cases frame with
  | user handlers => exact userStep_same h hne hi
  | _ => exact libraryStep_same h hne hi

/-- What a step does to a socket. -/
theorem pieceStep_turn (h : pieceStep backend w frame l = some (w', eff))
    (hget : w.sockets[i]? = some sock) : w.HasTurn i sock frame l w' eff := by
  have hlt : i < w.sockets.length := (List.getElem?_eq_some_iff.mp hget).1
  by_cases hne : socket? frame l = some i
  · simp only [socket?] at hne
    split at hne
    all_goals simp only [Option.some.injEq, reduceCtorEq] at hne
    all_goals subst hne
    · exact World.connect_turn h hget
    · exact World.write_turn h hget
    · exact World.closeSocket_turn h rfl hget
    · exact World.readEvent_turn h hget
    · exact World.endOfFile_turn h hget
    · exact World.connectEvent_turn h hget
    · exact World.flushEvent_turn h hget
    · exact World.closeSocket_turn h rfl hget
  · exact .of_same (pieceStep_same h hne fun _ => Nat.ne_of_lt hlt) hget

/-- Calls and pieces work on sockets that exist. -/
theorem pieceStep_of_none (hget : w.sockets[i]? = none) (hi : socket? frame l = some i) :
    pieceStep backend w frame l = none := by
  simp only [socket?] at hi
  split at hi
  all_goals simp only [Option.some.injEq, reduceCtorEq] at hi
  all_goals
    subst hi
    simp [pieceStep, userStep, libraryStep, World.connect, World.write, World.closeSocket,
      World.readEvent, World.endOfFile, World.connectEvent, World.flushEvent, hget]

/-- A socket that does not exist may be made, and no event of it fires. -/
theorem pieceStep_new (h : pieceStep backend w frame l = some (w', eff))
    (hget : w.sockets[i]? = none) :
    (w'.sockets[i]? = none ∨ w'.IsNew i) ∧ fired i w'.log = fired i w.log := by
  have hne : socket? frame l ≠ some i := fun hi => by
    simp [pieceStep_of_none hget hi] at h
  have hold (hsame : World.Same i w w') :
      (w'.sockets[i]? = none ∨ w'.IsNew i) ∧ fired i w'.log = fired i w.log :=
    ⟨.inl (hsame.sockets.trans hget), hsame.fired_eq⟩
  by_cases hi : opened? frame l ≠ none → i ≠ w.sockets.length
  · exact hold (pieceStep_same h hne hi)
  · rw [Classical.not_imp, ne_eq, not_not] at hi
    obtain ⟨hopened, rfl⟩ := hi
    simp only [opened?] at hopened
    split at hopened
    · obtain ⟨hnew, hlog⟩ := World.newSocket_new h
      exact ⟨.inr hnew, by rw [hlog]⟩
    · rename_i fd
      have hserver : w.newServer fd none = some (w', eff) := h
      exact hold (World.newServer_same hserver)
    · exact (World.acceptEvent_new h hopened).imp_left .inr
    · exact absurd rfl hopened

/-! ### Steps of the machine -/

/-- What stays on the stack below the frames that a call or a piece pushes. -/
def Frame.below (frame : Frame) (rest : List Frame) : List Frame :=
  match frame with
  | .user handlers => .user handlers :: rest
  | _ => rest

/-- A step leaves socket `i` as it is, or it is one of the branches. -/
inductive Moved (i : ℕ) (sock : SocketObject) (c : Config V E F) (l : Label) :
    Config V E F → SocketObject → List EventName → Prop where
  | stays (c') : Moved i sock c l c' sock []
  | turns (top rest w' eff sock' names) (stack : c.stack = top :: rest)
      (turn : Turn c.world i sock top l w' eff sock' names) :
      Moved i sock c l (Config.after (top.below rest) (w', eff)) sock' names

/-- What a step does to a socket. -/
theorem Stepped.moved {c c' : Config V E F} (h : Stepped backend c l c')
    (hget : c.world.sockets[i]? = some sock) :
    ∃ sock' names, Moved i sock c l c' sock' names ∧ c'.world.sockets[i]? = some sock' ∧
      fired i c'.world.log = fired i c.world.log ++ names := by
  cases h with
  | handler w p handlers rest => exact ⟨sock, [], .stays _, hget, by simp⟩
  | return_ w frame rest => exact ⟨sock, [], .stays _, hget, by simp⟩
  | throw_ w handlers frame rest => exact ⟨sock, [], .stays _, hget, by simp⟩
  | user w handlers rest l w' eff call =>
      have hcall : pieceStep backend w (.user handlers) l = some (w', eff) := call
      obtain ⟨sock', names, hturn, hget', hfired⟩ := pieceStep_turn hcall hget
      rw [Config.after_world]
      exact ⟨sock', names, .turns (.user handlers) rest w' eff sock' names rfl hturn, hget', hfired⟩
  | library w frame rest l w' eff piece =>
      obtain ⟨sock', names, hturn, hget', hfired⟩ :=
        pieceStep_turn (pieceStep_of_library piece) hget
      have hbelow : frame.below rest = rest := by
        cases frame with
        | user handlers => simp [libraryStep_user] at piece
        | _ => rfl
      rw [Config.after_world]
      refine ⟨sock', names, ?_, hget', hfired⟩
      have hmoved := Moved.turns (c := ⟨w, frame :: rest⟩) frame rest w' eff sock' names rfl hturn
      rwa [hbelow] at hmoved

/-- A step that may make a socket. -/
theorem Stepped.made {c c' : Config V E F} (h : Stepped backend c l c')
    (hget : c.world.sockets[i]? = none) :
    (c'.world.sockets[i]? = none ∨ c'.world.IsNew i) ∧
      fired i c'.world.log = fired i c.world.log := by
  cases h with
  | handler w p handlers rest => exact ⟨.inl hget, rfl⟩
  | return_ w frame rest => exact ⟨.inl hget, rfl⟩
  | throw_ w handlers frame rest => exact ⟨.inl hget, rfl⟩
  | user w handlers rest l w' eff call =>
      have hcall : pieceStep backend w (.user handlers) l = some (w', eff) := call
      rw [Config.after_world]
      exact pieceStep_new hcall hget
  | library w frame rest l w' eff piece =>
      rw [Config.after_world]
      exact pieceStep_new (pieceStep_of_library piece) hget

end Machine

end Libasync.Reactor
