import Libasync.Foundation.Transcript
import Libasync.Reactor.Addresses
import Libasync.Reactor.ConnectPromises

/-! # Sockets that look the same

Two sockets that differ only in the promises of their queues answer later calls in the same way,
however long the program goes on. -/

namespace Libasync.Reactor

open Promise Socket Automaton

variable {V E F : Type*}

/-! ### What can be observed later -/

/-- A call on the socket, or the write branch of an event, which completes the calls of `write`. -/
inductive SocketCall where
  | localAddr (answer : NameAnswer)
  | write (data : List Byte) (answers : List Answer)
  | close (answer : Answer)
  | writable (answers : List Answer)
  deriving DecidableEq, Repr

/-- How it ends: with a result, with the handlers that are to run or an exception, and with the
promise that it has made. -/
inductive CallOutcome (V E : Type*) where
  | address (result : Except SocketError (Option (InAddr × InPort)))
  | write (effect : Effect) (promise : Option (PromiseStatus V E))
  | close (effect : Effect)
  | writable (effect : Effect)

/-- What the socket shows, with the targets of the promises in its queue. -/
structure Shown where
  status : Status
  bufferSize : ℕ
  bytesRead : ℕ
  bytesWritten : ℕ
  targets : List ℕ
  deriving DecidableEq, Repr

def SocketObject.shown (sock : SocketObject) : Shown where
  status := sock.status
  bufferSize := sock.buffer.length
  bytesRead := sock.bytesRead
  bytesWritten := sock.bytesWritten
  targets := sock.writePromiseQueue.map PromiseQueueItem.target

namespace NamedConfig

/-- One call, and what the socket shows after it. -/
def perform [Blank V] (i : ℕ) (n : NamedConfig V E F) :
    SocketCall → Option (NamedConfig V E F × CallOutcome V E × Option Shown)
  | .localAddr answer => (n.localAddr i answer).map fun (n', result) =>
      (n', .address result, (n'.world.sockets[i]?).map SocketObject.shown)
  | .write data answers => (n.world.write i data answers).map fun (world, effect) =>
      ({ n with world }, .write effect (world.promises.status? n.world.promises.heap.length),
        (world.sockets[i]?).map SocketObject.shown)
  | .close answer => (n.world.closeSocket i answer).map fun (world, effect) =>
      ({ n with world }, .close effect, (world.sockets[i]?).map SocketObject.shown)
  | .writable answers => (n.world.flushEvent i answers).map fun (world, effect) =>
      ({ n with world }, .writable effect, (world.sockets[i]?).map SocketObject.shown)

/-- The descriptor of the socket is open. -/
def isOpen (i : ℕ) (n : NamedConfig V E F) : Option Bool :=
  (n.world.sockets[i]?).map fun sock => n.world.usable sock.fd

end NamedConfig

/-! ### Sockets that look the same -/

/-- Sockets that differ only in the promises that wait. -/
structure Twins (a b : SocketData) : Prop where
  fd : a.fd = b.fd
  status : a.status = b.status
  buffer : a.buffer = b.buffer
  bytesRead : a.bytesRead = b.bytesRead
  bytesWritten : a.bytesWritten = b.bytesWritten
  targets : a.writePromiseQueue.map PromiseQueueItem.target =
    b.writePromiseQueue.map PromiseQueueItem.target

theorem Twins.shown {a b : SocketObject} (h : Twins a.toSocketData b.toSocketData) :
    a.shown = b.shown := by
  simp only [SocketObject.shown, h.status, h.buffer, h.bytesRead, h.bytesWritten, h.targets]

theorem Twins.advance {a b : SocketData} (h : Twins a b) (offset : ℕ) :
    Twins (a.advance offset) (b.advance offset) where
  fd := h.fd
  status := h.status
  buffer := congrArg (List.drop offset) h.buffer
  bytesRead := h.bytesRead
  bytesWritten := congrArg (· + offset) h.bytesWritten
  targets := h.targets

/-- Which promises leave the queue depends on their targets only. -/
theorem resolveWritePromises_targets [Blank V] (n : ℕ) (items : List PromiseQueueItem)
    (s : State V E F) :
    (resolveWritePromises n items s).1.map PromiseQueueItem.target =
      (items.map PromiseQueueItem.target).dropWhile fun target => decide (target ≤ n) := by
  induction items generalizing s with
  | nil => rfl
  | cons item items ih =>
      by_cases h : n < item.target
      · simp [resolveWritePromises, h, Nat.not_le.mpr h]
      · simp [resolveWritePromises, h, Nat.not_lt.mp h, ih]

/-- Both calls return, or both throw the same exception. -/
inductive SameResult {α β : Type*} : Except SocketError α → Except SocketError β → Prop where
  | ok (a b) : SameResult (.ok a) (.ok b)
  | error (e) : SameResult (.error e) (.error e)

section Calls

variable [Blank V]

theorem Twins.write {a b : SocketData} (h : Twins a b) (s t : State V E F) (data : List Byte)
    (answers : List Answer) :
    Option.Rel (fun r q => Twins r.sock q.sock ∧ SameResult r.result q.result ∧
        r.promises.status? s.heap.length = q.promises.status? t.heap.length)
      (a.write s data answers) (b.write t data answers) := by
  have hempty (s : State V E F) : s.status? s.heap.length = none := by
    simp [State.status?, State.get?]
  have hgrown : Twins { a with buffer := a.buffer ++ data } { b with buffer := b.buffer ++ data } :=
    { h with buffer := congrArg (· ++ data) h.buffer }
  simp only [SocketData.write, h.buffer]
  cases hloop : writeLoop (b.buffer ++ data) 0 answers with
  | none => exact .none
  | some result =>
      obtain ⟨flush, rest⟩ := result
      cases rest with
      | cons answer rest => exact .none
      | nil =>
          have hadvanced := hgrown.advance flush.offset
          cases hexit : flush.exit with
          | failed errno =>
              simp only [hexit]
              refine .some ⟨?_, .error _, by rw [hempty, hempty]⟩
              simpa [h.buffer] using hgrown
          | completed =>
              simp only [hexit]
              refine .some ⟨?_, .ok _ _, ?_⟩
              · simpa [h.buffer] using hadvanced
              · exact (status?_resolvedVoid_self s).trans (status?_resolvedVoid_self t).symm
          | blocked =>
              simp only [hexit]
              refine .some ⟨?_, .ok _ _, ?_⟩
              · refine { hadvanced with buffer := ?_, targets := ?_ }
                · simpa [h.buffer] using hadvanced.buffer
                · simp [SocketData.advance, h.targets, h.bytesWritten]
              · simp [State.create, State.alloc, State.status?, State.get?]

theorem Twins.onWritable {a b : SocketData} (h : Twins a b) (s t : State V E F)
    (answers : List Answer) :
    Option.Rel (fun r q => Twins r.sock q.sock ∧ SameResult r.result q.result)
      (a.onWritable s answers) (b.onWritable t answers) := by
  have hflushed (offset : ℕ) : Twins
      { a.advance offset with
        writePromiseQueue :=
          (resolveWritePromises (a.advance offset).bytesWritten a.writePromiseQueue s).1 }
      { b.advance offset with
        writePromiseQueue :=
          (resolveWritePromises (b.advance offset).bytesWritten b.writePromiseQueue t).1 } := by
    refine { h.advance offset with targets := ?_ }
    simp only [resolveWritePromises_targets, h.targets, (h.advance offset).bytesWritten]
  simp only [SocketData.onWritable, h.buffer]
  cases hloop : flushLoop sockBufferSize b.buffer 0 answers with
  | none => exact .none
  | some result =>
      obtain ⟨flush, rest⟩ := result
      cases rest with
      | cons answer rest => exact .none
      | nil =>
          cases hexit : flush.exit with
          | failed errno =>
              simp only [hexit]
              exact .some ⟨h, .error _⟩
          | completed | blocked =>
              simp only [hexit]
              exact .some ⟨hflushed flush.offset, .ok _ _⟩

/-- The socket looks the same in both configurations, and -1 is no open descriptor. -/
structure NamedConfig.Alike (i : ℕ) (n₁ n₂ : NamedConfig V E F) : Prop where
  socket : Option.Rel (fun a b => Twins a.toSocketData b.toSocketData) n₁.world.sockets[i]?
    n₂.world.sockets[i]?
  descriptor : n₁.isOpen i = n₂.isOpen i
  noDescriptor : n₁.world.usable (-1) = false ∧ n₂.world.usable (-1) = false
  addresses : (n₁.addresses[i]?).map (fun a => (a.localAddr, a.localPort)) =
    (n₂.addresses[i]?).map fun a => (a.localAddr, a.localPort)

namespace NamedConfig.Alike

variable {i : ℕ} {n₁ n₂ : NamedConfig V E F} {a b : SocketObject}

omit [Blank V]

theorem usable (h : Alike i n₁ n₂) (ha : n₁.world.sockets[i]? = some a)
    (hb : n₂.world.sockets[i]? = some b) : n₁.world.usable a.fd = n₂.world.usable b.fd := by
  simpa [isOpen, ha, hb] using h.descriptor

theorem shown (h : Alike i n₁ n₂) : (n₁.world.sockets[i]?).map SocketObject.shown =
    (n₂.world.sockets[i]?).map SocketObject.shown := by
  rcases rel_cases h.socket with ⟨ha, hb⟩ | ⟨a, b, ha, hb, htwins⟩
  · rw [ha, hb]
  · rw [ha, hb, Option.map_some, Option.map_some, htwins.shown]

/-- The data of the socket changes, and no descriptor is closed. -/
theorem modify (h : Alike i n₁ n₂) (ha : n₁.world.sockets[i]? = some a)
    (hb : n₂.world.sockets[i]? = some b) {w₁ w₂ : World V E F} (a' b' : SocketObject)
    (ha' : w₁.sockets[i]? = some a') (hb' : w₂.sockets[i]? = some b')
    (hw₁ : w₁.descriptors = n₁.world.descriptors) (hw₂ : w₂.descriptors = n₂.world.descriptors)
    (hfd : a'.fd = a.fd) (htwins : Twins a'.toSocketData b'.toSocketData) :
    Alike i { n₁ with world := w₁ } { n₂ with world := w₂ } where
  socket := by
    rw [ha', hb']
    exact .some htwins
  descriptor := by
    have husable := h.usable ha hb
    have hfd' : b'.fd = b.fd := by
      rcases rel_cases h.socket with ⟨hnone, -⟩ | ⟨a₁, b₁, ha₁, hb₁, hold⟩
      · rw [ha] at hnone
        cases hnone
      · obtain rfl := Option.some.inj (ha.symm.trans ha₁)
        obtain rfl := Option.some.inj (hb.symm.trans hb₁)
        exact htwins.fd.symm.trans (hfd.trans hold.fd)
    simpa [isOpen, ha', hb', World.usable, hw₁, hw₂, hfd, hfd'] using husable
  noDescriptor := by simpa [World.usable, hw₁, hw₂] using h.noDescriptor
  addresses := h.addresses

/-- `local_addr` finds the same. -/
theorem localAddr (h : Alike i n₁ n₂) (answer : NameAnswer) :
    Option.Rel (fun r q => Alike i r.1 q.1 ∧ r.2 = q.2) (n₁.localAddr i answer)
      (n₂.localAddr i answer) := by
  rcases rel_cases h.socket with ⟨ha, hb⟩ | ⟨a, b, ha, hb, htwins⟩
  · simp only [NamedConfig.localAddr, ha, hb]
    exact .none
  · have hopen := h.usable ha hb
    have haddresses := h.addresses
    cases hx : n₁.addresses[i]? with
    | none =>
        have hy : n₂.addresses[i]? = none := by simpa [hx] using haddresses.symm
        simp only [NamedConfig.localAddr, ha, hb, hx, hy]
        exact .none
    | some x =>
        obtain ⟨y, hy, hxy⟩ : ∃ y, n₂.addresses[i]? = some y ∧
            (y.localAddr, y.localPort) = (x.localAddr, x.localPort) := by
          rw [hx, Option.map_some] at haddresses
          exact Option.map_eq_some_iff.mp haddresses.symm
        obtain ⟨haddr, hport⟩ := Prod.mk.inj hxy
        simp only [NamedConfig.localAddr, ha, hb, hx, hy, htwins.status, haddr, hport, hopen]
        by_cases hstatus : b.status = .connected
        · by_cases hnone : x.localAddr = inaddrNone
          · by_cases hanswer : (n₂.world.usable b.fd || answer.badFd) = true
            · cases answer with
              | name addr port =>
                  simp only [hstatus, hnone, hanswer, ne_eq, not_true_eq_false, if_false, if_true]
                  refine .some ⟨{ h with addresses := ?_ }, rfl⟩
                  have hi₁ := (List.getElem?_eq_some_iff.mp hx).1
                  have hi₂ := (List.getElem?_eq_some_iff.mp hy).1
                  simp [List.getElem?_set_self hi₁, List.getElem?_set_self hi₂]
              | err errno =>
                  simp only [hstatus, hnone, hanswer, ne_eq, not_true_eq_false, if_false, if_true]
                  exact .some ⟨h, rfl⟩
            · simp only [hstatus, hnone, hanswer, ne_eq, not_true_eq_false, if_false, if_true]
              exact .none
          · simp only [hstatus, hnone, ne_eq, not_true_eq_false, if_false]
            exact .some ⟨h, rfl⟩
        · simp only [hstatus, ne_eq, not_false_eq_true, if_true]
          exact .some ⟨h, rfl⟩

/-- What is to be shown of a call: the worlds after it are alike, and its outcomes are the same. -/
theorem perform_call {α : Type*} {x y : Option (World V E F × Effect)}
    {out₁ out₂ : World V E F × Effect → α}
    (hrel : Option.Rel (fun r q => Alike i { n₁ with world := r.1 } { n₂ with world := q.1 } ∧
      out₁ r = out₂ q) x y) :
    Option.Rel (fun r q => Alike i r.1 q.1 ∧ r.2 = q.2)
      (x.map fun r => ({ n₁ with world := r.1 }, out₁ r,
        (r.1.sockets[i]?).map SocketObject.shown))
      (y.map fun r => ({ n₂ with world := r.1 }, out₂ r,
        (r.1.sockets[i]?).map SocketObject.shown)) := by
  rcases rel_cases hrel with ⟨rfl, rfl⟩ | ⟨r, q, rfl, rfl, halike, hout⟩
  · exact .none
  · exact .some ⟨halike, Prod.ext hout halike.shown⟩

/-- The data of a socket after one of the write loops, with the record of the calls. -/
theorem written (h : Alike i n₁ n₂) (ha : n₁.world.sockets[i]? = some a)
    (hb : n₂.world.sockets[i]? = some b) {s t : State V E F} {a' b' : SocketData}
    (hfd : a'.fd = a.fd) (htwins : Twins a' b') (n : ℕ) :
    Alike i
      { n₁ with world := ({ n₁.world with promises := s }.modifySocket i fun sock =>
        { sock with toSocketData := a' }).recordIo (.socket i) .write a.fd n }
      { n₂ with world := ({ n₂.world with promises := t }.modifySocket i fun sock =>
        { sock with toSocketData := b' }).recordIo (.socket i) .write b.fd n } := by
  refine h.modify ha hb { a with toSocketData := a' } { b with toSocketData := b' }
    ?_ ?_ rfl rfl hfd htwins
  · simp [World.getElem?_modifySocket, ha]
  · simp [World.getElem?_modifySocket, hb]

end NamedConfig.Alike

namespace NamedConfig.Alike

variable {i : ℕ} {n₁ n₂ : NamedConfig V E F}

theorem write (h : Alike i n₁ n₂) (data : List Byte) (answers : List Answer) :
    Option.Rel (fun r q => Alike i r.1 q.1 ∧ r.2 = q.2) (n₁.perform i (.write data answers))
      (n₂.perform i (.write data answers)) := by
  apply perform_call
  rcases rel_cases h.socket with ⟨ha, hb⟩ | ⟨a, b, ha, hb, htwins⟩
  · simp only [World.write, ha, hb]
    exact .none
  · simp only [World.write, ha, hb, h.usable ha hb]
    by_cases hallowed : (n₂.world.usable b.fd || answers.all badFd) = true
    · rw [if_pos hallowed, if_pos hallowed]
      rcases rel_cases (htwins.write n₁.world.promises n₂.world.promises data answers) with
        ⟨hr, hq⟩ | ⟨⟨_, s, _, result⟩, ⟨_, t, _, result'⟩, hr, hq, hsock, hresult, hpromise⟩
      · simp only [hr, hq]
        exact .none
      · have halike := h.written (s := s) (t := t) ha hb (wrote_status hr).2 hsock
          answers.length
        simp only [hr, hq]
        cases hresult with
        | ok p p' => exact .some ⟨halike, congrArg (CallOutcome.write _) hpromise⟩
        | error e => exact .some ⟨halike, congrArg (CallOutcome.write _) hpromise⟩
    · rw [if_neg hallowed, if_neg hallowed]
      exact .none

theorem writable (h : Alike i n₁ n₂) (answers : List Answer) :
    Option.Rel (fun r q => Alike i r.1 q.1 ∧ r.2 = q.2) (n₁.perform i (.writable answers))
      (n₂.perform i (.writable answers)) := by
  apply perform_call
  rcases rel_cases h.socket with ⟨ha, hb⟩ | ⟨a, b, ha, hb, htwins⟩
  · simp only [World.flushEvent, ha, hb]
    exact .none
  · simp only [World.flushEvent, ha, hb, h.usable ha hb, htwins.status]
    by_cases hallowed : b.status ≠ .connecting ∧
        (n₂.world.usable b.fd || answers.all badFd) = true
    · rw [if_pos hallowed, if_pos hallowed]
      rcases rel_cases (htwins.onWritable n₁.world.promises n₂.world.promises answers) with
        ⟨hr, hq⟩ | ⟨⟨_, s, _, result⟩, ⟨_, t, _, result'⟩, hr, hq, hsock, hresult⟩
      · simp only [hr, hq]
        exact .none
      · have halike := h.written (s := s) (t := t) ha hb (flushed_status hr).2
          hsock answers.length
        simp only [hr, hq]
        cases hresult with
        | ok p p' => exact .some ⟨halike, rfl⟩
        | error e => exact .some ⟨halike, rfl⟩
    · rw [if_neg hallowed, if_neg hallowed]
      exact .none

omit [Blank V] in
/-- The record of a run is not looked at. -/
theorem record (h : Alike i n₁ n₂) (happening : Happening) :
    Alike i { n₁ with world := n₁.world.record happening }
      { n₂ with world := n₂.world.record happening } :=
  ⟨h.socket, h.descriptor, h.noDescriptor, h.addresses⟩

omit [Blank V] in
theorem usable_closeFd (w : World V E F) (t : Target) (fd n : Fd) :
    (w.closeFd t fd).usable n = (!decide (n = fd) && w.usable n) := by
  by_cases hn : n = fd <;> simp [World.closeFd, World.record, World.usable, Function.update, hn]

omit [Blank V] in
theorem closeFd (h : Alike i n₁ n₂) (t : Target) (fd : Fd) :
    Alike i { n₁ with world := n₁.world.closeFd t fd }
      { n₂ with world := n₂.world.closeFd t fd } where
  socket := h.socket
  descriptor := by
    rcases rel_cases h.socket with ⟨ha, hb⟩ | ⟨a, b, ha, hb, htwins⟩
    · simp [isOpen, ha, hb]
    · have hopen := h.usable ha hb
      rw [htwins.fd] at hopen
      simp [isOpen, ha, hb, usable_closeFd, htwins.fd, hopen]
  noDescriptor := by simp [usable_closeFd, h.noDescriptor]
  addresses := h.addresses

omit [Blank V] in
theorem closeRest (h : Alike i n₁ n₂) {a b : SocketObject} (ha : n₁.world.sockets[i]? = some a)
    (hb : n₂.world.sockets[i]? = some b) (htwins : Twins a.toSocketData b.toSocketData) :
    Alike i { n₁ with world := (n₁.world.closeRest i a).1 }
        { n₂ with world := (n₂.world.closeRest i b).1 } ∧
      (n₁.world.closeRest i a).2 = (n₂.world.closeRest i b).2 := by
  simp only [World.closeRest, htwins.status, htwins.fd]
  by_cases hconnected : b.status = .connected
  · simp only [hconnected, if_true, and_true]
    refine ⟨?_, ?_, ?_, h.addresses⟩
    · simp only [World.getElem?_modifySocket, ha, hb, if_true, Option.map_some]
      exact .some { htwins with fd := rfl, status := rfl }
    · simp [isOpen, World.getElem?_modifySocket, ha, hb]
      exact h.noDescriptor.1.trans h.noDescriptor.2.symm
    · exact h.noDescriptor
  · by_cases hhalf : b.status = .halfClosed ∧ 0 ≤ b.fd
    · rw [if_neg hconnected, if_neg hconnected, if_pos hhalf, if_pos hhalf]
      refine ⟨?_, rfl⟩
      refine h.modify ha hb { a with status := .closed } { b with status := .closed } ?_ ?_
        rfl rfl rfl { htwins with status := rfl }
      · simp [World.getElem?_modifySocket, ha]
      · simp [World.getElem?_modifySocket, hb]
    · rw [if_neg hconnected, if_neg hconnected, if_neg hhalf, if_neg hhalf]
      exact ⟨h, rfl⟩

theorem close (h : Alike i n₁ n₂) (answer : Answer) :
    Option.Rel (fun r q => Alike i r.1 q.1 ∧ r.2 = q.2) (n₁.perform i (.close answer))
      (n₂.perform i (.close answer)) := by
  apply perform_call
  rcases rel_cases h.socket with ⟨ha, hb⟩ | ⟨a, b, ha, hb, htwins⟩
  · simp only [World.closeSocket, ha, hb]
    exact .none
  · have hcalled := h.record (.closeCalled (.socket i))
    simp only [World.closeSocket, ha, hb, htwins.status, htwins.fd]
    by_cases hidle : b.status ≠ .connected ∧ b.status ≠ .halfClosed
    · rw [if_pos hidle, if_pos hidle]
      exact .some ⟨hcalled, rfl⟩
    · rw [if_neg hidle, if_neg hidle]
      by_cases hfd : 0 ≤ b.fd
      · rw [if_pos hfd, if_pos hfd]
        cases answer with
        | err errno => exact .some ⟨hcalled, rfl⟩
        | ret count =>
            have hopen := hcalled.usable ha hb
            rw [htwins.fd] at hopen
            simp only [hopen]
            by_cases husable :
                (n₂.world.record (.closeCalled (.socket i))).usable b.fd = true
            · have hrest := (hcalled.closeFd (.socket i) b.fd).closeRest ha hb htwins
              rw [if_pos husable, if_pos husable]
              exact .some ⟨hrest.1, congrArg CallOutcome.close hrest.2⟩
            · rw [if_neg husable, if_neg husable]
              exact .none
      · rw [if_neg hfd, if_neg hfd]
        have hrest := hcalled.closeRest ha hb htwins
        exact .some ⟨hrest.1, congrArg CallOutcome.close hrest.2⟩

/-- Sockets that look the same stay so, whatever is called. -/
theorem bisimulation (i : ℕ) :
    Bisimulation (NamedConfig.perform (V := V) (E := E) (F := F) i) (Alike i) := by
  intro n₁ n₂ call h
  cases call with
  | localAddr answer =>
      rcases rel_cases (h.localAddr answer) with ⟨hr, hq⟩ | ⟨r, q, hr, hq, halike, hresult⟩
      · simp only [perform, hr, hq]
        exact .none
      · simp only [perform, hr, hq]
        exact .some ⟨halike, Prod.ext (congrArg CallOutcome.address hresult) halike.shown⟩
  | write data answers => exact h.write data answers
  | close answer => exact h.close answer
  | writable answers => exact h.writable answers

end NamedConfig.Alike

end Calls

end Libasync.Reactor
