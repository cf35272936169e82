import Libasync.Foundation.Run
import Libasync.Socket.Writing

/-! # The outgoing stream of a socket

A run of calls of `write` and of readiness events on one socket that is not connecting. The
record of a run holds the bytes the kernel has accepted, all data passed to `write`, and for
each call that returned a promise where its data ends. -/

namespace Libasync.Socket

open Promise Automaton

/-- A socket with the promises of its thread, and the record of the run so far. -/
structure Stream (V E F : Type*) where
  sock : SocketData
  promises : State V E F := {}
  accepted : List Byte := []
  written : List Byte := []
  calls : List (ℕ × Ref) := []

/-- One operation, with the answers of the kernel to its `::write` calls. -/
inductive StreamOp where
  | write (data : List Byte) (answers : List Answer)
  | writable (answers : List Answer)
  deriving DecidableEq, Repr

def StreamOp.answers : StreamOp → List Answer
  | .write _ answers | .writable answers => answers

variable {V E F : Type*}

/-- A socket before its first write. -/
def Stream.start (fd : Fd) (status : Status) (promises : State V E F) : Stream V E F :=
  { sock := { fd, status }, promises }

/-- The end of the data of a call and its promise, unless the call has thrown. -/
def callEnd (end_ : ℕ) : Except SocketError Ref → List (ℕ × Ref)
  | .ok p => [(end_, p)]
  | .error _ => []

variable [Blank V]

def Stream.step (c : Stream V E F) : StreamOp → Option (Stream V E F)
  | .write data answers =>
      (c.sock.write c.promises data answers).map fun r =>
        { sock := r.sock
          promises := r.promises
          accepted := c.accepted ++ r.accepted
          written := c.written ++ data
          calls := c.calls ++ callEnd (c.written ++ data).length r.result }
  | .writable answers =>
      if c.sock.status = .connecting then none
      else
        (c.sock.onWritable c.promises answers).map fun r =>
          { c with sock := r.sock, promises := r.promises, accepted := c.accepted ++ r.accepted }

/-! ### The invariant -/

/-- What the kernel has accepted, followed by the buffer, is what has been written. -/
structure Intact (c : Stream V E F) : Prop where
  stream : c.accepted ++ c.sock.buffer = c.written
  counted : c.sock.bytesWritten = c.accepted.length

/-- The targets are sorted, and none is beyond the end of the data. -/
structure Targets (c : Stream V E F) : Prop where
  sorted : c.sock.writePromiseQueue.Pairwise fun a b => a.target ≤ b.target
  le_written : ∀ item ∈ c.sock.writePromiseQueue, item.target ≤ c.written.length

/-- The promise of a call stays pending as long as its item is queued, and the target of the item
is the end of the call's data. -/
structure Promised (c : Stream V E F) : Prop where
  known : ∀ item ∈ c.sock.writePromiseQueue, item.ctx < c.promises.heap.length
  called : ∀ call ∈ c.calls, call.2 < c.promises.heap.length
  target_eq : ∀ call ∈ c.calls, ∀ item ∈ c.sock.writePromiseQueue, item.ctx = call.2 →
    item.target = call.1
  accepted : ∀ call ∈ c.calls, c.promises.status? call.2 ≠ some .pending →
    call.1 ≤ c.accepted.length

structure StreamInv (c : Stream V E F) : Prop where
  intact : Intact c
  targets : Targets c
  promised : Promised c

omit [Blank V] in
theorem StreamInv.start (fd : Fd) (status : Status) (promises : State V E F) :
    StreamInv (Stream.start fd status promises) := by
  refine ⟨⟨rfl, rfl⟩, ⟨?_, ?_⟩, ⟨?_, ?_, ?_, ?_⟩⟩ <;> simp [Stream.start]

omit [Blank V] in
/-- Settling some promises keeps the other ones as they are. -/
theorem status?_ne_pending_of_changes {T : Ref → Prop} {s t : State V E F} (h : Changes T s t)
    {p : Ref} (ht : t.status? p ≠ some .pending) :
    T p ∨ s.status? p ≠ some .pending := by
  by_cases hT : T p
  · exact .inl hT
  · right
    intro hpending
    exact ht (h.status_eq hpending (.inr hT))

/-- The bytes of the loop move from the front of the buffer to the accepted bytes. -/
theorem FlushSpec.stream {buffer : List Byte} {flush : Flush} (h : FlushSpec buffer 0 flush)
    (accepted : List Byte) :
    (accepted ++ flush.accepted) ++ buffer.drop flush.offset = accepted ++ buffer ∧
      flush.accepted.length = flush.offset := by
  have haccepted : flush.accepted = buffer.take flush.offset := by
    simpa using h.accepted
  constructor
  · rw [haccepted, List.append_assoc, List.take_append_drop]
  · rw [haccepted, List.length_take]
    exact Nat.min_eq_left h.bound

/-- The last answer is an error other than `EAGAIN` and `EWOULDBLOCK`, after an answer that has
accepted bytes. -/
def failsLate (answers : List Answer) : Bool :=
  match answers.getLast? with
  | some (.err errno) => !errno.blocked && decide (1 < answers.length)
  | _ => false

theorem failsLate_append {before : List Answer} {errno : Errno} (h : errno.blocked = false) :
    failsLate (before ++ [.err errno]) = false ↔ before = [] := by
  rw [failsLate, List.getLast?_concat]
  cases before <;> simp [h]

/-- A failing operation whose first `::write` fails has accepted nothing. -/
theorem accepted_eq_nil {buffer : List Byte} {flush : Flush} (hspec : FlushSpec buffer 0 flush)
    {answers : List Answer} {errno : Errno}
    (h : ∃ before, answers = before ++ [.err errno] ∧ errno.blocked = false ∧
      (before = [] ↔ flush.offset = 0)) (hclean : failsLate answers = false) :
    flush.accepted = [] := by
  obtain ⟨before, rfl, hblocked, hzero⟩ := h
  have hoffset : flush.offset = 0 := hzero.mp ((failsLate_append hblocked).mp hclean)
  rw [hspec.accepted, hoffset]
  rfl

theorem Intact.step {c c' : Stream V E F} {l : StreamOp} (h : Intact c)
    (hclean : failsLate l.answers = false) (hl : c.step l = some c') : Intact c' := by
  obtain ⟨hstream, hcounted⟩ := h
  cases l with
  | write data answers =>
      obtain ⟨r, hr, rfl⟩ := Option.map_eq_some_iff.mp hl
      have hdata : c.accepted ++ (c.sock.buffer ++ data) = c.written ++ data := by
        rw [← List.append_assoc, hstream]
      cases SocketData.wrote hr with
      | failed flush errno loop exit_eq =>
          have hnil := accepted_eq_nil (writeLoop_spec loop) (writeLoop_failed loop exit_eq) hclean
          exact ⟨by simpa [hnil] using hdata, by simpa [hnil] using hcounted⟩
      | completed flush loop exit_eq =>
          obtain ⟨hbytes, hlength⟩ := (writeLoop_spec loop).stream c.accepted
          exact ⟨hbytes.trans hdata, by simp [SocketData.advance, hcounted, hlength]⟩
      | blocked flush loop exit_eq =>
          obtain ⟨hbytes, hlength⟩ := (writeLoop_spec loop).stream c.accepted
          exact ⟨hbytes.trans hdata, by simp [SocketData.advance, hcounted, hlength]⟩
  | writable answers =>
      simp only [Stream.step] at hl
      split at hl
      · cases hl
      · obtain ⟨r, hr, rfl⟩ := Option.map_eq_some_iff.mp hl
        cases SocketData.flushed hr with
        | failed flush errno loop exit_eq =>
            have hspec := flushLoop_spec (Nat.zero_le _) loop
            have hnil := accepted_eq_nil hspec (flushLoop_failed (by decide) loop exit_eq) hclean
            exact ⟨by simpa [hnil] using hstream, by simpa [hnil] using hcounted⟩
        | flushed flush items s' loop exit_eq resolve =>
            have hspec := flushLoop_spec (Nat.zero_le _) loop
            obtain ⟨hbytes, hlength⟩ := hspec.stream c.accepted
            exact ⟨hbytes.trans hstream, by simp [SocketData.advance, hcounted, hlength]⟩

omit [Blank V] in
/-- The conserved quantity: what is written is either counted or in the buffer. -/
theorem Intact.length_written {c : Stream V E F} (h : Intact c) :
    c.written.length = c.sock.bytesWritten + c.sock.buffer.length := by
  rw [← h.stream, List.length_append, h.counted]

theorem Targets.step {c c' : Stream V E F} {l : StreamOp} (h : Targets c) (hi : Intact c)
    (hl : c.step l = some c') : Targets c' := by
  obtain ⟨hsorted, hle⟩ := h
  cases l with
  | write data answers =>
      obtain ⟨r, hr, rfl⟩ := Option.map_eq_some_iff.mp hl
      have hle' : ∀ item ∈ c.sock.writePromiseQueue, item.target ≤ (c.written ++ data).length := by
        intro item hitem
        rw [List.length_append]
        exact Nat.le_add_right_of_le (hle item hitem)
      cases SocketData.wrote hr with
      | failed flush errno loop exit_eq => exact ⟨hsorted, hle'⟩
      | completed flush loop exit_eq => exact ⟨hsorted, hle'⟩
      | blocked flush loop exit_eq =>
          have htarget : c.sock.bytesWritten + flush.offset +
              ((c.sock.buffer ++ data).drop flush.offset).length = (c.written ++ data).length := by
            have hbound := (writeLoop_spec loop).bound
            have hlength := hi.length_written
            simp only [List.length_drop, List.length_append] at hbound ⊢
            omega
          refine ⟨List.pairwise_append.mpr ⟨hsorted, by simp, ?_⟩, ?_⟩
          · intro item hitem new hnew
            rw [List.mem_singleton.mp hnew, htarget]
            exact hle' item hitem
          · intro item hitem
            rcases List.mem_append.mp hitem with hitem | hitem
            · exact hle' item hitem
            · rw [List.mem_singleton.mp hitem, htarget]
  | writable answers =>
      simp only [Stream.step] at hl
      split at hl
      · cases hl
      · obtain ⟨r, hr, rfl⟩ := Option.map_eq_some_iff.mp hl
        cases SocketData.flushed hr with
        | failed flush errno loop exit_eq => exact ⟨hsorted, hle⟩
        | flushed flush items s' loop exit_eq resolve =>
            obtain ⟨reached, hsplit, -⟩ := resolveWritePromises_spec
              (c.sock.bytesWritten + flush.offset) c.sock.writePromiseQueue c.promises
            rw [resolve] at hsplit
            rw [hsplit] at hsorted hle
            exact ⟨(List.pairwise_append.mp hsorted).2.1,
              fun item hitem => hle item (List.mem_append_right reached hitem)⟩

omit [Blank V] in
/-- A call returns a new promise, which is queued with the end of the call's data or not at
all. -/
theorem Promised.add {c c' : Stream V E F} (h : Promised c) {end_ : ℕ}
    (items : List PromiseQueueItem)
    (hchanges : Changes (fun p => c.promises.heap.length ≤ p) c.promises c'.promises)
    (hlength : c.promises.heap.length < c'.promises.heap.length)
    (hcalls : c'.calls = c.calls ++ [(end_, c.promises.heap.length)])
    (hqueue : c'.sock.writePromiseQueue = c.sock.writePromiseQueue ++ items)
    (hitems : ∀ item ∈ items, item = ⟨end_, c.promises.heap.length⟩)
    (haccepted : c.accepted.length ≤ c'.accepted.length)
    (hdone : c'.promises.status? c.promises.heap.length ≠ some .pending →
      end_ ≤ c'.accepted.length) : Promised c' := by
  refine ⟨?_, ?_, ?_, ?_⟩
  · intro item hitem
    rw [hqueue, List.mem_append] at hitem
    rcases hitem with hitem | hitem
    · exact Nat.lt_trans (h.known item hitem) hlength
    · rw [hitems item hitem]
      exact hlength
  · intro call hcall
    rw [hcalls, List.mem_append, List.mem_singleton] at hcall
    rcases hcall with hcall | hcall
    · exact Nat.lt_trans (h.called call hcall) hlength
    · rw [hcall]
      exact hlength
  · intro call hcall item hitem hctx
    rw [hcalls, List.mem_append, List.mem_singleton] at hcall
    rw [hqueue, List.mem_append] at hitem
    rcases hcall with hcall | hcall
    · rcases hitem with hitem | hitem
      · exact h.target_eq call hcall item hitem hctx
      · rw [hitems item hitem] at hctx
        exact absurd hctx.symm (Nat.ne_of_lt (h.called call hcall))
    · rcases hitem with hitem | hitem
      · rw [hcall] at hctx
        exact absurd hctx (Nat.ne_of_lt (h.known item hitem))
      · rw [hitems item hitem, hcall]
  · intro call hcall hstatus
    rw [hcalls, List.mem_append, List.mem_singleton] at hcall
    rcases hcall with hcall | hcall
    · rcases status?_ne_pending_of_changes hchanges hstatus with hnew | hold
      · exact absurd (h.called call hcall) (Nat.not_lt.mpr hnew)
      · exact Nat.le_trans (h.accepted call hcall hold) haccepted
    · rw [hcall] at hstatus ⊢
      exact hdone hstatus

omit [Blank V] in
/-- The reactor settles promises whose targets are reached. -/
theorem Promised.reach {c c' : Stream V E F} (h : Promised c) (reached : List PromiseQueueItem)
    (hchanges : Changes (fun p => ∃ item ∈ reached, item.ctx = p) c.promises c'.promises)
    (hcalls : c'.calls = c.calls)
    (hqueue : c.sock.writePromiseQueue = reached ++ c'.sock.writePromiseQueue)
    (hreached : ∀ item ∈ reached, item.target ≤ c'.accepted.length)
    (haccepted : c.accepted.length ≤ c'.accepted.length) : Promised c' := by
  have hmem : ∀ item ∈ c'.sock.writePromiseQueue, item ∈ c.sock.writePromiseQueue := by
    intro item hitem
    rw [hqueue]
    exact List.mem_append_right reached hitem
  refine ⟨?_, ?_, ?_, ?_⟩
  · intro item hitem
    exact Nat.lt_of_lt_of_le (h.known item (hmem item hitem)) hchanges.length_le
  · intro call hcall
    rw [hcalls] at hcall
    exact Nat.lt_of_lt_of_le (h.called call hcall) hchanges.length_le
  · intro call hcall item hitem hctx
    rw [hcalls] at hcall
    exact h.target_eq call hcall item (hmem item hitem) hctx
  · intro call hcall hstatus
    rw [hcalls] at hcall
    rcases status?_ne_pending_of_changes hchanges hstatus with ⟨item, hitem, hctx⟩ | hold
    · have hqueued : item ∈ c.sock.writePromiseQueue := by
        rw [hqueue]
        exact List.mem_append_left _ hitem
      rw [← h.target_eq call hcall item hqueued hctx]
      exact hreached item hitem
    · exact Nat.le_trans (h.accepted call hcall hold) haccepted

theorem Promised.step {c c' : Stream V E F} {l : StreamOp} (h : Promised c) (hi' : Intact c')
    (hl : c.step l = some c') : Promised c' := by
  cases l with
  | write data answers =>
      obtain ⟨r, hr, rfl⟩ := Option.map_eq_some_iff.mp hl
      cases SocketData.wrote hr with
      | failed flush errno loop exit_eq =>
          refine ⟨h.known, ?_, ?_, ?_⟩ <;> simp only [callEnd, List.append_nil]
          · exact h.called
          · exact h.target_eq
          · intro call hcall hstatus
            rw [List.length_append]
            exact Nat.le_add_right_of_le (h.accepted call hcall hstatus)
      | completed flush loop exit_eq =>
          have hchanges := c.promises.resolvedVoid_changes
            (T := fun p => c.promises.heap.length ≤ p) (Nat.le_refl _)
          refine h.add [] hchanges ?_ rfl (by simp [SocketData.advance]) (by simp)
            (by simp) ?_
          · exact Nat.lt_of_lt_of_le (by simp [State.create])
              ((c.promises.create.1).resolveImpl_changes (T := fun _ => True) _ Blank.blank
                trivial).length_le
          · intro _
            have hempty : (c.sock.buffer ++ data).drop flush.offset = [] := by
              rw [(writeLoop_spec loop).completed exit_eq, List.drop_length]
            have hlength := congrArg List.length hi'.stream
            simp only [SocketData.advance, hempty, List.append_nil] at hlength
            exact Nat.le_of_eq hlength.symm
      | blocked flush loop exit_eq =>
          have hcreate : Change (fun p => c.promises.heap.length ≤ p) c.promises
              c.promises.create.1 := .alloc c.promises .pending
          have htarget : c.sock.bytesWritten + flush.offset +
              ((c.sock.buffer ++ data).drop flush.offset).length = (c.written ++ data).length :=
            hi'.length_written.symm
          refine h.add _ (.single hcreate) (by simp [State.create]) rfl rfl ?_ (by simp) ?_
          · intro item hitem
            rw [List.mem_singleton.mp hitem, htarget]
          · intro hstatus
            exact absurd (by simp [State.status?, State.create]) hstatus
  | writable answers =>
      simp only [Stream.step] at hl
      split at hl
      · cases hl
      · obtain ⟨r, hr, rfl⟩ := Option.map_eq_some_iff.mp hl
        cases SocketData.flushed hr with
        | failed flush errno loop exit_eq =>
            exact h.reach [] .refl rfl rfl (by simp) (by simp)
        | flushed flush items s' loop exit_eq resolve =>
            obtain ⟨reached, hsplit, hle, -, hchanges⟩ := resolveWritePromises_spec
              (c.sock.bytesWritten + flush.offset) c.sock.writePromiseQueue c.promises
            rw [resolve] at hsplit hchanges
            have hcounted : c.sock.bytesWritten + flush.offset =
                (c.accepted ++ flush.accepted).length := hi'.counted
            exact h.reach reached hchanges rfl hsplit (fun item hitem => hcounted ▸ hle item hitem)
              (by simp)

theorem StreamInv.step {c c' : Stream V E F} {l : StreamOp} (h : StreamInv c)
    (hclean : failsLate l.answers = false) (hl : c.step l = some c') : StreamInv c' := by
  have hi' := h.intact.step hclean hl
  exact ⟨hi', h.targets.step h.intact hl, h.promised.step hi' hl⟩

/-- The invariant holds in every run in which no operation fails after it has sent bytes. -/
theorem StreamInv.run {c c' : Stream V E F} {ls : List StreamOp} (h : StreamInv c)
    (hclean : ∀ l ∈ ls, failsLate l.answers = false) (hrun : run Stream.step c ls = some c') :
    StreamInv c' := by
  have hguard : EachStep Stream.step (fun _ l => failsLate l.answers = false) c ls := by
    rintro before l after t rfl -
    exact hclean l (by simp)
  exact run_invariant (fun c l c' hc hl hstep => hc.step hl hstep) h hguard hrun

/-- No item that is reached stays in the queue over a readiness event. -/
theorem lt_target_of_writable {c c' : Stream V E F} {answers : List Answer} (h : Targets c)
    (hl : c.step (.writable answers) = some c')
    (hanswers : ∀ errno, .err errno ∈ answers → errno.blocked = true) :
    ∀ item ∈ c'.sock.writePromiseQueue, c'.sock.bytesWritten < item.target := by
  simp only [Stream.step] at hl
  split at hl
  · cases hl
  · obtain ⟨r, hr, rfl⟩ := Option.map_eq_some_iff.mp hl
    cases SocketData.flushed hr with
    | failed flush errno loop exit_eq =>
        obtain ⟨before, rfl, hblocked, -⟩ := flushLoop_failed (by decide) loop exit_eq
        simp [hanswers errno (by simp)] at hblocked
    | flushed flush items s' loop exit_eq resolve =>
        have hsorted := lt_target_of_sorted (n := c.sock.bytesWritten + flush.offset)
          (s := c.promises) h.sorted
        rw [resolve] at hsorted
        exact hsorted

/-- In every run of writes and readiness events in which `::write` accepts bytes or would block,
the bytes sent and the buffer are the data in order, the counter counts the bytes sent, the
targets are sorted, a promise is settled only when the data of its call and of all calls before
it have been accepted, and a readiness event leaves no reached target behind. -/
theorem outgoing_stream_sound {fd : Fd} {status : Status} {promises : State V E F}
    {ls : List StreamOp} {c : Stream V E F}
    (hrun : run Stream.step (Stream.start fd status promises) ls = some c)
    (hanswers : ∀ l ∈ ls, ∀ errno, .err errno ∈ l.answers → errno.blocked = true) :
    c.accepted ++ c.sock.buffer = c.written ∧
      c.sock.bytesWritten = c.accepted.length ∧
      (c.sock.writePromiseQueue.map PromiseQueueItem.target).Pairwise (· ≤ ·) ∧
      (∀ call ∈ c.calls, c.promises.status? call.2 ≠ some .pending →
        call.1 ≤ c.accepted.length) ∧
      ∀ before answers, ls = before ++ [.writable answers] →
        ∀ item ∈ c.sock.writePromiseQueue, c.sock.bytesWritten < item.target := by
  have hclean : ∀ l ∈ ls, failsLate l.answers = false := by
    intro l hl
    unfold failsLate
    split
    · rename_i errno hlast
      simp [hanswers l hl errno (List.mem_of_getLast? hlast)]
    · rfl
  have hinv := (StreamInv.start fd status promises).run hclean hrun
  refine ⟨hinv.intact.stream, hinv.intact.counted, List.pairwise_map.mpr hinv.targets.sorted,
    hinv.promised.accepted, ?_⟩
  rintro before answers rfl
  obtain ⟨c₁, hc₁, hlast⟩ := run_append_eq_some Stream.step hrun
  have hbefore := (StreamInv.start fd status promises).run
    (fun l hl => hclean l (List.mem_append_left _ hl)) hc₁
  obtain ⟨c₂, hc₂, hnil⟩ := run_cons_eq_some Stream.step hlast
  obtain rfl : c₂ = c := Option.some.inj hnil
  exact lt_target_of_writable hbefore.targets hc₂ (hanswers (.writable answers) (by simp))

/-- Two writes, the first of which is cut off, and a readiness event that sends the rest. -/
theorem outgoing_stream_sound_sample : ∃ c : Stream ℕ ℕ SampleHandler,
    c.accepted ++ c.sock.buffer = [1, 2, 3, 4] ∧ c.sock.bytesWritten = c.accepted.length := by
  let ls : List StreamOp :=
    [.write [1, 2, 3] [.ret 2, .err .again], .write [4] [.err .wouldBlock], .writable [.ret 2]]
  obtain ⟨c, hrun, hwritten⟩ : ∃ c : Stream ℕ ℕ SampleHandler,
      run Stream.step (Stream.start 3 .connected {}) ls = some c ∧ c.written = [1, 2, 3, 4] :=
    ⟨_, rfl, rfl⟩
  have hanswers : ∀ l ∈ ls, ∀ errno, .err errno ∈ l.answers → errno.blocked = true := by
    simp [ls, StreamOp.answers, Errno.blocked]
  obtain ⟨hstream, hcounted, -⟩ := outgoing_stream_sound hrun hanswers
  exact ⟨c, hstream.trans hwritten, hcounted⟩

end Libasync.Socket
