import Libasync.Promise.FirstCall
import Libasync.Socket.Stream

/-! # The order in which write promises settle

The write branch of the reactor resolves the promises at the front of the queue whose targets are
reached. `Socket::write` sends the same buffer, and looks at no queued promise. -/

namespace Libasync.Socket

open Promise Automaton

variable {V E F : Type*}

/-- An operation of the stream, or another function or branch, which moves the socket on but leaves
its buffer, its counter and its queue. -/
inductive SocketOp where
  | stream (op : StreamOp)
  | moves (fd : Fd) (status : Status) (bytesRead : ℕ)
  deriving DecidableEq, Repr

def Stream.move (c : Stream V E F) (fd : Fd) (status : Status) (bytesRead : ℕ) : Stream V E F :=
  { c with sock := { c.sock with fd, status, bytesRead } }

def Stream.socketStep [Blank V] (c : Stream V E F) : SocketOp → Option (Stream V E F)
  | .stream op => c.step op
  | .moves fd status bytesRead => some (c.move fd status bytesRead)

/-! ### What is to hold -/

def IsResolved (s : State V E F) (p : Ref) : Prop := ∃ v, s.status? p = some (.resolved v)

/-- No promise in the queue has a target that is reached, and of two promises that calls of
`write` have returned the later one is not resolved while the earlier one is pending. -/
structure SettlesInOrder (c : Stream V E F) : Prop where
  prompt : ∀ item ∈ c.sock.writePromiseQueue, c.sock.bytesWritten < item.target
  inOrder : (c.calls.map Prod.snd).Pairwise fun p q =>
    IsResolved c.promises q → c.promises.status? p ≠ some .pending

/-- The call of `write` sends what a queued promise waits for, or it has to wait with nothing to
send. -/
def SocketData.overtakes (sock : SocketData) (data : List Byte) (answers : List Answer) : Bool :=
  !(exitOf answers).isFailed &&
    (sock.writePromiseQueue.any (fun item =>
        decide (item.target ≤ sock.bytesWritten + sent answers))
      || decide (sock.buffer ++ data = [] ∧ exitOf answers = .blocked))

def Stream.KeepsQueue (c : Stream V E F) : SocketOp → Prop
  | .stream (.write data answers) => c.sock.overtakes data answers = false
  | _ => True

instance (c : Stream V E F) : (op : SocketOp) → Decidable (c.KeepsQueue op)
  | .stream (.write _ _) => inferInstanceAs (Decidable (_ = _))
  | .stream (.writable _) | .moves .. => .isTrue trivial

/-! ### The invariant -/

/-- The calls whose promises are resolved come before those whose promises are queued, and the
targets are sorted and within the data. -/
structure Queued (c : Stream V E F) (done : List Ref) : Prop where
  calls : c.calls.map Prod.snd = done ++ c.sock.writePromiseQueue.map PromiseQueueItem.ctx
  resolved : ∀ p ∈ done, IsResolved c.promises p
  pending : ∀ item ∈ c.sock.writePromiseQueue, c.promises.status? item.ctx = some .pending
  nodup : (c.sock.writePromiseQueue.map PromiseQueueItem.ctx).Nodup
  sorted : c.sock.writePromiseQueue.Pairwise fun a b => a.target ≤ b.target
  bounded : ∀ item ∈ c.sock.writePromiseQueue,
    item.target ≤ c.sock.bytesWritten + c.sock.buffer.length
  prompt : ∀ item ∈ c.sock.writePromiseQueue, c.sock.bytesWritten < item.target

theorem Queued.start (fd : Fd) (status : Status) (promises : State V E F) :
    Queued (Stream.start fd status promises) [] := by
  refine ⟨rfl, ?_, ?_, ?_, ?_, ?_, ?_⟩ <;> simp [Stream.start]

theorem Queued.settlesInOrder {c : Stream V E F} {done : List Ref} (h : Queued c done) :
    SettlesInOrder c := by
  refine ⟨h.prompt, ?_⟩
  rw [h.calls, List.pairwise_append]
  refine ⟨?_, ?_, ?_⟩
  · refine List.pairwise_of_forall_mem_list ?_
    intro p hp q _ _ hpending
    obtain ⟨v, hv⟩ := h.resolved p hp
    rw [hv] at hpending
    cases hpending
  · refine List.pairwise_of_forall_mem_list ?_
    rintro p - q hq ⟨v, hv⟩
    obtain ⟨item, hitem, rfl⟩ := List.mem_map.mp hq
    rw [h.pending item hitem] at hv
    cases hv
  · rintro p - q hq ⟨v, hv⟩
    obtain ⟨item, hitem, rfl⟩ := List.mem_map.mp hq
    rw [h.pending item hitem] at hv
    cases hv

/-! ### What a step keeps -/

theorem SocketData.overtakes_eq_false {sock : SocketData} {data : List Byte} {answers : List Answer}
    (h : sock.overtakes data answers = false) (hexit : (exitOf answers).isFailed = false) :
    (∀ item ∈ sock.writePromiseQueue, sock.bytesWritten + sent answers < item.target) ∧
      (exitOf answers = .blocked → sock.buffer ++ data ≠ []) := by
  simp only [overtakes, hexit, Bool.not_false, Bool.true_and, Bool.or_eq_false_iff,
    List.any_eq_false, decide_eq_true_eq, decide_eq_false_iff_not, not_and] at h
  refine ⟨fun item hitem => Nat.lt_of_not_le (h.1 item hitem), ?_⟩
  intro hblocked hnil
  exact h.2 hnil hblocked

theorem IsResolved.changes {T : Ref → Prop} {s t : State V E F} {p : Ref} (h : IsResolved s p)
    (hst : Changes T s t) : IsResolved t p := by
  obtain ⟨v, hv⟩ := h
  exact ⟨v, hst.status_eq hv (.inl (by simp))⟩

section

variable [Blank V] {c c' : Stream V E F} {done : List Ref}

omit [Blank V] in
theorem Queued.move (h : Queued c done) (fd : Fd) (status : Status) (bytesRead : ℕ) :
    Queued (c.move fd status bytesRead) done :=
  ⟨h.calls, h.resolved, h.pending, h.nodup, h.sorted, h.bounded, h.prompt⟩

omit [Blank V] in
/-- A new promise that is already resolved is returned while no promise is queued. -/
theorem Queued.settle (h : Queued c done) {p : Ref} {T : Ref → Prop}
    (hcalls : c'.calls.map Prod.snd = c.calls.map Prod.snd ++ [p])
    (hbefore : c.sock.writePromiseQueue = []) (hafter : c'.sock.writePromiseQueue = [])
    (hchanges : Changes T c.promises c'.promises) (hresolved : IsResolved c'.promises p) :
    Queued c' (done ++ [p]) := by
  refine ⟨?_, ?_, ?_, ?_, ?_, ?_, ?_⟩
  · simp [hcalls, h.calls, hbefore, hafter]
  · intro q hq
    rcases List.mem_append.mp hq with hold | hlast
    · exact (h.resolved q hold).changes hchanges
    · rw [List.mem_singleton.mp hlast]
      exact hresolved
  all_goals simp [hafter]

omit [Blank V] in
/-- A new promise is queued behind the others, with the end of the data as its target. -/
theorem Queued.enqueue (h : Queued c done) {item : PromiseQueueItem}
    (hcalls : c'.calls.map Prod.snd = c.calls.map Prod.snd ++ [item.ctx])
    (hqueue : c'.sock.writePromiseQueue = c.sock.writePromiseQueue ++ [item])
    (hchange : Change (fun p => c.promises.heap.length ≤ p) c.promises c'.promises)
    (hnew : item.ctx = c.promises.heap.length)
    (hpending : c'.promises.status? item.ctx = some .pending)
    (htarget : item.target = c'.sock.bytesWritten + c'.sock.buffer.length)
    (hdata : c.sock.bytesWritten + c.sock.buffer.length ≤ item.target)
    (hlater : ∀ item ∈ c.sock.writePromiseQueue, c'.sock.bytesWritten < item.target)
    (hleft : c'.sock.buffer ≠ []) : Queued c' done := by
  have hbounded (old : PromiseQueueItem) (hold : old ∈ c.sock.writePromiseQueue) :
      old.target ≤ item.target := Nat.le_trans (h.bounded old hold) hdata
  refine ⟨?_, ?_, ?_, ?_, ?_, ?_, ?_⟩
  · simp [hcalls, h.calls, hqueue]
  · intro p hp
    exact (h.resolved p hp).changes (.single hchange)
  · intro old hmem
    rw [hqueue] at hmem
    rcases List.mem_append.mp hmem with hold | hlast
    · have hpending := h.pending old hold
      exact hchange.status_eq hpending (.inr (Nat.not_le.mpr (lt_of_status? hpending)))
    · rw [List.mem_singleton.mp hlast]
      exact hpending
  · rw [hqueue, List.map_append, List.nodup_append']
    refine ⟨h.nodup, List.nodup_singleton _, ?_⟩
    intro p hp hlast
    obtain ⟨old, hold, rfl⟩ := List.mem_map.mp hp
    have hlt := lt_of_status? (h.pending old hold)
    have heq : old.ctx = item.ctx := by simpa using hlast
    exact absurd (heq.trans hnew) (Nat.ne_of_lt hlt)
  · rw [hqueue]
    refine List.pairwise_append.mpr ⟨h.sorted, List.pairwise_singleton _ _, ?_⟩
    intro old hold new hlast
    rw [List.mem_singleton.mp hlast]
    exact hbounded old hold
  · intro old hmem
    rw [hqueue] at hmem
    rw [← htarget]
    rcases List.mem_append.mp hmem with hold | hlast
    · exact hbounded old hold
    · rw [List.mem_singleton.mp hlast]
  · intro old hmem
    rw [hqueue] at hmem
    rcases List.mem_append.mp hmem with hold | hlast
    · exact hlater old hold
    · rw [List.mem_singleton.mp hlast, htarget]
      exact Nat.lt_add_of_pos_right (List.length_pos_iff.mpr hleft)

theorem Queued.write {data : List Byte} {answers : List Answer} (h : Queued c done)
    (hguard : c.sock.overtakes data answers = false)
    (hl : c.step (.write data answers) = some c') : ∃ done', Queued c' done' := by
  obtain ⟨r, hr, rfl⟩ := Option.map_eq_some_iff.mp hl
  cases SocketData.wrote hr with
  | failed flush errno loop exit_eq =>
      refine ⟨done, ?_, h.resolved, h.pending, h.nodup, h.sorted, ?_, h.prompt⟩
      · simpa [callEnd] using h.calls
      · intro item hitem
        have hbounded := h.bounded item hitem
        simp only [List.length_append]
        omega
  | completed flush loop exit_eq =>
      have hexit : exitOf answers = .completed := (writeLoop_exit loop).symm.trans exit_eq
      have hsent := writeLoop_offset loop
      have hall := (writeLoop_spec loop).completed exit_eq
      obtain ⟨hqueue, -⟩ := SocketData.overtakes_eq_false hguard (by rw [hexit]; rfl)
      -- everything is sent, so a queued promise would have been overtaken
      have hnil : c.sock.writePromiseQueue = [] := by
        apply List.eq_nil_iff_forall_not_mem.mpr
        intro item hitem
        have hbounded := h.bounded item hitem
        have hlater := hqueue item hitem
        rw [List.length_append] at hall
        omega
      have hpending : c.promises.create.1.status? c.promises.heap.length = some .pending := by
        simp [State.status?, State.create]
      refine ⟨_, h.settle (T := fun p => c.promises.heap.length ≤ p) ?_ hnil hnil
        (c.promises.resolvedVoid_changes (Nat.le_refl _))
        ⟨Blank.blank, State.settle_status? _ hpending⟩⟩
      simp [callEnd]
  | blocked flush loop exit_eq =>
      have hexit : exitOf answers = .blocked := (writeLoop_exit loop).symm.trans exit_eq
      have hsent := writeLoop_offset loop
      obtain ⟨hqueue, hdata⟩ := SocketData.overtakes_eq_false hguard (by rw [hexit]; rfl)
      have hleft := writeLoop_blocked loop exit_eq (hdata hexit)
      rw [List.length_append] at hleft
      refine ⟨done, h.enqueue ?_ rfl
        (.alloc c.promises .pending) rfl ?_ rfl ?_ ?_ ?_⟩
      · simp [callEnd]
      · simp [State.create, State.status?]
      · simp only [List.length_drop, List.length_append]
        omega
      · intro item hitem
        have hlater := hqueue item hitem
        simp only [SocketData.advance]
        omega
      · rw [← List.length_pos_iff]
        simp only [SocketData.advance, List.length_drop, List.length_append]
        omega

/-- The loop of the write branch settles the promises whose targets are reached. -/
theorem resolveWritePromises_resolves {n : ℕ} {items : List PromiseQueueItem} {s : State V E F}
    (hnodup : (items.map PromiseQueueItem.ctx).Nodup)
    (hpending : ∀ item ∈ items, s.status? item.ctx = some .pending) {item : PromiseQueueItem}
    (hitem : item ∈ items) : item ∈ (resolveWritePromises n items s).1 ∨
      IsResolved (resolveWritePromises n items s).2 item.ctx := by
  induction items generalizing s with
  | nil => cases hitem
  | cons head items ih =>
      by_cases htarget : n < head.target
      · left
        simpa only [resolveWritePromises, htarget, if_true] using hitem
      · simp only [resolveWritePromises, htarget, if_false]
        obtain ⟨hhead, hrest⟩ := List.nodup_cons.mp hnodup
        have hchanges := s.resolveImpl_changes (T := (· = head.ctx)) head.ctx Blank.blank rfl
        have hlater : ∀ item ∈ items, (s.resolveImpl head.ctx Blank.blank).status? item.ctx =
            some .pending := by
          intro item hitem
          refine hchanges.status_eq (hpending item (List.mem_cons_of_mem head hitem)) (.inr ?_)
          exact fun heq => hhead (heq ▸ List.mem_map_of_mem hitem)
        rcases List.mem_cons.mp hitem with rfl | hitem
        · right
          have hresolved : IsResolved (s.resolveImpl item.ctx Blank.blank) item.ctx :=
            ⟨Blank.blank, State.settle_status? _ (hpending item (by simp))⟩
          obtain ⟨reached, -, -, -, hflush⟩ :=
            resolveWritePromises_spec n items (s.resolveImpl item.ctx Blank.blank)
          exact hresolved.changes hflush
        · exact ih hrest hlater hitem

theorem Queued.writable {answers : List Answer} (h : Queued c done)
    (hl : c.step (.writable answers) = some c') : ∃ done', Queued c' done' := by
  simp only [Stream.step] at hl
  split at hl
  · cases hl
  · obtain ⟨r, hr, rfl⟩ := Option.map_eq_some_iff.mp hl
    cases SocketData.flushed hr with
    | failed flush errno loop exit_eq =>
        exact ⟨done, h.calls, h.resolved, h.pending, h.nodup, h.sorted, h.bounded, h.prompt⟩
    | flushed flush items s' loop exit_eq resolve =>
        obtain ⟨reached, hsplit, -, -, hchanges⟩ := resolveWritePromises_spec
          (c.sock.bytesWritten + flush.offset) c.sock.writePromiseQueue c.promises
        have hprompt := lt_target_of_sorted (n := c.sock.bytesWritten + flush.offset)
          (s := c.promises) h.sorted
        have hresolves {item : PromiseQueueItem} (hitem : item ∈ c.sock.writePromiseQueue) :=
          resolveWritePromises_resolves (n := c.sock.bytesWritten + flush.offset) h.nodup
            h.pending hitem
        rw [resolve] at hsplit hchanges hprompt
        simp only [resolve] at hresolves
        have hnodup := h.nodup
        have hsorted := h.sorted
        rw [hsplit, List.map_append, List.nodup_append'] at hnodup
        rw [hsplit, List.pairwise_append] at hsorted
        obtain ⟨-, hnodup', hdisjoint⟩ := hnodup
        refine ⟨done ++ reached.map PromiseQueueItem.ctx, ?_, ?_, ?_, hnodup', hsorted.2.1, ?_,
          hprompt⟩
        · simp only [h.calls, hsplit, List.map_append, List.append_assoc]
        · intro p hp
          rcases List.mem_append.mp hp with hold | hnew
          · exact (h.resolved p hold).changes hchanges
          · obtain ⟨item, hitem, rfl⟩ := List.mem_map.mp hnew
            refine (hresolves (by rw [hsplit]; exact List.mem_append_left _ hitem)).resolve_left ?_
            intro hleft
            exact hdisjoint (List.mem_map_of_mem hitem) (List.mem_map_of_mem hleft)
        · intro item hitem
          have hold : item ∈ c.sock.writePromiseQueue := by
            rw [hsplit]
            exact List.mem_append_right _ hitem
          refine hchanges.status_eq (h.pending item hold) (.inr ?_)
          rintro ⟨other, hother, heq⟩
          apply hdisjoint (List.mem_map_of_mem hother)
          rw [heq]
          exact List.mem_map_of_mem hitem
        · intro item hitem
          have hbounded := h.bounded item (by rw [hsplit]; exact List.mem_append_right _ hitem)
          have hbound := (flushLoop_spec (Nat.zero_le _) loop).bound
          simp only [SocketData.advance, List.length_drop]
          omega

theorem Queued.step {op : SocketOp} (h : ∃ done, Queued c done) (hguard : c.KeepsQueue op)
    (hl : c.socketStep op = some c') : ∃ done, Queued c' done := by
  obtain ⟨done, h⟩ := h
  cases op with
  | stream op =>
      cases op with
      | write data answers => exact h.write hguard hl
      | writable answers => exact h.writable hl
  | moves fd status bytesRead =>
      obtain rfl : c.move fd status bytesRead = c' := Option.some.inj hl
      exact ⟨done, h.move fd status bytesRead⟩

/-- A call of `write` that sends what a queued promise waits for leaves the promise in the queue,
and so does one that waits for nothing. -/
theorem not_prompt_of_overtakes {data : List Byte} {answers : List Answer}
    (hl : c.step (.write data answers) = some c')
    (hover : c.sock.overtakes data answers = true) :
    ∃ item ∈ c'.sock.writePromiseQueue, item.target ≤ c'.sock.bytesWritten := by
  obtain ⟨r, hr, rfl⟩ := Option.map_eq_some_iff.mp hl
  simp only [SocketData.overtakes, Bool.and_eq_true, Bool.not_eq_true', Bool.or_eq_true,
    List.any_eq_true, decide_eq_true_eq] at hover
  obtain ⟨hexit, hover⟩ := hover
  cases SocketData.wrote hr with
  | failed flush errno loop exit_eq =>
      rw [← writeLoop_exit loop, exit_eq] at hexit
      cases hexit
  | completed flush loop exit_eq =>
      have hsent := writeLoop_offset loop
      rcases hover with ⟨item, hitem, htarget⟩ | ⟨-, hblocked⟩
      · refine ⟨item, hitem, ?_⟩
        simpa only [SocketData.advance, hsent] using htarget
      · rw [← writeLoop_exit loop, exit_eq] at hblocked
        cases hblocked
  | blocked flush loop exit_eq =>
      have hsent := writeLoop_offset loop
      rcases hover with ⟨item, hitem, htarget⟩ | ⟨hnil, -⟩
      · refine ⟨item, List.mem_append_left _ hitem, ?_⟩
        simpa only [SocketData.advance, hsent] using htarget
      · refine ⟨_, List.mem_append_right _ (List.mem_singleton_self _), ?_⟩
        simp [SocketData.advance, hnil]

/-- In every state of a run the reached promises are settled and the promises settle in call order
exactly when no call of `write` overtakes the queue. -/
theorem write_promises_settle_in_order_iff {fd : Fd} {status : Status} {promises : State V E F}
    {ls : List SocketOp}
    (hrun : run Stream.socketStep (Stream.start fd status promises) ls = some c) :
    (∀ before c', before <+: ls →
      run Stream.socketStep (Stream.start fd status promises) before = some c' →
        SettlesInOrder c') ↔
      EachStep Stream.socketStep Stream.KeepsQueue (Stream.start fd status promises) ls := by
  constructor
  · intro hall before op after c₁ hls hc₁
    cases op with
    | moves fd status bytesRead => exact trivial
    | stream op =>
        cases op with
        | writable answers => exact trivial
        | write data answers =>
            rw [hls] at hrun
            obtain ⟨c₁', hc₁', hrest⟩ := run_append_eq_some _ hrun
            obtain rfl : c₁ = c₁' := Option.some.inj (hc₁.symm.trans hc₁')
            obtain ⟨c₂, hc₂, -⟩ := run_cons_eq_some _ hrest
            have hprompt := (hall (before ++ [.stream (.write data answers)]) c₂ (by simp [hls])
              (run_concat _ hc₁ hc₂)).prompt
            cases hover : c₁.sock.overtakes data answers with
            | false => exact hover
            | true =>
                obtain ⟨item, hitem, htarget⟩ := not_prompt_of_overtakes hc₂ hover
                exact absurd htarget (Nat.not_le.mpr (hprompt item hitem))
  · intro hguard before c' hbefore hc'
    have hstart : ∃ done, Queued (Stream.start fd status promises) done := ⟨[], .start ..⟩
    obtain ⟨done, hqueued⟩ := run_invariant (I := fun c => ∃ done, Queued c done)
      (fun _ _ _ h hg hl => Queued.step h hg hl) hstart (hguard.of_prefix hbefore) hc'
    exact hqueued.settlesInOrder

end

/-- The first write is cut off while the socket is connecting, and a readiness event sends the
rest. -/
def flushedRun : List SocketOp :=
  [.stream (.write [1, 2] [.err .again]), .moves 3 .connected 0,
    .stream (.write [3] [.ret 1, .err .again]), .stream (.writable [.ret 2])]

theorem write_promises_settle_in_order_iff_sample : ∃ c : Stream ℕ ℕ SampleHandler,
    run Stream.socketStep (Stream.start 3 .connecting {}) flushedRun = some c ∧
      c.calls.length = 2 ∧ SettlesInOrder c := by
  obtain ⟨c, hrun, hcalls⟩ : ∃ c : Stream ℕ ℕ SampleHandler,
      run Stream.socketStep (Stream.start 3 .connecting {}) flushedRun = some c ∧
        c.calls.length = 2 := ⟨_, rfl, rfl⟩
  have hall := (write_promises_settle_in_order_iff hrun).mpr (by decide +kernel)
  exact ⟨c, hrun, hcalls, hall _ c List.prefix_rfl hrun⟩

/-- The second write sends the byte of the first one as well. -/
def overtakingRun : List SocketOp :=
  [.stream (.write [1] [.err .again]), .stream (.write [2] [.ret 2])]

/-- The promise of the second call is resolved, that of the first one is pending, and its target is
reached. -/
theorem overtakingRun_not_in_order : ∃ c : Stream ℕ ℕ SampleHandler,
    run Stream.socketStep (Stream.start 3 .connected {}) overtakingRun = some c ∧
      c.calls.map Prod.snd = [0, 1] ∧ c.promises.status? 0 = some .pending ∧
      c.promises.status? 1 = some (.resolved Blank.blank) ∧
      c.sock.writePromiseQueue = [⟨1, 0⟩] ∧ c.sock.bytesWritten = 2 ∧ ¬ SettlesInOrder c := by
  obtain ⟨c, hrun, hcalls, hfirst, hsecond, hqueue, hbytes⟩ : ∃ c : Stream ℕ ℕ SampleHandler,
      run Stream.socketStep (Stream.start 3 .connected {}) overtakingRun = some c ∧
        c.calls.map Prod.snd = [0, 1] ∧ c.promises.status? 0 = some .pending ∧
        c.promises.status? 1 = some (.resolved Blank.blank) ∧
        c.sock.writePromiseQueue = [⟨1, 0⟩] ∧ c.sock.bytesWritten = 2 :=
    ⟨_, rfl, rfl, rfl, rfl, rfl, rfl⟩
  refine ⟨c, hrun, hcalls, hfirst, hsecond, hqueue, hbytes, ?_⟩
  intro h
  have hreached := h.prompt ⟨1, 0⟩ (by simp [hqueue])
  simp [hbytes] at hreached

end Libasync.Socket
