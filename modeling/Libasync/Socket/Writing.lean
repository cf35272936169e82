import Libasync.Promise.Scope
import Libasync.Socket.Flush

/-! # What a write and a readiness event do

One case for each exit of the two write paths, with the loop's result as a premise. -/

namespace Libasync.Socket

open Promise

variable {V E F : Type*} [Blank V]

/-- The exits of `Socket::write`. -/
inductive Wrote (sock : SocketData) (s : State V E F) (data : List Byte) (answers : List Answer) :
    Result V E F Ref → Prop where
  | failed (flush errno) (loop : writeLoop (sock.buffer ++ data) 0 answers = some (flush, []))
      (exit_eq : flush.exit = .failed errno) :
      Wrote sock s data answers
        ⟨{ sock with buffer := sock.buffer ++ data }, s, flush.accepted, .error ⟨.write, errno⟩⟩
  | completed (flush) (loop : writeLoop (sock.buffer ++ data) 0 answers = some (flush, []))
      (exit_eq : flush.exit = .completed) :
      Wrote sock s data answers
        ⟨{ sock with buffer := sock.buffer ++ data }.advance flush.offset, s.resolvedVoid.1,
          flush.accepted, .ok s.heap.length⟩
  | blocked (flush) (loop : writeLoop (sock.buffer ++ data) 0 answers = some (flush, []))
      (exit_eq : flush.exit = .blocked) :
      Wrote sock s data answers
        ⟨{ { sock with buffer := sock.buffer ++ data }.advance flush.offset with
            writePromiseQueue := sock.writePromiseQueue ++
              [⟨sock.bytesWritten + flush.offset +
                ((sock.buffer ++ data).drop flush.offset).length, s.heap.length⟩] },
          s.create.1, flush.accepted, .ok s.heap.length⟩

/-- The exits of the write branch of `Socket::reactor_on_event`. -/
inductive Flushed (sock : SocketData) (s : State V E F) (answers : List Answer) :
    Result V E F Unit → Prop where
  | failed (flush errno) (loop : flushLoop sockBufferSize sock.buffer 0 answers = some (flush, []))
      (exit_eq : flush.exit = .failed errno) :
      Flushed sock s answers ⟨sock, s, flush.accepted, .error ⟨.write, errno⟩⟩
  | flushed (flush items s')
      (loop : flushLoop sockBufferSize sock.buffer 0 answers = some (flush, []))
      (exit_eq : ∀ errno, flush.exit ≠ .failed errno)
      (resolve : resolveWritePromises (sock.bytesWritten + flush.offset) sock.writePromiseQueue s =
        (items, s')) :
      Flushed sock s answers
        ⟨{ sock.advance flush.offset with writePromiseQueue := items }, s', flush.accepted, .ok ()⟩

theorem SocketData.wrote {sock : SocketData} {s : State V E F} {data : List Byte}
    {answers : List Answer} {r : Result V E F Ref} (h : sock.write s data answers = some r) :
    Wrote sock s data answers r := by
  simp only [write] at h
  split at h
  · rename_i flush hloop
    cases hexit : flush.exit with
    | failed errno =>
        simp only [hexit, Option.some.injEq] at h
        subst h
        exact .failed flush errno hloop hexit
    | completed =>
        simp only [hexit, Option.some.injEq] at h
        subst h
        exact .completed flush hloop hexit
    | blocked =>
        simp only [hexit, Option.some.injEq] at h
        subst h
        exact .blocked flush hloop hexit
  · cases h

theorem SocketData.flushed {sock : SocketData} {s : State V E F} {answers : List Answer}
    {r : Result V E F Unit} (h : sock.onWritable s answers = some r) :
    Flushed sock s answers r := by
  simp only [onWritable] at h
  split at h
  · rename_i flush hloop
    cases hexit : flush.exit with
    | failed errno =>
        simp only [hexit, Option.some.injEq] at h
        subst h
        exact .failed flush errno hloop hexit
    | completed =>
        simp only [hexit, Option.some.injEq] at h
        subst h
        exact .flushed flush _ _ hloop (by simp [hexit]) rfl
    | blocked =>
        simp only [hexit, Option.some.injEq] at h
        subst h
        exact .flushed flush _ _ hloop (by simp [hexit]) rfl
  · cases h

/-- The loop resolves an initial part of the queue, and stops at a target not reached. -/
theorem resolveWritePromises_spec (n : ℕ) (items : List PromiseQueueItem) (s : State V E F) :
    ∃ reached, items = reached ++ (resolveWritePromises n items s).1 ∧
      (∀ item ∈ reached, item.target ≤ n) ∧
      (∀ item rest, (resolveWritePromises n items s).1 = item :: rest → n < item.target) ∧
      Changes (fun p => ∃ item ∈ reached, item.ctx = p) s (resolveWritePromises n items s).2 := by
  induction items generalizing s with
  | nil => exact ⟨[], rfl, by simp, by simp [resolveWritePromises], .refl⟩
  | cons item items ih =>
      by_cases htarget : n < item.target
      · refine ⟨[], by simp [resolveWritePromises, htarget], by simp, ?_, ?_⟩
        · intro head rest h
          simp only [resolveWritePromises, htarget, if_true, List.cons.injEq] at h
          rw [← h.1]
          exact htarget
        · simpa [resolveWritePromises, htarget] using .refl
      · obtain ⟨reached, hsplit, hle, hstop, hchanges⟩ := ih (s.resolveImpl item.ctx Blank.blank)
        simp only [resolveWritePromises, htarget, if_false]
        refine ⟨item :: reached, by rw [List.cons_append, ← hsplit], ?_, hstop, ?_⟩
        · intro x hx
          rcases List.mem_cons.mp hx with hx | hx
          · rw [hx]
            exact Nat.le_of_not_lt htarget
          · exact hle x hx
        · have hfirst := s.resolveImpl_changes (T := fun p => ∃ x ∈ item :: reached, x.ctx = p)
            item.ctx Blank.blank ⟨item, by simp, rfl⟩
          refine hfirst.trans (hchanges.mono ?_)
          rintro p ⟨x, hx, hp⟩
          exact ⟨x, List.mem_cons_of_mem item hx, hp⟩

/-- In a sorted queue nothing that is reached stays behind. -/
theorem lt_target_of_sorted {n : ℕ} {items : List PromiseQueueItem} {s : State V E F}
    (hsorted : items.Pairwise fun a b => a.target ≤ b.target) :
    ∀ item ∈ (resolveWritePromises n items s).1, n < item.target := by
  obtain ⟨reached, hsplit, -, hstop, -⟩ := resolveWritePromises_spec n items s
  have hrest : ((resolveWritePromises n items s).1).Pairwise fun a b => a.target ≤ b.target := by
    rw [hsplit] at hsorted
    exact (List.pairwise_append.mp hsorted).2.1
  cases hitems : (resolveWritePromises n items s).1 with
  | nil => simp
  | cons head rest =>
      rw [hitems] at hrest
      have hhead := hstop head rest hitems
      intro item hitem
      rcases List.mem_cons.mp hitem with hitem | hitem
      · rw [hitem]
        exact hhead
      · exact Nat.lt_of_lt_of_le hhead (List.rel_of_pairwise_cons hrest hitem)

end Libasync.Socket
