import Libasync.Socket.Stream

/-! # A write path that fails

Both write paths throw before the buffer and the counter are brought up to date, so the bytes
that were sent before the failing `::write` stay in the buffer and are sent again. -/

namespace Libasync.Socket

open Promise Automaton

/-- The answers of an operation that fails after bytes were accepted. -/
theorem failsLate_eq_true {answers : List Answer} (h : failsLate answers = true) :
    ∃ before errno, answers = before ++ [.err errno] ∧ errno.blocked = false ∧ before ≠ [] := by
  unfold failsLate at h
  split at h
  · rename_i errno hlast
    obtain ⟨before, rfl⟩ := List.getLast?_eq_some_iff.mp hlast
    obtain ⟨hblocked, hlength⟩ := Bool.and_eq_true_iff.mp h
    refine ⟨before, errno, rfl, by simpa using hblocked, ?_⟩
    rintro rfl
    simp at hlength
  · cases h

theorem offset_pos_of_failed {answers : List Answer} {flush : Flush} {before : List Answer}
    {errno errno' : Errno} (hanswers : answers = before ++ [.err errno]) (hbefore : before ≠ [])
    (h : ∃ before, answers = before ++ [.err errno'] ∧ errno'.blocked = false ∧
      (before = [] ↔ flush.offset = 0)) : 0 < flush.offset := by
  obtain ⟨before', heq, -, hzero⟩ := h
  have hsame : before = before' := (List.append_inj' (hanswers.symm.trans heq) rfl).1
  rw [← hsame] at hzero
  exact Nat.pos_of_ne_zero fun h => hbefore (hzero.mpr h)

variable {V E F : Type*} [Blank V]

/-- An operation that fails after it has sent bytes breaks the stream. -/
theorem not_intact_of_failsLate {c c' : Stream V E F} {l : StreamOp} (hl : c.step l = some c')
    (hi : Intact c) (hlate : failsLate l.answers = true) : ¬ Intact c' := by
  intro hi'
  obtain ⟨before, errno, hanswers, hblocked, hbefore⟩ := failsLate_eq_true hlate
  have hfailed : FlushExit.ofErrno errno = .failed errno := by
    simp [FlushExit.ofErrno, hblocked]
  have hlength := congrArg List.length hi.stream
  have hlength' := congrArg List.length hi'.stream
  cases l with
  | write data answers =>
      obtain ⟨r, hr, rfl⟩ := Option.map_eq_some_iff.mp hl
      subst hanswers
      cases SocketData.wrote hr with
      | failed flush errno' loop exit_eq =>
          have hpos := offset_pos_of_failed rfl hbefore (writeLoop_failed loop exit_eq)
          have hsent := ((writeLoop_spec loop).stream c.accepted).2
          simp only [List.length_append] at hlength hlength'
          omega
      | completed flush loop exit_eq =>
          rw [writeLoop_exit loop, exitOf_concat, hfailed] at exit_eq
          cases exit_eq
      | blocked flush loop exit_eq =>
          rw [writeLoop_exit loop, exitOf_concat, hfailed] at exit_eq
          cases exit_eq
  | writable answers =>
      simp only [Stream.step] at hl
      split at hl
      · cases hl
      · obtain ⟨r, hr, rfl⟩ := Option.map_eq_some_iff.mp hl
        subst hanswers
        cases SocketData.flushed hr with
        | failed flush errno' loop exit_eq =>
            have hpos := offset_pos_of_failed rfl hbefore
              (flushLoop_failed (by decide) loop exit_eq)
            have hspec := flushLoop_spec (Nat.zero_le _) loop
            have hsent := (hspec.stream c.accepted).2
            simp only [List.length_append] at hlength hlength'
            omega
        | flushed flush items s' loop exit_eq resolve =>
            rw [flushLoop_exit loop, exitOf_concat] at exit_eq
            exact absurd hfailed (exit_eq errno)

/-- The stream is intact in every state of a run, with no byte sent twice, exactly when every
`::write` that fails is the first one of its operation. -/
theorem stream_intact_iff {fd : Fd} {status : Status} {promises : State V E F}
    {ls : List StreamOp} {c : Stream V E F}
    (hrun : run Stream.step (Stream.start fd status promises) ls = some c) :
    (∀ before c', before <+: ls →
      run Stream.step (Stream.start fd status promises) before = some c' →
        Intact c' ∧ c'.accepted <+: c'.written) ↔
      ∀ l ∈ ls, failsLate l.answers = false := by
  constructor
  · intro hintact l hl
    obtain ⟨before, after, rfl⟩ := List.append_of_mem hl
    obtain ⟨c₁, hc₁, hrest⟩ := run_append_eq_some Stream.step hrun
    obtain ⟨c₂, hc₂, -⟩ := run_cons_eq_some Stream.step hrest
    have hi₁ := (hintact before c₁ (List.prefix_append _ _) hc₁).1
    have hi₂ := (hintact (before ++ [l]) c₂ (by simp) (run_concat Stream.step hc₁ hc₂)).1
    cases hlate : failsLate l.answers with
    | false => rfl
    | true => exact absurd hi₂ (not_intact_of_failsLate hc₂ hi₁ hlate)
  · intro hclean before c' hbefore hrun'
    have hinv := (StreamInv.start fd status promises).run
      (fun l hl => hclean l (hbefore.subset hl)) hrun'
    exact ⟨hinv.intact, c'.sock.buffer, hinv.intact.stream⟩

/-- Of the two bytes the kernel accepts one, the next `::write` fails with `EPIPE`, and a later
readiness event sends both. -/
def resendRun : List StreamOp :=
  [.write [1, 2] [.ret 1, .err (.other 32)], .writable [.ret 2]]

/-- The kernel accepts one byte of three and is full, the next `::write` fails, and a later
readiness event sends the rest. -/
def resumedRun : List StreamOp :=
  [.write [1, 2, 3] [.ret 1, .err .again], .writable [.err (.other 32)], .writable [.ret 2]]

theorem stream_intact_iff_sample : ∃ c : Stream ℕ ℕ SampleHandler,
    run Stream.step (Stream.start 3 .connected {}) resumedRun = some c ∧
      c.accepted = [1, 2, 3] ∧ Intact c ∧ c.accepted <+: c.written := by
  obtain ⟨c, hrun, haccepted⟩ : ∃ c : Stream ℕ ℕ SampleHandler,
      run Stream.step (Stream.start 3 .connected {}) resumedRun = some c ∧
        c.accepted = [1, 2, 3] := ⟨_, rfl, by decide +kernel⟩
  have hintact := (stream_intact_iff hrun).mpr (by decide)
  exact ⟨c, hrun, haccepted, hintact _ c List.prefix_rfl hrun⟩

/-- The first byte is sent twice, and the counter has missed it. -/
theorem resendRun_sends_twice :
    (run Stream.step (Stream.start 3 .connected {} : Stream ℕ ℕ SampleHandler) resendRun).map
        (fun c => (c.accepted, c.written, c.sock.bytesWritten)) =
      some ([1, 1, 2], [1, 2], 2) := by
  decide +kernel

end Libasync.Socket
