import Libasync.Socket.Model
import Mathlib.Data.List.Basic
import Mathlib.Data.List.TakeDrop

/-! # The two write loops

Both loops send a prefix of the buffer, and the final offset is its length. After its first
round the loop of `Socket::write` is the loop of the reactor with rounds of another size. -/

namespace Libasync.Socket

/-- What a write loop that starts at `offset` has done. -/
structure FlushSpec (buffer : List Byte) (offset : ℕ) (flush : Flush) : Prop where
  start_le : offset ≤ flush.offset
  bound : flush.offset ≤ buffer.length
  accepted : flush.accepted = (buffer.drop offset).take (flush.offset - offset)
  completed : flush.exit = .completed → flush.offset = buffer.length

/-- A round followed by the rest of the loop. -/
theorem FlushSpec.after {buffer : List Byte} {offset count : ℕ} {flush : Flush}
    (h : FlushSpec buffer (offset + count) flush) :
    FlushSpec buffer offset
      { flush with accepted := (buffer.drop offset).take count ++ flush.accepted } := by
  have hsplit : flush.offset - offset = count + (flush.offset - (offset + count)) := by
    have hle := h.start_le
    omega
  refine ⟨Nat.le_trans (Nat.le_add_right offset count) h.start_le, h.bound, ?_, h.completed⟩
  rw [h.accepted, hsplit, List.take_add, List.drop_drop]

theorem Answer.count_le {len count : ℕ} (h : (Answer.ret count).toWrite len = true) :
    count ≤ len := by
  simp [toWrite] at h
  exact h.1

theorem Answer.count_pos {len count : ℕ} (h : (Answer.ret count).toWrite len = true)
    (hlen : 0 < len) : 0 < count := by
  simp [toWrite] at h
  omega

/-- The rounds of a loop that starts at `offset`, with the answer to each. -/
inductive Rounds (roundSize : ℕ) (buffer : List Byte) : ℕ → List Answer → Flush → Prop where
  | completed (offset) (done : buffer.length ≤ offset) :
      Rounds roundSize buffer offset [] ⟨offset, [], .completed⟩
  | stopped (offset errno) (left : offset < buffer.length) :
      Rounds roundSize buffer offset [.err errno] ⟨offset, [], .ofErrno errno⟩
  | round {offset count answers flush} (left : offset < buffer.length)
      (fits : (Answer.ret count).toWrite (min (buffer.length - offset) roundSize) = true)
      (rest : Rounds roundSize buffer (offset + count) answers flush) :
      Rounds roundSize buffer offset (.ret count :: answers)
        { flush with accepted := (buffer.drop offset).take count ++ flush.accepted }

theorem flushLoop_rounds {roundSize : ℕ} {buffer : List Byte} {offset : ℕ}
    {answers rest : List Answer} {flush : Flush}
    (h : flushLoop roundSize buffer offset answers = some (flush, rest)) :
    ∃ used, answers = used ++ rest ∧ Rounds roundSize buffer offset used flush := by
  induction answers generalizing offset flush with
  | nil =>
      simp only [flushLoop, Option.ite_none_right_eq_some, Option.some.injEq, Prod.mk.injEq] at h
      obtain ⟨hdone, rfl, rfl⟩ := h
      exact ⟨[], rfl, .completed offset hdone⟩
  | cons answer answers ih =>
      by_cases hdone : buffer.length ≤ offset
      · simp only [flushLoop, hdone, if_true, Option.some.injEq, Prod.mk.injEq] at h
        obtain ⟨rfl, rfl⟩ := h
        exact ⟨[], rfl, .completed offset hdone⟩
      · have hleft := Nat.lt_of_not_le hdone
        simp only [flushLoop, hdone, if_false, Option.ite_none_right_eq_some] at h
        obtain ⟨hanswer, h⟩ := h
        cases answer with
        | err errno =>
            simp only [Option.some.injEq, Prod.mk.injEq] at h
            obtain ⟨rfl, rfl⟩ := h
            exact ⟨[.err errno], rfl, .stopped offset errno hleft⟩
        | ret count =>
            obtain ⟨⟨flush', rest'⟩, hresult, heq⟩ := Option.map_eq_some_iff.mp h
            obtain ⟨rfl, rfl⟩ := Prod.mk.inj heq
            obtain ⟨used, rfl, hrounds⟩ := ih hresult
            exact ⟨.ret count :: used, rfl, .round hleft hanswer hrounds⟩

/-- A loop that uses up the answers. -/
theorem flushLoop_all {roundSize : ℕ} {buffer : List Byte} {offset : ℕ} {answers : List Answer}
    {flush : Flush} (h : flushLoop roundSize buffer offset answers = some (flush, [])) :
    Rounds roundSize buffer offset answers flush := by
  obtain ⟨used, rfl, hrounds⟩ := flushLoop_rounds h
  rwa [List.append_nil]

theorem Rounds.spec {roundSize : ℕ} {buffer : List Byte} {offset : ℕ} {answers : List Answer}
    {flush : Flush} (h : Rounds roundSize buffer offset answers flush)
    (hoffset : offset ≤ buffer.length) : FlushSpec buffer offset flush := by
  induction h with
  | completed offset done =>
      exact ⟨Nat.le_refl _, hoffset, by simp, fun _ => Nat.le_antisymm hoffset done⟩
  | stopped offset errno left =>
      refine ⟨Nat.le_refl _, hoffset, by simp, fun hexit => ?_⟩
      cases hb : errno.blocked <;> simp [FlushExit.ofErrno, hb] at hexit
  | round left fits rest ih =>
      have hcount := Answer.count_le fits
      exact (ih (by omega)).after

theorem flushLoop_spec {roundSize : ℕ} {buffer : List Byte} {offset : ℕ}
    {answers rest : List Answer} {flush : Flush} (hoffset : offset ≤ buffer.length)
    (h : flushLoop roundSize buffer offset answers = some (flush, rest)) :
    FlushSpec buffer offset flush := by
  obtain ⟨used, -, hrounds⟩ := flushLoop_rounds h
  exact hrounds.spec hoffset

/-- When bytes are left, the order of the test and the round does not matter. -/
theorem writeLoop_eq_flushLoop {buffer : List Byte} {offset : ℕ} (answers : List Answer)
    (hoffset : offset < buffer.length) :
    writeLoop buffer offset answers = flushLoop nBytesPerRound buffer offset answers := by
  induction answers generalizing offset with
  | nil => simp [writeLoop, flushLoop, Nat.not_le.mpr hoffset]
  | cons answer answers ih =>
      simp only [writeLoop, flushLoop, Nat.not_le.mpr hoffset, if_false, Nat.min_comm]
      cases answer with
      | err errno => rfl
      | ret count =>
          by_cases hdone : buffer.length ≤ offset + count
          · have hflush : flushLoop nBytesPerRound buffer (offset + count) answers =
                some (⟨offset + count, [], .completed⟩, answers) := by
              cases answers <;> simp [flushLoop, hdone]
            simp [hdone, hflush, Flush.after]
          · simp [hdone, ih (Nat.lt_of_not_le hdone)]

/-- With nothing to send, there is one round of no bytes. -/
theorem writeLoop_nil {answers rest : List Answer} {flush : Flush}
    (h : writeLoop [] 0 answers = some (flush, rest)) :
    (∃ errno, answers = .err errno :: rest ∧ flush = ⟨0, [], .ofErrno errno⟩) ∨
      answers = .ret 0 :: rest ∧ flush = ⟨0, [], .completed⟩ := by
  cases answers with
  | nil => simp [writeLoop] at h
  | cons answer answers =>
      simp only [writeLoop, Option.ite_none_right_eq_some] at h
      obtain ⟨hanswer, h⟩ := h
      cases answer with
      | err errno =>
          simp only [Option.some.injEq, Prod.mk.injEq] at h
          obtain ⟨rfl, rfl⟩ := h
          exact .inl ⟨errno, rfl, rfl⟩
      | ret count =>
          have hzero : count = 0 := by simpa using Answer.count_le hanswer
          subst hzero
          simp only [List.length_nil, Nat.le_refl, if_true, Option.some.injEq,
            Prod.mk.injEq] at h
          obtain ⟨rfl, rfl⟩ := h
          exact .inr ⟨rfl, by simp⟩

theorem writeLoop_spec {buffer : List Byte} {answers rest : List Answer} {flush : Flush}
    (h : writeLoop buffer 0 answers = some (flush, rest)) : FlushSpec buffer 0 flush := by
  cases buffer with
  | cons byte buffer =>
      rw [writeLoop_eq_flushLoop answers (by simp)] at h
      exact flushLoop_spec (Nat.zero_le _) h
  | nil =>
      rcases writeLoop_nil h with ⟨errno, -, rfl⟩ | ⟨-, rfl⟩ <;>
        exact ⟨Nat.le_refl _, Nat.le_refl _, by simp, fun _ => rfl⟩

/-! ### The last answer -/

/-- How a loop ends that has used these answers. -/
def exitOf (answers : List Answer) : FlushExit :=
  match answers.getLast? with
  | some (.err errno) => .ofErrno errno
  | _ => .completed

def FlushExit.isFailed : FlushExit → Bool
  | .failed _ => true
  | .completed | .blocked => false

theorem exitOf_concat (before : List Answer) (errno : Errno) :
    exitOf (before ++ [.err errno]) = .ofErrno errno := by
  simp [exitOf]

/-- A number of accepted bytes does not end a loop. -/
theorem exitOf_ret_cons (count : ℕ) (answers : List Answer) :
    exitOf (.ret count :: answers) = exitOf answers := by
  cases answers with
  | nil => rfl
  | cons answer answers => simp [exitOf, List.getLast?_cons_cons]

theorem flushLoop_exit {roundSize : ℕ} {buffer : List Byte} {offset : ℕ} {answers : List Answer}
    {flush : Flush} (h : flushLoop roundSize buffer offset answers = some (flush, [])) :
    flush.exit = exitOf answers := by
  have hrounds := flushLoop_all h
  clear h
  induction hrounds with
  | completed offset done => rfl
  | stopped offset errno left => rfl
  | round left fits rest ih => exact ih.trans (exitOf_ret_cons _ _).symm

theorem writeLoop_exit {buffer : List Byte} {answers : List Answer} {flush : Flush}
    (h : writeLoop buffer 0 answers = some (flush, [])) : flush.exit = exitOf answers := by
  cases buffer with
  | cons byte buffer =>
      rw [writeLoop_eq_flushLoop _ (by simp)] at h
      exact flushLoop_exit h
  | nil => rcases writeLoop_nil h with ⟨errno, rfl, rfl⟩ | ⟨rfl, rfl⟩ <;> rfl

/-! ### The number of bytes -/

/-- What the kernel has accepted. -/
def Answer.count : Answer → ℕ
  | .ret count => count
  | .err _ => 0

/-- The bytes that the answers accept. -/
def sent : List Answer → ℕ
  | [] => 0
  | answer :: answers => answer.count + sent answers

theorem flushLoop_offset {roundSize : ℕ} {buffer : List Byte} {offset : ℕ} {answers : List Answer}
    {flush : Flush} (h : flushLoop roundSize buffer offset answers = some (flush, [])) :
    flush.offset = offset + sent answers := by
  have hrounds := flushLoop_all h
  clear h
  induction hrounds with
  | completed offset done => rfl
  | stopped offset errno left => rfl
  | round left fits rest ih =>
      simp only [sent, Answer.count]
      omega

theorem writeLoop_offset {buffer : List Byte} {answers : List Answer} {flush : Flush}
    (h : writeLoop buffer 0 answers = some (flush, [])) : flush.offset = sent answers := by
  cases buffer with
  | cons byte buffer =>
      rw [writeLoop_eq_flushLoop _ (by simp)] at h
      exact (flushLoop_offset h).trans (Nat.zero_add _)
  | nil => rcases writeLoop_nil h with ⟨errno, rfl, rfl⟩ | ⟨rfl, rfl⟩ <;> rfl

/-- A loop that would block has not sent everything. -/
theorem flushLoop_blocked {roundSize : ℕ} {buffer : List Byte} {offset : ℕ} {answers : List Answer}
    {flush : Flush} (h : flushLoop roundSize buffer offset answers = some (flush, []))
    (hexit : flush.exit = .blocked) : flush.offset < buffer.length := by
  have hrounds := flushLoop_all h
  clear h
  induction hrounds with
  | completed offset done => cases hexit
  | stopped offset errno left => exact left
  | round left fits rest ih => exact ih hexit

/-- `Socket::write` would block with data left, unless there was none. -/
theorem writeLoop_blocked {buffer : List Byte} {answers : List Answer} {flush : Flush}
    (h : writeLoop buffer 0 answers = some (flush, [])) (hexit : flush.exit = .blocked)
    (hbuffer : buffer ≠ []) : flush.offset < buffer.length := by
  rw [writeLoop_eq_flushLoop _ (List.length_pos_iff.mpr hbuffer)] at h
  exact flushLoop_blocked h hexit

/-! ### Failing rounds -/

theorem FlushExit.ofErrno_failed {errno errno' : Errno} (h : ofErrno errno' = .failed errno) :
    errno'.blocked = false ∧ errno' = errno := by
  cases hb : errno'.blocked with
  | true => simp [ofErrno, hb] at h
  | false => exact ⟨rfl, by simpa [ofErrno, hb] using h⟩

/-- The loop stops at an error with nothing accepted exactly when the first answer is the error. -/
theorem flushLoop_failed {roundSize : ℕ} (hsize : 0 < roundSize) {buffer : List Byte} {offset : ℕ}
    {answers : List Answer} {flush : Flush} {errno : Errno}
    (h : flushLoop roundSize buffer offset answers = some (flush, []))
    (hexit : flush.exit = .failed errno) :
    ∃ before, answers = before ++ [.err errno] ∧ errno.blocked = false ∧
      (before = [] ↔ flush.offset = offset) := by
  have hrounds := flushLoop_all h
  clear h
  induction hrounds with
  | completed offset done => cases hexit
  | stopped offset errno' left =>
      obtain ⟨hblocked, rfl⟩ := FlushExit.ofErrno_failed hexit
      exact ⟨[], rfl, hblocked, by simp⟩
  | round left fits rest ih =>
      have hpos := Answer.count_pos fits (by omega)
      have hcount := Answer.count_le fits
      have hle := (rest.spec (by omega)).start_le
      obtain ⟨before, rfl, hblocked, -⟩ := ih hexit
      refine ⟨.ret _ :: before, rfl, hblocked, by simp, fun hsame => ?_⟩
      simp only at hsame
      omega

theorem writeLoop_failed {buffer : List Byte} {answers : List Answer} {flush : Flush}
    {errno : Errno} (h : writeLoop buffer 0 answers = some (flush, []))
    (hexit : flush.exit = .failed errno) :
    ∃ before, answers = before ++ [.err errno] ∧ errno.blocked = false ∧
      (before = [] ↔ flush.offset = 0) := by
  cases buffer with
  | cons byte buffer =>
      rw [writeLoop_eq_flushLoop answers (by simp)] at h
      exact flushLoop_failed (by decide) h hexit
  | nil =>
      rcases writeLoop_nil h with ⟨errno', rfl, rfl⟩ | ⟨-, rfl⟩
      · obtain ⟨hblocked, rfl⟩ := FlushExit.ofErrno_failed hexit
        exact ⟨[], rfl, hblocked, by simp⟩
      · cases hexit

/-! ### Termination -/

/-- Whatever a kernel that keeps to its contract answers, the loop ends: every round but the last
sends at least one byte. -/
theorem flushLoop_returns {roundSize : ℕ} (hsize : 0 < roundSize) (kernel : ℕ → ℕ → Answer)
    (hkernel : ∀ offset len, (kernel offset len).toWrite len = true) (buffer : List Byte)
    (offset : ℕ) :
    ∃ answers flush, flushLoop roundSize buffer offset answers = some (flush, []) := by
  induction hrest : buffer.length - offset using Nat.strongRecOn generalizing offset with
  | ind rest ih =>
      by_cases hdone : buffer.length ≤ offset
      · exact ⟨[], ⟨offset, [], .completed⟩, by simp [flushLoop, hdone]⟩
      · let len := min (buffer.length - offset) roundSize
        have hanswer := hkernel offset len
        cases hk : kernel offset len with
        | err errno =>
            refine ⟨[.err errno], ⟨offset, [], .ofErrno errno⟩, ?_⟩
            simp [flushLoop, hdone, Answer.toWrite]
        | ret count =>
            rw [hk] at hanswer
            have hpos := Answer.count_pos hanswer (by omega)
            obtain ⟨answers, flush, hflush⟩ := ih (buffer.length - (offset + count)) (by omega)
              (offset + count) rfl
            let accepted := (buffer.drop offset).take count
            refine ⟨.ret count :: answers, (Flush.after accepted (flush, [])).1, ?_⟩
            simp only [flushLoop, hdone, if_false]
            rw [if_pos hanswer, hflush]
            rfl

end Libasync.Socket
