import Libasync.Reactor.Turns
import Libasync.Socket.Writing

/-! # The bytes that a socket has read

The read loop collects what it gets in a local string and hands it on when it has ended. An error
that ends the loop throws the string away, and the kernel does not give the bytes out again. -/

namespace Libasync.Reactor

open Promise Socket Automaton

variable {V E F : Type*}

/-! ### What is to hold -/

def ReadAnswer.bytes : ReadAnswer → List Byte
  | .data bytes => bytes
  | .endOfFile | .err _ => []

/-- The call of `read` fails for another reason than that it would have to wait. -/
def ReadAnswer.fails : ReadAnswer → Bool
  | .err errno => !errno.blocked
  | .data _ | .endOfFile => false

/-- The answers to the calls of `read` that a step makes on the socket. -/
def Config.reads (i : ℕ) (c : Config V E F) (l : Label) : List ReadAnswer :=
  match c.stack, l with
  | .reading k _ _ :: _, .read answers => if k = i then answers else []
  | _, _ => []

/-- The bytes that a step gets from the kernel. -/
def Config.received (i : ℕ) (c : Config V E F) (l : Label) : Option (List Byte) :=
  some ((c.reads i l).flatMap ReadAnswer.bytes)

/-- The string with which a step triggers the "data" event of the socket. -/
def Config.delivered (i : ℕ) (c : Config V E F) (l : Label) : Option (List Byte) :=
  match readLoop (c.reads i l) with
  | some (.ok (data, _)) => if data = [] then none else some data
  | _ => none

def World.bytesRead (w : World V E F) (i : ℕ) : ℕ :=
  ((w.sockets[i]?).map fun sock => sock.bytesRead).getD 0

section Machine

variable [Blank V] {backend : Backend}

/-- The "data" events of the socket have delivered what was read from the kernel, and
`Socket::bytes_read` returns its length. -/
structure DeliversAll (backend : Backend) (i : ℕ) (ls : List Label) (c : Config V E F) : Prop where
  events : (observed (step backend) (Config.delivered i) ({} : Config V E F) ls).length =
    (fired i c.world.log).count .data
  delivered : (observed (step backend) (Config.delivered i) ({} : Config V E F) ls).flatten =
    (observed (step backend) (Config.received i) ({} : Config V E F) ls).flatten
  bytesRead : c.world.bytesRead i =
    (observed (step backend) (Config.received i) ({} : Config V E F) ls).flatten.length

/-- A call of `read` fails after another one of the same loop has got bytes. -/
def Config.losesBytes (i : ℕ) (c : Config V E F) (l : Label) : Bool :=
  (c.reads i l).any ReadAnswer.fails && decide ((c.reads i l).flatMap ReadAnswer.bytes ≠ [])

/-! ### The read loop -/

omit [Blank V] in
theorem readLoop_ok {answers : List ReadAnswer} {data : List Byte} {closed : Bool}
    (h : readLoop answers = some (.ok (data, closed))) :
    answers.flatMap ReadAnswer.bytes = data ∧ answers.any ReadAnswer.fails = false := by
  fun_induction readLoop answers generalizing data closed with
  | case1 => cases h
  | case2 =>
      obtain ⟨rfl, rfl⟩ := Prod.mk.inj (Except.ok.inj (Option.some.inj h))
      exact ⟨rfl, rfl⟩
  | case3 errno =>
      split at h
      · rename_i hblocked
        obtain ⟨rfl, rfl⟩ := Prod.mk.inj (Except.ok.inj (Option.some.inj h))
        simp [ReadAnswer.bytes, ReadAnswer.fails, hblocked]
      · cases Option.some.inj h
  | case4 bytes answers hlength ih =>
      obtain ⟨result, hloop, hresult⟩ := Option.map_eq_some_iff.mp h
      cases result with
      | error errno => cases hresult
      | ok result =>
          obtain ⟨rest, closed'⟩ := result
          obtain ⟨rfl, rfl⟩ := Prod.mk.inj (Except.ok.inj hresult)
          obtain ⟨hbytes, hfails⟩ := ih hloop
          simp [ReadAnswer.bytes, ReadAnswer.fails, hbytes, hfails]
  | case5 => cases h
  | case6 => cases h

omit [Blank V] in
theorem readLoop_error {answers : List ReadAnswer} {errno : Errno}
    (h : readLoop answers = some (.error errno)) : answers.any ReadAnswer.fails = true := by
  fun_induction readLoop answers with
  | case1 => cases h
  | case2 => cases Option.some.inj h
  | case3 errno' =>
      split at h
      · cases Option.some.inj h
      · rename_i hblocked
        simpa [ReadAnswer.fails] using hblocked
  | case4 bytes answers hlength ih =>
      obtain ⟨result, hloop, hresult⟩ := Option.map_eq_some_iff.mp h
      cases result with
      | error errno' =>
          obtain rfl := Except.error.inj hresult
          simp [ih hloop]
      | ok result => cases hresult
  | case5 => cases h
  | case6 => cases h

/-! ### One step -/

variable {c c' : Config V E F} {l : Label} {i : ℕ}

omit [Blank V] in
/-- A step that reads from the socket is one of the read branch of its event handler. -/
theorem Config.reading_of_reads (h : c.reads i l ≠ []) :
    ∃ slot since rest, c.stack = .reading i slot since :: rest ∧
      l = .read (c.reads i l) := by
  simp only [reads] at h ⊢
  split at h
  · rename_i k slot since rest answers hstack
    split at h
    · rename_i hk
      subst hk
      exact ⟨slot, since, rest, hstack, by simp⟩
    · exact absurd rfl h
  · exact absurd rfl h

/-- The read branch of the event handler. -/
theorem Stepped.read {slot : Option ℕ} {since : ℕ} {rest : List Frame} {answers : List ReadAnswer}
    (h : Stepped backend c (.read answers) c')
    (hstack : c.stack = .reading i slot since :: rest) :
    ∃ eff, c.world.readEvent i slot since answers = some (c'.world, eff) := by
  cases h with
  | user w handlers rest l w' eff call => cases hstack
  | library w frame rest l w' eff piece =>
      obtain ⟨rfl, rfl⟩ := List.cons.inj hstack
      rw [Config.after_world]
      exact ⟨eff, piece⟩

theorem Stepped.readLoop_ne_none (h : Stepped backend c l c') (hreads : c.reads i l ≠ []) :
    readLoop (c.reads i l) ≠ none := by
  obtain ⟨slot, since, rest, hstack, hl⟩ := Config.reading_of_reads hreads
  rw [hl] at h
  obtain ⟨eff, hevent⟩ := h.read hstack
  intro hnone
  simp only [World.readEvent, hnone] at hevent
  split at hevent
  · cases hevent
  · split at hevent <;> cases hevent

/-- A step delivers the bytes that it has got, or it loses them. -/
theorem Stepped.received (h : Stepped backend c l c') :
    if c.losesBytes i l then c.delivered i l = none ∧ (c.received i l).toList.flatten ≠ []
    else (c.delivered i l).toList.flatten = (c.received i l).toList.flatten := by
  by_cases hreads : c.reads i l = []
  · simp [Config.losesBytes, Config.delivered, Config.received, hreads, readLoop]
  · have hloop := h.readLoop_ne_none hreads
    simp only [Config.losesBytes, Config.delivered, Config.received, Option.toList_some,
      List.flatten_singleton]
    generalize c.reads i l = answers at hloop ⊢
    cases hresult : readLoop answers with
    | none => exact absurd hresult hloop
    | some result =>
        cases result with
        | ok result =>
            obtain ⟨data, closed⟩ := result
            obtain ⟨hbytes, hfails⟩ := readLoop_ok hresult
            rw [hbytes, hfails]
            by_cases hdata : data = [] <;> simp [hdata]
        | error errno =>
            rw [readLoop_error hresult]
            by_cases hbytes : answers.flatMap ReadAnswer.bytes = [] <;> simp [hbytes]

/-- A step that delivers a string adds its length to the number of bytes read. -/
theorem Stepped.delivers (h : Stepped backend c l c') :
    c'.world.bytesRead i = c.world.bytesRead i + (c.delivered i l).toList.flatten.length ∧
      (fired i c'.world.log).count .data =
        (fired i c.world.log).count .data + (c.delivered i l).toList.length := by
  cases hdelivered : c.delivered i l with
  | some data =>
      have hreads : c.reads i l ≠ [] := by
        intro hnil
        simp [Config.delivered, hnil, readLoop] at hdelivered
      obtain ⟨slot, since, rest, hstack, hl⟩ := Config.reading_of_reads hreads
      rw [hl] at h
      obtain ⟨eff, hevent⟩ := h.read hstack
      simp only [Config.delivered] at hdelivered
      cases hget : c.world.sockets[i]? with
      | none => simp [World.readEvent, hget] at hevent
      | some sock =>
          simp only [World.readEvent, hget, Option.ite_none_right_eq_some] at hevent
          obtain ⟨-, hevent⟩ := hevent
          split at hdelivered
          · rename_i bytes closed hloop
            by_cases hnil : bytes = []
            · simp [hnil] at hdelivered
            · simp only [hnil, if_false, Option.some.injEq] at hdelivered
              subst hdelivered
              simp only [hloop, hnil, if_false, Option.some.injEq, Prod.mk.injEq] at hevent
              rw [← hevent.1]
              cases closed <;>
                simp [World.bytesRead, hget, World.record, World.modifySocket, World.recordIo]
          · cases hdelivered
  | none =>
      simp only [Option.toList_none, List.flatten_nil, List.length_nil, Nat.add_zero]
      cases hget : c.world.sockets[i]? with
      | none =>
          obtain ⟨hnew, hfired⟩ := h.made hget
          rw [hfired]
          refine ⟨?_, rfl⟩
          simp only [World.bytesRead, hget, Option.map_none, Option.getD_none]
          rcases hnew with hnone | ⟨fd, status, hget', -⟩
          · simp [hnone]
          · simp [hget']
      | some sock =>
          obtain ⟨sock', names, hmoved, hget', hfired⟩ := h.moved hget
          simp only [World.bytesRead, hget, hget', Option.map_some, Option.getD_some, hfired,
            List.count_append]
          cases hmoved with
          | stays => simp
          | turns top rest w' eff sock' names stack turn =>
              cases turn with
              | wrote handlers data answers w' eff r written promises =>
                  cases SocketData.wrote written <;> simp [SocketData.advance]
              | flushed since answers w' eff r settled written promises =>
                  cases SocketData.flushed written <;> simp [SocketData.advance]
              | read slot since answers bytes closed w' answered some_data =>
                  simp [Config.delivered, Config.reads, stack, answered, some_data] at hdelivered
              | quiet | connected | connecting | halfClosed | fullClosed | eofFirst | eofAgain
              | established | refused => simp

/-! ### Runs -/

/-- In a run the strings delivered are counted, and they are no more than what was read. -/
structure Config.Counted (backend : Backend) (i : ℕ) (ls : List Label) (c : Config V E F) :
    Prop where
  events : (observed (step backend) (Config.delivered i) ({} : Config V E F) ls).length =
    (fired i c.world.log).count .data
  bytesRead : c.world.bytesRead i =
    (observed (step backend) (Config.delivered i) ({} : Config V E F) ls).flatten.length
  delivered_le :
    (observed (step backend) (Config.delivered i) ({} : Config V E F) ls).flatten.length ≤
      (observed (step backend) (Config.received i) ({} : Config V E F) ls).flatten.length

theorem Config.Counted.step {ls : List Label} (h : c.Counted backend i ls)
    (hrun : run (Reactor.step backend) {} ls = some c) (hstep : Stepped backend c l c') :
    c'.Counted backend i (ls ++ [l]) := by
  obtain ⟨hbytes, hevents⟩ := hstep.delivers (i := i)
  have hreceived := hstep.received (i := i)
  refine ⟨?_, ?_, ?_⟩
  · rw [observed_concat _ _ hrun, List.length_append, hevents, h.events]
  · rw [observed_concat _ _ hrun, List.flatten_append, List.length_append, hbytes, h.bytesRead]
  · simp only [observed_concat _ _ hrun, List.flatten_append, List.length_append]
    refine Nat.add_le_add h.delivered_le ?_
    split at hreceived
    · simp [hreceived.1]
    · rw [hreceived]

theorem counted {ls : List Label} (hrun : run (step backend) {} ls = some c) :
    c.Counted backend i ls := by
  induction ls using List.reverseRecOn generalizing c with
  | nil =>
      obtain rfl := Option.some.inj hrun
      exact ⟨rfl, rfl, Nat.le_refl _⟩
  | append_singleton ls l ih =>
      obtain ⟨u, hu, hlast⟩ := run_append_eq_some _ hrun
      obtain ⟨v, hv, hnil⟩ := run_cons_eq_some _ hlast
      obtain rfl := Option.some.inj hnil
      exact (ih hu).step hu (stepped hv)

/-- What was delivered is what was read, exactly when no step has lost bytes. -/
theorem delivered_eq_received_iff {ls : List Label} (hrun : run (step backend) {} ls = some c) :
    (observed (step backend) (Config.delivered i) ({} : Config V E F) ls).flatten =
        (observed (step backend) (Config.received i) ({} : Config V E F) ls).flatten ↔
      EachStep (step backend) (fun c l => c.losesBytes i l = false) ({} : Config V E F) ls := by
  induction ls using List.reverseRecOn generalizing c with
  | nil => exact ⟨fun _ => eachStep_nil _ _, fun _ => rfl⟩
  | append_singleton ls l ih =>
      obtain ⟨u, hu, hlast⟩ := run_append_eq_some _ hrun
      obtain ⟨v, hv, -⟩ := run_cons_eq_some _ hlast
      have hreceived := (stepped hv).received (i := i)
      have hle := (counted (i := i) hu).delivered_le
      rw [eachStep_concat_iff hu, ← ih hu, observed_concat _ _ hu, observed_concat _ _ hu,
        List.flatten_append, List.flatten_append]
      cases hloses : u.losesBytes i l with
      | false =>
          simp only [hloses, Bool.false_eq_true, if_false] at hreceived
          rw [hreceived]
          simp
      | true =>
          simp only [hloses, if_true] at hreceived
          obtain ⟨hnone, hsome⟩ := hreceived
          simp only [Bool.true_eq_false, and_false, iff_false]
          intro heq
          have hlength := congrArg List.length heq
          rw [hnone] at hlength
          simp only [Option.toList_none, List.flatten_nil, List.append_nil, List.length_append]
            at hlength
          have hpos := List.length_pos_iff.mpr hsome
          omega

/-- In every run a socket delivers all the bytes that it has read from the kernel, in order, and
counts them, exactly when no call of `read` has failed (but for having to wait) after another one
of the same loop had got bytes. -/
theorem delivers_all_iff {ls : List Label} (hrun : run (step backend) {} ls = some c) (i : ℕ) :
    DeliversAll backend i ls c ↔
      EachStep (step backend) (fun c l => c.losesBytes i l = false) ({} : Config V E F) ls := by
  have hcounted := counted (i := i) hrun
  rw [← delivered_eq_received_iff hrun]
  constructor
  · intro h
    exact h.delivered
  · intro hdelivered
    exact ⟨hcounted.events, hdelivered, by rw [hcounted.bytesRead, hdelivered]⟩

/-- A connected socket with a readable event of three calls. -/
def readingRun (answers : List ReadAnswer) : List Label :=
  [.newSocket 3 none, .connect 0 (.ret 0), .return_, .tau, .poll [(⟨3, true, false⟩, .socket 0)],
    .tau, .read answers]

theorem delivers_all_iff_sample : ∃ c : Config ℕ ℕ SampleHandler,
    run (step .epoll) {} (readingRun [.data [7, 8], .data [9], .endOfFile]) = some c ∧
      c.world.bytesRead 0 = 3 ∧
      DeliversAll .epoll 0 (readingRun [.data [7, 8], .data [9], .endOfFile]) c := by
  obtain ⟨c, hrun, hbytes⟩ : ∃ c : Config ℕ ℕ SampleHandler,
      run (step .epoll) {} (readingRun [.data [7, 8], .data [9], .endOfFile]) = some c ∧
        c.world.bytesRead 0 = 3 := ⟨_, rfl, rfl⟩
  exact ⟨c, hrun, hbytes, (delivers_all_iff hrun 0).mpr (by decide +kernel)⟩

/-- The connection is reset after a chunk. -/
theorem resetRun_loses : ∃ c : Config ℕ ℕ SampleHandler,
    run (step .epoll) {} (readingRun [.data [7, 8], .err (.other 104)]) = some c ∧
      observed (step .epoll) (Config.received 0) ({} : Config ℕ ℕ SampleHandler)
        (readingRun [.data [7, 8], .err (.other 104)]) = [[], [], [], [], [], [], [7, 8]] ∧
      fired 0 c.world.log = [.connect] ∧ c.world.bytesRead 0 = 0 ∧
      ¬ DeliversAll .epoll 0 (readingRun [.data [7, 8], .err (.other 104)]) c := by
  refine ⟨_, rfl, rfl, rfl, rfl, fun h => ?_⟩
  have hbytes := h.bytesRead
  revert hbytes
  decide

end Machine

end Libasync.Reactor
