import Libasync.Reactor.Connecting
import Libasync.Reactor.Rest

/-! # Promises at the end of a socket

A pending promise of `connect` waits for the "connect" event, and one of `write` for its place in
the queue. No exit of a socket looks at either. -/

namespace Libasync.Reactor

open Promise Socket Automaton

variable {V E F : Type*}

/-! ### What is to hold -/

/-- The failure of the connection was reported, `close` has closed the descriptor, or the status is
`CLOSED`. -/
def World.ended (w : World V E F) (i : ℕ) : Bool :=
  decide (.error ∈ fired i w.log) || w.log.any (fun h => (h.closedBy? (.socket i)).isSome) ||
    decide (w.status? i = some .closed)

/-- The promise is resolved or rejected. -/
def settled (s : State V E F) (p : Ref) : Bool :=
  (s.status? p).any fun status => status.side?.isSome

/-- The step is in a call of `connect` or `write` on the socket, up to its return. The end of
`connect` is counted for every socket: the promise that it makes is resolved. -/
def Config.callsSocket (i : ℕ) (c : Config V E F) (l : Label) : Prop :=
  match c.stack, l with
  | .user _ :: _, .connect k _ | .user _ :: _, .write k _ _ => k = i
  | .connectTail :: _, .tau => True
  | _, _ => False

section Machine

variable [Blank V]

/-- A call on the socket makes this promise: it does so only to return it. -/
def Config.returns (backend : Backend) (i : ℕ) (p : Ref) (c : Config V E F) (l : Label) : Prop :=
  c.callsSocket i l ∧ p = c.world.promises.heap.length ∧
    ∃ c', step backend c l = some c' ∧ p < c'.world.promises.heap.length

/-- When the socket has ended all promises that its calls have returned are settled, and none is
left in its queue. -/
def NoneHanging (backend : Backend) (i : ℕ) (ls : List Label) (c : Config V E F) : Prop :=
  c.world.ended i = true →
    (∀ p, SomeStep (step backend) (Config.returns backend i p) ({} : Config V E F) ls →
      settled c.world.promises p = true) ∧
    ∀ sock, c.world.sockets[i]? = some sock → sock.writePromiseQueue = []

end Machine

/-! ### The condition -/

/-- The queue is empty and the promise of `connect` is settled. -/
def World.clear (w : World V E F) (i : ℕ) : Bool :=
  (w.sockets[i]?).all fun sock =>
    sock.writePromiseQueue.isEmpty && sock.connectHandlers.all (settled w.promises)

/-- The step ends the socket. -/
def Config.ends (i : ℕ) (c : Config V E F) (l : Label) : Bool :=
  match c.stack with
  | .writePart k true _ :: _ =>
      match l with
      | .soError answer => decide (k = i ∧ answer ≠ .ret 0)
      | _ => false
  | .readTail k true _ _ :: _ =>
      decide (l = .tau ∧ k = i ∧ c.world.status? i = some .halfClosed)
  | frame :: _ =>
      match closeCall? frame l with
      | some (k, answer) => decide (k = i) && (c.world.closeDrops? k answer).isSome
      | none => false
  | [] => false

/-- A `::write` for a socket that has ended would block. -/
def Config.blocksEnded (i : ℕ) (c : Config V E F) (l : Label) : Bool :=
  match c.stack, l with
  | .user _ :: _, .write k _ answers =>
      decide (k = i ∧ exitOf answers = .blocked) && c.world.ended i
  | _, _ => false

def Config.AccountsFor (i : ℕ) (c : Config V E F) (l : Label) : Prop :=
  (c.ends i l = true → c.world.clear i = true) ∧ c.blocksEnded i l = false

instance (i : ℕ) (c : Config V E F) (l : Label) : Decidable (c.AccountsFor i l) :=
  inferInstanceAs (Decidable (_ ∧ _))

theorem World.clear_iff {w : World V E F} {i : ℕ} {sock : SocketObject}
    (hget : w.sockets[i]? = some sock) : w.clear i = true ↔
      sock.writePromiseQueue = [] ∧ ∀ p ∈ sock.connectHandlers, settled w.promises p = true := by
  simp [clear, hget]

/-! ### Settled promises -/

theorem settled_of_status {s : State V E F} {p : Ref} {status : PromiseStatus V E}
    (h : s.status? p = some status) (hne : status ≠ .pending) : settled s p = true := by
  cases status with
  | pending => exact absurd rfl hne
  | resolved v => simp [settled, h, PromiseStatus.side?]
  | rejected e => simp [settled, h, PromiseStatus.side?]

theorem status_of_settled {s : State V E F} {p : Ref} (h : settled s p = true) :
    ∃ status, s.status? p = some status ∧ status ≠ .pending := by
  obtain ⟨status, hstatus, hside⟩ := (Option.any_eq_true ..).mp h
  refine ⟨status, hstatus, ?_⟩
  rintro rfl
  cases hside

section Machine

variable [Blank V] {backend : Backend} {c c' : Config V E F} {l : Label} {i : ℕ} {p : Ref}

theorem settled_mono {s t : State V E F} (h : Resolving s t) (hp : settled s p = true) :
    settled t p = true := by
  obtain ⟨status, hstatus, hne⟩ := status_of_settled hp
  exact settled_of_status (h.status_eq hstatus hne) hne

theorem settled_resolveImpl {s : State V E F} (hp : p < s.heap.length) :
    settled (s.resolveImpl p Blank.blank) p = true := by
  obtain ⟨status, hstatus⟩ := status?_of_lt hp
  by_cases hpending : status = .pending
  · subst hpending
    exact settled_of_status (State.settle_status? _ hstatus) (by simp)
  · rw [State.resolveImpl, State.settle_of_settled hstatus hpending]
    exact settled_of_status hstatus hpending

theorem settled_resolvedVoid (s : State V E F) :
    settled s.resolvedVoid.1 s.heap.length = true :=
  settled_resolveImpl (s := s.create.1) (by simp [State.create])

/-- A promise that leaves the queue is resolved. -/
theorem settled_of_flushed (n : ℕ) (items : List PromiseQueueItem) (s : State V E F)
    (hitems : ∀ item ∈ items, item.ctx < s.heap.length) {item : PromiseQueueItem}
    (hmem : item ∈ items) : item ∈ (resolveWritePromises n items s).1 ∨
      settled (resolveWritePromises n items s).2 item.ctx = true := by
  induction items generalizing s with
  | nil => cases hmem
  | cons first items ih =>
      by_cases htarget : n < first.target
      · simp only [resolveWritePromises, htarget, if_true]
        exact .inl hmem
      · simp only [resolveWritePromises, htarget, if_false]
        rcases List.mem_cons.mp hmem with rfl | hmem
        · right
          apply settled_mono (.resolveWritePromises n items _)
          exact settled_resolveImpl (hitems _ (by simp))
        · refine ih _ ?_ hmem
          intro item hitem
          have hresolving : Resolving s (s.resolveImpl first.ctx Blank.blank) :=
            .single (.resolve s first.ctx)
          exact Nat.lt_of_lt_of_le (hitems item (List.mem_cons_of_mem _ hitem))
            hresolving.changes.length_le

/-! ### What waits in a socket -/

/-- The promises of the queue and of `connect`. -/
def SocketObject.waiting (sock : SocketObject) : List Ref :=
  sock.writePromiseQueue.map PromiseQueueItem.ctx ++ sock.connectHandlers

omit [Blank V] in
theorem clear_iff_waiting {w : World V E F} {sock : SocketObject}
    (hget : w.sockets[i]? = some sock) : w.clear i = true ↔
      sock.writePromiseQueue = [] ∧ ∀ p ∈ sock.waiting, settled w.promises p = true := by
  rw [World.clear_iff hget]
  refine and_congr_right ?_
  intro hqueue
  simp [SocketObject.waiting, hqueue]

/-- The label of a call that can make a promise wait. -/
def Label.makesPromise (i : ℕ) : Label → Prop
  | .connect k _ | .write k _ _ => k = i
  | _ => False

/-- What a branch does to the promises that wait in the socket: they stay or are settled, and a
new one is the one that a call on the socket has made. -/
theorem Turn.waiting {w w' : World V E F} {sock sock' : SocketObject} {frame : Frame}
    {eff : Effect} {names : List EventName} (h : Turn w i sock frame l w' eff sock' names)
    (hknown : ∀ p ∈ sock.waiting, p < w.promises.heap.length) :
    (∀ p ∈ sock.waiting, p ∈ sock'.waiting ∨ settled w'.promises p = true) ∧
      ∀ p ∈ sock'.waiting, p ∈ sock.waiting ∨ p = w.promises.heap.length ∧
        p < w'.promises.heap.length ∧ (∃ handlers, frame = .user handlers) ∧
          l.makesPromise i := by
  cases h with
  | quiet | connected | halfClosed | fullClosed | read | eofFirst | eofAgain | established
  | refused => exact ⟨fun p hp => .inl hp, fun p hp => .inl hp⟩
  | connecting handlers w' idle promises =>
      refine ⟨fun p hp => .inl ?_, fun p hp => ?_⟩
      · rw [SocketObject.waiting] at hp ⊢
        rw [← List.append_assoc]
        exact List.mem_append_left _ hp
      · rw [SocketObject.waiting, ← List.append_assoc] at hp
        rcases List.mem_append.mp hp with hp | hp
        · exact .inl hp
        · obtain rfl := List.mem_singleton.mp hp
          exact .inr ⟨rfl, by simp [promises, State.create], ⟨handlers, rfl⟩, rfl⟩
  | wrote handlers data answers w' eff r written promises =>
      cases SocketData.wrote written with
      | failed => exact ⟨fun p hp => .inl hp, fun p hp => .inl hp⟩
      | completed => exact ⟨fun p hp => .inl hp, fun p hp => .inl hp⟩
      | blocked flush loop exit_eq =>
          refine ⟨fun p hp => .inl ?_, fun p hp => ?_⟩
          · simp only [SocketObject.waiting, List.mem_append] at hp ⊢
            exact hp.imp_left fun hp => by simp [hp]
          · simp only [SocketObject.waiting, List.map_append, List.map_cons, List.map_nil,
              List.mem_append, List.mem_singleton] at hp
            rcases hp with (hp | hp) | hp
            · exact .inl (List.mem_append_left _ hp)
            · refine .inr ⟨hp, ?_, ⟨handlers, rfl⟩, rfl⟩
              simp [promises, State.create, hp]
            · exact .inl (List.mem_append_right _ hp)
  | flushed since answers w' eff r not_connecting written promises =>
      cases SocketData.flushed written with
      | failed => exact ⟨fun p hp => .inl hp, fun p hp => .inl hp⟩
      | flushed flush items s' loop exit_eq resolve =>
          have hleaves (item : PromiseQueueItem) (hitem : item ∈ sock.writePromiseQueue) :
              item ∈ items ∨ settled s' item.ctx = true := by
            have hlt (item : PromiseQueueItem) (hitem : item ∈ sock.writePromiseQueue) :
                item.ctx < w.promises.heap.length :=
              hknown _ (List.mem_append_left _ (List.mem_map_of_mem hitem))
            have hflush := settled_of_flushed (sock.bytesWritten + flush.offset) _ w.promises hlt
              hitem
            rwa [resolve] at hflush
          obtain ⟨reached, hsplit, -⟩ := resolveWritePromises_spec
            (sock.bytesWritten + flush.offset) sock.writePromiseQueue w.promises
          rw [resolve] at hsplit
          refine ⟨fun p hp => ?_, fun p hp => .inl ?_⟩
          · rcases List.mem_append.mp hp with hp | hp
            · obtain ⟨item, hitem, rfl⟩ := List.mem_map.mp hp
              rw [promises]
              refine (hleaves item hitem).imp_left ?_
              intro hitem
              exact List.mem_append_left _ (List.mem_map_of_mem hitem)
            · exact .inl (List.mem_append_right _ hp)
          · rcases List.mem_append.mp hp with hp | hp
            · obtain ⟨item, hitem, rfl⟩ := List.mem_map.mp hp
              apply List.mem_append_left
              apply List.mem_map_of_mem
              rw [hsplit]
              exact List.mem_append_right reached hitem
            · exact List.mem_append_right _ hp

/-! ### The promises that calls have returned -/

theorem World.connect_returned {w w' : World V E F} {answer : Answer} {eff : Effect}
    (h : w.connect i answer = some (w', eff))
    (hlt : w.promises.heap.length < w'.promises.heap.length) :
    settled w'.promises w.promises.heap.length = true ∨
      ∃ sock', w'.sockets[i]? = some sock' ∧ w.promises.heap.length ∈ sock'.waiting := by
  cases hget : w.sockets[i]? with
  | none => simp [World.connect, hget] at h
  | some sock =>
      by_cases hidle : sock.status = .idle
      · cases answer with
        | ret count =>
            simp only [World.connect, hget, hidle, ne_eq, not_true_eq_false, if_false,
              Option.ite_none_right_eq_some, Option.some.injEq, Prod.mk.injEq] at h
            rw [← h.2.1] at hlt
            exact absurd hlt (Nat.lt_irrefl _)
        | err errno =>
            cases errno with
            | inProgress =>
                obtain ⟨sock', hget', hmem⟩ := World.connect_waits h hget hidle
                exact .inr ⟨sock', hget', List.mem_append_right _ hmem⟩
            | again | wouldBlock | other code =>
                simp only [World.connect, hget, hidle, ne_eq, not_true_eq_false, if_false,
                  Option.ite_none_right_eq_some, Option.some.injEq, Prod.mk.injEq] at h
                rw [← h.2.1] at hlt
                exact absurd hlt (Nat.lt_irrefl _)
      · simp only [World.connect, hget, ne_eq, hidle, not_false_eq_true, if_true,
          Option.some.injEq, Prod.mk.injEq] at h
        rw [← h.1]
        exact .inl (settled_resolvedVoid w.promises)

theorem World.write_returned {w w' : World V E F} {data : List Byte} {answers : List Answer}
    {eff : Effect} (h : w.write i data answers = some (w', eff))
    (hlt : w.promises.heap.length < w'.promises.heap.length) :
    settled w'.promises w.promises.heap.length = true ∨
      ∃ sock', w'.sockets[i]? = some sock' ∧ w.promises.heap.length ∈ sock'.waiting := by
  cases hget : w.sockets[i]? with
  | none => simp [World.write, hget] at h
  | some sock =>
      obtain ⟨r, hr, hpromises, hget', -⟩ := World.write_result h hget
      rw [hpromises] at hlt ⊢
      cases SocketData.wrote hr with
      | failed => exact absurd hlt (Nat.lt_irrefl _)
      | completed => exact .inl (settled_resolvedVoid w.promises)
      | blocked => exact .inr ⟨_, hget', by simp [SocketObject.waiting]⟩

/-- A call on the socket settles the promise that it makes, or leaves it waiting. -/
theorem Stepped.returned (h : Stepped backend c l c') (hcalls : c.callsSocket i l)
    (hlt : c.world.promises.heap.length < c'.world.promises.heap.length) :
    settled c'.world.promises c.world.promises.heap.length = true ∨
      ∃ sock', c'.world.sockets[i]? = some sock' ∧
        c.world.promises.heap.length ∈ sock'.waiting := by
  simp only [Config.callsSocket] at hcalls
  split at hcalls
  · rename_i handlers rest k answer hstack
    subst hcalls
    obtain ⟨eff, hcall⟩ := h.connect_call
    exact World.connect_returned hcall hlt
  · rename_i handlers rest k data answers hstack
    subst hcalls
    obtain ⟨eff, hcall⟩ := h.write_call
    exact World.write_returned hcall hlt
  · rename_i rest hstack
    left
    obtain ⟨w, stack⟩ := c
    obtain rfl : stack = .connectTail :: rest := hstack
    cases h with
    | library w frame rest l w' eff piece =>
        simp only [libraryStep, Option.some.injEq, Prod.mk.injEq] at piece
        rw [Config.after_world, ← piece.1]
        exact settled_resolvedVoid w.promises
  · cases hcalls

/-- The promises that wait in the socket stay there or are settled, and a new one is made by a call
on the socket. -/
theorem Stepped.waiting (h : Stepped backend c l c')
    (hknown : ∀ sock, c.world.sockets[i]? = some sock →
      ∀ p ∈ sock.waiting, p < c.world.promises.heap.length) :
    (∀ sock, c.world.sockets[i]? = some sock → ∀ p ∈ sock.waiting,
      settled c'.world.promises p = true ∨
        ∃ sock', c'.world.sockets[i]? = some sock' ∧ p ∈ sock'.waiting) ∧
    ∀ sock', c'.world.sockets[i]? = some sock' → ∀ p ∈ sock'.waiting,
      (∃ sock, c.world.sockets[i]? = some sock ∧ p ∈ sock.waiting) ∨
        p = c.world.promises.heap.length ∧ p < c'.world.promises.heap.length ∧
          c.callsSocket i l := by
  cases hget : c.world.sockets[i]? with
  | none =>
      refine ⟨by simp, ?_⟩
      intro sock' hget' p hp
      rcases (h.made hget).1 with hnone | ⟨fd, status, hnew, -⟩
      · rw [hnone] at hget'
        cases hget'
      · obtain rfl := Option.some.inj (hnew.symm.trans hget')
        cases hp
  | some sock =>
      obtain ⟨sock₁, names, hmoved, hget₁, -⟩ := h.moved hget
      have hsame {sock' : SocketObject} (hget' : c'.world.sockets[i]? = some sock') :
          sock₁ = sock' := Option.some.inj (hget₁.symm.trans hget')
      cases hmoved with
      | stays c' =>
          refine ⟨?_, ?_⟩
          · rintro sock' heq p hp
            obtain rfl := Option.some.inj heq
            exact .inr ⟨sock, hget₁, hp⟩
          · intro sock' hget' p hp
            obtain rfl := hsame hget'
            exact .inl ⟨sock, rfl, hp⟩
      | turns top rest w' eff sock' names stack turn =>
          obtain ⟨hleaves, hcomes⟩ := turn.waiting (hknown sock hget)
          rw [Config.after_world] at hget₁ hsame ⊢
          refine ⟨?_, ?_⟩
          · rintro sock' heq p hp
            obtain rfl := Option.some.inj heq
            exact (hleaves p hp).symm.imp_right fun hmem => ⟨sock₁, hget₁, hmem⟩
          · intro sock' hget' p hp
            obtain rfl := hsame hget'
            refine (hcomes p hp).imp (fun hmem => ⟨sock, rfl, hmem⟩) ?_
            rintro ⟨hp, hlt, ⟨handlers, rfl⟩, hlabel⟩
            refine ⟨hp, hlt, ?_⟩
            cases l with
            | connect k answer | write k data answers =>
                simpa [Config.callsSocket, stack, Label.makesPromise] using hlabel
            | _ => cases hlabel

/-! ### Along a run -/

/-- The promises that the calls on the socket have returned are settled or wait in the socket. -/
structure Config.Tracked (backend : Backend) (i : ℕ) (ls : List Label) (c : Config V E F) :
    Prop where
  sound : c.Sound
  known : ∀ sock, c.world.sockets[i]? = some sock →
    ∀ p ∈ sock.waiting, p < c.world.promises.heap.length
  returned : ∀ p, SomeStep (step backend) (Config.returns backend i p) ({} : Config V E F) ls →
    settled c.world.promises p = true ∨
      ∃ sock, c.world.sockets[i]? = some sock ∧ p ∈ sock.waiting
  waits : ∀ sock, c.world.sockets[i]? = some sock → ∀ p ∈ sock.waiting,
    SomeStep (step backend) (Config.returns backend i p) ({} : Config V E F) ls
  refused : .error ∈ fired i c.world.log →
    ∃ sock, c.world.sockets[i]? = some sock ∧ sock.status ≠ .idle

theorem Config.Tracked.initial : ({} : Config V E F).Tracked backend i [] where
  sound := .initial
  known _ hget := by simp at hget
  returned p hsome := absurd hsome (not_someStep_nil _ _)
  waits _ hget := by simp at hget
  refused h := by cases h

/-- "error" fires for a socket that is connecting. -/
theorem Stepped.refused (h : Stepped backend c l c') (hfired : .error ∈ fired i c'.world.log) :
    .error ∈ fired i c.world.log ∨ ∃ sock since rest answer, c.world.sockets[i]? = some sock ∧
      sock.status = .connecting ∧ c.stack = .writePart i true since :: rest ∧
        l = .soError answer ∧ answer ≠ .ret 0 := by
  cases hget : c.world.sockets[i]? with
  | none =>
      rw [(h.made hget).2] at hfired
      exact .inl hfired
  | some sock =>
      obtain ⟨sock', names, hmoved, -, heq⟩ := h.moved hget
      rw [heq] at hfired
      refine (List.mem_append.mp hfired).imp_right ?_
      intro hname
      cases hmoved with
      | stays => cases hname
      | turns top rest w' eff sock' names stack turn =>
          cases turn with
          | refused since answer w' pending error =>
              exact ⟨sock, since, rest, answer, rfl, pending, stack, rfl, error⟩
          | quiet | connecting | wrote | halfClosed | flushed => cases hname
          | connected | fullClosed | read | eofFirst | eofAgain | established =>
              simp at hname

theorem Config.Tracked.step {ls : List Label} (h : c.Tracked backend i ls)
    (ht : run (Reactor.step backend) {} ls = some c) (hl : Reactor.step backend c l = some c') :
    c'.Tracked backend i (ls ++ [l]) := by
  have hstep := stepped hl
  obtain ⟨hleaves, hcomes⟩ := hstep.waiting h.known
  have hgrows := hstep.resolving.changes.length_le
  refine ⟨h.sound.step hl, ?_, ?_, ?_, ?_⟩
  · intro sock' hget' p hp
    rcases hcomes sock' hget' p hp with ⟨sock, hget, hmem⟩ | ⟨-, hlt, -⟩
    · exact Nat.lt_of_lt_of_le (h.known sock hget p hmem) hgrows
    · exact hlt
  · intro p hsome
    rcases (someStep_concat ht).mp hsome with hold | ⟨hcalls, rfl, c₁, hc₁, hlt⟩
    · rcases h.returned p hold with hsettled | ⟨sock, hget, hmem⟩
      · exact .inl (settled_mono hstep.resolving hsettled)
      · exact hleaves sock hget p hmem
    · obtain rfl := Option.some.inj (hl.symm.trans hc₁)
      exact hstep.returned hcalls hlt
  · intro sock' hget' p hp
    rcases hcomes sock' hget' p hp with ⟨sock, hget, hmem⟩ | ⟨hp, hlt, hcalls⟩
    · exact (someStep_concat ht).mpr (.inl (h.waits sock hget p hmem))
    · exact (someStep_concat ht).mpr (.inr ⟨hcalls, hp, c', hl, hlt⟩)
  · intro hfired
    have hbefore : ∃ sock, c.world.sockets[i]? = some sock ∧ sock.status ≠ .idle := by
      rcases hstep.refused hfired with hold | ⟨sock, since, rest, answer, hget, hpending, -⟩
      · exact h.refused hold
      · exact ⟨sock, hget, by simp [hpending]⟩
    obtain ⟨sock, hget, hbusy⟩ := hbefore
    obtain ⟨sock', names, hmoved, hget', -⟩ := hstep.moved hget
    refine ⟨sock', hget', ?_⟩
    intro hidle
    cases hmoved with
    | stays => exact hbusy hidle
    | turns top rest w' eff sock' names stack turn => exact hbusy (turn.of_idle hidle).1

theorem Config.Tracked.run {ls : List Label}
    (hrun : Automaton.run (Reactor.step backend) {} ls = some c) : c.Tracked backend i ls := by
  induction ls using List.reverseRecOn generalizing c with
  | nil =>
      obtain rfl := Option.some.inj hrun
      exact .initial
  | append_singleton ls l ih =>
      obtain ⟨t, ht, hlast⟩ := run_append_eq_some _ hrun
      obtain ⟨c', hl, hnil⟩ := run_cons_eq_some _ hlast
      obtain rfl := Option.some.inj hnil
      exact (ih ht).step ht hl

/-- Nothing hangs exactly when the queue is empty and the promise of `connect` is settled. -/
theorem Config.Tracked.noneHanging_iff {ls : List Label} (h : c.Tracked backend i ls) :
    NoneHanging backend i ls c ↔ (c.world.ended i = true → c.world.clear i = true) := by
  refine imp_congr_right ?_
  intro hended
  constructor
  · rintro ⟨hsettled, hqueue⟩
    cases hget : c.world.sockets[i]? with
    | none => simp [World.clear, hget]
    | some sock =>
        refine (clear_iff_waiting hget).mpr ⟨hqueue sock hget, ?_⟩
        intro p hp
        exact hsettled p (h.waits sock hget p hp)
  · intro hclear
    refine ⟨?_, ?_⟩
    · intro p hsome
      rcases h.returned p hsome with hsettled | ⟨sock, hget, hmem⟩
      · exact hsettled
      · exact ((clear_iff_waiting hget).mp hclear).2 p hmem
    · intro sock hget
      exact ((clear_iff_waiting hget).mp hclear).1

/-! ### The exits -/

omit [Blank V] in
theorem World.ended_iff {w : World V E F} : w.ended i = true ↔
    .error ∈ fired i w.log ∨ (∃ n, .closed (.socket i) n ∈ w.log) ∨ w.status? i = some .closed := by
  have hclosed : (w.log.any fun h => (h.closedBy? (.socket i)).isSome) = true ↔
      ∃ n, .closed (.socket i) n ∈ w.log := by
    rw [List.any_eq_true]
    constructor
    · rintro ⟨happening, hmem, hsome⟩
      cases happening with
      | closed t n =>
          simp only [Happening.closedBy?, Option.isSome_ite] at hsome
          exact ⟨n, hsome ▸ hmem⟩
      | _ => cases hsome
    · rintro ⟨n, hmem⟩
      exact ⟨_, hmem, by simp [Happening.closedBy?]⟩
  simp [ended, hclosed, or_assoc]

omit [Blank V] in
theorem World.closed?_socket {w : World V E F} {frame : Frame} {n : Fd} :
    w.closed? frame l = some (.socket i, n) ↔
      ∃ answer, closeCall? frame l = some (i, answer) ∧ w.closeDrops? i answer = some n := by
  constructor
  · intro h
    simp only [closed?] at h
    split at h
    all_goals simp only [Option.map_eq_some_iff, Prod.mk.injEq, Target.socket.injEq, reduceCtorEq,
      false_and, and_false, exists_const] at h
    · obtain ⟨fd, hfd, rfl, rfl⟩ := h
      exact ⟨_, rfl, hfd⟩
    · obtain ⟨fd, hfd, rfl, rfl⟩ := h
      exact ⟨_, rfl, hfd⟩
  · rintro ⟨answer, hcall, hdrops⟩
    simp only [closeCall?] at hcall
    split at hcall
    all_goals simp only [Option.some.injEq, Prod.mk.injEq, reduceCtorEq] at hcall
    all_goals
      obtain ⟨rfl, rfl⟩ := hcall
      simp [closed?, hdrops]

omit [Blank V] in
theorem Config.ends_of_close {frame : Frame} {rest : List Frame} {answer : Answer} {n : Fd}
    (hstack : c.stack = frame :: rest) (hcall : closeCall? frame l = some (i, answer))
    (hdrops : c.world.closeDrops? i answer = some n) : c.ends i l = true := by
  cases frame with
  | user | errorTail => simp [ends, hstack, hcall, hdrops]
  | _ => cases hcall

omit [Blank V] in
theorem Change.closes_of_mem {P : Permits} {w w' : World V E F} (h : Change P w w') {t : Target}
    {n : Fd} (hmem : .closed t n ∈ w'.log) : .closed t n ∈ w.log ∨ P.closes t n := by
  cases h with
  | neutral h => exact .inl (h.mem_of_mem hmem id)
  | addSocket | addServer | leak | advance | eofFirst | unreg | nullEntry | polled =>
      exact .inl hmem
  | closeCalled | endOfFile | eofAgain =>
      left
      simpa using hmem
  | halfClose i sock get status called drop =>
      split at hmem
      · rename_i hfd
        simp only [World.modifySocket_log, World.closeFd_log, List.mem_append,
          List.mem_singleton, Happening.closed.injEq] at hmem
        refine hmem.imp_right ?_
        rintro ⟨rfl, rfl⟩
        exact drop hfd
      · exact .inl hmem
  | fullClose i sock get status nonneg called drop =>
      simp only [World.record_log, World.modifySocket_log, World.closeFd_log, List.mem_append,
        List.mem_singleton, Happening.closed.injEq, reduceCtorEq, or_false] at hmem
      refine hmem.imp_right ?_
      rintro ⟨rfl, rfl⟩
      exact drop
  | closeServer j server get drop =>
      simp only [World.modifyServer_log, World.closeFd_log, List.mem_append, List.mem_singleton,
        Happening.closed.injEq] at hmem
      refine hmem.imp_right ?_
      rintro ⟨rfl, rfl⟩
      exact drop

/-- What closes the status of a socket. -/
theorem Turn.of_closed {w w' : World V E F} {sock sock' : SocketObject} {frame : Frame}
    {eff : Effect} {names : List EventName} (h : Turn w i sock frame l w' eff sock' names)
    (hclosed : sock'.status = .closed) : sock.status = .closed ∨
      sock.status = .halfClosed ∧ ((∃ count, closeCall? frame l = some (i, .ret count) ∧
        0 ≤ sock.fd) ∨ ∃ slot since, frame = .readTail i true slot since ∧ l = .tau) := by
  cases h with
  | quiet | read => exact .inl hclosed
  | wrote handlers data answers w' eff r written =>
      exact .inl ((wrote_status written).1.symm.trans hclosed)
  | flushed since answers w' eff r settled written =>
      exact .inl ((flushed_status written).1.symm.trans hclosed)
  | refused since answer w' pending => exact .inl hclosed
  | fullClosed frame l count w' call half fd_nonneg =>
      exact .inr ⟨half, .inl ⟨count, call, fd_nonneg⟩⟩
  | eofAgain slot since w' half => exact .inr ⟨half, .inr ⟨slot, since, rfl, rfl⟩⟩
  | connected | connecting | halfClosed | eofFirst | established => cases hclosed

/-- A socket ends in one of the exits. -/
theorem Stepped.ends (h : Stepped backend c l c') (hs : c.Sound)
    (hended : c'.world.ended i = true) : c.world.ended i = true ∨ c.ends i l = true := by
  rcases World.ended_iff.mp hended with herror | ⟨n, hmem⟩ | hstatus
  · rcases h.refused herror with hold | ⟨sock, since, rest, answer, -, -, hstack, rfl, hne⟩
    · exact .inl (World.ended_iff.mpr (.inl hold))
    · exact .inr (by simp [Config.ends, hstack, hne])
  · have hcloses : .closed (.socket i) n ∈ c.world.log ∨
        (c.permits backend l).closes (.socket i) n := by
      refine (h.changes hs.seen).induct (I := fun w => .closed (.socket i) n ∈ w.log →
        .closed (.socket i) n ∈ c.world.log ∨ (c.permits backend l).closes (.socket i) n) ?_ .inl
        hmem
      intro w w' hw hc hmem'
      exact (hc.closes_of_mem hmem').elim hw .inr
    refine hcloses.imp (fun hold => World.ended_iff.mpr (.inr (.inl ⟨n, hold⟩))) ?_
    intro hpermits
    cases hstack : c.stack with
    | nil => simp [Config.permits, hstack, Permits.none] at hpermits
    | cons frame rest =>
        have hclosed : c.world.closed? frame l = some (.socket i, n) := by
          simpa [Config.permits, hstack, World.permits] using hpermits
        obtain ⟨answer, hcall, hdrops⟩ := World.closed?_socket.mp hclosed
        exact Config.ends_of_close hstack hcall hdrops
  · cases hget : c.world.sockets[i]? with
    | none =>
        rcases (h.made hget).1 with hnone | ⟨fd, status, hnew, hfresh⟩
        · simp [World.status?, World.core?, hnone] at hstatus
        · obtain rfl : status = .closed := by
            simpa [World.status?, World.core?, hnew] using hstatus
          simp at hfresh
    | some sock =>
        obtain ⟨sock', names, hmoved, hget', -⟩ := h.moved hget
        have hclosed : sock'.status = .closed := by
          simpa [World.status?, World.core?, hget'] using hstatus
        have hold (hsock : sock.status = .closed) : c.world.ended i = true :=
          World.ended_iff.mpr (.inr (.inr (by simp [World.status?, World.core?, hget, hsock])))
        cases hmoved with
        | stays => exact .inl (hold hclosed)
        | turns top rest w' eff sock' names stack turn =>
            rcases turn.of_closed hclosed with hsock | ⟨hhalf, ⟨count, hcall, hfd⟩ |
              ⟨slot, since, rfl, rfl⟩⟩
            · exact .inl (hold hsock)
            · right
              refine Config.ends_of_close (n := sock.fd) stack hcall ?_
              simp [World.closeDrops?, hget, hhalf, hfd]
            · right
              simp [Config.ends, stack, World.status?, World.core?, hget, hhalf]

namespace World

variable {w w' : World V E F} {eff : Effect}

omit [Blank V]

/-- A change that leaves the queue and the handlers of `connect`. -/
theorem clear_modifySocket (f : SocketObject → SocketObject)
    (hqueue : ∀ sock, (f sock).writePromiseQueue = sock.writePromiseQueue)
    (hhandlers : ∀ sock, (f sock).connectHandlers = sock.connectHandlers) :
    (w.modifySocket i f).clear i = w.clear i := by
  have hmodified : (w.modifySocket i f).sockets[i]? = (w.sockets[i]?).map f := by
    simp [getElem?_modifySocket]
  rw [clear, clear, hmodified]
  cases w.sockets[i]? with
  | none => rfl
  | some sock =>
      simp only [Option.map_some, Option.all_some, hqueue, hhandlers]
      rfl

theorem connectEvent_ends {since : ℕ} {answer : Answer}
    (h : w.connectEvent i since answer = some (w', eff)) (hne : answer ≠ .ret 0) :
    w'.ended i = true ∧ w'.clear i = w.clear i := by
  cases hget : w.sockets[i]? with
  | none => simp [connectEvent, hget] at h
  | some sock =>
      simp only [connectEvent, hget, hne, if_false, Option.ite_none_right_eq_some,
        Option.some.injEq, Prod.mk.injEq] at h
      rw [← h.2.1]
      exact ⟨ended_iff.mpr (.inl (by simp [record])), rfl⟩

theorem endOfFile_ends {slot : Option ℕ} {since : ℕ}
    (h : w.endOfFile i true slot since = some (w', eff))
    (hhalf : w.status? i = some .halfClosed) : w'.ended i = true ∧ w'.clear i = w.clear i := by
  cases hget : w.sockets[i]? with
  | none => simp [World.endOfFile, hget] at h
  | some sock =>
      have hsock : sock.status = .halfClosed := by simpa [status?, core?, hget] using hhalf
      simp only [World.endOfFile, hget, if_true, hsock, Option.some.injEq, Prod.mk.injEq] at h
      rw [← h.1]
      refine ⟨ended_iff.mpr (.inr (.inr ?_)), clear_modifySocket _ (fun _ => rfl) fun _ => rfl⟩
      rw [status?, core?_record, core?_modifySocket_self _ hget]
      rfl

theorem closeSocket_ends {answer : Answer} {n : Fd} (h : w.closeSocket i answer = some (w', eff))
    (hn : w.closeDrops? i answer = some n) : w'.ended i = true ∧ w'.clear i = w.clear i := by
  obtain ⟨sock, -, rfl, -, -, hrest⟩ := closeSocket_of_drops h hn
  have hw : w' = _ := (congrArg Prod.fst hrest).symm
  rw [hw, closeRest]
  split
  · refine ⟨ended_iff.mpr (.inr (.inl ⟨sock.fd, by simp⟩)), ?_⟩
    exact clear_modifySocket _ (fun _ => rfl) fun _ => rfl
  · split
    · refine ⟨ended_iff.mpr (.inr (.inl ⟨sock.fd, by simp⟩)), ?_⟩
      exact clear_modifySocket _ (fun _ => rfl) fun _ => rfl
    · exact ⟨ended_iff.mpr (.inr (.inl ⟨sock.fd, by simp⟩)), rfl⟩

end World

/-- The exits look at no promise. -/
theorem Stepped.ends_clear (h : Stepped backend c l c') (hends : c.ends i l = true) :
    c'.world.ended i = true ∧ c'.world.clear i = c.world.clear i := by
  have hclose {w w' : World V E F} {frame : Frame} {eff : Effect}
      (hpiece : pieceStep backend w frame l = some (w', eff))
      (hcall : ∃ answer n, closeCall? frame l = some (i, answer) ∧
        w.closeDrops? i answer = some n) : w'.ended i = true ∧ w'.clear i = w.clear i := by
    obtain ⟨answer, n, hcall, hdrops⟩ := hcall
    simp only [closeCall?] at hcall
    split at hcall
    all_goals simp only [Option.some.injEq, Prod.mk.injEq, reduceCtorEq] at hcall
    all_goals
      obtain ⟨rfl, rfl⟩ := hcall
      exact World.closeSocket_ends hpiece hdrops
  cases h with
  | handler | return_ | throw_ => simp [Config.ends, closeCall?] at hends
  | user w handlers rest l w' eff call =>
      rw [Config.after_world]
      have hpiece : pieceStep backend w (.user handlers) l = some (w', eff) := call
      refine hclose hpiece ?_
      simp only [Config.ends] at hends
      split at hends
      · rename_i k answer hcall
        simp only [Bool.and_eq_true, decide_eq_true_eq, Option.isSome_iff_exists] at hends
        obtain ⟨rfl, n, hn⟩ := hends
        exact ⟨answer, n, hcall, hn⟩
      · cases hends
  | library w frame rest l w' eff piece =>
      rw [Config.after_world]
      simp only [Config.ends] at hends
      split at hends
      · rename_i heq
        obtain ⟨rfl, rfl⟩ := List.cons.inj heq
        split at hends
        · simp only [decide_eq_true_eq] at hends
          obtain ⟨rfl, hne⟩ := hends
          exact World.connectEvent_ends piece hne
        · cases hends
      · rename_i heq
        obtain ⟨rfl, rfl⟩ := List.cons.inj heq
        simp only [decide_eq_true_eq] at hends
        obtain ⟨rfl, rfl, hhalf⟩ := hends
        exact World.endOfFile_ends piece hhalf
      · rename_i frame' stack hnoWrite hnoTail heq
        obtain ⟨rfl, rfl⟩ := List.cons.inj heq
        refine hclose (pieceStep_of_library piece) ?_
        split at hends
        · rename_i k answer hcall
          simp only [Bool.and_eq_true, decide_eq_true_eq, Option.isSome_iff_exists] at hends
          obtain ⟨rfl, n, hn⟩ := hends
          exact ⟨answer, n, hcall, hn⟩
        · cases hends
      · cases hends

/-- What empties a queue or settles a promise stays so at a socket that has ended. -/
theorem Stepped.stays_clear (h : Stepped backend c l c') (hclear : c.world.clear i = true)
    (hbusy : ∀ sock, c.world.sockets[i]? = some sock → sock.status ≠ .idle)
    (hblocks : ∀ handlers rest data answers, c.stack = .user handlers :: rest →
      l = .write i data answers → exitOf answers ≠ .blocked) : c'.world.clear i = true := by
  have hmono {p : Ref} := settled_mono (p := p) h.resolving
  cases hget : c.world.sockets[i]? with
  | none =>
      rcases (h.made hget).1 with hnone | ⟨fd, status, hnew, -⟩
      · simp [World.clear, hnone]
      · simp [World.clear, hnew]
  | some sock =>
      obtain ⟨hqueue, hhandlers⟩ := (World.clear_iff hget).mp hclear
      obtain ⟨sock', names, hmoved, hget', -⟩ := h.moved hget
      suffices hsame : sock'.writePromiseQueue = [] ∧
          sock'.connectHandlers = sock.connectHandlers by
        rw [World.clear_iff hget', hsame.2]
        exact ⟨hsame.1, fun p hp => hmono (hhandlers p hp)⟩
      cases hmoved with
      | stays => exact ⟨hqueue, rfl⟩
      | turns top rest w' eff sock' names stack turn =>
          cases turn with
          | connecting handlers w' idle => exact absurd idle (hbusy sock hget)
          | wrote handlers data answers w' eff r written =>
              cases SocketData.wrote written with
              | failed | completed => exact ⟨hqueue, rfl⟩
              | blocked flush loop exit_eq =>
                  exact absurd ((writeLoop_exit loop).symm.trans exit_eq)
                    (hblocks handlers rest data answers stack rfl)
          | flushed since answers w' eff r not_connecting written =>
              cases SocketData.flushed written with
              | failed => exact ⟨hqueue, rfl⟩
              | flushed flush items s' loop exit_eq resolve =>
                  rw [hqueue, resolveWritePromises] at resolve
                  exact ⟨(Prod.mk.inj resolve).1.symm, rfl⟩
          | quiet | connected | halfClosed | fullClosed | read | eofFirst | eofAgain | established
          | refused => exact ⟨hqueue, rfl⟩

/-- A `::write` that would block leaves its promise in the queue. -/
theorem World.write_blocks {w w' : World V E F} {data : List Byte} {answers : List Answer}
    {eff : Effect} (h : w.write i data answers = some (w', eff))
    (hblocked : exitOf answers = .blocked) :
    w'.clear i = false ∧ fired i w'.log = fired i w.log ∧ w'.status? i = w.status? i := by
  cases hget : w.sockets[i]? with
  | none => simp [World.write, hget] at h
  | some sock =>
      obtain ⟨r, hr, -, hget', hfired⟩ := World.write_result h hget
      refine ⟨?_, hfired, by simp [World.status?, World.core?, hget, hget', (wrote_status hr).1]⟩
      cases SocketData.wrote hr with
      | failed flush errno loop exit_eq =>
          rw [writeLoop_exit loop, hblocked] at exit_eq
          cases exit_eq
      | completed flush loop exit_eq =>
          rw [writeLoop_exit loop, hblocked] at exit_eq
          cases exit_eq
      | blocked => simp [World.clear, hget']

theorem Config.Tracked.busy {ls : List Label} (h : c.Tracked backend i ls)
    (hended : c.world.ended i = true) : ∀ sock, c.world.sockets[i]? = some sock →
      sock.status ≠ .idle := by
  intro sock hget hidle
  rcases World.ended_iff.mp hended with herror | ⟨n, hmem⟩ | hclosed
  · obtain ⟨sock', hget', hbusy⟩ := h.refused herror
    obtain rfl := Option.some.inj (hget.symm.trans hget')
    exact hbusy hidle
  · obtain ⟨fd, status, hcore, hstatus, -⟩ := h.sound.world.closedSocket i n hmem
    rw [World.core?_eq _ hget, hidle] at hcore
    obtain ⟨-, rfl⟩ := Prod.mk.inj (Option.some.inj hcore)
    simp at hstatus
  · simp [World.status?, World.core?, hget, hidle] at hclosed

/-! ### The result -/

/-- A guarded step keeps the promises of an ended socket settled. -/
theorem Config.Tracked.accounts {ls : List Label} (h : c.Tracked backend i ls)
    (hclear : c.world.ended i = true → c.world.clear i = true) (hguard : c.AccountsFor i l)
    (hl : Reactor.step backend c l = some c') (hended : c'.world.ended i = true) :
    c'.world.clear i = true := by
  have hstep := stepped hl
  by_cases hends : c.ends i l = true
  · rw [(hstep.ends_clear hends).2]
    exact hguard.1 hends
  · have hbefore := (hstep.ends h.sound hended).resolve_right hends
    refine hstep.stays_clear (hclear hbefore) (h.busy hbefore) ?_
    rintro handlers rest data answers hstack rfl hblocked
    have hfree := hguard.2
    simp [blocksEnded, hstack, hblocked, hbefore] at hfree

/-- A step that is not guarded leaves a promise pending, or an item in the queue. -/
theorem Config.Tracked.guarded {ls : List Label} (h : c.Tracked backend i ls)
    (hl : Reactor.step backend c l = some c')
    (hclear : c'.world.ended i = true → c'.world.clear i = true) : c.AccountsFor i l := by
  have hstep := stepped hl
  constructor
  · intro hends
    obtain ⟨hended, hsame⟩ := hstep.ends_clear hends
    exact hsame.symm.trans (hclear hended)
  · by_contra hblocks
    simp only [blocksEnded, Bool.not_eq_false] at hblocks
    split at hblocks
    · rename_i handlers rest k data answers hstack
      simp only [Bool.and_eq_true, decide_eq_true_eq] at hblocks
      obtain ⟨⟨rfl, hblocked⟩, hended⟩ := hblocks
      obtain ⟨eff, hcall⟩ := hstep.write_call
      obtain ⟨hnot, hfired, hstatus⟩ := World.write_blocks hcall hblocked
      rw [hclear] at hnot
      · cases hnot
      · refine World.ended_iff.mpr ((World.ended_iff.mp hended).imp (by rw [hfired]; exact id) ?_)
        refine Or.imp ?_ (by rw [hstatus]; exact id)
        rintro ⟨n, hmem⟩
        exact ⟨n, (hstep.changes h.sound.seen).log_grows.subset hmem⟩
    · cases hblocks

/-- In every state that a run reaches the promises of an ended socket are settled exactly when each
exit finds them settled, and no later `::write` would block. -/
theorem no_promise_hanging {ls : List Label} (hrun : run (step backend) {} ls = some c) :
    (∀ before (t : Config V E F), before <+: ls → run (step backend) {} before = some t →
      NoneHanging backend i before t) ↔
      EachStep (step backend) (Config.AccountsFor i) ({} : Config V E F) ls := by
  refine reached_iff_eachStep ?_ ?_ ?_ hrun
  · rw [Config.Tracked.initial.noneHanging_iff]
    intro hended
    rfl
  · intro ls t l u ht hnone hguard hl
    have htracked : t.Tracked backend i ls := .run ht
    rw [(htracked.step ht hl).noneHanging_iff]
    exact htracked.accounts (htracked.noneHanging_iff.mp hnone) hguard hl
  · intro ls t l u ht hl hnone
    have htracked : t.Tracked backend i ls := .run ht
    exact htracked.guarded hl ((htracked.step ht hl).noneHanging_iff.mp hnone)

end Machine

/-- The events of a socket whose connection attempt has ended. -/
def connectDone (rest : List Label) : List Label :=
  [.newSocket 3 none, .connect 0 (.err .inProgress), .poll [(⟨3, false, true⟩, .socket 0)],
    .tau] ++ rest

/-- The connection is established, and a byte is sent before the socket is closed. -/
def sentRun : List Label :=
  connectDone [.soError (.ret 0), .handler, .return_, .tau, .write 0 [7] [.err .again],
    .poll [(⟨3, false, true⟩, .socket 0)], .tau, .flush [.ret 1], .tau, .close 0 (.ret 0)]

theorem no_promise_hanging_sample : ∃ c : Config ℕ ℕ SampleHandler,
    run (step .epoll) {} sentRun = some c ∧ c.world.ended 0 = true ∧
      NoneHanging .epoll 0 sentRun c := by
  obtain ⟨c, hrun, hended⟩ : ∃ c : Config ℕ ℕ SampleHandler,
      run (step .epoll) {} sentRun = some c ∧ c.world.ended 0 = true := ⟨_, rfl, rfl⟩
  refine ⟨c, hrun, hended, ?_⟩
  exact (no_promise_hanging hrun).mpr (by decide +kernel) sentRun c List.prefix_rfl hrun

/-- The connection is refused. -/
def refusedRun : List Label := connectDone [.soError (.ret 111), .return_, .closing (.ret 0), .tau]

/-- "error" fires, and the promise of `connect` is still pending when control is back in the main
program. -/
theorem refusedRun_hangs : ∃ c : Config ℕ ℕ SampleHandler,
    run (step .epoll) {} refusedRun = some c ∧ c.stack = [.user []] ∧
      fired 0 c.world.log = [.error] ∧ settled c.world.promises 0 = false ∧
      ¬ NoneHanging .epoll 0 refusedRun c := by
  refine ⟨_, rfl, rfl, rfl, rfl, ?_⟩
  intro hnone
  have hsettled := (hnone rfl).1 0 ⟨[.newSocket 3 none], .connect 0 (.err .inProgress),
    [.poll [(⟨3, false, true⟩, .socket 0)], .tau, .soError (.ret 111), .return_, .closing (.ret 0),
      .tau], _, rfl, rfl, rfl, rfl, _, rfl, by decide⟩
  cases hsettled

end Libasync.Reactor
