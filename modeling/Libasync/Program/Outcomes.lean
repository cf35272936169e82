import Libasync.Program.Clients
import Libasync.Promise.Advance
import Libasync.Reactor.ConnectPromises

/-! # What the promises of sockets say

User code has no context of the promises of `write` and `connect`, so only the socket settles them.
A handler of such a promise can count on the data having been written, or on "connect" having been
triggered. -/

namespace Libasync.Program

open Automaton
open Promise hiding Config Label step Step
open Socket
open Reactor (Backend World Holder SocketObject Frame Effect EventName Turn Stepped Resolve
  Resolving IsResolved FreshIn fired)

variable {V E F : Type*}

/-! ## What is to hold -/

/-- `bytes_written` has reached the end of the data, or "connect" has been triggered. -/
def Purpose.Done (w : World V E F) : Purpose → Prop
  | .sent i target => ∃ sock, w.sockets[i]? = some sock ∧ target ≤ sock.bytesWritten
  | .connected i => .connect ∈ fired i w.log

/-- The promise is pending, and the context is in the queue of the socket only, with a target that
lies at the end of the data or after it. -/
structure WaitsInQueue (i target : ℕ) (p : Ref) (c : Reactor.Config V E F) : Prop where
  pending : c.world.promises.status? p = some .pending
  held : ∀ holder, c.Holds p holder → holder = .queue i
  target_le : ∀ sock, c.world.sockets[i]? = some sock →
    ∀ item ∈ sock.writePromiseQueue, item.ctx = p → target ≤ item.target

/-- The promise waits for its purpose. -/
def Purpose.Waits (c : Reactor.Config V E F) (p : Ref) : Purpose → Prop
  | .sent i target => WaitsInQueue i target p c
  | .connected i => c.Waits i p ∧
      ∃ sock, c.world.sockets[i]? = some sock ∧ sock.status ≠ .connected

theorem Purpose.Waits.pending {c : Reactor.Config V E F} {p : Ref} {purpose : Purpose}
    (h : purpose.Waits c p) : c.world.promises.status? p = some .pending := by
  cases purpose with
  | sent i target => exact WaitsInQueue.pending h
  | connected i => exact h.1.pending

/-- Where a context is does not depend on the promises. -/
theorem Purpose.Waits.withPromises {c : Reactor.Config V E F} {p : Ref} {purpose : Purpose}
    (h : purpose.Waits c p) {s : State V E F} (hpending : s.status? p = some .pending) :
    purpose.Waits { c with world := { c.world with promises := s } } p := by
  cases purpose with
  | sent i target =>
      have hqueued : WaitsInQueue i target p c := h
      exact ⟨hpending, hqueued.held, hqueued.target_le⟩
  | connected i => exact ⟨⟨hpending, h.1.held⟩, h.2⟩

section Sockets

variable [Blank V] {w w' : World V E F} {i : ℕ} {sock sock' : SocketObject} {frame : Frame}
  {l : Reactor.Label} {eff : Effect} {names : List EventName}

/-! ## Progress of a socket -/

/-- Written bytes stay counted. -/
theorem bytesWritten_le (h : Turn w i sock frame l w' eff sock' names) :
    sock.bytesWritten ≤ sock'.bytesWritten := by
  cases h with
  | wrote handlers data answers w' eff r written promises =>
      cases SocketData.wrote written with
      | failed => exact Nat.le_refl _
      | completed | blocked => exact Nat.le_add_right _ _
  | flushed since answers w' eff r settled written promises =>
      cases SocketData.flushed written with
      | failed => exact Nat.le_refl _
      | flushed => exact Nat.le_add_right _ _
  | quiet | connected | connecting | halfClosed | fullClosed | read | eofFirst | eofAgain
  | established | refused => exact Nat.le_refl _

/-- An entry of the queue was there, or it is the one of the promise just made. -/
theorem item_mem (h : Turn w i sock frame l w' eff sock' names) {item : PromiseQueueItem}
    (hitem : item ∈ sock'.writePromiseQueue) :
    item ∈ sock.writePromiseQueue ∨ item.ctx = w.promises.heap.length := by
  cases h with
  | wrote handlers data answers w' eff r written promises =>
      cases SocketData.wrote written with
      | failed | completed => exact .inl hitem
      | blocked flush loop exit_eq =>
          rcases List.mem_append.mp hitem with hold | hnew
          · exact .inl hold
          · rw [List.mem_singleton.mp hnew]
            exact .inr rfl
  | flushed since answers w' eff r settled written promises =>
      cases SocketData.flushed written with
      | failed => exact .inl hitem
      | flushed flush items s' loop exit_eq resolve =>
          obtain ⟨reached, hsplit, -⟩ := resolveWritePromises_spec
            (sock.bytesWritten + flush.offset) sock.writePromiseQueue w.promises
          rw [resolve] at hsplit
          exact .inl (hsplit ▸ List.mem_append_right reached hitem)
  | quiet | connected | connecting | halfClosed | fullClosed | read | eofFirst | eofAgain
  | established | refused => exact .inl hitem

/-- A socket becomes connected in a branch that triggers "connect". -/
theorem connect_mem_names (h : Turn w i sock frame l w' eff sock' names)
    (hbefore : sock.status ≠ .connected) (hafter : sock'.status = .connected) :
    .connect ∈ names := by
  cases h with
  | connected | established => exact List.mem_singleton_self _
  | quiet | read | refused => exact absurd hafter hbefore
  | connecting | halfClosed | fullClosed | eofFirst | eofAgain => cases hafter
  | wrote handlers data answers w' eff r written promises =>
      cases SocketData.wrote written with
      | failed | completed | blocked => exact absurd hafter hbefore
  | flushed since answers w' eff r settled written promises =>
      cases SocketData.flushed written with
      | failed | flushed => exact absurd hafter hbefore

variable {backend : Backend} {c c' : Reactor.Config V E F} {p : Ref}

theorem Purpose.Done.step {purpose : Purpose} (h : purpose.Done c.world)
    (hstep : Stepped backend c l c') : purpose.Done c'.world := by
  cases purpose with
  | sent i target =>
      obtain ⟨sock, hget, hle⟩ := h
      obtain ⟨sock', names, hmoved, hget', -⟩ := hstep.moved hget
      refine ⟨sock', hget', ?_⟩
      cases hmoved with
      | stays => exact hle
      | turns top rest w' eff sock' names stack turn =>
          exact Nat.le_trans hle (bytesWritten_le turn)
  | connected i =>
      cases hget : c.world.sockets[i]? with
      | none =>
          simp only [Done, (hstep.made hget).2]
          exact h
      | some sock =>
          obtain ⟨sock', names, -, -, hfired⟩ := hstep.moved hget
          simp only [Done, hfired]
          exact List.mem_append_left names h

/-! ## A waiting promise -/

/-- The promise of a `connect` waits until "connect" is triggered. -/
theorem waits_connected_step (h : (Purpose.connected i).Waits c p)
    (hstep : Stepped backend c l c') :
    (Purpose.connected i).Done c'.world ∨ (Purpose.connected i).Waits c' p := by
  obtain ⟨hwaits, sock, hget, hbefore⟩ := h
  obtain ⟨sock', names, hmoved, hget', hfired⟩ := hstep.moved hget
  by_cases hafter : sock'.status = .connected
  · left
    simp only [Purpose.Done, hfired]
    refine List.mem_append_right _ ?_
    cases hmoved with
    | stays => exact absurd hafter hbefore
    | turns top rest w' eff sock' names stack turn => exact connect_mem_names turn hbefore hafter
  · refine .inr ⟨hwaits.step hstep ?_, sock', hget', hafter⟩
    intro hconnected
    exact hafter (World.status_eq hget' hconnected)

/-- The write branch resolves a promise of the queue only when its target is reached. -/
theorem WaitsInQueue.pending_of_flush {target since : ℕ} {rest : List Frame} {answers : List Answer}
    (h : WaitsInQueue i target p c) (hstack : c.stack = .writePart i true since :: rest)
    (hstep : Stepped backend c (.flush answers) c') :
    (Purpose.sent i target).Done c'.world ∨
      c'.world.promises.status? p = some .pending := by
  cases hstep with
  | user w handlers rest' l w' eff call => cases hstack
  | library w frame rest' l w' eff piece =>
      obtain ⟨rfl, rfl⟩ := List.cons.inj hstack
      have hflush : w.flushEvent i answers = some (w', eff) := piece
      rw [Reactor.Config.after_world]
      cases hget : w.sockets[i]? with
      | none => simp [World.flushEvent, hget] at hflush
      | some sock =>
          obtain ⟨-, r, hr, hpromises, hget', -⟩ := World.flushEvent_result hflush hget
          rw [hpromises]
          cases SocketData.flushed hr with
          | failed => exact .inr h.pending
          | flushed flush items s' loop exit_eq resolve =>
              obtain ⟨reached, hsplit, hreached, -, hchanges⟩ := resolveWritePromises_spec
                (sock.bytesWritten + flush.offset) sock.writePromiseQueue w.promises
              rw [resolve] at hsplit hchanges
              by_cases hmem : ∃ item ∈ reached, item.ctx = p
              · obtain ⟨item, hitem, hctx⟩ := hmem
                have hqueued : item ∈ sock.writePromiseQueue :=
                  hsplit ▸ List.mem_append_left _ hitem
                exact .inl ⟨_, hget', Nat.le_trans (h.target_le sock hget item hqueued hctx)
                  (hreached item hitem)⟩
              · exact .inr (hchanges.status_eq h.pending (.inr hmem))

/-- The promise of a `write` waits until the end of its data has been reached. -/
theorem WaitsInQueue.step {target : ℕ} (h : WaitsInQueue i target p c)
    (hstep : Stepped backend c l c') :
    (Purpose.sent i target).Done c'.world ∨ WaitsInQueue i target p c' := by
  by_cases hdone : (Purpose.sent i target).Done c'.world
  · exact .inl hdone
  · have hpending : c'.world.promises.status? p = some .pending := by
      by_cases hflush : c.flushes i l
      · obtain ⟨since, rest, answers, hstack, rfl⟩ := hflush
        exact (h.pending_of_flush hstack hstep).resolve_left hdone
      · refine hstep.stays_pending h.pending (fun hrunning => ?_) fun k hk hqueue => ?_
        · cases h.held _ hrunning
        · obtain rfl := Holder.queue.inj (h.held _ hqueue)
          exact hflush hk
    have hlt : p < c.world.promises.heap.length := lt_of_status? h.pending
    refine .inr ⟨hpending, fun holder hholds => ?_, fun sock' hget' item hitem hctx => ?_⟩
    · rcases hstep.holds hholds with hold | ⟨hfresh, -⟩ | ⟨-, k, hold, -⟩
      · exact h.held holder hold
      · exact absurd hlt (Nat.not_lt.mpr (Nat.le_of_eq hfresh.1.symm))
      · cases h.held _ hold
    · cases hget : c.world.sockets[i]? with
      | none =>
          rcases (hstep.made hget).1 with hnone | ⟨fd, status, hnew, -⟩
          · rw [hnone] at hget'
            cases hget'
          · obtain rfl := Option.some.inj (hnew.symm.trans hget')
            cases hitem
      | some sock =>
          obtain ⟨sock₁, names, hmoved, hget₁, -⟩ := hstep.moved hget
          obtain rfl := Option.some.inj (hget₁.symm.trans hget')
          cases hmoved with
          | stays => exact h.target_le sock hget item hitem hctx
          | turns top rest w' eff sock' names stack turn =>
              rcases item_mem turn hitem with hold | hnew
              · exact h.target_le sock hget item hold hctx
              · exact absurd hlt (Nat.not_lt.mpr (Nat.le_of_eq (hnew.symm.trans hctx)))

theorem Purpose.Waits.step {purpose : Purpose} (h : purpose.Waits c p)
    (hstep : Stepped backend c l c') : purpose.Done c'.world ∨ purpose.Waits c' p := by
  cases purpose with
  | sent i target => exact WaitsInQueue.step h hstep
  | connected i => exact waits_connected_step h hstep

/-! ## A new promise -/

/-- The promise of a `write` waits, or all is written and the promise is resolved. -/
theorem made_by_write {data : List Byte} {answers : List Answer} {r : Result V E F Ref}
    (hknown : c.Known) (hstep : Stepped backend c (.write i data answers) c')
    (hget : c.world.sockets[i]? = some sock)
    (hr : sock.toSocketData.write c.world.promises data answers = some r)
    (hresult : r.result = .ok p) :
    WaitsInQueue i (sock.bytesWritten + (sock.buffer ++ data).length) p c' ∨
      IsResolved c'.world.promises p ∧
        (Purpose.sent i (sock.bytesWritten + (sock.buffer ++ data).length)).Done c'.world := by
  have hheld : p = c.world.promises.heap.length →
      ∀ holder, c'.Holds p holder → holder = .queue i := by
    intro hp holder hholds
    cases holder with
    | queue k =>
        obtain rfl : i = k := hstep.makes_of_holds hknown hp hholds
        rfl
    | running | handlers k => cases hstep.makes_of_holds hknown hp hholds
  obtain ⟨eff, hwrite⟩ := hstep.write_call
  obtain ⟨r', hr', hpromises, hget', -⟩ := World.write_result hwrite hget
  obtain rfl := Option.some.inj (hr.symm.trans hr')
  cases SocketData.wrote hr with
  | failed => cases hresult
  | completed flush loop exit_eq =>
      obtain rfl := Except.ok.inj hresult
      refine .inr ⟨?_, _, hget', ?_⟩
      · rw [hpromises]
        exact Reactor.status?_resolvedVoid_self _
      · have hoffset := (writeLoop_spec loop).completed exit_eq
        exact Nat.add_le_add_left (Nat.le_of_eq hoffset.symm) _
  | blocked flush loop exit_eq =>
      obtain rfl := Except.ok.inj hresult
      refine .inl ⟨?_, hheld rfl, ?_⟩
      · rw [hpromises, Reactor.State.status?_create, if_pos rfl]
      · intro sock' hsock' item hitem hctx
        obtain rfl := Option.some.inj (hget'.symm.trans hsock')
        rcases List.mem_append.mp hitem with hold | hnew
        · exact absurd (hknown _ (.queue i) ⟨sock, hget, item, hold, hctx⟩) (Nat.lt_irrefl _)
        · rw [List.mem_singleton.mp hnew]
          simp only [List.length_drop]
          omega

/-- The promise of a `connect` that cannot be finished at once waits. -/
theorem made_by_connect (hknown : c.Known) (hidle : c.world.status? i = some .idle)
    (hl : Reactor.step backend c (.connect i (.err .inProgress)) = some c')
    (hp : p = c.world.promises.heap.length) : (Purpose.connected i).Waits c' p := by
  obtain ⟨eff, hcall⟩ := (Reactor.stepped hl).connect_call
  obtain ⟨sock, hget, hstatus⟩ := World.socket_of_status hidle
  simp only [World.connect, hget, hstatus, ne_eq, not_true_eq_false, if_false,
    Option.ite_none_right_eq_some, Option.some.injEq, Prod.mk.injEq] at hcall
  have hlt : p < c'.world.promises.heap.length := by
    rw [hp, ← hcall.2.1]
    exact Reactor.heap_length_create _
  have hget' : c'.world.sockets[i]? = some { sock with
      status := .connecting
      connectHandlers := sock.connectHandlers ++ [c.world.promises.heap.length] } := by
    rw [← hcall.2.1, World.getElem?_modifySocket, if_pos rfl, hget]
    rfl
  exact ⟨.of_connect hknown hidle hl ⟨hp, hlt⟩, _, hget', by simp⟩

/-- The calls whose promises are for something. -/
theorem makes_cases {purpose : Purpose} (hmade : makes w l = some (p, purpose)) :
    (∃ i data answers sock r, l = .write i data answers ∧ w.sockets[i]? = some sock ∧
      sock.toSocketData.write w.promises data answers = some r ∧ r.result = .ok p ∧
      purpose = .sent i (sock.bytesWritten + (sock.buffer ++ data).length)) ∨
    ∃ i, l = .connect i (.err .inProgress) ∧ w.status? i = some .idle ∧
      p = w.promises.heap.length ∧ purpose = .connected i := by
  cases l with
  | write i data answers =>
      simp only [makes] at hmade
      split at hmade
      · cases hmade
      · rename_i sock hget
        split at hmade
        · rename_i q hresult
          obtain ⟨r, hr, hresult⟩ := Option.map_eq_some_iff.mp hresult
          obtain ⟨rfl, rfl⟩ := Prod.mk.inj (Option.some.inj hmade)
          exact .inl ⟨i, data, answers, sock, r, rfl, hget, hr, hresult, rfl⟩
        · cases hmade
  | connect i answer =>
      cases answer with
      | ret count => cases hmade
      | err errno =>
          cases errno with
          | inProgress =>
              obtain ⟨hidle, hmade⟩ := Option.ite_none_right_eq_some.mp hmade
              obtain ⟨rfl, rfl⟩ := Prod.mk.inj (Option.some.inj hmade)
              exact .inr ⟨i, rfl, hidle, rfl, rfl⟩
          | again | wouldBlock | other code => cases hmade
  | _ => cases hmade

theorem makes_ref {purpose : Purpose} (hmade : makes w l = some (p, purpose)) :
    p = w.promises.heap.length := by
  rcases makes_cases hmade with ⟨i, data, answers, sock, r, -, -, hr, hresult, -⟩ |
    ⟨i, -, -, hp, -⟩
  · cases SocketData.wrote hr with
    | failed => cases hresult
    | completed | blocked => exact (Except.ok.inj hresult).symm
  · exact hp

/-- A promise is held only if it is for something. -/
theorem makes_of_new_holder {holder : Holder} (hknown : c.Known) (hstep : Stepped backend c l c')
    (hp : p = c.world.promises.heap.length) (hholds : c'.Holds p holder) :
    ∃ purpose, makes c.world l = some (p, purpose) := by
  have hlt : p < c'.world.promises.heap.length := hknown.step hstep p holder hholds
  have hsame : c'.world.promises ≠ c.world.promises := by
    intro hsame
    rw [hsame, hp] at hlt
    exact Nat.lt_irrefl _ hlt
  have hmakes := hstep.makes_of_holds hknown hp hholds
  cases holder with
  | running => cases l <;> cases hmakes
  | queue k =>
      cases l with
      | write i data answers =>
          obtain ⟨eff, hwrite⟩ := hstep.write_call
          cases hget : c.world.sockets[i]? with
          | none => simp [World.write, hget] at hwrite
          | some sock =>
              obtain ⟨r, hr, hpromises, -⟩ := World.write_result hwrite hget
              cases SocketData.wrote hr with
              | failed => exact absurd hpromises hsame
              | completed | blocked => exact ⟨_, by simp only [makes, hget, hr, hp]; rfl⟩
      | _ => cases hmakes
  | handlers k =>
      cases l with
      | connect i answer =>
          obtain ⟨eff, hcall⟩ := hstep.connect_call
          cases hget : c.world.sockets[i]? with
          | none => simp [World.connect, hget] at hcall
          | some sock =>
              by_cases hidle : sock.status = .idle
              · have hstatus : c.world.status? i = some .idle := by
                  rw [World.status?_eq _ hget, hidle]
                cases answer with
                | ret count =>
                    simp only [World.connect, hget, hidle, ne_eq, not_true_eq_false, if_false,
                      Option.ite_none_right_eq_some, Option.some.injEq, Prod.mk.injEq] at hcall
                    rw [← hcall.2.1] at hsame
                    exact absurd rfl hsame
                | err errno =>
                    cases errno with
                    | inProgress => exact ⟨.connected i, by simp only [makes, hstatus, hp, if_true]⟩
                    | again | wouldBlock | other code =>
                        simp only [World.connect, hget, hidle, ne_eq, not_true_eq_false, if_false,
                          Option.ite_none_right_eq_some, Option.some.injEq,
                          Prod.mk.injEq] at hcall
                        exact absurd (by rw [← hcall.2.1]) hsame
              · simp only [World.connect, hget, ne_eq, hidle, not_false_eq_true, if_true,
                  Option.some.injEq, Prod.mk.injEq] at hcall
                obtain ⟨sock', hget', hmem⟩ := hholds
                rw [← hcall.1] at hget'
                have hold : p < c.world.promises.heap.length :=
                  hknown p (.handlers k) ⟨sock', hget', hmem⟩
                exact absurd hold (Nat.not_lt.mpr (Nat.le_of_eq hp.symm))
      | _ => cases hmakes

/-- The promise of a call waits, or it has been resolved for what it is for. -/
theorem made_waits {purpose : Purpose} (hknown : c.Known)
    (hl : Reactor.step backend c l = some c') (hmade : makes c.world l = some (p, purpose)) :
    purpose.Waits c' p ∨ IsResolved c'.world.promises p ∧ purpose.Done c'.world := by
  rcases makes_cases hmade with ⟨i, data, answers, sock, r, rfl, hget, hr, hresult, rfl⟩ |
    ⟨i, rfl, hidle, hp, rfl⟩
  · exact made_by_write hknown (Reactor.stepped hl) hget hr hresult
  · exact .inl (made_by_connect hknown hidle hl hp)

end Sockets

section Owned

variable [Blank V] [FnTrait F E] {s t : State V E F} {control : Control F E} {p : Ref}

/-! ## Whose promise it is -/

/-- Nothing in the promise module is going to settle the promise, or its socket has resolved it, or
it does not exist yet. -/
def Owned (p : Ref) (c : Promise.Config V E F) : Prop :=
  c.state.heap.length ≤ p ∨ Unsettled p (fun _ _ _ => False) c ∨ IsResolved c.state p

omit [Blank V] [FnTrait F E] in
theorem heap_length_resolveImpl (s : State V E F) (q : Ref) (v : V) :
    (s.resolveImpl q v).heap.length = s.heap.length := by
  simp only [State.resolveImpl, State.settle]
  split <;> simp

omit [FnTrait F E] in
theorem owned_resolve (hscope : Scoped ⟨s, control⟩) (h : Owned p ⟨s, control⟩)
    (hst : Resolve s t) : Owned p ⟨t, control⟩ := by
  rcases h with hnew | hu | hresolved
  · cases hst with
    | create =>
        rcases Nat.eq_or_lt_of_le hnew with rfl | hlt
        · refine .inr (.inl (unsettled_of_created hscope hnew ?_ ?_))
          · rw [Reactor.State.status?_create, if_pos rfl]
          · exact hscope.state.alloc_not_targeted .pending hnew
        · refine .inl (Nat.le_trans (Nat.le_of_eq ?_) hlt)
          simp [State.create]
    | resolve q =>
        exact .inl ((heap_length_resolveImpl s q Blank.blank).symm ▸ hnew)
  · cases hst with
    | create =>
        have hchange : Changes (fun _ => False) s s.create.1 := .single (.alloc s .pending)
        exact .inr (.inl ((hchange.kept not_false hu.known hu.targets hu.outer).unsettled hu))
    | resolve q =>
        by_cases hq : p = q
        · subst hq
          exact .inr (.inr (State.settle_status? _ hu.pending))
        · have hchange := s.resolveImpl_changes (T := (· = q)) q Blank.blank rfl
          exact .inr (.inl ((hchange.kept hq hu.known hu.targets hu.outer).unsettled hu))
  · exact .inr (.inr (hresolved.mono (.single hst)))

omit [FnTrait F E] in
theorem scoped_resolving (h : Scoped ⟨s, control⟩) (hst : Resolving s t) :
    Scoped ⟨t, control⟩ where
  state := h.state.changes hst.changes
  outer i q j outer f hcontrol :=
    Nat.lt_of_lt_of_le (h.outer i q j outer f hcontrol) hst.changes.length_le

omit [FnTrait F E] in
/-- A promise that exists in the end belongs to its socket after the steps of sockets. -/
theorem owned_resolving (hscope : Scoped ⟨s, control⟩) (h : Owned p ⟨s, control⟩)
    (hst : Resolving s t) (hlt : p < t.heap.length) :
    Unsettled p (fun _ _ _ => False) (⟨t, control⟩ : Promise.Config V E F) ∨ IsResolved t p := by
  have howned : Owned p ⟨t, control⟩ := by
    clear hlt
    induction hst with
    | refl => exact h
    | tail hbefore hstep ih => exact owned_resolve (scoped_resolving hscope hbefore) ih hstep
  exact howned.resolve_left (Nat.not_le.mpr hlt)

/-- A step of the promise module that does not use the context keeps the promise waiting. -/
theorem unsettled_step {c c' : Promise.Config V E F} {l : Promise.Label V E F} (hscope : Scoped c)
    (hu : Unsettled p (fun _ _ _ => False) c) (hown : l.context? ≠ some p)
    (hstep : Promise.Step c l c') : Unsettled p (fun _ _ _ => False) c' := by
  rcases hstep.kept_or_invokes hscope hu hown with hkept | ⟨i, q, j, data, side, w, hinvokes⟩
  · exact hkept.unsettled hu
  · exact hinvokes.place.elim

end Owned

section Inv

variable [Blank V] [FnTrait F E]

/-! ## Calls of handlers -/

/-- The handlers that were called got the outcome of their promise. -/
def CallsSettled (s : State V E F) : Prop :=
  ∀ turn p outer f arg, .called turn p outer f arg ∈ s.log →
    ∃ status, s.status? p = some status ∧ status ≠ .pending ∧ status.argFor f = .ok arg

theorem callsSettled_step {c c' : Promise.Config V E F} {l : Promise.Label V E F}
    (hscope : Scoped c) (h : CallsSettled c.state) (hstep : Promise.Step c l c') :
    CallsSettled c'.state := by
  intro turn p outer f arg hmem
  rcases hstep.called_settled hscope hmem with hold | ⟨status, hstatus, hne, harg⟩
  · obtain ⟨status, hstatus, hne, harg⟩ := h turn p outer f arg hold
    exact ⟨status, hstep.settled_status hscope hstatus hne, hne, harg⟩
  · exact ⟨status, hstep.settled_status hscope hstatus hne, hne, harg⟩

/-! ## Runs of the program -/

/-- A promise of `write` or `connect` is the socket's own, and it waits unless its purpose is
fulfilled. -/
structure Config.Keeps (c : Config V E F) (p : Ref) (purpose : Purpose) : Prop where
  owned : Unsettled p (fun _ _ _ => False) c.promises ∨ IsResolved c.promises.state p
  progress : purpose.Done c.reactor.world ∨ purpose.Waits c.reactor p

structure Config.Inv (c : Config V E F) : Prop where
  scope : Scoped c.promises
  known : c.reactor.Known
  holders : ∀ p holder, c.reactor.Holds p holder → ∃ purpose, (p, purpose) ∈ c.made
  keeps : ∀ m ∈ c.made, c.Keeps m.1 m.2

variable {backend : Backend} {c c' : Config V E F} {p : Ref} {purpose : Purpose}

omit [FnTrait F E] in
theorem Config.Keeps.unsettled (h : c.Keeps p purpose) (hwaits : purpose.Waits c.reactor p) :
    Unsettled p (fun _ _ _ => False) c.promises := by
  rcases h.owned with hu | hresolved
  · exact hu
  · cases hwaits.pending.symm.trans hresolved

theorem Config.Inv.promise (h : c.Inv) {l : Promise.Label V E F} {d : Promise.Config V E F}
    (hown : ∀ m ∈ c.made, l.context? ≠ some m.1) (hl : Promise.step c.promises l = some d) :
    (c.withPromises d).Inv where
  scope := h.scope.step (.of_step hl)
  known q holder hholds :=
    Nat.lt_of_lt_of_le (h.known q holder hholds) ((Promise.Step.of_step hl).length_le h.scope)
  holders := h.holders
  keeps m hm := by
    have hkeeps := h.keeps m hm
    have hunsettled := fun hu => unsettled_step h.scope hu (hown m hm) (.of_step hl)
    refine ⟨hkeeps.owned.imp hunsettled fun hresolved => ?_,
      hkeeps.progress.imp_right fun hwaits => ?_⟩
    · exact (Promise.Step.of_step hl).settled_status h.scope hresolved nofun
    · exact hwaits.withPromises (hunsettled (hkeeps.unsettled hwaits)).pending

omit [FnTrait F E] in
theorem Config.Inv.reactor (h : c.Inv) {l : Reactor.Label} {reactor : Reactor.Config V E F}
    (hl : Reactor.step backend c.reactor l = some reactor) :
    Config.Inv { c with reactor, made := c.made ++ (makes c.reactor.world l).toList } := by
  have hstep := Reactor.stepped hl
  refine ⟨scoped_resolving h.scope hstep.resolving, h.known.step hstep,
    fun q holder hholds => ?_, fun m hm => ?_⟩
  · rcases hstep.holds hholds with hold | ⟨hfresh, -⟩ | ⟨-, k, hold, -⟩
    · obtain ⟨purpose, hmem⟩ := h.holders q holder hold
      exact ⟨purpose, List.mem_append_left _ hmem⟩
    · obtain ⟨purpose, hmade⟩ := makes_of_new_holder h.known hstep hfresh.1 hholds
      exact ⟨purpose, List.mem_append_right _ (by simp [hmade])⟩
    · obtain ⟨purpose, hmem⟩ := h.holders q _ hold
      exact ⟨purpose, List.mem_append_left _ hmem⟩
  · rcases List.mem_append.mp hm with hold | hnew
    · have hkeeps := h.keeps m hold
      refine ⟨?_, ?_⟩
      · have hlt : m.1 < c.reactor.world.promises.heap.length := by
          rcases hkeeps.owned with hu | hresolved
          · exact hu.known
          · exact lt_of_status? hresolved
        exact owned_resolving h.scope (.inr hkeeps.owned) hstep.resolving
          (Nat.lt_of_lt_of_le hlt hstep.resolving.changes.length_le)
      · rcases hkeeps.progress with hdone | hwaits
        · exact .inl (hdone.step hstep)
        · exact hwaits.step hstep
    · have hmade : makes c.reactor.world l = some m := by simpa using hnew
      have hwaits := made_waits h.known hl hmade
      refine ⟨?_, hwaits.symm.imp_left And.right⟩
      have hlt : m.1 < reactor.world.promises.heap.length := by
        rcases hwaits with hwaits | hresolved
        · exact lt_of_status? hwaits.pending
        · exact lt_of_status? hresolved.1
      exact owned_resolving h.scope (.inl (Nat.le_of_eq (makes_ref hmade).symm)) hstep.resolving hlt

theorem Config.Inv.step (h : c.Inv) {l : Label V E F} (hl : step backend c l = some c') :
    c'.Inv := by
  cases stepped hl with
  | promise l d own stepped => exact h.promise own stepped
  | reactor l reactor user stepped => exact h.reactor stepped

omit [FnTrait F E] in
theorem Config.Inv.initial : ({} : Config V E F).Inv := by
  have hnone : ∀ p holder, ¬ ({} : Reactor.Config V E F).Holds p holder := by
    intro p holder hholds
    exact Nat.not_lt_zero _ (Reactor.Config.Known.initial p holder hholds)
  exact ⟨QueueInv.initial.scope, .initial, fun p holder hholds => absurd hholds (hnone p holder),
    by simp⟩

theorem inv_of_run {ls : List (Label V E F)}
    (hrun : run (step backend) ({} : Config V E F) ls = some c) : c.Inv :=
  run_invariant_of_step (fun _ _ _ h hl => h.step hl) .initial hrun

/-- In every run a step of sockets leaves all promises but those of `write` and `connect` as they
are. -/
theorem sockets_leave_others {ls : List (Label V E F)}
    (hrun : run (step backend) ({} : Config V E F) ls = some c) {l : Reactor.Label}
    (hl : step backend c (.reactor l) = some c') (hp : p < c.promises.state.heap.length)
    (hother : ∀ purpose, (p, purpose) ∉ c.made) :
    c'.promises.state.status? p = c.promises.state.status? p := by
  have hinv := inv_of_run hrun
  have hfree : ∀ holder, ¬ c.reactor.Holds p holder := by
    intro holder hholds
    obtain ⟨purpose, hmem⟩ := hinv.holders p holder hholds
    exact hother purpose hmem
  cases stepped hl with
  | reactor l reactor user stepped =>
      have hstep := Reactor.stepped stepped
      obtain ⟨status, hstatus⟩ : ∃ status, c.promises.state.status? p = some status :=
        ⟨_, by rw [State.status?, State.get?, List.getElem?_eq_getElem hp]; rfl⟩
      rw [hstatus]
      by_cases hpending : status = .pending
      · subst hpending
        exact hstep.stays_pending hstatus (hfree _) fun k _ => hfree _
      · exact hstep.resolving.status_eq hstatus hpending

theorem sockets_leave_others_sample : ∃ c c' : Config ℕ ℕ SampleHandler,
    run (step .epoll) {} (talkRun.take 22) = some c ∧
      step .epoll c (.reactor (.flush [.ret 1])) = some c' ∧
      c.promises.state.status? 2 = some .pending ∧
      IsResolved c'.promises.state 2 ∧ c'.promises.state.status? 3 = some .pending := by
  obtain ⟨c, c', hrun, hl, hmade, hp, hwaits, hother, hresolved⟩ :
      ∃ c c' : Config ℕ ℕ SampleHandler, run (step .epoll) {} (talkRun.take 22) = some c ∧
        step .epoll c (.reactor (.flush [.ret 1])) = some c' ∧
        c.made = [(0, .connected 0), (2, .sent 0 2)] ∧ 3 < c.promises.state.heap.length ∧
        c.promises.state.status? 2 = some .pending ∧
        c.promises.state.status? 3 = some .pending ∧
        c'.promises.state.status? 2 = some (.resolved Blank.blank) :=
    ⟨_, _, rfl, rfl, rfl, by decide, rfl, rfl, rfl⟩
  refine ⟨c, c', hrun, hl, hwaits, hresolved, ?_⟩
  rw [sockets_leave_others hrun hl hp (by simp [hmade])]
  exact hother

theorem callsSettled_of_run {ls : List (Label V E F)}
    (hrun : run (step backend) ({} : Config V E F) ls = some c) :
    CallsSettled c.promises.state := by
  have hinv : Scoped c.promises ∧ CallsSettled c.promises.state :=
    promises_invariant (I := fun d => Scoped d ∧ CallsSettled d.state)
      (fun d l d' hd hl => ⟨hd.1.step (.of_step hl), callsSettled_step hd.1 hd.2 (.of_step hl)⟩)
      ⟨QueueInv.initial.scope, nofun⟩ hrun
  exact hinv.2

/-- In every run, whatever user code does with its promises in and out of handlers, the promise of
a `write` is settled only when `bytes_written` has reached the end of its data, and the one of a
waiting `connect` only when "connect" has been triggered. It is never rejected, and its handlers are
not called before. -/
theorem outcomes_mean_done {ls : List (Label V E F)}
    (hrun : run (step backend) ({} : Config V E F) ls = some c) (hmade : (p, purpose) ∈ c.made) :
    (c.promises.state.status? p = some .pending ∨
      IsResolved c.promises.state p ∧ purpose.Done c.reactor.world) ∧
    ∀ turn outer f arg, .called turn p outer f arg ∈ c.promises.state.log →
      arg = .value Blank.blank ∧ purpose.Done c.reactor.world := by
  have hinv := inv_of_run hrun
  have hkeeps := hinv.keeps (p, purpose) hmade
  have hstatus : c.promises.state.status? p = some .pending ∨
      IsResolved c.promises.state p ∧ purpose.Done c.reactor.world := by
    rcases hkeeps.owned with hu | hresolved
    · exact .inl hu.pending
    · refine .inr ⟨hresolved, hkeeps.progress.resolve_right fun hwaits => ?_⟩
      cases hwaits.pending.symm.trans hresolved
  refine ⟨hstatus, fun turn outer f arg hcall => ?_⟩
  obtain ⟨status, hp, hne, harg⟩ := callsSettled_of_run hrun turn p outer f arg hcall
  rcases hstatus with hpending | ⟨hresolved, hdone⟩
  · exact absurd (Option.some.inj (hp.symm.trans hpending)) hne
  · obtain rfl := Option.some.inj (hp.symm.trans hresolved)
    exact ⟨(Except.ok.inj harg).symm, hdone⟩

theorem outcomes_mean_done_sample : ∃ c : Config ℕ ℕ SampleHandler,
    run (step .epoll) {} talkRun = some c ∧ (2, .sent 0 2) ∈ c.made ∧
      .called 0 2 3 (.plain 0) (.value 0) ∈ c.promises.state.log ∧
      (Purpose.sent 0 2).Done c.reactor.world ∧
      (0, .connected 0) ∈ c.made ∧ (Purpose.connected 0).Done c.reactor.world := by
  obtain ⟨c, hrun, hmade, hcall, hcall'⟩ : ∃ c : Config ℕ ℕ SampleHandler,
      run (step .epoll) {} talkRun = some c ∧ c.made = [(0, .connected 0), (2, .sent 0 2)] ∧
        .called 0 2 3 (.plain 0) (.value 0) ∈ c.promises.state.log ∧
        .called 0 0 1 (.plain 0) (.value 0) ∈ c.promises.state.log :=
    ⟨_, rfl, rfl, by decide, by decide⟩
  have hsent : (2, .sent 0 2) ∈ c.made := by simp [hmade]
  have hconnected : (0, .connected 0) ∈ c.made := by simp [hmade]
  exact ⟨c, hrun, hsent, hcall, ((outcomes_mean_done hrun hsent).2 0 3 _ _ hcall).2, hconnected,
    ((outcomes_mean_done hrun hconnected).2 0 1 _ _ hcall').2⟩

end Inv

end Libasync.Program
