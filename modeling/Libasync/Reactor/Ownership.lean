import Libasync.Reactor.Dispatch

/-! # Closing one object leaves the others alone

The kernel gives a number out again as soon as it is closed, so a number that an object has closed
can be another object's by the time the object uses it again. An object that has not closed its
number still owns it. -/

namespace Libasync.Reactor

open Promise Socket Automaton

variable {V E F : Type*}

/-! ### Close calls -/

/-- The object whose `close` is at work: it is called, or it goes on after the "close" event. -/
def closing? : Frame → Label → Option Target
  | .user _, .close i _ => some (.socket i)
  | .user _, .closeServer j _ => some (.server j)
  | .errorTail i _, .closing _ => some (.socket i)
  | .closeTail i, .tau => some (.socket i)
  | _, _ => none

/-- What belongs to another object than `t` is still there. -/
def KeepsOthers (t : Target) (entries entries' : Fd → Option (Option Target)) : Prop :=
  ∀ n t', t' ≠ t → entries n = some (some t') → entries' n = some (some t')

section Machine

variable [Blank V]

/-- A `close` call leaves the descriptors and the table entries of all other objects. -/
def TouchesNoOther (backend : Backend) (c : Config V E F) (l : Label) : Prop :=
  ∀ frame ∈ c.stack.head?, ∀ t, closing? frame l = some t →
    ∀ c', step backend c l = some c' →
      KeepsOthers t c.world.descriptors c'.world.descriptors ∧
        KeepsOthers t c.world.table c'.world.table

end Machine

/-- The number of the entry belongs to another object. -/
def belongsToOther (entries : Fd → Option (Option Target)) (drop : Target × Fd) : Bool :=
  match entries drop.2 with
  | some (some t) => decide (t ≠ drop.1)
  | _ => false

/-- The object has closed this number before, and the number belongs to another object now. -/
def World.reused (w : World V E F) (entries : Fd → Option (Option Target)) (drop : Target × Fd) :
    Bool :=
  decide (.closed drop.1 drop.2 ∈ w.log) && belongsToOther entries drop

/-- `close` is called on an object that has closed its number before, when the kernel or the table
has the number for another object. -/
def Config.closesReused (c : Config V E F) (l : Label) : Bool :=
  match c.stack with
  | .user handlers :: _ =>
      (c.world.closed? (.user handlers) l).any (c.world.reused c.world.descriptors) ||
        (c.world.unregistered? (.user handlers) l).any (c.world.reused c.world.table)
  | .errorTail i since :: _ =>
      (c.world.closed? (.errorTail i since) l).any (c.world.reused c.world.descriptors)
  | _ => false

/-- A "close" handler returns to `Socket::close` when the table has the number that was closed for
another object. -/
def Config.returnsReused (c : Config V E F) (l : Label) : Bool :=
  match l, c.stack with
  | .return_, .user _ :: .closeTail i :: _ =>
      (c.world.fd? i).any fun n => belongsToOther c.world.table (.socket i, n)
  | _, _ => false

def Config.Orderly (c : Config V E F) (l : Label) : Prop :=
  c.closesReused l = false ∧ c.returnsReused l = false

instance (c : Config V E F) (l : Label) : Decidable (c.Orderly l) :=
  inferInstanceAs (Decidable (_ ∧ _))

theorem belongsToOther_eq_true {entries : Fd → Option (Option Target)} {t : Target} {n : Fd} :
    belongsToOther entries (t, n) = true ↔ ∃ t', t' ≠ t ∧ entries n = some (some t') := by
  simp only [belongsToOther]
  split
  · rename_i t' heq
    simp [heq]
  · rename_i hnot
    simp only [Bool.false_eq_true, false_iff, not_exists, not_and]
    intro t' _ heq
    exact hnot t' heq

/-! ### Owners -/

/-- An object that has not closed its number owns it. -/
structure World.Owners (w : World V E F) : Prop where
  socket : ∀ i n, w.fd? i = some n → 0 ≤ n → .closed (.socket i) n ∉ w.log →
    w.descriptors n = some (some (.socket i))
  server : ∀ j n, w.serverFd? j = some n → .closed (.server j) n ∉ w.log →
    w.descriptors n = some (some (.server j))

/-- Numbers are closed by their owners only. -/
def Permits.ClosesOwn (P : Permits) (w : World V E F) : Prop :=
  ∀ t n, P.closes t n → ∀ t', w.descriptors n = some (some t') → t' = t

theorem Permits.ClosesOwn.change {P : Permits} {w w' : World V E F} (h : P.ClosesOwn w)
    (hc : Change P w w') : P.ClosesOwn w' := by
  intro t n hdrop t' ht'
  cases hc.number n with
  | same table descriptor | unregistered t₁ drop table descriptor
  | nullEntry allowed missing table descriptor =>
      rw [descriptor] at ht'
      exact h t n hdrop t' ht'
  | opened t₁ free opens noDrop => exact absurd hdrop (noDrop t n).1
  | leaked free table descriptor => simp [descriptor] at ht'
  | closed t₁ drop called table descriptor => simp [descriptor] at ht'

/-- An owner that loses its number has closed it. -/
theorem Change.owner_keeps {P : Permits} {w w' : World V E F} (hc : Change P w w')
    (hP : P.ClosesOwn w) {t : Target} {n : Fd} (howner : w.descriptors n = some (some t))
    (hnot : .closed t n ∉ w'.log) : w'.descriptors n = some (some t) := by
  have hused {fd : Fd} (hfree : w.free fd = true) : n ≠ fd := by
    rintro rfl
    simp [World.free, howner] at hfree
  have hclose {t' : Target} {fd : Fd} (hdrop : P.closes t' fd)
      (hlog : .closed t' fd ∈ w'.log) : n ≠ fd := by
    rintro rfl
    rw [hP t' n hdrop t howner] at hnot
    exact hnot hlog
  cases hc with
  | neutral h => rw [h.descriptors, howner]
  | addSocket fd status free =>
      simp [World.addSocket, World.reactorRegister, hused free, howner]
  | addServer fd free => simp [World.addServer, World.reactorRegister, hused free, howner]
  | leak fd free => simp [World.leak, hused free, howner]
  | advance | closeCalled | endOfFile | eofAgain | eofFirst | polled | unreg | nullEntry =>
      exact howner
  | halfClose i sock get status called drop =>
      by_cases hfd : 0 ≤ sock.fd
      · have hne : n ≠ sock.fd := hclose (drop hfd) (by simp [hfd])
        rw [if_pos hfd]
        simp [World.closeFd, World.record, World.modifySocket, hne, howner]
      · rw [if_neg hfd]
        exact howner
  | fullClose i sock get status nonneg called drop =>
      have hne : n ≠ sock.fd := hclose drop (by simp)
      simp [World.closeFd, World.record, World.modifySocket, hne, howner]
  | closeServer j server get drop =>
      have hne : n ≠ server.fd := hclose drop (by simp)
      simp [World.closeFd, World.record, World.modifyServer, hne, howner]

/-- A number of a server socket is old, or it has just been given out. -/
theorem Change.serverFd?_inv {P : Permits} {w w' : World V E F} (hc : Change P w w') {j : ℕ}
    {n : Fd} (hj : w'.serverFd? j = some n) :
    w.serverFd? j = some n ∨ w'.descriptors n = some (some (.server j)) := by
  cases hc with
  | neutral h => exact .inl ((h.servers j).symm.trans hj)
  | addServer fd free =>
      by_cases hlt : j < w.servers.length
      · left
        simpa [World.serverFd?, World.addServer, World.reactorRegister,
          List.getElem?_append_left hlt] using hj
      · obtain ⟨server, hget, rfl⟩ := Option.map_eq_some_iff.mp hj
        have hj' : j = w.servers.length := by
          have hbound := (List.getElem?_eq_some_iff.mp hget).1
          simp only [World.addServer, World.reactorRegister, List.length_append,
            List.length_singleton] at hbound
          omega
        subst hj'
        right
        simp only [World.addServer, World.reactorRegister, List.getElem?_concat_length,
          Option.some.injEq] at hget ⊢
        simp [← hget]
  | closeServer k server get drop =>
      rw [World.serverFd?_modifyServer _ k j (by simp)] at hj
      exact .inl hj
  | halfClose i sock get status called drop =>
      left
      split at hj <;> exact hj
  | addSocket | leak | advance | closeCalled | fullClose | endOfFile | eofAgain | eofFirst | unreg
  | nullEntry | polled => exact .inl hj

theorem World.Owners.change {P : Permits} {w w' : World V E F} (h : w.Owners)
    (hP : P.ClosesOwn w) (hc : Change P w w') : w'.Owners where
  socket i n hi hn hnot := by
    have hopen : .closed (.socket i) n ∉ w.log := fun hmem =>
      hnot ((Changes.log_grows (.single hc)).subset hmem)
    obtain ⟨status, hcore'⟩ := World.fd?_eq_some.mp hi
    have hkeep {status₁ : Status} (hbefore : w.core? i = some (n, status₁)) :
        w'.descriptors n = some (some (.socket i)) := by
      apply hc.owner_keeps hP _ hnot
      exact h.socket i n (World.fd?_eq_some.mpr ⟨_, hbefore⟩) hn hopen
    cases hc.core i with
    | same core => exact hkeep (core.symm.trans hcore')
    | added fd₁ status₁ none core fresh free table descriptor =>
        obtain ⟨rfl, rfl⟩ := Prod.mk.inj (Option.some.inj (core.symm.trans hcore'))
        exact descriptor
    | halfClosed fd₁ before core =>
        obtain ⟨rfl, rfl⟩ := Prod.mk.inj (Option.some.inj (core.symm.trans hcore'))
        exact absurd hn (by decide)
    | advanced fd₁ status₁ status₂ before core | fullClosed fd₁ before core
    | eofAgain fd₁ before core | eofFirst fd₁ status₁ before core =>
        obtain ⟨rfl, rfl⟩ := Prod.mk.inj (Option.some.inj (core.symm.trans hcore'))
        exact hkeep before
  server j n hj hnot := by
    have hopen : .closed (.server j) n ∉ w.log := fun hmem =>
      hnot ((Changes.log_grows (.single hc)).subset hmem)
    rcases hc.serverFd?_inv hj with hold | hnew
    · exact hc.owner_keeps hP (h.server j n hold hopen) hnot
    · exact hnew

/-! ### Close calls of a run -/

/-- The number of an object. -/
def World.number? (w : World V E F) : Target → Option Fd
  | .socket i => w.fd? i
  | .server j => w.serverFd? j

theorem World.closed?_number {w : World V E F} {frame : Frame} {l : Label} {t : Target} {n : Fd}
    (h : w.closed? frame l = some (t, n)) :
    w.number? t = some n ∧ ∀ i, t = .socket i → 0 ≤ n := by
  have hdrops {i : ℕ} {answer : Answer} (h : w.closeDrops? i answer = some n) :
      w.fd? i = some n ∧ 0 ≤ n := by
    simp only [closeDrops?] at h
    split at h
    · rename_i sock count hget
      simp only [Option.ite_none_right_eq_some, Option.some.injEq] at h
      obtain ⟨⟨-, hfd⟩, rfl⟩ := h
      exact ⟨by simp [fd?, core?, hget], hfd⟩
    · cases h
  simp only [closed?] at h
  split at h
  · obtain ⟨fd, hfd, heq⟩ := Option.map_eq_some_iff.mp h
    obtain ⟨rfl, rfl⟩ := Prod.mk.inj heq
    exact ⟨(hdrops hfd).1, fun _ _ => (hdrops hfd).2⟩
  · obtain ⟨fd, hfd, heq⟩ := Option.map_eq_some_iff.mp h
    obtain ⟨rfl, rfl⟩ := Prod.mk.inj heq
    exact ⟨hfd, by simp⟩
  · obtain ⟨fd, hfd, heq⟩ := Option.map_eq_some_iff.mp h
    obtain ⟨rfl, rfl⟩ := Prod.mk.inj heq
    exact ⟨(hdrops hfd).1, fun _ _ => (hdrops hfd).2⟩
  · cases h

/-- Numbers are closed in `close` calls of their objects. -/
theorem closing?_of_closed {w : World V E F} {frame : Frame} {l : Label} {t : Target} {n : Fd}
    (h : w.closed? frame l = some (t, n)) : closing? frame l = some t := by
  simp only [World.closed?] at h
  split at h
  all_goals simp only [Option.map_eq_some_iff, Prod.mk.injEq, reduceCtorEq] at h
  all_goals
    obtain ⟨fd, -, rfl, -⟩ := h
    rfl

theorem closing?_of_unregistered {w : World V E F} {frame : Frame} {l : Label} {t t' : Target}
    {n : Fd} (hclosing : closing? frame l = some t)
    (h : w.unregistered? frame l = some (t', n)) :
    t' = t ∧ ((∃ handlers j, frame = .user handlers ∧ t = .server j ∧ w.serverFd? j = some n) ∨
      ∃ i, frame = .closeTail i ∧ t = .socket i ∧ w.fd? i = some n) := by
  simp only [World.unregistered?] at h
  split at h
  all_goals simp only [Option.map_eq_some_iff, Prod.mk.injEq, reduceCtorEq] at h
  · obtain ⟨fd, hfd, rfl, rfl⟩ := h
    obtain rfl := Option.some.inj hclosing
    exact ⟨rfl, .inl ⟨_, _, rfl, rfl, hfd⟩⟩
  · obtain ⟨fd, hfd, rfl, rfl⟩ := h
    obtain rfl := Option.some.inj hclosing
    exact ⟨rfl, .inr ⟨_, rfl, rfl, hfd⟩⟩
  · cases hclosing

theorem opened?_of_closing {frame : Frame} {l : Label} {t : Target}
    (h : closing? frame l = some t) : opened? frame l = none := by
  simp only [closing?] at h
  split at h
  all_goals first | rfl | cases h

theorem World.Owners.owns {w : World V E F} (h : w.Owners) {t : Target} {n : Fd}
    (hn : w.number? t = some n) (hnonneg : ∀ i, t = .socket i → 0 ≤ n)
    (hopen : .closed t n ∉ w.log) : w.descriptors n = some (some t) := by
  cases t with
  | socket i => exact h.socket i n hn (hnonneg i rfl) hopen
  | server j => exact h.server j n hn hopen

theorem Config.closesReused_of_closed {w : World V E F} {frame : Frame} {rest : List Frame}
    {l : Label} {d : Target × Fd} (h : w.closed? frame l = some d)
    (hreused : w.reused w.descriptors d = true) :
    Config.closesReused ⟨w, frame :: rest⟩ l = true := by
  cases frame with
  | user handlers => simp [closesReused, h, hreused]
  | errorTail i since => simp [closesReused, h, hreused]
  | _ => simp [World.closed?] at h

section Machine

variable [Blank V] {backend : Backend}

omit [Blank V] in
theorem Changes.keeps_descriptor {P : Permits} {w w' : World V E F} (h : Changes P w w') {n : Fd}
    {t : Target} (hno : ∀ t, ¬ P.closes t n) (hn : w.descriptors n = some (some t)) :
    w'.descriptors n = some (some t) := by
  refine h.induct (I := fun v => v.descriptors n = some (some t)) ?_ hn
  intro v v' hv hc
  have hused : v.free n ≠ true := by simp [World.free, hv]
  cases hc.number n with
  | opened t₁ free => exact absurd free hused
  | leaked free => exact absurd free hused
  | closed t₁ drop => exact absurd drop (hno t₁)
  | same table descriptor | unregistered t₁ drop table descriptor
  | nullEntry allowed missing table descriptor => exact descriptor.trans hv

omit [Blank V] in
theorem Changes.keeps_entry {P : Permits} {w w' : World V E F} (h : Changes P w w') {n : Fd}
    {t : Target} (hno : ∀ t, ¬ P.unregisters t n) (hopen : ¬ P.opens n)
    (hn : w.table n = some (some t)) : w'.table n = some (some t) := by
  refine h.induct (I := fun v => v.table n = some (some t)) ?_ hn
  intro v v' hv hc
  cases hc.number n with
  | opened t₁ free opens => exact absurd opens hopen
  | unregistered t₁ drop => exact absurd drop (hno t₁)
  | nullEntry allowed missing => simp [missing] at hv
  | same table | leaked free table | closed t₁ drop called table => exact table.trans hv

omit [Blank V] in
theorem World.closeSocket_descriptor {w w' : World V E F} {i : ℕ} {answer : Answer} {eff : Effect}
    {n : Fd} (h : w.closeSocket i answer = some (w', eff)) (hn : w.closeDrops? i answer = some n) :
    w'.descriptors n = none := by
  have hrest {called : World V E F} {sock : SocketObject} (hcalled : called.descriptors n = none) :
      (called.closeRest i sock).1.descriptors n = none := by
    simp only [closeRest]
    split
    · exact hcalled
    · split <;> exact hcalled
  obtain ⟨sock, -, rfl, -, -, hclose⟩ := closeSocket_of_drops h hn
  have hw : w' = _ := (congrArg Prod.fst hclose).symm
  rw [hw]
  exact hrest (by simp [closeFd, record])

omit [Blank V] in
theorem World.closeServer_descriptor {w w' : World V E F} {j count : ℕ} {eff : Effect}
    {n : Fd} (h : w.closeServer j (.ret count) = some (w', eff)) (hn : w.serverFd? j = some n) :
    w'.descriptors n = none := by
  obtain ⟨server, hget, rfl⟩ := Option.map_eq_some_iff.mp hn
  simp only [World.closeServer, hget, Option.ite_none_right_eq_some, Option.some.injEq,
    Prod.mk.injEq] at h
  rw [← h.2.1]
  simp [record, modifyServer, closeFd]

/-- A number that a step closes is closed. -/
theorem pieceStep_closed_descriptor {w w' : World V E F} {top : Frame} {l : Label} {eff : Effect}
    {t : Target} {n : Fd} (h : pieceStep backend w top l = some (w', eff))
    (hn : w.closed? top l = some (t, n)) : w'.descriptors n = none := by
  simp only [World.closed?] at hn
  split at hn
  all_goals simp only [Option.map_eq_some_iff, Prod.mk.injEq, reduceCtorEq] at hn
  · obtain ⟨fd, hfd, -, rfl⟩ := hn
    exact World.closeSocket_descriptor h hfd
  · obtain ⟨fd, hfd, -, rfl⟩ := hn
    rename_i j count
    have hserver : w.closeServer j (.ret count) = some (w', eff) := h
    exact World.closeServer_descriptor hserver hfd
  · obtain ⟨fd, hfd, -, rfl⟩ := hn
    exact World.closeSocket_descriptor h hfd

/-! ### Orderly runs -/

omit [Blank V] in
theorem unwind_head {stack rest : List Frame} {frame : Frame}
    (h : unwind stack = frame :: rest) : frame.isUser = true := by
  induction stack with
  | nil => cases h
  | cons top below ih =>
      cases top with
      | user handlers =>
          obtain ⟨rfl, -⟩ := List.cons.inj h
          rfl
      | _ => exact ih h

omit [Blank V] in
/-- No step leaves the tail of `Socket::close` on top of the stack. -/
theorem Pushed.head {w w' : World V E F} {l : Label} {top frame : Frame} {frames : List Frame}
    (h : Pushed w w' l top (frame :: frames)) {i : ℕ} : frame ≠ .closeTail i := by
  cases h with
  | delivered w₁ backend k n event t more =>
      cases t with
      | socket j =>
          simp only [World.startEvent]
          split <;> simp
      | server j => simp [World.startEvent]
  | handlers | connecting | closing | polled | noData | data | eofAgain | eofFirst | rest | error
  | accepted | skipped => simp

/-- What holds along orderly runs: the tail of `Socket::close` will not unregister a number of
another object. -/
structure Config.OwnershipInv (c : Config V E F) : Prop where
  sound : c.Sound
  owners : c.world.Owners
  tail : ∀ i rest, c.stack = .closeTail i :: rest → ∀ n, c.world.fd? i = some n →
    belongsToOther c.world.table (.socket i, n) = false

namespace Config.OwnershipInv

variable {c c' : Config V E F} {l : Label}

omit [Blank V] in
theorem initial : Config.OwnershipInv ({} : Config V E F) where
  sound := .initial
  owners := ⟨by simp [World.fd?, World.core?], by simp [World.serverFd?]⟩
  tail := by simp

omit [Blank V] in
/-- An orderly step closes numbers of its own object only. -/
theorem closes_own (h : c.OwnershipInv) (hguard : c.closesReused l = false) :
    (c.permits backend l).ClosesOwn c.world := by
  intro t n hclose t' howner
  obtain ⟨w, stack⟩ := c
  cases stack with
  | nil => cases hclose
  | cons frame rest =>
      have hclosed : w.closed? frame l = some (t, n) := hclose
      obtain ⟨hn, hnonneg⟩ := World.closed?_number hclosed
      by_contra hne
      have hbefore : .closed t n ∈ w.log := by
        by_contra hopen
        have hself := h.owners.owns hn hnonneg hopen
        rw [howner] at hself
        simp only [Option.some.injEq] at hself
        exact hne hself
      have hreused : w.reused w.descriptors (t, n) = true := by
        simp only [World.reused, Bool.and_eq_true, decide_eq_true_eq]
        exact ⟨hbefore, belongsToOther_eq_true.mpr ⟨t', hne, howner⟩⟩
      simp [closesReused_of_closed hclosed hreused] at hguard

theorem tail_step (h : c.OwnershipInv) (hguard : c.returnsReused l = false)
    (hstep : Stepped backend c l c') : ∀ i rest, c'.stack = .closeTail i :: rest →
      ∀ n, c'.world.fd? i = some n → belongsToOther c'.world.table (.socket i, n) = false := by
  intro i rest' hstack
  have huser {frame : Frame} (hframe : frame.isUser = true) : frame ≠ .closeTail i := by
    rintro rfl
    cases hframe
  cases hstep with
  | handler w p handlers rest => cases hstack
  | return_ w frame rest =>
      obtain ⟨rfl, rfl⟩ := List.cons.inj hstack
      intro n hn
      simpa [returnsReused, show w.fd? i = some n from hn] using hguard
  | throw_ w handlers frame rest => exact absurd rfl (huser (unwind_head hstack))
  | user w handlers rest l w' eff call =>
      cases eff with
      | push frames =>
          cases frames with
          | nil => cases hstack
          | cons frame frames =>
              obtain ⟨rfl, -⟩ := List.cons.inj hstack
              have hpushed : Pushed w w' l (.user handlers) (.closeTail i :: frames) :=
                userStep_pushed call
              exact absurd rfl hpushed.head
      | throw failure => cases hstack
      | crash => cases hstack
  | library w frame rest l w' eff piece =>
      cases eff with
      | push frames =>
          cases frames with
          | nil =>
              -- a piece stands on user code or on the loop of `reactor_task`
              have hlayered : (frame :: rest).IsChain Frame.Above := h.sound.layered
              have hstack : rest = .closeTail i :: rest' := hstack
              rw [hstack] at hlayered
              rcases (List.isChain_cons_cons.mp hlayered).1 with htop | hbase
              · cases frame with
                | user handlers => simp [libraryStep_user] at piece
                | _ => cases htop
              · cases hbase
          | cons top frames =>
              obtain ⟨rfl, -⟩ := List.cons.inj hstack
              exact absurd rfl (libraryStep_pushed piece).head
      | throw failure => exact absurd rfl (huser (unwind_head hstack))
      | crash => cases hstack

theorem step (h : c.OwnershipInv) (hguard : c.Orderly l)
    (hl : Reactor.step backend c l = some c') : c'.OwnershipInv := by
  have hstep := stepped hl
  refine ⟨h.sound.step hl, ?_, h.tail_step hguard.2 hstep⟩
  have hinv := (hstep.changes h.sound.seen).induct
    (I := fun w => (c.permits backend l).ClosesOwn w ∧ w.Owners)
    (fun w w' hw hc => ⟨hw.1.change hc, hw.2.change hw.1 hc⟩) ⟨h.closes_own hguard.1, h.owners⟩
  exact hinv.2

end Config.OwnershipInv

variable {c c' : Config V E F} {l : Label}

/-- In an orderly configuration a `close` call touches no other object. -/
theorem touchesNoOther_of_inv (h : c.OwnershipInv) (hguard : c.closesReused l = false) :
    TouchesNoOther backend c l := by
  intro frame hframe t hclosing c' hl
  have hchanges := (stepped hl).changes h.sound.seen
  have hown : (c.permits backend l).ClosesOwn c.world := h.closes_own hguard
  obtain ⟨w, stack⟩ := c
  cases stack with
  | nil => cases hframe
  | cons top rest =>
      obtain rfl : top = frame := by simpa using hframe
      refine ⟨fun n t' hne howner => ?_, fun n t' hne hentry => ?_⟩
      · apply hchanges.keeps_descriptor _ howner
        intro t₁ hclose
        have hsame : t₁ = t := Option.some.inj ((closing?_of_closed hclose).symm.trans hclosing)
        exact hne ((hown t₁ n hclose t' howner).trans hsame)
      · apply hchanges.keeps_entry _ _ hentry
        · intro t₁ hunreg
          have hunreg : w.unregistered? top l = some (t₁, n) := hunreg
          obtain ⟨rfl, ⟨handlers, j, rfl, rfl, hn⟩ | ⟨i, rfl, rfl, hn⟩⟩ :=
            closing?_of_unregistered hclosing hunreg
          · have hother := belongsToOther_eq_true.mpr ⟨t', hne, hentry⟩
            have hbefore : .closed (.server j) n ∈ w.log := by
              by_contra hopen
              -- the entry of an open server socket is its own
              rcases h.sound.world.registered n _ (h.owners.server j n hn hopen) with
                hnone | hnull | hself
              · cases hnone.symm.trans hentry
              · cases hnull.symm.trans hentry
              · rw [hentry] at hself
                simp only [Option.some.injEq] at hself
                exact hne hself
            simp [Config.closesReused, hunreg, World.reused, hbefore, hother] at hguard
          · have hother := belongsToOther_eq_true.mpr ⟨t', hne, hentry⟩
            have hmine := h.tail i rest rfl n hn
            rw [hother] at hmine
            cases hmine
        · intro hopens
          have hopens : opened? top l = some n := hopens
          rw [opened?_of_closing hclosing] at hopens
          cases hopens

/-- The step of a `close` call is the call or the piece. -/
theorem piece_of_closing {w : World V E F} {frame : Frame} {rest : List Frame} {t : Target}
    (hl : step backend ⟨w, frame :: rest⟩ l = some c') (hclosing : closing? frame l = some t) :
    ∃ eff, pieceStep backend w frame l = some (c'.world, eff) := by
  cases stepped hl with
  | handler | return_ | throw_ => cases hclosing
  | user w handlers rest l w' eff call =>
      rw [Config.after_world]
      exact ⟨eff, call⟩
  | library w frame rest l w' eff piece =>
      rw [Config.after_world]
      exact ⟨eff, pieceStep_of_library piece⟩

/-- A `close` call that closes or unregisters a number again touches its new owner. -/
theorem not_reused_of_touches {w : World V E F} {frame : Frame} {rest : List Frame}
    {d : Target × Fd} (h : TouchesNoOther backend ⟨w, frame :: rest⟩ l)
    (hl : step backend ⟨w, frame :: rest⟩ l = some c') (hclosing : closing? frame l = some d.1) :
    (w.closed? frame l = some d → w.reused w.descriptors d = false) ∧
      (w.unregistered? frame l = some d → belongsToOther w.table d = false) := by
  obtain ⟨t, n⟩ := d
  obtain ⟨eff, hpiece⟩ := piece_of_closing hl hclosing
  obtain ⟨hdescriptors, htable⟩ := h frame rfl t hclosing c' hl
  refine ⟨fun hclosed => ?_, fun hunreg => ?_⟩
  · rw [← Bool.not_eq_true]
    intro hreused
    simp only [World.reused, Bool.and_eq_true] at hreused
    obtain ⟨t', hne, howner⟩ := belongsToOther_eq_true.mp hreused.2
    have hkept := hdescriptors n t' hne howner
    rw [pieceStep_closed_descriptor hpiece hclosed] at hkept
    cases hkept
  · rw [← Bool.not_eq_true]
    intro hother
    obtain ⟨t', hne, hentry⟩ := belongsToOther_eq_true.mp hother
    have hkept := htable n t' hne hentry
    rw [pieceStep_unregistered hpiece hunreg] at hkept
    cases hkept

theorem closesReused_of_touches (h : TouchesNoOther backend c l)
    (hl : step backend c l = some c') : c.closesReused l = false := by
  obtain ⟨w, stack⟩ := c
  have hclosed {frame : Frame} {rest : List Frame} (hstack : stack = frame :: rest) :
      (w.closed? frame l).any (w.reused w.descriptors) = false := by
    subst hstack
    cases hd : w.closed? frame l with
    | none => rfl
    | some d => exact (not_reused_of_touches h hl (closing?_of_closed hd)).1 hd
  simp only [Config.closesReused]
  split
  · rename_i handlers rest
    rw [hclosed rfl, Bool.false_or]
    cases hd : w.unregistered? (.user handlers) l with
    | none => rfl
    | some d =>
        have hclosing : closing? (.user handlers) l = some d.1 := by
          cases l with
          | closeServer j answer =>
              obtain ⟨fd, -, rfl⟩ := Option.map_eq_some_iff.mp hd
              rfl
          | _ => cases hd
        have hkept := (not_reused_of_touches h hl hclosing).2 hd
        simp [World.reused, hkept]
  · exact hclosed rfl
  · rfl

/-- What is left of `Socket::close` unregisters the number of the socket. -/
theorem returnsReused_of_touches {ls : List Label} {d : Config V E F}
    (h : EachStep (step backend) (TouchesNoOther backend) c' ls)
    (hl : step backend c l = some c') (hrun : run (step backend) c' ls = some d)
    (hdone : ∀ i, d.stack.head? ≠ some (.closeTail i)) : c.returnsReused l = false := by
  simp only [Config.returnsReused]
  split
  · rename_i handlers i rest hstack
    obtain ⟨w, stack⟩ := c
    obtain rfl : stack = .user handlers :: .closeTail i :: rest := hstack
    obtain rfl : c' = ⟨w, .closeTail i :: rest⟩ := by
      cases handlers with
      | nil => exact (Option.some.inj hl).symm
      | cons p handlers => cases hl
    cases ls with
    | nil =>
        obtain rfl := Option.some.inj hrun
        exact absurd rfl (hdone i)
    | cons l' ls =>
        obtain ⟨c'', hl', -⟩ := run_cons_eq_some _ hrun
        cases l' with
        | tau =>
            cases hn : w.fd? i with
            | none => rfl
            | some n =>
                have hunreg : w.unregistered? (.closeTail i) .tau = some (.socket i, n) := by
                  simp [World.unregistered?, hn]
                exact (not_reused_of_touches h.head hl' rfl).2 hunreg
        | _ => cases hl'
  · rfl

/-- In every run whose steps are orderly the `close` calls touch no other object. If they touch no
other object, all steps are orderly, unless the run stops in the middle of a `close` call. -/
theorem close_touches_no_other {ls : List Label} (hrun : run (step backend) {} ls = some c) :
    (EachStep (step backend) Config.Orderly ({} : Config V E F) ls →
      EachStep (step backend) (TouchesNoOther backend) ({} : Config V E F) ls) ∧
    ((∀ i, c.stack.head? ≠ some (.closeTail i)) →
      EachStep (step backend) (TouchesNoOther backend) ({} : Config V E F) ls →
        EachStep (step backend) Config.Orderly ({} : Config V E F) ls) := by
  constructor
  · intro hguard before l after t hls ht
    have hbefore : before <+: ls := by
      rw [hls]
      exact List.prefix_append before _
    have hinv : t.OwnershipInv :=
      run_invariant (fun _ _ _ h hg hl => h.step hg hl) .initial (hguard.of_prefix hbefore) ht
    exact touchesNoOther_of_inv hinv (hguard before l after t hls ht).1
  · intro hdone htouches before l after t hls ht
    obtain ⟨t', hl, hafter⟩ : ∃ t', step backend t l = some t' ∧
        run (step backend) t' after = some c := by
      rw [hls] at hrun
      obtain ⟨u, hu, hrest⟩ := run_append_eq_some _ hrun
      obtain rfl := Option.some.inj (ht.symm.trans hu)
      exact run_cons_eq_some _ hrest
    refine ⟨closesReused_of_touches (htouches before l after t hls ht) hl, ?_⟩
    rw [hls] at htouches
    exact returnsReused_of_touches ((htouches.of_append ht).tail hl) hl hafter hdone

end Machine

/-- A server socket is closed, a new socket gets its number, and the server socket is closed
again. -/
def closeServerTwiceRun (again : List Label) : List Label :=
  [.newServer 3 none, .closeServer 0 (.ret 0), .return_, .newSocket 3 none] ++ again

theorem close_touches_no_other_sample :
    EachStep (step .epoll) (TouchesNoOther .epoll) ({} : Config ℕ ℕ SampleHandler)
      (closeServerTwiceRun [.connect 0 (.ret 0), .return_, .tau, .close 0 (.ret 0)]) := by
  obtain ⟨c, hrun⟩ : ∃ c : Config ℕ ℕ SampleHandler, run (step .epoll) {}
      (closeServerTwiceRun [.connect 0 (.ret 0), .return_, .tau, .close 0 (.ret 0)]) = some c :=
    ⟨_, rfl⟩
  exact (close_touches_no_other hrun).1 (by decide +kernel)

/-- The second call closes the descriptor of the new socket and removes its table entry. -/
theorem closeServerTwiceRun_closes_other : ∃ c c' : Config ℕ ℕ SampleHandler,
    run (step .epoll) {} (closeServerTwiceRun []) = some c ∧
      step .epoll c (.closeServer 0 (.ret 0)) = some c' ∧
      c.world.descriptors 3 = some (some (.socket 0)) ∧
      c.world.table 3 = some (some (.socket 0)) ∧
      c'.world.descriptors 3 = none ∧ c'.world.table 3 = none ∧
      ¬ TouchesNoOther .epoll c (.closeServer 0 (.ret 0)) := by
  refine ⟨_, _, rfl, rfl, rfl, rfl, rfl, rfl, ?_⟩
  intro htouches
  have hkept := htouches (.user []) rfl (.server 0) rfl _ rfl
  cases hkept.1 3 (.socket 0) (by decide) rfl

end Libasync.Reactor
