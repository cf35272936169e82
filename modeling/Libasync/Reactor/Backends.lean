import Libasync.Foundation.Projection
import Libasync.Reactor.Plain
import Libasync.Reactor.Reachable

/-! # The two backends

epoll reports a descriptor once, with everything that it is ready for, and kqueue reports each
filter of it. What one call of `reactor_on_event` does on Linux is done by two calls on FreeBSD. -/

namespace Libasync.Reactor

open Promise Socket Automaton

variable {V E F : Type*}

/-! ### Events -/

/-- What kqueue reports of an event after the readable filter. -/
def writeHalf (event : Event) (i : ℕ) : List (Event × Target) :=
  if event.writable then [(⟨event.fd, false, true⟩, .socket i)] else []

/-- What kqueue reports where epoll reports this. A server socket has one filter. -/
def kevents : Event × Target → List (Event × Target)
  | (event, .server j) => [(⟨event.fd, true, false⟩, .server j)]
  | (event, .socket i) =>
      if event.readable then (⟨event.fd, true, false⟩, .socket i) :: writeHalf event i
      else writeHalf event i

/-- The event that `reactor_task` has taken last. -/
def current? (events : List (Event × Target)) : ℕ → Option (Event × Target)
  | 0 => none
  | k + 1 => events[k]?

namespace Config

/-- The steps of kqueue for a step of epoll. -/
def halfLabels (c : Config V E F) (l : Label) : List Label :=
  match c.stack, l with
  | _, .poll batch => [.poll (batch.flatMap kevents)]
  | .batch k n :: _, l =>
      if k < n ∧ (c.world.events[k]?).any (fun reported => (kevents reported).isEmpty) then []
      else [l]
  | .writePart _ false _ :: .batch k _ :: _, l =>
      if (current? c.world.events k).any (fun reported => (kevents reported).isEmpty) then []
      else [l]
  | .writePart _ true _ :: .batch k _ :: _, l =>
      if (current? c.world.events k).any (fun reported => reported.1.readable) then
        [.tau, .tau, l]
      else [l]
  | _, l => [l]

end Config

/-- The frame is no part of `reactor_task`. -/
def Frame.outside : Frame → Bool
  | .user _ | .closeTail _ | .connectTail => true
  | _ => false

/-- kqueue can follow: `reactor_task` is not called while it runs, and the events are not too many;
an event goes to the object for which it was reported, whose entry is still there when the second
half of the event is handled; an accepted socket has an address. -/
def Config.portable (c : Config V E F) (l : Label) : Bool :=
  match c.stack, l with
  | stack, .poll batch =>
      stack.all Frame.outside &&
        decide ((batch.flatMap kevents).length ≤ World.eventBufferSize)
  | .batch k n :: _, _ =>
      decide (n ≤ k) || (c.world.events[k]?).all fun reported =>
        decide (c.world.table reported.1.fd = some (some reported.2))
  | .writePart i true _ :: .batch k _ :: _, _ =>
      (current? c.world.events k).all fun reported =>
        !reported.1.readable || decide (c.world.table reported.1.fd = some (some (.socket i)))
  | _, .accept (.addressFails ..) => false
  | _, _ => true

/-! ### Stacks -/

/-- The half of an event that a frame is about: the socket, and the event is writable. -/
def Frame.half? (events : List (Event × Target)) : Frame → Option (ℕ × Bool)
  | .reading i slot _ | .readTail i _ slot _ | .closedTail i slot _ =>
      some (i, slotWritable events slot)
  | .writePart i writable _ => some (i, writable)
  | _ => none

/-- What there is of `reactor_on_event` on both stacks, and the half of the event that kqueue has
still to report. -/
inductive Halves (events : List (Event × Target)) (k : ℕ) :
    List Frame → List Frame → List (Event × Target) → Prop where
  | between : Halves events k [] [] []
  | accepting (j since since') : Halves events k [.accepting j since] [.accepting j since'] []
  | errorTail (i since since') : Halves events k [.errorTail i since] [.errorTail i since'] []
  | first (frame i event t since) (current : current? events k = some (event, t))
      (readable : event.readable = true) (half : frame.half? events = some (i, event.writable)) :
      Halves events k [frame] [frame.mark false since] (writeHalf event i)
  | second (i event t since since') (current : current? events k = some (event, t))
      (readable : event.readable = false) (writable : event.writable = true) :
      Halves events k [.writePart i true since] [.writePart i true since'] []
  | neither (i event t since) (current : current? events k = some (event, t))
      (none : kevents (event, t) = []) :
      Halves events k [.writePart i false since] [] []

/-- The stacks of the two backends, with their event buffers. -/
inductive Halved (events events' : List (Event × Target)) : List Frame → List Frame → Prop where
  | outside (stack) (outside : ∀ frame ∈ stack, frame.outside = true) :
      Halved events events' stack stack
  | inside (above top top' base k n k' n' rest)
      (above_outside : ∀ frame ∈ above, frame.outside = true)
      (base_outside : ∀ frame ∈ base, frame.outside = true) (parts : Halves events k top top' rest)
      (bound : n ≤ events.length) (bound' : n' ≤ events'.length)
      (remaining : (events'.take n').drop k' = rest ++ ((events.take n).drop k).flatMap kevents) :
      Halved events events' (above ++ (top ++ .batch k n :: base))
        (above ++ (top' ++ .batch k' n' :: base))

/-- The configurations of the two backends. -/
structure Config.Ported (c c' : Config V E F) : Prop where
  world : c'.world.plain (fun _ => []) = c.world.plain fun _ => []
  stack : Halved c.world.events c'.world.events c.stack c'.stack

section Stacks

variable {events events' : List (Event × Target)} {stack stack' : List Frame} {frame : Frame}

theorem Halves.not_outside {k : ℕ} {top top' : List Frame} {rest : List (Event × Target)}
    (h : Halves events k top top' rest) : ∀ frame ∈ top, frame.outside = false := by
  cases h with
  | between => simp
  | accepting | errorTail | second | neither => simp [Frame.outside]
  | first frame i event t since current readable half =>
      intro f hf
      obtain rfl := List.mem_singleton.mp hf
      cases f <;> simp [Frame.half?] at half <;> rfl

/-- Frames that are no part of `reactor_task` are on both stacks. -/
theorem Halved.push {frames : List Frame} (h : Halved events events' stack stack')
    (hframes : ∀ frame ∈ frames, frame.outside = true) :
    Halved events events' (frames ++ stack) (frames ++ stack') := by
  cases h with
  | outside stack outside =>
      refine .outside _ fun frame hmem => ?_
      rcases List.mem_append.mp hmem with hmem | hmem
      · exact hframes frame hmem
      · exact outside frame hmem
  | inside above top top' base k n k' n' rest above_outside base_outside parts bound bound'
      remaining =>
      rw [← List.append_assoc frames, ← List.append_assoc frames]
      refine .inside _ top top' base k n k' n' rest ?_ base_outside parts bound bound' remaining
      intro frame hmem
      rcases List.mem_append.mp hmem with hmem | hmem
      · exact hframes frame hmem
      · exact above_outside frame hmem

theorem Halved.pop (h : Halved events events' (frame :: stack) stack')
    (hframe : frame.outside = true) :
    ∃ rest, stack' = frame :: rest ∧ Halved events events' stack rest := by
  generalize hstack : frame :: stack = whole at h
  cases h with
  | outside _ outside =>
      subst hstack
      exact ⟨stack, rfl, .outside stack fun f hf => outside f (List.mem_cons_of_mem _ hf)⟩
  | inside above top top' base k n k' n' rest above_outside base_outside parts bound bound'
      remaining =>
      cases above with
      | cons f above =>
          obtain ⟨rfl, rfl⟩ := List.cons.inj hstack
          exact ⟨_, rfl, .inside above top top' base k n k' n' rest
            (fun f hf => above_outside f (List.mem_cons_of_mem _ hf)) base_outside parts bound
            bound' remaining⟩
      | nil =>
          cases top with
          | nil =>
              obtain ⟨rfl, -⟩ := List.cons.inj hstack
              cases hframe
          | cons f top =>
              obtain ⟨rfl, -⟩ := List.cons.inj hstack
              simp [parts.not_outside frame (List.mem_cons_self ..)] at hframe

theorem unwind_outside {frames : List Frame} (h : ∀ frame ∈ frames, frame.outside = true) :
    ∀ frame ∈ unwind frames, frame.outside = true :=
  fun frame hmem => h frame ((unwind_suffix frames).subset hmem)

/-- An exception goes to the same user code. -/
theorem Halved.unwind (h : Halved events events' stack stack') :
    Halved events events' (unwind stack) (unwind stack') := by
  cases h with
  | outside stack outside => exact .outside _ (unwind_outside outside)
  | inside above top top' base k n k' n' rest above_outside base_outside parts bound bound'
      remaining =>
      induction above with
      | nil =>
          have htop {frames : List Frame} (m p : ℕ)
              (hframes : ∀ f ∈ frames, ∀ handlers, f ≠ .user handlers) :
              Reactor.unwind (frames ++ .batch m p :: base) = Reactor.unwind base := by
            induction frames with
            | nil => rfl
            | cons f frames ih =>
                have hrest := ih fun g hg => hframes g (List.mem_cons_of_mem _ hg)
                have huser := hframes f (List.mem_cons_self ..)
                cases f with
                | user handlers => exact absurd rfl (huser handlers)
                | _ => exact hrest
          rw [List.nil_append, List.nil_append, htop k n, htop k' n']
          · exact .outside _ (unwind_outside base_outside)
          · intro f hf handlers heq
            cases parts with
            | between | neither => cases hf
            | accepting | errorTail | second =>
                obtain rfl := List.mem_singleton.mp hf
                cases heq
            | first frame i event t since current readable half =>
                obtain rfl := List.mem_singleton.mp hf
                cases frame <;> simp [Frame.half?, Frame.mark] at half heq
          · intro f hf handlers heq
            have houtside := parts.not_outside f hf
            simp [heq, Frame.outside] at houtside
      | cons f above ih =>
          have hrest := ih fun g hg => above_outside g (List.mem_cons_of_mem _ hg)
          have hf := above_outside f (List.mem_cons_self ..)
          cases f with
          | user handlers =>
              exact .inside _ top top' base k n k' n' rest above_outside base_outside parts bound
                bound' remaining
          | closeTail | connectTail => exact hrest
          | _ => cases hf

theorem Halved.cons (h : Halved events events' (frame :: stack) stack') :
    ∃ frame' rest, stack' = frame' :: rest := by
  cases hstack : stack' with
  | cons frame' rest => exact ⟨frame', rest, rfl⟩
  | nil =>
      subst hstack
      generalize hframe : frame :: stack = whole, hnil : ([] : List Frame) = none at h
      cases h with
      | outside => simp [← hnil] at hframe
      | inside => simp at hnil

/-- `reactor_task` is not on the stack. -/
theorem Halved.eq_of_outside (h : Halved events events' stack stack')
    (houtside : ∀ frame ∈ stack, frame.outside = true) : stack' = stack := by
  cases h with
  | outside => rfl
  | inside above top top' base k n =>
      have hbatch := houtside (.batch k n) (by simp)
      cases hbatch

/-- The loop of `reactor_task` is on top. -/
theorem Halved.loop {k n : ℕ} {base : List Frame}
    (h : Halved events events' (.batch k n :: base) stack') :
    ∃ k' n', stack' = .batch k' n' :: base ∧ (∀ frame ∈ base, frame.outside = true) ∧
      n ≤ events.length ∧ n' ≤ events'.length ∧
      (events'.take n').drop k' = ((events.take n).drop k).flatMap kevents := by
  generalize hstack : Frame.batch k n :: base = whole at h
  cases h with
  | outside _ outside =>
      subst hstack
      cases outside (.batch k n) (List.mem_cons_self ..)
  | inside above top top' base k n k' n' rest above_outside base_outside parts bound bound'
      remaining =>
      cases above with
      | cons f above =>
          obtain ⟨rfl, -⟩ := List.cons.inj hstack
          cases above_outside (.batch _ _) (List.mem_cons_self ..)
      | nil =>
          cases parts with
          | between =>
              obtain ⟨hframe, rfl⟩ := List.cons.inj hstack
              obtain ⟨rfl, rfl⟩ := Frame.batch.inj hframe
              exact ⟨k', n', rfl, base_outside, bound, bound', remaining⟩
          | accepting | errorTail | second | neither => cases hstack
          | first frame i event t since current readable half =>
              obtain ⟨rfl, -⟩ := List.cons.inj hstack
              cases half

/-- A piece of `reactor_on_event` is on top. -/
theorem Halved.piece (h : Halved events events' (frame :: stack) stack')
    (hframe : frame.outside = false) (hbatch : ∀ k n, frame ≠ .batch k n) :
    ∃ k n base k' n' top' rest, stack = .batch k n :: base ∧
      stack' = top' ++ .batch k' n' :: base ∧ Halves events k [frame] top' rest ∧
      (∀ frame ∈ base, frame.outside = true) ∧ n ≤ events.length ∧ n' ≤ events'.length ∧
      (events'.take n').drop k' = rest ++ ((events.take n).drop k).flatMap kevents := by
  generalize hstack : frame :: stack = whole at h
  cases h with
  | outside _ outside =>
      subst hstack
      simp [outside frame (List.mem_cons_self ..)] at hframe
  | inside above top top' base k n k' n' rest above_outside base_outside parts bound bound'
      remaining =>
      cases above with
      | cons f above =>
          obtain ⟨rfl, -⟩ := List.cons.inj hstack
          simp [above_outside frame (List.mem_cons_self ..)] at hframe
      | nil =>
          cases top with
          | nil =>
              obtain ⟨rfl, -⟩ := List.cons.inj hstack
              exact absurd rfl (hbatch k n)
          | cons f top =>
              obtain rfl : top = [] := by
                cases parts <;> rfl
              obtain ⟨rfl, rfl⟩ := List.cons.inj hstack
              exact ⟨k, n, base, k', n', top', rest, rfl, rfl, parts, base_outside, bound, bound',
                remaining⟩

end Stacks

/-! ### Pieces -/

section Pieces

variable {w w₁ : World V E F} {frames : List Frame}

theorem World.readEvent_frames {i : ℕ} {slot : Option ℕ} {since : ℕ} {answers : List ReadAnswer}
    (h : w.readEvent i slot since answers = some (w₁, .push frames)) :
    ∃ closed, frames = [.readTail i closed slot since] ∨
      frames = [.user [], .readTail i closed slot since] := by
  simp only [World.readEvent] at h
  repeat' split at h
  all_goals simp only [Option.some.injEq, Prod.mk.injEq, Effect.push.injEq, reduceCtorEq,
    and_false] at h
  all_goals first | exact ⟨_, .inl h.2.symm⟩ | exact ⟨_, .inr h.2.symm⟩

theorem World.endOfFile_frames {i : ℕ} {closed : Bool} {slot : Option ℕ} {since : ℕ}
    (h : w.endOfFile i closed slot since = some (w₁, .push frames)) :
    frames = [.user [], .closedTail i slot since] ∨
      frames = [.user [], .readTail i false slot since] ∨
      frames = [.writePart i (w.writableAt slot) since] := by
  simp only [World.endOfFile] at h
  repeat' split at h
  all_goals simp only [Option.some.injEq, Prod.mk.injEq, Effect.push.injEq, reduceCtorEq] at h
  all_goals simp [← h.2]

theorem World.connectEvent_frames {i since : ℕ} {answer : Answer}
    (h : w.connectEvent i since answer = some (w₁, .push frames)) :
    (∃ handlers, frames = [.user handlers]) ∨ frames = [.user [], .errorTail i since] := by
  simp only [World.connectEvent] at h
  repeat' split at h
  all_goals simp only [Option.some.injEq, Prod.mk.injEq, Effect.push.injEq, reduceCtorEq] at h
  · exact .inl ⟨_, h.2.symm⟩
  · exact .inr h.2.symm

theorem World.flushEvent_frames [Blank V] {i : ℕ} {answers : List Answer}
    (h : w.flushEvent i answers = some (w₁, .push frames)) : frames = [] := by
  simp only [World.flushEvent] at h
  repeat' split at h
  all_goals simp only [Option.some.injEq, Prod.mk.injEq, Effect.push.injEq, reduceCtorEq,
    and_false] at h
  exact h.2.symm

theorem World.acceptEvent_frames {backend : Backend} {j since : ℕ} {answer : AcceptAnswer}
    (h : w.acceptEvent backend j since answer = some (w₁, .push frames)) :
    frames = [] ∨ frames = [.user [], .accepting j since] := by
  simp only [World.acceptEvent] at h
  repeat' split at h
  all_goals simp only [Option.some.injEq, Prod.mk.injEq, Effect.push.injEq, reduceCtorEq,
    and_false] at h
  · exact .inl h.2.symm
  · exact .inr h.2.symm

/-- The writable half of an event is the last one. -/
theorem Halves.written [Blank V] {events : List (Event × Target)} {k i s : ℕ} {l : Label}
    (h : libraryStep .epoll w (.writePart i true s) l = some (w₁, .push frames)) (since : ℕ) :
    ∃ above top, frames = above ++ top ∧ (∀ frame ∈ above, frame.outside = true) ∧
      Halves events k top (top.map (Frame.mark true since)) [] := by
  cases l with
  | soError answer =>
      obtain ⟨handlers, rfl⟩ | rfl := World.connectEvent_frames h
      · exact ⟨_, [], (List.append_nil _).symm, by simp [Frame.outside], .between⟩
      · exact ⟨[.user []], [.errorTail i s], rfl, by simp [Frame.outside], .errorTail i s since⟩
  | flush answers =>
      obtain rfl := World.flushEvent_frames h
      exact ⟨[], [], rfl, by simp, .between⟩
  | _ => cases h

/-- A piece goes on with the same half of the event. -/
theorem Halves.step [Blank V] {k since : ℕ} {frame : Frame} {writable : Bool}
    {rest : List (Event × Target)} {l : Label}
    (hparts : Halves w.events k [frame] [frame.mark writable since] rest)
    (hmark : frame.marks writable = true)
    (h : libraryStep .epoll w frame l = some (w₁, .push frames)) :
    ∃ above top, frames = above ++ top ∧ (∀ frame ∈ above, frame.outside = true) ∧
      Halves w.events k top (top.map (Frame.mark writable since)) rest := by
  have huser : ∀ frame ∈ [Frame.user []], frame.outside = true := by simp [Frame.outside]
  have hnone : ∀ frame ∈ ([] : List Frame), frame.outside = true := by simp
  cases frame with
  | reading i slot s =>
      cases hparts with
      | first frame k event t since current readable half =>
          cases l with
          | read answers =>
              have hnext (closed : Bool) := Halves.first (.readTail i closed slot s) k event t since
                current readable half
              obtain ⟨closed, rfl | rfl⟩ := World.readEvent_frames h
              · exact ⟨[], [_], rfl, hnone, hnext closed⟩
              · exact ⟨[_], [_], rfl, huser, hnext closed⟩
          | _ => cases h
  | readTail i closed slot s =>
      obtain rfl : writable = false := by simpa [Frame.marks] using hmark
      cases hparts with
      | first frame k event t since current readable half =>
          cases l with
          | tau =>
              have hclosed := Halves.first (.closedTail i slot s) k event t since current readable
                half
              have hended := Halves.first (.readTail i false slot s) k event t since current
                readable half
              have hwrites := Halves.first (.writePart i (w.writableAt slot) s) k event t since
                current readable half
              rcases World.endOfFile_frames h with rfl | rfl | rfl
              · exact ⟨[_], [_], rfl, huser, hclosed⟩
              · exact ⟨[_], [_], rfl, huser, hended⟩
              · exact ⟨[], [_], rfl, hnone, hwrites⟩
          | _ => cases h
  | closedTail i slot s =>
      obtain rfl : writable = false := by simpa [Frame.marks] using hmark
      cases hparts with
      | first frame k event t since current readable half =>
          cases l with
          | tau =>
              have hwrites := Halves.first (.writePart i (w.writableAt slot) s) k event t since
                current readable half
              obtain rfl := World.unregTail_frames h
              exact ⟨[], [_], rfl, hnone, hwrites⟩
          | _ => cases h
  | writePart i b s =>
      obtain rfl : b = writable := by simpa [Frame.marks] using hmark
      cases hparts with
      | first frame k event t since current readable half =>
          obtain ⟨rfl, hwritable⟩ := Prod.mk.inj (Option.some.inj half)
          cases l with
          | tau =>
              obtain rfl := Effect.push.inj (Prod.mk.inj (Option.some.inj h)).2
              refine ⟨[], [], rfl, hnone, ?_⟩
              simp only [writeHalf, ← hwritable]
              exact .between
          | _ => cases h
      | second i event t since since' current readable writable => exact Halves.written h since
  | errorTail i s =>
      cases hparts with
      | errorTail i s since =>
          cases l with
          | closing answer =>
              rcases World.closeSocket_frames h with rfl | rfl
              · exact ⟨[], [], rfl, hnone, .between⟩
              · exact ⟨_, [], (List.append_nil _).symm, by simp [Frame.outside], .between⟩
          | _ => cases h
      | first frame k event t since current readable half => cases half
  | accepting j s =>
      cases hparts with
      | accepting j s since =>
          cases l with
          | accept answer =>
              rcases World.acceptEvent_frames h with rfl | rfl
              · exact ⟨[], [], rfl, hnone, .between⟩
              · exact ⟨[_], [_], rfl, huser, .accepting j s since⟩
          | _ => cases h
      | first frame k event t since current readable half => cases half
  | user | closeTail | connectTail | batch =>
      cases hparts with
      | first frame k event t since current readable half => cases half

end Pieces

/-! ### Steps -/

section Steps

variable [Blank V] {w w' w₁ : World V E F} {frame : Frame} {l : Label} {eff : Effect}

/-- A call of user code does not depend on the backend. -/
theorem userStep_ported (hworld : w'.plain (fun _ => []) = w.plain fun _ => [])
    (hpoll : ∀ batch, l ≠ .poll batch) (h : userStep .epoll w l = some (w₁, eff)) :
    ∃ w₁', userStep .kqueue w' l = some (w₁', eff) ∧
      w₁'.plain (fun _ => []) = w₁.plain (fun _ => []) ∧ w₁.events = w.events ∧
      w₁'.events = w'.events := by
  have hplain := userStep_plain w (fun _ => []) .epoll hpoll
  have hplain' := userStep_plain w' (fun _ => []) .epoll hpoll
  rw [h] at hplain
  rw [hworld, hplain] at hplain'
  obtain ⟨⟨w₁', eff'⟩, hcall, heq⟩ := Option.map_eq_some_iff.mp hplain'.symm
  obtain ⟨hsame, rfl⟩ := Prod.mk.inj heq
  have hkqueue : userStep .kqueue w' l = userStep .epoll w' l := by
    cases l with
    | poll batch => exact absurd rfl (hpoll batch)
    | _ => rfl
  exact ⟨w₁', hkqueue.trans hcall, hsame, userStep_events w .epoll hpoll h,
    userStep_events w' .epoll hpoll hcall⟩

/-- A piece does the same for the other half, on the other backend. -/
theorem libraryStep_ported (hworld : w'.plain (fun _ => []) = w.plain fun _ => [])
    (hbatch : ∀ k n, frame ≠ .batch k n)
    (haddress : ∀ fd errno, l ≠ .accept (.addressFails fd errno))
    {writable : Bool} (since : ℕ) (hmark : frame.marks writable = true)
    (h : libraryStep .epoll w frame l = some (w₁, eff)) :
    ∃ w₁', libraryStep .kqueue w' (frame.mark writable since) l =
        some (w₁', eff.mark writable since) ∧
      w₁'.plain (fun _ => []) = w₁.plain (fun _ => []) ∧ w₁.events = w.events ∧
      w₁'.events = w'.events := by
  have hbatch' : ∀ k n, frame.mark writable since ≠ .batch k n := by
    intro k n heq
    cases frame with
    | batch => exact hbatch _ _ rfl
    | _ => cases heq
  have hslot (v : World V E F) :
      slotWritable [] (frame.mark writable since).slot? =
        slotWritable v.events (frame.mark writable since).slot? := by
    rw [Frame.mark_slot]
    rfl
  have hplain := libraryStep_plain w (fun _ => []) .epoll (l := l) hbatch' (hslot w)
  have hplain' := libraryStep_plain w' (fun _ => []) .epoll (l := l) hbatch' (hslot w')
  have hpiece₀ : libraryStep .epoll w (frame.mark writable since) l =
      some (w₁, eff.mark writable since) := by
    rw [libraryStep_mark hbatch since hmark, h]
    rfl
  rw [hpiece₀] at hplain
  rw [hworld, hplain] at hplain'
  obtain ⟨⟨w₁', eff'⟩, hpiece, heq⟩ := Option.map_eq_some_iff.mp hplain'.symm
  obtain ⟨hsame, rfl⟩ := Prod.mk.inj heq
  exact ⟨w₁', (libraryStep_backend hbatch' haddress).trans hpiece, hsame,
    libraryStep_events w .epoll hbatch h, libraryStep_events w' .epoll hbatch' hpiece⟩

theorem step_of_userStep {backend : Backend} {handlers : List Ref} {rest : List Frame}
    {r : World V E F × Effect} (h : userStep backend w l = some r) :
    step backend ⟨w, .user handlers :: rest⟩ l =
      some (Config.after (.user handlers :: rest) r) := by
  cases l with
  | handler | return_ | throw_ | tau | read | soError | flush | closing | accept => cases h
  | _ =>
      simp only [step]
      rw [h]
      rfl

theorem step_of_libraryStep {backend : Backend} {rest : List Frame} {r : World V E F × Effect}
    (h : libraryStep backend w frame l = some r) :
    step backend ⟨w, frame :: rest⟩ l = some (Config.after rest r) := by
  cases frame with
  | user handlers => simp [libraryStep_user] at h
  | _ =>
      simp only [step]
      rw [h]
      rfl

/-! ### Reports -/

theorem mem_kevents {event event' : Event} {t t' : Target}
    (h : (event', t') ∈ kevents (event, t)) :
    event'.fd = event.fd ∧ t' = t ∧ event'.readable ≠ event'.writable := by
  cases t with
  | server j =>
      simp only [kevents, List.mem_singleton, Prod.mk.injEq] at h
      obtain ⟨rfl, rfl⟩ := h
      simp
  | socket i =>
      cases hr : event.readable <;> cases hw : event.writable <;>
        simp [kevents, writeHalf, hr, hw] at h
      · obtain ⟨rfl, rfl⟩ := h
        simp
      · obtain ⟨rfl, rfl⟩ := h
        simp
      · rcases h with ⟨rfl, rfl⟩ | ⟨rfl, rfl⟩ <;> simp

/-- kqueue reports no filter twice. -/
theorem kevents_nodup {batch : List (Event × Target)}
    (h : (batch.map fun (event, _) => event.fd).Nodup) :
    ((batch.flatMap kevents).map fun (event, _) => (event.fd, event.readable)).Nodup := by
  induction batch with
  | nil => exact List.nodup_nil
  | cons reported batch ih =>
      obtain ⟨event, t⟩ := reported
      obtain ⟨hnew, hrest⟩ := List.nodup_cons.mp h
      rw [List.flatMap_cons, List.map_append]
      refine List.nodup_append.mpr ⟨?_, ih hrest, ?_⟩
      · cases t with
        | server j => simp [kevents]
        | socket i =>
            cases hr : event.readable <;> cases hw : event.writable <;>
              simp [kevents, writeHalf, hr, hw]
      · rintro _ hfirst _ hlater rfl
        obtain ⟨⟨e, t'⟩, he, rfl⟩ := List.mem_map.mp hfirst
        obtain ⟨⟨e', t''⟩, he', heq⟩ := List.mem_map.mp hlater
        obtain ⟨⟨e₀, t₀⟩, hmem, hpart⟩ := List.mem_flatMap.mp he'
        have hfd : e₀.fd = event.fd := by
          rw [← (mem_kevents hpart).1, ← (mem_kevents he).1]
          exact congrArg Prod.fst heq
        exact hnew (List.mem_map.mpr ⟨(e₀, t₀), hmem, hfd⟩)

omit [Blank V] in
theorem reports_kevents {batch : List (Event × Target)}
    (hworld : w'.plain (fun _ => []) = w.plain fun _ => []) (h : w.reports .epoll batch = true)
    (hsmall : (batch.flatMap kevents).length ≤ World.eventBufferSize) :
    w'.reports .kqueue (batch.flatMap kevents) = true := by
  have hdescriptors : w'.descriptors = w.descriptors := by
    simpa using congrArg World.descriptors hworld
  simp only [World.reports, Bool.and_eq_true, decide_eq_true_eq, List.all_eq_true] at h ⊢
  obtain ⟨⟨-, hopen⟩, hnodup⟩ := h
  refine ⟨⟨hsmall, ?_⟩, ?_, kevents_nodup hnodup⟩
  · rintro ⟨event', t'⟩ hmem
    obtain ⟨⟨event, t⟩, hmem, hpart⟩ := List.mem_flatMap.mp hmem
    obtain ⟨hfd, rfl, -⟩ := mem_kevents hpart
    rw [hdescriptors, hfd]
    exact hopen (event, _) hmem
  · rintro ⟨event', t'⟩ hmem
    obtain ⟨⟨event, t⟩, hmem, hpart⟩ := List.mem_flatMap.mp hmem
    simpa using (mem_kevents hpart).2.2

/-! ### The simulation -/

/-- kqueue takes these steps, and the configurations are alike again. -/
def Follows (c₁ c' : Config V E F) (ls : List Label) : Prop :=
  ∃ c₁', run (step .kqueue) c' ls = some c₁' ∧ c₁.Ported c₁'

theorem follows_single {c₁ c' c₁' : Config V E F} (h : step .kqueue c' l = some c₁')
    (hported : c₁.Ported c₁') : Follows c₁ c' [l] := by
  refine ⟨c₁', ?_, hported⟩
  rw [run_cons, h]
  rfl

theorem userStep_outside {frames : List Frame} (hpoll : ∀ batch, l ≠ .poll batch)
    (h : userStep .epoll w l = some (w₁, .push frames)) :
    ∀ frame ∈ frames, frame.outside = true := by
  intro f hf
  have hpushes : (Frame.user []).pushes f = true := userStep_pushes h hf
  have hpushed : Pushed w w₁ l (.user []) frames := userStep_pushed h
  cases f with
  | user | closeTail | connectTail => rfl
  | batch k n =>
      cases hpushed with
      | polled top batch label => exact absurd label (hpoll batch)
      | _ => simp at hf
  | _ => cases hpushes

/-- User code makes a call. -/
theorem Config.Ported.call {handlers : List Ref} {rest : List Frame} {c' : Config V E F}
    (h : Config.Ported ⟨w, .user handlers :: rest⟩ c')
    (hguard : Config.portable ⟨w, .user handlers :: rest⟩ l = true)
    (hcall : userStep .epoll w l = some (w₁, eff)) :
    Follows (Config.after (.user handlers :: rest) (w₁, eff)) c'
      (Config.halfLabels ⟨w, .user handlers :: rest⟩ l) := by
  obtain ⟨w', stack'⟩ := c'
  obtain ⟨hworld, hstack⟩ := h
  obtain ⟨rest', rfl, hrest⟩ := hstack.pop rfl
  by_cases hpoll : ∃ batch, l = .poll batch
  · obtain ⟨batch, rfl⟩ := hpoll
    simp only [userStep, World.poll, Option.ite_none_right_eq_some, Option.some.injEq,
      Prod.mk.injEq, Bool.and_eq_true] at hcall
    obtain ⟨⟨hopen, hreports⟩, rfl, rfl⟩ := hcall
    simp only [Config.portable, Bool.and_eq_true, decide_eq_true_eq, List.all_eq_true] at hguard
    obtain ⟨houtside, hsmall⟩ := hguard
    have hopen' : w'.reactorOpen = true := by
      rw [← hopen]
      simpa using congrArg World.reactorOpen hworld
    have hcall' : userStep .kqueue w' (.poll (batch.flatMap kevents)) =
        some ({ w' with
          events := batch.flatMap kevents ++ w'.events.drop (batch.flatMap kevents).length },
          .push [.batch 0 (batch.flatMap kevents).length]) := by
      simp only [userStep, World.poll, hopen', reports_kevents hworld hreports hsmall,
        Bool.and_self, if_true]
    obtain rfl := hrest.eq_of_outside fun f hf => houtside f (List.mem_cons_of_mem _ hf)
    refine follows_single (step_of_userStep hcall') ⟨hworld, ?_⟩
    exact .inside [] [] [] (.user handlers :: rest') 0 batch.length 0
      (batch.flatMap kevents).length [] (by simp) houtside .between (by simp) (by simp) (by simp)
  · have hpoll : ∀ batch, l ≠ .poll batch := fun batch hl => hpoll ⟨batch, hl⟩
    have hlabels : Config.halfLabels ⟨w, .user handlers :: rest⟩ l = [l] := by
      cases l with
      | poll batch => exact absurd rfl (hpoll batch)
      | _ => rfl
    obtain ⟨w₁', hcall', hworld₁, hevents, hevents'⟩ := userStep_ported hworld hpoll hcall
    rw [hlabels]
    refine follows_single (step_of_userStep hcall') ?_
    cases eff with
    | push frames =>
        refine ⟨hworld₁, ?_⟩
        simp only [Config.after, hevents, hevents']
        exact Halved.push hstack (userStep_outside hpoll hcall)
    | throw failure =>
        refine ⟨hworld₁, ?_⟩
        simp only [Config.after, hevents, hevents']
        exact hstack.unwind
    | crash => exact ⟨hworld₁, .outside [] (by simp)⟩

/-- The end of a call. -/
theorem Config.Ported.tail {rest : List Frame} {c' : Config V E F}
    (h : Config.Ported ⟨w, frame :: rest⟩ c') (houtside : frame.outside = true)
    (hpiece : libraryStep .epoll w frame l = some (w₁, eff)) :
    Follows (Config.after rest (w₁, eff)) c' (Config.halfLabels ⟨w, frame :: rest⟩ l) := by
  obtain ⟨w', stack'⟩ := c'
  obtain ⟨hworld, hstack⟩ := h
  obtain ⟨rest', rfl, hrest⟩ := hstack.pop houtside
  have hbatch : ∀ k n, frame ≠ .batch k n := by
    rintro k n rfl
    cases houtside
  have hmarks : frame.marks false = true := by
    cases frame with
    | user | closeTail | connectTail => rfl
    | _ => cases houtside
  obtain rfl : l = .tau := by
    cases frame with
    | closeTail | connectTail =>
        cases l with
        | tau => rfl
        | _ => cases hpiece
    | user handlers => simp [libraryStep_user] at hpiece
    | _ => cases houtside
  obtain ⟨w₁', hpiece', hworld₁, hevents, hevents'⟩ :=
    libraryStep_ported hworld hbatch (by simp) 0 hmarks hpiece
  have hmark : frame.mark false 0 = frame := by
    cases frame with
    | user | closeTail | connectTail => rfl
    | _ => cases houtside
  rw [hmark] at hpiece'
  have hlabels : Config.halfLabels ⟨w, frame :: rest⟩ .tau = [.tau] := by
    cases frame with
    | user | closeTail | connectTail => rfl
    | _ => cases houtside
  rw [hlabels]
  refine follows_single (step_of_libraryStep hpiece') ⟨?_, ?_⟩
  · simpa using hworld₁
  · cases eff with
    | push frames =>
        obtain rfl : frames = [] := by
          cases frame with
          | closeTail i => exact (World.unregTail_frames hpiece).symm
          | connectTail => exact (Effect.push.inj (Prod.mk.inj (Option.some.inj hpiece)).2).symm
          | user handlers => simp [libraryStep_user] at hpiece
          | _ => cases houtside
        simp only [Config.after, Effect.mark, hevents, hevents']
        exact hrest
    | throw failure =>
        simp only [Config.after, Effect.mark, hevents, hevents']
        exact hrest.unwind
    | crash => exact .outside [] (by simp)

omit [Blank V] in
theorem mark_outside {above : List Frame} (h : ∀ frame ∈ above, frame.outside = true)
    (writable : Bool) (since : ℕ) : above.map (Frame.mark writable since) = above := by
  refine (List.map_congr_left fun frame hmem => ?_).trans (List.map_id above)
  have houtside := h frame hmem
  cases frame with
  | user | closeTail | connectTail => rfl
  | _ => cases houtside

omit [Blank V] in
/-- After a piece of `reactor_on_event`. -/
theorem ported_after {w₁' : World V E F} {events events' rest : List (Event × Target)}
    {k n k' n' since : ℕ} {base : List Frame} {writable : Bool}
    (hworld : w₁'.plain (fun _ => []) = w₁.plain fun _ => []) (hevents : w₁.events = events)
    (hevents' : w₁'.events = events')
    (hframes : ∀ frames, eff = .push frames → ∃ above top, frames = above ++ top ∧
      (∀ frame ∈ above, frame.outside = true) ∧
        Halves events k top (top.map (Frame.mark writable since)) rest)
    (hbase : ∀ frame ∈ base, frame.outside = true) (bound : n ≤ events.length)
    (bound' : n' ≤ events'.length)
    (remaining : (events'.take n').drop k' = rest ++ ((events.take n).drop k).flatMap kevents) :
    Config.Ported (Config.after (.batch k n :: base) (w₁, eff))
      (Config.after (.batch k' n' :: base) (w₁', eff.mark writable since)) := by
  subst hevents hevents'
  cases eff with
  | push frames =>
      obtain ⟨above, top, rfl, habove, hparts⟩ := hframes frames rfl
      refine ⟨hworld, ?_⟩
      simp only [Config.after, Effect.mark, List.map_append, mark_outside habove,
        List.append_assoc]
      exact .inside above top _ base k n k' n' rest habove hbase hparts bound bound' remaining
  | throw failure => exact ⟨hworld, Halved.outside (unwind base) (unwind_outside hbase)⟩
  | crash => exact ⟨hworld, .outside [] (by simp)⟩

theorem drop_take_cons {α : Type*} {xs : List α} {k n : ℕ} {x : α} (hlt : k < n)
    (hget : xs[k]? = some x) : (xs.take n).drop k = x :: (xs.take n).drop (k + 1) := by
  obtain ⟨hlength, rfl⟩ := List.getElem?_eq_some_iff.mp hget
  have hk : k < (xs.take n).length := by
    simp only [List.length_take]
    omega
  rw [List.drop_eq_getElem_cons hk, List.getElem_take]

omit [Blank V] in
/-- kqueue takes the next event of its batch. -/
theorem dispatch_kqueue {k n : ℕ} {event : Event} {t : Target} {rest : List (Event × Target)}
    (hrest : (w.events.take n).drop k = (event, t) :: rest)
    (htable : w.table event.fd = some (some t)) :
    w.dispatch .kqueue k n =
        some (w.record (.delivered event t (some t)),
          .push [(w.record (.delivered event t (some t))).startEvent .kqueue k event t,
            .batch (k + 1) n]) ∧
      (w.events.take n).drop (k + 1) = rest := by
  have hlt : k < n := by
    by_contra hle
    rw [List.drop_eq_nil_of_le ((List.length_take_le _ _).trans (Nat.le_of_not_lt hle))] at hrest
    cases hrest
  have hget : w.events[k]? = some (event, t) := by
    have hhead := congrArg (fun xs => xs[0]?) hrest
    simpa [List.getElem?_drop, List.getElem?_take, hlt] using hhead
  refine ⟨?_, ?_⟩
  · simp only [World.dispatch, Nat.not_le.mpr hlt, if_false, hget, htable]
  · rw [← List.drop_drop, hrest]
    rfl

/-- A round of the loop of `reactor_task`. -/
theorem Config.Ported.loop {k n : ℕ} {rest : List Frame} {c' : Config V E F}
    (h : Config.Ported ⟨w, .batch k n :: rest⟩ c')
    (hguard : Config.portable ⟨w, .batch k n :: rest⟩ l = true)
    (hpiece : libraryStep .epoll w (.batch k n) l = some (w₁, eff)) :
    Follows (Config.after rest (w₁, eff)) c' (Config.halfLabels ⟨w, .batch k n :: rest⟩ l) := by
  obtain ⟨w', stack'⟩ := c'
  obtain ⟨hworld, hstack⟩ := h
  obtain ⟨k', n', rfl, hbase, bound, bound', remaining⟩ := hstack.loop
  obtain rfl : l = .tau := by
    cases l with
    | tau => rfl
    | _ => cases hpiece
  have htable : w'.table = w.table := by
    simpa using congrArg World.table hworld
  by_cases hdone : n ≤ k
  · have hnone : (w.events.take n).drop k = [] :=
      List.drop_eq_nil_of_le ((List.length_take_le _ _).trans hdone)
    have hdone' : n' ≤ k' := by
      rw [hnone] at remaining
      have hlength := List.drop_eq_nil_iff.mp remaining
      rwa [List.length_take, Nat.min_eq_left bound'] at hlength
    have hpiece' : libraryStep .kqueue w' (.batch k' n') .tau = some (w', .push []) := by
      simp only [libraryStep, World.dispatch, hdone', if_true]
    simp only [libraryStep, World.dispatch, hdone, if_true, Option.some.injEq,
      Prod.mk.injEq] at hpiece
    obtain ⟨rfl, rfl⟩ := hpiece
    have hlabels : Config.halfLabels ⟨w, .batch k n :: rest⟩ .tau = [.tau] := by
      simp [Config.halfLabels, Nat.not_lt.mpr hdone]
    rw [hlabels]
    exact follows_single (step_of_libraryStep hpiece') ⟨hworld, .outside rest hbase⟩
  · have hlt : k < n := Nat.lt_of_not_le hdone
    obtain ⟨event, t, hget⟩ : ∃ event t, w.events[k]? = some (event, t) :=
      ⟨_, _, List.getElem?_eq_getElem (hlt.trans_le bound)⟩
    have hentry : w.table event.fd = some (some t) := by
      simpa [Config.portable, hdone, hget] using hguard
    have hentry' : w'.table event.fd = some (some t) := by rw [htable, hentry]
    have hcurrent : current? w.events (k + 1) = some (event, t) := hget
    simp only [libraryStep, World.dispatch, hdone, if_false, hget, hentry, Option.some.injEq,
      Prod.mk.injEq] at hpiece
    obtain ⟨rfl, rfl⟩ := hpiece
    rw [drop_take_cons hlt hget, List.flatMap_cons] at remaining
    have hplain (event' : Event) : (w'.record (.delivered event' t (some t))).plain (fun _ => []) =
        (w.record (.delivered event t (some t))).plain fun _ => [] := by
      rw [World.plain_record_delivered, World.plain_record_delivered, hworld]
    -- one event of the batch of kqueue is taken
    have htakes {event' : Event} {more : List (Event × Target)} {top top' : Frame}
        (hmore : kevents (event, t) = (event', t) :: more) (hfd : event'.fd = event.fd)
        (htop : (w.record (.delivered event t (some t))).startEvent .epoll k event t = top)
        (htop' : (w'.record (.delivered event' t (some t))).startEvent .kqueue k' event' t = top')
        (hparts : Halves w.events (k + 1) [top] [top'] more) :
        Follows (Config.after rest (w.record (.delivered event t (some t)),
          .push [(w.record (.delivered event t (some t))).startEvent .epoll k event t,
            .batch (k + 1) n])) ⟨w', .batch k' n' :: rest⟩
          (Config.halfLabels ⟨w, .batch k n :: rest⟩ .tau) := by
      have hlabels : Config.halfLabels ⟨w, .batch k n :: rest⟩ .tau = [.tau] := by
        simp [Config.halfLabels, hlt, hget, hmore]
      rw [hmore, List.cons_append] at remaining
      obtain ⟨hdispatch, hrest⟩ := dispatch_kqueue remaining (hfd ▸ hentry')
      rw [hlabels]
      have hloop : libraryStep .kqueue w' (.batch k' n') .tau = some _ := hdispatch
      refine follows_single (step_of_libraryStep hloop) ⟨hplain event', ?_⟩
      simp only [Config.after, htop, htop']
      exact .inside [] [top] [top'] rest (k + 1) n (k' + 1) n' more (by simp) hbase hparts bound
        bound' hrest
    cases t with
    | server j =>
        exact htakes rfl rfl rfl rfl (.accepting j _ _)
    | socket i =>
        cases hreadable : event.readable with
        | true =>
            have hmore : kevents (event, .socket i) =
                (⟨event.fd, true, false⟩, .socket i) :: writeHalf event i := by
              simp [kevents, hreadable]
            have htop : (w.record (.delivered event (.socket i) (some (.socket i)))).startEvent
                .epoll k event (.socket i) = .reading i (some k) (w.log.length + 1) := by
              simp [World.startEvent, Backend.slot, hreadable, World.record]
            have hhalf : (Frame.reading i (some k) (w.log.length + 1)).half? w.events =
                some (i, event.writable) := by
              simp [Frame.half?, slotWritable, hget]
            exact htakes hmore rfl htop rfl
              (.first (.reading i (some k) _) i event _ _ hcurrent hreadable hhalf)
        | false =>
            cases hwritable : event.writable with
            | true =>
                have hmore : kevents (event, .socket i) =
                    [(⟨event.fd, false, true⟩, .socket i)] := by
                  simp [kevents, writeHalf, hreadable, hwritable]
                have htop : (w.record (.delivered event (.socket i) (some (.socket i)))).startEvent
                    .epoll k event (.socket i) = .writePart i true (w.log.length + 1) := by
                  simp [World.startEvent, hreadable, hwritable, World.record]
                exact htakes hmore rfl htop rfl
                  (.second i event _ _ _ hcurrent hreadable hwritable)
            | false =>
                have hnone : kevents (event, .socket i) = [] := by
                  simp [kevents, writeHalf, hreadable, hwritable]
                have hlabels : Config.halfLabels ⟨w, .batch k n :: rest⟩ .tau = [] := by
                  simp [Config.halfLabels, hlt, hget, hnone]
                rw [hlabels]
                refine ⟨_, rfl, ?_, ?_⟩
                · rw [hworld]
                  exact (World.plain_record_delivered ..).symm
                · simp only [Config.after, World.startEvent, hreadable, hwritable]
                  rw [hnone] at remaining
                  exact .inside [] [_] [] rest (k + 1) n k' n' [] (by simp) hbase
                    (.neither i event _ _ hcurrent hnone) bound bound' remaining

/-- A piece of `reactor_on_event`, on both backends alike. -/
theorem Config.Ported.both {k n k' n' since : ℕ} {base : List Frame} {writable : Bool}
    {rest : List (Event × Target)} (hworld : w'.plain (fun _ => []) = w.plain fun _ => [])
    (hbatch : ∀ k n, frame ≠ .batch k n)
    (haddress : ∀ fd errno, l ≠ .accept (.addressFails fd errno))
    (hmark : frame.marks writable = true)
    (hframes : ∀ frames, eff = .push frames → ∃ above top, frames = above ++ top ∧
      (∀ frame ∈ above, frame.outside = true) ∧
        Halves w.events k top (top.map (Frame.mark writable since)) rest)
    (hbase : ∀ frame ∈ base, frame.outside = true) (bound : n ≤ w.events.length)
    (bound' : n' ≤ w'.events.length)
    (remaining :
      (w'.events.take n').drop k' = rest ++ ((w.events.take n).drop k).flatMap kevents)
    (hpiece : libraryStep .epoll w frame l = some (w₁, eff)) :
    Follows (Config.after (.batch k n :: base) (w₁, eff))
      ⟨w', frame.mark writable since :: .batch k' n' :: base⟩ [l] := by
  obtain ⟨w₁', hpiece', hworld₁, hevents, hevents'⟩ :=
    libraryStep_ported hworld hbatch haddress since hmark hpiece
  exact follows_single (step_of_libraryStep hpiece')
    (ported_after hworld₁ hevents hevents' hframes hbase bound bound' remaining)

/-- The writable half, after the readable one. -/
theorem Config.Ported.writes {i s k n k' n' since : ℕ} {event : Event} {base : List Frame}
    (hworld : w'.plain (fun _ => []) = w.plain fun _ => [])
    (hentry : w.table event.fd = some (some (.socket i))) (hwritable : event.writable = true)
    (hbase : ∀ frame ∈ base, frame.outside = true) (bound : n ≤ w.events.length)
    (bound' : n' ≤ w'.events.length)
    (remaining : (w'.events.take n').drop k' =
      writeHalf event i ++ ((w.events.take n).drop k).flatMap kevents)
    (hpiece : libraryStep .epoll w (.writePart i true s) l = some (w₁, eff)) :
    Follows (Config.after (.batch k n :: base) (w₁, eff))
      ⟨w', .writePart i false since :: .batch k' n' :: base⟩ [.tau, .tau, l] := by
  have hentry' : w'.table event.fd = some (some (.socket i)) := by
    rw [← hentry]
    exact congrFun (by simpa using congrArg World.table hworld) event.fd
  have hhalf : writeHalf event i = [(⟨event.fd, false, true⟩, .socket i)] := by
    simp [writeHalf, hwritable]
  rw [hhalf, List.cons_append] at remaining
  obtain ⟨hdispatch, hrest⟩ := dispatch_kqueue remaining hentry'
  let w₂ := w'.record (.delivered ⟨event.fd, false, true⟩ (.socket i) (some (.socket i)))
  have hworld₂ : w₂.plain (fun _ => []) = w.plain fun _ => [] := by
    rw [← hworld]
    exact World.plain_record_delivered ..
  have haddress : ∀ fd errno, l ≠ .accept (.addressFails fd errno) := by
    rintro fd errno rfl
    cases hpiece
  obtain ⟨c₁', hrun, hported⟩ := Config.Ported.both (k := k) (n := n) hworld₂ (by simp) haddress
    rfl (fun frames heff => Halves.written (heff ▸ hpiece) w₂.log.length) hbase bound bound'
    hrest hpiece
  refine ⟨c₁', ?_, hported⟩
  have hskip : step .kqueue ⟨w', .writePart i false since :: .batch k' n' :: base⟩ .tau =
      some ⟨w', .batch k' n' :: base⟩ := rfl
  have hloop : libraryStep .kqueue w' (.batch k' n') .tau =
      some (w₂, .push [.writePart i true w₂.log.length, .batch (k' + 1) n']) := hdispatch
  have hnext : step .kqueue ⟨w', .batch k' n' :: base⟩ .tau =
      some ⟨w₂, .writePart i true w₂.log.length :: .batch (k' + 1) n' :: base⟩ :=
    step_of_libraryStep hloop
  rw [run_cons, hskip, Option.bind_some, run_cons, hnext]
  exact hrun

/-- A piece of `reactor_on_event`. -/
theorem Config.Ported.event {rest : List Frame} {c' : Config V E F}
    (h : Config.Ported ⟨w, frame :: rest⟩ c') (hinside : frame.outside = false)
    (hbatch : ∀ k n, frame ≠ .batch k n)
    (hguard : Config.portable ⟨w, frame :: rest⟩ l = true)
    (hpiece : libraryStep .epoll w frame l = some (w₁, eff)) :
    Follows (Config.after rest (w₁, eff)) c' (Config.halfLabels ⟨w, frame :: rest⟩ l) := by
  obtain ⟨w', stack'⟩ := c'
  obtain ⟨hworld, hstack⟩ := h
  obtain ⟨k, n, base, k', n', top', later, rfl, rfl, hparts, hbase, bound, bound', remaining⟩ :=
    hstack.piece hinside hbatch
  -- the pieces that are the same on both backends
  have hboth (writable : Bool) {since : ℕ}
      (haddress : ∀ fd errno, l ≠ .accept (.addressFails fd errno))
      (hmark : frame.marks writable = true)
      (hparts : Halves w.events k [frame] [frame.mark writable since] later) :
      Follows (Config.after (.batch k n :: base) (w₁, eff))
        ⟨w', frame.mark writable since :: .batch k' n' :: base⟩ [l] :=
    Config.Ported.both hworld hbatch haddress hmark
      (fun frames heff => hparts.step hmark (heff ▸ hpiece)) hbase bound bound' remaining hpiece
  cases hparts with
  | accepting j since since' =>
      cases l with
      | accept answer =>
          refine hboth false ?_ rfl (.accepting j since since')
          rintro fd errno heq
          obtain rfl := Label.accept.inj heq
          cases hguard
      | _ => cases hpiece
  | errorTail i since since' =>
      cases l with
      | closing answer =>
          exact hboth false (by simp) rfl (.errorTail i since since')
      | _ => cases hpiece
  | second i event t since since' current readable writable =>
      have hlabels : Config.halfLabels ⟨w, .writePart i true since :: .batch k n :: base⟩ l =
          [l] := by
        cases l with
        | soError | flush => simp [Config.halfLabels, current, readable]
        | _ => cases hpiece
      rw [hlabels]
      refine hboth true ?_ rfl (.second i event t since since' current readable
        writable)
      rintro fd errno rfl
      cases hpiece
  | neither i event t since current none =>
      cases l with
      | tau =>
          obtain ⟨rfl, rfl⟩ := Prod.mk.inj (Option.some.inj hpiece)
          have hlabels : Config.halfLabels ⟨w, .writePart i false since :: .batch k n :: base⟩
              .tau = [] := by
            simp [Config.halfLabels, current, none]
          rw [hlabels]
          exact ⟨_, rfl, hworld, .inside [] [] [] base k n k' n' [] (by simp) hbase .between bound
            bound' remaining⟩
      | _ => cases hpiece
  | first frame i event t since current readable half =>
      have hfirst := Halves.first frame i event t since current readable half
      cases frame with
      | reading | readTail | closedTail =>
          cases l with
          | read | tau => exact hboth false (by simp) rfl hfirst
          | _ => cases hpiece
      | writePart m b s =>
          obtain ⟨rfl, rfl⟩ := Prod.mk.inj (Option.some.inj half)
          cases hwritable : event.writable with
          | false =>
              rw [hwritable] at hpiece hboth hfirst
              cases l with
              | tau =>
                  have hsome : (kevents (event, t)).isEmpty = false := by
                    cases t <;> simp [kevents, readable]
                  have hlabels : Config.halfLabels
                      ⟨w, .writePart m false s :: .batch k n :: base⟩ .tau = [.tau] := by
                    simp [Config.halfLabels, current, hsome]
                  rw [hlabels]
                  exact hboth false (by simp) rfl hfirst
              | _ => cases hpiece
          | true =>
              rw [hwritable] at hpiece hguard
              have hlabels : Config.halfLabels
                  ⟨w, .writePart m true s :: .batch k n :: base⟩ l = [.tau, .tau, l] := by
                cases l with
                | soError | flush => simp [Config.halfLabels, current, readable]
                | _ => cases hpiece
              have hentry : w.table event.fd = some (some (.socket m)) := by
                cases l with
                | soError | flush => simpa [Config.portable, current, readable] using hguard
                | _ => cases hpiece
              rw [hlabels]
              exact Config.Ported.writes hworld hentry hwritable hbase bound bound' remaining hpiece
      | _ => cases half

/-- A piece of a library function. -/
theorem Config.Ported.piece {rest : List Frame} {c' : Config V E F}
    (h : Config.Ported ⟨w, frame :: rest⟩ c')
    (hguard : Config.portable ⟨w, frame :: rest⟩ l = true)
    (hpiece : libraryStep .epoll w frame l = some (w₁, eff)) :
    Follows (Config.after rest (w₁, eff)) c' (Config.halfLabels ⟨w, frame :: rest⟩ l) := by
  cases hframe : frame.outside with
  | true => exact h.tail hframe hpiece
  | false =>
      cases frame with
      | batch k n => exact h.loop hguard hpiece
      | _ => exact h.event hframe (by simp) hguard hpiece

theorem projects_kqueue :
    Projects (step .epoll) (step .kqueue) Config.halfLabels
      (fun (c : Config V E F) l => c.portable l = true) (fun _ _ => True) Config.Ported := by
  intro c l c₁ c' hported hguard hstep
  suffices h : Follows c₁ c' (c.halfLabels l) by
    obtain ⟨c₁', hrun, hnext⟩ := h
    exact ⟨c₁', hrun, fun _ _ _ _ _ _ => trivial, hnext⟩
  cases stepped hstep with
  | handler w p handlers rest =>
      obtain ⟨w', stack'⟩ := c'
      obtain ⟨hworld, hstack⟩ := hported
      obtain ⟨rest', rfl, hrest⟩ := hstack.pop rfl
      have hpromises : w'.promises = w.promises := by
        simpa using congrArg World.promises hworld
      have hpushed : Halved w.events w'.events (.user handlers :: rest) (.user handlers :: rest') :=
        Halved.push hrest (fun frame hmem => List.mem_singleton.mp hmem ▸ rfl)
      refine follows_single rfl ⟨?_, hpushed⟩
      simp only [hpromises]
      exact congrArg (fun v : World V E F =>
        { v with promises := w.promises.resolveImpl p Blank.blank }) hworld
  | return_ w frame rest =>
      obtain ⟨w', stack'⟩ := c'
      obtain ⟨hworld, hstack⟩ := hported
      obtain ⟨rest', rfl, hrest⟩ := hstack.pop rfl
      obtain ⟨frame', rest', rfl⟩ := hrest.cons
      exact follows_single rfl ⟨hworld, hrest⟩
  | throw_ w handlers frame rest =>
      obtain ⟨w', stack'⟩ := c'
      obtain ⟨hworld, hstack⟩ := hported
      obtain ⟨rest', rfl, hrest⟩ := hstack.pop rfl
      obtain ⟨frame', rest', rfl⟩ := hrest.cons
      have hthrown : step .kqueue ⟨w', .user handlers :: frame' :: rest'⟩ .throw_ =
          some ⟨w', unwind (frame' :: rest')⟩ := by
        cases handlers <;> rfl
      exact follows_single hthrown ⟨hworld, hrest.unwind⟩
  | user w handlers rest l w' eff call => exact hported.call hguard call
  | library w frame rest l w' eff piece => exact hported.piece hguard piece

/-- What Linux does, FreeBSD does. As long as handlers do not call the loop, events go to the
objects for which they were reported, and a socket whose readable half is handled keeps its entry
until its writable half is, every run on epoll is one on kqueue, where such an event is two. After
it there are the same sockets, server sockets, promises, descriptors and entries, and in the same
order the same system calls were made and the same events were triggered. -/
theorem kqueue_follows_epoll {ls : List Label} {c : Config V E F}
    (hguard : EachStep (step .epoll) (fun (c : Config V E F) l => c.portable l = true) {} ls)
    (h : run (step .epoll) {} ls = some c) :
    ∃ c', run (step .kqueue) {} (projected (step .epoll) Config.halfLabels ({} : Config V E F) ls) =
      some c' ∧ c.Ported c' := by
  have hstart : Config.Ported ({} : Config V E F) {} :=
    ⟨rfl, .outside [.user []] fun frame hmem => List.mem_singleton.mp hmem ▸ rfl⟩
  obtain ⟨c', hrun, -, hported⟩ := projects_kqueue.run hstart hguard h
  exact ⟨c', hrun, hported⟩

end Steps

/-- The first event of a socket says that it is connected and that there is data. -/
def bothHalvesRun : List Label :=
  [.newSocket 3 none, .connect 0 (.err .inProgress), .poll [(⟨3, true, true⟩, .socket 0)], .tau,
    .read [.data [7], .err .again], .return_, .tau, .soError (.ret 0), .handler, .return_, .tau]

theorem kqueue_follows_epoll_sample : ∃ c c' : Config ℕ ℕ SampleHandler,
    run (step .epoll) {} bothHalvesRun = some c ∧
      run (step .kqueue) {} [.newSocket 3 none, .connect 0 (.err .inProgress),
        .poll [(⟨3, true, false⟩, .socket 0), (⟨3, false, true⟩, .socket 0)], .tau,
        .read [.data [7], .err .again], .return_, .tau, .tau, .tau, .soError (.ret 0), .handler,
        .return_, .tau] = some c' ∧ c.Ported c' := by
  obtain ⟨c, hrun, hguard⟩ : ∃ c : Config ℕ ℕ SampleHandler,
      run (step .epoll) {} bothHalvesRun = some c ∧ EachStep (step .epoll)
        (fun (c : Config ℕ ℕ SampleHandler) l => c.portable l = true) {} bothHalvesRun :=
    ⟨_, rfl, by decide +kernel⟩
  obtain ⟨c', hrun', hported⟩ := kqueue_follows_epoll hguard hrun
  exact ⟨c, c', hrun, hrun', hported⟩

end Libasync.Reactor
