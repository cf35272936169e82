import Libasync.Reactor.Descriptors
import Libasync.Reactor.Frames
import Mathlib.Data.List.Chain

/-! # Reached configurations

The invariants of the world along a run, and where the frames of a stack come from. -/

namespace Libasync.Reactor

open Promise Socket Automaton

theorem unwind_suffix (stack : List Frame) : unwind stack <:+ stack := by
  induction stack with
  | nil => exact List.suffix_rfl
  | cons frame rest ih =>
      cases frame with
      | user handlers => exact List.suffix_rfl
      | closeTail | connectTail | reading | readTail | closedTail | writePart | errorTail
      | accepting | batch => exact ih.trans (List.suffix_cons _ rest)

variable {V E F : Type*} [Blank V] {backend : Backend}

/-- The frames of the stack after a step are frames of the stack before it, user code or frames
that the step has pushed. -/
theorem Stepped.mem_stack {c c' : Config V E F} {l : Label} (h : Stepped backend c l c')
    {frame : Frame} (hmem : frame ∈ c'.stack) :
    frame ∈ c.stack ∨ (∃ handlers, frame = .user handlers) ∨
      ∃ top frames, c.stack.head? = some top ∧ Pushed c.world c'.world l top frames ∧
        frame ∈ frames := by
  have hafter {w' : World V E F} {eff : Effect} {rest : List Frame} (hrest : rest <:+ c.stack)
      (hpushed : ∀ frames, eff = .push frames →
        ∃ top, c.stack.head? = some top ∧ Pushed c.world w' l top frames)
      (hmem : frame ∈ (Config.after rest (w', eff)).stack) : frame ∈ c.stack ∨
        ∃ top frames, c.stack.head? = some top ∧ Pushed c.world w' l top frames ∧
          frame ∈ frames := by
    cases eff with
    | push frames =>
        obtain ⟨top, htop, hframes⟩ := hpushed frames rfl
        rcases List.mem_append.mp hmem with hmem | hmem
        · exact .inr ⟨top, frames, htop, hframes, hmem⟩
        · exact .inl (hrest.subset hmem)
    | throw failure => exact .inl (hrest.subset ((unwind_suffix rest).subset hmem))
    | crash => cases hmem
  cases h with
  | handler w p handlers rest =>
      rcases List.mem_cons.mp hmem with hmem | hmem
      · exact .inr (.inl ⟨handlers, hmem⟩)
      · exact .inl (List.mem_cons_of_mem _ hmem)
  | return_ w top rest => exact .inl (List.mem_cons_of_mem _ hmem)
  | throw_ w handlers top rest =>
      exact .inl (List.mem_cons_of_mem _ ((unwind_suffix _).subset hmem))
  | user w handlers rest l w' eff call =>
      rw [Config.after_world]
      refine (hafter List.suffix_rfl ?_ hmem).imp_right .inr
      rintro frames rfl
      exact ⟨.user handlers, rfl, userStep_pushed call⟩
  | library w top rest l w' eff piece =>
      rw [Config.after_world]
      refine (hafter (List.suffix_cons top rest) ?_ hmem).imp_right .inr
      rintro frames rfl
      exact ⟨top, rfl, libraryStep_pushed piece⟩

omit [Blank V] in
/-- The end of file that a pushed frame will take has been seen. -/
theorem Pushed.seen {w w' : World V E F} {l : Label} {top frame : Frame}
    {frames : List Frame} (h : Pushed w w' l top frames) (hmem : frame ∈ frames) {i : ℕ}
    (hi : frame.takesEof? = some i) : .endOfFile i ∈ w'.log := by
  cases h with
  | noData top k closed slot since seen =>
      obtain rfl := List.mem_singleton.mp hmem
      cases closed with
      | true =>
          obtain rfl : k = i := by simpa [Frame.takesEof?] using hi
          exact seen rfl
      | false => simp [Frame.takesEof?] at hi
  | data top k closed slot since seen =>
      rcases List.mem_pair.mp hmem with rfl | rfl
      · simp [Frame.takesEof?] at hi
      · cases closed with
        | true =>
            obtain rfl : k = i := by simpa [Frame.takesEof?] using hi
            exact seen rfl
        | false => simp [Frame.takesEof?] at hi
  | delivered w₁ backend k n event t more =>
      rcases List.mem_pair.mp hmem with rfl | rfl
      · cases t with
        | socket j =>
            simp only [World.startEvent] at hi
            split at hi <;> simp [Frame.takesEof?] at hi
        | server j => simp [World.startEvent, Frame.takesEof?] at hi
      · simp [Frame.takesEof?] at hi
  | nothing => cases hmem
  | handlers | polled | rest | skipped =>
      obtain rfl := List.mem_singleton.mp hmem
      simp [Frame.takesEof?] at hi
  | connecting | closing | eofAgain | eofFirst | error | accepted =>
      rcases List.mem_pair.mp hmem with rfl | rfl <;> simp [Frame.takesEof?] at hi

theorem Config.EofSeen.step {c c' : Config V E F} {l : Label} (h : c.EofSeen)
    (hstep : Stepped backend c l c') : c'.EofSeen := by
  intro frame hmem i hi
  rcases hstep.mem_stack hmem with hold | ⟨handlers, rfl⟩ | ⟨top, frames, -, hpushed, hnew⟩
  · exact (hstep.changes h).log_grows.subset (h frame hold i hi)
  · simp [Frame.takesEof?] at hi
  · exact hpushed.seen hnew hi

/-! ### The order of frames -/

def Frame.isUser : Frame → Bool
  | .user _ => true
  | _ => false

/-- User code, or the loop of `reactor_task`. -/
def Frame.isBase : Frame → Bool
  | .user _ | .batch .. => true
  | _ => false

/-- A piece of a library function is called by user code or by the loop of `reactor_task`. -/
def Frame.Above (above below : Frame) : Prop := above.isUser = true ∨ below.isBase = true

def Config.Layered (c : Config V E F) : Prop := c.stack.IsChain Frame.Above

omit [Blank V] in
/-- Pushed frames stand in order on a frame that can be below a piece. -/
theorem Pushed.layered {w w' : World V E F} {l : Label} {top : Frame} {frames rest : List Frame}
    (h : Pushed w w' l top frames) (hrest : rest.IsChain Frame.Above)
    (hbase : ∀ below ∈ rest.head?, below.isBase = true) :
    (frames ++ rest).IsChain Frame.Above := by
  have hone (frame : Frame) : ([frame] ++ rest).IsChain Frame.Above :=
    List.isChain_cons.mpr ⟨fun below hbelow => .inr (hbase below hbelow), hrest⟩
  have htwo {above below : Frame} (habove : above.Above below) :
      ([above, below] ++ rest).IsChain Frame.Above :=
    List.isChain_cons_cons.mpr ⟨habove, hone below⟩
  cases h with
  | nothing => exact hrest
  | handlers | polled | noData | rest | skipped => exact hone _
  | connecting | closing | data | eofAgain | eofFirst | error | accepted => exact htwo (.inl rfl)
  | delivered => exact htwo (.inr rfl)

theorem Config.Layered.step {c c' : Config V E F} {l : Label} (h : c.Layered)
    (hstep : Stepped backend c l c') : c'.Layered := by
  have hafter {w w' : World V E F} {eff : Effect} (top : Frame) {rest : List Frame}
      (hrest : rest.IsChain Frame.Above) (hbase : ∀ below ∈ rest.head?, below.isBase = true)
      (hpushed : ∀ frames, eff = .push frames → Pushed w w' l top frames) :
      (Config.after rest (w', eff)).Layered := by
    cases eff with
    | push frames => exact (hpushed frames rfl).layered hrest hbase
    | throw failure => exact hrest.suffix (unwind_suffix rest)
    | crash => exact .nil
  cases hstep with
  | handler w p handlers rest =>
      have hrest := (List.isChain_cons.mp h).2
      exact List.isChain_cons.mpr ⟨fun _ _ => .inl rfl, hrest⟩
  | return_ w top rest => exact h.tail
  | throw_ w handlers top rest => exact h.tail.suffix (unwind_suffix _)
  | user w handlers rest l w' eff call =>
      have hbase : ∀ below ∈ (.user handlers :: rest : List Frame).head?, below.isBase = true := by
        simp [Frame.isBase]
      refine hafter (w := w) (.user handlers) h hbase (fun frames heff => ?_)
      subst heff
      exact userStep_pushed call
  | library w top rest l w' eff piece =>
      obtain ⟨habove, hrest⟩ := List.isChain_cons.mp h
      refine hafter (w := w) top hrest ?_ (fun frames heff => ?_)
      · intro below hbelow
        refine (habove below hbelow).resolve_left ?_
        cases top with
        | user handlers => simp [libraryStep_user] at piece
        | _ => simp [Frame.isUser]
      · subst heff
        exact libraryStep_pushed piece

omit [Blank V] in
/-- An exception that leaves a piece passes only the loops of `reactor_task` on its way to user
code. -/
theorem unwind_split {rest : List Frame} (hrest : rest.IsChain Frame.Above)
    (hbase : ∀ below ∈ rest.head?, below.isBase = true) :
    ∃ loops, rest = loops ++ unwind rest ∧ ∀ frame ∈ loops, ∃ k n, frame = .batch k n := by
  induction rest with
  | nil => exact ⟨[], rfl, by simp⟩
  | cons frame rest ih =>
      obtain ⟨habove, htail⟩ := List.isChain_cons.mp hrest
      have hframe := hbase frame (by simp)
      cases frame with
      | user handlers => exact ⟨[], rfl, by simp⟩
      | batch k n =>
          obtain ⟨loops, hsplit, hloops⟩ := ih htail fun below hbelow =>
            (habove below hbelow).resolve_left (by simp [Frame.isUser])
          refine ⟨.batch k n :: loops, ?_, ?_⟩
          · simp only [unwind, List.cons_append]
            rw [← hsplit]
          · intro frame hmem
            rcases List.mem_cons.mp hmem with rfl | hmem
            · exact ⟨k, n, rfl⟩
            · exact hloops frame hmem
      | _ => simp [Frame.isBase] at hframe

/-- A frame of a library function other than the loop of `reactor_task` leaves the stack when it
is run, or when the user code on top of it throws. -/
theorem Stepped.keeps {c c' : Config V E F} {l : Label} (h : Stepped backend c l c')
    (hlayered : c.Layered) (halive : c'.stack ≠ []) {frame : Frame} (hmem : frame ∈ c.stack)
    (hbase : frame.isBase = false) :
    frame ∈ c'.stack ∨
      (∃ rest w' eff, c.stack = frame :: rest ∧
        libraryStep backend c.world frame l = some (w', eff) ∧ c' = Config.after rest (w', eff)) ∨
      ∃ handlers rest, l = .throw_ ∧ c.stack = .user handlers :: frame :: rest := by
  have hsplit {rest : List Frame} (hrest : rest.IsChain Frame.Above)
      (hbelow : ∀ below ∈ rest.head?, below.isBase = true) (hmem : frame ∈ rest) :
      frame ∈ unwind rest := by
    obtain ⟨loops, heq, hloops⟩ := unwind_split hrest hbelow
    rw [heq] at hmem
    rcases List.mem_append.mp hmem with hmem | hmem
    · obtain ⟨k, n, rfl⟩ := hloops frame hmem
      simp [Frame.isBase] at hbase
    · exact hmem
  have hafter {rest : List Frame} {w' : World V E F} {eff : Effect}
      (hrest : rest.IsChain Frame.Above) (hbelow : ∀ below ∈ rest.head?, below.isBase = true)
      (halive : (Config.after rest (w', eff)).stack ≠ []) (hmem : frame ∈ rest) :
      frame ∈ (Config.after rest (w', eff)).stack := by
    cases eff with
    | push frames => exact List.mem_append_right frames hmem
    | throw failure => exact hsplit hrest hbelow hmem
    | crash => exact absurd rfl halive
  have hbelow {top : Frame} {rest : List Frame} (hchain : (top :: rest).IsChain Frame.Above)
      (htop : top.isUser = false) : ∀ below ∈ rest.head?, below.isBase = true := fun below hb =>
    ((List.isChain_cons.mp hchain).1 below hb).resolve_left (by simp [htop])
  cases h with
  | handler w p handlers rest =>
      rcases List.mem_cons.mp hmem with rfl | hmem
      · simp [Frame.isBase] at hbase
      · exact .inl (List.mem_cons_of_mem _ hmem)
  | return_ w top rest =>
      rcases List.mem_cons.mp hmem with rfl | hmem
      · simp [Frame.isBase] at hbase
      · exact .inl hmem
  | throw_ w handlers top rest =>
      rcases List.mem_cons.mp hmem with rfl | hmem
      · simp [Frame.isBase] at hbase
      · rcases List.mem_cons.mp hmem with rfl | hrest
        · exact .inr (.inr ⟨handlers, rest, rfl, rfl⟩)
        · have hchain : (top :: rest).IsChain Frame.Above := hlayered.tail
          have hunwound (htop : top.isUser = false) : frame ∈ unwind rest :=
            hsplit hchain.tail (hbelow hchain htop) hrest
          cases top with
          | user handlers' => exact .inl (List.mem_cons_of_mem _ hrest)
          | _ => exact .inl (hunwound rfl)
  | user w handlers rest l w' eff call =>
      exact .inl (hafter hlayered (by simp [Frame.isBase]) halive hmem)
  | library w top rest l w' eff piece =>
      rcases List.mem_cons.mp hmem with rfl | hmem
      · exact .inr (.inl ⟨rest, w', eff, rfl, piece, rfl⟩)
      · have htop : top.isUser = false := by
          cases top with
          | user handlers => simp [libraryStep_user] at piece
          | _ => rfl
        exact .inl (hafter (List.isChain_cons.mp hlayered).2 (hbelow hlayered htop) halive hmem)

/-- What holds of every configuration that is reached. -/
structure Config.Sound (c : Config V E F) : Prop where
  world : c.world.Sound
  seen : c.EofSeen
  layered : c.Layered

theorem Config.Sound.step {c c' : Config V E F} {l : Label} (h : c.Sound)
    (hstep : Reactor.step backend c l = some c') : c'.Sound :=
  have hstepped := stepped hstep
  ⟨(hstepped.changes h.seen).induct (fun _ _ hw hc => hw.change hc) h.world,
    h.seen.step hstepped, h.layered.step hstepped⟩

omit [Blank V] in
theorem Config.Sound.initial : Config.Sound ({} : Config V E F) :=
  ⟨.initial, by simp [Config.EofSeen, Frame.takesEof?], .singleton _⟩

theorem Config.Sound.run {ls : List Label} {c : Config V E F}
    (h : Automaton.run (Reactor.step backend) {} ls = some c) : c.Sound :=
  run_invariant_of_step (fun _ _ _ h hstep => h.step hstep) .initial h

end Libasync.Reactor
