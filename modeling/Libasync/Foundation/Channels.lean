import Libasync.Foundation.Run
import Mathlib.Logic.Function.Basic

/-! # Connections between ends

Each end of a connection has an ordered, reliable stream of items from the other end. A connection
can break, and what was on its way is lost then. The record holds what an end has had accepted and
what it has taken out. -/

namespace Libasync.Foundation

open Automaton

structure Channels (ε β : Type*) where
  peer : ε → Option ε := fun _ => none
  inbound : ε → List β := fun _ => []
  shut : ε → Bool := fun _ => false
  broken : ε → Bool := fun _ => false
  ended : ε → Bool := fun _ => false
  accepted : ε → List β := fun _ => []
  taken : ε → List β := fun _ => []

inductive ChannelOp (ε β : Type*) where
  /-- the two ends are connected -/
  | join (e e' : ε)
  | send (e : ε) (items : List β)
  /-- items are taken out; the last flag tells that the end of the stream was reported -/
  | receive (e : ε) (items : List β) (atEnd : Bool)
  /-- nothing more is sent from this end -/
  | shut (e : ε)
  /-- the stream to this end is lost from now on -/
  | break_ (e : ε)
  deriving DecidableEq, Repr

variable {ε β : Type*} [DecidableEq ε]

/-- What the operation sends from this end. -/
def ChannelOp.sent (e : ε) : ChannelOp ε β → List β
  | .send a items => if a = e then items else []
  | _ => []

/-- What the operation takes out at this end. -/
def ChannelOp.received (e : ε) : ChannelOp ε β → List β
  | .receive a items _ => if a = e then items else []
  | _ => []

namespace Channels

variable [DecidableEq β]

/-- The end of the stream can be reported: the connection is broken, or all has been taken out and
nothing more will come. -/
def atEnd (c : Channels ε β) (e : ε) : Bool :=
  c.broken e || (c.inbound e).isEmpty && (c.peer e).any c.shut

def take (c : Channels ε β) (e : ε) (items : List β) : Channels ε β :=
  { c with
    inbound := Function.update c.inbound e ((c.inbound e).drop items.length)
    taken := Function.update c.taken e (c.taken e ++ items) }

def step (c : Channels ε β) : ChannelOp ε β → Option (Channels ε β)
  | .join e e' =>
      if e ≠ e' ∧ c.peer e = none ∧ c.peer e' = none then
        some { c with peer := Function.update (Function.update c.peer e (some e')) e' (some e) }
      else none
  | .send e items =>
      match c.peer e with
      | some e' =>
          if c.shut e then if items = [] then some c else none
          else
            some { c with
              inbound := Function.update c.inbound e' (c.inbound e' ++ items)
              accepted := Function.update c.accepted e (c.accepted e ++ items) }
      | none => if items = [] then some c else none
  | .receive e items false => if items <+: c.inbound e then some (c.take e items) else none
  | .receive e items true =>
      if items <+: c.inbound e ∧ (c.take e items).atEnd e = true then
        some { c.take e items with ended := Function.update c.ended e true }
      else none
  | .shut e => some { c with shut := Function.update c.shut e true }
  | .break_ e => some { c with broken := Function.update c.broken e true }

/-- Nothing is lost, doubled or reordered on the way. -/
structure Sound (c : Channels ε β) : Prop where
  symm : ∀ e e', c.peer e = some e' → c.peer e' = some e
  unused : ∀ e, c.peer e = none → c.accepted e = [] ∧ c.inbound e = [] ∧ c.taken e = []
  carried : ∀ e e', c.peer e = some e' → c.taken e' ++ c.inbound e' = c.accepted e
  ended : ∀ e, c.ended e = true → c.atEnd e = true

omit [DecidableEq ε] [DecidableEq β] in
theorem Sound.initial : ({} : Channels ε β).Sound :=
  ⟨by simp, by simp, by simp, by simp⟩

variable {c c' : Channels ε β}

theorem Sound.join (h : c.Sound) {e e' : ε} (hstep : c.step (.join e e') = some c') :
    c'.Sound := by
  simp only [step, Option.ite_none_right_eq_some, Option.some.injEq] at hstep
  obtain ⟨⟨hne, he, he'⟩, rfl⟩ := hstep
  have hpeer {a : ε} (ha : a ≠ e) (ha' : a ≠ e') :
      Function.update (Function.update c.peer e (some e')) e' (some e) a = c.peer a := by
    rw [Function.update_of_ne ha', Function.update_of_ne ha]
  -- an end that is joined was not the peer of another one
  have hold {a b : ε} (hab : c.peer a = some b) : b ≠ e ∧ b ≠ e' := by
    have hba := h.symm a b hab
    constructor <;> rintro rfl <;> simp_all
  refine ⟨?_, ?_, ?_, ?_⟩
  · intro a b hab
    by_cases ha' : a = e'
    · subst ha'
      obtain rfl : e = b := by simpa using hab
      simp [Function.update_of_ne hne]
    · by_cases ha : a = e
      · subst ha
        obtain rfl : e' = b := by simpa [Function.update_of_ne ha'] using hab
        simp
      · simp only [hpeer ha ha'] at hab ⊢
        obtain ⟨hb, hb'⟩ := hold hab
        rw [hpeer hb hb']
        exact h.symm a b hab
  · intro a ha
    by_cases ha₁ : a = e'
    · simp [ha₁] at ha
    · by_cases ha₂ : a = e
      · simp [ha₂, Function.update_of_ne hne] at ha
      · simp only [hpeer ha₂ ha₁] at ha
        exact h.unused a ha
  · intro a b hab
    by_cases ha' : a = e'
    · subst ha'
      obtain rfl : e = b := by simpa using hab
      simp [h.unused e he, h.unused a he']
    · by_cases ha : a = e
      · subst ha
        obtain rfl : e' = b := by simpa [Function.update_of_ne ha'] using hab
        simp [h.unused a he, h.unused e' he']
      · simp only [hpeer ha ha'] at hab
        exact h.carried a b hab
  · intro a ha
    have hend := h.ended a ha
    simp only [atEnd, Bool.or_eq_true, Bool.and_eq_true] at hend ⊢
    refine hend.imp_right fun ⟨hempty, hshut⟩ => ⟨hempty, ?_⟩
    cases hab : c.peer a with
    | none => simp [hab] at hshut
    | some b =>
        have ha₁ : a ≠ e := by rintro rfl; simp [he] at hab
        have ha₂ : a ≠ e' := by rintro rfl; simp [he'] at hab
        rw [hpeer ha₁ ha₂]
        exact hshut

theorem Sound.send (h : c.Sound) {e : ε} {items : List β}
    (hstep : c.step (.send e items) = some c') : c'.Sound := by
  cases hpeer : c.peer e with
  | none =>
      simp only [step, hpeer, Option.ite_none_right_eq_some, Option.some.injEq] at hstep
      exact hstep.2 ▸ h
  | some e' =>
      simp only [step, hpeer] at hstep
      split at hstep
      · simp only [Option.ite_none_right_eq_some, Option.some.injEq] at hstep
        exact hstep.2 ▸ h
      · rename_i hopen
        obtain rfl := Option.some.inj hstep
        refine ⟨h.symm, ?_, ?_, ?_⟩
        · intro a ha
          have hae : a ≠ e := by rintro rfl; simp [hpeer] at ha
          have hae' : a ≠ e' := by rintro rfl; simp [h.symm e a hpeer] at ha
          simp only [Function.update_of_ne hae, Function.update_of_ne hae']
          exact h.unused a ha
        · intro a b hab
          by_cases ha : a = e
          · subst ha
            obtain rfl := Option.some.inj (hpeer.symm.trans hab)
            simp [← List.append_assoc, h.carried a e' hpeer]
          · have hb : b ≠ e' := by
              rintro rfl
              have hboth := (h.symm a b hab).symm.trans (h.symm e b hpeer)
              exact ha (Option.some.inj hboth)
            simp only [Function.update_of_ne ha, Function.update_of_ne hb]
            exact h.carried a b hab
        · intro a ha
          have hend := h.ended a ha
          simp only [atEnd, Bool.or_eq_true, Bool.and_eq_true] at hend ⊢
          refine hend.imp_right fun ⟨hempty, hshut⟩ => ⟨?_, hshut⟩
          -- the other end of a stream that has ended sends nothing
          have hae : a ≠ e' := by
            rintro rfl
            simp [h.symm e a hpeer, hopen] at hshut
          rw [Function.update_of_ne hae]
          exact hempty

omit [DecidableEq β] in
theorem Sound.take (h : c.Sound) {e : ε} {items : List β} (hitems : items <+: c.inbound e) :
    (c.take e items).Sound := by
  obtain ⟨rest, hrest⟩ := hitems
  have hdrop : (c.inbound e).drop items.length = rest := by
    rw [← hrest, List.drop_left]
  refine ⟨h.symm, ?_, ?_, ?_⟩
  · intro a ha
    obtain ⟨haccepted, hinbound, htaken⟩ := h.unused a ha
    by_cases hae : a = e
    · subst hae
      rw [hinbound] at hrest
      obtain ⟨rfl, rfl⟩ := List.append_eq_nil_iff.mp hrest
      simp [Channels.take, haccepted, hinbound, htaken]
    · simp only [Channels.take, Function.update_of_ne hae]
      exact ⟨haccepted, hinbound, htaken⟩
  · intro a b hab
    by_cases hb : b = e
    · subst hb
      simp only [Channels.take, Function.update_self, hdrop, List.append_assoc, hrest]
      exact h.carried a b hab
    · simp only [Channels.take, Function.update_of_ne hb]
      exact h.carried a b hab
  · intro a ha
    have hend := h.ended a ha
    simp only [atEnd, Channels.take, Bool.or_eq_true, Bool.and_eq_true] at hend ⊢
    refine hend.imp_right fun ⟨hempty, hshut⟩ => ⟨?_, hshut⟩
    by_cases hae : a = e
    · subst hae
      simp [List.isEmpty_iff.mp hempty]
    · rw [Function.update_of_ne hae]
      exact hempty

theorem Sound.step (h : c.Sound) {op : ChannelOp ε β} (hstep : c.step op = some c') :
    c'.Sound := by
  cases op with
  | join e e' => exact h.join hstep
  | send e items => exact h.send hstep
  | receive e items atEnd =>
      cases atEnd with
      | false =>
          simp only [Channels.step, Option.ite_none_right_eq_some, Option.some.injEq] at hstep
          obtain ⟨hitems, rfl⟩ := hstep
          exact h.take hitems
      | true =>
          simp only [Channels.step, Option.ite_none_right_eq_some, Option.some.injEq] at hstep
          obtain ⟨⟨hitems, hend⟩, rfl⟩ := hstep
          have htake := h.take hitems
          refine ⟨htake.symm, htake.unused, htake.carried, ?_⟩
          intro a ha
          by_cases hae : a = e
          · subst hae
            exact hend
          · exact htake.ended a ((Function.update_of_ne hae true c.ended).symm.trans ha)
  | shut e =>
      obtain rfl := Option.some.inj hstep
      refine ⟨h.symm, h.unused, h.carried, ?_⟩
      intro a ha
      have hend := h.ended a ha
      simp only [atEnd, Bool.or_eq_true, Bool.and_eq_true] at hend ⊢
      refine hend.imp_right fun ⟨hempty, hshut⟩ => ⟨hempty, ?_⟩
      cases hpeer : c.peer a with
      | none => simp [hpeer] at hshut
      | some b =>
          by_cases hb : b = e
          · simp [hb]
          · simpa [hpeer, Function.update_of_ne hb] using hshut
  | break_ e =>
      obtain rfl := Option.some.inj hstep
      refine ⟨h.symm, h.unused, h.carried, ?_⟩
      intro a ha
      have hend := h.ended a ha
      simp only [atEnd, Bool.or_eq_true, Bool.and_eq_true] at hend ⊢
      refine hend.imp_left fun hbroken => ?_
      by_cases hae : a = e
      · simp [hae]
      · rw [Function.update_of_ne hae]
        exact hbroken

/-- An operation sends what it is given, and nothing from other ends. -/
theorem accepted_step {op : ChannelOp ε β} (hstep : c.step op = some c') (e : ε) :
    c'.accepted e = c.accepted e ++ op.sent e := by
  cases op with
  | send a items =>
      simp only [step] at hstep
      by_cases ha : a = e
      · subst ha
        split at hstep
        · split at hstep
          · simp only [Option.ite_none_right_eq_some, Option.some.injEq] at hstep
            simp [ChannelOp.sent, hstep.1, hstep.2]
          · obtain rfl := Option.some.inj hstep
            simp [ChannelOp.sent]
        · simp only [Option.ite_none_right_eq_some, Option.some.injEq] at hstep
          simp [ChannelOp.sent, hstep.1, hstep.2]
      · simp only [ChannelOp.sent, ha, if_false, List.append_nil]
        split at hstep
        · split at hstep
          · simp only [Option.ite_none_right_eq_some, Option.some.injEq] at hstep
            rw [hstep.2]
          · obtain rfl := Option.some.inj hstep
            exact Function.update_of_ne (Ne.symm ha) _ _
        · simp only [Option.ite_none_right_eq_some, Option.some.injEq] at hstep
          rw [hstep.2]
  | receive a items atEnd =>
      cases atEnd <;>
        simp only [step, Option.ite_none_right_eq_some, Option.some.injEq] at hstep <;>
        simp [← hstep.2, take, ChannelOp.sent]
  | join a a' =>
      simp only [step, Option.ite_none_right_eq_some, Option.some.injEq] at hstep
      simp [← hstep.2, ChannelOp.sent]
  | shut a | break_ a =>
      obtain rfl := Option.some.inj hstep
      simp [ChannelOp.sent]

theorem taken_step {op : ChannelOp ε β} (hstep : c.step op = some c') (e : ε) :
    c'.taken e = c.taken e ++ op.received e := by
  cases op with
  | receive a items atEnd =>
      have htaken : c'.taken = (c.take a items).taken := by
        cases atEnd <;>
          simp only [step, Option.ite_none_right_eq_some, Option.some.injEq] at hstep <;>
          simp [← hstep.2]
      rw [htaken]
      by_cases ha : a = e
      · simp [ChannelOp.received, take, ha]
      · simp [ChannelOp.received, take, ha, Function.update_of_ne (Ne.symm ha)]
  | send a items =>
      simp only [step] at hstep
      repeat' split at hstep
      all_goals simp only [Option.some.injEq, reduceCtorEq] at hstep
      all_goals simp [← hstep, ChannelOp.received]
  | join a a' =>
      simp only [step, Option.ite_none_right_eq_some, Option.some.injEq] at hstep
      simp [← hstep.2, ChannelOp.received]
  | shut a | break_ a =>
      obtain rfl := Option.some.inj hstep
      simp [ChannelOp.received]

/-- An end of the stream that was reported stays reported. -/
theorem ended_step {op : ChannelOp ε β} (hstep : c.step op = some c') {e : ε}
    (h : c.ended e = true ∨ ∃ items, op = .receive e items true) : c'.ended e = true := by
  cases op with
  | receive a items atEnd =>
      cases atEnd with
      | false =>
          simp only [step, Option.ite_none_right_eq_some, Option.some.injEq] at hstep
          simpa [← hstep.2, take] using h
      | true =>
          simp only [step, Option.ite_none_right_eq_some, Option.some.injEq] at hstep
          rw [← hstep.2]
          by_cases ha : a = e
          · simp [ha]
          · simpa [take, ha, Function.update_of_ne (Ne.symm ha)] using h
  | send a items =>
      simp only [step] at hstep
      repeat' split at hstep
      all_goals simp only [Option.some.injEq, reduceCtorEq] at hstep
      all_goals simpa [← hstep] using h
  | join a a' =>
      simp only [step, Option.ite_none_right_eq_some, Option.some.injEq] at hstep
      simpa [← hstep.2] using h
  | shut a | break_ a =>
      obtain rfl := Option.some.inj hstep
      simpa using h

end Channels

end Libasync.Foundation
