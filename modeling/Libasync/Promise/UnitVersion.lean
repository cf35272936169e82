import Libasync.Foundation.Simulation
import Libasync.Promise.Queue

/-! # The program at the unit type

`Promise<void>` makes a settled promise with `resolve` or `reject`, which put it into the callback
queue at once. The general promise is put there when it gets its first handler. Both versions of a
program run on the same heap, and the queue of the general one is the other without the entries
that are early. -/

namespace Libasync.Promise

open Automaton

variable {V E F : Type*}

/-! ### The two versions -/

/-- A call on `Promise<void>` as the call on the general promise. -/
def Op.atUnit [Blank V] : Op V E F → Op V E F
  | .resolvedVoid => .resolved Blank.blank
  | .rejectedVoid e => .rejected e
  | o => o

/-- A handler that has returned nothing returns the unit value. -/
def Outcome.atUnit [Blank V] : Outcome V E → Outcome V E
  | .returned .void => .returned (.value Blank.blank)
  | result => result

def Label.atUnit [Blank V] : Label V E F → Label V E F
  | .op o => .op o.atUnit
  | .finish result => .finish result.atUnit
  | l => l

/-- No handler makes a `Promise<void>`. -/
abbrev FnTrait.atUnit [FnTrait F E] : FnTrait F E where
  returnsVoid _ := false
  errorType := FnTrait.errorType

/-- A step of the program in which `Promise<void>` is replaced. -/
def unitStep [Blank V] [FnTrait F E] (c : Config V E F) (l : Label V E F) :
    Option (Config V E F) :=
  @step V E F _ FnTrait.atUnit c l.atUnit

/-- A step that the library makes by itself. -/
def Label.isTau : Label V E F → Bool
  | .tau => true
  | _ => false

/-! ### What a program sees -/

/-- The promise of a handler call, the derived promise, the handler and its argument. -/
def Event.call? : Event V E F → Option (Ref × Ref × F × Arg V E)
  | .called _ p outer f arg => some (p, outer, f, arg)
  | _ => none

def State.calls (s : State V E F) : List (Ref × Ref × F × Arg V E) := s.log.filterMap Event.call?

/-- Where control is, but for the position in the queue. -/
def Control.unplaced : Control F E → Control F E
  | .turn _ | .callBack .. => .turn 0
  | .handler _ p j outer f => .handler 0 p j outer f
  | control => control

structure View (V E F : Type*) where
  calls : List (Ref × Ref × F × Arg V E)
  control : Control F E

def Config.view (c : Config V E F) : View V E F := ⟨c.state.calls, c.control.unplaced⟩

/-! ### Early entries -/

/-- A configuration, and for each entry of its queue whether it is early: the promise was put
there when it was made, and has not got a handler while it waited. -/
structure Watched (V E F : Type*) where
  config : Config V E F := {}
  entries : List (Ref × Bool) := []

/-- The promise, settled on this side, waits in the queue without a handler. -/
def State.waitsBare (s : State V E F) (side : Side) (p : Ref) : Bool :=
  (s.get? p).any fun data =>
    decide (data.status.side? = some side) && data.pendingCallback && (data.wrappers side).isEmpty

/-- The promise that gets its first handler by this call while it waits in the queue. -/
def State.firstServed (s : State V E F) : Label V E F → Option Ref
  | .op (.then_ p _) => if s.waitsBare .fulfilled p then some p else none
  | .op (.catch_ p _) => if s.waitsBare .rejected p then some p else none
  | _ => none

/-- No entry of this promise is early. -/
def demote (entries : List (Ref × Bool)) (p : Ref) : List (Ref × Bool) :=
  entries.map fun entry => if entry.1 = p then (p, false) else entry

/-- The entries that have been added to the queue are early if their promise is not one of the
first `n`. -/
def grown (n : ℕ) (entries : List (Ref × Bool)) (s : State V E F) : List (Ref × Bool) :=
  entries ++ (s.queue.drop entries.length).map fun p => (p, decide (n ≤ p))

/-- The entries that a call leaves early. -/
def State.served (s : State V E F) (l : Label V E F) (entries : List (Ref × Bool)) :
    List (Ref × Bool) :=
  match s.firstServed l with
  | some p => demote entries p
  | none => entries

/-- The entries after a step. -/
def noteEntries (s s' : State V E F) (l : Label V E F) (entries : List (Ref × Bool)) :
    List (Ref × Bool) :=
  if s'.queue = [] then [] else grown s.heap.length (s.served l entries) s'

def watchedStep [Blank V] [FnTrait F E] (w : Watched V E F) (l : Label V E F) :
    Option (Watched V E F) :=
  (step w.config l).map fun config =>
    ⟨config, noteEntries w.config.state config.state l w.entries⟩

/-- The entries that the queue of the general promise has. -/
def late (entries : List (Ref × Bool)) : List Ref :=
  (entries.filter fun entry => !entry.2).map Prod.fst

/-! ### The condition -/

/-- A promise whose entry is early gets its first handler, and behind it in the queue stands an
entry that is not early. -/
def Watched.overtakes (w : Watched V E F) (l : Label V E F) : Bool :=
  match w.config.state.firstServed l with
  | some p => (w.entries.dropWhile fun entry => decide (entry ≠ (p, true))).tail.any fun entry =>
      !entry.2
  | none => false

/-- `promise_task` comes to an early entry, and the promise has handlers. -/
def Watched.servesEarly (w : Watched V E F) (l : Label V E F) : Bool :=
  match w.config.control, l with
  | .turn i, .tau =>
      match w.entries[i]? with
      | some (p, true) => (w.config.state.get? p).any fun data => !data.due.isEmpty
      | _ => false
  | _, _ => false

/-- No promise is called back earlier than the general one would be. -/
def Watched.InTurn (w : Watched V E F) (l : Label V E F) : Prop :=
  w.overtakes l = false ∧ w.servesEarly l = false

instance (w : Watched V E F) (l : Label V E F) : Decidable (w.InTurn l) :=
  inferInstanceAs (Decidable (_ ∧ _))

/-! ### Lists of entries -/

variable {entries : List (Ref × Bool)} {p q : Ref} {i n : ℕ}

theorem late_append (entries rest : List (Ref × Bool)) :
    late (entries ++ rest) = late entries ++ late rest := by
  simp [late]

@[simp] theorem late_nil : late [] = [] := rfl

@[simp] theorem late_concat_early (entries : List (Ref × Bool)) (p : Ref) :
    late (entries ++ [(p, true)]) = late entries := by
  simp [late]

@[simp] theorem late_concat_late (entries : List (Ref × Bool)) (p : Ref) :
    late (entries ++ [(p, false)]) = late entries ++ [p] := by
  simp [late]

/-- The position in the queue of the general promise. -/
def place (entries : List (Ref × Bool)) (i : ℕ) : ℕ := (late (entries.take i)).length

theorem late_getElem?_place (h : entries[i]? = some (p, false)) :
    (late entries)[place entries i]? = some p := by
  obtain ⟨hi, hget⟩ := List.getElem?_eq_some_iff.mp h
  have hsplit : entries = entries.take i ++ (p, false) :: entries.drop (i + 1) := by
    rw [← hget, List.getElem_cons_drop, List.take_append_drop]
  have hlate : late entries = late (entries.take i) ++ p :: late (entries.drop (i + 1)) := by
    calc late entries = late (entries.take i ++ (p, false) :: entries.drop (i + 1)) := by
          rw [← hsplit]
      _ = late (entries.take i) ++ late ((p, false) :: entries.drop (i + 1)) := late_append _ _
      _ = late (entries.take i) ++ p :: late (entries.drop (i + 1)) := by simp [late]
  rw [hlate, place]
  simp

theorem late_getElem?_of_none (h : entries[i]? = none) :
    (late entries)[place entries i]? = none := by
  have hi : entries.length ≤ i := List.getElem?_eq_none_iff.mp h
  rw [place, List.take_of_length_le hi]
  simp

theorem place_succ_late (h : entries[i]? = some (p, false)) :
    place entries (i + 1) = place entries i + 1 := by
  simp [place, List.take_add_one, h, late]

theorem place_succ_early (h : entries[i]? = some (p, true)) :
    place entries (i + 1) = place entries i := by
  simp [place, List.take_add_one, h, late]

@[simp] theorem demote_fst (entries : List (Ref × Bool)) (p : Ref) :
    (demote entries p).map Prod.fst = entries.map Prod.fst := by
  simp only [demote, List.map_map]
  refine List.map_congr_left fun entry _ => ?_
  by_cases hp : entry.1 = p <;> simp [hp]

theorem mem_demote : (q, true) ∈ demote entries p ↔ q ≠ p ∧ (q, true) ∈ entries := by
  simp only [demote, List.mem_map]
  constructor
  · rintro ⟨entry, hmem, heq⟩
    by_cases hp : entry.1 = p
    · simp [hp] at heq
    · rw [if_neg hp] at heq
      rw [heq] at hmem hp
      exact ⟨hp, hmem⟩
  · rintro ⟨hne, hmem⟩
    exact ⟨(q, true), hmem, by simp [hne]⟩

theorem demote_of_not_mem (h : (p, true) ∉ entries) : demote entries p = entries := by
  have hsame : ∀ entry ∈ entries,
      (if entry.1 = p then (p, false) else entry) = entry := by
    rintro ⟨q, early⟩ hmem
    by_cases hq : q = p
    · subst hq
      cases early with
      | true => exact absurd hmem h
      | false => simp
    · simp [hq]
  calc demote entries p = entries.map id := List.map_congr_left hsame
    _ = entries := List.map_id entries

/-- The promises whose entries are early. -/
def early (entries : List (Ref × Bool)) : List Ref :=
  (entries.filter fun entry => entry.2).map Prod.fst

theorem mem_early : p ∈ early entries ↔ (p, true) ∈ entries := by
  simp [early]

theorem early_append (entries rest : List (Ref × Bool)) :
    early (entries ++ rest) = early entries ++ early rest := by
  simp [early]

/-- An early entry with none but early ones behind it. -/
theorem split_of_not_overtakes (hmem : (p, true) ∈ entries) (honce : (early entries).Nodup)
    (hlast : ((entries.dropWhile fun entry => decide (entry ≠ (p, true))).tail.any fun entry =>
      !entry.2) = false) :
    ∃ before after, entries = before ++ (p, true) :: after ∧ (p, true) ∉ before ∧
      (p, true) ∉ after ∧ late after = [] := by
  obtain ⟨before, after, rfl, hbefore⟩ := List.eq_append_cons_of_mem hmem
  refine ⟨before, after, rfl, hbefore, fun hafter => ?_, ?_⟩
  · rw [early_append, List.nodup_append] at honce
    have hfirst : (early ((p, true) :: after)).Nodup := honce.2.1
    simp only [early, List.filter_cons_of_pos, List.map_cons, List.nodup_cons] at hfirst
    exact hfirst.1 (mem_early.mpr hafter)
  · have hdrop : (before ++ (p, true) :: after).dropWhile
        (fun entry => decide (entry ≠ (p, true))) = (p, true) :: after := by
      rw [List.dropWhile_append_of_pos, List.dropWhile_cons_of_neg]
      · simp
      · intro entry hentry
        simpa using fun h : entry = (p, true) => hbefore (h ▸ hentry)
    rw [hdrop, List.tail_cons, List.any_eq_false] at hlast
    simpa [late] using hlast

/-- The queue of the general promise grows when an early entry becomes a late one. -/
theorem late_demote (hmem : (p, true) ∈ entries) (honce : (early entries).Nodup)
    (hlast : ((entries.dropWhile fun entry => decide (entry ≠ (p, true))).tail.any fun entry =>
      !entry.2) = false) : late (demote entries p) = late entries ++ [p] := by
  obtain ⟨before, after, rfl, hbefore, hafter, hlate⟩ := split_of_not_overtakes hmem honce hlast
  have hdemote : demote (before ++ (p, true) :: after) p = before ++ (p, false) :: after := by
    have happend : demote (before ++ (p, true) :: after) p =
        demote before p ++ (p, false) :: demote after p := by
      simp [demote]
    rw [happend, demote_of_not_mem hbefore, demote_of_not_mem hafter]
  have hwith (flag : Bool) : late (before ++ (p, flag) :: after) =
      late before ++ late [(p, flag)] ++ late after := by
    rw [← late_append, ← late_append, List.append_assoc, List.singleton_append]
  rw [hdemote, hwith, hwith, hlate]
  simp [late]

theorem early_demote (honce : (early entries).Nodup) (p : Ref) :
    (early (demote entries p)).Nodup := by
  have hfilter : early (demote entries p) = (early entries).filter fun q => decide (q ≠ p) := by
    induction entries with
    | nil => rfl
    | cons entry rest ih =>
        obtain ⟨q, flag⟩ := entry
        have hrest := ih (honce.sublist (by
          rw [← List.singleton_append, early_append]
          exact List.sublist_append_right _ _))
        simp only [early, demote] at hrest ⊢
        by_cases hq : q = p <;> cases flag <;> simp [hq, hrest]
  rw [hfilter]
  exact honce.filter _

/-- Entries that are added. -/
theorem grown_eq {s : State V E F} (rest : List Ref)
    (h : s.queue = entries.map Prod.fst ++ rest) :
    grown n entries s = entries ++ rest.map fun p => (p, decide (n ≤ p)) := by
  have hlength : entries.length = (entries.map Prod.fst).length := by simp
  rw [grown, h, hlength, List.drop_left]

theorem grown_of_eq {s : State V E F} (h : s.queue = entries.map Prod.fst) :
    grown n entries s = entries := by
  simpa using grown_eq (n := n) [] (h.trans (List.append_nil _).symm)

theorem grown_grown {s s' : State V E F} (h : entries.map Prod.fst <+: s.queue)
    (h' : s.queue <+: s'.queue) : grown n (grown n entries s) s' = grown n entries s' := by
  obtain ⟨rest, hrest⟩ := h
  obtain ⟨more, hmore⟩ := h'
  rw [grown_eq rest hrest.symm, grown_eq more, grown_eq (rest ++ more)]
  · simp
  · rw [← hmore, ← hrest, List.append_assoc]
  · rw [← hmore, ← hrest]
    simp [Function.comp_def]

end Libasync.Promise
