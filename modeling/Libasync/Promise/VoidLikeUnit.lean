import Libasync.Promise.Agreement

/-! # `Promise<void>` and the promise of the unit type

The two versions of a program go together. The library needs two more steps for an early entry,
and the general version waits meanwhile. -/

namespace Libasync.Promise

open Automaton Foundation

variable {V E F : Type*}

/-! ### Entries that stay -/

/-- The entries before the position stay, and the one there stays if it is late. -/
structure KeepsPlace (i : ℕ) (entries entries' : List (Ref × Bool)) : Prop where
  before : entries'.take i = entries.take i
  current : ∀ p, entries[i]? = some (p, false) → entries'[i]? = some (p, false)

theorem KeepsPlace.place_eq {i : ℕ} {entries entries' : List (Ref × Bool)}
    (h : KeepsPlace i entries entries') : place entries' i = place entries i := by
  rw [place, place, h.before]

theorem KeepsPlace.refl (i : ℕ) (entries : List (Ref × Bool)) : KeepsPlace i entries entries :=
  ⟨rfl, fun _ h => h⟩

theorem KeepsPlace.append {i : ℕ} {entries entries' rest : List (Ref × Bool)}
    (h : KeepsPlace i entries entries') (hbound : i ≤ entries'.length) :
    KeepsPlace i entries (entries' ++ rest) := by
  refine ⟨by rw [List.take_append_of_le_length hbound, h.before], fun p hp => ?_⟩
  have hcurrent := h.current p hp
  rw [List.getElem?_append_left (List.getElem?_eq_some_iff.mp hcurrent).1, hcurrent]

theorem firstServed_waitsBare {s : State V E F} {l : Label V E F} {p : Ref}
    (h : s.firstServed l = some p) : ∃ side, s.waitsBare side p = true := by
  unfold State.firstServed at h
  split at h
  · split at h
    · rename_i hwaits
      obtain rfl := Option.some.inj h
      exact ⟨.fulfilled, hwaits⟩
    · cases h
  · split at h
    · rename_i hwaits
      obtain rfl := Option.some.inj h
      exact ⟨.rejected, hwaits⟩
    · cases h
  · cases h

namespace Agrees

variable {i : ℕ} {s s' t : State V E F} {entries : List (Ref × Bool)}

theorem keepsPlace_served (h : Agrees i s entries t) (l : Label V E F) :
    KeepsPlace i entries (s.served l entries) := by
  have hdemote {side : Side} {p : Ref} (hwaits : s.waitsBare side p = true) :
      KeepsPlace i entries (demote entries p) := by
    obtain ⟨data, hget, hflag, hdue⟩ := of_waitsBare hwaits
    refine ⟨h.demote_take hget hflag hdue, fun q hq => ?_⟩
    rw [demote, List.getElem?_map, hq]
    by_cases hqp : q = p <;> simp [hqp]
  cases hfirst : s.firstServed l with
  | none => simpa [State.served, hfirst] using KeepsPlace.refl i entries
  | some p =>
      obtain ⟨side, hwaits⟩ := firstServed_waitsBare hfirst
      simpa [State.served, hfirst] using hdemote hwaits

theorem noteEntries_eq (h : Agrees i s entries t) (l : Label V E F)
    (hgrows : s.queue <+: s'.queue) :
    noteEntries s s' l entries = grown s.heap.length (s.served l entries) s' := by
  rw [noteEntries]
  split
  · rename_i hnil
    have hqueue : s.queue = [] := List.prefix_nil.mp (hnil ▸ hgrows)
    have hentries : entries = [] := by simpa [hqueue] using h.entries_fst
    cases hfirst : s.firstServed l <;> simp [State.served, hfirst, hentries, demote, grown, hnil]
  · rfl

theorem noteEntries_same (h : Agrees i s entries t) {l : Label V E F}
    (hquiet : s.firstServed l = none) (hqueue : s'.queue = s.queue) :
    noteEntries s s' l entries = entries := by
  rw [h.noteEntries_eq l (hqueue ▸ List.prefix_rfl), State.served, hquiet]
  exact grown_of_eq (hqueue.trans h.entries_fst.symm)

theorem keepsPlace_grown (h : Agrees i s entries t) (n : ℕ) (l : Label V E F) :
    KeepsPlace i entries (grown n (s.served l entries) s') := by
  have hserved := h.keepsPlace_served l
  refine hserved.append ?_
  cases hfirst : s.firstServed l <;> simpa [State.served, hfirst, demote] using h.bound

end Agrees

/-! ### Calls -/

theorem Change.calls_eq {T : Ref → Prop} {s t : State V E F} (h : Change T s t) :
    t.calls = s.calls := by
  obtain ⟨rest, hlog, hrest⟩ := h.log_eq
  have hnone : rest.filterMap Event.call? = [] := by
    refine List.filterMap_eq_nil_iff.mpr fun e he => ?_
    have hcall := hrest e he
    cases e with
    | called turn p outer f arg => cases hcall
    | enqueued p => rfl
    | registered side p outer f => rfl
  simp [State.calls, hlog, hnone]

theorem Changes.calls_eq {T : Ref → Prop} {s t : State V E F} (h : Changes T s t) :
    t.calls = s.calls :=
  h.induct (I := fun u => u.calls = s.calls) (fun _ _ hs hc => hc.calls_eq.trans hs) rfl

theorem State.calls_called (s : State V E F) (i : ℕ) (p outer : Ref) (f : F) (arg : Arg V E) :
    (s.record (.called i p outer f arg)).calls = s.calls ++ [(p, outer, f, arg)] := by
  simp [State.calls, State.record, Event.call?]

/-! ### The two configurations -/

/-- Where the general version is. At an early entry it is before the next entry that it has. -/
inductive Facing (s : State V E F) (entries : List (Ref × Bool)) :
    Control F E → Control F E → Prop where
  | idle : Facing s entries .idle .idle
  | turn {i i'} (position : i' = place entries i) : Facing s entries (.turn i) (.turn i')
  | skip {i i' p} (position : i' = place entries i) (entry : entries[i]? = some (p, true))
      (bare : ∀ data, s.get? p = some data → data.due = []) :
      Facing s entries (.callBack i p 0) (.turn i')
  | callBack {i i' p} (position : i' = place entries i) (entry : entries[i]? = some (p, false))
      (j) : Facing s entries (.callBack i p j) (.callBack i' p j)
  | handler {i i' p} (position : i' = place entries i) (entry : entries[i]? = some (p, false))
      (j outer f) : Facing s entries (.handler i p j outer f) (.handler i' p j outer f)
  | done (exit) : Facing s entries (.done exit) (.done exit)

theorem Facing.unplaced_eq {s : State V E F} {entries : List (Ref × Bool)}
    {control control' : Control F E} (h : Facing s entries control control') :
    control'.unplaced = control.unplaced := by
  cases h <;> rfl

theorem Facing.user_iff {s : State V E F} {entries : List (Ref × Bool)}
    {control control' : Control F E} (h : Facing s entries control control') :
    control.User ↔ control'.User := by
  cases h <;> rfl

structure Matches (w : Watched V E F) (c : Config V E F) : Prop where
  inv : QueueInv w.config
  agrees : Agrees w.config.control.position w.config.state w.entries c.state
  facing : Facing w.config.state w.entries w.config.control c.control
  calls : c.state.calls = w.config.state.calls

theorem Matches.initial : Matches ({} : Watched V E F) {} where
  inv := .initial
  agrees := ⟨rfl, rfl, List.nodup_nil, le_rfl, by simp [State.get?], by simp, by simp⟩
  facing := .idle
  calls := rfl

theorem Facing.user {s s' : State V E F} {entries entries' : List (Ref × Bool)}
    {control control' : Control F E} (h : Facing s entries control control') (huser : control.User)
    (hkeeps : KeepsPlace control.position entries entries') :
    Facing s' entries' control control' := by
  cases h with
  | idle => exact .idle
  | handler position entry j outer f =>
      have hplace := position.trans hkeeps.place_eq.symm
      exact .handler hplace (hkeeps.current _ entry) j outer f
  | turn | skip | callBack | done => exact huser.elim

/-- The general version has nothing to do at this entry. -/
def Watched.skips (w : Watched V E F) : Bool :=
  match w.config.control with
  | .turn i | .callBack i _ _ => (w.entries[i]?).any Prod.snd
  | _ => false

/-- Steps that are left until the end of the queue. -/
def Watched.left (w : Watched V E F) : ℕ :=
  match w.config.control with
  | .turn i => 2 * (w.entries.length - i)
  | .callBack i _ _ => 2 * (w.entries.length - i) - 1
  | _ => 0

/-! ### Steps of both versions -/

@[simp] theorem Op.atUnit_refs [Blank V] (o : Op V E F) : o.atUnit.refs = o.refs := by
  cases o <;> rfl

@[simp] theorem Outcome.atUnit_refs [Blank V] (result : Outcome V E) :
    result.atUnit.refs = result.refs := by
  cases result with
  | returned value => cases value <;> rfl
  | threw e => rfl

theorem step_op [Blank V] [FnTrait F E] {s : State V E F} {control : Control F E}
    (huser : control.User) (o : Op V E F) :
    step ⟨s, control⟩ (.op o) =
      if s.has o.refs then some ⟨s.perform o, control⟩ else none := by
  cases control with
  | idle | handler => rfl
  | turn | callBack | done => exact huser.elim

theorem unitStep_op [Blank V] [FnTrait F E] {t : State V E F} {control : Control F E}
    (huser : control.User) (o : Op V E F) :
    unitStep ⟨t, control⟩ (.op o) =
      if t.has o.refs then some ⟨t.perform o.atUnit, control⟩ else none := by
  rw [← Op.atUnit_refs]
  exact @step_op V E F _ FnTrait.atUnit t control huser o.atUnit

theorem argFor_atUnit [FnTrait F E] (status : PromiseStatus V E) (f : F) :
    @PromiseStatus.argFor V E F FnTrait.atUnit f status = status.argFor f := by
  cases status <;> rfl

variable [Blank V] [FnTrait F E]

namespace Matches

variable {s s' t t' : State V E F} {control control' next next' : Control F E}
  {entries : List (Ref × Bool)} {i i' j : ℕ} {p outer : Ref} {f : F} {data : PromiseData V E F}

/-- A step that stays at its position of the queue. -/
theorem of_changes {T T' : Ref → Prop} {l : Label V E F}
    (h : Matches ⟨⟨s, control⟩, entries⟩ ⟨t, control'⟩)
    (hstep : Step ⟨s, control⟩ l ⟨s', next⟩) (hs : Changes T s s') (ht : Changes T' t t')
    (hposition : next.position = control.position)
    (hagrees : Agrees control.position s' (grown s.heap.length (s.served l entries) s') t')
    (hfacing : ∀ entries', KeepsPlace control.position entries entries' →
      Facing s' entries' next next') :
    Matches ⟨⟨s', next⟩, noteEntries s s' l entries⟩ ⟨t', next'⟩ := by
  have hold : Agrees control.position s entries t := h.agrees
  have hentries := hold.noteEntries_eq l hs.queue_grows
  refine ⟨h.inv.step hstep, ?_, ?_, ?_⟩
  · rw [hentries]
    exact hposition ▸ hagrees
  · rw [hentries]
    exact hfacing _ (hold.keepsPlace_grown s.heap.length l)
  · calc t'.calls = t.calls := ht.calls_eq
      _ = s.calls := h.calls
      _ = s'.calls := hs.calls_eq.symm

/-- A call from code outside the library. -/
theorem op (h : Matches ⟨⟨s, control⟩, entries⟩ ⟨t, control'⟩) (huser : control.User)
    {o : Op V E F} (hknown : s.has o.refs = true)
    (hguard : Watched.InTurn ⟨⟨s, control⟩, entries⟩ (.op o)) :
    Matches ⟨⟨s.perform o, control⟩, noteEntries s (s.perform o) (.op o) entries⟩
      ⟨t.perform o.atUnit, control'⟩ := by
  have hagrees : Agrees control.position s entries t := h.agrees
  have hnext := hagrees.perform o hknown fun p hfirst => by
    simpa [Watched.overtakes, hfirst] using hguard.1
  exact h.of_changes (.op s control o huser hknown) (s.perform_changes o)
    (t.perform_changes o.atUnit) rfl hnext fun _ hkeeps => h.facing.user huser hkeeps

/-- A handler finishes. -/
theorem returned
    (h : Matches ⟨⟨s, .handler i p j outer f⟩, entries⟩ ⟨t, .handler i' p j outer f⟩)
    {result : Outcome V E} (hknown : s.has result.refs = true) :
    Matches ⟨⟨s.finishHandler outer f result, .callBack i p (j + 1)⟩,
        noteEntries s (s.finishHandler outer f result) (.finish result) entries⟩
      ⟨@State.finishHandler V E F _ FnTrait.atUnit t outer f result.atUnit,
        .callBack i' p (j + 1)⟩ := by
  have hagrees : Agrees i s entries t := h.agrees
  have houter : outer < s.heap.length := h.inv.scope.outer i p j outer f rfl
  have hchanges := @State.finishHandler_changes V E F _ FnTrait.atUnit t outer f result.atUnit
    (hagrees.length_eq ▸ houter)
  refine h.of_changes (.returned s i p j outer f result hknown)
    (s.finishHandler_changes f result houter) hchanges rfl
    (hagrees.finishHandler houter f result) fun entries' hkeeps => ?_
  cases h.facing with
  | handler position entry =>
      exact .callBack (position.trans hkeeps.place_eq.symm) (hkeeps.current p entry) (j + 1)

/-- The internal callback of `associate_status`. -/
theorem adopted (h : Matches ⟨⟨s, .callBack i p j⟩, entries⟩ ⟨t, .callBack i' p j⟩)
    (hget : s.get? p = some data) (hdue : data.due[j]? = some (.adopt outer)) :
    Matches ⟨⟨s.adoptStatus outer data.status, .callBack i p (j + 1)⟩,
        noteEntries s (s.adoptStatus outer data.status) .tau entries⟩
      ⟨t.adoptStatus outer data.status, .callBack i' p (j + 1)⟩ := by
  have hagrees : Agrees i s entries t := h.agrees
  have houter : outer < s.heap.length := h.inv.scope.state.due_target hget hdue
  refine h.of_changes (.adopted s i p j data outer hget hdue)
    (s.adoptStatus_changes (T := (· = outer)) outer data.status rfl)
    (t.adoptStatus_changes (T := (· = outer)) outer data.status rfl) rfl
    (hagrees.adoptStatus houter data.status) fun entries' hkeeps => ?_
  cases h.facing with
  | callBack position entry =>
      exact .callBack (position.trans hkeeps.place_eq.symm) (hkeeps.current p entry) (j + 1)

/-- A step after which the queue is the same. -/
theorem of_queue_eq {l : Label V E F} (h : Matches ⟨⟨s, control⟩, entries⟩ ⟨t, control'⟩)
    (hstep : Step ⟨s, control⟩ l ⟨s', next⟩) (hquiet : s.firstServed l = none)
    (hqueue : s'.queue = s.queue) (hagrees : Agrees next.position s' entries t')
    (hfacing : Facing s' entries next next') (hcalls : t'.calls = s'.calls) :
    Matches ⟨⟨s', next⟩, noteEntries s s' l entries⟩ ⟨t', next'⟩ := by
  have hold : Agrees control.position s entries t := h.agrees
  rw [hold.noteEntries_same hquiet hqueue]
  exact ⟨h.inv.step hstep, hagrees, hfacing, hcalls⟩

/-- `promise_task` comes to the end of the queue. -/
theorem clear (h : Matches ⟨⟨s, .turn i⟩, entries⟩ ⟨t, .turn i'⟩) (hend : entries[i]? = none)
    (hqueue : s.queue[i]? = none) :
    Matches ⟨⟨{ s with queue := [] }, .done none⟩,
      noteEntries s { s with queue := [] } .tau entries⟩ ⟨{ t with queue := [] }, .done none⟩ := by
  have hagrees : Agrees i s entries t := h.agrees
  exact ⟨h.inv.step (.clear s i hqueue), hagrees.clear hend, .done none, h.calls⟩

theorem lockstep_user (h : Matches ⟨⟨s, control⟩, entries⟩ ⟨t, control'⟩)
    (huser : control.User) (o : Op V E F) :
    Option.Rel (fun w c => Watched.InTurn ⟨⟨s, control⟩, entries⟩ (.op o) → Matches w c)
      (watchedStep ⟨⟨s, control⟩, entries⟩ (.op o)) (unitStep ⟨t, control'⟩ (.op o)) := by
  have hhas : t.has o.refs = s.has o.refs := h.agrees.has o.refs
  have huser' : control'.User := h.facing.user_iff.mp huser
  simp only [watchedStep, step_op huser, unitStep_op huser', hhas]
  cases hknown : s.has o.refs with
  | false => exact .none
  | true => exact .some fun hguard => h.op huser hknown hguard

theorem lockstep_turn (h : Matches ⟨⟨s, .turn i⟩, entries⟩ ⟨t, .turn i'⟩)
    (hposition : i' = place entries i) (hskips : ∀ p, entries[i]? ≠ some (p, true)) :
    Option.Rel Matches (watchedStep ⟨⟨s, .turn i⟩, entries⟩ .tau)
      (unitStep ⟨t, .turn i'⟩ .tau) := by
  have hagrees : Agrees i s entries t := h.agrees
  have hqueue : s.queue[i]? = entries[i]?.map Prod.fst := by
    rw [← hagrees.entries_fst, List.getElem?_map]
  cases hentry : entries[i]? with
  | none =>
      have hnone : s.queue[i]? = none := by simp [hqueue, hentry]
      have hnone' : t.queue[i']? = none := by
        rw [hagrees.queue, hposition, late_getElem?_of_none hentry]
      have hnext := h.clear hentry hnone
      simp only [watchedStep, unitStep, Label.atUnit, step, tau, hnone, hnone']
      exact .some hnext
  | some entry =>
      obtain ⟨p, flag⟩ := entry
      cases flag with
      | true => exact absurd hentry (hskips p)
      | false =>
          have hsome : s.queue[i]? = some p := by simp [hqueue, hentry]
          have hsome' : t.queue[i']? = some p := by
            rw [hagrees.queue, hposition, late_getElem?_place hentry]
          have hnext := h.of_queue_eq (.next s i p hsome) rfl rfl hagrees
            (.callBack hposition hentry 0) h.calls
          simp only [watchedStep, unitStep, Label.atUnit, step, tau, hsome, hsome']
          exact .some hnext

theorem lockstep_callBack (h : Matches ⟨⟨s, .callBack i p j⟩, entries⟩ ⟨t, .callBack i' p j⟩)
    (hposition : i' = place entries i) (hentry : entries[i]? = some (p, false)) :
    Option.Rel Matches (watchedStep ⟨⟨s, .callBack i p j⟩, entries⟩ .tau)
      (unitStep ⟨t, .callBack i' p j⟩ .tau) := by
  have hagrees : Agrees i s entries t := h.agrees
  cases hget : s.get? p with
  | none =>
      have hget' : t.get? p = none := by simp [hagrees.cells, hget]
      simp only [watchedStep, unitStep, Label.atUnit, step, tau, callWrapper, hget, hget']
      exact .none
  | some data =>
      have hget' := hagrees.get? hget
      cases hdue : data.due[j]? with
      | none =>
          have hplace : i' + 1 = place entries (i + 1) := by
            rw [hposition, place_succ_late hentry]
          have hnext := h.of_queue_eq (.finished s i p j data hget hdue) rfl rfl
            (hagrees.finish_late hentry) (.turn hplace) h.calls
          simp only [watchedStep, unitStep, Label.atUnit, step, tau, callWrapper, hget, hget',
            PromiseData.atUnit_due, hdue]
          exact .some hnext
      | some w =>
          cases w with
          | adopt outer =>
              have hnext := h.adopted hget hdue
              simp only [watchedStep, unitStep, Label.atUnit, step, tau, callWrapper, hget, hget',
                PromiseData.atUnit_due, PromiseData.atUnit_status, hdue]
              exact .some hnext
          | handler outer f =>
              cases harg : data.status.argFor f with
              | ok arg =>
                  have hcalls : (t.record (.called i' p outer f arg)).calls =
                      (s.record (.called i p outer f arg)).calls := by
                    rw [State.calls_called, State.calls_called, h.calls]
                  have hnext := h.of_queue_eq (.called s i p j data outer f arg hget hdue harg)
                    rfl rfl (hagrees.record _ _) (.handler hposition hentry j outer f) hcalls
                  simp only [watchedStep, unitStep, Label.atUnit, step, tau, callWrapper, hget,
                    hget', PromiseData.atUnit_due, PromiseData.atUnit_status, hdue, argFor_atUnit,
                    harg]
                  exact .some hnext
              | error e =>
                  have hnext := h.of_queue_eq (.mismatch s i p j data outer f e hget hdue harg)
                    rfl rfl hagrees.restart (.done (some e)) h.calls
                  simp only [watchedStep, unitStep, Label.atUnit, step, tau, callWrapper, hget,
                    hget', PromiseData.atUnit_due, PromiseData.atUnit_status, hdue, argFor_atUnit,
                    harg]
                  exact .some hnext

theorem lockstep_finish
    (h : Matches ⟨⟨s, .handler i p j outer f⟩, entries⟩ ⟨t, .handler i' p j outer f⟩)
    (result : Outcome V E) :
    Option.Rel Matches (watchedStep ⟨⟨s, .handler i p j outer f⟩, entries⟩ (.finish result))
      (unitStep ⟨t, .handler i' p j outer f⟩ (.finish result)) := by
  have hhas : t.has result.refs = s.has result.refs := h.agrees.has result.refs
  cases hknown : s.has result.refs with
  | false =>
      simp only [watchedStep, unitStep, Label.atUnit, step, Outcome.atUnit_refs, hhas, hknown]
      exact .none
  | true =>
      have hnext := h.returned hknown
      simp only [watchedStep, unitStep, Label.atUnit, step, Outcome.atUnit_refs, hhas, hknown]
      exact .some hnext

/-- Both versions make the same step when there is no early entry to skip. -/
theorem lockstep {w : Watched V E F} {c : Config V E F} (h : Matches w c)
    (hskips : w.skips = false) (l : Label V E F) :
    Option.Rel (fun w' c' => w.InTurn l → Matches w' c') (watchedStep w l) (unitStep c l) := by
  obtain ⟨⟨s, control⟩, entries⟩ := w
  obtain ⟨t, control'⟩ := c
  have hrel {x : Option (Watched V E F)} {y : Option (Config V E F)}
      (hxy : Option.Rel Matches x y) :
      Option.Rel (fun w' c' => Watched.InTurn ⟨⟨s, control⟩, entries⟩ l → Matches w' c') x y := by
    cases hxy with
    | none => exact .none
    | some hnext => exact .some fun _ => hnext
  have hfacing : Facing s entries control control' := h.facing
  cases hfacing with
  | idle =>
      cases l with
      | op o => exact h.lockstep_user trivial o
      | promiseTask =>
          exact hrel (.some (h.of_queue_eq (.start s) rfl rfl h.agrees (.turn rfl) h.calls))
      | tau | finish | resume => exact .none
  | turn position =>
      cases l with
      | tau =>
          refine hrel (h.lockstep_turn position fun p hentry => ?_)
          simp [Watched.skips, hentry] at hskips
      | op | promiseTask | finish | resume => exact .none
  | skip position entry bare => simp [Watched.skips, entry] at hskips
  | callBack position entry j =>
      cases l with
      | tau => exact hrel (h.lockstep_callBack position entry)
      | op | promiseTask | finish | resume => exact .none
  | handler position entry j outer f =>
      cases l with
      | op o => exact h.lockstep_user trivial o
      | finish result => exact hrel (h.lockstep_finish result)
      | promiseTask | tau | resume => exact .none
  | done exit =>
      cases l with
      | resume => exact hrel (.some (h.of_queue_eq (.resume s exit) rfl rfl h.agrees .idle h.calls))
      | op | promiseTask | tau | finish => exact .none

/-! ### Steps of the void version only -/

/-- The library comes to an early entry. -/
theorem enter_early (h : Matches ⟨⟨s, .turn i⟩, entries⟩ ⟨t, .turn i'⟩)
    (hposition : i' = place entries i) (hentry : entries[i]? = some (p, true))
    (hguard : Watched.InTurn ⟨⟨s, .turn i⟩, entries⟩ .tau) (hqueue : s.queue[i]? = some p) :
    Matches ⟨⟨s, .callBack i p 0⟩, noteEntries s s .tau entries⟩ ⟨t, .turn i'⟩ := by
  have hbare : ∀ data, s.get? p = some data → data.due = [] := by
    intro data hget
    simpa [Watched.servesEarly, hentry, hget] using hguard.2
  exact h.of_queue_eq (.next s i p hqueue) rfl rfl h.agrees (.skip hposition hentry hbare) h.calls

/-- The library leaves an early entry. -/
theorem leave_early (h : Matches ⟨⟨s, .callBack i p 0⟩, entries⟩ ⟨t, .turn i'⟩)
    (hposition : i' = place entries i) (hentry : entries[i]? = some (p, true))
    (hbare : ∀ data, s.get? p = some data → data.due = []) (hget : s.get? p = some data) :
    Matches ⟨⟨s.finishCallBack p, .turn (i + 1)⟩,
      noteEntries s (s.finishCallBack p) .tau entries⟩ ⟨t, .turn i'⟩ := by
  have hagrees : Agrees i s entries t := h.agrees
  have hdue : data.due[0]? = none := by simp [hbare data hget]
  have hplace : i' = place entries (i + 1) := by rw [hposition, place_succ_early hentry]
  exact h.of_queue_eq (.finished s i p 0 data hget hdue) rfl rfl
    (hagrees.finish_early hentry hbare) (.turn hplace) h.calls

theorem skips_tau {w : Watched V E F} {c : Config V E F} (h : Matches w c)
    (hskips : w.skips = true) : ∃ w', watchedStep w .tau = some w' ∧
      (w.InTurn .tau → Matches w' c ∧ w'.left < w.left) := by
  obtain ⟨⟨s, control⟩, entries⟩ := w
  obtain ⟨t, control'⟩ := c
  have hfacing : Facing s entries control control' := h.facing
  cases hfacing with
  | idle => cases hskips
  | handler => cases hskips
  | done => cases hskips
  | callBack position entry j => simp [Watched.skips, entry] at hskips
  | turn position =>
      rename_i i i'
      have hagrees : Agrees i s entries t := h.agrees
      obtain ⟨p, hentry⟩ : ∃ p, entries[i]? = some (p, true) := by
        simpa [Watched.skips, Option.any_eq_true] using hskips
      have hqueue : s.queue[i]? = some p := by
        rw [← hagrees.entries_fst, List.getElem?_map, hentry]
        rfl
      have hlt := (List.getElem?_eq_some_iff.mp hentry).1
      have hsame := hagrees.noteEntries_same (l := .tau) rfl rfl
      refine ⟨⟨⟨s, .callBack i p 0⟩, noteEntries s s .tau entries⟩, ?_, fun hguard => ?_⟩
      · simp [watchedStep, step, tau, hqueue]
      · refine ⟨h.enter_early position hentry hguard hqueue, ?_⟩
        simp only [Watched.left, hsame]
        omega
  | skip position entry bare =>
      rename_i i i' p
      have hagrees : Agrees i s entries t := h.agrees
      obtain ⟨data, side, hget, -⟩ := hagrees.made p (List.mem_of_getElem? entry)
      have hdue : data.due[0]? = none := by simp [bare data hget]
      have hlt := (List.getElem?_eq_some_iff.mp entry).1
      have hfinished : (s.finishCallBack p).queue = s.queue := rfl
      have hsame := hagrees.noteEntries_same (l := .tau) rfl hfinished
      refine ⟨⟨⟨s.finishCallBack p, .turn (i + 1)⟩,
        noteEntries s (s.finishCallBack p) .tau entries⟩, ?_, fun _ => ?_⟩
      · simp [watchedStep, step, tau, callWrapper, hget, hdue]
      · refine ⟨h.leave_early position entry bare hget, ?_⟩
        simp only [Watched.left, hsame]
        omega

/-- While the void version is at an early entry, only the library makes a step. -/
theorem skips_isTau {w w' : Watched V E F} {l : Label V E F} (hskips : w.skips = true)
    (hstep : watchedStep w l = some w') : l = .tau := by
  obtain ⟨⟨s, control⟩, entries⟩ := w
  cases control with
  | turn i | callBack i p j => cases l <;> first | rfl | cases hstep
  | idle | handler | done => cases hskips

end Matches

variable (V E F) in
/-- What the void version does and what the general version does. -/
abbrev voidSystem : System (Watched V E F) (Label V E F) (View V E F) :=
  ⟨{}, watchedStep, fun w => w.config.view⟩

variable (V E F) in
abbrev unitSystem : System (Config V E F) (Label V E F) (View V E F) :=
  ⟨{}, unitStep, Config.view⟩

theorem simulation : Simulation (voidSystem V E F) (unitSystem V E F) Label.isTau Watched.InTurn
    Matches Watched.skips Watched.left where
  start := .initial
  view w c h := by
    simp only [Config.view, View.mk.injEq]
    exact ⟨h.calls, h.facing.unplaced_eq⟩
  lockstep w c l h hskips := h.lockstep hskips l
  progress w c h hskips := by
    obtain ⟨w', hstep, -⟩ := h.skips_tau hskips
    exact ⟨.tau, w', rfl, hstep⟩
  stutter w c l w' h hskips hstep := by
    obtain rfl := Matches.skips_isTau hskips hstep
    obtain ⟨w'', hstep', hnext⟩ := h.skips_tau hskips
    obtain rfl := Option.some.inj (hstep.symm.trans hstep')
    exact ⟨rfl, hnext⟩

/-! ### Programs -/

/-- The same handler calls in the same order, the same status of every promise, and control at
the same place. -/
structure Alike (c c' : Config V E F) : Prop where
  calls : c'.state.calls = c.state.calls
  status : ∀ p, c'.state.status? p = c.state.status? p
  control : c'.control.unplaced = c.control.unplaced

omit [Blank V] [FnTrait F E] in
theorem Matches.alike {w : Watched V E F} {c : Config V E F} (h : Matches w c) :
    Alike w.config c where
  calls := h.calls
  status := h.agrees.status?
  control := h.facing.unplaced_eq

/-- Whatever one version of the program can do, the other one can do as well. -/
structure Interchangeable (π : Program (Label V E F) (View V E F)) : Prop where
  unit : ∀ choices w, (voidSystem V E F).Plays Label.isTau π choices w →
    ∃ c, (unitSystem V E F).Plays Label.isTau π choices c ∧ Alike w.config c
  void : ∀ choices c, (unitSystem V E F).Plays Label.isTau π choices c →
    ∃ w, (voidSystem V E F).Plays Label.isTau π choices w ∧ Alike w.config c

/-- The two versions of a program are interchangeable when no promise is called back earlier
because it was put into the queue when it was made. -/
theorem void_like_unit (π : Program (Label V E F) (View V E F))
    (hinturn : (voidSystem V E F).Guarded Label.isTau π Watched.InTurn) : Interchangeable π where
  unit choices w hplay := by
    obtain ⟨c, hplay', hmatches⟩ := simulation.plays_right hinturn hplay
    exact ⟨c, hplay', hmatches.alike⟩
  void choices c hplay := by
    obtain ⟨w, hplay', hmatches⟩ := simulation.plays_left hinturn hplay
    exact ⟨w, hplay', hmatches.alike⟩

omit [Blank V] [FnTrait F E] in
theorem Label.isTau_iff (l : Label V E F) : l.isTau = true ↔ l ∈ [Label.tau] := by
  cases l <;> simp [Label.isTau]

/-- A handler gives a resolved `Promise<void>` its first handler, when nothing else waits. -/
def inTurn : List (Label ℕ ℕ SampleHandler) :=
  [.op .promise, .op (.then_ 0 (.plain 0)), .op (.resolve 0 0), .op .resolvedVoid, .promiseTask,
    .op (.then_ 2 (.plain 1)), .finish (.returned .void), .finish (.returned .void)]

theorem void_like_unit_sample : ∃ c w, (unitSystem ℕ ℕ SampleHandler).Plays Label.isTau
    (script inTurn) inTurn c ∧ c.control = .done none ∧
      c.state.calls = [(0, 1, .plain 0, .value 0), (2, 3, .plain 1, .value 0)] ∧
      (voidSystem ℕ ℕ SampleHandler).Plays Label.isTau (script inTurn) inTurn w ∧
        Alike w.config c := by
  have hguard : (voidSystem ℕ ℕ SampleHandler).Guarded Label.isTau (script inTurn)
      Watched.InTurn :=
    System.guarded_of_rounds (n := 26) Label.isTau_iff (by decide +kernel) (by decide +kernel)
  obtain ⟨⟨choices, c⟩, hmem, rfl, hcontrol, hcalls⟩ : ∃ play ∈
      (unitSystem ℕ ℕ SampleHandler).rounds Label.isTau [.tau] (script inTurn) 19,
      play.1 = inTurn ∧ play.2.control = .done none ∧
        play.2.state.calls = [(0, 1, .plain 0, .value 0), (2, 3, .plain 1, .value 0)] := by
    decide +kernel
  have hplay := (System.plays_iff_rounds Label.isTau_iff).mpr ⟨19, hmem⟩
  obtain ⟨w, hplay', halike⟩ := (void_like_unit (script inTurn) hguard).void _ c hplay
  exact ⟨c, w, hplay, hcontrol, hcalls, hplay', halike⟩

/-- Another promise waits in the queue when the first handler comes. -/
def overtaking : List (Label ℕ ℕ SampleHandler) :=
  [.op .resolvedVoid, .op .promise, .op (.resolve 1 0), .op (.then_ 1 (.plain 1)),
    .op (.then_ 0 (.plain 0)), .promiseTask, .finish (.returned .void), .finish (.returned .void)]

theorem overtaking_not_interchangeable :
    ¬ Interchangeable (script overtaking : Program _ (View ℕ ℕ SampleHandler)) := by
  intro h
  obtain ⟨⟨choices, w⟩, hmem, horder⟩ : ∃ play ∈
      (voidSystem ℕ ℕ SampleHandler).rounds Label.isTau [.tau] (script overtaking) 23,
      play.2.config.state.calls.map Prod.fst = [0, 1] := by
    decide +kernel
  obtain ⟨c, hplay, halike⟩ :=
    h.unit choices w ((System.plays_iff_rounds Label.isTau_iff).mpr ⟨23, hmem⟩)
  -- the general version calls the handler of promise 1 first
  have hother : ∀ k < 20, ∀ play ∈
      (unitSystem ℕ ℕ SampleHandler).rounds Label.isTau [.tau] (script overtaking) k,
      play.2.state.calls.map Prod.fst ≠ [0, 1] := by
    decide +kernel
  obtain ⟨k, hk, hmem'⟩ := hplay.mem_rounds_lt Label.isTau_iff (n := 20) (by decide +kernel)
  exact hother k hk _ hmem' (halike.calls ▸ horder)

end Libasync.Promise
