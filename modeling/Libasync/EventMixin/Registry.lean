import Libasync.EventMixin.Model
import Libasync.Foundation.History

/-! # The handler registry

What the mix-in is for: a registry that `on` adds to and `off` removes from, and in which `trigger`
finds the handlers of an event. `off` leaves the store as it is, so the code keeps to the registry
only as long as nobody asks for a handler that `off` should have removed. -/

namespace Libasync.EventMixin

open Automaton Foundation

/-- The handlers that are registered for an event, by their handles. -/
abbrev Registry (H : Type*) := String → ℕ → Option H

namespace Registry

variable {H : Type*}

def add (r : Registry H) (event : String) (handle : ℕ) (handler : H) : Registry H :=
  Function.update r event (Function.update (r event) handle (some handler))

def remove (r : Registry H) (event : String) (handle : ℕ) : Registry H :=
  Function.update r event (Function.update (r event) handle none)

theorem add_apply (r : Registry H) (event e : String) (handle n : ℕ) (handler : H) :
    r.add event handle handler e n =
      if e = event ∧ n = handle then some handler else r e n := by
  by_cases he : e = event
  · subst he
    by_cases hn : n = handle
    · simp [add, hn]
    · simp [add, hn]
  · simp [add, he]

theorem remove_apply (r : Registry H) (event e : String) (handle n : ℕ) :
    r.remove event handle e n = if e = event ∧ n = handle then none else r e n := by
  by_cases he : e = event
  · subst he
    by_cases hn : n = handle
    · simp [remove, hn]
    · simp [remove, hn]
  · simp [remove, he]

end Registry

variable {H A : Type*}

/-- The handlers that were registered by `on` and not removed by an `off` that has returned
true. -/
def registryOf (log : List (Happening H A)) : Registry H :=
  log.foldl (fun r h =>
    match h with
    | .on event handle handler => r.add event handle handler
    | .off event handle true => r.remove event handle
    | _ => r) fun _ _ => none

/-- The answers of a registry: `off` returns whether the handle is registered, and `trigger` goes
through the registered handlers of its event, each once. -/
def Answers (before : List (Happening H A)) : Happening H A → Prop
  | .off event handle result => result = (registryOf before event handle).isSome
  | .trigger _ event calls _ =>
      (calls.map Prod.fst).Nodup ∧
        ∀ handle handler, (handle, handler) ∈ calls ↔
          registryOf before event handle = some handler
  | _ => True

/-- The calls of a `trigger` that were made. -/
def calledBy (number : ℕ) (log : List (Happening H A)) : List ((ℕ × H) × A) :=
  log.filterMap fun h =>
    match h with
    | .call k handle handler arg => if k = number then some ((handle, handler), arg) else none
    | _ => none

/-- The answers are those of a registry, and `trigger` calls the handlers in turn with its argument:
all of them, unless one of them throws. -/
structure Config.RefinesRegistry (c : Config H A) : Prop where
  answers : AtEach Answers c.log
  calls : ∀ number event calls arg, .trigger number event calls arg ∈ c.log →
    calledBy number c.log <+: calls.map (·, arg) ∧
      (.finished number ∈ c.log → calledBy number c.log = calls.map (·, arg))

/-! ### Handlers that were taken back -/

def Happening.isOn (event : String) (handle : ℕ) : Happening H A → Bool
  | .on e n _ => decide (e = event ∧ n = handle)
  | _ => false

def Happening.isOff (event : String) (handle : ℕ) : Happening H A → Bool
  | .off e n _ => decide (e = event ∧ n = handle)
  | _ => false

/-- `off` was called with a handle that `on` had returned for the event before. -/
def withdrawn (log : List (Happening H A)) (event : String) (handle : ℕ) : Bool :=
  (log.dropWhile fun h => !h.isOn event handle).any (Happening.isOff event handle)

def anyWithdrawn (log : List (Happening H A)) (event : String) : Bool :=
  log.any fun h =>
    match h with
    | .off e handle _ => decide (e = event) && withdrawn log event handle
    | _ => false

/-- The call asks for a handler that was taken back: `trigger` for one of its event, or `off` for
its own. -/
def Config.asksWithdrawn (c : Config H A) : Label H A → Bool
  | .off event handle => withdrawn c.log event handle
  | .trigger event _ _ => anyWithdrawn c.log event
  | _ => false

theorem isOn_iff {event : String} {handle : ℕ} {h : Happening H A} :
    h.isOn event handle = true ↔ ∃ handler, h = .on event handle handler := by
  cases h with
  | on e n handler =>
      simp only [Happening.isOn, decide_eq_true_eq, Happening.on.injEq]
      constructor
      · rintro ⟨rfl, rfl⟩
        exact ⟨handler, rfl, rfl, rfl⟩
      · rintro ⟨handler', he, hn, -⟩
        exact ⟨he, hn⟩
  | _ => simp [Happening.isOn]

theorem any_isOn {log : List (Happening H A)} {event : String} {handle : ℕ} :
    log.any (Happening.isOn event handle) = true ↔ ∃ handler, .on event handle handler ∈ log := by
  rw [List.any_eq_true]
  constructor
  · rintro ⟨h, hmem, hon⟩
    obtain ⟨handler, rfl⟩ := isOn_iff.mp hon
    exact ⟨handler, hmem⟩
  · rintro ⟨handler, hmem⟩
    exact ⟨_, hmem, isOn_iff.mpr ⟨handler, rfl⟩⟩

theorem withdrawn_concat (log : List (Happening H A)) (h : Happening H A) (event : String)
    (handle : ℕ) :
    withdrawn (log ++ [h]) event handle =
      (withdrawn log event handle ||
        (log.any (Happening.isOn event handle) && h.isOff event handle)) := by
  simp only [withdrawn]
  induction log with
  | nil =>
      cases hon : h.isOn event handle with
      | true =>
          obtain ⟨handler, rfl⟩ := isOn_iff.mp hon
          simp [hon, Happening.isOff]
      | false => simp [hon]
  | cons first log ih =>
      cases hfirst : first.isOn event handle with
      | true => simp [hfirst, Bool.or_assoc]
      | false => simpa [hfirst] using ih

theorem exists_on_of_withdrawn {log : List (Happening H A)} {event : String} {handle : ℕ}
    (h : withdrawn log event handle = true) : ∃ handler, .on event handle handler ∈ log := by
  induction log using List.reverseRecOn with
  | nil => simp [withdrawn] at h
  | append_singleton log last ih =>
      rw [withdrawn_concat, Bool.or_eq_true, Bool.and_eq_true] at h
      rcases h with h | ⟨hon, -⟩
      · obtain ⟨handler, hmem⟩ := ih h
        exact ⟨handler, List.mem_append_left _ hmem⟩
      · obtain ⟨handler, hmem⟩ := any_isOn.mp hon
        exact ⟨handler, List.mem_append_left _ hmem⟩

theorem anyWithdrawn_eq_false {log : List (Happening H A)} {event : String} :
    anyWithdrawn log event = false ↔ ∀ handle, withdrawn log event handle = false := by
  constructor
  · intro h handle
    by_contra hwithdrawn
    rw [Bool.not_eq_false] at hwithdrawn
    obtain ⟨off, hmem, hoff⟩ := List.any_eq_true.mp hwithdrawn
    have hlog : off ∈ log := (List.dropWhile_suffix _).subset hmem
    have hnot := List.any_eq_false.mp h off hlog
    cases off with
    | off e n result =>
        simp only [Happening.isOff, decide_eq_true_eq] at hoff
        obtain ⟨rfl, rfl⟩ := hoff
        simp [hwithdrawn] at hnot
    | _ => simp [Happening.isOff] at hoff
  · intro h
    apply List.any_eq_false.mpr
    intro happening hmem
    cases happening <;> simp [h]

/-! ### The store -/

section Store

variable {data : EventMixinData H}

theorem handler?_on (event e : String) (handler : H) (n : ℕ) :
    (data.on event handler).1.store.handler? e n =
      if e = event ∧ n = data.counter then some handler else data.store.handler? e n := by
  simp only [EventMixinData.on, CompleteHandlerStore.handler?]
  by_cases he : e = event
  · subst he
    rw [Finmap.lookup_insert, Option.bind_some]
    by_cases hn : n = data.counter
    · subst hn
      simp [Finmap.lookup_insert]
    · rw [Finmap.lookup_insert_of_ne _ hn, if_neg (by simp [hn])]
      cases data.store.lookup e with
      | none => simp
      | some handlers => rfl
  · rw [Finmap.lookup_insert_of_ne _ he, if_neg (by simp [he])]

theorem off_result (event : String) (handle : ℕ) :
    (data.off event handle).2 = (data.store.handler? event handle).isSome := by
  simp only [EventMixinData.off, CompleteHandlerStore.eraseHandler, CompleteHandlerStore.handler?]
  cases data.store.lookup event with
  | none => rfl
  | some handlers =>
      cases hlookup : handlers.lookup handle <;> simp [hlookup]

theorem map_fst_sublist (handlers : EventHandlerStore H) (order : List ℕ) :
    ((order.filterMap fun n => (handlers.lookup n).map fun h => (n, h)).map Prod.fst).Sublist
      order := by
  induction order with
  | nil => simp
  | cons n order ih =>
      cases hlookup : handlers.lookup n with
      | none => simpa [hlookup] using ih.cons n
      | some handler => simpa [hlookup] using ih.cons_cons n

/-- `trigger` goes through the store of the event. -/
theorem mem_calls {event : String} {order : List ℕ} {calls : List (ℕ × H)}
    (h : data.calls event order = some calls) :
    (calls.map Prod.fst).Nodup ∧ ∀ handle handler, (handle, handler) ∈ calls ↔
      data.store.handler? event handle = some handler := by
  simp only [EventMixinData.calls] at h
  simp only [CompleteHandlerStore.handler?]
  cases hstore : data.store.lookup event with
  | none =>
      simp only [hstore, Option.ite_none_right_eq_some, Option.some.injEq] at h
      simp [← h.2]
  | some handlers =>
      simp only [hstore, Option.ite_none_right_eq_some, Option.some.injEq] at h
      obtain ⟨⟨hnodup, hkeys⟩, rfl⟩ := h
      have hmem (n : ℕ) : n ∈ order ↔ n ∈ handlers := by
        rw [← Finmap.mem_keys, ← hkeys, List.mem_toFinset]
      constructor
      · exact hnodup.sublist (map_fst_sublist handlers order)
      · intro handle handler
        simp only [List.mem_filterMap, Option.map_eq_some_iff, Option.bind_some]
        constructor
        · rintro ⟨n, -, h, hlookup, heq⟩
          obtain ⟨rfl, rfl⟩ := Prod.mk.inj heq
          exact hlookup
        · intro hlookup
          have hhandle := (hmem handle).mpr (Finmap.mem_of_lookup_eq_some hlookup)
          exact ⟨handle, hhandle, handler, hlookup, rfl⟩

end Store

/-! ### The store and the history -/

/-- The store has every handler that was ever registered, and the registry has those that were not
taken back. -/
structure Config.Stored (c : Config H A) : Prop where
  handle_lt : ∀ event handle handler, .on event handle handler ∈ c.log → handle < c.data.counter
  store : ∀ event handle handler,
    c.data.store.handler? event handle = some handler ↔ .on event handle handler ∈ c.log
  registry : ∀ event handle handler, registryOf c.log event handle = some handler ↔
    .on event handle handler ∈ c.log ∧ withdrawn c.log event handle = false

@[simp] theorem registryOf_nil : registryOf ([] : List (Happening H A)) = fun _ _ => none := rfl

theorem registryOf_concat (log : List (Happening H A)) (h : Happening H A) :
    registryOf (log ++ [h]) =
      match h with
      | .on event handle handler => (registryOf log).add event handle handler
      | .off event handle true => (registryOf log).remove event handle
      | _ => registryOf log := by
  simp only [registryOf, List.foldl_append, List.foldl_cons, List.foldl_nil]

namespace Config.Stored

variable {c : Config H A}

theorem initial : Config.Stored ({} : Config H A) :=
  ⟨by simp, by simp [CompleteHandlerStore.handler?], by simp⟩

/-- A call of `off` finds every handler that was ever registered. -/
theorem off_result (h : c.Stored) (event : String) (handle : ℕ) :
    (c.data.off event handle).2 = c.log.any (Happening.isOn event handle) := by
  rw [EventMixin.off_result, Bool.eq_iff_iff, any_isOn, Option.isSome_iff_exists]
  simp only [h.store]

/-- An entry of the history that is neither a registration nor a removal. -/
theorem neutral (h : c.Stored) {happening : Happening H A}
    (hon : ∀ event handle, happening.isOn event handle = false)
    (hoff : ∀ event handle, happening.isOff event handle = false) {numTriggers : ℕ}
    {stack : List (Frame H A)} :
    Config.Stored
      { c with
        numTriggers := numTriggers
        log := c.log ++ [happening]
        stack := stack } := by
  have hmem (event : String) (handle : ℕ) (handler : H) :
      .on event handle handler ∈ c.log ++ [happening] ↔ .on event handle handler ∈ c.log := by
    have hne : .on event handle handler ≠ happening := fun heq => by
      have hfalse := hon event handle
      rw [← heq] at hfalse
      simp [Happening.isOn] at hfalse
    simp [hne]
  have hregistry : registryOf (c.log ++ [happening]) = registryOf c.log := by
    rw [registryOf_concat]
    cases happening with
    | on event handle handler => simpa [Happening.isOn] using hon event handle
    | off event handle result => simpa [Happening.isOff] using hoff event handle
    | _ => rfl
  refine ⟨?_, ?_, ?_⟩
  · intro event handle handler hlog
    exact h.handle_lt event handle handler ((hmem event handle handler).mp hlog)
  · intro event handle handler
    rw [h.store event handle handler]
    exact (hmem event handle handler).symm
  · intro event handle handler
    dsimp only
    rw [hregistry, hmem, withdrawn_concat, hoff, Bool.and_false, Bool.or_false]
    exact h.registry event handle handler

theorem on (h : c.Stored) (event : String) (handler : H) :
    Config.Stored
      { c with
        data := (c.data.on event handler).1
        log := c.log ++ [.on event c.data.counter handler] } := by
  have hmem (e : String) (n : ℕ) (handler' : H) :
      .on e n handler' ∈ c.log ++ [.on event c.data.counter handler] ↔
        .on e n handler' ∈ c.log ∨ e = event ∧ n = c.data.counter ∧ handler' = handler := by
    simp
  have hfresh (e : String) (handler' : H) : .on e c.data.counter handler' ∉ c.log := fun hlog =>
    Nat.lt_irrefl _ (h.handle_lt e _ handler' hlog)
  have hwithdrawn (e : String) (n : ℕ) :
      withdrawn (c.log ++ [.on event c.data.counter handler]) e n = withdrawn c.log e n := by
    simp [withdrawn_concat, Happening.isOff]
  refine ⟨?_, ?_, ?_⟩
  · intro e n handler' hlog
    rcases (hmem e n handler').mp hlog with hold | ⟨-, rfl, -⟩
    · exact Nat.lt_succ_of_lt (h.handle_lt e n handler' hold)
    · exact Nat.lt_succ_self _
  · intro e n handler'
    dsimp only
    rw [handler?_on, hmem]
    by_cases hnew : e = event ∧ n = c.data.counter
    · rw [if_pos hnew]
      obtain ⟨rfl, rfl⟩ := hnew
      simp [hfresh, eq_comm]
    · rw [if_neg hnew, h.store e n handler']
      tauto
  · intro e n handler'
    dsimp only
    rw [registryOf_concat, hwithdrawn, hmem]
    dsimp only
    rw [Registry.add_apply]
    by_cases hnew : e = event ∧ n = c.data.counter
    · rw [if_pos hnew]
      obtain ⟨rfl, rfl⟩ := hnew
      have hnot : withdrawn c.log e c.data.counter = false := by
        by_contra hwas
        obtain ⟨handler', hlog⟩ := exists_on_of_withdrawn (by simpa using hwas)
        exact hfresh e handler' hlog
      simp [hfresh, hnot, eq_comm]
    · rw [if_neg hnew, h.registry e n handler']
      tauto

theorem off (h : c.Stored) (event : String) (handle : ℕ) :
    Config.Stored
      { c with log := c.log ++ [.off event handle (c.data.off event handle).2] } := by
  generalize hresult : (c.data.off event handle).2 = result
  rw [h.off_result] at hresult
  have hmem (e : String) (n : ℕ) (handler : H) :
      .on e n handler ∈ c.log ++ [.off event handle result] ↔ .on e n handler ∈ c.log := by
    simp
  refine ⟨?_, ?_, ?_⟩
  · intro e n handler hlog
    exact h.handle_lt e n handler ((hmem e n handler).mp hlog)
  · intro e n handler
    rw [h.store e n handler]
    exact (hmem e n handler).symm
  · intro e n handler
    dsimp only
    rw [registryOf_concat, withdrawn_concat, hmem]
    cases result with
    | true =>
        dsimp only
        rw [Registry.remove_apply]
        by_cases hsame : e = event ∧ n = handle
        · obtain ⟨rfl, rfl⟩ := hsame
          simp [hresult, Happening.isOff]
        · have hother : ¬ (event = e ∧ handle = n) := fun ⟨he, hn⟩ => hsame ⟨he.symm, hn.symm⟩
          rw [if_neg hsame, h.registry e n handler]
          simp [Happening.isOff, hother]
    | false =>
        dsimp only
        rw [h.registry e n handler]
        by_cases hsame : e = event ∧ n = handle
        · obtain ⟨rfl, rfl⟩ := hsame
          simp [hresult]
        · have hother : ¬ (event = e ∧ handle = n) := fun ⟨he, hn⟩ => hsame ⟨he.symm, hn.symm⟩
          simp [Happening.isOff, hother]

theorem step {c' : Config H A} {l : Label H A} (h : c.Stored) (hstep : Step c l c') :
    c'.Stored := by
  cases hstep with
  | on event handler rest stack => exact h.on event handler
  | off event handle rest stack => exact h.off event handle
  | trigger event arg order calls rest stack calls_eq =>
      exact h.neutral (by simp [Happening.isOn]) (by simp [Happening.isOff])
  | return_ frame rest stack => exact ⟨h.handle_lt, h.store, h.registry⟩
  | throw_ frame rest stack => exact ⟨h.handle_lt, h.store, h.registry⟩
  | call number handle handler calls arg rest stack =>
      exact h.neutral (by simp [Happening.isOn]) (by simp [Happening.isOff])
  | finish number arg rest stack =>
      exact h.neutral (by simp [Happening.isOn]) (by simp [Happening.isOff])

/-- `trigger` goes through the registered handlers exactly when none of its event was taken back. -/
theorem trigger_answers_iff (h : c.Stored) {event : String} {order : List ℕ}
    {calls : List (ℕ × H)} (hcalls : c.data.calls event order = some calls) (number : ℕ) (arg : A) :
    Answers c.log (.trigger number event calls arg) ↔ anyWithdrawn c.log event = false := by
  obtain ⟨hnodup, hmem⟩ := mem_calls hcalls
  simp only [Answers, hnodup, true_and, hmem, h.store, h.registry, anyWithdrawn_eq_false]
  constructor
  · intro hall handle
    by_contra hwithdrawn
    rw [Bool.not_eq_false] at hwithdrawn
    obtain ⟨handler, hlog⟩ := exists_on_of_withdrawn hwithdrawn
    have hnot := ((hall handle handler).mp hlog).2
    rw [hwithdrawn] at hnot
    cases hnot
  · intro hall handle handler
    simp [hall handle]

/-- A step answers like the registry exactly when it does not ask for a handler that was taken
back. -/
theorem answers_iff {c' : Config H A} {l : Label H A} (h : c.Stored)
    (hanswers : AtEach Answers c.log) (hstep : Step c l c') :
    AtEach Answers c'.log ↔ c.asksWithdrawn l = false := by
  cases hstep with
  | on event handler rest stack =>
      simp [atEach_concat, hanswers, Answers, Config.asksWithdrawn]
  | return_ frame rest stack | throw_ frame rest stack =>
      simp [hanswers, Config.asksWithdrawn]
  | call number handle handler calls arg rest stack =>
      simp [atEach_concat, hanswers, Answers, Config.asksWithdrawn]
  | finish number arg rest stack =>
      simp [atEach_concat, hanswers, Answers, Config.asksWithdrawn]
  | off event handle rest stack =>
      simp only [atEach_concat, hanswers, true_and, Answers, h.off_result, Config.asksWithdrawn]
      have hregistry : (registryOf c.log event handle).isSome =
          (c.log.any (Happening.isOn event handle) && !withdrawn c.log event handle) := by
        rw [Bool.eq_iff_iff, Option.isSome_iff_exists, Bool.and_eq_true, any_isOn]
        simp [h.registry]
      rw [hregistry]
      cases hwithdrawn : withdrawn c.log event handle with
      | false => simp
      | true =>
          have hon := any_isOn.mpr (exists_on_of_withdrawn hwithdrawn)
          simp [hon]
  | trigger event arg order calls rest stack calls_eq =>
      rw [atEach_concat, h.trigger_answers_iff calls_eq]
      simp [hanswers, Config.asksWithdrawn]

end Config.Stored

end Libasync.EventMixin
