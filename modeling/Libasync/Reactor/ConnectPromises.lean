import Libasync.Reactor.FailedConnect
import Libasync.Reactor.Holders

/-! # What a resolved promise of connect means

`connect` returns a resolved promise at once for every socket that is not idle. The other two ways
to a resolved promise come after the status `CONNECTED`. -/

namespace Libasync.Reactor

open Promise Socket Automaton

variable {V E F : Type*} [Blank V]

/-! ### What is to hold -/

/-- The status of the socket has been `CONNECTED` in the run. -/
def HasConnected (backend : Backend) (i : ℕ) (s : Config V E F) (ls : List Label) : Prop :=
  ∃ t, Visits (step backend) s ls t ∧ t.world.status? i = some .connected

/-- In the run a call of `connect` on the socket has returned the promise: at once, or after the
handlers of "connect". -/
inductive ConnectReturned (backend : Backend) (i : ℕ) (p : Ref) (s : Config V E F) :
    List Label → Prop where
  | atOnce {before answer after c c'} (reached : run (step backend) s before = some c)
      (call : step backend c (.connect i answer) = some c') (fresh : FreshIn c c' p) :
      ConnectReturned backend i p s (before ++ .connect i answer :: after)
  | afterHandlers {before answer during after c c₁ d}
      (reached : run (step backend) s before = some c)
      (call : step backend c (.connect i answer) = some c₁)
      (handlers : run (step backend) c₁ during = some d)
      (within : EachStep (step backend) (Config.within c.stack) c₁ during)
      (top : d.stack = .connectTail :: c.stack) (made : p = d.world.promises.heap.length) :
      ConnectReturned backend i p s (before ++ .connect i answer :: (during ++ .tau :: after))

/-- A promise of `connect` is resolved only if the socket has been connected. -/
def ResolvedMeansConnected (backend : Backend) (i : ℕ) (s : Config V E F) (ls : List Label)
    (c : Config V E F) : Prop :=
  ∀ p v, ConnectReturned backend i p s ls → c.world.promises.status? p = some (.resolved v) →
    HasConnected backend i s ls

/-- `connect` is called only while the socket is idle, or after it has been connected. -/
def ConnectsInTime (backend : Backend) (i : ℕ) (s : Config V E F) (ls : List Label) : Prop :=
  ∀ before answer after t, ls = before ++ .connect i answer :: after →
    run (step backend) s before = some t →
    t.world.status? i = some .idle ∨ HasConnected backend i s before

/-! ### A promise that waits -/

/-- The promise is pending, and only the handlers registered by `connect` on the socket hold its
context. -/
structure Config.Waits (i : ℕ) (p : Ref) (c : Config V E F) : Prop where
  pending : c.world.promises.status? p = some .pending
  held : ∀ holder, c.Holds p holder → holder = .handlers i

variable {backend : Backend} {c c' : Config V E F} {l : Label} {i : ℕ} {p : Ref}

/-- It waits until the socket is connected. -/
theorem Config.Waits.step (h : c.Waits i p) (hstep : Stepped backend c l c')
    (hnot : c'.world.status? i ≠ some .connected) : c'.Waits i p where
  pending := by
    apply hstep.stays_pending h.pending
    · intro hrunning
      cases h.held _ hrunning
    · rintro k - hqueue
      cases h.held _ hqueue
  held holder hholds := by
    rcases hstep.holds hholds with hold | ⟨hfresh, -⟩ | ⟨-, k, hold, hstatus⟩
    · exact h.held holder hold
    · exact absurd (lt_of_status? h.pending) (Nat.not_lt.mpr (Nat.le_of_eq hfresh.1.symm))
    · cases h.held _ hold
      exact absurd hstatus hnot

/-- The promise of a call that has to wait. -/
theorem Config.Waits.of_connect {answer : Answer} (hknown : c.Known)
    (hidle : c.world.status? i = some .idle)
    (hl : Reactor.step backend c (.connect i answer) = some c')
    (hfresh : FreshIn c c' p) : c'.Waits i p where
  pending := by
    obtain ⟨eff, hcall⟩ := (stepped hl).connect_call
    obtain ⟨hp, hlt⟩ := hfresh
    cases hget : c.world.sockets[i]? with
    | none => simp [World.connect, hget] at hcall
    | some sock =>
        have hstatus := World.status_eq hget hidle
        cases answer with
        | ret count =>
            simp only [World.connect, hget, hstatus, ne_eq, not_true_eq_false, if_false,
              Option.ite_none_right_eq_some, Option.some.injEq, Prod.mk.injEq] at hcall
            rw [hp, ← hcall.2.1] at hlt
            exact absurd hlt (Nat.lt_irrefl _)
        | err errno =>
            cases errno with
            | inProgress =>
                simp only [World.connect, hget, hstatus, ne_eq, not_true_eq_false, if_false,
                  Option.ite_none_right_eq_some, Option.some.injEq, Prod.mk.injEq] at hcall
                rw [hp, ← hcall.2.1]
                simp [World.modifySocket, State.status?_create]
            | again | wouldBlock | other code =>
                simp only [World.connect, hget, hstatus, ne_eq, not_true_eq_false, if_false,
                  Option.ite_none_right_eq_some, Option.some.injEq, Prod.mk.injEq] at hcall
                rw [hp, ← hcall.2.1] at hlt
                exact absurd hlt (Nat.lt_irrefl _)
  held holder hholds := by
    have hmakes := (stepped hl).makes_of_holds hknown hfresh.1 hholds
    cases holder with
    | handlers k =>
        obtain rfl : i = k := hmakes
        rfl
    | running | queue k => cases hmakes

/-! ### The three ways to a resolved promise -/

theorem HasConnected.of_prefix {s : Config V E F} {before ls : List Label}
    (h : HasConnected backend i s before) (hbefore : before <+: ls) :
    HasConnected backend i s ls := by
  obtain ⟨t, ⟨front, hfront, hrun⟩, hstatus⟩ := h
  exact ⟨t, ⟨front, hfront.trans hbefore, hrun⟩, hstatus⟩

theorem hasConnected_concat {s : Config V E F} {ls : List Label}
    (hrun : run (step backend) s ls = some c) (hl : step backend c l = some c') :
    HasConnected backend i s (ls ++ [l]) ↔
      HasConnected backend i s ls ∨ c'.world.status? i = some .connected := by
  constructor
  · rintro ⟨t, ⟨front, hfront, ht⟩, hstatus⟩
    rcases List.prefix_concat_iff.mp hfront with rfl | hfront
    · obtain rfl := Option.some.inj (ht.symm.trans (run_concat _ hrun hl))
      exact .inr hstatus
    · exact .inl ⟨t, ⟨front, hfront, ht⟩, hstatus⟩
  · rintro (h | hstatus)
    · exact h.of_prefix (List.prefix_append ls [l])
    · exact ⟨c', .last (run_concat _ hrun hl), hstatus⟩

theorem status?_resolvedVoid_self (s : State V E F) :
    s.resolvedVoid.1.status? s.heap.length = some (.resolved Blank.blank) := by
  have hpending : s.create.1.status? s.heap.length = some .pending := by
    rw [State.status?_create, if_pos rfl]
  exact State.settle_status? _ hpending

/-- `connect` does not look at the socket any further if it is not idle. -/
theorem connect_not_idle {answer : Answer} (hl : step backend c (.connect i answer) = some c')
    (hidle : c.world.status? i ≠ some .idle) :
    c'.world.promises = c.world.promises.resolvedVoid.1 ∧
      c'.world.status? i = c.world.status? i := by
  obtain ⟨eff, hcall⟩ := (stepped hl).connect_call
  cases hget : c.world.sockets[i]? with
  | none => simp [World.connect, hget] at hcall
  | some sock =>
      have hstatus : sock.status ≠ .idle := by
        rintro hstatus
        rw [World.status?_eq _ hget, hstatus] at hidle
        exact hidle rfl
      simp only [World.connect, hget, ne_eq, hstatus, not_false_eq_true, if_true,
        Option.some.injEq, Prod.mk.injEq] at hcall
      rw [← hcall.1]
      exact ⟨rfl, rfl⟩

/-- Only a connection that is there at once makes `connect` run handlers. -/
theorem connect_triggers {answer : Answer} (hl : step backend c (.connect i answer) = some c')
    (hidle : c.world.status? i = some .idle) (hlt : c.stack.length < c'.stack.length) :
    c'.world.status? i = some .connected := by
  cases stepped hl with
  | user w handlers rest l w' eff call =>
      rw [Config.after_world]
      cases answer with
      | ret count => exact World.connect_connected call hidle
      | err errno =>
          refine absurd hlt (Nat.not_lt.mpr (Nat.le_of_eq ?_))
          cases hget : w.sockets[i]? with
          | none => simp [userStep, World.connect, hget] at call
          | some sock =>
              have hstatus : sock.status = .idle := World.status_eq hget hidle
              cases errno <;>
                simp only [userStep, World.connect, hget, hstatus, ne_eq, not_true_eq_false,
                  if_false, Option.ite_none_right_eq_some, Option.some.injEq, Prod.mk.injEq] at call
              all_goals
                rw [← call.2.2]
                rfl
  | library w frame rest l w' eff piece => cases libraryStep_label piece

/-- A promise of a call on an idle socket, which the call returns at once, waits until the socket
is connected. -/
theorem hasConnected_of_resolved {s : Config V E F} {before after : List Label} {answer : Answer}
    {d : Config V E F} {v : V} (hknown : c.Known) (hidle : c.world.status? i = some .idle)
    (hbefore : run (step backend) s before = some c)
    (hl : step backend c (.connect i answer) = some c') (hfresh : FreshIn c c' p)
    (hafter : run (step backend) c' after = some d)
    (hresolved : d.world.promises.status? p = some (.resolved v)) :
    HasConnected backend i s (before ++ .connect i answer :: after) := by
  by_contra hnot
  have hguard : EachStep (step backend)
      (fun c l => ∀ c', step backend c l = some c' → c'.world.status? i ≠ some .connected)
      c' after := by
    rintro front l rest t rfl ht t' ht' hstatus
    refine hnot ⟨t', ⟨before ++ .connect i answer :: (front ++ [l]), by simp, ?_⟩, hstatus⟩
    rw [run_append, hbefore, Option.bind_some, run_cons, hl, Option.bind_some]
    exact run_concat _ ht ht'
  have hwaits : d.Waits i p := run_invariant
    (fun _ _ _ h hg hl => h.step (stepped hl) (hg _ hl)) (.of_connect hknown hidle hl hfresh)
    hguard hafter
  rw [hwaits.pending] at hresolved
  cases hresolved

/-- In every run a promise of `connect` is resolved only if the socket has been connected, exactly
when `connect` is called in time. -/
theorem connect_promise_means_connected_iff {ls : List Label}
    (hrun : run (step backend) {} ls = some c) :
    (∀ before c', before <+: ls →
      run (step backend) ({} : Config V E F) before = some c' →
        ResolvedMeansConnected backend i {} before c') ↔
      ConnectsInTime backend i ({} : Config V E F) ls := by
  constructor
  · rintro hall before answer after t rfl ht
    by_contra hlate
    obtain ⟨hidle, hnot⟩ := not_or.mp hlate
    obtain ⟨t₁, ht₁, hrest⟩ := run_append_eq_some _ hrun
    obtain rfl := Option.some.inj (ht.symm.trans ht₁)
    obtain ⟨t', hl, -⟩ := run_cons_eq_some _ hrest
    have hlonger := run_concat _ ht hl
    obtain ⟨hpromises, hstatus⟩ := connect_not_idle hl hidle
    have hresolved : t'.world.promises.status? t.world.promises.heap.length =
        some (.resolved Blank.blank) := by
      rw [hpromises]
      exact status?_resolvedVoid_self _
    have hreturned : ConnectReturned backend i t.world.promises.heap.length {}
        (before ++ [.connect i answer]) :=
      .atOnce ht hl ⟨rfl, lt_of_status? hresolved⟩
    have hconnected := hall _ t' ⟨after, by simp⟩ hlonger _ _ hreturned hresolved
    rcases (hasConnected_concat ht hl).mp hconnected with hconnected | hconnected
    · exact hnot hconnected
    · exact hnot ⟨t, .last ht, hstatus ▸ hconnected⟩
  · rintro hintime ls' d ⟨later, rfl⟩ hd p v hreturned hresolved
    cases hreturned with
    | atOnce reached call fresh =>
        rename_i before answer after t t'
        rcases hintime before answer (after ++ later) t (by simp) reached with hidle | hconnected
        · obtain ⟨t₁, ht₁, hrest⟩ := run_append_eq_some _ hd
          obtain rfl := Option.some.inj (reached.symm.trans ht₁)
          obtain ⟨t₂, ht₂, hafter⟩ := run_cons_eq_some _ hrest
          obtain rfl := Option.some.inj (call.symm.trans ht₂)
          have hknown : t.Known := run_invariant_of_step
            (fun _ _ _ h hl => h.step (stepped hl)) .initial reached
          exact hasConnected_of_resolved hknown hidle reached call fresh hafter hresolved
        · exact hconnected.of_prefix (List.prefix_append _ _)
    | afterHandlers reached call handlers within top made =>
        rename_i before answer during after t t₁ d'
        rcases hintime before answer (during ++ .tau :: after ++ later) t (by simp) reached with
          hidle | hconnected
        · have hlt : t.stack.length < t₁.stack.length := by
            cases during with
            | nil =>
                obtain rfl := Option.some.inj handlers
                simp [top]
            | cons l during => exact within.head
          refine ⟨t₁, ⟨before ++ [.connect i answer], by simp, run_concat _ reached call⟩, ?_⟩
          exact connect_triggers call hidle hlt
        · exact hconnected.of_prefix (List.prefix_append _ _)

/-- A second call after the connection has been established. -/
def patientConnect : List Label :=
  [.newSocket 3 none, .connect 0 (.err .inProgress), .poll [(⟨3, false, true⟩, .socket 0)], .tau,
    .soError (.ret 0), .handler, .return_, .tau, .connect 0 (.ret 0)]

theorem connect_promise_means_connected_iff_sample : ∃ c : Config ℕ ℕ SampleHandler,
    run (step .epoll) {} patientConnect = some c ∧
      ((∀ before c', before <+: patientConnect →
        run (step .epoll) ({} : Config ℕ ℕ SampleHandler) before = some c' →
          ResolvedMeansConnected .epoll 0 {} before c') ↔
        ConnectsInTime .epoll 0 ({} : Config ℕ ℕ SampleHandler) patientConnect) := by
  obtain ⟨c, hrun⟩ : ∃ c : Config ℕ ℕ SampleHandler,
    run (step .epoll) {} patientConnect = some c := ⟨_, rfl⟩
  exact ⟨c, hrun, connect_promise_means_connected_iff hrun⟩

/-- A second call while the first attempt is in progress. -/
def repeatedConnect : List Label :=
  [.newSocket 3 none, .connect 0 (.err .inProgress), .connect 0 (.ret 0)]

/-- The second call returns a resolved promise, and no connection has been established. -/
theorem second_connect_resolved : ∃ c : Config ℕ ℕ SampleHandler,
    run (step .epoll) {} repeatedConnect = some c ∧
      ConnectReturned .epoll 0 1 ({} : Config ℕ ℕ SampleHandler) repeatedConnect ∧
      c.world.promises.status? 1 = some (.resolved Blank.blank) ∧
      c.world.status? 0 = some .connecting ∧
      ¬ ResolvedMeansConnected .epoll 0 {} repeatedConnect c := by
  obtain ⟨c, d, hc, hd, hl, hmade, hresolved, hstatus⟩ : ∃ c d : Config ℕ ℕ SampleHandler,
      run (step .epoll) {} repeatedConnect = some c ∧
        run (step .epoll) {} (repeatedConnect.take 2) = some d ∧
        step .epoll d (.connect 0 (.ret 0)) = some c ∧ 1 = d.world.promises.heap.length ∧
        c.world.promises.status? 1 = some (.resolved Blank.blank) ∧
        c.world.status? 0 = some .connecting := ⟨_, _, rfl, rfl, rfl, rfl, rfl, rfl⟩
  have hreturned : ConnectReturned .epoll 0 1 ({} : Config ℕ ℕ SampleHandler) repeatedConnect :=
    ConnectReturned.atOnce hd hl ⟨hmade, lt_of_status? hresolved⟩
  have hnever : ∀ before ∈ repeatedConnect.inits,
      (run (step .epoll) ({} : Config ℕ ℕ SampleHandler) before).bind
        (fun t => t.world.status? 0) ≠ some .connected := by
    decide
  refine ⟨c, hc, hreturned, hresolved, hstatus, fun hmeans => ?_⟩
  obtain ⟨t, ⟨before, hbefore, ht⟩, hconnected⟩ := hmeans 1 _ hreturned hresolved
  refine hnever before ((List.mem_inits _ _).mpr hbefore) ?_
  rw [ht]
  exact hconnected

end Libasync.Reactor
