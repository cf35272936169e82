import Libasync.Foundation.History
import Libasync.Generator.Calls

/-! # The protocol of a generator

The reference is a coroutine: code that has not started, that waits at a `yield`, or that has
ended. A call either resumes it and gets what it comes to, or is refused and changes nothing. -/

namespace Libasync.Generator

open Promise Foundation Automaton

variable {T IT E : Type*} [GeneratorError E]

/-! ## The reference coroutine -/

/-- What the executor comes to when it has control. -/
inductive Pause (T IT E : Type*) where
  | yielded (value : T) (resume : Except (Exn E) IT → Body T IT E)
  | returned (result : T)
  | failed (error : Exn E)

/-- Calls that the executor makes on its own generator throw. -/
def pause : Body T IT E → Pause T IT E
  | .ret result => .returned result
  | .raise error => .failed error
  | .ask (.yield value) k => .yielded value fun answer => k (answer.map .sent)
  | .ask (.next _) k | .ask (.throw_ _) k =>
      pause (k (.error (.object (GeneratorError.make .alreadyRunning))))

inductive Coroutine (T IT E : Type*) where
  | fresh (body : Body T IT E)
  | suspended (resume : Except (Exn E) IT → Body T IT E)
  | returned (result : T)
  | failed

namespace Coroutine

omit [GeneratorError E] in
/-- The code that a call resumes: the `yield` returns the value sent in, or throws the error. -/
def resumed? : Coroutine T IT E → Request T IT E → Option (Body T IT E)
  | .fresh body, .next _ => some body
  | .suspended resume, .next value => some (resume (.ok value))
  | .suspended resume, .throw_ error => some (resume (.error (eptrMake error)))
  | _, _ => none

omit [GeneratorError E] in
def status : Coroutine T IT E → GenStatus
  | .fresh _ => .pending
  | .suspended _ => .suspended
  | .returned _ | .failed => .done

end Coroutine

namespace Pause

omit [GeneratorError E] in
def coroutine : Pause T IT E → Coroutine T IT E
  | .yielded _ resume => .suspended resume
  | .returned result => .returned result
  | .failed _ => .failed

omit [GeneratorError E] in
/-- What the call gets that has resumed the executor. -/
def answer : Pause T IT E → Except (Exn E) (Answer T IT)
  | .yielded value _ => .ok (.out (some value))
  | .returned result => .ok (.out (some result))
  | .failed error => .error error

omit [GeneratorError E] in
def value? : Pause T IT E → Option T
  | .yielded value _ => some value
  | .returned _ | .failed _ => none

end Pause

/-- The coroutine, and the values that it has yielded so far. -/
structure Reference (T IT E : Type*) where
  coroutine : Coroutine T IT E
  yielded : List T := []

namespace Reference

def call (r : Reference T IT E) (request : Request T IT E) : Reference T IT E :=
  match r.coroutine.resumed? request with
  | some body => ⟨(pause body).coroutine, r.yielded ++ (pause body).value?.toList⟩
  | none => r

/-- The coroutine after the calls of a history. -/
def after (body : Body T IT E) (log : List (Entry T IT E)) : Reference T IT E :=
  log.foldl (fun r e => if e.inside then r else r.call e.request) ⟨.fresh body, []⟩

/-- What a call that does not resume the executor may get. After an exception there is nothing that
`next` could return, and in particular no value that was yielded to another call. -/
def Refuses (r : Reference T IT E) (request : Request T IT E)
    (answer : Except (Exn E) (Answer T IT)) : Prop :=
  match request, r.coroutine with
  | .yield _, _ => answer = .error (.object (GeneratorError.make .notRunning))
  | .throw_ error, _ => answer = .error error
  | .next _, .returned result => answer = .ok (.out (some result))
  | .next _, _ => ∀ value ∈ r.yielded, answer ≠ .ok (.out (some value))

/-- The protocol for one call. A call of the executor itself is refused because the generator is
running. A call from outside gets what the executor comes to, if it resumes it. A refused call
changes nothing. -/
def Expects (r : Reference T IT E) (e : Entry T IT E) : Prop :=
  if e.inside then
    e.before.status = .running ∧ e.after = e.before ∧
      e.answer = .error (.object (GeneratorError.make .alreadyRunning))
  else
    e.before.status = r.coroutine.status ∧
      e.after.status = (r.call e.request).coroutine.status ∧
      match r.coroutine.resumed? e.request with
      | some body => e.answer = (pause body).answer
      | none => e.after = e.before ∧ r.Refuses e.request e.answer

end Reference

/-- Every call is answered as the protocol says. -/
def Config.FollowsProtocol (c : Config T IT E) (body : Body T IT E) : Prop :=
  AtEach (fun before e => (Reference.after body before).Expects e) c.log

/-- `next` is called after an exception has ended an executor that had yielded before. -/
def Config.asksFailed (c : Config T IT E) : Request T IT E → Bool
  | .next _ => decide (c.data.status = .done) && c.data.error.isSome && c.data.outVal.isSome
  | _ => false

/-! ### The slots of a generator -/

/-- The data of a generator and the coroutine that it stands for. -/
inductive Corresponds (r : Reference T IT E) (data : Gen T IT E) : Prop where
  | fresh (body) (coroutine : r.coroutine = .fresh body) (status : data.status = .pending)
      (genCtx : data.genCtx = none) (executor : data.executor = body)
      (error : data.error = none) (outVal : data.outVal = r.yielded.getLast?)
  | suspended (resume) (coroutine : r.coroutine = .suspended resume)
      (status : data.status = .suspended) (genCtx : data.genCtx = some resume)
      (error : data.error = none) (outVal : data.outVal = r.yielded.getLast?)
  | returned (result) (coroutine : r.coroutine = .returned result) (status : data.status = .done)
      (error : data.error = none) (outVal : data.outVal = some result)
  | failed (error) (coroutine : r.coroutine = .failed) (status : data.status = .done)
      (error_eq : data.error = some error) (outVal : data.outVal = r.yielded.getLast?)

omit [GeneratorError E] in
theorem Corresponds.start (body : Body T IT E) :
    Corresponds ⟨.fresh body, []⟩ (Config.start body).data :=
  .fresh body rfl rfl rfl rfl rfl rfl

omit [GeneratorError E] in
theorem Corresponds.status_eq {r : Reference T IT E} {data : Gen T IT E}
    (h : Corresponds r data) : data.status = r.coroutine.status := by
  cases h with
  | fresh body coroutine status | suspended resume coroutine status
  | returned result coroutine status | failed error coroutine status =>
      rw [coroutine, status]
      rfl

/-! ### The executor has control -/

/-- While the generator is running its executor cannot resume it. -/
theorem callInside_running {data : Gen T IT E} (hstatus : data.status = .running)
    {request : Request T IT E} (hrequest : ∀ value, request ≠ .yield value) :
    data.callInside request = some (.error (.object (GeneratorError.make .alreadyRunning))) := by
  cases request with
  | yield value => exact absurd rfl (hrequest value)
  | next value => simp [GenData.callInside, GenData.next, hstatus, Sent.answer?]
  | throw_ error => simp [GenData.callInside, GenData.throw_, hstatus, Sent.answer?]

theorem runBody_yield {data : Gen T IT E} (hstatus : data.status = .running) (value : T)
    (k : Except (Exn E) (Answer T IT) → Body T IT E) :
    data.runBody (.ask (.yield value) k) =
      some
        ({ data with
            outVal := some value
            status := .suspended
            genCtx := some fun answer => k (answer.map .sent) }, []) := by
  simp only [GenData.runBody, GenData.yield_of_running hstatus]

/-- The executor goes on with the refusal of a call of its own. -/
theorem runBody_inside {data : Gen T IT E} (hstatus : data.status = .running)
    {request : Request T IT E} (hrequest : ∀ value, request ≠ .yield value)
    (k : Except (Exn E) (Answer T IT) → Body T IT E) :
    data.runBody (.ask request k) =
      (data.runBody (k (.error (.object (GeneratorError.make .alreadyRunning))))).map
        fun (after, entries) => (after, ⟨true, request,
          .error (.object (GeneratorError.make .alreadyRunning)), data, data⟩ :: entries) := by
  have hcall := callInside_running hstatus hrequest
  cases request with
  | yield value => exact absurd rfl (hrequest value)
  | next value => simp only [GenData.runBody, hcall]
  | throw_ error => simp only [GenData.runBody, hcall]

theorem pause_inside {request : Request T IT E} (hrequest : ∀ value, request ≠ .yield value)
    (k : Except (Exn E) (Answer T IT) → Body T IT E) :
    pause (.ask request k) =
      pause (k (.error (.object (GeneratorError.make .alreadyRunning)))) := by
  cases request with
  | yield value => exact absurd rfl (hrequest value)
  | next value => rfl
  | throw_ error => rfl

/-- What is left behind when the executor gives control back. -/
structure Paused (r : Reference T IT E) (body : Body T IT E) (after : Gen T IT E)
    (entries : List (Entry T IT E)) : Prop where
  corresponds : Corresponds ⟨(pause body).coroutine, r.yielded ++ (pause body).value?.toList⟩ after
  result : after.result = (pause body).answer
  inside : ∀ e ∈ entries, e.inside = true
  refused : ∀ e ∈ entries, ∀ r : Reference T IT E, r.Expects e

/-- The executor comes to the pause of the reference. -/
theorem runBody_paused (r : Reference T IT E) {data : Gen T IT E} (body : Body T IT E)
    (hstatus : data.status = .running) (herror : data.error = none)
    (houtVal : data.outVal = r.yielded.getLast?) :
    ∃ after entries, data.runBody body = some (after, entries) ∧ Paused r body after entries := by
  induction body with
  | ret result =>
      refine ⟨_, _, rfl, .returned result rfl rfl herror rfl, ?_, by simp, by simp⟩
      simp [GenData.finish, GenData.result, herror, pause, Pause.answer]
  | raise error =>
      refine ⟨_, _, rfl, .failed error rfl rfl rfl ?_, ?_, by simp, by simp⟩
      · simp [GenData.fail, houtVal, pause, Pause.value?]
      · simp [GenData.fail, GenData.result, pause, Pause.answer]
  | ask request k ih =>
      by_cases hyield : ∃ value, request = .yield value
      · obtain ⟨value, rfl⟩ := hyield
        refine ⟨_, [], runBody_yield hstatus value k, .suspended _ rfl rfl rfl herror ?_, ?_,
          by simp, by simp⟩
        · simp [pause, Pause.value?]
        · simp [GenData.result, pause, Pause.answer]
      · have hrequest : ∀ value, request ≠ .yield value := fun value h => hyield ⟨value, h⟩
        obtain ⟨after, entries, hrun, hpaused⟩ :=
          ih (.error (.object (GeneratorError.make .alreadyRunning)))
        have hbody := runBody_inside hstatus hrequest k
        rw [hrun] at hbody
        refine ⟨after, _, hbody, ?_, ?_, ?_, ?_⟩
        · rw [pause_inside hrequest]
          exact hpaused.corresponds
        · rw [pause_inside hrequest]
          exact hpaused.result
        · intro e he
          rcases List.mem_cons.mp he with rfl | he
          · rfl
          · exact hpaused.inside e he
        · intro e he r
          rcases List.mem_cons.mp he with rfl | he
          · exact ⟨hstatus, rfl, rfl⟩
          · exact hpaused.refused e he r

/-! ### Calls from outside -/

/-- A call from outside and the data that it leaves. -/
structure Called (r : Reference T IT E) (data : Gen T IT E) (request : Request T IT E)
    (after : Gen T IT E) (entries : List (Entry T IT E))
    (answer : Except (Exn E) (Answer T IT)) : Prop where
  corresponds : Corresponds (r.call request) after
  inside : ∀ e ∈ entries, e.inside = true
  refused : ∀ e ∈ entries, ∀ r : Reference T IT E, r.Expects e
  expected : r.Expects ⟨false, request, answer, data, after⟩

theorem run_called {r : Reference T IT E} {data sent entered : Gen T IT E}
    (request : Request T IT E) {body : Body T IT E} (h : Corresponds r data)
    (hresumed : r.coroutine.resumed? request = some body)
    (henter : sent.enter = some (entered, body)) (hstatus : entered.status = .running)
    (herror : entered.error = none) (houtVal : entered.outVal = r.yielded.getLast?) :
    ∃ after entries answer, sent.runGenerator = some (after, entries, answer) ∧
      Called r data request after entries answer := by
  obtain ⟨after, entries, hrun, hpaused⟩ := runBody_paused r body hstatus herror houtVal
  have hcall : r.call request =
      ⟨(pause body).coroutine, r.yielded ++ (pause body).value?.toList⟩ := by
    simp [Reference.call, hresumed]
  refine ⟨after, entries, after.result, ?_, ?_, hpaused.inside, hpaused.refused, ?_⟩
  · simp [GenData.runGenerator, henter, hrun]
  · rw [hcall]
    exact hpaused.corresponds
  · refine ⟨h.status_eq, ?_, ?_⟩
    · rw [hcall]
      exact hpaused.corresponds.status_eq
    · simp only [hresumed]
      exact hpaused.result

theorem expects_refused {r : Reference T IT E} {request : Request T IT E}
    {answer : Except (Exn E) (Answer T IT)} {before after : Gen T IT E}
    (hresumed : r.coroutine.resumed? request = none) :
    r.Expects ⟨false, request, answer, before, after⟩ ↔
      before.status = r.coroutine.status ∧ after.status = r.coroutine.status ∧ after = before ∧
        r.Refuses request answer := by
  have hcall : r.call request = r := by
    simp [Reference.call, hresumed]
  simp [Reference.Expects, hresumed, hcall]

theorem refused_called {r : Reference T IT E} {data : Gen T IT E} (request : Request T IT E)
    (answer : Except (Exn E) (Answer T IT)) (h : Corresponds r data)
    (hresumed : r.coroutine.resumed? request = none) (hanswer : r.Refuses request answer) :
    Called r data request data [] answer := by
  have hcall : r.call request = r := by
    simp [Reference.call, hresumed]
  refine ⟨?_, by simp, by simp, ?_⟩
  · rw [hcall]
    exact h
  · exact (expects_refused hresumed).mpr ⟨h.status_eq, h.status_eq, rfl, hanswer⟩

theorem call_yield {r : Reference T IT E} {data : Gen T IT E} (h : Corresponds r data)
    (value : T) :
    data.call (.yield value) =
      some (data, [], .error (.object (GeneratorError.make .notRunning))) := by
  have hstatus : data.status ≠ .running := by
    cases h with
    | fresh body coroutine status | suspended resume coroutine status
    | returned result coroutine status | failed error coroutine status => simp [status]
  simp [GenData.call, GenData.yield_, hstatus]

theorem call_next {r : Reference T IT E} {data : Gen T IT E} (h : Corresponds r data)
    (hcoroutine : r.coroutine ≠ .failed) (value : IT) : ∃ after entries answer,
      data.call (.next value) = some (after, entries, answer) ∧
        Called r data (.next value) after entries answer := by
  cases h with
  | fresh body coroutine status genCtx executor error outVal =>
      let sent : Gen T IT E := { data with inVal := some value, status := .running }
      have henter : sent.enter = some (sent, body) := by
        simp [sent, GenData.enter, genCtx, executor]
      obtain ⟨after, entries, answer, hrun, hcalled⟩ :=
        run_called (.next value) (.fresh body coroutine status genCtx executor error outVal)
          (by rw [coroutine]; rfl) henter rfl error outVal
      refine ⟨after, entries, answer, ?_, hcalled⟩
      simp only [GenData.call, GenData.next, status]
      exact hrun
  | suspended resume coroutine status genCtx error outVal =>
      let sent : Gen T IT E := { data with inVal := some value, status := .running }
      have henter : sent.enter = some (sent, resume (.ok value)) := by
        simp [sent, GenData.enter, genCtx]
      obtain ⟨after, entries, answer, hrun, hcalled⟩ :=
        run_called (.next value) (.suspended resume coroutine status genCtx error outVal)
          (by rw [coroutine]; rfl) henter rfl error outVal
      refine ⟨after, entries, answer, ?_, hcalled⟩
      simp only [GenData.call, GenData.next, status]
      exact hrun
  | returned result coroutine status error outVal =>
      have hcalled := refused_called (.next value) (.ok (.out data.outVal))
        (.returned result coroutine status error outVal) (by rw [coroutine]; rfl)
        (by simp [Reference.Refuses, coroutine, outVal])
      refine ⟨data, [], .ok (.out data.outVal), ?_, hcalled⟩
      simp [GenData.call, GenData.next, status, GenData.send]
  | failed error coroutine => exact absurd coroutine hcoroutine

/-- After an exception `next` returns what is left in `out_val`. -/
theorem call_next_failed {r : Reference T IT E} {data : Gen T IT E} (h : Corresponds r data)
    (hcoroutine : r.coroutine = .failed) (value : IT) :
    data.call (.next value) = some (data, [], .ok (.out r.yielded.getLast?)) := by
  cases h with
  | failed error coroutine status error_eq outVal =>
      simp [GenData.call, GenData.next, status, GenData.send, outVal]
  | fresh body coroutine | suspended resume coroutine | returned result coroutine =>
      rw [coroutine] at hcoroutine
      cases hcoroutine

theorem call_throw {r : Reference T IT E} {data : Gen T IT E} (h : Corresponds r data)
    (error : Exn E) : ∃ after entries answer,
      data.call (.throw_ error) = some (after, entries, answer) ∧
        Called r data (.throw_ error) after entries answer := by
  by_cases hsuspended : ∃ resume, r.coroutine = .suspended resume
  · obtain ⟨resume, hcoroutine⟩ := hsuspended
    cases h with
    | suspended resume' coroutine status genCtx error_eq outVal =>
        obtain rfl : resume' = resume :=
          Coroutine.suspended.inj (coroutine.symm.trans hcoroutine)
        let sent : Gen T IT E :=
          { data with inVal := none, error := some (eptrMake error), status := .running }
        have henter : sent.enter = some ({ sent with error := none },
            resume' (.error (eptrMake error))) := by
          simp [sent, GenData.enter, genCtx]
        obtain ⟨after, entries, answer, hrun, hcalled⟩ :=
          run_called (.throw_ error) (.suspended resume' coroutine status genCtx error_eq outVal)
            (by rw [coroutine]; rfl) henter rfl rfl outVal
        refine ⟨after, entries, answer, ?_, hcalled⟩
        simp only [GenData.call, GenData.throw_, status]
        exact hrun
    | fresh body coroutine | returned result coroutine | failed error' coroutine =>
        rw [coroutine] at hcoroutine
        cases hcoroutine
  · have hresumed : r.coroutine.resumed? (.throw_ error) = none := by
      cases hcoroutine : r.coroutine with
      | suspended resume => exact absurd ⟨resume, hcoroutine⟩ hsuspended
      | fresh body | returned result | failed => rfl
    have hcalled := refused_called (.throw_ error) (.error error) h hresumed rfl
    refine ⟨data, [], .error error, ?_, hcalled⟩
    have hstatus : data.status = .pending ∨ data.status = .done := by
      cases h with
      | suspended resume coroutine => exact absurd ⟨resume, coroutine⟩ hsuspended
      | fresh body coroutine status => exact .inl status
      | returned result coroutine status | failed error' coroutine status => exact .inr status
    rcases hstatus with hstatus | hstatus
    · simp [GenData.call, GenData.throw_, hstatus, GenData.send]
    · simp [GenData.call, GenData.throw_, hstatus, GenData.send]

/-! ### Runs -/

section History

variable {body : Body T IT E} {log entries : List (Entry T IT E)}

theorem after_concat_outside {request : Request T IT E} {answer : Except (Exn E) (Answer T IT)}
    {before after : Gen T IT E} :
    Reference.after body (log ++ [⟨false, request, answer, before, after⟩]) =
      (Reference.after body log).call request := by
  simp [Reference.after]

theorem after_append_inside (hentries : ∀ e ∈ entries, e.inside = true) :
    Reference.after body (log ++ entries) = Reference.after body log := by
  induction entries generalizing log with
  | nil => simp
  | cons e entries ih =>
      have he : e.inside = true := hentries e (by simp)
      have hrest : ∀ e ∈ entries, e.inside = true := fun e hmem => hentries e (by simp [hmem])
      have hone : Reference.after body (log ++ [e]) = Reference.after body log := by
        simp [Reference.after, he]
      rw [List.append_cons, ih hrest, hone]

end History

/-- The data of a run stand for the coroutine of the calls made so far. -/
def Config.Simulates (c : Config T IT E) (body : Body T IT E) : Prop :=
  Corresponds (Reference.after body c.log) c.data

theorem Config.Simulates.asksFailed {c : Config T IT E} {body : Body T IT E}
    (h : c.Simulates body) (value : IT) :
    c.asksFailed (.next value) = true ↔ (Reference.after body c.log).coroutine = .failed ∧
      (Reference.after body c.log).yielded ≠ [] := by
  simp only [Config.asksFailed, Bool.and_eq_true, decide_eq_true_eq]
  cases h with
  | fresh body' coroutine status | suspended resume coroutine status =>
      simp [status, coroutine]
  | returned result coroutine status error => simp [error, coroutine]
  | failed error coroutine status error_eq outVal =>
      rw [outVal, List.getLast?_isSome]
      simp [status, error_eq, coroutine]

/-- A call that is answered as the protocol says. -/
theorem step_called {c : Config T IT E} {body : Body T IT E} {request : Request T IT E}
    {after : Gen T IT E} {entries : List (Entry T IT E)}
    {answer : Except (Exn E) (Answer T IT)}
    (hcall : c.data.call request = some (after, entries, answer))
    (hcalled : Called (Reference.after body c.log) c.data request after entries answer) :
    ∃ c', step c request = some c' ∧ c'.Simulates body ∧
      (c.FollowsProtocol body → c'.FollowsProtocol body) := by
  refine ⟨_, by rw [step, hcall]; rfl, ?_, ?_⟩
  · rw [Config.Simulates]
    dsimp only
    rw [after_concat_outside, after_append_inside hcalled.inside]
    exact hcalled.corresponds
  · intro hfollows
    refine atEach_concat.mpr ⟨?_, ?_⟩
    · exact hfollows.append fun e he before => hcalled.refused e he _
    · rw [after_append_inside hcalled.inside]
      exact hcalled.expected

/-- Every call from outside comes back. -/
theorem Config.Simulates.call {c : Config T IT E} {body : Body T IT E} (h : c.Simulates body)
    (request : Request T IT E) : ∃ c', step c request = some c' ∧ c'.Simulates body ∧
      (c.FollowsProtocol body →
        (c'.FollowsProtocol body ↔ c.asksFailed request = false)) := by
  have hcalled {request : Request T IT E} (hasks : c.asksFailed request = false)
      (hcall : ∃ after entries answer, c.data.call request = some (after, entries, answer) ∧
        Called (Reference.after body c.log) c.data request after entries answer) :
      ∃ c', step c request = some c' ∧ c'.Simulates body ∧
        (c.FollowsProtocol body →
          (c'.FollowsProtocol body ↔ c.asksFailed request = false)) := by
    obtain ⟨after, entries, answer, hcall, hcalled⟩ := hcall
    obtain ⟨c', hstep, hsimulates, hfollows⟩ := step_called hcall hcalled
    exact ⟨c', hstep, hsimulates, fun hc => ⟨fun _ => hasks, fun _ => hfollows hc⟩⟩
  cases request with
  | yield value =>
      apply hcalled rfl
      have hresumed : (Reference.after body c.log).coroutine.resumed? (.yield value) = none := by
        cases (Reference.after body c.log).coroutine <;> rfl
      exact ⟨_, _, _, call_yield h value, refused_called _ _ h hresumed rfl⟩
  | throw_ error => exact hcalled rfl (call_throw h error)
  | next value =>
      by_cases hfailed : (Reference.after body c.log).coroutine = .failed
      · have hresumed : (Reference.after body c.log).coroutine.resumed? (.next value) = none := by
          rw [hfailed]
          rfl
        have hsame : (Reference.after body c.log).call (.next value) =
            Reference.after body c.log := by
          simp [Reference.call, hresumed]
        refine ⟨_, by rw [step, call_next_failed h hfailed]; rfl, ?_, ?_⟩
        · rw [Config.Simulates]
          dsimp only
          rw [List.append_nil, after_concat_outside, hsame]
          exact h
        · intro hfollows
          have hasks : c.asksFailed (.next value) = false ↔
              (Reference.after body c.log).yielded = [] := by
            rw [← Bool.not_eq_true, h.asksFailed]
            simp [hfailed]
          rw [hasks, Config.FollowsProtocol]
          dsimp only
          rw [List.append_nil, atEach_concat]
          rw [expects_refused hresumed]
          simp only [Reference.Refuses, hfailed]
          constructor
          · rintro ⟨-, -, -, -, hanswer⟩
            by_contra hyielded
            apply hanswer _ (List.getLast_mem hyielded)
            rw [List.getLast?_eq_some_getLast hyielded]
          · intro hyielded
            have hstatus : c.data.status = (Coroutine.failed : Coroutine T IT E).status := by
              rw [← hfailed]
              exact h.status_eq
            exact ⟨hfollows, hstatus, hstatus, trivial, by simp [hyielded]⟩
      · apply hcalled ?_ (call_next h hfailed value)
        rw [← Bool.not_eq_true, h.asksFailed]
        exact fun hboth => hfailed hboth.1

theorem step_log {c c' : Config T IT E} {request : Request T IT E}
    (h : step c request = some c') : c.log <+: c'.log := by
  obtain ⟨⟨data, entries, answer⟩, -, rfl⟩ := Option.map_eq_some_iff.mp h
  exact (List.prefix_append _ _).trans (List.prefix_append _ _)

theorem Config.Simulates.calls {c : Config T IT E} {body : Body T IT E} (h : c.Simulates body)
    (requests : List (Request T IT E)) : ∃ c', run step c requests = some c' := by
  induction requests generalizing c with
  | nil => exact ⟨c, rfl⟩
  | cons request requests ih =>
      obtain ⟨c₁, hstep, hsimulates, -⟩ := h.call request
      obtain ⟨c', hrun⟩ := ih hsimulates
      refine ⟨c', ?_⟩
      rw [run_cons, hstep]
      exact hrun

/-- Every call of every sequence of calls on a generator comes back, whatever its executor does, and
all calls are answered as the protocol says exactly when `next` is not called after an exception
has ended an executor that had yielded before. -/
theorem follows_protocol_iff (body : Body T IT E) (requests : List (Request T IT E)) :
    ∃ c, run step (Config.start body) requests = some c ∧
      (c.FollowsProtocol body ↔
        EachStep step (fun c request => c.asksFailed request = false) (Config.start body)
          requests) := by
  have hstart : (Config.start body).Simulates body := Corresponds.start body
  obtain ⟨c, hrun⟩ := Config.Simulates.calls hstart requests
  refine ⟨c, hrun, ?_⟩
  have hiff : EachStep step (fun c request => c.asksFailed request = false) (Config.start body)
      requests ↔ ¬ ¬ c.FollowsProtocol body := by
    refine eachStep_iff_not (I := fun c => c.Simulates body ∧ c.FollowsProtocol body)
      (B := fun c => ¬ c.FollowsProtocol body) ?_ ?_ ?_ ?_ ⟨hstart, atEach_nil _⟩ hrun
    · rintro c request c' ⟨hsimulates, hfollows⟩ hguard hl
      obtain ⟨c₁, hstep, hsimulates', hiff⟩ := hsimulates.call request
      obtain rfl := Option.some.inj (hstep.symm.trans hl)
      exact ⟨hsimulates', (hiff hfollows).mpr hguard⟩
    · rintro c request c' ⟨hsimulates, hfollows⟩ hguard hl hfollows'
      obtain ⟨c₁, hstep, hsimulates', hiff⟩ := hsimulates.call request
      obtain rfl := Option.some.inj (hstep.symm.trans hl)
      exact hguard ((hiff hfollows).mp hfollows')
    · intro c request c' hbad hl hfollows'
      exact hbad (AtEach.of_prefix hfollows' (step_log hl))
    · rintro c ⟨-, hfollows⟩ hbad
      exact hbad hfollows
  rw [hiff, not_not]

/-- An executor that yields once and then throws. -/
def yieldThenThrow : Body ℕ ℕ Reason :=
  .ask (.yield 1) fun _ => .raise .badCast

/-- The third call returns the value that was yielded to the first one. -/
theorem yieldThenThrow_returns_again : ∃ c : Config ℕ ℕ Reason,
    run step (Config.start yieldThenThrow) [.next 0, .next 0, .next 0] = some c ∧
      c.log.map Entry.answer = [.ok (.out (some 1)), .error .badCast, .ok (.out (some 1))] ∧
        ¬ c.FollowsProtocol yieldThenThrow := by
  refine ⟨_, rfl, rfl, ?_⟩
  intro hfollows
  have hthird := hfollows [_, _] _ [] rfl
  exact hthird.2.2.2 1 (List.mem_singleton.mpr rfl) rfl

end Libasync.Generator
