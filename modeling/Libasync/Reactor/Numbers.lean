import Libasync.Reactor.Reachable

/-! # The number of a socket

A socket is opened, registered and reported under one number, which it keeps until `close` takes
it away. -/

namespace Libasync.Reactor

open Promise Socket

variable {V E F : Type*}

/-- The socket has this number, or none any more. -/
def World.HasNumber (w : World V E F) (i : ℕ) (n : Fd) : Prop :=
  ∃ fd, w.fd? i = some fd ∧ (fd = n ∨ fd = -1)

/-- Descriptors, entries and reported events of the socket have its number. A socket without a
number was closed. -/
structure World.Numbered (w : World V E F) (i : ℕ) : Prop where
  valid : ∀ fd status, w.core? i = some (fd, status) →
    0 ≤ fd ∨ fd = -1 ∧ (status = .halfClosed ∨ status = .closed)
  opened : ∀ n, w.descriptors n = some (some (.socket i)) → w.HasNumber i n
  registered : ∀ n, w.table n = some (some (.socket i)) → w.HasNumber i n
  reported : ∀ e ∈ w.events, e.2 = .socket i → w.HasNumber i e.1.fd

/-- The number of a socket does not change until the socket has none. -/
theorem Change.hasNumber {P : Permits} {w w' : World V E F} (hc : Change P w w') {i : ℕ} {n : Fd}
    (h : w.HasNumber i n) : w'.HasNumber i n := by
  obtain ⟨fd, hfd, hn⟩ := h
  obtain ⟨status, hcore⟩ := World.fd?_eq_some.mp hfd
  have hsame {status₁ status₂ : Status} {fd₁ : Fd} (before : w.core? i = some (fd₁, status₁))
      (core : w'.core? i = some (fd₁, status₂)) : w'.HasNumber i n := by
    obtain ⟨rfl, -⟩ := Prod.mk.inj (Option.some.inj (hcore.symm.trans before))
    exact ⟨fd, World.fd?_eq_some.mpr ⟨_, core⟩, hn⟩
  cases hc.core i with
  | same core => exact hsame hcore (core.trans hcore)
  | added fd₁ status₁ none => simp [none] at hcore
  | halfClosed fd₁ before core => exact ⟨-1, World.fd?_eq_some.mpr ⟨_, core⟩, .inr rfl⟩
  | advanced fd₁ status₁ status₂ before core | fullClosed fd₁ before core
  | eofAgain fd₁ before core | eofFirst fd₁ status₁ before core => exact hsame before core

theorem Change.core?_ne_none {P : Permits} {w w' : World V E F} (hc : Change P w w') {i : ℕ}
    (h : w.core? i ≠ none) : w'.core? i ≠ none := by
  intro hnone
  cases hc.core i with
  | same core => exact h (core.symm.trans hnone)
  | added fd status none core => exact h none
  | advanced fd status status' before core | halfClosed fd before core
  | fullClosed fd before core | eofAgain fd before core
  | eofFirst fd status before core => simp [core] at hnone

/-- An entry that an update leaves was there, or it is the new one. -/
theorem update_entry {entries : Fd → Option (Option Target)} {fd n : Fd}
    {entry : Option (Option Target)} {t : Target}
    (h : Function.update entries fd entry n = some (some t)) :
    entries n = some (some t) ∨ n = fd ∧ entry = some (some t) := by
  by_cases hn : n = fd
  · subst hn
    rw [Function.update_self] at h
    exact .inr ⟨rfl, h⟩
  · rw [Function.update_of_ne hn] at h
    exact .inl h

theorem World.added_number {w : World V E F} {fd n : Fd} {status : Status} {i : ℕ} {old : Prop}
    (h : old ∨ n = fd ∧ some (some (Target.socket w.sockets.length)) = some (some (.socket i))) :
    old ∨ w.core? i = none ∧ (w.addSocket fd status).fd? i = some n := by
  refine h.imp_right ?_
  rintro ⟨rfl, hi⟩
  obtain rfl : w.sockets.length = i := by simpa using hi
  refine ⟨by simp [core?], ?_⟩
  rw [fd?, core?_addSocket_self]
  rfl

/-- A number is opened for new objects only. -/
theorem Change.descriptor_inv {P : Permits} {w w' : World V E F} (hc : Change P w w') {i : ℕ}
    {n : Fd} (h : w'.descriptors n = some (some (.socket i))) :
    w.descriptors n = some (some (.socket i)) ∨ w.core? i = none ∧ w'.fd? i = some n := by
  have hclosed {fd : Fd}
      (h : Function.update w.descriptors fd none n = some (some (.socket i))) :
      w.descriptors n = some (some (.socket i)) :=
    (update_entry h).resolve_right fun hnew => by simp at hnew
  cases hc with
  | neutral hn => exact .inl (hn.descriptors ▸ h)
  | addSocket fd status => exact World.added_number (update_entry h)
  | addServer fd => exact .inl ((update_entry h).resolve_right fun hnew => by simp at hnew)
  | leak fd => exact .inl ((update_entry h).resolve_right fun hnew => by simp at hnew)
  | advance | closeCalled | endOfFile | eofAgain | eofFirst | polled | unreg | nullEntry =>
      exact .inl h
  | halfClose k sock get status called drop =>
      split at h
      · exact .inl (hclosed h)
      · exact .inl h
  | fullClose k sock get status nonneg called drop => exact .inl (hclosed h)
  | closeServer j server get drop => exact .inl (hclosed h)

/-- A number is registered for new objects only. -/
theorem Change.table_inv {P : Permits} {w w' : World V E F} (hc : Change P w w') {i : ℕ}
    {n : Fd} (h : w'.table n = some (some (.socket i))) :
    w.table n = some (some (.socket i)) ∨ w.core? i = none ∧ w'.fd? i = some n := by
  cases hc with
  | neutral hn => exact .inl (hn.table ▸ h)
  | addSocket fd status => exact World.added_number (update_entry h)
  | addServer fd => exact .inl ((update_entry h).resolve_right fun hnew => by simp at hnew)
  | unreg t fd => exact .inl ((update_entry h).resolve_right fun hnew => by simp at hnew)
  | nullEntry fd => exact .inl ((update_entry h).resolve_right fun hnew => by simp at hnew)
  | halfClose k sock get status called drop => split at h <;> exact .inl h
  | leak | advance | closeCalled | endOfFile | eofAgain | eofFirst | polled | fullClose
  | closeServer => exact .inl h

theorem World.Numbered.change {P : Permits} {w w' : World V E F} {i : ℕ} (h : w.Numbered i)
    (hc : Change P w w') (hpoll : ∀ batch, ¬ P.polls batch) : w'.Numbered i where
  valid fd status hcore := by
    cases hc.core i with
    | same core => exact h.valid fd status (core.symm.trans hcore)
    | added fd₁ status₁ none core fresh free =>
        obtain ⟨rfl, rfl⟩ := Prod.mk.inj (Option.some.inj (core.symm.trans hcore))
        exact .inl (World.nonneg_of_free free)
    | halfClosed fd₁ before core =>
        obtain ⟨rfl, rfl⟩ := Prod.mk.inj (Option.some.inj (core.symm.trans hcore))
        exact .inr ⟨rfl, .inl rfl⟩
    | advanced fd₁ status₁ status₂ before core open_ =>
        obtain ⟨rfl, rfl⟩ := Prod.mk.inj (Option.some.inj (core.symm.trans hcore))
        refine (h.valid _ _ before).imp_right ?_
        rintro ⟨-, rfl | rfl⟩ <;> simp at open_
    | fullClosed fd₁ before core nonneg =>
        obtain ⟨rfl, rfl⟩ := Prod.mk.inj (Option.some.inj (core.symm.trans hcore))
        exact .inl nonneg
    | eofAgain fd₁ before core =>
        obtain ⟨rfl, rfl⟩ := Prod.mk.inj (Option.some.inj (core.symm.trans hcore))
        exact (h.valid _ _ before).imp_right fun hnone => ⟨hnone.1, .inr rfl⟩
    | eofFirst fd₁ status₁ before core =>
        obtain ⟨rfl, rfl⟩ := Prod.mk.inj (Option.some.inj (core.symm.trans hcore))
        exact (h.valid _ _ before).imp_right fun hnone => ⟨hnone.1, .inl rfl⟩
  opened n hn := by
    rcases hc.descriptor_inv hn with hold | ⟨-, hnew⟩
    · exact hc.hasNumber (h.opened n hold)
    · exact ⟨n, hnew, .inl rfl⟩
  registered n hn := by
    rcases hc.table_inv hn with hold | ⟨-, hnew⟩
    · exact hc.hasNumber (h.registered n hold)
    · exact ⟨n, hnew, .inl rfl⟩
  reported e he ht := by
    rw [Changes.events_eq (.single hc) hpoll] at he
    exact hc.hasNumber (h.reported e he ht)

theorem World.Numbered.initial {i : ℕ} : World.Numbered (V := V) (E := E) (F := F) {} i :=
  ⟨by simp [World.core?], by simp, by simp, by simp⟩

/-- The number of a socket that has one. -/
theorem World.HasNumber.eq {w : World V E F} {i : ℕ} {fd n : Fd} (h : w.HasNumber i n)
    (hfd : w.fd? i = some fd) (hnonneg : 0 ≤ fd) : n = fd := by
  obtain ⟨fd', hfd', hn⟩ := h
  obtain rfl := Option.some.inj (hfd.symm.trans hfd')
  rcases hn with rfl | rfl
  · rfl
  · exact absurd hnonneg (by decide)

/-- An event of the batch goes to the socket that it was reported for while that is open. -/
theorem World.Numbered.entry {w : World V E F} {i : ℕ} {e : Event × Target} (h : w.Numbered i)
    (hs : w.Sound) (hopen : ∃ fd, w.fd? i = some fd ∧ w.descriptors fd = some (some (.socket i)))
    (he : e ∈ w.events) (ht : e.2 = .socket i) :
    w.table e.1.fd = none ∨ w.table e.1.fd = some none ∨
      w.table e.1.fd = some (some (.socket i)) := by
  obtain ⟨fd, hfd, hdescriptor⟩ := hopen
  have hn : e.1.fd = fd := (h.reported e he ht).eq hfd (hs.nonneg fd (by simp [hdescriptor]))
  rw [hn]
  exact hs.registered _ _ hdescriptor

/-! ### Steps -/

section Machine

variable [Blank V] {backend : Backend} {c c' : Config V E F} {l : Label} {i : ℕ}

theorem Stepped.polled {batch : List (Event × Target)} (h : Stepped backend c (.poll batch) c') :
    c.world.reports backend batch = true ∧ (∃ handlers rest, c.stack = .user handlers :: rest) ∧
      c' = ⟨{ c.world with events := batch ++ c.world.events.drop batch.length },
        .batch 0 batch.length :: c.stack⟩ := by
  cases h with
  | user w handlers rest l w' eff call =>
      simp only [userStep, World.poll, Option.ite_none_right_eq_some, Bool.and_eq_true,
        Option.some.injEq, Prod.mk.injEq] at call
      obtain ⟨⟨-, hreports⟩, rfl, rfl⟩ := call
      exact ⟨hreports, ⟨handlers, rest, rfl⟩, rfl⟩
  | library w frame rest l w' eff piece => cases libraryStep_label piece

omit [Blank V] in
theorem Config.polls_eq {batch : List (Event × Target)} (h : (c.permits backend l).polls batch) :
    l = .poll batch := by
  obtain ⟨w, stack⟩ := c
  cases stack with
  | nil => exact h.elim
  | cons frame rest => exact h

theorem World.Numbered.step (h : c.world.Numbered i) (hs : c.Sound)
    (hstep : Stepped backend c l c') : c'.world.Numbered i := by
  by_cases hpoll : ∃ batch, l = .poll batch
  · obtain ⟨batch, rfl⟩ := hpoll
    obtain ⟨hreports, -, rfl⟩ := hstep.polled
    refine ⟨h.valid, h.opened, h.registered, ?_⟩
    intro e he ht
    rcases List.mem_append.mp he with he | he
    · simp only [reports, Bool.and_eq_true, List.all_eq_true, decide_eq_true_eq] at hreports
      apply h.opened
      rw [← ht]
      exact hreports.1.2 e he
    · exact h.reported e (List.mem_of_mem_drop he) ht
  · refine (hstep.changes hs.seen).induct (I := fun w => w.Numbered i) ?_ h
    intro w w' hw hc
    exact hw.change hc fun batch hbatch => hpoll ⟨batch, Config.polls_eq hbatch⟩

/-- The descriptors and the entries of a socket that exists are old. -/
theorem Stepped.entries_inv (h : Stepped backend c l c') (hs : c.Sound)
    (hold : c.world.core? i ≠ none) {n : Fd} :
    (c'.world.descriptors n = some (some (.socket i)) →
      c.world.descriptors n = some (some (.socket i))) ∧
    (c'.world.table n = some (some (.socket i)) → c.world.table n = some (some (.socket i))) := by
  have hall := (h.changes hs.seen).induct (I := fun w => w.core? i ≠ none ∧
    (w.descriptors n = some (some (.socket i)) →
      c.world.descriptors n = some (some (.socket i))) ∧
    (w.table n = some (some (.socket i)) → c.world.table n = some (some (.socket i)))) ?_
    ⟨hold, id, id⟩
  · exact hall.2
  · rintro w w' ⟨hcore, hdescriptor, htable⟩ hc
    refine ⟨hc.core?_ne_none hcore, fun hn => ?_, fun hn => ?_⟩
    · exact (hc.descriptor_inv hn).elim hdescriptor fun hnew => absurd hnew.1 hcore
    · exact (hc.table_inv hn).elim htable fun hnew => absurd hnew.1 hcore

end Machine

end Libasync.Reactor
