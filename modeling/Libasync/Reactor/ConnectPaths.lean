import Libasync.Reactor.Alike

/-! # The two ways to a connection

`::connect` succeeds at once, or a later event reports its success. The code for the two is in
different functions, and only the first stores the remote address. -/

namespace Libasync.Reactor

open Promise Socket Automaton

variable {V E F : Type*}

/-! ### The two runs -/

namespace NamedConfig

/-- Nothing has happened to the socket. -/
structure Still (i : ℕ) (n n' : NamedConfig V E F) : Prop where
  socket : n'.world.sockets[i]? = n.world.sockets[i]?
  descriptor : n'.isOpen i = n.isOpen i
  events : fired i n'.world.log = fired i n.world.log
  addresses : n'.addresses[i]? = n.addresses[i]?

instance (i : ℕ) (n n' : NamedConfig V E F) : Decidable (Still i n n') :=
  decidable_of_iff
    (n'.world.sockets[i]? = n.world.sockets[i]? ∧ n'.isOpen i = n.isOpen i ∧
      fired i n'.world.log = fired i n.world.log ∧ n'.addresses[i]? = n.addresses[i]?)
    ⟨fun ⟨socket, descriptor, events, addresses⟩ => ⟨socket, descriptor, events, addresses⟩,
      fun h => ⟨h.socket, h.descriptor, h.events, h.addresses⟩⟩

/-- The step does nothing to the socket. -/
def Leaves [Blank V] (backend : Backend) (i : ℕ) (n : NamedConfig V E F) (l : NamedLabel) : Prop :=
  ∀ n' ∈ n.step backend l, Still i n n'

instance [Blank V] (backend : Backend) (i : ℕ) (n : NamedConfig V E F) (l : NamedLabel) :
    Decidable (n.Leaves backend i l) :=
  inferInstanceAs (Decidable (∀ n' ∈ _, _))

/-- The step is in a function that has these frames below it, and does nothing to the socket. -/
def LeavesWithin [Blank V] (backend : Backend) (i : ℕ) (base : List Frame) (n : NamedConfig V E F)
    (l : NamedLabel) : Prop :=
  base.length < n.stack.length ∧ n.Leaves backend i l

instance [Blank V] (backend : Backend) (i : ℕ) (base : List Frame) (n : NamedConfig V E F)
    (l : NamedLabel) : Decidable (n.LeavesWithin backend i base l) :=
  inferInstanceAs (Decidable (_ ∧ _))

variable [Blank V] (backend : Backend) (i : ℕ) (addr : InAddr) (port : InPort)

/-- `::connect` succeeds at once. The handlers of "connect" run, and the call returns. -/
inductive ConnectsAtOnce (n : NamedConfig V E F) : NamedConfig V E F → Ref → Prop where
  | intro {count during n₁ m n'} (idle : n.world.status? i = some .idle)
      (call : n.step backend (.connect i addr port (.ret count)) = some n₁)
      (handlers : run (step backend) n₁ during = some m)
      (leaves : EachStep (step backend) (LeavesWithin backend i n.stack) n₁ during)
      (top : m.stack = .connectTail :: n.stack)
      (returned : m.step backend (.other .tau) = some n') :
      ConnectsAtOnce n n' m.world.promises.heap.length

/-- `::connect` returns `EINPROGRESS`, and a later event reports the success. The handlers of
"connect" run, and `reactor_on_event` returns. -/
inductive ConnectsLater (n : NamedConfig V E F) : NamedConfig V E F → Ref → Prop where
  | intro {before since rest during n₁ m m₁ k n'} (idle : n.world.status? i = some .idle)
      (call : n.step backend (.connect i addr port (.err .inProgress)) = some n₁)
      (waits : run (step backend) n₁ before = some m)
      (leaves : EachStep (step backend) (Leaves backend i) n₁ before)
      (event : m.stack = .writePart i true since :: rest)
      (reported : m.step backend (.other (.soError (.ret 0))) = some m₁)
      (handlers : run (step backend) m₁ during = some k)
      (leavesToo : EachStep (step backend) (LeavesWithin backend i rest) m₁ during)
      (finished : k.stack = .user [] :: rest)
      (returned : k.step backend (.other .return_) = some n') :
      ConnectsLater n n' n.world.promises.heap.length

/-- The two ends of runs from `n` look the same, and as after a connection. -/
structure ConnectionsAgree (n n₁ n₂ : NamedConfig V E F) (p₁ p₂ : Ref) : Prop where
  status : n₁.world.status? i = some .connected ∧ n₂.world.status? i = some .connected
  remote : n₁.remoteAddr i = some (addr, port) ∧ n₂.remoteAddr i = some (addr, port)
  events : fired i n₁.world.log = fired i n.world.log ++ [.connect] ∧
    fired i n₂.world.log = fired i n.world.log ++ [.connect]
  promises : IsResolved n₁.world.promises p₁ ∧ IsResolved n₂.world.promises p₂
  later : ∀ calls, transcript (perform i) n₁ calls = transcript (perform i) n₂ calls

end NamedConfig

section Calls

variable [Blank V]

/-! ### The steps of the two runs -/

namespace NamedConfig

variable {backend : Backend} {i : ℕ} {n n' n₁ m : NamedConfig V E F} {sock : SocketObject}
  {addr : InAddr} {port : InPort}

omit [Blank V] in
theorem Still.refl (n : NamedConfig V E F) : Still i n n := ⟨rfl, rfl, rfl, rfl⟩

omit [Blank V] in
theorem Still.trans (h : Still i n n₁) (h' : Still i n₁ m) : Still i n m where
  socket := h'.socket.trans h.socket
  descriptor := h'.descriptor.trans h.descriptor
  events := h'.events.trans h.events
  addresses := h'.addresses.trans h.addresses

theorem Still.run {ls : List NamedLabel} (hleaves : EachStep (step backend) (Leaves backend i) n ls)
    (hrun : Automaton.run (step backend) n ls = some m) : Still i n m := by
  refine run_invariant ?_ (Still.refl n) hleaves hrun
  intro k l k' hstill hleaves hl
  exact hstill.trans (hleaves k' hl)

theorem LeavesWithin.leaves {base : List Frame} {ls : List NamedLabel}
    (h : EachStep (step backend) (LeavesWithin backend i base) n ls) :
    EachStep (step backend) (Leaves backend i) n ls :=
  fun before l after k hls hk => (h before l after k hls hk).2

/-- What has become of the socket since `n`. -/
structure Became (i : ℕ) (sock : SocketObject) (names : List EventName)
    (n n' : NamedConfig V E F) : Prop where
  socket : n'.world.sockets[i]? = some sock
  descriptor : n'.isOpen i = n.isOpen i
  events : fired i n'.world.log = fired i n.world.log ++ names

omit [Blank V] in
theorem Became.still {names : List EventName} (h : Became i sock names n n₁) (h' : Still i n₁ m) :
    Became i sock names n m where
  socket := h'.socket.trans h.socket
  descriptor := h'.descriptor.trans h.descriptor
  events := h'.events.trans h.events

theorem connect_at_once {count : ℕ} (hget : n.world.sockets[i]? = some sock)
    (hidle : sock.status = .idle)
    (h : n.step backend (.connect i addr port (.ret count)) = some n') :
    Became i { sock with status := .connected } [.connect] n n' ∧
      n'.addresses = n.addresses.modify i fun a =>
        { a with remoteAddr := addr, remotePort := port } := by
  rcases step_config h with ⟨label, hlabel, hstep, haddresses⟩ | ⟨hnone, -, -⟩
  · obtain rfl := Option.some.inj hlabel
    have hstatus : n.world.status? i = some .idle := by rw [World.status?_eq _ hget, hidle]
    obtain ⟨eff, hcall⟩ := (stepped hstep).connect_call
    simp only [World.connect, hget, hidle, ne_eq, not_true_eq_false, if_false,
      Option.ite_none_right_eq_some, Option.some.injEq, Prod.mk.injEq] at hcall
    obtain ⟨-, hworld, -⟩ := hcall
    refine ⟨⟨?_, ?_, ?_⟩, by simpa [addressesAfter, hstatus] using haddresses⟩
    · simp [← hworld, World.getElem?_modifySocket, hget]
    · simp [isOpen, ← hworld, World.getElem?_modifySocket, hget]
      rfl
    · simp [← hworld]
  · cases hnone

theorem connect_later (hget : n.world.sockets[i]? = some sock) (hidle : sock.status = .idle)
    (h : n.step backend (.connect i addr port (.err .inProgress)) = some n') :
    Became i { sock with
        status := .connecting
        connectHandlers := sock.connectHandlers ++ [n.world.promises.heap.length] } [] n n' ∧
      n'.addresses = n.addresses ∧ n'.world.promises = n.world.promises.create.1 := by
  rcases step_config h with ⟨label, hlabel, hstep, haddresses⟩ | ⟨hnone, -, -⟩
  · obtain rfl := Option.some.inj hlabel
    obtain ⟨eff, hcall⟩ := (stepped hstep).connect_call
    simp only [World.connect, hget, hidle, ne_eq, not_true_eq_false, if_false,
      Option.ite_none_right_eq_some, Option.some.injEq, Prod.mk.injEq] at hcall
    obtain ⟨-, hworld, -⟩ := hcall
    refine ⟨⟨?_, ?_, ?_⟩, haddresses, ?_⟩
    · rw [← hworld, World.getElem?_modifySocket, if_pos rfl]
      exact congrArg (Option.map _) hget
    · simp [isOpen, ← hworld, World.getElem?_modifySocket, hget]
      rfl
    · simp [← hworld]
    · rw [← hworld]
      rfl
  · cases hnone

theorem connect_reported {since : ℕ} {rest : List Frame}
    (hget : n.world.sockets[i]? = some sock) (hstack : n.stack = .writePart i true since :: rest)
    (h : n.step backend (.other (.soError (.ret 0))) = some n') :
    Became i { sock with status := .connected } [.connect] n n' ∧ n'.addresses = n.addresses ∧
      n'.world.promises = n.world.promises ∧ n'.stack = .user sock.connectHandlers :: rest := by
  rcases step_config h with ⟨label, hlabel, hstep, haddresses⟩ | ⟨hnone, -, -⟩
  · obtain rfl := Option.some.inj hlabel
    obtain ⟨c, addresses, servers⟩ := n
    obtain ⟨w, stack⟩ := c
    obtain rfl : stack = .writePart i true since :: rest := hstack
    obtain ⟨⟨w', eff⟩, hpiece, heq⟩ := Option.map_eq_some_iff.mp hstep
    have hget' : w.sockets[i]? = some sock := hget
    simp only [libraryStep, World.connectEvent, hget', Option.ite_none_right_eq_some, if_true,
      Option.some.injEq, Prod.mk.injEq] at hpiece
    obtain ⟨-, hworld, rfl⟩ := hpiece
    have hworld' : n'.world = w' := (congrArg Config.world heq).symm
    refine ⟨⟨?_, ?_, ?_⟩, haddresses, ?_, ?_⟩
    · simp [hworld', ← hworld, World.getElem?_modifySocket, hget']
    · simp [isOpen, hworld', ← hworld, World.getElem?_modifySocket, hget']
      rfl
    · simp [hworld', ← hworld]
    · rw [hworld', ← hworld]
      rfl
    · exact (congrArg Config.stack heq).symm
  · cases hnone

end NamedConfig

/-! ### The internal handler -/

omit [Blank V] in
theorem unwind_append_user (above rest : List Frame) (handlers : List Ref) :
    ∃ above', unwind (above ++ .user handlers :: rest) = above' ++ .user handlers :: rest := by
  induction above with
  | nil => exact ⟨[], rfl⟩
  | cons frame above ih =>
      cases frame with
      | user handlers' => exact ⟨.user handlers' :: above, rfl⟩
      | _ => exact ih

omit [Blank V] in
/-- A call or an exception keeps a frame of user code, unless the program ends. -/
theorem after_append_user (above rest : List Frame) (handlers : List Ref)
    (r : World V E F × Effect) :
    (∃ above', (Config.after (above ++ .user handlers :: rest) r).stack =
      above' ++ .user handlers :: rest) ∨
      (Config.after (above ++ .user handlers :: rest) r).stack = [] := by
  obtain ⟨w, eff⟩ := r
  cases eff with
  | push frames => exact .inl ⟨frames ++ above, (List.append_assoc _ _ _).symm⟩
  | throw failure => exact .inl (unwind_append_user above rest handlers)
  | crash => exact .inr rfl

/-- The handlers of one `trigger` run on these frames, and the promise is resolved or its handler is
one of them. -/
structure Config.Serves (rest : List Frame) (p : Ref) (c : Config V E F) : Prop where
  ok : NoneRejected c.world.promises
  known : ∃ status, c.world.promises.status? p = some status
  runs : (∃ above handlers, c.stack = above ++ .user handlers :: rest ∧
    (p ∈ handlers ∨ IsResolved c.world.promises p)) ∨ c.stack.length ≤ rest.length

theorem Config.Serves.step {backend : Backend} {c c' : Config V E F} {l : Label} {p : Ref}
    {rest : List Frame} (h : c.Serves rest p) (hwithin : rest.length < c.stack.length)
    (hstep : Stepped backend c l c') : c'.Serves rest p := by
  refine ⟨h.ok.resolving hstep.resolving, hstep.resolving.known h.known, ?_⟩
  obtain ⟨above, handlers, hstack, hp⟩ := h.runs.resolve_right (Nat.not_le.mpr hwithin)
  have hp' : p ∈ handlers ∨ IsResolved c'.world.promises p :=
    hp.imp_right fun hresolved => hresolved.mono hstep.resolving
  have hafter {above : List Frame} {r : World V E F × Effect}
      (heq : c' = Config.after (above ++ .user handlers :: rest) r) :
      (∃ above handlers, c'.stack = above ++ .user handlers :: rest ∧
        (p ∈ handlers ∨ IsResolved c'.world.promises p)) ∨ c'.stack.length ≤ rest.length := by
    rcases after_append_user above rest handlers r with ⟨above', hstack'⟩ | hnil
    · exact .inl ⟨above', handlers, heq ▸ hstack', hp'⟩
    · exact .inr (by rw [heq, hnil]; exact Nat.zero_le _)
  cases hstep with
  | handler w q handlers' rest' =>
      cases above with
      | nil =>
          obtain ⟨heq, rfl⟩ := List.cons.inj hstack
          obtain rfl : q :: handlers' = handlers := by simpa using heq
          refine .inl ⟨[], handlers', rfl, ?_⟩
          rcases hp' with hmem | hresolved
          · rcases List.mem_cons.mp hmem with rfl | hmem
            · obtain ⟨status, hstatus⟩ := h.known
              exact .inr (h.ok.isResolved hstatus)
            · exact .inl hmem
          · exact .inr hresolved
      | cons frame above =>
          obtain ⟨-, rfl⟩ := List.cons.inj hstack
          exact .inl ⟨.user handlers' :: above, handlers, rfl, hp'⟩
  | return_ w frame rest' =>
      cases above with
      | nil =>
          obtain ⟨-, heq⟩ := List.cons.inj hstack
          exact .inr (Nat.le_of_eq (congrArg List.length heq))
      | cons top above =>
          obtain ⟨-, heq⟩ := List.cons.inj hstack
          exact .inl ⟨above, handlers, heq, hp'⟩
  | throw_ w handlers' frame rest' =>
      cases above with
      | nil =>
          obtain ⟨-, rfl⟩ := List.cons.inj hstack
          exact .inr (unwind_suffix _).length_le
      | cons top above =>
          obtain ⟨-, heq⟩ := List.cons.inj hstack
          obtain ⟨above', hunwound⟩ := unwind_append_user above rest handlers
          exact .inl ⟨above', handlers, (congrArg unwind heq).trans hunwound, hp'⟩
  | user w handlers' rest' l w' eff call =>
      exact hafter (congrArg (Config.after · (w', eff)) hstack)
  | library w frame rest' l w' eff piece =>
      cases above with
      | nil =>
          obtain ⟨rfl, -⟩ := List.cons.inj hstack
          simp [libraryStep_user] at piece
      | cons top above =>
          obtain ⟨-, heq⟩ := List.cons.inj hstack
          exact hafter (congrArg (Config.after · (w', eff)) heq)

namespace NamedConfig

variable {backend : Backend} {i : ℕ} {n n' m : NamedConfig V E F} {p : Ref} {rest : List Frame}

/-- When the handlers have returned, the promise is resolved. -/
theorem resolved_of_served {ls : List NamedLabel} (h : n.toConfig.Serves rest p)
    (hleaves : EachStep (step backend) (LeavesWithin backend i rest) n ls)
    (hrun : run (step backend) n ls = some m) (hstack : m.stack = .user [] :: rest)
    (hreturn : m.step backend (.other .return_) = some n') :
    IsResolved n'.world.promises p := by
  have hserves : m.toConfig.Serves rest p := by
    refine run_invariant (I := fun k => k.toConfig.Serves rest p) ?_ h hleaves hrun
    intro k l k' hserves hguard hl
    rcases step_config hl with ⟨label, -, hstep, -⟩ | ⟨-, -, hsame⟩
    · exact hserves.step hguard.1 (stepped hstep)
    · rw [hsame]
      exact hserves
  have hresolved : IsResolved m.world.promises p := by
    rcases hserves.runs with ⟨above, handlers, heq, hp⟩ | hle
    · have hsplit : above ++ .user handlers :: rest = [] ++ .user [] :: rest :=
        heq.symm.trans hstack
      obtain ⟨-, htop⟩ := List.append_inj' hsplit rfl
      obtain rfl : handlers = [] := by simpa using htop
      exact hp.resolve_left (by simp)
    · rw [hstack, List.length_cons] at hle
      omega
  rcases step_config hreturn with ⟨label, -, hstep, -⟩ | ⟨hnone, -, -⟩
  · exact hresolved.mono (stepped hstep).resolving
  · cases hnone

theorem step_resolving {l : NamedLabel} (h : n.step backend l = some n') :
    Resolving n.world.promises n'.world.promises := by
  rcases step_config h with ⟨label, -, hstep, -⟩ | ⟨-, -, hsame⟩
  · exact (stepped hstep).resolving
  · rw [hsame]

theorem run_resolving {ls : List NamedLabel} (h : run (step backend) n ls = some m) :
    Resolving n.world.promises m.world.promises :=
  run_invariant_of_step (I := fun k => Resolving n.world.promises k.world.promises)
    (fun _ _ _ hk hl => hk.trans (step_resolving hl)) .refl h

theorem return_world {c c' : Config V E F} (h : Reactor.step backend c .return_ = some c') :
    c'.world = c.world := by
  cases stepped h with
  | return_ w frame rest => rfl
  | user w handlers rest l w' eff call => cases call
  | library w frame rest l w' eff piece => cases libraryStep_label piece

/-! ### The two ends -/

theorem ConnectsAtOnce.ends {addr : InAddr} {port : InPort} {sock : SocketObject}
    (hget : n.world.sockets[i]? = some sock) (h : ConnectsAtOnce backend i addr port n n' p) :
    Became i { sock with status := .connected } [.connect] n n' ∧
      n'.addresses[i]? = (n.addresses[i]?).map (fun a =>
        { a with remoteAddr := addr, remotePort := port }) ∧
      IsResolved n'.world.promises p := by
  cases h with
  | intro idle call handlers leaves top returned =>
      have hidle := World.status_eq hget idle
      obtain ⟨hbecame, haddresses⟩ := connect_at_once hget hidle call
      have hstill := Still.run (LeavesWithin.leaves leaves) handlers
      have hkept := hbecame.still hstill
      rcases step_config returned with ⟨label, hlabel, hstep, hsame⟩ | ⟨hnone, -, -⟩
      · obtain rfl := Option.some.inj hlabel
        rename_i m
        obtain ⟨c, addresses, servers⟩ := m
        obtain ⟨w, stack⟩ := c
        obtain rfl : stack = .connectTail :: n.stack := top
        have hworld : { w with promises := w.promises.resolvedVoid.1 } = n'.world :=
          congrArg Config.world (Option.some.inj hstep)
        refine ⟨⟨?_, ?_, ?_⟩, ?_, ?_⟩
        · rw [← hworld]
          exact hkept.socket
        · rw [← hkept.descriptor, isOpen, ← hworld]
          rfl
        · rw [← hworld]
          exact hkept.events
        · have hlast : n'.addresses = addresses := hsame
          rw [hlast, hstill.addresses, haddresses]
          exact List.getElem?_modify_eq _ _ _
        · rw [← hworld]
          exact status?_resolvedVoid_self w.promises
      · cases hnone

theorem ConnectsLater.ends {addr : InAddr} {port : InPort} {sock : SocketObject}
    (hok : NoneRejected n.world.promises) (hget : n.world.sockets[i]? = some sock)
    (h : ConnectsLater backend i addr port n n' p) :
    (∃ handlers, Became i { sock with status := .connected, connectHandlers := handlers } [.connect]
      n n') ∧ n'.addresses[i]? = n.addresses[i]? ∧ IsResolved n'.world.promises p := by
  cases h with
  | intro idle call waits leaves event reported handlers leavesToo finished returned =>
      have hidle := World.status_eq hget idle
      rename_i before since rest during n₁ m m₁ k
      obtain ⟨hcalled, haddresses, hpromises⟩ := connect_later hget hidle call
      have hwaited := Still.run leaves waits
      have hpending := hcalled.still hwaited
      obtain ⟨hreported, haddresses', hpromises', hstack⟩ :=
        connect_reported hpending.socket event reported
      have hconnected : Became i { sock with
          status := .connected
          connectHandlers := sock.connectHandlers ++ [n.world.promises.heap.length] } [.connect]
          n m₁ :=
        ⟨hreported.socket, hreported.descriptor.trans hpending.descriptor,
          hreported.events.trans (by rw [hpending.events, List.append_nil])⟩
      have hserves : m₁.toConfig.Serves rest n.world.promises.heap.length := by
        refine ⟨?_, ?_, .inl ⟨[], _, hstack, .inl (by simp)⟩⟩
        · rw [hpromises']
          exact (hok.resolving (step_resolving call)).resolving (run_resolving waits)
        · rw [hpromises']
          refine (run_resolving waits).known ⟨.pending, ?_⟩
          rw [hpromises, State.status?_create, if_pos rfl]
      have hserved := Still.run (LeavesWithin.leaves leavesToo) handlers
      have hresolved := resolved_of_served hserves leavesToo handlers finished returned
      have hended := hconnected.still hserved
      rcases step_config returned with ⟨label, hlabel, hstep, hsame⟩ | ⟨hnone, -, -⟩
      · obtain rfl := Option.some.inj hlabel
        have hworld : n'.world = k.world := return_world hstep
        refine ⟨⟨sock.connectHandlers ++ [n.world.promises.heap.length], ?_, ?_, ?_⟩, ?_, hresolved⟩
        · rw [hworld]
          exact hended.socket
        · rw [isOpen, hworld]
          exact hended.descriptor
        · rw [hworld]
          exact hended.events
        · have hlast : n'.addresses = k.addresses := hsame
          rw [hlast, hserved.addresses, haddresses', hwaited.addresses, haddresses]
      · cases hnone

omit [Blank V] in
theorem usable_noDescriptor (h : n.toConfig.Sound) : n.world.usable (-1) = false := by
  rw [World.usable, Option.isSome_eq_false_iff, Option.isNone_iff_eq_none]
  by_contra hopen
  exact absurd (h.world.nonneg (-1) hopen) (by decide)

theorem NoneRejected.run {ls : List NamedLabel}
    (h : run (step backend) ({} : NamedConfig V E F) ls = some n) :
    NoneRejected n.world.promises :=
  NoneRejected.resolving (by simp [NoneRejected, State.status?, State.get?]) (run_resolving h)

omit [Blank V] in
/-- The two ends of a connection look the same to the later calls. -/
theorem alike_of_became {n₁ n₂ : NamedConfig V E F} {a b : SocketObject} {names : List EventName}
    (h₁ : Became i a names n n₁) (h₂ : Became i b names n n₂)
    (htwins : Twins a.toSocketData b.toSocketData) (hsound₁ : n₁.toConfig.Sound)
    (hsound₂ : n₂.toConfig.Sound)
    (haddresses : (n₁.addresses[i]?).map (fun a => (a.localAddr, a.localPort)) =
      (n₂.addresses[i]?).map fun a => (a.localAddr, a.localPort)) : Alike i n₁ n₂ where
  socket := by
    rw [h₁.socket, h₂.socket]
    exact .some htwins
  descriptor := h₁.descriptor.trans h₂.descriptor.symm
  noDescriptor := ⟨usable_noDescriptor hsound₁, usable_noDescriptor hsound₂⟩
  addresses := haddresses

theorem ConnectsAtOnce.sound {addr : InAddr} {port : InPort}
    (h : ConnectsAtOnce backend i addr port n n' p) (hsound : n.toConfig.Sound) :
    n'.toConfig.Sound := by
  cases h with
  | intro idle call handlers leaves top returned =>
      exact sound_step (sound_run (sound_step hsound call) handlers) returned

theorem ConnectsLater.sound {addr : InAddr} {port : InPort}
    (h : ConnectsLater backend i addr port n n' p) (hsound : n.toConfig.Sound) :
    n'.toConfig.Sound := by
  cases h with
  | intro idle call waits leaves event reported handlers leavesToo finished returned =>
      have hevent := sound_run (sound_step hsound call) waits
      exact sound_step (sound_run (sound_step hevent reported) handlers) returned

/-- A connection that is there at once and one that is reported later end in states that look the
same, exactly when the memory of the socket happened to hold the remote address. -/
theorem connections_agree_iff {ls : List NamedLabel} {addr : InAddr} {port : InPort}
    {n₁ n₂ : NamedConfig V E F} {p₁ p₂ : Ref}
    (hrun : run (step backend) ({} : NamedConfig V E F) ls = some n)
    (h₁ : ConnectsAtOnce backend i addr port n n₁ p₁)
    (h₂ : ConnectsLater backend i addr port n n₂ p₂) :
    ConnectionsAgree i addr port n n₁ n₂ p₁ p₂ ↔
      (n.addresses[i]?).map (fun a => (a.remoteAddr, a.remotePort)) = some (addr, port) := by
  obtain ⟨sock, hget⟩ : ∃ sock, n.world.sockets[i]? = some sock := by
    cases h₁ with
    | intro idle =>
        obtain ⟨sock, hget, -⟩ := World.socket_of_status idle
        exact ⟨sock, hget⟩
  have hsound := sound hrun
  obtain ⟨hbecame₁, haddresses₁, hresolved₁⟩ := h₁.ends hget
  obtain ⟨⟨handlers, hbecame₂⟩, haddresses₂, hresolved₂⟩ := h₂.ends (NoneRejected.run hrun) hget
  have hstatus₁ : n₁.world.status? i = some .connected := World.status?_eq _ hbecame₁.socket
  have hstatus₂ : n₂.world.status? i = some .connected := World.status?_eq _ hbecame₂.socket
  have hremote₂ : n₂.remoteAddr i =
      (n.addresses[i]?).map fun a => (a.remoteAddr, a.remotePort) := by
    rw [remoteAddr, if_pos hstatus₂, haddresses₂]
  constructor
  · intro h
    rw [← hremote₂]
    exact h.remote.2
  · intro hremote
    obtain ⟨a, ha, -⟩ := Option.map_eq_some_iff.mp hremote
    have hremote₁ : n₁.remoteAddr i = some (addr, port) := by
      rw [remoteAddr, if_pos hstatus₁, haddresses₁, ha]
      rfl
    have halike : Alike i n₁ n₂ := by
      refine alike_of_became hbecame₁ hbecame₂ ⟨rfl, rfl, rfl, rfl, rfl, rfl⟩ (h₁.sound hsound)
        (h₂.sound hsound) ?_
      rw [haddresses₁, haddresses₂, ha]
      rfl
    exact ⟨⟨hstatus₁, hstatus₂⟩, ⟨hremote₁, hremote₂.trans hremote⟩,
      ⟨hbecame₁.events, hbecame₂.events⟩, ⟨hresolved₁, hresolved₂⟩,
      (Alike.bisimulation i).transcript_eq halike⟩

end NamedConfig

end Calls

theorem NamedConfig.leaves_of_still [Blank V] {backend : Backend} {i : ℕ} {n n' : NamedConfig V E F}
    {l : NamedLabel} (h : n.step backend l = some n') (hstill : Still i n n') :
    n.Leaves backend i l := by
  intro m hm
  obtain rfl : n' = m := Option.some.inj (h.symm.trans hm)
  exact hstill

/-- A new socket that connects at once. -/
theorem new_socket_connects (memory : Addresses) : ∃ n n' : NamedConfig ℕ ℕ SampleHandler,
    run (NamedConfig.step .epoll) {} [.newSocket 3 none memory] = some n ∧
      NamedConfig.ConnectsAtOnce .epoll 0 5 80 n n' 0 := by
  obtain ⟨n, n₁, m, n', hrun, hidle, hcall, hreturn, hstill, hpushed, htop, htail, hheap⟩ :
      ∃ n n₁ m n' : NamedConfig ℕ ℕ SampleHandler,
        run (NamedConfig.step .epoll) {} [.newSocket 3 none memory] = some n ∧
        n.world.status? 0 = some .idle ∧
        n.step .epoll (.connect 0 5 80 (.ret 0)) = some n₁ ∧
        n₁.step .epoll (.other .return_) = some m ∧ NamedConfig.Still 0 n₁ m ∧
        n₁.stack = [.user [], .connectTail] ++ n.stack ∧ m.stack = .connectTail :: n.stack ∧
        m.step .epoll (.other .tau) = some n' ∧ m.world.promises.heap.length = 0 :=
    ⟨_, _, _, _, rfl, rfl, rfl, rfl, ⟨rfl, rfl, rfl, rfl⟩, rfl, rfl, rfl, rfl⟩
  have hhandlers : run (NamedConfig.step .epoll) n₁ [.other .return_] = some m := by
    rw [run_cons, hreturn]
    rfl
  have hleaves : EachStep (NamedConfig.step .epoll)
      (NamedConfig.LeavesWithin .epoll 0 n.stack) n₁ [.other .return_] := by
    rw [eachStep_cons_iff]
    refine ⟨⟨?_, NamedConfig.leaves_of_still hreturn hstill⟩, fun _ _ => eachStep_nil _ _⟩
    rw [hpushed, List.length_append]
    exact Nat.lt_add_of_pos_left (by simp)
  have hconnects := NamedConfig.ConnectsAtOnce.intro hidle hcall hhandlers hleaves htop htail
  rw [hheap] at hconnects
  exact ⟨n, n', hrun, hconnects⟩

/-- A new socket whose connection is reported by an event. -/
theorem new_socket_connects_later (memory : Addresses) : ∃ n n' : NamedConfig ℕ ℕ SampleHandler,
    run (NamedConfig.step .epoll) {} [.newSocket 3 none memory] = some n ∧
      NamedConfig.ConnectsLater .epoll 0 5 80 n n' 0 ∧
      n'.remoteAddr 0 = some (memory.remoteAddr, memory.remotePort) := by
  let event : NamedLabel := .other (.poll [(⟨3, false, true⟩, .socket 0)])
  obtain ⟨n, n₁, n₂, m, m₁, k, n', hrun, hidle, hheap, hcall, hpoll, hdispatch, hevent, hreported⟩ :
      ∃ n n₁ n₂ m m₁ k n' : NamedConfig ℕ ℕ SampleHandler,
        run (NamedConfig.step .epoll) {} [.newSocket 3 none memory] = some n ∧
        n.world.status? 0 = some .idle ∧ n.world.promises.heap.length = 0 ∧
        n.step .epoll (.connect 0 5 80 (.err .inProgress)) = some n₁ ∧
        (n₁.step .epoll event = some n₂ ∧ NamedConfig.Still 0 n₁ n₂) ∧
        (n₂.step .epoll (.other .tau) = some m ∧ NamedConfig.Still 0 n₂ m) ∧
        (∃ since rest, m.stack = .writePart 0 true since :: rest ∧
          m₁.stack = .user [0] :: rest ∧ k.stack = .user [] :: rest) ∧
        m.step .epoll (.other (.soError (.ret 0))) = some m₁ ∧
        (m₁.step .epoll (.other .handler) = some k ∧ NamedConfig.Still 0 m₁ k) ∧
        k.step .epoll (.other .return_) = some n' ∧
        n'.remoteAddr 0 = some (memory.remoteAddr, memory.remotePort) :=
    ⟨_, _, _, _, _, _, _, rfl, rfl, rfl, rfl, ⟨rfl, rfl, rfl, rfl, rfl⟩, ⟨rfl, rfl, rfl, rfl, rfl⟩,
      ⟨_, _, rfl, rfl, rfl⟩, rfl, ⟨rfl, rfl, rfl, rfl, rfl⟩, rfl, rfl⟩
  obtain ⟨since, rest, htop, hpushed, hfinished⟩ := hevent
  obtain ⟨hreport, ⟨hhandler, hstill⟩, hreturn, hremote⟩ := hreported
  have hwaits : run (NamedConfig.step .epoll) n₁ [event, .other .tau] = some m := by
    simp only [run_cons, hpoll.1, hdispatch.1, Option.bind_some, run_nil]
  have hleaves : EachStep (NamedConfig.step .epoll) (NamedConfig.Leaves .epoll 0) n₁
      [event, .other .tau] := by
    simp only [eachStep_cons_iff, hpoll.1, hdispatch.1, Option.some.injEq, forall_eq']
    exact ⟨NamedConfig.leaves_of_still hpoll.1 hpoll.2,
      NamedConfig.leaves_of_still hdispatch.1 hdispatch.2, eachStep_nil _ _⟩
  have hhandlers : run (NamedConfig.step .epoll) m₁ [.other .handler] = some k := by
    rw [run_cons, hhandler]
    rfl
  have hleavesToo : EachStep (NamedConfig.step .epoll) (NamedConfig.LeavesWithin .epoll 0 rest) m₁
      [.other .handler] := by
    rw [eachStep_cons_iff]
    refine ⟨⟨?_, NamedConfig.leaves_of_still hhandler hstill⟩, fun _ _ => eachStep_nil _ _⟩
    simp [hpushed]
  have hconnects := NamedConfig.ConnectsLater.intro hidle hcall hwaits hleaves htop hreport
    hhandlers hleavesToo hfinished hreturn
  rw [hheap] at hconnects
  exact ⟨n, n', hrun, hconnects, hremote⟩

theorem connections_agree_iff_sample : ∃ n n₁ n₂ : NamedConfig ℕ ℕ SampleHandler,
    run (NamedConfig.step .epoll) {} [.newSocket 3 none ⟨0, 0, 5, 80⟩] = some n ∧
      NamedConfig.ConnectionsAgree 0 5 80 n n₁ n₂ 0 0 := by
  obtain ⟨n, n₁, hrun, h₁⟩ := new_socket_connects ⟨0, 0, 5, 80⟩
  obtain ⟨n', n₂, hrun', h₂, -⟩ := new_socket_connects_later ⟨0, 0, 5, 80⟩
  obtain rfl := Option.some.inj (hrun.symm.trans hrun')
  have hmemory : n.addresses = [⟨inaddrNone, 0, 5, 80⟩] :=
    (congrArg NamedConfig.addresses (Option.some.inj hrun)).symm
  refine ⟨n, n₁, n₂, hrun, (NamedConfig.connections_agree_iff hrun h₁ h₂).mpr ?_⟩
  rw [hmemory]
  rfl

/-- After the deferred connection `remote_addr` returns what was in the memory. -/
theorem deferred_connection_has_no_address : ∃ n n₁ n₂ : NamedConfig ℕ ℕ SampleHandler,
    run (NamedConfig.step .epoll) {} [.newSocket 3 none ⟨0, 0, 0, 0⟩] = some n ∧
      NamedConfig.ConnectsAtOnce .epoll 0 5 80 n n₁ 0 ∧
      NamedConfig.ConnectsLater .epoll 0 5 80 n n₂ 0 ∧ n₂.remoteAddr 0 = some (0, 0) ∧
      ¬ NamedConfig.ConnectionsAgree 0 5 80 n n₁ n₂ 0 0 := by
  obtain ⟨n, n₁, hrun, h₁⟩ := new_socket_connects ⟨0, 0, 0, 0⟩
  obtain ⟨n', n₂, hrun', h₂, hremote⟩ := new_socket_connects_later ⟨0, 0, 0, 0⟩
  obtain rfl := Option.some.inj (hrun.symm.trans hrun')
  refine ⟨n, n₁, n₂, hrun, h₁, h₂, hremote, fun hagree => ?_⟩
  have heq := hremote.symm.trans hagree.remote.2
  revert heq
  decide

end Libasync.Reactor
