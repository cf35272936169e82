import Libasync.Reactor.Addresses
import Libasync.Reactor.Turns

/-! # Names that stay

What `local_addr` and `remote_addr` return is stored in the socket. A stored name is written once:
whatever the program and the kernel do afterwards, the same name is returned. -/

namespace Libasync.Reactor

open Promise Socket Automaton

variable {V E F : Type*}

/-! ## The name of a server socket -/

/-- `ServerSocket::local_addr`; the port is stored in an `in_addr_t`. -/
def NamedConfig.serverLocalAddr (n : NamedConfig V E F) (j : ℕ) : Option (InAddr × InPort) :=
  match n.world.servers[j]?, n.serverAddresses[j]? with
  | some server, some a =>
      if server.status = .listening then some (a.localAddr, a.localPort.toUInt16) else none
  | _, _ => none

/-- What a step does to the server sockets. -/
inductive ServersMoved (l : Label) (before : List ServerSocketData) :
    List ServerSocketData → Prop where
  | same (unmade : ∀ fd, l ≠ .newServer fd none) : ServersMoved l before before
  | made (fd) (label : l = .newServer fd none) :
      ServersMoved l before (before ++ [{ fd := fd }])
  | listens (j server count count') (label : l = .listen j (.ret count) (.ret count'))
      (get : before[j]? = some server) (idle : server.status = .idle) :
      ServersMoved l before (before.set j { server with status := .listening })
  | closes (j server count) (label : l = .closeServer j (.ret count))
      (get : before[j]? = some server) :
      ServersMoved l before (before.set j { server with status := .closed })

theorem modify_eq_set {α : Type*} {xs : List α} {j : ℕ} {x : α} (f : α → α)
    (h : xs[j]? = some x) : xs.modify j f = xs.set j (f x) := by
  rw [List.modify_eq_set_getElem?, h]
  rfl

section Machine

variable [Blank V] {backend : Backend} {w w' : World V E F} {l : Label} {eff : Effect}

theorem userStep_servers (h : userStep backend w l = some (w', eff)) :
    ServersMoved l w.servers w'.servers := by
  cases l with
  | newServer fd failure =>
      simp only [userStep] at h
      cases failure with
      | none =>
          simp only [World.newServer, Option.ite_none_right_eq_some, Option.some.injEq,
            Prod.mk.injEq] at h
          obtain ⟨-, rfl, -⟩ := h
          exact .made fd rfl
      | some failure =>
          simp only [World.newServer, Option.ite_none_right_eq_some, Option.some.injEq,
            Prod.mk.injEq] at h
          obtain ⟨-, rfl, -⟩ := h
          exact .same (by simp)
  | listen j bound listening =>
      cases hget : w.servers[j]? with
      | none => simp [userStep, World.listen, hget] at h
      | some server =>
          simp only [userStep, World.listen, hget] at h
          by_cases hidle : server.status = .idle
          · simp only [hidle, ne_eq, not_true_eq_false, if_false] at h
            split at h
            · simp only [Option.some.injEq, Prod.mk.injEq] at h
              rw [← h.1]
              exact .same (by simp)
            · simp only [Option.some.injEq, Prod.mk.injEq] at h
              rw [← h.1]
              exact .same (by simp)
            · rename_i hbound hlistening
              simp only [Option.ite_none_right_eq_some, Option.some.injEq, Prod.mk.injEq] at h
              obtain ⟨-, rfl, -⟩ := h
              obtain ⟨count, rfl⟩ : ∃ count, bound = .ret count := by
                cases bound with
                | ret count => exact ⟨count, rfl⟩
                | err errno => exact absurd rfl (hbound errno)
              obtain ⟨count', rfl⟩ : ∃ count', listening = .ret count' := by
                cases listening with
                | ret count' => exact ⟨count', rfl⟩
                | err errno => exact absurd rfl (hlistening errno)
              rw [World.modifyServer, modify_eq_set _ hget]
              exact .listens j server count count' rfl hget hidle
          · simp only [hidle, ne_eq, not_false_eq_true, if_true, Option.some.injEq,
              Prod.mk.injEq] at h
            rw [← h.1]
            exact .same (by simp)
  | closeServer j answer =>
      cases hget : w.servers[j]? with
      | none => simp [userStep, World.closeServer, hget] at h
      | some server =>
          simp only [userStep, World.closeServer, hget] at h
          cases answer with
          | err errno =>
              simp only [Option.some.injEq, Prod.mk.injEq] at h
              rw [← h.1]
              exact .same (by simp)
          | ret count =>
              simp only [Option.ite_none_right_eq_some, Option.some.injEq, Prod.mk.injEq] at h
              obtain ⟨-, rfl, -⟩ := h
              have hmoved := ServersMoved.closes j server count rfl hget
              rw [← modify_eq_set (fun server => { server with status := .closed }) hget] at hmoved
              exact hmoved
  | newSocket | createFails | connect | write | close | poll | pollFails =>
      have hsame : w'.servers = w.servers := by
        simp only [userStep, World.newSocket, World.connect, World.write, World.closeSocket,
          World.closeRest, World.poll] at h
        repeat' split at h
        all_goals simp only [Option.some.injEq, Prod.mk.injEq, reduceCtorEq] at h
        all_goals
          obtain ⟨rfl, -⟩ := h
          rfl
      rw [hsame]
      exact .same (by simp)
  | handler | return_ | throw_ | tau | read answers | soError answer | flush answers
  | closing answer | accept answer => cases h

theorem libraryStep_servers {frame : Frame} (h : libraryStep backend w frame l = some (w', eff)) :
    w'.servers = w.servers := by
  simp only [libraryStep] at h
  split at h
  case h_2 | h_6 =>
    simp only [Option.some.injEq, Prod.mk.injEq] at h
    rw [← h.1]
  case h_12 => cases h
  all_goals
    simp only [World.unregTail, World.readEvent, World.endOfFile, World.connectEvent,
      World.flushEvent, World.closeSocket, World.closeRest, World.acceptEvent,
      World.dispatch] at h
    repeat' split at h
    all_goals simp only [Option.some.injEq, Prod.mk.injEq, reduceCtorEq] at h
    all_goals
      obtain ⟨rfl, -⟩ := h
      rfl

theorem Stepped.servers {c c' : Config V E F} (h : Stepped backend c l c') :
    ServersMoved l c.world.servers c'.world.servers := by
  cases h with
  | handler | return_ | throw_ => exact .same (by simp)
  | user w handlers rest l w' eff call =>
      rw [Config.after_world]
      exact userStep_servers call
  | library w frame rest l w' eff piece =>
      rw [Config.after_world, libraryStep_servers piece]
      refine .same fun fd hl => ?_
      have hlabel := libraryStep_label piece
      rw [hl] at hlabel
      cases hlabel

/-! ## What is over once and for all -/

omit [Blank V] in
theorem ServersMoved.started {before after : List ServerSocketData}
    (h : ServersMoved l before after) {j : ℕ} {server : ServerSocketData}
    (hget : before[j]? = some server) (hstarted : server.status ≠ .idle) :
    ∃ server', after[j]? = some server' ∧ server'.status ≠ .idle := by
  have hj : j < before.length := (List.getElem?_eq_some_iff.mp hget).1
  cases h with
  | same unmade => exact ⟨server, hget, hstarted⟩
  | made fd label => exact ⟨server, by rw [List.getElem?_append_left hj, hget], hstarted⟩
  | listens k old count count' label get idle =>
      have hk : k ≠ j := by
        rintro rfl
        obtain rfl := Option.some.inj (get.symm.trans hget)
        exact hstarted idle
      exact ⟨server, by rw [List.getElem?_set_ne hk, hget], hstarted⟩
  | closes k old count label get =>
      by_cases hk : k = j
      · subst hk
        exact ⟨_, List.getElem?_set_self hj, by simp⟩
      · exact ⟨server, by rw [List.getElem?_set_ne hk, hget], hstarted⟩

/-- A socket that has left `IDLE` never comes back to it. -/
theorem Stepped.started {c c' : Config V E F} (h : Stepped backend c l c') {i : ℕ}
    {sock : SocketObject} (hget : c.world.sockets[i]? = some sock)
    (hstarted : sock.status ≠ .idle) :
    ∃ sock', c'.world.sockets[i]? = some sock' ∧ sock'.status ≠ .idle := by
  obtain ⟨sock', names, hmoved, hget', -⟩ := h.moved hget
  refine ⟨sock', hget', ?_⟩
  cases hmoved with
  | stays => exact hstarted
  | turns top rest w' eff sock' names stack turn =>
      cases turn with
      | quiet | read | refused => exact hstarted
      | connected | connecting | halfClosed | fullClosed | eofFirst | eofAgain | established => simp
      | wrote handlers data answers w' eff r written promises =>
          cases SocketData.wrote written <;> exact hstarted
      | flushed since answers w' eff r settled written promises =>
          cases SocketData.flushed written <;> exact hstarted

end Machine

namespace NamedConfig

variable {n n' n'' : NamedConfig V E F} {i j : ℕ}

def Started (n : NamedConfig V E F) (i : ℕ) : Prop :=
  ∃ sock, n.world.sockets[i]? = some sock ∧ sock.status ≠ .idle

def ServerStarted (n : NamedConfig V E F) (j : ℕ) : Prop :=
  ∃ server, n.world.servers[j]? = some server ∧ server.status ≠ .idle

/-- The stored names are the same later: a local address that is known, the remote address of a
socket that has left `IDLE`, and the address of a server socket that has. -/
structure Keeps (n n' : NamedConfig V E F) : Prop where
  started : ∀ i, n.Started i → n'.Started i
  serverStarted : ∀ j, n.ServerStarted j → n'.ServerStarted j
  addresses : ∀ i a, n.addresses[i]? = some a → ∃ a', n'.addresses[i]? = some a' ∧
    (a.localAddr ≠ inaddrNone → a'.localAddr = a.localAddr ∧ a'.localPort = a.localPort) ∧
    (n.Started i → a'.remoteAddr = a.remoteAddr ∧ a'.remotePort = a.remotePort)
  servers : ∀ j a, n.serverAddresses[j]? = some a → n.ServerStarted j →
    n'.serverAddresses[j]? = some a

theorem Keeps.refl (n : NamedConfig V E F) : Keeps n n where
  started _ h := h
  serverStarted _ h := h
  addresses _ a h := ⟨a, h, fun _ => ⟨rfl, rfl⟩, fun _ => ⟨rfl, rfl⟩⟩
  servers _ _ h _ := h

theorem Keeps.trans (h : Keeps n n') (h' : Keeps n' n'') : Keeps n n'' where
  started i hi := h'.started i (h.started i hi)
  serverStarted j hj := h'.serverStarted j (h.serverStarted j hj)
  addresses i a ha := by
    obtain ⟨a', ha', hlocal, hremote⟩ := h.addresses i a ha
    obtain ⟨a'', ha'', hlocal', hremote'⟩ := h'.addresses i a' ha'
    refine ⟨a'', ha'', fun hknown => ?_, fun hstarted => ?_⟩
    · obtain ⟨haddr, hport⟩ := hlocal hknown
      obtain ⟨haddr', hport'⟩ := hlocal' (by rwa [haddr])
      exact ⟨haddr'.trans haddr, hport'.trans hport⟩
    · obtain ⟨haddr, hport⟩ := hremote hstarted
      obtain ⟨haddr', hport'⟩ := hremote' (h.started i hstarted)
      exact ⟨haddr'.trans haddr, hport'.trans hport⟩
  servers j a ha hstarted := h'.servers j a (h.servers j a ha hstarted) (h.serverStarted j hstarted)

/-- A call that writes a local address where there is none. -/
theorem Keeps.setLocal {a₀ a₁ : Addresses} (hget : n.addresses[i]? = some a₀)
    (hnone : a₀.localAddr = inaddrNone)
    (hremote : a₁.remoteAddr = a₀.remoteAddr ∧ a₁.remotePort = a₀.remotePort) :
    Keeps n { n with addresses := n.addresses.set i a₁ } where
  started _ h := h
  serverStarted _ h := h
  servers _ _ h _ := h
  addresses k a ha := by
    by_cases hk : i = k
    · subst hk
      obtain rfl := Option.some.inj (hget.symm.trans ha)
      have hi : i < n.addresses.length := (List.getElem?_eq_some_iff.mp ha).1
      exact ⟨a₁, List.getElem?_set_self hi, fun hknown => absurd hnone hknown, fun _ => hremote⟩
    · exact ⟨a, by rw [List.getElem?_set_ne hk, ha], fun _ => ⟨rfl, rfl⟩, fun _ => ⟨rfl, rfl⟩⟩

theorem Keeps.bind {addr : InAddr} {port : InPort} {answer : Answer}
    {result : Except SocketError Unit} (h : n.bind i addr port answer = some (n', result)) :
    Keeps n n' := by
  simp only [NamedConfig.bind] at h
  split at h
  · rename_i sock a hsock hget
    by_cases hskip : sock.status ≠ .idle ∨ a.localAddr ≠ inaddrNone
    · simp only [hskip, if_true, Option.some.injEq, Prod.mk.injEq] at h
      rw [← h.1]
      exact .refl n
    · simp only [hskip, if_false, Option.ite_none_right_eq_some] at h
      obtain ⟨-, h⟩ := h
      cases answer with
      | err errno =>
          simp only [Option.some.injEq, Prod.mk.injEq] at h
          rw [← h.1]
          exact .refl n
      | ret count =>
          simp only [Option.some.injEq, Prod.mk.injEq] at h
          rw [← h.1]
          refine .setLocal hget ?_ ⟨rfl, rfl⟩
          by_contra hknown
          exact hskip (.inr hknown)
  · cases h

theorem Keeps.localAddr {answer : NameAnswer}
    {result : Except SocketError (Option (InAddr × InPort))}
    (h : n.localAddr i answer = some (n', result)) : Keeps n n' := by
  simp only [NamedConfig.localAddr] at h
  split at h
  · rename_i sock a hsock hget
    by_cases hconnected : sock.status = .connected
    · by_cases hnone : a.localAddr = inaddrNone
      · rw [if_neg (not_not.mpr hconnected), if_pos hnone, Option.ite_none_right_eq_some] at h
        obtain ⟨-, h⟩ := h
        cases answer with
        | err errno =>
            simp only [Option.some.injEq, Prod.mk.injEq] at h
            rw [← h.1]
            exact .refl n
        | name addr port =>
            simp only [Option.some.injEq, Prod.mk.injEq] at h
            rw [← h.1]
            exact .setLocal hget hnone ⟨rfl, rfl⟩
      · rw [if_neg (not_not.mpr hconnected), if_neg hnone, Option.some.injEq, Prod.mk.injEq] at h
        rw [← h.1]
        exact .refl n
    · rw [if_pos hconnected, Option.some.injEq, Prod.mk.injEq] at h
      rw [← h.1]
      exact .refl n
  · cases h

/-- What the steps of the machine do with the addresses of sockets. -/
theorem addressesAfter_keeps (backend : Backend) (l : NamedLabel) {a : Addresses}
    (hget : n.addresses[i]? = some a) :
    ∃ a', (n.addressesAfter backend l)[i]? = some a' ∧ a'.localAddr = a.localAddr ∧
      a'.localPort = a.localPort ∧
      (n.Started i → a'.remoteAddr = a.remoteAddr ∧ a'.remotePort = a.remotePort) := by
  have hi : i < n.addresses.length := (List.getElem?_eq_some_iff.mp hget).1
  have hsame : ∃ a', n.addresses[i]? = some a' ∧ a'.localAddr = a.localAddr ∧
      a'.localPort = a.localPort ∧
      (n.Started i → a'.remoteAddr = a.remoteAddr ∧ a'.remotePort = a.remotePort) :=
    ⟨a, hget, rfl, rfl, fun _ => ⟨rfl, rfl⟩⟩
  have hnew (new : Addresses) : ∃ a', (n.addresses ++ [new])[i]? = some a' ∧
      a'.localAddr = a.localAddr ∧ a'.localPort = a.localPort ∧
      (n.Started i → a'.remoteAddr = a.remoteAddr ∧ a'.remotePort = a.remotePort) := by
    rw [List.getElem?_append_left hi]
    exact hsame
  simp only [addressesAfter]
  split
  · exact hnew _
  · rename_i k addr port count
    by_cases hidle : n.world.status? k = some .idle
    · rw [if_pos hidle, List.getElem?_modify, hget]
      by_cases hk : k = i
      · subst hk
        refine ⟨{ a with remoteAddr := addr, remotePort := port }, by simp, rfl, rfl, ?_⟩
        rintro ⟨sock, hsock, hne⟩
        rw [World.status?_eq _ hsock] at hidle
        exact absurd (Option.some.inj hidle) hne
      · exact ⟨a, by simp [hk], rfl, rfl, fun _ => ⟨rfl, rfl⟩⟩
    · rw [if_neg hidle]
      exact hsame
  · split
    · split
      · exact hnew _
      · exact hnew _
    · exact hsame
  · exact hnew _
  · exact hsame

/-- What they do with the addresses of server sockets. -/
theorem serversAfter_keeps (l : NamedLabel) {a : ServerAddresses}
    (hget : n.serverAddresses[j]? = some a) (hstarted : n.ServerStarted j) :
    (n.serversAfter l)[j]? = some a := by
  have hj : j < n.serverAddresses.length := (List.getElem?_eq_some_iff.mp hget).1
  simp only [serversAfter]
  split
  · rw [List.getElem?_append_left hj, hget]
  · rename_i k addr port count count'
    split
    · rename_i hidle
      have hk : k ≠ j := by
        rintro rfl
        obtain ⟨server, hserver, hne⟩ := hstarted
        rw [hserver] at hidle
        exact hne (by simpa using hidle)
      rw [List.getElem?_set_ne hk, hget]
    · exact hget
  · exact hget

variable [Blank V] {backend : Backend} {l : NamedLabel}

theorem Keeps.step (h : n.step backend l = some n') : Keeps n n' := by
  cases hlabel : l.label? with
  | none =>
      simp only [NamedConfig.step, hlabel, callStep] at h
      split at h
      · obtain ⟨r, hr, rfl⟩ := Option.map_eq_some_iff.mp h
        exact .bind hr
      · obtain ⟨r, hr, rfl⟩ := Option.map_eq_some_iff.mp h
        exact .localAddr hr
      · cases h
  | some label =>
      simp only [NamedConfig.step, hlabel] at h
      obtain ⟨c, hc, rfl⟩ := Option.map_eq_some_iff.mp h
      have hstepped := stepped hc
      refine ⟨?_, ?_, ?_, ?_⟩
      · rintro i ⟨sock, hget, hne⟩
        exact hstepped.started hget hne
      · rintro j ⟨server, hget, hne⟩
        exact hstepped.servers.started hget hne
      · intro i a hget
        obtain ⟨a', hget', haddr, hport, hremote⟩ := addressesAfter_keeps backend l hget
        exact ⟨a', hget', fun _ => ⟨haddr, hport⟩, hremote⟩
      · intro j a hget hstarted
        exact serversAfter_keeps l hget hstarted

theorem Keeps.run {ls : List NamedLabel}
    (h : Automaton.run (NamedConfig.step backend) n ls = some n') : Keeps n n' :=
  run_invariant_of_step (I := Keeps n) (fun _ _ _ hk hl => hk.trans (.step hl)) (.refl n) h

/-! ## Where the name of a server socket comes from -/

/-- The labels that come with an address of a server socket. -/
theorem label?_eq_listen {j : ℕ} {bound listening : Answer}
    (h : l.label? = some (.listen j bound listening)) :
    ∃ addr port, l = .listen j addr port bound listening := by
  cases l with
  | listen k addr port bound' listening' =>
      obtain ⟨rfl, rfl, rfl⟩ := Label.listen.inj (Option.some.inj h)
      exact ⟨addr, port, rfl⟩
  | other l =>
      simp only [NamedLabel.label?, Option.ite_none_left_eq_some, Option.some.injEq] at h
      obtain ⟨hnot, rfl⟩ := h
      exact absurd rfl hnot
  | newSocket | newServer | connect | accept => cases Option.some.inj h
  | bind | localAddr => cases h

theorem label?_eq_newServer {fd : Fd} (h : l.label? = some (.newServer fd none)) :
    ∃ memory, l = .newServer fd none memory := by
  cases l with
  | newServer fd' failure memory =>
      obtain ⟨rfl, rfl⟩ := Label.newServer.inj (Option.some.inj h)
      exact ⟨memory, rfl⟩
  | other l =>
      simp only [NamedLabel.label?, Option.ite_none_left_eq_some, Option.some.injEq] at h
      obtain ⟨hnot, rfl⟩ := h
      exact absurd rfl hnot
  | newSocket | listen | connect | accept => cases Option.some.inj h
  | bind | localAddr => cases h

/-- A server socket that listens has the address of the `listen` that has succeeded. -/
structure Listens (ls : List NamedLabel) (n : NamedConfig V E F) : Prop where
  length : n.serverAddresses.length = n.world.servers.length
  address : ∀ j server, n.world.servers[j]? = some server → server.status = .listening →
    ∃ addr port count count', .listen j addr port (.ret count) (.ret count') ∈ ls ∧
      n.serverAddresses[j]? = some ⟨addr, port.toUInt32⟩

omit [Blank V] in
theorem serversAfter_length (h : ∀ fd memory, l ≠ .newServer fd none memory) :
    (n.serversAfter l).length = n.serverAddresses.length := by
  simp only [serversAfter]
  split
  · rename_i fd memory
    exact absurd rfl (h fd memory)
  · split
    · exact List.length_set
    · rfl
  · rfl

omit [Blank V] in
/-- No server socket comes to listen. -/
theorem Listens.mono {ls : List NamedLabel} (h : Listens ls n) (hkeeps : Keeps n n')
    (hlength : n'.serverAddresses.length = n'.world.servers.length)
    (hold : ∀ (j : ℕ) (server : ServerSocketData), n'.world.servers[j]? = some server →
      server.status = .listening → n.world.servers[j]? = some server) : Listens (ls ++ [l]) n' where
  length := hlength
  address j server hget hlistening := by
    have hbefore := hold j server hget hlistening
    obtain ⟨addr, port, count, count', hmem, haddress⟩ := h.address j server hbefore hlistening
    refine ⟨addr, port, count, count', List.mem_append_left _ hmem, ?_⟩
    exact hkeeps.servers j _ haddress ⟨server, hbefore, by simp [hlistening]⟩

theorem Listens.step {ls : List NamedLabel} (h : Listens ls n) (hl : n.step backend l = some n') :
    Listens (ls ++ [l]) n' := by
  have hkeeps := Keeps.step hl
  cases hlabel : l.label? with
  | none =>
      have hcall : n.callStep l = some n' := by simpa [NamedConfig.step, hlabel] using hl
      have hconfig := callStep_config hcall
      have hservers : n'.serverAddresses = n.serverAddresses := by
        simp only [callStep, NamedConfig.bind, NamedConfig.localAddr] at hcall
        repeat' split at hcall
        all_goals simp only [Option.map_some, Option.map_none, Option.some.injEq,
          reduceCtorEq] at hcall
        all_goals rw [← hcall]
      refine h.mono hkeeps ?_ fun j server hget _ => ?_
      · rw [hservers, h.length, hconfig]
      · rwa [hconfig] at hget
  | some label =>
      simp only [NamedConfig.step, hlabel] at hl
      obtain ⟨c, hc, rfl⟩ := Option.map_eq_some_iff.mp hl
      have hmoved := (stepped hc).servers
      generalize hafter : c.world.servers = after at hmoved
      have hother (hne : ∀ fd, label ≠ .newServer fd none) :
          (n.serversAfter l).length = n.serverAddresses.length := by
        apply serversAfter_length
        rintro fd memory rfl
        exact hne fd (Option.some.inj hlabel).symm
      cases hmoved with
      | same unmade =>
          refine h.mono hkeeps ((hother unmade).trans (h.length.trans (by rw [hafter]))) ?_
          intro j server hget _
          rwa [hafter] at hget
      | made fd made =>
          obtain ⟨memory, rfl⟩ := label?_eq_newServer (hlabel.trans (congrArg some made))
          refine h.mono hkeeps ?_ fun j server hget hlistening => ?_
          · simp [serversAfter, h.length, hafter]
          · rw [hafter] at hget
            rcases Nat.lt_or_ge j n.world.servers.length with hj | hj
            · rwa [List.getElem?_append_left hj] at hget
            · rw [List.getElem?_append_right hj] at hget
              obtain rfl := List.mem_singleton.mp (List.mem_of_getElem? hget)
              cases hlistening
      | closes k old count closed get =>
          refine h.mono hkeeps ?_ fun j server hget hlistening => ?_
          · rw [hother (by simp [closed]), h.length, hafter, List.length_set]
          · rw [hafter] at hget
            by_cases hk : k = j
            · subst hk
              rw [List.getElem?_set_self (List.getElem?_eq_some_iff.mp get).1] at hget
              obtain rfl := Option.some.inj hget
              cases hlistening
            · rwa [List.getElem?_set_ne hk] at hget
      | listens k old count count' listening get idle =>
          obtain ⟨addr, port, rfl⟩ := label?_eq_listen (hlabel.trans (congrArg some listening))
          have hset : n.serversAfter (.listen k addr port (.ret count) (.ret count')) =
              n.serverAddresses.set k ⟨addr, port.toUInt32⟩ := by
            simp [serversAfter, get, idle]
          have hk : k < n.serverAddresses.length := by
            rw [h.length]
            exact (List.getElem?_eq_some_iff.mp get).1
          refine ⟨?_, fun j server hget hlistening => ?_⟩
          · rw [hset, List.length_set, h.length, hafter, List.length_set]
          · by_cases hj : k = j
            · subst hj
              refine ⟨addr, port, count, count', by simp, ?_⟩
              rw [hset, List.getElem?_set_self hk]
            · rw [hafter, List.getElem?_set_ne hj] at hget
              obtain ⟨addr', port', m, m', hmem, haddress⟩ := h.address j server hget hlistening
              refine ⟨addr', port', m, m', List.mem_append_left _ hmem, ?_⟩
              rw [hset, List.getElem?_set_ne hj, haddress]

theorem Listens.run {ls : List NamedLabel}
    (h : Automaton.run (NamedConfig.step backend) ({} : NamedConfig V E F) ls = some n) :
    Listens ls n := by
  have hguard : EachStep (NamedConfig.step backend) (fun _ _ => True) ({} : NamedConfig V E F) ls :=
    fun _ _ _ _ _ _ => trivial
  refine reached_of_eachStep (I := Listens) ⟨rfl, by simp⟩ ?_ hguard h
  intro ls u l v _ hlistens _ hstep
  exact hlistens.step hstep

/-! ## Names -/

omit [Blank V] in
/-- The name that a call of `local_addr` returns was known before, or is stored. -/
theorem localAddr_returns {answer : NameAnswer} {name : InAddr × InPort} {a : Addresses}
    (hget : n.addresses[i]? = some a) (h : n.localAddr i answer = some (n', .ok (some name))) :
    (a.localAddr ≠ inaddrNone → name = (a.localAddr, a.localPort)) ∧
      ∃ a', n'.addresses[i]? = some a' ∧ (a'.localAddr, a'.localPort) = name := by
  simp only [NamedConfig.localAddr, hget] at h
  cases hsock : n.world.sockets[i]? with
  | none => simp [hsock] at h
  | some sock =>
      simp only [hsock] at h
      by_cases hconnected : sock.status = .connected
      · by_cases hnone : a.localAddr = inaddrNone
        · rw [if_neg (not_not.mpr hconnected), if_pos hnone, Option.ite_none_right_eq_some] at h
          obtain ⟨-, h⟩ := h
          cases answer with
          | err errno => simp at h
          | name addr port =>
              simp only [Option.some.injEq, Prod.mk.injEq, Except.ok.injEq] at h
              obtain ⟨rfl, rfl⟩ := h
              have hi : i < n.addresses.length := (List.getElem?_eq_some_iff.mp hget).1
              exact ⟨fun hknown => absurd hnone hknown, _, List.getElem?_set_self hi, rfl⟩
        · rw [if_neg (not_not.mpr hconnected), if_neg hnone] at h
          simp only [Option.some.injEq, Prod.mk.injEq, Except.ok.injEq] at h
          obtain ⟨rfl, rfl⟩ := h
          exact ⟨fun _ => rfl, a, hget, rfl⟩
      · simp [hconnected] at h

omit [Blank V] in
theorem remoteAddr_eq_some {name : InAddr × InPort} (h : n.remoteAddr i = some name) :
    n.Started i ∧ ∃ a, n.addresses[i]? = some a ∧ (a.remoteAddr, a.remotePort) = name := by
  simp only [NamedConfig.remoteAddr, Option.ite_none_right_eq_some] at h
  obtain ⟨hstatus, h⟩ := h
  obtain ⟨a, ha, rfl⟩ := Option.map_eq_some_iff.mp h
  refine ⟨?_, a, ha, rfl⟩
  cases hsock : n.world.sockets[i]? with
  | none => simp [World.status?, World.core?, hsock] at hstatus
  | some sock =>
      rw [World.status?_eq _ hsock] at hstatus
      exact ⟨sock, hsock, by simp [Option.some.inj hstatus]⟩

omit [Blank V] in
theorem serverLocalAddr_eq_some {name : InAddr × InPort} (h : n.serverLocalAddr j = some name) :
    ∃ server a, n.world.servers[j]? = some server ∧ server.status = .listening ∧
      n.serverAddresses[j]? = some a ∧ (a.localAddr, a.localPort.toUInt16) = name := by
  simp only [serverLocalAddr] at h
  split at h
  · rename_i server a hserver ha
    obtain ⟨hlistening, hname⟩ := Option.ite_none_right_eq_some.mp h
    exact ⟨server, a, hserver, hlistening, ha, Option.some.inj hname⟩
  · cases h

/-- What is known of the names of sockets and server sockets stays as it is. -/
structure NamesStay (n n' : NamedConfig V E F) : Prop where
  localAddr : ∀ i a answer m name, n.addresses[i]? = some a → a.localAddr ≠ inaddrNone →
    n'.localAddr i answer = some (m, .ok (some name)) → name = (a.localAddr, a.localPort)
  remoteAddr : ∀ i name name', n.remoteAddr i = some name → n'.remoteAddr i = some name' →
    name' = name
  serverLocalAddr : ∀ j name name', n.serverLocalAddr j = some name →
    n'.serverLocalAddr j = some name' → name' = name

/-- In every run the names stay: from the first call of `local_addr` that returns an address on, or
from the call of `bind`, all calls return this address and port, and the address of a connected
socket's peer does not change. The address of a server socket that listens is that of the one call
of `listen` that has succeeded. -/
theorem names_stay {ls ls' : List NamedLabel}
    (hrun : Automaton.run (NamedConfig.step backend) ({} : NamedConfig V E F) ls = some n)
    (hlater : Automaton.run (NamedConfig.step backend) n ls' = some n') :
    NamesStay n n' ∧
      (∀ i answer m name, n.localAddr i answer = some (m, .ok (some name)) →
        ∃ a, m.addresses[i]? = some a ∧ (a.localAddr, a.localPort) = name) ∧
      ∀ j name, n.serverLocalAddr j = some name →
        ∃ count count', .listen j name.1 name.2 (.ret count) (.ret count') ∈ ls := by
  have hkeeps := Keeps.run hlater
  refine ⟨⟨?_, ?_, ?_⟩, ?_, ?_⟩
  · intro i a answer m name hget hknown hcall
    obtain ⟨a', hget', hlocal, -⟩ := hkeeps.addresses i a hget
    obtain ⟨haddr, hport⟩ := hlocal hknown
    have hname := (localAddr_returns hget' hcall).1 (by rwa [haddr])
    rw [hname, haddr, hport]
  · intro i name name' h h'
    obtain ⟨hstarted, a, hget, rfl⟩ := remoteAddr_eq_some h
    obtain ⟨-, a', hget', rfl⟩ := remoteAddr_eq_some h'
    obtain ⟨a'', hget'', -, hremote⟩ := hkeeps.addresses i a hget
    obtain rfl := Option.some.inj (hget'.symm.trans hget'')
    obtain ⟨haddr, hport⟩ := hremote hstarted
    rw [haddr, hport]
  · intro j name name' h h'
    obtain ⟨server, a, hserver, hlistening, hget, rfl⟩ := serverLocalAddr_eq_some h
    obtain ⟨-, a', -, -, hget', rfl⟩ := serverLocalAddr_eq_some h'
    have hsame := hkeeps.servers j a hget ⟨server, hserver, by simp [hlistening]⟩
    obtain rfl := Option.some.inj (hget'.symm.trans hsame)
    rfl
  · intro i answer m name hcall
    cases hget : n.addresses[i]? with
    | none => simp [NamedConfig.localAddr, hget] at hcall
    | some a => exact (localAddr_returns hget hcall).2
  · intro j name h
    obtain ⟨server, a, hserver, hlistening, hget, rfl⟩ := serverLocalAddr_eq_some h
    obtain ⟨addr, port, count, count', hmem, haddress⟩ :=
      (Listens.run hrun).address j server hserver hlistening
    obtain rfl := Option.some.inj (hget.symm.trans haddress)
    exact ⟨count, count', by simpa using hmem⟩

/-- A socket is bound and connected, and a server socket listens; then `bind`, `local_addr` and
`listen` are called again. -/
theorem names_stay_sample : ∃ n n' : NamedConfig ℕ ℕ SampleHandler,
    n.addresses = [⟨7, 70, 8, 80⟩] ∧ NamesStay n n' ∧ n'.remoteAddr 0 = some (8, 80) ∧
      n'.serverLocalAddr 0 = some (9, 90) := by
  obtain ⟨n, n', hrun, hlater, haddresses, hremote, hserver⟩ :
      ∃ n n' : NamedConfig ℕ ℕ SampleHandler,
        Automaton.run (NamedConfig.step .epoll) {} [.newSocket 3 none ⟨0, 0, 0, 0⟩,
          .bind 0 7 70 (.ret 0), .connect 0 8 80 (.ret 0), .other .return_, .other .tau,
          .newServer 4 none ⟨0, 0⟩, .listen 0 9 90 (.ret 0) (.ret 0)] = some n ∧
        Automaton.run (NamedConfig.step .epoll) n [.bind 0 1 10 (.ret 0),
          .localAddr 0 (.name 2 20), .listen 0 3 30 (.ret 0) (.ret 0)] = some n' ∧
        n.addresses = [⟨7, 70, 8, 80⟩] ∧ n'.remoteAddr 0 = some (8, 80) ∧
        n'.serverLocalAddr 0 = some (9, 90) := ⟨_, _, rfl, rfl, rfl, rfl, rfl⟩
  exact ⟨n, n', haddresses, (names_stay hrun hlater).1, hremote, hserver⟩

end NamedConfig

end Libasync.Reactor
