import Libasync.Foundation.Run
import Libasync.Reactor.Model
import Mathlib.Logic.Relation

/-! # Elementary changes of the world

Every piece of the machine is a sequence of the changes below. What a step may do is a parameter
of them: a step that closes and opens nothing, for example, permits neither. -/

namespace Libasync.Reactor

open Promise Socket

variable {V E F : Type*}

namespace World

/-- The descriptor number and the status of a socket. -/
def core? (w : World V E F) (i : ℕ) : Option (Fd × Status) :=
  (w.sockets[i]?).map fun sock => (sock.fd, sock.status)

def status? (w : World V E F) (i : ℕ) : Option Status := (w.core? i).map Prod.snd

def fd? (w : World V E F) (i : ℕ) : Option Fd := (w.core? i).map Prod.fst

def serverFd? (w : World V E F) (j : ℕ) : Option Fd :=
  (w.servers[j]?).map ServerSocketData.fd

end World

/-- Happenings that do not bear on the closing of a socket. -/
def Happening.Neutral : Happening → Prop
  | .io .. | .delivered .. => True
  | .triggered (.socket _) name => name ≠ .close
  | .triggered (.server _) _ => True
  | .closeCalled _ | .closed .. | .endOfFile _ => False

/-- Descriptors, table, event buffer, numbers and statuses stay as they are. -/
structure Neutral (w w' : World V E F) : Prop where
  core : ∀ i, w'.core? i = w.core? i
  servers : ∀ j, w'.serverFd? j = w.serverFd? j
  table : w'.table = w.table
  descriptors : w'.descriptors = w.descriptors
  events : w'.events = w.events
  log : ∃ rest, w'.log = w.log ++ rest ∧ ∀ h ∈ rest, h.Neutral

/-- What a step may do: close or unregister a number for a target, give a number to a new object,
read an end of file, take one while the socket is half closed, fill the event buffer and insert a
null pointer in the table. -/
structure Permits where
  closes : Target → Fd → Prop
  unregisters : Target → Fd → Prop
  opens : Fd → Prop
  readsEof : ℕ → Prop
  eofAgain : ℕ → Prop
  polls : List (Event × Target) → Prop
  nullEntry : Prop

/-- Nothing is permitted. -/
def Permits.none : Permits where
  closes _ _ := False
  unregisters _ _ := False
  opens _ := False
  readsEof _ := False
  eofAgain _ := False
  polls _ := False
  nullEntry := False

def Permits.DropsNothing (P : Permits) : Prop :=
  ∀ t n, ¬ P.closes t n ∧ ¬ P.unregisters t n

/-- A step that makes a new object closes nothing. -/
inductive Change (P : Permits) : World V E F → World V E F → Prop where
  | neutral {w w'} (h : Neutral w w') : Change P w w'
  | addSocket (w fd status) (free : w.free fd = true) (opens : P.opens fd)
      (noDrop : P.DropsNothing) (fresh : status = .idle ∨ status = .connected) :
      Change P w (w.addSocket fd status)
  | addServer (w fd) (free : w.free fd = true) (opens : P.opens fd)
      (noDrop : P.DropsNothing) : Change P w (w.addServer fd)
  | leak (w fd) (free : w.free fd = true) : Change P w (w.leak fd)
  | advance (w i f) (sock : SocketObject) (get : w.sockets[i]? = some sock)
      (fd_eq : (f sock).fd = sock.fd)
      (before : sock.status = .idle ∨ sock.status = .connecting)
      (after : (f sock).status = .connecting ∨ (f sock).status = .connected) :
      Change P w (w.modifySocket i f)
  | closeCalled (w t) : Change P w (w.record (.closeCalled t))
  | halfClose (w i) (sock : SocketObject) (get : w.sockets[i]? = some sock)
      (status : sock.status = .connected) (called : .closeCalled (.socket i) ∈ w.log)
      (drop : 0 ≤ sock.fd → P.closes (.socket i) sock.fd) :
      Change P w
        ((if 0 ≤ sock.fd then w.closeFd (.socket i) sock.fd else w).modifySocket i fun sock =>
          { sock with fd := -1, status := .halfClosed })
  | fullClose (w i) (sock : SocketObject) (get : w.sockets[i]? = some sock)
      (status : sock.status = .halfClosed) (fd_nonneg : 0 ≤ sock.fd)
      (called : .closeCalled (.socket i) ∈ w.log) (drop : P.closes (.socket i) sock.fd) :
      Change P w
        (((w.closeFd (.socket i) sock.fd).modifySocket i fun sock =>
          { sock with status := .closed }).record (.triggered (.socket i) .close))
  | closeServer (w j) (server : ServerSocketData) (get : w.servers[j]? = some server)
      (drop : P.closes (.server j) server.fd) :
      Change P w ((w.closeFd (.server j) server.fd).modifyServer j fun server =>
        { server with status := .closed })
  | endOfFile (w i) (allowed : P.readsEof i) : Change P w (w.record (.endOfFile i))
  | eofAgain (w i) (sock : SocketObject) (get : w.sockets[i]? = some sock)
      (status : sock.status = .halfClosed) (allowed : P.eofAgain i) (seen : .endOfFile i ∈ w.log) :
      Change P w
        ((w.modifySocket i fun sock => { sock with status := .closed }).record
          (.triggered (.socket i) .close))
  | eofFirst (w i) (sock : SocketObject) (get : w.sockets[i]? = some sock)
      (status : sock.status ≠ .halfClosed) (seen : .endOfFile i ∈ w.log) :
      Change P w (w.modifySocket i fun sock => { sock with status := .halfClosed })
  | polled (w batch) (allowed : P.polls batch) :
      Change P w { w with events := batch ++ w.events.drop batch.length }
  | unreg (w t fd) (drop : P.unregisters t fd) : Change P w (w.reactorUnreg fd)
  | nullEntry (w fd) (allowed : P.nullEntry) (missing : w.table fd = none) :
      Change P w { w with table := Function.update w.table fd (some none) }

/-- Finitely many elementary changes. -/
abbrev Changes (P : Permits) : World V E F → World V E F → Prop :=
  Relation.ReflTransGen (Change P)

/-- A property kept by every elementary change is kept by a sequence of them. -/
theorem Changes.induct {P : Permits} {I : World V E F → Prop}
    (hI : ∀ w w', I w → Change P w w' → I w') {w w' : World V E F} (h : Changes P w w')
    (hw : I w) : I w' := by
  induction h with
  | refl => exact hw
  | tail _ hstep ih => exact hI _ _ ih hstep

/-! ### Neutral changes -/

namespace Neutral

variable {w w' : World V E F}

theorem refl (w : World V E F) : Neutral w w :=
  ⟨fun _ => rfl, fun _ => rfl, rfl, rfl, rfl, [], by simp, by simp⟩

/-- Neither the sockets nor what is kept about them have changed. -/
theorem of_eq (hsockets : w'.sockets = w.sockets) (hservers : w'.servers = w.servers)
    (htable : w'.table = w.table) (hdescriptors : w'.descriptors = w.descriptors)
    (hevents : w'.events = w.events) (hlog : w'.log = w.log) : Neutral w w' :=
  ⟨fun i => by simp [World.core?, hsockets], fun j => by simp [World.serverFd?, hservers], htable,
    hdescriptors, hevents, [], by simp [hlog], by simp⟩

theorem record (w : World V E F) {h : Happening} (hn : h.Neutral) : Neutral w (w.record h) :=
  ⟨fun _ => rfl, fun _ => rfl, rfl, rfl, rfl, [h], rfl, by simpa using hn⟩

theorem recordIo (w : World V E F) (t : Target) (call : IoCall) (fd : Fd) (n : ℕ) :
    Neutral w (w.recordIo t call fd n) := by
  refine ⟨fun _ => rfl, fun _ => rfl, rfl, rfl, rfl, _, rfl, ?_⟩
  intro h hh
  rw [List.eq_of_mem_replicate hh]
  trivial

/-- A socket changes in other data than its number and status. -/
theorem modifySocket (w : World V E F) (i : ℕ) {f : SocketObject → SocketObject}
    (hf : ∀ sock, w.sockets[i]? = some sock → (f sock).fd = sock.fd ∧
      (f sock).status = sock.status) : Neutral w (w.modifySocket i f) := by
  refine ⟨?_, fun _ => rfl, rfl, rfl, rfl, [], by simp [World.modifySocket], by simp⟩
  intro k
  simp only [World.core?, World.modifySocket, List.getElem?_modify]
  by_cases hk : i = k
  · subst hk
    cases hget : w.sockets[i]? with
    | none => rfl
    | some sock => simp [hf sock hget]
  · simp [hk]

theorem trans {w'' : World V E F} (h : Neutral w w') (h' : Neutral w' w'') : Neutral w w'' := by
  obtain ⟨rest, hlog, hrest⟩ := h.log
  obtain ⟨more, hlog', hmore⟩ := h'.log
  refine ⟨fun i => (h'.core i).trans (h.core i), fun j => (h'.servers j).trans (h.servers j),
    h'.table.trans h.table, h'.descriptors.trans h.descriptors, h'.events.trans h.events,
    rest ++ more, ?_, ?_⟩
  · rw [hlog', hlog, List.append_assoc]
  · intro x hx
    exact (List.mem_append.mp hx).elim (hrest x) (hmore x)

theorem mem_of_mem (h : Neutral w w') {x : Happening} (hmem : x ∈ w'.log) (hx : ¬ x.Neutral) :
    x ∈ w.log := by
  obtain ⟨rest, hlog, hrest⟩ := h.log
  rw [hlog] at hmem
  exact (List.mem_append.mp hmem).resolve_right fun hnew => hx (hrest x hnew)

end Neutral

/-! ### What a step closes and opens -/

/-- The number that an `accept` gives to a new object. -/
def AcceptAnswer.opens? : AcceptAnswer → Option Fd
  | .conn fd | .addressFails fd _ => some fd
  | .setupFails .. | .err _ => none

/-- The number that a call of `Socket::close` closes, if the kernel gives this answer. -/
def World.closeDrops? (w : World V E F) (i : ℕ) (answer : Answer) : Option Fd :=
  match w.sockets[i]?, answer with
  | some sock, .ret _ =>
      if (sock.status = .connected ∨ sock.status = .halfClosed) ∧ 0 ≤ sock.fd then some sock.fd
      else none
  | _, _ => none

/-- A call of `Socket::close` that closes the number. -/
theorem World.closeSocket_of_drops {w w' : World V E F} {i : ℕ} {answer : Answer} {eff : Effect}
    {n : Fd} (h : w.closeSocket i answer = some (w', eff)) (hn : w.closeDrops? i answer = some n) :
    ∃ sock, w.sockets[i]? = some sock ∧ sock.fd = n ∧ 0 ≤ n ∧
      (sock.status = .connected ∨ sock.status = .halfClosed) ∧
        ((w.record (.closeCalled (.socket i))).closeFd (.socket i) n).closeRest i sock =
          (w', eff) := by
  cases hget : w.sockets[i]? with
  | none => simp [closeSocket, hget] at h
  | some sock =>
      cases answer with
      | err errno => simp [closeDrops?, hget] at hn
      | ret count =>
          simp only [closeDrops?, hget, Option.ite_none_right_eq_some, Option.some.injEq] at hn
          obtain ⟨⟨hopen, hfd⟩, rfl⟩ := hn
          have hstatus : ¬ (sock.status ≠ .connected ∧ sock.status ≠ .halfClosed) := by
            rcases hopen with hopen | hopen <;> simp [hopen]
          simp only [closeSocket, hget, if_neg hstatus, if_pos hfd, Option.ite_none_right_eq_some,
            Option.some.injEq] at h
          exact ⟨sock, rfl, rfl, hfd, hopen, h.2⟩

end Libasync.Reactor
