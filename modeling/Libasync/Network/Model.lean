import Libasync.Foundation.Channels
import Libasync.Reactor.Reading
import Libasync.Reactor.Sending

/-! # Parties that talk to each other

Any number of parties, each with a reactor on one of the two backends, and the connections between
their sockets. The kernel carries the bytes that it has accepted on one end to the other end in
order, until the connection breaks. A party may be connected to itself. The threads of one process
share `sock_buffer`, so a party is a process with one reactor. -/

namespace Libasync.Network

open Foundation Reactor Socket Automaton
open Promise hiding Config

/-- A socket of a party. -/
structure End where
  party : ℕ
  socket : ℕ
  deriving DecidableEq, Repr

/-- The parties and the connections, with a record of what was written and delivered. -/
structure Net (V E F : Type*) where
  parties : ℕ → Config V E F := fun _ => {}
  channels : Channels End Byte := {}
  sent : End → Sent := fun _ => {}
  delivered : End → List Byte := fun _ => []

inductive NetLabel where
  | party (t : ℕ) (l : Reactor.Label)
  /-- the kernel connects two sockets -/
  | join (e e' : End)
  /-- the stream to this end is lost -/
  | break_ (e : End)
  deriving DecidableEq, Repr

variable {V E F : Type*}

/-! ### The kernel's side of a step -/

/-- The socket for which the kernel has opened the number. -/
def owner? (w : World V E F) (fd : Fd) : Option ℕ :=
  match w.descriptors fd with
  | some (some (.socket k)) => some k
  | _ => none

/-- The socket whose connection is reached through the number of socket `i`. -/
def reached? (w : World V E F) (i : ℕ) : Option ℕ :=
  (w.sockets[i]?).bind fun sock => owner? w sock.fd

def atEnd (answers : List ReadAnswer) : Bool := decide (.endOfFile ∈ answers)

section Machine

variable [Blank V]

/-- What a step does to the connections of its party. -/
def channelOp? (t : ℕ) (c : Config V E F) (l : Reactor.Label) : Option (ChannelOp End Byte) :=
  match c.streamOp? l with
  | some (i, _) => (reached? c.world i).map fun k => .send ⟨t, k⟩ (c.accepted i l)
  | none =>
      match c.stack, l with
      | .reading i _ _ :: _, .read answers =>
          (reached? c.world i).map fun k =>
            .receive ⟨t, k⟩ (answers.flatMap ReadAnswer.bytes) (atEnd answers)
      | frame :: _, l =>
          (c.world.closed? frame l).bind fun (_, fd) =>
            (owner? c.world fd).map fun k => .shut ⟨t, k⟩
      | [], _ => none

def Net.carry (n : Net V E F) : Option (ChannelOp End Byte) → Option (Channels End Byte)
  | some op => n.channels.step op
  | none => some n.channels

def Net.step (backend : ℕ → Backend) (n : Net V E F) : NetLabel → Option (Net V E F)
  | .party t l =>
      match Reactor.step (backend t) (n.parties t) l, n.carry (channelOp? t (n.parties t) l) with
      | some c, some channels =>
          some {
            parties := Function.update n.parties t c
            channels
            sent := fun e =>
              if e.party = t then (n.parties t).recorded e.socket l (n.sent e) else n.sent e
            delivered := fun e =>
              if e.party = t then
                n.delivered e ++ ((n.parties t).delivered e.socket l).toList.flatten
              else n.delivered e }
      | _, _ => none
  | .join e e' => (n.channels.step (.join e e')).map fun channels => { n with channels }
  | .break_ e => (n.channels.step (.break_ e)).map fun channels => { n with channels }

/-! ### What is to hold -/

/-- The data that a socket still has to send. -/
def Net.buffer (n : Net V E F) (e : End) : List Byte :=
  (((n.parties e.party).world.sockets[e.socket]?).map fun sock => sock.buffer).getD []

/-- The connection carries what is written on `e` to the handlers of `e'`. -/
structure Net.Carries (n : Net V E F) (e e' : End) : Prop where
  /-- all data is delivered, on its way or in the buffer -/
  stream : n.delivered e' ++ n.channels.inbound e' ++ n.buffer e = (n.sent e).written
  /-- when the promise of a call is settled, the data of the call is delivered or on its way -/
  promised : ∀ call ∈ (n.sent e).calls,
    (n.parties e.party).world.promises.status? call.2 ≠ some .pending →
      call.1 ≤ (n.delivered e' ++ n.channels.inbound e').length
  /-- after "end" nothing is on its way, unless the connection was broken -/
  ended : .end_ ∈ fired e'.socket (n.parties e'.party).world.log →
    n.channels.broken e' = true ∨ n.channels.inbound e' = []

/-- The socket that a step reads from or writes to. -/
def used? (c : Config V E F) (l : Reactor.Label) : Option ℕ :=
  match c.streamOp? l with
  | some (i, _) => some i
  | none =>
      match c.stack with
      | .reading i _ _ :: _ => some i
      | _ => none

/-- A socket reads and writes with a number that is its own, or that is not open. -/
def usesOwn (c : Config V E F) (l : Reactor.Label) : Bool :=
  match used? c l with
  | none => true
  | some i =>
      match c.world.sockets[i]? with
      | none => true
      | some sock =>
          decide (c.world.descriptors sock.fd = none) ||
            decide (c.world.descriptors sock.fd = some (some (.socket i)))

/-- A `::write` of the socket fails after another one of the same loop has sent bytes. -/
def sendsLate (i : ℕ) (c : Config V E F) (l : Reactor.Label) : Bool :=
  match c.sends i l with
  | some op => failsLate op.answers
  | none => false

/-- No number of an old socket is used, `e` repeats no bytes, and `e'` throws none away. -/
def Net.Clean (e e' : End) (n : Net V E F) : NetLabel → Prop
  | .party t l =>
      usesOwn (n.parties t) l = true ∧
        (t = e.party → sendsLate e.socket (n.parties t) l = false) ∧
        (t = e'.party → (n.parties t).losesBytes e'.socket l = false)
  | .join _ _ | .break_ _ => True

end Machine

end Libasync.Network
