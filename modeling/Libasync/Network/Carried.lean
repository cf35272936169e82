import Libasync.Network.Model
import Libasync.Reactor.Closing

/-! # Connections carry the streams

What the kernel has accepted from a socket is what the socket has sent, what it has handed out to
a socket is what the socket has delivered, and in between the connection loses nothing. -/

namespace Libasync.Network

open Foundation Reactor Socket Automaton
open Promise hiding Config

variable {V E F : Type*} [Blank V] {backend : Backend} {c c' : Config V E F} {l : Reactor.Label}
  {t i : ℕ}

/-! ### One step of a party -/

/-- What a step does to the connections, by the operation that it runs. -/
inductive Carried (t : ℕ) (c : Config V E F) (l : Reactor.Label) :
    Option (ChannelOp End Byte) → Prop where
  | sends (k op) (hop : c.streamOp? l = some (k, op)) :
      Carried t c l ((reached? c.world k).map fun k' => .send ⟨t, k'⟩ (c.accepted k l))
  | receives (k slot since rest answers) (stack : c.stack = .reading k slot since :: rest)
      (label : l = .read answers) :
      Carried t c l ((reached? c.world k).map fun k' =>
        .receive ⟨t, k'⟩ (answers.flatMap ReadAnswer.bytes) (atEnd answers))
  | shuts (hop : c.streamOp? l = none) (hreads : ∀ k, c.reads k l = []) (e : Option End) :
      Carried t c l (e.map .shut)

theorem carried (t : ℕ) (c : Config V E F) (l : Reactor.Label) :
    Carried t c l (channelOp? t c l) := by
  cases hop : c.streamOp? l with
  | some kop =>
      obtain ⟨k, op⟩ := kop
      have heq : channelOp? t c l =
          (reached? c.world k).map fun k' => .send ⟨t, k'⟩ (c.accepted k l) := by
        simp only [channelOp?, hop]
      rw [heq]
      exact .sends k op hop
  | none =>
      simp only [channelOp?, hop]
      split
      · rename_i k slot since rest answers hstack
        exact .receives k slot since rest answers hstack rfl
      · rename_i l stack l' frame rest hstack hnot
        have hreads : ∀ k, c.reads k l = [] := by
          intro k
          simp only [Config.reads]
          split
          · rename_i k' slot since rest' answers hstack'
            obtain ⟨rfl, -⟩ := List.cons.inj (hstack.symm.trans hstack')
            exact (hnot k' slot since answers rfl rfl).elim
          · rfl
        have hshut := Carried.shuts (t := t) hop hreads ((c.world.closed? frame l).bind
          fun drop => (owner? c.world drop.2).map fun k => ⟨t, k⟩)
        simpa [Option.map_bind, Function.comp_def] using hshut
      · rename_i l stack l' hstack
        have hreads : ∀ k, c.reads k l = [] := by
          intro k
          simp [Config.reads, hstack]
        exact .shuts hop hreads none

/-! ### What a party sends and takes out -/

/-- What a step of the party sends from this end. -/
def sentBy (t : ℕ) (c : Config V E F) (l : Reactor.Label) (e : End) : List Byte :=
  ((channelOp? t c l).map (ChannelOp.sent e)).getD []

def takenBy (t : ℕ) (c : Config V E F) (l : Reactor.Label) (e : End) : List Byte :=
  ((channelOp? t c l).map (ChannelOp.received e)).getD []

omit [Blank V] in
/-- A socket that uses its own number reaches its own connection, or none. -/
theorem reached?_of_usesOwn (h : usesOwn c l = true) (hused : used? c l = some i)
    {sock : SocketObject} (hget : c.world.sockets[i]? = some sock) :
    reached? c.world i = some i ∨ reached? c.world i = none ∧ c.world.usable sock.fd = false := by
  simp only [usesOwn, hused, hget, Bool.or_eq_true, decide_eq_true_eq] at h
  simp only [reached?, hget, Option.bind_some, owner?, World.usable]
  rcases h with hnone | hown
  · exact .inr ⟨by rw [hnone], by rw [hnone]; rfl⟩
  · exact .inl (by rw [hown])

/-- The kernel sends what the socket has sent. -/
theorem sentBy_eq (hstep : Stepped backend c l c') (hown : usesOwn c l = true) :
    sentBy t c l ⟨t, i⟩ = c.accepted i l := by
  simp only [sentBy]
  have hcarried := carried t c l
  generalize channelOp? t c l = channelOp at hcarried ⊢
  cases hcarried with
  | sends k op hop =>
      have hsends : c.sends k l = some op := by simp [Config.sends, hop]
      have hused : used? c l = some k := by simp [used?, hop]
      obtain ⟨sock, -, -, hget, -⟩ := hstep.streams hsends {}
      by_cases hk : k = i
      · subst hk
        rcases reached?_of_usesOwn hown hused hget with hreached | ⟨hreached, hclosed⟩
        · simp [hreached, ChannelOp.sent]
        · simp [hreached, hstep.accepted_of_closed hget hclosed]
      · have hother : c.sends i l = none := by simp [Config.sends, hop, hk]
        rw [Config.accepted_of_none hother]
        rcases reached?_of_usesOwn hown hused hget with hreached | ⟨hreached, -⟩ <;>
          simp [hreached, ChannelOp.sent, hk]
  | receives k slot since rest answers stack label =>
      have hsends : c.sends i l = none := by simp [Config.sends, Config.streamOp?, stack]
      rw [Config.accepted_of_none hsends]
      cases reached? c.world k <;> rfl
  | shuts hop hreads e =>
      have hsends : c.sends i l = none := by simp [Config.sends, hop]
      rw [Config.accepted_of_none hsends]
      cases e <;> rfl

theorem sentBy_other {e : End} (h : e.party ≠ t) : sentBy t c l e = [] := by
  have hne (k : ℕ) : (⟨t, k⟩ : End) ≠ e := by
    rintro rfl
    exact h rfl
  simp only [sentBy]
  have hcarried := carried t c l
  generalize channelOp? t c l = channelOp at hcarried ⊢
  cases hcarried with
  | sends k op hop => cases reached? c.world k <;> simp [ChannelOp.sent, hne]
  | receives k slot since rest answers => cases reached? c.world k <;> rfl
  | shuts hop hreads e => cases e <;> rfl

theorem bytes_of_badFd {answers : List ReadAnswer} (h : answers.all ReadAnswer.badFd = true) :
    answers.flatMap ReadAnswer.bytes = [] := by
  rw [List.flatMap_eq_nil_iff]
  intro answer hanswer
  have hbad := List.all_eq_true.mp h answer hanswer
  cases answer with
  | data bytes => cases hbad
  | endOfFile | err errno => rfl

/-- All reads on a number that is not open fail. -/
theorem reads_of_closed (hstep : Stepped backend c l c') {sock : SocketObject}
    (hget : c.world.sockets[i]? = some sock) (hclosed : c.world.usable sock.fd = false) :
    (c.reads i l).all ReadAnswer.badFd = true := by
  by_cases hreads : c.reads i l = []
  · rw [hreads]
    rfl
  · obtain ⟨slot, since, rest, hstack, hl⟩ := Config.reading_of_reads hreads
    rw [hl] at hstep
    obtain ⟨eff, hevent⟩ := hstep.read hstack
    simp only [World.readEvent, hget, hclosed, Bool.false_or,
      Option.ite_none_right_eq_some] at hevent
    exact hevent.1

/-- The kernel hands out what the socket has received. -/
theorem takenBy_eq (hstep : Stepped backend c l c') (hown : usesOwn c l = true) :
    takenBy t c l ⟨t, i⟩ = (c.received i l).toList.flatten := by
  simp only [takenBy, Config.received, Option.toList_some, List.flatten_singleton]
  have hcarried := carried t c l
  generalize channelOp? t c l = channelOp at hcarried ⊢
  cases hcarried with
  | sends k op hop =>
      have hreads : c.reads i l = [] := by
        simp only [Config.reads]
        split
        · rename_i hstack
          simp [Config.streamOp?, hstack] at hop
        · rfl
      rw [hreads]
      cases reached? c.world k <;> rfl
  | receives k slot since rest answers stack label =>
      subst label
      have hused : used? c (.read answers) = some k := by simp [used?, Config.streamOp?, stack]
      have hreads (j : ℕ) : c.reads j (.read answers) = if k = j then answers else [] := by
        simp only [Config.reads, stack]
      obtain ⟨eff, hevent⟩ := hstep.read stack
      cases hget : c.world.sockets[k]? with
      | none => simp [World.readEvent, hget] at hevent
      | some sock =>
          by_cases hk : k = i
          · subst hk
            simp only [hreads, if_true]
            rcases reached?_of_usesOwn hown hused hget with hreached | ⟨hreached, hclosed⟩
            · simp [hreached, ChannelOp.received]
            · have hbad := reads_of_closed hstep hget hclosed
              simp only [hreads, if_true] at hbad
              simp [hreached, bytes_of_badFd hbad]
          · simp only [hreads, hk, if_false]
            rcases reached?_of_usesOwn hown hused hget with hreached | ⟨hreached, -⟩ <;>
              simp [hreached, ChannelOp.received, hk]
  | shuts hop hreads e =>
      rw [hreads]
      cases e <;> rfl

theorem takenBy_other {e : End} (h : e.party ≠ t) : takenBy t c l e = [] := by
  have hne (k : ℕ) : (⟨t, k⟩ : End) ≠ e := by
    rintro rfl
    exact h rfl
  simp only [takenBy]
  have hcarried := carried t c l
  generalize channelOp? t c l = channelOp at hcarried ⊢
  cases hcarried with
  | sends k op hop => cases reached? c.world k <;> rfl
  | receives k slot since rest answers =>
      cases reached? c.world k <;> simp [ChannelOp.received, hne]
  | shuts hop hreads e => cases e <;> rfl

theorem mem_of_readLoop {answers : List ReadAnswer} {data : List Byte}
    (h : readLoop answers = some (.ok (data, true))) : .endOfFile ∈ answers := by
  fun_induction readLoop answers generalizing data with
  | case1 => cases h
  | case2 => simp
  | case3 errno => split at h <;> cases Option.some.inj h
  | case4 bytes answers hlength ih =>
      obtain ⟨result, hloop, hresult⟩ := Option.map_eq_some_iff.mp h
      cases result with
      | error errno => cases hresult
      | ok result =>
          obtain ⟨rest, closed⟩ := result
          obtain ⟨-, rfl⟩ := Prod.mk.inj (Except.ok.inj hresult)
          exact List.mem_cons_of_mem _ (ih hloop)
  | case5 => cases h
  | case6 => cases h

/-- The kernel reports the end of the stream to a socket that reads it. -/
theorem channelOp?_of_readsEof (hstep : Stepped backend c l c') (hown : usesOwn c l = true)
    (heof : (c.permits backend l).readsEof i) :
    ∃ items, channelOp? t c l = some (.receive ⟨t, i⟩ items true) := by
  obtain ⟨w, stack⟩ := c
  cases stack with
  | nil => exact heof.elim
  | cons frame rest =>
      have hreads : readsEof? frame l = some i := heof
      cases frame with
      | reading k slot since =>
          cases l with
          | read answers =>
              simp only [readsEof?] at hreads
              split at hreads
              · rename_i data hloop
                obtain rfl := Option.some.inj hreads
                have hmem := mem_of_readLoop hloop
                have hused : used? ⟨w, .reading k slot since :: rest⟩ (.read answers) =
                    some k := rfl
                obtain ⟨eff, hevent⟩ := hstep.read rfl
                cases hget : w.sockets[k]? with
                | none => simp [World.readEvent, hget] at hevent
                | some sock =>
                    have hreached : reached? w k = some k := by
                      rcases reached?_of_usesOwn hown hused hget with hreached | ⟨-, hclosed⟩
                      · exact hreached
                      · have hbad := reads_of_closed hstep hget hclosed
                        simp only [Config.reads, if_true] at hbad
                        cases List.all_eq_true.mp hbad _ hmem
                    refine ⟨answers.flatMap ReadAnswer.bytes, ?_⟩
                    simp [channelOp?, Config.streamOp?, hreached, atEnd, hmem]
              · cases hreads
          | _ => cases hreads
      | _ => cases hreads

end Libasync.Network
