import Libasync.Network.Carried

/-! # From the calls of `write` to the "data" events of the other end

In a network of parties, the data written on one end of a connection is what the other end has
delivered, what is on its way, and what the writing socket still holds. -/

namespace Libasync.Network

open Foundation Reactor Socket Automaton
open Promise hiding Config

variable {V E F : Type*} [Blank V] {backend : ℕ → Backend}

/-- The "end" event comes after the end of the stream. -/
theorem endOfFile_of_end {backend : Backend} {c c' : Config V E F} {l : Reactor.Label}
    {i : ℕ} (h : Stepped backend c l c') (hseen : c.EofSeen)
    (hold : .end_ ∈ fired i c.world.log → .endOfFile i ∈ c.world.log)
    (hmem : .end_ ∈ fired i c'.world.log) : .endOfFile i ∈ c'.world.log := by
  apply (Changes.log_grows (h.changes hseen)).subset
  cases hget : c.world.sockets[i]? with
  | none =>
      rw [(h.made hget).2] at hmem
      exact hold hmem
  | some sock =>
      obtain ⟨sock', names, hmoved, -, hfired⟩ := h.moved hget
      rw [hfired, List.mem_append] at hmem
      refine hmem.elim hold fun hnew => ?_
      cases hmoved with
      | stays => cases hnew
      | turns top rest w' eff sock' names stack turn =>
          cases turn with
          | eofFirst slot since w' open_ =>
              exact hseen (.readTail i true slot since) (by simp [stack]) i rfl
          | _ => simp at hnew

/-- What holds along clean runs. -/
structure Net.Inv (e e' : End) (n : Net V E F) : Prop where
  channels : n.channels.Sound
  sound : ∀ t, (n.parties t).Sound
  known : ∀ t, (n.parties t).Known
  recorded : (n.parties e.party).Recorded e.socket (n.sent e)
  accepted : n.channels.accepted e = (n.sent e).accepted
  taken : n.channels.taken e' = n.delivered e'
  reported : .endOfFile e'.socket ∈ (n.parties e'.party).world.log → n.channels.ended e' = true
  ended : .end_ ∈ fired e'.socket (n.parties e'.party).world.log →
    .endOfFile e'.socket ∈ (n.parties e'.party).world.log

omit [Blank V] in
theorem Net.Inv.initial (e e' : End) : ({} : Net V E F).Inv e e' where
  channels := .initial
  sound _ := .initial
  known _ := .initial
  recorded := .initial
  accepted := rfl
  taken := rfl
  reported := by simp
  ended := by simp

/-- The effect of a step on the connections. -/
structure Net.Carries? (n : Net V E F) (op : Option (ChannelOp End Byte))
    (channels : Channels End Byte) : Prop where
  sound : n.channels.Sound → channels.Sound
  accepted : ∀ e, channels.accepted e = n.channels.accepted e ++ (op.map (·.sent e)).getD []
  taken : ∀ e, channels.taken e = n.channels.taken e ++ (op.map (·.received e)).getD []
  ended : ∀ e, (n.channels.ended e = true ∨ ∃ items, op = some (.receive e items true)) →
    channels.ended e = true

omit [Blank V] in
theorem Net.carry_spec {n : Net V E F} {op : Option (ChannelOp End Byte)}
    {channels : Channels End Byte} (h : n.carry op = some channels) : n.Carries? op channels := by
  cases op with
  | none =>
      obtain rfl := Option.some.inj h
      exact ⟨id, by simp, by simp, by simp⟩
  | some op =>
      refine ⟨fun hsound => hsound.step h, Channels.accepted_step h, Channels.taken_step h, ?_⟩
      rintro e hended
      exact Channels.ended_step h (by simpa using hended)

theorem Net.Inv.party {e e' : End} {n n' : Net V E F} {t : ℕ} {l : Reactor.Label}
    (h : n.Inv e e') (hclean : n.Clean e e' (.party t l))
    (hstep : n.step backend (.party t l) = some n') : n'.Inv e e' := by
  obtain ⟨hown, hlate, hloses⟩ := hclean
  simp only [Net.step] at hstep
  split at hstep
  · rename_i c channels hc hcarry
    obtain rfl := Option.some.inj hstep
    have hstepped := stepped hc
    have hspec := Net.carry_spec hcarry
    refine ⟨hspec.sound h.channels, ?_, ?_, ?_, ?_, ?_, ?_, ?_⟩
    · intro t'
      by_cases ht : t' = t
      · subst ht
        simpa using (h.sound t').step hc
      · simpa [ht] using h.sound t'
    · intro t'
      by_cases ht : t' = t
      · subst ht
        simpa using (h.known t').step hstepped
      · simpa [ht] using h.known t'
    · by_cases ht : e.party = t
      · subst ht
        have hsends : ∀ op, (n.parties e.party).sends e.socket l = some op →
            failsLate op.answers = false := by
          intro op hop
          simpa [sendsLate, hop] using hlate rfl
        simpa using h.recorded.step (h.known _) hsends hstepped
      · simpa [ht] using h.recorded
    · rw [hspec.accepted e, h.accepted]
      by_cases ht : e.party = t
      · subst ht
        simp only [if_true, Config.recorded_accepted]
        rw [← sentBy_eq hstepped hown]
        rfl
      · simp only [ht, if_false]
        rw [← sentBy, sentBy_other ht, List.append_nil]
    · rw [hspec.taken e', h.taken]
      by_cases ht : e'.party = t
      · subst ht
        have hreceived := hstepped.received (i := e'.socket)
        rw [if_neg (by simp [hloses rfl])] at hreceived
        simp only [if_true, hreceived]
        rw [← takenBy_eq hstepped hown]
        rfl
      · simp only [ht, if_false]
        rw [← takenBy, takenBy_other ht, List.append_nil]
    · intro hmem
      by_cases ht : e'.party = t
      · subst ht
        simp only [Function.update_self] at hmem
        apply hspec.ended
        refine (hstepped.readsEof (h.sound _).seen hmem).imp h.reported fun heof => ?_
        exact channelOp?_of_readsEof hstepped hown heof
      · simp only [Function.update_of_ne ht] at hmem
        exact hspec.ended e' (.inl (h.reported hmem))
    · intro hmem
      by_cases ht : e'.party = t
      · subst ht
        simp only [Function.update_self] at hmem ⊢
        exact endOfFile_of_end hstepped (h.sound _).seen h.ended hmem
      · simp only [Function.update_of_ne ht] at hmem ⊢
        exact h.ended hmem
  · cases hstep

omit [Blank V] in
/-- Connections come and go. -/
theorem Net.Inv.rewired {e e' : End} {n : Net V E F} {op : ChannelOp End Byte}
    {channels : Channels End Byte} (h : n.Inv e e') (hop : n.channels.step op = some channels)
    (hsent : ∀ a, op.sent a = []) (hreceived : ∀ a, op.received a = []) :
    Net.Inv e e' { n with channels } where
  channels := h.channels.step hop
  sound := h.sound
  known := h.known
  recorded := h.recorded
  accepted := by
    rw [Channels.accepted_step hop, hsent, List.append_nil]
    exact h.accepted
  taken := by
    rw [Channels.taken_step hop, hreceived, List.append_nil]
    exact h.taken
  reported hmem := Channels.ended_step hop (.inl (h.reported hmem))
  ended := h.ended

theorem Net.Inv.step {e e' : End} {n n' : Net V E F} {l : NetLabel} (h : n.Inv e e')
    (hclean : n.Clean e e' l) (hstep : n.step backend l = some n') : n'.Inv e e' := by
  cases l with
  | party t l => exact h.party hclean hstep
  | join a a' =>
      obtain ⟨channels, hjoin, rfl⟩ := Option.map_eq_some_iff.mp hstep
      exact h.rewired hjoin (fun _ => rfl) (fun _ => rfl)
  | break_ a =>
      simp only [Net.step] at hstep
      obtain ⟨channels, hbreak, rfl⟩ := Option.map_eq_some_iff.mp hstep
      exact h.rewired hbreak (fun _ => rfl) (fun _ => rfl)

/-- In every run of a network, whatever the parties do and however they are interleaved, the
connection between two ends carries what is written on one end to the handlers of the other end:
each byte once and in order, a promise of `write` is settled only when the data is beyond the
buffer, and "end" comes after the last byte that was sent. No number of an old socket may be used,
no `::write` may fail after it has sent bytes, and no `read` after it has got bytes. -/
theorem connection_carries_stream {e e' : End} {ls : List NetLabel} {n : Net V E F}
    (hrun : run (Net.step backend) {} ls = some n)
    (hclean : EachStep (Net.step backend) (Net.Clean e e') ({} : Net V E F) ls)
    (hpeer : n.channels.peer e = some e') : n.Carries e e' := by
  have hinv : n.Inv e e' :=
    run_invariant (fun n l n' h hguard hl => h.step hguard hl) (.initial e e') hclean hrun
  have hcarried : n.delivered e' ++ n.channels.inbound e' = (n.sent e).accepted := by
    rw [← hinv.taken, ← hinv.accepted]
    exact hinv.channels.carried e e' hpeer
  refine ⟨?_, ?_, ?_⟩
  · rw [hcarried]
    cases hget : (n.parties e.party).world.sockets[e.socket]? with
    | none => simp [Net.buffer, hget, hinv.recorded.unused hget]
    | some sock =>
        simp only [Net.buffer, hget, Option.map_some, Option.getD_some]
        exact (hinv.recorded.stream sock hget).intact.stream
  · intro call hcall hsettled
    rw [hcarried]
    cases hget : (n.parties e.party).world.sockets[e.socket]? with
    | none =>
        rw [hinv.recorded.unused hget] at hcall
        cases hcall
    | some sock =>
        exact (hinv.recorded.stream sock hget).promised.accepted call hcall hsettled
  · intro hend
    have hatEnd := hinv.channels.ended e' (hinv.reported (hinv.ended hend))
    simp only [Channels.atEnd, Bool.or_eq_true, Bool.and_eq_true, List.isEmpty_iff] at hatEnd
    exact hatEnd.imp_right And.left

/-- A client on Linux writes three bytes, the kernel takes two of them at first, and the client is
closed when the rest is sent. A server on FreeBSD accepts the connection and reads to the end. -/
def clientServerRun : List NetLabel :=
  [.party 1 (.newServer 5 none), .party 1 (.listen 0 (.ret 0) (.ret 0)),
    .party 0 (.newSocket 3 none), .party 0 (.connect 0 (.ret 0)), .party 0 .return_,
    .party 0 .tau, .party 1 (.poll [(⟨5, true, false⟩, .server 0)]), .party 1 .tau,
    .party 1 (.accept (.conn 6)), .join ⟨0, 0⟩ ⟨1, 0⟩,
    .party 0 (.write 0 [7, 8, 9] [.ret 2, .err .again]), .party 1 .return_,
    .party 1 (.accept (.err .again)), .party 1 .tau,
    .party 1 (.poll [(⟨6, true, false⟩, .socket 0)]), .party 1 .tau,
    .party 1 (.read [.data [7, 8], .err .again]), .party 1 .return_, .party 1 .tau,
    .party 1 .tau, .party 1 .tau,
    .party 0 (.poll [(⟨3, false, true⟩, .socket 0)]), .party 0 .tau,
    .party 0 (.flush [.ret 1]), .party 0 .tau, .party 0 (.close 0 (.ret 0)),
    .party 1 (.poll [(⟨6, true, false⟩, .socket 0)]), .party 1 .tau,
    .party 1 (.read [.data [9], .endOfFile]), .party 1 .return_, .party 1 .tau]

instance decidableClean (e e' : End) (n : Net V E F) :
    ∀ l, Decidable (Net.Clean e e' n l)
  | .party _ _ => inferInstanceAs (Decidable (_ ∧ _))
  | .join _ _ | .break_ _ => isTrue trivial

theorem connection_carries_stream_sample : ∃ n : Net ℕ ℕ SampleHandler,
    run (Net.step fun t => if t = 0 then .epoll else .kqueue) {} clientServerRun = some n ∧
      n.delivered ⟨1, 0⟩ = [7, 8, 9] ∧ .end_ ∈ fired 0 (n.parties 1).world.log ∧
      n.Carries ⟨0, 0⟩ ⟨1, 0⟩ := by
  obtain ⟨n, hrun, hpeer, hdelivered, hend⟩ : ∃ n : Net ℕ ℕ SampleHandler,
      run (Net.step fun t => if t = 0 then .epoll else .kqueue) {} clientServerRun = some n ∧
        n.channels.peer ⟨0, 0⟩ = some ⟨1, 0⟩ ∧ n.delivered ⟨1, 0⟩ = [7, 8, 9] ∧
        .end_ ∈ fired 0 (n.parties 1).world.log := ⟨_, rfl, rfl, rfl, by decide⟩
  have hclean : EachStep (Net.step fun t => if t = 0 then .epoll else .kqueue)
      (Net.Clean ⟨0, 0⟩ ⟨1, 0⟩) ({} : Net ℕ ℕ SampleHandler) clientServerRun := by
    decide +kernel
  exact ⟨n, hrun, hdelivered, hend, connection_carries_stream hrun hclean hpeer⟩

end Libasync.Network
