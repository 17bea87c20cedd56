import FiberKcp.Session.Safety

namespace FiberKcp

open Data Ikcp

/-! `inputRoutine` delivers a message only when `ikcp_peeksize` is positive, so a
buffer without a byte holds up all that was sent after it. -/

section Endpoints

variable {conv : UInt32} {me peer : Endpoint}

/-- What `deliver` hands over is a buffer the peer accepted, and has a byte. -/
theorem solid_deliver {kcp : Kcp} (locals : InputLocals) {start : Ikcpcb}
    {delivered : List (List UInt8)} (settledPeer : Settled conv peer)
    (initial : delivered <+: peer.accepted)
    (fed : Fed peer.progress (payloads delivered) start kcp.mKcpHandle) :
    ∀ buffer ∈ (kcp.deliver locals).2.map (·.buffer), cutLength buffer ≠ 0 := by
  rw [deliver_eq locals fed.counted]
  split
  · rename_i complete
    obtain ⟨message, nonempty⟩ := complete
    obtain ⟨rest, whole⟩ := initial
    have accepted : ∀ buffer ∈ rest, Cut buffer := fun buffer member =>
      settledPeer.accepted buffer (whole ▸ List.mem_append_right _ member)
    have front : kcp.mKcpHandle.rcv_queue.map IkcpSeg.payload <+: payloads rest := by
      have stream : peer.progress.stream = payloads delivered ++ payloads rest := by
        rw [← payloads_append, whole]
        rfl
      have start : payloads delivered ++ kcp.mKcpHandle.rcv_queue.map IkcpSeg.payload <+:
          peer.progress.stream := fed.receiving.queue ▸ List.take_prefix _ _
      rw [stream] at start
      exact (List.prefix_append_right_inj _).mp start
    obtain ⟨buffer, later, built, _, bytes⟩ := front_message accepted front message
    intro other member
    have taken : 0 < cutLength buffer := by
      apply Nat.pos_of_ne_zero
      intro zero
      rw [zero, List.take_zero] at bytes
      exact nonempty bytes
    have same : messageBytes kcp.mKcpHandle.rcv_queue = buffer := by
      rcases (accepted buffer (built ▸ List.mem_cons_self)).whole with none | all
      · omega
      · rw [bytes, all, List.take_length]
    rw [List.mem_singleton.mp member, same]
    exact Nat.ne_of_gt taken
  · intro buffer member
    contradiction

theorem Linked.solid_inputRoutine (settled : Settled conv me) (settledPeer : Settled conv peer)
    (linked : Linked conv me peer) (back : Linked conv peer me) (few : me.sent < 2 ^ 31)
    (fewPeer : peer.sent < 2 ^ 31) {batch : List Datagram}
    (received : ∀ datagram ∈ batch, datagram.bytes ∈ peer.emitted)
    (solid : ∀ buffer ∈ me.delivered, cutLength buffer ≠ 0) :
    ∀ buffer ∈ (me.inputRoutine batch).delivered, cutLength buffer ≠ 0 := by
  have sound := Endpoint.sound_progress settledPeer back fewPeer few
  have begun : Fed peer.progress (payloads me.delivered) me.handle me.handle :=
    ⟨rfl, settled.counted, .refl _ _, linked.receiving, .refl _, linked.owed⟩
  have read := fed_receiveAll me.kcp sound
    (fun seg member => Nat.lt_trans (linked.numbered seg member).2.2.sent few)
    (congrArg Setup.conv settled.setup) batch
    (fun datagram member => back.emitted _ (received datagram member)) {} begun
  intro buffer member
  rcases List.mem_append.mp member with old | new
  · exact solid buffer old
  · exact solid_deliver _ settledPeer linked.delivered read buffer new

end Endpoints

/-- Nothing without a byte has been delivered. -/
structure Session.Solid (conv : UInt32) (session : Session) : Prop where
  sound : session.Sound conv
  solid : (∀ side, (session side).sent < 2 ^ 31) →
    ∀ side, ∀ buffer ∈ (session side).delivered, cutLength buffer ≠ 0

theorem Session.Solid.step {conv : UInt32} {session after : Session} {event : SessionEvent}
    (solid : session.Solid conv) (permitted : wholeBuffers session event)
    (stepped : session.step event = some after) : after.Solid conv := by
  have sound := solid.sound
  refine ⟨sound.step permitted stepped, ?_⟩
  -- the side that is called keeps it, and so does its peer, which stays as it is
  have updated : ∀ side later, after = Function.update session side later →
      (session side).sent ≤ later.sent →
      ((∀ other, (session other).sent < 2 ^ 31) →
        (∀ buffer ∈ (session side).delivered, cutLength buffer ≠ 0) →
        ∀ buffer ∈ later.delivered, cutLength buffer ≠ 0) →
      (∀ other, (after other).sent < 2 ^ 31) →
      ∀ other, ∀ buffer ∈ (after other).delivered, cutLength buffer ≠ 0 := by
    intro side later same grows kept few
    rw [same] at few
    obtain ⟨_, mine, theirs, _⟩ := sound.links side later grows few
    have before : ∀ other, (session other).sent < 2 ^ 31 := by
      intro other
      rcases side.eq_or_eq_peer other with here | there
      · exact here ▸ mine
      · exact there ▸ theirs
    intro other
    rw [same]
    rcases side.eq_or_eq_peer other with here | there
    · rw [here, Function.update_self]
      exact kept before (solid.solid before side)
    · rw [there, Function.update_of_ne side.peer_ne]
      exact solid.solid before side.peer
  cases event with
  | send side buffer =>
      exact updated side ((session side).send buffer) (Option.some.inj stepped).symm
        (Nat.le_refl _) fun _ before => before
  | outputRoutine side now =>
      exact updated side ((session side).outputRoutine now) (Option.some.inj stepped).symm
        (sent_outputRoutine (sound.settled side) now) fun _ before => before
  | inputRoutine side batch =>
      have settled := sound.settled side
      rw [Session.step] at stepped
      split at stepped
      · rename_i received
        apply updated side ((session side).inputRoutine batch) (Option.some.inj stepped).symm
          (Nat.le_of_eq (sent_inputRoutine settled.counted batch).symm)
        intro few before
        have linked := sound.linked few side
        have back := sound.linked few side.peer
        rw [Side.peer_peer] at back
        exact linked.solid_inputRoutine settled (sound.settled side.peer) back (few side)
          (few side.peer) received before
      · contradiction

/-- What a side delivers ends before the first buffer without a byte that its
peer's `ikcp_send` accepted, for good. -/
theorem delivery_stops_at_empty {attr : Side → KcpAttr} {events : List SessionEvent}
    {last : Session} (sameConv : (attr .a).conv = (attr .b).conv)
    (run : Run Session.step wholeBuffers (Session.start attr) events last)
    (few : ∀ side, (last side).sent < 2 ^ 31) (side : Side) :
    (last side.peer).delivered <+:
      (last side).accepted.takeWhile fun buffer => cutLength buffer ≠ 0 := by
  have same : ∀ side, (attr side).conv = (attr .a).conv := by
    intro side
    cases side with
    | a => rfl
    | b => exact sameConv.symm
  have initial : (Session.start attr).Solid (attr .a).conv := by
    refine ⟨sound_start same, fun _ side buffer member => ?_⟩
    exact absurd member List.not_mem_nil
  have solid : last.Solid (attr .a).conv := run.invariant _ initial
    fun solid permitted stepped => solid.step permitted stepped
  obtain ⟨rest, whole⟩ := (solid.sound.safe few).delivered side
  have bytes := solid.solid few side.peer
  rw [← whole, List.takeWhile_append_of_pos (fun buffer member => by simpa using bytes buffer member)]
  exact List.prefix_append _ _

/-- The buffer after an empty one has arrived, and is never delivered. -/
theorem delivery_stops_at_empty_between :
    ∃ last, Run Session.step wholeBuffers (Session.start fun _ => { conv := 7 })
        [.send .a [1], .send .a [], .send .a [2], .outputRoutine .a 0,
          .inputRoutine .b [⟨[7, 0, 0, 0, 81, 0, 0, 2, 0, 0, 0, 0, 0, 0, 0, 0, 0, 0, 0, 0, 1, 0, 0, 0,
            1, 7, 0, 0, 0, 81, 0, 0, 2, 0, 0, 0, 0, 1, 0, 0, 0, 0, 0, 0, 0, 0, 0, 0, 0,
            7, 0, 0, 0, 81, 0, 0, 2, 0, 0, 0, 0, 2, 0, 0, 0, 0, 0, 0, 0, 1, 0, 0, 0, 2], {}⟩],
          .inputRoutine .b []] last ∧
      (last .b).handle.rcv_nxt = 3 ∧ (last .b).delivered <+: [[1]] := by
  apply Run.exists_shown fun last => (last .b).handle.rcv_nxt = 3 ∧
    (last .a).accepted.takeWhile (fun buffer => cutLength buffer ≠ 0) = [[1]] ∧
    (last .a).sent = 3 ∧ (last .b).sent = 0
  · decide +kernel
  · intro last run shown
    obtain ⟨received, accepted, sentA, sentB⟩ := shown
    refine ⟨received, ?_⟩
    rw [← accepted]
    apply delivery_stops_at_empty rfl run _ .a
    intro side
    cases side with
    | a =>
        rw [sentA]
        decide
    | b =>
        rw [sentB]
        decide

end FiberKcp
