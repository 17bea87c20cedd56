import FiberKcp.Data.Leads
import FiberKcp.Session.Answers

namespace FiberKcp

open Data Ikcp

/-! No state of a session is stuck: whatever was lost, repeated or delayed before,
calls of the two routines are enough to deliver everything. -/

/-- `ikcp_send` gets the size of the buffer or one it refuses, and not zero. -/
def NonEmptyBuffer (buffer : List UInt8) : Prop := WholeBuffer buffer ∧ sizeAsInt buffer ≠ 0

instance (buffer : List UInt8) : Decidable (NonEmptyBuffer buffer) :=
  inferInstanceAs (Decidable (_ ∧ _))

def nonEmptyBuffers (_ : Session) : SessionEvent → Prop
  | .send _ buffer => NonEmptyBuffer buffer
  | _ => True

instance (session : Session) (event : SessionEvent) : Decidable (nonEmptyBuffers session event) :=
  match event with
  | .send _ buffer => inferInstanceAs (Decidable (NonEmptyBuffer buffer))
  | .outputRoutine _ _ | .inputRoutine _ _ => inferInstanceAs (Decidable True)

/-- Nothing more is sent, and no clock goes back. -/
def onward (session : Session) : SessionEvent → Prop
  | .send _ _ => False
  | .outputRoutine side now => itimediff now (session side).handle.current ≥ 0
  | .inputRoutine _ _ => True

/-- A session of which every buffer is in the hands of `ikcp_send`. -/
structure Session.Live (attr : Side → KcpAttr) (session : Session) : Prop where
  sound : session.Sound (attr .a).conv
  paced : session.Paced attr
  few : ∀ side, (session side).stream.length < 2 ^ 31
  solid : ∀ side, ∀ buffer ∈ (session side).accepted, cutLength buffer ≠ 0
  idle : ∀ side, (session side).kcp.mSendBufQueue = []

/-- Calls of the routines lead from one session to the other. -/
structure Session.Onward (attr : Side → KcpAttr) (session later : Session) : Prop where
  leads : Leads Session.step onward session later
  live : later.Live attr
  accepted : ∀ side, (later side).accepted = (session side).accepted
  delivered : ∀ side, (session side).delivered <+: (later side).delivered
  grows : ∀ side, (session side).progress.Grows (later side).progress

theorem Progress.Grows.refl (progress : Progress) : progress.Grows progress :=
  ⟨List.prefix_rfl, Nat.le_refl _, Nat.le_refl _, fun _ => id⟩

theorem Progress.Grows.trans {first second third : Progress} (left : first.Grows second)
    (right : second.Grows third) : first.Grows third :=
  ⟨left.stream.trans right.stream, Nat.le_trans left.sent right.sent,
    Nat.le_trans left.received right.received,
    fun serial stored => right.stored serial (left.stored serial stored)⟩

section Onward

variable {attr : Side → KcpAttr} {session middle later : Session}

theorem Session.Onward.refl (live : session.Live attr) : session.Onward attr session :=
  ⟨.refl session, live, fun _ => rfl, fun _ => List.prefix_rfl, fun _ => .refl _⟩

theorem Session.Onward.trans (left : session.Onward attr middle)
    (right : middle.Onward attr later) : session.Onward attr later :=
  ⟨left.leads.trans right.leads, right.live,
    fun side => (right.accepted side).trans (left.accepted side),
    fun side => (left.delivered side).trans (right.delivered side),
    fun side => (left.grows side).trans (right.grows side)⟩

theorem Session.Live.sent_lt (live : session.Live attr) (side : Side) :
    (session side).sent < 2 ^ 31 :=
  Nat.lt_of_le_of_lt (session side).sent_le (live.few side)

theorem Session.Live.linked (live : session.Live attr) (side : Side) :
    Linked (attr .a).conv (session side) (session side.peer) :=
  live.sound.linked live.sent_lt side

theorem Session.Live.back (live : session.Live attr) (side : Side) :
    Linked (attr .a).conv (session side.peer) (session side) := by
  have linked := live.linked side.peer
  rw [Side.peer_peer] at linked
  exact linked

theorem Session.Live.window (live : session.Live attr) (side : Side) :
    (session side).handle.rcv_wnd.toNat = (attr side).receiveWindow := (live.paced side).held.window

/-- An endpoint takes a call; the other one stays as it is. -/
theorem Session.Live.call (sameConv : (attr .a).conv = (attr .b).conv) (live : session.Live attr)
    (event : SessionEvent) {side : Side} {after : Endpoint} (permitted : onward session event)
    (whole : wholeBuffers session event)
    (stepped : session.step event = some (Function.update session side after))
    (accepted : after.accepted = (session side).accepted) (idle : after.kcp.mSendBufQueue = [])
    (delivered : (session side).delivered <+: after.delivered)
    (grows : (session side).progress.Grows after.progress) :
    session.Onward attr (Function.update session side after) := by
  have sound := live.sound.step whole stepped
  have paced := live.paced.step sameConv stepped
  have stream : after.stream = (session side).stream := by
    rw [Endpoint.stream, accepted]
    rfl
  refine ⟨.single permitted stepped, ⟨sound, paced, ?_, ?_, ?_⟩, ?_, ?_, ?_⟩
  all_goals
    intro other
    rcases side.eq_or_eq_peer other with same | same
    all_goals subst same
  · rw [Function.update_self, stream]
    exact live.few other
  · rw [Function.update_of_ne side.peer_ne]
    exact live.few side.peer
  · rw [Function.update_self, accepted]
    exact live.solid other
  · rw [Function.update_of_ne side.peer_ne]
    exact live.solid side.peer
  · rw [Function.update_self]
    exact idle
  · rw [Function.update_of_ne side.peer_ne]
    exact live.idle side.peer
  · rw [Function.update_self]
    exact accepted
  · rw [Function.update_of_ne side.peer_ne]
  · rw [Function.update_self]
    exact delivered
  · have still : (session side.peer).delivered = _ :=
      congrArg Endpoint.delivered (Function.update_of_ne side.peer_ne after session).symm
    exact still ▸ List.prefix_rfl
  · rw [Function.update_self]
    exact grows
  · rw [Function.update_of_ne side.peer_ne]
    exact .refl _

/-- `outputRoutine` at a clock value that is not behind the last one. -/
theorem Session.Live.output (sameConv : (attr .a).conv = (attr .b).conv) (live : session.Live attr)
    (side : Side) {now : UInt32} (forward : itimediff now (session side).handle.current ≥ 0) :
    ∃ later, session.Onward attr later ∧ later side = (session side).outputRoutine now ∧
      later side.peer = session side.peer := by
  have settled := live.sound.settled side
  have unchanged : ((session side).outputRoutine now).accepted = (session side).accepted := by
    change (session side).accepted ++
      (sendQueue (session side).kcp.mSendBufQueue (session side).handle).2 = _
    rw [live.idle side]
    exact List.append_nil _
  exact ⟨_, live.call sameConv (.outputRoutine side now) forward trivial rfl unchanged rfl
    List.prefix_rfl (grows_outputRoutine settled now), Function.update_self .., 
    Function.update_of_ne side.peer_ne ..⟩

/-- `inputRoutine` on datagrams of the peer. -/
theorem Session.Live.input (sameConv : (attr .a).conv = (attr .b).conv) (live : session.Live attr)
    (side : Side) {batch : List Datagram}
    (received : ∀ datagram ∈ batch, datagram.bytes ∈ (session side.peer).emitted) :
    ∃ later, session.Onward attr later ∧ later side = (session side).inputRoutine batch ∧
      later side.peer = session side.peer := by
  have settled := live.sound.settled side
  obtain ⟨_, grows⟩ := (live.linked side).inputRoutine settled (live.sound.settled side.peer)
    (live.back side) (live.sent_lt side) (live.sent_lt side.peer) received
  have queue := (inputRoutine_keeps settled.counted batch).2.2.trans (live.idle side)
  have stepped : session.step (.inputRoutine side batch) =
      some (Function.update session side ((session side).inputRoutine batch)) := if_pos received
  exact ⟨_, live.call sameConv (.inputRoutine side batch) trivial trivial stepped rfl queue
    (List.prefix_append _ _) grows, Function.update_self .., Function.update_of_ne side.peer_ne ..⟩

end Onward

/-! ## Taking what is complete -/

/-- What waits for delivery is the start of what is still to be delivered. -/
theorem Linked.queue_begins {conv : UInt32} {me peer : Endpoint} (linked : Linked conv me peer)
    {rest : List (List UInt8)} (whole : me.delivered ++ rest = peer.accepted) :
    me.handle.rcv_queue.map IkcpSeg.payload <+: payloads rest := by
  have start : payloads me.delivered ++ me.handle.rcv_queue.map IkcpSeg.payload <+:
      peer.progress.stream := linked.receiving.queue ▸ List.take_prefix _ _
  have stream : peer.progress.stream = payloads me.delivered ++ payloads rest := by
    rw [← payloads_append, whole]
    rfl
  rw [stream] at start
  exact (List.prefix_append_right_inj _).mp start

/-- Segments that begin with all those of a buffer hold a message. -/
theorem hasMessage_of_cut {buffer : List UInt8} (cut : Cut buffer) {queue : List IkcpSeg}
    {more : List Payload}
    (parts : queue.map IkcpSeg.payload = (cutBuffer buffer).map IkcpSeg.payload ++ more) :
    HasMessage queue := by
  have few := cut.few
  have countdown : Countdown (cutBuffer buffer) :=
    fragment_countdown _ _ _ (fragmentCount_pos _ _) (by omega)
  cases pieces : cutBuffer buffer with
  | nil =>
      rw [pieces] at countdown
      contradiction
  | cons first rest =>
      rw [pieces] at parts countdown
      cases queue with
      | nil => contradiction
      | cons seg later =>
          obtain ⟨here, after⟩ := List.cons.inj parts
          have frg : seg.frg = first.frg := congrArg Prod.snd here
          have lengths : later.length = rest.length + more.length := by
            simpa using congrArg List.length after
          have count := countdown.first
          rw [hasMessage_cons, frg, count]
          omega

section Drain

variable {attr : Side → KcpAttr} {session : Session}

/-- With no message to deliver there is room for a whole one. -/
theorem Session.Live.room (live : session.Live attr) (side : Side)
    (drained : ¬ HasMessage (session side).handle.rcv_queue) :
    (session side).handle.rcv_queue.length < (session side).handle.rcv_wnd.toNat := by
  have window : 128 ≤ (session side).handle.rcv_wnd.toNat := by
    rw [live.window side]
    exact Nat.le_max_right _ _
  obtain ⟨rest, whole⟩ := (live.linked side).delivered
  have initial := (live.linked side).queue_begins whole
  cases rest with
  | nil =>
      have none := List.map_eq_nil_iff.mp (List.prefix_nil.mp initial)
      rw [none, List.length_nil]
      omega
  | cons buffer more =>
      have cut : Cut buffer := (live.sound.settled side.peer).accepted buffer (whole ▸ by simp)
      have few := cut.few
      have pieces : (cutBuffer buffer).length < 128 := by
        rw [cutBuffer, length_fragment]
        exact few
      by_contra full
      apply drained
      obtain ⟨left, extended⟩ := initial
      change (session side).handle.rcv_queue.map IkcpSeg.payload ++ left =
        (cutBuffer buffer).map IkcpSeg.payload ++ payloads more at extended
      have longer : ((cutBuffer buffer).map IkcpSeg.payload).length ≤
          ((session side).handle.rcv_queue.map IkcpSeg.payload).length := by
        rw [List.length_map, List.length_map]
        omega
      obtain ⟨after, parts⟩ := List.prefix_of_prefix_length_le (List.prefix_append _ _)
        (extended ▸ List.prefix_append _ _) longer
      exact hasMessage_of_cut cut parts.symm

/-- The front message has a byte, so `inputRoutine` delivers it. -/
theorem Session.Live.delivers (live : session.Live attr) (side : Side)
    (complete : HasMessage (session side).handle.rcv_queue) :
    ((session side).inputRoutine []).delivered.length = (session side).delivered.length + 1 := by
  have settled := live.sound.settled side
  obtain ⟨rest, whole⟩ := (live.linked side).delivered
  have accepted : ∀ buffer ∈ rest, buffer ∈ (session side.peer).accepted :=
    fun buffer member => whole ▸ List.mem_append_right _ member
  obtain ⟨buffer, later, built, _, bytes⟩ := front_message
    (fun buffer member => (live.sound.settled side.peer).accepted buffer (accepted buffer member))
    ((live.linked side).queue_begins whole) complete
  have inPeer := accepted buffer (built ▸ List.mem_cons_self)
  have solid := live.solid side.peer buffer inPeer
  have cut := (live.sound.settled side.peer).accepted buffer inPeer
  have nonempty : messageBytes (session side).handle.rcv_queue ≠ [] := by
    rw [bytes, ne_eq, List.take_eq_nil_iff]
    rcases cut.whole with zero | length
    · exact absurd zero solid
    · intro either
      rcases either with zero | empty
      · exact solid zero
      · exact solid (length.trans (congrArg List.length empty))
  have delivered := deliver_eq {} settled.counted
  rw [if_pos ⟨complete, nonempty⟩] at delivered
  change ((session side).delivered ++ ((session side).kcp.deliver {}).2.map (·.buffer)).length = _
  rw [delivered, List.length_append]
  rfl

/-- All complete messages are delivered, and the answers owed are still owed. -/
theorem Session.Live.drain (sameConv : (attr .a).conv = (attr .b).conv) (live : session.Live attr)
    (side : Side) :
    ∃ later, session.Onward attr later ∧ later side.peer = session side.peer ∧
      ¬ HasMessage (later side).handle.rcv_queue ∧
      (Owes (session side).handle → Owes (later side).handle) := by
  let Inv (later : Session) : Prop := session.Onward attr later ∧
    later side.peer = session side.peer ∧
    (Owes (session side).handle → Owes (later side).handle)
  let Goal (later : Session) : Prop := ¬ HasMessage (later side).handle.rcv_queue
  let rank (later : Session) : Nat :=
    (session side.peer).accepted.length - (later side).delivered.length
  have progress : ∀ state, Inv state → ¬ Goal state →
      ∃ next, Leads Session.step onward state next ∧ Inv next ∧ rank next < rank state := by
    intro state inv undelivered
    obtain ⟨reached, peer, owes⟩ := inv
    have complete := Decidable.not_not.mp undelivered
    obtain ⟨next, further, mine, other⟩ := reached.live.input sameConv side
      (show ∀ datagram ∈ ([] : List Datagram), _ by simp)
    have more := reached.live.delivers side complete
    have bound := (further.live.linked side).delivered.length_le
    rw [further.accepted side.peer, reached.accepted side.peer, mine] at bound
    refine ⟨next, further.leads, ⟨reached.trans further, other.trans peer, ?_⟩, ?_⟩
    · intro before
      rw [mine]
      exact deliver_owes _ (owes before)
    · change _ - (next side).delivered.length < _ - (state side).delivered.length
      rw [mine]
      omega
  have start : Inv session := ⟨.refl live, rfl, id⟩
  obtain ⟨later, _, inv, drained⟩ := Leads.of_rank Inv Goal rank progress start
  obtain ⟨reached, peer, owes⟩ := inv
  exact ⟨later, reached, peer, drained, owes⟩

end Drain

/-! ## Sending what is due -/

/-- Segments that a call put into one datagram. -/
structure Endpoint.Sends (endpoint : Endpoint) (conv : UInt32) (handle : Ikcpcb)
    (group : List IkcpSeg) : Prop where
  emitted : groupBytes group ∈ endpoint.emitted
  roundTrips : RoundTrips conv group
  stamped : ∀ seg ∈ group, Stamped handle seg

section Flush

variable {attr : Side → KcpAttr} {session : Session}

theorem Session.Live.flushes (live : session.Live attr) (side : Side) {now : UInt32}
    (due : ¬ Early now (session side).handle.ts_flush) :
    ∃ updated ts_flush, updated ≠ 0 ∧
      Rested (atClock (session side).handle now updated ts_flush)
        ((session side).outputRoutine now).handle ∧
      ∀ chosen ∈ chosenSegs (atClock (session side).handle now updated ts_flush), ∃ group,
        chosen ∈ group ∧
        ((session side).outputRoutine now).Sends (attr side).conv (session side).handle group := by
  obtain ⟨updated, ts_flush, running, flushes⟩ := dueFlush_of_not_early due
  obtain ⟨groups, output, all, readable⟩ := (live.paced side).sending.datagrams now
  have queue : sendQueue (session side).kcp.mSendBufQueue (session side).handle =
      ((session side).handle, []) := by
    rw [live.idle side]
    rfl
  have handle : ((session side).outputRoutine now).handle =
      (ikcpUpdate (sendQueue (session side).kcp.mSendBufQueue (session side).handle).1 now).1 := rfl
  have segs : (session side).kcp.flushSegs now =
      chosenSegs (atClock (session side).handle now updated ts_flush) := by
    rw [Kcp.flushSegs]
    change (dueFlush (sendQueue (session side).kcp.mSendBufQueue (session side).handle).1 now).elim
      _ _ = _
    rw [queue, flushes]
    rfl
  refine ⟨updated, ts_flush, running, ?_, fun chosen member => ?_⟩
  · rw [handle, queue, ikcpUpdate_of_due flushes]
    exact ikcpFlush_rested running
  · rw [← segs, ← all] at member
    obtain ⟨group, inGroups, inGroup⟩ := List.mem_flatten.mp member
    obtain ⟨roundTrips, stamped⟩ := readable group inGroups
    refine ⟨group, inGroup, ?_, roundTrips, stamped⟩
    change groupBytes group ∈ (session side).emitted ++ ((session side).kcp.outputRoutine now).2.datagrams
    rw [output]
    exact List.mem_append_right _ (List.mem_map_of_mem inGroups)

/-- Some call sends a segment of `snd_buf` once more. -/
theorem Session.Live.resend (sameConv : (attr .a).conv = (attr .b).conv) (live : session.Live attr)
    (side : Side) {seg : IkcpSeg} (member : seg ∈ (session side).handle.snd_buf) :
    ∃ later, session.Onward attr later ∧ later side.peer = session side.peer ∧
      ∃ group handle, (later side).Sends (attr side).conv handle group ∧
        ∃ again ∈ group, SameSeg seg again := by
  obtain ⟨now, forward, due, passes⟩ := exists_clock (session side).handle.current
    (session side).handle.ts_flush seg.resendts
  obtain ⟨middle, reached, mine, other⟩ := live.output sameConv side forward
  obtain ⟨updated, ts_flush, running, rested, sends⟩ := live.flushes side due
  rcases rested.kept seg member with ⟨again, chosen, same⟩ | kept
  · obtain ⟨group, inGroup, sent⟩ := sends again chosen
    exact ⟨middle, reached, other, group, _, mine ▸ sent, again, inGroup, same⟩
  · rcases passes with passed | later
    · obtain ⟨again, chosen, same⟩ := mem_chosenSegs_of_passed
        (atClock (session side).handle now updated ts_flush) running member passed
      obtain ⟨group, inGroup, sent⟩ := sends again chosen
      exact ⟨middle, reached, other, group, _, mine ▸ sent, again, inGroup, same⟩
    · -- it was not sent, so it is still there when its time comes
      obtain ⟨next, forwardNext, dueNext, passed⟩ := later (middle side).handle.ts_flush
      have current : (middle side).handle.current = now := by
        rw [mine]
        exact rested.current
      obtain ⟨last, further, mineLast, otherLast⟩ :=
        reached.live.output sameConv side (current.symm ▸ forwardNext)
      obtain ⟨flag, flush, runningNext, _, sendsNext⟩ := reached.live.flushes side dueNext
      have still : seg ∈ (middle side).handle.snd_buf := by
        rw [mine]
        exact kept
      obtain ⟨again, chosen, same⟩ := mem_chosenSegs_of_passed
        (atClock (middle side).handle next flag flush) runningNext still passed
      obtain ⟨group, inGroup, sent⟩ := sendsNext again chosen
      exact ⟨last, reached.trans further, otherLast.trans other, group, _, mineLast ▸ sent, again,
        inGroup, same⟩

theorem Session.Live.output_remote (live : session.Live attr) (side : Side) (now : UInt32) :
    ((session side).outputRoutine now).handle.rmt_wnd = (session side).handle.rmt_wnd := by
  have same := sendQueue_flight (session side).kcp.mSendBufQueue (session side).handle
  have bounded := (live.paced side).flight
  rw [← same] at bounded
  exact (ikcpUpdate_fills bounded now).remote.trans (congrArg Flight.rmt_wnd same)

/-- A question for the peer's window is on its way. -/
def Session.Asks (attr : Side → KcpAttr) (session : Session) (side : Side) : Prop :=
  ∃ group handle, (session side).Sends (attr side).conv handle group ∧
    ∃ asking ∈ group, asking.cmd = ikcpCmdWask

/-- With the probe timer set some call asks for the window. -/
theorem Session.Live.asks_in_time (sameConv : (attr .a).conv = (attr .b).conv)
    (live : session.Live attr) (side : Side) (closed : (session side).handle.rmt_wnd = 0)
    (waiting : (session side).handle.probe_wait ≠ 0) :
    ∃ later, session.Onward attr later ∧ later side.peer = session side.peer ∧
      later.Asks attr side := by
  obtain ⟨now, forward, due, passes⟩ := exists_clock (session side).handle.current
    (session side).handle.ts_flush (session side).handle.ts_probe
  obtain ⟨middle, reached, mine, other⟩ := live.output sameConv side forward
  obtain ⟨updated, ts_flush, running, rested, sends⟩ := live.flushes side due
  rcases passes with passed | later
  · obtain ⟨asking, chosen, isAsk⟩ := asks_of_passed
      (atClock (session side).handle now updated ts_flush) running closed waiting passed
    obtain ⟨group, inGroup, sent⟩ := sends asking chosen
    exact ⟨middle, reached, other, group, _, mine ▸ sent, asking, inGroup, isAsk⟩
  · rcases asks_or_waits (atClock (session side).handle now updated ts_flush) running closed with
      ⟨asking, chosen, isAsk⟩ | ⟨stillWaiting, sameTime⟩
    · obtain ⟨group, inGroup, sent⟩ := sends asking chosen
      exact ⟨middle, reached, other, group, _, mine ▸ sent, asking, inGroup, isAsk⟩
    · obtain ⟨next, forwardNext, dueNext, passed⟩ := later (middle side).handle.ts_flush
      have current : (middle side).handle.current = now := by
        rw [mine]
        exact rested.current
      have ts_probe : (middle side).handle.ts_probe = (session side).handle.ts_probe := by
        rw [mine]
        exact rested.ts_probe.trans (sameTime waiting)
      have probe_wait : (middle side).handle.probe_wait ≠ 0 := by
        rw [mine, rested.probe_wait]
        exact stillWaiting
      have closedNext : (middle side).handle.rmt_wnd = 0 := by
        rw [mine, live.output_remote side now]
        exact closed
      obtain ⟨last, further, mineLast, otherLast⟩ :=
        reached.live.output sameConv side (current.symm ▸ forwardNext)
      obtain ⟨flag, flush, runningNext, _, sendsNext⟩ := reached.live.flushes side dueNext
      obtain ⟨asking, chosen, isAsk⟩ := asks_of_passed
        (atClock (middle side).handle next flag flush) runningNext closedNext probe_wait
        (ts_probe.symm ▸ passed)
      obtain ⟨group, inGroup, sent⟩ := sendsNext asking chosen
      exact ⟨last, reached.trans further, otherLast.trans other, group, _, mineLast ▸ sent, asking,
        inGroup, isAsk⟩

theorem Session.Live.asks (sameConv : (attr .a).conv = (attr .b).conv) (live : session.Live attr)
    (side : Side) (closed : (session side).handle.rmt_wnd = 0) :
    ∃ later, session.Onward attr later ∧ later side.peer = session side.peer ∧
      later.Asks attr side := by
  obtain ⟨now, forward, due, _⟩ := exists_clock (session side).handle.current
    (session side).handle.ts_flush (session side).handle.current
  obtain ⟨middle, reached, mine, other⟩ := live.output sameConv side forward
  obtain ⟨updated, ts_flush, running, rested, sends⟩ := live.flushes side due
  rcases asks_or_waits (atClock (session side).handle now updated ts_flush) running closed with
    ⟨asking, chosen, isAsk⟩ | ⟨waiting, _⟩
  · obtain ⟨group, inGroup, sent⟩ := sends asking chosen
    exact ⟨middle, reached, other, group, _, mine ▸ sent, asking, inGroup, isAsk⟩
  · have probe_wait : (middle side).handle.probe_wait ≠ 0 := by
      rw [mine, rested.probe_wait]
      exact waiting
    have closedNext : (middle side).handle.rmt_wnd = 0 := by
      rw [mine, live.output_remote side now]
      exact closed
    obtain ⟨later, further, otherLater, asks⟩ :=
      reached.live.asks_in_time sameConv side closedNext probe_wait
    exact ⟨later, reached.trans further, otherLater.trans other, asks⟩

/-- What is owed is answered with the number awaited and the room there is. -/
theorem Session.Live.answers (sameConv : (attr .a).conv = (attr .b).conv)
    (live : session.Live attr) (side : Side) (owes : Owes (session side).handle) :
    ∃ later, session.Onward attr later ∧ later side.peer = session side.peer ∧
      ∃ group, (later side).Sends (attr side).conv (session side).handle group := by
  obtain ⟨now, forward, due, _⟩ := exists_clock (session side).handle.current
    (session side).handle.ts_flush (session side).handle.current
  obtain ⟨later, reached, mine, other⟩ := live.output sameConv side forward
  obtain ⟨updated, ts_flush, running, _, sends⟩ := live.flushes side due
  obtain ⟨answer, chosen⟩ := List.exists_mem_of_ne_nil _ (chosenSegs_of_owes
    (atClock (session side).handle now updated ts_flush) running owes)
  obtain ⟨group, _, sent⟩ := sends answer chosen
  exact ⟨later, reached, other, group, mine ▸ sent⟩

/-- With nothing in flight and room at the peer a call gives out a number. -/
theorem Session.Live.gives_out (sameConv : (attr .a).conv = (attr .b).conv)
    (live : session.Live attr) (side : Side) (waiting : (session side).handle.snd_queue ≠ [])
    (empty : (session side).handle.snd_buf = []) (room : (session side).handle.rmt_wnd ≠ 0) :
    ∃ later, session.Onward attr later ∧ later side.peer = session side.peer ∧
      (session side).sent < (later side).sent := by
  obtain ⟨calls, run⟩ := (live.paced side).reached
  obtain ⟨bounded, window, nocwnd⟩ := reached_flight run
  obtain ⟨now, forward, due, _⟩ := exists_clock (session side).handle.current
    (session side).handle.ts_flush (session side).handle.current
  obtain ⟨later, reached, mine, other⟩ := live.output sameConv side forward
  obtain ⟨updated, ts_flush, running, rested, _⟩ := live.flushes side due
  have positive : (session side).handle.snd_wnd ≠ 0 := by
    intro zero
    have none : (session side).handle.snd_wnd.toNat = 0 := by
      rw [zero]
      rfl
    have size : (attr side).sendWindow ≠ 0 := by
      rw [KcpAttr.sendWindow]
      split
      · decide
      · rename_i nonzero
        exact fun zero => nonzero (UInt16.toNat_inj.mp zero)
    exact size (window.symm.trans none)
  have paced : (session side).handle.nocwnd ≠ 0 := by
    change (session side).kcp.mKcpHandle.nocwnd ≠ 0
    rw [nocwnd]
    decide
  have shorter := fillSndBuf_moves (atClock (session side).handle now updated ts_flush) bounded
    waiting empty positive room paced
  rw [← rested.queue, ← mine] at shorter
  have before := (live.sound.settled side).sent_add
  have after := (reached.live.sound.settled side).sent_add
  have stream : (later side).stream = (session side).stream := by
    rw [Endpoint.stream, reached.accepted side]
    rfl
  rw [stream] at after
  change (later side).handle.snd_queue.length < (session side).handle.snd_queue.length at shorter
  exact ⟨later, reached, other, by omega⟩

end Flush

/-! ## Taking a datagram -/

theorem decoded_of_sent {group : List IkcpSeg} {decoded : List DecodedSeg}
    (same : List.Forall₂ Decodes group decoded) {seg : IkcpSeg} (member : seg ∈ group) :
    ∃ found ∈ decoded, Decodes seg found := by
  induction same with
  | nil => contradiction
  | cons first _ ih =>
      rcases List.mem_cons.mp member with here | later
      · rw [here]
        exact ⟨_, List.mem_cons_self, first⟩
      · obtain ⟨found, inRest, decodes⟩ := ih later
        exact ⟨found, List.mem_cons_of_mem _ inRest, decodes⟩

theorem Endpoint.inputRoutine_handle (endpoint : Endpoint) (batch : List Datagram) :
    (endpoint.inputRoutine batch).handle = (endpoint.kcp.inputRoutine batch).1.mKcpHandle := rfl

section Take

variable {attr : Side → KcpAttr} {session : Session} {group : List IkcpSeg}

theorem conv_eq (sameConv : (attr .a).conv = (attr .b).conv) (side : Side) :
    (attr side).conv = (attr .a).conv := by
  cases side with
  | a => rfl
  | b => exact sameConv.symm

/-- An endpoint takes the datagrams that start with its peer's `conv`. -/
theorem Session.Live.convs (sameConv : (attr .a).conv = (attr .b).conv) (live : session.Live attr)
    (side : Side) : (session side).handle.conv = (attr side.peer).conv ∧
      (session side).kcp.mAttr.conv = (attr side.peer).conv := by
  obtain ⟨calls, run⟩ := (live.paced side).reached
  have same : (attr side).conv = (attr side.peer).conv :=
    (conv_eq sameConv side).trans (conv_eq sameConv side.peer).symm
  exact ⟨(congrArg Setup.conv (live.paced side).sending.ready.setup).trans same,
    (reached_conv run).trans same⟩

/-- An endpoint takes a datagram of its peer. -/
theorem Session.Live.takes (sameConv : (attr .a).conv = (attr .b).conv) (live : session.Live attr)
    (side : Side) (emitted : groupBytes group ∈ (session side.peer).emitted)
    (roundTrips : RoundTrips (attr side.peer).conv group) :
    ∃ later, session.Onward attr later ∧ later side.peer = session side.peer ∧
      Taken (groupBytes group) (session side).handle (later side).handle := by
  have received : ∀ datagram ∈ [datagramOf group],
      datagram.bytes ∈ (session side.peer).emitted := by
    intro datagram member
    rw [List.mem_singleton.mp member]
    exact emitted
  obtain ⟨later, reached, mine, other⟩ := live.input sameConv side received
  have taken := inputRoutine_taken roundTrips (live.convs sameConv side).2
  rw [← Endpoint.inputRoutine_handle, ← mine] at taken
  exact ⟨later, reached, other, taken⟩

/-- The segments in a datagram of the peer are genuine and are applied one by one. -/
theorem Session.Live.applied (sameConv : (attr .a).conv = (attr .b).conv)
    (live : session.Live attr) (side : Side)
    (emitted : groupBytes group ∈ (session side.peer).emitted)
    (roundTrips : RoundTrips (attr side.peer).conv group) :
    ∃ segs : List IkcpSeg,
      (∀ seg ∈ segs, Genuine (attr .a).conv (session side.peer).progress seg) ∧
      (∀ seg ∈ group, ∃ same ∈ segs, same.sn = seg.sn ∧ same.cmd = seg.cmd) ∧
      (ikcpInput (session side).handle (groupBytes group)).1.acklist =
          (applyAll (segs.map decodedOf) ((session side).handle, {})).1.acklist ∧
      (ikcpInput (session side).handle (groupBytes group)).1.probe =
          (applyAll (segs.map decodedOf) ((session side).handle, {})).1.probe := by
  obtain ⟨conv, mine⟩ := live.convs sameConv side
  obtain ⟨segs, parts, good, _⟩ := (live.back side).emitted _ emitted
  obtain ⟨_, decoded, faithful, decodes, applied, _⟩ := roundTrips.read (session side).handle conv
  have sound := Endpoint.sound_progress (live.sound.settled side.peer) (live.back side)
    (live.sent_lt side.peer) (live.sent_lt side)
  have readable : ∀ seg ∈ segs, Readable (session side).handle seg := fun seg member =>
    (good seg member).readable sound (conv.trans (conv_eq sameConv side.peer))
  have all := decodeLoop_segs readable (Nat.le_refl (segs.flatMap segBytes).length)
  rw [← parts, conv, decodes] at all
  have same : decoded = segs.map decodedOf := congrArg Prod.fst all
  have accepted : (inputLoop (groupBytes group).length (session side).handle {}
      (groupBytes group)).2.2 = 0 := by
    rw [applied]
  obtain ⟨acks, probe⟩ := ikcpInput_owed roundTrips.size.1 accepted
  rw [applied, same] at acks probe
  refine ⟨segs, good, ?_, acks, probe⟩
  intro seg member
  obtain ⟨found, inDecoded, faithfully⟩ := decoded_of_sent faithful member
  rw [same] at inDecoded
  obtain ⟨original, inSegs, built⟩ := List.mem_map.mp inDecoded
  refine ⟨original, inSegs, ?_, ?_⟩
  · exact (congrArg (fun seg => seg.1.sn) built).trans faithfully.sn
  · exact (toUInt8_cmd (good original inSegs)).symm.trans
      ((congrArg (fun seg => seg.1.cmd.toUInt32) built).trans faithfully.cmd)

/-- A data segment that is awaited or known is stored and acknowledged. -/
theorem Session.Live.takes_push (sameConv : (attr .a).conv = (attr .b).conv)
    (live : session.Live attr) (side : Side)
    (emitted : groupBytes group ∈ (session side.peer).emitted)
    (roundTrips : RoundTrips (attr side.peer).conv group) {seg : IkcpSeg} (member : seg ∈ group)
    (isPush : seg.cmd = ikcpCmdPush)
    (awaits : Awaits (session side.peer).sent (session side).handle seg.sn) :
    ∃ later, session.Onward attr later ∧ later side.peer = session side.peer ∧
      (later side).handle.recvSide.Stored seg.sn.toNat ∧ Owes (later side).handle := by
  obtain ⟨later, reached, other, taken⟩ := live.takes sameConv side emitted roundTrips
  obtain ⟨segs, good, found, acks, _⟩ := live.applied sameConv side emitted roundTrips
  obtain ⟨same, inSegs, sn, cmd⟩ := found seg member
  have sound := Endpoint.sound_progress (live.sound.settled side.peer) (live.back side)
    (live.sent_lt side.peer) (live.sent_lt side)
  have linked := live.linked side
  have fed : Fed (session side.peer).progress (payloads (session side).delivered)
      (session side).handle (session side).handle :=
    ⟨rfl, (live.sound.settled side).counted, .refl _ _, linked.receiving, .refl _, linked.owed⟩
  have acked := applyAll_acks sound fed
    (fun seg member => Nat.lt_trans (linked.numbered seg member).2.2.sent (live.sent_lt side))
    good inSegs (cmd.trans isPush) (sn.symm ▸ awaits) {}
  rw [← acks, ← taken.acklist] at acked
  refine ⟨later, reached, other, ?_, .inl (List.ne_nil_of_mem acked)⟩
  rw [← sn]
  exact (reached.live.linked side).owed _ acked

/-- A question for the window makes an answer owed. -/
theorem Session.Live.takes_ask (sameConv : (attr .a).conv = (attr .b).conv)
    (live : session.Live attr) (side : Side) (asks : session.Asks attr side.peer) :
    ∃ later, session.Onward attr later ∧ later side.peer = session side.peer ∧
      Owes (later side).handle := by
  obtain ⟨group, handle, sent, asking, member, isAsk⟩ := asks
  obtain ⟨later, reached, other, taken⟩ := live.takes sameConv side sent.emitted sent.roundTrips
  obtain ⟨segs, good, found, acks, probe⟩ :=
    live.applied sameConv side sent.emitted sent.roundTrips
  obtain ⟨same, inSegs, _, cmd⟩ := found asking member
  have asked := applyAll_asked good inSegs (cmd.trans isAsk) ((session side).handle, {})
  exact ⟨later, reached, other, taken.owes (asked.of_same acks probe)⟩

/-- The answer of a peer that has every number given out. -/
theorem Session.Live.takes_answer (sameConv : (attr .a).conv = (attr .b).conv)
    (live : session.Live attr) (side : Side) {answering : Ikcpcb}
    (sent : (session side.peer).Sends (attr side.peer).conv answering group)
    (complete : answering.rcv_nxt.toNat = (session side).sent) :
    ∃ later, session.Onward attr later ∧ later side.peer = session side.peer ∧
      (later side).handle.snd_buf = [] ∧
      (later side).handle.rmt_wnd = ikcpWndUnused answering := by
  obtain ⟨later, reached, other, taken⟩ := live.takes sameConv side sent.emitted sent.roundTrips
  have few := live.sent_lt side
  have passed : ∀ seg ∈ (session side).handle.snd_buf,
      itimediff answering.rcv_nxt seg.sn > 0 := by
    intro seg member
    have below : seg.sn.toNat < (session side).sent :=
      ((live.linked side).numbered seg member).2.2.sent
    rw [itimediff_eq (by omega) (by omega)]
    omega
  obtain ⟨empty, room⟩ := ikcpInput_answered sent.roundTrips (live.convs sameConv side).1
    (fun seg member => ⟨(sent.stamped seg member).una, (sent.stamped seg member).wnd⟩) passed
  have serials := congrArg Flight.serials taken.flight
  rw [Ikcpcb.flight, Ikcpcb.flight, empty] at serials
  exact ⟨later, reached, other, List.map_eq_nil_iff.mp serials,
    (congrArg Flight.rmt_wnd taken.flight).trans room⟩

end Take

end FiberKcp
