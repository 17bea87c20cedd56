import FiberKcp.Session.Rejection
import FiberKcp.Session.Safety
import FiberKcp.Session.Windows

namespace FiberKcp

open Data Ikcp

/-! The window a side announces against the window its peer sends in.  An
announcement may be lost, repeated or arrive late, and none says more than the
receive window that was set up. -/

namespace Ikcp

theorem ikcpWndUnused_le (kcp : Ikcpcb) : (ikcpWndUnused kcp).toNat ≤ kcp.rcv_wnd.toNat := by
  rw [ikcpWndUnused]
  split
  · rename_i room
    rw [UInt32.toNat_sub_of_le _ _ (UInt32.le_of_lt room)]
    exact Nat.sub_le _ _
  · exact Nat.zero_le _

theorem ikcpWndUnused_congr {kcp after : Ikcpcb} (same : after.recvSide = kcp.recvSide) :
    ikcpWndUnused after = ikcpWndUnused kcp := by
  have window : after.rcv_wnd = kcp.rcv_wnd := congrArg RecvSide.rcv_wnd same
  have count : after.nrcv_que = kcp.nrcv_que := congrArg RecvSide.nrcv_que same
  rw [ikcpWndUnused, ikcpWndUnused, window, count]

/-- The segment tells the room left in `rcv_queue` and the number awaited. -/
structure Stamped (kcp : Ikcpcb) (seg : IkcpSeg) : Prop where
  wnd : seg.wnd = ikcpWndUnused kcp
  una : seg.una = kcp.rcv_nxt

theorem fillSndBuf_recvSide (kcp : Ikcpcb) : (fillSndBuf kcp).recvSide = kcp.recvSide :=
  (moveToSndBuf_keeps _ _ _ _).1

/-- Acknowledgements, probes and data of one flush all tell the same. -/
theorem chosenSegs_stamped (kcp : Ikcpcb) : ∀ seg ∈ chosenSegs kcp, Stamped kcp seg := by
  intro seg member
  rw [chosenSegs] at member
  split at member
  · contradiction
  · let cleared := scheduleProbe { kcp with acklist := [] }
    have same : cleared.recvSide = kcp.recvSide := (scheduleProbe_sameTraffic _).recvSide
    have awaited : (fillSndBuf cleared).rcv_nxt = kcp.rcv_nxt :=
      congrArg RecvSide.rcv_nxt ((fillSndBuf_recvSide cleared).trans same)
    rcases List.mem_append.mp member with control | data
    · rcases List.mem_append.mp control with ack | probe
      · obtain ⟨owed, _, built⟩ := List.mem_map.mp ack
        rw [← built]
        exact ⟨rfl, rfl⟩
      · rw [chosenProbes] at probe
        rcases List.mem_append.mp probe with asking | telling
        · rw [List.mem_ite_nil_right, List.mem_singleton] at asking
          rw [asking.2]
          exact ⟨rfl, rfl⟩
        · rw [List.mem_ite_nil_right, List.mem_singleton] at telling
          rw [telling.2]
          exact ⟨rfl, rfl⟩
    · obtain ⟨segment, _, sent⟩ := List.mem_flatMap.mp data
      rw [chosenSeg, List.mem_ite_nil_right, List.mem_singleton] at sent
      rw [sent.2]
      exact ⟨ikcpWndUnused_congr same, awaited⟩

end Ikcp

/-- The segments of one call all tell the room left, packed into datagrams that
make the round trip. -/
theorem Kcp.Sending.datagrams {conv : UInt32} {kcp : Kcp} (sending : kcp.Sending conv)
    (now : UInt32) :
    ∃ groups : List (List IkcpSeg), (kcp.outputRoutine now).2.datagrams = groups.map groupBytes ∧
      groups.flatten = kcp.flushSegs now ∧ ∀ group ∈ groups, RoundTrips conv group ∧
        ∀ seg ∈ group, Stamped kcp.mKcpHandle seg := by
  have accepts := sendQueue_accepts kcp.mSendBufQueue kcp.mKcpHandle sending.ready.setup
  have filled := sending.sendable.accepts accepts
  have datagrams : (kcp.outputRoutine now).2.datagrams =
      (ikcpUpdate (sendQueue kcp.mSendBufQueue kcp.mKcpHandle).1 now).2 := rfl
  rw [datagrams, ikcpUpdate_datagrams, Kcp.flushSegs]
  cases flushes : dueFlush (sendQueue kcp.mSendBufQueue kcp.mKcpHandle).1 now with
  | none => exact ⟨[], rfl, rfl, by simp⟩
  | some due =>
      have same := dueFlush_sameTraffic flushes
      have sendable := filled.sameTraffic same
      have conv_eq : due.conv = conv := (congrArg Setup.conv same.setup).trans
        ((congrArg Setup.conv accepts.setup).trans (congrArg Setup.conv sending.ready.setup))
      have recvSide : due.recvSide = kcp.mKcpHandle.recvSide :=
        same.recvSide.trans accepts.recvSide
      obtain ⟨groups, output, all, packed⟩ := ikcpFlush_packs sendable
      have chosen : ∀ group ∈ groups, ∀ seg ∈ group, seg ∈ chosenSegs due :=
        fun group member seg inGroup => all ▸ List.mem_flatten_of_mem member inGroup
      refine ⟨groups, output, all, fun group member => ⟨?_, fun seg inGroup => ?_⟩⟩
      · obtain ⟨nonempty, bound⟩ := packed group member
        exact roundTrips_of_encodable nonempty (fun seg inGroup =>
          conv_eq ▸ (sendable.chosen seg (chosen group member seg inGroup)).1) bound
      · obtain ⟨wnd, una⟩ := chosenSegs_stamped due seg (chosen group member seg inGroup)
        exact ⟨wnd.trans (ikcpWndUnused_congr recvSide),
          una.trans (congrArg RecvSide.rcv_nxt recvSide)⟩

/-- The endpoint as a sender: nothing it sends announces more than its receive
window, and it has no more numbers in flight than the peer's window takes. -/
structure Paced (mine theirs : KcpAttr) (endpoint : Endpoint) : Prop where
  reached : ∃ calls, Run Kcp.perform anyStep (Kcp.init mine) calls endpoint.kcp
  announced : ∀ bytes ∈ endpoint.emitted, ∃ group, bytes = groupBytes group ∧
    RoundTrips mine.conv group ∧ ∀ seg ∈ group, seg.wnd.toNat ≤ mine.receiveWindow
  remote : endpoint.handle.rmt_wnd.toNat ≤ theirs.receiveWindow
  distance : ahead endpoint.handle.snd_una endpoint.handle.snd_nxt ≤ theirs.receiveWindow

section Endpoints

variable {mine theirs : KcpAttr} {me : Endpoint}

theorem paced_init (mine theirs : KcpAttr) : Paced mine theirs { kcp := Kcp.init mine } := by
  obtain ⟨_, flight, _⟩ := init_flight mine
  have remote : (Kcp.init mine).mKcpHandle.rmt_wnd = ikcpWndRcv :=
    congrArg Flight.rmt_wnd flight
  have una : (Kcp.init mine).mKcpHandle.snd_una = 0 := congrArg Flight.snd_una flight
  have next : (Kcp.init mine).mKcpHandle.snd_nxt = 0 := congrArg Flight.snd_nxt flight
  refine ⟨⟨[], .nil⟩, by simp, ?_, ?_⟩
  · rw [Endpoint.handle, remote]
    exact Nat.le_max_right _ _
  · rw [Endpoint.handle, una, next]
    exact Nat.zero_le _

theorem Paced.held (paced : Paced mine theirs me) : me.kcp.Held mine := by
  obtain ⟨calls, run⟩ := paced.reached
  exact reached_held run

theorem Paced.flight (paced : Paced mine theirs me) : me.handle.flight.Bounded := by
  obtain ⟨calls, run⟩ := paced.reached
  exact (reached_flight run).1

theorem Paced.sending (paced : Paced mine theirs me) : me.kcp.Sending mine.conv := by
  obtain ⟨calls, run⟩ := paced.reached
  exact reached_sending run

theorem Paced.perform (paced : Paced mine theirs me) (call : KcpCall) {after : Kcp}
    (performed : me.kcp.perform call = some after) :
    ∃ calls, Run Kcp.perform anyStep (Kcp.init mine) calls after := by
  obtain ⟨calls, run⟩ := paced.reached
  exact ⟨calls ++ [call], run.snoc trivial performed⟩

theorem Paced.send (paced : Paced mine theirs me) (buffer : List UInt8) :
    Paced mine theirs (me.send buffer) := by
  exact ⟨paced.perform (.send buffer) rfl, paced.announced, paced.remote, paced.distance⟩

theorem Paced.outputRoutine (paced : Paced mine theirs me) (now : UInt32) :
    Paced mine theirs (me.outputRoutine now) := by
  obtain ⟨groups, output, _, readable⟩ := paced.sending.datagrams now
  have bounded := paced.flight
  have same := sendQueue_flight me.kcp.mSendBufQueue me.handle
  have known : (sendQueue me.kcp.mSendBufQueue me.handle).1.rmt_wnd = me.handle.rmt_wnd :=
    congrArg Flight.rmt_wnd same
  have distance := paced.distance
  rw [← same] at bounded
  have fills := ikcpUpdate_fills bounded now
  rw [same, known] at fills
  refine ⟨paced.perform (.outputRoutine now) rfl, ?_, ?_, ?_⟩
  · intro bytes member
    rcases List.mem_append.mp member with earlier | new
    · exact paced.announced bytes earlier
    · change bytes ∈ (me.kcp.outputRoutine now).2.datagrams at new
      rw [output] at new
      obtain ⟨group, inGroups, built⟩ := List.mem_map.mp new
      obtain ⟨roundTrips, stamped⟩ := readable group inGroups
      refine ⟨group, built.symm, roundTrips, fun seg inGroup => ?_⟩
      rw [← paced.held.window, (stamped seg inGroup).wnd]
      exact ikcpWndUnused_le _
  · have after : (me.outputRoutine now).handle.rmt_wnd = me.handle.rmt_wnd := fills.remote
    rw [after]
    exact paced.remote
  · have limited := fills.limited
    have una : (me.outputRoutine now).handle.snd_una = me.handle.snd_una := fills.una
    rw [una]
    exact Nat.le_trans limited (max_le distance paced.remote)

theorem sent_of_decoded {group : List IkcpSeg} {decoded : List DecodedSeg}
    (same : List.Forall₂ Decodes group decoded) {seg : DecodedSeg} (member : seg ∈ decoded) :
    ∃ sent ∈ group, Decodes sent seg := by
  induction same with
  | nil => contradiction
  | cons first _ ih =>
      rcases List.mem_cons.mp member with here | later
      · rw [here]
        exact ⟨_, List.mem_cons_self, first⟩
      · obtain ⟨sent, inRest, decodes⟩ := ih later
        exact ⟨sent, List.mem_cons_of_mem _ inRest, decodes⟩

/-- The datagrams of the peer leave the room known to the sender within its
window. -/
theorem receiveAll_rmt_wnd {conv : UInt32} {limit : Nat} (kcp : Kcp) (locals : InputLocals)
    (batch : List Datagram) (setup : kcp.mKcpHandle.conv = conv)
    (announced : ∀ datagram ∈ batch, ∃ group, datagram.bytes = groupBytes group ∧
      RoundTrips conv group ∧ ∀ seg ∈ group, seg.wnd.toNat ≤ limit)
    (before : kcp.mKcpHandle.rmt_wnd.toNat ≤ limit) :
    (kcp.receiveAll locals batch).1.mKcpHandle.rmt_wnd.toNat ≤ limit := by
  induction batch generalizing kcp locals with
  | nil => exact before
  | cons datagram rest ih =>
      obtain ⟨group, built, roundTrips, small⟩ := announced datagram List.mem_cons_self
      rw [Kcp.receiveAll_cons]
      apply ih _ _ ((receive_conv kcp locals datagram).2.trans setup)
      · intro other member
        exact announced other (List.mem_cons_of_mem datagram member)
      · rw [Kcp.receive]
        dsimp only
        rw [built, roundTrips.whole]
        split
        · exact before
        · obtain ⟨_, decoded, faithful, _, applied, _⟩ := roundTrips.read kcp.mKcpHandle setup
          have same := congrArg Flight.rmt_wnd (ikcpInput_flight kcp.mKcpHandle roundTrips.size.1)
          change (ikcpInput kcp.mKcpHandle (groupBytes group)).1.flight.rmt_wnd.toNat ≤ limit
          rw [same, applied]
          change (applyAll decoded (kcp.mKcpHandle, {})).1.rmt_wnd.toNat ≤ limit
          apply applyAll_preserves (fun after => after.rmt_wnd.toNat ≤ limit) _ before
          intro held scan seg member _
          obtain ⟨sent, inGroup, decodes⟩ := sent_of_decoded faithful member
          rw [applySegment_rmt_wnd, decodes.wnd]
          exact small sent inGroup

theorem Paced.inputRoutine (paced : Paced mine theirs me) (sameConv : theirs.conv = mine.conv)
    {batch : List Datagram} (announced : ∀ datagram ∈ batch, ∃ group,
      datagram.bytes = groupBytes group ∧ RoundTrips theirs.conv group ∧
        ∀ seg ∈ group, seg.wnd.toNat ≤ theirs.receiveWindow) :
    Paced mine theirs (me.inputRoutine batch) := by
  have conv : me.handle.conv = theirs.conv :=
    (congrArg Setup.conv paced.sending.ready.setup).trans sameConv.symm
  have released := receiveAll_releases me.kcp {} batch (.refl paced.flight)
  have remote := receiveAll_rmt_wnd me.kcp {} batch conv announced paced.remote
  have same : (me.inputRoutine batch).handle.flight =
      (me.kcp.receiveAll {} batch).1.mKcpHandle.flight := deliver_flight _ _
  rw [← same] at released
  refine ⟨paced.perform (.inputRoutine batch) rfl, paced.announced, ?_, ?_⟩
  · have after : (me.inputRoutine batch).handle.rmt_wnd =
        (me.kcp.receiveAll {} batch).1.mKcpHandle.rmt_wnd := congrArg Flight.rmt_wnd same
    rw [after]
    exact remote
  · have next : (me.inputRoutine batch).handle.snd_nxt = me.handle.snd_nxt := released.next
    have passed : ahead me.handle.snd_una (me.inputRoutine batch).handle.snd_una ≤
        ahead me.handle.snd_una me.handle.snd_nxt := released.released
    rw [next, ahead_rebase passed]
    exact Nat.le_trans (Nat.sub_le _ _) paced.distance

end Endpoints

/-- What every state of a session keeps beside `Session.Sound`. -/
def Session.Paced (attr : Side → KcpAttr) (session : Session) : Prop :=
  ∀ side, FiberKcp.Paced (attr side) (attr side.peer) (session side)

section Session

variable {attr : Side → KcpAttr} {session : Session}

theorem Session.Paced.update (paced : session.Paced attr) {side : Side} {later : Endpoint}
    (mine : FiberKcp.Paced (attr side) (attr side.peer) later) :
    Session.Paced attr (Function.update session side later) := by
  intro other
  rcases side.eq_or_eq_peer other with same | same
  · rw [same, Function.update_self]
    exact mine
  · rw [same, Function.update_of_ne side.peer_ne]
    exact paced side.peer

theorem Session.Paced.step (sameConv : (attr .a).conv = (attr .b).conv) {after : Session}
    {event : SessionEvent} (paced : session.Paced attr)
    (stepped : session.step event = some after) : after.Paced attr := by
  cases event with
  | send side buffer =>
      cases stepped
      exact paced.update ((paced side).send buffer)
  | outputRoutine side now =>
      cases stepped
      exact paced.update ((paced side).outputRoutine now)
  | inputRoutine side batch =>
      simp only [Session.step] at stepped
      split at stepped
      · rename_i received
        cases stepped
        apply paced.update
        apply (paced side).inputRoutine
        · cases side with
          | a => exact sameConv.symm
          | b => exact sameConv
        · intro datagram member
          exact (paced side.peer).announced _ (received datagram member)
      · contradiction

theorem Session.paced_run (sameConv : (attr .a).conv = (attr .b).conv)
    {events : List SessionEvent} {allowed : Session → SessionEvent → Prop}
    (run : Run Session.step allowed (Session.start attr) events session) :
    session.Paced attr := by
  apply run.invariant (Session.Paced attr)
  · exact fun side => paced_init (attr side) (attr side.peer)
  · exact fun paced _ stepped => paced.step sameConv stepped

end Session

section Linked

variable {conv : UInt32} {me peer : Endpoint}

/-- A number in order but not yet in `rcv_queue` waits for room there. -/
theorem queue_full_of_stored {side : RecvSide} (bounded : side.Bounded)
    (stored : side.Stored side.rcv_nxt.toNat) :
    side.rcv_queue.length = side.rcv_wnd.toNat := by
  rcases stored with below | ⟨seg, member, same⟩
  · exact absurd below (Nat.lt_irrefl _)
  · have serial : seg.sn = side.rcv_nxt := UInt32.toNat_inj.mp same
    cases buffer : side.rcv_buf with
    | nil =>
        rw [buffer] at member
        contradiction
    | cons first rest =>
        apply bounded.waiting first
        · rw [buffer]
          rfl
        · have inBuffer : seg.sn ∈ side.rcv_buf.map IkcpSeg.sn := List.mem_map_of_mem member
          have front : (side.rcv_buf.map IkcpSeg.sn).head? = some first.sn := by rw [buffer]; rfl
          have least := bounded.buffer.head_le front inBuffer
          rw [serial, ahead_self] at least
          apply ahead_inj side.rcv_nxt
          rw [ahead_self]
          exact Nat.le_zero.mp least

/-- The sender's oldest number is behind the one awaited, unless the receiver
has no room: then it is at most a window further. -/
theorem Linked.snd_una_le (linked : Linked conv me peer) (few : me.sent < 2 ^ 31)
    (flight : me.handle.flight.Bounded) (bounded : peer.handle.recvSide.Bounded) :
    me.handle.snd_una.toNat ≤ me.sent ∧
      me.handle.snd_una.toNat ≤ peer.handle.rcv_nxt.toNat + peer.handle.rcv_wnd.toNat ∧
      (peer.handle.rcv_queue.length < peer.handle.rcv_wnd.toNat →
        me.handle.snd_una.toNat ≤ peer.handle.rcv_nxt.toNat) := by
  have first : me.handle.snd_una = (me.handle.snd_buf.map IkcpSeg.sn).head?.getD me.handle.snd_nxt :=
    flight.first
  have sent : me.handle.snd_una.toNat ≤ me.sent := by
    cases buffer : me.handle.snd_buf with
    | nil =>
        rw [buffer] at first
        rw [first]
        exact Nat.le_of_eq linked.next
    | cons seg rest =>
        rw [buffer] at first
        rw [first]
        exact Nat.le_of_lt (linked.numbered seg (buffer ▸ List.mem_cons_self)).2.2.sent
  -- a number between the one awaited and the oldest unacknowledged one is stored
  have stored : ∀ serial, serial < me.handle.snd_una.toNat →
      peer.handle.recvSide.Stored serial := by
    intro serial below
    rcases linked.covered serial (Nat.lt_of_lt_of_le below sent) with ⟨seg, member, same⟩ | stored
    · have inside := flight.ordered.inside seg.sn (List.mem_map_of_mem member)
      have inWindow := flight.inWindow
      have narrow := flight.narrow
      have una := me.handle.snd_una.toNat_lt
      have distance : ahead me.handle.snd_una seg.sn < 2 ^ 16 := by
        change ahead me.handle.snd_una seg.sn < ahead me.handle.snd_una me.handle.snd_nxt at inside
        change ahead me.handle.snd_una me.handle.snd_nxt ≤ _ at inWindow
        omega
      rw [ahead, UInt32.toNat_sub] at distance
      omega
    · exact stored
  refine ⟨sent, ?_, fun room => ?_⟩
  · rcases Nat.lt_or_ge peer.handle.rcv_nxt.toNat me.handle.snd_una.toNat with beyond | behind
    · rcases stored (me.handle.snd_una.toNat - 1) (by omega) with below | ⟨seg, member, same⟩
      · change _ < peer.handle.rcv_nxt.toNat at below
        omega
      · have inside := bounded.buffer.inside seg.sn (List.mem_map_of_mem member)
        have serial := peer.handle.rcv_nxt.toNat_lt
        change ahead peer.handle.rcv_nxt seg.sn < peer.handle.rcv_wnd.toNat at inside
        rw [ahead, UInt32.toNat_sub] at inside
        omega
    · omega
  · by_contra beyond
    have full := queue_full_of_stored bounded (stored _ (Nat.not_le.mp beyond))
    exact absurd full (Nat.ne_of_lt room)

end Linked

/-- A side never numbers more than two windows beyond what its peer has in
order, and more than one only while the peer's `rcv_queue` is full.  Without
that, no data segment ever sent is new and refused for lying beyond the window. -/
structure Session.WithinWindows (attr : Side → KcpAttr) (session : Session) : Prop where
  sent : ∀ side, (session side).sent ≤
    (session side.peer).handle.rcv_nxt.toNat + 2 * (attr side.peer).receiveWindow
  ahead : ∀ side, (session side.peer).handle.rcv_queue.length < (attr side.peer).receiveWindow →
    (session side).sent ≤
      (session side.peer).handle.rcv_nxt.toNat + (attr side.peer).receiveWindow
  taken : ∀ side, (session side.peer).handle.rcv_queue.length < (attr side.peer).receiveWindow →
    ∀ bytes ∈ (session side).emitted, Packed (fun seg => seg.cmd = ikcpCmdPush →
      (session side.peer).handle.rcv_nxt.toNat ≤ seg.sn.toNat →
      itimediff seg.sn ((session side.peer).handle.rcv_nxt + (session side.peer).handle.rcv_wnd) < 0)
      1400 bytes

/-- The number of segments that have one, from the oldest one in flight on. -/
theorem sent_le_una_add {limit sent : Nat} {una next : UInt32} (numbered : next.toNat = sent)
    (distance : ahead una next ≤ limit) : sent ≤ una.toNat + limit := by
  have bound := next.toNat_lt
  rw [ahead, UInt32.toNat_sub] at distance
  omega

theorem itimediff_window {sn next wnd : UInt32} (new : next.toNat ≤ sn.toNat)
    (inside : sn.toNat < next.toNat + wnd.toNat) (narrow : wnd.toNat < 2 ^ 16)
    (few : next.toNat < 2 ^ 31) : itimediff sn (next + wnd) < 0 := by
  have total : (next + wnd).toNat = next.toNat + wnd.toNat := by
    rw [UInt32.toNat_add]
    omega
  rw [itimediff_eq (by omega) (by omega), total]
  omega

end FiberKcp
