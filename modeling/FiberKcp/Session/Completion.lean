import FiberKcp.Session.Recovery

namespace FiberKcp

open Data Ikcp

/-! From every state a session reaches, calls of the two routines deliver all
that was ever sent. -/

section Stuck

variable {attr : Side → KcpAttr} {session : Session}

theorem KcpAttr.receiveWindow_bounds (attr : KcpAttr) :
    128 ≤ attr.receiveWindow ∧ attr.receiveWindow < 2 ^ 16 := by
  have narrow := attr.recvWndSize.toNat_lt
  rw [KcpAttr.receiveWindow]
  omega

/-- The first number of a segment in flight is no further back than the window. -/
theorem Session.Live.recent (live : session.Live attr) (side : Side) {seg : IkcpSeg}
    (member : seg ∈ (session side).handle.snd_buf) :
    (session side).sent ≤ seg.sn.toNat + 2 ^ 16 := by
  have bounded := (live.paced side).flight
  have inside : ahead (session side).handle.snd_una seg.sn <
      ahead (session side).handle.snd_una (session side).handle.snd_nxt :=
    bounded.ordered.inside _ (List.mem_map_of_mem member)
  have within : ahead (session side).handle.snd_una (session side).handle.snd_nxt ≤
      (session side).handle.snd_wnd.toNat := bounded.inWindow
  have narrow : (session side).handle.snd_wnd.toNat < 2 ^ 16 := bounded.narrow
  have distance : ahead seg.sn (session side).handle.snd_nxt ≤ 2 ^ 16 := by
    rw [ahead_rebase (Nat.le_of_lt inside)]
    omega
  exact sent_le_una_add (live.linked side).next distance

/-- With room at the peer, the numbers given out end in its window. -/
theorem Session.Live.sent_le_window (live : session.Live attr) (side : Side)
    (room : (session side.peer).handle.rcv_queue.length <
      (session side.peer).handle.rcv_wnd.toNat) :
    (session side).sent ≤ (session side.peer).handle.rcv_nxt.toNat + 2 ^ 16 := by
  have inOrder := ((live.linked side).snd_una_le (live.sent_lt side) (live.paced side).flight
    (live.paced side.peer).held.bounded).2.2 room
  have numbered := sent_le_una_add (live.linked side).next (live.paced side).distance
  have narrow := (attr side.peer).receiveWindow_bounds.2
  omega

/-- A segment in flight that is no longer new arrives and is acknowledged. -/
theorem Session.Live.arrives (sameConv : (attr .a).conv = (attr .b).conv)
    (live : session.Live attr) (side : Side) {seg : IkcpSeg}
    (member : seg ∈ (session side).handle.snd_buf)
    (awaited : seg.sn.toNat ≤ (session side.peer).handle.rcv_nxt.toNat)
    (recent : ∀ later, session.Onward attr later → later side.peer = session side.peer →
      (later side).sent ≤ seg.sn.toNat + 2 ^ 16) :
    ∃ later, session.Onward attr later ∧
      (later side.peer).handle.recvSide.Stored seg.sn.toNat ∧ Owes (later side.peer).handle := by
  obtain ⟨middle, reached, other, group, handle, sent, again, inGroup, same⟩ :=
    live.resend sameConv side member
  have isPush : again.cmd = ikcpCmdPush :=
    same.cmd.trans ((live.linked side).numbered seg member).2.1
  have window := (attr side.peer).receiveWindow_bounds
  have size : (middle side.peer).handle.rcv_wnd.toNat = _ := reached.live.window side.peer
  have awaits : Awaits (middle side).sent (middle side.peer).handle again.sn := by
    refine ⟨by omega, ?_, ?_, ?_⟩
    · intro zero
      rw [zero, UInt32.toNat_zero] at size
      omega
    · rw [same.sn, other]
      exact awaited
    · rw [same.sn]
      exact recent middle reached other
  have peers := Side.peer_peer side
  obtain ⟨later, further, _, stored, owes⟩ := reached.live.takes_push sameConv side.peer
    (peers.symm ▸ sent.emitted) (peers.symm ▸ sent.roundTrips) inGroup isPush
    (peers.symm ▸ awaits)
  exact ⟨later, reached.trans further, same.sn ▸ stored, owes⟩

/-- When the peer has all that was given a number, it comes to owe an answer or
more is given one. -/
theorem Session.Live.comes_to_owe (sameConv : (attr .a).conv = (attr .b).conv)
    (live : session.Live attr) (side : Side)
    (caughtUp : (session side.peer).handle.rcv_nxt.toNat = (session side).sent)
    (waiting : (session side).handle.snd_queue ≠ [])
    (stuck : ∀ later, session.Onward attr later → (later side).sent = (session side).sent) :
    ∃ later, session.Onward attr later ∧ Owes (later side.peer).handle := by
  by_cases empty : (session side).handle.snd_buf = []
  · by_cases closed : (session side).handle.rmt_wnd = 0
    · obtain ⟨middle, reached, _, asks⟩ := live.asks sameConv side closed
      have peers := Side.peer_peer side
      obtain ⟨later, further, _, owes⟩ :=
        reached.live.takes_ask sameConv side.peer (peers.symm ▸ asks)
      exact ⟨later, reached.trans further, owes⟩
    · obtain ⟨later, reached, _, more⟩ := live.gives_out sameConv side waiting empty closed
      have same := stuck later reached
      omega
  · obtain ⟨seg, member⟩ := List.exists_mem_of_ne_nil _ empty
    have below : seg.sn.toNat < (session side).sent :=
      ((live.linked side).numbered seg member).2.2.sent
    have recent := live.recent side member
    obtain ⟨later, reached, _, owes⟩ := live.arrives sameConv side member (by omega)
      (fun later reached _ => (stuck later reached).symm ▸ recent)
    exact ⟨later, reached, owes⟩

/-- A peer that has all that was given a number lets more be given one. -/
theorem Session.Live.gives_more (sameConv : (attr .a).conv = (attr .b).conv)
    (live : session.Live attr) (side : Side)
    (caughtUp : (session side.peer).handle.rcv_nxt.toNat = (session side).sent)
    (waiting : (session side).handle.snd_queue ≠ []) :
    ∃ later, session.Onward attr later ∧ (session side).sent < (later side).sent := by
  by_contra none
  have stuck : ∀ later, session.Onward attr later → (later side).sent = (session side).sent := by
    intro later reached
    have more : (session side).sent ≤ (later side).sent := (reached.grows side).sent
    by_contra other
    exact none ⟨later, reached, by omega⟩
  have still : ∀ later, session.Onward attr later →
      (later side.peer).handle.rcv_nxt.toNat = (later side).sent ∧
        (later side).handle.snd_queue ≠ [] := by
    intro later reached
    have same := stuck later reached
    have received : (session side.peer).handle.rcv_nxt.toNat ≤
      (later side.peer).handle.rcv_nxt.toNat := (reached.grows side.peer).received
    have within : (later side.peer).handle.rcv_nxt.toNat ≤ (later side).sent :=
      (reached.live.back side).receiving.within
    have before := (live.sound.settled side).sent_add
    have after := (reached.live.sound.settled side).sent_add
    have stream : (later side).stream = (session side).stream := by
      rw [Endpoint.stream, reached.accepted side]
      rfl
    rw [stream] at after
    have some := List.length_pos_iff.mpr waiting
    exact ⟨by omega, List.length_pos_iff.mp (by omega)⟩
  -- the peer owes an answer, empties its queue, and answers
  obtain ⟨owing, toOwing, owes⟩ := live.comes_to_owe sameConv side caughtUp waiting stuck
  obtain ⟨drained, toDrained, _, empty, stillOwes⟩ :=
    toOwing.live.drain sameConv side.peer
  have room := toDrained.live.room side.peer empty
  obtain ⟨answered, toAnswered, _, group, sent⟩ :=
    toDrained.live.answers sameConv side.peer (stillOwes owes)
  have reached := (toOwing.trans toDrained).trans toAnswered
  have numbered : (drained side.peer).handle.rcv_nxt.toNat = (answered side).sent := by
    rw [stuck answered reached, ← stuck drained (toOwing.trans toDrained)]
    exact (still drained (toOwing.trans toDrained)).1
  obtain ⟨told, toTold, _, released, window⟩ := toAnswered.live.takes_answer sameConv side sent
    numbered
  have whole := reached.trans toTold
  have announced : ikcpWndUnused (drained side.peer).handle ≠ 0 := by
    have count : (drained side.peer).handle.nrcv_que.toNat =
      (drained side.peer).handle.rcv_queue.length :=
        (toDrained.live.paced side.peer).held.bounded.count
    have less : (drained side.peer).handle.nrcv_que < (drained side.peer).handle.rcv_wnd := by
      rw [UInt32.lt_iff_toNat_lt, count]
      exact room
    rw [ikcpWndUnused, if_pos less]
    intro zero
    have difference := congrArg UInt32.toNat zero
    rw [UInt32.toNat_sub_of_le _ _ (UInt32.le_of_lt less), UInt32.toNat_zero] at difference
    rw [UInt32.lt_iff_toNat_lt] at less
    omega
  obtain ⟨later, further, _, more⟩ := toTold.live.gives_out sameConv side (still told whole).2
    released (window ▸ announced)
  have first := stuck told whole
  have second := stuck later (whole.trans further)
  omega

/-- The peer stores the number it waits for. -/
theorem Session.Live.takes_next (sameConv : (attr .a).conv = (attr .b).conv)
    (live : session.Live attr) (side : Side)
    (behind : (session side.peer).handle.rcv_nxt.toNat < (session side).sent) :
    ∃ later, session.Onward attr later ∧
      (session side.peer).handle.rcv_nxt.toNat < (later side.peer).handle.rcv_nxt.toNat := by
  by_contra none
  have stuck : ∀ later, session.Onward attr later →
      (later side.peer).handle.rcv_nxt = (session side.peer).handle.rcv_nxt := by
    intro later reached
    have received : (session side.peer).handle.rcv_nxt.toNat ≤
      (later side.peer).handle.rcv_nxt.toNat := (reached.grows side.peer).received
    apply UInt32.toNat_inj.mp
    by_contra other
    exact none ⟨later, reached, by omega⟩
  -- a number that is awaited and stored means a full queue
  have unstored : ∀ later, session.Onward attr later →
      ¬ (later side.peer).handle.recvSide.Stored (session side.peer).handle.rcv_nxt.toNat := by
    intro later reached stored
    obtain ⟨drained, further, _, empty, _⟩ := reached.live.drain sameConv side.peer
    have room := further.live.room side.peer empty
    have kept := (further.grows side.peer).stored _ stored
    rw [← stuck drained (reached.trans further)] at kept
    have full := queue_full_of_stored (further.live.paced side.peer).held.bounded kept
    exact absurd full (Nat.ne_of_lt room)
  obtain ⟨drained, toDrained, _, empty, _⟩ := live.drain sameConv side.peer
  have next := stuck drained toDrained
  have given : (session side).sent ≤ (drained side).sent := (toDrained.grows side).sent
  rcases (toDrained.live.linked side).covered _ (Nat.lt_of_lt_of_le behind given) with
    ⟨seg, member, serial⟩ | stored
  · have room := toDrained.live.room side.peer empty
    obtain ⟨later, further, stored, _⟩ := toDrained.live.arrives sameConv side member
      (by rw [serial, next]) (by
        intro later further other
        rw [← other] at room
        have bound := further.live.sent_le_window side room
        rw [stuck later (toDrained.trans further)] at bound
        omega)
    rw [serial] at stored
    exact unstored later (toDrained.trans further) stored
  · exact unstored drained toDrained stored

/-- The peer gets one more segment of the stream. -/
theorem Session.Live.advances (sameConv : (attr .a).conv = (attr .b).conv)
    (live : session.Live attr) (side : Side)
    (behind : (session side.peer).handle.rcv_nxt.toNat < (session side).stream.length) :
    ∃ later, session.Onward attr later ∧
      (session side.peer).handle.rcv_nxt.toNat < (later side.peer).handle.rcv_nxt.toNat := by
  have within : (session side.peer).handle.rcv_nxt.toNat ≤ (session side).sent :=
    (live.back side).receiving.within
  rcases Nat.lt_or_eq_of_le within with less | caughtUp
  · exact live.takes_next sameConv side less
  · have total := (live.sound.settled side).sent_add
    obtain ⟨middle, reached, more⟩ := live.gives_more sameConv side caughtUp
      (List.length_pos_iff.mp (by omega))
    have received : (session side.peer).handle.rcv_nxt.toNat ≤
      (middle side.peer).handle.rcv_nxt.toNat := (reached.grows side.peer).received
    rcases Nat.lt_or_eq_of_le received with done | same
    · exact ⟨middle, reached, done⟩
    · obtain ⟨later, further, larger⟩ := reached.live.takes_next sameConv side (by omega)
      exact ⟨later, reached.trans further, by omega⟩

/-- A peer that has every segment and nothing left to deliver has delivered all. -/
theorem Session.Live.delivered_eq (live : session.Live attr) (side : Side)
    (complete : (session side.peer).handle.rcv_nxt.toNat = (session side).stream.length)
    (drained : ¬ HasMessage (session side.peer).handle.rcv_queue) :
    (session side.peer).delivered = (session side).accepted := by
  have back := live.back side
  obtain ⟨rest, whole⟩ := back.delivered
  have all : payloads (session side.peer).delivered ++
      (session side.peer).handle.rcv_queue.map IkcpSeg.payload =
        (session side).stream.take (session side.peer).handle.rcv_nxt.toNat :=
    back.receiving.queue
  have stream : (session side).stream =
      payloads (session side.peer).delivered ++ payloads rest := by
    rw [← payloads_append, whole]
    rfl
  rw [complete, List.take_length, stream] at all
  have queue := List.append_cancel_left all
  cases rest with
  | nil => rw [← whole, List.append_nil]
  | cons buffer more =>
      have cut : Cut buffer := (live.sound.settled side).accepted buffer (whole ▸ by simp)
      exact absurd (hasMessage_of_cut cut queue) drained

theorem Session.Live.delivers_side (sameConv : (attr .a).conv = (attr .b).conv)
    (live : session.Live attr) (side : Side) :
    ∃ later, session.Onward attr later ∧
      (later side.peer).delivered = (session side).accepted := by
  have total : ∀ later, session.Onward attr later →
      (later side).stream = (session side).stream := by
    intro later reached
    rw [Endpoint.stream, reached.accepted side]
    rfl
  have bound : ∀ later, session.Onward attr later →
      (later side.peer).handle.rcv_nxt.toNat ≤ (session side).stream.length := by
    intro later reached
    have within : (later side.peer).handle.rcv_nxt.toNat ≤ (later side).sent :=
      (reached.live.back side).receiving.within
    rw [← total later reached]
    exact Nat.le_trans within (later side).sent_le
  let Goal (later : Session) : Prop :=
    (later side.peer).handle.rcv_nxt.toNat = (session side).stream.length
  let rank (later : Session) : Nat :=
    (session side).stream.length - (later side.peer).handle.rcv_nxt.toNat
  have progress : ∀ state, session.Onward attr state → ¬ Goal state →
      ∃ next, Leads Session.step onward state next ∧ session.Onward attr next ∧
        rank next < rank state := by
    intro state reached incomplete
    have below := Nat.lt_of_le_of_ne (bound state reached) incomplete
    rw [← total state reached] at below
    obtain ⟨next, further, more⟩ := reached.live.advances sameConv side below
    rw [total state reached] at below
    refine ⟨next, further.leads, reached.trans further, ?_⟩
    change _ - (next side.peer).handle.rcv_nxt.toNat < _ - (state side.peer).handle.rcv_nxt.toNat
    omega
  obtain ⟨whole, _, reached, complete⟩ :=
    Leads.of_rank (session.Onward attr) Goal rank progress (.refl live)
  obtain ⟨later, further, other, drained, _⟩ := reached.live.drain sameConv side.peer
  have onward := reached.trans further
  have received : (whole side.peer).handle.rcv_nxt.toNat ≤
    (later side.peer).handle.rcv_nxt.toNat := (further.grows side.peer).received
  have upper := bound later onward
  have delivered := further.live.delivered_eq side
    (by rw [total later onward]; exact Nat.le_antisymm upper (complete ▸ received)) drained
  exact ⟨later, onward, delivered.trans (onward.accepted side)⟩

/-- What a peer has delivered, all there is, it keeps delivered. -/
theorem Session.Onward.delivered_eq {later : Session} (reached : session.Onward attr later)
    {side : Side} (all : (session side.peer).delivered = (session side).accepted) :
    (later side.peer).delivered = (session side).accepted := by
  have more := reached.delivered side.peer
  have bound := (reached.live.back side).delivered
  rw [reached.accepted side] at bound
  rw [all] at more
  exact bound.eq_of_length_le more.length_le

theorem Session.Live.delivers_all (sameConv : (attr .a).conv = (attr .b).conv)
    (live : session.Live attr) :
    ∃ later, session.Onward attr later ∧
      ∀ side, (later side.peer).delivered = (session side).accepted := by
  obtain ⟨middle, reached, first⟩ := live.delivers_side sameConv .a
  obtain ⟨later, further, second⟩ := reached.live.delivers_side sameConv .b
  refine ⟨later, reached.trans further, fun side => ?_⟩
  cases side with
  | a =>
      rw [← reached.accepted .a] at first
      exact (further.delivered_eq first).trans (reached.accepted .a)
  | b => exact second.trans (reached.accepted .b)

end Stuck

/-- What the calls of `send` hand to `ikcp_send` and it accepts, in the end. -/
def Endpoint.promised (endpoint : Endpoint) : List (List UInt8) :=
  endpoint.accepted ++ endpoint.kcp.mSendBufQueue.filter fun buffer => Acceptable buffer

/-- No buffer is empty. -/
structure Endpoint.Solid (endpoint : Endpoint) : Prop where
  accepted : ∀ buffer ∈ endpoint.accepted, cutLength buffer ≠ 0
  queued : ∀ buffer ∈ endpoint.kcp.mSendBufQueue, sizeAsInt buffer ≠ 0

theorem cutLength_ne_zero {buffer : List UInt8} (accepted : 0 ≤ sizeAsInt buffer)
    (size : sizeAsInt buffer ≠ 0) : cutLength buffer ≠ 0 := by
  have lower := Int32.le_iff_toInt_le.mp accepted
  rw [Int32.toInt_zero] at lower
  have nonzero : (sizeAsInt buffer).toInt ≠ 0 := fun zero => size (Int32.toInt_inj.mp zero)
  rw [cutLength]
  omega

theorem Endpoint.Solid.outputRoutine {conv : UInt32} {endpoint : Endpoint}
    (settled : Settled conv endpoint) (solid : endpoint.Solid) (now : UInt32) :
    (endpoint.outputRoutine now).Solid := by
  obtain ⟨_, accepted, _, accepts, _, empty, all, _⟩ := outputRoutine_spec settled now
  constructor
  · intro buffer member
    rw [all] at member
    rcases List.mem_append.mp member with old | new
    · exact solid.accepted buffer old
    · obtain ⟨queued, size, _⟩ := accepts.taken buffer new
      exact cutLength_ne_zero size (solid.queued buffer queued)
  · rw [empty]
    intro buffer member
    contradiction

theorem accepted_outputRoutine {conv : UInt32} {endpoint : Endpoint}
    (settled : Settled conv endpoint) (now : UInt32) :
    (endpoint.outputRoutine now).accepted = endpoint.promised := by
  change endpoint.accepted ++ (sendQueue endpoint.kcp.mSendBufQueue endpoint.handle).2 = _
  rw [sendQueue_filter _ _ settled.setup]
  rfl

section Start

variable {attr : Side → KcpAttr}

/-- What every run of nonempty buffers keeps. -/
structure Session.Whole (attr : Side → KcpAttr) (session : Session) : Prop where
  sound : session.Sound (attr .a).conv
  paced : session.Paced attr
  solid : ∀ side, (session side).Solid

theorem Session.Whole.step (sameConv : (attr .a).conv = (attr .b).conv)
    {before after : Session} {event : SessionEvent} (whole : before.Whole attr)
    (permitted : nonEmptyBuffers before event) (stepped : before.step event = some after) :
    after.Whole attr := by
  have sizes : wholeBuffers before event := by
    cases event with
    | send side buffer => exact permitted.1
    | outputRoutine side now => trivial
    | inputRoutine side batch => trivial
  refine ⟨whole.sound.step sizes stepped, whole.paced.step sameConv stepped, ?_⟩
  have updated : ∀ side later, after = Function.update before side later → later.Solid →
      ∀ other, (after other).Solid := by
    intro side later same mine other
    rw [same]
    rcases side.eq_or_eq_peer other with here | there
    · rw [here, Function.update_self]
      exact mine
    · rw [there, Function.update_of_ne side.peer_ne]
      exact whole.solid side.peer
  cases event with
  | send side buffer =>
      have mine := whole.solid side
      apply updated side ((before side).send buffer) (Option.some.inj stepped).symm
      refine ⟨mine.accepted, fun other member => ?_⟩
      rcases List.mem_append.mp member with old | new
      · exact mine.queued other old
      · rw [List.mem_singleton.mp new]
        exact permitted.2
  | outputRoutine side now =>
      apply updated side ((before side).outputRoutine now) (Option.some.inj stepped).symm
      exact (whole.solid side).outputRoutine (whole.sound.settled side) now
  | inputRoutine side batch =>
      have mine := whole.solid side
      rw [Session.step] at stepped
      split at stepped
      · apply updated side ((before side).inputRoutine batch) (Option.some.inj stepped).symm
        have queue := (inputRoutine_keeps (whole.sound.settled side).counted batch).2.2
        exact ⟨mine.accepted, fun other member => mine.queued other (queue ▸ member)⟩
      · contradiction

theorem Session.whole_run (sameConv : (attr .a).conv = (attr .b).conv)
    {events : List SessionEvent} {last : Session}
    (run : Run Session.step nonEmptyBuffers (Session.start attr) events last) :
    last.Whole attr := by
  have initial : Run Session.step anyStep (Session.start attr) [] (Session.start attr) := .nil
  have solid : ∀ side, (Session.start attr side).Solid := by
    intro side
    constructor <;> (intro buffer member; exact absurd member List.not_mem_nil)
  apply run.invariant (Session.Whole attr)
    ⟨sound_start (conv_eq sameConv), Session.paced_run sameConv initial, solid⟩
  intro before after event whole permitted stepped
  exact whole.step sameConv permitted stepped

/-- `outputRoutine` on both sides hands over what is queued. -/
theorem Session.Whole.live {session : Session} (sameConv : (attr .a).conv = (attr .b).conv)
    (whole : session.Whole attr)
    (few : ∀ side, (payloads (session side).promised).length < 2 ^ 31) :
    ∃ later, Leads Session.step onward session later ∧ later.Live attr ∧
      ∀ side, (later side).accepted = (session side).promised := by
  let middle := Function.update session .a
    ((session .a).outputRoutine (session .a).handle.current)
  let later := Function.update middle .b
    ((session .b).outputRoutine (session .b).handle.current)
  have still : ∀ clock : UInt32, itimediff clock clock ≥ 0 := by
    intro clock
    rw [itimediff_eq (by omega) (by omega)]
    omega
  have first : Session.step session (.outputRoutine .a (session .a).handle.current) =
    some middle := rfl
  have second : Session.step middle (.outputRoutine .b (session .b).handle.current) =
    some later := rfl
  have forward : onward session (.outputRoutine .a (session .a).handle.current) :=
    still (session .a).handle.current
  have forwardNext : onward middle (.outputRoutine .b (session .b).handle.current) :=
    still (session .b).handle.current
  have quiet : ∀ state side now, nonEmptyBuffers state (.outputRoutine side now) :=
    fun _ _ _ => trivial
  have done := (whole.step sameConv (quiet _ _ _) first).step sameConv (quiet _ _ _) second
  have outcome : ∀ side, ∃ now, later side = (session side).outputRoutine now := by
    intro side
    cases side with
    | a => exact ⟨_, rfl⟩
    | b => exact ⟨_, rfl⟩
  have accepted : ∀ side, (later side).accepted = (session side).promised := by
    intro side
    obtain ⟨now, result⟩ := outcome side
    rw [result]
    exact accepted_outputRoutine (whole.sound.settled side) now
  refine ⟨later, (Leads.single forward first).trans (.single forwardNext second),
    ⟨done.sound, done.paced, ?_, fun side => (done.solid side).accepted, ?_⟩, accepted⟩
  · intro side
    rw [Endpoint.stream, accepted side]
    exact few side
  · intro side
    obtain ⟨now, result⟩ := outcome side
    rw [result]
    rfl

end Start

/-- However many datagrams were lost, repeated, delayed or reordered: from every
state of a session of nonempty buffers some calls of `outputRoutine` and
`inputRoutine` deliver on each side exactly the buffers given to the other that
`ikcp_send` accepts. -/
theorem session_recovers {attr : Side → KcpAttr} {events : List SessionEvent} {last : Session}
    (sameConv : (attr .a).conv = (attr .b).conv)
    (run : Run Session.step nonEmptyBuffers (Session.start attr) events last)
    (few : ∀ side, (payloads (last side).promised).length < 2 ^ 31) :
    ∃ later, Leads Session.step onward last later ∧
      ∀ side, (later side.peer).delivered = (last side).promised := by
  obtain ⟨middle, leads, live, accepted⟩ := (Session.whole_run sameConv run).live sameConv few
  obtain ⟨later, reached, delivered⟩ := live.delivers_all sameConv
  exact ⟨later, leads.trans reached.leads, fun side => (delivered side).trans (accepted side)⟩

/-- One datagram is lost and three buffers are still to be handed over. -/
theorem session_recovers_after_loss :
    ∃ last, Run Session.step nonEmptyBuffers (Session.start fun _ => { conv := 7 })
        [.send .a [1, 2], .outputRoutine .a 0, .send .b [3], .send .a [4], .send .a [5]] last ∧
      ∃ later, Leads Session.step onward last later ∧
        (later .b).delivered = [[1, 2], [4], [5]] ∧ (later .a).delivered = [[3]] := by
  apply Run.exists_shown fun last => (last .a).promised = [[1, 2], [4], [5]] ∧
    (last .b).promised = [[3]]
  · decide +kernel
  · intro last run shown
    obtain ⟨first, second⟩ := shown
    have few : ∀ side, (payloads (last side).promised).length < 2 ^ 31 := by
      intro side
      cases side with
      | a =>
          rw [first]
          decide +kernel
      | b =>
          rw [second]
          decide +kernel
    obtain ⟨later, leads, delivered⟩ := session_recovers rfl run few
    exact ⟨later, leads, (delivered .a).trans first, (delivered .b).trans second⟩

end FiberKcp
