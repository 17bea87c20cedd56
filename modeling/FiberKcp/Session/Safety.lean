import FiberKcp.Session.Sending

namespace FiberKcp

open Data Ikcp

/-! Both ends of a session together. -/

def Endpoint.progress (endpoint : Endpoint) : Progress where
  stream := endpoint.stream
  sent := endpoint.sent
  received := endpoint.handle.rcv_nxt.toNat
  stored := endpoint.handle.recvSide.Stored

theorem Endpoint.sent_le (endpoint : Endpoint) : endpoint.sent ≤ endpoint.stream.length :=
  Nat.sub_le _ _

/-- What `me` knows and `peer` may rely on, as long as serial numbers compare as
numbers: every number given out is held or stored by the peer, what is received
is the start of the peer's stream, and every datagram is genuine. -/
structure Linked (conv : UInt32) (me peer : Endpoint) : Prop where
  next : me.handle.snd_nxt.toNat = me.sent
  numbered : ∀ seg ∈ me.handle.snd_buf,
    seg.conv = conv ∧ seg.cmd = ikcpCmdPush ∧ Numbered me.progress seg
  owed : ∀ ack ∈ me.handle.acklist, me.handle.recvSide.Stored ack.1.toNat
  emitted : ∀ bytes ∈ me.emitted, Packed (Genuine conv me.progress) 1400 bytes
  receiving : Receiving peer.progress (payloads me.delivered) me.handle.recvSide
  covered : ∀ serial < me.sent,
    (∃ seg ∈ me.handle.snd_buf, seg.sn.toNat = serial) ∨ peer.handle.recvSide.Stored serial
  delivered : me.delivered <+: peer.accepted

theorem Receiving.mono {before after : Progress} {taken : List Payload} {side : RecvSide}
    (receiving : Receiving before taken side) (grows : before.Grows after)
    (bounded : before.sent ≤ before.stream.length) : Receiving after taken side := by
  refine ⟨Nat.le_trans receiving.within grows.sent, ?_,
    fun seg member => (receiving.buffered seg member).mono grows⟩
  obtain ⟨more, extended⟩ := grows.stream
  have within := receiving.within
  rw [receiving.queue, ← extended, List.take_append_of_le_length (by omega)]

section Endpoints

variable {conv : UInt32} {me peer : Endpoint}

theorem Linked.peerGrows {later : Endpoint} (linked : Linked conv me peer)
    (grows : peer.progress.Grows later.progress) (accepted : peer.accepted <+: later.accepted) :
    Linked conv me later :=
  ⟨linked.next, linked.numbered, linked.owed, linked.emitted,
    linked.receiving.mono grows peer.sent_le,
    fun serial below => (linked.covered serial below).imp_right (grows.stored serial),
    linked.delivered.trans accepted⟩

theorem linked_init (mine theirs : KcpAttr) :
    Linked conv { kcp := Kcp.init mine } { kcp := Kcp.init theirs } := by
  obtain ⟨sendSide, ⟨wnd, recvSide⟩, _, acklist⟩ := init_traffic mine
  have next : (Kcp.init mine).mKcpHandle.snd_nxt = 0 := congrArg SendSide.snd_nxt sendSide
  have buffer : (Kcp.init mine).mKcpHandle.snd_buf = [] := congrArg SendSide.snd_buf sendSide
  have unsent : Endpoint.sent { kcp := Kcp.init mine } = 0 := by
    simp [Endpoint.sent, Endpoint.stream, payloads]
  refine ⟨?_, ?_, ?_, by simp, ?_, ?_, List.prefix_rfl⟩
  · rw [unsent, Endpoint.handle, next]
    rfl
  · rw [Endpoint.handle, buffer]
    simp
  · rw [Endpoint.handle, acklist]
    simp
  · rw [Endpoint.handle, recvSide]
    exact ⟨Nat.zero_le _, by simp [payloads], by simp⟩
  · rw [unsent]
    simp

/-! ## `outputRoutine` -/

/-- Segments entering `snd_buf` take the next payloads of the stream. -/
theorem Ikcp.Consecutive.numbered (progress : Progress) {serial : UInt32} {segs : List IkcpSeg}
    {more : List Payload} (consecutive : Consecutive serial segs)
    (fits : serial.toNat + segs.length ≤ progress.sent) (few : progress.sent < 2 ^ 31)
    (payloads : progress.stream.drop serial.toNat = segs.map IkcpSeg.payload ++ more) :
    (∀ seg ∈ segs, Numbered progress seg) ∧
      ∀ place, serial.toNat ≤ place → place < serial.toNat + segs.length →
        ∃ seg ∈ segs, seg.sn.toNat = place := by
  induction segs generalizing serial with
  | nil =>
      refine ⟨by simp, fun place lower upper => ?_⟩
      simp only [List.length_nil] at upper
      omega
  | cons seg rest ih =>
      obtain ⟨same, later⟩ := consecutive
      rw [List.length_cons] at fits
      have next : (serial + 1).toNat = serial.toNat + 1 := by
        rw [UInt32.toNat_add, UInt32.toNat_one]
        omega
      have here : progress.stream[serial.toNat]? = some seg.payload := by
        have first := congrArg (fun stream => stream[0]?) payloads
        simpa using first
      have tail : progress.stream.drop (serial + 1).toNat = rest.map IkcpSeg.payload ++ more := by
        rw [next, ← List.drop_drop, payloads]
        rfl
      obtain ⟨numbered, found⟩ := ih later (by omega) tail
      refine ⟨fun other member => ?_, fun place lower upper => ?_⟩
      · rcases List.mem_cons.mp member with rfl | member
        · exact ⟨by rw [same]; omega, by rw [same]; exact here⟩
        · exact numbered other member
      · rw [List.length_cons] at upper
        by_cases first : place = serial.toNat
        · exact ⟨seg, List.mem_cons_self, by rw [same, first]⟩
        · obtain ⟨other, member, equal⟩ := found place (by omega) (by omega)
          exact ⟨other, List.mem_cons_of_mem seg member, equal⟩

theorem grows_outputRoutine (settled : Settled conv me) (now : UInt32) :
    me.progress.Grows (me.outputRoutine now).progress := by
  obtain ⟨filled, accepted, output, accepts, flushed, _, accepted_eq, _, _⟩ :=
    outputRoutine_spec settled now
  have recvSide : (me.outputRoutine now).handle.recvSide = me.handle.recvSide :=
    flushed.recvSide.trans accepts.recvSide
  refine ⟨⟨payloads accepted, ?_⟩, sent_outputRoutine settled now, ?_, ?_⟩
  · change payloads me.accepted ++ payloads accepted = payloads (me.outputRoutine now).accepted
    rw [accepted_eq, payloads_append]
  · exact Nat.le_of_eq (congrArg (fun side => side.rcv_nxt.toNat) recvSide.symm)
  · intro serial stored
    change (me.outputRoutine now).handle.recvSide.Stored serial
    rw [recvSide]
    exact stored

theorem Linked.outputRoutine (settled : Settled conv me) (linked : Linked conv me peer)
    (now : UInt32) (few : (me.outputRoutine now).sent < 2 ^ 31) :
    Linked conv (me.outputRoutine now) peer := by
  have grows := grows_outputRoutine settled now
  have settledAfter := settled.outputRoutine now
  obtain ⟨filled, accepted, output, accepts, flushed, _, accepted_eq, emitted_eq, delivered_eq⟩ :=
    outputRoutine_spec settled now
  obtain ⟨moving, entered, moves, left, next, sameSegs, sends⟩ := flushed.traffic
  obtain ⟨moved, parts, samePayloads⟩ := moves.queue
  have recvSide : (me.outputRoutine now).handle.recvSide = me.handle.recvSide :=
    flushed.recvSide.trans accepts.recvSide
  have setup : filled.setup = ⟨conv, 1400, 1376, 0⟩ := accepts.setup.trans settled.setup
  have nextBefore : filled.snd_nxt.toNat = me.sent := by
    rw [accepts.next]
    exact linked.next
  -- the stream from `me.sent` on: the segments that entered, then what is left
  have rest : (me.outputRoutine now).stream.drop me.sent =
      entered.map IkcpSeg.payload ++
        (me.outputRoutine now).handle.snd_queue.map IkcpSeg.payload := by
    have stream : (me.outputRoutine now).stream = me.stream ++ payloads accepted := by
      rw [Endpoint.stream, accepted_eq, payloads_append]
      rfl
    rw [stream, List.drop_append_of_le_length me.sent_le, ← settled.queue_eq, ← accepts.waiting,
      parts, List.map_append, samePayloads, left]
  have sentAfter : (me.outputRoutine now).sent = me.sent + entered.length := by
    have lengths := congrArg List.length rest
    have total := settledAfter.sent_add
    have before := me.sent_le
    have longer := grows.stream.length_le
    change me.stream.length ≤ (me.outputRoutine now).stream.length at longer
    simp only [List.length_drop, List.length_append, List.length_map] at lengths
    omega
  have fresh := moves.serials.numbered (me.outputRoutine now).progress
    (by rw [nextBefore]; exact Nat.le_of_eq sentAfter.symm) few (nextBefore.symm ▸ rest)
  have numbered : ∀ seg ∈ moving.snd_buf,
      seg.conv = conv ∧ seg.cmd = ikcpCmdPush ∧ Numbered (me.outputRoutine now).progress seg := by
    intro seg member
    rw [moves.buffer, accepts.buffer] at member
    rcases List.mem_append.mp member with member | member
    · obtain ⟨sameConv, cmd, earlier⟩ := linked.numbered seg member
      exact ⟨sameConv, cmd, earlier.mono grows⟩
    · obtain ⟨sameConv, cmd⟩ := moves.labels seg member
      exact ⟨sameConv.trans (congrArg Setup.conv setup), cmd, fresh.1 seg member⟩
  obtain ⟨held, kept⟩ := mem_of_sameSegs sameSegs
  have una : (me.outputRoutine now).handle.rcv_nxt = filled.rcv_nxt :=
    congrArg RecvSide.rcv_nxt flushed.recvSide
  have genuine : ∀ seg, Emitted filled moving.snd_buf seg →
      Genuine conv (me.outputRoutine now).progress seg := by
    intro seg emitted
    have received : ∀ {serial : UInt32}, serial = filled.rcv_nxt →
        serial.toNat ≤ (me.outputRoutine now).progress.received := by
      intro serial same
      rw [same, ← una]
      exact Nat.le_refl _
    have sameConv : filled.conv = conv := congrArg Setup.conv setup
    cases emitted with
    | ack segConv segUna cmd data _ owed =>
        obtain ⟨ts, inList⟩ := owed
        rw [accepts.acklist] at inList
        exact .ack (segConv.trans sameConv) (received segUna) cmd data
          (grows.stored _ (linked.owed _ inList))
    | probe segConv segUna cmd data _ =>
        exact .probe (segConv.trans sameConv) (received segUna) cmd data
    | @push original segUna member same =>
        obtain ⟨segConv, cmd, earlier⟩ := numbered original member
        exact .push (same.conv.trans segConv) (received segUna) (same.cmd.trans cmd)
          (earlier.of_sameSeg same)
  have mtu : filled.mtu.toNat = 1400 := congrArg (fun setup => setup.mtu.toNat) setup
  have fits : Fits filled moving.snd_buf := by
    refine ⟨by rw [mtu]; decide, fun seg member => ?_⟩
    have inStream := List.mem_of_getElem? (numbered seg member).2.2.payload
    have small : seg.data.length ≤ 1376 := (payloads_small settledAfter.accepted _ inStream).1
    rw [mtu, ikcpOverhead]
    omega
  refine ⟨?_, ?_, ?_, ?_, ?_, ?_, ?_⟩
  · rw [next, moves.next, UInt32.toNat_add, UInt32.toNat_ofNat', nextBefore, sentAfter]
    omega
  · intro seg member
    obtain ⟨original, inMoving, same⟩ := held seg member
    obtain ⟨segConv, cmd, earlier⟩ := numbered original inMoving
    exact ⟨same.conv.trans segConv, same.cmd.trans cmd, earlier.of_sameSeg same⟩
  · intro ack member
    rw [recvSide]
    rcases flushed.acklist with same | none
    · rw [same, accepts.acklist] at member
      exact linked.owed ack member
    · simp [none] at member
  · rw [emitted_eq]
    intro bytes member
    rcases List.mem_append.mp member with member | member
    · exact (linked.emitted bytes member).mono fun seg => Genuine.mono grows
    · have packed := (sends fits bytes member).2
      rw [mtu] at packed
      exact packed.mono genuine
  · rw [delivered_eq, recvSide]
    exact linked.receiving
  · intro serial below
    rw [sentAfter] at below
    by_cases earlier : serial < me.sent
    · refine (linked.covered serial earlier).imp_left ?_
      rintro ⟨seg, member, equal⟩
      have inMoving : seg ∈ moving.snd_buf := by
        rw [moves.buffer, accepts.buffer]
        exact List.mem_append_left entered member
      obtain ⟨resent, inAfter, same⟩ := kept seg inMoving
      exact ⟨resent, inAfter, by rw [same.sn, equal]⟩
    · obtain ⟨seg, member, equal⟩ := fresh.2 serial (by omega) (by omega)
      have inMoving : seg ∈ moving.snd_buf := by
        rw [moves.buffer]
        exact List.mem_append_right _ member
      obtain ⟨resent, inAfter, same⟩ := kept seg inMoving
      exact .inl ⟨resent, inAfter, by rw [same.sn, equal]⟩
  · rw [delivered_eq]
    exact linked.delivered

/-! ## `inputRoutine` -/

theorem Endpoint.sound_progress (settled : Settled conv peer) (linked : Linked conv peer me)
    (few : peer.sent < 2 ^ 31) (fewMine : me.sent < 2 ^ 31) : peer.progress.Sound :=
  ⟨few, Nat.lt_of_le_of_lt linked.receiving.within fewMine, fun _ => .inl,
    payloads_small settled.accepted⟩

theorem fed_receiveAll (kcp : Kcp) {start : Ikcpcb} {taken : List Payload} {progress : Progress}
    (sound : progress.Sound) (mine : ∀ seg ∈ start.snd_buf, seg.sn.toNat < 2 ^ 31)
    (setup : start.conv = conv) (batch : List Datagram)
    (genuine : ∀ datagram ∈ batch, Packed (Genuine conv progress) 1400 datagram.bytes)
    (locals : InputLocals) (fed : Fed progress taken start kcp.mKcpHandle) :
    Fed progress taken start (kcp.receiveAll locals batch).1.mKcpHandle := by
  induction batch generalizing kcp locals with
  | nil => exact fed
  | cons datagram rest ih =>
      have here := genuine datagram List.mem_cons_self
      have whole : datagram.bytes.take recvBufSize = datagram.bytes := by
        obtain ⟨_, _, _, bound⟩ := here
        exact List.take_of_length_le (bound.trans (by decide))
      have first : Fed progress taken start (kcp.receive locals datagram).1.mKcpHandle := by
        unfold Kcp.receive
        dsimp only
        split
        · exact fed
        · rw [whole]
          have input := fed.input sound mine setup here
          exact input
      rw [Kcp.receiveAll_cons]
      exact ih _ (fun other member => genuine other (List.mem_cons_of_mem datagram member)) _ first

/-- The message at the front of the queue is the next accepted buffer. -/
theorem front_message {queue : List IkcpSeg} {buffers : List (List UInt8)}
    (cut : ∀ buffer ∈ buffers, Cut buffer)
    (initial : queue.map IkcpSeg.payload <+: payloads buffers) (complete : HasMessage queue) :
    ∃ buffer rest, buffers = buffer :: rest ∧
      (messageParts queue).map IkcpSeg.payload = (cutBuffer buffer).map IkcpSeg.payload ∧
      messageBytes queue = buffer.take (cutLength buffer) := by
  cases buffers with
  | nil =>
      have empty : queue = [] := List.map_eq_nil_iff.mp (List.prefix_nil.mp initial)
      rw [empty] at complete
      exact absurd complete hasMessage_nil
  | cons buffer rest =>
      refine ⟨buffer, rest, rfl, ?_⟩
      have few := (cut buffer List.mem_cons_self).few
      have countdown : Countdown (cutBuffer buffer) :=
        fragment_countdown _ _ _ (fragmentCount_pos _ _) (by omega)
      obtain ⟨more, extended⟩ := initial
      change queue.map IkcpSeg.payload ++ more =
        (cutBuffer buffer).map IkcpSeg.payload ++ payloads rest at extended
      have long : (cutBuffer buffer).length ≤ queue.length := by
        by_contra short
        have start : queue.map IkcpSeg.payload =
            ((cutBuffer buffer).take queue.length).map IkcpSeg.payload := by
          have taken := congrArg (List.take queue.length) extended
          rw [List.take_left' (List.length_map _), List.take_append_of_le_length
            (by rw [List.length_map]; omega)] at taken
          rw [taken, List.map_take]
        have missing : (cutBuffer buffer).drop queue.length ≠ [] := by
          rw [ne_eq, List.drop_eq_nil_iff]
          exact short
        refine Countdown.not_hasMessage (Countdown.of_payloads ?_ countdown) missing complete
        rw [List.map_append, start, ← List.map_append, List.take_append_drop]
      have parts : (queue.take (cutBuffer buffer).length).map IkcpSeg.payload =
          (cutBuffer buffer).map IkcpSeg.payload := by
        have taken := congrArg (List.take (cutBuffer buffer).length) extended
        rw [List.take_left' (List.length_map _), List.take_append_of_le_length
          (by rw [List.length_map]; exact long)] at taken
        rw [List.map_take, taken]
      have front : messageParts queue = queue.take (cutBuffer buffer).length := by
        have here := (Countdown.of_payloads parts countdown).messageParts
          (queue.drop (cutBuffer buffer).length)
        rw [List.take_append_drop] at here
        exact here
      refine ⟨front ▸ parts, ?_⟩
      have bytes : ∀ segs : List IkcpSeg,
          segs.flatMap (·.data) = (segs.map IkcpSeg.payload).flatMap Prod.fst := by
        intro segs
        rw [List.flatMap_map]
        rfl
      rw [messageBytes, front, bytes, parts, ← bytes]
      exact fragment_bytes (le_fragmentCount_mul (Nat.succ_pos 1375) _)

/-- The delivery at the end of `inputRoutine` passes on the peer's next buffer. -/
theorem fed_deliver {kcp : Kcp} (locals : InputLocals) {start : Ikcpcb}
    {delivered : List (List UInt8)} (sound : peer.progress.Sound) (settledPeer : Settled conv peer)
    (initial : delivered <+: peer.accepted)
    (fed : Fed peer.progress (payloads delivered) start kcp.mKcpHandle) :
    Fed peer.progress (payloads (delivered ++ (kcp.deliver locals).2.map (·.buffer))) start
        (kcp.deliver locals).1.mKcpHandle ∧
      delivered ++ (kcp.deliver locals).2.map (·.buffer) <+: peer.accepted := by
  rw [deliver_eq locals fed.counted]
  split
  · rename_i complete
    obtain ⟨rest, whole⟩ := initial
    have front : kcp.mKcpHandle.rcv_queue.map IkcpSeg.payload <+: payloads rest := by
      have stream : peer.progress.stream = payloads delivered ++ payloads rest := by
        rw [← payloads_append, whole]
        rfl
      have start : payloads delivered ++ kcp.mKcpHandle.rcv_queue.map IkcpSeg.payload <+:
          peer.progress.stream := fed.receiving.queue ▸ List.take_prefix _ _
      rw [stream] at start
      exact (List.prefix_append_right_inj _).mp start
    obtain ⟨buffer, later, rfl, parts, bytes⟩ := front_message
      (fun buffer member => settledPeer.accepted buffer (whole ▸ List.mem_append_right _ member))
      front complete.1
    have cut : Cut buffer := settledPeer.accepted buffer (whole ▸ by simp)
    have same : messageBytes kcp.mKcpHandle.rcv_queue = buffer := by
      rcases cut.whole with none | all
      · rw [none, List.take_zero] at bytes
        exact absurd bytes complete.2
      · rw [bytes, all, List.take_length]
    have taken := fed.take sound complete.1
    rw [parts] at taken
    simp only [List.map_cons, List.map_nil, same]
    refine ⟨?_, later, by rw [← whole, List.append_assoc]; rfl⟩
    rw [payloads_append]
    rw [same] at taken
    simpa [payloads] using taken
  · simpa using ⟨fed, initial⟩

theorem Linked.inputRoutine (settled : Settled conv me) (settledPeer : Settled conv peer)
    (linked : Linked conv me peer) (back : Linked conv peer me) (few : me.sent < 2 ^ 31)
    (fewPeer : peer.sent < 2 ^ 31) {batch : List Datagram}
    (received : ∀ datagram ∈ batch, datagram.bytes ∈ peer.emitted) :
    Linked conv (me.inputRoutine batch) peer ∧
      me.progress.Grows (me.inputRoutine batch).progress := by
  have sound := Endpoint.sound_progress settledPeer back fewPeer few
  have begun : Fed peer.progress (payloads me.delivered) me.handle me.handle :=
    ⟨rfl, settled.counted, .refl _ _, linked.receiving, .refl _, linked.owed⟩
  have read := fed_receiveAll me.kcp sound
    (fun seg member => Nat.lt_trans (linked.numbered seg member).2.2.sent few)
    (congrArg Setup.conv settled.setup) batch
    (fun datagram member => back.emitted _ (received datagram member)) {} begun
  obtain ⟨fed, delivered⟩ : Fed peer.progress (payloads (me.inputRoutine batch).delivered)
      me.handle (me.inputRoutine batch).handle ∧
      (me.inputRoutine batch).delivered <+: peer.accepted :=
    fed_deliver _ sound settledPeer linked.delivered read
  have sent : (me.inputRoutine batch).sent = me.sent := sent_inputRoutine settled.counted batch
  have grows : me.progress.Grows (me.inputRoutine batch).progress :=
    ⟨List.prefix_rfl, Nat.le_of_eq sent.symm, fed.keeps.received, fed.keeps.stored⟩
  refine ⟨⟨?_, ?_, fed.owed, ?_, fed.receiving, ?_, delivered⟩, grows⟩
  · rw [sent]
    exact (congrArg UInt32.toNat fed.released.next).trans linked.next
  · intro seg member
    obtain ⟨original, inBefore, same⟩ := fed.released.held seg member
    obtain ⟨segConv, cmd, numbered⟩ := linked.numbered original inBefore
    exact ⟨same.conv.trans segConv, same.cmd.trans cmd, (numbered.of_sameSeg same).mono grows⟩
  · exact fun bytes member => (linked.emitted bytes member).mono fun seg => Genuine.mono grows
  · intro serial below
    rw [sent] at below
    rcases linked.covered serial below with ⟨seg, member, equal⟩ | stored
    · rcases fed.released.released seg member with ⟨kept, inAfter, same⟩ | stored
      · exact .inl ⟨kept, inAfter, by rw [same.sn, equal]⟩
      · exact .inr (equal ▸ stored)
    · exact .inr stored

end Endpoints

/-! ## Runs -/

theorem Side.eq_or_eq_peer (side other : Side) : other = side ∨ other = side.peer := by
  cases side <;> cases other <;> simp [Side.peer]

section Session

variable {conv : UInt32} {session : Session} {side : Side} {later : Endpoint}

theorem settled_update (settled : ∀ side, Settled conv (session side))
    (mine : Settled conv later) (other : Side) :
    Settled conv (Function.update session side later other) := by
  rcases side.eq_or_eq_peer other with rfl | rfl
  · rw [Function.update_self]
    exact mine
  · rw [Function.update_of_ne side.peer_ne]
    exact settled side.peer

theorem linked_update (mine : Linked conv later (session side.peer))
    (theirs : Linked conv (session side.peer) later) (other : Side) :
    Linked conv (Function.update session side later other)
      (Function.update session side later other.peer) := by
  rcases side.eq_or_eq_peer other with rfl | rfl
  · rw [Function.update_self, Function.update_of_ne other.peer_ne]
    exact mine
  · rw [Side.peer_peer, Function.update_self, Function.update_of_ne side.peer_ne]
    exact theirs

/-- What every state of a run satisfies. -/
structure Session.Sound (conv : UInt32) (session : Session) : Prop where
  settled : ∀ side, Settled conv (session side)
  linked : (∀ side, (session side).sent < 2 ^ 31) →
    ∀ side, Linked conv (session side) (session side.peer)

theorem sound_start {attr : Side → KcpAttr} (same : ∀ side, (attr side).conv = conv) :
    (Session.start attr).Sound conv :=
  ⟨fun side => same side ▸ settled_init (attr side), fun _ _ => linked_init _ _⟩

/-- An endpoint that does not go back in serial numbers was below the bound
before, so the links held before. -/
theorem Session.Sound.links (sound : session.Sound conv) (side : Side) (later : Endpoint)
    (grows : (session side).sent ≤ later.sent)
    (few : ∀ other, (Function.update session side later other).sent < 2 ^ 31) :
    later.sent < 2 ^ 31 ∧ (session side).sent < 2 ^ 31 ∧ (session side.peer).sent < 2 ^ 31 ∧
      Linked conv (session side) (session side.peer) ∧
      Linked conv (session side.peer) (session side) := by
  have here := few side
  have there := few side.peer
  rw [Function.update_self] at here
  rw [Function.update_of_ne side.peer_ne] at there
  have before : ∀ other, (session other).sent < 2 ^ 31 := by
    intro other
    rcases side.eq_or_eq_peer other with rfl | rfl
    · exact Nat.lt_of_le_of_lt grows here
    · exact there
  have back := sound.linked before side.peer
  rw [Side.peer_peer] at back
  exact ⟨here, before side, there, sound.linked before side, back⟩

theorem Session.Sound.step {after : Session} {event : SessionEvent} (sound : session.Sound conv)
    (permitted : wholeBuffers session event) (stepped : session.step event = some after) :
    after.Sound conv := by
  cases event with
  | send side buffer =>
      cases stepped
      refine ⟨settled_update sound.settled ((sound.settled side).send permitted), fun few => ?_⟩
      obtain ⟨_, _, _, mine, theirs⟩ :=
        sound.links side ((session side).send buffer) (Nat.le_refl _) few
      have same : (session side).progress.Grows ((session side).send buffer).progress :=
        ⟨List.prefix_rfl, Nat.le_refl _, Nat.le_refl _, fun _ => id⟩
      exact linked_update
        ⟨mine.next, mine.numbered, mine.owed, mine.emitted, mine.receiving, mine.covered,
          mine.delivered⟩
        (theirs.peerGrows same List.prefix_rfl)
  | outputRoutine side now =>
      cases stepped
      have settled := sound.settled side
      refine ⟨settled_update sound.settled (settled.outputRoutine now), fun few => ?_⟩
      obtain ⟨here, _, _, mine, theirs⟩ := sound.links side _ (sent_outputRoutine settled now) few
      exact linked_update (mine.outputRoutine settled now here)
        (theirs.peerGrows (grows_outputRoutine settled now) (List.prefix_append _ _))
  | inputRoutine side batch =>
      simp only [Session.step] at stepped
      split at stepped
      · rename_i received
        cases stepped
        have settled := sound.settled side
        refine ⟨settled_update sound.settled (settled.inputRoutine batch), fun few => ?_⟩
        obtain ⟨_, before, peer, mine, theirs⟩ :=
          sound.links side _ (Nat.le_of_eq (sent_inputRoutine settled.counted batch).symm) few
        obtain ⟨linked, grows⟩ :=
          mine.inputRoutine settled (sound.settled side.peer) theirs before peer received
        exact linked_update linked (theirs.peerGrows grows List.prefix_rfl)
      · contradiction

theorem Session.Sound.safe (sound : session.Sound conv)
    (few : ∀ side, (session side).sent < 2 ^ 31) : session.Safe := by
  have linked := sound.linked few
  refine ⟨fun side => ?_, fun side serial payload found => ?_⟩
  · have back := linked side.peer
    rw [Side.peer_peer] at back
    exact back.delivered
  · have settled := sound.settled side
    have receiving := (linked side.peer).receiving
    rw [Side.peer_peer] at receiving
    by_cases numbered : serial < (session side).sent
    · rcases (linked side).covered serial numbered with ⟨seg, member, rfl⟩ | below | buffered
      · have here := ((linked side).numbered seg member).2.2.payload
        exact .inr (.inl ⟨seg, member, rfl, Option.some.inj (here.symm.trans found)⟩)
      · left
        right
        have inOrder : ((session side).stream.take
            (session side.peer).handle.rcv_nxt.toNat)[serial]? = some payload := by
          change serial < (session side.peer).handle.rcv_nxt.toNat at below
          rw [List.getElem?_take_of_lt below]
          exact found
        exact receiving.queue ▸ inOrder
      · obtain ⟨seg, member, rfl⟩ := buffered
        have here := (receiving.buffered seg member).payload
        exact .inl (.inl ⟨seg, member, rfl, Option.some.inj (here.symm.trans found)⟩)
    · refine .inr (.inr ⟨serial - (session side).sent, by omega, ?_⟩)
      rw [settled.queue_eq, List.getElem?_drop]
      rw [Nat.add_sub_cancel' (Nat.not_lt.mp numbered)]
      exact found

end Session

/-- In every run in which no buffer is narrowed to another size, whatever the
network loses, repeats, delays or reorders, both directions are safe. -/
theorem session_safe {attr : Side → KcpAttr} {events : List SessionEvent} {last : Session}
    (sameConv : (attr .a).conv = (attr .b).conv)
    (run : Run Session.step wholeBuffers (Session.start attr) events last)
    (few : ∀ side, (last side).sent < 2 ^ 31) : last.Safe := by
  have same : ∀ side, (attr side).conv = (attr .a).conv := by
    intro side
    cases side with
    | a => rfl
    | b => exact sameConv.symm
  have sound : last.Sound (attr .a).conv :=
    run.invariant _ (sound_start same) fun sound permitted stepped => sound.step permitted stepped
  exact sound.safe few

theorem session_safe_after_loss :
    ∃ events last, Run Session.step wholeBuffers (Session.start fun _ => { conv := 7 }) events last ∧
      (last .b).delivered = [[1, 2]] ∧ last.Safe := by
  let first : Datagram := ⟨[7, 0, 0, 0, 81, 0, 0, 2, 0, 0, 0, 0, 0, 0, 0, 0, 0, 0, 0, 0, 2, 0, 0, 0,
    1, 2], {}⟩
  -- the second buffer is lost, the first arrives twice
  let events : List SessionEvent := [.send .a [1, 2], .outputRoutine .a 0, .send .a [3],
    .outputRoutine .a 100, .inputRoutine .b [first, first], .inputRoutine .b [first]]
  have run : Run Session.step wholeBuffers (Session.start fun _ => { conv := 7 }) events _ :=
    Run.of_execute rfl
  refine ⟨events, _, run, by decide +kernel, session_safe rfl run fun side => ?_⟩
  cases side <;> decide +kernel

/-! ## A buffer of which `ikcp_send` gets one byte -/

theorem outputRoutine_narrowed {buffer : List UInt8} (size : sizeAsInt buffer = 1)
    (front : buffer.take 1 = [0]) (now : UInt32) :
    ((Kcp.init {}).send buffer).outputRoutine now =
      ((((Kcp.init {}).send [0]).outputRoutine now).1,
        { accepted := [buffer]
          datagrams := (((Kcp.init {}).send [0]).outputRoutine now).2.datagrams }) := by
  have sent : ikcpSend (Kcp.init {}).mKcpHandle buffer 1 = ikcpSend (Kcp.init {}).mKcpHandle [0] 1 := by
    rw [← ikcpSend_take (by decide +kernel) buffer, show (1 : Int32).toInt.toNat = 1 from rfl, front]
  have accepted : (ikcpSend (Kcp.init {}).mKcpHandle [0] 1).2 = 0 := by decide +kernel
  have one : sizeAsInt [0] = 1 := by decide
  have empty : (Kcp.init {}).mSendBufQueue = [] := rfl
  simp only [Kcp.outputRoutine, Kcp.send, empty, List.nil_append, sendQueue, size, one, sent, accepted]
  simp

theorem run_one_way (attr : Side → KcpAttr) (buffer : List UInt8) (now : UInt32)
    (batch : List Datagram) (emitted : ∀ datagram ∈ batch, datagram.bytes ∈
      (((Session.start attr .a).send buffer).outputRoutine now).emitted) :
    ∃ last, Run Session.step anyStep (Session.start attr)
        [.send .a buffer, .outputRoutine .a now, .inputRoutine .b batch] last ∧
      last .a = ((Session.start attr .a).send buffer).outputRoutine now ∧
      last .b = (Session.start attr .b).inputRoutine batch := by
  refine ⟨_, ((Run.nil.snoc trivial rfl).snoc trivial rfl).snoc trivial (if_pos ?_), ?_, ?_⟩
  · simpa [Side.peer] using emitted
  · simp
  · simp

theorem narrowed_not_safe {buffer : List UInt8} (size : sizeAsInt buffer = 1)
    (front : buffer.take 1 = [0]) (long : 1 < buffer.length) :
    ∃ events last, Run Session.step anyStep (Session.start fun _ => {}) events last ∧
      (∀ side, (last side).sent < 2 ^ 31) ∧ ¬ last.Safe := by
  let datagram : Datagram :=
    ⟨[0, 0, 0, 0, 81, 0, 0, 2, 0, 0, 0, 0, 0, 0, 0, 0, 0, 0, 0, 0, 1, 0, 0, 0, 0], {}⟩
  have routine := outputRoutine_narrowed size front 0
  have bytes : (((Kcp.init {}).send [0]).outputRoutine 0).2.datagrams = [datagram.bytes] := by
    decide +kernel
  have delivered : (((Session.start fun _ => {}) .b).inputRoutine [datagram]).delivered = [[0]] := by
    decide +kernel
  obtain ⟨last, run, sender, receiver⟩ := run_one_way (fun _ => {}) buffer 0 [datagram] (by
    simp [Session.start, Endpoint.outputRoutine, Endpoint.send, routine, bytes])
  have accepted : (last .a).accepted = [buffer] := by
    simp [sender, Session.start, Endpoint.outputRoutine, Endpoint.send, routine]
  rw [← receiver] at delivered
  refine ⟨_, last, run, fun side => ?_, fun safe => ?_⟩
  · cases side with
    | a =>
        have one : (last .a).stream.length = 1 := by
          simp [Endpoint.stream, accepted, payloads, cutBuffer, cutLength, size]
          decide
        rw [Endpoint.sent, one]
        omega
    | b =>
        have none : (last .b).accepted = [] := by
          rw [receiver]
          rfl
        rw [Endpoint.sent, Endpoint.stream, none]
        simp [payloads]
  · have whole := safe.delivered .a
    rw [accepted, Side.peer, delivered] at whole
    have same : [0] = buffer := List.singleton_prefix_cons_iff.mp whole
    rw [← same] at long
    exact Nat.lt_irrefl 1 long

/-- Of a buffer of `2 ^ 32 + 1` bytes one byte is delivered. -/
theorem narrowed_buffer_not_safe :
    ∃ events last, Run Session.step anyStep (Session.start fun _ => {}) events last ∧
      (∀ side, (last side).sent < 2 ^ 31) ∧ ¬ last.Safe := by
  obtain ⟨more, huge⟩ : ∃ more, more = 2 ^ 32 := ⟨_, rfl⟩
  have length : (List.replicate (more + 1) (0 : UInt8)).length = more + 1 := List.length_replicate
  refine narrowed_not_safe (?_ : sizeAsInt (List.replicate (more + 1) 0) = 1) ?_ ?_
  · rw [sizeAsInt, length, huge]
    decide
  · simp
  · rw [length]
    omega

end FiberKcp
