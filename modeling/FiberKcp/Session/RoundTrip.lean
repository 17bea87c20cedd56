import FiberKcp.Ikcp.Packing
import FiberKcp.Session.HandOver

namespace FiberKcp

open Data Ikcp

/-! The datagrams a session hands to `KcpOutput`, and what a peer reads in them. -/

namespace Ikcp

/-- Of the sending half only `snd_buf` changed, and it only lost segments. -/
structure Trimmed (before after : Ikcpcb) : Prop where
  setup : after.setup = before.setup
  window : after.rcv_wnd = before.rcv_wnd
  queue : after.snd_queue = before.snd_queue
  held : ∀ seg ∈ after.snd_buf, ∃ original ∈ before.snd_buf, SameSeg original seg

theorem Trimmed.trans {first second third : Ikcpcb} (left : Trimmed first second)
    (right : Trimmed second third) : Trimmed first third := by
  refine ⟨right.setup.trans left.setup, right.window.trans left.window,
    right.queue.trans left.queue, fun seg member => ?_⟩
  obtain ⟨middle, inMiddle, same⟩ := right.held seg member
  obtain ⟨original, inFirst, sameMiddle⟩ := left.held middle inMiddle
  exact ⟨original, inFirst, sameMiddle.trans same⟩

theorem Trimmed.of_subset {before after : Ikcpcb} (setup : after.setup = before.setup)
    (window : after.rcv_wnd = before.rcv_wnd) (queue : after.snd_queue = before.snd_queue)
    (held : ∀ seg ∈ after.snd_buf, seg ∈ before.snd_buf) : Trimmed before after :=
  ⟨setup, window, queue, fun seg member => ⟨seg, held seg member, .refl seg⟩⟩

theorem Trimmed.of_sameTraffic {before after : Ikcpcb} (same : SameTraffic before after) :
    Trimmed before after := by
  have sending : after.sendSide = before.sendSide := same.sendSide
  simp only [Ikcpcb.sendSide, SendSide.mk.injEq] at sending
  obtain ⟨queue, buffer, _⟩ := sending
  have window : after.rcv_wnd = before.rcv_wnd := congrArg RecvSide.rcv_wnd same.recvSide
  exact .of_subset same.setup window queue fun seg member => buffer ▸ member

theorem ikcpParseUna_trimmed (kcp : Ikcpcb) (una : UInt32) : Trimmed kcp (ikcpParseUna kcp una) :=
  .of_subset rfl rfl rfl fun _ member => (List.dropWhile_sublist _).subset member

theorem ikcpParseAck_trimmed (kcp : Ikcpcb) (sn : UInt32) : Trimmed kcp (ikcpParseAck kcp sn) := by
  unfold ikcpParseAck
  split
  · exact .of_sameTraffic (.refl kcp)
  · exact .of_subset rfl rfl rfl fun _ => mem_of_mem_removeAcked

theorem ikcpParseFastack_trimmed (kcp : Ikcpcb) (sn : UInt32) :
    Trimmed kcp (ikcpParseFastack kcp sn) := by
  unfold ikcpParseFastack
  split
  · exact .of_sameTraffic (.refl kcp)
  · exact ⟨rfl, rfl, rfl, (mem_of_sameSegs (countFastack_sameSeg sn kcp.snd_buf)).1⟩

theorem moveAvailable_trimmed (buffer : List IkcpSeg) (kcp : Ikcpcb) :
    Trimmed kcp (moveAvailable buffer kcp) := by
  obtain ⟨_, _, _, _, _, result⟩ := moveAvailable_spec buffer kcp
  rw [result]
  exact .of_subset rfl rfl rfl fun _ => id

theorem ikcpParseData_trimmed (kcp : Ikcpcb) (newseg : IkcpSeg) :
    Trimmed kcp (ikcpParseData kcp newseg) := by
  rcases ikcpParseData_cases kcp newseg with ⟨unchanged, _⟩ | ⟨buffer, moved, _⟩
  · rw [unchanged]
    exact .of_sameTraffic (.refl kcp)
  · rw [moved]
    exact moveAvailable_trimmed buffer kcp

theorem applySegment_trimmed (kcp : Ikcpcb) (scan : AckScan) (header : SegmentHeader)
    (payload : List UInt8) : Trimmed kcp (applySegment kcp scan header payload).1 := by
  obtain ⟨entered, same, arrival⟩ := applySegment_cases kcp scan header payload
  have trimmed := (ikcpParseUna_trimmed kcp header.una).trans (.of_sameTraffic same)
  generalize (applySegment kcp scan header payload).1 = after at arrival
  apply trimmed.trans
  cases arrival with
  | @acked timed _ _ sameTimed sameAfter =>
      exact (Trimmed.of_sameTraffic sameTimed).trans
        ((ikcpParseAck_trimmed timed header.sn).trans (.of_sameTraffic sameAfter))
  | stored _ _ _ =>
      have pushed : Trimmed entered (ikcpAckPush entered header.sn header.ts) :=
        .of_subset rfl rfl rfl fun _ => id
      exact pushed.trans (ikcpParseData_trimmed _ _)
  | repeated _ _ => exact .of_subset rfl rfl rfl fun _ => id
  | passed sameAfter => exact .of_sameTraffic sameAfter

theorem ikcpInput_trimmed (kcp : Ikcpcb) (data : List UInt8) :
    Trimmed kcp (ikcpInput kcp data).1 := by
  have scanned : Trimmed kcp (inputLoop data.length kcp {} data).1 :=
    inputLoop_preserves (Trimmed kcp)
      (fun before scan header payload trimmed =>
        trimmed.trans (applySegment_trimmed before scan header payload))
      data.length kcp {} data (.of_sameTraffic (.refl kcp))
  rcases ikcpInput_cases kcp data with unchanged | ⟨counted, same, rfl | ⟨sn, rfl⟩⟩
  · rw [unchanged]
    exact .of_sameTraffic (.refl kcp)
  · exact scanned.trans (.of_sameTraffic same)
  · exact scanned.trans ((ikcpParseFastack_trimmed _ sn).trans (.of_sameTraffic same))

theorem takeMessage_trimmed (kcp : Ikcpcb) : Trimmed kcp (takeMessage kcp) := by
  have dropped : Trimmed kcp (dropMessage kcp) := .of_subset rfl rfl rfl fun _ => id
  exact dropped.trans (moveAvailable_trimmed _ _)

theorem Sendable.trimmed {kcp after : Ikcpcb} (sendable : Sendable kcp)
    (trimmed : Trimmed kcp after) : Sendable after := by
  have conv : after.conv = kcp.conv := congrArg Setup.conv trimmed.setup
  refine ⟨(congrArg Setup.mtu trimmed.setup).trans sendable.mtu,
    trimmed.window ▸ sendable.window, fun seg member => ?_, fun seg member => ?_⟩
  · obtain ⟨original, held, same⟩ := trimmed.held seg member
    obtain ⟨origin, cmd⟩ := sendable.labels original held
    exact ⟨same.conv.trans (origin.trans conv.symm), same.cmd.trans cmd⟩
  · rcases List.mem_append.mp member with inBuffer | inQueue
    · obtain ⟨original, held, same⟩ := trimmed.held seg inBuffer
      have data : seg.data = original.data := congrArg Prod.fst same.payload
      have frg : seg.frg = original.frg := congrArg Prod.snd same.payload
      rw [data, frg]
      exact sendable.sizes original (List.mem_append_left _ held)
    · exact sendable.sizes seg (List.mem_append_right _ (trimmed.queue ▸ inQueue))

end Ikcp

theorem receiveAll_trimmed (kcp : Kcp) (locals : InputLocals) (batch : List Datagram) :
    Trimmed kcp.mKcpHandle (kcp.receiveAll locals batch).1.mKcpHandle := by
  induction batch generalizing kcp locals with
  | nil => exact .of_sameTraffic (.refl _)
  | cons datagram rest ih =>
      have first : Trimmed kcp.mKcpHandle (kcp.receive locals datagram).1.mKcpHandle := by
        unfold Kcp.receive
        dsimp only
        split
        · exact .of_sameTraffic (.refl _)
        · exact ikcpInput_trimmed kcp.mKcpHandle _
      have later := ih (kcp.receive locals datagram).1 (kcp.receive locals datagram).2
      rw [Kcp.receiveAll_cons]
      exact first.trans later

theorem inputRoutine_trimmed {kcp : Kcp} (counted : kcp.mKcpHandle.recvSide.Counted)
    (batch : List Datagram) :
    Trimmed kcp.mKcpHandle (kcp.inputRoutine batch).1.mKcpHandle := by
  have fed := receiveAll_counted {} batch counted
  apply (receiveAll_trimmed kcp {} batch).trans
  unfold Kcp.inputRoutine
  dsimp only
  rw [deliver_eq _ fed]
  split
  · rename_i taken
    exact (takeMessage_trimmed _).trans (.of_sameTraffic (ikcpRecv_eq fed taken.1).1)
  · exact .of_sameTraffic (.refl _)

/-- A session whose segments fit the header and the datagram. -/
structure Kcp.Sending (conv : UInt32) (kcp : Kcp) : Prop where
  ready : kcp.Ready conv
  sendable : Sendable kcp.mKcpHandle

theorem toNat_ofUInt16 (size : UInt16) : (Int32.ofNat size.toNat).toUInt32.toNat = size.toNat := by
  have bound := size.toNat_lt
  simp

theorem ikcpNodelay_window (kcp : Ikcpcb) (nodelay interval resend nc : Int32) :
    (ikcpNodelay kcp nodelay interval resend nc).rcv_wnd = kcp.rcv_wnd :=
  congrArg RecvSide.rcv_wnd (ikcpNodelay_sameTraffic kcp nodelay interval resend nc).recvSide

/-- The receive window is the attribute or 128, whichever is larger. -/
theorem init_window (attr : KcpAttr) : (Kcp.init attr).mKcpHandle.rcv_wnd.toNat < 2 ^ 16 := by
  have size := attr.recvWndSize.toNat_lt
  have window : (imax (Int32.ofNat attr.recvWndSize.toNat).toUInt32 ikcpWndRcv).toNat < 2 ^ 16 := by
    unfold imax
    split
    · rw [toNat_ofUInt16]
      exact size
    · decide
  have initial : (ikcpCreate attr.conv).rcv_wnd.toNat < 2 ^ 16 := by
    change ikcpWndRcv.toNat < 2 ^ 16
    decide
  unfold Kcp.init
  rw [ikcpNodelay_window]
  unfold ikcpWndsize
  dsimp only
  split
  · exact window
  · split <;> exact initial

theorem sending_init (attr : KcpAttr) : (Kcp.init attr).Sending attr.conv := by
  obtain ⟨sending, _, setup, _⟩ := init_traffic attr
  simp only [Ikcpcb.sendSide, SendSide.mk.injEq] at sending
  refine ⟨ready_init attr, congrArg Setup.mtu setup, init_window attr, ?_, ?_⟩
  · simp [sending]
  · simp [sending]

theorem payloads_narrow {buffers : List (List UInt8)}
    (few : ∀ buffer ∈ buffers, fragmentCount 1376 (cutLength buffer) < 128) :
    ∀ payload ∈ payloads buffers, payload.1.length ≤ 1376 ∧ payload.2.toNat < 128 := by
  intro payload member
  obtain ⟨buffer, inBuffers, inCut⟩ := List.mem_flatMap.mp member
  obtain ⟨seg, inSegs, rfl⟩ := List.mem_map.mp inCut
  have count := few buffer inBuffers
  have frg := fragment_frg (by omega) seg inSegs
  exact ⟨fragment_data seg inSegs, by change seg.frg.toNat < 128; omega⟩

theorem Ikcp.Sendable.accepts {kcp after : Ikcpcb} {queue accepted : List (List UInt8)}
    (sendable : Sendable kcp) (accepts : Accepts kcp after queue accepted) : Sendable after := by
  have conv : after.conv = kcp.conv := congrArg Setup.conv accepts.setup
  have window : after.rcv_wnd = kcp.rcv_wnd := congrArg RecvSide.rcv_wnd accepts.recvSide
  refine ⟨(congrArg Setup.mtu accepts.setup).trans sendable.mtu, window ▸ sendable.window,
    fun seg member => ?_, fun seg member => ?_⟩
  · obtain ⟨origin, cmd⟩ := sendable.labels seg (accepts.buffer ▸ member)
    exact ⟨origin.trans conv.symm, cmd⟩
  · rcases List.mem_append.mp member with inBuffer | inQueue
    · exact sendable.sizes seg (List.mem_append_left _ (accepts.buffer ▸ inBuffer))
    · have waiting : seg.payload ∈ after.snd_queue.map IkcpSeg.payload :=
        List.mem_map_of_mem inQueue
      rw [accepts.waiting] at waiting
      rcases List.mem_append.mp waiting with earlier | new
      · obtain ⟨original, inOriginal, same⟩ := List.mem_map.mp earlier
        have data : original.data = seg.data := congrArg Prod.fst same
        have frg : original.frg = seg.frg := congrArg Prod.snd same
        rw [← data, ← frg]
        exact sendable.sizes original (List.mem_append_right _ inOriginal)
      · exact payloads_narrow (fun buffer taken => (accepts.taken buffer taken).2.2) _ new

theorem Ikcp.Sendable.flushed {kcp after : Ikcpcb} {output : List (List UInt8)}
    (sendable : Sendable kcp) (flushed : Flushed kcp after output) : Sendable after := by
  have conv : after.conv = kcp.conv := congrArg Setup.conv flushed.setup
  have window : after.rcv_wnd = kcp.rcv_wnd := congrArg RecvSide.rcv_wnd flushed.recvSide
  obtain ⟨moving, entered, moves, left, _, sameSegs, _⟩ := flushed.traffic
  obtain ⟨moved, parts, payloads⟩ := moves.queue
  refine ⟨(congrArg Setup.mtu flushed.setup).trans sendable.mtu, window ▸ sendable.window,
    fun seg member => ?_, fun seg member => ?_⟩
  · obtain ⟨original, held, same⟩ := (mem_of_sameSegs sameSegs).1 seg member
    have labels : original.conv = kcp.conv ∧ original.cmd = ikcpCmdPush := by
      rcases List.mem_append.mp (moves.buffer ▸ held) with old | new
      · exact sendable.labels original old
      · exact moves.labels original new
    exact ⟨same.conv.trans (labels.1.trans conv.symm), same.cmd.trans labels.2⟩
  · rcases List.mem_append.mp member with inBuffer | inQueue
    · obtain ⟨original, held, same⟩ := (mem_of_sameSegs sameSegs).1 seg inBuffer
      have data : seg.data = original.data := congrArg Prod.fst same.payload
      have frg : seg.frg = original.frg := congrArg Prod.snd same.payload
      rw [data, frg]
      rcases List.mem_append.mp (moves.buffer ▸ held) with old | new
      · exact sendable.sizes original (List.mem_append_left _ old)
      · have inMoved : original.payload ∈ moved.map IkcpSeg.payload :=
          payloads ▸ List.mem_map_of_mem new
        obtain ⟨waiting, inWaiting, sameWaiting⟩ := List.mem_map.mp inMoved
        have waitingData : waiting.data = original.data := congrArg Prod.fst sameWaiting
        have waitingFrg : waiting.frg = original.frg := congrArg Prod.snd sameWaiting
        rw [← waitingData, ← waitingFrg]
        exact sendable.sizes waiting
          (List.mem_append_right _ (parts ▸ List.mem_append_left _ inWaiting))
    · apply sendable.sizes seg (List.mem_append_right _ _)
      rw [parts, ← left]
      exact List.mem_append_right _ inQueue

theorem Kcp.Sending.perform {conv : UInt32} {kcp after : Kcp} {call : KcpCall}
    (sending : kcp.Sending conv) (performed : kcp.perform call = some after) :
    after.Sending conv := by
  refine ⟨sending.ready.perform performed, ?_⟩
  cases call with
  | send buffer =>
      cases performed
      exact sending.sendable
  | outputRoutine now =>
      cases performed
      obtain ⟨filled, output, accepts, flushed, _⟩ := outputRoutine_accepts sending.ready now
      exact (sending.sendable.accepts accepts).flushed flushed
  | inputRoutine batch =>
      cases performed
      exact sending.sendable.trimmed (inputRoutine_trimmed sending.ready.counted batch)

theorem reached_sending {attr : KcpAttr} {calls : List KcpCall} {kcp : Kcp}
    (run : Run Kcp.perform anyStep (Kcp.init attr) calls kcp) : kcp.Sending attr.conv :=
  run.invariant (Kcp.Sending attr.conv) (sending_init attr) fun sending _ performed =>
    sending.perform performed

/-- The state in which `ikcp_update` calls `ikcp_flush`, when the flush is due. -/
def Ikcp.dueFlush (kcp : Ikcpcb) (current : UInt32) : Option Ikcpcb :=
  let kcp := { kcp with current := current }
  let kcp := if kcp.updated = 0 then { kcp with updated := 1, ts_flush := kcp.current } else kcp
  let slap := itimediff kcp.current kcp.ts_flush
  let late := slap ≥ 10000 ∨ slap < -10000
  let kcp := if late then { kcp with ts_flush := kcp.current } else kcp
  let slap := if late then 0 else slap
  if slap ≥ 0 then
    let ts_flush := kcp.ts_flush + kcp.interval
    some { kcp with
      ts_flush := if itimediff kcp.current ts_flush ≥ 0 then kcp.current + kcp.interval
        else ts_flush }
  else none

theorem ikcpUpdate_datagrams (kcp : Ikcpcb) (now : UInt32) :
    (ikcpUpdate kcp now).2 = (dueFlush kcp now).elim [] fun due => (ikcpFlush due).2 := by
  unfold ikcpUpdate dueFlush
  extract_lets timed started slap late restarted slap' ts_flush
  split <;> rfl

theorem dueFlush_sameTraffic {kcp due : Ikcpcb} {now : UInt32}
    (flushes : dueFlush kcp now = some due) : SameTraffic kcp due := by
  unfold dueFlush at flushes
  extract_lets timed started slap late restarted slap' ts_flush at flushes
  have sameStarted : SameTraffic kcp started :=
    .ite (.clock kcp now 1 now) (.clock kcp now kcp.updated kcp.ts_flush)
  have same : SameTraffic kcp restarted :=
    .ite (sameStarted.trans (.clock started _ _ _)) sameStarted
  split at flushes
  · cases flushes
    exact same.trans (.clock restarted _ _ _)
  · cases flushes

/-- The acknowledgements, probes and data segments the flush of a call of
`outputRoutine` sends. -/
def Kcp.flushSegs (kcp : Kcp) (now : UInt32) : List IkcpSeg :=
  (dueFlush (sendQueue kcp.mSendBufQueue kcp.mKcpHandle).1 now).elim [] chosenSegs

/-- A datagram of these segments fits the MTU and the receive buffer, starts
with `conv`, and every peer with that `conv` reads the segments from it and
applies them one after the other. -/
structure RoundTrips (conv : UInt32) (group : List IkcpSeg) : Prop where
  size : 24 ≤ (groupBytes group).length ∧ (groupBytes group).length ≤ 1400
  whole : (groupBytes group).take recvBufSize = groupBytes group
  start : word32 (groupBytes group) = conv
  read : ∀ peer : Ikcpcb, peer.conv = conv → (ikcpInput peer (groupBytes group)).2 = 0 ∧
    ∃ decoded, List.Forall₂ Decodes group decoded ∧
      decodeLoop conv (groupBytes group).length (groupBytes group) = (decoded, 0) ∧
      inputLoop (groupBytes group).length peer {} (groupBytes group) =
        ((applyAll decoded (peer, {})).1, (applyAll decoded (peer, {})).2, 0) ∧
      (ikcpInput peer (groupBytes group)).1 = inputSegs peer decoded

theorem Ikcp.Encodable.readable {kcp : Ikcpcb} {seg : IkcpSeg}
    (encodable : Encodable kcp.conv seg) : Readable kcp seg := by
  refine ⟨encodable.conv, ?_, encodable.size⟩
  rcases encodable.cmd with cmd | cmd | cmd | cmd <;> rw [cmd] <;> rfl

theorem roundTrips_of_encodable {conv : UInt32} {group : List IkcpSeg} (nonempty : group ≠ [])
    (encodable : ∀ seg ∈ group, Encodable conv seg)
    (bound : (groupBytes group).length ≤ 1400) : RoundTrips conv group := by
  obtain ⟨first, rest, rfl⟩ := List.exists_cons_of_ne_nil nonempty
  have header : ikcpOverhead ≤ (groupBytes (first :: rest)).length := by
    have size := length_segBytes first
    simp only [groupBytes, List.flatMap_cons, List.length_append]
    omega
  refine ⟨⟨header, bound⟩, List.take_of_length_le (bound.trans (by decide)), ?_, ?_⟩
  · rw [groupBytes, List.flatMap_cons, segBytes, List.append_assoc, ikcpGetconv_encode]
    exact (encodable first List.mem_cons_self).conv
  · rintro peer rfl
    have decoded : decodeLoop peer.conv (groupBytes (first :: rest)).length
        (groupBytes (first :: rest)) =
          ((first :: rest).map fun seg => (headerOf seg, seg.data), 0) :=
      decodeLoop_segs (fun seg member => (encodable seg member).readable) le_rfl
    have applied := ikcpInput_of_decoded header decoded
    refine ⟨congrArg Prod.snd applied, _, ?_, decoded, ?_, congrArg Prod.fst applied⟩
    · rw [List.forall₂_map_right_iff, List.forall₂_same]
      exact fun seg member => (encodable seg member).decodes
    · rw [inputLoop_eq, decoded]

/-- Every datagram of a call of `outputRoutine` makes the round trip, and
together they are the segments the flush chose, in order. -/
theorem outputRoutine_roundTrips {attr : KcpAttr} {calls : List KcpCall} {kcp : Kcp}
    (run : Run Kcp.perform anyStep (Kcp.init attr) calls kcp) (now : UInt32) :
    ∃ groups : List (List IkcpSeg),
      (kcp.outputRoutine now).2.datagrams = groups.map groupBytes ∧
      groups.flatten = kcp.flushSegs now ∧ ∀ group ∈ groups, RoundTrips attr.conv group := by
  have sending := reached_sending run
  have accepts := sendQueue_accepts kcp.mSendBufQueue kcp.mKcpHandle sending.ready.setup
  have filled := sending.sendable.accepts accepts
  have datagrams : (kcp.outputRoutine now).2.datagrams =
      (ikcpUpdate (sendQueue kcp.mSendBufQueue kcp.mKcpHandle).1 now).2 := rfl
  rw [datagrams, ikcpUpdate_datagrams, Kcp.flushSegs]
  cases flushes : dueFlush (sendQueue kcp.mSendBufQueue kcp.mKcpHandle).1 now with
  | none => exact ⟨[], rfl, rfl, by simp⟩
  | some due =>
      have same := dueFlush_sameTraffic flushes
      have sendable := filled.sameTraffic same
      have conv : due.conv = attr.conv := (congrArg Setup.conv same.setup).trans
        ((congrArg Setup.conv accepts.setup).trans (congrArg Setup.conv sending.ready.setup))
      obtain ⟨groups, output, all, packed⟩ := ikcpFlush_packs sendable
      refine ⟨groups, output, all, fun group member => ?_⟩
      obtain ⟨nonempty, bound⟩ := packed group member
      refine roundTrips_of_encodable nonempty (fun seg inGroup => ?_) bound
      have chosen : seg ∈ chosenSegs due := all ▸ List.mem_flatten_of_mem member inGroup
      exact conv ▸ (sendable.chosen seg chosen).1

theorem outputRoutine_roundTrips_push :
    ∃ kcp, Run Kcp.perform anyStep (Kcp.init {}) [.send [1, 2, 3]] kcp ∧
      (kcp.outputRoutine 0).2.datagrams ≠ [] ∧
      ∃ groups : List (List IkcpSeg),
        (kcp.outputRoutine 0).2.datagrams = groups.map groupBytes ∧
        groups.flatten = kcp.flushSegs 0 ∧ ∀ group ∈ groups, RoundTrips 0 group := by
  have run : Run Kcp.perform anyStep (Kcp.init {}) [.send [1, 2, 3]] _ := Run.of_execute rfl
  exact ⟨_, run, by decide +kernel, outputRoutine_roundTrips run 0⟩

end FiberKcp
