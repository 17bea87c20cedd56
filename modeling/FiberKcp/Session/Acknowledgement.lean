import FiberKcp.Session.Answers

namespace FiberKcp

open Data Ikcp

/-! Which data segments are acknowledged, how often and with what time: each one
that `ikcp_input` takes note of once, in the order of arrival, with the `sn` and
the `ts` it came with. -/

namespace Ikcp

/-- `sn` and `ts` of the data segments below the end of the window. -/
def takenPushes : List DecodedSeg → Ikcpcb × AckScan → List (UInt32 × UInt32)
  | [], _ => []
  | seg :: rest, state =>
      let later := takenPushes rest (applySegment state.1 state.2 seg.1 seg.2)
      if seg.1.cmd.toUInt32 = ikcpCmdPush ∧
          itimediff seg.1.sn (state.1.rcv_nxt + state.1.rcv_wnd) < 0 then
        (seg.1.sn, seg.1.ts) :: later
      else later

theorem applyAll_taken (segs : List DecodedSeg) (state : Ikcpcb × AckScan) :
    (applyAll segs state).1.acklist = state.1.acklist ++ takenPushes segs state := by
  induction segs generalizing state with
  | nil => simp [applyAll, takenPushes]
  | cons seg rest ih =>
      rw [applyAll_cons, ih, takenPushes]
      cases applySegment_owing state.1 state.2 seg.1 seg.2 with
      | acked isPush inWindow acks _ =>
          rw [acks, if_pos ⟨isPush, inWindow⟩, List.append_assoc]
          rfl
      | asked isAsk acks _ =>
          have notPush : ¬ (seg.1.cmd.toUInt32 = ikcpCmdPush ∧
              itimediff seg.1.sn (state.1.rcv_nxt + state.1.rcv_wnd) < 0) := by
            rw [isAsk]
            exact fun both => absurd both.1 (by decide)
          rw [acks, if_neg notPush]
      | nothing _ refused acks _ =>
          rw [acks, if_neg (fun both => refused both.1 both.2)]

/-- What one call of `ikcp_input` takes note of. -/
def inputTaken (kcp : Ikcpcb) (data : List UInt8) : List (UInt32 × UInt32) :=
  if data.length < ikcpOverhead then []
  else takenPushes (decodeLoop kcp.conv data.length data).1 (kcp, {})

theorem ikcpInput_taken (kcp : Ikcpcb) (data : List UInt8) :
    (ikcpInput kcp data).1.acklist = kcp.acklist ++ inputTaken kcp data := by
  by_cases short : data.length < ikcpOverhead
  · rw [ikcpInput, inputTaken, if_pos short, if_pos short, List.append_nil]
  · have read : (inputLoop data.length kcp {} data).1.acklist =
        kcp.acklist ++ inputTaken kcp data := by
      rw [inputLoop_eq, inputTaken, if_neg short]
      exact applyAll_taken _ _
    rw [← read]
    by_cases accepted : (inputLoop data.length kcp {} data).2.2 = 0
    · exact (ikcpInput_owed (Nat.not_lt.mp short) accepted).1
    · rw [ikcpInput, if_neg short]
      dsimp only
      rw [if_pos accepted]

/-- `sn` and `ts` of the segments with a command. -/
def labels (cmd : UInt32) (segs : List IkcpSeg) : List (UInt32 × UInt32) :=
  (segs.filter fun seg => seg.cmd = cmd).map fun seg => (seg.sn, seg.ts)

/-- The same, read off the bytes of a datagram. -/
def labelsIn (cmd conv : UInt32) (bytes : List UInt8) : List (UInt32 × UInt32) :=
  ((decodeLoop conv bytes.length bytes).1.filter fun seg => seg.1.cmd.toUInt32 = cmd).map
    fun seg => (seg.1.sn, seg.1.ts)

theorem labels_append (cmd : UInt32) (left right : List IkcpSeg) :
    labels cmd (left ++ right) = labels cmd left ++ labels cmd right := by
  simp [labels]

theorem labels_flatten (cmd : UInt32) (groups : List (List IkcpSeg)) :
    labels cmd groups.flatten = groups.flatMap (labels cmd) := by
  induction groups with
  | nil => rfl
  | cons group rest ih => rw [List.flatten_cons, labels_append, ih, List.flatMap_cons]

theorem mem_labels {cmd : UInt32} {segs : List IkcpSeg} {label : UInt32 × UInt32} :
    label ∈ labels cmd segs ↔ ∃ seg ∈ segs, seg.cmd = cmd ∧ (seg.sn, seg.ts) = label := by
  simp [labels, and_assoc]

theorem labels_eq_nil {cmd : UInt32} {segs : List IkcpSeg}
    (others : ∀ seg ∈ segs, seg.cmd ≠ cmd) : labels cmd segs = [] := by
  rw [labels, List.map_eq_nil_iff, List.filter_eq_nil_iff]
  intro seg member
  simpa using others seg member

theorem labels_decoded (cmd : UInt32) {group : List IkcpSeg} {decoded : List DecodedSeg}
    (same : List.Forall₂ Decodes group decoded) :
    (decoded.filter fun seg => seg.1.cmd.toUInt32 = cmd).map (fun seg => (seg.1.sn, seg.1.ts)) =
      labels cmd group := by
  induction same with
  | nil => rfl
  | cons decodes _ ih =>
      rw [labels, List.filter_cons, List.filter_cons, decodes.cmd]
      split
      · rw [List.map_cons, List.map_cons, ih, decodes.sn, decodes.ts]
        rfl
      · exact ih

theorem labels_chosenAcks (kcp : Ikcpcb) : labels ikcpCmdAck (chosenAcks kcp) = kcp.acklist := by
  rw [labels, chosenAcks]
  induction kcp.acklist with
  | nil => rfl
  | cons ack rest ih =>
      rw [List.map_cons, List.filter_cons_of_pos (by simp [controlSeg]), List.map_cons, ih]

theorem chosenProbes_cmd {kcp acked : Ikcpcb} {seg : IkcpSeg}
    (member : seg ∈ chosenProbes kcp acked) : seg.cmd = ikcpCmdWask ∨ seg.cmd = ikcpCmdWins := by
  rw [chosenProbes] at member
  rcases List.mem_append.mp member with asking | telling
  · rw [List.mem_ite_nil_right, List.mem_singleton] at asking
    rw [asking.2]
    exact .inl rfl
  · rw [List.mem_ite_nil_right, List.mem_singleton] at telling
    rw [telling.2]
    exact .inr rfl

theorem chosenSeg_spec {kcp : Ikcpcb} {wnd : UInt32} {segment seg : IkcpSeg}
    (member : seg ∈ chosenSeg kcp wnd segment) : seg.cmd = segment.cmd ∧ seg.ts = kcp.current := by
  rw [chosenSeg, List.mem_ite_nil_right, List.mem_singleton] at member
  rw [member.2]
  exact ⟨(needsend_sameSeg kcp segment).cmd, rfl⟩

theorem Sendable.cleared {kcp : Ikcpcb} (sendable : Sendable kcp) : Sendable (clearAcks kcp) := by
  have emptied : Sendable { kcp with acklist := [] } :=
    ⟨sendable.mtu, sendable.window, sendable.labels, sendable.sizes⟩
  exact emptied.sameTraffic (clearAcks_sameTraffic kcp)

/-- A flush acknowledges what was noted, in order, and nothing else. -/
theorem chosenSegs_acks {kcp : Ikcpcb} (sendable : Sendable kcp) (running : kcp.updated ≠ 0) :
    labels ikcpCmdAck (chosenSegs kcp) = kcp.acklist := by
  have probes : labels ikcpCmdAck (chosenProbes (clearAcks kcp) kcp) = [] := by
    apply labels_eq_nil
    intro seg member
    rcases chosenProbes_cmd member with asks | tells
    · rw [asks]
      decide
    · rw [tells]
      decide
  have pushes : labels ikcpCmdAck ((fillSndBuf (clearAcks kcp)).snd_buf.flatMap
      (chosenSeg (fillSndBuf (clearAcks kcp)) (ikcpWndUnused (clearAcks kcp)))) = [] := by
    apply labels_eq_nil
    intro seg member
    obtain ⟨segment, held, sent⟩ := List.mem_flatMap.mp member
    rw [(chosenSeg_spec sent).1, (sendable.cleared.filled segment held).1.2]
    decide
  rw [chosenSegs_eq running, labels_append, labels_append, probes, pushes, labels_chosenAcks,
    List.append_nil, List.append_nil]

/-- Data segments are sent with the time of the flush. -/
theorem chosenSegs_pushes {kcp : Ikcpcb} (running : kcp.updated ≠ 0) {label : UInt32 × UInt32}
    (member : label ∈ labels ikcpCmdPush (chosenSegs kcp)) : label.2 = kcp.current := by
  obtain ⟨seg, chosen, isPush, same⟩ := mem_labels.mp member
  rw [chosenSegs_eq running] at chosen
  rw [← same]
  rcases List.mem_append.mp chosen with control | data
  · have other : seg.cmd ≠ ikcpCmdPush := by
      rcases List.mem_append.mp control with ack | probe
      · obtain ⟨owed, _, built⟩ := List.mem_map.mp ack
        rw [← built]
        change ikcpCmdAck ≠ ikcpCmdPush
        decide
      · rcases chosenProbes_cmd probe with asks | tells
        · rw [asks]
          decide
        · rw [tells]
          decide
    exact absurd isPush other
  · obtain ⟨segment, _, sent⟩ := List.mem_flatMap.mp data
    exact (chosenSeg_spec sent).2.trans (fillSndBuf_current kcp)

theorem ikcpFlush_acklist {kcp : Ikcpcb} (running : kcp.updated ≠ 0) :
    (ikcpFlush kcp).1.acklist = [] := by
  rw [ikcpFlush, if_neg running]
  extract_lets acked acks cleared packer wnd window cwnd moving
  generalize flushSegments moving wnd moving.snd_buf
    { packer := packer, xmit := moving.xmit, state := moving.state } = flushed
  have moved : moving.acklist = cleared.acklist :=
    (moveToSndBuf_keeps cwnd wnd cleared.snd_queue { cleared with probe := 0 }).2.2
  have empty : cleared.acklist = [] := (clearAcks_sameTraffic kcp).acklist
  exact (updateSsthresh_sameTraffic _ cwnd flushed.2).acklist.trans (moved.trans empty)

end Ikcp

theorem labelsIn_group {conv : UInt32} {group : List IkcpSeg} (roundTrips : RoundTrips conv group)
    (cmd : UInt32) : labelsIn cmd conv (groupBytes group) = labels cmd group := by
  obtain ⟨_, decoded, faithful, decodes, _⟩ := roundTrips.read (ikcpCreate conv) rfl
  rw [labelsIn, decodes]
  exact labels_decoded cmd faithful

/-! ## One object -/

/-- What one round of the `recvfrom` loop takes note of. -/
def Kcp.taken (kcp : Kcp) (locals : InputLocals) (datagram : Datagram) : List (UInt32 × UInt32) :=
  if word32 (fillBuf locals.buf datagram) = kcp.mAttr.conv then
    inputTaken kcp.mKcpHandle datagram.received
  else []

def Kcp.takenLoop : Kcp → InputLocals → List Datagram → List (UInt32 × UInt32)
  | _, _, [] => []
  | kcp, locals, datagram :: rest =>
      kcp.taken locals datagram ++
        (kcp.receive locals datagram).1.takenLoop (kcp.receive locals datagram).2 rest

/-- What a call of `inputRoutine` takes note of. -/
def Kcp.takenAll (kcp : Kcp) (batch : List Datagram) : List (UInt32 × UInt32) :=
  kcp.takenLoop {} batch

theorem receive_taken (kcp : Kcp) (locals : InputLocals) (datagram : Datagram) :
    (kcp.receive locals datagram).1.mKcpHandle.acklist =
      kcp.mKcpHandle.acklist ++ kcp.taken locals datagram := by
  rw [receive_eq, Kcp.taken]
  split
  · exact ikcpInput_taken kcp.mKcpHandle datagram.received
  · exact (List.append_nil _).symm

theorem receiveAll_taken (kcp : Kcp) (locals : InputLocals) (batch : List Datagram) :
    (kcp.receiveAll locals batch).1.mKcpHandle.acklist =
      kcp.mKcpHandle.acklist ++ kcp.takenLoop locals batch := by
  induction batch generalizing kcp locals with
  | nil => exact (List.append_nil _).symm
  | cons datagram rest ih =>
      rw [Kcp.receiveAll_cons, ih, receive_taken, Kcp.takenLoop, List.append_assoc]

theorem inputRoutine_taken_all (kcp : Kcp) (batch : List Datagram) :
    (kcp.inputRoutine batch).1.mKcpHandle.acklist =
      kcp.mKcpHandle.acklist ++ kcp.takenAll batch := by
  rw [Kcp.inputRoutine, deliver_acklist, receiveAll_taken, Kcp.takenAll]

/-- What a call of `outputRoutine` acknowledges is what was noted, and what it
does not acknowledge stays noted. -/
theorem outputRoutine_acks {conv : UInt32} {kcp : Kcp} (sending : kcp.Sending conv)
    (now : UInt32) :
    (kcp.outputRoutine now).2.datagrams.flatMap (labelsIn ikcpCmdAck conv) ++
      (kcp.outputRoutine now).1.mKcpHandle.acklist = kcp.mKcpHandle.acklist := by
  have accepts := sendQueue_accepts kcp.mSendBufQueue kcp.mKcpHandle sending.ready.setup
  obtain ⟨groups, output, all, readable⟩ := sending.datagrams now
  have told : (kcp.outputRoutine now).2.datagrams.flatMap (labelsIn ikcpCmdAck conv) =
      labels ikcpCmdAck (kcp.flushSegs now) := by
    rw [output, ← all, labels_flatten, List.flatMap_map]
    apply List.flatMap_congr
    intro group member
    exact labelsIn_group (readable group member).1 ikcpCmdAck
  have handle : (kcp.outputRoutine now).1.mKcpHandle =
      (ikcpUpdate (sendQueue kcp.mSendBufQueue kcp.mKcpHandle).1 now).1 := rfl
  rw [told, handle, Kcp.flushSegs]
  cases flushes : dueFlush (sendQueue kcp.mSendBufQueue kcp.mKcpHandle).1 now with
  | none =>
      obtain ⟨same, _⟩ := ikcpUpdate_of_none flushes
      rw [same.acklist, accepts.acklist]
      rfl
  | some due =>
      have same := dueFlush_sameTraffic flushes
      obtain ⟨running, _⟩ := dueFlush_runs flushes
      have sendable := (sending.sendable.accepts accepts).sameTraffic same
      rw [ikcpUpdate_of_due flushes, ikcpFlush_acklist running, List.append_nil]
      exact (chosenSegs_acks sendable running).trans (same.acklist.trans accepts.acklist)

/-- An object with a record of the data segments `ikcp_input` took note of and of
the acknowledgements in the datagrams sent. -/
structure AckLedger where
  kcp : Kcp
  taken : List (UInt32 × UInt32) := []
  acked : List (UInt32 × UInt32) := []

def AckLedger.step (ledger : AckLedger) (call : KcpCall) : Option AckLedger :=
  match call with
  | .send buffer => some { ledger with kcp := ledger.kcp.send buffer }
  | .outputRoutine now =>
      let (kcp, result) := ledger.kcp.outputRoutine now
      some { ledger with
        kcp := kcp
        acked := ledger.acked ++
          result.datagrams.flatMap (labelsIn ikcpCmdAck ledger.kcp.mAttr.conv) }
  | .inputRoutine batch =>
      some { ledger with
        kcp := (ledger.kcp.inputRoutine batch).1
        taken := ledger.taken ++ ledger.kcp.takenAll batch }

/-- The books are straight. -/
structure AckLedger.Balanced (attr : KcpAttr) (ledger : AckLedger) : Prop where
  sending : ledger.kcp.Sending attr.conv
  conv : ledger.kcp.mAttr.conv = attr.conv
  balance : ledger.taken = ledger.acked ++ ledger.kcp.mKcpHandle.acklist

theorem AckLedger.Balanced.step {attr : KcpAttr} {ledger after : AckLedger} {call : KcpCall}
    (balanced : ledger.Balanced attr) (stepped : ledger.step call = some after) :
    after.Balanced attr := by
  have performed : ledger.kcp.perform call = some after.kcp := by
    cases call with
    | send buffer =>
        cases stepped
        rfl
    | outputRoutine now =>
        cases stepped
        rfl
    | inputRoutine batch =>
        cases stepped
        rfl
  refine ⟨balanced.sending.perform performed, (perform_conv performed).trans balanced.conv, ?_⟩
  cases call with
  | send buffer =>
      cases stepped
      exact balanced.balance
  | outputRoutine now =>
      cases stepped
      change ledger.taken = ledger.acked ++ (ledger.kcp.outputRoutine now).2.datagrams.flatMap
        (labelsIn ikcpCmdAck ledger.kcp.mAttr.conv) ++
          (ledger.kcp.outputRoutine now).1.mKcpHandle.acklist
      rw [balanced.conv, List.append_assoc, outputRoutine_acks balanced.sending now]
      exact balanced.balance
  | inputRoutine batch =>
      cases stepped
      change ledger.taken ++ ledger.kcp.takenAll batch =
        ledger.acked ++ (ledger.kcp.inputRoutine batch).1.mKcpHandle.acklist
      rw [inputRoutine_taken_all, ← List.append_assoc, balanced.balance]

/-- In every run the data segments taken note of are acknowledged once each, in
the order of arrival and with their own time, or are still to be. -/
theorem pushes_acknowledged_once {attr : KcpAttr} {calls : List KcpCall} {ledger : AckLedger}
    (run : Run AckLedger.step anyStep { kcp := Kcp.init attr } calls ledger) :
    ledger.taken = ledger.acked ++ ledger.kcp.mKcpHandle.acklist := by
  have initial : AckLedger.Balanced attr { kcp := Kcp.init attr } := by
    refine ⟨sending_init attr, rfl, ?_⟩
    rw [List.nil_append]
    exact (init_traffic attr).2.2.2.symm
  have balanced : ledger.Balanced attr :=
    run.invariant _ initial fun balanced _ stepped => balanced.step stepped
  exact balanced.balance

/-- A segment that arrives twice is acknowledged twice; the next one is noted. -/
theorem pushes_acknowledged_once_repeated :
    ∃ ledger, Run AckLedger.step anyStep { kcp := Kcp.init { conv := 7 } }
        [.inputRoutine [⟨[7, 0, 0, 0, 81, 0, 0, 2, 5, 0, 0, 0, 0, 0, 0, 0, 0, 0, 0, 0, 0, 0, 0, 0], {}⟩,
            ⟨[7, 0, 0, 0, 81, 0, 0, 2, 5, 0, 0, 0, 0, 0, 0, 0, 0, 0, 0, 0, 0, 0, 0, 0], {}⟩],
          .outputRoutine 0,
          .inputRoutine [⟨[7, 0, 0, 0, 81, 0, 0, 2, 9, 0, 0, 0, 1, 0, 0, 0, 0, 0, 0, 0, 0, 0, 0, 0], {}⟩]]
        ledger ∧
      ledger.acked = [(0, 5), (0, 5)] := by
  apply Run.exists_shown fun ledger => ledger.taken = [(0, 5), (0, 5), (1, 9)] ∧
    ledger.kcp.mKcpHandle.acklist = [(1, 9)]
  · decide +kernel
  · intro ledger run shown
    obtain ⟨taken, noted⟩ := shown
    have balance := pushes_acknowledged_once run
    rw [taken, noted] at balance
    have same : ledger.acked ++ [(1, 9)] = [(0, 5), (0, 5)] ++ [(1, 9)] := balance.symm
    exact List.append_cancel_right same

/-! ## Two objects -/

theorem takenPushes_subset (segs : List DecodedSeg) (state : Ikcpcb × AckScan) :
    takenPushes segs state ⊆ (segs.filter fun seg => seg.1.cmd.toUInt32 = ikcpCmdPush).map
      fun seg => (seg.1.sn, seg.1.ts) := by
  induction segs generalizing state with
  | nil => exact List.nil_subset _
  | cons seg rest ih =>
      intro label member
      rw [takenPushes] at member
      split at member
      · rename_i noted
        rw [List.filter_cons_of_pos (by simpa using noted.1), List.map_cons]
        rcases List.mem_cons.mp member with here | later
        · exact here ▸ List.mem_cons_self
        · exact List.mem_cons_of_mem _ (ih _ later)
      · exact List.map_subset _ (List.filter_subset _ (List.subset_cons_self _ _)) (ih _ member)

theorem inputTaken_subset (kcp : Ikcpcb) (data : List UInt8) :
    inputTaken kcp data ⊆ labelsIn ikcpCmdPush kcp.conv data := by
  rw [inputTaken]
  split
  · exact List.nil_subset _
  · exact takenPushes_subset _ _

/-- Everything noted was in a datagram. -/
theorem takenLoop_subset {conv : UInt32} (kcp : Kcp) (locals : InputLocals) (batch : List Datagram)
    (setup : kcp.mKcpHandle.conv = conv)
    (whole : ∀ datagram ∈ batch, datagram.received = datagram.bytes) {label : UInt32 × UInt32}
    (member : label ∈ kcp.takenLoop locals batch) :
    ∃ datagram ∈ batch, label ∈ labelsIn ikcpCmdPush conv datagram.bytes := by
  induction batch generalizing kcp locals with
  | nil => exact absurd member List.not_mem_nil
  | cons datagram rest ih =>
      rw [Kcp.takenLoop] at member
      rcases List.mem_append.mp member with here | later
      · rw [Kcp.taken, List.mem_ite_nil_right] at here
        have noted := inputTaken_subset _ _ here.2
        rw [setup, whole datagram List.mem_cons_self] at noted
        exact ⟨datagram, List.mem_cons_self, noted⟩
      · obtain ⟨other, inRest, noted⟩ := ih (kcp.receive locals datagram).1
          (kcp.receive locals datagram).2 ((receive_conv kcp locals datagram).2.trans setup)
          (fun other inRest => whole other (List.mem_cons_of_mem datagram inRest)) later
        exact ⟨other, List.mem_cons_of_mem datagram inRest, noted⟩

/-- A data segment with this `sn` was sent, at this time. -/
def Endpoint.Pushed (conv : UInt32) (endpoint : Endpoint) (label : UInt32 × UInt32) : Prop :=
  ∃ bytes ∈ endpoint.emitted, label ∈ labelsIn ikcpCmdPush conv bytes

theorem Endpoint.Pushed.mono {conv : UInt32} {endpoint later : Endpoint}
    {label : UInt32 × UInt32} (pushed : endpoint.Pushed conv label)
    (grows : endpoint.emitted ⊆ later.emitted) : later.Pushed conv label := by
  obtain ⟨bytes, member, told⟩ := pushed
  exact ⟨bytes, grows member, told⟩

/-- What an endpoint has noted or acknowledged its peer has sent, and what it has
sent itself it has sent in a call at that time. -/
structure Echoes (mine theirs : KcpAttr) (me peer : Endpoint) (clocks : List UInt32) : Prop where
  noted : ∀ ack ∈ me.handle.acklist, peer.Pushed theirs.conv ack
  acked : ∀ bytes ∈ me.emitted, ∀ label ∈ labelsIn ikcpCmdAck mine.conv bytes,
    peer.Pushed theirs.conv label
  timed : ∀ label, me.Pushed mine.conv label → label.2 ∈ clocks

section Echoes

variable {mine theirs : KcpAttr} {me peer : Endpoint} {clocks : List UInt32}

theorem Echoes.peerGrows {later : Endpoint} (echoes : Echoes mine theirs me peer clocks)
    (grows : peer.emitted ⊆ later.emitted) : Echoes mine theirs me later clocks :=
  ⟨fun ack member => (echoes.noted ack member).mono grows,
    fun bytes member label told => (echoes.acked bytes member label told).mono grows, echoes.timed⟩

theorem Echoes.later (echoes : Echoes mine theirs me peer clocks) (now : UInt32) :
    Echoes mine theirs me peer (clocks ++ [now]) :=
  ⟨echoes.noted, echoes.acked, fun label pushed =>
    List.mem_append_left _ (echoes.timed label pushed)⟩

theorem flushSegs_pushes {kcp : Kcp} {now : UInt32} {label : UInt32 × UInt32}
    (member : label ∈ labels ikcpCmdPush (kcp.flushSegs now)) : label.2 = now := by
  rw [Kcp.flushSegs] at member
  cases flushes : dueFlush (sendQueue kcp.mSendBufQueue kcp.mKcpHandle).1 now with
  | none =>
      rw [flushes] at member
      contradiction
  | some due =>
      rw [flushes] at member
      obtain ⟨running, current⟩ := dueFlush_runs flushes
      exact (chosenSegs_pushes running member).trans current

theorem Echoes.outputRoutine (paced : Paced mine theirs me)
    (echoes : Echoes mine theirs me peer clocks) (now : UInt32) :
    Echoes mine theirs (me.outputRoutine now) peer (clocks ++ [now]) := by
  have acks := outputRoutine_acks paced.sending now
  obtain ⟨groups, output, all, readable⟩ := paced.sending.datagrams now
  refine ⟨fun ack member => ?_, fun bytes member label told => ?_, fun label pushed => ?_⟩
  · apply echoes.noted
    change ack ∈ (me.kcp.outputRoutine now).1.mKcpHandle.acklist at member
    change ack ∈ me.kcp.mKcpHandle.acklist
    rw [← acks]
    exact List.mem_append_right _ member
  · rcases List.mem_append.mp member with old | new
    · exact echoes.acked bytes old label told
    · apply echoes.noted
      change label ∈ me.kcp.mKcpHandle.acklist
      rw [← acks]
      exact List.mem_append_left _ (List.mem_flatMap.mpr ⟨bytes, new, told⟩)
  · obtain ⟨bytes, member, told⟩ := pushed
    rcases List.mem_append.mp member with old | new
    · exact List.mem_append_left _ (echoes.timed label ⟨bytes, old, told⟩)
    · rw [output] at new
      obtain ⟨group, inGroups, built⟩ := List.mem_map.mp new
      rw [← built, labelsIn_group (readable group inGroups).1] at told
      have sent : label ∈ labels ikcpCmdPush (me.kcp.flushSegs now) := by
        rw [← all, labels_flatten]
        exact List.mem_flatMap.mpr ⟨group, inGroups, told⟩
      rw [flushSegs_pushes sent]
      exact List.mem_append_right _ (List.mem_singleton_self now)

theorem Echoes.inputRoutine (paced : Paced mine theirs me) (sameConv : theirs.conv = mine.conv)
    (pacedPeer : Paced theirs mine peer) (echoes : Echoes mine theirs me peer clocks)
    {batch : List Datagram} (received : ∀ datagram ∈ batch, datagram.bytes ∈ peer.emitted) :
    Echoes mine theirs (me.inputRoutine batch) peer clocks := by
  refine ⟨fun ack member => ?_, echoes.acked, echoes.timed⟩
  change ack ∈ (me.kcp.inputRoutine batch).1.mKcpHandle.acklist at member
  rw [inputRoutine_taken_all] at member
  rcases List.mem_append.mp member with old | new
  · exact echoes.noted ack old
  · have whole : ∀ datagram ∈ batch, datagram.received = datagram.bytes := by
      intro datagram inBatch
      obtain ⟨group, built, roundTrips, _⟩ := pacedPeer.announced _ (received datagram inBatch)
      rw [Datagram.received, built]
      exact roundTrips.whole
    have setup : me.kcp.mKcpHandle.conv = theirs.conv :=
      (congrArg Setup.conv paced.sending.ready.setup).trans sameConv.symm
    obtain ⟨datagram, inBatch, told⟩ := takenLoop_subset me.kcp {} batch setup whole new
    exact ⟨datagram.bytes, received datagram inBatch, told⟩

end Echoes

/-- The clock values at which a side called `outputRoutine`. -/
def clockOf (side : Side) : SessionEvent → List UInt32
  | .outputRoutine other now => if side = other then [now] else []
  | .send _ _ => []
  | .inputRoutine _ _ => []

def clocksOf (side : Side) (events : List SessionEvent) : List UInt32 :=
  events.flatMap (clockOf side)

theorem clocksOf_snoc (side : Side) (events : List SessionEvent) (event : SessionEvent) :
    clocksOf side (events ++ [event]) = clocksOf side events ++ clockOf side event := by
  rw [clocksOf, List.flatMap_append, List.flatMap_singleton]
  rfl

theorem mem_clocksOf {side : Side} {events : List SessionEvent} {now : UInt32}
    (member : now ∈ clocksOf side events) : SessionEvent.outputRoutine side now ∈ events := by
  obtain ⟨event, inEvents, here⟩ := List.mem_flatMap.mp member
  cases event with
  | send other buffer => contradiction
  | inputRoutine other batch => contradiction
  | outputRoutine other clock =>
      rw [clockOf, List.mem_ite_nil_right, List.mem_singleton] at here
      rw [here.1, here.2]
      exact inEvents

theorem echoes_update {attr : Side → KcpAttr} {session : Session} {clocks : Side → List UInt32}
    {side : Side} {later : Endpoint} {more : List UInt32}
    (echoes : ∀ other, Echoes (attr other) (attr other.peer) (session other) (session other.peer)
      (clocks other))
    (mine : Echoes (attr side) (attr side.peer) later (session side.peer) (clocks side ++ more))
    (grows : (session side).emitted ⊆ later.emitted) (other : Side) :
    Echoes (attr other) (attr other.peer) (Function.update session side later other)
      (Function.update session side later other.peer)
      (clocks other ++ if other = side then more else []) := by
  rcases side.eq_or_eq_peer other with here | there
  · rw [here, if_pos rfl, Function.update_self, Function.update_of_ne side.peer_ne]
    exact mine
  · have theirs := echoes side.peer
    rw [Side.peer_peer] at theirs
    rw [there, if_neg side.peer_ne, List.append_nil, Side.peer_peer,
      Function.update_of_ne side.peer_ne, Function.update_self]
    exact theirs.peerGrows grows

theorem echoes_run {attr : Side → KcpAttr} {events : List SessionEvent} {last : Session}
    (sameConv : (attr .a).conv = (attr .b).conv)
    (run : Run Session.step anyStep (Session.start attr) events last) (side : Side) :
    Echoes (attr side) (attr side.peer) (last side) (last side.peer) (clocksOf side events) := by
  induction run generalizing side with
  | nil =>
      refine ⟨fun ack member => ?_, fun bytes member => ?_, fun label pushed => ?_⟩
      · rw [show (Session.start attr side).handle.acklist = [] from
          (init_traffic (attr side)).2.2.2] at member
        exact absurd member List.not_mem_nil
      · exact absurd member List.not_mem_nil
      · obtain ⟨bytes, member, _⟩ := pushed
        exact absurd member List.not_mem_nil
  | @snoc events event before after earlier _ stepped ih =>
      have paced := Session.paced_run sameConv earlier
      have convs : ∀ other : Side, (attr other.peer).conv = (attr other).conv := by
        intro other
        cases other with
        | a => exact sameConv.symm
        | b => exact sameConv
      rw [clocksOf_snoc]
      cases event with
      | send other buffer =>
          have mine : Echoes (attr other) (attr other.peer) ((before other).send buffer)
              (before other.peer) (clocksOf other events ++ []) := by
            rw [List.append_nil]
            exact ⟨(ih other).noted, (ih other).acked, (ih other).timed⟩
          have updated := echoes_update ih mine (fun _ member => member) side
          rw [ite_self] at updated
          rw [← Option.some.inj stepped]
          exact updated
      | outputRoutine other now =>
          have mine := (ih other).outputRoutine (paced other) now
          have updated := echoes_update ih mine (List.subset_append_left _ _) side
          rw [← Option.some.inj stepped]
          exact updated
      | inputRoutine other batch =>
          rw [Session.step] at stepped
          split at stepped
          · rename_i received
            have pacedPeer := paced other.peer
            rw [Side.peer_peer] at pacedPeer
            have mine : Echoes (attr other) (attr other.peer) ((before other).inputRoutine batch)
                (before other.peer) (clocksOf other events ++ []) := by
              rw [List.append_nil]
              exact (ih other).inputRoutine (paced other) (convs other) pacedPeer received
            have updated := echoes_update ih mine (fun _ member => member) side
            rw [ite_self] at updated
            rw [← Option.some.inj stepped]
            exact updated
          · contradiction

/-- Whatever the network does, an acknowledgement tells the `sn` and the `ts` of
a data segment its peer really sent, in a call of `outputRoutine` at that time:
the round trip measured from it is the time since one transmission of the very
segment. -/
theorem acks_echo_pushes {attr : Side → KcpAttr} {events : List SessionEvent} {last : Session}
    (sameConv : (attr .a).conv = (attr .b).conv)
    (run : Run Session.step anyStep (Session.start attr) events last) (side : Side) :
    ∀ bytes ∈ (last side).emitted, ∀ label ∈ labelsIn ikcpCmdAck (attr side).conv bytes,
      (∃ sent ∈ (last side.peer).emitted,
        label ∈ labelsIn ikcpCmdPush (attr side.peer).conv sent) ∧
      SessionEvent.outputRoutine side.peer label.2 ∈ events := by
  intro bytes member label told
  have pushed := (echoes_run sameConv run side).acked bytes member label told
  exact ⟨pushed, mem_clocksOf ((echoes_run sameConv run side.peer).timed label pushed)⟩

/-- The segment was sent at 5 and at 300; the second transmission is answered. -/
theorem acks_echo_pushes_resent :
    ∃ last, Run Session.step anyStep (Session.start fun _ => { conv := 7 })
        [.send .a [1], .outputRoutine .a 5, .outputRoutine .a 300,
          .inputRoutine .b [⟨[7, 0, 0, 0, 81, 0, 0, 2, 44, 1, 0, 0, 0, 0, 0, 0, 0, 0, 0, 0, 1, 0, 0, 0,
            1], {}⟩], .outputRoutine .b 400] last ∧
      ∀ bytes ∈ (last .b).emitted, labelsIn ikcpCmdAck 7 bytes = [(0, 300)] ∧
        SessionEvent.outputRoutine .a 300 ∈ [.send .a [1], .outputRoutine .a 5,
          .outputRoutine .a 300, .inputRoutine .b [⟨[7, 0, 0, 0, 81, 0, 0, 2, 44, 1, 0, 0, 0, 0, 0, 0, 0,
            0, 0, 0, 1, 0, 0, 0, 1], {}⟩], .outputRoutine .b 400] := by
  apply Run.exists_shown fun last => ∀ bytes ∈ (last .b).emitted,
    labelsIn ikcpCmdAck 7 bytes = [(0, 300)]
  · decide +kernel
  · intro last run shown bytes member
    have told := shown bytes member
    refine ⟨told, ?_⟩
    apply (acks_echo_pushes rfl run .b bytes member (0, 300) _).2
    change (0, 300) ∈ labelsIn ikcpCmdAck 7 bytes
    rw [told]
    exact List.mem_singleton_self _

end FiberKcp
