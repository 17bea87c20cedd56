import FiberKcp.Session.Retransmission

namespace FiberKcp

open Data Ikcp

/-! What an arriving datagram makes an endpoint owe its peer, and what an answer
does to the one that waits for it. -/

namespace Ikcp

theorem Owes.of_same {kcp after : Ikcpcb} (acks : after.acklist = kcp.acklist)
    (probe : after.probe = kcp.probe) (owes : Owes kcp) : Owes after := by
  rw [Owes, acks, probe]
  exact owes

theorem moveAvailable_owed (buffer : List IkcpSeg) (kcp : Ikcpcb) :
    (moveAvailable buffer kcp).acklist = kcp.acklist ∧
      (moveAvailable buffer kcp).probe = kcp.probe := by
  obtain ⟨_, _, _, _, _, result⟩ := moveAvailable_spec buffer kcp
  rw [result]
  exact ⟨rfl, rfl⟩

theorem ikcpParseData_owed (kcp : Ikcpcb) (newseg : IkcpSeg) :
    (ikcpParseData kcp newseg).acklist = kcp.acklist ∧
      (ikcpParseData kcp newseg).probe = kcp.probe := by
  rw [ikcpParseData]
  split
  · exact ⟨rfl, rfl⟩
  · exact moveAvailable_owed _ kcp

/-- What one segment adds to the answers owed. -/
inductive Owing (kcp : Ikcpcb) (header : SegmentHeader) (after : Ikcpcb) : Prop where
  | acked : header.cmd.toUInt32 = ikcpCmdPush →
      itimediff header.sn (kcp.rcv_nxt + kcp.rcv_wnd) < 0 →
      after.acklist = kcp.acklist ++ [(header.sn, header.ts)] → after.probe = kcp.probe →
      Owing kcp header after
  | asked : header.cmd.toUInt32 = ikcpCmdWask → after.acklist = kcp.acklist →
      after.probe = kcp.probe ||| ikcpAskTell → Owing kcp header after
  | nothing : header.cmd.toUInt32 ≠ ikcpCmdWask →
      (header.cmd.toUInt32 = ikcpCmdPush →
        ¬ itimediff header.sn (kcp.rcv_nxt + kcp.rcv_wnd) < 0) →
      after.acklist = kcp.acklist → after.probe = kcp.probe → Owing kcp header after

theorem applySegment_owing (kcp : Ikcpcb) (scan : AckScan) (header : SegmentHeader)
    (payload : List UInt8) : Owing kcp header (applySegment kcp scan header payload).1 := by
  let noted : Ikcpcb := { kcp with rmt_wnd := header.wnd.toUInt32 }
  have shrunk : ∀ kcp, (ikcpShrinkBuf kcp).acklist = kcp.acklist ∧
      (ikcpShrinkBuf kcp).probe = kcp.probe ∧ (ikcpShrinkBuf kcp).rcv_nxt = kcp.rcv_nxt ∧
      (ikcpShrinkBuf kcp).rcv_wnd = kcp.rcv_wnd := by
    intro kcp
    rw [ikcpShrinkBuf]
    split <;> exact ⟨rfl, rfl, rfl, rfl⟩
  have parsed : ∀ kcp, (ikcpParseAck kcp header.sn).acklist = kcp.acklist ∧
      (ikcpParseAck kcp header.sn).probe = kcp.probe := by
    intro kcp
    rw [ikcpParseAck]
    split <;> exact ⟨rfl, rfl⟩
  have timed : ∀ kcp rtt, (ikcpUpdateAck kcp rtt).acklist = kcp.acklist ∧
      (ikcpUpdateAck kcp rtt).probe = kcp.probe := by
    intro kcp rtt
    rw [ikcpUpdateAck]
    dsimp only
    split <;> exact ⟨rfl, rfl⟩
  obtain ⟨acks, probe, next, window⟩ :
      (ikcpShrinkBuf (ikcpParseUna noted header.una)).acklist = kcp.acklist ∧
      (ikcpShrinkBuf (ikcpParseUna noted header.una)).probe = kcp.probe ∧
      (ikcpShrinkBuf (ikcpParseUna noted header.una)).rcv_nxt = kcp.rcv_nxt ∧
      (ikcpShrinkBuf (ikcpParseUna noted header.una)).rcv_wnd = kcp.rcv_wnd := shrunk _
  rw [applySegment]
  generalize ikcpShrinkBuf (ikcpParseUna noted header.una) = opened at *
  dsimp only
  split
  · rename_i isAck
    have notAsk : header.cmd.toUInt32 ≠ ikcpCmdWask := by
      rw [isAck]
      decide
    have notPush : header.cmd.toUInt32 ≠ ikcpCmdPush := by
      rw [isAck]
      decide
    have measured : (if itimediff opened.current header.ts ≥ 0 then
        ikcpUpdateAck opened (opened.current - header.ts).toInt32 else opened).acklist =
          kcp.acklist ∧ (if itimediff opened.current header.ts ≥ 0 then
        ikcpUpdateAck opened (opened.current - header.ts).toInt32 else opened).probe =
          kcp.probe := by
      split
      · exact ⟨(timed _ _).1.trans acks, (timed _ _).2.trans probe⟩
      · exact ⟨acks, probe⟩
    exact .nothing notAsk (fun isPush => absurd isPush notPush)
      ((shrunk _).1.trans ((parsed _).1.trans measured.1))
      ((shrunk _).2.1.trans ((parsed _).2.trans measured.2))
  · split
    · rename_i isPush
      have notAsk : header.cmd.toUInt32 ≠ ikcpCmdWask := by
        rw [isPush]
        decide
      split
      · rename_i inWindow
        rw [next, window] at inWindow
        have pushed : (ikcpAckPush opened header.sn header.ts).acklist =
            kcp.acklist ++ [(header.sn, header.ts)] := congrArg (· ++ _) acks
        split
        · obtain ⟨sameAcks, sameProbe⟩ := ikcpParseData_owed
            (ikcpAckPush opened header.sn header.ts) (arrivedSeg header payload)
          exact .acked isPush inWindow (sameAcks.trans pushed) (sameProbe.trans probe)
        · exact .acked isPush inWindow pushed probe
      · rename_i beyond
        rw [next, window] at beyond
        exact .nothing notAsk (fun _ => beyond) acks probe
    · rename_i notPush
      split
      · rename_i isAsk
        exact .asked isAsk acks (congrArg (· ||| ikcpAskTell) probe)
      · rename_i notAsk
        exact .nothing notAsk (fun isPush => absurd isPush notPush) acks probe

theorem Owing.acklist {kcp after : Ikcpcb} {header : SegmentHeader}
    (owing : Owing kcp header after) : kcp.acklist <+: after.acklist := by
  cases owing with
  | acked _ _ acks _ => exact acks ▸ List.prefix_append _ _
  | asked _ acks _ => exact acks ▸ List.prefix_rfl
  | nothing _ _ acks _ => exact acks ▸ List.prefix_rfl

theorem Owing.owes {kcp after : Ikcpcb} {header : SegmentHeader} (owing : Owing kcp header after)
    (owes : Owes kcp) : Owes after := by
  cases owing with
  | acked _ _ acks _ =>
      left
      rw [acks]
      exact List.append_ne_nil_of_right_ne_nil _ (List.cons_ne_nil _ _)
  | asked _ _ probe =>
      right
      rw [probe]
      exact flag_of_or kcp.probe (by decide)
  | nothing _ _ acks probe => exact owes.of_same acks probe

theorem Owing.ask {kcp after : Ikcpcb} {header : SegmentHeader} (owing : Owing kcp header after)
    (asks : header.cmd.toUInt32 = ikcpCmdWask) : Owes after := by
  cases owing with
  | acked isPush _ _ _ =>
      rw [asks] at isPush
      exact absurd isPush (by decide)
  | asked _ _ probe =>
      right
      rw [probe]
      exact flag_of_or kcp.probe (by decide)
  | nothing notAsk _ _ _ => exact absurd asks notAsk

theorem Owing.push {kcp after : Ikcpcb} {header : SegmentHeader} (owing : Owing kcp header after)
    (pushes : header.cmd.toUInt32 = ikcpCmdPush)
    (inWindow : itimediff header.sn (kcp.rcv_nxt + kcp.rcv_wnd) < 0) :
    (header.sn, header.ts) ∈ after.acklist := by
  cases owing with
  | acked _ _ acks _ =>
      rw [acks]
      exact List.mem_append_right _ (List.mem_singleton_self _)
  | asked isAsk _ _ =>
      rw [pushes] at isAsk
      exact absurd isAsk (by decide)
  | nothing _ refused _ _ => exact absurd inWindow (refused pushes)

theorem ikcpInput_owed {kcp : Ikcpcb} {data : List UInt8} (enough : ikcpOverhead ≤ data.length)
    (accepted : (inputLoop data.length kcp {} data).2.2 = 0) :
    (ikcpInput kcp data).1.acklist = (inputLoop data.length kcp {} data).1.acklist ∧
      (ikcpInput kcp data).1.probe = (inputLoop data.length kcp {} data).1.probe := by
  have fastack : ∀ (kcp : Ikcpcb) sn, (ikcpParseFastack kcp sn).acklist = kcp.acklist ∧
      (ikcpParseFastack kcp sn).probe = kcp.probe := by
    intro kcp sn
    rw [ikcpParseFastack]
    split <;> exact ⟨rfl, rfl⟩
  have grown : ∀ kcp, (growCwnd kcp).acklist = kcp.acklist ∧ (growCwnd kcp).probe = kcp.probe := by
    intro kcp
    unfold growCwnd
    extract_lets mss incr advanced larger
    have same : larger.acklist = kcp.acklist ∧ larger.probe = kcp.probe := by
      unfold larger
      split <;> exact ⟨rfl, rfl⟩
    split
    · split <;> exact same
    · exact ⟨rfl, rfl⟩
  rw [ikcpInput, if_neg (Nat.not_lt.mpr enough)]
  dsimp only
  rw [if_neg (not_not_intro accepted)]
  generalize inputLoop data.length kcp {} data = result
  let counted := if result.2.1.flag = true then ikcpParseFastack result.1 result.2.1.maxack
    else result.1
  have same : counted.acklist = result.1.acklist ∧ counted.probe = result.1.probe := by
    unfold counted
    split
    · exact fastack _ _
    · exact ⟨rfl, rfl⟩
  change (if itimediff counted.snd_una kcp.snd_una > 0 then growCwnd counted
      else counted).acklist = _ ∧ (if itimediff counted.snd_una kcp.snd_una > 0 then
      growCwnd counted else counted).probe = _
  split
  · exact ⟨(grown counted).1.trans same.1, (grown counted).2.trans same.2⟩
  · exact same

theorem ikcpRecv_owes (kcp : Ikcpcb) (len : Int) (owes : Owes kcp) :
    Owes (ikcpRecv kcp len).1 := by
  rw [ikcpRecv]
  dsimp only
  split
  · exact owes
  · split
    · exact owes
    · split
      · exact owes
      · let taken : Ikcpcb := if len < 0 then kcp else { kcp with
          rcv_queue := (mergeFragment kcp.rcv_queue).2.1
          nrcv_que := kcp.nrcv_que - (mergeFragment kcp.rcv_queue).2.2 }
        have same : Owes taken := by
          unfold taken
          split
          · exact owes
          · exact owes
        obtain ⟨acks, probe⟩ := moveAvailable_owed taken.rcv_buf taken
        have moved : Owes (moveAvailable taken.rcv_buf taken) := same.of_same acks probe
        have told : ∀ (moved : Ikcpcb) (recover : Prop) [Decidable recover], Owes moved →
            Owes (if moved.nrcv_que < moved.rcv_wnd ∧ recover then
              { moved with probe := moved.probe ||| ikcpAskTell } else moved) := by
          intro moved recover _ before
          split
          · exact .inr (flag_of_or moved.probe (by decide))
          · exact before
        exact told _ _ moved

theorem ikcpRecv_acklist (kcp : Ikcpcb) (len : Int) :
    (ikcpRecv kcp len).1.acklist = kcp.acklist := by
  rw [ikcpRecv]
  dsimp only
  split
  · rfl
  · split
    · rfl
    · split
      · rfl
      · let taken : Ikcpcb := if len < 0 then kcp else { kcp with
          rcv_queue := (mergeFragment kcp.rcv_queue).2.1
          nrcv_que := kcp.nrcv_que - (mergeFragment kcp.rcv_queue).2.2 }
        have same : taken.acklist = kcp.acklist := by
          unfold taken
          split <;> rfl
        have moved := (moveAvailable_owed taken.rcv_buf taken).1.trans same
        have told : ∀ (moved : Ikcpcb) (recover : Prop) [Decidable recover],
            (if moved.nrcv_que < moved.rcv_wnd ∧ recover then
              { moved with probe := moved.probe ||| ikcpAskTell } else moved).acklist =
                moved.acklist := by
          intro moved recover _
          split <;> rfl
        exact (told _ _).trans moved

end Ikcp

theorem deliver_acklist (kcp : Kcp) (locals : InputLocals) :
    (kcp.deliver locals).1.mKcpHandle.acklist = kcp.mKcpHandle.acklist := by
  have received := ikcpRecv_acklist kcp.mKcpHandle (ikcpPeeksize kcp.mKcpHandle)
  rw [Kcp.deliver]
  dsimp only
  split
  · split <;> exact received
  · rfl

theorem deliver_owes {kcp : Kcp} (locals : InputLocals) (owes : Owes kcp.mKcpHandle) :
    Owes (kcp.deliver locals).1.mKcpHandle := by
  have received := ikcpRecv_owes kcp.mKcpHandle (ikcpPeeksize kcp.mKcpHandle) owes
  rw [Kcp.deliver]
  dsimp only
  split
  · split <;> exact received
  · exact owes

theorem deliver_conv (kcp : Kcp) (locals : InputLocals) :
    (kcp.deliver locals).1.mAttr.conv = kcp.mAttr.conv := by
  rw [Kcp.deliver]
  dsimp only
  split
  · split <;> rfl
  · rfl

theorem receiveAll_conv (kcp : Kcp) (locals : InputLocals) (batch : List Datagram) :
    (kcp.receiveAll locals batch).1.mAttr.conv = kcp.mAttr.conv := by
  induction batch generalizing kcp locals with
  | nil => rfl
  | cons datagram rest ih =>
      rw [Kcp.receiveAll_cons]
      exact (ih _ _).trans (receive_conv kcp locals datagram).1

theorem perform_conv {kcp after : Kcp} {call : KcpCall}
    (performed : kcp.perform call = some after) : after.mAttr.conv = kcp.mAttr.conv := by
  cases call with
  | send buffer =>
      cases performed
      rfl
  | outputRoutine now =>
      cases performed
      rfl
  | inputRoutine batch =>
      cases performed
      exact (deliver_conv _ _).trans (receiveAll_conv kcp {} batch)

theorem reached_conv {attr : KcpAttr} {calls : List KcpCall} {kcp : Kcp}
    (run : Run Kcp.perform anyStep (Kcp.init attr) calls kcp) : kcp.mAttr.conv = attr.conv := by
  apply run.invariant (fun kcp => kcp.mAttr.conv = attr.conv) rfl
  intro before after call same _ performed
  exact (perform_conv performed).trans same

section Group

variable {conv : UInt32} {group : List IkcpSeg}

/-- The datagram with these segments, from some address. -/
def datagramOf (group : List IkcpSeg) : Datagram := ⟨groupBytes group, {}⟩

theorem receiveAll_group {kcp : Kcp} (roundTrips : RoundTrips conv group)
    (attr : kcp.mAttr.conv = conv) :
    (kcp.receiveAll {} [datagramOf group]).1.mKcpHandle =
      (ikcpInput kcp.mKcpHandle (groupBytes group)).1 := by
  have received : (datagramOf group).received = groupBytes group := roundTrips.whole
  have enough : 4 ≤ (datagramOf group).received.length := by
    rw [received]
    exact Nat.le_trans (by decide) roundTrips.size.1
  have starts : word32 (fillBuf ({} : InputLocals).buf (datagramOf group)) = kcp.mAttr.conv := by
    rw [word32_fillBuf enough, received, roundTrips.start, attr]
  rw [Kcp.receiveAll_cons, receive_eq, if_pos starts, received]
  rfl

/-- What a datagram leaves behind when complete messages are delivered after it. -/
structure Taken (bytes : List UInt8) (kcp after : Ikcpcb) : Prop where
  acklist : after.acklist = (ikcpInput kcp bytes).1.acklist
  owes : Owes (ikcpInput kcp bytes).1 → Owes after
  flight : after.flight = (ikcpInput kcp bytes).1.flight

theorem inputRoutine_taken {kcp : Kcp} (roundTrips : RoundTrips conv group)
    (attr : kcp.mAttr.conv = conv) :
    Taken (groupBytes group) kcp.mKcpHandle
      (kcp.inputRoutine [datagramOf group]).1.mKcpHandle := by
  have received := receiveAll_group roundTrips attr
  rw [Kcp.inputRoutine]
  generalize kcp.receiveAll {} [datagramOf group] = result at *
  constructor
  · rw [← received]
    exact deliver_acklist result.1 result.2
  · rw [← received]
    exact deliver_owes result.2
  · rw [← received]
    exact deliver_flight result.1 result.2

/-- The answer of a peer that has everything in order: nothing is in flight any
more, and the room is known. -/
theorem ikcpInput_answered {kcp : Ikcpcb} {una wnd : UInt32} (roundTrips : RoundTrips conv group)
    (setup : kcp.conv = conv) (stamped : ∀ seg ∈ group, seg.una = una ∧ seg.wnd = wnd)
    (passed : ∀ seg ∈ kcp.snd_buf, itimediff una seg.sn > 0) :
    (ikcpInput kcp (groupBytes group)).1.snd_buf = [] ∧
      (ikcpInput kcp (groupBytes group)).1.rmt_wnd = wnd := by
  obtain ⟨_, decoded, faithful, _, applied, _⟩ := roundTrips.read kcp setup
  have told : ∀ seg ∈ decoded, seg.1.una = una ∧ seg.1.wnd.toUInt32 = wnd := by
    intro seg member
    obtain ⟨sent, inGroup, decodes⟩ := sent_of_decoded faithful member
    obtain ⟨sameUna, sameWnd⟩ := stamped sent inGroup
    exact ⟨decodes.una.trans sameUna, decodes.wnd.trans sameWnd⟩
  have nothing : ∀ kcp scan header payload, kcp.snd_buf = [] →
      (applySegment kcp scan header payload).1.snd_buf = [] := by
    intro kcp scan header payload empty
    apply List.eq_nil_iff_forall_not_mem.mpr
    intro seg member
    obtain ⟨original, held, _⟩ := (applySegment_trimmed kcp scan header payload).held seg member
    rw [empty] at held
    exact List.not_mem_nil held
  have after : (applyAll decoded (kcp, {})).1.snd_buf = [] ∧
      (applyAll decoded (kcp, {})).1.rmt_wnd = wnd := by
    cases decoded with
    | nil =>
        cases faithful
        have size := roundTrips.size.1
        exact absurd size (by decide)
    | cons first rest =>
        obtain ⟨sameUna, sameWnd⟩ := told first List.mem_cons_self
        rw [applyAll_cons]
        apply applyAll_preserves (fun after => after.snd_buf = [] ∧ after.rmt_wnd = wnd)
        · intro held scan seg member before
          refine ⟨nothing held scan seg.1 seg.2 before.1, ?_⟩
          rw [applySegment_rmt_wnd]
          exact (told seg (List.mem_cons_of_mem first member)).2
        · have dropped : kcp.snd_buf.dropWhile
              (fun seg => decide (itimediff first.1.una seg.sn > 0)) = [] := by
            apply List.dropWhile_eq_nil_iff.mpr
            intro seg member
            rw [sameUna]
            exact decide_eq_true (passed seg member)
          -- `una` is parsed first, so it may as well have been parsed before
          have twice : applySegment (ikcpParseUna kcp first.1.una) {} first.1 first.2 =
              applySegment kcp {} first.1 first.2 := by
            simp only [applySegment, ikcpParseUna, dropped, List.dropWhile_nil]
          have cleared := nothing (ikcpParseUna kcp first.1.una) {} first.1 first.2 dropped
          rw [twice] at cleared
          exact ⟨cleared, (applySegment_rmt_wnd _ _ _ _).trans sameWnd⟩
  have same := ikcpInput_flight kcp roundTrips.size.1
  rw [applied] at same
  refine ⟨?_, (congrArg Flight.rmt_wnd same).trans after.2⟩
  have serials : (ikcpInput kcp (groupBytes group)).1.snd_buf.map IkcpSeg.sn = [] := by
    rw [show (ikcpInput kcp (groupBytes group)).1.snd_buf.map IkcpSeg.sn = _ from
      congrArg Flight.serials same]
    change (applyAll decoded (kcp, {})).1.snd_buf.map IkcpSeg.sn = []
    rw [after.1]
    rfl
  exact List.map_eq_nil_iff.mp serials

end Group

section Genuine

variable {conv : UInt32} {peer : Progress} {taken : List Payload} {start kcp : Ikcpcb}

/-- What was fed before may be taken for the start. -/
theorem Fed.restart (fed : Fed peer taken start kcp) : Fed peer taken kcp kcp :=
  ⟨rfl, fed.counted, .refl _ _, fed.receiving, .refl _, fed.owed⟩

def decodedOf (seg : IkcpSeg) : DecodedSeg := (headerOf seg, seg.data)

theorem applyAll_acklist (segs : List DecodedSeg) (state : Ikcpcb × AckScan) :
    state.1.acklist <+: (applyAll segs state).1.acklist := by
  induction segs generalizing state with
  | nil => exact List.prefix_rfl
  | cons seg rest ih =>
      rw [applyAll_cons]
      exact (applySegment_owing state.1 state.2 seg.1 seg.2).acklist.trans (ih _)

/-- Number `sn` or a later one is awaited, and it is not long past. -/
structure Awaits (sent : Nat) (kcp : Ikcpcb) (sn : UInt32) : Prop where
  narrow : kcp.rcv_wnd.toNat < 2 ^ 16
  room : kcp.rcv_wnd ≠ 0
  awaited : sn.toNat ≤ kcp.rcv_nxt.toNat
  recent : sent ≤ sn.toNat + 2 ^ 16

theorem Awaits.inWindow {sent : Nat} {sn : UInt32} (awaits : Awaits sent kcp sn)
    (within : kcp.rcv_nxt.toNat ≤ sent) (few : sent < 2 ^ 31) :
    itimediff sn (kcp.rcv_nxt + kcp.rcv_wnd) < 0 := by
  have narrow := awaits.narrow
  have awaited := awaits.awaited
  have recent := awaits.recent
  have room : kcp.rcv_wnd.toNat ≠ 0 := fun zero => awaits.room (UInt32.toNat_inj.mp zero)
  have total : (kcp.rcv_nxt + kcp.rcv_wnd).toNat = kcp.rcv_nxt.toNat + kcp.rcv_wnd.toNat := by
    rw [UInt32.toNat_add]
    omega
  rw [itimediff_eq (by omega) (by omega), total]
  omega

/-- A data segment that is awaited or known is acknowledged. -/
theorem applyAll_acks (sound : peer.Sound) {segs : List IkcpSeg} {seg : IkcpSeg}
    (fed : Fed peer taken kcp kcp) (mine : ∀ seg ∈ kcp.snd_buf, seg.sn.toNat < 2 ^ 31)
    (good : ∀ seg ∈ segs, Genuine conv peer seg) (member : seg ∈ segs)
    (isPush : seg.cmd = ikcpCmdPush) (awaits : Awaits peer.sent kcp seg.sn) (scan : AckScan) :
    (seg.sn, seg.ts) ∈ (applyAll (segs.map decodedOf) (kcp, scan)).1.acklist := by
  induction segs generalizing kcp scan with
  | nil => contradiction
  | cons first rest ih =>
      have genuine := good first List.mem_cons_self
      have owing := applySegment_owing kcp scan (headerOf first) first.data
      rw [List.map_cons, applyAll_cons]
      rcases List.mem_cons.mp member with here | later
      · have pushes : (headerOf first).cmd.toUInt32 = ikcpCmdPush :=
          (toUInt8_cmd genuine).trans (here ▸ isPush)
        have acked := owing.push pushes
          (here ▸ awaits.inWindow fed.receiving.within sound.few)
        rw [here]
        exact (applyAll_acklist _ _).subset acked
      · have next := fed.segment sound mine genuine scan
        have window := (applySegment_trimmed kcp scan (headerOf first) first.data).window
        apply ih next.restart _ (fun other inRest => good other (List.mem_cons_of_mem first inRest))
          later
        · exact ⟨window ▸ awaits.narrow, window ▸ awaits.room,
            Nat.le_trans awaits.awaited next.keeps.received, awaits.recent⟩
        · intro held inNext
          obtain ⟨original, inBefore, same⟩ := next.released.held held inNext
          rw [same.sn]
          exact mine original inBefore

/-- A question for the window is answered. -/
theorem applyAll_asked {segs : List IkcpSeg} {seg : IkcpSeg}
    (good : ∀ seg ∈ segs, Genuine conv peer seg) (member : seg ∈ segs)
    (isAsk : seg.cmd = ikcpCmdWask) (state : Ikcpcb × AckScan) :
    Owes (applyAll (segs.map decodedOf) state).1 := by
  induction segs generalizing state with
  | nil => contradiction
  | cons first rest ih =>
      have owing := applySegment_owing state.1 state.2 (headerOf first) first.data
      rw [List.map_cons, applyAll_cons]
      rcases List.mem_cons.mp member with here | later
      · have asks : (headerOf first).cmd.toUInt32 = ikcpCmdWask :=
          (toUInt8_cmd (good first List.mem_cons_self)).trans (here ▸ isAsk)
        apply applyAll_preserves Owes _ (owing.ask asks)
        intro before scan decoded _ owes
        exact (applySegment_owing before scan decoded.1 decoded.2).owes owes
      · exact ih (fun other inRest => good other (List.mem_cons_of_mem first inRest)) later _

end Genuine

end FiberKcp
