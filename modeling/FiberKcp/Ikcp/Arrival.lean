import FiberKcp.Ikcp.Sides

namespace FiberKcp.Ikcp

/-! What arriving segments do to the two halves of a control block. -/

/-- The segments carry the serial numbers from `serial` on. -/
def Consecutive : UInt32 → List IkcpSeg → Prop
  | _, [] => True
  | serial, seg :: rest => seg.sn = serial ∧ Consecutive (serial + 1) rest

theorem moveAvailable_spec (buffer : List IkcpSeg) (kcp : Ikcpcb) :
    ∃ moved left, buffer = moved ++ left ∧ Consecutive kcp.rcv_nxt moved ∧
      kcp.nrcv_que.toNat + moved.length ≤ max kcp.nrcv_que.toNat kcp.rcv_wnd.toNat ∧
      moveAvailable buffer kcp = { kcp with
        rcv_queue := kcp.rcv_queue ++ moved
        nrcv_que := kcp.nrcv_que + UInt32.ofNat moved.length
        rcv_nxt := kcp.rcv_nxt + UInt32.ofNat moved.length
        rcv_buf := left } := by
  induction buffer generalizing kcp with
  | nil => exact ⟨[], [], rfl, trivial, Nat.le_max_left _ _, by simp [moveAvailable]⟩
  | cons seg rest ih =>
      unfold moveAvailable
      split
      · rename_i next
        obtain ⟨moved, left, parts, consecutive, room, result⟩ := ih { kcp with
          rcv_queue := kcp.rcv_queue ++ [seg]
          nrcv_que := kcp.nrcv_que + 1
          rcv_nxt := kcp.rcv_nxt + 1 }
        have below : kcp.nrcv_que.toNat < kcp.rcv_wnd.toNat := UInt32.lt_iff_toNat_lt.mp next.2
        have bound := kcp.rcv_wnd.toNat_lt
        have advanced : (kcp.nrcv_que + 1).toNat = kcp.nrcv_que.toNat + 1 := by
          rw [UInt32.toNat_add, UInt32.toNat_one]
          omega
        refine ⟨seg :: moved, left, by simp [parts], ⟨next.1, consecutive⟩, ?_, ?_⟩
        · simp only [advanced] at room
          simp only [List.length_cons]
          omega
        · rw [result]
          simp [UInt32.ofNat_add, UInt32.add_assoc, UInt32.add_comm 1]
      · exact ⟨[], seg :: rest, rfl, trivial, Nat.le_max_left _ _, by simp⟩

theorem insertFromBack_none {newseg : IkcpSeg} {buffer : List IkcpSeg}
    (repeated : insertFromBack newseg buffer = none) : ∃ seg ∈ buffer, seg.sn = newseg.sn := by
  induction buffer with
  | nil => simp [insertFromBack] at repeated
  | cons seg rest ih =>
      unfold insertFromBack at repeated
      split at repeated
      · exact ⟨seg, by simp, by assumption⟩
      · split at repeated
        · contradiction
        · obtain ⟨same, member, equal⟩ := ih (by simpa using repeated)
          exact ⟨same, by simp [member], equal⟩

theorem insertFromBack_some {newseg : IkcpSeg} {buffer inserted : List IkcpSeg}
    (placed : insertFromBack newseg buffer = some inserted) (seg : IkcpSeg) :
    seg ∈ inserted ↔ seg = newseg ∨ seg ∈ buffer := by
  induction buffer generalizing inserted with
  | nil =>
      simp only [insertFromBack, Option.some.injEq] at placed
      simp [← placed]
  | cons head rest ih =>
      unfold insertFromBack at placed
      split at placed
      · contradiction
      · split at placed
        · simp only [Option.some.injEq] at placed
          simp [← placed]
        · obtain ⟨tail, inTail, built⟩ := Option.map_eq_some_iff.mp placed
          rw [← built, List.mem_cons, List.mem_cons, ih inTail, or_left_comm]

/-- Either the segment lies outside the window, or it is in the buffer, new or
already there, when the available segments are moved. -/
theorem ikcpParseData_cases (kcp : Ikcpcb) (newseg : IkcpSeg) :
    ikcpParseData kcp newseg = kcp ∧
        (itimediff newseg.sn (kcp.rcv_nxt + kcp.rcv_wnd) ≥ 0 ∨
          itimediff newseg.sn kcp.rcv_nxt < 0) ∨
      ∃ buffer, ikcpParseData kcp newseg = moveAvailable buffer kcp ∧
        (∀ seg ∈ buffer, seg = newseg ∨ seg ∈ kcp.rcv_buf) ∧
        (∀ seg ∈ kcp.rcv_buf, seg ∈ buffer) ∧ ∃ seg ∈ buffer, seg.sn = newseg.sn := by
  unfold ikcpParseData
  split
  · exact .inl ⟨rfl, by assumption⟩
  · refine .inr ⟨_, rfl, ?_⟩
    cases placed : insertFromBack newseg kcp.rcv_buf.reverse with
    | none =>
        obtain ⟨seg, member, equal⟩ := insertFromBack_none placed
        exact ⟨fun _ => .inr, fun _ => id, seg, by simpa using member, equal⟩
    | some inserted =>
        have members := insertFromBack_some placed
        simp only [List.mem_reverse, members]
        exact ⟨fun _ => id, fun _ => .inr, newseg, .inl rfl, rfl⟩

/-- The segment `ikcp_input` builds from a header and the bytes after it. -/
def arrivedSeg (header : SegmentHeader) (payload : List UInt8) : IkcpSeg where
  conv := header.conv
  cmd := header.cmd.toUInt32
  frg := header.frg.toUInt32
  wnd := header.wnd.toUInt32
  ts := header.ts
  sn := header.sn
  una := header.una
  data := payload

/-- What becomes of a segment once `una` is taken: an acknowledgement, a datum
that is acknowledged and stored, one that is acknowledged because it is older
than the window, or nothing that changes the traffic. -/
inductive Arrival (entered : Ikcpcb) (header : SegmentHeader) (payload : List UInt8) :
    Ikcpcb → Prop where
  | acked {timed after : Ikcpcb} : header.cmd.toUInt32 = ikcpCmdAck → SameTraffic entered timed →
      SameTraffic (ikcpParseAck timed header.sn) after → Arrival entered header payload after
  | stored : header.cmd.toUInt32 = ikcpCmdPush →
      itimediff header.sn (entered.rcv_nxt + entered.rcv_wnd) < 0 →
      itimediff header.sn entered.rcv_nxt ≥ 0 →
      Arrival entered header payload
        (ikcpParseData (ikcpAckPush entered header.sn header.ts) (arrivedSeg header payload))
  | repeated : header.cmd.toUInt32 = ikcpCmdPush → itimediff header.sn entered.rcv_nxt < 0 →
      Arrival entered header payload (ikcpAckPush entered header.sn header.ts)
  | passed {after : Ikcpcb} : SameTraffic entered after → Arrival entered header payload after

theorem applySegment_cases (kcp : Ikcpcb) (scan : AckScan) (header : SegmentHeader)
    (payload : List UInt8) :
    ∃ entered, SameTraffic (ikcpParseUna kcp header.una) entered ∧
      Arrival entered header payload (applySegment kcp scan header payload).1 := by
  let released := ikcpParseUna { kcp with rmt_wnd := header.wnd.toUInt32 } header.una
  let entered := ikcpShrinkBuf released
  have windowed : SameTraffic (ikcpParseUna kcp header.una) released := ⟨rfl, rfl, rfl, rfl⟩
  have same : SameTraffic (ikcpParseUna kcp header.una) entered :=
    windowed.trans (ikcpShrinkBuf_sameTraffic released)
  refine ⟨entered, same, ?_⟩
  unfold applySegment
  dsimp only
  split
  · rename_i ack
    exact .acked ack (.ite (ikcpUpdateAck_sameTraffic entered _) (.refl entered))
      (ikcpShrinkBuf_sameTraffic _)
  · split
    · rename_i push
      split
      · rename_i inWindow
        split
        · rename_i notOlder
          exact .stored push inWindow notOlder
        · rename_i older
          exact .repeated push (Int.not_le.mp older)
      · exact .passed (.refl entered)
    · split
      · exact .passed ⟨rfl, rfl, rfl, rfl⟩
      · exact .passed (.refl entered)

/-- What every segment preserves, a datagram preserves. -/
theorem inputLoop_preserves (Inv : Ikcpcb → Prop)
    (preserved : ∀ kcp scan header payload, Inv kcp → Inv (applySegment kcp scan header payload).1)
    (fuel : Nat) (kcp : Ikcpcb) (scan : AckScan) (data : List UInt8) (inv : Inv kcp) :
    Inv (inputLoop fuel kcp scan data).1 := by
  induction fuel generalizing kcp scan data with
  | zero => exact inv
  | succ fuel ih =>
      unfold inputLoop
      split
      · exact inv
      · dsimp only
        split
        · exact inv
        · split
          · exact inv
          · split
            · exact inv
            · exact ih _ _ _ (preserved _ _ _ _ inv)

theorem ikcpParseAck_keeps (kcp : Ikcpcb) (sn : UInt32) :
    (ikcpParseAck kcp sn).setup = kcp.setup ∧ (ikcpParseAck kcp sn).recvSide = kcp.recvSide ∧
      (ikcpParseAck kcp sn).acklist = kcp.acklist := by
  unfold ikcpParseAck
  split <;> exact ⟨rfl, rfl, rfl⟩

theorem ikcpParseFastack_keeps (kcp : Ikcpcb) (sn : UInt32) :
    (ikcpParseFastack kcp sn).setup = kcp.setup ∧
      (ikcpParseFastack kcp sn).recvSide = kcp.recvSide ∧
      (ikcpParseFastack kcp sn).acklist = kcp.acklist := by
  unfold ikcpParseFastack
  split <;> exact ⟨rfl, rfl, rfl⟩

theorem ikcpParseData_keeps (kcp : Ikcpcb) (newseg : IkcpSeg) :
    (ikcpParseData kcp newseg).setup = kcp.setup ∧
      (ikcpParseData kcp newseg).sendSide = kcp.sendSide ∧
      (ikcpParseData kcp newseg).acklist = kcp.acklist := by
  rcases ikcpParseData_cases kcp newseg with ⟨unchanged, _⟩ | ⟨buffer, moved, _⟩
  · rw [unchanged]
    exact ⟨rfl, rfl, rfl⟩
  · obtain ⟨_, _, _, _, _, result⟩ := moveAvailable_spec buffer kcp
    rw [moved, result]
    exact ⟨rfl, rfl, rfl⟩

/-- Whatever arrives, the segments waiting in `snd_queue` stay. -/
theorem applySegment_keeps (kcp : Ikcpcb) (scan : AckScan) (header : SegmentHeader)
    (payload : List UInt8) :
    (applySegment kcp scan header payload).1.setup = kcp.setup ∧
      (applySegment kcp scan header payload).1.snd_queue = kcp.snd_queue := by
  obtain ⟨entered, same, arrival⟩ := applySegment_cases kcp scan header payload
  have setup : entered.setup = kcp.setup := same.setup
  have queue : entered.snd_queue = kcp.snd_queue := congrArg SendSide.snd_queue same.sendSide
  rw [← setup, ← queue]
  generalize (applySegment kcp scan header payload).1 = after at arrival
  cases arrival with
  | @acked timed _ _ sameTimed sameAfter =>
      have parsed : (ikcpParseAck timed header.sn).snd_queue = timed.snd_queue := by
        unfold ikcpParseAck
        split <;> rfl
      exact ⟨sameAfter.setup.trans ((ikcpParseAck_keeps timed header.sn).1.trans sameTimed.setup),
        (congrArg SendSide.snd_queue sameAfter.sendSide).trans
          (parsed.trans (congrArg SendSide.snd_queue sameTimed.sendSide))⟩
  | stored _ _ _ =>
      obtain ⟨setup, sendSide, _⟩ := ikcpParseData_keeps
        (ikcpAckPush entered header.sn header.ts) (arrivedSeg header payload)
      exact ⟨setup, congrArg SendSide.snd_queue sendSide⟩
  | repeated _ _ => exact ⟨rfl, rfl⟩
  | passed sameAfter =>
      exact ⟨sameAfter.setup, congrArg SendSide.snd_queue sameAfter.sendSide⟩

/-- The end of `ikcp_input`: `ikcp_parse_fastack` and the congestion window. -/
theorem ikcpInput_cases (kcp : Ikcpcb) (data : List UInt8) :
    (ikcpInput kcp data).1 = kcp ∨
      ∃ counted, SameTraffic counted (ikcpInput kcp data).1 ∧
        (counted = (inputLoop data.length kcp {} data).1 ∨
          ∃ sn, counted = ikcpParseFastack (inputLoop data.length kcp {} data).1 sn) := by
  unfold ikcpInput
  dsimp only
  split
  · exact .inl rfl
  · right
    split
    · exact ⟨_, .refl _, .inl rfl⟩
    · refine ⟨_, .ite (growCwnd_sameTraffic _) (.refl _), ?_⟩
      split
      · exact .inr ⟨_, rfl⟩
      · exact .inl rfl

theorem ikcpInput_keeps (kcp : Ikcpcb) (data : List UInt8) :
    (ikcpInput kcp data).1.setup = kcp.setup ∧ (ikcpInput kcp data).1.snd_queue = kcp.snd_queue := by
  have scanned := inputLoop_preserves
    (fun after => after.setup = kcp.setup ∧ after.snd_queue = kcp.snd_queue)
    (fun before scan header payload kept =>
      ⟨(applySegment_keeps before scan header payload).1.trans kept.1,
        (applySegment_keeps before scan header payload).2.trans kept.2⟩)
    data.length kcp {} data ⟨rfl, rfl⟩
  rcases ikcpInput_cases kcp data with unchanged | ⟨counted, same, rfl | ⟨sn, rfl⟩⟩
  · rw [unchanged]
    exact ⟨rfl, rfl⟩
  · exact ⟨same.setup.trans scanned.1, (congrArg SendSide.snd_queue same.sendSide).trans scanned.2⟩
  · have parsed : (ikcpParseFastack (inputLoop data.length kcp {} data).1 sn).snd_queue =
        (inputLoop data.length kcp {} data).1.snd_queue := by
      unfold ikcpParseFastack
      split <;> rfl
    exact ⟨same.setup.trans ((ikcpParseFastack_keeps _ sn).1.trans scanned.1),
      (congrArg SendSide.snd_queue same.sendSide).trans (parsed.trans scanned.2)⟩

end FiberKcp.Ikcp
