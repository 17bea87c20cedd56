import FiberKcp.Ikcp.Encoding

namespace FiberKcp.Ikcp

open FiberKcp.Data

/-! How `ikcp_flush` packs the segments it sends into datagrams. -/

/-- The bytes of some segments, one after the other. -/
def groupBytes (group : List IkcpSeg) : List UInt8 := group.flatMap segBytes

theorem groupBytes_append (left right : List IkcpSeg) :
    groupBytes (left ++ right) = groupBytes left ++ groupBytes right := List.flatMap_append

theorem length_segBytes (seg : IkcpSeg) :
    (segBytes seg).length = ikcpOverhead + seg.data.length := by
  rw [segBytes, List.length_append, length_ikcpEncodeSeg]

theorem groupBytes_eq_nil {group : List IkcpSeg} : groupBytes group = [] ↔ group = [] := by
  cases group with
  | nil => simp [groupBytes]
  | cons seg rest =>
      have size := length_segBytes seg
      simp only [ikcpOverhead] at size
      have nonempty : segBytes seg ≠ [] := List.ne_nil_of_length_pos (by omega)
      simp [groupBytes, nonempty]

/-- The segments were appended in this order: each is whole in one datagram sent
or in the buffer, and no datagram is empty or longer than `limit`. -/
structure Packer.Packs (packer : Packer) (limit : Nat) (groups : List (List IkcpSeg))
    (pending : List IkcpSeg) : Prop where
  sent : packer.output = groups.map groupBytes
  buffer : packer.buffer = groupBytes pending
  nonempty : ∀ group ∈ groups, group ≠ []
  bound : ∀ group ∈ groups, (groupBytes group).length ≤ limit
  room : packer.buffer.length ≤ limit

/-- The packer holds exactly these segments. -/
def Packer.Contains (packer : Packer) (limit : Nat) (segs : List IkcpSeg) : Prop :=
  ∃ groups pending, packer.Packs limit groups pending ∧ groups.flatten ++ pending = segs

theorem Packer.Contains.empty (limit : Nat) : Packer.Contains {} limit [] :=
  ⟨[], [], ⟨rfl, rfl, by simp, by simp, Nat.zero_le limit⟩, rfl⟩

theorem Packer.Packs.flush {packer : Packer} {limit : Nat} {groups : List (List IkcpSeg)}
    {pending : List IkcpSeg} (packs : packer.Packs limit groups pending) :
    ∃ sent, packer.flush.Packs limit sent [] ∧ sent.flatten = groups.flatten ++ pending := by
  unfold Packer.flush
  by_cases none : pending = []
  · have empty : packer.buffer.isEmpty := by
      rw [packs.buffer, List.isEmpty_iff, groupBytes_eq_nil]
      exact none
    refine ⟨groups, ⟨?_, rfl, packs.nonempty, packs.bound, Nat.zero_le limit⟩, by simp [none]⟩
    rw [if_pos empty]
    exact packs.sent
  · have filled : ¬ packer.buffer.isEmpty := by
      rw [packs.buffer, List.isEmpty_iff, groupBytes_eq_nil]
      exact none
    refine ⟨groups ++ [pending], ⟨?_, rfl, ?_, ?_, Nat.zero_le limit⟩, by simp⟩
    · rw [if_neg filled, packs.sent, packs.buffer, List.map_append]
      rfl
    · intro group member
      rcases List.mem_append.mp member with earlier | last
      · exact packs.nonempty group earlier
      · rw [List.mem_singleton.mp last]
        exact none
    · intro group member
      rcases List.mem_append.mp member with earlier | last
      · exact packs.bound group earlier
      · rw [List.mem_singleton.mp last, ← packs.buffer]
        exact packs.room

theorem Packer.Contains.append {packer : Packer} {mtu : UInt32} {segs : List IkcpSeg}
    {seg : IkcpSeg} (contains : packer.Contains mtu.toNat segs)
    (fits : ikcpOverhead + seg.data.length ≤ mtu.toNat) :
    (packer.append mtu seg).Contains mtu.toNat (segs ++ [seg]) := by
  have put : ∀ (opened : Packer) groups pending, opened.Packs mtu.toNat groups pending →
      opened.buffer.length + (ikcpOverhead + seg.data.length) ≤ mtu.toNat →
      Packer.Packs { opened with buffer := opened.buffer ++ (ikcpEncodeSeg seg ++ seg.data) }
        mtu.toNat groups (pending ++ [seg]) := by
    intro opened groups pending packs enough
    refine ⟨packs.sent, ?_, packs.nonempty, packs.bound, ?_⟩
    · rw [groupBytes_append, ← packs.buffer]
      simp [groupBytes, segBytes]
    · simp only [List.length_append, length_ikcpEncodeSeg]
      omega
  obtain ⟨groups, pending, packs, parts⟩ := contains
  unfold Packer.append
  by_cases full : packer.buffer.length + (ikcpOverhead + seg.data.length) > mtu.toNat
  · obtain ⟨sent, flushed, all⟩ := packs.flush
    rw [if_pos full]
    refine ⟨sent, [] ++ [seg], put _ _ _ flushed (by simpa [Packer.flush] using fits), ?_⟩
    rw [all, List.nil_append, parts]
  · rw [if_neg full]
    refine ⟨groups, pending ++ [seg], put _ _ _ packs (Nat.not_lt.mp full), ?_⟩
    rw [← List.append_assoc, parts]

def chosenAcks (kcp : Ikcpcb) : List IkcpSeg :=
  kcp.acklist.map fun ack => { controlSeg kcp with sn := ack.1, ts := ack.2 }

def chosenProbes (kcp acked : Ikcpcb) : List IkcpSeg :=
  (if kcp.probe &&& ikcpAskSend ≠ 0 then [probeSeg acked ikcpCmdWask] else []) ++
    if kcp.probe &&& ikcpAskTell ≠ 0 then [probeSeg acked ikcpCmdWins] else []

/-- A segment of `snd_buf` as it is sent, when it is. -/
def chosenSeg (kcp : Ikcpcb) (wnd : UInt32) (segment : IkcpSeg) : List IkcpSeg :=
  if (needsend kcp segment).2.1 then
    [{ (needsend kcp segment).1 with ts := kcp.current, wnd := wnd, una := kcp.rcv_nxt }]
  else []

/-- The block with `snd_buf` filled up to the congestion window. -/
def fillSndBuf (kcp : Ikcpcb) : Ikcpcb :=
  let window := imin kcp.snd_wnd kcp.rmt_wnd
  let cwnd := if kcp.nocwnd = 0 then imin kcp.cwnd window else window
  moveToSndBuf cwnd (ikcpWndUnused kcp) kcp.snd_queue { kcp with probe := 0 }

/-- The acknowledgements, probes and data segments `ikcp_flush` sends. -/
def chosenSegs (kcp : Ikcpcb) : List IkcpSeg :=
  if kcp.updated = 0 then []
  else
    let cleared := scheduleProbe { kcp with acklist := [] }
    chosenAcks kcp ++ chosenProbes cleared kcp ++
      (fillSndBuf cleared).snd_buf.flatMap (chosenSeg (fillSndBuf cleared) (ikcpWndUnused cleared))

theorem flushAcks_contains (kcp : Ikcpcb) {packer : Packer} {segs : List IkcpSeg}
    (contains : packer.Contains kcp.mtu.toNat segs) (fits : ikcpOverhead ≤ kcp.mtu.toNat) :
    (flushAcks kcp packer).Contains kcp.mtu.toNat (segs ++ chosenAcks kcp) := by
  unfold flushAcks chosenAcks
  induction kcp.acklist generalizing packer segs with
  | nil => simpa using contains
  | cons ack rest ih =>
      rw [List.foldl_cons, List.map_cons, List.append_cons]
      exact ih (contains.append fits)

theorem flushProbes_contains {kcp : Ikcpcb} {packer : Packer} {segs : List IkcpSeg}
    (acked : Ikcpcb) (contains : packer.Contains kcp.mtu.toNat segs)
    (fits : ikcpOverhead ≤ kcp.mtu.toNat) :
    (flushProbes kcp acked packer).Contains kcp.mtu.toNat (segs ++ chosenProbes kcp acked) := by
  have asked : ∀ (condition : Prop) [Decidable condition] (packer : Packer) segs cmd,
      packer.Contains kcp.mtu.toNat segs →
      (if condition then packer.append kcp.mtu (probeSeg acked cmd) else packer).Contains
        kcp.mtu.toNat (segs ++ if condition then [probeSeg acked cmd] else []) := by
    intro condition _ packer segs cmd contains
    by_cases holds : condition
    · rw [if_pos holds, if_pos holds]
      exact contains.append fits
    · rw [if_neg holds, if_neg holds, List.append_nil]
      exact contains
  unfold flushProbes chosenProbes
  rw [← List.append_assoc]
  exact asked _ _ _ _ (asked _ _ _ _ contains)

theorem flushSegment_contains {kcp : Ikcpcb} {segment : IkcpSeg} {segs : List IkcpSeg}
    {resend : Resend} (wnd : UInt32) (fits : ikcpOverhead + segment.data.length ≤ kcp.mtu.toNat)
    (contains : resend.packer.Contains kcp.mtu.toNat segs) :
    (flushSegment kcp wnd segment resend).2.packer.Contains kcp.mtu.toNat
      (segs ++ chosenSeg kcp wnd segment) := by
  have data : (needsend kcp segment).1.data = segment.data :=
    congrArg Prod.fst (needsend_sameSeg kcp segment).payload
  unfold flushSegment chosenSeg
  generalize needsend kcp segment = decided at *
  obtain ⟨advanced, send, timedOut, fast⟩ := decided
  cases send with
  | false => simpa using contains
  | true =>
      apply contains.append
      rw [data]
      exact fits

theorem flushSegments_contains {kcp : Ikcpcb} {segments segs : List IkcpSeg} (wnd : UInt32)
    (resend : Resend) (fits : ∀ seg ∈ segments, ikcpOverhead + seg.data.length ≤ kcp.mtu.toNat)
    (contains : resend.packer.Contains kcp.mtu.toNat segs) :
    (flushSegments kcp wnd segments resend).2.packer.Contains kcp.mtu.toNat
      (segs ++ segments.flatMap (chosenSeg kcp wnd)) := by
  induction segments generalizing resend segs with
  | nil => simpa [flushSegments] using contains
  | cons segment rest ih =>
      have here := flushSegment_contains wnd (fits segment List.mem_cons_self) contains
      rw [flushSegments, List.flatMap_cons, ← List.append_assoc]
      exact ih _ (fun other member => fits other (List.mem_cons_of_mem segment member)) here

theorem fillSndBuf_setup (kcp : Ikcpcb) : (fillSndBuf kcp).setup = kcp.setup :=
  (moveToSndBuf_keeps _ _ _ _).2.1

/-- What `snd_buf` holds when it is sent from. -/
theorem mem_fillSndBuf {kcp : Ikcpcb} {seg : IkcpSeg} (member : seg ∈ (fillSndBuf kcp).snd_buf) :
    seg ∈ kcp.snd_buf ∨ (seg.conv = kcp.conv ∧ seg.cmd = ikcpCmdPush) ∧
      ∃ waiting ∈ kcp.snd_queue, waiting.payload = seg.payload := by
  unfold fillSndBuf at member
  dsimp only at member
  generalize (if kcp.nocwnd = 0 then imin kcp.cwnd (imin kcp.snd_wnd kcp.rmt_wnd)
    else imin kcp.snd_wnd kcp.rmt_wnd) = cwnd at member
  obtain ⟨entered, moves⟩ :=
    moveToSndBuf_moved cwnd (ikcpWndUnused kcp) kcp.snd_queue { kcp with probe := 0 }
  rw [moves.buffer] at member
  rcases List.mem_append.mp member with held | new
  · exact .inl held
  · obtain ⟨moved, queue, payloads⟩ := moves.queue
    have inMoved : seg.payload ∈ moved.map IkcpSeg.payload :=
      payloads ▸ List.mem_map_of_mem new
    obtain ⟨waiting, inQueue, same⟩ := List.mem_map.mp inMoved
    exact .inr ⟨moves.labels seg new, waiting, queue ▸ List.mem_append_left _ inQueue, same⟩

/-- The segments on their way out fit a datagram and the fields of a header. -/
structure Sendable (kcp : Ikcpcb) : Prop where
  mtu : kcp.mtu = 1400
  window : kcp.rcv_wnd.toNat < 2 ^ 16
  labels : ∀ seg ∈ kcp.snd_buf, seg.conv = kcp.conv ∧ seg.cmd = ikcpCmdPush
  sizes : ∀ seg ∈ kcp.snd_buf ++ kcp.snd_queue, seg.data.length ≤ 1376 ∧ seg.frg.toNat < 128

theorem Sendable.sameTraffic {kcp after : Ikcpcb} (sendable : Sendable kcp)
    (same : SameTraffic kcp after) : Sendable after := by
  have sending : after.sendSide = kcp.sendSide := same.sendSide
  simp only [Ikcpcb.sendSide, SendSide.mk.injEq] at sending
  obtain ⟨queue, buffer, _⟩ := sending
  have conv : after.conv = kcp.conv := congrArg Setup.conv same.setup
  have mtu : after.mtu = kcp.mtu := congrArg Setup.mtu same.setup
  have window : after.rcv_wnd = kcp.rcv_wnd := congrArg RecvSide.rcv_wnd same.recvSide
  exact ⟨mtu.trans sendable.mtu, window ▸ sendable.window,
    buffer.symm ▸ conv.symm ▸ sendable.labels, buffer.symm ▸ queue.symm ▸ sendable.sizes⟩

theorem Sendable.filled {kcp : Ikcpcb} (sendable : Sendable kcp) :
    ∀ seg ∈ (fillSndBuf kcp).snd_buf, (seg.conv = kcp.conv ∧ seg.cmd = ikcpCmdPush) ∧
      seg.data.length ≤ 1376 ∧ seg.frg.toNat < 128 := by
  intro seg member
  rcases mem_fillSndBuf member with held | ⟨labels, waiting, inQueue, same⟩
  · exact ⟨sendable.labels seg held, sendable.sizes seg (List.mem_append_left _ held)⟩
  · have sizes := sendable.sizes waiting (List.mem_append_right _ inQueue)
    have data : waiting.data = seg.data := congrArg Prod.fst same
    have frg : waiting.frg = seg.frg := congrArg Prod.snd same
    exact ⟨labels, data ▸ frg ▸ sizes⟩

theorem ikcpWndUnused_lt {kcp : Ikcpcb} (window : kcp.rcv_wnd.toNat < 2 ^ 16) :
    (ikcpWndUnused kcp).toNat < 2 ^ 16 := by
  unfold ikcpWndUnused
  split
  · rename_i below
    rw [UInt32.toNat_sub_of_le _ _ (UInt32.le_of_lt below)]
    omega
  · decide

theorem Sendable.control {kcp : Ikcpcb} (sendable : Sendable kcp) (sn ts : UInt32) {cmd : UInt32}
    (known : cmd = ikcpCmdPush ∨ cmd = ikcpCmdAck ∨ cmd = ikcpCmdWask ∨ cmd = ikcpCmdWins) :
    Encodable kcp.conv { controlSeg kcp with cmd := cmd, sn := sn, ts := ts } :=
  ⟨rfl, known, Nat.two_pow_pos 8, ikcpWndUnused_lt sendable.window, Nat.two_pow_pos 31⟩

/-- Every segment a flush sends fits the header. -/
theorem Sendable.chosen {kcp : Ikcpcb} (sendable : Sendable kcp) :
    ∀ seg ∈ chosenSegs kcp, Encodable kcp.conv seg ∧ seg.data.length ≤ 1376 := by
  unfold chosenSegs
  split
  · simp
  · extract_lets cleared
    have same : SameTraffic { kcp with acklist := [] } cleared := scheduleProbe_sameTraffic _
    have quiet : Sendable { kcp with acklist := [] } :=
      ⟨sendable.mtu, sendable.window, sendable.labels, sendable.sizes⟩
    have ready : Sendable cleared := quiet.sameTraffic same
    have conv : cleared.conv = kcp.conv := congrArg Setup.conv same.setup
    intro seg member
    rcases List.mem_append.mp member with control | data
    · rcases List.mem_append.mp control with ack | probe
      · obtain ⟨owed, _, rfl⟩ := List.mem_map.mp ack
        exact ⟨sendable.control owed.1 owed.2 (.inr (.inl rfl)), Nat.zero_le _⟩
      · unfold chosenProbes at probe
        rcases List.mem_append.mp probe with wask | wins
        · rw [List.mem_ite_nil_right, List.mem_singleton] at wask
          rw [wask.2]
          exact ⟨sendable.control _ _ (.inr (.inr (.inl rfl))), Nat.zero_le _⟩
        · rw [List.mem_ite_nil_right, List.mem_singleton] at wins
          rw [wins.2]
          exact ⟨sendable.control _ _ (.inr (.inr (.inr rfl))), Nat.zero_le _⟩
    · obtain ⟨segment, held, sent⟩ := List.mem_flatMap.mp data
      obtain ⟨labels, size, frg⟩ := ready.filled segment held
      unfold chosenSeg at sent
      rw [List.mem_ite_nil_right, List.mem_singleton] at sent
      have advanced := needsend_sameSeg (fillSndBuf cleared) segment
      have sameData : (needsend (fillSndBuf cleared) segment).1.data = segment.data :=
        congrArg Prod.fst advanced.payload
      have sameFrg : (needsend (fillSndBuf cleared) segment).1.frg = segment.frg :=
        congrArg Prod.snd advanced.payload
      rw [sent.2]
      refine ⟨⟨advanced.conv.trans (labels.1.trans conv), .inl (advanced.cmd.trans labels.2), ?_,
        ikcpWndUnused_lt ready.window, ?_⟩, ?_⟩
      · rw [sameFrg]
        omega
      · rw [sameData]
        omega
      · rw [sameData]
        exact size

/-- The datagrams of a flush are its segments in order, none split. -/
theorem ikcpFlush_packs {kcp : Ikcpcb} (sendable : Sendable kcp) :
    ∃ groups : List (List IkcpSeg), (ikcpFlush kcp).2 = groups.map groupBytes ∧
      groups.flatten = chosenSegs kcp ∧
      ∀ group ∈ groups, group ≠ [] ∧ (groupBytes group).length ≤ 1400 := by
  unfold ikcpFlush chosenSegs
  split
  · exact ⟨[], rfl, rfl, by simp⟩
  · extract_lets acked acks cleared packer wnd window cwnd moving
    have same : SameTraffic { kcp with acklist := [] } cleared := scheduleProbe_sameTraffic _
    have quiet : Sendable { kcp with acklist := [] } :=
      ⟨sendable.mtu, sendable.window, sendable.labels, sendable.sizes⟩
    have ready : Sendable cleared := quiet.sameTraffic same
    have clearedMtu : cleared.mtu.toNat = 1400 := congrArg UInt32.toNat ready.mtu
    have mtu : moving.mtu.toNat = 1400 :=
      congrArg UInt32.toNat ((congrArg Setup.mtu (fillSndBuf_setup cleared)).trans ready.mtu)
    have header : ikcpOverhead ≤ 1400 := by decide
    have acksPacked : acks.Contains 1400 (chosenAcks kcp) := by
      have packed := flushAcks_contains kcp (.empty _) (sendable.mtu ▸ header)
      rw [sendable.mtu] at packed
      exact packed
    have probesPacked : packer.Contains 1400 (chosenAcks kcp ++ chosenProbes cleared kcp) := by
      have packed := flushProbes_contains kcp (clearedMtu.symm ▸ acksPacked)
        (clearedMtu.symm ▸ header)
      rw [clearedMtu] at packed
      exact packed
    have fits : ∀ seg ∈ moving.snd_buf, ikcpOverhead + seg.data.length ≤ moving.mtu.toNat := by
      intro seg member
      have size := (ready.filled seg member).2.1
      rw [mtu, ikcpOverhead]
      omega
    let begun : Resend := { packer := packer, xmit := moving.xmit, state := moving.state }
    have packed := flushSegments_contains wnd begun fits (mtu.symm ▸ probesPacked)
    rw [mtu] at packed
    obtain ⟨groups, pending, packs, parts⟩ := packed
    obtain ⟨sent, flushed, all⟩ := packs.flush
    exact ⟨sent, flushed.sent, all.trans parts, fun group member =>
      ⟨flushed.nonempty group member, flushed.bound group member⟩⟩

end FiberKcp.Ikcp
