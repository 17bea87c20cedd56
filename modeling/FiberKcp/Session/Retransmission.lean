import FiberKcp.Ikcp.Clock
import FiberKcp.Session.Pacing

namespace FiberKcp.Ikcp

open FiberKcp.Data

/-! What a flush sends once its time has come: whatever is due again, the answers
owed and, when the peer has no room, a probe. -/

/-- The block as `ikcp_update` hands it to `ikcp_flush`. -/
def atClock (kcp : Ikcpcb) (current updated ts_flush : UInt32) : Ikcpcb :=
  { kcp with current, updated, ts_flush }

theorem dueFlush_of_not_early {kcp : Ikcpcb} {now : UInt32} (due : ¬ Early now kcp.ts_flush) :
    ∃ updated ts_flush, updated ≠ 0 ∧
      dueFlush kcp now = some (atClock kcp now updated ts_flush) := by
  rw [dueFlush]
  dsimp only
  by_cases first : kcp.updated = 0
  · have zero : itimediff now now = 0 := by
      rw [itimediff, serialDiff_cases, UInt32.sub_self]
      rfl
    simp only [first, if_true, zero]
    exact ⟨1, _, by decide, rfl⟩
  · simp only [first, if_false]
    by_cases late : itimediff now kcp.ts_flush ≥ 10000 ∨ itimediff now kcp.ts_flush < -10000
    · simp only [late, if_true]
      exact ⟨kcp.updated, _, first, rfl⟩
    · have passed : itimediff now kcp.ts_flush ≥ 0 := by
        rw [Early, not_and_or] at due
        omega
      simp only [late, if_false, passed, if_true]
      exact ⟨kcp.updated, _, first, rfl⟩

theorem ikcpUpdate_of_due {kcp due : Ikcpcb} {now : UInt32}
    (flushes : dueFlush kcp now = some due) : ikcpUpdate kcp now = ikcpFlush due := by
  revert flushes
  unfold dueFlush ikcpUpdate
  extract_lets timed started slap late restarted slap' ts_flush
  by_cases passed : slap' ≥ 0
  · rw [if_pos passed, if_pos passed]
    exact fun same => congrArg ikcpFlush (Option.some.inj same)
  · rw [if_neg passed]
    exact fun same => absurd same.symm (Option.some_ne_none due)

theorem ikcpUpdate_of_none {kcp : Ikcpcb} {now : UInt32} (waits : dueFlush kcp now = none) :
    SameTraffic kcp (ikcpUpdate kcp now).1 ∧ (ikcpUpdate kcp now).2 = [] := by
  revert waits
  unfold dueFlush ikcpUpdate
  extract_lets timed started slap late restarted slap' ts_flush
  have sameStarted : SameTraffic kcp started :=
    .ite (.clock kcp now 1 now) (.clock kcp now kcp.updated kcp.ts_flush)
  have same : SameTraffic kcp restarted :=
    .ite (sameStarted.trans (.clock started _ _ _)) sameStarted
  by_cases passed : slap' ≥ 0
  · rw [if_pos passed]
    exact fun none => absurd none (Option.some_ne_none _)
  · rw [if_neg passed, if_neg passed]
    exact fun _ => ⟨same, rfl⟩

/-- A flush runs at the clock value of the call, on a block that was updated. -/
theorem dueFlush_runs {kcp due : Ikcpcb} {now : UInt32} (flushes : dueFlush kcp now = some due) :
    due.updated ≠ 0 ∧ due.current = now := by
  unfold dueFlush at flushes
  extract_lets timed started slap late restarted slap' ts_flush at flushes
  have begun : started.updated ≠ 0 ∧ started.current = now := by
    have one : (1 : UInt32) ≠ 0 := by decide
    unfold started
    split
    · exact ⟨one, rfl⟩
    · rename_i running
      exact ⟨running, rfl⟩
  have same : restarted.updated ≠ 0 ∧ restarted.current = now := by
    unfold restarted
    split <;> exact begun
  split at flushes
  · rw [← Option.some.inj flushes]
    exact same
  · contradiction

/-- The block with the acknowledgements taken and the probe scheduled. -/
def clearAcks (kcp : Ikcpcb) : Ikcpcb := scheduleProbe { kcp with acklist := [] }

theorem chosenSegs_eq {kcp : Ikcpcb} (running : kcp.updated ≠ 0) :
    chosenSegs kcp = chosenAcks kcp ++ chosenProbes (clearAcks kcp) kcp ++
      (fillSndBuf (clearAcks kcp)).snd_buf.flatMap
        (chosenSeg (fillSndBuf (clearAcks kcp)) (ikcpWndUnused (clearAcks kcp))) :=
  if_neg running

theorem clearAcks_sameTraffic (kcp : Ikcpcb) :
    SameTraffic { kcp with acklist := [] } (clearAcks kcp) := scheduleProbe_sameTraffic _

theorem moveToSndBuf_current (cwnd wnd : UInt32) (queue : List IkcpSeg) (kcp : Ikcpcb) :
    (moveToSndBuf cwnd wnd queue kcp).current = kcp.current ∧
      (moveToSndBuf cwnd wnd queue kcp).ts_probe = kcp.ts_probe ∧
      (moveToSndBuf cwnd wnd queue kcp).probe_wait = kcp.probe_wait := by
  induction queue generalizing kcp with
  | nil => exact ⟨rfl, rfl, rfl⟩
  | cons newseg rest ih =>
      rw [moveToSndBuf]
      split
      · exact ih _
      · exact ⟨rfl, rfl, rfl⟩

theorem scheduleProbe_current (kcp : Ikcpcb) : (scheduleProbe kcp).current = kcp.current := by
  rw [scheduleProbe]
  dsimp only
  split
  · split
    · rfl
    · split <;> rfl
  · rfl

theorem fillSndBuf_current (kcp : Ikcpcb) :
    (fillSndBuf (clearAcks kcp)).current = kcp.current :=
  (moveToSndBuf_current _ _ _ _).1.trans (scheduleProbe_current _)

/-- What is in `snd_buf` stays there while it is filled. -/
theorem mem_fillSndBuf_of_mem {kcp : Ikcpcb} {seg : IkcpSeg} (member : seg ∈ kcp.snd_buf) :
    seg ∈ (fillSndBuf (clearAcks kcp)).snd_buf := by
  have buffer : (clearAcks kcp).snd_buf = kcp.snd_buf :=
    congrArg SendSide.snd_buf (clearAcks_sameTraffic kcp).sendSide
  obtain ⟨entered, moves⟩ := moveToSndBuf_moved _ (ikcpWndUnused (clearAcks kcp))
    (clearAcks kcp).snd_queue { clearAcks kcp with probe := 0 }
  rw [fillSndBuf, moves.buffer]
  exact List.mem_append_left entered (buffer.symm ▸ member)

/-- A segment whose timer has run out is sent again, one never sent is sent. -/
theorem needsend_of_passed {kcp : Ikcpcb} {seg : IkcpSeg}
    (passed : itimediff kcp.current seg.resendts ≥ 0) : (needsend kcp seg).2.1 = true := by
  rw [needsend]
  dsimp only
  by_cases fresh : seg.xmit = 0
  · rw [if_pos fresh]
  · rw [if_neg fresh, if_pos passed]

theorem needsend_unsent {kcp : Ikcpcb} {seg : IkcpSeg} (kept : (needsend kcp seg).2.1 = false) :
    (needsend kcp seg).1 = seg := by
  rw [needsend] at kept ⊢
  dsimp only at kept ⊢
  generalize (if kcp.fastresend > 0 then kcp.fastresend.toUInt32 else 0xffffffff) = resent at *
  by_cases fresh : seg.xmit = 0
  · rw [if_pos fresh] at kept
    contradiction
  · rw [if_neg fresh] at kept ⊢
    by_cases passed : itimediff kcp.current seg.resendts ≥ 0
    · rw [if_pos passed] at kept
      contradiction
    · rw [if_neg passed] at kept ⊢
      by_cases skipped : seg.fastack ≥ resent ∧
          (seg.xmit.toInt32 ≤ kcp.fastlimit ∨ kcp.fastlimit ≤ 0)
      · rw [if_pos skipped] at kept
        contradiction
      · rw [if_neg skipped]

theorem mem_chosenSegs_of_sent {kcp : Ikcpcb} (running : kcp.updated ≠ 0) {seg : IkcpSeg}
    (member : seg ∈ (fillSndBuf (clearAcks kcp)).snd_buf)
    (sent : (needsend (fillSndBuf (clearAcks kcp)) seg).2.1 = true) :
    ∃ chosen ∈ chosenSegs kcp, SameSeg seg chosen := by
  have advanced := needsend_sameSeg (fillSndBuf (clearAcks kcp)) seg
  let again : IkcpSeg := { (needsend (fillSndBuf (clearAcks kcp)) seg).1 with
    ts := (fillSndBuf (clearAcks kcp)).current
    wnd := ikcpWndUnused (clearAcks kcp)
    una := (fillSndBuf (clearAcks kcp)).rcv_nxt }
  have chosen : again ∈
      chosenSeg (fillSndBuf (clearAcks kcp)) (ikcpWndUnused (clearAcks kcp)) seg := by
    rw [chosenSeg, if_pos sent]
    exact List.mem_singleton_self again
  rw [chosenSegs_eq running]
  exact ⟨again, List.mem_append_right _ (List.mem_flatMap.mpr ⟨seg, member, chosen⟩),
    advanced.conv, advanced.cmd, advanced.sn, advanced.payload⟩

theorem mem_chosenSegs_of_passed (kcp : Ikcpcb) (running : kcp.updated ≠ 0) {seg : IkcpSeg}
    (member : seg ∈ kcp.snd_buf) (passed : itimediff kcp.current seg.resendts ≥ 0) :
    ∃ chosen ∈ chosenSegs kcp, SameSeg seg chosen := by
  apply mem_chosenSegs_of_sent running (mem_fillSndBuf_of_mem member)
  apply needsend_of_passed
  rw [fillSndBuf_current]
  exact passed

theorem mem_flushSegments {kcp : Ikcpcb} {wnd : UInt32} {segments : List IkcpSeg} {seg : IkcpSeg}
    (member : seg ∈ segments) (kept : (needsend kcp seg).2.1 = false) (resend : Resend) :
    seg ∈ (flushSegments kcp wnd segments resend).1 := by
  induction segments generalizing resend with
  | nil => contradiction
  | cons segment rest ih =>
      rw [flushSegments]
      rcases List.mem_cons.mp member with here | later
      · have same : (flushSegment kcp wnd segment resend).1 = segment := by
          rw [← here, flushSegment]
          have unsent := needsend_unsent kept
          generalize needsend kcp seg = decided at *
          obtain ⟨advanced, send, timedOut, fast⟩ := decided
          cases kept
          exact unsent
        rw [here]
        exact List.mem_cons.mpr (.inl same.symm)
      · exact List.mem_cons_of_mem _ (ih later _)

theorem updateSsthresh_keeps (kcp : Ikcpcb) (cwnd : UInt32) (resend : Resend) :
    (updateSsthresh kcp cwnd resend).current = kcp.current ∧
      (updateSsthresh kcp cwnd resend).ts_probe = kcp.ts_probe ∧
      (updateSsthresh kcp cwnd resend).probe_wait = kcp.probe_wait := by
  unfold updateSsthresh
  extract_lets resent inflight ssthresh changed half lost
  have sameChanged : changed.current = kcp.current ∧ changed.ts_probe = kcp.ts_probe ∧
      changed.probe_wait = kcp.probe_wait := by
    unfold changed
    split <;> exact ⟨rfl, rfl, rfl⟩
  have sameLost : lost.current = kcp.current ∧ lost.ts_probe = kcp.ts_probe ∧
      lost.probe_wait = kcp.probe_wait := by
    unfold lost
    split <;> exact sameChanged
  split <;> exact sameLost

/-- What the next flush finds: the clock, the probe timer and the buffer. -/
structure Rested (kcp after : Ikcpcb) : Prop where
  current : after.current = kcp.current
  ts_probe : after.ts_probe = (clearAcks kcp).ts_probe
  probe_wait : after.probe_wait = (clearAcks kcp).probe_wait
  queue : after.snd_queue = (fillSndBuf (clearAcks kcp)).snd_queue
  kept : ∀ seg ∈ kcp.snd_buf, (∃ chosen ∈ chosenSegs kcp, SameSeg seg chosen) ∨ seg ∈ after.snd_buf

theorem ikcpFlush_rested {kcp : Ikcpcb} (running : kcp.updated ≠ 0) :
    Rested kcp (ikcpFlush kcp).1 := by
  rw [ikcpFlush, if_neg running]
  extract_lets acked acks cleared packer wnd window cwnd moving
  have unsent : ∀ seg ∈ moving.snd_buf, (needsend moving seg).2.1 = false →
      seg ∈ (flushSegments moving wnd moving.snd_buf
        { packer := packer, xmit := moving.xmit, state := moving.state }).1 :=
    fun _ member kept => mem_flushSegments member kept _
  obtain ⟨current, ts_probe, probe_wait⟩ :=
    moveToSndBuf_current cwnd wnd cleared.snd_queue { cleared with probe := 0 }
  generalize flushSegments moving wnd moving.snd_buf
    { packer := packer, xmit := moving.xmit, state := moving.state } = flushed at *
  obtain ⟨sent, resend⟩ := flushed
  let closing : Ikcpcb :=
    { moving with snd_buf := sent, xmit := resend.xmit, state := resend.state }
  have ended := updateSsthresh_keeps closing cwnd resend
  have traffic := (updateSsthresh_sameTraffic closing cwnd resend).sendSide
  refine ⟨?_, ended.2.1.trans ts_probe, ended.2.2.trans probe_wait, ?_, fun seg member => ?_⟩
  · exact ended.1.trans (current.trans (scheduleProbe_current _))
  · exact congrArg SendSide.snd_queue traffic
  · cases sending : (needsend moving seg).2.1 with
    | true => exact .inl (mem_chosenSegs_of_sent running (mem_fillSndBuf_of_mem member) sending)
    | false =>
        right
        have buffer : (updateSsthresh closing cwnd resend).snd_buf = sent :=
          congrArg SendSide.snd_buf traffic
        change seg ∈ (updateSsthresh closing cwnd resend).snd_buf
        rw [buffer]
        exact unsent seg (mem_fillSndBuf_of_mem member) sending

/-- The peer has not been told yet what arrived, or what room there is. -/
def Owes (kcp : Ikcpcb) : Prop := kcp.acklist ≠ [] ∨ kcp.probe &&& ikcpAskTell ≠ 0

theorem or_and (left right mask : UInt32) :
    (left ||| right) &&& mask = (left &&& mask) ||| (right &&& mask) := by
  apply UInt32.toBitVec_inj.mp
  ext bit
  simp [Bool.and_or_distrib_right]

/-- A flag that was set is seen. -/
theorem flag_of_or (probe : UInt32) {flag : UInt32} (nonzero : flag ≠ 0) :
    (probe ||| flag) &&& flag ≠ 0 := by
  rw [or_and, UInt32.and_self, ne_eq, UInt32.or_eq_zero_iff]
  exact fun both => nonzero both.2

theorem and_askTell_or_askSend (probe : UInt32) :
    (probe ||| ikcpAskSend) &&& ikcpAskTell = probe &&& ikcpAskTell := by
  rw [or_and]
  exact UInt32.or_zero

theorem scheduleProbe_askTell (kcp : Ikcpcb) :
    (scheduleProbe kcp).probe &&& ikcpAskTell = kcp.probe &&& ikcpAskTell := by
  rw [scheduleProbe]
  dsimp only
  split
  · split
    · rfl
    · split
      · exact and_askTell_or_askSend kcp.probe
      · rfl
  · rfl

theorem chosenSegs_of_owes (kcp : Ikcpcb) (running : kcp.updated ≠ 0) (owes : Owes kcp) :
    chosenSegs kcp ≠ [] := by
  rw [chosenSegs_eq running]
  rcases owes with acks | tell
  · have owed : chosenAcks kcp ≠ [] := by
      rw [chosenAcks, ne_eq, List.map_eq_nil_iff]
      exact acks
    exact List.append_ne_nil_of_left_ne_nil (List.append_ne_nil_of_left_ne_nil owed _) _
  · have flag : (clearAcks kcp).probe &&& ikcpAskTell ≠ 0 := by
      rw [clearAcks, scheduleProbe_askTell]
      exact tell
    have told : chosenProbes (clearAcks kcp) kcp ≠ [] := by
      rw [chosenProbes, if_pos flag]
      exact List.append_ne_nil_of_right_ne_nil _ (List.cons_ne_nil _ _)
    exact List.append_ne_nil_of_left_ne_nil (List.append_ne_nil_of_right_ne_nil _ told) _

theorem asks_of_flag {kcp : Ikcpcb} (running : kcp.updated ≠ 0)
    (flag : (clearAcks kcp).probe &&& ikcpAskSend ≠ 0) :
    ∃ chosen ∈ chosenSegs kcp, chosen.cmd = ikcpCmdWask := by
  rw [chosenSegs_eq running, chosenProbes, if_pos flag]
  refine ⟨probeSeg kcp ikcpCmdWask, ?_, rfl⟩
  exact List.mem_append_left _ (List.mem_append_right _ List.mem_cons_self)

/-- A flush for a peer without room asks it, or the probe timer is set. -/
theorem asks_or_waits (kcp : Ikcpcb) (running : kcp.updated ≠ 0) (closed : kcp.rmt_wnd = 0) :
    (∃ chosen ∈ chosenSegs kcp, chosen.cmd = ikcpCmdWask) ∨
      (clearAcks kcp).probe_wait ≠ 0 ∧
        (kcp.probe_wait ≠ 0 → (clearAcks kcp).ts_probe = kcp.ts_probe) := by
  by_cases first : kcp.probe_wait = 0
  · right
    rw [clearAcks, scheduleProbe, if_pos closed, if_pos first]
    have set : ikcpProbeInit ≠ 0 := by decide
    exact ⟨set, fun waiting => absurd first waiting⟩
  · by_cases passed : itimediff kcp.current kcp.ts_probe ≥ 0
    · left
      apply asks_of_flag running
      rw [clearAcks, scheduleProbe, if_pos closed, if_neg first, if_pos passed]
      exact flag_of_or kcp.probe (by decide)
    · right
      rw [clearAcks, scheduleProbe, if_pos closed, if_neg first, if_neg passed]
      exact ⟨first, fun _ => rfl⟩

theorem asks_of_passed (kcp : Ikcpcb) (running : kcp.updated ≠ 0) (closed : kcp.rmt_wnd = 0)
    (waiting : kcp.probe_wait ≠ 0) (passed : itimediff kcp.current kcp.ts_probe ≥ 0) :
    ∃ chosen ∈ chosenSegs kcp, chosen.cmd = ikcpCmdWask := by
  apply asks_of_flag running
  rw [clearAcks, scheduleProbe, if_pos closed, if_neg waiting, if_pos passed]
  exact flag_of_or kcp.probe (by decide)

theorem moveToSndBuf_length (cwnd wnd : UInt32) (queue : List IkcpSeg) (kcp : Ikcpcb) :
    (moveToSndBuf cwnd wnd queue kcp).snd_queue.length ≤ queue.length := by
  obtain ⟨entered, moves⟩ := moveToSndBuf_moved cwnd wnd queue kcp
  obtain ⟨moved, parts, _⟩ := moves.queue
  have lengths := congrArg List.length parts
  rw [List.length_append] at lengths
  omega

theorem imin_pos {left right : UInt32} (first : left ≠ 0) (second : right ≠ 0) :
    imin left right ≠ 0 := by
  rw [imin]
  split
  · exact first
  · exact second

/-- With nothing in flight and room at the peer a flush gives out a number. -/
theorem fillSndBuf_moves (kcp : Ikcpcb) (bounded : kcp.flight.Bounded) (waiting : kcp.snd_queue ≠ [])
    (empty : kcp.snd_buf = []) (window : kcp.snd_wnd ≠ 0) (room : kcp.rmt_wnd ≠ 0)
    (paced : kcp.nocwnd ≠ 0) :
    (fillSndBuf (clearAcks kcp)).snd_queue.length < kcp.snd_queue.length := by
  have flight : (clearAcks kcp).flight = kcp.flight := scheduleProbe_flight _
  have queue : (clearAcks kcp).snd_queue = kcp.snd_queue :=
    congrArg SendSide.snd_queue (clearAcks_sameTraffic kcp).sendSide
  have small : kcp.snd_wnd.toNat < 2 ^ 16 := bounded.narrow
  have first : kcp.snd_una = kcp.snd_nxt := by
    have head : kcp.snd_una = (kcp.snd_buf.map IkcpSeg.sn).head?.getD kcp.snd_nxt := bounded.first
    rw [empty] at head
    exact head
  have una : (clearAcks kcp).snd_una = kcp.snd_nxt := (congrArg Flight.snd_una flight).trans first
  have next : (clearAcks kcp).snd_nxt = kcp.snd_nxt := congrArg Flight.snd_nxt flight
  have width : imin (clearAcks kcp).snd_wnd (clearAcks kcp).rmt_wnd =
      imin kcp.snd_wnd kcp.rmt_wnd := by
    rw [show (clearAcks kcp).snd_wnd = kcp.snd_wnd from congrArg Flight.snd_wnd flight,
      show (clearAcks kcp).rmt_wnd = kcp.rmt_wnd from congrArg Flight.rmt_wnd flight]
  have nocwnd : (clearAcks kcp).nocwnd ≠ 0 := by
    rw [show (clearAcks kcp).nocwnd = kcp.nocwnd from congrArg Flight.nocwnd flight]
    exact paced
  have positive := imin_pos window room
  have narrow := imin_le_left kcp.snd_wnd kcp.rmt_wnd
  have open_ : itimediff kcp.snd_nxt (kcp.snd_nxt + imin kcp.snd_wnd kcp.rmt_wnd) < 0 := by
    have farEnd := ahead_add kcp.snd_nxt (imin kcp.snd_wnd kcp.rmt_wnd)
    have nonzero : (imin kcp.snd_wnd kcp.rmt_wnd).toNat ≠ 0 := fun zero =>
      positive (UInt32.toNat_inj.mp zero)
    rw [itimediff, serialDiff_ahead kcp.snd_nxt (by rw [ahead_self]; omega) (by omega),
      farEnd, ahead_self]
    omega
  rw [fillSndBuf]
  rw [if_neg nocwnd, width, queue]
  obtain ⟨newseg, rest, parts⟩ := List.exists_cons_of_ne_nil waiting
  rw [parts, moveToSndBuf]
  dsimp only
  rw [una, next, if_pos open_]
  exact Nat.lt_succ_of_le (moveToSndBuf_length _ _ rest _)

end FiberKcp.Ikcp
