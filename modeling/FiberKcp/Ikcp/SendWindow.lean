import FiberKcp.Data.Window
import FiberKcp.Ikcp.Departure

namespace FiberKcp.Ikcp

open FiberKcp.Data

/-! What is in flight at most, whatever arrives: the segments of `snd_buf` are
numbered upwards from `snd_una` to `snd_nxt`, and `snd_wnd` bounds the distance. -/

/-- The fields of the sending half that say what is in flight and how much more
may be, as the peer has announced it. -/
structure Flight where
  snd_una : UInt32
  snd_nxt : UInt32
  snd_wnd : UInt32
  rmt_wnd : UInt32
  nocwnd : Int32
  serials : List UInt32

def Ikcpcb.flight (kcp : Ikcpcb) : Flight where
  snd_una := kcp.snd_una
  snd_nxt := kcp.snd_nxt
  snd_wnd := kcp.snd_wnd
  rmt_wnd := kcp.rmt_wnd
  nocwnd := kcp.nocwnd
  serials := kcp.snd_buf.map IkcpSeg.sn

theorem flight_rmt_wnd (kcp : Ikcpcb) : kcp.flight.rmt_wnd = kcp.rmt_wnd := rfl

theorem flight_ite {left right : Ikcpcb} {flight : Flight} {condition : Prop}
    [Decidable condition] (sameLeft : left.flight = flight) (sameRight : right.flight = flight) :
    (if condition then left else right).flight = flight := by
  split
  · exact sameLeft
  · exact sameRight

/-- `snd_una` is the first number in flight, the others follow below `snd_nxt`. -/
structure Flight.Bounded (flight : Flight) : Prop where
  narrow : flight.snd_wnd.toNat < 2 ^ 16
  first : flight.snd_una = flight.serials.head?.getD flight.snd_nxt
  ordered : Ordered flight.snd_una (ahead flight.snd_una flight.snd_nxt) flight.serials
  inWindow : ahead flight.snd_una flight.snd_nxt ≤ flight.snd_wnd.toNat

/-- `snd_una` moves up over numbers that were in flight, `snd_nxt` never goes back
and `snd_wnd` stays. -/
structure Flight.Moves (before after : Flight) : Prop where
  released : ahead before.snd_una after.snd_una ≤ ahead before.snd_una before.snd_nxt
  next : ahead before.snd_una before.snd_nxt ≤ ahead before.snd_una after.snd_nxt
  window : after.snd_wnd = before.snd_wnd

theorem Flight.Moves.refl (flight : Flight) : flight.Moves flight := by
  refine ⟨?_, Nat.le_refl _, rfl⟩
  rw [ahead_self]
  exact Nat.zero_le _

/-! ## Releasing -/

/-- What acknowledgements do: the numbers given out stay as they are. -/
structure Flight.Releases (before after : Flight) : Prop where
  bounded : after.Bounded
  released : ahead before.snd_una after.snd_una ≤ ahead before.snd_una before.snd_nxt
  next : after.snd_nxt = before.snd_nxt
  window : after.snd_wnd = before.snd_wnd
  nocwnd : after.nocwnd = before.nocwnd

section Release

variable {before middle after : Flight} {kcp : Ikcpcb}

theorem Flight.Releases.refl (bounded : before.Bounded) : before.Releases before :=
  ⟨bounded, by simp, rfl, rfl, rfl⟩

theorem Flight.Releases.trans (left : before.Releases middle) (right : middle.Releases after) :
    before.Releases after := by
  have first := left.released
  have second := right.released
  have bound := ahead_lt before.snd_una before.snd_nxt
  rw [left.next, ahead_rebase first] at second
  have whole := ahead_trans before.snd_una middle.snd_una after.snd_una (by omega)
  refine ⟨right.bounded, ?_, right.next.trans left.next, right.window.trans left.window,
    right.nocwnd.trans left.nocwnd⟩
  omega

/-- Segments leave `snd_buf`, and `ikcp_shrink_buf` looks for the first one left. -/
theorem Flight.Bounded.shrink {left : List IkcpSeg} (bounded : kcp.flight.Bounded)
    (sub : left.Sublist kcp.snd_buf) :
    kcp.flight.Releases (ikcpShrinkBuf { kcp with snd_buf := left }).flight := by
  have serials : (left.map IkcpSeg.sn).Sublist kcp.flight.serials := sub.map IkcpSeg.sn
  have ordered := bounded.ordered.sublist serials
  have room := bounded.inWindow
  cases left with
  | nil =>
      refine ⟨⟨bounded.narrow, rfl, ordered_nil _ _, ?_⟩, Nat.le_refl _, rfl, rfl, rfl⟩
      change ahead kcp.snd_nxt kcp.snd_nxt ≤ _
      rw [ahead_self]
      exact Nat.zero_le _
  | cons seg rest =>
      have inside := ordered.inside seg.sn List.mem_cons_self
      have released : ahead kcp.flight.snd_una seg.sn ≤ ahead kcp.flight.snd_una kcp.flight.snd_nxt :=
        Nat.le_of_lt inside
      have width := ahead_rebase released
      have rebased := ordered.rebase seg.sn fun serial member =>
        ordered.head_le rfl member
      rw [← width] at rebased
      refine ⟨⟨bounded.narrow, rfl, rebased, ?_⟩, released, rfl, rfl, rfl⟩
      change ahead seg.sn kcp.flight.snd_nxt ≤ kcp.flight.snd_wnd.toNat
      omega

theorem removeAcked_sublist (sn : UInt32) (buffer : List IkcpSeg) :
    (removeAcked sn buffer).Sublist buffer := by
  induction buffer with
  | nil => exact List.Sublist.slnil
  | cons seg rest ih =>
      rw [removeAcked]
      split
      · exact List.sublist_cons_self seg rest
      · split
        · exact List.Sublist.refl _
        · exact ih.cons_cons seg

/-- `ikcp_parse_una` with `ikcp_shrink_buf`. -/
theorem Flight.Bounded.parseUna (bounded : kcp.flight.Bounded) (una : UInt32) :
    kcp.flight.Releases (ikcpShrinkBuf (ikcpParseUna kcp una)).flight :=
  bounded.shrink (List.dropWhile_sublist _)

/-- `ikcp_parse_ack` with `ikcp_shrink_buf`. -/
theorem Flight.Bounded.parseAck (bounded : kcp.flight.Bounded) (sn : UInt32) :
    kcp.flight.Releases (ikcpShrinkBuf (ikcpParseAck kcp sn)).flight := by
  rw [ikcpParseAck]
  split
  · exact bounded.shrink (List.Sublist.refl kcp.snd_buf)
  · exact bounded.shrink (removeAcked_sublist sn kcp.snd_buf)

theorem ikcpUpdateAck_flight (kcp : Ikcpcb) (rtt : Int32) :
    (ikcpUpdateAck kcp rtt).flight = kcp.flight := by
  unfold ikcpUpdateAck
  split
  · rfl
  · rfl

theorem moveAvailable_flight (buffer : List IkcpSeg) (kcp : Ikcpcb) :
    (moveAvailable buffer kcp).flight = kcp.flight := by
  obtain ⟨_, _, _, _, _, result⟩ := moveAvailable_spec buffer kcp
  rw [result]
  rfl

theorem ikcpParseData_flight (kcp : Ikcpcb) (newseg : IkcpSeg) :
    (ikcpParseData kcp newseg).flight = kcp.flight := by
  rw [ikcpParseData]
  split
  · rfl
  · exact moveAvailable_flight _ kcp

theorem applySegment_releases {start : Flight} (kcp : Ikcpcb) (scan : AckScan)
    (header : SegmentHeader) (payload : List UInt8) (releases : start.Releases kcp.flight) :
    start.Releases (applySegment kcp scan header payload).1.flight := by
  let noted : Ikcpcb := { kcp with rmt_wnd := header.wnd.toUInt32 }
  have notedBounded : noted.flight.Bounded :=
    ⟨releases.bounded.narrow, releases.bounded.first, releases.bounded.ordered,
      releases.bounded.inWindow⟩
  have announced : start.Releases noted.flight :=
    ⟨notedBounded, releases.released, releases.next, releases.window, releases.nocwnd⟩
  have begun : start.Releases (ikcpShrinkBuf (ikcpParseUna noted header.una)).flight :=
    announced.trans (notedBounded.parseUna header.una)
  rw [applySegment]
  generalize ikcpShrinkBuf (ikcpParseUna noted header.una) = opened at *
  dsimp only
  split
  · let timed := if itimediff opened.current header.ts ≥ 0 then
      ikcpUpdateAck opened (opened.current - header.ts).toInt32 else opened
    have same : timed.flight = opened.flight := flight_ite (ikcpUpdateAck_flight opened _) rfl
    have timedBounded : timed.flight.Bounded := same ▸ begun.bounded
    exact begun.trans (same ▸ timedBounded.parseAck header.sn)
  · split
    · split
      · split
        · rw [ikcpParseData_flight]
          exact begun
        · exact begun
      · exact begun
    · split
      · exact begun
      · exact begun

/-- Every segment that passes the checks announces its sender's room. -/
theorem applySegment_rmt_wnd (kcp : Ikcpcb) (scan : AckScan) (header : SegmentHeader)
    (payload : List UInt8) :
    (applySegment kcp scan header payload).1.rmt_wnd = header.wnd.toUInt32 := by
  let noted : Ikcpcb := { kcp with rmt_wnd := header.wnd.toUInt32 }
  have shrunk : ∀ kcp, (ikcpShrinkBuf kcp).rmt_wnd = kcp.rmt_wnd := by
    intro kcp
    rw [ikcpShrinkBuf]
    split <;> rfl
  have parsed : ∀ kcp, (ikcpParseAck kcp header.sn).rmt_wnd = kcp.rmt_wnd := by
    intro kcp
    rw [ikcpParseAck]
    split <;> rfl
  have timed : ∀ kcp rtt, (ikcpUpdateAck kcp rtt).rmt_wnd = kcp.rmt_wnd := by
    intro kcp rtt
    rw [← flight_rmt_wnd, ikcpUpdateAck_flight, flight_rmt_wnd]
  have placed : ∀ kcp newseg, (ikcpParseData kcp newseg).rmt_wnd = kcp.rmt_wnd := by
    intro kcp newseg
    rw [← flight_rmt_wnd, ikcpParseData_flight, flight_rmt_wnd]
  have begun : (ikcpShrinkBuf (ikcpParseUna noted header.una)).rmt_wnd = header.wnd.toUInt32 :=
    shrunk _
  rw [applySegment]
  generalize ikcpShrinkBuf (ikcpParseUna noted header.una) = opened at *
  dsimp only
  split
  · rw [shrunk, parsed, ← begun]
    split
    · exact timed opened _
    · rfl
  · split
    · split
      · split
        · rw [← begun]
          exact placed _ _
        · exact begun
      · exact begun
    · split <;> exact begun

theorem countFastack_serials (sn : UInt32) (buffer : List IkcpSeg) :
    (countFastack sn buffer).map IkcpSeg.sn = buffer.map IkcpSeg.sn := by
  induction buffer with
  | nil => rfl
  | cons seg rest ih =>
      rw [countFastack]
      split
      · rfl
      · rw [List.map_cons, List.map_cons, ih]
        split <;> rfl

theorem ikcpParseFastack_flight (kcp : Ikcpcb) (sn : UInt32) :
    (ikcpParseFastack kcp sn).flight = kcp.flight := by
  rw [ikcpParseFastack]
  split
  · rfl
  · simp only [Ikcpcb.flight, countFastack_serials]

theorem growCwnd_flight (kcp : Ikcpcb) : (growCwnd kcp).flight = kcp.flight := by
  rw [growCwnd]
  extract_lets mss incr advanced grown
  have same : grown.flight = kcp.flight := flight_ite rfl rfl
  exact flight_ite (flight_ite same same) rfl

/-- The end of `ikcp_input` leaves what is in flight to the decoding loop. -/
theorem ikcpInput_flight (kcp : Ikcpcb) {data : List UInt8} (enough : ikcpOverhead ≤ data.length) :
    (ikcpInput kcp data).1.flight = (inputLoop data.length kcp {} data).1.flight := by
  rw [ikcpInput, if_neg (Nat.not_lt.mpr enough)]
  dsimp only
  generalize inputLoop data.length kcp {} data = result
  split
  · rfl
  · let counted := if result.2.1.flag = true then ikcpParseFastack result.1 result.2.1.maxack
      else result.1
    have same : counted.flight = result.1.flight := flight_ite (ikcpParseFastack_flight _ _) rfl
    exact (flight_ite (growCwnd_flight counted) rfl).trans same

theorem ikcpInput_of_short (kcp : Ikcpcb) {data : List UInt8} (short : data.length < ikcpOverhead) :
    (ikcpInput kcp data).1 = kcp := by
  rw [ikcpInput, if_pos short]

theorem ikcpInput_releases (kcp : Ikcpcb) (data : List UInt8) (bounded : kcp.flight.Bounded) :
    kcp.flight.Releases (ikcpInput kcp data).1.flight := by
  have scanned := inputLoop_preserves (fun after => kcp.flight.Releases after.flight)
    applySegment_releases data.length kcp {} data (.refl bounded)
  rcases Nat.lt_or_ge data.length ikcpOverhead with short | enough
  · rw [ikcpInput_of_short kcp short]
    exact .refl bounded
  · rw [ikcpInput_flight kcp enough]
    exact scanned

end Release

/-! ## Sending -/

/-- What a flush does: numbers are given out, no further than `limit` ahead. -/
structure Flight.Fills (limit : Nat) (before after : Flight) : Prop where
  bounded : after.Bounded
  una : after.snd_una = before.snd_una
  next : ahead before.snd_una before.snd_nxt ≤ ahead before.snd_una after.snd_nxt
  window : after.snd_wnd = before.snd_wnd
  limited : ahead before.snd_una after.snd_nxt ≤ max (ahead before.snd_una before.snd_nxt) limit
  remote : after.rmt_wnd = before.rmt_wnd
  nocwnd : after.nocwnd = before.nocwnd

theorem Flight.Fills.none {limit : Nat} (flight : Flight) (bounded : flight.Bounded) :
    flight.Fills limit flight :=
  ⟨bounded, rfl, Nat.le_refl _, rfl, Nat.le_max_left _ _, rfl, rfl⟩

theorem Flight.Fills.moves {limit : Nat} {before after : Flight}
    (fills : before.Fills limit after) : before.Moves after := by
  refine ⟨?_, fills.next, fills.window⟩
  rw [fills.una, ahead_self]
  exact Nat.zero_le _

/-- One round of the loop, which gives out the number `snd_nxt`. -/
theorem Flight.Bounded.push {kcp : Ikcpcb} (bounded : kcp.flight.Bounded) (seg : IkcpSeg)
    (named : seg.sn = kcp.snd_nxt) (room : ahead kcp.snd_una kcp.snd_nxt < kcp.snd_wnd.toNat) :
    Flight.Bounded (Ikcpcb.flight
      { kcp with snd_buf := kcp.snd_buf ++ [seg], snd_nxt := kcp.snd_nxt + 1 }) := by
  have small : kcp.snd_wnd.toNat < 2 ^ 16 := bounded.narrow
  have advanced : ahead kcp.snd_una (kcp.snd_nxt + 1) = ahead kcp.snd_una kcp.snd_nxt + 1 :=
    ahead_succ (by omega)
  have serials : (kcp.snd_buf ++ [seg]).map IkcpSeg.sn =
      kcp.snd_buf.map IkcpSeg.sn ++ [kcp.snd_nxt] := by
    rw [List.map_append, List.map_singleton, named]
  refine ⟨small, ?_, ?_, ?_⟩
  · have first : kcp.snd_una = (kcp.snd_buf.map IkcpSeg.sn).head?.getD kcp.snd_nxt :=
      bounded.first
    simp only [Ikcpcb.flight, serials, List.head?_append]
    cases front : (kcp.snd_buf.map IkcpSeg.sn).head? with
    | none =>
        rw [front] at first
        exact first
    | some serial =>
        rw [front] at first
        exact first
  · simp only [Ikcpcb.flight, serials, advanced]
    exact bounded.ordered.push rfl
  · change ahead kcp.snd_una (kcp.snd_nxt + 1) ≤ kcp.snd_wnd.toNat
    omega

/-- The loop gives out numbers below `snd_una + cwnd` only. -/
theorem moveToSndBuf_fills (kcp : Ikcpcb) {cwnd wnd : UInt32} {queue : List IkcpSeg}
    (narrow : cwnd.toNat ≤ kcp.snd_wnd.toNat) (bounded : kcp.flight.Bounded) :
    kcp.flight.Fills cwnd.toNat (moveToSndBuf cwnd wnd queue kcp).flight := by
  induction queue generalizing kcp with
  | nil => exact .none kcp.flight bounded
  | cons newseg rest ih =>
      rw [moveToSndBuf]
      split
      · rename_i below
        have small : kcp.snd_wnd.toNat < 2 ^ 16 := bounded.narrow
        have inWindow : ahead kcp.snd_una kcp.snd_nxt ≤ kcp.snd_wnd.toNat := bounded.inWindow
        have farEnd := ahead_add kcp.snd_una cwnd
        rw [itimediff, serialDiff_ahead kcp.snd_una (by omega) (by omega), farEnd] at below
        have room : ahead kcp.snd_una kcp.snd_nxt < cwnd.toNat := by omega
        have advanced : ahead kcp.snd_una (kcp.snd_nxt + 1) = ahead kcp.snd_una kcp.snd_nxt + 1 :=
          ahead_succ (by omega)
        let seg : IkcpSeg := { newseg with
          conv := kcp.conv, cmd := ikcpCmdPush, wnd := wnd, ts := kcp.current
          sn := kcp.snd_nxt, una := kcp.rcv_nxt, resendts := kcp.current
          rto := kcp.rx_rto.toUInt32, fastack := 0, xmit := 0 }
        have pushed := bounded.push seg rfl (Nat.lt_of_lt_of_le room narrow)
        have later := ih { kcp with snd_buf := kcp.snd_buf ++ [seg], snd_nxt := kcp.snd_nxt + 1 }
          narrow pushed
        have further := later.next
        have limited := later.limited
        change ahead kcp.snd_una (kcp.snd_nxt + 1) ≤ ahead kcp.snd_una _ at further
        change ahead kcp.snd_una _ ≤ max (ahead kcp.snd_una (kcp.snd_nxt + 1)) _ at limited
        rw [advanced] at further limited
        have least : max (ahead kcp.snd_una kcp.snd_nxt + 1) cwnd.toNat ≤
            max (ahead kcp.snd_una kcp.snd_nxt) cwnd.toNat := by omega
        exact ⟨later.bounded, later.una, Nat.le_of_succ_le further, later.window,
          Nat.le_trans limited least, later.remote, later.nocwnd⟩
      · exact .none kcp.flight bounded

theorem scheduleProbe_flight (kcp : Ikcpcb) : (scheduleProbe kcp).flight = kcp.flight := by
  unfold scheduleProbe
  refine flight_ite (flight_ite ?initial (flight_ite rfl rfl)) rfl
  simp only [Ikcpcb.flight]

theorem updateSsthresh_flight (kcp : Ikcpcb) (cwnd : UInt32) (resend : Resend) :
    (updateSsthresh kcp cwnd resend).flight = kcp.flight := by
  unfold updateSsthresh
  extract_lets resent inflight ssthresh changed half lost
  have sameChanged : changed.flight = kcp.flight := flight_ite rfl rfl
  have sameLost : lost.flight = kcp.flight := flight_ite sameChanged sameChanged
  exact flight_ite sameLost sameLost

theorem serials_of_sameSegs {before after : List IkcpSeg}
    (same : List.Forall₂ SameSeg before after) :
    after.map IkcpSeg.sn = before.map IkcpSeg.sn := by
  induction same with
  | nil => rfl
  | cons first _ ih => rw [List.map_cons, List.map_cons, first.sn, ih]

theorem imin_le_right (left right : UInt32) : (imin left right).toNat ≤ right.toNat := by
  rw [imin]
  split
  · rename_i less
    exact UInt32.le_iff_toNat_le.mp less
  · exact Nat.le_refl _

theorem imin_le_left (left right : UInt32) : (imin left right).toNat ≤ left.toNat := by
  rw [imin]
  split
  · exact Nat.le_refl _
  · rename_i less
    rw [UInt32.le_iff_toNat_le] at less
    omega

theorem ikcpFlush_fills (kcp : Ikcpcb) (bounded : kcp.flight.Bounded) :
    kcp.flight.Fills kcp.rmt_wnd.toNat (ikcpFlush kcp).1.flight := by
  rw [ikcpFlush]
  split
  · exact .none _ bounded
  · extract_lets acked acks cleared packer wnd window cwnd moving
    have probed : cleared.flight = kcp.flight := scheduleProbe_flight _
    have remote : cleared.rmt_wnd = kcp.rmt_wnd := congrArg Flight.rmt_wnd probed
    have least : window.toNat ≤ cleared.snd_wnd.toNat := imin_le_left _ _
    have known : window.toNat ≤ cleared.rmt_wnd.toNat := imin_le_right _ _
    have smaller : cwnd.toNat ≤ window.toNat := by
      unfold cwnd
      split
      · exact imin_le_right _ _
      · exact Nat.le_refl _
    have start : ({ cleared with probe := 0 } : Ikcpcb).flight.Bounded := by
      change cleared.flight.Bounded
      rw [probed]
      exact bounded
    have fills : cleared.flight.Fills cwnd.toNat moving.flight :=
      moveToSndBuf_fills { cleared with probe := 0 } (Nat.le_trans smaller least) start
    rw [probed] at fills
    rw [remote] at known
    have sameSegs := flushSegments_sameSegs moving wnd moving.snd_buf
      { packer := packer, xmit := moving.xmit, state := moving.state }
    generalize flushSegments moving wnd moving.snd_buf
      { packer := packer, xmit := moving.xmit, state := moving.state } = flushed at *
    obtain ⟨sent, resend⟩ := flushed
    let closing : Ikcpcb :=
      { moving with snd_buf := sent, xmit := resend.xmit, state := resend.state }
    have same : (updateSsthresh closing cwnd resend).flight = moving.flight := by
      rw [updateSsthresh_flight]
      change Flight.mk _ _ _ _ _ (sent.map IkcpSeg.sn) = _
      rw [serials_of_sameSegs sameSegs]
      rfl
    change kcp.flight.Fills kcp.rmt_wnd.toNat (updateSsthresh closing cwnd resend).flight
    rw [same]
    have limited := fills.limited
    exact ⟨fills.bounded, fills.una, fills.next, fills.window, by omega, fills.remote,
      fills.nocwnd⟩

theorem ikcpUpdate_fills {kcp : Ikcpcb} (bounded : kcp.flight.Bounded) (now : UInt32) :
    kcp.flight.Fills kcp.rmt_wnd.toNat (ikcpUpdate kcp now).1.flight := by
  unfold ikcpUpdate
  extract_lets timed started slap late restarted slap' ts_flush
  have sameStarted : started.flight = kcp.flight := flight_ite rfl rfl
  have same : restarted.flight = kcp.flight := flight_ite sameStarted sameStarted
  have remote : restarted.rmt_wnd = kcp.rmt_wnd := congrArg Flight.rmt_wnd same
  rw [← same] at bounded ⊢
  rw [← remote]
  clear_value restarted
  split
  · let flushing : Ikcpcb := { restarted with
      ts_flush := if itimediff restarted.current ts_flush ≥ 0 then
        restarted.current + restarted.interval else ts_flush }
    exact ikcpFlush_fills flushing bounded
  · exact .none _ bounded

end FiberKcp.Ikcp
