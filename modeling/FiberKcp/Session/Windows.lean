import FiberKcp.Ikcp.ReceiveWindow
import FiberKcp.Ikcp.SendWindow
import FiberKcp.Session.RoundTrip

namespace FiberKcp

open Data Ikcp

/-! The windows of an object over a whole run, whatever datagrams arrive. -/

/-- `ikcp_wndsize` keeps the 32 of `ikcp_create` for zero. -/
def KcpAttr.sendWindow (attr : KcpAttr) : Nat :=
  if attr.sendWndSize = 0 then 32 else attr.sendWndSize.toNat

/-- `ikcp_wndsize` takes 128 for anything smaller. -/
def KcpAttr.receiveWindow (attr : KcpAttr) : Nat := max attr.recvWndSize.toNat 128

theorem ofNat_pos_iff (size : UInt16) : Int32.ofNat size.toNat > 0 ↔ size ≠ 0 := by
  have bound := size.toNat_lt
  have value : (Int32.ofNat size.toNat).toInt = size.toNat := by
    rw [Int32.toInt_ofNat_of_lt (by omega)]
  rw [gt_iff_lt, Int32.lt_iff_toInt_lt, value]
  constructor
  · intro positive zero
    rw [zero] at positive
    exact absurd positive (by decide)
  · intro nonzero
    have apart : size.toNat ≠ 0 := fun zero => nonzero (UInt16.toNat_inj.mp zero)
    change (0 : Int) < size.toNat
    omega

theorem ikcpNodelay_flight (kcp : Ikcpcb) (nodelay interval resend nc : Int32) :
    (ikcpNodelay kcp nodelay interval resend nc).flight =
      { kcp.flight with nocwnd := if nc ≥ 0 then nc else kcp.nocwnd } := by
  unfold ikcpNodelay
  extract_lets timed paced resent
  have sameTimed : timed.flight = kcp.flight := flight_ite rfl rfl
  have samePaced : paced.flight = kcp.flight := flight_ite sameTimed sameTimed
  have sameResent : resent.flight = kcp.flight := flight_ite samePaced samePaced
  split
  · exact congrArg (fun flight => { flight with nocwnd := nc }) sameResent
  · exact sameResent

/-! ## The receive window -/

/-- What is kept of the messages that arrive. -/
structure Kcp.Held (attr : KcpAttr) (kcp : Kcp) : Prop where
  counted : kcp.mKcpHandle.recvSide.Counted
  bounded : kcp.mKcpHandle.recvSide.Bounded
  window : kcp.mKcpHandle.rcv_wnd.toNat = attr.receiveWindow

theorem init_rcv_wnd (attr : KcpAttr) :
    (Kcp.init attr).mKcpHandle.rcv_wnd.toNat = attr.receiveWindow := by
  unfold Kcp.init
  rw [ikcpNodelay_window]
  unfold ikcpWndsize
  extract_lets sized
  have window : sized.rcv_wnd = ikcpWndRcv := by
    unfold sized
    split <;> rfl
  have least : ikcpWndRcv.toNat = 128 := rfl
  rw [KcpAttr.receiveWindow]
  split
  · change (imax (Int32.ofNat attr.recvWndSize.toNat).toUInt32 ikcpWndRcv).toNat = _
    have size := toNat_ofUInt16 attr.recvWndSize
    rw [imax]
    split
    · rename_i larger
      rw [ge_iff_le, UInt32.le_iff_toNat_le, size] at larger
      rw [size]
      omega
    · rename_i larger
      rw [ge_iff_le, UInt32.le_iff_toNat_le, size] at larger
      omega
  · rename_i zero
    have none : attr.recvWndSize = 0 := by
      by_contra nonzero
      exact zero ((ofNat_pos_iff _).mpr nonzero)
    rw [window, none]
    rfl

theorem held_init (attr : KcpAttr) : (Kcp.init attr).Held attr := by
  have narrow := init_window attr
  obtain ⟨_, ⟨wnd, recvSide⟩, _⟩ := init_traffic attr
  have window : (Kcp.init attr).mKcpHandle.rcv_wnd = wnd := congrArg RecvSide.rcv_wnd recvSide
  rw [window] at narrow
  refine ⟨init_counted attr, ?_, init_rcv_wnd attr⟩
  rw [recvSide]
  exact ⟨narrow, rfl, Nat.zero_le _, ordered_nil _ _, by simp⟩

theorem receiveAll_bounded {kcp : Kcp} (locals : InputLocals) (batch : List Datagram)
    (bounded : kcp.mKcpHandle.recvSide.Bounded) :
    (kcp.receiveAll locals batch).1.mKcpHandle.recvSide.Bounded := by
  induction batch generalizing kcp locals with
  | nil => exact bounded
  | cons datagram rest ih =>
      rw [Kcp.receiveAll_cons]
      apply ih
      rw [Kcp.receive]
      dsimp only
      split
      · exact bounded
      · exact ikcpInput_bounded _ bounded

theorem Kcp.Held.perform {attr : KcpAttr} {before after : Kcp} {call : KcpCall}
    (held : before.Held attr) (performed : before.perform call = some after) :
    after.Held attr := by
  have counted := perform_counted held.counted performed
  cases call with
  | send buffer =>
      cases performed
      exact ⟨counted, held.bounded, held.window⟩
  | outputRoutine now =>
      cases performed
      have same : (before.outputRoutine now).1.mKcpHandle.recvSide = before.mKcpHandle.recvSide :=
        (ikcpUpdate_flushed _ now).recvSide.trans (sendQueue_recvSide _ _)
      have window : (before.outputRoutine now).1.mKcpHandle.rcv_wnd = before.mKcpHandle.rcv_wnd :=
        congrArg RecvSide.rcv_wnd same
      exact ⟨counted, same ▸ held.bounded, window ▸ held.window⟩
  | inputRoutine batch =>
      cases performed
      have fed := receiveAll_counted {} batch held.counted
      have bounded := receiveAll_bounded {} batch held.bounded
      refine ⟨counted, ?_, (inputRoutine_trimmed held.counted batch).window ▸ held.window⟩
      rw [Kcp.inputRoutine, deliver_eq _ fed]
      split
      · rename_i taken
        change (ikcpRecv _ _).1.recvSide.Bounded
        rw [(ikcpRecv_eq fed taken.1).1.recvSide]
        exact takeMessage_bounded bounded
      · exact bounded

theorem reached_held {attr : KcpAttr} {calls : List KcpCall} {kcp : Kcp}
    (run : Run Kcp.perform anyStep (Kcp.init attr) calls kcp) : kcp.Held attr :=
  run.invariant _ (held_init attr) fun held _ performed => held.perform performed

/-- Whatever arrives, the receive queues stay within `attr.receiveWindow`, and what
is in order and has room is never kept back. -/
theorem receive_window_kept {attr : KcpAttr} {calls : List KcpCall} {kcp : Kcp}
    (run : Run Kcp.perform anyStep (Kcp.init attr) calls kcp) :
    kcp.mKcpHandle.recvSide.Bounded ∧ kcp.mKcpHandle.rcv_wnd.toNat = attr.receiveWindow ∧
      kcp.mKcpHandle.rcv_buf.length ≤ attr.receiveWindow := by
  have held := reached_held run
  refine ⟨held.bounded, held.window, ?_⟩
  have length := held.bounded.buffer.length_le
  rw [List.length_map] at length
  exact held.window ▸ length

/-- Three segments arrive in reverse order and one of them again. -/
theorem receive_window_kept_reversed :
    ∃ kcp, Run Kcp.perform anyStep (Kcp.init { conv := 7 })
        [.inputRoutine [pushes [(2, [3]), (1, [2]), (2, [3])]]] kcp ∧
      kcp.mKcpHandle.rcv_buf.map IkcpSeg.sn = [1, 2] ∧
      kcp.mKcpHandle.recvSide.Bounded ∧ kcp.mKcpHandle.rcv_wnd.toNat = 512 ∧
      kcp.mKcpHandle.rcv_buf.length ≤ 512 := by
  have run : Run Kcp.perform anyStep (Kcp.init { conv := 7 })
      [.inputRoutine [pushes [(2, [3]), (1, [2]), (2, [3])]]] _ := Run.of_execute rfl
  exact ⟨_, run, by decide +kernel, receive_window_kept run⟩

/-! ## The send window -/

theorem ikcpSend_flight (kcp : Ikcpcb) (buffer : List UInt8) (len : Int32) :
    (ikcpSend kcp buffer len).1.flight = kcp.flight := by
  have appended : (appendToPrevious kcp buffer len.toInt.toNat).1.flight = kcp.flight := by
    rw [appendToPrevious]
    split
    · rfl
    · split <;> rfl
  rw [ikcpSend]
  split
  · rfl
  · by_cases streaming : kcp.stream ≠ 0
    · rw [if_pos streaming]
      dsimp only
      split
      · exact appended
      · split <;> exact appended
    · rw [if_neg streaming]
      dsimp only
      split
      · rfl
      · split <;> rfl

theorem sendQueue_flight (queue : List (List UInt8)) (handle : Ikcpcb) :
    (sendQueue queue handle).1.flight = handle.flight := by
  induction queue generalizing handle with
  | nil => rfl
  | cons buffer rest ih => exact (ih _).trans (ikcpSend_flight handle buffer _)

theorem ikcpRecv_flight (kcp : Ikcpcb) (len : Int) :
    (ikcpRecv kcp len).1.flight = kcp.flight := by
  rw [ikcpRecv]
  dsimp only
  split
  · rfl
  · split
    · rfl
    · split
      · rfl
      · exact flight_ite ((moveAvailable_flight _ _).trans (flight_ite rfl rfl))
          ((moveAvailable_flight _ _).trans (flight_ite rfl rfl))

theorem deliver_flight (kcp : Kcp) (locals : InputLocals) :
    (kcp.deliver locals).1.mKcpHandle.flight = kcp.mKcpHandle.flight := by
  have received := ikcpRecv_flight kcp.mKcpHandle (ikcpPeeksize kcp.mKcpHandle)
  rw [Kcp.deliver]
  dsimp only
  split
  · split <;> exact received
  · rfl

theorem receiveAll_releases {start : Flight} (kcp : Kcp) (locals : InputLocals)
    (batch : List Datagram) (releases : start.Releases kcp.mKcpHandle.flight) :
    start.Releases (kcp.receiveAll locals batch).1.mKcpHandle.flight := by
  induction batch generalizing kcp locals with
  | nil => exact releases
  | cons datagram rest ih =>
      rw [Kcp.receiveAll_cons]
      apply ih
      rw [Kcp.receive]
      dsimp only
      split
      · exact releases
      · exact releases.trans (ikcpInput_releases _ _ releases.bounded)

theorem perform_flight {before after : Kcp} {call : KcpCall}
    (bounded : before.mKcpHandle.flight.Bounded) (performed : before.perform call = some after) :
    after.mKcpHandle.flight.Bounded ∧
      before.mKcpHandle.flight.Moves after.mKcpHandle.flight ∧
      after.mKcpHandle.nocwnd = before.mKcpHandle.nocwnd := by
  cases call with
  | send buffer =>
      cases performed
      exact ⟨bounded, .refl _, rfl⟩
  | outputRoutine now =>
      cases performed
      have same := sendQueue_flight before.mSendBufQueue before.mKcpHandle
      have nocwnd := congrArg Flight.nocwnd same
      rw [← same] at bounded ⊢
      have fills := ikcpUpdate_fills bounded now
      exact ⟨fills.bounded, fills.moves, fills.nocwnd.trans nocwnd⟩
  | inputRoutine batch =>
      cases performed
      have released := receiveAll_releases before {} batch (.refl bounded)
      have same : (before.inputRoutine batch).1.mKcpHandle.flight =
          (before.receiveAll {} batch).1.mKcpHandle.flight := deliver_flight _ _
      have nocwnd := (congrArg Flight.nocwnd same).trans released.nocwnd
      rw [same]
      exact ⟨released.bounded, ⟨released.released, by rw [released.next], released.window⟩, nocwnd⟩

theorem ikcpWndsize_flight (conv : UInt32) (sndwnd rcvwnd : Int32) :
    (ikcpWndsize (ikcpCreate conv) sndwnd rcvwnd).flight =
      ⟨0, 0, if sndwnd > 0 then sndwnd.toUInt32 else ikcpWndSnd, ikcpWndRcv, 0, []⟩ := by
  unfold ikcpWndsize
  split
  · exact flight_ite rfl rfl
  · exact flight_ite rfl rfl

theorem init_flight (attr : KcpAttr) :
    ∃ wnd, (Kcp.init attr).mKcpHandle.flight = ⟨0, 0, wnd, ikcpWndRcv, 1, []⟩ ∧
      wnd.toNat = attr.sendWindow := by
  have sized := ikcpWndsize_flight attr.conv (Int32.ofNat attr.sendWndSize.toNat)
    (Int32.ofNat attr.recvWndSize.toNat)
  refine ⟨_, (ikcpNodelay_flight _ _ _ _ _).trans (by rw [sized]; rfl), ?_⟩
  rw [KcpAttr.sendWindow]
  by_cases zero : attr.sendWndSize = 0
  · rw [if_pos zero, zero]
    decide
  · rw [if_pos ((ofNat_pos_iff _).mpr zero), if_neg zero]
    exact toNat_ofUInt16 _

theorem flight_init (attr : KcpAttr) :
    (Kcp.init attr).mKcpHandle.flight.Bounded ∧
      (Kcp.init attr).mKcpHandle.snd_wnd.toNat = attr.sendWindow ∧
      (Kcp.init attr).mKcpHandle.nocwnd = 1 := by
  obtain ⟨wnd, flight, window⟩ := init_flight attr
  have size := attr.sendWndSize.toNat_lt
  have narrow : wnd.toNat < 2 ^ 16 := by
    rw [window, KcpAttr.sendWindow]
    split <;> omega
  refine ⟨?_, (congrArg (fun flight => flight.snd_wnd.toNat) flight).trans window,
    congrArg Flight.nocwnd flight⟩
  rw [flight]
  refine ⟨narrow, rfl, ordered_nil _ _, ?_⟩
  rw [ahead_self]
  exact Nat.zero_le _

theorem reached_flight {attr : KcpAttr} {calls : List KcpCall} {kcp : Kcp}
    (run : Run Kcp.perform anyStep (Kcp.init attr) calls kcp) :
    kcp.mKcpHandle.flight.Bounded ∧ kcp.mKcpHandle.snd_wnd.toNat = attr.sendWindow ∧
      kcp.mKcpHandle.nocwnd = 1 := by
  apply run.invariant (fun kcp => kcp.mKcpHandle.flight.Bounded ∧
    kcp.mKcpHandle.snd_wnd.toNat = attr.sendWindow ∧ kcp.mKcpHandle.nocwnd = 1) (flight_init attr)
  intro before after call inv _ performed
  obtain ⟨later, moves, nocwnd⟩ := perform_flight inv.1 performed
  have same : after.mKcpHandle.snd_wnd = before.mKcpHandle.snd_wnd := moves.window
  exact ⟨later, same ▸ inv.2.1, nocwnd.trans inv.2.2⟩

/-- Whatever arrives, the numbers in flight are those from `snd_una` below
`snd_nxt`, never more of them than `attr.sendWindow`.  The next call moves
`snd_una` over numbers in flight only and never takes back a number given out. -/
theorem send_window_kept {attr : KcpAttr} {calls : List KcpCall} {kcp : Kcp}
    (run : Run Kcp.perform anyStep (Kcp.init attr) calls kcp) :
    kcp.mKcpHandle.flight.Bounded ∧ kcp.mKcpHandle.snd_wnd.toNat = attr.sendWindow ∧
      kcp.mKcpHandle.snd_buf.length ≤ attr.sendWindow ∧
      ∀ call after, kcp.perform call = some after →
        kcp.mKcpHandle.flight.Moves after.mKcpHandle.flight := by
  obtain ⟨bounded, window, _⟩ := reached_flight run
  refine ⟨bounded, window, ?_, fun call after performed => (perform_flight bounded performed).2.1⟩
  have length := bounded.ordered.length_le
  have inWindow := bounded.inWindow
  simp only [Ikcpcb.flight, List.length_map] at length inWindow
  omega

/-- Of three segments in a window of two, one is sent after an acknowledgement. -/
theorem send_window_kept_narrow :
    ∃ kcp, Run Kcp.perform anyStep (Kcp.init { conv := 7, sendWndSize := 2 })
        [.send [1], .send [2], .send [3], .outputRoutine 0,
          .inputRoutine [⟨segBytes { conv := 7, cmd := ikcpCmdAck, wnd := 128, una := 1 }, {}⟩],
          .outputRoutine 100] kcp ∧
      kcp.mKcpHandle.snd_buf.map IkcpSeg.sn = [1, 2] ∧
      kcp.mKcpHandle.flight.Bounded ∧ kcp.mKcpHandle.snd_wnd.toNat = 2 ∧
      kcp.mKcpHandle.snd_buf.length ≤ 2 ∧
      ∀ call after, kcp.perform call = some after →
        kcp.mKcpHandle.flight.Moves after.mKcpHandle.flight := by
  have run : Run Kcp.perform anyStep (Kcp.init { conv := 7, sendWndSize := 2 })
      [.send [1], .send [2], .send [3], .outputRoutine 0,
        .inputRoutine [⟨segBytes { conv := 7, cmd := ikcpCmdAck, wnd := 128, una := 1 }, {}⟩],
        .outputRoutine 100] _ := Run.of_execute rfl
  exact ⟨_, run, by decide +kernel, send_window_kept run⟩

end FiberKcp
