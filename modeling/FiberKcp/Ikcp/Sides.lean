import FiberKcp.Ikcp.Flush

namespace FiberKcp.Ikcp

/-! The two halves of a control block and what each function leaves alone. -/

/-- What the peer's user gets of a segment. -/
def IkcpSeg.payload (seg : IkcpSeg) : List UInt8 × UInt32 := (seg.data, seg.frg)

/-- The fields that carry outgoing segments. -/
structure SendSide where
  snd_queue : List IkcpSeg
  snd_buf : List IkcpSeg
  snd_nxt : UInt32

/-- The fields that carry incoming segments. -/
structure RecvSide where
  rcv_queue : List IkcpSeg
  rcv_buf : List IkcpSeg
  rcv_nxt : UInt32
  rcv_wnd : UInt32
  nrcv_que : UInt32

/-- The fields no function changes once the block is set up. -/
structure Setup where
  conv : UInt32
  mtu : UInt32
  mss : UInt32
  stream : Int32

def Ikcpcb.sendSide (kcp : Ikcpcb) : SendSide where
  snd_queue := kcp.snd_queue
  snd_buf := kcp.snd_buf
  snd_nxt := kcp.snd_nxt

def Ikcpcb.recvSide (kcp : Ikcpcb) : RecvSide where
  rcv_queue := kcp.rcv_queue
  rcv_buf := kcp.rcv_buf
  rcv_nxt := kcp.rcv_nxt
  rcv_wnd := kcp.rcv_wnd
  nrcv_que := kcp.nrcv_que

def Ikcpcb.setup (kcp : Ikcpcb) : Setup where
  conv := kcp.conv
  mtu := kcp.mtu
  mss := kcp.mss
  stream := kcp.stream

/-- `after` differs from `before` in neither half nor the acknowledgements owed,
only in timers, windows and estimates. -/
structure SameTraffic (before after : Ikcpcb) : Prop where
  sendSide : after.sendSide = before.sendSide
  recvSide : after.recvSide = before.recvSide
  setup : after.setup = before.setup
  acklist : after.acklist = before.acklist

theorem SameTraffic.refl (kcp : Ikcpcb) : SameTraffic kcp kcp := ⟨rfl, rfl, rfl, rfl⟩

theorem SameTraffic.trans {first second third : Ikcpcb} (left : SameTraffic first second)
    (right : SameTraffic second third) : SameTraffic first third :=
  ⟨right.sendSide.trans left.sendSide, right.recvSide.trans left.recvSide,
    right.setup.trans left.setup, right.acklist.trans left.acklist⟩

/-- The fields that `ikcp_update` sets itself. -/
theorem SameTraffic.clock (kcp : Ikcpcb) (current updated ts_flush : UInt32) :
    SameTraffic kcp { kcp with current, updated, ts_flush } :=
  ⟨rfl, rfl, rfl, rfl⟩

theorem SameTraffic.ite {kcp left right : Ikcpcb} {condition : Prop} [Decidable condition]
    (sameLeft : SameTraffic kcp left) (sameRight : SameTraffic kcp right) :
    SameTraffic kcp (if condition then left else right) := by
  split
  · exact sameLeft
  · exact sameRight

theorem ikcpNodelay_sameTraffic (kcp : Ikcpcb) (nodelay interval resend nc : Int32) :
    SameTraffic kcp (ikcpNodelay kcp nodelay interval resend nc) := by
  unfold ikcpNodelay
  extract_lets timed paced resent
  have sameTimed : SameTraffic kcp timed := .ite ⟨rfl, rfl, rfl, rfl⟩ (.refl kcp)
  have samePaced : SameTraffic kcp paced :=
    .ite (sameTimed.trans ⟨rfl, rfl, rfl, rfl⟩) sameTimed
  have sameResent : SameTraffic kcp resent :=
    .ite (samePaced.trans ⟨rfl, rfl, rfl, rfl⟩) samePaced
  exact .ite (sameResent.trans ⟨rfl, rfl, rfl, rfl⟩) sameResent

/-- A new control block has nothing in either half. -/
theorem ikcpWndsize_ikcpCreate (conv : UInt32) (sndwnd rcvwnd : Int32) :
    (ikcpWndsize (ikcpCreate conv) sndwnd rcvwnd).sendSide = ⟨[], [], 0⟩ ∧
      (∃ wnd, (ikcpWndsize (ikcpCreate conv) sndwnd rcvwnd).recvSide = ⟨[], [], 0, wnd, 0⟩) ∧
      (ikcpWndsize (ikcpCreate conv) sndwnd rcvwnd).setup = ⟨conv, 1400, 1376, 0⟩ ∧
      (ikcpWndsize (ikcpCreate conv) sndwnd rcvwnd).acklist = [] := by
  unfold ikcpWndsize
  split
  · split <;> exact ⟨rfl, ⟨_, rfl⟩, rfl, rfl⟩
  · split <;> exact ⟨rfl, ⟨_, rfl⟩, rfl, rfl⟩

theorem ikcpUpdateAck_sameTraffic (kcp : Ikcpcb) (rtt : Int32) :
    SameTraffic kcp (ikcpUpdateAck kcp rtt) := by
  unfold ikcpUpdateAck
  split <;> exact ⟨rfl, rfl, rfl, rfl⟩

theorem ikcpShrinkBuf_sameTraffic (kcp : Ikcpcb) : SameTraffic kcp (ikcpShrinkBuf kcp) := by
  unfold ikcpShrinkBuf
  split <;> exact ⟨rfl, rfl, rfl, rfl⟩

theorem growCwnd_sameTraffic (kcp : Ikcpcb) : SameTraffic kcp (growCwnd kcp) := by
  unfold growCwnd
  refine .ite ?_ (.refl kcp)
  extract_lets mss incr advanced grown
  have same : SameTraffic kcp grown := .ite ⟨rfl, rfl, rfl, rfl⟩ ⟨rfl, rfl, rfl, rfl⟩
  exact .ite (same.trans ⟨rfl, rfl, rfl, rfl⟩) same

theorem scheduleProbe_sameTraffic (kcp : Ikcpcb) : SameTraffic kcp (scheduleProbe kcp) := by
  unfold scheduleProbe
  refine .ite (.ite ?initial (.ite ⟨rfl, rfl, rfl, rfl⟩ (.refl kcp))) ⟨rfl, rfl, rfl, rfl⟩
  constructor <;> simp only [Ikcpcb.sendSide, Ikcpcb.recvSide, Ikcpcb.setup]

theorem updateSsthresh_sameTraffic (kcp : Ikcpcb) (cwnd : UInt32) (resend : Resend) :
    SameTraffic kcp (updateSsthresh kcp cwnd resend) := by
  unfold updateSsthresh
  extract_lets resent inflight ssthresh changed half lost
  have sameChanged : SameTraffic kcp changed := .ite ⟨rfl, rfl, rfl, rfl⟩ (.refl kcp)
  have sameLost : SameTraffic kcp lost :=
    sameChanged.trans (.ite ⟨rfl, rfl, rfl, rfl⟩ (.refl changed))
  exact sameLost.trans (.ite ⟨rfl, rfl, rfl, rfl⟩ (.refl lost))

end FiberKcp.Ikcp
