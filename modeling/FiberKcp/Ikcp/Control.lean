import FiberKcp.Data.Serial

namespace FiberKcp.Ikcp

open FiberKcp.Data

/-! The control block of `ikcp.c` and the functions that set it up.

Queues are lists, front first.  Only the fields that some modelled function
reads or the protocol state consists of are kept; the output and log callbacks,
the scratch buffer and the counters `nrcv_buf`, `nsnd_buf` and `nsnd_que`, which
are the lengths of these lists, are not.
-/

def ikcpRtoNdl : UInt32 := 30
def ikcpRtoMin : UInt32 := 100
def ikcpRtoDef : UInt32 := 200
def ikcpRtoMax : UInt32 := 60000
def ikcpCmdPush : UInt32 := 81
def ikcpCmdAck : UInt32 := 82
def ikcpCmdWask : UInt32 := 83
def ikcpCmdWins : UInt32 := 84
def ikcpAskSend : UInt32 := 1
def ikcpAskTell : UInt32 := 2
def ikcpWndSnd : UInt32 := 32
def ikcpWndRcv : UInt32 := 128
def ikcpMtuDef : UInt32 := 1400
def ikcpInterval : UInt32 := 100
def ikcpOverhead : Nat := 24
def ikcpDeadlink : UInt32 := 20
def ikcpThreshInit : UInt32 := 2
def ikcpThreshMin : UInt32 := 2
def ikcpProbeInit : UInt32 := 7000
def ikcpProbeLimit : UInt32 := 120000
def ikcpFastackLimit : Int32 := 5

def imin (a b : UInt32) : UInt32 := if a ≤ b then a else b

def imax (a b : UInt32) : UInt32 := if a ≥ b then a else b

def ibound (lower middle upper : UInt32) : UInt32 := imin (imax lower middle) upper

def itimediff (later earlier : UInt32) : Int := serialDiff later earlier

/-- `IKCPSEG`; `len` is the length of `data`. -/
structure IkcpSeg where
  conv : UInt32 := 0
  cmd : UInt32 := 0
  frg : UInt32 := 0
  wnd : UInt32 := 0
  ts : UInt32 := 0
  sn : UInt32 := 0
  una : UInt32 := 0
  resendts : UInt32 := 0
  rto : UInt32 := 0
  fastack : UInt32 := 0
  xmit : UInt32 := 0
  data : List UInt8 := []
deriving DecidableEq, Repr

/-- `IKCPCB`; `acklist` holds `ackcount` pairs of `sn` and `ts`. -/
structure Ikcpcb where
  conv : UInt32
  mtu : UInt32
  mss : UInt32
  state : UInt32
  snd_una : UInt32
  snd_nxt : UInt32
  rcv_nxt : UInt32
  ssthresh : UInt32
  rx_rttval : Int32
  rx_srtt : Int32
  rx_rto : Int32
  rx_minrto : Int32
  snd_wnd : UInt32
  rcv_wnd : UInt32
  rmt_wnd : UInt32
  cwnd : UInt32
  probe : UInt32
  current : UInt32
  interval : UInt32
  ts_flush : UInt32
  xmit : UInt32
  nrcv_que : UInt32
  nodelay : UInt32
  updated : UInt32
  ts_probe : UInt32
  probe_wait : UInt32
  dead_link : UInt32
  incr : UInt32
  snd_queue : List IkcpSeg
  rcv_queue : List IkcpSeg
  snd_buf : List IkcpSeg
  rcv_buf : List IkcpSeg
  acklist : List (UInt32 × UInt32)
  fastresend : Int32
  fastlimit : Int32
  nocwnd : Int32
  stream : Int32
deriving DecidableEq, Repr

def ikcpCreate (conv : UInt32) : Ikcpcb where
  conv := conv
  snd_una := 0
  snd_nxt := 0
  rcv_nxt := 0
  ts_probe := 0
  probe_wait := 0
  snd_wnd := ikcpWndSnd
  rcv_wnd := ikcpWndRcv
  rmt_wnd := ikcpWndRcv
  cwnd := 0
  incr := 0
  probe := 0
  mtu := ikcpMtuDef
  mss := ikcpMtuDef - UInt32.ofNat ikcpOverhead
  stream := 0
  snd_queue := []
  rcv_queue := []
  snd_buf := []
  rcv_buf := []
  nrcv_que := 0
  state := 0
  acklist := []
  rx_srtt := 0
  rx_rttval := 0
  rx_rto := ikcpRtoDef.toInt32
  rx_minrto := ikcpRtoMin.toInt32
  current := 0
  interval := ikcpInterval
  ts_flush := ikcpInterval
  nodelay := 0
  updated := 0
  ssthresh := ikcpThreshInit
  fastresend := 0
  fastlimit := ikcpFastackLimit
  nocwnd := 0
  xmit := 0
  dead_link := ikcpDeadlink

def ikcpWndsize (kcp : Ikcpcb) (sndwnd rcvwnd : Int32) : Ikcpcb :=
  let kcp := if sndwnd > 0 then { kcp with snd_wnd := sndwnd.toUInt32 } else kcp
  if rcvwnd > 0 then { kcp with rcv_wnd := imax rcvwnd.toUInt32 ikcpWndRcv } else kcp

def ikcpNodelay (kcp : Ikcpcb) (nodelay interval resend nc : Int32) : Ikcpcb :=
  let kcp :=
    if nodelay ≥ 0 then
      { kcp with
        nodelay := nodelay.toUInt32
        rx_minrto := if nodelay ≠ 0 then ikcpRtoNdl.toInt32 else ikcpRtoMin.toInt32 }
    else kcp
  let kcp :=
    if interval ≥ 0 then
      { kcp with
        interval := if interval > 5000 then 5000 else if interval < 10 then 10
          else interval.toUInt32 }
    else kcp
  let kcp := if resend ≥ 0 then { kcp with fastresend := resend } else kcp
  if nc ≥ 0 then { kcp with nocwnd := nc } else kcp

theorem itimediff_eq {later earlier : UInt32}
    (lower : earlier.toNat ≤ later.toNat + 2 ^ 31) (upper : later.toNat < earlier.toNat + 2 ^ 31) :
    itimediff later earlier = (later.toNat : Int) - earlier.toNat := serialDiff_eq lower upper

end FiberKcp.Ikcp
