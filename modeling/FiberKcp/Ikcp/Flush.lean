import FiberKcp.Ikcp.Input

namespace FiberKcp.Ikcp

open FiberKcp.Data

/-! `ikcp_flush` and `ikcp_update`. -/

def ikcpEncodeSeg (seg : IkcpSeg) : List UInt8 :=
  bytes32 seg.conv ++ [seg.cmd.toUInt8] ++ [seg.frg.toUInt8] ++ bytes16 seg.wnd.toUInt16 ++
    bytes32 seg.ts ++ bytes32 seg.sn ++ bytes32 seg.una ++ bytes32 (UInt32.ofNat seg.data.length)

def ikcpWndUnused (kcp : Ikcpcb) : UInt32 :=
  if kcp.nrcv_que < kcp.rcv_wnd then kcp.rcv_wnd - kcp.nrcv_que else 0

/-- The scratch buffer up to `ptr`, and the datagrams handed to `ikcp_output`
so far. -/
structure Packer where
  output : List (List UInt8) := []
  buffer : List UInt8 := []
deriving DecidableEq, Repr

/-- `ikcp_output` of the buffer, which sends nothing when the size is zero. -/
def Packer.flush (packer : Packer) : Packer :=
  { output := if packer.buffer.isEmpty then packer.output else packer.output ++ [packer.buffer]
    buffer := [] }

/-- Append an encoded segment, sending the buffer first when it has no room. -/
def Packer.append (packer : Packer) (mtu : UInt32) (seg : IkcpSeg) : Packer :=
  let packer :=
    if packer.buffer.length + (ikcpOverhead + seg.data.length) > mtu.toNat then packer.flush
    else packer
  { packer with buffer := packer.buffer ++ (ikcpEncodeSeg seg ++ seg.data) }

/-- The segment `ikcp_flush` reuses for acknowledgements and probes. -/
def controlSeg (kcp : Ikcpcb) : IkcpSeg where
  conv := kcp.conv
  cmd := ikcpCmdAck
  wnd := ikcpWndUnused kcp
  una := kcp.rcv_nxt

def flushAcks (kcp : Ikcpcb) (packer : Packer) : Packer :=
  kcp.acklist.foldl (fun packer ack =>
    packer.append kcp.mtu { controlSeg kcp with sn := ack.1, ts := ack.2 }) packer

/-- `seg.sn` and `seg.ts` keep the last acknowledgement's values in the probes. -/
def probeSeg (kcp : Ikcpcb) (cmd : UInt32) : IkcpSeg :=
  let last := kcp.acklist.getLast?.getD (0, 0)
  { controlSeg kcp with cmd := cmd, sn := last.1, ts := last.2 }

/-- "Probe window size (if remote window size equals zero)". -/
def scheduleProbe (kcp : Ikcpcb) : Ikcpcb :=
  if kcp.rmt_wnd = 0 then
    if kcp.probe_wait = 0 then
      { kcp with probe_wait := ikcpProbeInit, ts_probe := kcp.current + ikcpProbeInit }
    else if itimediff kcp.current kcp.ts_probe ≥ 0 then
      let wait := if kcp.probe_wait < ikcpProbeInit then ikcpProbeInit else kcp.probe_wait
      let wait := wait + wait / 2
      let wait := if wait > ikcpProbeLimit then ikcpProbeLimit else wait
      { kcp with
        probe_wait := wait, ts_probe := kcp.current + wait, probe := kcp.probe ||| ikcpAskSend }
    else kcp
  else { kcp with ts_probe := 0, probe_wait := 0 }

def flushProbes (kcp : Ikcpcb) (acked : Ikcpcb) (packer : Packer) : Packer :=
  let packer :=
    if kcp.probe &&& ikcpAskSend ≠ 0 then packer.append kcp.mtu (probeSeg acked ikcpCmdWask)
    else packer
  if kcp.probe &&& ikcpAskTell ≠ 0 then packer.append kcp.mtu (probeSeg acked ikcpCmdWins)
  else packer

/-- "Move data from snd_queue to snd_buf"; the list is the queue still to move. -/
def moveToSndBuf (cwnd wnd : UInt32) : List IkcpSeg → Ikcpcb → Ikcpcb
  | [], kcp => { kcp with snd_queue := [] }
  | newseg :: rest, kcp =>
      if itimediff kcp.snd_nxt (kcp.snd_una + cwnd) < 0 then
        moveToSndBuf cwnd wnd rest { kcp with
          snd_buf := kcp.snd_buf ++ [{ newseg with
            conv := kcp.conv, cmd := ikcpCmdPush, wnd := wnd, ts := kcp.current
            sn := kcp.snd_nxt, una := kcp.rcv_nxt, resendts := kcp.current
            rto := kcp.rx_rto.toUInt32, fastack := 0, xmit := 0 }]
          snd_nxt := kcp.snd_nxt + 1 }
      else { kcp with snd_queue := newseg :: rest }

/-- What the loop over `snd_buf` accumulates beside the segments. -/
structure Resend where
  packer : Packer
  change : Nat := 0
  lost : Bool := false
  xmit : UInt32
  state : UInt32
deriving DecidableEq, Repr

/-- The decision `ikcp_flush` takes for one segment of `snd_buf`: the segment
with its timers and counters advanced, and whether it is sent. -/
def needsend (kcp : Ikcpcb) (segment : IkcpSeg) : IkcpSeg × Bool × Bool × Bool :=
  let rtoNow := kcp.rx_rto.toUInt32
  let resent := if kcp.fastresend > 0 then kcp.fastresend.toUInt32 else 0xffffffff
  let rtomin := if kcp.nodelay = 0 then (kcp.rx_rto >>> 3).toUInt32 else 0
  if segment.xmit = 0 then
    ({ segment with
        xmit := segment.xmit + 1, rto := rtoNow, resendts := kcp.current + rtoNow + rtomin },
      true, false, false)
  else if itimediff kcp.current segment.resendts ≥ 0 then
    let rto :=
      if kcp.nodelay = 0 then segment.rto + imax segment.rto rtoNow
      else
        let step := if kcp.nodelay < 2 then segment.rto.toInt32 else kcp.rx_rto
        segment.rto + (step / 2).toUInt32
    ({ segment with xmit := segment.xmit + 1, rto := rto, resendts := kcp.current + rto },
      true, true, false)
  else if segment.fastack ≥ resent ∧
      (segment.xmit.toInt32 ≤ kcp.fastlimit ∨ kcp.fastlimit ≤ 0) then
    ({ segment with
        xmit := segment.xmit + 1, fastack := 0, resendts := kcp.current + segment.rto },
      true, false, true)
  else (segment, false, false, false)

/-- One round of the loop over `snd_buf`. -/
def flushSegment (kcp : Ikcpcb) (wnd : UInt32) (segment : IkcpSeg) (resend : Resend) :
    IkcpSeg × Resend :=
  let (segment, send, timedOut, fast) := needsend kcp segment
  let resend := { resend with
    xmit := if timedOut then resend.xmit + 1 else resend.xmit
    lost := resend.lost || timedOut
    change := if fast then resend.change + 1 else resend.change }
  if send then
    let segment := { segment with ts := kcp.current, wnd := wnd, una := kcp.rcv_nxt }
    (segment, { resend with
      packer := resend.packer.append kcp.mtu segment
      state := if segment.xmit ≥ kcp.dead_link then 0xffffffff else resend.state })
  else (segment, resend)

def flushSegments (kcp : Ikcpcb) (wnd : UInt32) : List IkcpSeg → Resend → List IkcpSeg × Resend
  | [], resend => ([], resend)
  | segment :: rest, resend =>
      let (segment, resend) := flushSegment kcp wnd segment resend
      let (rest, resend) := flushSegments kcp wnd rest resend
      (segment :: rest, resend)

/-- "Update ssthresh", the end of `ikcp_flush`. -/
def updateSsthresh (kcp : Ikcpcb) (cwnd : UInt32) (resend : Resend) : Ikcpcb :=
  let resent := if kcp.fastresend > 0 then kcp.fastresend.toUInt32 else 0xffffffff
  let kcp : Ikcpcb :=
    if resend.change ≠ 0 then
      let half := (kcp.snd_nxt - kcp.snd_una) / 2
      let ssthresh := if half < ikcpThreshMin then ikcpThreshMin else half
      { kcp with
        ssthresh := ssthresh, cwnd := ssthresh + resent, incr := (ssthresh + resent) * kcp.mss }
    else kcp
  let kcp : Ikcpcb :=
    if resend.lost then
      let half := cwnd / 2
      { kcp with
        ssthresh := if half < ikcpThreshMin then ikcpThreshMin else half
        cwnd := 1, incr := kcp.mss }
    else kcp
  if kcp.cwnd < 1 then { kcp with cwnd := 1, incr := kcp.mss } else kcp

/-- `ikcp_flush`, with the datagrams it hands to the output callback. -/
def ikcpFlush (kcp : Ikcpcb) : Ikcpcb × List (List UInt8) :=
  if kcp.updated = 0 then (kcp, [])
  else
    let acked := kcp
    let packer := flushAcks kcp {}
    let kcp := scheduleProbe { kcp with acklist := [] }
    let packer := flushProbes kcp acked packer
    let wnd := ikcpWndUnused kcp
    let window := imin kcp.snd_wnd kcp.rmt_wnd
    let cwnd := if kcp.nocwnd = 0 then imin kcp.cwnd window else window
    let kcp := moveToSndBuf cwnd wnd kcp.snd_queue { kcp with probe := 0 }
    let (snd_buf, resend) := flushSegments kcp wnd kcp.snd_buf
      { packer := packer, xmit := kcp.xmit, state := kcp.state }
    let kcp := { kcp with snd_buf := snd_buf, xmit := resend.xmit, state := resend.state }
    (updateSsthresh kcp cwnd resend, resend.packer.flush.output)

def ikcpUpdate (kcp : Ikcpcb) (current : UInt32) : Ikcpcb × List (List UInt8) :=
  let kcp := { kcp with current := current }
  let kcp := if kcp.updated = 0 then { kcp with updated := 1, ts_flush := kcp.current } else kcp
  let slap := itimediff kcp.current kcp.ts_flush
  let late := slap ≥ 10000 ∨ slap < -10000
  let kcp := if late then { kcp with ts_flush := kcp.current } else kcp
  let slap := if late then 0 else slap
  if slap ≥ 0 then
    let ts_flush := kcp.ts_flush + kcp.interval
    ikcpFlush { kcp with
      ts_flush := if itimediff kcp.current ts_flush ≥ 0 then kcp.current + kcp.interval
        else ts_flush }
  else (kcp, [])

end FiberKcp.Ikcp
