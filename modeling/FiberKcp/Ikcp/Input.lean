import FiberKcp.Data.LittleEndian
import FiberKcp.Ikcp.Transfer

namespace FiberKcp.Ikcp

open FiberKcp.Data

/-! `ikcp_input`: acknowledgements, arriving data and the decoding loop. -/

def ikcpUpdateAck (kcp : Ikcpcb) (rtt : Int32) : Ikcpcb :=
  let kcp :=
    if kcp.rx_srtt = 0 then { kcp with rx_srtt := rtt, rx_rttval := rtt / 2 }
    else
      let delta := (rtt - kcp.rx_srtt).toInt
      let delta := if delta < 0 then -delta else delta
      let srtt := (7 * kcp.rx_srtt + rtt) / 8
      { kcp with
        rx_rttval := Int32.ofInt (((3 * kcp.rx_rttval).toInt + delta).tdiv 4)
        rx_srtt := if srtt < 1 then 1 else srtt }
  let rto := kcp.rx_srtt.toUInt32 + imax kcp.interval (4 * kcp.rx_rttval).toUInt32
  { kcp with rx_rto := (ibound kcp.rx_minrto.toUInt32 rto ikcpRtoMax).toInt32 }

def ikcpShrinkBuf (kcp : Ikcpcb) : Ikcpcb :=
  match kcp.snd_buf with
  | seg :: _ => { kcp with snd_una := seg.sn }
  | [] => { kcp with snd_una := kcp.snd_nxt }

/-- The search of `ikcp_parse_ack` through `snd_buf`. -/
def removeAcked (sn : UInt32) : List IkcpSeg → List IkcpSeg
  | [] => []
  | seg :: rest =>
      if sn = seg.sn then rest
      else if itimediff sn seg.sn < 0 then seg :: rest
      else seg :: removeAcked sn rest

def ikcpParseAck (kcp : Ikcpcb) (sn : UInt32) : Ikcpcb :=
  if itimediff sn kcp.snd_una < 0 ∨ itimediff sn kcp.snd_nxt ≥ 0 then kcp
  else { kcp with snd_buf := removeAcked sn kcp.snd_buf }

def ikcpParseUna (kcp : Ikcpcb) (una : UInt32) : Ikcpcb :=
  { kcp with snd_buf := kcp.snd_buf.dropWhile fun seg => decide (itimediff una seg.sn > 0) }

/-- The loop of `ikcp_parse_fastack`; `IKCP_FASTACK_CONSERVE` is not defined. -/
def countFastack (sn : UInt32) : List IkcpSeg → List IkcpSeg
  | [] => []
  | seg :: rest =>
      if itimediff sn seg.sn < 0 then seg :: rest
      else (if sn ≠ seg.sn then { seg with fastack := seg.fastack + 1 } else seg) ::
        countFastack sn rest

def ikcpParseFastack (kcp : Ikcpcb) (sn : UInt32) : Ikcpcb :=
  if itimediff sn kcp.snd_una < 0 ∨ itimediff sn kcp.snd_nxt ≥ 0 then kcp
  else { kcp with snd_buf := countFastack sn kcp.snd_buf }

def ikcpAckPush (kcp : Ikcpcb) (sn ts : UInt32) : Ikcpcb :=
  { kcp with acklist := kcp.acklist ++ [(sn, ts)] }

/-- The walk of `ikcp_parse_data` from the back of `rcv_buf` (the list given
here is reversed) to the place of a new segment; `none` when it is a repeat. -/
def insertFromBack (newseg : IkcpSeg) : List IkcpSeg → Option (List IkcpSeg)
  | [] => some [newseg]
  | seg :: rest =>
      if seg.sn = newseg.sn then none
      else if itimediff newseg.sn seg.sn > 0 then some (newseg :: seg :: rest)
      else (insertFromBack newseg rest).map (seg :: ·)

def ikcpParseData (kcp : Ikcpcb) (newseg : IkcpSeg) : Ikcpcb :=
  if itimediff newseg.sn (kcp.rcv_nxt + kcp.rcv_wnd) ≥ 0 ∨ itimediff newseg.sn kcp.rcv_nxt < 0 then
    kcp
  else
    let rcv_buf :=
      match insertFromBack newseg kcp.rcv_buf.reverse with
      | some inserted => inserted.reverse
      | none => kcp.rcv_buf
    moveAvailable rcv_buf kcp

/-- The header fields `ikcp_input` decodes before it looks at the payload. -/
structure SegmentHeader where
  conv : UInt32
  cmd : UInt8
  frg : UInt8
  wnd : UInt16
  ts : UInt32
  sn : UInt32
  una : UInt32
  len : UInt32
deriving DecidableEq, Repr

def decodeHeader (data : List UInt8) : SegmentHeader where
  conv := word32 data
  cmd := data.getD 4 0
  frg := data.getD 5 0
  wnd := word16 (data.drop 6)
  ts := word32 (data.drop 8)
  sn := word32 (data.drop 12)
  una := word32 (data.drop 16)
  len := word32 (data.drop 20)

/-- `flag`, `maxack` and `latest_ts` of `ikcp_input`. -/
structure AckScan where
  flag : Bool := false
  maxack : UInt32 := 0
  latest_ts : UInt32 := 0
deriving DecidableEq, Repr

def AckScan.note (scan : AckScan) (sn ts : UInt32) : AckScan :=
  if scan.flag = false then { flag := true, maxack := sn, latest_ts := ts }
  else if itimediff sn scan.maxack > 0 then { scan with maxack := sn, latest_ts := ts }
  else scan

/-- What `ikcp_input` does with one segment that passed the checks. -/
def applySegment (kcp : Ikcpcb) (scan : AckScan) (header : SegmentHeader)
    (payload : List UInt8) : Ikcpcb × AckScan :=
  let kcp := { kcp with rmt_wnd := header.wnd.toUInt32 }
  let kcp := ikcpShrinkBuf (ikcpParseUna kcp header.una)
  if header.cmd.toUInt32 = ikcpCmdAck then
    let kcp :=
      if itimediff kcp.current header.ts ≥ 0 then
        ikcpUpdateAck kcp (kcp.current - header.ts).toInt32
      else kcp
    (ikcpShrinkBuf (ikcpParseAck kcp header.sn), scan.note header.sn header.ts)
  else if header.cmd.toUInt32 = ikcpCmdPush then
    if itimediff header.sn (kcp.rcv_nxt + kcp.rcv_wnd) < 0 then
      let kcp := ikcpAckPush kcp header.sn header.ts
      if itimediff header.sn kcp.rcv_nxt ≥ 0 then
        (ikcpParseData kcp {
          conv := header.conv, cmd := header.cmd.toUInt32, frg := header.frg.toUInt32
          wnd := header.wnd.toUInt32, ts := header.ts, sn := header.sn, una := header.una
          data := payload }, scan)
      else (kcp, scan)
    else (kcp, scan)
  else if header.cmd.toUInt32 = ikcpCmdWask then
    ({ kcp with probe := kcp.probe ||| ikcpAskTell }, scan)
  else (kcp, scan)

def knownCmd (cmd : UInt8) : Bool :=
  cmd.toUInt32 == ikcpCmdPush || cmd.toUInt32 == ikcpCmdAck || cmd.toUInt32 == ikcpCmdWask ||
    cmd.toUInt32 == ikcpCmdWins

/-- The `while (1)` loop of `ikcp_input`.  Each round consumes a header, so
`fuel` at least the number of bytes is never used up. -/
def inputLoop : Nat → Ikcpcb → AckScan → List UInt8 → Ikcpcb × AckScan × Int32
  | 0, kcp, scan, _ => (kcp, scan, 0)
  | fuel + 1, kcp, scan, data =>
      if data.length < ikcpOverhead then (kcp, scan, 0)
      else
        let header := decodeHeader data
        if header.conv ≠ kcp.conv then (kcp, scan, -1)
        else
          let rest := data.drop ikcpOverhead
          if rest.length < header.len.toNat ∨ header.len.toInt32 < 0 then (kcp, scan, -2)
          else if knownCmd header.cmd = false then (kcp, scan, -3)
          else
            let (kcp, scan) := applySegment kcp scan header (rest.take header.len.toNat)
            inputLoop fuel kcp scan (rest.drop header.len.toNat)

/-- The congestion window update at the end of `ikcp_input`. -/
def growCwnd (kcp : Ikcpcb) : Ikcpcb :=
  if kcp.cwnd < kcp.rmt_wnd then
    let mss := kcp.mss
    let kcp : Ikcpcb :=
      if kcp.cwnd < kcp.ssthresh then { kcp with cwnd := kcp.cwnd + 1, incr := kcp.incr + mss }
      else
        let incr := if kcp.incr < mss then mss else kcp.incr
        let incr := incr + ((mss * mss) / incr + (mss / 16))
        { kcp with
          incr := incr
          cwnd := if (kcp.cwnd + 1) * mss ≤ incr then
              (incr + mss - 1) / (if mss > 0 then mss else 1)
            else kcp.cwnd }
    if kcp.cwnd > kcp.rmt_wnd then
      { kcp with cwnd := kcp.rmt_wnd, incr := kcp.rmt_wnd * mss }
    else kcp
  else kcp

def ikcpInput (kcp : Ikcpcb) (data : List UInt8) : Ikcpcb × Int32 :=
  let prevUna := kcp.snd_una
  if data.length < ikcpOverhead then (kcp, -1)
  else
    let (kcp, scan, ret) := inputLoop data.length kcp {} data
    if ret ≠ 0 then (kcp, ret)
    else
      let kcp := if scan.flag then ikcpParseFastack kcp scan.maxack else kcp
      (if itimediff kcp.snd_una prevUna > 0 then growCwnd kcp else kcp, 0)

end FiberKcp.Ikcp
