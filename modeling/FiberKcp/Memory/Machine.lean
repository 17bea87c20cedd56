import FiberKcp.Data.Store
import FiberKcp.Ikcp.Check

namespace FiberKcp.Ikcp

open FiberKcp.Data

/-! `ikcp.c` down to its pointers.  The queues are rings of allocated segments;
a function fails where the code would follow a null pointer or touch a segment
that is not allocated. -/

inductive Queue where
  | sndQueue
  | rcvQueue
  | sndBuf
  | rcvBuf
deriving DecidableEq

abbrev Pointer := Place Queue

/-- `block` is the control block without its queues: these fields stay empty. -/
structure Machine where
  block : Ikcpcb
  nrcv_buf : UInt32
  nsnd_buf : UInt32
  nsnd_que : UInt32
  store : Store Queue IkcpSeg

namespace Machine

/-- A bound for every walk along a queue. -/
def fuel (machine : Machine) : Nat := machine.store.brk + 1

def onStore (machine : Machine) (changed : Option (Store Queue IkcpSeg)) : Option Machine :=
  changed.map fun store => { machine with store }

/-- `ikcp_segment_new`, and the writes that fill the segment in. -/
def segmentNew (machine : Machine) (seg : IkcpSeg) : Machine × Pointer :=
  ({ machine with store := (machine.store.alloc seg).1 }, (machine.store.alloc seg).2)

def segmentDelete (machine : Machine) (seg : Pointer) : Option Machine :=
  machine.onStore (machine.store.free seg)

def isEmpty (machine : Machine) (queue : Queue) : Option Bool :=
  (machine.store.next (.head queue)).map fun next => decide (next = .head queue)

/-- The heads in the control block that `ikcp_malloc` returned. -/
def heads : Store Queue IkcpSeg where
  nodes
    | .head _ => some {}
    | .cell _ => none

def ikcpCreate (conv : UInt32) : Option Machine := do
  let store ← heads.init (.head .sndQueue)
  let store ← store.init (.head .rcvQueue)
  let store ← store.init (.head .sndBuf)
  let store ← store.init (.head .rcvBuf)
  some { block := Ikcp.ikcpCreate conv, nrcv_buf := 0, nsnd_buf := 0, nsnd_que := 0, store }

/-- One of the four loops of `ikcp_release`. -/
def releaseQueue (queue : Queue) : Nat → Machine → Option Machine
  | 0, _ => none
  | fuel + 1, machine => do
      let empty ← machine.isEmpty queue
      if empty then some machine
      else
        let seg ← machine.store.next (.head queue)
        let machine ← machine.onStore (machine.store.del seg)
        let machine ← machine.segmentDelete seg
        releaseQueue queue fuel machine

def ikcpRelease (machine : Machine) : Option Machine := do
  let machine ← releaseQueue .sndBuf machine.fuel machine
  let machine ← releaseQueue .rcvBuf machine.fuel machine
  let machine ← releaseQueue .sndQueue machine.fuel machine
  let machine ← releaseQueue .rcvQueue machine.fuel machine
  some { machine with
    block := { machine.block with nrcv_que := 0, acklist := [] }
    nrcv_buf := 0, nsnd_buf := 0, nsnd_que := 0 }

/-! ## Receiving -/

/-- The loop of `ikcp_peeksize`. -/
def peekLoop (machine : Machine) : Nat → Pointer → Nat → Option Nat
  | 0, _, _ => none
  | fuel + 1, p, length =>
      if p = .head .rcvQueue then some length
      else do
        let seg ← machine.store.read p
        let length := length + seg.data.length
        if seg.frg = 0 then some length
        else
          let p ← machine.store.next p
          peekLoop machine fuel p length

def ikcpPeeksize (machine : Machine) : Option Int := do
  let empty ← machine.isEmpty .rcvQueue
  if empty then some (-1)
  else
    let p ← machine.store.next (.head .rcvQueue)
    let seg ← machine.store.read p
    if seg.frg = 0 then some seg.data.length
    else if machine.block.nrcv_que < seg.frg + 1 then some (-1)
    else
      let length ← machine.peekLoop machine.fuel p 0
      some length

/-- "Merge fragment", with the bytes merged so far. -/
def mergeLoop (ispeek : Bool) : Nat → Machine → Pointer → List UInt8 →
    Option (Machine × List UInt8)
  | 0, _, _, _ => none
  | fuel + 1, machine, p, bytes =>
      if p = .head .rcvQueue then some (machine, bytes)
      else do
        let seg ← machine.store.read p
        let next ← machine.store.next p
        let bytes := bytes ++ seg.data
        let machine ←
          if ispeek then some machine
          else do
            let machine ← machine.onStore (machine.store.del p)
            let machine ← machine.segmentDelete p
            some { machine with
              block := { machine.block with nrcv_que := machine.block.nrcv_que - 1 } }
        if seg.frg = 0 then some (machine, bytes) else mergeLoop ispeek fuel machine next bytes

/-- "Move available data from rcv_buf to rcv_queue". -/
def moveAvailable : Nat → Machine → Option Machine
  | 0, _ => none
  | fuel + 1, machine => do
      let empty ← machine.isEmpty .rcvBuf
      if empty then some machine
      else
        let p ← machine.store.next (.head .rcvBuf)
        let seg ← machine.store.read p
        if seg.sn = machine.block.rcv_nxt ∧ machine.block.nrcv_que < machine.block.rcv_wnd then
          let machine ← machine.onStore (machine.store.del p)
          let machine ← machine.onStore (machine.store.addTail p (.head .rcvQueue))
          moveAvailable fuel { machine with
            nrcv_buf := machine.nrcv_buf - 1
            block := { machine.block with
              nrcv_que := machine.block.nrcv_que + 1, rcv_nxt := machine.block.rcv_nxt + 1 } }
        else some machine

def ikcpRecv (machine : Machine) (len : Int) : Option (Machine × Int × List UInt8) := do
  let empty ← machine.isEmpty .rcvQueue
  if empty then some (machine, -1, [])
  else
    let peeksize ← machine.ikcpPeeksize
    if peeksize < 0 then some (machine, -2, [])
    else if peeksize > len.natAbs then some (machine, -3, [])
    else
      let recover := machine.block.nrcv_que ≥ machine.block.rcv_wnd
      let p ← machine.store.next (.head .rcvQueue)
      let (machine, bytes) ← mergeLoop (len < 0) machine.fuel machine p []
      let machine ← moveAvailable machine.fuel machine
      let machine :=
        if machine.block.nrcv_que < machine.block.rcv_wnd ∧ recover then
          { machine with block := { machine.block with probe := machine.block.probe ||| ikcpAskTell } }
        else machine
      some (machine, bytes.length, bytes)

/-! ## Sending -/

/-- The first part of `ikcp_send` in streaming mode; `old` goes once its bytes are
in the new segment. -/
def appendToPrevious (machine : Machine) (buffer : List UInt8) (len : Nat) :
    Option (Machine × List UInt8 × Nat) := do
  let empty ← machine.isEmpty .sndQueue
  if empty then some (machine, buffer, len)
  else
    let old ← machine.store.prev (.head .sndQueue)
    let oldSeg ← machine.store.read old
    if oldSeg.data.length < machine.block.mss.toNat then
      let capacity := machine.block.mss.toNat - oldSeg.data.length
      let extend := if len < capacity then len else capacity
      let (machine, seg) := machine.segmentNew
        { data := oldSeg.data ++ buffer.take extend, frg := 0 }
      let machine ← machine.onStore (machine.store.addTail seg (.head .sndQueue))
      let machine ← machine.onStore (machine.store.del old)
      let machine ← machine.onStore (machine.store.init old)
      let machine ← machine.segmentDelete old
      some (machine, buffer.drop extend, len - extend)
    else some (machine, buffer, len)

/-- The loop of `ikcp_send`; `count - i` is the number of rounds left. -/
def fragmentLoop : Nat → Machine → List UInt8 → Nat → Option Machine
  | 0, machine, _, _ => some machine
  | left + 1, machine, buffer, len => do
      let mss := machine.block.mss.toNat
      let size := if len > mss then mss else len
      let (machine, seg) := machine.segmentNew
        { data := buffer.take size
          frg := if machine.block.stream ≠ 0 then 0 else UInt32.ofNat left }
      let machine ← machine.onStore (machine.store.init seg)
      let machine ← machine.onStore (machine.store.addTail seg (.head .sndQueue))
      fragmentLoop left { machine with nsnd_que := machine.nsnd_que + 1 } (buffer.drop size)
        (len - size)

/-- The part of `ikcp_send` after the streaming mode's. -/
def sendRest (machine : Machine) (buffer : List UInt8) (size : Nat) : Option (Machine × Int32) :=
  let count := fragmentCount machine.block.mss.toNat size
  if count ≥ ikcpWndRcv.toNat then some (machine, -2)
  else do
    let machine ← fragmentLoop count machine buffer size
    some (machine, 0)

def ikcpSend (machine : Machine) (buffer : List UInt8) (len : Int32) :
    Option (Machine × Int32) :=
  if len < 0 then some (machine, -1)
  else if machine.block.stream ≠ 0 then do
    let (machine, buffer, size) ← machine.appendToPrevious buffer len.toInt.toNat
    if size = 0 then some (machine, 0) else machine.sendRest buffer size
  else machine.sendRest buffer len.toInt.toNat

/-! ## Acknowledgements -/

def ikcpShrinkBuf (machine : Machine) : Option Machine := do
  let p ← machine.store.next (.head .sndBuf)
  if p ≠ .head .sndBuf then
    let seg ← machine.store.read p
    some { machine with block := { machine.block with snd_una := seg.sn } }
  else some { machine with block := { machine.block with snd_una := machine.block.snd_nxt } }

/-- A segment that is acknowledged leaves `snd_buf`. -/
def dropSent (machine : Machine) (p : Pointer) : Option Machine := do
  let machine ← machine.onStore (machine.store.del p)
  let machine ← machine.segmentDelete p
  some { machine with nsnd_buf := machine.nsnd_buf - 1 }

def parseAckLoop (sn : UInt32) (machine : Machine) : Nat → Pointer → Option Machine
  | 0, _ => none
  | fuel + 1, p =>
      if p = .head .sndBuf then some machine
      else do
        let seg ← machine.store.read p
        let next ← machine.store.next p
        if sn = seg.sn then machine.dropSent p
        else if itimediff sn seg.sn < 0 then some machine
        else parseAckLoop sn machine fuel next

def ikcpParseAck (machine : Machine) (sn : UInt32) : Option Machine :=
  if itimediff sn machine.block.snd_una < 0 ∨ itimediff sn machine.block.snd_nxt ≥ 0 then
    some machine
  else do
    let p ← machine.store.next (.head .sndBuf)
    machine.parseAckLoop sn machine.fuel p

def parseUnaLoop (una : UInt32) : Nat → Machine → Pointer → Option Machine
  | 0, _, _ => none
  | fuel + 1, machine, p =>
      if p = .head .sndBuf then some machine
      else do
        let seg ← machine.store.read p
        let next ← machine.store.next p
        if itimediff una seg.sn > 0 then
          let machine ← machine.dropSent p
          parseUnaLoop una fuel machine next
        else some machine

def ikcpParseUna (machine : Machine) (una : UInt32) : Option Machine := do
  let p ← machine.store.next (.head .sndBuf)
  parseUnaLoop una machine.fuel machine p

def parseFastackLoop (sn : UInt32) : Nat → Machine → Pointer → Option Machine
  | 0, _, _ => none
  | fuel + 1, machine, p =>
      if p = .head .sndBuf then some machine
      else do
        let seg ← machine.store.read p
        let next ← machine.store.next p
        if itimediff sn seg.sn < 0 then some machine
        else if sn ≠ seg.sn then
          let machine ← machine.onStore
            (machine.store.write p { seg with fastack := seg.fastack + 1 })
          parseFastackLoop sn fuel machine next
        else parseFastackLoop sn fuel machine next

def ikcpParseFastack (machine : Machine) (sn : UInt32) : Option Machine :=
  if itimediff sn machine.block.snd_una < 0 ∨ itimediff sn machine.block.snd_nxt ≥ 0 then
    some machine
  else do
    let p ← machine.store.next (.head .sndBuf)
    parseFastackLoop sn machine.fuel machine p

/-! ## Arriving data -/

/-- The walk of `ikcp_parse_data` back through `rcv_buf`: where it ends, and
`repeat`. -/
def placeLoop (machine : Machine) (sn : UInt32) : Nat → Pointer → Option (Pointer × Bool)
  | 0, _ => none
  | fuel + 1, p =>
      if p = .head .rcvBuf then some (p, false)
      else do
        let seg ← machine.store.read p
        let prev ← machine.store.prev p
        if seg.sn = sn then some (p, true)
        else if itimediff sn seg.sn > 0 then some (p, false)
        else placeLoop machine sn fuel prev

def ikcpParseData (machine : Machine) (newseg : Pointer) : Option Machine := do
  let sn ← (machine.store.read newseg).map IkcpSeg.sn
  if itimediff sn (machine.block.rcv_nxt + machine.block.rcv_wnd) ≥ 0 ∨
      itimediff sn machine.block.rcv_nxt < 0 then
    machine.segmentDelete newseg
  else
    let p ← machine.store.prev (.head .rcvBuf)
    let (p, again) ← machine.placeLoop sn machine.fuel p
    if again then
      let machine ← machine.segmentDelete newseg
      moveAvailable machine.fuel machine
    else
      let machine ← machine.onStore (machine.store.init newseg)
      let machine ← machine.onStore (machine.store.add newseg p)
      let machine := { machine with nrcv_buf := machine.nrcv_buf + 1 }
      moveAvailable machine.fuel machine

/-- What `ikcp_input` does with one segment that passed the checks. -/
def applySegment (machine : Machine) (scan : AckScan) (header : SegmentHeader)
    (payload : List UInt8) : Option (Machine × AckScan) := do
  let machine := { machine with block := { machine.block with rmt_wnd := header.wnd.toUInt32 } }
  let machine ← machine.ikcpParseUna header.una
  let machine ← machine.ikcpShrinkBuf
  if header.cmd.toUInt32 = ikcpCmdAck then
    let machine :=
      if itimediff machine.block.current header.ts ≥ 0 then
        { machine with
          block := ikcpUpdateAck machine.block (machine.block.current - header.ts).toInt32 }
      else machine
    let machine ← machine.ikcpParseAck header.sn
    let machine ← machine.ikcpShrinkBuf
    some (machine, scan.note header.sn header.ts)
  else if header.cmd.toUInt32 = ikcpCmdPush then
    if itimediff header.sn (machine.block.rcv_nxt + machine.block.rcv_wnd) < 0 then
      let machine := { machine with block := ikcpAckPush machine.block header.sn header.ts }
      if itimediff header.sn machine.block.rcv_nxt ≥ 0 then
        let (machine, seg) := machine.segmentNew {
          conv := header.conv, cmd := header.cmd.toUInt32, frg := header.frg.toUInt32
          wnd := header.wnd.toUInt32, ts := header.ts, sn := header.sn, una := header.una
          data := payload }
        let machine ← machine.ikcpParseData seg
        some (machine, scan)
      else some (machine, scan)
    else some (machine, scan)
  else if header.cmd.toUInt32 = ikcpCmdWask then
    some ({ machine with
      block := { machine.block with probe := machine.block.probe ||| ikcpAskTell } }, scan)
  else some (machine, scan)

def inputLoop : Nat → Machine → AckScan → List UInt8 → Option (Machine × AckScan × Int32)
  | 0, machine, scan, _ => some (machine, scan, 0)
  | fuel + 1, machine, scan, data =>
      if data.length < ikcpOverhead then some (machine, scan, 0)
      else
        let header := decodeHeader data
        if header.conv ≠ machine.block.conv then some (machine, scan, -1)
        else
          let rest := data.drop ikcpOverhead
          if rest.length < header.len.toNat ∨ header.len.toInt32 < 0 then some (machine, scan, -2)
          else if knownCmd header.cmd = false then some (machine, scan, -3)
          else do
            let (machine, scan) ← machine.applySegment scan header (rest.take header.len.toNat)
            inputLoop fuel machine scan (rest.drop header.len.toNat)

/-- The end of `ikcp_input`. -/
def growCwnd (machine : Machine) (prevUna : UInt32) : Machine :=
  if itimediff machine.block.snd_una prevUna > 0 then
    { machine with block := Ikcp.growCwnd machine.block }
  else machine

def ikcpInput (machine : Machine) (data : List UInt8) : Option (Machine × Int32) :=
  let prevUna := machine.block.snd_una
  if data.length < ikcpOverhead then some (machine, -1)
  else do
    let (machine, scan, ret) ← inputLoop data.length machine {} data
    if ret ≠ 0 then some (machine, ret)
    else if scan.flag then
      let machine ← machine.ikcpParseFastack scan.maxack
      some (machine.growCwnd prevUna, 0)
    else some (machine.growCwnd prevUna, 0)

/-! ## Flushing -/

/-- "Move data from snd_queue to snd_buf". -/
def moveToSndBuf (cwnd wnd : UInt32) : Nat → Machine → Option Machine
  | 0, _ => none
  | fuel + 1, machine =>
      if itimediff machine.block.snd_nxt (machine.block.snd_una + cwnd) < 0 then do
        let empty ← machine.isEmpty .sndQueue
        if empty then some machine
        else
          let newseg ← machine.store.next (.head .sndQueue)
          let machine ← machine.onStore (machine.store.del newseg)
          let machine ← machine.onStore (machine.store.addTail newseg (.head .sndBuf))
          let machine := { machine with
            nsnd_que := machine.nsnd_que - 1, nsnd_buf := machine.nsnd_buf + 1 }
          let seg ← machine.store.read newseg
          let machine ← machine.onStore (machine.store.write newseg { seg with
            conv := machine.block.conv, cmd := ikcpCmdPush, wnd := wnd, ts := machine.block.current
            sn := machine.block.snd_nxt, una := machine.block.rcv_nxt
            resendts := machine.block.current, rto := machine.block.rx_rto.toUInt32
            fastack := 0, xmit := 0 })
          moveToSndBuf cwnd wnd fuel { machine with
            block := { machine.block with snd_nxt := machine.block.snd_nxt + 1 } }
      else some machine

/-- "Flush data segments". -/
def flushLoop (wnd : UInt32) : Nat → Machine → Pointer → Resend → Option (Machine × Resend)
  | 0, _, _, _ => none
  | fuel + 1, machine, p, resend =>
      if p = .head .sndBuf then some (machine, resend)
      else do
        let segment ← machine.store.read p
        let (segment, resend) := flushSegment machine.block wnd segment resend
        let machine ← machine.onStore (machine.store.write p segment)
        let p ← machine.store.next p
        flushLoop wnd fuel machine p resend

def ikcpFlush (machine : Machine) : Option (Machine × List (List UInt8)) :=
  if machine.block.updated = 0 then some (machine, [])
  else do
    let acked := machine.block
    let packer := flushAcks acked {}
    let block := scheduleProbe { machine.block with acklist := [] }
    let packer := flushProbes block acked packer
    let wnd := ikcpWndUnused block
    let window := imin block.snd_wnd block.rmt_wnd
    let cwnd := if block.nocwnd = 0 then imin block.cwnd window else window
    let machine ← moveToSndBuf cwnd wnd machine.fuel
      { machine with block := { block with probe := 0 } }
    let p ← machine.store.next (.head .sndBuf)
    let (machine, resend) ← flushLoop wnd machine.fuel machine p
      { packer := packer, xmit := machine.block.xmit, state := machine.block.state }
    let block := { machine.block with xmit := resend.xmit, state := resend.state }
    some ({ machine with block := updateSsthresh block cwnd resend }, resend.packer.flush.output)

def ikcpUpdate (machine : Machine) (current : UInt32) :
    Option (Machine × List (List UInt8)) :=
  let block := { machine.block with current := current }
  let block :=
    if block.updated = 0 then { block with updated := 1, ts_flush := block.current } else block
  let slap := itimediff block.current block.ts_flush
  let late := slap ≥ 10000 ∨ slap < -10000
  let block := if late then { block with ts_flush := block.current } else block
  let slap := if late then 0 else slap
  if slap ≥ 0 then
    let ts_flush := block.ts_flush + block.interval
    ikcpFlush { machine with block := { block with
      ts_flush := if itimediff block.current ts_flush ≥ 0 then block.current + block.interval
        else ts_flush } }
  else some ({ machine with block }, [])

/-- The loop of `ikcp_check` over `snd_buf`. -/
def checkLoop (machine : Machine) (current : UInt32) : Nat → Pointer → Int →
    Option (Option Int)
  | 0, _, _ => none
  | fuel + 1, p, tm_packet =>
      if p = .head .sndBuf then some (some tm_packet)
      else do
        let seg ← machine.store.read p
        let diff := itimediff seg.resendts current
        if diff ≤ 0 then some none
        else
          let p ← machine.store.next p
          checkLoop machine current fuel p (if diff < tm_packet then diff else tm_packet)

def ikcpCheck (machine : Machine) (current : UInt32) : Option UInt32 :=
  let block := machine.block
  if block.updated = 0 then some current
  else
    let late := itimediff current block.ts_flush ≥ 10000 ∨ itimediff current block.ts_flush < -10000
    let ts_flush := if late then current else block.ts_flush
    if itimediff current ts_flush ≥ 0 then some current
    else do
      let tm_flush := itimediff ts_flush current
      let p ← machine.store.next (.head .sndBuf)
      let nearest ← machine.checkLoop current machine.fuel p 0x7fffffff
      match nearest with
      | none => some current
      | some tm_packet =>
          let minimal := UInt32.ofInt (if tm_packet < tm_flush then tm_packet else tm_flush)
          some (current + if minimal ≥ block.interval then block.interval else minimal)

def ikcpWaitsnd (machine : Machine) : Int32 := (machine.nsnd_buf + machine.nsnd_que).toInt32

end Machine

end FiberKcp.Ikcp
