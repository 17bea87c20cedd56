import FiberKcp.Ikcp.Control

namespace FiberKcp.Ikcp

/-! `ikcp_send`, `ikcp_peeksize` and `ikcp_recv`: the side of the control block
that faces the user. -/

/-- The first part of `ikcp_send` in streaming mode: `extend` bytes go to the
last queued segment while it has room.  The buffer and length left over follow. -/
def appendToPrevious (kcp : Ikcpcb) (buffer : List UInt8) (len : Nat) :
    Ikcpcb × List UInt8 × Nat :=
  match kcp.snd_queue.getLast? with
  | none => (kcp, buffer, len)
  | some old =>
      if old.data.length < kcp.mss.toNat then
        let capacity := kcp.mss.toNat - old.data.length
        let extend := if len < capacity then len else capacity
        let seg : IkcpSeg := { data := old.data ++ buffer.take extend, frg := 0 }
        ({ kcp with snd_queue := kcp.snd_queue.dropLast ++ [seg] },
          buffer.drop extend, len - extend)
      else (kcp, buffer, len)

/-- How many segments `ikcp_send` cuts `len` bytes into. -/
def fragmentCount (mss len : Nat) : Nat :=
  let count := if len ≤ mss then 1 else (len + mss - 1) / mss
  if count = 0 then 1 else count

/-- The loop of `ikcp_send`; `count - i` is the number of rounds left. -/
def fragment (mss : Nat) (stream : Bool) : Nat → List UInt8 → Nat → List IkcpSeg
  | 0, _, _ => []
  | left + 1, buffer, len =>
      let size := if len > mss then mss else len
      { data := buffer.take size, frg := if stream then 0 else UInt32.ofNat left } ::
        fragment mss stream left (buffer.drop size) (len - size)

/-- `ikcp_send` on a non-null buffer, with the value it returns. -/
def ikcpSend (kcp : Ikcpcb) (buffer : List UInt8) (len : Int32) : Ikcpcb × Int32 :=
  if len < 0 then (kcp, -1)
  else
    let (kcp, buffer, size) :=
      if kcp.stream ≠ 0 then appendToPrevious kcp buffer len.toInt.toNat
      else (kcp, buffer, len.toInt.toNat)
    if kcp.stream ≠ 0 ∧ size = 0 then (kcp, 0)
    else
      let count := fragmentCount kcp.mss.toNat size
      if count ≥ ikcpWndRcv.toNat then (kcp, -2)
      else
        ({ kcp with snd_queue := kcp.snd_queue ++
            fragment kcp.mss.toNat (kcp.stream != 0) count buffer size }, 0)

/-- The bytes from the front of the queue up to the first segment with `frg`
zero. -/
def messageLength : List IkcpSeg → Nat
  | [] => 0
  | seg :: rest => seg.data.length + if seg.frg = 0 then 0 else messageLength rest

def ikcpPeeksize (kcp : Ikcpcb) : Int :=
  match kcp.rcv_queue with
  | [] => -1
  | seg :: _ =>
      if seg.frg = 0 then seg.data.length
      else if kcp.nrcv_que < seg.frg + 1 then -1
      else messageLength kcp.rcv_queue

/-- The merge loop of `ikcp_recv`: the merged bytes, the segments not visited
and how many were. -/
def mergeFragment : List IkcpSeg → List UInt8 × List IkcpSeg × UInt32
  | [] => ([], [], 0)
  | seg :: rest =>
      if seg.frg = 0 then (seg.data, rest, 1)
      else
        let (bytes, left, count) := mergeFragment rest
        (seg.data ++ bytes, left, count + 1)

/-- "Move available data from rcv_buf to rcv_queue", the loop `ikcp_recv` and
`ikcp_parse_data` share. -/
def moveAvailable : List IkcpSeg → Ikcpcb → Ikcpcb
  | [], kcp => { kcp with rcv_buf := [] }
  | seg :: rest, kcp =>
      if seg.sn = kcp.rcv_nxt ∧ kcp.nrcv_que < kcp.rcv_wnd then
        moveAvailable rest { kcp with
          rcv_queue := kcp.rcv_queue ++ [seg]
          nrcv_que := kcp.nrcv_que + 1
          rcv_nxt := kcp.rcv_nxt + 1 }
      else { kcp with rcv_buf := seg :: rest }

/-- `ikcp_recv` into a buffer of `len` bytes; a negative `len` peeks. -/
def ikcpRecv (kcp : Ikcpcb) (len : Int) : Ikcpcb × Int × List UInt8 :=
  let peeksize := ikcpPeeksize kcp
  if kcp.rcv_queue.isEmpty then (kcp, -1, [])
  else if peeksize < 0 then (kcp, -2, [])
  else if peeksize > len.natAbs then (kcp, -3, [])
  else
    let recover := kcp.nrcv_que ≥ kcp.rcv_wnd
    let (bytes, left, count) := mergeFragment kcp.rcv_queue
    let kcp :=
      if len < 0 then kcp
      else { kcp with rcv_queue := left, nrcv_que := kcp.nrcv_que - count }
    let kcp := moveAvailable kcp.rcv_buf kcp
    let kcp :=
      if kcp.nrcv_que < kcp.rcv_wnd ∧ recover then { kcp with probe := kcp.probe ||| ikcpAskTell }
      else kcp
    (kcp, bytes.length, bytes)

end FiberKcp.Ikcp
