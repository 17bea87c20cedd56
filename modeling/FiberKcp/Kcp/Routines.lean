import FiberKcp.Ikcp.Flush

namespace FiberKcp

open Data Ikcp

/-! The class `Kcp`: a control block, the attributes it was set up with and the
buffers `send` has queued. -/

structure SockaddrIn where
  sin_addr : UInt32 := 0
  sin_port : UInt16 := 0
deriving DecidableEq, Repr

structure KcpAttr where
  fd : Int32 := -1
  autoClose : UInt8 := 0
  addr : SockaddrIn := {}
  conv : UInt32 := 0
  sendWndSize : UInt16 := 512
  recvWndSize : UInt16 := 512
  nodelay : UInt8 := 1
  interval : Int32 := 100
  fastResend : UInt8 := 2
deriving DecidableEq, Repr

/-- `Kcp` after `init`; `mRecvEvent` is what `inputRoutine` returns. -/
structure Kcp where
  mKcpHandle : Ikcpcb
  mAttr : KcpAttr
  mSendBufQueue : List (List UInt8) := []
deriving DecidableEq, Repr

def Kcp.init (attr : KcpAttr) : Kcp where
  mAttr := attr
  mKcpHandle := ikcpNodelay
    (ikcpWndsize (ikcpCreate attr.conv) (Int32.ofNat attr.sendWndSize.toNat)
      (Int32.ofNat attr.recvWndSize.toNat))
    (Int32.ofNat attr.nodelay.toNat) attr.interval (Int32.ofNat attr.fastResend.toNat) 1

def Kcp.send (kcp : Kcp) (buffer : List UInt8) : Kcp :=
  { kcp with mSendBufQueue := kcp.mSendBufQueue ++ [buffer] }

/-- One datagram as `recvfrom` reports it. -/
structure Datagram where
  bytes : List UInt8
  peer : SockaddrIn
deriving DecidableEq, Repr

def recvBufSize : Nat := 2 * 1400

/-- The local variables of `inputRoutine`.  `buf` is cleared once and reused by
every `recvfrom`; `peerAddr` is indeterminate until the first one. -/
structure InputLocals where
  buf : List UInt8 := List.replicate recvBufSize 0
  peerAddr : Option SockaddrIn := none
deriving DecidableEq, Repr

/-- One round of the `recvfrom` loop.  Both ways `ikcp_input` can end go on with
the next datagram. -/
def Kcp.receive (kcp : Kcp) (locals : InputLocals) (datagram : Datagram) : Kcp × InputLocals :=
  let received := datagram.bytes.take recvBufSize
  let buf := received ++ locals.buf.drop received.length
  let locals : InputLocals := { buf := buf, peerAddr := some datagram.peer }
  let conv := word32 buf
  if conv ≠ kcp.mAttr.conv then (kcp, locals)
  else
    let kcp := { kcp with mAttr := { kcp.mAttr with addr := datagram.peer } }
    ({ kcp with mKcpHandle := (ikcpInput kcp.mKcpHandle received).1 }, locals)

def Kcp.receiveAll : Kcp → InputLocals → List Datagram → Kcp × InputLocals
  | kcp, locals, [] => (kcp, locals)
  | kcp, locals, datagram :: rest =>
      let next := kcp.receive locals datagram
      next.1.receiveAll next.2 rest

theorem Kcp.receiveAll_cons (kcp : Kcp) (locals : InputLocals) (datagram : Datagram)
    (rest : List Datagram) : kcp.receiveAll locals (datagram :: rest) =
      (kcp.receive locals datagram).1.receiveAll (kcp.receive locals datagram).2 rest := by
  delta Kcp.receiveAll
  -- `receive` stays folded
  with_reducible rfl

/-- A call of `mRecvEvent`. -/
structure RecvEvent where
  buffer : List UInt8
  addr : Option SockaddrIn
deriving DecidableEq, Repr

/-- The part of `inputRoutine` after the loop. -/
def Kcp.deliver (kcp : Kcp) (locals : InputLocals) : Kcp × List RecvEvent :=
  let ret := ikcpPeeksize kcp.mKcpHandle
  if ret > 0 then
    let (handle, nrecv, buffer) := ikcpRecv kcp.mKcpHandle ret
    let kcp := { kcp with mKcpHandle := handle }
    if nrecv > 0 then (kcp, [{ buffer := buffer, addr := locals.peerAddr }]) else (kcp, [])
  else (kcp, [])

/-- `inputRoutine` when the socket holds the datagrams of `batch`. -/
def Kcp.inputRoutine (kcp : Kcp) (batch : List Datagram) : Kcp × List RecvEvent :=
  let received := kcp.receiveAll {} batch
  received.1.deliver received.2

/-- `it.size()` as the `int` parameter `len` of `ikcp_send` receives it. -/
def sizeAsInt (buffer : List UInt8) : Int32 := Int32.ofNat buffer.length

/-- The loop over the queue taken under `mQueueMutex`; the buffers for which
`ikcp_send` did not return an error follow. -/
def sendQueue : List (List UInt8) → Ikcpcb → Ikcpcb × List (List UInt8)
  | [], handle => (handle, [])
  | buffer :: rest, handle =>
      let (handle, ret) := ikcpSend handle buffer (sizeAsInt buffer)
      let (handle, accepted) := sendQueue rest handle
      (handle, if ret < 0 then accepted else buffer :: accepted)

/-- What `outputRoutine` does beside changing the object. -/
structure OutputResult where
  accepted : List (List UInt8)
  datagrams : List (List UInt8)
deriving DecidableEq, Repr

/-- `outputRoutine` at the clock value `now`. -/
def Kcp.outputRoutine (kcp : Kcp) (now : UInt32) : Kcp × OutputResult :=
  let (handle, accepted) := sendQueue kcp.mSendBufQueue kcp.mKcpHandle
  let (handle, datagrams) := ikcpUpdate handle now
  ({ kcp with mKcpHandle := handle, mSendBufQueue := [] },
    { accepted := accepted, datagrams := datagrams })

inductive KcpCall where
  | send (buffer : List UInt8)
  | outputRoutine (now : UInt32)
  | inputRoutine (batch : List Datagram)
deriving DecidableEq, Repr

def Kcp.perform (kcp : Kcp) : KcpCall → Option Kcp
  | .send buffer => some (kcp.send buffer)
  | .outputRoutine now => some (kcp.outputRoutine now).1
  | .inputRoutine batch => some (kcp.inputRoutine batch).1

end FiberKcp
