import FiberKcp.Data.Run
import FiberKcp.Ikcp.Fragments
import FiberKcp.Kcp.Routines
import Mathlib.Logic.Function.Basic

namespace FiberKcp

open Data Ikcp

/-! Two `Kcp` objects that talk over a network.  The network keeps every
datagram it was ever given and may hand any of them to the peer, any number of
times and in any order; it cannot make one up. -/

inductive Side where
  | a
  | b
deriving DecidableEq, Repr

def Side.peer : Side → Side
  | .a => .b
  | .b => .a

@[simp] theorem Side.peer_peer (side : Side) : side.peer.peer = side := by cases side <;> rfl

theorem Side.peer_ne (side : Side) : side.peer ≠ side := by cases side <;> decide

/-- An object with its history: the buffers `ikcp_send` accepted, those passed to
`mRecvEvent` and the datagrams sent. -/
structure Endpoint where
  kcp : Kcp
  accepted : List (List UInt8) := []
  delivered : List (List UInt8) := []
  emitted : List (List UInt8) := []
deriving DecidableEq, Repr

def Endpoint.send (endpoint : Endpoint) (buffer : List UInt8) : Endpoint :=
  { endpoint with kcp := endpoint.kcp.send buffer }

def Endpoint.outputRoutine (endpoint : Endpoint) (now : UInt32) : Endpoint :=
  let result := endpoint.kcp.outputRoutine now
  { endpoint with
    kcp := result.1
    accepted := endpoint.accepted ++ result.2.accepted
    emitted := endpoint.emitted ++ result.2.datagrams }

def Endpoint.inputRoutine (endpoint : Endpoint) (batch : List Datagram) : Endpoint :=
  let result := endpoint.kcp.inputRoutine batch
  { endpoint with
    kcp := result.1
    delivered := endpoint.delivered ++ result.2.map (·.buffer) }

abbrev Session := Side → Endpoint

def Session.start (attr : Side → KcpAttr) : Session := fun side => { kcp := Kcp.init (attr side) }

inductive SessionEvent where
  | send (side : Side) (buffer : List UInt8)
  | outputRoutine (side : Side) (now : UInt32)
  | inputRoutine (side : Side) (batch : List Datagram)
deriving DecidableEq, Repr

def Session.step (session : Session) : SessionEvent → Option Session
  | .send side buffer => some (Function.update session side ((session side).send buffer))
  | .outputRoutine side now =>
      some (Function.update session side ((session side).outputRoutine now))
  | .inputRoutine side batch =>
      if ∀ datagram ∈ batch, datagram.bytes ∈ (session side.peer).emitted then
        some (Function.update session side ((session side).inputRoutine batch))
      else none

abbrev Payload := List UInt8 × UInt32

/-- How many bytes of a buffer `ikcp_send` takes when it accepts it. -/
def cutLength (buffer : List UInt8) : Nat := (sizeAsInt buffer).toInt.toNat

/-- The segments `ikcp_send` makes of a buffer it accepts. -/
def cutBuffer (buffer : List UInt8) : List IkcpSeg :=
  fragment 1376 false (fragmentCount 1376 (cutLength buffer)) buffer (cutLength buffer)

/-- The payloads of the segments of some buffers, in the order of their serial
numbers. -/
def payloads (buffers : List (List UInt8)) : List Payload :=
  buffers.flatMap fun buffer => (cutBuffer buffer).map IkcpSeg.payload

def Endpoint.handle (endpoint : Endpoint) : Ikcpcb := endpoint.kcp.mKcpHandle

def Endpoint.stream (endpoint : Endpoint) : List Payload := payloads endpoint.accepted

/-- How many segments have a serial number. -/
def Endpoint.sent (endpoint : Endpoint) : Nat :=
  endpoint.stream.length - endpoint.handle.snd_queue.length

/-- The segment is in `rcv_buf`, in `rcv_queue` or delivered. -/
def Endpoint.Stores (endpoint : Endpoint) (serial : Nat) (payload : Payload) : Prop :=
  (∃ seg ∈ endpoint.handle.rcv_buf, seg.sn.toNat = serial ∧ seg.payload = payload) ∨
    (payloads endpoint.delivered ++ endpoint.handle.rcv_queue.map IkcpSeg.payload)[serial]? =
      some payload

/-- The segment is in `snd_buf` or in `snd_queue`. -/
def Endpoint.Holds (endpoint : Endpoint) (serial : Nat) (payload : Payload) : Prop :=
  (∃ seg ∈ endpoint.handle.snd_buf, seg.sn.toNat = serial ∧ seg.payload = payload) ∨
    ∃ place, serial = endpoint.sent + place ∧
      (endpoint.handle.snd_queue.map IkcpSeg.payload)[place]? = some payload

/-- What is delivered is a prefix of what the peer accepted, and the peer keeps
every segment until it is stored. -/
structure Session.Safe (session : Session) : Prop where
  delivered : ∀ side, (session side.peer).delivered <+: (session side).accepted
  kept : ∀ side serial payload, (session side).stream[serial]? = some payload →
    (session side.peer).Stores serial payload ∨ (session side).Holds serial payload

/-- `ikcp_send` gets the size of the buffer, or one it refuses, or zero. -/
def WholeBuffer (buffer : List UInt8) : Prop :=
  buffer.length < 2 ^ 32 ∨ buffer.length % 2 ^ 32 = 0 ∨ 127 * 1376 < buffer.length % 2 ^ 32

instance (buffer : List UInt8) : Decidable (WholeBuffer buffer) :=
  inferInstanceAs (Decidable (_ ∨ _ ∨ _))

def wholeBuffers (_ : Session) : SessionEvent → Prop
  | .send _ buffer => WholeBuffer buffer
  | _ => True

instance (session : Session) (event : SessionEvent) : Decidable (wholeBuffers session event) :=
  match event with
  | .send _ buffer => inferInstanceAs (Decidable (WholeBuffer buffer))
  | .outputRoutine _ _ | .inputRoutine _ _ => inferInstanceAs (Decidable True)

end FiberKcp
