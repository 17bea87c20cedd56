import FiberKcp.Data.Refinement
import FiberKcp.Memory.Flush

namespace FiberKcp.Ikcp

open FiberKcp.Data

/-! The calls an application makes between `ikcp_create` and `ikcp_release`.
`ikcp_setmtu` is left out: a smaller `mtu` than that of the queued segments lets
`ikcp_flush` write past the new scratch buffer, which is not in the memory here. -/

/-- `nsnd_buf` and `nsnd_que` are the lengths of the two queues. -/
def ikcpWaitsnd (kcp : Ikcpcb) : Int32 :=
  (UInt32.ofNat kcp.snd_buf.length + UInt32.ofNat kcp.snd_queue.length).toInt32

/-- `stream` is the assignment to `kcp->stream`, for which there is no function. -/
inductive IkcpCall where
  | send (buffer : List UInt8) (len : Int32)
  | recv (len : Int)
  | peeksize
  | input (data : List UInt8)
  | update (current : UInt32)
  | flush
  | check (current : UInt32)
  | waitsnd
  | nodelay (nodelay interval resend nc : Int32)
  | wndsize (sndwnd rcvwnd : Int32)
  | stream (value : Int32)

/-- The value returned, the bytes received and what went to `ikcp_output`. -/
structure IkcpReply where
  ret : Int := 0
  buffer : List UInt8 := []
  output : List (List UInt8) := []
deriving DecidableEq, Repr

def Ikcpcb.call (kcp : Ikcpcb) : IkcpCall → Ikcpcb × IkcpReply
  | .send buffer len =>
      let (kcp, ret) := ikcpSend kcp buffer len
      (kcp, { ret := ret.toInt })
  | .recv len =>
      let (kcp, ret, buffer) := ikcpRecv kcp len
      (kcp, { ret, buffer })
  | .peeksize => (kcp, { ret := ikcpPeeksize kcp })
  | .input data =>
      let (kcp, ret) := ikcpInput kcp data
      (kcp, { ret := ret.toInt })
  | .update current =>
      let (kcp, output) := ikcpUpdate kcp current
      (kcp, { output })
  | .flush =>
      let (kcp, output) := ikcpFlush kcp
      (kcp, { output })
  | .check current => (kcp, { ret := (ikcpCheck kcp current).toNat })
  | .waitsnd => (kcp, { ret := (ikcpWaitsnd kcp).toInt })
  | .nodelay nodelay interval resend nc => (ikcpNodelay kcp nodelay interval resend nc, {})
  | .wndsize sndwnd rcvwnd => (ikcpWndsize kcp sndwnd rcvwnd, {})
  | .stream value => ({ kcp with stream := value }, {})

namespace Machine

/-- The calls that leave the queues alone act on the control block. -/
def call (machine : Machine) : IkcpCall → Option (Machine × IkcpReply)
  | .send buffer len => do
      let (machine, ret) ← machine.ikcpSend buffer len
      some (machine, { ret := ret.toInt })
  | .recv len => do
      let (machine, ret, buffer) ← machine.ikcpRecv len
      some (machine, { ret, buffer })
  | .peeksize => do
      let ret ← machine.ikcpPeeksize
      some (machine, { ret })
  | .input data => do
      let (machine, ret) ← machine.ikcpInput data
      some (machine, { ret := ret.toInt })
  | .update current => do
      let (machine, output) ← machine.ikcpUpdate current
      some (machine, { output })
  | .flush => do
      let (machine, output) ← machine.ikcpFlush
      some (machine, { output })
  | .check current => do
      let next ← machine.ikcpCheck current
      some (machine, { ret := next.toNat })
  | .waitsnd => some (machine, { ret := machine.ikcpWaitsnd.toInt })
  | .nodelay nodelay interval resend nc =>
      some ({ machine with block := ikcpNodelay machine.block nodelay interval resend nc }, {})
  | .wndsize sndwnd rcvwnd =>
      some ({ machine with block := ikcpWndsize machine.block sndwnd rcvwnd }, {})
  | .stream value => some ({ machine with block := { machine.block with stream := value } }, {})

section Settings

variable {machine : Machine} {kcp : Ikcpcb}

theorem ikcpWaitsnd_spec (represents : machine.Represents kcp) :
    machine.ikcpWaitsnd = Ikcp.ikcpWaitsnd kcp := by
  obtain ⟨queues, shows⟩ := represents
  rw [ikcpWaitsnd, Ikcp.ikcpWaitsnd, shows.nsnd_buf, shows.nsnd_que]
  rfl

theorem ikcpNodelay_withoutQueues (kcp : Ikcpcb) (nodelay interval resend nc : Int32) :
    ikcpNodelay kcp.withoutQueues nodelay interval resend nc =
      (ikcpNodelay kcp nodelay interval resend nc).withoutQueues := by
  unfold ikcpNodelay
  extract_lets timed paced resent timedToo pacedToo resentToo
  have sameTimed : timed = timedToo.withoutQueues := withoutQueues_ite Iff.rfl rfl rfl
  have samePaced : paced = pacedToo.withoutQueues :=
    withoutQueues_ite Iff.rfl (by rw [sameTimed]; rfl) sameTimed
  have sameResent : resent = resentToo.withoutQueues :=
    withoutQueues_ite Iff.rfl (by rw [samePaced]; rfl) samePaced
  exact withoutQueues_ite Iff.rfl (by rw [sameResent]; rfl) sameResent

theorem ikcpWndsize_withoutQueues (kcp : Ikcpcb) (sndwnd rcvwnd : Int32) :
    ikcpWndsize kcp.withoutQueues sndwnd rcvwnd =
      (ikcpWndsize kcp sndwnd rcvwnd).withoutQueues := by
  unfold ikcpWndsize
  extract_lets sized sizedToo
  have sameSized : sized = sizedToo.withoutQueues := withoutQueues_ite Iff.rfl rfl rfl
  exact withoutQueues_ite Iff.rfl (by rw [sameSized]; rfl) sameSized

theorem ikcpWndsize_queue (kcp : Ikcpcb) (sndwnd rcvwnd : Int32) :
    (ikcpWndsize kcp sndwnd rcvwnd).queue = kcp.queue := by
  unfold ikcpWndsize
  funext queue
  cases queue <;> split <;> split <;> rfl

end Settings

theorem call_simulates : Simulates Represents call Ikcpcb.call := by
  intro machine kcp call represents
  cases call with
  | send buffer len =>
      obtain ⟨after, sent, later⟩ := ikcpSend_spec represents buffer len
      exact ⟨after, by rw [call, sent]; rfl, later⟩
  | recv len =>
      obtain ⟨after, received, later⟩ := ikcpRecv_spec represents len
      exact ⟨after, by rw [call, received]; rfl, later⟩
  | peeksize =>
      obtain ⟨queues, shows⟩ := represents
      exact ⟨machine, by rw [call, ikcpPeeksize_spec shows]; rfl, queues, shows⟩
  | input data =>
      obtain ⟨after, received, later⟩ := ikcpInput_spec represents data
      exact ⟨after, by rw [call, received]; rfl, later⟩
  | update current =>
      obtain ⟨after, updated, later⟩ := ikcpUpdate_spec represents current
      exact ⟨after, by rw [call, updated]; rfl, later⟩
  | flush =>
      obtain ⟨after, flushed, later⟩ := ikcpFlush_spec represents
      exact ⟨after, by rw [call, flushed]; rfl, later⟩
  | check current => exact ⟨machine, by rw [call, ikcpCheck_spec represents]; rfl, represents⟩
  | waitsnd => exact ⟨machine, by rw [call, ikcpWaitsnd_spec represents]; rfl, represents⟩
  | nodelay nodelay interval resend nc =>
      exact ⟨_, rfl, represents.change (ikcpNodelay · nodelay interval resend nc)
        (ikcpNodelay_sameTraffic kcp nodelay interval resend nc).queue
        (ikcpNodelay_withoutQueues kcp nodelay interval resend nc)⟩
  | wndsize sndwnd rcvwnd =>
      exact ⟨_, rfl, represents.change (ikcpWndsize · sndwnd rcvwnd)
        (ikcpWndsize_queue kcp sndwnd rcvwnd) (ikcpWndsize_withoutQueues kcp sndwnd rcvwnd)⟩
  | stream value =>
      refine ⟨_, rfl, represents.change ({ · with stream := value }) ?_ rfl⟩
      funext queue
      cases queue <;> rfl

/-- From `ikcp_create` on no call follows a null pointer, touches a segment that
is not allocated or frees one twice, each replies as the queues would as lists,
and `ikcp_release` leaves nothing allocated. -/
theorem memory_safe (conv : UInt32) (calls : List IkcpCall) :
    ∃ start last released, ikcpCreate conv = some start ∧
      tryReplies call start calls =
        some (last, (replies Ikcpcb.call (Ikcp.ikcpCreate conv) calls).2) ∧
      last.Represents (replies Ikcpcb.call (Ikcp.ikcpCreate conv) calls).1 ∧
      last.ikcpRelease = some released ∧
      ∀ address, ¬ released.store.Mapped (.cell address) := by
  obtain ⟨start, created, represents⟩ := ikcpCreate_represents conv
  obtain ⟨last, done, reached⟩ := call_simulates.replies represents calls
  obtain ⟨released, freed, nothing⟩ := ikcpRelease_spec reached
  exact ⟨start, last, released, created, done, reached, freed, nothing⟩

end Machine

end FiberKcp.Ikcp
