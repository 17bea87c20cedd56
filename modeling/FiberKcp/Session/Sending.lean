import FiberKcp.Kcp.Delivery
import FiberKcp.Session.Arrivals

namespace FiberKcp

open Data Ikcp

/-! What holds of an endpoint by itself, whatever arrives. -/

/-- An accepted buffer goes out whole, unless it counts as empty. -/
structure Cut (buffer : List UInt8) : Prop where
  whole : cutLength buffer = 0 ∨ cutLength buffer = buffer.length
  few : fragmentCount 1376 (cutLength buffer) < 128

theorem cutLength_eq {buffer : List UInt8} (accepted : 0 ≤ sizeAsInt buffer) :
    cutLength buffer = buffer.length % 2 ^ 32 := by
  have nonnegative : 0 ≤ (sizeAsInt buffer).toInt := Int32.le_iff_toInt_le.mp accepted
  have bmod : (sizeAsInt buffer).toInt = (buffer.length : Int).bmod (2 ^ 32) := by
    simp [sizeAsInt]
  have wrapped : (sizeAsInt buffer).toInt = buffer.length % 2 ^ 32 ∨
      (sizeAsInt buffer).toInt < 0 := by
    rw [bmod, Int.bmod_def]
    split <;> omega
  unfold cutLength
  rcases wrapped with same | negative <;> omega

theorem cut_of_accepted {buffer : List UInt8} (whole : WholeBuffer buffer)
    (accepted : 0 ≤ sizeAsInt buffer) (few : fragmentCount 1376 (cutLength buffer) < 128) :
    Cut buffer := by
  have length := cutLength_eq accepted
  have size : cutLength buffer ≤ 127 * 1376 :=
    (le_fragmentCount_mul (Nat.succ_pos 1375) _).trans
      (Nat.mul_le_mul_right 1376 (Nat.le_of_lt_succ few))
  refine ⟨?_, few⟩
  rcases whole with small | zero | refused <;> omega

theorem Cut.small {buffer : List UInt8} (cut : Cut buffer) :
    ∀ payload ∈ (cutBuffer buffer).map IkcpSeg.payload,
      payload.1.length ≤ 1376 ∧ payload.2.toNat < 256 := by
  have few := cut.few
  intro payload member
  obtain ⟨seg, inCut, rfl⟩ := List.mem_map.mp member
  have frg := fragment_frg (by omega) seg inCut
  exact ⟨fragment_data seg inCut, by change seg.frg.toNat < 256; omega⟩

theorem payloads_append (left right : List (List UInt8)) :
    payloads (left ++ right) = payloads left ++ payloads right := List.flatMap_append

theorem payloads_small {buffers : List (List UInt8)} (cut : ∀ buffer ∈ buffers, Cut buffer) :
    ∀ payload ∈ payloads buffers, payload.1.length ≤ 1376 ∧ payload.2.toNat < 256 := by
  intro payload member
  obtain ⟨buffer, inBuffers, inCut⟩ := List.mem_flatMap.mp member
  exact (cut buffer inBuffers).small payload inCut

/-- What sending a queue of buffers may do to a control block. -/
structure Accepts (kcp after : Ikcpcb) (queue accepted : List (List UInt8)) : Prop where
  setup : after.setup = kcp.setup
  recvSide : after.recvSide = kcp.recvSide
  acklist : after.acklist = kcp.acklist
  buffer : after.snd_buf = kcp.snd_buf
  next : after.snd_nxt = kcp.snd_nxt
  waiting : after.snd_queue.map IkcpSeg.payload =
    kcp.snd_queue.map IkcpSeg.payload ++ payloads accepted
  taken : ∀ buffer ∈ accepted, buffer ∈ queue ∧ 0 ≤ sizeAsInt buffer ∧
    fragmentCount 1376 (cutLength buffer) < 128

theorem sendQueue_accepts {conv : UInt32} (queue : List (List UInt8)) (kcp : Ikcpcb)
    (setup : kcp.setup = ⟨conv, 1400, 1376, 0⟩) :
    Accepts kcp (sendQueue queue kcp).1 queue (sendQueue queue kcp).2 := by
  induction queue generalizing kcp with
  | nil => exact ⟨rfl, rfl, rfl, rfl, rfl, by simp [sendQueue, payloads], by simp [sendQueue]⟩
  | cons buffer rest ih =>
      have message : kcp.stream = 0 := congrArg Setup.stream setup
      have mss : kcp.mss = 1376 := congrArg Setup.mss setup
      rw [sendQueue]
      rcases ikcpSend_cases message buffer (sizeAsInt buffer) with
        ⟨ret, negative, refused⟩ | ⟨positive, few, queued, sent, cut⟩
      · have later := ih kcp setup
        rw [refused]
        simp only [negative, if_true]
        exact ⟨later.setup, later.recvSide, later.acklist, later.buffer, later.next, later.waiting,
          fun taken member => ⟨List.mem_cons_of_mem buffer (later.taken taken member).1,
            (later.taken taken member).2⟩⟩
      · rw [sent]
        have here : ¬ (0 : Int32) < 0 := by decide
        simp only [here, if_false]
        rw [mss] at few cut
        have later := ih queued (cut.setup.trans setup)
        refine ⟨later.setup.trans cut.setup, later.recvSide.trans cut.recvSide,
          later.acklist.trans cut.acklist, later.buffer.trans cut.buffer,
          later.next.trans cut.next, ?_, ?_⟩
        · rw [later.waiting, cut.queue, List.map_append, List.append_assoc]
          rfl
        · intro taken member
          rcases List.mem_cons.mp member with rfl | member
          · exact ⟨List.mem_cons_self, positive, few⟩
          · exact ⟨List.mem_cons_of_mem buffer (later.taken taken member).1,
              (later.taken taken member).2⟩

/-- The control block is set up as `init` does it, its queue is the end of the
stream, and every accepted buffer goes out whole. -/
structure Settled (conv : UInt32) (endpoint : Endpoint) : Prop where
  setup : endpoint.handle.setup = ⟨conv, 1400, 1376, 0⟩
  counted : endpoint.handle.recvSide.Counted
  queued : ∀ buffer ∈ endpoint.kcp.mSendBufQueue, WholeBuffer buffer
  accepted : ∀ buffer ∈ endpoint.accepted, Cut buffer
  waiting : endpoint.handle.snd_queue.map IkcpSeg.payload <:+ endpoint.stream

section Endpoint

variable {conv : UInt32} {endpoint : Endpoint}

theorem Settled.sent_add (settled : Settled conv endpoint) :
    endpoint.sent + endpoint.handle.snd_queue.length = endpoint.stream.length := by
  have shorter := settled.waiting.length_le
  rw [List.length_map] at shorter
  exact Nat.sub_add_cancel shorter

theorem Settled.queue_eq (settled : Settled conv endpoint) :
    endpoint.handle.snd_queue.map IkcpSeg.payload = endpoint.stream.drop endpoint.sent := by
  have last := List.suffix_iff_eq_drop.mp settled.waiting
  rw [List.length_map] at last
  exact last

theorem settled_init (attr : KcpAttr) : Settled attr.conv { kcp := Kcp.init attr } := by
  obtain ⟨sendSide, _, setup, _⟩ := init_traffic attr
  have queue : (Kcp.init attr).mKcpHandle.snd_queue = [] := congrArg SendSide.snd_queue sendSide
  refine ⟨setup, init_counted attr, by simp [Kcp.init], by simp, ?_⟩
  rw [Endpoint.handle, queue]
  exact List.nil_suffix

theorem Settled.send (settled : Settled conv endpoint) {buffer : List UInt8}
    (whole : WholeBuffer buffer) : Settled conv (endpoint.send buffer) := by
  refine ⟨settled.setup, settled.counted, ?_, settled.accepted, settled.waiting⟩
  intro other member
  rcases List.mem_append.mp member with member | member
  · exact settled.queued other member
  · rw [List.mem_singleton.mp member]
    exact whole

/-- What one `outputRoutine` does to the control block: it accepts buffers, then
it flushes. -/
theorem outputRoutine_spec (settled : Settled conv endpoint) (now : UInt32) :
    ∃ filled accepted output,
      Accepts endpoint.handle filled endpoint.kcp.mSendBufQueue accepted ∧
      Flushed filled (endpoint.outputRoutine now).handle output ∧
      (endpoint.outputRoutine now).kcp.mSendBufQueue = [] ∧
      (endpoint.outputRoutine now).accepted = endpoint.accepted ++ accepted ∧
      (endpoint.outputRoutine now).emitted = endpoint.emitted ++ output ∧
      (endpoint.outputRoutine now).delivered = endpoint.delivered :=
  ⟨_, _, _, sendQueue_accepts endpoint.kcp.mSendBufQueue endpoint.handle settled.setup,
    ikcpUpdate_flushed _ now, rfl, rfl, rfl, rfl⟩

theorem Settled.outputRoutine (settled : Settled conv endpoint) (now : UInt32) :
    Settled conv (endpoint.outputRoutine now) := by
  obtain ⟨filled, accepted, output, accepts, flushed, queue, accepted_eq, _, _⟩ :=
    outputRoutine_spec settled now
  obtain ⟨moving, entered, moves, left, _⟩ := flushed.traffic
  obtain ⟨moved, parts, _⟩ := moves.queue
  refine ⟨flushed.setup.trans (accepts.setup.trans settled.setup), ?_, ?_, ?_, ?_⟩
  · rw [flushed.recvSide, accepts.recvSide]
    exact settled.counted
  · rw [queue]
    simp
  · rw [accepted_eq]
    intro buffer member
    rcases List.mem_append.mp member with member | member
    · exact settled.accepted buffer member
    · obtain ⟨inQueue, positive, few⟩ := accepts.taken buffer member
      exact cut_of_accepted (settled.queued buffer inQueue) positive few
  · have later : (endpoint.outputRoutine now).handle.snd_queue.map IkcpSeg.payload <:+
        filled.snd_queue.map IkcpSeg.payload := by
      rw [left, parts, List.map_append]
      exact List.suffix_append _ _
    obtain ⟨earlier, whole⟩ := settled.waiting
    refine later.trans ⟨earlier, ?_⟩
    rw [Endpoint.stream, accepted_eq, payloads_append, accepts.waiting, ← List.append_assoc, whole]
    rfl

theorem sent_outputRoutine (settled : Settled conv endpoint) (now : UInt32) :
    endpoint.sent ≤ (endpoint.outputRoutine now).sent := by
  obtain ⟨filled, accepted, output, accepts, flushed, queue, accepted_eq, _, _⟩ :=
    outputRoutine_spec settled now
  obtain ⟨moving, entered, moves, left, _⟩ := flushed.traffic
  obtain ⟨moved, parts, _⟩ := moves.queue
  have before := settled.sent_add
  have after := (settled.outputRoutine now).sent_add
  have filledLength := congrArg List.length accepts.waiting
  have filledParts := congrArg List.length parts
  have stream : (endpoint.outputRoutine now).stream.length =
      endpoint.stream.length + (payloads accepted).length := by
    rw [Endpoint.stream, accepted_eq, payloads_append, List.length_append]
    rfl
  simp only [List.length_append, List.length_map] at filledLength filledParts
  rw [← left] at filledParts
  omega

theorem receiveAll_keeps (kcp : Kcp) (locals : InputLocals) (batch : List Datagram) :
    (kcp.receiveAll locals batch).1.mKcpHandle.setup = kcp.mKcpHandle.setup ∧
      (kcp.receiveAll locals batch).1.mKcpHandle.snd_queue = kcp.mKcpHandle.snd_queue ∧
      (kcp.receiveAll locals batch).1.mSendBufQueue = kcp.mSendBufQueue := by
  induction batch generalizing kcp locals with
  | nil => exact ⟨rfl, rfl, rfl⟩
  | cons datagram rest ih =>
      have first : (kcp.receive locals datagram).1.mKcpHandle.setup = kcp.mKcpHandle.setup ∧
          (kcp.receive locals datagram).1.mKcpHandle.snd_queue = kcp.mKcpHandle.snd_queue ∧
          (kcp.receive locals datagram).1.mSendBufQueue = kcp.mSendBufQueue := by
        unfold Kcp.receive
        dsimp only
        split
        · exact ⟨rfl, rfl, rfl⟩
        · obtain ⟨setup, queue⟩ :=
            ikcpInput_keeps kcp.mKcpHandle (datagram.bytes.take recvBufSize)
          exact ⟨setup, queue, rfl⟩
      obtain ⟨setup, queue, waiting⟩ :=
        ih (kcp.receive locals datagram).1 (kcp.receive locals datagram).2
      rw [Kcp.receiveAll_cons]
      exact ⟨setup.trans first.1, queue.trans first.2.1, waiting.trans first.2.2⟩

theorem inputRoutine_keeps (counted : endpoint.handle.recvSide.Counted) (batch : List Datagram) :
    (endpoint.inputRoutine batch).handle.setup = endpoint.handle.setup ∧
      (endpoint.inputRoutine batch).handle.snd_queue = endpoint.handle.snd_queue ∧
      (endpoint.inputRoutine batch).kcp.mSendBufQueue = endpoint.kcp.mSendBufQueue := by
  obtain ⟨setup, queue, waiting⟩ := receiveAll_keeps endpoint.kcp {} batch
  have fed := receiveAll_counted {} batch counted
  have delivered := deliver_eq (endpoint.kcp.receiveAll {} batch).2 fed
  unfold Endpoint.inputRoutine Endpoint.handle Kcp.inputRoutine
  dsimp only
  rw [delivered]
  split
  · rename_i complete
    obtain ⟨same, _⟩ := ikcpRecv_eq fed complete.1
    obtain ⟨setupTaken, sendSide, _⟩ :=
      takeMessage_keeps (endpoint.kcp.receiveAll {} batch).1.mKcpHandle
    refine ⟨same.setup.trans (setupTaken.trans setup), ?_, waiting⟩
    exact (congrArg SendSide.snd_queue (same.sendSide.trans sendSide)).trans queue
  · exact ⟨setup, queue, waiting⟩

theorem Settled.inputRoutine (settled : Settled conv endpoint) (batch : List Datagram) :
    Settled conv (endpoint.inputRoutine batch) := by
  obtain ⟨setup, queue, waiting⟩ := inputRoutine_keeps settled.counted batch
  refine ⟨setup.trans settled.setup, ?_, waiting ▸ settled.queued, settled.accepted, ?_⟩
  · have performed : endpoint.kcp.perform (.inputRoutine batch) =
        some (endpoint.inputRoutine batch).kcp := rfl
    exact perform_counted settled.counted performed
  · rw [queue]
    exact settled.waiting

theorem sent_inputRoutine (counted : endpoint.handle.recvSide.Counted) (batch : List Datagram) :
    (endpoint.inputRoutine batch).sent = endpoint.sent := by
  rw [Endpoint.sent, (inputRoutine_keeps counted batch).2.1]
  rfl

end Endpoint

end FiberKcp
