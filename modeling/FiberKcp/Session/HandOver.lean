import FiberKcp.Session.Sending
import Mathlib.Algebra.Order.BigOperators.Group.List
import Mathlib.Algebra.Order.Group.Nat

namespace FiberKcp

open Data Ikcp

/-! What `outputRoutine` makes of the buffers `send` has queued. -/

/-- The payloads of the segments not yet acknowledged, in the order of their
serial numbers. -/
def Kcp.outgoing (kcp : Kcp) : List Payload :=
  (kcp.mKcpHandle.snd_buf ++ kcp.mKcpHandle.snd_queue).map IkcpSeg.payload

/-- The segments are the fragments of the buffer, all of it. -/
structure Reassembles (buffer : List UInt8) (segs : List IkcpSeg) : Prop where
  bytes : segs.flatMap (·.data) = buffer
  countdown : Countdown segs

/-- Every queued buffer is cut into segments, in order, or stays queued. -/
def Kcp.HandsOver (kcp : Kcp) (now : UInt32) : Prop :=
  ∃ cut pieces, cut.Sublist kcp.mSendBufQueue ∧
    kcp.mSendBufQueue.Perm (cut ++ (kcp.outputRoutine now).1.mSendBufQueue) ∧
    List.Forall₂ Reassembles cut pieces ∧
    (kcp.outputRoutine now).1.outgoing =
      kcp.outgoing ++ pieces.flatten.map IkcpSeg.payload

/-- `ikcp_send` takes the buffer, by the length it gets. -/
def Acceptable (buffer : List UInt8) : Prop :=
  0 ≤ sizeAsInt buffer ∧ fragmentCount 1376 (cutLength buffer) < 128

instance (buffer : List UInt8) : Decidable (Acceptable buffer) :=
  inferInstanceAs (Decidable (_ ∧ _))

theorem fragmentCount_le_iff (len : Nat) : fragmentCount 1376 len < 128 ↔ len ≤ 127 * 1376 := by
  constructor
  · intro few
    exact (le_fragmentCount_mul (Nat.succ_pos 1375) len).trans
      (Nat.mul_le_mul_right 1376 (Nat.le_of_lt_succ few))
  · intro small
    unfold fragmentCount
    by_cases single : len ≤ 1376
    · simp [single]
    · simp only [single, if_false]
      split <;> omega

theorem acceptable_of_small {buffer : List UInt8} (small : buffer.length ≤ 127 * 1376) :
    Acceptable buffer ∧ cutLength buffer = buffer.length := by
  have nonnegative : 0 ≤ sizeAsInt buffer := by
    rw [Int32.le_iff_toInt_le]
    have bmod : (sizeAsInt buffer).toInt = (buffer.length : Int).bmod (2 ^ 32) := by
      simp [sizeAsInt]
    rw [bmod, Int.bmod_def]
    split <;> simp <;> omega
  have length : cutLength buffer = buffer.length := by
    rw [cutLength_eq nonnegative]
    omega
  exact ⟨⟨nonnegative, (fragmentCount_le_iff _).mpr (length ▸ small)⟩, length⟩

/-- How many bytes of a buffer get into segments. -/
def handedOver (buffer : List UInt8) : Nat :=
  if Acceptable buffer then min (cutLength buffer) buffer.length else 0

theorem handedOver_le (buffer : List UInt8) :
    handedOver buffer ≤ buffer.length ∧ handedOver buffer ≤ 127 * 1376 := by
  unfold handedOver
  split
  · rename_i taken
    have small := (fragmentCount_le_iff _).mp taken.2
    exact ⟨Nat.min_le_right _ _, (Nat.min_le_left _ _).trans small⟩
  · exact ⟨Nat.zero_le _, Nat.zero_le _⟩

theorem cutBuffer_bytes (buffer : List UInt8) :
    ((cutBuffer buffer).flatMap (·.data)) = buffer.take (cutLength buffer) :=
  fragment_bytes (le_fragmentCount_mul (Nat.succ_pos 1375) _)

theorem cutBuffer_countdown {buffer : List UInt8} (taken : Acceptable buffer) :
    Countdown (cutBuffer buffer) := by
  have few := taken.2
  exact fragment_countdown _ _ _ (fragmentCount_pos 1376 _) (by omega)

theorem sendQueue_filter {conv : UInt32} (queue : List (List UInt8)) (kcp : Ikcpcb)
    (setup : kcp.setup = ⟨conv, 1400, 1376, 0⟩) :
    (sendQueue queue kcp).2 = queue.filter fun buffer => Acceptable buffer := by
  induction queue generalizing kcp with
  | nil => rfl
  | cons buffer rest ih =>
      have message : kcp.stream = 0 := congrArg Setup.stream setup
      have mss : kcp.mss = 1376 := congrArg Setup.mss setup
      have later := ih (ikcpSend kcp buffer (sizeAsInt buffer)).1
        ((ikcpSend_keeps kcp buffer _).2.1.trans setup)
      have refused := ikcpSend_refuses_iff message buffer (sizeAsInt buffer)
      rw [mss] at refused
      simp only [sendQueue, List.filter_cons, later]
      by_cases taken : Acceptable buffer
      · have kept : ¬ (ikcpSend kcp buffer (sizeAsInt buffer)).2 < 0 := by
          rw [refused]
          rintro (negative | many)
          · exact absurd taken.1 (Int32.not_le.mpr negative)
          · exact absurd taken.2 (Nat.not_lt.mpr many)
        simp [taken, kept]
      · have dropped : (ikcpSend kcp buffer (sizeAsInt buffer)).2 < 0 := by
          rw [refused]
          by_cases negative : sizeAsInt buffer < 0
          · exact .inl negative
          · exact .inr (Nat.not_lt.mp fun few => taken ⟨Int32.not_lt.mp negative, few⟩)
        simp [taken, dropped]

theorem payloads_of_sameSegs {before after : List IkcpSeg}
    (same : List.Forall₂ SameSeg before after) :
    after.map IkcpSeg.payload = before.map IkcpSeg.payload := by
  induction same with
  | nil => rfl
  | cons here _ ih => rw [List.map_cons, List.map_cons, here.payload, ih]

section Reached

variable {conv : UInt32} {kcp : Kcp}

/-- The control block is set up as `init` does it. -/
structure Kcp.Ready (conv : UInt32) (kcp : Kcp) : Prop where
  setup : kcp.mKcpHandle.setup = ⟨conv, 1400, 1376, 0⟩
  counted : kcp.mKcpHandle.recvSide.Counted

theorem outputRoutine_accepts (ready : kcp.Ready conv) (now : UInt32) :
    ∃ filled output, Accepts kcp.mKcpHandle filled kcp.mSendBufQueue
        (kcp.mSendBufQueue.filter fun buffer => Acceptable buffer) ∧
      Flushed filled (kcp.outputRoutine now).1.mKcpHandle output ∧
      (kcp.outputRoutine now).2.datagrams = output := by
  have accepts := sendQueue_accepts kcp.mSendBufQueue kcp.mKcpHandle ready.setup
  rw [sendQueue_filter kcp.mSendBufQueue kcp.mKcpHandle ready.setup] at accepts
  exact ⟨_, _, accepts, ikcpUpdate_flushed _ now, rfl⟩

theorem Kcp.Ready.perform (ready : kcp.Ready conv) {call : KcpCall} {after : Kcp}
    (performed : kcp.perform call = some after) : after.Ready conv := by
  refine ⟨?_, perform_counted ready.counted performed⟩
  cases call with
  | send buffer =>
      cases performed
      exact ready.setup
  | outputRoutine now =>
      cases performed
      obtain ⟨filled, output, accepts, flushed, _⟩ := outputRoutine_accepts ready now
      exact flushed.setup.trans (accepts.setup.trans ready.setup)
  | inputRoutine batch =>
      cases performed
      have counted : ({ kcp := kcp } : Endpoint).handle.recvSide.Counted := ready.counted
      exact (inputRoutine_keeps counted batch).1.trans ready.setup

theorem ready_init (attr : KcpAttr) : (Kcp.init attr).Ready attr.conv :=
  ⟨(init_traffic attr).2.2.1, init_counted attr⟩

theorem reached_ready {attr : KcpAttr} {calls : List KcpCall}
    (run : Run Kcp.perform anyStep (Kcp.init attr) calls kcp) : kcp.Ready attr.conv :=
  run.invariant (Kcp.Ready attr.conv) (ready_init attr) fun ready _ performed =>
    ready.perform performed

theorem outputRoutine_outgoing (ready : kcp.Ready conv) (now : UInt32) :
    (kcp.outputRoutine now).1.outgoing =
      kcp.outgoing ++ payloads (kcp.mSendBufQueue.filter fun buffer => Acceptable buffer) := by
  obtain ⟨filled, output, accepts, flushed, _⟩ := outputRoutine_accepts ready now
  obtain ⟨moving, entered, moves, left, _, sameSegs, _⟩ := flushed.traffic
  obtain ⟨moved, parts, payloads⟩ := moves.queue
  have buffer : (kcp.outputRoutine now).1.mKcpHandle.snd_buf.map IkcpSeg.payload =
      moving.snd_buf.map IkcpSeg.payload := by
    exact payloads_of_sameSegs sameSegs
  unfold Kcp.outgoing
  rw [List.map_append, buffer, left, moves.buffer, accepts.buffer, List.map_append, payloads,
    List.map_append, List.append_assoc, List.append_assoc, ← accepts.waiting, parts]
  simp

theorem handsOver_of_small (ready : kcp.Ready conv) (now : UInt32)
    (small : ∀ buffer ∈ kcp.mSendBufQueue, buffer.length ≤ 127 * 1376) : kcp.HandsOver now := by
  have taken : kcp.mSendBufQueue.filter (fun buffer => Acceptable buffer) = kcp.mSendBufQueue :=
    List.filter_eq_self.mpr fun buffer member =>
      by simpa using (acceptable_of_small (small buffer member)).1
  refine ⟨kcp.mSendBufQueue, kcp.mSendBufQueue.map cutBuffer, List.Sublist.refl _, ?_, ?_, ?_⟩
  · have empty : (kcp.outputRoutine now).1.mSendBufQueue = [] := rfl
    rw [empty, List.append_nil]
  · rw [List.forall₂_map_right_iff, List.forall₂_same]
    intro buffer member
    obtain ⟨acceptable, length⟩ := acceptable_of_small (small buffer member)
    refine ⟨?_, cutBuffer_countdown acceptable⟩
    rw [cutBuffer_bytes, length, List.take_length]
  · rw [outputRoutine_outgoing ready, taken]
    simp only [payloads, List.flatMap, List.map_flatten, List.map_map]
    rfl

/-- How many bytes some payloads carry. -/
def bytesOf (payloads : List Payload) : Nat := (payloads.map fun payload => payload.1.length).sum

theorem bytesOf_append (left right : List Payload) :
    bytesOf (left ++ right) = bytesOf left + bytesOf right := by
  simp [bytesOf]

theorem bytesOf_segs (segs : List IkcpSeg) :
    bytesOf (segs.map IkcpSeg.payload) = (segs.flatMap (·.data)).length := by
  induction segs with
  | nil => rfl
  | cons seg rest ih =>
      simp only [List.map_cons, List.flatMap_cons, List.length_append, ← ih]
      rfl

theorem bytesOf_payloads (queue : List (List UInt8)) :
    bytesOf (payloads (queue.filter fun buffer => Acceptable buffer)) =
      (queue.map handedOver).sum := by
  induction queue with
  | nil => rfl
  | cons buffer rest ih =>
      rw [List.map_cons, List.sum_cons, ← ih, List.filter_cons]
      by_cases taken : Acceptable buffer
      · have here : bytesOf ((cutBuffer buffer).map IkcpSeg.payload) = handedOver buffer := by
          rw [bytesOf_segs, cutBuffer_bytes, List.length_take, handedOver, if_pos taken]
        simp only [taken, decide_true, if_true]
        rw [payloads, List.flatMap_cons, bytesOf_append, here]
        rfl
      · simp [taken, handedOver]

theorem bytesOf_pieces {cut : List (List UInt8)} {pieces : List (List IkcpSeg)}
    (whole : List.Forall₂ Reassembles cut pieces) :
    bytesOf (pieces.flatten.map IkcpSeg.payload) = (cut.map List.length).sum := by
  induction whole with
  | nil => rfl
  | cons here _ ih =>
      rw [List.flatten_cons, List.map_append, bytesOf_append, ih, bytesOf_segs, here.bytes]
      simp

/-- Two sums with equal value and one list of terms below the other. -/
theorem eq_of_sum_eq {queue : List (List UInt8)} {small large : List UInt8 → Nat}
    (below : ∀ buffer, small buffer ≤ large buffer)
    (sums : (queue.map small).sum = (queue.map large).sum) :
    ∀ buffer ∈ queue, small buffer = large buffer := by
  induction queue with
  | nil => simp
  | cons first rest ih =>
      have rests : (rest.map small).sum ≤ (rest.map large).sum :=
        List.sum_le_sum fun buffer _ => below buffer
      have here := below first
      simp only [List.map_cons, List.sum_cons] at sums
      intro buffer member
      rcases List.mem_cons.mp member with rfl | later
      · omega
      · exact ih (by omega) buffer later

theorem small_of_handsOver (ready : kcp.Ready conv) (now : UInt32) (hands : kcp.HandsOver now) :
    ∀ buffer ∈ kcp.mSendBufQueue, buffer.length ≤ 127 * 1376 := by
  obtain ⟨cut, pieces, ordered, parts, whole, outgoing⟩ := hands
  have empty : (kcp.outputRoutine now).1.mSendBufQueue = [] := rfl
  rw [empty, List.append_nil] at parts
  have all : cut = kcp.mSendBufQueue := ordered.eq_of_length parts.length_eq.symm
  rw [outputRoutine_outgoing ready] at outgoing
  have bytes := congrArg bytesOf (List.append_cancel_left outgoing)
  rw [bytesOf_payloads, bytesOf_pieces whole, all] at bytes
  intro buffer member
  have same := eq_of_sum_eq (fun other => (handedOver_le other).1) bytes buffer member
  exact same ▸ (handedOver_le buffer).2

end Reached

/-- A call of `outputRoutine` loses no buffer exactly when none is longer than
127 segments. -/
theorem outputRoutine_handsOver_iff {attr : KcpAttr} {calls : List KcpCall} {kcp : Kcp}
    (run : Run Kcp.perform anyStep (Kcp.init attr) calls kcp) (now : UInt32) :
    kcp.HandsOver now ↔ ∀ buffer ∈ kcp.mSendBufQueue, buffer.length ≤ 127 * 1376 :=
  ⟨small_of_handsOver (reached_ready run) now, handsOver_of_small (reached_ready run) now⟩

theorem outputRoutine_handsOver_two :
    ∃ kcp, Run Kcp.perform anyStep (Kcp.init {}) [.send [1, 2], .send []] kcp ∧
      kcp.HandsOver 0 := by
  have run : Run Kcp.perform anyStep (Kcp.init {}) [.send [1, 2], .send []] _ := Run.of_execute rfl
  refine ⟨_, run, (outputRoutine_handsOver_iff run 0).mpr ?_⟩
  decide

/-- A buffer of one byte more than 127 segments is dropped. -/
theorem outputRoutine_drops_long_buffer :
    ∃ kcp, Run Kcp.perform anyStep (Kcp.init {}) [.send (List.replicate (127 * 1376 + 1) 0)] kcp ∧
      ¬ kcp.HandsOver 0 := by
  have run : Run Kcp.perform anyStep (Kcp.init {})
      [.send (List.replicate (127 * 1376 + 1) 0)]
      ((Kcp.init {}).send (List.replicate (127 * 1376 + 1) 0)) := Run.nil.snoc trivial rfl
  refine ⟨_, run, fun hands => ?_⟩
  have small := small_of_handsOver (reached_ready run) 0 hands
    (List.replicate (127 * 1376 + 1) 0) List.mem_cons_self
  rw [List.length_replicate] at small
  omega

end FiberKcp
