import FiberKcp.Ikcp.Arrival
import Mathlib.Data.List.Flatten

namespace FiberKcp.Ikcp

/-! Messages at the front of the receive queue, and what `ikcp_peeksize` and
`ikcp_recv` make of them. -/

/-- The segments `ikcp_recv` merges: up to the first with `frg` zero. -/
def messageParts : List IkcpSeg → List IkcpSeg
  | [] => []
  | seg :: rest => if seg.frg = 0 then [seg] else seg :: messageParts rest

def messageBytes (queue : List IkcpSeg) : List UInt8 := (messageParts queue).flatMap (·.data)

/-- The first segment is queued with all the fragments its `frg` announces. -/
def HasMessage (queue : List IkcpSeg) : Prop :=
  ∃ seg ∈ queue.head?, seg.frg.toNat < queue.length

instance (queue : List IkcpSeg) : Decidable (HasMessage queue) :=
  match queue with
  | [] => .isFalse (by simp [HasMessage])
  | seg :: rest => decidable_of_iff (seg.frg.toNat < (seg :: rest).length) (by simp [HasMessage])

@[simp] theorem hasMessage_nil : ¬ HasMessage [] := by simp [HasMessage]

@[simp] theorem hasMessage_cons (seg : IkcpSeg) (rest : List IkcpSeg) :
    HasMessage (seg :: rest) ↔ seg.frg.toNat < rest.length + 1 := by
  simp [HasMessage]

/-- The fragments of one message: each carries the number of those after it. -/
def Countdown : List IkcpSeg → Prop
  | [] => False
  | [seg] => seg.frg.toNat = 0
  | seg :: next :: rest => seg.frg.toNat = rest.length + 1 ∧ Countdown (next :: rest)

theorem Countdown.first {seg : IkcpSeg} {rest : List IkcpSeg} (parts : Countdown (seg :: rest)) :
    seg.frg.toNat = rest.length := by
  cases rest with
  | nil => simpa [Countdown] using parts
  | cons next rest => simpa using parts.1

theorem Countdown.of_payloads {left right : List IkcpSeg}
    (same : left.map IkcpSeg.payload = right.map IkcpSeg.payload) (countdown : Countdown right) :
    Countdown left := by
  induction right generalizing left with
  | nil => contradiction
  | cons seg rest ih =>
      cases left with
      | nil => simp at same
      | cons first later =>
          obtain ⟨here, after⟩ := List.cons.inj same
          have frg : first.frg = seg.frg := congrArg Prod.snd here
          have lengths : later.length = rest.length := by simpa using congrArg List.length after
          have count := countdown.first
          cases rest with
          | nil =>
              have none : later = [] := List.eq_nil_of_length_eq_zero lengths
              simpa [none, Countdown, frg] using count
          | cons next rest =>
              cases later with
              | nil => simp at lengths
              | cons second later =>
                  refine ⟨?_, ih after countdown.2⟩
                  rw [frg, count, ← lengths]
                  rfl

theorem Countdown.messageParts {parts : List IkcpSeg} (countdown : Countdown parts)
    (after : List IkcpSeg) : messageParts (parts ++ after) = parts := by
  induction parts with
  | nil => contradiction
  | cons seg rest ih =>
      have count := countdown.first
      cases rest with
      | nil =>
          have last : seg.frg = 0 := UInt32.toNat_inj.mp (by simpa using count)
          simp [Ikcp.messageParts, last]
      | cons next rest =>
          have more : seg.frg ≠ 0 := by
            intro zero
            simp [zero] at count
          simpa [Ikcp.messageParts, more] using ih countdown.2

/-- A message with some of its last fragments still missing is not complete. -/
theorem Countdown.not_hasMessage {queue missing : List IkcpSeg}
    (countdown : Countdown (queue ++ missing)) (short : missing ≠ []) : ¬ HasMessage queue := by
  cases queue with
  | nil => simp
  | cons seg rest =>
      have count : seg.frg.toNat = (rest ++ missing).length := countdown.first
      have positive := List.length_pos_iff.mpr short
      rw [List.length_append] at count
      rw [hasMessage_cons]
      omega

/-- `nrcv_que` counts the queue, and every `frg` came in one byte. -/
structure RecvSide.Counted (side : RecvSide) : Prop where
  count : side.nrcv_que.toNat = side.rcv_queue.length
  queued : ∀ seg ∈ side.rcv_queue, seg.frg.toNat < 256
  buffered : ∀ seg ∈ side.rcv_buf, seg.frg.toNat < 256

theorem moveAvailable_counted {buffer : List IkcpSeg} {kcp : Ikcpcb}
    (count : kcp.nrcv_que.toNat = kcp.rcv_queue.length)
    (queued : ∀ seg ∈ kcp.rcv_queue, seg.frg.toNat < 256)
    (buffered : ∀ seg ∈ buffer, seg.frg.toNat < 256) :
    (moveAvailable buffer kcp).recvSide.Counted := by
  obtain ⟨moved, left, parts, _, room, result⟩ := moveAvailable_spec buffer kcp
  have queBound := kcp.nrcv_que.toNat_lt
  have wndBound := kcp.rcv_wnd.toNat_lt
  rw [result]
  refine ⟨?_, ?_, ?_⟩
  · simp only [Ikcpcb.recvSide, UInt32.toNat_add, UInt32.toNat_ofNat', List.length_append]
    omega
  · intro seg member
    rcases List.mem_append.mp member with member | member
    · exact queued seg member
    · exact buffered seg (parts ▸ List.mem_append_left _ member)
  · exact fun seg member => buffered seg (parts ▸ List.mem_append_right _ member)

theorem ikcpParseData_counted {kcp : Ikcpcb} {newseg : IkcpSeg}
    (counted : kcp.recvSide.Counted) (small : newseg.frg.toNat < 256) :
    (ikcpParseData kcp newseg).recvSide.Counted := by
  rcases ikcpParseData_cases kcp newseg with ⟨unchanged, _⟩ | ⟨buffer, moved, members, _, _⟩
  · rw [unchanged]
    exact counted
  · rw [moved]
    refine moveAvailable_counted counted.count counted.queued fun seg member => ?_
    rcases members seg member with rfl | member
    · exact small
    · exact counted.buffered seg member

theorem applySegment_counted (kcp : Ikcpcb) (scan : AckScan) (header : SegmentHeader)
    (payload : List UInt8) (counted : kcp.recvSide.Counted) :
    (applySegment kcp scan header payload).1.recvSide.Counted := by
  obtain ⟨entered, same, arrival⟩ := applySegment_cases kcp scan header payload
  have enteredCounted : entered.recvSide.Counted := same.recvSide ▸ counted
  generalize (applySegment kcp scan header payload).1 = after at arrival
  cases arrival with
  | acked _ timed removed =>
      have parsed : ∀ kcp, (ikcpParseAck kcp header.sn).recvSide = kcp.recvSide := by
        intro kcp
        unfold ikcpParseAck
        split <;> rfl
      rw [removed.recvSide, parsed, timed.recvSide]
      exact enteredCounted
  | stored _ _ _ =>
      refine ikcpParseData_counted enteredCounted ?_
      simpa [arrivedSeg] using header.frg.toNat_lt
  | repeated _ _ => exact enteredCounted
  | passed unchanged => exact unchanged.recvSide ▸ enteredCounted

theorem ikcpInput_counted {kcp : Ikcpcb} (data : List UInt8) (counted : kcp.recvSide.Counted) :
    (ikcpInput kcp data).1.recvSide.Counted := by
  have scanned := inputLoop_preserves (fun kcp => kcp.recvSide.Counted)
    applySegment_counted data.length kcp {} data counted
  have fastack : ∀ (kcp : Ikcpcb) sn, (ikcpParseFastack kcp sn).recvSide = kcp.recvSide := by
    intro kcp sn
    unfold ikcpParseFastack
    split <;> rfl
  unfold ikcpInput
  dsimp only
  split
  · exact counted
  · split
    · exact scanned
    · have noted : ∀ noted : Ikcpcb, noted.recvSide.Counted →
          (if itimediff noted.snd_una kcp.snd_una > 0 then growCwnd noted
            else noted).recvSide.Counted := by
        intro noted counted
        split
        · exact (growCwnd_sameTraffic noted).recvSide ▸ counted
        · exact counted
      split
      · apply noted
        rw [fastack]
        exact scanned
      · exact noted _ scanned

theorem messageLength_eq (queue : List IkcpSeg) :
    messageLength queue = (messageBytes queue).length := by
  induction queue with
  | nil => rfl
  | cons seg rest ih =>
      by_cases last : seg.frg = 0
      · simp [messageLength, messageBytes, messageParts, last]
      · simpa [messageLength, messageBytes, messageParts, last] using ih

theorem ikcpPeeksize_eq {kcp : Ikcpcb} (counted : kcp.recvSide.Counted) :
    ikcpPeeksize kcp =
      if HasMessage kcp.rcv_queue then ((messageBytes kcp.rcv_queue).length : Int) else -1 := by
  have count : kcp.nrcv_que.toNat = kcp.rcv_queue.length := counted.count
  have queued : ∀ seg ∈ kcp.rcv_queue, seg.frg.toNat < 256 := counted.queued
  unfold ikcpPeeksize
  rw [messageLength_eq]
  cases queue : kcp.rcv_queue with
  | nil => simp
  | cons seg rest =>
      rw [queue] at count queued
      have small := queued seg (by simp)
      simp only [hasMessage_cons]
      by_cases last : seg.frg = 0
      · simp [last, messageBytes, messageParts]
      · have announced : (seg.frg + 1).toNat = seg.frg.toNat + 1 := by
          rw [UInt32.toNat_add]
          simp only [UInt32.toNat_one]
          omega
        have fewer : kcp.nrcv_que < seg.frg + 1 ↔ ¬ seg.frg.toNat < rest.length + 1 := by
          rw [UInt32.lt_iff_toNat_lt, announced, count, List.length_cons]
          omega
        by_cases complete : seg.frg.toNat < rest.length + 1 <;> simp [last, fewer, complete]

theorem mergeFragment_eq (queue : List IkcpSeg) :
    mergeFragment queue = (messageBytes queue, queue.drop (messageParts queue).length,
      UInt32.ofNat (messageParts queue).length) := by
  induction queue with
  | nil => rfl
  | cons seg rest ih =>
      by_cases last : seg.frg = 0
      · simp [mergeFragment, messageBytes, messageParts, last]
      · simp [mergeFragment, messageBytes, messageParts, last, ih, UInt32.ofNat_add]

theorem messageParts_isInitial (queue : List IkcpSeg) : messageParts queue <+: queue := by
  induction queue with
  | nil => simp [messageParts]
  | cons seg rest ih =>
      by_cases last : seg.frg = 0
      · simp [messageParts, last]
      · simpa [messageParts, last] using ih

theorem messageParts_length_pos {queue : List IkcpSeg} (complete : HasMessage queue) :
    0 < (messageParts queue).length := by
  cases queue with
  | nil => simp at complete
  | cons seg rest =>
      unfold messageParts
      split <;> simp

def dropMessage (kcp : Ikcpcb) : Ikcpcb :=
  { kcp with
    rcv_queue := kcp.rcv_queue.drop (messageParts kcp.rcv_queue).length
    nrcv_que := kcp.nrcv_que - UInt32.ofNat (messageParts kcp.rcv_queue).length }

/-- The block after the front message is taken from the queue. -/
def takeMessage (kcp : Ikcpcb) : Ikcpcb := moveAvailable kcp.rcv_buf (dropMessage kcp)

/-- A message is taken, and no segment is added or lost. -/
theorem takeMessage_length (kcp : Ikcpcb) :
    (takeMessage kcp).rcv_queue.length + (takeMessage kcp).rcv_buf.length +
      (messageParts kcp.rcv_queue).length = kcp.rcv_queue.length + kcp.rcv_buf.length := by
  have short := (messageParts_isInitial kcp.rcv_queue).length_le
  obtain ⟨moved, left, parts, _, _, result⟩ := moveAvailable_spec kcp.rcv_buf (dropMessage kcp)
  rw [takeMessage, result]
  simp only [dropMessage, parts, List.length_append, List.length_drop]
  omega

theorem ikcpRecv_eq {kcp : Ikcpcb} (counted : kcp.recvSide.Counted)
    (complete : HasMessage kcp.rcv_queue) :
    SameTraffic (takeMessage kcp) (ikcpRecv kcp (messageBytes kcp.rcv_queue).length).1 ∧
      (ikcpRecv kcp (messageBytes kcp.rcv_queue).length).2 =
        (((messageBytes kcp.rcv_queue).length : Int), messageBytes kcp.rcv_queue) := by
  have peeked := ikcpPeeksize_eq counted
  rw [if_pos complete] at peeked
  have nonempty : kcp.rcv_queue.isEmpty = false := by
    cases queue : kcp.rcv_queue with
    | nil => simp [queue] at complete
    | cons seg rest => rfl
  have fits : ¬ (((messageBytes kcp.rcv_queue).length : Int) >
      ((messageBytes kcp.rcv_queue).length : Int).natAbs) := by omega
  have sizes : ¬ (((messageBytes kcp.rcv_queue).length : Int) < 0) := by omega
  unfold ikcpRecv
  simp only [nonempty, peeked, sizes, fits, mergeFragment_eq, if_false, Bool.false_eq_true]
  split
  · exact ⟨⟨rfl, rfl, rfl, rfl⟩, trivial⟩
  · exact ⟨.refl _, trivial⟩

theorem takeMessage_counted {kcp : Ikcpcb} (counted : kcp.recvSide.Counted) :
    (takeMessage kcp).recvSide.Counted := by
  have bound := kcp.nrcv_que.toNat_lt
  have count : kcp.nrcv_que.toNat = kcp.rcv_queue.length := counted.count
  have short := (messageParts_isInitial kcp.rcv_queue).length_le
  refine moveAvailable_counted ?_ (fun seg member => ?_) counted.buffered
  · rw [dropMessage, UInt32.toNat_sub_of_le]
    · simp only [UInt32.toNat_ofNat', List.length_drop]
      omega
    · rw [UInt32.le_iff_toNat_le, UInt32.toNat_ofNat']
      omega
  · exact counted.queued seg (List.mem_of_mem_drop member)

end FiberKcp.Ikcp
