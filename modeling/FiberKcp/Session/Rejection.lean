import FiberKcp.Session.Sending

namespace FiberKcp

open Data Ikcp

/-! What datagrams `inputRoutine` rejects leave behind: the run on a batch
against the run on the same batch without them. -/

namespace Ikcp

/-- `ikcp_input` on the datagrams, one after the other. -/
def inputAll (kcp : Ikcpcb) (batch : List (List UInt8)) : Ikcpcb :=
  batch.foldl (fun kcp data => (ikcpInput kcp data).1) kcp

end Ikcp

theorem Data.word32_append {bytes : List UInt8} (enough : 4 ≤ bytes.length) (rest : List UInt8) :
    word32 (bytes ++ rest) = word32 bytes := by
  have byte : ∀ index < 4, (bytes ++ rest).getD index 0 = bytes.getD index 0 := by
    intro index below
    rw [List.getD_eq_getElem?_getD, List.getElem?_append_left (by omega),
      List.getD_eq_getElem?_getD]
  simp only [word32, byte 0 (by decide), byte 1 (by decide), byte 2 (by decide),
    byte 3 (by decide)]

/-- The bytes of a datagram that `recvfrom` stores in `buf`. -/
def Datagram.received (datagram : Datagram) : List UInt8 := datagram.bytes.take recvBufSize

/-- The datagram is no input for the session in this state. -/
def Kcp.Rejects (kcp : Kcp) (datagram : Datagram) : Prop :=
  datagram.received.length < 4 ∨ word32 datagram.received ≠ kcp.mAttr.conv ∨
    (ikcpInput kcp.mKcpHandle datagram.received).2 < 0

instance (kcp : Kcp) (datagram : Datagram) : Decidable (kcp.Rejects datagram) :=
  inferInstanceAs (Decidable (_ ∨ _))

/-- The datagrams of a batch that are not rejected in the state in which
`inputRoutine` processes them. -/
def Kcp.accepted : Kcp → InputLocals → List Datagram → List Datagram
  | _, _, [] => []
  | kcp, locals, datagram :: rest =>
      let next := kcp.receive locals datagram
      if kcp.Rejects datagram then next.1.accepted next.2 rest
      else datagram :: next.1.accepted next.2 rest

/-- Without the rejected datagrams `inputRoutine` ends in the same state and
makes the same calls of `mRecvEvent`. -/
def Kcp.Unaffected (kcp : Kcp) (batch : List Datagram) : Prop :=
  kcp.inputRoutine batch = kcp.inputRoutine (kcp.accepted {} batch)

instance (kcp : Kcp) (batch : List Datagram) : Decidable (kcp.Unaffected batch) :=
  inferInstanceAs (Decidable (_ = _))

theorem Kcp.Rejects.congr {kcp other : Kcp} (attr : other.mAttr.conv = kcp.mAttr.conv)
    (handle : other.mKcpHandle.conv = kcp.mKcpHandle.conv) (datagram : Datagram) :
    other.Rejects datagram ↔ kcp.Rejects datagram := by
  unfold Kcp.Rejects
  rw [ikcpInput_result, ikcpInput_result, attr, handle]

theorem receive_conv (kcp : Kcp) (locals : InputLocals) (datagram : Datagram) :
    (kcp.receive locals datagram).1.mAttr.conv = kcp.mAttr.conv ∧
      (kcp.receive locals datagram).1.mKcpHandle.conv = kcp.mKcpHandle.conv := by
  unfold Kcp.receive
  dsimp only
  split
  · exact ⟨rfl, rfl⟩
  · exact ⟨rfl, congrArg Setup.conv (ikcpInput_keeps kcp.mKcpHandle _).1⟩

/-- Whether a datagram is rejected does not depend on the ones before it. -/
theorem accepted_eq_filter {kcp start : Kcp} (attr : kcp.mAttr.conv = start.mAttr.conv)
    (handle : kcp.mKcpHandle.conv = start.mKcpHandle.conv) (locals : InputLocals)
    (batch : List Datagram) :
    kcp.accepted locals batch = batch.filter fun datagram => ¬ start.Rejects datagram := by
  induction batch generalizing kcp locals with
  | nil => rfl
  | cons datagram rest ih =>
      obtain ⟨attrNext, handleNext⟩ := receive_conv kcp locals datagram
      have later := ih (attrNext.trans attr) (handleNext.trans handle)
        (kcp.receive locals datagram).2
      have same := Kcp.Rejects.congr attr handle datagram
      rw [Kcp.accepted, later, List.filter_cons]
      by_cases rejected : start.Rejects datagram
      · simp [rejected, same]
      · simp [rejected, same]

/-- The first segment of the datagram gets as far as being applied. -/
def Kcp.Applies (kcp : Kcp) (datagram : Datagram) : Prop :=
  word32 datagram.received = kcp.mAttr.conv ∧
    segmentPasses kcp.mKcpHandle.conv datagram.received

instance (kcp : Kcp) (datagram : Datagram) : Decidable (kcp.Applies datagram) :=
  inferInstanceAs (Decidable (_ ∧ _))

/-- `buf` once the datagram is read into it. -/
def fillBuf (buf : List UInt8) (datagram : Datagram) : List UInt8 :=
  datagram.received ++ buf.drop datagram.received.length

/-- The datagrams after which the first four bytes of `buf` are `conv`. -/
def convMatches (conv : UInt32) : List UInt8 → List Datagram → List Datagram
  | _, [] => []
  | buf, datagram :: rest =>
      if word32 (fillBuf buf datagram) = conv then
        datagram :: convMatches conv (fillBuf buf datagram) rest
      else convMatches conv (fillBuf buf datagram) rest

/-- The value of the last datagram, `first` when there is none. -/
def latest {α : Type} (value : Datagram → α) (first : α) (batch : List Datagram) : α :=
  (batch.getLast?.map value).getD first

@[simp] theorem latest_nil {α : Type} (value : Datagram → α) (first : α) :
    latest value first [] = first := rfl

@[simp] theorem latest_cons {α : Type} (value : Datagram → α) (first : α) (datagram : Datagram)
    (rest : List Datagram) :
    latest value first (datagram :: rest) = latest value (value datagram) rest := by
  unfold latest
  rw [List.getLast?_cons]
  cases rest.getLast? <;> rfl

theorem latest_some (batch : List Datagram) :
    latest (fun datagram => some datagram.peer) none batch =
      batch.getLast?.map Datagram.peer := by
  unfold latest
  cases batch.getLast? <;> rfl

theorem word32_fillBuf {datagram : Datagram} (enough : 4 ≤ datagram.received.length)
    (buf : List UInt8) : word32 (fillBuf buf datagram) = word32 datagram.received :=
  word32_append enough _

theorem receive_eq (kcp : Kcp) (locals : InputLocals) (datagram : Datagram) :
    kcp.receive locals datagram =
      (if word32 (fillBuf locals.buf datagram) = kcp.mAttr.conv then
        { kcp with
          mAttr := { kcp.mAttr with addr := datagram.peer }
          mKcpHandle := (ikcpInput kcp.mKcpHandle datagram.received).1 }
      else kcp, ⟨fillBuf locals.buf datagram, some datagram.peer⟩) := by
  rw [Kcp.receive]
  dsimp only
  rw [ite_not, apply_ite (Prod.mk · _)]
  rfl

theorem handle_of_not_applies {kcp : Kcp} {datagram : Datagram} {buf : List UInt8}
    (inert : ¬ kcp.Applies datagram)
    (matched : word32 (fillBuf buf datagram) = kcp.mAttr.conv) :
    (ikcpInput kcp.mKcpHandle datagram.received).1 = kcp.mKcpHandle := by
  apply ikcpInput_of_not_passes
  intro passes
  have enough : 4 ≤ datagram.received.length :=
    (show 4 ≤ ikcpOverhead by decide).trans passes.1
  exact inert ⟨(word32_fillBuf enough buf).symm.trans matched, passes⟩

theorem Kcp.Applies.congr {kcp other : Kcp} (attr : other.mAttr.conv = kcp.mAttr.conv)
    (handle : other.mKcpHandle.conv = kcp.mKcpHandle.conv) (datagram : Datagram) :
    other.Applies datagram ↔ kcp.Applies datagram := by
  unfold Kcp.Applies
  rw [attr, handle]

/-- The loop of `inputRoutine` when no rejected datagram is applied: the control
block is fed the accepted ones, but every datagram that passes the test of
`conv` sets the address. -/
theorem receiveAll_eq (start : Kcp) {kcp : Kcp} (attr : kcp.mAttr.conv = start.mAttr.conv)
    (handle : kcp.mKcpHandle.conv = start.mKcpHandle.conv) (locals : InputLocals)
    (batch : List Datagram)
    (inert : ∀ datagram ∈ batch, start.Rejects datagram → ¬ start.Applies datagram) :
    (kcp.receiveAll locals batch).1 = { kcp with
        mKcpHandle := inputAll kcp.mKcpHandle
          ((batch.filter fun datagram => ¬ start.Rejects datagram).map Datagram.received)
        mAttr := { kcp.mAttr with
          addr := latest Datagram.peer kcp.mAttr.addr
            (convMatches start.mAttr.conv locals.buf batch) } } ∧
      (kcp.receiveAll locals batch).2.peerAddr =
        latest (fun datagram => some datagram.peer) locals.peerAddr batch := by
  induction batch generalizing kcp locals with
  | nil => exact ⟨rfl, rfl⟩
  | cons datagram rest ih =>
      have later := ih ((receive_conv kcp locals datagram).1.trans attr)
        ((receive_conv kcp locals datagram).2.trans handle) (kcp.receive locals datagram).2
        fun other member => inert other (List.mem_cons_of_mem datagram member)
      rw [receive_eq] at later
      rw [Kcp.receiveAll, receive_eq]
      refine ⟨later.1.trans ?_, later.2.trans (latest_cons _ _ _ _).symm⟩
      by_cases matched : word32 (fillBuf locals.buf datagram) = start.mAttr.conv
      · by_cases rejected : start.Rejects datagram
        · have unapplied : ¬ kcp.Applies datagram :=
            mt (Kcp.Applies.congr attr handle datagram).mp
              (inert datagram List.mem_cons_self rejected)
          have unchanged := handle_of_not_applies unapplied (matched.trans attr.symm)
          simp [attr, matched, rejected, unchanged, convMatches]
        · simp [attr, matched, rejected, convMatches, inputAll]
      · have rejected : start.Rejects datagram := by
          by_cases short : datagram.received.length < 4
          · exact .inl short
          · exact .inr (.inl (word32_fillBuf (Nat.not_lt.mp short) locals.buf ▸ matched))
        simp [attr, matched, rejected, convMatches]

/-- Accepted datagrams pass the test of `conv` by their own bytes. -/
theorem convMatches_accepted {kcp : Kcp} (buf : List UInt8) {batch : List Datagram}
    (accepted : ∀ datagram ∈ batch, ¬ kcp.Rejects datagram) :
    convMatches kcp.mAttr.conv buf batch = batch := by
  induction batch generalizing buf with
  | nil => rfl
  | cons datagram rest ih =>
      have here := accepted datagram List.mem_cons_self
      simp only [Kcp.Rejects, not_or, Nat.not_lt, ne_eq, not_not] at here
      rw [convMatches, word32_fillBuf here.1, if_pos here.2.1,
        ih _ fun other member => accepted other (List.mem_cons_of_mem datagram member)]

namespace Ikcp

theorem ikcpPeeksize_pos {kcp : Ikcpcb} (waiting : 0 < ikcpPeeksize kcp) :
    ikcpPeeksize kcp = (messageBytes kcp.rcv_queue).length := by
  rw [← messageLength_eq]
  unfold ikcpPeeksize at waiting ⊢
  cases queue : kcp.rcv_queue with
  | nil => simp [queue] at waiting
  | cons seg rest =>
      simp only [queue] at waiting ⊢
      by_cases last : seg.frg = 0
      · simp [last, messageLength]
      · rw [if_neg last] at waiting ⊢
        split
        · rename_i fewer
          rw [if_pos fewer] at waiting
          omega
        · rfl

/-- The bytes `ikcp_recv` hands over when it is asked for what `ikcp_peeksize`
announces. -/
theorem ikcpRecv_peeksize {kcp : Ikcpcb} (waiting : 0 < ikcpPeeksize kcp) :
    (ikcpRecv kcp (ikcpPeeksize kcp)).2 =
      (((messageBytes kcp.rcv_queue).length : Int), messageBytes kcp.rcv_queue) := by
  have nonempty : ¬ kcp.rcv_queue.isEmpty := by
    intro empty
    rw [ikcpPeeksize, List.isEmpty_iff.mp empty] at waiting
    simp at waiting
  unfold ikcpRecv
  dsimp only
  rw [if_neg nonempty, if_neg (by omega), if_neg (by omega), mergeFragment_eq]

end Ikcp

/-- `deliver` reads and changes the control block, and takes only the address
of the event from the loop before it. -/
theorem deliver_parts (kcp : Kcp) (locals : InputLocals) :
    kcp.deliver locals =
      if 0 < ikcpPeeksize kcp.mKcpHandle then
        ({ kcp with mKcpHandle := (ikcpRecv kcp.mKcpHandle (ikcpPeeksize kcp.mKcpHandle)).1 },
          [{ buffer := messageBytes kcp.mKcpHandle.rcv_queue, addr := locals.peerAddr }])
      else (kcp, []) := by
  unfold Kcp.deliver
  dsimp only
  split
  · rename_i waiting
    have result := ikcpRecv_peeksize waiting
    have size := ikcpPeeksize_pos waiting
    generalize ikcpRecv kcp.mKcpHandle (ikcpPeeksize kcp.mKcpHandle) = received at *
    obtain ⟨handle, nrecv, buffer⟩ := received
    cases result
    exact if_pos (show ((messageBytes kcp.mKcpHandle.rcv_queue).length : Int) > 0 by omega)
  · rfl

theorem deliver_eq_iff (kcp : Kcp) (attr other : KcpAttr) (locals others : InputLocals) :
    ({ kcp with mAttr := attr } : Kcp).deliver locals =
        ({ kcp with mAttr := other } : Kcp).deliver others ↔
      attr = other ∧ (0 < ikcpPeeksize kcp.mKcpHandle → locals.peerAddr = others.peerAddr) := by
  rw [deliver_parts, deliver_parts]
  by_cases waiting : 0 < ikcpPeeksize kcp.mKcpHandle
  · simp [waiting]
  · simp [waiting]

/-- As long as no segment of a rejected datagram is applied, the rejected
datagrams have no effect exactly when the accepted ones leave the same address
in the session and, with a message to deliver, in the event. -/
theorem inputRoutine_unaffected_iff (kcp : Kcp) (batch : List Datagram)
    (inert : ∀ datagram ∈ batch, kcp.Rejects datagram → ¬ kcp.Applies datagram) :
    let accepted := batch.filter fun datagram => ¬ kcp.Rejects datagram
    kcp.Unaffected batch ↔
      latest Datagram.peer kcp.mAttr.addr
          (convMatches kcp.mAttr.conv (List.replicate recvBufSize 0) batch) =
        latest Datagram.peer kcp.mAttr.addr accepted ∧
      (0 < ikcpPeeksize (inputAll kcp.mKcpHandle (accepted.map Datagram.received)) →
        batch.getLast?.map Datagram.peer = accepted.getLast?.map Datagram.peer) := by
  intro accepted
  have spared : ∀ datagram ∈ accepted, ¬ kcp.Rejects datagram := fun datagram member =>
    by simpa using (List.mem_filter.mp member).2
  have kept : accepted.filter (fun datagram => ¬ kcp.Rejects datagram) = accepted :=
    List.filter_eq_self.mpr fun datagram member => by simpa using spared datagram member
  obtain ⟨whole, wholePeer⟩ := receiveAll_eq kcp rfl rfl {} batch inert
  obtain ⟨reduced, reducedPeer⟩ := receiveAll_eq kcp rfl rfl {} accepted
    fun datagram member rejected => absurd rejected (spared datagram member)
  rw [convMatches_accepted _ spared, kept] at reduced
  rw [Kcp.Unaffected, accepted_eq_filter rfl rfl {} batch, Kcp.inputRoutine, Kcp.inputRoutine, whole,
    reduced]
  let fed : Kcp := { kcp with
    mKcpHandle := inputAll kcp.mKcpHandle (accepted.map Datagram.received) }
  refine (deliver_eq_iff fed _ _ _ _).trans (and_congr ?_ ?_)
  · simp only [KcpAttr.mk.injEq, true_and, and_true]
  · rw [wholePeer, reducedPeer, latest_some, latest_some]

/-- A datagram of four bytes, so without any segment, changes nothing when it
comes from the address of the session. -/
theorem inputRoutine_unaffected_short :
    (Kcp.init {}).Unaffected [{ bytes := [0, 0, 0, 0], peer := {} }] :=
  (inputRoutine_unaffected_iff (Kcp.init {}) [{ bytes := [0, 0, 0, 0], peer := {} }]
    (by decide +kernel)).mpr (by decide +kernel)

/-- Four bytes from another address redirect the session, and a segment before
an unknown command is applied. -/
theorem rejected_datagrams_take_effect :
    ¬ (Kcp.init {}).Unaffected
        [{ bytes := [0, 0, 0, 0], peer := { sin_addr := 1, sin_port := 1 } }] ∧
      ¬ (Kcp.init {}).Unaffected
        [{ bytes := ikcpEncodeSeg { cmd := ikcpCmdWins } ++ ikcpEncodeSeg {}, peer := {} }] := by
  decide +kernel

end FiberKcp
