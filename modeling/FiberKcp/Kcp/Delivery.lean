import FiberKcp.Data.Run
import FiberKcp.Ikcp.Messages
import FiberKcp.Ikcp.Departure
import FiberKcp.Kcp.Routines

namespace FiberKcp

open Data Ikcp

/-! Which messages a call of `inputRoutine` passes to `mRecvEvent`. -/

/-- The complete messages of a control block in order, counting those that
become complete when `ikcp_recv` takes an earlier one. -/
inductive Deliverable : Ikcpcb → List (List UInt8) → Prop where
  | done {kcp : Ikcpcb} : ¬ HasMessage kcp.rcv_queue → Deliverable kcp []
  | next {kcp : Ikcpcb} {messages : List (List UInt8)} : HasMessage kcp.rcv_queue →
      Deliverable (ikcpRecv kcp (messageBytes kcp.rcv_queue).length).1 messages →
      Deliverable kcp (messageBytes kcp.rcv_queue :: messages)

theorem Deliverable.unique {kcp : Ikcpcb} {left right : List (List UInt8)}
    (first : Deliverable kcp left) (second : Deliverable kcp right) : left = right := by
  induction first generalizing right with
  | done none =>
      cases second with
      | done _ => rfl
      | next complete _ => contradiction
  | next complete _ ih =>
      cases second with
      | done none => contradiction
      | next _ later => rw [ih later]

theorem sendQueue_recvSide (queue : List (List UInt8)) (handle : Ikcpcb) :
    (sendQueue queue handle).1.recvSide = handle.recvSide := by
  induction queue generalizing handle with
  | nil => rfl
  | cons buffer rest ih => exact (ih _).trans (ikcpSend_keeps handle buffer _).1

theorem receive_counted {kcp : Kcp} (locals : InputLocals) (datagram : Datagram)
    (counted : kcp.mKcpHandle.recvSide.Counted) :
    (kcp.receive locals datagram).1.mKcpHandle.recvSide.Counted := by
  unfold Kcp.receive
  dsimp only
  split
  · exact counted
  · have fed := ikcpInput_counted (datagram.bytes.take recvBufSize) counted
    exact fed

theorem receiveAll_counted {kcp : Kcp} (locals : InputLocals) (batch : List Datagram)
    (counted : kcp.mKcpHandle.recvSide.Counted) :
    (kcp.receiveAll locals batch).1.mKcpHandle.recvSide.Counted := by
  induction batch generalizing kcp locals with
  | nil => exact counted
  | cons datagram rest ih =>
      rw [Kcp.receiveAll_cons]
      exact ih (kcp.receive locals datagram).2 (receive_counted locals datagram counted)

theorem ikcpRecv_counted {kcp : Ikcpcb} (counted : kcp.recvSide.Counted)
    (complete : HasMessage kcp.rcv_queue) :
    (ikcpRecv kcp (messageBytes kcp.rcv_queue).length).1.recvSide.Counted := by
  rw [(ikcpRecv_eq counted complete).1.recvSide]
  exact takeMessage_counted counted

/-- The last part of `inputRoutine` delivers the front message when it is
complete and has a byte, and does nothing otherwise. -/
theorem deliver_eq {kcp : Kcp} (locals : InputLocals)
    (counted : kcp.mKcpHandle.recvSide.Counted) :
    kcp.deliver locals =
      if HasMessage kcp.mKcpHandle.rcv_queue ∧ messageBytes kcp.mKcpHandle.rcv_queue ≠ [] then
        ({ kcp with
            mKcpHandle := (ikcpRecv kcp.mKcpHandle
              (messageBytes kcp.mKcpHandle.rcv_queue).length).1 },
          [{ buffer := messageBytes kcp.mKcpHandle.rcv_queue, addr := locals.peerAddr }])
      else (kcp, []) := by
  have peeked := ikcpPeeksize_eq counted
  unfold Kcp.deliver
  dsimp only
  by_cases complete : HasMessage kcp.mKcpHandle.rcv_queue
  · have result := (ikcpRecv_eq counted complete).2
    rw [if_pos complete] at peeked
    rw [peeked]
    by_cases empty : messageBytes kcp.mKcpHandle.rcv_queue = []
    · simp [complete, empty]
    · have size := List.length_pos_iff.mpr empty
      have positive : ((messageBytes kcp.mKcpHandle.rcv_queue).length : Int) > 0 := by omega
      generalize ikcpRecv kcp.mKcpHandle _ = received at *
      obtain ⟨handle, nrecv, buffer⟩ := received
      cases result
      rw [if_pos positive, if_pos positive, if_pos ⟨complete, empty⟩]
  · rw [if_neg complete] at peeked
    rw [peeked]
    simp [complete]

/-- Taking messages comes to an end: each takes a segment, and none is added. -/
theorem deliverable_exists (kcp : Ikcpcb) (counted : kcp.recvSide.Counted) :
    ∃ messages, Deliverable kcp messages := by
  induction size : kcp.rcv_queue.length + kcp.rcv_buf.length using Nat.strongRecOn
    generalizing kcp with
  | ind total ih =>
      by_cases complete : HasMessage kcp.rcv_queue
      · let left := (ikcpRecv kcp (messageBytes kcp.rcv_queue).length).1
        have same : SameTraffic (takeMessage kcp) left := (ikcpRecv_eq counted complete).1
        have queue : left.rcv_queue = (takeMessage kcp).rcv_queue :=
          congrArg RecvSide.rcv_queue same.recvSide
        have buffer : left.rcv_buf = (takeMessage kcp).rcv_buf :=
          congrArg RecvSide.rcv_buf same.recvSide
        have taken := messageParts_length_pos complete
        have lengths := takeMessage_length kcp
        have fewer : left.rcv_queue.length + left.rcv_buf.length < total := by
          rw [queue, buffer]
          omega
        obtain ⟨messages, deliverable⟩ := ih _ fewer left (ikcpRecv_counted counted complete) rfl
        exact ⟨_, .next complete deliverable⟩
      · exact ⟨[], .done complete⟩

theorem perform_counted {before after : Kcp} {call : KcpCall}
    (counted : before.mKcpHandle.recvSide.Counted) (performed : before.perform call = some after) :
    after.mKcpHandle.recvSide.Counted := by
  cases call with
  | send buffer =>
      cases performed
      exact counted
  | outputRoutine now =>
      cases performed
      change (ikcpUpdate (sendQueue before.mSendBufQueue before.mKcpHandle).1 now).1.recvSide.Counted
      rw [(ikcpUpdate_flushed _ now).recvSide, sendQueue_recvSide]
      exact counted
  | inputRoutine batch =>
      cases performed
      have fed := receiveAll_counted {} batch counted
      unfold Kcp.inputRoutine
      dsimp only
      rw [deliver_eq _ fed]
      split
      · rename_i taken
        exact ikcpRecv_counted fed taken.1
      · exact fed

/-- `init` leaves both halves empty. -/
theorem init_traffic (attr : KcpAttr) :
    (Kcp.init attr).mKcpHandle.sendSide = ⟨[], [], 0⟩ ∧
      (∃ wnd, (Kcp.init attr).mKcpHandle.recvSide = ⟨[], [], 0, wnd, 0⟩) ∧
      (Kcp.init attr).mKcpHandle.setup = ⟨attr.conv, 1400, 1376, 0⟩ ∧
      (Kcp.init attr).mKcpHandle.acklist = [] := by
  obtain ⟨sendSide, ⟨wnd, recvSide⟩, setup, acklist⟩ := ikcpWndsize_ikcpCreate attr.conv
    (Int32.ofNat attr.sendWndSize.toNat) (Int32.ofNat attr.recvWndSize.toNat)
  unfold Kcp.init
  rw [(ikcpNodelay_sameTraffic _ _ _ _ _).sendSide, (ikcpNodelay_sameTraffic _ _ _ _ _).recvSide,
    (ikcpNodelay_sameTraffic _ _ _ _ _).setup, (ikcpNodelay_sameTraffic _ _ _ _ _).acklist]
  exact ⟨sendSide, ⟨wnd, recvSide⟩, setup, acklist⟩

theorem init_counted (attr : KcpAttr) : (Kcp.init attr).mKcpHandle.recvSide.Counted := by
  obtain ⟨_, ⟨wnd, recvSide⟩, _⟩ := init_traffic attr
  rw [recvSide]
  exact ⟨rfl, by simp, by simp⟩

theorem reached_counted {attr : KcpAttr} {calls : List KcpCall} {kcp : Kcp}
    (run : Run Kcp.perform anyStep (Kcp.init attr) calls kcp) :
    kcp.mKcpHandle.recvSide.Counted := by
  refine run.invariant (fun kcp => kcp.mKcpHandle.recvSide.Counted) (init_counted attr) ?_
  exact fun counted _ performed => perform_counted counted performed

/-- The control block once `ikcp_input` has taken the batch. -/
def Kcp.fed (kcp : Kcp) (batch : List Datagram) : Ikcpcb := (kcp.receiveAll {} batch).1.mKcpHandle

/-- `inputRoutine` passes on every complete message and leaves none behind. -/
def Kcp.DeliversAll (kcp : Kcp) (batch : List Datagram) : Prop :=
  Deliverable (kcp.fed batch) ((kcp.inputRoutine batch).2.map (·.buffer)) ∧
    ¬ HasMessage (kcp.inputRoutine batch).1.mKcpHandle.rcv_queue

/-- The batch leaves at most one message to deliver, and not an empty one. -/
def Kcp.AtMostOne (kcp : Kcp) (batch : List Datagram) : Prop :=
  ∀ messages, Deliverable (kcp.fed batch) messages → messages.length ≤ 1 ∧ [] ∉ messages

theorem inputRoutine_delivers_all_iff {attr : KcpAttr} {calls : List KcpCall} {kcp : Kcp}
    (run : Run Kcp.perform anyStep (Kcp.init attr) calls kcp) (batch : List Datagram) :
    kcp.DeliversAll batch ↔ kcp.AtMostOne batch := by
  have counted : (kcp.fed batch).recvSide.Counted :=
    receiveAll_counted {} batch (reached_counted run)
  obtain ⟨messages, deliverable⟩ := deliverable_exists _ counted
  have atMostOne : kcp.AtMostOne batch ↔ messages.length ≤ 1 ∧ [] ∉ messages := by
    constructor
    · exact fun all => all messages deliverable
    · intro single other otherDeliverable
      rw [otherDeliverable.unique deliverable]
      exact single
  have delivered := deliver_eq (kcp.receiveAll {} batch).2 counted
  have called : kcp.inputRoutine batch = (kcp.receiveAll {} batch).1.deliver _ := rfl
  rw [atMostOne]
  unfold Kcp.DeliversAll
  rw [called, delivered]
  cases deliverable with
  | done none =>
      rw [if_neg (fun both => none both.1)]
      exact ⟨fun _ => by simp, fun _ => ⟨.done none, none⟩⟩
  | next complete later =>
      by_cases empty : messageBytes (kcp.fed batch).rcv_queue = []
      · -- an empty message is complete but `peeksize` is zero, so nothing is taken
        rw [if_neg (fun both => both.2 empty)]
        constructor
        · exact fun all => absurd complete all.2
        · exact fun single => absurd empty (List.ne_of_not_mem_cons single.2).symm
      · rw [if_pos ⟨complete, empty⟩]
        cases later with
        | done none =>
            refine ⟨fun _ => ⟨by simp, ?_⟩, fun _ => ⟨.next complete (.done none), none⟩⟩
            rw [List.mem_singleton]
            exact Ne.symm empty
        | next again _ =>
            constructor
            · exact fun all => absurd again all.2
            · exact fun single => absurd single.1 (by simp)

/-- A datagram of a peer with the control block's `conv`, one segment for each
of the messages. -/
def pushes (messages : List (UInt32 × List UInt8)) : Datagram where
  bytes := messages.flatMap fun (sn, data) =>
    segBytes { conv := 7, cmd := ikcpCmdPush, wnd := 128, sn := sn, data := data }
  peer := {}

/-- The first message of a datagram is delivered and the second stays queued. -/
theorem inputRoutine_leaves_second_message :
    ∃ kcp batch, Run Kcp.perform anyStep (Kcp.init { conv := 7 }) [] kcp ∧
      (kcp.inputRoutine batch).2.map (·.buffer) = [[1]] ∧
      HasMessage (kcp.inputRoutine batch).1.mKcpHandle.rcv_queue ∧ ¬ kcp.DeliversAll batch := by
  refine ⟨_, [pushes [(0, [1]), (1, [2])]], .nil, by decide +kernel, by decide +kernel, ?_⟩
  exact fun all => absurd (by decide +kernel) all.2

theorem inputRoutine_delivers_message_by_message :
    ∃ kcp, Run Kcp.perform anyStep (Kcp.init { conv := 7 }) [.inputRoutine [pushes [(0, [1])]]] kcp ∧
      kcp.DeliversAll [pushes [(1, [2])]] := by
  have run : Run Kcp.perform anyStep (Kcp.init { conv := 7 })
      [.inputRoutine [pushes [(0, [1])]]] _ := Run.of_execute rfl
  refine ⟨_, run, (inputRoutine_delivers_all_iff run _).mpr fun messages deliverable => ?_⟩
  rw [deliverable.unique (.next (by decide +kernel) (.done (by decide +kernel)))]
  exact ⟨by simp, by decide +kernel⟩

end FiberKcp
