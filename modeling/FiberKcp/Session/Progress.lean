import FiberKcp.Ikcp.Encoding
import FiberKcp.Session.Model

namespace FiberKcp

open Data Ikcp

/-! How far a sender and a receiver have come, and what a datagram may say
about it.  Serial numbers are those of the stream: as long as fewer than half of
the 32-bit range are used, they compare as numbers do. -/

/-- The segment with the serial number is in order or in the buffer. -/
def Ikcp.RecvSide.Stored (side : RecvSide) (serial : Nat) : Prop :=
  serial < side.rcv_nxt.toNat ∨ ∃ seg ∈ side.rcv_buf, seg.sn.toNat = serial

/-- The payloads an endpoint has accepted, how many of them have a serial number,
and what it has stored of its peer's. -/
structure Progress where
  stream : List Payload
  sent : Nat
  received : Nat
  stored : Nat → Prop

structure Progress.Grows (before after : Progress) : Prop where
  stream : before.stream <+: after.stream
  sent : before.sent ≤ after.sent
  received : before.received ≤ after.received
  stored : ∀ serial, before.stored serial → after.stored serial

theorem Progress.Grows.get {before after : Progress} (grows : before.Grows after)
    {serial : Nat} {payload : Payload} (found : before.stream[serial]? = some payload) :
    after.stream[serial]? = some payload := by
  obtain ⟨more, extended⟩ := grows.stream
  have inside : serial < before.stream.length := (List.getElem?_eq_some_iff.mp found).1
  rw [← extended, List.getElem?_append_left inside]
  exact found

/-- The segment has a serial number of the sender and its payload there. -/
structure Numbered (sender : Progress) (seg : IkcpSeg) : Prop where
  sent : seg.sn.toNat < sender.sent
  payload : sender.stream[seg.sn.toNat]? = some seg.payload

theorem Numbered.mono {before after : Progress} {seg : IkcpSeg} (grows : before.Grows after)
    (numbered : Numbered before seg) : Numbered after seg :=
  ⟨Nat.lt_of_lt_of_le numbered.sent grows.sent, grows.get numbered.payload⟩

theorem Numbered.of_sameSeg {sender : Progress} {seg same : IkcpSeg} (sameSeg : SameSeg seg same)
    (numbered : Numbered sender seg) : Numbered sender same := by
  refine ⟨?_, ?_⟩
  · rw [sameSeg.sn]
    exact numbered.sent
  · rw [sameSeg.sn, sameSeg.payload]
    exact numbered.payload

/-- A segment an honest endpoint may put on the wire: data it has numbered, an
acknowledgement of what it has stored, or a probe. -/
inductive Genuine (conv : UInt32) (sender : Progress) (seg : IkcpSeg) : Prop where
  | push : seg.conv = conv → seg.una.toNat ≤ sender.received → seg.cmd = ikcpCmdPush →
      Numbered sender seg → Genuine conv sender seg
  | ack : seg.conv = conv → seg.una.toNat ≤ sender.received → seg.cmd = ikcpCmdAck →
      seg.data = [] → sender.stored seg.sn.toNat → Genuine conv sender seg
  | probe : seg.conv = conv → seg.una.toNat ≤ sender.received →
      seg.cmd = ikcpCmdWask ∨ seg.cmd = ikcpCmdWins → seg.data = [] → Genuine conv sender seg

theorem Genuine.mono {conv : UInt32} {before after : Progress} {seg : IkcpSeg}
    (grows : before.Grows after) (genuine : Genuine conv before seg) : Genuine conv after seg := by
  cases genuine with
  | push sameConv una cmd numbered =>
      exact .push sameConv (Nat.le_trans una grows.received) cmd (numbered.mono grows)
  | ack sameConv una cmd data stored =>
      exact .ack sameConv (Nat.le_trans una grows.received) cmd data (grows.stored _ stored)
  | probe sameConv una cmd data =>
      exact .probe sameConv (Nat.le_trans una grows.received) cmd data

theorem Genuine.conv_eq {conv : UInt32} {sender : Progress} {seg : IkcpSeg}
    (genuine : Genuine conv sender seg) : seg.conv = conv := by
  cases genuine <;> assumption

theorem Genuine.una_le {conv : UInt32} {sender : Progress} {seg : IkcpSeg}
    (genuine : Genuine conv sender seg) : seg.una.toNat ≤ sender.received := by
  cases genuine <;> assumption

/-- `taken` is what the user already has.  With the queue it is the start of the
sender's stream, and the buffer holds numbered segments. -/
structure Receiving (sender : Progress) (taken : List Payload) (side : RecvSide) : Prop where
  within : side.rcv_nxt.toNat ≤ sender.sent
  queue : taken ++ side.rcv_queue.map IkcpSeg.payload = sender.stream.take side.rcv_nxt.toNat
  buffered : ∀ seg ∈ side.rcv_buf, Numbered sender seg

/-- Segments with consecutive serial numbers carry a stretch of the stream. -/
theorem Ikcp.Consecutive.stretch {sender : Progress} (few : sender.sent < 2 ^ 31)
    {serial : UInt32} {segs : List IkcpSeg} (consecutive : Consecutive serial segs)
    (numbered : ∀ seg ∈ segs, Numbered sender seg) (within : serial.toNat ≤ sender.sent) :
    serial.toNat + segs.length ≤ sender.sent ∧
      (serial + UInt32.ofNat segs.length).toNat = serial.toNat + segs.length ∧
      sender.stream.take (serial.toNat + segs.length) =
        sender.stream.take serial.toNat ++ segs.map IkcpSeg.payload ∧
      ∀ seg ∈ segs, seg.sn.toNat < serial.toNat + segs.length := by
  induction segs generalizing serial with
  | nil => simp [within]
  | cons seg rest ih =>
      obtain ⟨sameSerial, later⟩ := consecutive
      have here := numbered seg (by simp)
      rw [← sameSerial] at within later ⊢
      have below := here.sent
      have next : (seg.sn + 1).toNat = seg.sn.toNat + 1 := by
        rw [UInt32.toNat_add, UInt32.toNat_one]
        omega
      obtain ⟨inside, last, stretch, bounds⟩ :=
        ih later (fun other member => numbered other (by simp [member])) (by omega)
      rw [next] at inside last stretch bounds
      refine ⟨?_, ?_, ?_, ?_⟩
      · rw [List.length_cons]
        omega
      · rw [List.length_cons, Nat.add_comm rest.length, UInt32.ofNat_add, ← UInt32.add_assoc]
        change (seg.sn + 1 + UInt32.ofNat rest.length).toNat = _
        omega
      · rw [List.length_cons, Nat.add_comm rest.length, ← Nat.add_assoc, stretch,
          List.take_add_one, here.payload, List.map_cons]
        simp
      · intro other member
        rw [List.length_cons]
        rcases List.mem_cons.mp member with rfl | member
        · omega
        · have bound := bounds other member
          omega

theorem moveAvailable_receiving {sender : Progress} {taken : List Payload} {buffer : List IkcpSeg}
    (kcp : Ikcpcb) (few : sender.sent < 2 ^ 31)
    (within : kcp.rcv_nxt.toNat ≤ sender.sent)
    (queue : taken ++ kcp.rcv_queue.map IkcpSeg.payload = sender.stream.take kcp.rcv_nxt.toNat)
    (buffered : ∀ seg ∈ buffer, Numbered sender seg) :
    Receiving sender taken (moveAvailable buffer kcp).recvSide ∧
      kcp.rcv_nxt.toNat ≤ (moveAvailable buffer kcp).rcv_nxt.toNat ∧
      ∀ seg ∈ buffer, (moveAvailable buffer kcp).recvSide.Stored seg.sn.toNat := by
  obtain ⟨moved, left, parts, consecutive, _, result⟩ := moveAvailable_spec buffer kcp
  have numbered : ∀ seg ∈ moved, Numbered sender seg := fun seg member =>
    buffered seg (parts ▸ List.mem_append_left left member)
  obtain ⟨inside, last, stretch, bounds⟩ := consecutive.stretch few numbered within
  rw [result]
  refine ⟨⟨?_, ?_, ?_⟩, ?_, ?_⟩
  · change (kcp.rcv_nxt + UInt32.ofNat moved.length).toNat ≤ _
    omega
  · change taken ++ (kcp.rcv_queue ++ moved).map _ =
      sender.stream.take (kcp.rcv_nxt + UInt32.ofNat moved.length).toNat
    rw [last, stretch, ← queue, List.map_append, List.append_assoc]
  · exact fun seg member => buffered seg (parts ▸ List.mem_append_right moved member)
  · change _ ≤ (kcp.rcv_nxt + UInt32.ofNat moved.length).toNat
    omega
  · intro seg member
    rw [parts] at member
    rcases List.mem_append.mp member with member | member
    · left
      have bound := bounds seg member
      change seg.sn.toNat < (kcp.rcv_nxt + UInt32.ofNat moved.length).toNat
      omega
    · exact .inr ⟨seg, member, rfl⟩

/-- Nothing stored is lost and the serial number awaited does not go back. -/
structure Ikcp.RecvSide.Keeps (before after : RecvSide) : Prop where
  received : before.rcv_nxt.toNat ≤ after.rcv_nxt.toNat
  stored : ∀ serial, before.Stored serial → after.Stored serial

theorem Ikcp.RecvSide.Keeps.refl (side : RecvSide) : side.Keeps side :=
  ⟨Nat.le_refl _, fun _ => id⟩

theorem Ikcp.RecvSide.Keeps.trans {first second third : RecvSide} (left : first.Keeps second)
    (right : second.Keeps third) : first.Keeps third :=
  ⟨Nat.le_trans left.received right.received,
    fun serial stored => right.stored serial (left.stored serial stored)⟩

/-- Storing a numbered segment keeps what is stored, and unless the window
refuses it the segment is stored. -/
theorem ikcpParseData_receiving {sender : Progress} {taken : List Payload} {kcp : Ikcpcb}
    {newseg : IkcpSeg} (few : sender.sent < 2 ^ 31)
    (receiving : Receiving sender taken kcp.recvSide) (numbered : Numbered sender newseg) :
    Receiving sender taken (ikcpParseData kcp newseg).recvSide ∧
      kcp.recvSide.Keeps (ikcpParseData kcp newseg).recvSide ∧
      (itimediff newseg.sn (kcp.rcv_nxt + kcp.rcv_wnd) < 0 → itimediff newseg.sn kcp.rcv_nxt ≥ 0 →
        (ikcpParseData kcp newseg).recvSide.Stored newseg.sn.toNat) := by
  rcases ikcpParseData_cases kcp newseg with
    ⟨unchanged, outside⟩ | ⟨buffer, moved, members, kept, here, inBuffer, sameSerial⟩
  · rw [unchanged]
    refine ⟨receiving, .refl _, fun inWindow notOlder => ?_⟩
    omega
  · have buffered : ∀ seg ∈ buffer, Numbered sender seg := by
      intro seg member
      rcases members seg member with rfl | member
      · exact numbered
      · exact receiving.buffered seg member
    obtain ⟨after, received, stored⟩ :=
      moveAvailable_receiving kcp few receiving.within receiving.queue buffered
    rw [moved]
    refine ⟨after, ⟨received, ?_⟩, fun _ _ => sameSerial ▸ stored here inBuffer⟩
    intro serial earlier
    rcases earlier with below | ⟨seg, member, equal⟩
    · exact .inl (Nat.lt_of_lt_of_le below received)
    · exact equal ▸ stored seg (kept seg member)

end FiberKcp
