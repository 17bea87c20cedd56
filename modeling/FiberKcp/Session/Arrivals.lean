import FiberKcp.Session.Progress
import Mathlib.Data.List.TakeWhile

namespace FiberKcp

open Data Ikcp

/-! What genuine datagrams of the peer do to a control block. -/

/-- Only segments the peer has stored are gone from `snd_buf`. -/
structure Released (peer : Progress) (before after : SendSide) : Prop where
  queue : after.snd_queue = before.snd_queue
  next : after.snd_nxt = before.snd_nxt
  held : ∀ seg ∈ after.snd_buf, ∃ original ∈ before.snd_buf, SameSeg original seg
  released : ∀ original ∈ before.snd_buf,
    (∃ seg ∈ after.snd_buf, SameSeg original seg) ∨ peer.stored original.sn.toNat

theorem Released.refl (peer : Progress) (side : SendSide) : Released peer side side :=
  ⟨rfl, rfl, fun seg member => ⟨seg, member, .refl seg⟩,
    fun original member => .inl ⟨original, member, .refl original⟩⟩

theorem Released.trans {peer : Progress} {first second third : SendSide}
    (left : Released peer first second) (right : Released peer second third) :
    Released peer first third := by
  refine ⟨right.queue.trans left.queue, right.next.trans left.next, ?_, ?_⟩
  · intro seg member
    obtain ⟨middle, inMiddle, same⟩ := right.held seg member
    obtain ⟨original, inOriginal, sameOriginal⟩ := left.held middle inMiddle
    exact ⟨original, inOriginal, sameOriginal.trans same⟩
  · intro original member
    rcases left.released original member with ⟨middle, inMiddle, same⟩ | stored
    · rcases right.released middle inMiddle with ⟨seg, inAfter, sameAfter⟩ | stored
      · exact .inl ⟨seg, inAfter, same.trans sameAfter⟩
      · exact .inr (same.sn ▸ stored)
    · exact .inr stored

/-- Dropping segments, each of them stored by the peer. -/
theorem Released.of_subset {peer : Progress} {before after : SendSide}
    (queue : after.snd_queue = before.snd_queue) (next : after.snd_nxt = before.snd_nxt)
    (held : ∀ seg ∈ after.snd_buf, seg ∈ before.snd_buf)
    (dropped : ∀ seg ∈ before.snd_buf, seg ∈ after.snd_buf ∨ peer.stored seg.sn.toNat) :
    Released peer before after :=
  ⟨queue, next, fun seg member => ⟨seg, held seg member, .refl seg⟩,
    fun seg member => (dropped seg member).imp_left fun inAfter => ⟨seg, inAfter, .refl seg⟩⟩

theorem mem_dropWhile_or {α : Type*} (drop : α → Bool) {value : α} {values : List α}
    (member : value ∈ values) : value ∈ values.dropWhile drop ∨ drop value = true := by
  rw [← List.takeWhile_append_dropWhile (p := drop) (l := values)] at member
  rcases List.mem_append.mp member with taken | left
  · exact .inr (List.mem_takeWhile_imp taken)
  · exact .inl left

theorem ikcpParseUna_released {peer : Progress} {kcp : Ikcpcb} {una : UInt32}
    (few : ∀ seg ∈ kcp.snd_buf, seg.sn.toNat < 2 ^ 31) (small : una.toNat < 2 ^ 31)
    (stored : ∀ serial < una.toNat, peer.stored serial) :
    Released peer kcp.sendSide (ikcpParseUna kcp una).sendSide := by
  refine .of_subset rfl rfl (fun seg member => (List.dropWhile_sublist _).subset member) ?_
  intro seg member
  refine (mem_dropWhile_or _ member).imp_right fun older => stored _ ?_
  have bound := few seg member
  have positive : itimediff una seg.sn > 0 := of_decide_eq_true older
  rw [itimediff_eq (by omega) (by omega)] at positive
  omega

theorem mem_of_mem_removeAcked {sn : UInt32} {seg : IkcpSeg} {buffer : List IkcpSeg}
    (member : seg ∈ removeAcked sn buffer) : seg ∈ buffer := by
  induction buffer with
  | nil => exact member
  | cons head rest ih =>
      unfold removeAcked at member
      split at member
      · exact List.mem_cons_of_mem head member
      · split at member
        · exact member
        · rcases List.mem_cons.mp member with rfl | member
          · exact List.mem_cons_self
          · exact List.mem_cons_of_mem head (ih member)

theorem mem_removeAcked_or {sn : UInt32} {seg : IkcpSeg} {buffer : List IkcpSeg}
    (member : seg ∈ buffer) : seg ∈ removeAcked sn buffer ∨ sn = seg.sn := by
  induction buffer with
  | nil => contradiction
  | cons head rest ih =>
      unfold removeAcked
      split
      · rename_i same
        rcases List.mem_cons.mp member with rfl | member
        · exact .inr same
        · exact .inl member
      · split
        · exact .inl member
        · rcases List.mem_cons.mp member with rfl | member
          · exact .inl List.mem_cons_self
          · exact (ih member).imp_left (List.mem_cons_of_mem head)

theorem ikcpParseAck_released {peer : Progress} {kcp : Ikcpcb} {sn : UInt32}
    (stored : peer.stored sn.toNat) :
    Released peer kcp.sendSide (ikcpParseAck kcp sn).sendSide := by
  unfold ikcpParseAck
  split
  · exact .refl peer _
  · refine .of_subset rfl rfl (fun seg member => mem_of_mem_removeAcked member) ?_
    intro seg member
    refine (mem_removeAcked_or member).imp_right fun same => ?_
    rw [← same]
    exact stored

theorem countFastack_sameSeg (sn : UInt32) (buffer : List IkcpSeg) :
    List.Forall₂ SameSeg buffer (countFastack sn buffer) := by
  induction buffer with
  | nil => exact .nil
  | cons seg rest ih =>
      unfold countFastack
      split
      · exact List.forall₂_same.mpr fun seg _ => .refl seg
      · refine .cons ?_ ih
        split
        · exact ⟨rfl, rfl, rfl, rfl⟩
        · exact .refl seg

theorem mem_of_sameSegs {before after : List IkcpSeg} (same : List.Forall₂ SameSeg before after) :
    (∀ seg ∈ after, ∃ original ∈ before, SameSeg original seg) ∧
      ∀ original ∈ before, ∃ seg ∈ after, SameSeg original seg := by
  induction same with
  | nil => simp
  | cons head _ ih => 
      refine ⟨fun seg member => ?_, fun original member => ?_⟩
      · rcases List.mem_cons.mp member with rfl | member
        · exact ⟨_, List.mem_cons_self, head⟩
        · obtain ⟨original, inBefore, sameSeg⟩ := ih.1 seg member
          exact ⟨original, List.mem_cons_of_mem _ inBefore, sameSeg⟩
      · rcases List.mem_cons.mp member with rfl | member
        · exact ⟨_, List.mem_cons_self, head⟩
        · obtain ⟨seg, inAfter, sameSeg⟩ := ih.2 original member
          exact ⟨seg, List.mem_cons_of_mem _ inAfter, sameSeg⟩

theorem ikcpParseFastack_released (peer : Progress) (kcp : Ikcpcb) (sn : UInt32) :
    Released peer kcp.sendSide (ikcpParseFastack kcp sn).sendSide := by
  unfold ikcpParseFastack
  split
  · exact .refl peer _
  · obtain ⟨held, kept⟩ := mem_of_sameSegs (countFastack_sameSeg sn kcp.snd_buf)
    exact ⟨rfl, rfl, held, fun original member => .inl (kept original member)⟩

/-- A control block some genuine datagrams of the peer after `start`. -/
structure Fed (peer : Progress) (taken : List Payload) (start kcp : Ikcpcb) : Prop where
  setup : kcp.setup = start.setup
  counted : kcp.recvSide.Counted
  released : Released peer start.sendSide kcp.sendSide
  receiving : Receiving peer taken kcp.recvSide
  keeps : start.recvSide.Keeps kcp.recvSide
  owed : ∀ ack ∈ kcp.acklist, kcp.recvSide.Stored ack.1.toNat

section Datagram

variable {peer : Progress} {taken : List Payload} {start kcp after : Ikcpcb}

theorem Fed.sameTraffic (fed : Fed peer taken start kcp) (same : SameTraffic kcp after) :
    Fed peer taken start after := by
  refine ⟨same.setup.trans fed.setup, ?_, ?_, ?_, ?_, ?_⟩
  · rw [same.recvSide]
    exact fed.counted
  · rw [same.sendSide]
    exact fed.released
  · rw [same.recvSide]
    exact fed.receiving
  · rw [same.recvSide]
    exact fed.keeps
  · rw [same.recvSide, same.acklist]
    exact fed.owed

/-- A change of `snd_buf` alone. -/
theorem Fed.releasing (fed : Fed peer taken start kcp)
    (released : Released peer kcp.sendSide after.sendSide) (setup : after.setup = kcp.setup)
    (recvSide : after.recvSide = kcp.recvSide) (acklist : after.acklist = kcp.acklist) :
    Fed peer taken start after := by
  refine ⟨setup.trans fed.setup, ?_, fed.released.trans released, ?_, ?_, ?_⟩
  · rw [recvSide]
    exact fed.counted
  · rw [recvSide]
    exact fed.receiving
  · rw [recvSide]
    exact fed.keeps
  · rw [recvSide, acklist]
    exact fed.owed

theorem toUInt8_cmd {conv : UInt32} {sender : Progress} {seg : IkcpSeg}
    (genuine : Genuine conv sender seg) : seg.cmd.toUInt8.toUInt32 = seg.cmd := by
  cases genuine with
  | push _ _ cmd _ => rw [cmd]; rfl
  | ack _ _ cmd _ _ => rw [cmd]; rfl
  | probe _ _ cmd _ => rcases cmd with cmd | cmd <;> rw [cmd] <;> rfl

/-- What makes the serial numbers and the sizes of a peer's segments readable. -/
structure Progress.Sound (peer : Progress) : Prop where
  few : peer.sent < 2 ^ 31
  received : peer.received < 2 ^ 31
  inOrder : ∀ serial < peer.received, peer.stored serial
  small : ∀ payload ∈ peer.stream, payload.1.length ≤ 1376 ∧ payload.2.toNat < 256

theorem Genuine.readable {conv : UInt32} {seg : IkcpSeg} (sound : peer.Sound)
    (genuine : Genuine conv peer seg) (setup : kcp.conv = conv) : Readable kcp seg := by
  refine ⟨genuine.conv_eq.trans setup.symm, ?_, ?_⟩
  · have cmd := toUInt8_cmd genuine
    unfold knownCmd
    rw [cmd]
    cases genuine with
    | push _ _ cmd _ => rw [cmd]; rfl
    | ack _ _ cmd _ _ => rw [cmd]; rfl
    | probe _ _ cmd _ => rcases cmd with cmd | cmd <;> rw [cmd] <;> rfl
  · cases genuine with
    | push _ _ _ numbered =>
        have size := (sound.small _ (List.mem_of_getElem? numbered.payload)).1
        change seg.data.length ≤ 1376 at size
        omega
    | ack _ _ _ data _ => simp [data]
    | probe _ _ _ data => simp [data]

/-- The segment the receiver builds is the one that was numbered. -/
theorem Numbered.arrived {seg : IkcpSeg} (sound : peer.Sound) (numbered : Numbered peer seg) :
    Numbered peer (arrivedSeg (headerOf seg) seg.data) := by
  have small := (sound.small _ (List.mem_of_getElem? numbered.payload)).2
  change seg.frg.toNat < 256 at small
  have frg : seg.frg.toUInt8.toUInt32 = seg.frg := by
    apply UInt32.toNat_inj.mp
    rw [UInt8.toNat_toUInt32, UInt32.toNat_toUInt8]
    omega
  exact ⟨numbered.sent, numbered.payload.trans
    (congrArg (fun frg => some (seg.data, frg)) frg.symm)⟩

theorem Genuine.numbered {conv : UInt32} {seg : IkcpSeg} (genuine : Genuine conv peer seg)
    (isPush : seg.cmd = ikcpCmdPush) : Numbered peer seg := by
  cases genuine with
  | push _ _ _ numbered => exact numbered
  | ack _ _ cmd _ _ => rw [cmd] at isPush; contradiction
  | probe _ _ cmd _ => rcases cmd with cmd | cmd <;> rw [cmd] at isPush <;> contradiction

theorem Genuine.acked {conv : UInt32} {seg : IkcpSeg} (genuine : Genuine conv peer seg)
    (isAck : seg.cmd = ikcpCmdAck) : peer.stored seg.sn.toNat := by
  cases genuine with
  | ack _ _ _ _ stored => exact stored
  | push _ _ cmd _ => rw [cmd] at isAck; contradiction
  | probe _ _ cmd _ => rcases cmd with cmd | cmd <;> rw [cmd] at isAck <;> contradiction

theorem Fed.segment {conv : UInt32} {seg : IkcpSeg} (sound : peer.Sound)
    (mine : ∀ seg ∈ start.snd_buf, seg.sn.toNat < 2 ^ 31) (fed : Fed peer taken start kcp)
    (genuine : Genuine conv peer seg) (scan : AckScan) :
    Fed peer taken start (applySegment kcp scan (headerOf seg) seg.data).1 := by
  have una := genuine.una_le
  have received := sound.received
  have counted := applySegment_counted kcp scan (headerOf seg) seg.data fed.counted
  obtain ⟨entered, same, arrival⟩ := applySegment_cases kcp scan (headerOf seg) seg.data
  have here : ∀ held ∈ kcp.snd_buf, held.sn.toNat < 2 ^ 31 := by
    intro held member
    obtain ⟨original, inStart, sameSeg⟩ := fed.released.held held member
    rw [sameSeg.sn]
    exact mine original inStart
  have parsed : Released peer kcp.sendSide (ikcpParseUna kcp seg.una).sendSide :=
    ikcpParseUna_released here (by omega) fun serial below => sound.inOrder serial (by omega)
  have fedEntered : Fed peer taken start entered :=
    (fed.releasing parsed rfl rfl rfl).sameTraffic same
  generalize (applySegment kcp scan (headerOf seg) seg.data).1 = after at arrival counted
  cases arrival with
  | @acked timed _ isAck sameTimed sameAfter =>
      have stored : peer.stored seg.sn.toNat :=
        genuine.acked ((toUInt8_cmd genuine).symm.trans isAck)
      obtain ⟨setup, recvSide, acklist⟩ := ikcpParseAck_keeps timed (headerOf seg).sn
      exact ((fedEntered.sameTraffic sameTimed).releasing (ikcpParseAck_released stored) setup
        recvSide acklist).sameTraffic sameAfter
  | stored isPush inWindow notOlder =>
      have numbered : Numbered peer seg :=
        genuine.numbered ((toUInt8_cmd genuine).symm.trans isPush)
      let pushed := ikcpAckPush entered (headerOf seg).sn (headerOf seg).ts
      obtain ⟨setup, sendSide, acklist⟩ :=
        ikcpParseData_keeps pushed (arrivedSeg (headerOf seg) seg.data)
      have receivingPushed : Receiving peer taken pushed.recvSide := fedEntered.receiving
      obtain ⟨receiving, keeps, stored⟩ :=
        ikcpParseData_receiving sound.few receivingPushed (numbered.arrived sound)
      refine ⟨setup.trans fedEntered.setup, counted, ?_, receiving, fedEntered.keeps.trans keeps, ?_⟩
      · rw [sendSide]
        exact fedEntered.released
      · intro ack member
        rw [acklist] at member
        rcases List.mem_append.mp member with member | member
        · exact keeps.stored _ (fedEntered.owed ack member)
        · rw [List.mem_singleton.mp member]
          exact stored inWindow notOlder
  | repeated isPush older =>
      have numbered : Numbered peer seg :=
        genuine.numbered ((toUInt8_cmd genuine).symm.trans isPush)
      refine ⟨fedEntered.setup, fedEntered.counted, fedEntered.released, fedEntered.receiving,
        fedEntered.keeps, ?_⟩
      intro ack member
      rcases List.mem_append.mp member with member | member
      · exact fedEntered.owed ack member
      · rw [List.mem_singleton.mp member]
        left
        have within : entered.rcv_nxt.toNat ≤ peer.sent := fedEntered.receiving.within
        have sent := numbered.sent
        have few := sound.few
        rw [itimediff_eq] at older
        · change seg.sn.toNat < entered.rcv_nxt.toNat
          change (seg.sn.toNat : Int) - entered.rcv_nxt.toNat < 0 at older
          omega
        · change entered.rcv_nxt.toNat ≤ seg.sn.toNat + 2 ^ 31
          omega
        · change seg.sn.toNat < entered.rcv_nxt.toNat + 2 ^ 31
          omega
  | passed sameAfter => exact fedEntered.sameTraffic sameAfter

theorem Fed.input {conv : UInt32} {limit : Nat} {data : List UInt8} (sound : peer.Sound)
    (mine : ∀ seg ∈ start.snd_buf, seg.sn.toNat < 2 ^ 31) (setup : start.conv = conv)
    (genuine : Packed (Genuine conv peer) limit data) (fed : Fed peer taken start kcp) :
    Fed peer taken start (ikcpInput kcp data).1 := by
  obtain ⟨segs, parts, good, _⟩ := genuine
  have readable : ∀ seg ∈ segs, Readable kcp seg := fun seg member =>
    (good seg member).readable sound ((congrArg Setup.conv fed.setup).trans setup)
  have scanned : Fed peer taken start (inputLoop data.length kcp {} data).1 := by
    rw [inputLoop_eq, parts, decodeLoop_segs readable le_rfl]
    apply applyAll_preserves (Fed peer taken start) _ fed
    intro before scan decoded member held
    obtain ⟨seg, inSegs, rfl⟩ := List.mem_map.mp member
    exact held.segment sound mine (good seg inSegs) scan
  rcases ikcpInput_cases kcp data with unchanged | ⟨counted, same, rfl | ⟨sn, rfl⟩⟩
  · rw [unchanged]
    exact fed
  · exact scanned.sameTraffic same
  · obtain ⟨setup, recvSide, acklist⟩ :=
      ikcpParseFastack_keeps (inputLoop data.length kcp {} data).1 sn
    exact (scanned.releasing (ikcpParseFastack_released peer _ sn) setup recvSide
      acklist).sameTraffic same

theorem takeMessage_keeps (kcp : Ikcpcb) :
    (takeMessage kcp).setup = kcp.setup ∧ (takeMessage kcp).sendSide = kcp.sendSide ∧
      (takeMessage kcp).acklist = kcp.acklist := by
  obtain ⟨_, _, _, _, _, result⟩ := moveAvailable_spec kcp.rcv_buf (dropMessage kcp)
  rw [takeMessage, result]
  exact ⟨rfl, rfl, rfl⟩

theorem Fed.take (sound : peer.Sound) (fed : Fed peer taken start kcp)
    (complete : HasMessage kcp.rcv_queue) :
    Fed peer (taken ++ (messageParts kcp.rcv_queue).map IkcpSeg.payload) start
      (ikcpRecv kcp (messageBytes kcp.rcv_queue).length).1 := by
  obtain ⟨same, _⟩ := ikcpRecv_eq fed.counted complete
  obtain ⟨setup, sendSide, acklist⟩ := takeMessage_keeps kcp
  have split : messageParts kcp.rcv_queue ++
      kcp.rcv_queue.drop (messageParts kcp.rcv_queue).length = kcp.rcv_queue :=
    List.prefix_iff_eq_append.mp (messageParts_isInitial kcp.rcv_queue)
  have queue : taken ++ (messageParts kcp.rcv_queue).map IkcpSeg.payload ++
      (dropMessage kcp).rcv_queue.map IkcpSeg.payload = peer.stream.take kcp.rcv_nxt.toNat := by
    rw [List.append_assoc, ← List.map_append, dropMessage, split]
    exact fed.receiving.queue
  obtain ⟨receiving, received, stored⟩ := moveAvailable_receiving (dropMessage kcp) sound.few
    fed.receiving.within queue fed.receiving.buffered
  have keeps : kcp.recvSide.Keeps (takeMessage kcp).recvSide := by
    refine ⟨received, fun serial earlier => ?_⟩
    rcases earlier with below | ⟨seg, member, equal⟩
    · exact .inl (Nat.lt_of_lt_of_le below received)
    · exact equal ▸ stored seg member
  refine Fed.sameTraffic ⟨setup.trans fed.setup, takeMessage_counted fed.counted,
    sendSide ▸ fed.released, receiving, fed.keeps.trans keeps, ?_⟩ same
  intro ack member
  exact keeps.stored _ (fed.owed ack (acklist ▸ member))

end Datagram

end FiberKcp
