import FiberKcp.Ikcp.Arrival
import Mathlib.Data.List.Forall2

namespace FiberKcp.Ikcp

open FiberKcp.Data

/-! What `ikcp_send` and `ikcp_flush` do to the two halves of a control block,
and which segments the datagrams of a flush are made of. -/

/-- The fields of a segment in `snd_buf` that no resend changes. -/
structure SameSeg (before after : IkcpSeg) : Prop where
  conv : after.conv = before.conv
  cmd : after.cmd = before.cmd
  sn : after.sn = before.sn
  payload : after.payload = before.payload

theorem SameSeg.refl (seg : IkcpSeg) : SameSeg seg seg := ⟨rfl, rfl, rfl, rfl⟩

theorem SameSeg.trans {first second third : IkcpSeg} (left : SameSeg first second)
    (right : SameSeg second third) : SameSeg first third :=
  ⟨right.conv.trans left.conv, right.cmd.trans left.cmd, right.sn.trans left.sn,
    right.payload.trans left.payload⟩

/-! ## From the user to `snd_buf` -/

theorem ikcpSend_keeps (kcp : Ikcpcb) (buffer : List UInt8) (len : Int32) :
    (ikcpSend kcp buffer len).1.recvSide = kcp.recvSide ∧
      (ikcpSend kcp buffer len).1.setup = kcp.setup ∧
      (ikcpSend kcp buffer len).1.acklist = kcp.acklist := by
  have appended : (appendToPrevious kcp buffer len.toInt.toNat).1.recvSide = kcp.recvSide ∧
      (appendToPrevious kcp buffer len.toInt.toNat).1.setup = kcp.setup ∧
      (appendToPrevious kcp buffer len.toInt.toNat).1.acklist = kcp.acklist := by
    unfold appendToPrevious
    split
    · exact ⟨rfl, rfl, rfl⟩
    · split <;> exact ⟨rfl, rfl, rfl⟩
  unfold ikcpSend
  split
  · exact ⟨rfl, rfl, rfl⟩
  · by_cases streaming : kcp.stream ≠ 0
    · rw [if_pos streaming]
      dsimp only
      split
      · exact appended
      · split <;> exact appended
    · rw [if_neg streaming]
      dsimp only
      split
      · exact ⟨rfl, rfl, rfl⟩
      · split <;> exact ⟨rfl, rfl, rfl⟩

/-- From `kcp` to `after` some segments of `queue` went to `snd_buf` under the
next serial numbers and the others are left in `snd_queue`. -/
structure Moved (queue : List IkcpSeg) (kcp after : Ikcpcb) (entered : List IkcpSeg) : Prop where
  queue : ∃ moved, queue = moved ++ after.snd_queue ∧
    entered.map IkcpSeg.payload = moved.map IkcpSeg.payload
  buffer : after.snd_buf = kcp.snd_buf ++ entered
  next : after.snd_nxt = kcp.snd_nxt + UInt32.ofNat entered.length
  serials : Consecutive kcp.snd_nxt entered
  labels : ∀ seg ∈ entered, seg.conv = kcp.conv ∧ seg.cmd = ikcpCmdPush

theorem Moved.none {queue : List IkcpSeg} {kcp after : Ikcpcb}
    (left : after.snd_queue = queue) (buffer : after.snd_buf = kcp.snd_buf)
    (next : after.snd_nxt = kcp.snd_nxt) : Moved queue kcp after [] :=
  ⟨⟨[], by simp [left], rfl⟩, by simp [buffer], by simp [next], trivial, by simp⟩

theorem moveToSndBuf_keeps (cwnd wnd : UInt32) (queue : List IkcpSeg) (kcp : Ikcpcb) :
    (moveToSndBuf cwnd wnd queue kcp).recvSide = kcp.recvSide ∧
      (moveToSndBuf cwnd wnd queue kcp).setup = kcp.setup ∧
      (moveToSndBuf cwnd wnd queue kcp).acklist = kcp.acklist := by
  induction queue generalizing kcp with
  | nil => exact ⟨rfl, rfl, rfl⟩
  | cons newseg rest ih =>
      unfold moveToSndBuf
      split
      · exact ih _
      · exact ⟨rfl, rfl, rfl⟩

theorem moveToSndBuf_moved (cwnd wnd : UInt32) (queue : List IkcpSeg) (kcp : Ikcpcb) :
    ∃ entered, Moved queue kcp (moveToSndBuf cwnd wnd queue kcp) entered := by
  induction queue generalizing kcp with
  | nil => exact ⟨[], .none rfl rfl rfl⟩
  | cons newseg rest ih =>
      unfold moveToSndBuf
      split
      · let seg : IkcpSeg := { newseg with
          conv := kcp.conv, cmd := ikcpCmdPush, wnd := wnd, ts := kcp.current
          sn := kcp.snd_nxt, una := kcp.rcv_nxt, resendts := kcp.current
          rto := kcp.rx_rto.toUInt32, fastack := 0, xmit := 0 }
        obtain ⟨entered, later⟩ :=
          ih { kcp with snd_buf := kcp.snd_buf ++ [seg], snd_nxt := kcp.snd_nxt + 1 }
        obtain ⟨moved, parts, payloads⟩ := later.queue
        have samePayload : seg.payload = newseg.payload := rfl
        refine ⟨seg :: entered, ⟨newseg :: moved, ?_, ?_⟩, ?_, ?_, ⟨rfl, later.serials⟩, ?_⟩
        · rw [List.cons_append, ← parts]
        · rw [List.map_cons, List.map_cons, payloads, samePayload]
        · rw [later.buffer, List.append_assoc, List.singleton_append]
        · rw [later.next, List.length_cons, Nat.add_comm, UInt32.ofNat_add, ← UInt32.add_assoc]
          rfl
        · intro other member
          rcases List.mem_cons.mp member with rfl | member
          · exact ⟨rfl, rfl⟩
          · exact later.labels other member
      · exact ⟨[], .none rfl rfl rfl⟩

/-! ## Datagrams -/

def segBytes (seg : IkcpSeg) : List UInt8 := ikcpEncodeSeg seg ++ seg.data

@[simp] theorem length_ikcpEncodeSeg (seg : IkcpSeg) :
    (ikcpEncodeSeg seg).length = ikcpOverhead := rfl

/-- The bytes are those of some segments, one after the other, all of them
`Good`, and there are at most `limit`. -/
def Packed (Good : IkcpSeg → Prop) (limit : Nat) (bytes : List UInt8) : Prop :=
  ∃ segs : List IkcpSeg, bytes = segs.flatMap segBytes ∧ (∀ seg ∈ segs, Good seg) ∧
    bytes.length ≤ limit

theorem Packed.mono {Good Better : IkcpSeg → Prop} {limit : Nat} {bytes : List UInt8}
    (packed : Packed Good limit bytes) (better : ∀ seg, Good seg → Better seg) :
    Packed Better limit bytes := by
  obtain ⟨segs, parts, good, bound⟩ := packed
  exact ⟨segs, parts, fun seg member => better seg (good seg member), bound⟩

/-- Everything in the packer is made of `Good` segments. -/
structure Packer.Holds (packer : Packer) (Good : IkcpSeg → Prop) (limit : Nat) : Prop where
  sent : ∀ bytes ∈ packer.output, bytes ≠ [] ∧ Packed Good limit bytes
  pending : Packed Good limit packer.buffer

theorem Packer.Holds.empty (Good : IkcpSeg → Prop) (limit : Nat) :
    Packer.Holds {} Good limit := ⟨by simp, [], rfl, by simp, by simp⟩

theorem Packer.Holds.flush {packer : Packer} {Good : IkcpSeg → Prop} {limit : Nat}
    (holds : packer.Holds Good limit) : packer.flush.Holds Good limit := by
  refine ⟨?_, [], rfl, by simp, by simp [Packer.flush]⟩
  unfold Packer.flush
  dsimp only
  split
  · exact holds.sent
  · rename_i nonempty
    intro bytes member
    rcases List.mem_append.mp member with member | member
    · exact holds.sent bytes member
    · rw [List.mem_singleton.mp member]
      exact ⟨by simpa using nonempty, holds.pending⟩

theorem Packer.Holds.append {packer : Packer} {Good : IkcpSeg → Prop} {mtu : UInt32}
    {seg : IkcpSeg} (holds : packer.Holds Good mtu.toNat) (good : Good seg)
    (fits : ikcpOverhead + seg.data.length ≤ mtu.toNat) :
    (packer.append mtu seg).Holds Good mtu.toNat := by
  have room : ∀ opened : Packer, opened.Holds Good mtu.toNat →
      opened.buffer.length + (ikcpOverhead + seg.data.length) ≤ mtu.toNat →
      Packer.Holds { opened with buffer := opened.buffer ++ (ikcpEncodeSeg seg ++ seg.data) }
        Good mtu.toNat := by
    intro opened openedHolds enough
    obtain ⟨segs, parts, allGood, _⟩ := openedHolds.pending
    refine ⟨openedHolds.sent, segs ++ [seg], by simp [parts, segBytes], ?_, ?_⟩
    · intro other member
      rcases List.mem_append.mp member with member | member
      · exact allGood other member
      · rw [List.mem_singleton.mp member]
        exact good
    · simp only [List.length_append, length_ikcpEncodeSeg]
      omega
  unfold Packer.append
  by_cases full : packer.buffer.length + (ikcpOverhead + seg.data.length) > mtu.toNat
  · rw [if_pos full]
    exact room _ holds.flush (by simpa [Packer.flush] using fits)
  · rw [if_neg full]
    exact room _ holds (by omega)

/-- The segments a flush of `kcp` that leaves `buffer` in `snd_buf` may send. -/
inductive Emitted (kcp : Ikcpcb) (buffer : List IkcpSeg) (seg : IkcpSeg) : Prop where
  | ack : seg.conv = kcp.conv → seg.una = kcp.rcv_nxt → seg.cmd = ikcpCmdAck → seg.data = [] →
      seg.frg = 0 → (∃ ts, (seg.sn, ts) ∈ kcp.acklist) → Emitted kcp buffer seg
  | probe : seg.conv = kcp.conv → seg.una = kcp.rcv_nxt →
      seg.cmd = ikcpCmdWask ∨ seg.cmd = ikcpCmdWins → seg.data = [] → seg.frg = 0 →
      Emitted kcp buffer seg
  | push {held : IkcpSeg} : seg.una = kcp.rcv_nxt → held ∈ buffer → SameSeg held seg →
      Emitted kcp buffer seg

theorem flushAcks_holds {kcp : Ikcpcb} {buffer : List IkcpSeg} {packer : Packer}
    (holds : packer.Holds (Emitted kcp buffer) kcp.mtu.toNat)
    (fits : ikcpOverhead ≤ kcp.mtu.toNat) :
    (flushAcks kcp packer).Holds (Emitted kcp buffer) kcp.mtu.toNat := by
  unfold flushAcks
  refine List.foldlRecOn (motive := fun packer : Packer => packer.Holds (Emitted kcp buffer) kcp.mtu.toNat)
    kcp.acklist _ holds fun _ holds ack member => ?_
  exact holds.append (.ack rfl rfl rfl rfl rfl ⟨ack.2, member⟩) fits

theorem flushProbes_holds {kcp acked : Ikcpcb} {buffer : List IkcpSeg} {packer : Packer}
    (holds : packer.Holds (Emitted acked buffer) kcp.mtu.toNat)
    (fits : ikcpOverhead ≤ kcp.mtu.toNat) :
    (flushProbes kcp acked packer).Holds (Emitted acked buffer) kcp.mtu.toNat := by
  have asked : (if kcp.probe &&& ikcpAskSend ≠ 0 then
      packer.append kcp.mtu (probeSeg acked ikcpCmdWask) else packer).Holds
      (Emitted acked buffer) kcp.mtu.toNat := by
    split
    · exact holds.append (.probe rfl rfl (.inl rfl) rfl rfl) fits
    · exact holds
  unfold flushProbes
  dsimp only
  split
  · exact asked.append (.probe rfl rfl (.inr rfl) rfl rfl) fits
  · exact asked

/-! ## The loop over `snd_buf` -/

theorem needsend_sameSeg (kcp : Ikcpcb) (segment : IkcpSeg) :
    SameSeg segment (needsend kcp segment).1 := by
  unfold needsend
  dsimp only
  split
  · exact ⟨rfl, rfl, rfl, rfl⟩
  · split
    · exact ⟨rfl, rfl, rfl, rfl⟩
    · generalize (if kcp.fastresend > 0 then kcp.fastresend.toUInt32 else 0xffffffff) = resent
      split <;> exact ⟨rfl, rfl, rfl, rfl⟩

theorem flushSegment_sameSeg (kcp : Ikcpcb) (wnd : UInt32) (segment : IkcpSeg)
    (resend : Resend) : SameSeg segment (flushSegment kcp wnd segment resend).1 := by
  have same := needsend_sameSeg kcp segment
  unfold flushSegment
  generalize needsend kcp segment = decided at *
  obtain ⟨advanced, send, timedOut, fast⟩ := decided
  cases send with
  | false => exact same
  | true => exact ⟨same.conv, same.cmd, same.sn, same.payload⟩

theorem flushSegments_sameSegs (kcp : Ikcpcb) (wnd : UInt32) (segments : List IkcpSeg)
    (resend : Resend) :
    List.Forall₂ SameSeg segments (flushSegments kcp wnd segments resend).1 := by
  induction segments generalizing resend with
  | nil => exact .nil
  | cons segment rest ih => exact .cons (flushSegment_sameSeg kcp wnd segment resend) (ih _)

/-- A header and each of the segments fit into a datagram. -/
structure Fits (kcp : Ikcpcb) (buffer : List IkcpSeg) : Prop where
  header : ikcpOverhead ≤ kcp.mtu.toNat
  segs : ∀ seg ∈ buffer, ikcpOverhead + seg.data.length ≤ kcp.mtu.toNat

theorem flushSegment_holds {kcp acked : Ikcpcb} {wnd : UInt32} {segment : IkcpSeg}
    {resend : Resend} {buffer : List IkcpSeg} (una : acked.rcv_nxt = kcp.rcv_nxt)
    (fits : Fits kcp buffer) (member : segment ∈ buffer)
    (holds : resend.packer.Holds (Emitted acked buffer) kcp.mtu.toNat) :
    (flushSegment kcp wnd segment resend).2.packer.Holds (Emitted acked buffer) kcp.mtu.toNat := by
  have same := needsend_sameSeg kcp segment
  unfold flushSegment
  generalize needsend kcp segment = decided at *
  obtain ⟨advanced, send, timedOut, fast⟩ := decided
  cases send with
  | false => exact holds
  | true =>
      have sent : SameSeg segment
          { advanced with ts := kcp.current, wnd := wnd, una := kcp.rcv_nxt } :=
        ⟨same.conv, same.cmd, same.sn, same.payload⟩
      have data : advanced.data = segment.data := congrArg Prod.fst same.payload
      refine holds.append (.push una.symm member sent) ?_
      rw [data]
      exact fits.segs segment member

theorem flushSegments_holds {kcp acked : Ikcpcb} {buffer : List IkcpSeg} (wnd : UInt32)
    (segments : List IkcpSeg) (resend : Resend) (una : acked.rcv_nxt = kcp.rcv_nxt) (fits : Fits kcp buffer)
    (members : ∀ segment ∈ segments, segment ∈ buffer)
    (holds : resend.packer.Holds (Emitted acked buffer) kcp.mtu.toNat) :
    (flushSegments kcp wnd segments resend).2.packer.Holds (Emitted acked buffer)
      kcp.mtu.toNat := by
  induction segments generalizing resend with
  | nil => exact holds
  | cons segment rest ih =>
      exact ih _ (fun other member => members other (List.mem_cons_of_mem segment member))
        (flushSegment_holds una fits (members segment List.mem_cons_self) holds)

/-! ## A whole flush -/

/-- What `ikcp_flush` and `ikcp_update` may do: move segments from `snd_queue`
to `snd_buf`, then acknowledge, probe and send from `snd_buf`. -/
structure Flushed (kcp after : Ikcpcb) (output : List (List UInt8)) : Prop where
  recvSide : after.recvSide = kcp.recvSide
  setup : after.setup = kcp.setup
  acklist : after.acklist = kcp.acklist ∨ after.acklist = []
  traffic : ∃ moving entered, Moved kcp.snd_queue kcp moving entered ∧
    after.snd_queue = moving.snd_queue ∧ after.snd_nxt = moving.snd_nxt ∧
    List.Forall₂ SameSeg moving.snd_buf after.snd_buf ∧
    (Fits kcp moving.snd_buf → ∀ bytes ∈ output,
      bytes ≠ [] ∧ Packed (Emitted kcp moving.snd_buf) kcp.mtu.toNat bytes)

/-- Nothing moved and nothing sent. -/
theorem Flushed.idle {kcp after : Ikcpcb} (same : SameTraffic kcp after) :
    Flushed kcp after [] := by
  have sending : after.sendSide = kcp.sendSide := same.sendSide
  simp only [Ikcpcb.sendSide, SendSide.mk.injEq] at sending
  obtain ⟨queue, buffer, next⟩ := sending
  refine ⟨same.recvSide, same.setup, .inl same.acklist, kcp, [], .none rfl rfl rfl, queue, next,
    ?_, by simp⟩
  rw [buffer]
  exact List.forall₂_same.mpr fun seg _ => ⟨rfl, rfl, rfl, rfl⟩

theorem ikcpFlush_flushed (kcp : Ikcpcb) :
    Flushed kcp (ikcpFlush kcp).1 (ikcpFlush kcp).2 := by
  unfold ikcpFlush
  split
  · exact .idle (.refl kcp)
  · extract_lets acked acks cleared packer wnd window cwnd moving
    have probed : SameTraffic { kcp with acklist := [] } cleared := scheduleProbe_sameTraffic _
    have sending : cleared.sendSide = kcp.sendSide := probed.sendSide
    simp only [Ikcpcb.sendSide, SendSide.mk.injEq] at sending
    obtain ⟨queue, buffer, next⟩ := sending
    have conv : cleared.conv = kcp.conv := congrArg Setup.conv probed.setup
    have mtu : cleared.mtu = kcp.mtu := congrArg Setup.mtu probed.setup
    obtain ⟨recvSide, setup, acklist⟩ :=
      moveToSndBuf_keeps cwnd wnd cleared.snd_queue { cleared with probe := 0 }
    obtain ⟨entered, raw⟩ :=
      moveToSndBuf_moved cwnd wnd cleared.snd_queue { cleared with probe := 0 }
    have moves : Moved kcp.snd_queue kcp moving entered := by
      refine ⟨queue ▸ raw.queue, ?_, ?_, next ▸ raw.serials, ?_⟩
      · exact raw.buffer.trans (congrArg (· ++ entered) buffer)
      · exact raw.next.trans (congrArg (· + UInt32.ofNat entered.length) next)
      · exact fun seg member => ⟨(raw.labels seg member).1.trans conv, (raw.labels seg member).2⟩
    have movingMtu : moving.mtu = kcp.mtu := (congrArg Setup.mtu setup).trans mtu
    have una : kcp.rcv_nxt = moving.rcv_nxt :=
      ((congrArg RecvSide.rcv_nxt recvSide).trans (congrArg RecvSide.rcv_nxt probed.recvSide)).symm
    let begun : Resend := { packer := packer, xmit := moving.xmit, state := moving.state }
    have sameSegs : List.Forall₂ SameSeg moving.snd_buf
        (flushSegments moving wnd moving.snd_buf begun).1 := flushSegments_sameSegs _ _ _ _
    have holds : Fits kcp moving.snd_buf →
        (flushSegments moving wnd moving.snd_buf begun).2.packer.Holds
          (Emitted kcp moving.snd_buf) kcp.mtu.toNat := by
      intro fits
      have acksHold : acks.Holds (Emitted kcp moving.snd_buf) cleared.mtu.toNat := by
        rw [mtu]
        exact flushAcks_holds (.empty _ _) fits.header
      have packerHolds : packer.Holds (Emitted kcp moving.snd_buf) moving.mtu.toNat := by
        rw [movingMtu, ← mtu]
        exact flushProbes_holds acksHold (mtu ▸ fits.header)
      have fitsMoving : Fits moving moving.snd_buf :=
        ⟨movingMtu ▸ fits.header, movingMtu ▸ fits.segs⟩
      have sent := flushSegments_holds wnd moving.snd_buf begun una fitsMoving (fun _ => id)
        packerHolds
      rw [movingMtu] at sent
      exact sent
    generalize flushSegments moving wnd moving.snd_buf begun = flushed at *
    obtain ⟨sent, resend⟩ := flushed
    let closing : Ikcpcb :=
      { moving with snd_buf := sent, xmit := resend.xmit, state := resend.state }
    have ended : SameTraffic closing (updateSsthresh closing cwnd resend) :=
      updateSsthresh_sameTraffic closing cwnd resend
    change Flushed kcp (updateSsthresh closing cwnd resend) resend.packer.flush.output
    refine ⟨ended.recvSide.trans (recvSide.trans probed.recvSide),
      ended.setup.trans (setup.trans probed.setup),
      .inr (ended.acklist.trans (acklist.trans probed.acklist)), moving, entered, moves,
      congrArg SendSide.snd_queue ended.sendSide, congrArg SendSide.snd_nxt ended.sendSide, ?_, ?_⟩
    · have buffer : (updateSsthresh closing cwnd resend).snd_buf = sent :=
        congrArg SendSide.snd_buf ended.sendSide
      rw [buffer]
      exact sameSegs
    · exact fun fits => (holds fits).flush.sent

theorem Emitted.of_sameTraffic {kcp middle : Ikcpcb} {buffer : List IkcpSeg} {seg : IkcpSeg}
    (same : SameTraffic kcp middle) (emitted : Emitted middle buffer seg) :
    Emitted kcp buffer seg := by
  have conv : middle.conv = kcp.conv := congrArg Setup.conv same.setup
  have una : middle.rcv_nxt = kcp.rcv_nxt := congrArg RecvSide.rcv_nxt same.recvSide
  cases emitted with
  | ack segConv segUna cmd data frg owed =>
      exact .ack (segConv.trans conv) (segUna.trans una) cmd data frg (same.acklist ▸ owed)
  | probe segConv segUna cmd data frg =>
      exact .probe (segConv.trans conv) (segUna.trans una) cmd data frg
  | push segUna member sameSeg => exact .push (segUna.trans una) member sameSeg

theorem Flushed.of_sameTraffic {kcp middle after : Ikcpcb} {output : List (List UInt8)}
    (same : SameTraffic kcp middle) (flushed : Flushed middle after output) :
    Flushed kcp after output := by
  have sending : middle.sendSide = kcp.sendSide := same.sendSide
  simp only [Ikcpcb.sendSide, SendSide.mk.injEq] at sending
  obtain ⟨queue, buffer, next⟩ := sending
  have conv : middle.conv = kcp.conv := congrArg Setup.conv same.setup
  have mtu : middle.mtu = kcp.mtu := congrArg Setup.mtu same.setup
  obtain ⟨moving, entered, moves, queueAfter, nextAfter, sameSegs, sent⟩ := flushed.traffic
  have movesFrom : Moved kcp.snd_queue kcp moving entered :=
    ⟨queue ▸ moves.queue, buffer ▸ moves.buffer, next ▸ moves.next, next ▸ moves.serials,
      conv ▸ moves.labels⟩
  refine ⟨flushed.recvSide.trans same.recvSide, flushed.setup.trans same.setup,
    same.acklist ▸ flushed.acklist, moving, entered, movesFrom, queueAfter, nextAfter, sameSegs, ?_⟩
  intro fits bytes member
  obtain ⟨nonempty, packed⟩ := sent ⟨mtu ▸ fits.header, mtu ▸ fits.segs⟩ bytes member
  exact ⟨nonempty, mtu ▸ packed.mono fun seg => Emitted.of_sameTraffic same⟩

theorem ikcpUpdate_flushed (kcp : Ikcpcb) (now : UInt32) :
    Flushed kcp (ikcpUpdate kcp now).1 (ikcpUpdate kcp now).2 := by
  unfold ikcpUpdate
  extract_lets timed started slap late restarted slap' ts_flush
  have sameStarted : SameTraffic kcp started :=
    .ite (.clock kcp now 1 now) (.clock kcp now kcp.updated kcp.ts_flush)
  have same : SameTraffic kcp restarted :=
    .ite (sameStarted.trans (.clock started _ _ _)) sameStarted
  split
  · let flushing : Ikcpcb := { restarted with
      ts_flush := if itimediff restarted.current ts_flush ≥ 0 then
        restarted.current + restarted.interval else ts_flush }
    have sameFlushing : SameTraffic kcp flushing := same.trans (.clock restarted _ _ _)
    have flushed : Flushed flushing (ikcpFlush flushing).1 (ikcpFlush flushing).2 :=
      ikcpFlush_flushed flushing
    exact flushed.of_sameTraffic sameFlushing
  · exact .idle same

end FiberKcp.Ikcp
