import FiberKcp.Ikcp.Decoding
import FiberKcp.Ikcp.Departure

namespace FiberKcp.Ikcp

open FiberKcp.Data

/-! Reading back what `ikcp_encode_seg` wrote. -/

/-- The header `ikcp_input` decodes from an encoded segment. -/
def headerOf (seg : IkcpSeg) : SegmentHeader where
  conv := seg.conv
  cmd := seg.cmd.toUInt8
  frg := seg.frg.toUInt8
  wnd := seg.wnd.toUInt16
  ts := seg.ts
  sn := seg.sn
  una := seg.una
  len := UInt32.ofNat seg.data.length

theorem decodeHeader_encode (seg : IkcpSeg) (rest : List UInt8) :
    decodeHeader (ikcpEncodeSeg seg ++ rest) = headerOf seg := by
  have conv : (decodeHeader (ikcpEncodeSeg seg ++ rest)).conv = seg.conv := word32_bytes32 _ _
  have wnd : (decodeHeader (ikcpEncodeSeg seg ++ rest)).wnd = seg.wnd.toUInt16 :=
    word16_bytes16 _ _
  have ts : (decodeHeader (ikcpEncodeSeg seg ++ rest)).ts = seg.ts := word32_bytes32 _ _
  have sn : (decodeHeader (ikcpEncodeSeg seg ++ rest)).sn = seg.sn := word32_bytes32 _ _
  have una : (decodeHeader (ikcpEncodeSeg seg ++ rest)).una = seg.una := word32_bytes32 _ _
  have len : (decodeHeader (ikcpEncodeSeg seg ++ rest)).len = UInt32.ofNat seg.data.length :=
    word32_bytes32 _ _
  unfold headerOf
  rw [← conv, ← wnd, ← ts, ← sn, ← una, ← len]
  rfl

theorem ikcpGetconv_encode (seg : IkcpSeg) (rest : List UInt8) :
    word32 (ikcpEncodeSeg seg ++ rest) = seg.conv := word32_bytes32 _ _

/-- A segment `ikcp_input` takes from a datagram without an error. -/
structure Readable (kcp : Ikcpcb) (seg : IkcpSeg) : Prop where
  conv : seg.conv = kcp.conv
  cmd : knownCmd seg.cmd.toUInt8 = true
  size : seg.data.length < 2 ^ 31

theorem decodeLoop_segBytes {kcp : Ikcpcb} {seg : IkcpSeg} (readable : Readable kcp seg)
    (fuel : Nat) (rest : List UInt8) :
    decodeLoop kcp.conv (fuel + 1) (segBytes seg ++ rest) =
      ((headerOf seg, seg.data) :: (decodeLoop kcp.conv fuel rest).1,
        (decodeLoop kcp.conv fuel rest).2) := by
  have size := readable.size
  have len : (headerOf seg).len.toNat = seg.data.length := by
    simp only [headerOf, UInt32.toNat_ofNat']
    omega
  have positive : ¬ (headerOf seg).len.toInt32 < 0 := by
    have below : (headerOf seg).len.toBitVec.toInt = seg.data.length := by
      rw [BitVec.toInt_eq_toNat_of_lt]
      · simpa using congrArg Int.ofNat len
      · rw [UInt32.toNat_toBitVec, len]
        omega
    rw [Int32.lt_iff_toInt_lt]
    change ¬ (headerOf seg).len.toBitVec.toInt < 0
    omega
  have enough : ¬ (segBytes seg ++ rest).length < ikcpOverhead := by
    simp only [segBytes, List.length_append, length_ikcpEncodeSeg]
    omega
  have body : (segBytes seg ++ rest).drop ikcpOverhead = seg.data ++ rest := by
    rw [segBytes, List.append_assoc]
    exact List.drop_left' (length_ikcpEncodeSeg seg)
  have header : decodeHeader (segBytes seg ++ rest) = headerOf seg := by
    rw [segBytes, List.append_assoc]
    exact decodeHeader_encode seg _
  have conv : ¬ (headerOf seg).conv ≠ kcp.conv := fun differ => differ readable.conv
  have known : knownCmd (headerOf seg).cmd = true := readable.cmd
  have fits : ¬ ((seg.data ++ rest).length < (headerOf seg).len.toNat ∨
      (headerOf seg).len.toInt32 < 0) := by
    rw [len, List.length_append]
    rintro (short | negative)
    · omega
    · exact positive negative
  rw [decodeLoop]
  simp only [enough, header, body, conv, known, fits, if_false]
  rw [len, List.take_left, List.drop_left]
  exact if_neg (by decide)

/-- The segments a datagram is made of are the ones decoded from it. -/
theorem decodeLoop_segs {kcp : Ikcpcb} {segs : List IkcpSeg}
    (readable : ∀ seg ∈ segs, Readable kcp seg) {fuel : Nat}
    (enough : (segs.flatMap segBytes).length ≤ fuel) :
    decodeLoop kcp.conv fuel (segs.flatMap segBytes) =
      (segs.map fun seg => (headerOf seg, seg.data), 0) := by
  induction segs generalizing fuel with
  | nil => cases fuel <;> rfl
  | cons seg rest ih =>
      have size : 24 ≤ (segBytes seg).length := by
        simp [segBytes, ikcpOverhead]
      rw [List.flatMap_cons, List.length_append] at enough
      obtain ⟨left, rfl⟩ : ∃ left, fuel = left + 1 := ⟨fuel - 1, by omega⟩
      rw [List.flatMap_cons, decodeLoop_segBytes (readable seg List.mem_cons_self),
        ih (fun other member => readable other (List.mem_cons_of_mem seg member)) (by omega)]
      rfl

/-- A segment whose fields fit the ones of the header. -/
structure Encodable (conv : UInt32) (seg : IkcpSeg) : Prop where
  conv : seg.conv = conv
  cmd : seg.cmd = ikcpCmdPush ∨ seg.cmd = ikcpCmdAck ∨ seg.cmd = ikcpCmdWask ∨
    seg.cmd = ikcpCmdWins
  frg : seg.frg.toNat < 2 ^ 8
  wnd : seg.wnd.toNat < 2 ^ 16
  size : seg.data.length < 2 ^ 31

/-- What was decoded has the fields of the segment that was sent. -/
structure Decodes (seg : IkcpSeg) (decoded : DecodedSeg) : Prop where
  conv : decoded.1.conv = seg.conv
  cmd : decoded.1.cmd.toUInt32 = seg.cmd
  frg : decoded.1.frg.toUInt32 = seg.frg
  wnd : decoded.1.wnd.toUInt32 = seg.wnd
  ts : decoded.1.ts = seg.ts
  sn : decoded.1.sn = seg.sn
  una : decoded.1.una = seg.una
  len : decoded.1.len.toNat = seg.data.length
  payload : decoded.2 = seg.data

theorem Encodable.decodes {conv : UInt32} {seg : IkcpSeg} (encodable : Encodable conv seg) :
    Decodes seg (headerOf seg, seg.data) := by
  have cmd := encodable.cmd
  have frg := encodable.frg
  have wnd := encodable.wnd
  have size := encodable.size
  refine ⟨rfl, ?_, ?_, ?_, rfl, rfl, rfl, ?_, rfl⟩
  · rcases cmd with cmd | cmd | cmd | cmd <;> simp only [headerOf, cmd] <;> rfl
  · apply UInt32.toNat_inj.mp
    simp only [headerOf, UInt8.toNat_toUInt32, UInt32.toNat_toUInt8]
    omega
  · apply UInt32.toNat_inj.mp
    simp only [headerOf, UInt16.toNat_toUInt32, UInt32.toNat_toUInt16]
    omega
  · simp only [headerOf, UInt32.toNat_ofNat']
    omega

end FiberKcp.Ikcp
