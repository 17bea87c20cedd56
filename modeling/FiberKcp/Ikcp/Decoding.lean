import FiberKcp.Ikcp.Arrival

namespace FiberKcp.Ikcp

open FiberKcp.Data

/-! The decoding loop of `ikcp_input` by itself: which segments it applies and
what it returns depend on `conv` and the bytes alone. -/

/-- A header and the bytes after it. -/
abbrev DecodedSeg := SegmentHeader × List UInt8

/-- The checks `ikcp_input` makes before it applies a segment. -/
def segmentPasses (conv : UInt32) (data : List UInt8) : Prop :=
  ikcpOverhead ≤ data.length ∧ (decodeHeader data).conv = conv ∧
    ¬ ((data.drop ikcpOverhead).length < (decodeHeader data).len.toNat ∨
      (decodeHeader data).len.toInt32 < 0) ∧
    knownCmd (decodeHeader data).cmd = true

instance (conv : UInt32) (data : List UInt8) : Decidable (segmentPasses conv data) :=
  inferInstanceAs (Decidable (_ ∧ _))

/-- The segments `inputLoop` applies, and what it returns. -/
def decodeLoop (conv : UInt32) : Nat → List UInt8 → List DecodedSeg × Int32
  | 0, _ => ([], 0)
  | fuel + 1, data =>
      if data.length < ikcpOverhead then ([], 0)
      else
        let header := decodeHeader data
        let rest := data.drop ikcpOverhead
        if header.conv ≠ conv then ([], -1)
        else if rest.length < header.len.toNat ∨ header.len.toInt32 < 0 then ([], -2)
        else if knownCmd header.cmd = false then ([], -3)
        else
          let later := decodeLoop conv fuel (rest.drop header.len.toNat)
          ((header, rest.take header.len.toNat) :: later.1, later.2)

/-- The segments are applied one after the other. -/
def applyAll (segs : List DecodedSeg) (state : Ikcpcb × AckScan) : Ikcpcb × AckScan :=
  segs.foldl (fun state seg => applySegment state.1 state.2 seg.1 seg.2) state

theorem applyAll_cons (seg : DecodedSeg) (rest : List DecodedSeg) (state : Ikcpcb × AckScan) :
    applyAll (seg :: rest) state = applyAll rest (applySegment state.1 state.2 seg.1 seg.2) := rfl

theorem applyAll_preserves (Inv : Ikcpcb → Prop) {segs : List DecodedSeg}
    (preserved : ∀ kcp scan, ∀ seg ∈ segs, Inv kcp → Inv (applySegment kcp scan seg.1 seg.2).1)
    {state : Ikcpcb × AckScan} (inv : Inv state.1) : Inv (applyAll segs state).1 := by
  induction segs generalizing state with
  | nil => exact inv
  | cons seg rest ih =>
      rw [applyAll_cons]
      exact ih (fun kcp scan other member => preserved kcp scan other (List.mem_cons_of_mem seg member))
        (preserved _ _ seg List.mem_cons_self inv)

theorem inputLoop_eq (fuel : Nat) (kcp : Ikcpcb) (scan : AckScan) (data : List UInt8) :
    inputLoop fuel kcp scan data =
      let decoded := decodeLoop kcp.conv fuel data
      let after := applyAll decoded.1 (kcp, scan)
      (after.1, after.2, decoded.2) := by
  induction fuel generalizing kcp scan data with
  | zero => rfl
  | succ fuel ih =>
      rw [inputLoop, decodeLoop]
      split
      · rfl
      · dsimp only
        split
        · rfl
        · split
          · rfl
          · split
            · rfl
            · have kept : (applySegment kcp scan (decodeHeader data)
                  ((data.drop ikcpOverhead).take (decodeHeader data).len.toNat)).1.conv = kcp.conv :=
                congrArg Setup.conv (applySegment_keeps kcp scan _ _).1
              simp only [ih, kept, applyAll_cons]

/-- What `ikcp_input` returns for these bytes. -/
def checkInput (conv : UInt32) (data : List UInt8) : Int32 :=
  if data.length < ikcpOverhead then -1 else (decodeLoop conv data.length data).2

theorem ikcpInput_result (kcp : Ikcpcb) (data : List UInt8) :
    (ikcpInput kcp data).2 = checkInput kcp.conv data := by
  rw [ikcpInput, checkInput]
  split
  · rfl
  · rw [inputLoop_eq]
    dsimp only
    split
    · rfl
    · rename_i success
      exact (Decidable.not_not.mp success).symm

/-- What `ikcp_input` makes of segments all of which pass its checks. -/
def inputSegs (kcp : Ikcpcb) (segs : List DecodedSeg) : Ikcpcb :=
  let (after, scan) := applyAll segs (kcp, {})
  let after := if scan.flag then ikcpParseFastack after scan.maxack else after
  if itimediff after.snd_una kcp.snd_una > 0 then growCwnd after else after

theorem ikcpInput_of_decoded {kcp : Ikcpcb} {data : List UInt8} {segs : List DecodedSeg}
    (header : ikcpOverhead ≤ data.length)
    (decoded : decodeLoop kcp.conv data.length data = (segs, 0)) :
    ikcpInput kcp data = (inputSegs kcp segs, 0) := by
  rw [ikcpInput, if_neg (Nat.not_lt.mpr header), inputLoop_eq, decoded]
  rfl

/-- Nothing is decoded unless the first segment passes. -/
theorem decodeLoop_of_not_passes {conv : UInt32} {data : List UInt8}
    (enough : ¬ data.length < ikcpOverhead) (fails : ¬ segmentPasses conv data) (fuel : Nat) :
    ∃ ret ≠ 0, decodeLoop conv (fuel + 1) data = ([], ret) := by
  rw [decodeLoop, if_neg enough]
  dsimp only
  by_cases same : (decodeHeader data).conv = conv
  · rw [if_neg (not_not_intro same)]
    by_cases truncated : (data.drop ikcpOverhead).length < (decodeHeader data).len.toNat ∨
        (decodeHeader data).len.toInt32 < 0
    · rw [if_pos truncated]
      exact ⟨-2, by decide, rfl⟩
    · have unknown : knownCmd (decodeHeader data).cmd = false := by
        rw [← Bool.not_eq_true]
        exact fun known => fails ⟨Nat.not_lt.mp enough, same, truncated, known⟩
      rw [if_neg truncated, if_pos unknown]
      exact ⟨-3, by decide, rfl⟩
  · rw [if_pos same]
    exact ⟨-1, by decide, rfl⟩

theorem ikcpInput_of_not_passes {kcp : Ikcpcb} {data : List UInt8}
    (fails : ¬ segmentPasses kcp.conv data) : (ikcpInput kcp data).1 = kcp := by
  unfold ikcpInput
  split
  · rfl
  · rename_i enough
    obtain ⟨fuel, size⟩ : ∃ fuel, data.length = fuel + 1 :=
      ⟨data.length - 1, by simp only [ikcpOverhead] at enough; omega⟩
    obtain ⟨ret, failed, stopped⟩ := decodeLoop_of_not_passes enough fails fuel
    rw [inputLoop_eq, size, stopped]
    exact congrArg Prod.fst (if_pos failed)

end FiberKcp.Ikcp
