import FiberKcp.Ikcp.Messages

namespace FiberKcp.Ikcp

/-! How `ikcp_send` cuts a buffer, in message mode. -/

theorem fragmentCount_pos (mss len : Nat) : 0 < fragmentCount mss len := by
  unfold fragmentCount
  generalize (if len ≤ mss then 1 else (len + mss - 1) / mss) = count
  dsimp only
  split <;> omega

theorem le_fragmentCount_mul {mss : Nat} (positive : 0 < mss) (len : Nat) :
    len ≤ fragmentCount mss len * mss := by
  unfold fragmentCount
  by_cases single : len ≤ mss
  · simp [single]
  · have ceiling : len ≤ (len + mss - 1) / mss * mss := by
      have division := Nat.div_add_mod (len + mss - 1) mss
      have remainder := Nat.mod_lt (len + mss - 1) positive
      rw [Nat.mul_comm] at division
      omega
    have nonzero : (len + mss - 1) / mss ≠ 0 := by
      intro zero
      rw [zero] at ceiling
      omega
    simpa [single, nonzero] using ceiling

section Fragment

variable {mss : Nat}

@[simp] theorem length_fragment (stream : Bool) (count : Nat) (buffer : List UInt8) (len : Nat) :
    (fragment mss stream count buffer len).length = count := by
  induction count generalizing buffer len with
  | zero => rfl
  | succ count ih => simp [fragment, ih]

theorem fragment_countdown (count : Nat) (buffer : List UInt8) (len : Nat)
    (positive : 0 < count) (small : count ≤ 2 ^ 32) :
    Countdown (fragment mss false count buffer len) := by
  induction count generalizing buffer len with
  | zero => contradiction
  | succ left ih =>
      cases left with
      | zero => simp [fragment, Countdown]
      | succ left =>
          have later := ih (buffer.drop (if len > mss then mss else len))
            (len - if len > mss then mss else len) (by omega) (by omega)
          have serial : (UInt32.ofNat (left + 1)).toNat = left + 1 := by
            rw [UInt32.toNat_ofNat']
            omega
          rw [fragment] at later ⊢
          rw [fragment]
          refine ⟨?_, later⟩
          simpa using serial

theorem fragment_frg {count : Nat} {buffer : List UInt8} {len : Nat} (small : count ≤ 2 ^ 32) :
    ∀ seg ∈ fragment mss false count buffer len, seg.frg.toNat < count := by
  induction count generalizing buffer len with
  | zero => simp [fragment]
  | succ left ih =>
      intro seg member
      rcases List.mem_cons.mp member with rfl | member
      · have serial : (UInt32.ofNat left).toNat = left := by
          rw [UInt32.toNat_ofNat']
          omega
        simp [serial]
      · have below := ih (by omega) seg member
        omega

theorem fragment_data {stream : Bool} {count : Nat} {buffer : List UInt8} {len : Nat} :
    ∀ seg ∈ fragment mss stream count buffer len, seg.data.length ≤ mss := by
  induction count generalizing buffer len with
  | zero => simp [fragment]
  | succ left ih =>
      intro seg member
      rcases List.mem_cons.mp member with rfl | member
      · simp only [List.length_take]
        split <;> omega
      · exact ih seg member

theorem fragment_bytes {stream : Bool} {count : Nat} {buffer : List UInt8} {len : Nat}
    (room : len ≤ count * mss) :
    (fragment mss stream count buffer len).flatMap (·.data) = buffer.take len := by
  induction count generalizing buffer len with
  | zero =>
      have none : len = 0 := by omega
      simp [fragment, none]
  | succ left ih =>
      rw [Nat.succ_mul] at room
      rw [fragment, List.flatMap_cons]
      by_cases long : len > mss
      · simp only [long, if_true]
        rw [ih (by omega), ← List.take_add]
        congr 1
        omega
      · simp only [long, if_false]
        rw [ih (by omega)]
        simp

theorem fragment_take (stream : Bool) (count : Nat) (buffer : List UInt8) (len : Nat) :
    fragment mss stream count (buffer.take len) len = fragment mss stream count buffer len := by
  induction count generalizing buffer len with
  | zero => rfl
  | succ left ih =>
      have size : (if len > mss then mss else len) ≤ len := by
        split <;> omega
      simp only [fragment, List.take_take, Nat.min_eq_left size, List.drop_take, ih]

end Fragment

/-- From `kcp` to `after` only segments were appended to `snd_queue`. -/
structure Queued (kcp after : Ikcpcb) (segs : List IkcpSeg) : Prop where
  setup : after.setup = kcp.setup
  recvSide : after.recvSide = kcp.recvSide
  acklist : after.acklist = kcp.acklist
  buffer : after.snd_buf = kcp.snd_buf
  next : after.snd_nxt = kcp.snd_nxt
  queue : after.snd_queue = kcp.snd_queue ++ segs

/-- In message mode a buffer is refused or cut into the segments that are queued. -/
theorem ikcpSend_cases {kcp : Ikcpcb} (message : kcp.stream = 0) (buffer : List UInt8)
    (len : Int32) :
    (∃ ret < 0, ikcpSend kcp buffer len = (kcp, ret)) ∨
      0 ≤ len ∧ fragmentCount kcp.mss.toNat len.toInt.toNat < 128 ∧
        ∃ after, ikcpSend kcp buffer len = (after, 0) ∧
          Queued kcp after (fragment kcp.mss.toNat false
            (fragmentCount kcp.mss.toNat len.toInt.toNat) buffer len.toInt.toNat) := by
  unfold ikcpSend
  by_cases negative : len < 0
  · rw [if_pos negative]
    exact .inl ⟨-1, by decide, rfl⟩
  · rw [if_neg negative]
    have streaming : ¬ kcp.stream ≠ 0 := fun other => other message
    have bit : (kcp.stream != 0) = false := by simp [message]
    simp only [streaming, bit, if_false, false_and]
    split
    · exact .inl ⟨-2, by decide, rfl⟩
    · rename_i few
      exact .inr ⟨Int32.not_lt.mp negative, Nat.not_le.mp few, _, rfl, rfl, rfl, rfl, rfl, rfl, rfl⟩

theorem ikcpSend_refuses_iff {kcp : Ikcpcb} (message : kcp.stream = 0) (buffer : List UInt8)
    (len : Int32) : (ikcpSend kcp buffer len).2 < 0 ↔
      len < 0 ∨ 128 ≤ fragmentCount kcp.mss.toNat len.toInt.toNat := by
  unfold ikcpSend
  by_cases negative : len < 0
  · simp [negative]
  · have streaming : ¬ kcp.stream ≠ 0 := fun other => other message
    simp only [negative, streaming, if_false, false_and, false_or]
    split
    · rename_i many
      have error : (-2 : Int32) < 0 := by decide
      exact ⟨fun _ => many, fun _ => error⟩
    · rename_i few
      exact ⟨fun wrong => absurd wrong (by simp), fun many => absurd many few⟩

/-- `ikcp_send` reads `len` bytes of the buffer, whatever its size. -/
theorem ikcpSend_take {kcp : Ikcpcb} (message : kcp.stream = 0) (buffer : List UInt8)
    (len : Int32) : ikcpSend kcp (buffer.take len.toInt.toNat) len = ikcpSend kcp buffer len := by
  simp [ikcpSend, message, fragment_take]

end FiberKcp.Ikcp
