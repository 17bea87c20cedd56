import FiberKcp.Ikcp.Flush

namespace FiberKcp.Ikcp

open FiberKcp.Data

/-! When a call of `ikcp_update` flushes: the clock passes through zero, and a
`ts_flush` more than ten seconds away is taken for an old one. -/

/-- `ikcp_update` does not flush yet: less than ten seconds are left. -/
def Early (now ts_flush : UInt32) : Prop :=
  -10000 ≤ itimediff now ts_flush ∧ itimediff now ts_flush < 0

theorem not_early_or (now ts_flush : UInt32) :
    ¬ Early now ts_flush ∨ ¬ Early (now + 10000) ts_flush := by
  have nowBound := now.toNat_lt
  have flushBound := ts_flush.toNat_lt
  have delay : (10000 : UInt32).toNat = 10000 := rfl
  simp only [Early, itimediff, serialDiff_cases, UInt32.toNat_sub, UInt32.toNat_add, delay]
  split <;> split <;> omega

/-- A clock value past `ts` at which a flush is due, unless `ts` is almost half
the range away. -/
theorem exists_clock_near {current ts : UInt32} (ts_flush : UInt32)
    (near : -2147473647 ≤ itimediff ts current ∧ itimediff ts current ≤ 2147473647) :
    ∃ now, itimediff now current ≥ 0 ∧ ¬ Early now ts_flush ∧ itimediff now ts ≥ 0 := by
  have currentBound := current.toNat_lt
  have tsBound := ts.toNat_lt
  have delay : (10000 : UInt32).toNat = 10000 := rfl
  obtain ⟨base, first, passed, second, passedToo⟩ : ∃ base, itimediff base current ≥ 0 ∧
      itimediff base ts ≥ 0 ∧ itimediff (base + 10000) current ≥ 0 ∧
      itimediff (base + 10000) ts ≥ 0 := by
    by_cases past : itimediff ts current < 0
    · refine ⟨current, ?_⟩
      simp only [itimediff, serialDiff_cases, UInt32.toNat_sub, UInt32.toNat_add, delay] at *
      refine ⟨?_, ?_, ?_, ?_⟩ <;> split <;> split at near <;> omega
    · refine ⟨ts, ?_⟩
      simp only [itimediff, serialDiff_cases, UInt32.toNat_sub, UInt32.toNat_add, delay] at *
      refine ⟨?_, ?_, ?_, ?_⟩ <;> split <;> split at near <;> omega
  rcases not_early_or base ts_flush with due | due
  · exact ⟨base, first, due, passed⟩
  · exact ⟨base + 10000, second, due, passedToo⟩

/-- Going forward, a flush is due past `ts` now, or at a later call whatever
`ts_flush` is by then. -/
theorem exists_clock (current ts_flush ts : UInt32) :
    ∃ now, itimediff now current ≥ 0 ∧ ¬ Early now ts_flush ∧ (itimediff now ts ≥ 0 ∨
      ∀ next_flush, ∃ later, itimediff later now ≥ 0 ∧ ¬ Early later next_flush ∧
        itimediff later ts ≥ 0) := by
  by_cases near : -2147473647 ≤ itimediff ts current ∧ itimediff ts current ≤ 2147473647
  · obtain ⟨now, forward, due, passed⟩ := exists_clock_near ts_flush near
    exact ⟨now, forward, due, .inl passed⟩
  · have currentBound := current.toNat_lt
    have tsBound := ts.toNat_lt
    have pause : (20002 : UInt32).toNat = 20002 := rfl
    -- half the range away: some seconds on, `ts` lies ahead
    have later : ∀ delay : UInt32, delay.toNat = 0 ∨ delay.toNat = 10000 →
        itimediff (current + 20002 + delay) current ≥ 0 ∧
          -2147473647 ≤ itimediff ts (current + 20002 + delay) ∧
          itimediff ts (current + 20002 + delay) ≤ 2147473647 := by
      intro delay amounts
      simp only [itimediff, serialDiff_cases, UInt32.toNat_sub, UInt32.toNat_add, pause] at *
      refine ⟨?_, ?_, ?_⟩ <;> split <;> split at near <;> omega
    rcases not_early_or (current + 20002) ts_flush with due | due
    · obtain ⟨forward, closer⟩ := later 0 (.inl rfl)
      rw [UInt32.add_zero] at forward closer
      exact ⟨_, forward, due, .inr fun next_flush => exists_clock_near next_flush closer⟩
    · obtain ⟨forward, closer⟩ := later 10000 (.inr rfl)
      exact ⟨_, forward, due, .inr fun next_flush => exists_clock_near next_flush closer⟩

/-- Before its time `ikcp_update` only notes the clock. -/
theorem ikcpUpdate_early {kcp : Ikcpcb} {now : UInt32} (running : kcp.updated ≠ 0)
    (early : Early now kcp.ts_flush) :
    ikcpUpdate kcp now = ({ kcp with current := now }, []) := by
  obtain ⟨close, ahead⟩ := early
  have inTime : ¬ (itimediff now kcp.ts_flush ≥ 10000 ∨ itimediff now kcp.ts_flush < -10000) := by
    omega
  rw [ikcpUpdate]
  simp only [if_neg running, if_neg inTime, if_neg (Int.not_le.mpr ahead)]

end FiberKcp.Ikcp
