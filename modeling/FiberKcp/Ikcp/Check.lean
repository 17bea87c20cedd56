import FiberKcp.Ikcp.Clock

namespace FiberKcp.Ikcp

open FiberKcp.Data

/-! `ikcp_check`, which says when to call `ikcp_update` next. -/

/-- The loop over `snd_buf`: `tm_packet`, or `none` where a segment is due. -/
def nearestResend (current : UInt32) : List IkcpSeg → Int → Option Int
  | [], tm_packet => some tm_packet
  | seg :: rest, tm_packet =>
      let diff := itimediff seg.resendts current
      if diff ≤ 0 then none
      else nearestResend current rest (if diff < tm_packet then diff else tm_packet)

def ikcpCheck (kcp : Ikcpcb) (current : UInt32) : UInt32 :=
  if kcp.updated = 0 then current
  else
    let late := itimediff current kcp.ts_flush ≥ 10000 ∨ itimediff current kcp.ts_flush < -10000
    let ts_flush := if late then current else kcp.ts_flush
    if itimediff current ts_flush ≥ 0 then current
    else
      let tm_flush := itimediff ts_flush current
      match nearestResend current kcp.snd_buf 0x7fffffff with
      | none => current
      | some tm_packet =>
          let minimal := UInt32.ofInt (if tm_packet < tm_flush then tm_packet else tm_flush)
          current + if minimal ≥ kcp.interval then kcp.interval else minimal

/-- A loop that calls `ikcp_update` whenever it wakes up, with the datagrams of
each round; `waits` are the pauses. -/
def pollAll (kcp : Ikcpcb) (now : UInt32) : List UInt32 → Ikcpcb × List (List (List UInt8))
  | [] => (kcp, [])
  | wait :: rest =>
      let (kcp, datagrams) := ikcpUpdate kcp now
      let (kcp, later) := pollAll kcp (now + wait) rest
      (kcp, datagrams :: later)

/-- The loop that leaves out the calls before the time `ikcp_check` gave it. -/
def pollDue (kcp : Ikcpcb) (now due : UInt32) :
    List UInt32 → Ikcpcb × List (List (List UInt8))
  | [] => (kcp, [])
  | wait :: rest =>
      if itimediff now due < 0 then
        let (kcp, later) := pollDue kcp (now + wait) due rest
        (kcp, [] :: later)
      else
        let (kcp, datagrams) := ikcpUpdate kcp now
        let (kcp, later) := pollDue kcp (now + wait) (ikcpCheck kcp now) rest
        (kcp, datagrams :: later)

/-- `due` lies ahead, and `ts_flush` is not nearer. -/
structure Pending (kcp : Ikcpcb) (now due : UInt32) : Prop where
  running : kcp.updated ≠ 0
  ahead : 0 < (due - now).toNat
  flush : (due - now).toNat ≤ (kcp.ts_flush - now).toNat
  near : (kcp.ts_flush - now).toNat ≤ 10000

section Pending

variable {kcp : Ikcpcb} {now due : UInt32}

theorem Pending.early (pending : Pending kcp now due) : Early now kcp.ts_flush := by
  have ahead := pending.ahead
  have flush := pending.flush
  have near := pending.near
  have nowBound := now.toNat_lt
  have flushBound := kcp.ts_flush.toNat_lt
  simp only [Early, itimediff, serialDiff_cases, UInt32.toNat_sub] at *
  split <;> omega

/-- After a pause the time has come, or it is nearer. -/
theorem Pending.wait (pending : Pending kcp now due) {wait : UInt32}
    (short : wait.toNat < 2 ^ 31) :
    Pending kcp (now + wait) due ∨ itimediff (now + wait) due ≥ 0 := by
  obtain ⟨running, ahead, flush, near⟩ := pending
  have nowBound := now.toNat_lt
  have dueBound := due.toNat_lt
  have flushBound := kcp.ts_flush.toNat_lt
  by_cases passed : (due - now).toNat ≤ wait.toNat
  · right
    simp only [itimediff, serialDiff_cases, UInt32.toNat_sub, UInt32.toNat_add] at *
    split <;> omega
  · left
    constructor
    · exact running
    all_goals
      simp only [UInt32.toNat_sub, UInt32.toNat_add] at *
      omega

theorem wait_due {wait : UInt32} (short : wait.toNat < 2 ^ 31) :
    itimediff (now + wait) now ≥ 0 := by
  have nowBound := now.toNat_lt
  simp only [itimediff, serialDiff_cases, UInt32.toNat_sub, UInt32.toNat_add]
  split <;> omega

end Pending

theorem nearestResend_pos {current : UInt32} (buffer : List IkcpSeg) {start tm_packet : Int}
    (positive : 0 < start) (found : nearestResend current buffer start = some tm_packet) :
    0 < tm_packet := by
  induction buffer generalizing start with
  | nil =>
      cases found
      exact positive
  | cons seg rest ih =>
      rw [nearestResend] at found
      split at found
      · contradiction
      · apply ih _ found
        split <;> omega

theorem Early.distance {ts_flush : UInt32} {now : UInt32} (early : Early now ts_flush) :
    itimediff ts_flush now = (ts_flush - now).toNat ∧ 0 < (ts_flush - now).toNat ∧
      (ts_flush - now).toNat ≤ 10000 := by
  have nowBound := now.toNat_lt
  have flushBound := ts_flush.toNat_lt
  simp only [Early, itimediff, serialDiff_cases, UInt32.toNat_sub] at *
  split at early <;> split <;> omega

/-- `ikcp_check` says now, or a time before which nothing is missed. -/
theorem ikcpCheck_cases (kcp : Ikcpcb) (now : UInt32) :
    ikcpCheck kcp now = now ∨ Pending kcp now (ikcpCheck kcp now) := by
  by_cases first : kcp.updated = 0
  · exact .inl (if_pos first)
  rw [ikcpCheck, if_neg first]
  dsimp only
  by_cases late : itimediff now kcp.ts_flush ≥ 10000 ∨ itimediff now kcp.ts_flush < -10000
  · left
    rw [if_pos late, if_pos]
    simp [itimediff, serialDiff_cases]
  rw [if_neg late]
  by_cases passed : itimediff now kcp.ts_flush ≥ 0
  · exact .inl (if_pos passed)
  rw [if_neg passed]
  have early : Early now kcp.ts_flush := ⟨by omega, by omega⟩
  obtain ⟨exact, positive, near⟩ := early.distance
  cases found : nearestResend now kcp.snd_buf 0x7fffffff with
  | none => exact .inl rfl
  | some tm_packet =>
      have packet := nearestResend_pos _ (by decide) found
      dsimp only
      rw [exact]
      generalize nearest : (if tm_packet < ((kcp.ts_flush - now).toNat : Int) then tm_packet
        else ((kcp.ts_flush - now).toNat : Int)) = minimal
      have bounds : 0 < minimal ∧ minimal ≤ (kcp.ts_flush - now).toNat := by
        split at nearest <;> omega
      have size : (UInt32.ofInt minimal).toNat = minimal.toNat := by
        rw [UInt32.ofInt, UInt32.toNat_ofNat']
        omega
      generalize waited : (if UInt32.ofInt minimal ≥ kcp.interval then kcp.interval
        else UInt32.ofInt minimal) = wait
      have within : wait.toNat ≤ minimal.toNat := by
        rw [← waited]
        split
        · rename_i larger
          rw [← size]
          exact UInt32.le_iff_toNat_le.mp larger
        · exact Nat.le_of_eq size
      have distance : (now + wait - now).toNat = wait.toNat := by
        rw [UInt32.add_comm, UInt32.add_sub_cancel]
      by_cases zero : wait = 0
      · left
        rw [zero, UInt32.add_zero]
      · right
        have some : wait.toNat ≠ 0 := fun none => zero (UInt32.toNat_inj.mp none)
        refine ⟨first, ?_, ?_, near⟩
        · omega
        · omega

/-- The block with another value for what the clock was last. -/
def Ikcpcb.withClock (kcp : Ikcpcb) (clock : UInt32) : Ikcpcb := { kcp with current := clock }

theorem ikcpUpdate_withClock (kcp : Ikcpcb) (clock now : UInt32) :
    ikcpUpdate (kcp.withClock clock) now = ikcpUpdate kcp now := rfl

theorem pollDue_eq {waits : List UInt32} (short : ∀ wait ∈ waits, wait.toNat < 2 ^ 31)
    {left right : Ikcpcb} (same : left.withClock 0 = right.withClock 0) {now due : UInt32}
    (waiting : Pending left now due ∨ itimediff now due ≥ 0) :
    (pollAll left now waits).2 = (pollDue right now due waits).2 ∧
      (pollAll left now waits).1.withClock 0 = (pollDue right now due waits).1.withClock 0 := by
  induction waits generalizing left right now due with
  | nil => exact ⟨rfl, same⟩
  | cons wait rest ih =>
      have pause := short wait List.mem_cons_self
      have later := fun other member => short other (List.mem_cons_of_mem wait member)
      by_cases ahead : itimediff now due < 0
      · -- the call that is left out would only note the clock
        rcases waiting with pending | passed
        · have quiet := ikcpUpdate_early pending.running pending.early
          have still : (left.withClock now).withClock 0 = right.withClock 0 := same
          have pendingNow : Pending (left.withClock now) now due :=
            ⟨pending.running, pending.ahead, pending.flush, pending.near⟩
          obtain ⟨datagrams, states⟩ := ih later still (pendingNow.wait pause)
          rw [pollAll, pollDue, if_pos ahead, quiet]
          exact ⟨congrArg ([] :: ·) datagrams, states⟩
        · omega
      · have updated : ikcpUpdate left now = ikcpUpdate right now := by
          rw [← ikcpUpdate_withClock left 0, same, ikcpUpdate_withClock]
        have next : Pending (ikcpUpdate right now).1 (now + wait)
              (ikcpCheck (ikcpUpdate right now).1 now) ∨
            itimediff (now + wait) (ikcpCheck (ikcpUpdate right now).1 now) ≥ 0 := by
          rcases ikcpCheck_cases (ikcpUpdate right now).1 now with here | pending
          · rw [here]
            exact .inr (wait_due pause)
          · exact pending.wait pause
        obtain ⟨datagrams, states⟩ := ih later rfl next
        rw [pollAll, pollDue, if_neg ahead, updated]
        exact ⟨congrArg (_ :: ·) datagrams, states⟩

/-- Calling `ikcp_update` only at the times `ikcp_check` gives sends the same
datagrams in the same rounds as calling it in every round. -/
theorem polling_at_check (kcp : Ikcpcb) (now : UInt32) {waits : List UInt32}
    (short : ∀ wait ∈ waits, wait.toNat < 2 ^ 31) :
    (pollDue kcp now (ikcpCheck kcp now) waits).2 = (pollAll kcp now waits).2 ∧
      ∀ clock, (pollDue kcp now (ikcpCheck kcp now) waits).1.withClock clock =
        (pollAll kcp now waits).1.withClock clock := by
  have waiting : Pending kcp now (ikcpCheck kcp now) ∨ itimediff now (ikcpCheck kcp now) ≥ 0 := by
    rcases ikcpCheck_cases kcp now with here | pending
    · right
      rw [here]
      simp [itimediff, serialDiff_cases]
    · exact .inl pending
  obtain ⟨datagrams, states⟩ := pollDue_eq short (rfl : kcp.withClock 0 = _) waiting
  exact ⟨datagrams.symm, fun clock => congrArg (·.withClock clock) states.symm⟩

/-- A segment is sent in the second of these rounds and, unanswered, again in
the fourth. -/
theorem polling_at_check_resent :
    let kcp := (ikcpSend (ikcpCreate 7) [1] 1).1
    (pollAll kcp 0 [100, 200, 100, 100]).2.map List.length = [0, 1, 0, 1] ∧
      (pollDue kcp 0 (ikcpCheck kcp 0) [100, 200, 100, 100]).2.map List.length =
        [0, 1, 0, 1] := by
  have sent : (pollAll (ikcpSend (ikcpCreate 7) [1] 1).1 0 [100, 200, 100, 100]).2.map
      List.length = [0, 1, 0, 1] := by decide +kernel
  refine ⟨sent, ?_⟩
  rw [(polling_at_check (ikcpSend (ikcpCreate 7) [1] 1).1 0 (by simp)).1]
  exact sent

end FiberKcp.Ikcp
