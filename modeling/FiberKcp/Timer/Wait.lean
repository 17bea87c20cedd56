import FiberKcp.Timer.Order

namespace FiberKcp.Timer

open FiberKcp.Data

/-! The wait of `KcpManager::idle()`: `stopping` reads the distance to the
nearest deadline, and the loop around `epoll_wait` passes it as an `int`. -/

/-- The conversion of `timeoutms` to the parameter of `epoll_wait`. -/
def epollTimeout (timeoutms : UInt64) : Int32 := timeoutms.toUInt32.toInt32

/-- The calls of the loop with their clocks and timeouts.  The first call is at
`clock`; each of `retries` is the clock after an `EINTR` and a `Yeild2Hold`. -/
def epollWaits (timeoutms clock : UInt64) : List UInt64 → List (UInt64 × Int32)
  | [] => [(clock, epollTimeout timeoutms)]
  | next :: rest => (clock, epollTimeout timeoutms) :: epollWaits timeoutms next rest

theorem mem_epollWaits {timeoutms clock : UInt64} {retries : List UInt64}
    {call : UInt64 × Int32} : call ∈ epollWaits timeoutms clock retries ↔
      call.1 ∈ clock :: retries ∧ call.2 = epollTimeout timeoutms := by
  induction retries generalizing clock with
  | nil => simp [epollWaits, Prod.ext_iff]
  | cons next rest ih =>
      rw [epollWaits, List.mem_cons, ih, Prod.ext_iff, ← or_and_right, ← List.mem_cons]

theorem toInt_epollTimeout (timeoutms : UInt64) :
    (epollTimeout timeoutms).toInt =
      if timeoutms.toNat % 2 ^ 32 < 2 ^ 31 then (timeoutms.toNat % 2 ^ 32 : Int)
      else timeoutms.toNat % 2 ^ 32 - 2 ^ 32 := by
  have word : (epollTimeout timeoutms).toBitVec.toNat = timeoutms.toNat % 2 ^ 32 := by
    simp [epollTimeout]
  rw [← Int32.toInt_toBitVec, BitVec.toInt_eq_toNat_cond, word]
  split <;> split <;> omega

namespace KTimerManager

variable {Action : Type} {manager : KTimerManager Action}

/-- `KcpManager::stopping`: the timeout it stores and what it returns. -/
def stopping (manager : KTimerManager Action) (now : UInt64) (schedulerStopping : Bool) :
    UInt64 × Bool :=
  let timeout := (manager.getNearTimeout now).2
  (timeout, timeout == 0xffffffffffffffff && schedulerStopping)

/-- The waits of one pass of `idle()`, which is left when `stopping` is true. -/
def idleWaits (manager : KTimerManager Action) (now : UInt64) (schedulerStopping : Bool)
    (clock : UInt64) (retries : List UInt64) : List (UInt64 × Int32) :=
  if (manager.stopping now schedulerStopping).2 then []
  else epollWaits (manager.stopping now schedulerStopping).1 clock retries

/-- No call waits for ever, and none waits past a deadline by more than the time
between `getNearTimeout` and the first call. -/
def NeverOutlasts (manager : KTimerManager Action) (now clock : UInt64)
    (calls : List (UInt64 × Int32)) : Prop :=
  ∀ call ∈ calls, 0 ≤ call.2.toInt ∧ ∀ id ∈ manager.mTimers,
    (call.1.toNat : Int) + call.2.toInt ≤
      (manager.timer id).mTime.toNat + (clock.toNat - now.toNat)

/-- A distance that an `int` holds after the reduction modulo 2^32, with retries
no later than what the reduction takes off it. -/
def Holdable (deadline now : UInt64) (schedulerStopping : Bool) (clock : UInt64)
    (retries : List UInt64) : Prop :=
  deadline.toNat - now.toNat = 2 ^ 64 - 1 ∧ schedulerStopping = true ∨
    now ≤ deadline ∧ (deadline.toNat - now.toNat) % 2 ^ 32 < 2 ^ 31 ∧
      ∀ retry ∈ retries,
        retry.toNat ≤ clock.toNat + (deadline.toNat - now.toNat) / 2 ^ 32 * 2 ^ 32

variable {front : Nat} {others : List Nat}

theorem Increasing.front_nearest (increasing : manager.Increasing)
    (nonempty : manager.mTimers = front :: others) :
    ∀ id ∈ manager.mTimers, (manager.timer front).mTime ≤ (manager.timer id).mTime := by
  intro id member
  rw [Increasing, nonempty] at increasing
  rw [nonempty] at member
  rcases List.mem_cons.mp member with rfl | later
  · exact UInt64.le_refl _
  · exact KTimer.mTime_le_of_comparator ((List.pairwise_cons.mp increasing).1 id later)

theorem toNat_getNearTimeout (nonempty : manager.mTimers = front :: others) (now : UInt64) :
    (manager.getNearTimeout now).2.toNat = (manager.timer front).mTime.toNat - now.toNat := by
  rw [getNearTimeout, nonempty]
  dsimp only
  split
  · rename_i overdue
    rw [UInt64.le_iff_toNat_le] at overdue
    rw [UInt64.toNat_zero]
    omega
  · rename_i ahead
    exact UInt64.toNat_sub_of_le _ _ (UInt64.le_of_lt (UInt64.not_le.mp ahead))

theorem stopping_iff (nonempty : manager.mTimers = front :: others) (now : UInt64)
    (schedulerStopping : Bool) : (manager.stopping now schedulerStopping).2 = true ↔
      (manager.timer front).mTime.toNat - now.toNat = 2 ^ 64 - 1 ∧ schedulerStopping = true := by
  rw [stopping, Bool.and_eq_true, beq_iff_eq, ← UInt64.toNat_inj,
    toNat_getNearTimeout nonempty now]
  rfl

theorem neverOutlasts_epollWaits (increasing : manager.Increasing)
    (nonempty : manager.mTimers = front :: others) (timeoutms now clock : UInt64)
    (retries : List UInt64) :
    manager.NeverOutlasts now clock (epollWaits timeoutms clock retries) ↔
      0 ≤ (epollTimeout timeoutms).toInt ∧ ∀ called ∈ clock :: retries,
        (called.toNat : Int) + (epollTimeout timeoutms).toInt ≤
          (manager.timer front).mTime.toNat + (clock.toNat - now.toNat) := by
  have frontMember : front ∈ manager.mTimers := nonempty ▸ List.mem_cons_self
  constructor
  · intro never
    have first := never (clock, epollTimeout timeoutms) (mem_epollWaits.mpr (by simp))
    refine ⟨first.1, fun called member => ?_⟩
    exact (never (called, epollTimeout timeoutms) (mem_epollWaits.mpr ⟨member, rfl⟩)).2 front
      frontMember
  · rintro ⟨nonneg, inTime⟩ call member
    obtain ⟨called, timeout⟩ := mem_epollWaits.mp member
    rw [timeout]
    refine ⟨nonneg, fun id isTimer => ?_⟩
    have nearest := increasing.front_nearest nonempty id isTimer
    rw [UInt64.le_iff_toNat_le] at nearest
    have := inTime call.1 called
    omega

/-- The wait never outlasts the nearest timer exactly when the distance to it is
one that the `int` holds and no retry re-uses it late. -/
theorem neverOutlasts_iff (increasing : manager.Increasing)
    (nonempty : manager.mTimers = front :: others) (now : UInt64) (schedulerStopping : Bool)
    (clock : UInt64) (retries : List UInt64) :
    manager.NeverOutlasts now clock (manager.idleWaits now schedulerStopping clock retries) ↔
      Holdable (manager.timer front).mTime now schedulerStopping clock retries := by
  by_cases stops : (manager.stopping now schedulerStopping).2 = true
  · have noCall : manager.idleWaits now schedulerStopping clock retries = [] := if_pos stops
    have held : Holdable (manager.timer front).mTime now schedulerStopping clock retries :=
      .inl ((stopping_iff nonempty now schedulerStopping).mp stops)
    simp [noCall, held, NeverOutlasts]
  · have calls : manager.idleWaits now schedulerStopping clock retries =
        epollWaits (manager.getNearTimeout now).2 clock retries := if_neg stops
    have goesOn := mt (stopping_iff nonempty now schedulerStopping).mpr stops
    rw [calls, neverOutlasts_epollWaits increasing nonempty, toInt_epollTimeout,
      toNat_getNearTimeout nonempty now, Holdable, or_iff_right goesOn, List.forall_mem_cons,
      UInt64.le_iff_toNat_le]
    have bounded := (manager.timer front).mTime.toNat_lt
    by_cases fits : ((manager.timer front).mTime.toNat - now.toNat) % 2 ^ 32 < 2 ^ 31
    · rw [if_pos fits]
      constructor
      · rintro ⟨_, first, later⟩
        refine ⟨by omega, fits, fun retry member => ?_⟩
        have := later retry member
        omega
      · rintro ⟨ahead, _, later⟩
        refine ⟨by omega, by omega, fun retry member => ?_⟩
        have := later retry member
        omega
    · rw [if_neg fits]
      constructor
      · rintro ⟨nonneg, _⟩
        omega
      · rintro ⟨_, held, _⟩
        exact absurd held fits

/-- One timer 10 ms ahead, no interruption. -/
theorem neverOutlasts_uninterrupted :
    NeverOutlasts ((initial : KTimerManager Nat).addTimer 0 10 (some (.plain 7)) 0 0).1 0 0
      (idleWaits ((initial : KTimerManager Nat).addTimer 0 10 (some (.plain 7)) 0 0).1 0 false 0
        []) :=
  (neverOutlasts_iff (sorted_initial.addTimer 0 10 (some (.plain 7)) 0 0).increasing rfl 0 false 0
    []).mpr (.inr ⟨by decide, by decide, by simp⟩)

/-- A retry 5 ms later waits for the 10 ms again. -/
theorem retry_outlasts :
    ¬ ∀ (manager : KTimerManager Nat) (now : UInt64) (schedulerStopping : Bool) (clock : UInt64)
      (retries : List UInt64), manager.Increasing → manager.mTimers ≠ [] →
        manager.NeverOutlasts now clock
          (manager.idleWaits now schedulerStopping clock retries) := by
  intro always
  have never := always ((initial : KTimerManager Nat).addTimer 0 10 (some (.plain 7)) 0 0).1 0 false
    0 [5] (sorted_initial.addTimer 0 10 (some (.plain 7)) 0 0).increasing (by decide)
  have late := (never (5, 10) (by decide)).2 1 (by decide)
  exact absurd late (by decide)

end KTimerManager

end FiberKcp.Timer
