import Mathlib.Data.List.TakeWhile
import FiberKcp.Timer.Schedule

namespace FiberKcp.Timer

open FiberKcp.Data

namespace KTimerManager

variable {Action : Type} {manager after : KTimerManager Action} {id other : Nat}

theorem Issued.onHandle (issued : manager.Issued) {target : Nat}
    (write : KTimer Action → KTimer Action) (wrote : manager.onHandle target write = some after)
    (kept : ∀ timer, (write timer).mUniqueId = timer.mUniqueId) : after.Issued := by
  obtain ⟨_, rfl⟩ := Option.ite_some_none_eq_some.mp wrote
  exact issued.setTimer ((kept _).trans (issued.unique target))

theorem Issued.perform (issued : manager.Issued) {operation : TimerOperation Action}
    (performed : manager.perform operation = some after) : after.Issued := by
  cases operation with
  | addTimer now ms cb recycle tid =>
      cases performed
      exact issued.addTimer now ms (cb.map .plain) recycle tid
  | addConditionTimer now ms cb cond recycle =>
      cases performed
      exact issued.addTimer now ms (some (.onTimer cond cb)) recycle 0
  | delTimer timerId =>
      cases performed
      exact issued.delTimer timerId
  | listExpiredTimer now =>
      cases performed
      exact (issued.listExpiredTimer now).toIssued
  | getNearTimeout now =>
      cases performed
      exact ⟨⟨issued.unique, issued.counted⟩, issued.nodup⟩
  | cancel target => exact issued.onHandle KTimer.cancel performed fun _ => rfl
  | setNextTime target timeMs =>
      exact issued.onHandle (·.setNextTime timeMs) performed fun _ => rfl
  | setRecycleTime target ms => exact issued.onHandle (·.setRecycleTime ms) performed fun _ => rfl
  | setCallback target cb =>
      exact issued.onHandle (·.setCallback (cb.map .plain)) performed fun _ => rfl
  | reset target now ms cb recycle tid =>
      exact issued.onHandle (·.reset now ms (cb.map .plain) recycle tid) performed
        fun timer => timer.reset_mUniqueId now ms _ recycle tid

theorem issued_of_run {operations : List (TimerOperation Action)}
    (run : Run perform anyStep initial operations manager) : manager.Issued :=
  run.invariant _ issued_initial fun issued _ performed => issued.perform performed

/-- A call advances the timers it returns and no others. -/
theorem listExpiredTimer_timer (issued : manager.Issued) (now : UInt64) (id : Nat) :
    (manager.listExpiredTimer now).1.timer id =
      if id ∈ manager.returned (.listExpiredTimer now) then (manager.timer id).update
      else manager.timer id := by
  rw [(issued.listExpiredTimer now).timer]
  simp only [mem_returned_iff]
  by_cases reached : manager.Reached id now
  · simp [reached, fired]
  · simp [reached]

theorem mTime_le_of_returned {now : UInt64}
    (isReturned : id ∈ manager.returned (.listExpiredTimer now)) :
    (manager.timer id).mTime.toNat ≤ now.toNat :=
  (due_iff_toNat now).mp (List.mem_takeWhile_imp (List.mem_of_mem_filter isReturned))

theorem mRecycleTime_listExpiredTimer (issued : manager.Issued) (now : UInt64) (id : Nat) :
    ((manager.listExpiredTimer now).1.timer id).mRecycleTime =
      (manager.timer id).mRecycleTime := by
  rw [listExpiredTimer_timer issued]
  split
  · rw [KTimer.update]
    split <;> rfl
  · rfl

end KTimerManager

end FiberKcp.Timer
