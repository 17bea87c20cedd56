import FiberKcp.Timer.Scan

namespace FiberKcp.Timer

open FiberKcp.Data

namespace KTimerManager

variable {Action : Type} {manager after : KTimerManager Action} {id : Nat}

/-- The steps that move the deadline of a timer by its recycle time only, and
then to a sum that 64 bits hold. -/
def Undisturbed (id : Nat) (manager : KTimerManager Action) : TimerOperation Action → Prop
  | .listExpiredTimer now => id ∈ manager.returned (.listExpiredTimer now) →
      (manager.timer id).mTime.toNat + (manager.timer id).mRecycleTime.toNat < 2 ^ 64
  | .cancel target | .setNextTime target _ | .reset target .. => target ≠ id
  | _ => True

theorem toNat_mTime_update {timer : KTimer Action}
    (fits : timer.mTime.toNat + timer.mRecycleTime.toNat < 2 ^ 64) :
    timer.update.mTime.toNat = timer.mTime.toNat + timer.mRecycleTime.toNat := by
  rw [KTimer.update]
  split
  · exact (UInt64.toNat_add ..).trans (Nat.mod_eq_of_lt fits)
  · rename_i oneShot
    rw [not_not.mp oneShot]
    rfl

/-- A handed out timer with its deadline at `bound` or later. -/
structure NotBefore (manager : KTimerManager Action) (id bound : Nat) : Prop
    extends Issued manager where
  older : id ≤ manager.gUniqueIdCount
  deadline : bound ≤ (manager.timer id).mTime.toNat

theorem NotBefore.onHandle {bound target : Nat} (notBefore : manager.NotBefore id bound)
    (write : KTimer Action → KTimer Action) (wrote : manager.onHandle target write = some after)
    (kept : ∀ timer, (write timer).mUniqueId = timer.mUniqueId)
    (later : target = id → (manager.timer id).mTime ≤ (write (manager.timer id)).mTime) :
    after.NotBefore id bound := by
  have issued := notBefore.toIssued.onHandle write wrote kept
  obtain ⟨_, rfl⟩ := Option.ite_some_none_eq_some.mp wrote
  refine ⟨issued, notBefore.older, ?_⟩
  by_cases here : id = target
  · subst here
    rw [setTimer_timer_self]
    exact Nat.le_trans notBefore.deadline (UInt64.le_iff_toNat_le.mp (later rfl))
  · rw [setTimer_timer_other _ _ here]
    exact notBefore.deadline

theorem NotBefore.addTimer {bound : Nat} (notBefore : manager.NotBefore id bound)
    (now ms : UInt64) (cb : Option (CallBack Action)) (recycle tid : UInt32) :
    (manager.addTimer now ms cb recycle tid).1.NotBefore id bound := by
  refine ⟨notBefore.toIssued.addTimer .., Nat.le_succ_of_le notBefore.older, ?_⟩
  have different : id ≠ manager.gUniqueIdCount + 1 :=
    Nat.ne_of_lt (Nat.lt_succ_of_le notBefore.older)
  rw [addTimer_timer_other now ms cb recycle tid different]
  exact notBefore.deadline

theorem NotBefore.perform {bound : Nat} {operation : TimerOperation Action}
    (notBefore : manager.NotBefore id bound) (permitted : Undisturbed id manager operation)
    (performed : manager.perform operation = some after) : after.NotBefore id bound := by
  cases operation with
  | addTimer now ms cb recycle tid =>
      cases performed
      exact notBefore.addTimer now ms (cb.map .plain) recycle tid
  | addConditionTimer now ms cb cond recycle =>
      cases performed
      exact notBefore.addTimer now ms (some (.onTimer cond cb)) recycle 0
  | delTimer timerId =>
      cases performed
      exact ⟨notBefore.toIssued.delTimer timerId, notBefore.older, notBefore.deadline⟩
  | listExpiredTimer now =>
      cases performed
      refine ⟨(notBefore.toIssued.listExpiredTimer now).toIssued, ?_, ?_⟩
      · rw [(notBefore.toIssued.listExpiredTimer now).count]
        exact notBefore.older
      · have deadline := notBefore.deadline
        rw [listExpiredTimer_timer notBefore.toIssued]
        split
        · rename_i isReturned
          rw [toNat_mTime_update (permitted isReturned)]
          omega
        · exact deadline
  | getNearTimeout now =>
      cases performed
      exact ⟨⟨⟨notBefore.unique, notBefore.counted⟩, notBefore.nodup⟩, notBefore.older,
        notBefore.deadline⟩
  | cancel target =>
      exact notBefore.onHandle KTimer.cancel performed (fun _ => rfl)
        fun here => absurd here permitted
  | setNextTime target timeMs =>
      exact notBefore.onHandle (·.setNextTime timeMs) performed (fun _ => rfl)
        fun here => absurd here permitted
  | setRecycleTime target ms =>
      exact notBefore.onHandle (·.setRecycleTime ms) performed (fun _ => rfl)
        fun _ => UInt64.le_refl _
  | setCallback target cb =>
      exact notBefore.onHandle (·.setCallback (cb.map .plain)) performed (fun _ => rfl)
        fun _ => UInt64.le_refl _
  | reset target now ms cb recycle tid =>
      exact notBefore.onHandle (·.reset now ms (cb.map .plain) recycle tid) performed
        (fun timer => timer.reset_mUniqueId now ms _ recycle tid) fun here => absurd here permitted

theorem NotBefore.run {bound : Nat} {operations : List (TimerOperation Action)}
    (notBefore : manager.NotBefore id bound)
    (run : Run KTimerManager.perform (Undisturbed id) manager operations after) :
    after.NotBefore id bound :=
  run.invariant (fun reached => reached.NotBefore id bound) notBefore
    fun kept permitted performed => kept.perform permitted performed

theorem NotBefore.le_of_returned {bound : Nat} (notBefore : manager.NotBefore id bound)
    {now : UInt64} (isReturned : id ∈ manager.returned (.listExpiredTimer now)) :
    bound ≤ now.toNat :=
  Nat.le_trans notBefore.deadline (mTime_le_of_returned isReturned)

/-- A timer whose deadlines 64 bits hold is not returned before the delay it was
added with is over, nor after a firing before its recycle time is over. -/
theorem never_early {created middle last : KTimerManager Action} {now ms firing : UInt64}
    {cb : Option (CallBack Action)} {recycle tid : UInt32}
    {earlier first second : List (TimerOperation Action)}
    (reached : Run perform anyStep initial earlier created)
    (fits : now.toNat + ms.toNat < 2 ^ 64)
    (run : Run perform (Undisturbed (created.gUniqueIdCount + 1))
      (created.addTimer now ms cb recycle tid).1 first middle)
    (permitted : Undisturbed (created.gUniqueIdCount + 1) middle (.listExpiredTimer firing))
    (again : Run perform (Undisturbed (created.gUniqueIdCount + 1))
      (middle.listExpiredTimer firing).1 second last) :
    (∀ clock, created.gUniqueIdCount + 1 ∈ middle.returned (.listExpiredTimer clock) →
        now.toNat + ms.toNat ≤ clock.toNat) ∧
      (created.gUniqueIdCount + 1 ∈ middle.returned (.listExpiredTimer firing) →
        ∀ clock, created.gUniqueIdCount + 1 ∈ last.returned (.listExpiredTimer clock) →
          (middle.timer (created.gUniqueIdCount + 1)).mTime.toNat +
            (middle.timer (created.gUniqueIdCount + 1)).mRecycleTime.toNat ≤ clock.toNat) := by
  have added : (created.addTimer now ms cb recycle tid).1.NotBefore (created.gUniqueIdCount + 1)
      (now.toNat + ms.toNat) := by
    refine ⟨(issued_of_run reached).addTimer now ms cb recycle tid, Nat.le_refl _, ?_⟩
    have constructed : (created.addTimer now ms cb recycle tid).1.timer
        (created.gUniqueIdCount + 1) =
          KTimer.construct now ms cb recycle tid (created.gUniqueIdCount + 1) :=
      setTimer_timer_self ..
    rw [constructed, KTimer.construct, UInt64.toNat_add, Nat.mod_eq_of_lt fits]
  have pending := added.run run
  refine ⟨fun _ => pending.le_of_returned, fun isFired clock isReturned => ?_⟩
  have advanced : (middle.listExpiredTimer firing).1.NotBefore (created.gUniqueIdCount + 1)
      ((middle.timer (created.gUniqueIdCount + 1)).mTime.toNat +
        (middle.timer (created.gUniqueIdCount + 1)).mRecycleTime.toNat) := by
    refine ⟨(pending.toIssued.listExpiredTimer firing).toIssued, ?_, ?_⟩
    · rw [(pending.toIssued.listExpiredTimer firing).count]
      exact pending.older
    · rw [listExpiredTimer_timer pending.toIssued, if_pos isFired,
        toNat_mTime_update (permitted isFired)]
  exact (advanced.run again).le_of_returned isReturned

/-- A timer of period 5 added at clock 1 with delay 10 and returned at clock 12. -/
theorem never_early_periodic :
    (∀ clock : UInt64,
        1 ∈ ((initial : KTimerManager Nat).addTimer 1 10 (some (.plain 7)) 5 0).1.returned
          (.listExpiredTimer clock) → 11 ≤ clock.toNat) ∧
      (1 ∈ ((initial : KTimerManager Nat).addTimer 1 10 (some (.plain 7)) 5 0).1.returned
          (.listExpiredTimer 12) →
        ∀ clock : UInt64,
          1 ∈ (((initial : KTimerManager Nat).addTimer 1 10 (some (.plain 7)) 5
            0).1.listExpiredTimer 12).1.returned (.listExpiredTimer clock) →
          11 + 5 ≤ clock.toNat) :=
  never_early .nil (by decide) .nil (fun _ => by decide) .nil

/-- The interval -1 of a Kcp is a delay of 2^64 - 1 ms, and its deadline is past. -/
theorem negative_interval_fires_at_once :
    ¬ ∀ (created : KTimerManager Nat) (earlier : List (TimerOperation Nat)) (now clock : UInt64)
      (interval : Int32) (cb : Nat), Run perform anyStep initial earlier created →
      created.gUniqueIdCount + 1 ∈ (created.addTimer now interval.toInt64.toUInt64
          (some (.plain cb)) interval.toUInt32 0).1.returned (.listExpiredTimer clock) →
        now.toNat + interval.toInt64.toUInt64.toNat ≤ clock.toNat := by
  intro always
  exact absurd (always initial [] 1 1 (-1) 7 .nil (by decide)) (by decide)

end KTimerManager

end FiberKcp.Timer
