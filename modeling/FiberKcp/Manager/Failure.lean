import FiberKcp.Manager.Steps

namespace FiberKcp.Manager

open Data Timer

namespace KcpManager

variable {manager after : KcpManager} {tid : UInt32} {kcp cursor : Nat} {now : UInt64}
  {accepted : Bool}

/-! What a `NOTINIT` branch leaves behind when `EPOLL_CTL_ADD` fails. -/

/-- The slot, the timers and the counters are as they were. -/
structure Unchanged (before after : KcpManager) (kcp : Nat) : Prop where
  slot : after.context? (before.slot kcp) = before.context? (before.slot kcp)
  mTimers : after.timers.mTimers = before.timers.mTimers
  objects : ∀ id ∈ before.timers.mTimers, after.timers.timer id = before.timers.timer id
  mEventCount : after.mEventCount = before.mEventCount
  localEventCount : after.localEventCount = before.localEventCount

/-- What the branch does when it fails: the slot has lost its callback and names
this thread and the new timer, which stays in the set. -/
structure FailedBranch (before after : KcpManager) (kcp : Nat) (tid : UInt32) : Prop where
  slot : ∃ ctx, after.context? (before.slot kcp) = some ctx ∧ ctx.read = {} ∧ ctx.tid = tid ∧
    ctx.timerId = before.timers.gUniqueIdCount + 1
  mTimers : ∀ id, id ∈ after.timers.mTimers ↔
    id = before.timers.gUniqueIdCount + 1 ∨ id ∈ before.timers.mTimers
  objects : ∀ id ∈ before.timers.mTimers, after.timers.timer id = before.timers.timer id
  mEventCount : after.mEventCount = before.mEventCount
  localEventCount : after.localEventCount = before.localEventCount

theorem thread_step {step : ThreadStep}
    (stepped : manager.step (.thread tid step) = some after) :
    manager.idle tid (manager.stage tid) step = some after := by
  simp only [KcpManager.step, Option.ite_none_right_eq_some] at stepped
  exact stepped.2

theorem failedBranch (issued : manager.timers.Issued) (here : manager.stage tid = .passing cursor)
    (entry : manager.mWaitingQueue[cursor]? = some (kcp, .notinit)) (room : ¬ manager.full)
    (failure : ¬ manager.addSucceeds kcp accepted)
    (branch : execute step anyStep manager (notinitBranch tid now accepted) = some after) :
    FailedBranch manager after kcp tid := by
  simp only [notinitBranch, execute_cons] at branch
  obtain ⟨-, opened, first, -, bound, second, -, timed, third, -, last, fourth, ended⟩ := branch
  cases ended
  -- the slot is opened for this thread
  have first := thread_step first
  simp only [here, idle, visit, entry, if_neg room, Option.map_eq_some_iff] at first
  obtain ⟨grown, result, rfl⟩ := first
  obtain ⟨old, found, rfl⟩ := openContext_spec result
  have second := thread_step second
  simp only [setStage_self, idle, Option.bind_eq_some_iff, Option.map_eq_some_iff] at second
  obtain ⟨it, same, bound, result, rfl⟩ := second
  cases entry.symm.trans same
  obtain ⟨ctx, slot, rfl⟩ := Option.map_eq_some_iff.mp result
  cases (context?_setContext_self found).symm.trans slot
  -- the timer is added
  have third := thread_step third
  simp only [setStage_self, idle, Option.bind_eq_some_iff, Option.map_eq_some_iff] at third
  obtain ⟨it, same, timed, result, rfl⟩ := third
  cases entry.symm.trans same
  obtain ⟨ctx, timedSlot, rfl⟩ := Option.map_eq_some_iff.mp result
  cases (context?_setContext_self slot).symm.trans timedSlot
  -- and epoll refuses the descriptor
  have fourth := thread_step fourth
  simp only [setStage_self, idle, Option.bind_eq_some_iff] at fourth
  obtain ⟨it, same, result⟩ := fourth
  cases entry.symm.trans same
  obtain ⟨ctx, lastSlot, rfl⟩ := epollCtlAdd_failure result failure
  cases (context?_setContext_self timedSlot).symm.trans lastSlot
  refine ⟨⟨_, context?_setContext_self lastSlot, rfl, rfl, rfl⟩, ?_, ?_, rfl, rfl⟩
  · intro id
    exact issued.mem_addTimer _ _ _ _ _
  · intro id member
    have older : id ≠ manager.timers.gUniqueIdCount + 1 :=
      fun same => issued.fresh (same ▸ member)
    exact (KTimerManager.setTimer_timer_other _ _ older).trans
      (KTimerManager.addTimer_timer_other _ _ _ _ _ older)

/-- The manager is never as it was: the timer added for the descriptor that
epoll refused stays in `mTimers`. -/
theorem failed_registration_leaves_timer (issued : manager.timers.Issued)
    (here : manager.stage tid = .passing cursor)
    (entry : manager.mWaitingQueue[cursor]? = some (kcp, .notinit)) (room : ¬ manager.full)
    (failure : ¬ manager.addSucceeds kcp accepted)
    (branch : execute step anyStep manager (notinitBranch tid now accepted) = some after) :
    ¬ Unchanged manager after kcp := by
  intro unchanged
  have failed := failedBranch issued here entry room failure branch
  have stays := (failed.mTimers (manager.timers.gUniqueIdCount + 1)).mpr (.inl rfl)
  rw [unchanged.mTimers] at stays
  exact issued.fresh stays

theorem issued_of_run {mAttr : Nat → KcpAttr} {mBindTid : Nat → UInt32} {mThreadIds : List UInt32}
    {mThreadCount : UInt32} {allowed : KcpManager → ManagerEvent → Prop}
    {events : List ManagerEvent}
    (run : Run step allowed (start mAttr mBindTid mThreadIds mThreadCount) events manager) :
    manager.timers.Issued :=
  run.invariant (fun manager => manager.timers.Issued) KTimerManager.issued_initial
    fun issued _ stepped => (step_took stepped).issued issued

/-- A Kcp is registered, then added again. -/
def addTwice : List ManagerEvent :=
  [ManagerEvent.addKcp 0 (some 0)] ++ idleRound 1 (notinitBranch 1 0 true) ++
    [ManagerEvent.addKcp 1 (some 0), .thread 1 .lockQueue]

theorem failed_registration_leaves_timer_again :
    ∃ manager after, manager.stage 1 = .passing 0 ∧
      manager.mWaitingQueue[0]? = some (0, .notinit) ∧ ¬ manager.full ∧
      ¬ manager.addSucceeds 0 true ∧
      execute step anyStep manager (notinitBranch 1 1 true) = some after ∧
      ¬ Unchanged manager after 0 := by
  have executed : (execute step anyStep (start (fun _ => { fd := 4 }) (fun _ => 0) [1] 1)
      addTwice).any (fun manager => manager.stage 1 = .passing 0 ∧
        manager.mWaitingQueue[0]? = some (0, .notinit) ∧ ¬ manager.full ∧
        ¬ manager.addSucceeds 0 true ∧
        (execute step anyStep manager (notinitBranch 1 1 true)).isSome = true) = true := by
    decide +kernel
  obtain ⟨manager, run, checked⟩ := Run.exists_last executed
  obtain ⟨here, entry, room, failure, finished⟩ := of_decide_eq_true checked
  obtain ⟨after, branch⟩ := Option.isSome_iff_exists.mp finished
  exact ⟨manager, after, here, entry, room, failure, branch,
    failed_registration_leaves_timer (issued_of_run run) here entry room failure branch⟩

/-- The Kcp that was registered before is still in epoll and has no callback. -/
theorem registered_kcp_silenced :
    ∃ manager after, Run step anyStep (start (fun _ => { fd := 4 }) (fun _ => 0) [1] 1) addTwice
        manager ∧
      execute step anyStep manager (notinitBranch 1 1 true) = some after ∧
      manager.registered = [0] ∧ after.registered = [0] ∧ after.epoll = [4] ∧
      ¬ Unchanged manager after 0 := by
  have executed : (execute step anyStep (start (fun _ => { fd := 4 }) (fun _ => 0) [1] 1)
      addTwice).any (fun manager => manager.registered = [0] ∧
        (manager.context? (manager.slot 0)).any (·.read.cb.isSome) = true ∧
        (execute step anyStep manager (notinitBranch 1 1 true)).any (fun after =>
          after.registered = [0] ∧ after.epoll = [4] ∧
          (after.context? (manager.slot 0)).any (·.read.cb.isNone) = true) = true) = true := by
    decide +kernel
  obtain ⟨manager, run, checked⟩ := Run.exists_last executed
  obtain ⟨registered, bound, finished⟩ := of_decide_eq_true checked
  obtain ⟨after, branch, checked⟩ := (Option.any_eq_true _ _).mp finished
  obtain ⟨still, epoll, silent⟩ := of_decide_eq_true checked
  refine ⟨manager, after, run, branch, registered, still, epoll, fun unchanged => ?_⟩
  obtain ⟨ctx, slot, hasCb⟩ := (Option.any_eq_true _ _).mp bound
  obtain ⟨later, laterSlot, hasNone⟩ := (Option.any_eq_true _ _).mp silent
  rw [unchanged.slot, slot] at laterSlot
  cases laterSlot
  rw [Option.isNone_iff_eq_none.mp hasNone] at hasCb
  contradiction

end KcpManager

end FiberKcp.Manager
