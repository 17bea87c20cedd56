import Mathlib.Tactic.SplitIfs
import FiberKcp.Manager.Registrations
import FiberKcp.Timer.Scan

namespace FiberKcp.Manager

open Data Timer

/-! The interval of a Kcp, as the protocol keeps it and as its timer does. -/

/-- The interval that `ikcp_nodelay` leaves in the control block. -/
def protocolInterval (attr : KcpAttr) : UInt32 := (Kcp.init attr).mKcpHandle.interval

theorem ikcpNodelay_interval (kcp : Ikcp.Ikcpcb) (nodelay interval resend nc : Int32) :
    (Ikcp.ikcpNodelay kcp nodelay interval resend nc).interval =
      if interval ≥ 0 then
        if interval > 5000 then 5000 else if interval < 10 then 10 else interval.toUInt32
      else kcp.interval := by
  unfold Ikcp.ikcpNodelay
  extract_lets timed paced resent
  have timedKept : timed.interval = kcp.interval := by
    simp only [timed, apply_ite Ikcp.Ikcpcb.interval, ite_self]
  have pacedSet : paced.interval = if interval ≥ 0 then
      if interval > 5000 then 5000 else if interval < 10 then 10 else interval.toUInt32
      else kcp.interval := by
    simp only [paced, apply_ite Ikcp.Ikcpcb.interval, timedKept]
  have resentKept : resent.interval = paced.interval := by
    simp only [resent, apply_ite Ikcp.Ikcpcb.interval, ite_self]
  rw [apply_ite Ikcp.Ikcpcb.interval, ite_self, resentKept, pacedSet]

theorem protocolInterval_eq (attr : KcpAttr) : protocolInterval attr =
    if attr.interval ≥ 0 then
      if attr.interval > 5000 then 5000 else if attr.interval < 10 then 10
      else attr.interval.toUInt32
    else Ikcp.ikcpInterval := by
  have created : ∀ conv sndwnd rcvwnd,
      (Ikcp.ikcpWndsize (Ikcp.ikcpCreate conv) sndwnd rcvwnd).interval = Ikcp.ikcpInterval := by
    intro conv sndwnd rcvwnd
    unfold Ikcp.ikcpWndsize
    dsimp only
    split <;> split <;> rfl
  rw [protocolInterval, Kcp.init, ikcpNodelay_interval, created]

/-- The conversion of the attribute to `uint32_t`, as the timer reads it. -/
theorem toInt_interval (interval : Int32) : interval.toInt =
    if 2 * interval.toUInt32.toNat < 2 ^ 32 then (interval.toUInt32.toNat : Int)
    else interval.toUInt32.toNat - 2 ^ 32 :=
  BitVec.toInt_eq_toNat_cond interval.toBitVec

theorem interval_agrees_iff (attr : KcpAttr) :
    attr.interval.toUInt32 ≠ 0 ∧ attr.interval.toUInt32 ≤ protocolInterval attr ↔
      1 ≤ attr.interval ∧ attr.interval ≤ 5000 := by
  have signed := toInt_interval attr.interval
  have bounded := attr.interval.toUInt32.toNat_lt
  have clamped : (protocolInterval attr).toNat =
      if 0 ≤ attr.interval.toInt then
        if 5000 < attr.interval.toInt then 5000 else if attr.interval.toInt < 10 then 10
        else attr.interval.toUInt32.toNat
      else 100 := by
    rw [protocolInterval_eq]
    simp only [ge_iff_le, gt_iff_lt, Int32.le_iff_toInt_le, Int32.lt_iff_toInt_lt,
      apply_ite UInt32.toNat]
    rfl
  have one : (1 : Int32).toInt = 1 := by decide
  have most : (5000 : Int32).toInt = 5000 := by decide
  rw [Int32.le_iff_toInt_le, Int32.le_iff_toInt_le, UInt32.le_iff_toNat_le, clamped, Ne,
    ← UInt32.toNat_inj, UInt32.toNat_zero, one, most]
  split at signed <;> split_ifs <;> omega

namespace KcpManager

variable {manager after : KcpManager} {event : ManagerEvent} {tid : UInt32} {kcp id : Nat}

/-- The timer runs the Kcp's `outputRoutine` again and again, at the interval of
the protocol or a shorter one. -/
structure Flushes (manager : KcpManager) (kcp id : Nat) : Prop where
  present : id ∈ manager.timers.mTimers
  routine : (manager.timers.timer id).mCb = some (.plain (.outputRoutine kcp))
  periodic : (manager.timers.timer id).mRecycleTime ≠ 0
  survives : ∀ now, id ∈ (manager.timers.listExpiredTimer now).1.mTimers
  next : ∀ now, ((manager.timers.listExpiredTimer now).1.timer id).mTime.toNat ≤
    (manager.timers.timer id).mTime.toNat + (protocolInterval (manager.mAttr kcp)).toNat

/-- The steps after which the timers agree with the protocol: a `NOTINIT` branch
begins with an interval from 1 to 5000 and in a slot that no registered Kcp has,
and a `REMOVE` branch deletes no timer of another registered Kcp. -/
def keepsInterval (manager : KcpManager) : ManagerEvent → Prop
  | .thread tid .visit => manager.freshSlot (.thread tid .visit) ∧
      (∀ opened ∈ manager.opens tid,
        1 ≤ (manager.mAttr opened).interval ∧ (manager.mAttr opened).interval ≤ 5000) ∧
      ∀ it ∈ manager.it? tid, it.2 = .remove → manager.mBindTid it.1 = tid →
        ∀ other ∈ manager.registered, other ≠ it.1 →
          (manager.context? (manager.slot other)).map Context.timerId ≠
            (manager.context? (manager.slot it.1)).map Context.timerId
  | _ => True

instance (manager : KcpManager) (event : ManagerEvent) :
    Decidable (manager.keepsInterval event) :=
  match event with
  | .thread tid .visit => inferInstanceAs (Decidable (_ ∧ (∀ opened ∈ manager.opens tid, _ ∧ _) ∧
      ∀ it ∈ manager.it? tid, it.2 = .remove → manager.mBindTid it.1 = tid →
        ∀ other ∈ manager.registered, other ≠ it.1 → _ ≠ _))
  | .addKcp _ _ | .delKcp _ | .close _
  | .thread _ .lockQueue | .thread _ .bindCallback | .thread _ (.addTimer _)
  | .thread _ (.epollCtlAdd _) | .thread _ (.getNearTimeout _) | .thread _ (.epollWait _)
  | .thread _ .interrupted | .thread _ .retry | .thread _ (.listExpiredTimer _)
  | .thread _ .schedule | .thread _ .dispatch | .thread _ .yield | .thread _ .begin
  | .thread _ .finish => inferInstanceAs (Decidable True)

theorem freshSlot_of_keepsInterval (permitted : manager.keepsInterval event) :
    manager.freshSlot event := by
  unfold freshSlot
  split
  · exact permitted.1
  · trivial

/-- The timer as the `NOTINIT` branch has set it up. -/
structure Output (manager : KcpManager) (kcp id : Nat) : Prop where
  present : id ∈ manager.timers.mTimers
  routine : (manager.timers.timer id).mCb = some (.plain (.outputRoutine kcp))
  recycle : (manager.timers.timer id).mRecycleTime =
    (manager.mAttr kcp).interval.toUInt32.toUInt64

theorem Output.unique {other : Nat} (output : manager.Output kcp id)
    (also : manager.Output other id) : kcp = other := by
  have same := output.routine.symm.trans also.routine
  simpa using same

theorem Output.periodic (output : manager.Output kcp id)
    (accepted : 1 ≤ (manager.mAttr kcp).interval ∧ (manager.mAttr kcp).interval ≤ 5000) :
    (manager.timers.timer id).mRecycleTime ≠ 0 := by
  have nonzero := ((interval_agrees_iff (manager.mAttr kcp)).mpr accepted).1
  rw [output.recycle]
  exact mt KTimerManager.toUInt64_eq_zero.mp nonzero

theorem Output.flushes (issued : manager.timers.Issued) (output : manager.Output kcp id)
    (accepted : 1 ≤ (manager.mAttr kcp).interval ∧ (manager.mAttr kcp).interval ≤ 5000) :
    manager.Flushes kcp id := by
  have within := ((interval_agrees_iff (manager.mAttr kcp)).mpr accepted).2
  have periodic := output.periodic accepted
  have goesBack : KTimerManager.goesBack (manager.timers.timer id) :=
    ⟨by rw [output.routine]; rfl, periodic⟩
  refine ⟨output.present, output.routine, periodic, fun now => ?_, fun now => ?_⟩
  · exact ((issued.listExpiredTimer now).mem_iff _).mpr ⟨output.present, fun _ => goesBack⟩
  · rw [KTimerManager.listExpiredTimer_timer issued]
    split
    · rw [KTimer.update, if_pos periodic, output.recycle, UInt64.toNat_add, UInt32.toNat_toUInt64]
      rw [UInt32.le_iff_toNat_le] at within
      exact Nat.le_trans (Nat.mod_le _ _) (Nat.add_le_add_left within _)
    · exact Nat.le_add_right _ _

theorem inPass_of_timed {stage : Stage} (isTimed : timed stage = true) : stage.inPass = true := by
  cases stage <;> first | rfl | cases isTimed

theorem Took.timed_of_registered (took : Took manager event after)
    (registered : kcp ∈ after.registered) : manager.Timed kcp := by
  cases took with
  | remove thread cursor removed member here entry own ctx found =>
      exact .inl (List.mem_filter.mp registered).1
  | enroll thread accepted cursor timerId it member here entry success =>
      rcases List.mem_insert_iff.mp registered with rfl | before
      · exact .inr ⟨thread, by rw [here]; rfl, installing_of_stage (by rw [here]; rfl) entry⟩
      · exact .inl before
  | _ => exact .inl registered

/-- A Kcp gets its timer at the end of an `addTimer` step only. -/
theorem Took.timed_cases (took : Took manager event after) (holding : manager.Holding)
    (isTimed : after.Timed kcp) : manager.Timed kcp ∨
      ∃ thread now, event = .thread thread (.addTimer now) ∧
        manager.installing thread = some kcp := by
  rcases isTimed with registered | ⟨tid, stage, installing⟩
  · exact .inl (took.timed_of_registered registered)
  · by_cases acting : event.thread? = some tid
    · cases took with
      | stay event call unmarked => exact .inl (.inr ⟨tid, stage, installing⟩)
      | insert mEventCount added free => cases acting
      | mark marked free => cases acting
      | close fd => cases acting
      | time thread now cursor it member here entry ctx found =>
          cases acting
          obtain ⟨position, working, pointed⟩ := Option.bind_eq_some_iff.mp installing
          rw [setStage_self] at working
          cases working
          cases (congrArg (Option.map Prod.fst) entry).symm.trans pointed
          exact .inr ⟨tid, now, rfl, installing_of_stage (by rw [here]; rfl) entry⟩
      | remove thread cursor removed member here entry own ctx found =>
          cases acting
          have passing : timed (manager.stage tid) = true := stage
          rw [here] at passing
          cases passing
      | drop thread cursor removed member here entry foreign =>
          cases acting
          have passing : timed (manager.stage tid) = true := stage
          rw [here] at passing
          cases passing
      | move thread step next member plain outside bare =>
          cases acting
          rw [setStage_self] at stage
          exact nomatch bare.1.symm.trans (inPass_of_timed stage)
      | _ =>
          cases acting
          rw [setStage_self] at stage
          cases stage
    · rw [took.stage_other acting] at stage
      obtain ⟨position, working, pointed⟩ := Option.bind_eq_some_iff.mp installing
      rw [took.stage_other acting] at working
      have same := took.samePass holding (Stage.inPass_of_installs working) acting
      rw [same.mWaitingQueue] at pointed
      exact .inl (.inr ⟨tid, stage, Option.bind_eq_some_iff.mpr ⟨position, working, pointed⟩⟩)

/-- What the runs keep. -/
structure Flushing (manager : KcpManager) : Prop extends Placed manager where
  accepted : ∀ kcp, manager.Served kcp →
    1 ≤ (manager.mAttr kcp).interval ∧ (manager.mAttr kcp).interval ≤ 5000
  output : ∀ kcp, manager.Timed kcp →
    ∃ ctx, manager.context? (manager.slot kcp) = some ctx ∧ manager.Output kcp ctx.timerId

theorem Flushing.named_output (flushing : manager.Flushing) (isTimed : manager.Timed kcp)
    {ctx : Context} (found : manager.context? (manager.slot kcp) = some ctx) :
    manager.Output kcp ctx.timerId := by
  obtain ⟨other, otherFound, output⟩ := flushing.output kcp isTimed
  cases found.symm.trans otherFound
  exact output

/-- While a thread is at an entry of the queue no timer is being set up. -/
theorem Holding.not_timed (holding : manager.Holding) {thread : UInt32}
    (pass : (manager.stage thread).inPass = true) (unset : timed (manager.stage thread) = false)
    (tid : UInt32) : timed (manager.stage tid) = false := by
  cases isTimed : timed (manager.stage tid) with
  | false => rfl
  | true =>
      have held := holding tid (inPass_of_timed isTimed)
      cases held.symm.trans (holding thread pass)
      exact nomatch unset.symm.trans isTimed

/-- Only the end of its registration takes a Kcp's timer away. -/
theorem Flushing.output_kept (flushing : manager.Flushing)
    (permitted : manager.keepsInterval event) (took : Took manager event after)
    (isTimed : manager.Timed kcp) {own : Context}
    (named : manager.context? (manager.slot kcp) = some own)
    (output : manager.Output kcp own.timerId) (still : after.Timed kcp) :
    after.Output kcp own.timerId := by
  have issued := flushing.issued
  have attributes : after.mAttr = manager.mAttr := took.mAttr
  suffices kept : own.timerId ∈ after.timers.mTimers ∧
      (after.timers.timer own.timerId).mCb = (manager.timers.timer own.timerId).mCb ∧
        (after.timers.timer own.timerId).mRecycleTime =
          (manager.timers.timer own.timerId).mRecycleTime from
    ⟨kept.1, kept.2.1.trans output.routine, by rw [kept.2.2, output.recycle, attributes]⟩
  cases took with
  | remove thread cursor removed member here entry bound ctx found =>
      have it : manager.it? thread = some (removed, .remove) := by
        rw [it?, here]
        exact entry
      rcases still with kept | ⟨tid, stage, _⟩
      · obtain ⟨registered, apart⟩ := List.mem_filter.mp kept
        have different := permitted.2.2 _ it rfl bound kcp registered (of_decide_eq_true apart)
        have untouched : own.timerId ≠ ctx.timerId := by
          simpa [named, found] using different
        exact ⟨issued.mem_delTimer.mpr ⟨output.present, untouched⟩, rfl, rfl⟩
      · have unset := flushing.holding.not_timed (by rw [here]; rfl) (by rw [here]; rfl) tid
        exact nomatch unset.symm.trans stage
  | time thread now cursor it member here entry ctx found =>
      have different : own.timerId ≠ manager.timers.gUniqueIdCount + 1 :=
        fun same => issued.fresh (same ▸ output.present)
      have object : (manager.addOutputTimer it.1 thread now).1.timer own.timerId =
          manager.timers.timer own.timerId :=
        KTimerManager.addTimer_timer_other _ _ _ _ _ different
      exact ⟨(issued.mem_addTimer _ _ _ _ _).mpr (.inr output.present),
        congrArg KTimer.mCb object, congrArg KTimer.mRecycleTime object⟩
  | giveUp thread accepted cursor timerId it member here entry failure ctx found =>
      have installing := installing_of_stage (by rw [here]; rfl) entry
      have different : own.timerId ≠ timerId := by
        rintro rfl
        obtain ⟨other, otherFound, sameId⟩ := flushing.named thread cursor _ it.1 here installing
        have its := flushing.named_output (.inr ⟨thread, by rw [here]; rfl, installing⟩) otherFound
        rw [sameId] at its
        cases output.unique its
        rcases still with registered | ⟨tid, stage, _⟩
        · exact flushing.apart thread it.1 installing it.1 registered rfl
        · by_cases acting : tid = thread
          · subst acting
            rw [setStage_self] at stage
            exact nomatch stage
          · rw [setStage_other acting] at stage
            have held := flushing.holding tid (inPass_of_timed stage)
            cases held.symm.trans (flushing.holding thread (by rw [here]; rfl))
            exact acting rfl
      have object : (manager.timers.setTimer timerId
          (manager.timers.timer timerId).cancel).timer own.timerId =
            manager.timers.timer own.timerId :=
        KTimerManager.setTimer_timer_other _ _ different
      exact ⟨output.present, congrArg KTimer.mCb object, congrArg KTimer.mRecycleTime object⟩
  | near thread now member here => exact ⟨output.present, rfl, rfl⟩
  | expire thread now events member here =>
      have periodic := output.periodic (flushing.accepted kcp isTimed.served)
      have goesBack : KTimerManager.goesBack (manager.timers.timer own.timerId) :=
        ⟨by rw [output.routine]; rfl, periodic⟩
      exact ⟨((issued.listExpiredTimer now).mem_iff _).mpr
          ⟨output.present, fun _ => goesBack⟩, (issued.listExpiredTimer now).mCb _,
        KTimerManager.mRecycleTime_listExpiredTimer issued now _⟩
  | _ => exact ⟨output.present, rfl, rfl⟩

theorem Flushing.output_step (flushing : manager.Flushing)
    (permitted : manager.keepsInterval event) (took : Took manager event after)
    (isTimed : after.Timed kcp) :
    ∃ ctx, after.context? (after.slot kcp) = some ctx ∧ after.Output kcp ctx.timerId := by
  rcases took.timed_cases flushing.holding isTimed with before | ⟨thread, now, rfl, installing⟩
  · obtain ⟨ctx, found, output⟩ := flushing.output kcp before
    obtain ⟨later, laterFound, same⟩ := flushing.timerId_kept took before found
    have kept := flushing.output_kept permitted took before found output isTimed
    exact ⟨later, laterFound, same ▸ kept⟩
  · cases took with
    | stay event call unmarked => contradiction
    | move thread step next member plain outside bare => contradiction
    | time thread now cursor it member here entry ctx found =>
        have same := installing_eq (by rw [here]; rfl) entry installing
        subst same
        have object : (manager.addOutputTimer it.1 thread now).1.timer
            (manager.timers.gUniqueIdCount + 1) = KTimer.construct now
              (manager.mAttr it.1).interval.toInt64.toUInt64 (some (.plain (.outputRoutine it.1)))
              (manager.mAttr it.1).interval.toUInt32 thread (manager.timers.gUniqueIdCount + 1) :=
          KTimerManager.setTimer_timer_self ..
        refine ⟨_, context?_setContext_self found, ?_, congrArg KTimer.mCb object,
          congrArg KTimer.mRecycleTime object⟩
        exact (flushing.issued.mem_addTimer _ _ _ _ _).mpr (.inl rfl)

theorem Flushing.accepted_step (flushing : manager.Flushing)
    (permitted : manager.keepsInterval event) (took : Took manager event after)
    (served : after.Served kcp) :
    1 ≤ (after.mAttr kcp).interval ∧ (after.mAttr kcp).interval ≤ 5000 := by
  rw [took.mAttr]
  rcases served with registered | ⟨tid, _, installing⟩
  · exact flushing.accepted kcp (took.timed_of_registered registered).served
  · rcases took.installing_cases flushing.holding installing with before | ⟨rfl, opens⟩
    · exact flushing.accepted kcp (.inr ⟨tid, rfl, before⟩)
    · exact permitted.2.1 kcp opens

theorem Flushing.step (flushing : manager.Flushing) (permitted : manager.keepsInterval event)
    (took : Took manager event after) : after.Flushing where
  toPlaced := flushing.toPlaced.step (freshSlot_of_keepsInterval permitted) took
  accepted := fun _ => flushing.accepted_step permitted took
  output := fun _ => flushing.output_step permitted took

theorem flushing_start {mAttr : Nat → KcpAttr} {mBindTid : Nat → UInt32}
    {mThreadIds : List UInt32} {mThreadCount : UInt32} :
    (start mAttr mBindTid mThreadIds mThreadCount).Flushing where
  toPlaced := placed_start
  accepted := nofun
  output := nofun

/-- In every state of a run whose steps are as described, the slot of each
registered Kcp names a timer that flushes it. -/
theorem outputTimer_flushes {mAttr : Nat → KcpAttr} {mBindTid : Nat → UInt32}
    {mThreadIds : List UInt32} {mThreadCount : UInt32} {events : List ManagerEvent}
    (run : Run step keepsInterval (start mAttr mBindTid mThreadIds mThreadCount) events manager)
    (registered : kcp ∈ manager.registered) :
    ∃ ctx, manager.context? (manager.slot kcp) = some ctx ∧ manager.Flushes kcp ctx.timerId := by
  have flushing : manager.Flushing := run.invariant Flushing flushing_start
    fun before permitted stepped => before.step permitted (step_took stepped)
  obtain ⟨ctx, found, output⟩ := flushing.output kcp (.inl registered)
  exact ⟨ctx, found, output.flushes flushing.issued (flushing.accepted kcp (.inl registered))⟩

/-- One Kcp with the given interval, registered by the only thread. -/
def oneKcp (interval : Int32) : KcpManager :=
  start (fun _ => { fd := 4, interval := interval }) (fun _ => 0) [1] 1

def oneRound : List ManagerEvent :=
  [ManagerEvent.addKcp 0 (some 0)] ++ idleRound 1 (notinitBranch 1 0 true)

/-- The default interval. -/
theorem outputTimer_flushes_default :
    ∃ last, Run step keepsInterval (oneKcp 100) oneRound last ∧
      ∃ ctx, last.context? (last.slot 0) = some ctx ∧ last.Flushes 0 ctx.timerId := by
  refine Run.exists_shown (fun last => 0 ∈ last.registered) (by decide +kernel)
    fun last run registered => ?_
  exact outputTimer_flushes run registered

/-- With interval 0 the timer is a one-shot: it is gone after its first firing. -/
theorem zero_interval_stops :
    ∃ last, Run step anyStep (oneKcp 0) oneRound last ∧ 0 ∈ last.registered ∧
      ¬ ∃ ctx, last.context? (last.slot 0) = some ctx ∧ last.Flushes 0 ctx.timerId := by
  refine Run.exists_shown (fun last => 0 ∈ last.registered ∧ last.timers.mTimers = [])
    (by decide +kernel) fun last run found => ?_
  obtain ⟨registered, empty⟩ := found
  refine ⟨registered, ?_⟩
  rintro ⟨ctx, _, flushes⟩
  exact nomatch empty ▸ flushes.present

end KcpManager

end FiberKcp.Manager
