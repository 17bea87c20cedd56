import FiberKcp.Data.Tally
import FiberKcp.Scheduler.Deadlines

namespace FiberKcp.Scheduler

open Data FiberKcp.Fiber Timer

/-! What is left to do when `stopping()` lets a thread leave. -/

/-- A thread in this phase is counted in `mActiveThreadCount`. -/
def Phase.active (released : Bool) : Phase → Bool
  | .scan | .requeue _ | .setHold _ => false
  | .returned _ => !released
  | _ => true

namespace TimerScheduler

def active (manager : TimerScheduler) (tid : Int) : Bool :=
  (manager.poll.core.worker tid).phase.active (manager.released tid)

/-- The thread is no longer counted, but has not finished with the task it took:
it still has to look at the state of a fiber that did not end, to put it back
into the queue or to set it to `HOLD`. -/
def unfinished (manager : TimerScheduler) (tid : Int) : Bool :=
  match (manager.poll.core.worker tid).phase with
  | .requeue _ | .setHold _ => true
  | .returned slice =>
      manager.released tid &&
        (manager.poll.core.mState slice.fiber != .term &&
          manager.poll.core.mState slice.fiber != .except)
  | _ => false

/-- No timer is pending, no task is queued, and no thread holds one. -/
structure Drained (manager : TimerScheduler) : Prop where
  timers : manager.timers.mTimers = []
  queue : manager.poll.core.mFiberQueue = []
  held : ∀ tid ∈ manager.poll.core.mThreadIds,
    manager.active tid = false ∧ manager.unfinished tid = false

end TimerScheduler

/-- When `stopping()` is about to return true, no timer was added since the
thread's `getNearTimeout`, and no thread is between its `--mActiveThreadCount`
and what it still does with the task. -/
def stopsAtRest (manager : TimerScheduler) : TimerEvent → Prop
  | .poll (.exit tid) =>
      manager.outdated tid = false ∧
        ∀ other ∈ manager.poll.core.mThreadIds, manager.unfinished other = false
  | _ => True

instance (manager : TimerScheduler) (event : TimerEvent) :
    Decidable (stopsAtRest manager event) := by
  unfold stopsAtRest
  split <;> infer_instance

namespace KScheduler

variable {scheduler after : KScheduler} {tid : Int}

/-- The next phase of a thread that steps by itself. -/
inductive NextPhase : Phase → Phase → Prop where
  | none : NextPhase .scan .scan
  | take (ft : FiberBindThread) : NextPhase .scan (.dispatch ft)
  | drop (ft : FiberBindThread) : NextPhase (.dispatch ft) .scan
  | resume (ft : FiberBindThread) (slice : Slice) : NextPhase (.dispatch ft) (.swapIn slice)
  | swapIn (slice : Slice) : NextPhase (.swapIn slice) (.switchIn slice)
  | switchIn (slice next : Slice) : NextPhase (.switchIn slice) (.running next)
  | swapOut (slice : Slice) (ended : Bool) : NextPhase (.swapOut slice ended) (.returned slice)
  | ready (slice : Slice) : NextPhase (.returned slice) (.requeue slice)
  | hold (slice : Slice) : NextPhase (.returned slice) (.setHold slice)
  | ended (slice : Slice) : NextPhase (.returned slice) .scan
  | requeue (slice : Slice) : NextPhase (.requeue slice) .scan
  | setHold (slice : Slice) : NextPhase (.setHold slice) .scan

theorem phase_setPhase (phase : Phase) :
    ((scheduler.setPhase tid phase).worker tid).phase = phase := by
  rw [worker_setPhase_self]

theorem nextPhase_threadloop (stepped : scheduler.threadloop tid = some after) :
    NextPhase (scheduler.worker tid).phase (after.worker tid).phase := by
  unfold threadloop at stepped
  cases phase : (scheduler.worker tid).phase with
  | scan =>
      simp only [phase] at stepped
      cases stepped
      unfold scan
      split
      · rw [phase]
        exact .none
      · rw [phase_setPhase]
        exact .take _
  | dispatch ft =>
      simp only [phase, dispatch] at stepped
      split at stepped
      · split at stepped <;> cases stepped <;> rw [phase_setPhase]
        · exact .resume ft _
        · exact .drop ft
      · split at stepped
        · split at stepped
          · cases stepped
            rw [phase_setPhase]
            exact .resume ft _
          · contradiction
        · cases stepped
          rw [phase_setPhase]
          exact .resume ft _
  | swapIn slice =>
      simp only [phase, swapIn] at stepped
      split at stepped
      · contradiction
      · cases stepped
        rw [phase_setPhase]
        exact .swapIn slice
  | switchIn slice =>
      simp only [phase, switchIn] at stepped
      split at stepped
      · contradiction
      · cases stepped
        rw [phase_setPhase]
        exact .switchIn slice _
  | running slice =>
      simp only [phase] at stepped
      contradiction
  | swapOut slice ended =>
      simp only [phase] at stepped
      cases stepped
      rw [swapOut, phase_setPhase]
      exact .swapOut slice ended
  | returned slice =>
      simp only [phase] at stepped
      cases stepped
      unfold returned
      split
      · rw [phase_setPhase]
        exact .ready slice
      · split <;> rw [phase_setPhase] <;> exact .ended slice
      · split <;> rw [phase_setPhase] <;> exact .ended slice
      · rw [phase_setPhase]
        exact .hold slice
      · rw [phase_setPhase]
        exact .hold slice
  | requeue slice =>
      simp only [phase] at stepped
      cases stepped
      rw [requeue, phase_setPhase]
      exact .requeue slice
  | setHold slice =>
      simp only [phase] at stepped
      cases stepped
      rw [setHold, phase_setPhase]
      exact .setHold slice

end KScheduler

namespace PollScheduler

variable {manager after : PollScheduler} {tid : Int}

/-- The phases of the threads are as before. -/
structure SameWork (manager after : PollScheduler) : Prop where
  ids : after.core.mThreadIds = manager.core.mThreadIds
  phase : ∀ tid, (after.core.worker tid).phase = (manager.core.worker tid).phase

/-- One thread goes to its next phase. -/
structure WorkOf (manager after : PollScheduler) (tid : Int) : Prop where
  ids : after.core.mThreadIds = manager.core.mThreadIds
  others : ∀ other ≠ tid, (after.core.worker other).phase = (manager.core.worker other).phase
  next : KScheduler.NextPhase (manager.core.worker tid).phase (after.core.worker tid).phase

theorem workOf_loop (stepped : manager.loop tid = some after) : WorkOf manager after tid := by
  have decided : ∀ (next : PollScheduler) needed, WorkOf manager next tid →
      WorkOf manager (next.decideTickle tid needed) tid := by
    intro next needed work
    unfold decideTickle
    split
    · exact ⟨work.ids, work.others, work.next⟩
    · exact work
  unfold PollScheduler.loop at stepped
  dsimp only at stepped
  split at stepped
  · rename_i phase
    cases stepped
    have scanned := manager.core.scanned tid
    refine decided _ _ ⟨scanned.ids, fun other different =>
      congrArg Worker.phase (scanned.others other different), ?_⟩
    exact KScheduler.nextPhase_threadloop (by rw [KScheduler.threadloop, phase]; rfl)
  · rename_i slice phase
    cases stepped
    refine decided _ _ ⟨KScheduler.release_mThreadIds .., fun other different => ?_, ?_⟩
    · change ((manager.core.requeue tid slice).worker other).phase = _
      rw [KScheduler.requeue, KScheduler.worker_setPhase_other _ _ _ different,
        KScheduler.phase_release]
      rfl
    · exact KScheduler.nextPhase_threadloop (by rw [KScheduler.threadloop, phase])
  · rename_i notScan notRequeue
    obtain ⟨core, moved, rfl⟩ := Option.map_eq_some_iff.mp stepped
    have turn := KScheduler.turn_threadloop notScan notRequeue moved
    exact ⟨turn.ids, turn.others, KScheduler.nextPhase_threadloop moved⟩

theorem sameWork_advance (away : manager.place tid ≠ .loop)
    (stepped : manager.advance tid = some after) : SameWork manager after := by
  unfold PollScheduler.advance at stepped
  cases place : manager.place tid with
  | loop => exact absurd place away
  | poll =>
      simp only [place] at stepped
      split at stepped <;> cases stepped <;> exact ⟨rfl, fun _ => rfl⟩
  | woken fd =>
      cases fd <;> simp only [place] at stepped <;> cases stepped <;> exact ⟨rfl, fun _ => rfl⟩
  | count =>
      simp only [place] at stepped
      cases stepped
      exact ⟨rfl, fun _ => rfl⟩
  | uncount =>
      simp only [place] at stepped
      cases stepped
      exact ⟨rfl, fun _ => rfl⟩
  | _ =>
      simp only [place] at stepped
      contradiction

theorem sameWork_step {event : PollEvent} (stepped : manager.step event = some after)
    (advance : ∀ tid, event ≠ .advance tid) (leave : ∀ tid how, event ≠ .leave tid how) :
    SameWork manager after := by
  cases event with
  | advance tid => exact absurd rfl (advance tid)
  | leave tid how => exact absurd rfl (leave tid how)
  | newFiber =>
      cases stepped
      exact ⟨rfl, fun _ => rfl⟩
  | stop =>
      cases stepped
      exact ⟨rfl, fun _ => rfl⟩
  | schedule tid tasks =>
      simp only [PollScheduler.step] at stepped
      split at stepped
      · obtain ⟨core, pushed, rfl⟩ := Option.map_eq_some_iff.mp stepped
        rw [KScheduler.schedule_all pushed, PollScheduler.decideTickle]
        split <;> exact ⟨rfl, fun _ => rfl⟩
      · contradiction
  | tickle tid =>
      simp only [PollScheduler.step] at stepped
      split at stepped <;> cases stepped
      exact ⟨rfl, fun _ => rfl⟩
  | testIdle tid =>
      simp only [PollScheduler.step, PollScheduler.testIdle] at stepped
      split at stepped
      · cases stepped
        split <;> exact ⟨rfl, fun _ => rfl⟩
      · contradiction
  | write tid woken =>
      simp only [PollScheduler.step, PollScheduler.write] at stepped
      split at stepped
      · split at stepped <;> cases stepped
        exact ⟨rfl, fun _ => rfl⟩
      · contradiction
  | _ =>
      simp only [PollScheduler.step] at stepped
      split at stepped <;> cases stepped
      exact ⟨rfl, fun _ => rfl⟩

end PollScheduler

namespace TimerScheduler

variable {manager after : TimerScheduler} {tid : Int}

structure Tallied (manager : TimerScheduler) : Prop where
  counted : manager.mActiveThreadCount = tally manager.poll.core.mThreadIds manager.active
  released : ∀ tid, manager.released tid = true →
    ∃ slice, (manager.poll.core.worker tid).phase = .returned slice
  empty : ∀ tid, manager.near tid = .read none → manager.outdated tid = false →
    manager.timers.mTimers = []

theorem tallied_start (mThreadIds : List Int) (user : Bool) : Tallied (start mThreadIds user) := by
  refine ⟨(tally_eq_zero.mpr fun _ _ => rfl).symm, fun _ set => ?_, fun _ near _ => ?_⟩
  · cases set
  · cases near

/-- The phases and the counter are as before, and the timers where they matter. -/
theorem Tallied.frame (tallied : Tallied manager)
    (same : PollScheduler.SameWork manager.poll after.poll)
    (count : after.mActiveThreadCount = manager.mActiveThreadCount)
    (released : after.released = manager.released)
    (empty : ∀ tid, after.near tid = .read none → after.outdated tid = false →
      after.timers.mTimers = []) : Tallied after := by
  have active : after.active = manager.active := by
    funext tid
    unfold TimerScheduler.active
    rw [same.phase, released]
  refine ⟨?_, fun tid set => ?_, empty⟩
  · rw [count, tallied.counted, same.ids, active]
  · rw [same.phase]
    exact tallied.released tid (released ▸ set)

/-- A thread goes on and the counter with it. -/
theorem Tallied.work (tallied : Tallied manager)
    (ids : after.poll.core.mThreadIds = manager.poll.core.mThreadIds)
    (phases : ∀ other ≠ tid,
      (after.poll.core.worker other).phase = (manager.poll.core.worker other).phase)
    (count : after.mActiveThreadCount + (manager.active tid).toNat =
      manager.mActiveThreadCount + (after.active tid).toNat)
    (member : tid ∈ manager.poll.core.mThreadIds)
    (released : ∀ other ≠ tid, after.released other = manager.released other)
    (here : after.released tid = true →
      ∃ slice, (after.poll.core.worker tid).phase = .returned slice)
    (near : after.near = manager.near) (outdated : after.outdated = manager.outdated)
    (timers : after.timers = manager.timers) : Tallied after := by
  have others : ∀ other ≠ tid, after.active other = manager.active other := by
    intro other different
    unfold TimerScheduler.active
    rw [phases other different, released other different]
  refine ⟨?_, fun other set => ?_, ?_⟩
  · rw [ids]
    have counted := tallied.counted
    cases was : manager.active tid <;> cases now : after.active tid <;>
      rw [was, now] at count
    · have same : tally manager.poll.core.mThreadIds after.active =
          tally manager.poll.core.mThreadIds manager.active := tally_congr fun other _ => by
        by_cases same : other = tid
        · rw [same, was, now]
        · exact others other same
      simp only [Bool.toNat_false] at count
      omega
    · have gained := tally_gain member others was now
      simp only [Bool.toNat_false, Bool.toNat_true] at count
      omega
    · have lost := tally_lose member others was now
      simp only [Bool.toNat_false, Bool.toNat_true] at count
      omega
    · have same : tally manager.poll.core.mThreadIds after.active =
          tally manager.poll.core.mThreadIds manager.active := tally_congr fun other _ => by
        by_cases same : other = tid
        · rw [same, was, now]
        · exact others other same
      simp only [Bool.toNat_true] at count
      omega
  · by_cases same : other = tid
    · exact same ▸ here (same ▸ set)
    · rw [phases other same]
      exact tallied.released other ((released other same).symm.trans set)
  · rw [near, outdated, timers]
    exact tallied.empty

theorem Tallied.positive (tallied : Tallied manager)
    (member : tid ∈ manager.poll.core.mThreadIds) (active : manager.active tid = true) :
    0 < manager.mActiveThreadCount := by
  rw [tallied.counted]
  refine Nat.pos_of_ne_zero fun zero => ?_
  exact absurd ((tally_eq_zero.mp zero tid member).symm.trans active) Bool.false_ne_true

theorem Tallied.unreleased (tallied : Tallied manager) (tid : Int)
    (elsewhere : ∀ slice, (manager.poll.core.worker tid).phase ≠ .returned slice) :
    manager.released tid = false := by
  by_contra set
  obtain ⟨slice, phase⟩ := tallied.released tid (by simpa using set)
  exact elsewhere slice phase

theorem active_of_phase {phase : Phase} (here : (manager.poll.core.worker tid).phase = phase) :
    manager.active tid = phase.active (manager.released tid) := by
  rw [TimerScheduler.active, here]

theorem Tallied.loop (tallied : Tallied manager) (looping : manager.poll.place tid = .loop)
    (stepped : manager.loop tid = some after) : Tallied after := by
  unfold TimerScheduler.loop at stepped
  obtain ⟨poll, moved, rest⟩ := Option.bind_eq_some_iff.mp stepped
  simp only [PollScheduler.step] at moved
  split at moved
  · rename_i idle
    have member := mem_of_idle idle
    have work : PollScheduler.WorkOf manager.poll poll tid := by
      simp only [PollScheduler.advance, looping] at moved
      exact PollScheduler.workOf_loop moved
    have next := work.next
    dsimp only at rest
    split at rest
    · rename_i phase
      cases rest
      rw [phase] at next
      have unreleased := tallied.unreleased tid (by simp [phase])
      have still : manager.released tid ≠ true := by simp [unreleased]
      refine tallied.work work.ids work.others ?_ member (fun _ _ => rfl) (absurd · still)
        rfl rfl rfl
      rw [active_of_phase phase]
      cases now : (poll.core.worker tid).phase with
      | scan => rw [active_of_phase now]; rfl
      | dispatch ft => rw [active_of_phase now]; rfl
      | _ =>
          rw [now] at next
          cases next
    · rename_i ft phase
      cases rest
      rw [phase] at next
      have unreleased := tallied.unreleased tid (by simp [phase])
      have still : manager.released tid ≠ true := by simp [unreleased]
      have positive := tallied.positive member (active_of_phase phase)
      refine tallied.work work.ids work.others ?_ member (fun _ _ => rfl) (absurd · still)
        rfl rfl rfl
      rw [active_of_phase phase]
      cases now : (poll.core.worker tid).phase with
      | scan =>
          rw [active_of_phase now]
          exact Nat.sub_add_cancel positive
      | swapIn slice => rw [active_of_phase now]; rfl
      | _ =>
          rw [now] at next
          cases next
    · rename_i slice phase
      split at rest
      · rename_i released
        cases rest
        rw [phase] at next
        have was : manager.active tid = false := by rw [active_of_phase phase, released]; rfl
        refine tallied.work work.ids work.others ?_ member
          (fun other different => Function.update_of_ne different ..)
          (fun set => by simp at set) rfl rfl rfl
        rw [was]
        cases now : (poll.core.worker tid).phase with
        | scan => rw [active_of_phase now]; rfl
        | requeue slice => rw [active_of_phase now]; rfl
        | setHold slice => rw [active_of_phase now]; rfl
        | _ =>
            rw [now] at next
            cases next
      · contradiction
    · rename_i notScan notDispatch notReturned
      cases rest
      have unreleased := tallied.unreleased tid fun slice phase => notReturned slice phase
      have still : manager.released tid ≠ true := by simp [unreleased]
      refine tallied.work work.ids work.others ?_ member (fun _ _ => rfl) (absurd · still)
        rfl rfl rfl
      generalize phase : (manager.poll.core.worker tid).phase = was at next
      generalize now : (poll.core.worker tid).phase = will at next
      rw [active_of_phase phase]
      cases next with
      | none => exact absurd phase notScan
      | take ft => exact absurd phase notScan
      | drop ft => exact absurd phase (notDispatch ft)
      | resume ft slice => exact absurd phase (notDispatch ft)
      | ready slice => exact absurd phase (notReturned slice)
      | hold slice => exact absurd phase (notReturned slice)
      | ended slice => exact absurd phase (notReturned slice)
      | swapOut slice ended =>
          rw [active_of_phase now]
          change _ = manager.mActiveThreadCount + (!manager.released tid).toNat
          rw [unreleased]
          rfl
      | _ => rw [active_of_phase now]; rfl
  · contradiction

theorem Tallied.release (tallied : Tallied manager)
    (stepped : manager.release tid = some after) : Tallied after := by
  unfold TimerScheduler.release at stepped
  split at stepped
  · rename_i slice phase
    split at stepped
    · rename_i held
      cases stepped
      have member := mem_of_idle held.1
      have was : manager.active tid = true := by rw [active_of_phase phase, held.2]; rfl
      have positive := tallied.positive member was
      refine tallied.work rfl (fun _ _ => rfl) ?_ member
        (fun other different => Function.update_of_ne different ..) (fun _ => ⟨slice, phase⟩)
        rfl rfl rfl
      have now : TimerScheduler.active { manager with
          mActiveThreadCount := manager.mActiveThreadCount - 1
          released := Function.update manager.released tid true } tid = false := by
        change (manager.poll.core.worker tid).phase.active
          (Function.update manager.released tid true tid) = false
        rw [phase, Function.update_self]
        rfl
      rw [was, now]
      exact Nat.sub_add_cancel positive
    · contradiction
  · contradiction

theorem Tallied.leave (tallied : Tallied manager) {how : Leave} {poll : PollScheduler}
    (moved : manager.poll.step (.leave tid how) = some poll) :
    Tallied { manager with poll } := by
  simp only [PollScheduler.step] at moved
  split at moved
  · rename_i held
    obtain ⟨core, left, rfl⟩ := Option.map_eq_some_iff.mp moved
    have turn := KScheduler.turn_leave left
    unfold KScheduler.leave at left
    split at left
    · rename_i slice phase
      split at left
      · contradiction
      · cases left
        have unreleased := tallied.unreleased tid (by simp [phase])
        refine tallied.work turn.ids turn.others ?_ (mem_of_idle held.1) (fun _ _ => rfl)
          (fun set => absurd set (by simp [unreleased])) rfl rfl rfl
        rw [active_of_phase phase, active_of_phase (KScheduler.phase_setPhase _)]
        rfl
    · contradiction
  · contradiction

/-- A step that leaves the timers, what the threads know of them and the phases alone. -/
theorem Tallied.along (tallied : Tallied manager) {poll : PollScheduler} {adding : List Int}
    (same : PollScheduler.SameWork manager.poll poll) :
    Tallied { manager with poll, adding } :=
  tallied.frame same rfl rfl tallied.empty

theorem Tallied.pollStep {event : PollEvent} (tallied : Tallied manager)
    (stepped : manager.pollStep event = some after) : Tallied after := by
  cases event with
  | advance tid =>
      simp only [TimerScheduler.pollStep] at stepped
      by_cases looping : manager.poll.place tid = .loop
      · simp only [looping] at stepped
        exact tallied.loop looping stepped
      · have along : ∀ {next}, (manager.poll.step (.advance tid)).map
            (fun poll => { manager with poll }) = some next → Tallied next := by
          intro next along
          obtain ⟨poll, moved, rfl⟩ := Option.map_eq_some_iff.mp along
          simp only [PollScheduler.step] at moved
          split at moved
          · exact tallied.along (PollScheduler.sameWork_advance looping moved)
          · contradiction
        cases place : manager.poll.place tid with
        | loop => exact absurd place looping
        | poll =>
            simp only [place] at stepped
            split at stepped
            · contradiction
            · exact along stepped
        | woken fd =>
            simp only [place] at stepped
            split at stepped
            · exact along stepped
            · contradiction
        | _ =>
            simp only [place] at stepped
            exact along stepped
  | leave tid how =>
      obtain ⟨poll, moved, rfl⟩ := Option.map_eq_some_iff.mp stepped
      exact tallied.leave moved
  | testIdle tid =>
      obtain ⟨along, moves, rfl⟩ := Option.map_eq_some_iff.mp stepped
      obtain ⟨poll, moved, rfl⟩ := Option.map_eq_some_iff.mp moves
      have same := PollScheduler.sameWork_step moved (by simp) (by simp)
      split
      · exact tallied.along same
      · exact tallied.along same
  | write tid woken =>
      obtain ⟨along, moves, rfl⟩ := Option.map_eq_some_iff.mp stepped
      obtain ⟨poll, moved, rfl⟩ := Option.map_eq_some_iff.mp moves
      exact tallied.along (PollScheduler.sameWork_step moved (by simp) (by simp))
  | exit tid =>
      simp only [TimerScheduler.pollStep] at stepped
      split at stepped
      · obtain ⟨poll, moved, rfl⟩ := Option.map_eq_some_iff.mp stepped
        exact tallied.along (PollScheduler.sameWork_step moved (by simp) (by simp))
      · contradiction
  | _ =>
      simp only [TimerScheduler.pollStep] at stepped
      obtain ⟨poll, moved, rfl⟩ := Option.map_eq_some_iff.mp stepped
      exact tallied.along (PollScheduler.sameWork_step moved (by simp) (by simp))

theorem Tallied.step {event : TimerEvent} (tallied : Tallied manager)
    (stepped : manager.step event = some after) : Tallied after := by
  have unmoved : PollScheduler.SameWork manager.poll manager.poll := ⟨rfl, fun _ => rfl⟩
  cases event with
  | poll event => exact tallied.pollStep stepped
  | release tid => exact tallied.release stepped
  | interrupt tid =>
      simp only [TimerScheduler.step] at stepped
      split at stepped
      · cases stepped
        refine tallied.frame ⟨rfl, fun _ => rfl⟩ rfl rfl fun other near fresh => ?_
        have different : other ≠ tid := by
          rintro rfl
          change (manager.setNear other _).near other = _ at near
          simp at near
        exact tallied.empty other ((near_setNear_other _ _ different).symm.trans near) fresh
      · contradiction
  | getNearTimeout tid now =>
      simp only [TimerScheduler.step] at stepped
      split at stepped
      · cases stepped
        refine tallied.frame unmoved rfl rfl fun other near fresh => ?_
        by_cases same : other = tid
        · subst same
          have front := (near_setNear_self manager other _).symm.trans near
          have empty : manager.timers.mTimers = [] := by simpa using front
          exact empty
        · have kept := (near_setNear_other manager _ same).symm.trans near
          exact tallied.empty other kept ((Function.update_of_ne same ..).symm.trans fresh)
      · contradiction
  | addTimer tid now ms cb recycle bind =>
      simp only [TimerScheduler.step] at stepped
      split at stepped
      · cases stepped
        have same : PollScheduler.SameWork manager.poll (manager.poll.decideTickle tid
            (manager.timers.addTimer now ms (cb.map .plain) recycle bind).2) := by
          unfold PollScheduler.decideTickle
          split <;> exact ⟨rfl, fun _ => rfl⟩
        exact tallied.frame same rfl rfl fun other near fresh => by cases fresh
      · contradiction
  | delTimer tid timerId =>
      simp only [TimerScheduler.step] at stepped
      split at stepped
      · cases stepped
        refine tallied.frame unmoved rfl rfl fun other near fresh => ?_
        have empty := tallied.empty other near fresh
        simp [KTimerManager.delTimer, empty]
      · contradiction
  | listExpiredTimer tid now =>
      simp only [TimerScheduler.step] at stepped
      split at stepped
      · split at stepped
        · cases stepped
          refine tallied.frame unmoved rfl rfl fun other near fresh => ?_
          have different : other ≠ tid := by
            rintro rfl
            exact absurd ((near_setNear_self manager other _).symm.trans near) (by simp)
          have empty := tallied.empty other
            ((near_setNear_other manager _ different).symm.trans near) fresh
          simp [KTimerManager.listExpiredTimer, empty]
        · contradiction
      · contradiction

end TimerScheduler

/-- While threads stop only at rest, a thread that leaves because `stopping()`
returned true leaves nothing to do. -/
theorem stopping_drained {mThreadIds : List Int} {user : Bool} {events : List TimerEvent}
    {last after : TimerScheduler} {tid : Int}
    (run : Run TimerScheduler.step stopsAtRest (TimerScheduler.start mThreadIds user) events last)
    (rest : stopsAtRest last (.poll (.exit tid)))
    (stopping : last.step (.poll (.exit tid)) = some after) : last.Drained := by
  have tallied : last.Tallied :=
    run.invariant TimerScheduler.Tallied (TimerScheduler.tallied_start mThreadIds user)
      fun tallied _ stepped => tallied.step stepped
  simp only [TimerScheduler.step, TimerScheduler.pollStep, PollScheduler.step] at stopping
  split at stopping
  · rename_i still
    split at stopping
    · rename_i empty
      have inactive := tally_eq_zero.mp (tallied.counted.symm.trans still.2)
      exact ⟨tallied.empty tid still.1 rest.1, empty.2.2.2,
        fun other member => ⟨inactive other member, rest.2 other member⟩⟩
    · contradiction
  · contradiction

/-- The only thread runs a callback to its end and leaves after `stop`. -/
theorem stopping_drained_of_one_thread :
    ∃ last after, Run TimerScheduler.step stopsAtRest (TimerScheduler.start [1] false)
        ([TimerEvent.poll (.schedule 9 [(.cb 7, 0)]), .poll (.testIdle 9)] ++
          List.replicate 4 (.poll (.advance 1)) ++
          [.poll (.leave 1 .terminate), .poll (.advance 1), .release 1] ++
          List.replicate 3 (.poll (.advance 1)) ++ [.poll .stop, .getNearTimeout 1 0]) last ∧
      last.step (.poll (.exit 1)) = some after ∧ last.Drained := by
  have executed : (execute TimerScheduler.step stopsAtRest (TimerScheduler.start [1] false)
      ([TimerEvent.poll (.schedule 9 [(.cb 7, 0)]), .poll (.testIdle 9)] ++
        List.replicate 4 (.poll (.advance 1)) ++
        [.poll (.leave 1 .terminate), .poll (.advance 1), .release 1] ++
        List.replicate 3 (.poll (.advance 1)) ++ [.poll .stop, .getNearTimeout 1 0])).any
      (fun last => decide (stopsAtRest last (.poll (.exit 1)) ∧
        (last.step (.poll (.exit 1))).isSome = true)) = true := by decide +kernel
  obtain ⟨last, run, found⟩ := Run.exists_last executed
  obtain ⟨rest, ends⟩ := of_decide_eq_true found
  obtain ⟨after, stopping⟩ := Option.isSome_iff_exists.mp ends
  exact ⟨last, after, run, stopping, stopping_drained run rest stopping⟩

/-- Thread 1 has decremented `mActiveThreadCount` for a fiber that yielded and
has not put it back yet while thread 2 asks `stopping()`. -/
theorem stopping_with_yielded_fiber :
    ∃ last after, Run TimerScheduler.step anyStep (TimerScheduler.start [1, 2] false)
        ([TimerEvent.poll (.schedule 9 [(.cb 7, 0)]), .poll (.testIdle 9)] ++
          List.replicate 4 (.poll (.advance 1)) ++
          [.poll (.leave 1 .yeild2Ready), .poll (.advance 1), .release 1] ++
          List.replicate 2 (.poll (.advance 2)) ++ [.poll .stop, .getNearTimeout 2 0]) last ∧
      last.step (.poll (.exit 2)) = some after ∧ ¬ last.Drained := by
  have executed : (execute TimerScheduler.step anyStep (TimerScheduler.start [1, 2] false)
      ([TimerEvent.poll (.schedule 9 [(.cb 7, 0)]), .poll (.testIdle 9)] ++
        List.replicate 4 (.poll (.advance 1)) ++
        [.poll (.leave 1 .yeild2Ready), .poll (.advance 1), .release 1] ++
        List.replicate 2 (.poll (.advance 2)) ++ [.poll .stop, .getNearTimeout 2 0])).any
      (fun last => decide ((last.step (.poll (.exit 2))).isSome = true ∧
        1 ∈ last.poll.core.mThreadIds ∧ last.unfinished 1 = true)) = true := by decide +kernel
  obtain ⟨last, run, found⟩ := Run.exists_last executed
  obtain ⟨ends, member, unfinished⟩ := of_decide_eq_true found
  obtain ⟨after, stopping⟩ := Option.isSome_iff_exists.mp ends
  refine ⟨last, after, run, stopping, fun drained => ?_⟩
  have finished := (drained.held 1 member).2
  exact absurd (finished.symm.trans unfinished) Bool.false_ne_true

end FiberKcp.Scheduler
