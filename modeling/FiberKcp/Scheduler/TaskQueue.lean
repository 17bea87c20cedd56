import FiberKcp.Data.Ledger
import FiberKcp.Scheduler.Threadloop

namespace FiberKcp.Scheduler

open Data FiberKcp.Fiber

/-! The task queue with the history of what was scheduled, taken and executed. -/

def Work.isCb : Work → Bool
  | .fiberPtr _ => false
  | .cb _ => true

structure Task where
  work : Work
  tid : Int
deriving DecidableEq, Repr

def FiberBindThread.task (ft : FiberBindThread) : Task := ⟨ft.work, ft.tid⟩

/-- A thread in this phase has a callback that it has not begun. -/
def Phase.carries : Phase → Bool
  | .dispatch ft => ft.work.isCb
  | .swapIn slice | .switchIn slice => slice.isCb
  | _ => false

/-- The fiber in which the thread is about to begin a callback. -/
def Phase.begins : Phase → Option Nat
  | .swapIn slice | .switchIn slice => if slice.isCb then some slice.fiber else none
  | _ => none

/-- The fiber, taken from the queue, whose state or context the thread's next
step can change. -/
def Phase.touches : Phase → Option Nat
  | .swapIn slice | .switchIn slice | .running slice | .swapOut slice _ | .setHold slice =>
      if slice.isCb then none else some slice.fiber
  | _ => none

/-- A callback has begun on the thread and is not yet accounted for. -/
def Phase.inCb : Phase → Bool
  | .running slice | .swapOut slice _ | .returned slice | .requeue slice | .setHold slice =>
      slice.isCb
  | _ => false

def Phase.slice : Phase → Option Slice
  | .scan | .dispatch _ => none
  | .swapIn slice | .switchIn slice | .running slice | .swapOut slice _ | .returned slice
  | .requeue slice | .setHold slice => some slice

/-- A callback is known by its position in `ledger`.  `mCb` is the callback of a
fiber that was not switched to since its `makecontext`, and `holding` the one
that a thread took and has not begun.  `scheduled` is the arguments of all calls
of `schedule`, where `none` is a null fiber or an empty function; `executed` is
the callbacks begun, each with its thread. -/
structure TaskScheduler where
  core : KScheduler
  scheduled : List (Option Work × Int) := []
  ledger : Ledger Task Int := {}
  mCb : Nat → Option Nat := fun _ => none
  holding : Int → Option Nat := fun _ => none
  executed : List (Nat × Int) := []

namespace TaskScheduler

def start (mThreadIds : List Int) : TaskScheduler where
  core := .start mThreadIds

def setCb (manager : TaskScheduler) (fiber : Nat) (mCb : Option Nat) : TaskScheduler :=
  { manager with mCb := Function.update manager.mCb fiber mCb }

def hold (manager : TaskScheduler) (tid : Int) (position : Option Nat) : TaskScheduler :=
  { manager with holding := Function.update manager.holding tid position }

def record (manager : TaskScheduler) (work : Work) (th : Int) : TaskScheduler :=
  { manager with
    scheduled := manager.scheduled ++ [(some work, th)]
    ledger := manager.ledger.push ⟨work, th⟩ }

/-- `scheduleNoLock`: a null task is not queued. -/
def scheduleNoLock (manager : TaskScheduler) : Option Work × Int → Option TaskScheduler
  | (none, th) => some { manager with scheduled := manager.scheduled ++ [(none, th)] }
  | (some work, th) =>
      (manager.core.step (.schedule work th)).map fun core =>
        { manager with core }.record work th

/-- The place in the queue of the task that the scan takes. -/
def taskIndex (manager : TaskScheduler) (tid : Int) : Nat :=
  manager.core.mFiberQueue.findIdx fun it => !manager.core.skips tid it

/-- What a step of `threadloop` does to the callbacks. -/
def account (manager : TaskScheduler) (tid : Int) : TaskScheduler :=
  match (manager.core.worker tid).phase with
  | .scan =>
      match manager.core.takeTask tid manager.core.mFiberQueue with
      | none => manager
      | some (ft, _) =>
          let index := manager.taskIndex tid
          let position := manager.ledger.waiting[index]?.map Prod.snd
          { manager with ledger := manager.ledger.take index tid }.hold tid
            (if ft.work.isCb then position else none)
  | .dispatch ft =>
      if ft.work.isCb then
        manager.setCb ((manager.core.worker tid).cbFiber.getD manager.core.gFiberId)
          (manager.holding tid)
      else manager
  | .switchIn slice =>
      { manager with
        executed := manager.executed ++ (manager.mCb slice.fiber).toList.map (·, tid) }.setCb
          slice.fiber none |>.hold tid none
  | .swapOut slice _ => manager.setCb slice.fiber none
  | .returned slice =>
      match manager.core.mState slice.fiber with
      | .term | .except => if slice.isCb then manager.setCb slice.fiber none else manager
      | _ => manager
  | .requeue slice => manager.record (.fiberPtr slice.fiber) 0
  | _ => manager

end TaskScheduler

/-- `schedule` is of one task or of a range of them. -/
inductive TaskEvent where
  | newFiber
  | schedule (tasks : List (Option Work × Int))
  | threadloop (tid : Int)
  | leave (tid : Int) (how : Leave)
deriving DecidableEq, Repr

def TaskScheduler.step (manager : TaskScheduler) : TaskEvent → Option TaskScheduler
  | .newFiber => some { manager with core := manager.core.newFiber }
  | .schedule tasks => tasks.foldlM scheduleNoLock manager
  | .threadloop tid =>
      (manager.core.step (.threadloop tid)).map fun core => { manager.account tid with core }
  | .leave tid how =>
      (manager.core.step (.leave tid how)).map fun core => { manager with core }

/-- The fiber that the thread keeps for its next callback. -/
def KScheduler.keeps (scheduler : KScheduler) (tid : Int) : Option Nat :=
  if (scheduler.worker tid).phase.inCb then none else (scheduler.worker tid).cbFiber

/-- No thread resumes, or is still at work on, a fiber from the queue that a
thread keeps for its next callback. -/
def keptUntouched (manager : TaskScheduler) : TaskEvent → Prop
  | .threadloop tid | .leave tid _ =>
      ∀ other ∈ manager.core.mThreadIds, manager.core.keeps other = none ∨
        manager.core.keeps other ≠ (manager.core.worker tid).phase.touches
  | _ => True

instance (manager : TaskScheduler) (event : TaskEvent) :
    Decidable (keptUntouched manager event) := by
  cases event <;> simp only [keptUntouched] <;> infer_instance

theorem Phase.slice_of_begins {phase : Phase} {fiber : Nat} (begins : phase.begins = some fiber) :
    phase.inCb = false ∧ ∃ slice, phase.slice = some slice ∧ slice.isCb = true ∧
      slice.fiber = fiber := by
  cases phase with
  | swapIn slice =>
      simp only [Phase.begins, Option.ite_none_right_eq_some, Option.some.injEq] at begins
      exact ⟨rfl, slice, rfl, begins⟩
  | switchIn slice =>
      simp only [Phase.begins, Option.ite_none_right_eq_some, Option.some.injEq] at begins
      exact ⟨rfl, slice, rfl, begins⟩
  | _ => cases begins

/-- `release` gives up the `cbFiber` of a callback that was not run to its end. -/
structure KScheduler.Released (scheduler after : KScheduler) (tid : Int) (slice : Slice) :
    Prop where
  ids : after.mThreadIds = scheduler.mThreadIds
  made : after.gFiberId = scheduler.gFiberId
  mCtx : after.mCtx = scheduler.mCtx
  mState : after.mState = scheduler.mState
  workers : ∀ other ≠ tid, after.worker other = scheduler.worker other
  cbFiber : (after.worker tid).cbFiber = (scheduler.worker tid).cbFiber ∨
    slice.isCb = true ∧ (after.worker tid).cbFiber = none
  given : slice.isCb = true → (after.worker tid).cbFiber = none

theorem KScheduler.released (scheduler : KScheduler) (tid : Int) (slice : Slice) :
    Released scheduler (scheduler.release tid slice) tid slice := by
  unfold KScheduler.release
  cases isCb : slice.isCb with
  | false => exact ⟨rfl, rfl, rfl, rfl, fun _ _ => rfl, .inl rfl, fun itIs => nomatch isCb.symm.trans itIs⟩
  | true =>
      have none : ((scheduler.setCbFiber tid none).worker tid).cbFiber = none := by
        simp [KScheduler.setCbFiber]
      exact ⟨rfl, rfl, rfl, rfl, fun other different =>
        KScheduler.worker_setCbFiber_other _ _ _ different, .inr ⟨isCb, none⟩, fun _ => none⟩

namespace TaskScheduler

def takenBy (manager : TaskScheduler) (tid : Int) : List Nat :=
  (manager.ledger.taken.filter fun entry =>
    entry.taker = tid && entry.task.work.isCb).map Taken.position

def executedBy (manager : TaskScheduler) (tid : Int) : List Nat :=
  (manager.executed.filter fun entry => entry.2 = tid).map Prod.fst

/-- A callback bound to the thread. -/
def boundTo (tid : Int) (task : Task) : Bool := task.work.isCb && task.tid == tid

/-- The queue is what was scheduled, null tasks apart, without what was taken;
a callback that was taken is executed once, if it is not still in the hands of
the thread that took it, on a thread that its id permits, and in order. -/
structure Delivered (manager : TaskScheduler) : Prop where
  nonNull : manager.ledger.sent =
    manager.scheduled.filterMap fun (work, th) => work.map fun work => ⟨work, th⟩
  queue : manager.core.mFiberQueue.map FiberBindThread.task = manager.ledger.queue
  once : (manager.ledger.taken.map Taken.position).Nodup
  executed : ∀ entry ∈ manager.ledger.taken, entry.task.work.isCb = true →
    (entry.position, entry.taker) ∈ manager.executed ∨
      manager.holding entry.taker = some entry.position ∧
        entry.position ∉ manager.executed.map Prod.fst ∧
          (manager.core.threadloop entry.taker).isSome = true
  executedOnce : (manager.executed.map Prod.fst).Nodup
  permitted : ∀ entry ∈ manager.executed, ∃ callback th,
    manager.ledger.sent[entry.1]? = some ⟨.cb callback, th⟩ ∧ Admits th entry.2
  ordered : ∀ tid ≠ 0, ((manager.executed.filter fun entry =>
    manager.ledger.sent[entry.1]?.any (boundTo tid)).map Prod.fst).Pairwise (· < ·)

structure Queued (manager : TaskScheduler) : Prop where
  sound : manager.ledger.Sound
  nonNull : manager.ledger.sent =
    manager.scheduled.filterMap fun (work, th) => work.map fun work => ⟨work, th⟩
  queue : manager.core.mFiberQueue.map FiberBindThread.task = manager.ledger.queue
  inOrder : ∀ tid ≠ 0, manager.ledger.InOrder (boundTo tid)
  admitted : ∀ entry ∈ manager.ledger.taken, Admits entry.task.tid entry.taker

/-- The state of a fiber kept by a thread in this phase. -/
def keptState : Phase → FiberState
  | .switchIn slice => if slice.isCb then .exec else .ready
  | _ => .ready

structure Carries (manager : TaskScheduler) (tid : Int) : Prop where
  flow : manager.takenBy tid = manager.executedBy tid ++ (manager.holding tid).toList
  held : (manager.holding tid).isSome = (manager.core.worker tid).phase.carries
  own : ∀ slice, (manager.core.worker tid).phase.slice = some slice → slice.isCb = true →
    (manager.core.worker tid).cbFiber = some slice.fiber
  loaded : ∀ fiber, (manager.core.worker tid).phase.begins = some fiber →
    manager.mCb fiber = manager.holding tid
  kept : ∀ fiber, manager.core.keeps tid = some fiber → manager.core.mCtx fiber ≠ none ∧
    manager.core.mState fiber = keptState (manager.core.worker tid).phase
  made : ∀ fiber, (manager.core.worker tid).cbFiber = some fiber →
    fiber < manager.core.gFiberId
  worker : tid ∉ manager.core.mThreadIds →
    (manager.core.worker tid).phase = .scan ∧ (manager.core.worker tid).cbFiber = none

structure Carrying (manager : TaskScheduler) : Prop where
  each : ∀ tid, manager.Carries tid
  apart : ∀ tid other fiber, (manager.core.worker tid).cbFiber = some fiber →
    (manager.core.worker other).cbFiber = some fiber → tid = other
  fresh : ∀ fiber position, manager.mCb fiber = some position →
    ∃ tid, (manager.core.worker tid).phase.begins = some fiber

/-- The scan takes the first task that it does not pass over. -/
theorem takeTask_first {scheduler : KScheduler} {tid : Int} {queue left : List FiberBindThread}
    {ft : FiberBindThread} (taken : scheduler.takeTask tid queue = some (ft, left)) :
    ∃ front back, queue = front ++ ft :: back ∧ left = front ++ back ∧
      scheduler.skips tid ft = false ∧ (∀ it ∈ front, scheduler.skips tid it = true) ∧
      queue.findIdx (fun it => !scheduler.skips tid it) = front.length := by
  induction queue generalizing left with
  | nil => contradiction
  | cons it rest ih =>
      simp only [KScheduler.takeTask] at taken
      split at taken
      · rename_i skipped
        obtain ⟨⟨first, remaining⟩, found, same⟩ := Option.map_eq_some_iff.mp taken
        cases same
        obtain ⟨front, back, rfl, rfl, kept, passed, index⟩ := ih found
        refine ⟨it :: front, back, rfl, rfl, kept, ?_, ?_⟩
        · exact List.forall_mem_cons.mpr ⟨skipped, passed⟩
        · simp [List.findIdx_cons, skipped, index]
      · rename_i kept
        cases taken
        refine ⟨[], rest, rfl, rfl, by simpa using kept, by simp, ?_⟩
        simp [List.findIdx_cons, kept]

variable {manager after : TaskScheduler} {tid : Int}

theorem queued_start (mThreadIds : List Int) : Queued (start mThreadIds) :=
  ⟨Ledger.sound_empty, rfl, rfl, fun _ _ => Ledger.inOrder_empty _,
    fun _ member => (List.not_mem_nil member).elim⟩

theorem Queued.same (queued : Queued manager)
    (queue : after.core.mFiberQueue = manager.core.mFiberQueue)
    (scheduled : after.scheduled = manager.scheduled) (ledger : after.ledger = manager.ledger) :
    Queued after := by
  refine ⟨?_, ?_, ?_, ?_, ?_⟩ <;> rw [ledger]
  · exact queued.sound
  · rw [scheduled]
    exact queued.nonNull
  · rw [queue]
    exact queued.queue
  · exact queued.inOrder
  · exact queued.admitted

theorem Queued.record (queued : Queued manager) {work : Work} {th : Int} (origin : Int)
    (queue : after.core.mFiberQueue = manager.core.mFiberQueue ++ [⟨work, th, origin⟩])
    (scheduled : after.scheduled = (manager.record work th).scheduled)
    (ledger : after.ledger = (manager.record work th).ledger) : Queued after := by
  refine ⟨?_, ?_, ?_, fun tid bound => ?_, ?_⟩ <;> rw [ledger]
  · exact queued.sound.push _
  · rw [scheduled]
    change manager.ledger.sent ++ [_] = (manager.scheduled ++ [_]).filterMap _
    rw [queued.nonNull, List.filterMap_append]
    rfl
  · rw [queue, List.map_append, queued.queue]
    exact (queued.sound.queue_push _).symm
  · exact (queued.inOrder tid bound).push queued.sound _
  · exact queued.admitted

/-- What the scan takes, in the queue and in its history. -/
structure Scanned (manager : TaskScheduler) (tid : Int) (ft : FiberBindThread)
    (before : List (Task × Nat)) (position : Nat) (rest : List (Task × Nat)) : Prop where
  whole : manager.ledger.waiting = before ++ (ft.task, position) :: rest
  index : manager.taskIndex tid = before.length
  left : (manager.core.scan tid).mFiberQueue.map FiberBindThread.task =
    (before ++ rest).map Prod.fst
  admits : Admits ft.tid tid
  passed : ∀ item ∈ before, item.1.work.isCb = true → item.1.tid ≠ tid

theorem Queued.scanned (queued : Queued manager) {ft : FiberBindThread}
    {left : List FiberBindThread}
    (taken : manager.core.takeTask tid manager.core.mFiberQueue = some (ft, left)) :
    ∃ before position rest, Scanned manager tid ft before position rest := by
  obtain ⟨front, back, queue, rfl, kept, skipped, index⟩ := takeTask_first taken
  have split : manager.ledger.queue =
      front.map FiberBindThread.task ++ ft.task :: back.map FiberBindThread.task := by
    rw [← queued.queue, queue, List.map_append, List.map_cons]
  obtain ⟨before, position, rest, whole, fronts, backs⟩ := Ledger.waiting_split split
  refine ⟨before, position, rest, whole, ?_, ?_, KScheduler.tid_of_not_skips kept,
    fun item member isCb same => ?_⟩
  · rw [taskIndex, index, ← List.length_map FiberBindThread.task, ← fronts, List.length_map]
  · rw [KScheduler.scan, taken, List.map_append, fronts, backs]
    exact List.map_append
  · have among : item.1 ∈ front.map FiberBindThread.task :=
      fronts ▸ List.mem_map.mpr ⟨item, member, rfl⟩
    obtain ⟨it, inFront, task⟩ := List.mem_map.mp among
    have passed := skipped it inFront
    rw [← task] at isCb same
    cases work : it.work with
    | fiberPtr fiber => simp [FiberBindThread.task, work, Work.isCb] at isCb
    | cb callback =>
        have own : it.tid = tid := same
        simp [KScheduler.skips, work, own] at passed

theorem Queued.take (queued : Queued manager) {ft : FiberBindThread}
    {before rest : List (Task × Nat)} {position : Nat}
    (scanned : Scanned manager tid ft before position rest)
    (queue : after.core.mFiberQueue = (manager.core.scan tid).mFiberQueue)
    (scheduled : after.scheduled = manager.scheduled)
    (ledger : after.ledger = manager.ledger.take (manager.taskIndex tid) tid) : Queued after := by
  have whole := scanned.whole
  rw [scanned.index] at ledger
  refine ⟨?_, ?_, ?_, fun th bound => ?_, ?_⟩ <;> rw [ledger]
  · exact queued.sound.take whole
  · rw [scheduled, Ledger.take_eq whole]
    exact queued.nonNull
  · rw [queue, scanned.left, Ledger.queue, Ledger.waiting_take whole]
  · refine (queued.inOrder th bound).take whole fun kind item member => ?_
    simp only [boundTo, Bool.and_eq_true, beq_iff_eq] at kind
    have own : th = tid := by
      rcases scanned.admits with zero | same
      · exact absurd (kind.2.symm.trans zero) bound
      · exact kind.2.symm.trans same
    by_contra waits
    simp only [boundTo, Bool.not_eq_false, Bool.and_eq_true, beq_iff_eq] at waits
    exact scanned.passed item member waits.1 (waits.2.trans own)
  · rw [Ledger.take_eq whole]
    intro entry member
    rcases List.mem_append.mp member with earlier | last
    · exact queued.admitted entry earlier
    · cases List.mem_singleton.mp last
      exact scanned.admits

theorem Queued.threadloop (queued : Queued manager)
    (stepped : manager.step (.threadloop tid) = some after) : Queued after := by
  obtain ⟨core, moved, rfl⟩ := Option.map_eq_some_iff.mp stepped
  simp only [KScheduler.step] at moved
  split at moved
  · unfold KScheduler.threadloop at moved
    unfold account
    cases phase : (manager.core.worker tid).phase with
    | scan =>
        simp only [phase] at moved ⊢
        cases moved
        cases taken : manager.core.takeTask tid manager.core.mFiberQueue with
        | none =>
            have unmoved : (manager.core.scan tid).mFiberQueue = manager.core.mFiberQueue := by
              rw [KScheduler.scan, taken]
            exact queued.same unmoved rfl rfl
        | some task =>
            obtain ⟨ft, left⟩ := task
            obtain ⟨before, position, rest, scanned⟩ := queued.scanned taken
            exact queued.take scanned rfl rfl rfl
    | dispatch ft =>
        simp only [phase] at moved ⊢
        have unmoved : core.mFiberQueue = manager.core.mFiberQueue := by
          simp only [KScheduler.dispatch] at moved
          split at moved
          · split at moved <;> cases moved <;> rfl
          · split at moved
            · split at moved
              · cases moved
                rfl
              · contradiction
            · cases moved
              rfl
        split <;> exact queued.same unmoved rfl rfl
    | swapIn slice =>
        simp only [phase, KScheduler.swapIn] at moved
        split at moved
        · contradiction
        · cases moved
          exact queued.same rfl rfl rfl
    | switchIn slice =>
        simp only [phase, KScheduler.switchIn] at moved
        split at moved
        · contradiction
        · cases moved
          exact queued.same rfl rfl rfl
    | running slice =>
        simp only [phase] at moved
        contradiction
    | swapOut slice ended =>
        simp only [phase] at moved
        cases moved
        exact queued.same rfl rfl rfl
    | returned slice =>
        simp only [phase] at moved ⊢
        cases moved
        have unmoved : (manager.core.returned tid slice).mFiberQueue =
            manager.core.mFiberQueue := by
          unfold KScheduler.returned
          cases manager.core.mState slice.fiber <;> cases slice.isCb <;> rfl
        cases manager.core.mState slice.fiber <;> cases slice.isCb <;>
          exact queued.same unmoved rfl rfl
    | requeue slice =>
        simp only [phase] at moved ⊢
        cases moved
        have pushed : (manager.core.requeue tid slice).mFiberQueue =
            manager.core.mFiberQueue ++ [⟨.fiberPtr slice.fiber, 0, slice.origin⟩] :=
          KScheduler.release_mFiberQueue ..
        exact queued.record _ pushed rfl rfl
    | setHold slice =>
        simp only [phase] at moved ⊢
        cases moved
        exact queued.same (KScheduler.release_mFiberQueue ..) rfl rfl
  · contradiction

theorem Queued.scheduleNoLock (queued : Queued manager) {task : Option Work × Int}
    (stepped : manager.scheduleNoLock task = some after) : Queued after := by
  obtain ⟨work, th⟩ := task
  cases work with
  | none =>
      cases stepped
      refine ⟨queued.sound, ?_, queued.queue, queued.inOrder, queued.admitted⟩
      change manager.ledger.sent = (manager.scheduled ++ [(none, th)]).filterMap _
      rw [queued.nonNull, List.filterMap_append]
      exact (List.append_nil _).symm
  | some work =>
      obtain ⟨core, pushed, rfl⟩ := Option.map_eq_some_iff.mp stepped
      rw [KScheduler.step_schedule pushed]
      exact queued.record th rfl rfl rfl

end TaskScheduler

end FiberKcp.Scheduler
