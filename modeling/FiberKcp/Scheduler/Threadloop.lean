import FiberKcp.Data.Run
import FiberKcp.Fiber.KFiber

namespace FiberKcp.Scheduler

open FiberKcp.Fiber

/-! The threads of a `KScheduler` in `threadloop`, with the fibers they run.
A step is a block under `mQueueMutex`, an assignment of a state or a switch.
How one thread's switches use its slots is the subject of `Fiber`; here a
switch is between `threadloop` and the fiber it resumed. -/

/-- What a `FiberBindThread` holds: a fiber or a callback. -/
inductive Work where
  | fiberPtr (fiber : Nat)
  | cb (callback : Nat)
deriving DecidableEq, Repr

/-- `origin` is history: the thread id with which user code scheduled the task. -/
structure FiberBindThread where
  work : Work
  tid : Int
  origin : Int
deriving DecidableEq, Repr

/-- A task with thread id `th` can be taken by `tid`. -/
def Admits (th tid : Int) : Prop := th = 0 ∨ th = tid

instance (th tid : Int) : Decidable (Admits th tid) := inferInstanceAs (Decidable (_ ∨ _))

/-- One execution of a fiber, from a `resume` to its return.  `origin` is that of
the task which the thread took for it, `number` counts the executions of the
fiber, and `isCb` says that it runs in `cbFiber`. -/
structure Slice where
  fiber : Nat
  origin : Int
  isCb : Bool
  number : Nat
deriving DecidableEq, Repr

/-- What a thread does next: take a task; look at the task it took; set the
state of a fiber to `EXEC` and switch to it; run the fiber's code; switch out
after the code set the state; look at the state after `resume` returned;
schedule the fiber again or set its state to `HOLD`. -/
inductive Phase where
  | scan
  | dispatch (ft : FiberBindThread)
  | swapIn (slice : Slice)
  | switchIn (slice : Slice)
  | running (slice : Slice)
  | swapOut (slice : Slice) (ended : Bool)
  | returned (slice : Slice)
  | requeue (slice : Slice)
  | setHold (slice : Slice)
deriving DecidableEq, Repr

structure Worker where
  phase : Phase := .scan
  cbFiber : Option Nat := none
deriving DecidableEq, Repr

/-- `mCtx` holds the number of the execution that saved the context; `none` is
the context of a fiber that ended.  `slices` counts the executions begun. -/
structure KScheduler where
  mThreadIds : List Int
  worker : Int → Worker
  mFiberQueue : List FiberBindThread
  gFiberId : Nat
  mState : Nat → FiberState
  mCtx : Nat → Option Nat
  slices : Nat → Nat

namespace KScheduler

def start (mThreadIds : List Int) : KScheduler where
  mThreadIds := mThreadIds
  worker := fun _ => {}
  mFiberQueue := []
  gFiberId := 0
  mState := fun _ => .ready
  mCtx := fun _ => some 0
  slices := fun _ => 0

def setPhase (scheduler : KScheduler) (tid : Int) (phase : Phase) : KScheduler :=
  { scheduler with
    worker := Function.update scheduler.worker tid { scheduler.worker tid with phase } }

def setCbFiber (scheduler : KScheduler) (tid : Int) (cbFiber : Option Nat) : KScheduler :=
  { scheduler with
    worker := Function.update scheduler.worker tid { scheduler.worker tid with cbFiber } }

def setState (scheduler : KScheduler) (fiber : Nat) (state : FiberState) : KScheduler :=
  { scheduler with mState := Function.update scheduler.mState fiber state }

def setCtx (scheduler : KScheduler) (fiber : Nat) (ctx : Option Nat) : KScheduler :=
  { scheduler with mCtx := Function.update scheduler.mCtx fiber ctx }

def beginSlice (scheduler : KScheduler) (fiber : Nat) : KScheduler :=
  { scheduler with
    slices := Function.update scheduler.slices fiber (scheduler.slices fiber + 1) }

/-- `scheduleNoLock`. -/
def push (scheduler : KScheduler) (ft : FiberBindThread) : KScheduler :=
  { scheduler with mFiberQueue := scheduler.mFiberQueue ++ [ft] }

/-- `getcontext` and `makecontext`, then the state `READY`: what `reset` and
the constructor do. -/
def makeFiber (scheduler : KScheduler) (fiber : Nat) : KScheduler :=
  (scheduler.setCtx fiber (some (scheduler.slices fiber))).setState fiber .ready

def newFiber (scheduler : KScheduler) : KScheduler :=
  { scheduler.makeFiber scheduler.gFiberId with gFiberId := scheduler.gFiberId + 1 }

/-- The task is passed over by the scan of thread `tid`. -/
def skips (scheduler : KScheduler) (tid : Int) (it : FiberBindThread) : Bool :=
  (it.tid != 0 && it.tid != tid) ||
    match it.work with
    | .fiberPtr fiber => scheduler.mState fiber == .exec
    | .cb _ => false

/-- The scan of `mFiberQueue`: the first task not passed over, and the rest. -/
def takeTask (scheduler : KScheduler) (tid : Int) :
    List FiberBindThread → Option (FiberBindThread × List FiberBindThread)
  | [] => none
  | it :: rest =>
      if scheduler.skips tid it then
        (scheduler.takeTask tid rest).map fun (ft, left) => (ft, it :: left)
      else some (it, rest)

def scan (scheduler : KScheduler) (tid : Int) : KScheduler :=
  match scheduler.takeTask tid scheduler.mFiberQueue with
  | none => scheduler
  | some (ft, mFiberQueue) => { scheduler with mFiberQueue }.setPhase tid (.dispatch ft)

/-- From the task taken to the call of `resume`. -/
def dispatch (scheduler : KScheduler) (tid : Int) (ft : FiberBindThread) : Option KScheduler :=
  match ft.work with
  | .fiberPtr fiber =>
      if scheduler.mState fiber ≠ .exec ∧ scheduler.mState fiber ≠ .except then
        some (scheduler.setPhase tid (.swapIn ⟨fiber, ft.origin, false, 0⟩))
      else some (scheduler.setPhase tid .scan)
  | .cb _ =>
      match (scheduler.worker tid).cbFiber with
      | some fiber =>
          if scheduler.mState fiber = .term ∨ scheduler.mState fiber = .except ∨
              scheduler.mState fiber = .ready then
            some ((scheduler.makeFiber fiber).setPhase tid (.swapIn ⟨fiber, ft.origin, true, 0⟩))
          else none
      | none =>
          let fiber := scheduler.gFiberId
          some ((scheduler.newFiber.setCbFiber tid (some fiber)).setPhase tid
            (.swapIn ⟨fiber, ft.origin, true, 0⟩))

/-- `LOG_ASSERT(mState != EXEC)` and the assignment of `swapIn`. -/
def swapIn (scheduler : KScheduler) (tid : Int) (slice : Slice) : Option KScheduler :=
  if scheduler.mState slice.fiber = .exec then none
  else some ((scheduler.setState slice.fiber .exec).setPhase tid (.switchIn slice))

/-- The `swapcontext` of `swapIn`.  A fiber that ended goes on with
`LOG_ASSERT(false, "never reach here")`. -/
def switchIn (scheduler : KScheduler) (tid : Int) (slice : Slice) : Option KScheduler :=
  if scheduler.mCtx slice.fiber = none then none
  else
    some ((scheduler.beginSlice slice.fiber).setPhase tid
      (.running { slice with number := scheduler.slices slice.fiber + 1 }))

/-- The `swapcontext` of `swapOut`. -/
def swapOut (scheduler : KScheduler) (tid : Int) (slice : Slice) (ended : Bool) : KScheduler :=
  (scheduler.setCtx slice.fiber (if ended then none else some slice.number)).setPhase tid
    (.returned slice)

/-- `cbFiber` is given up when the fiber in it was not run to its end. -/
def release (scheduler : KScheduler) (tid : Int) (slice : Slice) : KScheduler :=
  if slice.isCb then scheduler.setCbFiber tid none else scheduler

/-- The tests of the state after `resume` returned. -/
def returned (scheduler : KScheduler) (tid : Int) (slice : Slice) : KScheduler :=
  match scheduler.mState slice.fiber with
  | .ready => scheduler.setPhase tid (.requeue slice)
  | .term | .except =>
      if slice.isCb then (scheduler.makeFiber slice.fiber).setPhase tid .scan
      else scheduler.setPhase tid .scan
  | .hold | .exec => scheduler.setPhase tid (.setHold slice)

/-- `schedule(ft.fiberPtr)` and `schedule(cbFiber)`, with the default thread. -/
def requeue (scheduler : KScheduler) (tid : Int) (slice : Slice) : KScheduler :=
  ((scheduler.push ⟨.fiberPtr slice.fiber, 0, slice.origin⟩).release tid slice).setPhase tid .scan

def setHold (scheduler : KScheduler) (tid : Int) (slice : Slice) : KScheduler :=
  ((scheduler.setState slice.fiber .hold).release tid slice).setPhase tid .scan

/-- The next step of a thread, when it is not up to the code of a fiber. -/
def threadloop (scheduler : KScheduler) (tid : Int) : Option KScheduler :=
  match (scheduler.worker tid).phase with
  | .scan => some (scheduler.scan tid)
  | .dispatch ft => scheduler.dispatch tid ft
  | .swapIn slice => scheduler.swapIn tid slice
  | .switchIn slice => scheduler.switchIn tid slice
  | .running _ => none
  | .swapOut slice ended => some (scheduler.swapOut tid slice ended)
  | .returned slice => some (scheduler.returned tid slice)
  | .requeue slice => some (scheduler.requeue tid slice)
  | .setHold slice => some (scheduler.setHold tid slice)

/-! What each helper leaves alone. -/

section Frames

variable (scheduler : KScheduler) (tid : Int) (slice : Slice)

@[simp] theorem worker_setPhase_self (phase : Phase) :
    (scheduler.setPhase tid phase).worker tid = { scheduler.worker tid with phase } :=
  Function.update_self ..

theorem worker_setPhase_other (phase : Phase) {other : Int} (different : other ≠ tid) :
    (scheduler.setPhase tid phase).worker other = scheduler.worker other :=
  Function.update_of_ne different ..

theorem worker_setCbFiber_other (cbFiber : Option Nat) {other : Int} (different : other ≠ tid) :
    (scheduler.setCbFiber tid cbFiber).worker other = scheduler.worker other :=
  Function.update_of_ne different ..

@[simp] theorem phase_setCbFiber (cbFiber : Option Nat) (other : Int) :
    ((scheduler.setCbFiber tid cbFiber).worker other).phase = (scheduler.worker other).phase := by
  by_cases same : other = tid
  · simp [setCbFiber, same]
  · simp [setCbFiber, same]

@[simp] theorem phase_release (other : Int) :
    ((scheduler.release tid slice).worker other).phase = (scheduler.worker other).phase := by
  unfold release
  split
  · exact scheduler.phase_setCbFiber tid none other
  · rfl

@[simp] theorem release_mFiberQueue :
    (scheduler.release tid slice).mFiberQueue = scheduler.mFiberQueue := by
  unfold release
  split <;> rfl

@[simp] theorem release_mThreadIds :
    (scheduler.release tid slice).mThreadIds = scheduler.mThreadIds := by
  unfold release
  split <;> rfl

end Frames

/-- The task taken was in the queue and not passed over; the others stay. -/
theorem takeTask_cases {scheduler : KScheduler} {tid : Int} {queue left : List FiberBindThread}
    {ft : FiberBindThread} (taken : scheduler.takeTask tid queue = some (ft, left)) :
    ∃ front back, queue = front ++ ft :: back ∧ left = front ++ back ∧
      scheduler.skips tid ft = false := by
  induction queue generalizing left with
  | nil => contradiction
  | cons it rest ih =>
      simp only [takeTask] at taken
      split at taken
      · obtain ⟨⟨first, remaining⟩, found, same⟩ := Option.map_eq_some_iff.mp taken
        cases same
        obtain ⟨front, back, rfl, rfl, kept⟩ := ih found
        exact ⟨it :: front, back, rfl, rfl, kept⟩
      · rename_i kept
        cases taken
        exact ⟨[], rest, rfl, rfl, Bool.not_eq_true _ ▸ kept⟩

theorem tid_of_not_skips {scheduler : KScheduler} {tid : Int} {it : FiberBindThread}
    (kept : scheduler.skips tid it = false) : Admits it.tid tid := by
  by_cases zero : it.tid = 0
  · exact .inl zero
  · by_cases same : it.tid = tid
    · exact .inr same
    · simp [skips, zero, same] at kept

end KScheduler

/-- How the code of a fiber gives control back. -/
inductive Leave where
  | yeild2Hold
  | yeild2Ready
  | terminate
  | throw
deriving DecidableEq, Repr

def Leave.state : Leave → FiberState
  | .yeild2Hold => .hold
  | .yeild2Ready => .ready
  | .terminate => .term
  | .throw => .except

def Leave.ended : Leave → Bool
  | .yeild2Hold | .yeild2Ready => false
  | .terminate | .throw => true

/-- The assignment before `swapOut`.  `Yeild2Hold` and `Yeild2Ready` assert the
state first. -/
def KScheduler.leave (scheduler : KScheduler) (tid : Int) (how : Leave) : Option KScheduler :=
  match (scheduler.worker tid).phase with
  | .running slice =>
      if how.ended = false ∧ scheduler.mState slice.fiber ≠ .exec then none
      else some ((scheduler.setState slice.fiber how.state).setPhase tid (.swapOut slice how.ended))
  | _ => none

/-- `schedule` is called by anybody, in a fiber or outside; `switchTo` is
`schedule` of the running fiber and `Yeild2Hold`. -/
inductive SchedulerEvent where
  | newFiber
  | schedule (work : Work) (th : Int)
  | threadloop (tid : Int)
  | leave (tid : Int) (how : Leave)
deriving DecidableEq, Repr

def KScheduler.step (scheduler : KScheduler) : SchedulerEvent → Option KScheduler
  | .newFiber => some scheduler.newFiber
  | .schedule (.fiberPtr fiber) th =>
      if fiber < scheduler.gFiberId then some (scheduler.push ⟨.fiberPtr fiber, th, th⟩) else none
  | .schedule (.cb callback) th => some (scheduler.push ⟨.cb callback, th, th⟩)
  | .threadloop tid =>
      if tid ∈ scheduler.mThreadIds then scheduler.threadloop tid else none
  | .leave tid how => if tid ∈ scheduler.mThreadIds then scheduler.leave tid how else none

namespace KScheduler

variable {scheduler after : KScheduler}

theorem step_schedule {work : Work} {th : Int}
    (stepped : scheduler.step (.schedule work th) = some after) :
    after = scheduler.push ⟨work, th, th⟩ := by
  cases work with
  | fiberPtr fiber =>
      simp only [step] at stepped
      split at stepped
      · exact (Option.some.inj stepped).symm
      · contradiction
  | cb callback => exact (Option.some.inj stepped).symm

/-- The queue after a step: as it was, with one more task at its end, or with
the task out that a thread has taken. -/
def QueueStep (scheduler after : KScheduler) : Prop :=
  after.mFiberQueue = scheduler.mFiberQueue ∨
    (∃ ft, after.mFiberQueue = scheduler.mFiberQueue ++ [ft]) ∨
    ∃ tid ∈ scheduler.mThreadIds, ∃ ft,
      scheduler.takeTask tid scheduler.mFiberQueue = some (ft, after.mFiberQueue)

theorem scan_queue {tid : Int} (member : tid ∈ scheduler.mThreadIds) :
    (scheduler.scan tid).mThreadIds = scheduler.mThreadIds ∧
      scheduler.QueueStep (scheduler.scan tid) := by
  unfold scan
  split
  · exact ⟨rfl, .inl rfl⟩
  · rename_i ft left taken
    exact ⟨rfl, .inr (.inr ⟨tid, member, ft, taken⟩)⟩

theorem threadloop_queue {tid : Int} (member : tid ∈ scheduler.mThreadIds)
    (stepped : scheduler.threadloop tid = some after) :
    after.mThreadIds = scheduler.mThreadIds ∧ scheduler.QueueStep after := by
  unfold threadloop at stepped
  cases phase : (scheduler.worker tid).phase with
  | scan =>
      simp only [phase] at stepped
      cases stepped
      exact scan_queue member
  | dispatch ft =>
      simp only [phase, dispatch] at stepped
      split at stepped
      · split at stepped <;> cases stepped <;> exact ⟨rfl, .inl rfl⟩
      · split at stepped
        · split at stepped <;> cases stepped
          exact ⟨rfl, .inl rfl⟩
        · cases stepped
          exact ⟨rfl, .inl rfl⟩
  | swapIn slice =>
      simp only [phase, swapIn] at stepped
      split at stepped <;> cases stepped
      exact ⟨rfl, .inl rfl⟩
  | switchIn slice =>
      simp only [phase, switchIn] at stepped
      split at stepped <;> cases stepped
      exact ⟨rfl, .inl rfl⟩
  | running slice =>
      simp only [phase] at stepped
      contradiction
  | swapOut slice ended =>
      simp only [phase] at stepped
      cases stepped
      exact ⟨rfl, .inl rfl⟩
  | returned slice =>
      simp only [phase] at stepped
      cases stepped
      unfold returned
      cases scheduler.mState slice.fiber <;> cases slice.isCb <;> exact ⟨rfl, .inl rfl⟩
  | requeue slice =>
      simp only [phase] at stepped
      cases stepped
      exact ⟨release_mThreadIds .., .inr (.inl ⟨_, release_mFiberQueue ..⟩)⟩
  | setHold slice =>
      simp only [phase] at stepped
      cases stepped
      exact ⟨release_mThreadIds .., .inl (release_mFiberQueue ..)⟩

theorem step_queue {event : SchedulerEvent} (stepped : scheduler.step event = some after) :
    after.mThreadIds = scheduler.mThreadIds ∧ scheduler.QueueStep after := by
  cases event with
  | newFiber =>
      cases stepped
      exact ⟨rfl, .inl rfl⟩
  | schedule work th =>
      rw [step_schedule stepped]
      exact ⟨rfl, .inr (.inl ⟨_, rfl⟩)⟩
  | threadloop tid =>
      simp only [step, Option.ite_none_right_eq_some] at stepped
      exact threadloop_queue stepped.1 stepped.2
  | leave tid how =>
      simp only [step, Option.ite_none_right_eq_some] at stepped
      obtain ⟨_, left⟩ := stepped
      unfold leave at left
      split at left
      · split at left <;> cases left
        exact ⟨rfl, .inl rfl⟩
      · contradiction

end KScheduler

end FiberKcp.Scheduler
