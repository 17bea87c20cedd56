import FiberKcp.Scheduler.Idle
import FiberKcp.Timer.Order

namespace FiberKcp.Scheduler

open Data Timer

/-! The scheduler with its timers: `idle` computes the timeout of `epoll_wait`
from `mTimers`, takes the expired timers after it and ends when `stopping()`
holds. -/

/-- `timeoutms` of a thread in `idle`: not computed yet in this round, computed
from the front deadline, or kept by an `epoll_wait` that ended with `EINTR`.
`none` is the deadline of the empty set. -/
inductive Near where
  | unread
  | read (front : Option UInt64)
  | retry (front : Option UInt64)
deriving DecidableEq, Repr

def Near.front : Near → Option UInt64
  | .unread => none
  | .read front | .retry front => front

/-- `released` says that the thread has done `--mActiveThreadCount` after
`resume` returned.  Two fields are history: `adding` holds the callers of
`addTimer` that have not executed their `tickle`, and `outdated` says that a
timer was added since the thread's last `getNearTimeout`. -/
structure TimerScheduler where
  poll : PollScheduler
  timers : KTimerManager Nat
  near : Int → Near
  mActiveThreadCount : Nat
  released : Int → Bool
  adding : List Int
  outdated : Int → Bool

namespace TimerScheduler

def start (mThreadIds : List Int) (user : Bool) : TimerScheduler where
  poll := .start mThreadIds user
  timers := .initial
  near := fun _ => .unread
  mActiveThreadCount := 0
  released := fun _ => false
  adding := []
  outdated := fun _ => false

def setNear (manager : TimerScheduler) (tid : Int) (near : Near) : TimerScheduler :=
  { manager with near := Function.update manager.near tid near }

@[simp] theorem near_setNear_self (manager : TimerScheduler) (tid : Int) (near : Near) :
    (manager.setNear tid near).near tid = near := Function.update_self ..

theorem near_setNear_other (manager : TimerScheduler) {tid other : Int} (near : Near)
    (different : other ≠ tid) : (manager.setNear tid near).near other = manager.near other :=
  Function.update_of_ne different ..

/-- The code on the thread can call the timer functions: a task, the user, the
part of `idle` behind `epoll_wait` or its pass over the waiting queue. -/
def free (manager : TimerScheduler) (tid : Int) : Bool :=
  (manager.poll.calls tid ||
    decide (manager.poll.place tid = .poll ∧ manager.near tid = .unread)) &&
  !manager.poll.busy tid

/-- A step of `threadloop`, with the changes of `mActiveThreadCount` when a task
is taken and when it is dropped unrun. -/
def loop (manager : TimerScheduler) (tid : Int) : Option TimerScheduler :=
  (manager.poll.step (.advance tid)).bind fun poll =>
    let scanning := decide ((poll.core.worker tid).phase = .scan)
    match (manager.poll.core.worker tid).phase with
    | .scan => some { manager with
        poll, mActiveThreadCount := manager.mActiveThreadCount + (!scanning).toNat }
    | .dispatch _ => some { manager with
        poll, mActiveThreadCount := manager.mActiveThreadCount - scanning.toNat }
    | .returned _ =>
        if manager.released tid then
          some { manager with poll, released := Function.update manager.released tid false }
        else none
    | _ => some { manager with poll }

/-- `--mActiveThreadCount` after `resume`. -/
def release (manager : TimerScheduler) (tid : Int) : Option TimerScheduler :=
  match (manager.poll.core.worker tid).phase with
  | .returned _ =>
      if manager.poll.idle tid ∧ manager.released tid = false then
        some { manager with
          mActiveThreadCount := manager.mActiveThreadCount - 1
          released := Function.update manager.released tid true }
      else none
  | _ => none

/-- An event of the scheduler below.  `epoll_wait` needs the timeout, and
`listExpiredTimer` comes first behind it. -/
def pollStep (manager : TimerScheduler) (event : PollEvent) : Option TimerScheduler :=
  let along := (manager.poll.step event).map fun poll => { manager with poll }
  match event with
  | .advance tid =>
      match manager.poll.place tid with
      | .loop => manager.loop tid
      | .poll => if manager.near tid = .unread then none else along
      | .woken _ => if manager.near tid = .unread then along else none
      | _ => along
  | .testIdle tid =>
      along.map fun after =>
        if manager.poll.mIdleThreadCount > 0 then after
        else { after with adding := manager.adding.filter (· ≠ tid) }
  | .write tid _ =>
      along.map fun after => { after with adding := manager.adding.filter (· ≠ tid) }
  | .exit tid =>
      if manager.near tid = .read none ∧ manager.mActiveThreadCount = 0 then along else none
  | _ => along

def getNearTimeout (manager : TimerScheduler) (tid : Int) (now : UInt64) : TimerScheduler :=
  let front := manager.timers.mTimers.head?.map fun id => (manager.timers.timer id).mTime
  { manager.setNear tid (.read front) with
    timers := (manager.timers.getNearTimeout now).1
    outdated := Function.update manager.outdated tid false }

/-- `addTimer`, up to the call of `onTimerInsertedAtFront`. -/
def addTimer (manager : TimerScheduler) (tid : Int) (now ms : UInt64) (cb : Option Nat)
    (recycle bind : UInt32) : TimerScheduler :=
  let (timers, atFront) := manager.timers.addTimer now ms (cb.map .plain) recycle bind
  { manager with
    timers
    poll := manager.poll.decideTickle tid atFront
    adding := if atFront then tid :: manager.adding else manager.adding
    outdated := fun _ => true }

end TimerScheduler

/-- `interrupt` is an `epoll_wait` that ends with `EINTR`; in every other end
`idle` goes on to `listExpiredTimer`. -/
inductive TimerEvent where
  | poll (event : PollEvent)
  | release (tid : Int)
  | interrupt (tid : Int)
  | getNearTimeout (tid : Int) (now : UInt64)
  | addTimer (tid : Int) (now ms : UInt64) (cb : Option Nat) (recycle bind : UInt32)
  | delTimer (tid : Int) (timerId : Nat)
  | listExpiredTimer (tid : Int) (now : UInt64)
deriving DecidableEq, Repr

def TimerScheduler.step (manager : TimerScheduler) : TimerEvent → Option TimerScheduler
  | .poll event => manager.pollStep event
  | .release tid => manager.release tid
  | .interrupt tid =>
      if manager.poll.idle tid ∧ manager.poll.place tid = .blocked then
        some { manager.setNear tid (.retry (manager.near tid).front) with
          poll := manager.poll.setPlace tid .uncount }
      else none
  | .getNearTimeout tid now =>
      if manager.poll.idle tid ∧ manager.poll.place tid = .poll ∧ manager.near tid = .unread then
        some (manager.getNearTimeout tid now)
      else none
  | .addTimer tid now ms cb recycle bind =>
      if manager.free tid then some (manager.addTimer tid now ms cb recycle bind) else none
  | .delTimer tid timerId =>
      if manager.free tid then some { manager with timers := manager.timers.delTimer timerId }
      else none
  | .listExpiredTimer tid now =>
      match manager.poll.place tid with
      | .woken _ =>
          if manager.poll.idle tid ∧ manager.near tid ≠ .unread then
            some { manager.setNear tid .unread with
              timers := (manager.timers.listExpiredTimer now).1 }
          else none
      | _ => none

end FiberKcp.Scheduler
