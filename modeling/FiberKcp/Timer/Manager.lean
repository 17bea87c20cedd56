import Mathlib.Logic.Function.Basic
import FiberKcp.Data.OrderedSet
import FiberKcp.Timer.KTimer

namespace FiberKcp.Timer

open FiberKcp.Data

/-- `KTimerManager` together with the timer objects its handles point to.  A
`KTimer::SP` is represented by the object's unique id; `mTimers` lists the
pointers in iteration order, and the keys are read through the objects, which
callers can write to while the pointer is in the set. -/
structure KTimerManager (Action : Type) where
  timer : Nat → KTimer Action
  mTimers : List Nat
  mTickle : Bool
  gUniqueIdCount : Nat

namespace KTimerManager

variable {Action : Type}

/-- No timers; the objects behind unused ids are never read. -/
def initial : KTimerManager Action where
  timer := fun id => ⟨0, 0, 0, none, id⟩
  mTimers := []
  mTickle := false
  gUniqueIdCount := 0

/-- `KTimer::Comparator` on two pointers, through the objects as they are now. -/
def before (manager : KTimerManager Action) (left right : Nat) : Prop :=
  KTimer.Comparator (some (manager.timer left)) (some (manager.timer right)) = true

instance (manager : KTimerManager Action) : DecidableRel manager.before :=
  fun _ _ => inferInstanceAs (Decidable (_ = true))

instance (manager : KTimerManager Action) : IsTrans Nat manager.before :=
  ⟨fun _ _ _ => KTimer.comparator_trans⟩

def setTimer (manager : KTimerManager Action) (id : Nat) (timer : KTimer Action) :
    KTimerManager Action :=
  { manager with timer := Function.update manager.timer id timer }

/-- `KTimerManager::addTimer(KTimer::SP)` on a non-null pointer.  The flag says
whether `onTimerInsertedAtFront` is called: the iterator `insert` returns is
`begin()` exactly when the first element does not precede the inserted key. -/
def insertTimer (manager : KTimerManager Action) (id : Nat) : KTimerManager Action × Bool :=
  let mTimers := setInsert manager.before id manager.mTimers
  let atBegin := mTimers.head?.all fun front => !decide (manager.before front id)
  let atFront := atBegin && !manager.mTickle
  ({ manager with mTimers, mTickle := manager.mTickle || atFront }, atFront)

/-- The manager with a freshly constructed object, not yet in the set. -/
def construct (manager : KTimerManager Action) (now ms : UInt64)
    (cb : Option (CallBack Action)) (recycle tid : UInt32) : KTimerManager Action :=
  let id := manager.gUniqueIdCount + 1
  { manager.setTimer id (KTimer.construct now ms cb recycle tid id) with gUniqueIdCount := id }

/-- `KTimerManager::addTimer(ms, cb, recycle, tid)`; the timer handed back has
the id `gUniqueIdCount` of the resulting manager. -/
def addTimer (manager : KTimerManager Action) (now ms : UInt64)
    (cb : Option (CallBack Action)) (recycle tid : UInt32) : KTimerManager Action × Bool :=
  (manager.construct now ms cb recycle tid).insertTimer (manager.gUniqueIdCount + 1)

def addConditionTimer (manager : KTimerManager Action) (now ms : UInt64)
    (cb : Option Action) (cond : Nat) (recycle : UInt32) : KTimerManager Action × Bool :=
  manager.addTimer now ms (some (.onTimer cond cb)) recycle 0

/-- `KTimerManager::delTimer` erases the first pointer whose object has the id. -/
def delTimer (manager : KTimerManager Action) (timerId : Nat) : KTimerManager Action :=
  { manager with
    mTimers := manager.mTimers.eraseP fun id => (manager.timer id).mUniqueId == timerId }

/-- `KTimerManager::getNearTimeout` at clock `now`. -/
def getNearTimeout (manager : KTimerManager Action) (now : UInt64) :
    KTimerManager Action × UInt64 :=
  ({ manager with mTickle := false },
    match manager.mTimers with
    | [] => 0xffffffffffffffff
    | front :: _ =>
        if (manager.timer front).mTime ≤ now then 0 else (manager.timer front).mTime - now)

def due (manager : KTimerManager Action) (now : UInt64) (id : Nat) : Bool :=
  decide ((manager.timer id).mTime ≤ now)

/-- `timer->update(); mTimers.insert(timer)`, which leaves `mTickle` alone. -/
def rearm (manager : KTimerManager Action) (id : Nat) : KTimerManager Action :=
  let updated := manager.setTimer id (manager.timer id).update
  { updated with mTimers := setInsert updated.before id updated.mTimers }

/-- One round of the loop over `expired`: a cancelled timer is dropped, a
periodic one goes back into the set at its next deadline. -/
def fire (state : KTimerManager Action × List (CallBack Action × UInt32)) (id : Nat) :
    KTimerManager Action × List (CallBack Action × UInt32) :=
  let timer := state.1.timer id
  match timer.mCb with
  | none => state
  | some cb =>
      (if timer.mRecycleTime ≠ 0 then state.1.rearm id else state.1,
       state.2 ++ [(cb, timer.mTid)])

/-- `KTimerManager::listExpiredTimer` at clock `now`, with the callbacks it
appends to `cbs`. -/
def listExpiredTimer (manager : KTimerManager Action) (now : UInt64) :
    KTimerManager Action × List (CallBack Action × UInt32) :=
  if manager.mTimers.isEmpty then (manager, [])
  else
    (manager.mTimers.takeWhile (manager.due now)).foldl fire
      ({ manager with mTimers := manager.mTimers.dropWhile (manager.due now) }, [])

@[simp] theorem setTimer_timer_self (manager : KTimerManager Action) (id : Nat)
    (timer : KTimer Action) : (manager.setTimer id timer).timer id = timer := by
  simp [setTimer]

theorem setTimer_timer_other (manager : KTimerManager Action) {id other : Nat}
    (timer : KTimer Action) (different : other ≠ id) :
    (manager.setTimer id timer).timer other = manager.timer other := by
  simp [setTimer, different]

@[simp] theorem setTimer_mTimers (manager : KTimerManager Action) (id : Nat)
    (timer : KTimer Action) : (manager.setTimer id timer).mTimers = manager.mTimers := rfl

@[simp] theorem insertTimer_timer (manager : KTimerManager Action) (id : Nat) :
    (manager.insertTimer id).1.timer = manager.timer := rfl

@[simp] theorem insertTimer_mTimers (manager : KTimerManager Action) (id : Nat) :
    (manager.insertTimer id).1.mTimers = setInsert manager.before id manager.mTimers := rfl

@[simp] theorem insertTimer_gUniqueIdCount (manager : KTimerManager Action) (id : Nat) :
    (manager.insertTimer id).1.gUniqueIdCount = manager.gUniqueIdCount := rfl

@[simp] theorem rearm_timer_self (manager : KTimerManager Action) (id : Nat) :
    (manager.rearm id).timer id = (manager.timer id).update :=
  setTimer_timer_self manager id (manager.timer id).update

theorem rearm_timer_other (manager : KTimerManager Action) {id other : Nat}
    (different : other ≠ id) : (manager.rearm id).timer other = manager.timer other :=
  setTimer_timer_other manager (manager.timer id).update different

@[simp] theorem rearm_mTickle (manager : KTimerManager Action) (id : Nat) :
    (manager.rearm id).mTickle = manager.mTickle := rfl

end KTimerManager

/-- The operations of the public timer API, on the manager and on the handles
it gave out.  Every operation that reads the clock carries the value it reads. -/
inductive TimerOperation (Action : Type) where
  | addTimer (now ms : UInt64) (cb : Option Action) (recycle tid : UInt32)
  | addConditionTimer (now ms : UInt64) (cb : Option Action) (cond : Nat) (recycle : UInt32)
  | delTimer (timerId : Nat)
  | listExpiredTimer (now : UInt64)
  | getNearTimeout (now : UInt64)
  | cancel (id : Nat)
  | setNextTime (id : Nat) (timeMs : UInt64)
  | setRecycleTime (id : Nat) (ms : UInt64)
  | setCallback (id : Nat) (cb : Option Action)
  | reset (id : Nat) (now ms : UInt64) (cb : Option Action) (recycle tid : UInt32)
deriving DecidableEq, Repr

namespace KTimerManager

variable {Action : Type}

def handedOut (manager : KTimerManager Action) (id : Nat) : Prop :=
  0 < id ∧ id ≤ manager.gUniqueIdCount

instance (manager : KTimerManager Action) (id : Nat) : Decidable (manager.handedOut id) :=
  inferInstanceAs (Decidable (_ ∧ _))

/-- A write to a timer object through a handle; there is none to an object that
was never handed out. -/
def onHandle (manager : KTimerManager Action) (id : Nat)
    (write : KTimer Action → KTimer Action) : Option (KTimerManager Action) :=
  if manager.handedOut id then some (manager.setTimer id (write (manager.timer id))) else none

def perform (manager : KTimerManager Action) :
    TimerOperation Action → Option (KTimerManager Action)
  | .addTimer now ms cb recycle tid =>
      some (manager.addTimer now ms (cb.map .plain) recycle tid).1
  | .addConditionTimer now ms cb cond recycle =>
      some (manager.addConditionTimer now ms cb cond recycle).1
  | .delTimer timerId => some (manager.delTimer timerId)
  | .listExpiredTimer now => some (manager.listExpiredTimer now).1
  | .getNearTimeout now => some (manager.getNearTimeout now).1
  | .cancel id => manager.onHandle id KTimer.cancel
  | .setNextTime id timeMs => manager.onHandle id (·.setNextTime timeMs)
  | .setRecycleTime id ms => manager.onHandle id (·.setRecycleTime ms)
  | .setCallback id cb => manager.onHandle id (·.setCallback (cb.map .plain))
  | .reset id now ms cb recycle tid =>
      manager.onHandle id (·.reset now ms (cb.map .plain) recycle tid)

end KTimerManager

end FiberKcp.Timer
