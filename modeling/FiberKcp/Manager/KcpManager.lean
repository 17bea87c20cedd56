import Mathlib.Data.List.Basic
import FiberKcp.Data.Run
import FiberKcp.Timer.Manager
import FiberKcp.Kcp.Routines

namespace FiberKcp.Manager

open Data Timer

/-! `KcpManager` with the threads that run its `idle()`.  A `Kcp::SP` is a
number; the object behind it is set up before it is handed to the manager. -/

def epollEventSize : UInt32 := 1024

def EPOLLIN : UInt32 := 0x001
def EPOLLOUT : UInt32 := 0x004
def EPOLLERR : UInt32 := 0x008
def EPOLLHUP : UInt32 := 0x010

inductive KcpState where
  | notinit
  | inited
  | remove
deriving DecidableEq, Repr

/-- The member functions that the manager binds to the raw pointer of a `Kcp`. -/
inductive Routine where
  | inputRoutine (kcp : Nat)
  | outputRoutine (kcp : Nat)
deriving DecidableEq, Repr

def Routine.kcp : Routine → Nat
  | .inputRoutine kcp | .outputRoutine kcp => kcp

abbrev Callback := CallBack Routine

/-- The `Kcp` whose routine a call of the function runs. -/
def kcpOf : Callback → Option Nat
  | .plain routine => some routine.kcp
  | .onTimer _ cb => cb.map Routine.kcp

@[simp] theorem kcpOf_plain (routine : Routine) : kcpOf (.plain routine) = some routine.kcp := rfl

/-- What a `FiberBindThread` holds. -/
inductive Work where
  | fiberPtr (fiber : Nat)
  | cb (callback : Callback)
deriving DecidableEq, Repr

def Work.cb? : Work → Option Callback
  | .fiberPtr _ => none
  | .cb callback => some callback

/-! ## `KcpManager::Context` -/

/-- The `scheduler` of an event context is the manager itself. -/
structure EventContext where
  fiber : Option Nat := none
  cb : Option Callback := none
deriving DecidableEq, Repr

inductive Event where
  | read
  | write
deriving DecidableEq, Repr

/-- `new Context`, which leaves `timerId` and `tid` indeterminate. -/
structure Context where
  read : EventContext := {}
  write : EventContext := {}
  timerId : Nat := 0
  tid : UInt32 := 0
  fd : Int32 := 0
  events : UInt32 := 0
deriving DecidableEq, Repr

namespace Context

def getContext (ctx : Context) : Event → EventContext
  | .read => ctx.read
  | .write => ctx.write

def resetContext (ctx : Context) : Event → Context
  | .read => { ctx with read := {} }
  | .write => { ctx with write := {} }

/-- `triggerEvent`: the task it schedules. -/
def triggerEvent (ctx : Context) (event : Event) : List (Work × UInt32) :=
  match (ctx.getContext event).cb, (ctx.getContext event).fiber with
  | some cb, _ => [(.cb cb, ctx.tid)]
  | none, some fiber => [(.fiberPtr fiber, ctx.tid)]
  | none, none => []

/-- One event of the dispatch loop of `idle()`; the tests are disjunctions of
bits, as in the source. -/
def dispatch (ctx : Context) (events : UInt32) : List (Work × UInt32) :=
  let events :=
    if events &&& (EPOLLERR ||| EPOLLHUP) ≠ 0 then
      events ||| ((EPOLLIN ||| EPOLLOUT) &&& ctx.events)
    else events
  (if events ||| EPOLLIN ≠ 0 then ctx.triggerEvent .read else []) ++
    if events ||| EPOLLOUT ≠ 0 then ctx.triggerEvent .write else []

/-- The functions bound in the two event contexts. -/
def handlers (ctx : Context) : List Callback := ctx.read.cb.toList ++ ctx.write.cb.toList

end Context

/-- The loop of `contextResize`: null slots are filled, and the counter that
numbers them counts only these. -/
def fillContexts : Nat → List (Option Context) → List (Option Context)
  | _, [] => []
  | i, some ctx :: rest => some ctx :: fillContexts i rest
  | i, none :: rest => some { fd := Int32.ofNat i } :: fillContexts (i + 1) rest

def contextResize (size : Nat) (mContextVec : List (Option Context)) : List (Option Context) :=
  if size = mContextVec.length then mContextVec
  else fillContexts 0 (mContextVec.take size ++ List.replicate (size - mContextVec.length) none)

/-! ## The state -/

/-- One entry of the array `epoll_wait` fills; `data` holds the context of the
registered `fd`, or is that of `mEventFd`. -/
inductive EpollEvent where
  | eventFd
  | context (fd : Int32) (events : UInt32)
deriving DecidableEq, Repr

/-- Where a thread is.  `away` is `threadloop`, with `idle()` suspended before
its next round or, with `retry`, inside the `EINTR` loop.  From `passing` to
`timed` the thread is in the locked block with its iterator at `cursor`: in a
`NOTINIT` branch it has written the slot's `tid` (`opened`), then the callback
(`bound`), then has added the timer (`timed`). -/
inductive Stage where
  | away (retry : Bool)
  | passing (cursor : Nat)
  | opened (cursor : Nat)
  | bound (cursor : Nat)
  | timed (cursor : Nat) (timerId : Nat)
  | unlocked
  | polling
  | woken (events : List EpollEvent)
  | expired (cbs : List (Callback × UInt32)) (events : List EpollEvent)
  | dispatching (events : List EpollEvent)
  | running (work : Work) (retry : Bool)
deriving DecidableEq, Repr

/-- `epoll` is the interest list of `mEpollFd`, without `mEventFd`, and
`localEventCount` the local variable of each thread's `idle()`.  `registered` is
history: the Kcps that a `NOTINIT` branch added to epoll and that no `REMOVE`
branch has deregistered since. -/
structure KcpManager where
  mAttr : Nat → KcpAttr
  mBindTid : Nat → UInt32
  mThreadIds : List UInt32
  mThreadCount : UInt32
  mQueueMutex : Option UInt32 := none
  mWaitingQueue : List (Nat × KcpState) := []
  mContextVec : List (Option Context) := []
  mEventCount : UInt16 := 0
  epoll : List Int32 := []
  timers : KTimerManager Routine := .initial
  mFiberQueue : List (Work × UInt32) := []
  localEventCount : UInt32 → UInt32 := fun _ => 0
  stage : UInt32 → Stage := fun _ => .away false
  registered : List Nat := []

namespace KcpManager

/-- The manager after its constructor; the members `mBindTid` are not yet
written to, so they have any value. -/
def start (mAttr : Nat → KcpAttr) (mBindTid : Nat → UInt32) (mThreadIds : List UInt32)
    (mThreadCount : UInt32) : KcpManager where
  mAttr := mAttr
  mBindTid := mBindTid
  mThreadIds := mThreadIds
  mThreadCount := mThreadCount

def fd (manager : KcpManager) (kcp : Nat) : Int32 := (manager.mAttr kcp).fd

/-- The index of the Kcp's descriptor in `mContextVec`. -/
def slot (manager : KcpManager) (kcp : Nat) : Nat := (manager.fd kcp).toNatClampNeg

def setStage (manager : KcpManager) (tid : UInt32) (stage : Stage) : KcpManager :=
  { manager with stage := Function.update manager.stage tid stage }

def context? (manager : KcpManager) (index : Nat) : Option Context :=
  manager.mContextVec[index]?.join

def setContext (manager : KcpManager) (index : Nat) (ctx : Context) : KcpManager :=
  { manager with mContextVec := manager.mContextVec.set index (some ctx) }

def full (manager : KcpManager) : Prop := epollEventSize ≤ manager.mEventCount.toUInt32

instance (manager : KcpManager) : Decidable manager.full :=
  inferInstanceAs (Decidable (_ ≤ _))

def maxEvents (manager : KcpManager) : UInt32 :=
  epollEventSize / (if manager.mThreadCount ≠ 0 then manager.mThreadCount else 1) + 1

/-- `KcpCompare` as the order of the descriptors. -/
def kcpCompare (manager : KcpManager) (left right : Nat × KcpState) : Prop :=
  manager.fd left.1 < manager.fd right.1

instance (manager : KcpManager) : DecidableRel manager.kcpCompare :=
  fun _ _ => inferInstanceAs (Decidable (_ < _))

/-! ## `addKcp` and `delKcp` -/

/-- `addKcp`, with the value of `mEventCount` that it read before it locked
`mQueueMutex`.  The assertion of `KcpCompare` is left out here and in `delKcp`;
`WaitingQueue` has it. -/
def addKcp (manager : KcpManager) (mEventCount : UInt16) (kcp : Option Nat) : KcpManager × Bool :=
  if epollEventSize ≤ mEventCount.toUInt32 then (manager, false)
  else match kcp with
    | none => (manager, false)
    | some kcp =>
        ({ manager with
            mWaitingQueue := setInsert manager.kcpCompare (kcp, .notinit) manager.mWaitingQueue },
          manager.mWaitingQueue.all fun entry => manager.fd entry.1 ≠ manager.fd kcp)

/-- `delKcp`, which returns true.  At most one entry has the key; where there is
one, the assertion left out would fail. -/
def delKcp (manager : KcpManager) : Option Nat → KcpManager
  | none => manager
  | some kcp =>
      { manager with
        mWaitingQueue := manager.mWaitingQueue.map fun entry =>
          if manager.fd entry.1 = manager.fd kcp then (entry.1, .remove) else entry }

/-! ## The waiting-queue pass of `idle()` -/

/-- `Kcp::create`. -/
def create (manager : KcpManager) (kcp : Nat) (tid : UInt32) : KcpManager :=
  { manager with mBindTid := Function.update manager.mBindTid kcp tid }

/-- The growth step of the `NOTINIT` branch; the product of an `int` and 1.5 is
exact as a `double`. -/
def growContexts (manager : KcpManager) (index : Nat) : KcpManager :=
  { manager with
    mContextVec :=
      if manager.mContextVec.length ≤ index then
        contextResize (index + index / 2) manager.mContextVec
      else manager.mContextVec }

/-- The first writes to the slot.  There is no slot when the descriptor is
negative or the table did not grow past it. -/
def openContext (manager : KcpManager) (kcp : Nat) (tid : UInt32) : Option KcpManager :=
  if 0 ≤ manager.fd kcp then
    let manager := manager.growContexts (manager.slot kcp)
    (manager.context? (manager.slot kcp)).map fun ctx =>
      manager.setContext (manager.slot kcp)
        { ctx with events := EPOLLIN, fd := manager.fd kcp, tid := tid }
  else none

def bindCallback (manager : KcpManager) (kcp : Nat) : Option KcpManager :=
  (manager.context? (manager.slot kcp)).map fun ctx =>
    manager.setContext (manager.slot kcp)
      { ctx with read := { cb := some (.plain (.inputRoutine kcp)), fiber := none } }

/-- The timer of a `NOTINIT` branch, with its id. -/
def addOutputTimer (manager : KcpManager) (kcp : Nat) (tid : UInt32) (now : UInt64) :
    KTimerManager Routine × Nat :=
  let interval := (manager.mAttr kcp).interval
  ((manager.timers.addTimer now interval.toInt64.toUInt64 (some (.plain (.outputRoutine kcp)))
      interval.toUInt32 tid).1,
    manager.timers.gUniqueIdCount + 1)

def addTimer (manager : KcpManager) (kcp : Nat) (tid : UInt32) (now : UInt64) :
    Option KcpManager :=
  (manager.context? (manager.slot kcp)).map fun ctx =>
    { manager with timers := (manager.addOutputTimer kcp tid now).1 }.setContext
      (manager.slot kcp) { ctx with timerId := (manager.addOutputTimer kcp tid now).2 }

def eraseEntry (manager : KcpManager) (cursor : Nat) : KcpManager :=
  { manager with mWaitingQueue := manager.mWaitingQueue.eraseIdx cursor }

/-- After `EPOLL_CTL_ADD` succeeded. -/
def enroll (manager : KcpManager) (kcp : Nat) (tid : UInt32) : KcpManager :=
  { manager with
    epoll := manager.fd kcp :: manager.epoll
    mEventCount := manager.mEventCount + 1
    localEventCount :=
      Function.update manager.localEventCount tid (manager.localEventCount tid + 1)
    registered := manager.registered.insert kcp }

/-- After `EPOLL_CTL_ADD` failed. -/
def giveUp (manager : KcpManager) (kcp : Nat) (timerId : Nat) : Option KcpManager :=
  (manager.context? (manager.slot kcp)).map fun ctx =>
    { manager with
      timers := manager.timers.setTimer timerId (manager.timers.timer timerId).cancel }.setContext
        (manager.slot kcp) (ctx.resetContext .read)

/-- `EPOLL_CTL_ADD` fails for a descriptor that is in the interest list, and
for other reasons. -/
def addSucceeds (manager : KcpManager) (kcp : Nat) (accepted : Bool) : Prop :=
  accepted = true ∧ manager.fd kcp ∉ manager.epoll

instance (manager : KcpManager) (kcp : Nat) (accepted : Bool) :
    Decidable (manager.addSucceeds kcp accepted) :=
  inferInstanceAs (Decidable (_ ∧ _))

/-- The effects of the `REMOVE` branch, whose slot holds `ctx`. -/
def unregister (manager : KcpManager) (kcp : Nat) (tid : UInt32) (ctx : Context) : KcpManager :=
  { manager with
    epoll := manager.epoll.filter (· ≠ manager.fd kcp)
    timers := manager.timers.delTimer ctx.timerId
    mEventCount := manager.mEventCount - 1
    localEventCount :=
      Function.update manager.localEventCount tid (manager.localEventCount tid - 1)
    registered := manager.registered.filter (· ≠ kcp) }.setContext
      (manager.slot kcp) (ctx.resetContext .read)

/-- The body of the `REMOVE` branch on the thread that the Kcp is bound to. -/
def deregister (manager : KcpManager) (kcp : Nat) (tid : UInt32) : Option KcpManager :=
  if 0 ≤ manager.fd kcp then
    (manager.context? (manager.slot kcp)).map (manager.unregister kcp tid)
  else none

/-- One round of the loop over `mWaitingQueue`, up to the first writes of a
`NOTINIT` branch; at the end of the queue the lock is released. -/
def visit (manager : KcpManager) (tid : UInt32) (cursor : Nat) : Option KcpManager :=
  match manager.mWaitingQueue[cursor]? with
  | none => some ({ manager with mQueueMutex := none }.setStage tid .unlocked)
  | some (kcp, .notinit) =>
      if manager.full then some (manager.setStage tid (.passing (cursor + 1)))
      else ((manager.create kcp tid).openContext kcp tid).map (·.setStage tid (.opened cursor))
  | some (_, .inited) => some (manager.setStage tid (.passing (cursor + 1)))
  | some (kcp, .remove) =>
      if manager.mBindTid kcp = tid then
        (manager.deregister kcp tid).map (·.eraseEntry cursor)
      else some (manager.eraseEntry cursor)

/-- `EPOLL_CTL_ADD` with what depends on its result. -/
def epollCtlAdd (manager : KcpManager) (tid : UInt32) (kcp cursor timerId : Nat)
    (accepted : Bool) : Option KcpManager :=
  (if manager.addSucceeds kcp accepted then some (manager.enroll kcp tid)
    else manager.giveUp kcp timerId).map
    fun manager => (manager.eraseEntry cursor).setStage tid (.passing cursor)

/-! ## The steps of a thread -/

end KcpManager

/-- `accepted` says whether the kernel would take a new descriptor; `events` is
what `epoll_wait` reports. -/
inductive ThreadStep where
  | lockQueue
  | visit
  | bindCallback
  | addTimer (now : UInt64)
  | epollCtlAdd (accepted : Bool)
  | getNearTimeout (now : UInt64)
  | epollWait (events : List EpollEvent)
  | interrupted
  | retry
  | listExpiredTimer (now : UInt64)
  | schedule
  | dispatch
  | yield
  | begin
  | finish
deriving DecidableEq, Repr

namespace KcpManager

/-- `epoll_wait` reports descriptors of the interest list only. -/
def reportable (manager : KcpManager) : EpollEvent → Prop
  | .eventFd => True
  | .context fd _ => fd ∈ manager.epoll

instance (manager : KcpManager) (event : EpollEvent) : Decidable (manager.reportable event) := by
  cases event <;> simp only [reportable] <;> infer_instance

/-- The dispatch of one event; the tasks go to the end of the queue. -/
def dispatch (manager : KcpManager) : EpollEvent → Option KcpManager
  | .eventFd => some manager
  | .context fd events =>
      (manager.context? fd.toNatClampNeg).map fun ctx =>
        { manager with mFiberQueue := manager.mFiberQueue ++ ctx.dispatch events }

/-- `schedule(cbs.begin(), cbs.end())`. -/
def scheduleAll (manager : KcpManager) (cbs : List (Callback × UInt32)) : KcpManager :=
  { manager with
    mFiberQueue := manager.mFiberQueue ++ cbs.map fun (cb, tid) => (.cb cb, tid) }

/-- The condition of `threadloop` on the task it takes. -/
def admits (tid : UInt32) (task : Work × UInt32) : Bool := task.2 = 0 ∨ task.2 = tid

/-- The step of a thread at `stage`.  A routine runs to its end on the thread
that began it. -/
def idle (manager : KcpManager) (tid : UInt32) (stage : Stage) (step : ThreadStep) :
    Option KcpManager :=
  match stage with
  | .away retry =>
      match step, retry with
      | .lockQueue, false =>
          if manager.mQueueMutex = none then
            if manager.localEventCount tid < manager.maxEvents then
              some ({ manager with mQueueMutex := some tid }.setStage tid (.passing 0))
            else some (manager.setStage tid .unlocked)
          else none
      | .retry, true => some (manager.setStage tid .polling)
      | .begin, retry =>
          (manager.mFiberQueue.find? (admits tid)).map fun ft =>
            { manager with mFiberQueue := manager.mFiberQueue.eraseP (admits tid) }.setStage tid
              (.running ft.1 retry)
      | _, _ => none
  | .passing cursor =>
      match step with
      | .visit => manager.visit tid cursor
      | _ => none
  | .opened cursor =>
      match step with
      | .bindCallback =>
          manager.mWaitingQueue[cursor]?.bind fun it =>
            (manager.bindCallback it.1).map (·.setStage tid (.bound cursor))
      | _ => none
  | .bound cursor =>
      match step with
      | .addTimer now =>
          manager.mWaitingQueue[cursor]?.bind fun it =>
            (manager.addTimer it.1 tid now).map
              (·.setStage tid (.timed cursor (manager.timers.gUniqueIdCount + 1)))
      | _ => none
  | .timed cursor timerId =>
      match step with
      | .epollCtlAdd accepted =>
          manager.mWaitingQueue[cursor]?.bind fun it =>
            manager.epollCtlAdd tid it.1 cursor timerId accepted
      | _ => none
  | .unlocked =>
      match step with
      | .getNearTimeout now =>
          some ({ manager with timers := (manager.timers.getNearTimeout now).1 }.setStage tid
            .polling)
      | _ => none
  | .polling =>
      match step with
      | .epollWait events =>
          if events.length ≤ manager.maxEvents.toNat ∧
              ∀ event ∈ events, manager.reportable event then
            some (manager.setStage tid (.woken events))
          else none
      | .interrupted => some (manager.setStage tid (.away true))
      | _ => none
  | .woken events =>
      match step with
      | .listExpiredTimer now =>
          some ({ manager with timers := (manager.timers.listExpiredTimer now).1 }.setStage tid
            (.expired (manager.timers.listExpiredTimer now).2 events))
      | _ => none
  | .expired cbs events =>
      match step with
      | .schedule => some ((manager.scheduleAll cbs).setStage tid (.dispatching events))
      | _ => none
  | .dispatching events =>
      match step, events with
      | .dispatch, event :: rest =>
          (manager.dispatch event).map (·.setStage tid (.dispatching rest))
      | .yield, [] => some (manager.setStage tid (.away false))
      | _, _ => none
  | .running _ retry =>
      match step with
      | .finish => some (manager.setStage tid (.away retry))
      | _ => none

end KcpManager

/-- `close` is the last close of a socket, which takes it out of epoll. -/
inductive ManagerEvent where
  | addKcp (mEventCount : UInt16) (kcp : Option Nat)
  | delKcp (kcp : Option Nat)
  | close (fd : Int32)
  | thread (tid : UInt32) (step : ThreadStep)
deriving DecidableEq, Repr

def KcpManager.step (manager : KcpManager) : ManagerEvent → Option KcpManager
  | .addKcp mEventCount kcp =>
      if manager.mQueueMutex = none then some (manager.addKcp mEventCount kcp).1 else none
  | .delKcp kcp => if manager.mQueueMutex = none then some (manager.delKcp kcp) else none
  | .close fd => some { manager with epoll := manager.epoll.filter (· ≠ fd) }
  | .thread tid step =>
      if tid ∈ manager.mThreadIds then manager.idle tid (manager.stage tid) step else none

/-- The steps of a `NOTINIT` branch. -/
def notinitBranch (tid : UInt32) (now : UInt64) (accepted : Bool) : List ManagerEvent :=
  [.thread tid .visit, .thread tid .bindCallback, .thread tid (.addTimer now),
    .thread tid (.epollCtlAdd accepted)]

/-- A round of a thread's `idle()` at clock 0 in which no event arrives, with
the steps it takes at the entries of the waiting queue. -/
def idleRound (tid : UInt32) (pass : List ManagerEvent) : List ManagerEvent :=
  [.thread tid .lockQueue] ++ pass ++
    [.thread tid .visit, .thread tid (.getNearTimeout 0), .thread tid (.epollWait []),
      .thread tid (.listExpiredTimer 0), .thread tid .schedule, .thread tid .yield]

end FiberKcp.Manager
