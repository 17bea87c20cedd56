import FiberKcp.Scheduler.Threadloop

namespace FiberKcp.Scheduler

/-! The scheduler with the `idle` and `tickle` of `KcpManager`: which threads
wait in `epoll_wait`, and who wakes them. -/

/-- `needTickle` of the scan. -/
def KScheduler.needTickle (scheduler : KScheduler) (tid : Int) : List FiberBindThread → Bool
  | [] => false
  | it :: rest =>
      if it.tid ≠ 0 ∧ it.tid ≠ tid then true
      else if scheduler.skips tid it then scheduler.needTickle tid rest
      else !rest.isEmpty

/-- Where a thread is: not yet in `threadloop` (the user caller), in it, before
`++mIdleThreadCount`, in `idle` before `epoll_wait`, in it, behind it, before
`--mIdleThreadCount`, or out of `threadloop`.  After a wait `fd` says that the
event of `mEventFd` is among those to handle. -/
inductive Place where
  | outside
  | loop
  | count
  | poll
  | blocked
  | woken (fd : Bool)
  | uncount
  | ended
deriving DecidableEq, Repr

/-- `deciding` and `writing` are the threads, of the scheduler or not, that
have to test `hasIdleThread` and to write to `mEventFd`.  `edge` says that a
write found nobody waiting; the next `epoll_wait` returns at once. -/
structure PollScheduler where
  core : KScheduler
  mThreadCount : Nat
  mIdleThreadCount : Nat := 0
  mStopping : Bool := false
  mEventFd : Nat := 0
  edge : Bool := false
  deciding : List Int := []
  writing : List Int := []
  place : Int → Place
  idleTerm : Int → Bool := fun _ => false

namespace PollScheduler

/-- With `user`, the thread of the user caller is the first of the list and is
not counted in `mThreadCount`. -/
def start (mThreadIds : List Int) (user : Bool) : PollScheduler where
  core := .start mThreadIds
  mThreadCount := mThreadIds.length - user.toNat
  place := if user then Function.update (fun _ => .loop) (mThreadIds.headD 0) .outside
    else fun _ => .loop

def setPlace (manager : PollScheduler) (tid : Int) (place : Place) : PollScheduler :=
  { manager with place := Function.update manager.place tid place }

@[simp] theorem place_setPlace_self (manager : PollScheduler) (tid : Int) (place : Place) :
    (manager.setPlace tid place).place tid = place :=
  Function.update_self ..

theorem place_setPlace_other (manager : PollScheduler) {tid other : Int} (place : Place)
    (different : other ≠ tid) : (manager.setPlace tid place).place other = manager.place other :=
  Function.update_of_ne different ..

/-- The thread's next step, when `needed`, is the test of `tickle`. -/
def decideTickle (manager : PollScheduler) (tid : Int) (needed : Bool) : PollScheduler :=
  if needed then { manager with deciding := tid :: manager.deciding } else manager

def busy (manager : PollScheduler) (tid : Int) : Bool :=
  manager.deciding.contains tid || manager.writing.contains tid

/-- The code of a task, of the user or behind `epoll_wait` runs on the thread. -/
def calls (manager : PollScheduler) (tid : Int) : Bool :=
  !manager.core.mThreadIds.contains tid ||
    match manager.place tid with
    | .outside | .woken _ => true
    | .loop =>
        match (manager.core.worker tid).phase with
        | .running _ => true
        | _ => false
    | _ => false

/-- `schedule`, of one task or of a range of them. -/
def schedule (manager : PollScheduler) (tid : Int) (tasks : List (Work × Int)) :
    Option PollScheduler :=
  let needTickle := manager.core.mFiberQueue.isEmpty && !tasks.isEmpty
  (tasks.foldlM (fun (core : KScheduler) task => core.step (.schedule task.1 task.2))
    manager.core).map fun core =>
      { manager with core }.decideTickle tid (needTickle && manager.mThreadCount != 0)

/-- `hasIdleThread()` in `tickle`. -/
def testIdle (manager : PollScheduler) (tid : Int) : PollScheduler :=
  let manager := { manager with deciding := manager.deciding.filter (· ≠ tid) }
  if manager.mIdleThreadCount > 0 then { manager with writing := tid :: manager.writing }
  else manager

/-- `eventfd_write`.  It ends the wait of the threads in `woken`, and of one at
least if there is one. -/
def write (manager : PollScheduler) (tid : Int) (woken : List Int) : Option PollScheduler :=
  let waiting := manager.core.mThreadIds.filter fun other => manager.place other = .blocked
  if (∀ other ∈ woken, other ∈ waiting) ∧ (woken = [] → waiting = []) then
    some { manager with
      writing := manager.writing.filter (· ≠ tid)
      mEventFd := manager.mEventFd + 1
      edge := manager.edge || waiting.isEmpty
      place := fun other => if other ∈ woken then .woken true else manager.place other }
  else none

/-- A step of `threadloop`.  Only the scan and `schedule` decide to tickle, and
only the scan sends the thread to its idle fiber. -/
def loop (manager : PollScheduler) (tid : Int) : Option PollScheduler :=
  let core := manager.core
  match (core.worker tid).phase with
  | .scan =>
      let needTickle := core.needTickle tid core.mFiberQueue
      let place := if (core.takeTask tid core.mFiberQueue).isSome then .loop
        else if manager.idleTerm tid then .ended else .count
      some (({ manager with core := core.scan tid }.setPlace tid place).decideTickle tid needTickle)
  | .requeue slice =>
      let needTickle := core.mFiberQueue.isEmpty && manager.mThreadCount != 0
      some ({ manager with core := core.requeue tid slice }.decideTickle tid needTickle)
  | _ => (core.threadloop tid).map fun core => { manager with core }

/-- The next step of a thread that is not in a task and not waiting. -/
def advance (manager : PollScheduler) (tid : Int) : Option PollScheduler :=
  match manager.place tid with
  | .loop => manager.loop tid
  | .count =>
      some ({ manager with mIdleThreadCount := manager.mIdleThreadCount + 1 }.setPlace tid .poll)
  | .poll =>
      if manager.edge then some ({ manager with edge := false }.setPlace tid (.woken true))
      else some (manager.setPlace tid .blocked)
  | .woken true => some ({ manager with mEventFd := 0 }.setPlace tid (.woken false))
  | .woken false => some (manager.setPlace tid .uncount)
  | .uncount =>
      some ({ manager with mIdleThreadCount := manager.mIdleThreadCount - 1 }.setPlace tid .loop)
  | .outside | .blocked | .ended => none

end PollScheduler

/-- `timeout` is any other end of an `epoll_wait`: a timer, a socket or a
signal.  `tickle` is the call in `stop` and in `onTimerInsertedAtFront`, and
`callRoot` the one of the root fiber in `stop`.  `exit` ends the idle fiber when
`stopping()` holds. -/
inductive PollEvent where
  | newFiber
  | schedule (tid : Int) (tasks : List (Work × Int))
  | tickle (tid : Int)
  | testIdle (tid : Int)
  | write (tid : Int) (woken : List Int)
  | advance (tid : Int)
  | leave (tid : Int) (how : Leave)
  | timeout (tid : Int)
  | stop
  | callRoot (tid : Int)
  | exit (tid : Int)
deriving DecidableEq, Repr

namespace PollScheduler

def idle (manager : PollScheduler) (tid : Int) : Bool :=
  manager.core.mThreadIds.contains tid && !manager.busy tid

def step (manager : PollScheduler) : PollEvent → Option PollScheduler
  | .newFiber => some { manager with core := manager.core.newFiber }
  | .schedule tid tasks =>
      if manager.calls tid ∧ ¬ manager.busy tid then manager.schedule tid tasks else none
  | .tickle tid =>
      if manager.calls tid ∧ ¬ manager.busy tid then some (manager.decideTickle tid true) else none
  | .testIdle tid => if tid ∈ manager.deciding then some (manager.testIdle tid) else none
  | .write tid woken => if tid ∈ manager.writing then manager.write tid woken else none
  | .advance tid => if manager.idle tid then manager.advance tid else none
  | .leave tid how =>
      if manager.idle tid ∧ manager.place tid = .loop then
        (manager.core.leave tid how).map fun core => { manager with core }
      else none
  | .timeout tid =>
      if manager.idle tid ∧ manager.place tid = .blocked then
        some (manager.setPlace tid (.woken false))
      else none
  | .stop => some { manager with mStopping := true }
  | .callRoot tid =>
      if manager.idle tid ∧ manager.place tid = .outside ∧ manager.mStopping then
        some (manager.setPlace tid .loop)
      else none
  | .exit tid =>
      if manager.idle tid ∧ manager.place tid = .poll ∧ manager.mStopping ∧
          manager.core.mFiberQueue = [] then
        some { manager.setPlace tid .uncount with
          idleTerm := Function.update manager.idleTerm tid true }
      else none

end PollScheduler

end FiberKcp.Scheduler
