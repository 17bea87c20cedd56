import Mathlib.Algebra.Ring.Nat
import Mathlib.Algebra.Ring.Int.Defs
import Mathlib.Logic.Function.Basic

namespace FiberKcp.Fiber

/-! The fibers of one thread.  A fiber is known by its `mFiberId`; its `mCtx`
is a slot that holds a continuation of whatever code last saved one there. -/

inductive FiberState where
  | ready
  | hold
  | exec
  | term
  | except
deriving DecidableEq, Repr

/-- Where code goes on: in the code of `owner` after `point` of its switches.
The code of an ended fiber has nothing after its last switch but a failing
assertion. -/
structure Continuation where
  owner : Nat
  point : Nat
  ended : Bool := false
deriving DecidableEq, Repr

def Continuation.next (continuation : Continuation) : Continuation :=
  { continuation with point := continuation.point + 1 }

/-- `running` is the code that runs.  `resumer` is history: where the `resume`
or `call` that last entered a fiber goes on. -/
structure FiberThread where
  gThreadMainFiber : Nat
  gCurrentFiber : Nat
  mState : Nat → FiberState
  mCtx : Nat → Continuation
  running : Continuation
  resumer : Nat → Option Continuation

namespace FiberThread

/-- After `GetThis` has made the thread's main fiber; every other fiber is as
its constructor leaves it. -/
def start (gThreadMainFiber : Nat) : FiberThread where
  gThreadMainFiber := gThreadMainFiber
  gCurrentFiber := gThreadMainFiber
  mState := Function.update (fun _ => .ready) gThreadMainFiber .exec
  mCtx := fun fiber => ⟨fiber, 0, false⟩
  running := ⟨gThreadMainFiber, 0, false⟩
  resumer := fun _ => none

def setThis (thread : FiberThread) (fiber : Nat) : FiberThread :=
  { thread with gCurrentFiber := fiber }

def setState (thread : FiberThread) (fiber : Nat) (state : FiberState) : FiberThread :=
  { thread with mState := Function.update thread.mState fiber state }

/-- `swapcontext` on the slots of two fibers. -/
def swapcontext (thread : FiberThread) (oucp ucp : Nat) : Option FiberThread :=
  let mCtx := Function.update thread.mCtx oucp thread.running.next
  -- an ended fiber goes on with `LOG_ASSERT(false, "never reach here")`
  if (mCtx ucp).ended then none else some { thread with mCtx, running := mCtx ucp }

def enter (thread : FiberThread) (fiber : Nat) : Option FiberThread :=
  { thread with
    resumer := Function.update thread.resumer fiber (some thread.running.next) }.swapcontext
      thread.gThreadMainFiber fiber

def swapIn (thread : FiberThread) (fiber : Nat) : Option FiberThread :=
  let thread := thread.setThis fiber
  if thread.mState fiber = .exec then none else (thread.setState fiber .exec).enter fiber

def call (thread : FiberThread) (fiber : Nat) : Option FiberThread :=
  ((thread.setThis fiber).setState fiber .exec).enter fiber

def swapOut (thread : FiberThread) (fiber : Nat) : Option FiberThread :=
  (thread.setThis thread.gThreadMainFiber).swapcontext fiber thread.gThreadMainFiber

/-- `Yeild2Hold` and `Yeild2Ready`. -/
def yeild (thread : FiberThread) (state : FiberState) : Option FiberThread :=
  let ptr := thread.gCurrentFiber
  if thread.mState ptr = .exec then (thread.setState ptr state).swapOut ptr else none

/-- The end of `FiberEntry`, whose `curr` is the fiber that owns the code.  The
main fiber has no `FiberEntry`. -/
def finish (thread : FiberThread) (state : FiberState) : Option FiberThread :=
  let curr := thread.running.owner
  if curr = thread.gThreadMainFiber then none
  else
    { thread.setState curr state with
      running := { thread.running with ended := true } }.swapOut curr

end FiberThread

/-- What the running code does next; `back` is called on the fiber itself. -/
inductive SwitchEvent where
  | resume (fiber : Nat)
  | call (fiber : Nat)
  | yeild2Hold
  | yeild2Ready
  | back
  | terminate
  | throw
deriving DecidableEq, Repr

def FiberThread.step (thread : FiberThread) : SwitchEvent → Option FiberThread
  | .resume fiber => thread.swapIn fiber
  | .call fiber => thread.call fiber
  | .yeild2Hold => thread.yeild .hold
  | .yeild2Ready => thread.yeild .ready
  | .back => thread.swapOut thread.running.owner
  | .terminate => thread.finish .term
  | .throw => thread.finish .except

end FiberKcp.Fiber
