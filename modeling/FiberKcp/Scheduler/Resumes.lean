import FiberKcp.Scheduler.Exclusion

namespace FiberKcp.Fiber

/-- `resume` is for fibers that wait. -/
def FiberState.waits : FiberState → Bool
  | .ready | .hold => true
  | _ => false

def FiberState.ended : FiberState → Bool
  | .term | .except => true
  | _ => false

theorem FiberState.not_ended_of_waits {state : FiberState} (waits : state.waits = true) :
    state.ended = false := by
  cases state <;> first | rfl | contradiction

end FiberKcp.Fiber

namespace FiberKcp.Scheduler

open Data FiberKcp.Fiber

/-! Which states the fibers are in that threads resume. -/

/-- The fiber whose `resume` is the thread's next step. -/
def Phase.resumes : Phase → Option Nat
  | .swapIn slice => some slice.fiber
  | _ => none

/-- The fiber that the thread is about to switch to. -/
def Phase.approaches : Phase → Option Nat
  | .swapIn slice | .switchIn slice => some slice.fiber
  | _ => none

theorem Phase.approaches_of_resumes {phase : Phase} {fiber : Nat}
    (found : phase.resumes = some fiber) : phase.approaches = some fiber := by
  cases phase <;> first | exact found | contradiction

/-- `resume` is called on waiting fibers only, and no switch goes to a context
that ended. -/
structure KScheduler.ResumesLive (scheduler : KScheduler) : Prop where
  waits : ∀ tid slice, (scheduler.worker tid).phase = .swapIn slice →
    (scheduler.mState slice.fiber).waits = true
  context : ∀ tid slice, (scheduler.worker tid).phase = .switchIn slice →
    scheduler.mCtx slice.fiber ≠ none

/-- The condition on a step of `threadloop`: a fiber from the queue is not
`TERM`; no other thread is about to resume the fiber that this one resumes; a
fiber that ended is still marked so when its thread switches out of it, and is
not set to `HOLD`. -/
def Phase.Lively (scheduler : KScheduler) (tid : Int) : Phase → Prop
  | .dispatch ft => ∀ fiber ∈ ft.work.fiber, scheduler.mState fiber ≠ .term
  | .swapIn slice => ∀ other ∈ scheduler.mThreadIds, other ≠ tid →
      (scheduler.worker other).phase.resumes ≠ some slice.fiber
  | .swapOut slice ended => ended = true → (scheduler.mState slice.fiber).ended = true
  | .setHold slice => (scheduler.mState slice.fiber).ended = false
  | _ => True

instance (scheduler : KScheduler) (tid : Int) (phase : Phase) :
    Decidable (phase.Lively scheduler tid) :=
  match phase with
  | .dispatch ft => inferInstanceAs (Decidable (∀ fiber ∈ ft.work.fiber, _ ≠ _))
  | .swapIn _ => inferInstanceAs (Decidable (∀ other ∈ scheduler.mThreadIds, _ → _ ≠ _))
  | .swapOut _ ended => inferInstanceAs (Decidable (ended = true → _ = true))
  | .setHold _ => inferInstanceAs (Decidable (_ = false))
  | .scan | .switchIn _ | .running _ | .returned _ | .requeue _ => inferInstanceAs (Decidable True)

/-- Nor does code of a fiber end on one thread while another is about to switch
to the fiber. -/
def endsAlone (scheduler : KScheduler) : SchedulerEvent → Prop
  | .threadloop tid => (scheduler.worker tid).phase.Lively scheduler tid
  | .leave tid how => how.ended = true → ∀ other ∈ scheduler.mThreadIds,
      (scheduler.worker other).phase.approaches = none ∨
        (scheduler.worker other).phase.approaches ≠ (scheduler.worker tid).phase.fiber
  | _ => True

instance (scheduler : KScheduler) (event : SchedulerEvent) :
    Decidable (endsAlone scheduler event) :=
  match event with
  | .threadloop tid =>
      inferInstanceAs (Decidable ((scheduler.worker tid).phase.Lively scheduler tid))
  | .leave _ _ => inferInstanceAs (Decidable (_ → ∀ other ∈ scheduler.mThreadIds, _ ∨ _))
  | .newFiber | .schedule _ _ => inferInstanceAs (Decidable True)

structure Lively (scheduler : KScheduler) : Prop where
  waits : ∀ tid slice, (scheduler.worker tid).phase = .swapIn slice →
    (scheduler.mState slice.fiber).waits = true
  entered : ∀ tid slice, (scheduler.worker tid).phase = .switchIn slice →
    (scheduler.mState slice.fiber).ended = false
  context : ∀ fiber, (scheduler.mState fiber).ended = false → scheduler.mCtx fiber ≠ none
  worker : ∀ tid ∉ scheduler.mThreadIds, (scheduler.worker tid).phase = .scan

theorem Lively.resumesLive {scheduler : KScheduler} (lively : Lively scheduler) :
    scheduler.ResumesLive :=
  ⟨lively.waits, fun tid slice phase => lively.context _ (lively.entered tid slice phase)⟩

theorem lively_start (mThreadIds : List Int) : Lively (KScheduler.start mThreadIds) := by
  refine ⟨fun _ _ phase => ?_, fun _ _ phase => ?_, fun _ _ => Option.some_ne_none _,
    fun _ _ => rfl⟩
  · cases phase
  · cases phase

section Steps

variable {scheduler after : KScheduler} {tid : Int}

/-- Nothing that the invariant speaks of has changed. -/
theorem Lively.congr (lively : Lively scheduler) (ids : after.mThreadIds = scheduler.mThreadIds)
    (phases : ∀ tid, (after.worker tid).phase = (scheduler.worker tid).phase)
    (mState : after.mState = scheduler.mState) (mCtx : after.mCtx = scheduler.mCtx) :
    Lively after := by
  refine ⟨fun tid slice => ?_, fun tid slice => ?_, ?_, fun tid => ?_⟩
  · rw [phases, mState]
    exact lively.waits tid slice
  · rw [phases, mState]
    exact lively.entered tid slice
  · rw [mState, mCtx]
    exact lively.context
  · rw [ids, phases]
    exact lively.worker tid

theorem Lively.setPhase (lively : Lively scheduler) (worker : tid ∈ scheduler.mThreadIds)
    {phase : Phase}
    (waits : ∀ slice, phase = .swapIn slice → (scheduler.mState slice.fiber).waits = true)
    (entered : ∀ slice, phase = .switchIn slice →
      (scheduler.mState slice.fiber).ended = false) :
    Lively (scheduler.setPhase tid phase) := by
  refine ⟨fun other slice found => ?_, fun other slice found => ?_, lively.context,
    fun other outside => ?_⟩
  · by_cases same : other = tid
    · subst same
      rw [KScheduler.worker_setPhase_self] at found
      exact waits slice found
    · rw [KScheduler.worker_setPhase_other _ _ _ same] at found
      exact lively.waits other slice found
  · by_cases same : other = tid
    · subst same
      rw [KScheduler.worker_setPhase_self] at found
      exact entered slice found
    · rw [KScheduler.worker_setPhase_other _ _ _ same] at found
      exact lively.entered other slice found
  · have different : other ≠ tid := fun same => outside (same ▸ worker)
    rw [KScheduler.worker_setPhase_other _ _ _ different]
    exact lively.worker other outside

theorem Lively.toScan (lively : Lively scheduler) (worker : tid ∈ scheduler.mThreadIds) :
    Lively (scheduler.setPhase tid .scan) :=
  lively.setPhase worker (fun _ found => nomatch found) fun _ found => nomatch found

/-- The state of a fiber changes while no thread needs the old one. -/
theorem Lively.setState (lively : Lively scheduler) {fiber : Nat} {state : FiberState}
    (waits : state.waits = false → ∀ tid, (scheduler.worker tid).phase.resumes ≠ some fiber)
    (entered : state.ended = true → ∀ tid, (scheduler.worker tid).phase.approaches ≠ some fiber)
    (context : state.ended = false → scheduler.mCtx fiber ≠ none) :
    Lively (scheduler.setState fiber state) := by
  have other : ∀ {fiber'}, fiber' ≠ fiber →
      (scheduler.setState fiber state).mState fiber' = scheduler.mState fiber' :=
    fun different => Function.update_of_ne different ..
  have self : (scheduler.setState fiber state).mState fiber = state := Function.update_self ..
  refine ⟨fun tid slice phase => ?_, fun tid slice phase => ?_, fun fiber' live => ?_,
    lively.worker⟩
  · by_cases same : slice.fiber = fiber
    · rw [same, self, ← Bool.not_eq_false]
      intro waitsNot
      refine waits waitsNot tid ?_
      change (scheduler.worker tid).phase = _ at phase
      rw [phase, Phase.resumes, same]
    · rw [other same]
      exact lively.waits tid slice phase
  · by_cases same : slice.fiber = fiber
    · rw [same, self, ← Bool.not_eq_true]
      intro ended
      refine entered ended tid ?_
      change (scheduler.worker tid).phase = _ at phase
      rw [phase, Phase.approaches, same]
    · rw [other same]
      exact lively.entered tid slice phase
  · by_cases same : fiber' = fiber
    · subst same
      exact context (self ▸ live)
    · rw [other same] at live
      exact lively.context fiber' live

/-- To a state in which the fiber waits. -/
theorem Lively.settle (lively : Lively scheduler) {fiber : Nat} {state : FiberState}
    (waits : state.waits = true) (context : scheduler.mCtx fiber ≠ none) :
    Lively (scheduler.setState fiber state) := by
  have live := FiberState.not_ended_of_waits waits
  refine lively.setState (fun waitsNot => ?_) (fun ended => ?_) fun _ => context
  · exact absurd (waits.symm.trans waitsNot) (by decide)
  · exact absurd (live.symm.trans ended) (by decide)

theorem Lively.setCtx (lively : Lively scheduler) {fiber : Nat} {ctx : Option Nat}
    (context : (scheduler.mState fiber).ended = false → ctx ≠ none) :
    Lively (scheduler.setCtx fiber ctx) := by
  refine ⟨lively.waits, lively.entered, fun other live => ?_, lively.worker⟩
  by_cases same : other = fiber
  · subst same
    exact ne_of_eq_of_ne (Function.update_self ..) (context live)
  · exact ne_of_eq_of_ne (Function.update_of_ne same ..) (lively.context other live)

theorem Lively.makeFiber (lively : Lively scheduler) (fiber : Nat) :
    Lively (scheduler.makeFiber fiber) := by
  have made : Lively (scheduler.setCtx fiber (some (scheduler.slices fiber))) :=
    lively.setCtx fun _ => Option.some_ne_none _
  refine made.settle rfl ?_
  exact ne_of_eq_of_ne (Function.update_self ..) (Option.some_ne_none _)

theorem ready_makeFiber (fiber : Nat) : (scheduler.makeFiber fiber).mState fiber = .ready :=
  Function.update_self ..

theorem Lively.newFiber (lively : Lively scheduler) : Lively scheduler.newFiber :=
  (lively.makeFiber scheduler.gFiberId).congr rfl (fun _ => rfl) rfl rfl

theorem Lively.release (lively : Lively scheduler) (slice : Slice) :
    Lively (scheduler.release tid slice) := by
  unfold KScheduler.release
  split
  · exact lively.congr rfl (fun other => scheduler.phase_setCbFiber tid none other) rfl rfl
  · exact lively

theorem Lively.scan (lively : Lively scheduler) (worker : tid ∈ scheduler.mThreadIds) :
    Lively (scheduler.scan tid) := by
  unfold KScheduler.scan
  split
  · exact lively
  · rename_i mFiberQueue _
    have left : Lively { scheduler with mFiberQueue } := lively.congr rfl (fun _ => rfl) rfl rfl
    exact left.setPhase worker (fun _ found => nomatch found) fun _ found => nomatch found

theorem Lively.dispatch (lively : Lively scheduler) (worker : tid ∈ scheduler.mThreadIds)
    {ft : FiberBindThread} (permitted : (Phase.dispatch ft).Lively scheduler tid)
    (stepped : scheduler.dispatch tid ft = some after) : Lively after := by
  unfold KScheduler.dispatch at stepped
  split at stepped
  · rename_i fiber work
    have notTerm := permitted fiber (by rw [work]; rfl)
    split at stepped
    · rename_i state
      cases stepped
      refine lively.setPhase worker (fun slice found => ?_) fun slice found => nomatch found
      cases found
      cases now : scheduler.mState fiber with
      | ready => rfl
      | hold => rfl
      | exec => exact absurd now state.1
      | term => exact absurd now notTerm
      | except => exact absurd now state.2
    · cases stepped
      exact lively.toScan worker
  · split at stepped
    · rename_i fiber _
      split at stepped
      · cases stepped
        refine (lively.makeFiber fiber).setPhase worker (fun slice found => ?_)
          fun slice found => nomatch found
        cases found
        rw [ready_makeFiber]
        rfl
      · contradiction
    · cases stepped
      have made : Lively (scheduler.newFiber.setCbFiber tid (some scheduler.gFiberId)) :=
        lively.newFiber.congr rfl
          (fun other => scheduler.newFiber.phase_setCbFiber tid _ other) rfl rfl
      refine made.setPhase worker (fun slice found => ?_) fun slice found => nomatch found
      cases found
      change ((scheduler.makeFiber scheduler.gFiberId).mState scheduler.gFiberId).waits = true
      rw [ready_makeFiber]
      rfl

theorem Lively.swapIn (lively : Lively scheduler) (worker : tid ∈ scheduler.mThreadIds)
    {slice : Slice} (phase : (scheduler.worker tid).phase = .swapIn slice)
    (permitted : (Phase.swapIn slice).Lively scheduler tid)
    (stepped : scheduler.swapIn tid slice = some after) : Lively after := by
  unfold KScheduler.swapIn at stepped
  split at stepped
  · contradiction
  · cases stepped
    have live := FiberState.not_ended_of_waits (lively.waits tid slice phase)
    have entered : Lively (scheduler.setPhase tid (.switchIn slice)) := by
      refine lively.setPhase worker (fun next found => nomatch found) fun next found => ?_
      cases found
      exact live
    refine entered.setState (fun _ other found => ?_) (fun ended => nomatch ended) fun _ =>
      lively.context slice.fiber live
    by_cases same : other = tid
    · subst same
      rw [KScheduler.worker_setPhase_self] at found
      cases found
    · rw [KScheduler.worker_setPhase_other _ _ _ same] at found
      by_cases peer : other ∈ scheduler.mThreadIds
      · exact permitted other peer same found
      · rw [lively.worker other peer] at found
        cases found

theorem Lively.switchIn (lively : Lively scheduler) (worker : tid ∈ scheduler.mThreadIds)
    {slice : Slice} (stepped : scheduler.switchIn tid slice = some after) : Lively after := by
  unfold KScheduler.switchIn at stepped
  split at stepped
  · contradiction
  · cases stepped
    have begun : Lively (scheduler.beginSlice slice.fiber) :=
      lively.congr rfl (fun _ => rfl) rfl rfl
    exact begun.setPhase worker (fun _ found => nomatch found) fun _ found => nomatch found

theorem Lively.swapOut (lively : Lively scheduler) (worker : tid ∈ scheduler.mThreadIds)
    {slice : Slice} {ended : Bool} (permitted : (Phase.swapOut slice ended).Lively scheduler tid) :
    Lively (scheduler.swapOut tid slice ended) := by
  have saved : Lively (scheduler.setCtx slice.fiber
      (if ended then none else some slice.number)) := by
    refine lively.setCtx fun live => ?_
    cases ended with
    | false => exact Option.some_ne_none _
    | true => exact absurd (live.symm.trans (permitted rfl)) (by decide)
  exact saved.setPhase worker (fun _ found => nomatch found) fun _ found => nomatch found

theorem Lively.returned (lively : Lively scheduler) (worker : tid ∈ scheduler.mThreadIds)
    (slice : Slice) : Lively (scheduler.returned tid slice) := by
  have ended : Lively (if slice.isCb then (scheduler.makeFiber slice.fiber).setPhase tid .scan
      else scheduler.setPhase tid .scan) := by
    split
    · exact (lively.makeFiber slice.fiber).toScan worker
    · exact lively.toScan worker
  unfold KScheduler.returned
  cases scheduler.mState slice.fiber with
  | ready => exact lively.setPhase worker (fun _ found => nomatch found) fun _ found => nomatch found
  | term => exact ended
  | except => exact ended
  | hold => exact lively.setPhase worker (fun _ found => nomatch found) fun _ found => nomatch found
  | exec => exact lively.setPhase worker (fun _ found => nomatch found) fun _ found => nomatch found

theorem Lively.requeue (lively : Lively scheduler) (worker : tid ∈ scheduler.mThreadIds)
    (slice : Slice) : Lively (scheduler.requeue tid slice) := by
  have pushed : Lively (scheduler.push ⟨.fiberPtr slice.fiber, 0, slice.origin⟩) :=
    lively.congr rfl (fun _ => rfl) rfl rfl
  refine (pushed.release slice).toScan ?_
  rw [KScheduler.release_mThreadIds]
  exact worker

theorem Lively.setHold (lively : Lively scheduler) (worker : tid ∈ scheduler.mThreadIds)
    {slice : Slice} (permitted : (Phase.setHold slice).Lively scheduler tid) :
    Lively (scheduler.setHold tid slice) := by
  have held : Lively (scheduler.setState slice.fiber .hold) :=
    lively.settle rfl (lively.context slice.fiber permitted)
  refine (held.release slice).toScan ?_
  rw [KScheduler.release_mThreadIds]
  exact worker

theorem Lively.threadloop (lively : Lively scheduler) (worker : tid ∈ scheduler.mThreadIds)
    (permitted : (scheduler.worker tid).phase.Lively scheduler tid)
    (stepped : scheduler.threadloop tid = some after) : Lively after := by
  unfold KScheduler.threadloop at stepped
  cases phase : (scheduler.worker tid).phase with
  | scan =>
      simp only [phase] at stepped
      cases stepped
      exact lively.scan worker
  | dispatch ft =>
      simp only [phase] at stepped permitted
      exact lively.dispatch worker permitted stepped
  | swapIn slice =>
      simp only [phase] at stepped permitted
      exact lively.swapIn worker phase permitted stepped
  | switchIn slice =>
      simp only [phase] at stepped
      exact lively.switchIn worker stepped
  | running slice =>
      simp only [phase] at stepped
      contradiction
  | swapOut slice ended =>
      simp only [phase] at stepped permitted
      cases stepped
      exact lively.swapOut worker permitted
  | returned slice =>
      simp only [phase] at stepped
      cases stepped
      exact lively.returned worker slice
  | requeue slice =>
      simp only [phase] at stepped
      cases stepped
      exact lively.requeue worker slice
  | setHold slice =>
      simp only [phase] at stepped permitted
      cases stepped
      exact lively.setHold worker permitted

theorem Lively.leave (lively : Lively scheduler) (worker : tid ∈ scheduler.mThreadIds)
    {how : Leave} (permitted : endsAlone scheduler (.leave tid how))
    (stepped : scheduler.leave tid how = some after) : Lively after := by
  unfold KScheduler.leave at stepped
  split at stepped
  · rename_i slice phase
    split at stepped
    · contradiction
    · rename_i asserted
      cases stepped
      have set : Lively (scheduler.setState slice.fiber how.state) := by
        cases ends : how.ended with
        | false =>
            have executing : scheduler.mState slice.fiber = .exec :=
              Decidable.not_not.mp fun state => asserted ⟨ends, state⟩
            have waits : how.state.waits = true := by cases how <;> first | rfl | cases ends
            exact lively.settle waits (lively.context slice.fiber (by rw [executing]; rfl))
        | true =>
            have alone : ∀ other, (scheduler.worker other).phase.approaches ≠
                some slice.fiber := by
              intro other found
              by_cases peer : other ∈ scheduler.mThreadIds
              · rcases permitted ends other peer with nothing | different
                · cases nothing.symm.trans found
                · rw [phase] at different
                  exact different found
              · rw [lively.worker other peer] at found
                cases found
            have ended : how.state.ended = true := by cases how <;> first | rfl | cases ends
            refine lively.setState (fun _ other found => ?_) (fun _ => alone) fun live => ?_
            · exact alone other (Phase.approaches_of_resumes found)
            · exact absurd (live.symm.trans ended) (by decide)
      exact set.setPhase worker (fun _ found => nomatch found) fun _ found => nomatch found
  · contradiction

theorem Lively.push (lively : Lively scheduler) (ft : FiberBindThread) :
    Lively (scheduler.push ft) :=
  lively.congr rfl (fun _ => rfl) rfl rfl

theorem Lively.step {event : SchedulerEvent} (lively : Lively scheduler)
    (permitted : endsAlone scheduler event) (stepped : scheduler.step event = some after) :
    Lively after := by
  cases event with
  | newFiber =>
      cases stepped
      exact lively.newFiber
  | schedule work th =>
      cases work with
      | fiberPtr fiber =>
          simp only [KScheduler.step] at stepped
          split at stepped
          · cases stepped
            exact lively.push _
          · contradiction
      | cb callback =>
          cases stepped
          exact lively.push _
  | threadloop tid =>
      simp only [KScheduler.step] at stepped
      split at stepped
      · rename_i worker
        exact lively.threadloop worker permitted stepped
      · contradiction
  | leave tid how =>
      simp only [KScheduler.step] at stepped
      split at stepped
      · rename_i worker
        exact lively.leave worker permitted stepped
      · contradiction

end Steps

/-- Where a thread is with regard to its idle fiber: not in `threadloop`, in its
loop, before `idleFiber->resume()`, in the idle fiber, behind the `resume`, or
out of `threadloop`. -/
inductive Spot where
  | outside
  | loop
  | swapIdle
  | idling
  | idled
  | ended
deriving DecidableEq, Repr

/-- `idleFiber` is the state of the idle fiber of each thread, and `mRootFiber`
that of the root fiber, if there is one; `runner` is the thread that called it.
The threads in `calling` are in `stop` before `mRootFiber->call()`. -/
structure FiberScheduler where
  core : KScheduler
  spot : Int → Spot
  idleFiber : Int → FiberState := fun _ => .ready
  mRootFiber : Option FiberState := none
  runner : Option Int := none
  calling : List Int := []

namespace FiberScheduler

/-- With `user`, the thread of the user caller is the first of the list. -/
def start (mThreadIds : List Int) (user : Bool) : FiberScheduler where
  core := .start mThreadIds
  spot := if user then Function.update (fun _ => .loop) (mThreadIds.headD 0) .outside
    else fun _ => .loop
  mRootFiber := if user then some .ready else none

def setSpot (manager : FiberScheduler) (tid : Int) (spot : Spot) : FiberScheduler :=
  { manager with spot := Function.update manager.spot tid spot }

def setIdle (manager : FiberScheduler) (tid : Int) (state : FiberState) : FiberScheduler :=
  { manager with idleFiber := Function.update manager.idleFiber tid state }

/-- A step of the thread in `threadloop`, other than in its idle fiber.  When
there is no task it resumes the idle fiber, unless that is `TERM`. -/
def loop (manager : FiberScheduler) (tid : Int) : Option FiberScheduler :=
  (manager.core.step (.threadloop tid)).map fun core =>
    if (manager.core.worker tid).phase = .scan ∧
        manager.core.takeTask tid manager.core.mFiberQueue = none then
      { manager with core }.setSpot tid
        (if manager.idleFiber tid = FiberState.term then .ended else .swapIdle)
    else { manager with core }

/-- `idleFiber->resume()`, with the assertions of `swapIn` and of an ended fiber. -/
def resumeIdle (manager : FiberScheduler) (tid : Int) : Option FiberScheduler :=
  if manager.idleFiber tid = .exec ∨ (manager.idleFiber tid).ended then none
  else some ((manager.setIdle tid .exec).setSpot tid .idling)

/-- Behind `idleFiber->resume()`. -/
def idleReturned (manager : FiberScheduler) (tid : Int) : FiberScheduler :=
  (if (manager.idleFiber tid).ended then manager else manager.setIdle tid .hold).setSpot tid .loop

/-- User code runs on the thread, in a task, in its idle fiber or before the
thread is in `threadloop`. -/
def calls (manager : FiberScheduler) (tid : Int) : Bool :=
  match manager.spot tid with
  | .outside | .idling => true
  | .loop =>
      match (manager.core.worker tid).phase with
      | .running _ => true
      | _ => false
  | _ => false

/-- `mRootFiber->call()`.  The thread is in a `threadloop` of its own then; what
it ran before is left behind. -/
def call (manager : FiberScheduler) (tid : Int) : Option FiberScheduler :=
  if manager.mRootFiber.any FiberState.ended then none
  else
    some { (manager.setSpot tid .loop).setIdle tid .ready with
      core := (manager.core.setCbFiber tid none).setPhase tid .scan
      mRootFiber := some .exec
      runner := some tid
      calling := manager.calling.erase tid }

end FiberScheduler

/-- `stop` is the last test of `stop`, `mRootFiber && !stopping()`, with the
result of the virtual `stopping()`.  `endRoot` is the end of `threadloop` in the
root fiber. -/
inductive FiberEvent where
  | core (event : SchedulerEvent)
  | resumeIdle (tid : Int)
  | leaveIdle (tid : Int) (how : Leave)
  | idleReturned (tid : Int)
  | stop (tid : Int) (stopping : Bool)
  | call (tid : Int)
  | endRoot (tid : Int)
deriving DecidableEq, Repr

namespace FiberScheduler

def free (manager : FiberScheduler) (tid : Int) : Bool :=
  manager.core.mThreadIds.contains tid && !manager.calling.contains tid

def step (manager : FiberScheduler) : FiberEvent → Option FiberScheduler
  | .core (.threadloop tid) =>
      if manager.free tid ∧ manager.spot tid = .loop then manager.loop tid else none
  | .core (.leave tid how) =>
      if manager.free tid ∧ manager.spot tid = .loop then
        (manager.core.step (.leave tid how)).map fun core => { manager with core }
      else none
  | .core event => (manager.core.step event).map fun core => { manager with core }
  | .resumeIdle tid =>
      if manager.free tid ∧ manager.spot tid = .swapIdle then manager.resumeIdle tid else none
  | .leaveIdle tid how =>
      if manager.free tid ∧ manager.spot tid = .idling then
        some ((manager.setIdle tid how.state).setSpot tid .idled)
      else none
  | .idleReturned tid =>
      if manager.free tid ∧ manager.spot tid = .idled then some (manager.idleReturned tid)
      else none
  | .stop tid stopping =>
      if manager.free tid ∧ manager.calls tid then
        some (if manager.mRootFiber.isSome ∧ stopping = false then
          { manager with calling := tid :: manager.calling } else manager)
      else none
  | .call tid => if tid ∈ manager.calling then manager.call tid else none
  | .endRoot tid =>
      if manager.free tid ∧ manager.spot tid = .ended ∧ manager.runner = some tid then
        some { manager with mRootFiber := some .term, runner := none }
      else none

/-- Every `resume` and every `call` that a thread is about to make is on a fiber
that waits, and no switch goes to a context that ended. -/
structure ResumesLive (manager : FiberScheduler) : Prop where
  tasks : manager.core.ResumesLive
  idle : ∀ tid, manager.spot tid = .swapIdle → (manager.idleFiber tid).waits = true
  root : ∀ tid ∈ manager.calling, manager.mRootFiber.any FiberState.waits = true

end FiberScheduler

/-- The fibers end alone, the idle fibers do not throw, and `stop` goes on to
call the root fiber once. -/
def resumesLive (manager : FiberScheduler) : FiberEvent → Prop
  | .core event => endsAlone manager.core event
  | .leaveIdle _ how => how ≠ .throw
  | .stop _ stopping => stopping = false → manager.calling = [] ∧
      (manager.mRootFiber = none ∨ manager.mRootFiber = some .ready)
  | _ => True

instance (manager : FiberScheduler) (event : FiberEvent) :
    Decidable (resumesLive manager event) := by
  cases event <;> simp only [resumesLive] <;> infer_instance

namespace FiberScheduler

structure Alive (manager : FiberScheduler) : Prop where
  core : Lively manager.core
  noExcept : ∀ tid, manager.idleFiber tid ≠ .except
  idling : ∀ tid, manager.spot tid ≠ .idling → manager.idleFiber tid ≠ .exec
  swapIdle : ∀ tid, manager.spot tid = .swapIdle → manager.idleFiber tid ≠ .term
  root : manager.calling = [] ∨ ∃ tid ∈ manager.core.mThreadIds,
    manager.calling = [tid] ∧ manager.mRootFiber = some .ready
  runner : manager.runner ≠ none → manager.mRootFiber = some .exec

variable {manager after : FiberScheduler} {tid : Int}

theorem Alive.resumesLive (alive : Alive manager) : manager.ResumesLive := by
  refine ⟨alive.core.resumesLive, fun tid spot => ?_, fun tid member => ?_⟩
  · cases state : manager.idleFiber tid with
    | ready => rfl
    | hold => rfl
    | exec => exact absurd state (alive.idling tid (by rw [spot]; decide))
    | term => exact absurd state (alive.swapIdle tid spot)
    | except => exact absurd state (alive.noExcept tid)
  · rcases alive.root with none | ⟨other, _, _, ready⟩
    · rw [none] at member
      cases member
    · rw [ready]
      rfl

theorem alive_start (mThreadIds : List Int) (user : Bool) : Alive (start mThreadIds user) := by
  exact ⟨lively_start mThreadIds, fun _ => nofun, fun _ _ => nofun, fun _ _ => nofun, .inl rfl,
    nofun⟩

/-- The thread goes to another spot, its idle fiber to another state. -/
theorem Alive.move (alive : Alive manager) (core : Lively after.core)
    (spots : ∀ other ≠ tid, after.spot other = manager.spot other)
    (idles : ∀ other ≠ tid, after.idleFiber other = manager.idleFiber other)
    (noExcept : after.idleFiber tid ≠ .except)
    (idling : after.spot tid ≠ .idling → after.idleFiber tid ≠ .exec)
    (swapIdle : after.spot tid = .swapIdle → after.idleFiber tid ≠ .term)
    (root : after.calling = [] ∨ ∃ tid ∈ after.core.mThreadIds,
      after.calling = [tid] ∧ after.mRootFiber = some .ready)
    (runner : after.runner ≠ none → after.mRootFiber = some .exec) : Alive after := by
  refine ⟨core, fun other => ?_, fun other spot => ?_, fun other spot => ?_, root, runner⟩ <;>
    by_cases same : other = tid
  · exact same ▸ noExcept
  · rw [idles other same]
    exact alive.noExcept other
  · subst same
    exact idling spot
  · rw [spots other same] at spot
    rw [idles other same]
    exact alive.idling other spot
  · subst same
    exact swapIdle spot
  · rw [spots other same] at spot
    rw [idles other same]
    exact alive.swapIdle other spot

theorem mem_of_free (free : manager.free tid = true) : tid ∈ manager.core.mThreadIds := by
  rw [FiberScheduler.free, Bool.and_eq_true] at free
  simpa using free.1

theorem Alive.core_step (alive : Alive manager) (event : SchedulerEvent) {core : KScheduler}
    (permitted : endsAlone manager.core event) (stepped : manager.core.step event = some core) :
    Alive { manager with core } := by
  refine ⟨alive.core.step permitted stepped, alive.noExcept, alive.idling, alive.swapIdle, ?_,
    alive.runner⟩
  rw [(KScheduler.step_queue stepped).1]
  exact alive.root

theorem Alive.loop (alive : Alive manager) (looping : manager.spot tid = .loop)
    (permitted : endsAlone manager.core (.threadloop tid))
    (stepped : manager.loop tid = some after) : Alive after := by
  obtain ⟨core, moved, rfl⟩ := Option.map_eq_some_iff.mp stepped
  have next := alive.core_step (.threadloop tid) permitted moved
  have waits := alive.idling tid (by rw [looping]; decide)
  split
  · refine next.move next.core (fun other different => Function.update_of_ne different ..)
      (fun _ _ => rfl) (alive.noExcept tid) (fun _ => waits) (fun spot => ?_) next.root next.runner
    intro term
    change Function.update manager.spot tid _ tid = _ at spot
    change manager.idleFiber tid = .term at term
    rw [Function.update_self, if_pos term] at spot
    cases spot
  · exact next

theorem Alive.call (alive : Alive manager) (calling : tid ∈ manager.calling)
    (stepped : manager.call tid = some after) : Alive after := by
  unfold FiberScheduler.call at stepped
  split at stepped
  · contradiction
  · cases stepped
    rcases alive.root with none | ⟨other, worker, only, ready⟩
    · rw [none] at calling
      cases calling
    · rw [only] at calling
      cases List.mem_singleton.mp calling
      have left : Lively (manager.core.setCbFiber tid none) :=
        alive.core.congr rfl (fun other => manager.core.phase_setCbFiber tid none other) rfl rfl
      refine alive.move (left.toScan worker)
        (fun other different => Function.update_of_ne different ..)
        (fun other different => Function.update_of_ne different ..) ?_ (fun _ => ?_)
        (fun spot => ?_) (.inl ?_) fun _ => rfl
      · exact ne_of_eq_of_ne (Function.update_self ..) (by decide)
      · exact ne_of_eq_of_ne (Function.update_self ..) (by decide)
      · exact ne_of_eq_of_ne (Function.update_self ..) (by decide)
      · rw [only]
        exact List.erase_cons_head ..

theorem Alive.step {event : FiberEvent} (alive : Alive manager)
    (permitted : Scheduler.resumesLive manager event) (stepped : manager.step event = some after) :
    Alive after := by
  cases event with
  | core event =>
      cases event with
      | threadloop tid =>
          simp only [FiberScheduler.step] at stepped
          split at stepped
          · rename_i held
            exact alive.loop held.2 permitted stepped
          · contradiction
      | leave tid how =>
          simp only [FiberScheduler.step] at stepped
          split at stepped
          · obtain ⟨core, moved, rfl⟩ := Option.map_eq_some_iff.mp stepped
            exact alive.core_step (.leave tid how) permitted moved
          · contradiction
      | newFiber =>
          simp only [FiberScheduler.step] at stepped
          obtain ⟨core, moved, rfl⟩ := Option.map_eq_some_iff.mp stepped
          exact alive.core_step .newFiber trivial moved
      | schedule work th =>
          simp only [FiberScheduler.step] at stepped
          obtain ⟨core, moved, rfl⟩ := Option.map_eq_some_iff.mp stepped
          exact alive.core_step (.schedule work th) trivial moved
  | resumeIdle tid =>
      simp only [FiberScheduler.step, FiberScheduler.resumeIdle] at stepped
      split at stepped
      · split at stepped <;> cases stepped
        refine alive.move alive.core (fun other different => Function.update_of_ne different ..)
          (fun other different => Function.update_of_ne different ..) ?_ (fun spot => ?_)
          (fun spot => ?_) alive.root alive.runner
        · exact ne_of_eq_of_ne (Function.update_self ..) (by decide)
        · exact absurd (Function.update_self ..) spot
        · exact ne_of_eq_of_ne (Function.update_self ..) (by decide)
      · contradiction
  | leaveIdle tid how =>
      simp only [FiberScheduler.step] at stepped
      split at stepped
      · cases stepped
        refine alive.move alive.core (fun other different => Function.update_of_ne different ..)
          (fun other different => Function.update_of_ne different ..) ?_ (fun spot => ?_)
          (fun spot => ?_) alive.root alive.runner
        · refine ne_of_eq_of_ne (Function.update_self ..) ?_
          cases how <;> first | decide | exact absurd rfl permitted
        · refine ne_of_eq_of_ne (Function.update_self ..) ?_
          cases how <;> decide
        · cases (Function.update_self ..).symm.trans spot
      · contradiction
  | idleReturned tid =>
      simp only [FiberScheduler.step, FiberScheduler.idleReturned] at stepped
      split at stepped
      · rename_i held
        cases stepped
        have waits := alive.idling tid (by rw [held.2]; decide)
        split
        · refine alive.move alive.core (fun other different => Function.update_of_ne different ..)
            (fun _ _ => rfl) (alive.noExcept tid) (fun _ => waits) (fun spot => ?_) alive.root
            alive.runner
          cases (Function.update_self ..).symm.trans spot
        · refine alive.move alive.core (fun other different => Function.update_of_ne different ..)
            (fun other different => Function.update_of_ne different ..) ?_ (fun _ => ?_)
            (fun _ => ?_) alive.root alive.runner
          · exact ne_of_eq_of_ne (Function.update_self ..) (by decide)
          · exact ne_of_eq_of_ne (Function.update_self ..) (by decide)
          · exact ne_of_eq_of_ne (Function.update_self ..) (by decide)
      · contradiction
  | stop tid stopping =>
      simp only [FiberScheduler.step] at stepped
      split at stepped
      · rename_i held
        have worker := mem_of_free held.1
        cases stepped
        split
        · rename_i goesOn
          obtain ⟨none, root⟩ := permitted goesOn.2
          refine ⟨alive.core, alive.noExcept, alive.idling, alive.swapIdle,
            .inr ⟨tid, worker, ?_, ?_⟩, alive.runner⟩
          · exact congrArg (List.cons tid) none
          · rcases root with absent | ready
            · rw [absent] at goesOn
              cases goesOn.1
            · exact ready
        · exact alive
      · contradiction
  | call tid =>
      simp only [FiberScheduler.step] at stepped
      split at stepped
      · rename_i calling
        exact alive.call calling stepped
      · contradiction
  | endRoot tid =>
      simp only [FiberScheduler.step] at stepped
      split at stepped
      · rename_i held
        cases stepped
        refine ⟨alive.core, alive.noExcept, alive.idling, alive.swapIdle, .inl ?_, nofun⟩
        rcases alive.root with none | ⟨other, _, _, ready⟩
        · exact none
        · have executing := alive.runner (by simp [held.2.2])
          cases ready.symm.trans executing
      · contradiction

end FiberScheduler

/-- While fibers end alone, idle fibers do not throw and `stop` calls the root
fiber once, every `resume` and `call` is made on a fiber in `READY` or `HOLD`. -/
theorem only_live_resumed {mThreadIds : List Int} {user : Bool} {events : List FiberEvent}
    {last : FiberScheduler}
    (run : Run FiberScheduler.step resumesLive (FiberScheduler.start mThreadIds user) events last) :
    last.ResumesLive := by
  have alive : last.Alive :=
    run.invariant FiberScheduler.Alive (FiberScheduler.alive_start mThreadIds user)
      fun alive permitted stepped => alive.step permitted stepped
  exact alive.resumesLive

/-- Fiber 0 is scheduled twice and yields; the user caller's thread goes on with
it, and then resumes its idle fiber. -/
theorem only_live_resumed_of_user_caller :
    ∃ last, Run FiberScheduler.step resumesLive (FiberScheduler.start [1, 2] true)
        ([FiberEvent.core .newFiber, .core (.schedule (.fiberPtr 0) 0),
            .core (.schedule (.fiberPtr 0) 1)] ++
          List.replicate 4 (.core (.threadloop 2)) ++ [.core (.leave 2 .yeild2Hold)] ++
          List.replicate 3 (.core (.threadloop 2)) ++ [.stop 1 false, .call 1] ++
          List.replicate 4 (.core (.threadloop 1)) ++ [.core (.leave 1 .terminate)] ++
          List.replicate 3 (.core (.threadloop 1)) ++ [.resumeIdle 1]) last ∧
      last.core.mState 0 = .term ∧ last.ResumesLive := by
  refine Run.exists_shown (fun last => last.core.mState 0 = .term) (by decide +kernel)
    fun last run ended => ?_
  exact ⟨ended, only_live_resumed run⟩

/-- A fiber schedules itself and ends; the thread takes it again and is about to
resume it. -/
theorem ended_fiber_resumed :
    ∃ last, Run FiberScheduler.step anyStep (FiberScheduler.start [1] false)
        ([FiberEvent.core .newFiber, .core (.schedule (.fiberPtr 0) 0)] ++
          List.replicate 4 (.core (.threadloop 1)) ++
          [.core (.schedule (.fiberPtr 0) 0), .core (.leave 1 .terminate)] ++
          List.replicate 4 (.core (.threadloop 1))) last ∧
      ¬ last.ResumesLive := by
  refine Run.exists_shown (fun last => (last.core.worker 1).phase = .swapIn ⟨0, 0, false, 0⟩ ∧
    last.core.mState 0 = .term) (by decide +kernel) fun last run found => ?_
  obtain ⟨phase, ended⟩ := found
  intro live
  have waits := live.tasks.waits 1 _ phase
  rw [ended] at waits
  cases waits

end FiberKcp.Scheduler
