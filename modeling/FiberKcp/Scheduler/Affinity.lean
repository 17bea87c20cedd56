import FiberKcp.Scheduler.Naming
import FiberKcp.Scheduler.TaskQueue

namespace FiberKcp.Scheduler

open Data FiberKcp.Fiber

/-! On which thread a task scheduled for a thread is executed. -/

/-- The thread id with which the task at hand was scheduled. -/
def Phase.origin : Phase → Option Int
  | .scan => none
  | .dispatch ft => some ft.origin
  | .swapIn slice | .switchIn slice | .running slice | .swapOut slice _ | .returned slice
  | .requeue slice | .setHold slice => some slice.origin

/-- `scheduledFor` is history: the thread ids with which user code scheduled the
code that is in a fiber now.  A callback put into a fiber brings the id it was
scheduled with. -/
structure AffineScheduler where
  core : KScheduler
  scheduledFor : Nat → List Int := fun _ => []

namespace AffineScheduler

def start (mThreadIds : List Int) : AffineScheduler where
  core := .start mThreadIds

def account (scheduler : AffineScheduler) : SchedulerEvent → Nat → List Int
  | .schedule (.fiberPtr fiber) th =>
      Function.update scheduler.scheduledFor fiber (th :: scheduler.scheduledFor fiber)
  | .threadloop tid =>
      match (scheduler.core.worker tid).phase with
      | .dispatch ⟨.cb _, _, origin⟩ =>
          Function.update scheduler.scheduledFor (scheduler.core.nextCbFiber tid) [origin]
      | _ => scheduler.scheduledFor
  | _ => scheduler.scheduledFor

def step (scheduler : AffineScheduler) (event : SchedulerEvent) : Option AffineScheduler :=
  (scheduler.core.step event).map fun core => { core, scheduledFor := scheduler.account event }

/-- The code that runs on a thread was scheduled for it or for any thread, and
so was the task that resumed it. -/
def KeepsAffinity (scheduler : AffineScheduler) : Prop :=
  ∀ tid slice, (scheduler.core.worker tid).phase = .running slice →
    (∃ th ∈ scheduler.scheduledFor slice.fiber, Admits th tid) ∧ Admits slice.origin tid

end AffineScheduler

/-- A task scheduled for a thread may be executed anywhere without harm when
there is no other thread. -/
def KScheduler.Free (scheduler : KScheduler) (origin : Int) : Prop :=
  origin = 0 ∨ ∀ other ∈ scheduler.mThreadIds, other = origin

instance (scheduler : KScheduler) (origin : Int) : Decidable (scheduler.Free origin) :=
  inferInstanceAs (Decidable (_ ∨ _))

def Phase.BoundNotReady (scheduler : KScheduler) : Phase → Prop
  | .returned slice => scheduler.mState slice.fiber = .ready → scheduler.Free slice.origin
  | _ => True

instance (scheduler : KScheduler) (phase : Phase) : Decidable (phase.BoundNotReady scheduler) := by
  cases phase <;> simp only [Phase.BoundNotReady] <;> infer_instance

/-- No task scheduled for one of several threads is found `READY` when its
`resume` returned. -/
def boundNotReady (scheduler : KScheduler) : SchedulerEvent → Prop
  | .threadloop tid => (scheduler.worker tid).phase.BoundNotReady scheduler
  | _ => True

instance (scheduler : KScheduler) (event : SchedulerEvent) :
    Decidable (boundNotReady scheduler event) := by
  cases event <;> simp only [boundNotReady] <;> infer_instance

/-- Nothing but the thread itself can resume the fiber that it puts a callback
into, unless for a thread that may execute the callback. -/
def KScheduler.LoadsApart (scheduler : KScheduler) (tid : Int) : Phase → Prop
  | .dispatch ⟨.cb _, _, origin⟩ => scheduler.Free origin ∨
      (∀ it ∈ scheduler.mFiberQueue,
        it.work = .fiberPtr (scheduler.nextCbFiber tid) → it.origin = origin) ∧
      ∀ other ∈ scheduler.mThreadIds,
        (scheduler.worker other).phase.serves.map Prod.fst ≠ some (scheduler.nextCbFiber tid)
  | _ => True

instance (scheduler : KScheduler) (tid : Int) (phase : Phase) :
    Decidable (scheduler.LoadsApart tid phase) :=
  match phase with
  | .dispatch ⟨.cb _, _, origin⟩ => inferInstanceAs (Decidable (scheduler.Free origin ∨ _ ∧ _))
  | .dispatch ⟨.fiberPtr _, _, _⟩ | .scan | .swapIn _ | .switchIn _ | .running _ | .swapOut _ _
  | .returned _ | .requeue _ | .setHold _ => inferInstanceAs (Decidable True)

/-- A fiber that a callback is put into is not in the hands of others, nor is it
scheduled before the callback has begun. -/
def callbackApart (scheduler : KScheduler) : SchedulerEvent → Prop
  | .threadloop tid => scheduler.LoadsApart tid (scheduler.worker tid).phase
  | .schedule (.fiberPtr fiber) _ =>
      ∀ other ∈ scheduler.mThreadIds, (scheduler.worker other).phase.begins ≠ some fiber
  | _ => True

instance (scheduler : KScheduler) (event : SchedulerEvent) :
    Decidable (callbackApart scheduler event) :=
  match event with
  | .threadloop tid =>
      inferInstanceAs (Decidable (scheduler.LoadsApart tid (scheduler.worker tid).phase))
  | .schedule (.fiberPtr fiber) _ => inferInstanceAs (Decidable
      (∀ other ∈ scheduler.mThreadIds, (scheduler.worker other).phase.begins ≠ some fiber))
  | .schedule (.cb _) _ | .newFiber | .leave _ _ => inferInstanceAs (Decidable True)

/-- What keeps a task on its thread. -/
def bindingKept (scheduler : AffineScheduler) (event : SchedulerEvent) : Prop :=
  boundNotReady scheduler.core event ∧ callbackApart scheduler.core event

instance (scheduler : AffineScheduler) (event : SchedulerEvent) :
    Decidable (bindingKept scheduler event) :=
  inferInstanceAs (Decidable (_ ∧ _))

structure Bound (scheduler : KScheduler) : Prop where
  queue : ∀ it ∈ scheduler.mFiberQueue, it.origin = it.tid ∨ scheduler.Free it.origin
  workers : ∀ tid origin, (scheduler.worker tid).phase.origin = some origin →
    origin = 0 ∨ origin = tid
  requeued : ∀ tid slice, (scheduler.worker tid).phase = .requeue slice →
    scheduler.Free slice.origin

theorem bound_start (mThreadIds : List Int) : Bound (KScheduler.start mThreadIds) := by
  refine ⟨fun _ member => ?_, fun _ _ found => ?_, fun _ _ found => ?_⟩
  · exact (List.not_mem_nil member).elim
  · cases found
  · cases found

section Steps

variable {scheduler after : KScheduler} {tid : Int}

/-- Only the threads, the queue and the phases matter. -/
theorem Bound.congr (bound : Bound scheduler) (ids : after.mThreadIds = scheduler.mThreadIds)
    (queue : after.mFiberQueue = scheduler.mFiberQueue)
    (phases : ∀ tid, (after.worker tid).phase = (scheduler.worker tid).phase) : Bound after := by
  refine ⟨fun it member => ?_, fun tid origin found => ?_, fun tid slice found => ?_⟩
  · rw [KScheduler.Free, ids]
    exact bound.queue it (queue ▸ member)
  · exact bound.workers tid origin (phases tid ▸ found)
  · rw [KScheduler.Free, ids]
    exact bound.requeued tid slice (phases tid ▸ found)

theorem Bound.push (bound : Bound scheduler) {ft : FiberBindThread}
    (own : ft.origin = ft.tid ∨ scheduler.Free ft.origin) : Bound (scheduler.push ft) := by
  refine ⟨fun it member => ?_, bound.workers, bound.requeued⟩
  rcases List.mem_append.mp member with earlier | last
  · exact bound.queue it earlier
  · rw [List.mem_singleton.mp last]
    exact own

theorem Bound.setPhase (bound : Bound scheduler) {phase : Phase}
    (own : ∀ origin, phase.origin = some origin → origin = 0 ∨ origin = tid)
    (requeued : ∀ slice, phase = .requeue slice → scheduler.Free slice.origin) :
    Bound (scheduler.setPhase tid phase) := by
  refine ⟨bound.queue, fun other origin found => ?_, fun other slice found => ?_⟩
  · by_cases same : other = tid
    · subst same
      rw [KScheduler.worker_setPhase_self] at found
      exact own origin found
    · rw [KScheduler.worker_setPhase_other _ _ _ same] at found
      exact bound.workers other origin found
  · by_cases same : other = tid
    · subst same
      rw [KScheduler.worker_setPhase_self] at found
      exact requeued slice found
    · rw [KScheduler.worker_setPhase_other _ _ _ same] at found
      exact bound.requeued other slice found

theorem Bound.toScan (bound : Bound scheduler) : Bound (scheduler.setPhase tid .scan) :=
  bound.setPhase (fun _ found => nomatch found) (fun _ found => nomatch found)

theorem Bound.makeFiber (bound : Bound scheduler) (fiber : Nat) :
    Bound (scheduler.makeFiber fiber) :=
  bound.congr rfl rfl fun _ => rfl

theorem Bound.release (bound : Bound scheduler) (slice : Slice) :
    Bound (scheduler.release tid slice) :=
  bound.congr (scheduler.release_mThreadIds tid slice) (scheduler.release_mFiberQueue tid slice)
    fun other => scheduler.phase_release tid slice other

theorem Bound.scan (bound : Bound scheduler) (worker : tid ∈ scheduler.mThreadIds) :
    Bound (scheduler.scan tid) := by
  unfold KScheduler.scan
  split
  · exact bound
  · rename_i ft left taken
    obtain ⟨front, back, queue, rfl, kept⟩ := KScheduler.takeTask_cases taken
    have shrunk : Bound { scheduler with mFiberQueue := front ++ back } := by
      refine ⟨fun it member => bound.queue it ?_, bound.workers, bound.requeued⟩
      rw [queue]
      grind
    refine shrunk.setPhase (fun origin found => ?_) (fun _ found => nomatch found)
    cases found
    rcases bound.queue ft (by rw [queue]; simp) with own | zero | only
    · rw [own]
      exact KScheduler.tid_of_not_skips kept
    · exact .inl zero
    · exact .inr (only tid worker).symm

theorem Bound.dispatch (bound : Bound scheduler) {ft : FiberBindThread}
    (own : ∀ origin, some ft.origin = some origin → origin = 0 ∨ origin = tid)
    (stepped : scheduler.dispatch tid ft = some after) : Bound after := by
  unfold KScheduler.dispatch at stepped
  split at stepped
  · split at stepped <;> cases stepped
    · exact bound.setPhase own (fun _ found => nomatch found)
    · exact bound.toScan
  · split at stepped
    · rename_i fiber _
      split at stepped
      · cases stepped
        exact (bound.makeFiber fiber).setPhase own (fun _ found => nomatch found)
      · contradiction
    · cases stepped
      have made : Bound (scheduler.newFiber.setCbFiber tid (some scheduler.gFiberId)) :=
        bound.congr rfl rfl fun other => scheduler.newFiber.phase_setCbFiber tid _ other
      exact made.setPhase own (fun _ found => nomatch found)

theorem Bound.returned (bound : Bound scheduler) {slice : Slice}
    (own : ∀ origin, some slice.origin = some origin → origin = 0 ∨ origin = tid)
    (free : scheduler.mState slice.fiber = .ready → scheduler.Free slice.origin) :
    Bound (scheduler.returned tid slice) := by
  have ended : Bound (if slice.isCb then (scheduler.makeFiber slice.fiber).setPhase tid .scan
      else scheduler.setPhase tid .scan) := by
    split
    · exact (bound.makeFiber slice.fiber).toScan
    · exact bound.toScan
  unfold KScheduler.returned
  cases state : scheduler.mState slice.fiber with
  | ready =>
      refine bound.setPhase own fun _ found => ?_
      cases found
      exact free state
  | term => exact ended
  | except => exact ended
  | hold => exact bound.setPhase own fun _ found => by cases found
  | exec => exact bound.setPhase own fun _ found => by cases found

theorem Bound.threadloop (bound : Bound scheduler) (worker : tid ∈ scheduler.mThreadIds)
    (permitted : (scheduler.worker tid).phase.BoundNotReady scheduler)
    (stepped : scheduler.threadloop tid = some after) : Bound after := by
  have own := bound.workers tid
  have requeued := bound.requeued tid
  unfold KScheduler.threadloop at stepped
  cases phase : (scheduler.worker tid).phase with
  | scan =>
      simp only [phase] at stepped
      cases stepped
      exact bound.scan worker
  | dispatch ft =>
      simp only [phase] at stepped own
      exact bound.dispatch own stepped
  | swapIn slice =>
      simp only [phase, KScheduler.swapIn] at stepped own
      split at stepped
      · contradiction
      · cases stepped
        have set : Bound (scheduler.setState slice.fiber .exec) := bound.congr rfl rfl fun _ => rfl
        exact set.setPhase own fun _ found => by cases found
  | switchIn slice =>
      simp only [phase, KScheduler.switchIn] at stepped own
      split at stepped
      · contradiction
      · cases stepped
        have entered : Bound (scheduler.beginSlice slice.fiber) := bound.congr rfl rfl fun _ => rfl
        exact entered.setPhase own fun _ found => by cases found
  | running _ =>
      simp only [phase] at stepped
      contradiction
  | swapOut slice ended =>
      simp only [phase] at stepped own
      cases stepped
      have saved : Bound (scheduler.setCtx slice.fiber (if ended then none else some slice.number)) :=
        bound.congr rfl rfl fun _ => rfl
      exact saved.setPhase own fun _ found => by cases found
  | returned slice =>
      simp only [phase] at stepped own permitted
      cases stepped
      exact bound.returned own permitted
  | requeue slice =>
      simp only [phase] at stepped
      cases stepped
      exact ((bound.push (.inr (requeued slice phase))).release slice).toScan
  | setHold slice =>
      simp only [phase] at stepped
      cases stepped
      have held : Bound (scheduler.setState slice.fiber .hold) := bound.congr rfl rfl fun _ => rfl
      exact (held.release slice).toScan

theorem Bound.leave (bound : Bound scheduler) {how : Leave}
    (stepped : scheduler.leave tid how = some after) : Bound after := by
  have own := bound.workers tid
  unfold KScheduler.leave at stepped
  cases phase : (scheduler.worker tid).phase with
  | running slice =>
      simp only [phase] at stepped own
      split at stepped
      · contradiction
      · cases stepped
        have set : Bound (scheduler.setState slice.fiber how.state) :=
          bound.congr rfl rfl fun _ => rfl
        exact set.setPhase own fun _ found => by cases found
  | _ =>
      simp only [phase] at stepped
      contradiction

theorem Bound.step {event : SchedulerEvent} (bound : Bound scheduler)
    (permitted : boundNotReady scheduler event) (stepped : scheduler.step event = some after) :
    Bound after := by
  cases event with
  | newFiber =>
      cases stepped
      exact bound.congr rfl rfl fun _ => rfl
  | schedule work th =>
      cases work with
      | fiberPtr fiber =>
          simp only [KScheduler.step] at stepped
          split at stepped
          · cases stepped
            exact bound.push (.inl rfl)
          · contradiction
      | cb _ =>
          cases stepped
          exact bound.push (.inl rfl)
  | threadloop tid =>
      simp only [KScheduler.step] at stepped
      split at stepped
      · rename_i worker
        exact bound.threadloop worker permitted stepped
      · contradiction
  | leave tid how =>
      simp only [KScheduler.step] at stepped
      split at stepped
      · exact bound.leave stepped
      · contradiction

end Steps

/-- The code in the fiber was scheduled with the id of the task, or with one
that binds it to no thread. -/
def AffineScheduler.Covers (scheduler : AffineScheduler) (fiber : Nat) (origin : Int) : Prop :=
  ∃ th ∈ scheduler.scheduledFor fiber, th = origin ∨ scheduler.core.Free th

/-- Every task that names a fiber was scheduled for the code in it. -/
structure Covered (scheduler : AffineScheduler) : Prop where
  made : Made scheduler.core
  covers : ∀ fiber origin, scheduler.core.Names fiber origin → scheduler.Covers fiber origin

section Covered

variable {scheduler after : AffineScheduler} {tid : Int} {fiber : Nat} {origin th : Int}

theorem covers_of_subset (ids : after.core.mThreadIds = scheduler.core.mThreadIds)
    (subset : scheduler.scheduledFor fiber ⊆ after.scheduledFor fiber)
    (covers : scheduler.Covers fiber origin) : after.Covers fiber origin := by
  obtain ⟨th, member, covered⟩ := covers
  refine ⟨th, subset member, ?_⟩
  rw [KScheduler.Free, ids]
  exact covered

/-- A callback is put into a fiber that nothing else names, unless for a thread
that may execute the callback. -/
theorem Covered.load (covered : Covered scheduler) {callback : Nat}
    (apart : scheduler.core.LoadsApart tid (.dispatch ⟨.cb callback, th, origin⟩))
    (ids : after.core.mThreadIds = scheduler.core.mThreadIds)
    (account : after.scheduledFor = Function.update scheduler.scheduledFor
      (scheduler.core.nextCbFiber tid) [origin])
    {other : Int} (names : scheduler.core.Names fiber other) : after.Covers fiber other := by
  by_cases here : fiber = scheduler.core.nextCbFiber tid
  · subst here
    have loaded : origin ∈ after.scheduledFor (scheduler.core.nextCbFiber tid) := by simp [account]
    rcases apart with free | ⟨queued, working⟩
    · refine ⟨origin, loaded, .inr ?_⟩
      rw [KScheduler.Free, ids]
      exact free
    · rcases names with ⟨it, member, work, rfl⟩ | ⟨worker, serves⟩
      · exact ⟨origin, loaded, .inl (queued it member work).symm⟩
      · by_cases among : worker ∈ scheduler.core.mThreadIds
        · exact absurd (congrArg (Option.map Prod.fst) serves) (working worker among)
        · rw [covered.made.idle worker among] at serves
          cases serves
  · refine covers_of_subset ids ?_ (covered.covers fiber other names)
    rw [account, Function.update_of_ne here]
    exact List.Subset.refl _

theorem Covered.step {event : SchedulerEvent} (covered : Covered scheduler)
    (permitted : callbackApart scheduler.core event) (stepped : scheduler.step event = some after) :
    Covered after := by
  obtain ⟨core, advanced, rfl⟩ := Option.map_eq_some_iff.mp stepped
  refine ⟨covered.made.step advanced, fun fiber origin names => ?_⟩
  have ids := (KScheduler.step_queue advanced).1
  cases event with
  | newFiber =>
      cases advanced
      have before : scheduler.core.Names fiber origin := names_congr rfl (fun _ => rfl) names
      exact covers_of_subset ids (List.Subset.refl _) (covered.covers fiber origin before)
  | schedule work th =>
      rw [KScheduler.step_schedule advanced] at names
      cases work with
      | fiberPtr scheduled =>
          rcases names_push names with ⟨same, rfl⟩ | before
          · cases same
            exact ⟨th, by simp [AffineScheduler.account], .inl rfl⟩
          · refine covers_of_subset ids ?_ (covered.covers fiber origin before)
            by_cases here : fiber = scheduled
            · simp [AffineScheduler.account, here]
            · simp [AffineScheduler.account, Function.update_of_ne here]
      | cb callback =>
          rcases names_push names with ⟨same, _⟩ | before
          · cases same
          · exact covers_of_subset ids (List.Subset.refl _) (covered.covers fiber origin before)
  | threadloop tid =>
      simp only [KScheduler.step, Option.ite_none_right_eq_some] at advanced
      have advances := Advances.threadloop advanced.2
      by_cases loading : ∃ callback th origin,
          (scheduler.core.worker tid).phase = .dispatch ⟨.cb callback, th, origin⟩
      · obtain ⟨callback, th, loaded, phase⟩ := loading
        have account : scheduler.account (.threadloop tid) = Function.update scheduler.scheduledFor
            (scheduler.core.nextCbFiber tid) [loaded] := by
          simp only [AffineScheduler.account, phase]
        rcases advances.names fiber origin names with before | ⟨rfl, _, _, same⟩
        · have apart : scheduler.core.LoadsApart tid (scheduler.core.worker tid).phase := permitted
          exact covered.load (phase ▸ apart) ids account before
        · cases phase.symm.trans same
          exact ⟨origin, by simp [account], .inl rfl⟩
      · have account : scheduler.account (.threadloop tid) = scheduler.scheduledFor := by
          simp only [AffineScheduler.account]
          split
          · rename_i callback th origin phase
            exact absurd ⟨callback, th, origin, phase⟩ loading
          · rfl
        rcases advances.names fiber origin names with before | ⟨_, callback, th, phase⟩
        · refine covers_of_subset ids ?_ (covered.covers fiber origin before)
          exact account ▸ List.Subset.refl _
        · exact absurd ⟨callback, th, origin, phase⟩ loading
  | leave tid how =>
      simp only [KScheduler.step, Option.ite_none_right_eq_some] at advanced
      rcases (Advances.leave advanced.2).names fiber origin names with before | loads
      · exact covers_of_subset ids (List.Subset.refl _) (covered.covers fiber origin before)
      · obtain ⟨_, callback, th, phase⟩ := loads
        simp [KScheduler.leave, phase] at advanced

theorem Covers.admits (covers : scheduler.Covers fiber origin) (admits : Admits origin tid)
    (member : tid ∈ scheduler.core.mThreadIds) :
    ∃ th ∈ scheduler.scheduledFor fiber, Admits th tid := by
  obtain ⟨th, among, rfl | zero | only⟩ := covers
  · exact ⟨th, among, admits⟩
  · exact ⟨th, among, .inl zero⟩
  · exact ⟨th, among, .inr (only tid member).symm⟩

end Covered

/-- While no task scheduled for a thread is found `READY` after its slice, and
every callback is put into a fiber that only its own thread can resume, the code
that runs on a thread was scheduled for it. -/
theorem slices_keep_affinity {mThreadIds : List Int} {events : List SchedulerEvent}
    {last : AffineScheduler}
    (run : Run AffineScheduler.step bindingKept (AffineScheduler.start mThreadIds) events last) :
    last.KeepsAffinity := by
  have kept : Bound last.core ∧ Covered last := by
    refine run.invariant (fun scheduler => Bound scheduler.core ∧ Covered scheduler)
      ⟨bound_start mThreadIds, made_start mThreadIds,
        fun _ _ names => absurd names not_names_start⟩ ?_
    rintro scheduler event after ⟨bound, covered⟩ ⟨notReady, apart⟩ stepped
    obtain ⟨core, advanced, rfl⟩ := Option.map_eq_some_iff.mp stepped
    exact ⟨bound.step notReady advanced, covered.step apart stepped⟩
  intro tid slice running
  have admits : Admits slice.origin tid := kept.1.workers tid slice.origin (by rw [running]; rfl)
  have serves : (last.core.worker tid).phase.serves = some (slice.fiber, slice.origin) := by
    rw [running]
    rfl
  have member : tid ∈ last.core.mThreadIds := by
    by_contra absent
    rw [kept.2.made.idle tid absent] at running
    cases running
  have covers := kept.2.covers slice.fiber slice.origin (.inr ⟨tid, serves⟩)
  exact ⟨Covers.admits covers admits member, admits⟩

/-- From the task in the queue to the code of the fiber. -/
def enterFiber (tid : Int) : List SchedulerEvent :=
  List.replicate 4 (.threadloop tid)

/-- Thread 1 executes two callbacks one after the other in the fiber it keeps,
and thread 2 a fiber. -/
theorem slices_keep_affinity_of_two_threads :
    ∃ last, Run AffineScheduler.step bindingKept (AffineScheduler.start [1, 2])
        ([.newFiber, .schedule (.fiberPtr 0) 2, .schedule (.cb 7) 1, .schedule (.cb 8) 1] ++
          enterFiber 1 ++ [.leave 1 .terminate, .threadloop 1, .threadloop 1] ++ enterFiber 1 ++
            enterFiber 2) last ∧
      ((last.core.worker 1).phase = .running ⟨1, 1, true, 2⟩ ∧
        (last.core.worker 2).phase = .running ⟨0, 2, false, 1⟩) ∧ last.KeepsAffinity := by
  have run : Run AffineScheduler.step bindingKept (AffineScheduler.start [1, 2])
      ([.newFiber, .schedule (.fiberPtr 0) 2, .schedule (.cb 7) 1, .schedule (.cb 8) 1] ++
        enterFiber 1 ++ [.leave 1 .terminate, .threadloop 1, .threadloop 1] ++ enterFiber 1 ++
          enterFiber 2) _ := Run.of_execute rfl
  exact ⟨_, run, ⟨rfl, rfl⟩, slices_keep_affinity run⟩

/-- A fiber scheduled for thread 1 yields with `Yeild2Ready` and goes on on
thread 2. -/
theorem yeild2Ready_loses_affinity :
    ∃ last, Run AffineScheduler.step anyStep (AffineScheduler.start [1, 2])
        ([.newFiber, .schedule (.fiberPtr 0) 1] ++ enterFiber 1 ++ [.leave 1 .yeild2Ready] ++
          List.replicate 3 (.threadloop 1) ++ enterFiber 2) last ∧ ¬ last.KeepsAffinity := by
  refine ⟨_, Run.of_execute rfl, fun keeps => ?_⟩
  obtain ⟨th, member, admits⟩ := (keeps 2 ⟨0, 1, false, 2⟩ rfl).1
  cases List.mem_singleton.mp member
  exact absurd admits (by decide)

end FiberKcp.Scheduler
