import FiberKcp.Scheduler.Threadloop

namespace FiberKcp.Scheduler

open Data FiberKcp.Fiber

/-! Which thread may run a fiber.  A fiber is referred to by tasks in the queue
and by the threads that took one or keep it as their `cbFiber`. -/

def Work.fiber : Work → Option Nat
  | .fiberPtr fiber => some fiber
  | .cb _ => none

/-- The fiber of the task at hand. -/
def Phase.fiber : Phase → Option Nat
  | .scan => none
  | .dispatch ft => ft.work.fiber
  | .swapIn slice | .switchIn slice | .running slice | .swapOut slice _ | .returned slice
  | .requeue slice | .setHold slice => some slice.fiber

/-- The fiber whose state the thread has set to `EXEC`. -/
def Phase.exec : Phase → Option Nat
  | .switchIn slice | .running slice => some slice.fiber
  | _ => none

/-- The fiber whose code is on the thread, up to its switch out. -/
def Phase.inside : Phase → Option Nat
  | .running slice | .swapOut slice _ => some slice.fiber
  | _ => none

/-- The execution that was begun and not yet accounted for. -/
def Phase.begun : Phase → Option Slice
  | .running slice | .swapOut slice _ | .returned slice | .requeue slice | .setHold slice =>
      some slice
  | _ => none

structure KScheduler.Exclusive (scheduler : KScheduler) : Prop where
  one : ∀ tid other fiber, (scheduler.worker tid).phase.inside = some fiber →
    (scheduler.worker other).phase.inside = some fiber → tid = other
  exec : ∀ tid slice, (scheduler.worker tid).phase = .running slice →
    scheduler.mState slice.fiber = .exec
  entered : ∀ tid slice number, (scheduler.worker tid).phase = .switchIn slice →
    scheduler.mCtx slice.fiber = some number → number = scheduler.slices slice.fiber
  hold : ∀ tid slice, (scheduler.worker tid).phase = .setHold slice →
    scheduler.slices slice.fiber = slice.number ∧
      ∀ other, (scheduler.worker other).phase.exec ≠ some slice.fiber

def KScheduler.Holds (scheduler : KScheduler) (tid : Int) (fiber : Nat) : Prop :=
  (scheduler.worker tid).phase.fiber = some fiber ∨ (scheduler.worker tid).cbFiber = some fiber

instance (scheduler : KScheduler) (tid : Int) (fiber : Nat) :
    Decidable (scheduler.Holds tid fiber) :=
  inferInstanceAs (Decidable (_ ∨ _))

/-- The scan takes no fiber that another thread is at or keeps as its `cbFiber`. -/
def KScheduler.TakesFree (scheduler : KScheduler) (tid : Int) : Prop :=
  (scheduler.worker tid).phase = .scan →
    ∀ taken ∈ scheduler.takeTask tid scheduler.mFiberQueue, ∀ fiber ∈ taken.1.work.fiber,
      ∀ other ∈ scheduler.mThreadIds, scheduler.Holds other fiber → other = tid

instance (scheduler : KScheduler) (tid : Int) : Decidable (scheduler.TakesFree tid) :=
  inferInstanceAs (Decidable (_ → _))

def takesFree (scheduler : KScheduler) : SchedulerEvent → Prop
  | .threadloop tid => scheduler.TakesFree tid
  | _ => True

instance (scheduler : KScheduler) (event : SchedulerEvent) :
    Decidable (takesFree scheduler event) :=
  match event with
  | .threadloop tid => inferInstanceAs (Decidable (scheduler.TakesFree tid))
  | .schedule _ _ | .newFiber | .leave _ _ => inferInstanceAs (Decidable True)

/-- What refers to a fiber besides the queue is confined to one thread. -/
structure Confined (scheduler : KScheduler) : Prop where
  holders : ∀ tid other fiber, scheduler.Holds tid fiber → scheduler.Holds other fiber →
    tid = other
  worker : ∀ tid fiber, scheduler.Holds tid fiber → tid ∈ scheduler.mThreadIds
  made : ∀ tid fiber, scheduler.Holds tid fiber → fiber < scheduler.gFiberId
  madeQueued : ∀ it ∈ scheduler.mFiberQueue, ∀ fiber, it.work.fiber = some fiber →
    fiber < scheduler.gFiberId

theorem confined_start (mThreadIds : List Int) : Confined (KScheduler.start mThreadIds) := by
  have free : ∀ tid fiber, ¬ (KScheduler.start mThreadIds).Holds tid fiber := by
    rintro tid fiber (phase | cbFiber)
    · cases phase
    · cases cbFiber
  refine ⟨fun tid _ fiber held => absurd held (free tid fiber),
    fun tid fiber held => absurd held (free tid fiber),
    fun tid fiber held => absurd held (free tid fiber), fun it member => ?_⟩
  exact (List.not_mem_nil member).elim

section Steps

variable {scheduler after : KScheduler} {tid : Int}

/-- Fewer references, no new ones. -/
theorem Confined.shrink (confined : Confined scheduler)
    (ids : after.mThreadIds = scheduler.mThreadIds)
    (queue : after.mFiberQueue.Sublist scheduler.mFiberQueue)
    (made : scheduler.gFiberId ≤ after.gFiberId)
    (holds : ∀ tid fiber, after.Holds tid fiber → scheduler.Holds tid fiber) :
    Confined after where
  holders tid other fiber one two :=
    confined.holders tid other fiber (holds tid fiber one) (holds other fiber two)
  worker tid fiber one := ids ▸ confined.worker tid fiber (holds tid fiber one)
  made tid fiber one := Nat.lt_of_lt_of_le (confined.made tid fiber (holds tid fiber one)) made
  madeQueued it member fiber found :=
    Nat.lt_of_lt_of_le (confined.madeQueued it (queue.subset member) fiber found) made

theorem holds_setPhase {phase : Phase} {other : Int} {fiber : Nat}
    (held : (scheduler.setPhase tid phase).Holds other fiber) :
    scheduler.Holds other fiber ∨ other = tid ∧ phase.fiber = some fiber := by
  by_cases same : other = tid
  · subst same
    rcases held with here | kept
    · rw [KScheduler.worker_setPhase_self] at here
      exact .inr ⟨rfl, here⟩
    · rw [KScheduler.worker_setPhase_self] at kept
      exact .inl (.inr kept)
  · rw [KScheduler.Holds, KScheduler.worker_setPhase_other _ _ _ same] at held
    exact .inl held

theorem Confined.setPhase (confined : Confined scheduler) {phase : Phase}
    (own : ∀ fiber, phase.fiber = some fiber → scheduler.Holds tid fiber) :
    Confined (scheduler.setPhase tid phase) := by
  refine confined.shrink rfl (List.Sublist.refl _) (Nat.le_refl _) fun other fiber held => ?_
  rcases holds_setPhase held with before | ⟨rfl, here⟩
  · exact before
  · exact own fiber here

theorem Confined.release (confined : Confined scheduler) (slice : Slice) :
    Confined (scheduler.release tid slice) := by
  unfold KScheduler.release
  split
  · refine confined.shrink rfl (List.Sublist.refl _) (Nat.le_refl _) fun other fiber held => ?_
    rcases held with phase | kept
    · rw [KScheduler.phase_setCbFiber] at phase
      exact .inl phase
    · by_cases same : other = tid
      · subst same
        simp [KScheduler.setCbFiber] at kept
      · rw [KScheduler.worker_setCbFiber_other _ _ _ same] at kept
        exact .inr kept
  · exact confined

theorem Confined.push (confined : Confined scheduler) {ft : FiberBindThread}
    (made : ∀ fiber, ft.work.fiber = some fiber → fiber < scheduler.gFiberId) :
    Confined (scheduler.push ft) := by
  refine ⟨confined.holders, confined.worker, confined.made, fun it member fiber found => ?_⟩
  rcases List.mem_append.mp member with earlier | last
  · exact confined.madeQueued it earlier fiber found
  · cases List.mem_singleton.mp last
    exact made fiber found

theorem Confined.scan (confined : Confined scheduler) (worker : tid ∈ scheduler.mThreadIds)
    (phase : (scheduler.worker tid).phase = .scan) (permitted : scheduler.TakesFree tid) :
    Confined (scheduler.scan tid) := by
  unfold KScheduler.scan
  split
  · exact confined
  · rename_i ft left taken
    obtain ⟨front, back, queue, rfl, _⟩ := KScheduler.takeTask_cases taken
    have member : ft ∈ scheduler.mFiberQueue := by simp [queue]
    have rest : (front ++ back).Sublist scheduler.mFiberQueue := by
      rw [queue]
      exact List.Sublist.append_left (List.sublist_cons_self ft back) front
    have alone : ∀ fiber, ft.work.fiber = some fiber → ∀ other, scheduler.Holds other fiber →
        other = tid := fun fiber found other held =>
      permitted phase _ taken fiber found other (confined.worker other fiber held) held
    have holds : ∀ other fiber,
        ({ scheduler with mFiberQueue := front ++ back }.setPhase tid (.dispatch ft)).Holds
          other fiber → scheduler.Holds other fiber ∨ other = tid ∧ ft.work.fiber = some fiber :=
      fun other fiber held => holds_setPhase held
    refine ⟨fun one two fiber first second => ?_, fun other fiber held => ?_,
      fun other fiber held => ?_, fun it among => confined.madeQueued it (rest.subset among)⟩
    · rcases holds one fiber first with held | ⟨rfl, found⟩ <;>
        rcases holds two fiber second with also | ⟨rfl, fresh⟩
      · exact confined.holders one two fiber held also
      · exact alone fiber fresh one held
      · exact (alone fiber found two also).symm
      · rfl
    · rcases holds other fiber held with before | ⟨rfl, _⟩
      · exact confined.worker other fiber before
      · exact worker
    · rcases holds other fiber held with before | ⟨rfl, found⟩
      · exact confined.made other fiber before
      · exact confined.madeQueued ft member fiber found

/-- A fresh fiber becomes the `cbFiber` of a thread. -/
theorem Confined.newCbFiber (confined : Confined scheduler) (worker : tid ∈ scheduler.mThreadIds) :
    Confined (scheduler.newFiber.setCbFiber tid (some scheduler.gFiberId)) := by
  have holds : ∀ other fiber,
      (scheduler.newFiber.setCbFiber tid (some scheduler.gFiberId)).Holds other fiber →
        scheduler.Holds other fiber ∨ other = tid ∧ fiber = scheduler.gFiberId := by
    rintro other fiber (phase | kept)
    · rw [KScheduler.phase_setCbFiber] at phase
      exact .inl (.inl phase)
    · by_cases same : other = tid
      · subst same
        simp only [KScheduler.setCbFiber, Function.update_self, Option.some.injEq] at kept
        exact .inr ⟨rfl, kept.symm⟩
      · rw [KScheduler.worker_setCbFiber_other _ _ _ same] at kept
        exact .inl (.inr kept)
  refine ⟨fun one two fiber first second => ?_, fun other fiber held => ?_,
    fun other fiber held => ?_,
    fun it member fiber found => Nat.lt_succ_of_lt (confined.madeQueued it member fiber found)⟩
  · rcases holds one fiber first with held | ⟨rfl, fresh⟩ <;>
      rcases holds two fiber second with also | ⟨rfl, new⟩
    · exact confined.holders one two fiber held also
    · exact absurd (confined.made one fiber held) (by omega)
    · exact absurd (confined.made two fiber also) (by omega)
    · rfl
  · rcases holds other fiber held with before | ⟨rfl, _⟩
    · exact confined.worker other fiber before
    · exact worker
  · rcases holds other fiber held with before | ⟨rfl, fresh⟩
    · exact Nat.lt_succ_of_lt (confined.made other fiber before)
    · rw [fresh]
      exact Nat.lt_succ_self _

/-- What the states, the contexts and the counts say of the fibers. -/
structure Recorded (scheduler : KScheduler) : Prop where
  exec : ∀ tid fiber, (scheduler.worker tid).phase.exec = some fiber →
    scheduler.mState fiber = .exec
  begun : ∀ tid slice, (scheduler.worker tid).phase.begun = some slice →
    slice.number = scheduler.slices slice.fiber
  saved : ∀ fiber, (∀ tid, (scheduler.worker tid).phase.inside ≠ some fiber) →
    ∀ number, scheduler.mCtx fiber = some number → number = scheduler.slices fiber

theorem recorded_start (mThreadIds : List Int) : Recorded (KScheduler.start mThreadIds) := by
  refine ⟨fun _ _ found => ?_, fun _ _ found => ?_, fun _ _ _ saved => ?_⟩
  · cases found
  · cases found
  · cases saved
    rfl

theorem Recorded.setState (recorded : Recorded scheduler) {fiber : Nat} (state : FiberState)
    (free : ∀ tid, (scheduler.worker tid).phase.exec ≠ some fiber) :
    Recorded (scheduler.setState fiber state) := by
  refine ⟨fun tid other found => ?_, recorded.begun, recorded.saved⟩
  have different : other ≠ fiber := by
    rintro rfl
    exact free tid found
  exact (Function.update_of_ne different _ _).trans (recorded.exec tid other found)

theorem Recorded.setCtx (recorded : Recorded scheduler) {fiber : Nat} {ctx : Option Nat}
    (current : ∀ number, ctx = some number → number = scheduler.slices fiber) :
    Recorded (scheduler.setCtx fiber ctx) := by
  refine ⟨recorded.exec, recorded.begun, fun other outside number saved => ?_⟩
  by_cases same : other = fiber
  · subst same
    simp only [KScheduler.setCtx, Function.update_self] at saved
    exact current number saved
  · simp only [KScheduler.setCtx, Function.update_of_ne same] at saved
    exact recorded.saved other outside number saved

theorem Recorded.makeFiber (recorded : Recorded scheduler) {fiber : Nat}
    (free : ∀ tid, (scheduler.worker tid).phase.exec ≠ some fiber) :
    Recorded (scheduler.makeFiber fiber) :=
  (recorded.setCtx fun _ current => (Option.some.inj current).symm).setState .ready free

theorem Recorded.setPhase (recorded : Recorded scheduler) {phase : Phase}
    (exec : ∀ fiber, phase.exec = some fiber → scheduler.mState fiber = .exec)
    (begun : ∀ slice, phase.begun = some slice → slice.number = scheduler.slices slice.fiber)
    (saved : ∀ fiber, (scheduler.worker tid).phase.inside = some fiber →
      phase.inside = some fiber ∨
        ∀ number, scheduler.mCtx fiber = some number → number = scheduler.slices fiber) :
    Recorded (scheduler.setPhase tid phase) := by
  refine ⟨fun other fiber found => ?_, fun other slice found => ?_, fun fiber outside => ?_⟩
  · by_cases same : other = tid
    · subst same
      rw [KScheduler.worker_setPhase_self] at found
      exact exec fiber found
    · rw [KScheduler.worker_setPhase_other _ _ _ same] at found
      exact recorded.exec other fiber found
  · by_cases same : other = tid
    · subst same
      rw [KScheduler.worker_setPhase_self] at found
      exact begun slice found
    · rw [KScheduler.worker_setPhase_other _ _ _ same] at found
      exact recorded.begun other slice found
  · have own := outside tid
    rw [KScheduler.worker_setPhase_self] at own
    by_cases here : (scheduler.worker tid).phase.inside = some fiber
    · exact (saved fiber here).resolve_left own
    · refine recorded.saved fiber fun other found => ?_
      by_cases same : other = tid
      · exact here (same ▸ found)
      · apply outside other
        rw [KScheduler.worker_setPhase_other _ _ _ same]
        exact found

/-- To a phase that says nothing, from one outside every fiber. -/
theorem Recorded.quiet (recorded : Recorded scheduler) {phase : Phase} (exec : phase.exec = none)
    (begun : phase.begun = none) (outside : (scheduler.worker tid).phase.inside = none) :
    Recorded (scheduler.setPhase tid phase) := by
  refine recorded.setPhase (fun _ found => ?_) (fun _ found => ?_) fun _ found => ?_
  · rw [exec] at found
    cases found
  · rw [begun] at found
    cases found
  · rw [outside] at found
    cases found

/-- Both together, for the steps need both. -/
structure Tracked (scheduler : KScheduler) : Prop where
  confined : Confined scheduler
  recorded : Recorded scheduler

theorem Phase.fiber_of_exec {phase : Phase} {fiber : Nat} (found : phase.exec = some fiber) :
    phase.fiber = some fiber := by
  cases phase <;> first | exact found | contradiction

theorem Phase.fiber_of_inside {phase : Phase} {fiber : Nat} (found : phase.inside = some fiber) :
    phase.fiber = some fiber := by
  cases phase <;> first | exact found | contradiction

theorem Phase.fiber_of_begun {phase : Phase} {slice : Slice} (found : phase.begun = some slice) :
    phase.fiber = some slice.fiber := by
  cases phase <;> cases found <;> rfl

theorem Confined.same (confined : Confined scheduler)
    (ids : after.mThreadIds = scheduler.mThreadIds)
    (queue : after.mFiberQueue = scheduler.mFiberQueue) (made : after.gFiberId = scheduler.gFiberId)
    (workers : after.worker = scheduler.worker) : Confined after := by
  refine confined.shrink ids (queue ▸ List.Sublist.refl _) (Nat.le_of_eq made.symm) ?_
  intro tid fiber held
  rw [KScheduler.Holds, workers] at held
  exact held

theorem Confined.free (confined : Confined scheduler) {fiber : Nat}
    (held : scheduler.Holds tid fiber) (own : (scheduler.worker tid).phase.exec ≠ some fiber)
    (other : Int) : (scheduler.worker other).phase.exec ≠ some fiber := by
  intro found
  have same := confined.holders other tid fiber (.inl (Phase.fiber_of_exec found)) held
  exact own (same ▸ found)

theorem Confined.outside (confined : Confined scheduler) {fiber : Nat}
    (held : scheduler.Holds tid fiber) (own : (scheduler.worker tid).phase.inside ≠ some fiber)
    (other : Int) : (scheduler.worker other).phase.inside ≠ some fiber := by
  intro found
  have same := confined.holders other tid fiber (.inl (Phase.fiber_of_inside found)) held
  exact own (same ▸ found)

theorem Tracked.makeFiber (tracked : Tracked scheduler) {fiber : Nat}
    (free : ∀ tid, (scheduler.worker tid).phase.exec ≠ some fiber) :
    Tracked (scheduler.makeFiber fiber) :=
  ⟨tracked.confined.same rfl rfl rfl rfl, tracked.recorded.makeFiber free⟩

theorem Tracked.toScan (tracked : Tracked scheduler)
    (outside : (scheduler.worker tid).phase.inside = none) :
    Tracked (scheduler.setPhase tid .scan) :=
  ⟨tracked.confined.setPhase fun _ found => (nomatch found),
    tracked.recorded.quiet rfl rfl outside⟩

theorem Tracked.newFiber (tracked : Tracked scheduler) : Tracked scheduler.newFiber := by
  have free : ∀ tid, (scheduler.worker tid).phase.exec ≠ some scheduler.gFiberId := by
    intro tid found
    exact Nat.lt_irrefl _ (tracked.confined.made tid _ (.inl (Phase.fiber_of_exec found)))
  have made := tracked.recorded.makeFiber free
  refine ⟨?_, made.exec, made.begun, made.saved⟩
  exact tracked.confined.shrink rfl (List.Sublist.refl _) (Nat.le_succ _) fun _ _ => id

theorem Recorded.setCbFiber (recorded : Recorded scheduler) (tid : Int) (cbFiber : Option Nat) :
    Recorded (scheduler.setCbFiber tid cbFiber) := by
  refine ⟨fun other fiber found => ?_, fun other slice found => ?_, fun fiber outside => ?_⟩
  · rw [KScheduler.phase_setCbFiber] at found
    exact recorded.exec other fiber found
  · rw [KScheduler.phase_setCbFiber] at found
    exact recorded.begun other slice found
  · refine recorded.saved fiber fun other => ?_
    have here := outside other
    rw [KScheduler.phase_setCbFiber] at here
    exact here

theorem Recorded.release (recorded : Recorded scheduler) (slice : Slice) :
    Recorded (scheduler.release tid slice) := by
  unfold KScheduler.release
  split
  · exact recorded.setCbFiber tid none
  · exact recorded

theorem Tracked.scan (tracked : Tracked scheduler) (worker : tid ∈ scheduler.mThreadIds)
    (phase : (scheduler.worker tid).phase = .scan) (permitted : scheduler.TakesFree tid) :
    Tracked (scheduler.scan tid) := by
  refine ⟨tracked.confined.scan worker phase permitted, ?_⟩
  unfold KScheduler.scan
  split
  · exact tracked.recorded
  · rename_i ft left _
    have same : Recorded { scheduler with mFiberQueue := left } :=
      ⟨tracked.recorded.exec, tracked.recorded.begun, tracked.recorded.saved⟩
    exact same.quiet rfl rfl (by rw [phase]; rfl)

theorem Tracked.dispatch (tracked : Tracked scheduler) (worker : tid ∈ scheduler.mThreadIds)
    {ft : FiberBindThread} (phase : (scheduler.worker tid).phase = .dispatch ft)
    (stepped : scheduler.dispatch tid ft = some after) : Tracked after := by
  have exec : (scheduler.worker tid).phase.exec = none := by rw [phase]; rfl
  have outside : (scheduler.worker tid).phase.inside = none := by rw [phase]; rfl
  unfold KScheduler.dispatch at stepped
  split at stepped
  · rename_i fiber work
    split at stepped <;> cases stepped
    · refine ⟨tracked.confined.setPhase fun same found => ?_,
        tracked.recorded.quiet rfl rfl outside⟩
      exact .inl (by rw [phase, Phase.fiber, work]; exact found)
    · exact tracked.toScan outside
  · split at stepped
    · rename_i fiber kept
      split at stepped
      · cases stepped
        have held : scheduler.Holds tid fiber := .inr kept
        have made := tracked.makeFiber (tracked.confined.free held (by rw [exec]; simp))
        refine ⟨made.confined.setPhase fun same found => ?_, made.recorded.quiet rfl rfl outside⟩
        cases found
        exact held
      · contradiction
    · cases stepped
      have made := tracked.newFiber.recorded.setCbFiber tid (some scheduler.gFiberId)
      refine ⟨(tracked.confined.newCbFiber worker).setPhase fun same found => ?_,
        made.quiet rfl rfl ?_⟩
      · cases found
        exact .inr (by simp [KScheduler.setCbFiber])
      · rw [KScheduler.phase_setCbFiber]
        exact outside

theorem Tracked.swapIn (tracked : Tracked scheduler) {slice : Slice}
    (phase : (scheduler.worker tid).phase = .swapIn slice)
    (stepped : scheduler.swapIn tid slice = some after) : Tracked after := by
  have held : scheduler.Holds tid slice.fiber := .inl (by rw [phase]; rfl)
  unfold KScheduler.swapIn at stepped
  split at stepped
  · contradiction
  · cases stepped
    have free := tracked.confined.free held (by rw [phase]; simp [Phase.exec])
    have confined : Confined (scheduler.setState slice.fiber .exec) :=
      tracked.confined.same rfl rfl rfl rfl
    refine ⟨confined.setPhase fun fiber found => ?_,
      (tracked.recorded.setState .exec free).setPhase (fun fiber found => ?_)
        (fun _ found => nomatch found) fun fiber found => ?_⟩
    · cases found
      exact held
    · cases found
      exact Function.update_self ..
    · change (scheduler.worker tid).phase.inside = some fiber at found
      rw [phase] at found
      cases found

theorem Tracked.switchIn (tracked : Tracked scheduler) {slice : Slice}
    (phase : (scheduler.worker tid).phase = .switchIn slice)
    (stepped : scheduler.switchIn tid slice = some after) : Tracked after := by
  have held : scheduler.Holds tid slice.fiber := .inl (by rw [phase]; rfl)
  have exec := tracked.recorded.exec tid slice.fiber (by rw [phase]; rfl)
  unfold KScheduler.switchIn at stepped
  split at stepped
  · contradiction
  · cases stepped
    have confined : Confined (scheduler.beginSlice slice.fiber) :=
      tracked.confined.same rfl rfl rfl rfl
    refine ⟨confined.setPhase fun fiber found => ?_, fun other fiber found => ?_,
      fun other begun found => ?_, fun fiber outside number saved => ?_⟩
    · cases found
      exact held
    · by_cases same : other = tid
      · subst same
        rw [KScheduler.worker_setPhase_self] at found
        cases found
        exact exec
      · rw [KScheduler.worker_setPhase_other _ _ _ same] at found
        exact tracked.recorded.exec other fiber found
    · by_cases same : other = tid
      · subst same
        rw [KScheduler.worker_setPhase_self] at found
        cases found
        simp [KScheduler.setPhase, KScheduler.beginSlice]
      · rw [KScheduler.worker_setPhase_other _ _ _ same] at found
        -- another thread's execution is of another fiber
        have different : begun.fiber ≠ slice.fiber := by
          intro equal
          refine same (tracked.confined.holders other tid slice.fiber ?_ held)
          exact .inl (equal ▸ Phase.fiber_of_begun found)
        exact (tracked.recorded.begun other begun found).trans
          (Function.update_of_ne different _ _).symm
    · have here := outside tid
      rw [KScheduler.worker_setPhase_self] at here
      have different : fiber ≠ slice.fiber := fun equal => here (equal ▸ rfl)
      refine (tracked.recorded.saved fiber (fun other found => ?_) number saved).trans
        (Function.update_of_ne different _ _).symm
      by_cases same : other = tid
      · rw [same, phase] at found
        cases found
      · apply outside other
        rw [KScheduler.worker_setPhase_other _ _ _ same]
        exact found

theorem Tracked.swapOut (tracked : Tracked scheduler) {slice : Slice} {ended : Bool}
    (phase : (scheduler.worker tid).phase = .swapOut slice ended) :
    Tracked (scheduler.swapOut tid slice ended) := by
  have number := tracked.recorded.begun tid slice (by rw [phase]; rfl)
  have current : ∀ saved, (if ended then none else some slice.number) = some saved →
      saved = scheduler.slices slice.fiber := by
    intro saved found
    cases ended with
    | true => cases found
    | false =>
        cases found
        exact number
  have confined : Confined
      (scheduler.setCtx slice.fiber (if ended then none else some slice.number)) :=
    tracked.confined.same rfl rfl rfl rfl
  refine ⟨confined.setPhase fun fiber found => ?_,
    (tracked.recorded.setCtx current).setPhase (fun _ found => nomatch found)
      (fun _ found => ?_) fun fiber found => .inr fun saved equal => ?_⟩
  · cases found
    exact .inl (by change (scheduler.worker tid).phase.fiber = _; rw [phase]; rfl)
  · cases found
    exact number
  · change (scheduler.worker tid).phase.inside = some fiber at found
    rw [phase] at found
    cases found
    simp only [KScheduler.setCtx, Function.update_self] at equal
    exact current saved equal

theorem Tracked.returned (tracked : Tracked scheduler) {slice : Slice}
    (phase : (scheduler.worker tid).phase = .returned slice) :
    Tracked (scheduler.returned tid slice) := by
  have held : scheduler.Holds tid slice.fiber := .inl (by rw [phase]; rfl)
  have outside : (scheduler.worker tid).phase.inside = none := by rw [phase]; rfl
  have number := tracked.recorded.begun tid slice (by rw [phase]; rfl)
  have goes : ∀ next : Phase, next.fiber = some slice.fiber → next.exec = none →
      next.begun = some slice → Tracked (scheduler.setPhase tid next) := by
    intro next fiber exec begun
    refine ⟨tracked.confined.setPhase fun same found => ?_,
      tracked.recorded.setPhase (fun same found => ?_) (fun same found => ?_) fun same found => ?_⟩
    · rw [fiber] at found
      cases found
      exact held
    · rw [exec] at found
      cases found
    · rw [begun] at found
      cases found
      exact number
    · rw [outside] at found
      cases found
  have ended : Tracked (if slice.isCb then (scheduler.makeFiber slice.fiber).setPhase tid .scan
      else scheduler.setPhase tid .scan) := by
    split
    · have free := tracked.confined.free held (by rw [phase]; simp [Phase.exec])
      exact (tracked.makeFiber free).toScan outside
    · exact tracked.toScan outside
  unfold KScheduler.returned
  cases scheduler.mState slice.fiber with
  | ready => exact goes _ rfl rfl rfl
  | term => exact ended
  | except => exact ended
  | hold => exact goes _ rfl rfl rfl
  | exec => exact goes _ rfl rfl rfl

theorem Tracked.release (tracked : Tracked scheduler) (slice : Slice) :
    Tracked (scheduler.release tid slice) :=
  ⟨tracked.confined.release slice, tracked.recorded.release slice⟩

theorem Tracked.push (tracked : Tracked scheduler) {ft : FiberBindThread}
    (made : ∀ fiber, ft.work.fiber = some fiber → fiber < scheduler.gFiberId) :
    Tracked (scheduler.push ft) :=
  ⟨tracked.confined.push made, tracked.recorded.exec, tracked.recorded.begun,
    tracked.recorded.saved⟩

theorem requeue_eq (slice : Slice) : scheduler.requeue tid slice =
    ((scheduler.release tid slice).setPhase tid .scan).push
      ⟨.fiberPtr slice.fiber, 0, slice.origin⟩ := by
  unfold KScheduler.requeue KScheduler.release
  split <;> rfl

theorem Tracked.requeue (tracked : Tracked scheduler) {slice : Slice}
    (phase : (scheduler.worker tid).phase = .requeue slice) :
    Tracked (scheduler.requeue tid slice) := by
  have made := tracked.confined.made tid slice.fiber (.inl (by rw [phase]; rfl))
  have outside : ((scheduler.release tid slice).worker tid).phase.inside = none := by
    rw [KScheduler.phase_release, phase]
    rfl
  rw [requeue_eq]
  refine ((tracked.release slice).toScan outside).push fun fiber found => ?_
  cases found
  have ids : (scheduler.release tid slice).gFiberId = scheduler.gFiberId := by
    unfold KScheduler.release
    split <;> rfl
  exact ids ▸ made

theorem Tracked.setHold (tracked : Tracked scheduler) {slice : Slice}
    (phase : (scheduler.worker tid).phase = .setHold slice) :
    Tracked (scheduler.setHold tid slice) := by
  have held : scheduler.Holds tid slice.fiber := .inl (by rw [phase]; rfl)
  have free := tracked.confined.free held (by rw [phase]; simp [Phase.exec])
  have set : Tracked (scheduler.setState slice.fiber .hold) :=
    ⟨tracked.confined.same rfl rfl rfl rfl, tracked.recorded.setState .hold free⟩
  refine (set.release slice).toScan ?_
  rw [KScheduler.phase_release]
  change (scheduler.worker tid).phase.inside = none
  rw [phase]
  rfl

theorem Tracked.leave (tracked : Tracked scheduler) {how : Leave}
    (stepped : scheduler.leave tid how = some after) : Tracked after := by
  unfold KScheduler.leave at stepped
  cases phase : (scheduler.worker tid).phase with
  | running slice =>
      simp only [phase] at stepped
      split at stepped
      · contradiction
      · cases stepped
        have held : scheduler.Holds tid slice.fiber := .inl (by rw [phase]; rfl)
        have number := tracked.recorded.begun tid slice (by rw [phase]; rfl)
        have confined : Confined (scheduler.setPhase tid (.swapOut slice how.ended)) := by
          refine tracked.confined.setPhase fun fiber found => ?_
          cases found
          exact held
        have recorded : Recorded (scheduler.setPhase tid (.swapOut slice how.ended)) := by
          refine tracked.recorded.setPhase (fun _ found => nomatch found) (fun same found => ?_)
            fun fiber found => .inl ?_
          · cases found
            exact number
          · rw [phase] at found
            exact found
        have holds : (scheduler.setPhase tid (.swapOut slice how.ended)).Holds tid slice.fiber :=
          .inl (by rw [KScheduler.worker_setPhase_self]; rfl)
        have free := confined.free holds (by
          rw [KScheduler.worker_setPhase_self]
          simp [Phase.exec])
        -- the state is set first, but no other thread looks in between
        exact ⟨confined.same rfl rfl rfl rfl, recorded.setState how.state free⟩
  | _ =>
      simp only [phase] at stepped
      contradiction

theorem Tracked.threadloop (tracked : Tracked scheduler) (worker : tid ∈ scheduler.mThreadIds)
    (permitted : scheduler.TakesFree tid)
    (stepped : scheduler.threadloop tid = some after) : Tracked after := by
  unfold KScheduler.threadloop at stepped
  cases phase : (scheduler.worker tid).phase with
  | scan =>
      simp only [phase] at stepped
      cases stepped
      exact tracked.scan worker phase permitted
  | dispatch ft =>
      simp only [phase] at stepped
      exact tracked.dispatch worker phase stepped
  | swapIn slice =>
      simp only [phase] at stepped
      exact tracked.swapIn phase stepped
  | switchIn slice =>
      simp only [phase] at stepped
      exact tracked.switchIn phase stepped
  | running _ =>
      simp only [phase] at stepped
      contradiction
  | swapOut slice ended =>
      simp only [phase] at stepped
      cases stepped
      exact tracked.swapOut phase
  | returned slice =>
      simp only [phase] at stepped
      cases stepped
      exact tracked.returned phase
  | requeue slice =>
      simp only [phase] at stepped
      cases stepped
      exact tracked.requeue phase
  | setHold slice =>
      simp only [phase] at stepped
      cases stepped
      exact tracked.setHold phase

theorem Tracked.step {event : SchedulerEvent} (tracked : Tracked scheduler)
    (permitted : takesFree scheduler event) (stepped : scheduler.step event = some after) :
    Tracked after := by
  cases event with
  | newFiber =>
      cases stepped
      exact tracked.newFiber
  | schedule work th =>
      cases work with
      | fiberPtr fiber =>
          simp only [KScheduler.step] at stepped
          split at stepped
          · rename_i made
            cases stepped
            refine tracked.push fun same found => ?_
            cases found
            exact made
          · contradiction
      | cb _ =>
          cases stepped
          exact tracked.push fun _ found => by cases found
  | threadloop tid =>
      simp only [KScheduler.step] at stepped
      split at stepped
      · rename_i worker
        exact tracked.threadloop worker permitted stepped
      · contradiction
  | leave tid how =>
      simp only [KScheduler.step] at stepped
      split at stepped
      · exact tracked.leave stepped
      · contradiction

theorem Tracked.exclusive (tracked : Tracked scheduler) : scheduler.Exclusive where
  one tid other fiber first second :=
    tracked.confined.holders tid other fiber (.inl (Phase.fiber_of_inside first))
      (.inl (Phase.fiber_of_inside second))
  exec tid slice running := tracked.recorded.exec tid slice.fiber (by rw [running]; rfl)
  entered tid slice number entering saved := by
    have held : scheduler.Holds tid slice.fiber := .inl (by rw [entering]; rfl)
    have outside := tracked.confined.outside held (by rw [entering]; simp [Phase.inside])
    exact tracked.recorded.saved slice.fiber outside number saved
  hold tid slice holding := by
    have held : scheduler.Holds tid slice.fiber := .inl (by rw [holding]; rfl)
    refine ⟨(tracked.recorded.begun tid slice (by rw [holding]; rfl)).symm, ?_⟩
    exact tracked.confined.free held (by rw [holding]; simp [Phase.exec])

end Steps

/-- While no thread takes a fiber that another one is at, a fiber runs on one
thread at a time and its state says so. -/
theorem fibers_exclusive {mThreadIds : List Int} {events : List SchedulerEvent}
    {last : KScheduler}
    (run : Run KScheduler.step takesFree (KScheduler.start mThreadIds) events last) :
    last.Exclusive := by
  have tracked : Tracked last :=
    run.invariant Tracked ⟨confined_start mThreadIds, recorded_start mThreadIds⟩
      fun tracked permitted stepped => tracked.step permitted stepped
  exact tracked.exclusive

/-- On thread 1 fiber 0 schedules itself and yields; when the thread is done with
it, thread 2 goes on with it. -/
theorem fibers_exclusive_of_two_threads :
    ∃ last, Run KScheduler.step takesFree (KScheduler.start [1, 2])
        ([SchedulerEvent.newFiber, .schedule (.fiberPtr 0) 0] ++ List.replicate 4 (.threadloop 1) ++
          [.schedule (.fiberPtr 0) 0, .leave 1 .yeild2Hold] ++ List.replicate 3 (.threadloop 1) ++
          List.replicate 4 (.threadloop 2)) last ∧
      (last.worker 2).phase = .running ⟨0, 0, false, 2⟩ ∧ last.Exclusive := by
  have run : Run KScheduler.step takesFree (KScheduler.start [1, 2])
      ([SchedulerEvent.newFiber, .schedule (.fiberPtr 0) 0] ++ List.replicate 4 (.threadloop 1) ++
        [.schedule (.fiberPtr 0) 0, .leave 1 .yeild2Hold] ++ List.replicate 3 (.threadloop 1) ++
        List.replicate 4 (.threadloop 2)) _ := Run.of_execute rfl
  exact ⟨_, run, rfl, fibers_exclusive run⟩

/-- A fiber that schedules itself and yields is run by thread 2 before thread 1
has switched out of it. -/
theorem self_scheduled_fiber_runs_twice :
    ∃ last, Run KScheduler.step anyStep (KScheduler.start [1, 2])
        ([SchedulerEvent.newFiber, .schedule (.fiberPtr 0) 0] ++ List.replicate 4 (.threadloop 1) ++
          [.schedule (.fiberPtr 0) 0, .leave 1 .yeild2Hold] ++
          List.replicate 4 (.threadloop 2)) last ∧
      (last.worker 1).phase.inside = some 0 ∧ (last.worker 2).phase.inside = some 0 ∧
      ¬ last.Exclusive := by
  refine ⟨_, Run.of_execute rfl, rfl, rfl, fun exclusive => ?_⟩
  have same := exclusive.one 1 2 0 rfl rfl
  exact absurd same (by decide)

end FiberKcp.Scheduler
