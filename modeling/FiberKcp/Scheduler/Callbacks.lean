import FiberKcp.Scheduler.TaskQueue

namespace FiberKcp.Scheduler

open Data FiberKcp.Fiber

/-! Each callback taken from the queue is begun once, by the thread that took it. -/

namespace TaskScheduler

variable {manager after : TaskScheduler} {tid : Int}

theorem carrying_start (mThreadIds : List Int) : Carrying (start mThreadIds) := by
  refine ⟨fun tid => ⟨rfl, rfl, fun slice phase => ?_, fun fiber begins => ?_, fun fiber kept => ?_,
    fun fiber kept => ?_, fun _ => ⟨rfl, rfl⟩⟩, fun tid other fiber kept => ?_,
    fun fiber position set => ?_⟩
  · cases phase
  · cases begins
  · cases kept
  · cases kept
  · cases kept
  · cases set

/-- The step of a thread, as the other threads see it. -/
structure StepOf (manager after : TaskScheduler) (tid : Int) : Prop where
  ids : after.core.mThreadIds = manager.core.mThreadIds
  made : manager.core.gFiberId ≤ after.core.gFiberId
  workers : ∀ other ≠ tid, after.core.worker other = manager.core.worker other
  holding : ∀ other ≠ tid, after.holding other = manager.holding other
  taken : ∀ other ≠ tid, after.takenBy other = manager.takenBy other
  executed : ∀ other ≠ tid, after.executedBy other = manager.executedBy other
  fibers : ∀ fiber < manager.core.gFiberId,
    (manager.core.worker tid).phase.touches ≠ some fiber →
      (manager.core.worker tid).cbFiber ≠ some fiber →
        after.core.mCtx fiber = manager.core.mCtx fiber ∧
          after.core.mState fiber = manager.core.mState fiber ∧
            after.mCb fiber = manager.mCb fiber

theorem Carries.keeps_of_begins (carries : manager.Carries tid) {fiber : Nat}
    (begins : (manager.core.worker tid).phase.begins = some fiber) :
    manager.core.keeps tid = some fiber := by
  obtain ⟨notIn, slice, phase, isCb, rfl⟩ := Phase.slice_of_begins begins
  rw [KScheduler.keeps, notIn]
  exact carries.own slice phase isCb

theorem cbFiber_of_keeps {fiber : Nat} (kept : manager.core.keeps tid = some fiber) :
    (manager.core.worker tid).cbFiber = some fiber := by
  unfold KScheduler.keeps at kept
  split at kept
  · contradiction
  · exact kept

theorem Carrying.other (carrying : Carrying manager) {other : Int} (different : other ≠ tid)
    (untouched : ∀ fiber, manager.core.keeps other = some fiber →
      (manager.core.worker tid).phase.touches ≠ some fiber)
    (stepOf : StepOf manager after tid) : after.Carries other := by
  have carries := carrying.each other
  have worker := stepOf.workers other different
  have same : after.core.keeps other = manager.core.keeps other := by
    rw [KScheduler.keeps, worker, KScheduler.keeps]
  have fibers : ∀ fiber, manager.core.keeps other = some fiber →
      after.core.mCtx fiber = manager.core.mCtx fiber ∧
        after.core.mState fiber = manager.core.mState fiber ∧
          after.mCb fiber = manager.mCb fiber := by
    intro fiber kept
    have own := cbFiber_of_keeps kept
    exact stepOf.fibers fiber (carries.made fiber own) (untouched fiber kept) fun mine =>
      different (carrying.apart other tid fiber own mine)
  refine ⟨?_, ?_, ?_, fun fiber begins => ?_, fun fiber kept => ?_, fun fiber own => ?_, ?_⟩
  · rw [stepOf.taken other different, stepOf.executed other different,
      stepOf.holding other different]
    exact carries.flow
  · rw [stepOf.holding other different, worker]
    exact carries.held
  · rw [worker]
    exact carries.own
  · rw [worker] at begins
    rw [(fibers fiber (carries.keeps_of_begins begins)).2.2, stepOf.holding other different]
    exact carries.loaded fiber begins
  · rw [same] at kept
    rw [(fibers fiber kept).1, (fibers fiber kept).2.1, worker]
    exact carries.kept fiber kept
  · rw [worker] at own
    exact Nat.lt_of_lt_of_le (carries.made fiber own) stepOf.made
  · rw [worker, stepOf.ids]
    exact carries.worker

/-- A step of a thread keeps the invariant if it does on the thread itself. -/
theorem Carrying.step_of (carrying : Carrying manager)
    (untouched : ∀ other ≠ tid, ∀ fiber, manager.core.keeps other = some fiber →
      (manager.core.worker tid).phase.touches ≠ some fiber)
    (stepOf : StepOf manager after tid) (here : after.Carries tid)
    (own : ∀ fiber, (after.core.worker tid).cbFiber = some fiber →
      (manager.core.worker tid).cbFiber = some fiber ∨ manager.core.gFiberId ≤ fiber)
    (fresh : ∀ fiber position, after.mCb fiber = some position →
      (after.core.worker tid).phase.begins = some fiber ∨
        manager.mCb fiber = some position ∧
          (manager.core.worker tid).phase.begins ≠ some fiber) : Carrying after := by
  have alone : ∀ other ≠ tid, ∀ fiber, (after.core.worker tid).cbFiber = some fiber →
      (after.core.worker other).cbFiber ≠ some fiber := by
    intro other different fiber mine theirs
    rw [stepOf.workers other different] at theirs
    rcases own fiber mine with before | new
    · exact different (carrying.apart other tid fiber theirs before)
    · exact absurd ((carrying.each other).made fiber theirs) (by omega)
  refine ⟨fun other => ?_, fun one two fiber first second => ?_, fun fiber position set => ?_⟩
  · by_cases same : other = tid
    · exact same ▸ here
    · exact carrying.other same (untouched other same) stepOf
  · by_cases same : one = tid
    · subst same
      by_contra different
      exact alone two (Ne.symm different) fiber first second
    · by_cases also : two = tid
      · subst also
        exact absurd first (alone one same fiber second)
      · rw [stepOf.workers one same] at first
        rw [stepOf.workers two also] at second
        exact carrying.apart one two fiber first second
  · rcases fresh fiber position set with begins | ⟨before, notHere⟩
    · exact ⟨tid, begins⟩
    · obtain ⟨other, begins⟩ := carrying.fresh fiber position before
      have different : other ≠ tid := by
        rintro rfl
        exact notHere begins
      refine ⟨other, ?_⟩
      rw [stepOf.workers other different]
      exact begins

/-- The guard, for the step of the thread. -/
def Untouched (manager : TaskScheduler) (tid : Int) : Prop :=
  ∀ other fiber, manager.core.keeps other = some fiber →
    (manager.core.worker tid).phase.touches ≠ some fiber

theorem keptState_of_foreign (phase : Phase)
    (foreign : ∀ slice, phase.slice = some slice → slice.isCb = false) :
    phase.inCb = false ∧ keptState phase = .ready := by
  cases phase with
  | scan => exact ⟨rfl, rfl⟩
  | dispatch ft => exact ⟨rfl, rfl⟩
  | swapIn slice => exact ⟨rfl, rfl⟩
  | switchIn slice =>
      refine ⟨rfl, ?_⟩
      rw [keptState, foreign slice rfl]
      rfl
  | running slice => exact ⟨foreign slice rfl, rfl⟩
  | swapOut slice _ => exact ⟨foreign slice rfl, rfl⟩
  | returned slice => exact ⟨foreign slice rfl, rfl⟩
  | requeue slice => exact ⟨foreign slice rfl, rfl⟩
  | setHold slice => exact ⟨foreign slice rfl, rfl⟩

/-- The thread goes on with an execution, or ends it. -/
structure GoesOn (manager after : TaskScheduler) (tid : Int) (slice : Slice) : Prop where
  touches : slice.isCb = false → (manager.core.worker tid).phase.touches = some slice.fiber ∨
    ∀ fiber, after.core.mCtx fiber = manager.core.mCtx fiber ∧
      after.core.mState fiber = manager.core.mState fiber ∧ after.mCb fiber = manager.mCb fiber
  ids : after.core.mThreadIds = manager.core.mThreadIds
  made : after.core.gFiberId = manager.core.gFiberId
  workers : ∀ other ≠ tid, after.core.worker other = manager.core.worker other
  holding : ∀ other ≠ tid, after.holding other = manager.holding other
  taken : after.ledger.taken = manager.ledger.taken
  executed : ∀ other ≠ tid, after.executedBy other = manager.executedBy other
  fibers : ∀ fiber ≠ slice.fiber, after.core.mCtx fiber = manager.core.mCtx fiber ∧
    after.core.mState fiber = manager.core.mState fiber ∧ after.mCb fiber = manager.mCb fiber
  cbFiber : (after.core.worker tid).cbFiber = (manager.core.worker tid).cbFiber ∨
    slice.isCb = true ∧ (after.core.worker tid).cbFiber = none
  slices : ∀ next, (after.core.worker tid).phase.slice = some next →
    next.isCb = slice.isCb ∧ next.fiber = slice.fiber ∧
      (after.core.worker tid).cbFiber = (manager.core.worker tid).cbFiber
  flow : after.takenBy tid = after.executedBy tid ++ (after.holding tid).toList
  held : (after.holding tid).isSome = (after.core.worker tid).phase.carries
  loaded : (after.core.worker tid).phase.begins = some slice.fiber →
    after.mCb slice.fiber = after.holding tid
  kept : slice.isCb = true → after.core.keeps tid = some slice.fiber →
    after.core.mCtx slice.fiber ≠ none ∧
      after.core.mState slice.fiber = keptState (after.core.worker tid).phase
  fresh : ∀ position, after.mCb slice.fiber = some position →
    (after.core.worker tid).phase.begins = some slice.fiber ∨
      manager.mCb slice.fiber = some position ∧
        (manager.core.worker tid).phase.begins ≠ some slice.fiber

theorem Carrying.goesOn (carrying : Carrying manager) (untouched : manager.Untouched tid)
    {slice : Slice} (phase : (manager.core.worker tid).phase.slice = some slice)
    (goesOn : GoesOn manager after tid slice) : Carrying after := by
  have carries := carrying.each tid
  have own : ∀ fiber, (after.core.worker tid).cbFiber = some fiber →
      (manager.core.worker tid).cbFiber = some fiber := by
    intro fiber own
    rcases goesOn.cbFiber with same | ⟨_, none⟩
    · exact same ▸ own
    · exact absurd (none.symm.trans own) (by simp)
  have begun : ∀ fiber, (after.core.worker tid).phase.begins = some fiber →
      fiber = slice.fiber := by
    intro fiber begins
    obtain ⟨_, next, same, _, rfl⟩ := Phase.slice_of_begins begins
    exact (goesOn.slices next same).2.1
  have here : after.Carries tid := by
    refine ⟨goesOn.flow, goesOn.held, fun next same isCb => ?_, fun fiber begins => ?_,
      fun fiber kept => ?_, fun fiber mine => ?_, fun outside => ?_⟩
    · obtain ⟨kind, fiber, kept⟩ := goesOn.slices next same
      rw [kept, fiber]
      exact carries.own slice phase (kind ▸ isCb)
    · cases begun fiber begins
      exact goesOn.loaded begins
    · cases isCb : slice.isCb with
      | true =>
          have mine := own fiber (cbFiber_of_keeps kept)
          cases (carries.own slice phase isCb).symm.trans mine
          exact goesOn.kept isCb kept
      | false =>
          have before := keptState_of_foreign (manager.core.worker tid).phase
            fun other same => by cases phase.symm.trans same; exact isCb
          have later := keptState_of_foreign (after.core.worker tid).phase
            fun next same => (goesOn.slices next same).1.trans isCb
          have keeps : manager.core.keeps tid = some fiber := by
            rw [KScheduler.keeps, before.1]
            exact own fiber (cbFiber_of_keeps kept)
          have unchanged : after.core.mCtx fiber = manager.core.mCtx fiber ∧
              after.core.mState fiber = manager.core.mState fiber ∧
                after.mCb fiber = manager.mCb fiber := by
            rcases goesOn.touches isCb with touches | all
            · refine goesOn.fibers fiber ?_
              rintro rfl
              exact untouched tid _ keeps touches
            · exact all fiber
          rw [unchanged.1, unchanged.2.1, later.2, ← before.2]
          exact carries.kept fiber keeps
    · rw [goesOn.made]
      exact carries.made fiber (own fiber mine)
    · rw [goesOn.ids] at outside
      rw [(carries.worker outside).1] at phase
      cases phase
  refine carrying.step_of (fun other _ => untouched other) ?_ here
    (fun fiber mine => .inl (own fiber mine)) fun fiber position set => ?_
  · refine ⟨goesOn.ids, Nat.le_of_eq goesOn.made.symm, goesOn.workers, goesOn.holding,
      fun other _ => ?_, goesOn.executed, fun fiber _ touched foreign => ?_⟩
    · rw [takenBy, goesOn.taken, takenBy]
    · cases isCb : slice.isCb with
      | true =>
          refine goesOn.fibers fiber ?_
          rintro rfl
          exact foreign (carries.own slice phase isCb)
      | false =>
          rcases goesOn.touches isCb with touches | all
          · refine goesOn.fibers fiber ?_
            rintro rfl
            exact touched touches
          · exact all fiber
  · by_cases same : fiber = slice.fiber
    · subst same
      exact goesOn.fresh position set
    · rw [(goesOn.fibers fiber same).2.2] at set
      refine .inr ⟨set, fun begins => same ?_⟩
      obtain ⟨_, other, found, _, rfl⟩ := Phase.slice_of_begins begins
      cases phase.symm.trans found
      rfl

/-- The part of `GoesOn` about the threads, for a step that ends in `setPhase`. -/
theorem goesOn_setPhase {slice : Slice} {middle : KScheduler} {next : Phase}
    (core : after.core = middle.setPhase tid next)
    (ids : middle.mThreadIds = manager.core.mThreadIds)
    (made : middle.gFiberId = manager.core.gFiberId)
    (workers : ∀ other ≠ tid, middle.worker other = manager.core.worker other)
    (cbFiber : (middle.worker tid).cbFiber = (manager.core.worker tid).cbFiber ∨
      slice.isCb = true ∧ (middle.worker tid).cbFiber = none)
    (slices : ∀ later, next.slice = some later → later.isCb = slice.isCb ∧
      later.fiber = slice.fiber ∧
        (middle.worker tid).cbFiber = (manager.core.worker tid).cbFiber)
    (others : ∀ other ≠ tid, after.holding other = manager.holding other ∧
      after.executedBy other = manager.executedBy other)
    (taken : after.ledger.taken = manager.ledger.taken)
    (touches : slice.isCb = false → (manager.core.worker tid).phase.touches = some slice.fiber ∨
      ∀ fiber, middle.mCtx fiber = manager.core.mCtx fiber ∧
        middle.mState fiber = manager.core.mState fiber ∧ after.mCb fiber = manager.mCb fiber)
    (fibers : ∀ fiber ≠ slice.fiber, middle.mCtx fiber = manager.core.mCtx fiber ∧
      middle.mState fiber = manager.core.mState fiber ∧ after.mCb fiber = manager.mCb fiber)
    (flow : after.takenBy tid = after.executedBy tid ++ (after.holding tid).toList)
    (held : (after.holding tid).isSome = next.carries)
    (loaded : next.begins = some slice.fiber → after.mCb slice.fiber = after.holding tid)
    (kept : slice.isCb = true → next.inCb = false →
      (middle.worker tid).cbFiber = some slice.fiber →
        middle.mCtx slice.fiber ≠ none ∧ middle.mState slice.fiber = keptState next)
    (fresh : ∀ position, after.mCb slice.fiber = some position →
      next.begins = some slice.fiber ∨ manager.mCb slice.fiber = some position ∧
        (manager.core.worker tid).phase.begins ≠ some slice.fiber) :
    GoesOn manager after tid slice := by
  have worker : after.core.worker tid = { middle.worker tid with phase := next } := by
    rw [core, KScheduler.worker_setPhase_self]
  refine ⟨?_, ?_, ?_, fun other different => ?_, fun other different => (others other different).1,
    taken, fun other different => (others other different).2, ?_, ?_, ?_, flow, ?_, ?_,
    fun isCb keeps => ?_, ?_⟩
  · rw [core]
    exact touches
  · rw [core]
    exact ids
  · rw [core]
    exact made
  · rw [core, KScheduler.worker_setPhase_other _ _ _ different]
    exact workers other different
  · rw [core]
    exact fibers
  · rw [worker]
    exact cbFiber
  · rw [worker]
    exact slices
  · rw [worker]
    exact held
  · rw [worker]
    exact loaded
  · rw [KScheduler.keeps, worker] at keeps
    rw [worker, core]
    cases inCb : next.inCb with
    | true => simp [inCb] at keeps
    | false =>
        rw [if_neg (by simp [inCb])] at keeps
        exact kept isCb inCb keeps
  · rw [worker]
    exact fresh

theorem executedBy_append_self {positions : List Nat} :
    executedBy { manager with executed := manager.executed ++ positions.map (·, tid) } tid =
      manager.executedBy tid ++ positions := by
  have all : (positions.map (·, tid)).filter (fun entry => decide (entry.2 = tid)) =
      positions.map (·, tid) :=
    List.filter_eq_self.mpr fun entry member => by
      obtain ⟨position, _, rfl⟩ := List.mem_map.mp member
      simp
  rw [executedBy, List.filter_append, List.map_append, all, List.map_map]
  exact congrArg _ (List.map_id' _)

theorem executedBy_append_other {positions : List Nat} {other : Int} (different : other ≠ tid) :
    executedBy { manager with executed := manager.executed ++ positions.map (·, tid) } other =
      manager.executedBy other := by
  have none : (positions.map (·, tid)).filter (fun entry => decide (entry.2 = other)) = [] :=
    List.filter_eq_nil_iff.mpr fun entry member => by
      obtain ⟨position, _, rfl⟩ := List.mem_map.mp member
      simpa using Ne.symm different
  rw [executedBy, List.filter_append, none, List.append_nil]
  rfl

section Steps

variable (carrying : Carrying manager) (untouched : manager.Untouched tid) {slice : Slice}

include carrying untouched

theorem Carrying.swapIn {core : KScheduler}
    (phase : (manager.core.worker tid).phase = .swapIn slice)
    (stepped : manager.core.swapIn tid slice = some core) : Carrying { manager with core } := by
  have carries := carrying.each tid
  have executing : (manager.core.worker tid).phase.slice = some slice := by rw [phase]; rfl
  unfold KScheduler.swapIn at stepped
  split at stepped
  · contradiction
  · cases stepped
    refine carrying.goesOn untouched executing (goesOn_setPhase rfl rfl rfl (fun _ _ => rfl)
      (.inl rfl) (fun later found => ?_) (fun _ _ => ⟨rfl, rfl⟩) rfl (fun isCb => .inl ?_)
      (fun fiber different => ⟨rfl, Function.update_of_ne different .., rfl⟩) carries.flow
      ?_ (fun begins => ?_) (fun isCb _ own => ?_) fun position set => ?_)
    · cases found
      exact ⟨rfl, rfl, rfl⟩
    · rw [phase, Phase.touches, isCb]
      rfl
    · have held := carries.held
      rw [phase] at held
      exact held
    · refine carries.loaded slice.fiber ?_
      rw [phase]
      exact begins
    · have before : manager.core.keeps tid = some slice.fiber := by
        rw [KScheduler.keeps, phase]
        exact own
      refine ⟨(carries.kept slice.fiber before).1, ?_⟩
      rw [keptState, isCb]
      exact Function.update_self ..
    · rw [phase]
      cases isCb : slice.isCb with
      | true => exact .inl (by simp [Phase.begins, isCb])
      | false => exact .inr ⟨set, by simp [Phase.begins, isCb]⟩

theorem Carrying.switchIn {core : KScheduler}
    (phase : (manager.core.worker tid).phase = .switchIn slice)
    (stepped : manager.core.switchIn tid slice = some core) :
    Carrying { manager.account tid with core } := by
  have carries := carrying.each tid
  have executing : (manager.core.worker tid).phase.slice = some slice := by rw [phase]; rfl
  have touches : slice.isCb = false →
      (manager.core.worker tid).phase.touches = some slice.fiber := by
    intro isCb
    rw [phase, Phase.touches, isCb]
    rfl
  -- only its own callback can begin in the fiber
  have loaded : manager.mCb slice.fiber = manager.holding tid := by
    have held := carries.held
    rw [phase] at held
    cases isCb : slice.isCb with
    | true =>
        refine carries.loaded slice.fiber ?_
        rw [phase]
        simp [Phase.begins, isCb]
    | false =>
        rw [show manager.holding tid = none by simpa [Phase.carries, isCb] using held]
        by_contra set
        obtain ⟨position, some⟩ := Option.ne_none_iff_exists'.mp set
        obtain ⟨other, begins⟩ := carrying.fresh slice.fiber position some
        have keeps := (carrying.each other).keeps_of_begins begins
        exact untouched other slice.fiber keeps (touches isCb)
  unfold KScheduler.switchIn at stepped
  split at stepped
  · contradiction
  · cases stepped
    have accounted : manager.account tid = ({ manager with
        executed := manager.executed ++ (manager.holding tid).toList.map (·, tid) }.setCb
          slice.fiber none).hold tid none := by
      rw [account, phase]
      dsimp only
      rw [loaded]
    rw [accounted]
    refine carrying.goesOn untouched executing (goesOn_setPhase rfl rfl rfl (fun _ _ => rfl)
      (.inl rfl) (fun later found => ?_) (fun other different => ⟨?_, ?_⟩) rfl
      (fun isCb => .inl (touches isCb)) (fun fiber different => ⟨rfl, rfl, ?_⟩) ?_ ?_
      (fun begins => by cases begins) (fun isCb inCb => ?_) fun position set => ?_)
    · cases found
      exact ⟨rfl, rfl, rfl⟩
    · exact Function.update_of_ne different ..
    · exact executedBy_append_other different
    · exact Function.update_of_ne different ..
    · change manager.takenBy tid = executedBy { manager with
        executed := manager.executed ++ (manager.holding tid).toList.map (·, tid) } tid ++
          (Function.update manager.holding tid none tid).toList
      rw [executedBy_append_self, Function.update_self, Option.toList_none, List.append_nil]
      exact carries.flow
    · change (Function.update manager.holding tid none tid).isSome = false
      rw [Function.update_self]
      rfl
    · exact absurd (isCb.symm.trans inCb) (by simp)
    · change Function.update manager.mCb slice.fiber none slice.fiber = some position at set
      rw [Function.update_self] at set
      cases set

theorem Carrying.leave {core : KScheduler} {how : Leave}
    (stepped : manager.core.leave tid how = some core) : Carrying { manager with core } := by
  have carries := carrying.each tid
  unfold KScheduler.leave at stepped
  split at stepped
  · rename_i slice phase
    have executing : (manager.core.worker tid).phase.slice = some slice := by rw [phase]; rfl
    have held := carries.held
    rw [phase] at held
    split at stepped
    · contradiction
    · cases stepped
      refine carrying.goesOn untouched executing (goesOn_setPhase rfl rfl rfl (fun _ _ => rfl)
        (.inl rfl) (fun later found => ?_) (fun _ _ => ⟨rfl, rfl⟩) rfl (fun isCb => .inl ?_)
        (fun fiber different => ⟨rfl, Function.update_of_ne different .., rfl⟩) carries.flow held
        (fun begins => nomatch begins) (fun isCb inCb => ?_) fun position set => .inr ⟨set, ?_⟩)
      · cases found
        exact ⟨rfl, rfl, rfl⟩
      · rw [phase, Phase.touches, isCb]
        rfl
      · exact absurd (isCb.symm.trans inCb) (by simp)
      · rw [phase]
        exact nofun
  · contradiction

theorem Carrying.swapOut {ended : Bool}
    (phase : (manager.core.worker tid).phase = .swapOut slice ended) :
    Carrying { manager.account tid with core := manager.core.swapOut tid slice ended } := by
  have carries := carrying.each tid
  have executing : (manager.core.worker tid).phase.slice = some slice := by rw [phase]; rfl
  have held := carries.held
  rw [phase] at held
  have accounted : manager.account tid = manager.setCb slice.fiber none := by
    rw [account, phase]
  rw [accounted]
  refine carrying.goesOn untouched executing (goesOn_setPhase rfl rfl rfl (fun _ _ => rfl)
    (.inl rfl) (fun later found => ?_) (fun _ _ => ⟨rfl, rfl⟩) rfl (fun isCb => .inl ?_)
    (fun fiber different => ⟨Function.update_of_ne different .., rfl,
      Function.update_of_ne different ..⟩) carries.flow held
    (fun begins => nomatch begins) (fun isCb inCb => ?_) fun position set => ?_)
  · cases found
    exact ⟨rfl, rfl, rfl⟩
  · rw [phase, Phase.touches, isCb]
    rfl
  · exact absurd (isCb.symm.trans inCb) (by simp)
  · cases (Function.update_self ..).symm.trans set

theorem Carrying.requeue (phase : (manager.core.worker tid).phase = .requeue slice) :
    Carrying { manager.account tid with core := manager.core.requeue tid slice } := by
  have carries := carrying.each tid
  have executing : (manager.core.worker tid).phase.slice = some slice := by rw [phase]; rfl
  have held := carries.held
  rw [phase] at held
  have accounted : manager.account tid = manager.record (.fiberPtr slice.fiber) 0 := by
    rw [account, phase]
  rw [accounted]
  have released := (manager.core.push ⟨.fiberPtr slice.fiber, 0, slice.origin⟩).released tid slice
  have same : ∀ fiber, _ ∧ _ ∧ manager.mCb fiber = manager.mCb fiber := fun fiber =>
    ⟨congrFun released.mCtx fiber, congrFun released.mState fiber, rfl⟩
  refine carrying.goesOn untouched executing (goesOn_setPhase rfl released.ids released.made
    released.workers released.cbFiber (fun later found => nomatch found) (fun _ _ => ⟨rfl, rfl⟩)
    rfl (fun isCb => .inr same) (fun fiber _ => same fiber) carries.flow held
    (fun begins => nomatch begins) (fun isCb _ own => ?_) fun position set => .inr ⟨set, ?_⟩)
  · cases (released.given isCb).symm.trans own
  · rw [phase]
    exact nofun

theorem Carrying.setHold (phase : (manager.core.worker tid).phase = .setHold slice) :
    Carrying { manager.account tid with core := manager.core.setHold tid slice } := by
  have carries := carrying.each tid
  have executing : (manager.core.worker tid).phase.slice = some slice := by rw [phase]; rfl
  have held := carries.held
  rw [phase] at held
  have accounted : manager.account tid = manager := by
    rw [account, phase]
  rw [accounted]
  have released := (manager.core.setState slice.fiber .hold).released tid slice
  refine carrying.goesOn untouched executing (goesOn_setPhase rfl released.ids released.made
    released.workers released.cbFiber (fun later found => nomatch found) (fun _ _ => ⟨rfl, rfl⟩)
    rfl (fun isCb => .inl ?_) (fun fiber different => ⟨congrFun released.mCtx fiber, ?_, rfl⟩)
    carries.flow held (fun begins => nomatch begins) (fun isCb _ own => ?_)
    fun position set => .inr ⟨set, ?_⟩)
  · rw [phase, Phase.touches, isCb]
    rfl
  · exact (congrFun released.mState fiber).trans (Function.update_of_ne different ..)
  · cases (released.given isCb).symm.trans own
  · rw [phase]
    exact nofun

/-- The execution ended, or the thread goes on to put the fiber back or hold it. -/
theorem Carrying.returned (phase : (manager.core.worker tid).phase = .returned slice) :
    Carrying { manager.account tid with core := manager.core.returned tid slice } := by
  have carries := carrying.each tid
  have executing : (manager.core.worker tid).phase.slice = some slice := by rw [phase]; rfl
  have held := carries.held
  rw [phase] at held
  have notBegins : (manager.core.worker tid).phase.begins ≠ some slice.fiber := by
    rw [phase]
    exact nofun
  have later : ∀ next : Phase, next.slice = some slice → next.carries = false →
      next.begins = none → next.inCb = slice.isCb → Carrying { manager with
        core := manager.core.setPhase tid next } := by
    intro next found carriesNot beginsNot inCb
    refine carrying.goesOn untouched executing (goesOn_setPhase rfl rfl rfl (fun _ _ => rfl)
      (.inl rfl) (fun later same => ?_) (fun _ _ => ⟨rfl, rfl⟩) rfl
      (fun _ => .inr fun _ => ⟨rfl, rfl, rfl⟩) (fun _ _ => ⟨rfl, rfl, rfl⟩) carries.flow
      (held.trans carriesNot.symm) (fun begins => ?_) (fun isCb outside => ?_)
      fun position set => .inr ⟨set, notBegins⟩)
    · cases found.symm.trans same
      exact ⟨rfl, rfl, rfl⟩
    · cases beginsNot.symm.trans begins
    · exact absurd ((inCb.trans isCb).symm.trans outside) (by simp)
  have ended : Carrying (if slice.isCb then { manager.setCb slice.fiber none with
        core := (manager.core.makeFiber slice.fiber).setPhase tid .scan }
      else { manager with core := manager.core.setPhase tid .scan }) := by
    cases isCb : slice.isCb with
    | false =>
        refine carrying.goesOn untouched executing (goesOn_setPhase rfl rfl rfl (fun _ _ => rfl)
          (.inl rfl) (fun later found => nomatch found) (fun _ _ => ⟨rfl, rfl⟩) rfl
          (fun _ => .inr fun _ => ⟨rfl, rfl, rfl⟩) (fun _ _ => ⟨rfl, rfl, rfl⟩) carries.flow
          held (fun begins => nomatch begins) (fun itIs => ?_)
          fun position set => .inr ⟨set, notBegins⟩)
        exact absurd (isCb.symm.trans itIs) (by simp)
    | true =>
        refine carrying.goesOn untouched executing (goesOn_setPhase rfl rfl rfl (fun _ _ => rfl)
          (.inl rfl) (fun later found => nomatch found) (fun _ _ => ⟨rfl, rfl⟩) rfl
          (fun itIsNot => ?_) (fun fiber different => ⟨Function.update_of_ne different ..,
            Function.update_of_ne different .., Function.update_of_ne different ..⟩) carries.flow
          held (fun begins => nomatch begins) (fun _ _ _ => ⟨?_, Function.update_self ..⟩)
          fun position set => ?_)
        · exact absurd (isCb.symm.trans itIsNot) (by simp)
        · exact (Function.update_self ..).trans_ne (by simp)
        · cases (Function.update_self ..).symm.trans set
  unfold account KScheduler.returned
  simp only [phase]
  cases state : manager.core.mState slice.fiber with
  | ready => exact later (.requeue slice) rfl rfl rfl rfl
  | term =>
      dsimp only
      split <;> rename_i isCb <;> simpa [isCb] using ended
  | except =>
      dsimp only
      split <;> rename_i isCb <;> simpa [isCb] using ended
  | hold => exact later (.setHold slice) rfl rfl rfl rfl
  | exec => exact later (.setHold slice) rfl rfl rfl rfl

end Steps

theorem Carries.empty (carries : manager.Carries tid)
    (idle : (manager.core.worker tid).phase.carries = false) : manager.holding tid = none := by
  rw [← Option.not_isSome_iff_eq_none, carries.held, idle]
  exact Bool.false_ne_true

theorem takenBy_append (manager : TaskScheduler) (entry : Taken Task Int) (other : Int) :
    takenBy { manager with ledger := { manager.ledger with
      taken := manager.ledger.taken ++ [entry] } } other =
        manager.takenBy other ++
          if entry.taker = other ∧ entry.task.work.isCb = true then [entry.position] else [] := by
  rw [takenBy, List.filter_append, List.map_append]
  by_cases counts : entry.taker = other ∧ entry.task.work.isCb = true
  · rw [if_pos counts, List.filter_cons_of_pos (by simp [counts.1, counts.2])]
    rfl
  · rw [if_neg counts, List.filter_cons_of_neg (by simpa using counts)]
    rfl

theorem Carrying.scan (carrying : Carrying manager) (queued : Queued manager)
    (untouched : manager.Untouched tid) (worker : tid ∈ manager.core.mThreadIds)
    (phase : (manager.core.worker tid).phase = .scan) :
    Carrying { manager.account tid with core := manager.core.scan tid } := by
  have carries := carrying.each tid
  have empty := carries.empty (by rw [phase]; rfl)
  unfold account
  simp only [phase]
  cases taken : manager.core.takeTask tid manager.core.mFiberQueue with
  | none =>
      have unmoved : manager.core.scan tid = manager.core := by rw [KScheduler.scan, taken]
      rw [unmoved]
      exact carrying
  | some task =>
      obtain ⟨ft, left⟩ := task
      obtain ⟨before, position, rest, scanned⟩ := queued.scanned taken
      have found : manager.ledger.waiting[manager.taskIndex tid]?.map Prod.snd = some position := by
        rw [scanned.index, scanned.whole, List.getElem?_append_right (Nat.le_refl _)]
        simp
      have moved : manager.core.scan tid =
          { manager.core with mFiberQueue := left }.setPhase tid (.dispatch ft) := by
        rw [KScheduler.scan, taken]
      have ledger : manager.ledger.take (manager.taskIndex tid) tid = { manager.ledger with
          taken := manager.ledger.taken ++ [⟨ft.task, position, tid⟩] } := by
        rw [scanned.index, Ledger.take_eq scanned.whole]
      dsimp only
      rw [found, moved, ledger]
      have grown := takenBy_append manager ⟨ft.task, position, tid⟩
      let core := { manager.core with mFiberQueue := left }.setPhase tid (.dispatch ft)
      have next : (core.worker tid) = { manager.core.worker tid with phase := .dispatch ft } :=
        KScheduler.worker_setPhase_self ..
      have keeps : core.keeps tid = manager.core.keeps tid := by
        rw [KScheduler.keeps, next, KScheduler.keeps, phase]
        rfl
      refine carrying.step_of (fun other _ => untouched other) ⟨rfl, Nat.le_refl _,
        fun other different => ?_, fun other different => ?_, fun other different => ?_,
        fun _ _ => rfl, fun _ _ _ _ => ⟨rfl, rfl, rfl⟩⟩
        ⟨?_, ?_, fun slice found => ?_, fun fiber begins => ?_, fun fiber kept => ?_,
          fun fiber own => ?_, fun outside => absurd worker outside⟩
        (fun fiber own => .inl ?_) fun fiber position set => .inr ⟨set, ?_⟩
      · exact KScheduler.worker_setPhase_other _ _ _ different
      · exact Function.update_of_ne different ..
      · refine (grown other).trans ?_
        rw [if_neg fun counts => different counts.1.symm, List.append_nil]
      · refine (grown tid).trans ?_
        change _ = manager.executedBy tid ++ (Function.update manager.holding tid _ tid).toList
        rw [carries.flow, empty, Function.update_self]
        cases work : ft.work <;> simp [Work.isCb, FiberBindThread.task, work]
      · change (Function.update manager.holding tid _ tid).isSome = (core.worker tid).phase.carries
        rw [Function.update_self, next]
        change _ = ft.work.isCb
        cases ft.work <;> rfl
      · rw [next] at found
        cases found
      · rw [next] at begins
        cases begins
      · rw [keeps] at kept
        have before := carries.kept fiber kept
        rw [phase] at before
        rw [next]
        exact before
      · rw [next] at own
        exact carries.made fiber own
      · rw [next] at own
        exact own
      · rw [phase]
        intro begins
        cases begins

/-- The fiber is made for the callback that the thread holds. -/
structure Prepared (manager : TaskScheduler) (tid : Int) (fiber : Nat) (middle : KScheduler) :
    Prop where
  ids : middle.mThreadIds = manager.core.mThreadIds
  made : manager.core.gFiberId ≤ middle.gFiberId
  workers : ∀ other ≠ tid, middle.worker other = manager.core.worker other
  fibers : ∀ other < manager.core.gFiberId, (manager.core.worker tid).cbFiber ≠ some other →
    other ≠ fiber ∧ middle.mCtx other = manager.core.mCtx other ∧
      middle.mState other = manager.core.mState other
  cbFiber : (middle.worker tid).cbFiber = some fiber
  mCtx : middle.mCtx fiber ≠ none
  mState : middle.mState fiber = .ready
  known : fiber < middle.gFiberId
  own : (manager.core.worker tid).cbFiber = some fiber ∨ manager.core.gFiberId ≤ fiber

theorem Carrying.prepared (carrying : Carrying manager) (untouched : manager.Untouched tid)
    (worker : tid ∈ manager.core.mThreadIds) {fiber : Nat} {middle : KScheduler} {origin : Int}
    (notBegins : ∀ fiber, (manager.core.worker tid).phase.begins ≠ some fiber)
    (prepared : Prepared manager tid fiber middle) (held : (manager.holding tid).isSome = true) :
    Carrying { manager.setCb fiber (manager.holding tid) with
      core := middle.setPhase tid (.swapIn ⟨fiber, origin, true, 0⟩) } := by
  have carries := carrying.each tid
  have worked : (middle.setPhase tid (.swapIn ⟨fiber, origin, true, 0⟩)).worker tid =
    { middle.worker tid with phase := .swapIn ⟨fiber, origin, true, 0⟩ } :=
      KScheduler.worker_setPhase_self ..
  have mine : ∀ other, (middle.worker tid).cbFiber = some other → other = fiber := by
    intro other own
    exact Option.some.inj (own.symm.trans prepared.cbFiber)
  refine carrying.step_of (fun other _ => untouched other) ⟨prepared.ids, prepared.made,
      fun other different => ?_, fun _ _ => rfl, fun _ _ => rfl, fun _ _ => rfl,
      fun other made _ foreign => ?_⟩
    ⟨carries.flow, ?_, fun slice found isCb => ?_, fun other begins => ?_, fun other kept => ?_,
      fun other own => ?_, fun outside => absurd worker (prepared.ids ▸ outside)⟩
    (fun other own => ?_) fun other position set => ?_
  · rw [KScheduler.worker_setPhase_other _ _ _ different]
    exact prepared.workers other different
  · obtain ⟨different, same⟩ := prepared.fibers other made foreign
    exact ⟨same.1, same.2, Function.update_of_ne different ..⟩
  · rw [worked]
    exact held
  · rw [worked] at found ⊢
    cases found
    exact prepared.cbFiber
  · rw [worked] at begins
    cases begins
    exact Function.update_self ..
  · have own := cbFiber_of_keeps kept
    rw [worked] at own
    rw [mine other own, worked]
    exact ⟨prepared.mCtx, prepared.mState⟩
  · rw [worked] at own
    rw [mine other own]
    exact prepared.known
  · rw [worked] at own
    rw [mine other own]
    exact prepared.own
  · rw [worked]
    by_cases same : other = fiber
    · subst same
      exact .inl rfl
    · exact .inr ⟨(Function.update_of_ne same ..).symm.trans set, notBegins other⟩

theorem Carrying.dispatch (carrying : Carrying manager) (untouched : manager.Untouched tid)
    (worker : tid ∈ manager.core.mThreadIds) {ft : FiberBindThread} {core : KScheduler}
    (phase : (manager.core.worker tid).phase = .dispatch ft)
    (stepped : manager.core.dispatch tid ft = some core) :
    Carrying { manager.account tid with core } := by
  have carries := carrying.each tid
  have notBegins : ∀ fiber, (manager.core.worker tid).phase.begins ≠ some fiber := by
    rw [phase]
    exact nofun
  -- a fiber from the queue
  have foreign : ∀ next : Phase, ft.work.isCb = false → next.carries = false → next.inCb = false →
      keptState next = .ready → (∀ slice, next.slice = some slice → slice.isCb = false) →
      next.begins = none → Carrying { manager with core := manager.core.setPhase tid next } := by
    intro next notCb carriesNot notIn ready foreign notNext
    have held := carries.held
    rw [phase] at held
    have worked : (manager.core.setPhase tid next).worker tid =
      { manager.core.worker tid with phase := next } := KScheduler.worker_setPhase_self ..
    refine carrying.step_of (fun other _ => untouched other) ⟨rfl, Nat.le_refl _,
        fun other different => KScheduler.worker_setPhase_other _ _ _ different, fun _ _ => rfl,
        fun _ _ => rfl, fun _ _ => rfl, fun _ _ _ _ => ⟨rfl, rfl, rfl⟩⟩
      ⟨carries.flow, ?_, fun slice found isCb => ?_, fun fiber begins => ?_, fun fiber kept => ?_,
        fun fiber own => ?_, fun outside => absurd worker outside⟩
      (fun fiber own => .inl ?_) fun fiber position set => .inr ⟨set, notBegins fiber⟩
    · rw [worked]
      exact held.trans (notCb.trans carriesNot.symm)
    · rw [worked] at found
      exact absurd ((foreign slice found).symm.trans isCb) (by simp)
    · rw [worked] at begins
      cases notNext.symm.trans begins
    · have keeps : manager.core.keeps tid = some fiber := by
        rw [KScheduler.keeps, phase]
        have own := cbFiber_of_keeps kept
        rw [worked] at own
        exact own
      have before := carries.kept fiber keeps
      rw [phase] at before
      rw [worked, ready]
      exact before
    · rw [worked] at own
      exact carries.made fiber own
    · rw [worked] at own
      exact own
  unfold account
  simp only [phase]
  unfold KScheduler.dispatch at stepped
  split at stepped
  · rename_i fiber work
    have notCb : ft.work.isCb = false := by rw [work]; rfl
    rw [if_neg (by simp [notCb])]
    split at stepped <;> cases stepped
    · refine foreign _ notCb rfl rfl rfl (fun slice found => ?_) rfl
      cases found
      rfl
    · exact foreign .scan notCb rfl rfl rfl (fun slice found => nomatch found) rfl
  · rename_i callback work
    have isCb : ft.work.isCb = true := by rw [work]; rfl
    rw [if_pos isCb]
    have held : (manager.holding tid).isSome = true := by
      rw [carries.held, phase]
      exact isCb
    split at stepped
    · rename_i fiber own
      split at stepped
      · cases stepped
        rw [own]
        refine carrying.prepared untouched worker notBegins ⟨rfl, Nat.le_refl _, fun _ _ => rfl,
          fun other _ foreign => ?_, own, ?_, ?_, carries.made fiber own, .inl own⟩ held
        · have different : other ≠ fiber := fun same => foreign (same ▸ own)
          exact ⟨different, Function.update_of_ne different .., Function.update_of_ne different ..⟩
        · exact ne_of_eq_of_ne (Function.update_self ..) (Option.some_ne_none _)
        · exact Function.update_self ..
      · contradiction
    · rename_i own
      cases stepped
      rw [own]
      refine carrying.prepared untouched worker notBegins ⟨rfl, Nat.le_succ _,
        fun other different => KScheduler.worker_setCbFiber_other _ _ _ different,
        fun other made _ => ?_, ?_, ?_, ?_, Nat.lt_succ_self _, .inr (Nat.le_refl _)⟩ held
      · have different : other ≠ manager.core.gFiberId := Nat.ne_of_lt made
        exact ⟨different, Function.update_of_ne different .., Function.update_of_ne different ..⟩
      · simp [KScheduler.setCbFiber]
      · exact ne_of_eq_of_ne (Function.update_self ..) (Option.some_ne_none _)
      · exact Function.update_self ..

theorem Carrying.threadloop (carrying : Carrying manager) (queued : Queued manager)
    (untouched : manager.Untouched tid) (stepped : manager.step (.threadloop tid) = some after) :
    Carrying after := by
  obtain ⟨core, moved, rfl⟩ := Option.map_eq_some_iff.mp stepped
  simp only [KScheduler.step] at moved
  split at moved
  · rename_i worker
    unfold KScheduler.threadloop at moved
    cases phase : (manager.core.worker tid).phase with
    | scan =>
        simp only [phase] at moved
        cases moved
        exact carrying.scan queued untouched worker phase
    | dispatch ft =>
        simp only [phase] at moved
        exact carrying.dispatch untouched worker phase moved
    | swapIn slice =>
        simp only [phase] at moved
        have accounted : manager.account tid = manager := by rw [account, phase]
        rw [accounted]
        exact carrying.swapIn untouched phase moved
    | switchIn slice =>
        simp only [phase] at moved
        exact carrying.switchIn untouched phase moved
    | running slice =>
        simp only [phase] at moved
        contradiction
    | swapOut slice ended =>
        simp only [phase] at moved
        cases moved
        exact carrying.swapOut untouched phase
    | returned slice =>
        simp only [phase] at moved
        cases moved
        exact carrying.returned untouched phase
    | requeue slice =>
        simp only [phase] at moved
        cases moved
        exact carrying.requeue untouched phase
    | setHold slice =>
        simp only [phase] at moved
        cases moved
        exact carrying.setHold untouched phase
  · contradiction

/-- A step of no thread: the fibers that threads keep stay as they are. -/
theorem Carrying.frame (carrying : Carrying manager)
    (ids : after.core.mThreadIds = manager.core.mThreadIds)
    (workers : after.core.worker = manager.core.worker)
    (made : manager.core.gFiberId ≤ after.core.gFiberId)
    (fibers : ∀ fiber < manager.core.gFiberId,
      after.core.mCtx fiber = manager.core.mCtx fiber ∧
        after.core.mState fiber = manager.core.mState fiber)
    (taken : after.ledger.taken = manager.ledger.taken) (mCb : after.mCb = manager.mCb)
    (holding : after.holding = manager.holding) (executed : after.executed = manager.executed) :
    Carrying after := by
  have keeps : ∀ tid, after.core.keeps tid = manager.core.keeps tid := by
    intro tid
    rw [KScheduler.keeps, workers, KScheduler.keeps]
  refine ⟨fun tid => ?_, ?_, ?_⟩
  · have carries := carrying.each tid
    refine ⟨?_, ?_, ?_, ?_, fun fiber kept => ?_, fun fiber own => ?_, ?_⟩
    · rw [takenBy, taken, executedBy, executed, holding]
      exact carries.flow
    · rw [holding, workers]
      exact carries.held
    · rw [workers]
      exact carries.own
    · rw [workers, mCb, holding]
      exact carries.loaded
    · rw [keeps] at kept
      have same := fibers fiber (carries.made fiber (cbFiber_of_keeps kept))
      rw [same.1, same.2, workers]
      exact carries.kept fiber kept
    · rw [workers] at own
      exact Nat.lt_of_lt_of_le (carries.made fiber own) made
    · rw [ids, workers]
      exact carries.worker
  · rw [workers]
    exact carrying.apart
  · rw [workers, mCb]
    exact carrying.fresh

theorem Carrying.scheduleNoLock (carrying : Carrying manager) {task : Option Work × Int}
    (stepped : manager.scheduleNoLock task = some after) : Carrying after := by
  obtain ⟨work, th⟩ := task
  cases work with
  | none =>
      cases stepped
      exact carrying.frame rfl rfl (Nat.le_refl _) (fun _ _ => ⟨rfl, rfl⟩) rfl rfl rfl rfl
  | some work =>
      obtain ⟨core, pushed, rfl⟩ := Option.map_eq_some_iff.mp stepped
      rw [KScheduler.step_schedule pushed]
      exact carrying.frame rfl rfl (Nat.le_refl _) (fun _ _ => ⟨rfl, rfl⟩) rfl rfl rfl rfl

/-- The history is right, and so are the callbacks that the threads carry. -/
structure Accounted (manager : TaskScheduler) : Prop where
  queued : Queued manager
  carrying : Carrying manager

theorem Accounted.schedule (accounted : Accounted manager) {tasks : List (Option Work × Int)}
    (stepped : tasks.foldlM TaskScheduler.scheduleNoLock manager = some after) :
    Accounted after := by
  induction tasks generalizing manager with
  | nil =>
      cases stepped
      exact accounted
  | cons task rest ih =>
      obtain ⟨next, pushed, remaining⟩ := Option.bind_eq_some_iff.mp stepped
      exact ih ⟨accounted.queued.scheduleNoLock pushed, accounted.carrying.scheduleNoLock pushed⟩
        remaining

theorem Carrying.untouched (carrying : Carrying manager)
    (guard : ∀ other ∈ manager.core.mThreadIds, manager.core.keeps other = none ∨
      manager.core.keeps other ≠ (manager.core.worker tid).phase.touches) :
    manager.Untouched tid := by
  intro other fiber keeps touches
  by_cases worker : other ∈ manager.core.mThreadIds
  · rcases guard other worker with nothing | different
    · exact absurd (nothing.symm.trans keeps) (by simp)
    · exact different (keeps.trans touches.symm)
  · have outside := ((carrying.each other).worker worker).2
    exact absurd (outside.symm.trans (cbFiber_of_keeps keeps)) (by simp)

theorem Accounted.step {event : TaskEvent} (accounted : Accounted manager)
    (permitted : keptUntouched manager event) (stepped : manager.step event = some after) :
    Accounted after := by
  obtain ⟨queued, carrying⟩ := accounted
  cases event with
  | newFiber =>
      cases stepped
      refine ⟨queued.same rfl rfl rfl, carrying.frame rfl rfl (Nat.le_succ _) (fun fiber made => ?_)
        rfl rfl rfl rfl⟩
      have different : fiber ≠ manager.core.gFiberId := Nat.ne_of_lt made
      exact ⟨Function.update_of_ne different .., Function.update_of_ne different ..⟩
  | schedule tasks => exact Accounted.schedule ⟨queued, carrying⟩ stepped
  | threadloop tid =>
      exact ⟨queued.threadloop stepped,
        carrying.threadloop queued (carrying.untouched permitted) stepped⟩
  | leave tid how =>
      obtain ⟨core, left, rfl⟩ := Option.map_eq_some_iff.mp stepped
      simp only [KScheduler.step] at left
      split at left
      · refine ⟨queued.same ?_ rfl rfl, carrying.leave (carrying.untouched permitted) left⟩
        unfold KScheduler.leave at left
        split at left
        · split at left <;> cases left
          rfl
        · contradiction
      · contradiction

/-! ## Delivery -/

theorem mem_takenBy {entry : Taken Task Int} (member : entry ∈ manager.ledger.taken)
    (isCb : entry.task.work.isCb = true) : entry.position ∈ manager.takenBy entry.taker :=
  List.mem_map_of_mem (List.mem_filter.mpr ⟨member, by simp [isCb]⟩)

theorem mem_executedBy {position : Nat} {tid : Int} :
    position ∈ manager.executedBy tid ↔ (position, tid) ∈ manager.executed := by
  simp [executedBy]

/-- An execution is of a callback that the same thread took. -/
theorem Carries.source (carries : manager.Carries tid) {position : Nat}
    (executed : (position, tid) ∈ manager.executed) :
    ∃ entry ∈ manager.ledger.taken, entry.position = position ∧ entry.taker = tid ∧
      entry.task.work.isCb = true := by
  have among : position ∈ manager.takenBy tid := by
    rw [carries.flow]
    exact List.mem_append_left _ (mem_executedBy.mpr executed)
  obtain ⟨entry, member, same⟩ := List.mem_map.mp among
  obtain ⟨taken, mine⟩ := List.mem_filter.mp member
  rw [Bool.and_eq_true, decide_eq_true_eq] at mine
  exact ⟨entry, taken, same, mine.1, mine.2⟩

/-- No assertion stands in the way of a thread with a callback to begin. -/
theorem Carries.goes (carries : manager.Carries tid)
    (carrying : (manager.core.worker tid).phase.carries = true) :
    (manager.core.threadloop tid).isSome = true := by
  unfold KScheduler.threadloop
  cases phase : (manager.core.worker tid).phase with
  | dispatch ft =>
      rw [phase] at carrying
      cases work : ft.work with
      | fiberPtr fiber =>
          rw [Phase.carries, work] at carrying
          cases carrying
      | cb callback =>
          simp only [KScheduler.dispatch, work]
          cases own : (manager.core.worker tid).cbFiber with
          | none => rfl
          | some fiber =>
              have kept : manager.core.keeps tid = some fiber := by
                rw [KScheduler.keeps, phase]
                exact own
              have ready := (carries.kept fiber kept).2
              rw [phase] at ready
              simp [ready, keptState]
  | swapIn slice =>
      rw [phase] at carrying
      have kept : manager.core.keeps tid = some slice.fiber := by
        rw [KScheduler.keeps, phase]
        exact carries.own slice (by rw [phase]; rfl) carrying
      have ready := (carries.kept slice.fiber kept).2
      rw [phase] at ready
      simp [KScheduler.swapIn, ready, keptState]
  | switchIn slice =>
      rw [phase] at carrying
      have kept : manager.core.keeps tid = some slice.fiber := by
        rw [KScheduler.keeps, phase]
        exact carries.own slice (by rw [phase]; rfl) carrying
      simp [KScheduler.switchIn, (carries.kept slice.fiber kept).1]
  | _ =>
      rw [phase] at carrying
      cases carrying

theorem Queued.takenBy_nodup (queued : Queued manager) (tid : Int) :
    (manager.takenBy tid).Nodup :=
  queued.sound.once.sublist (List.filter_sublist.map _)

/-- Pairs that are single for each second part, and have one second part each. -/
theorem nodup_map_fst {pairs : List (Nat × Int)}
    (each : ∀ tid, ((pairs.filter fun pair => pair.2 = tid).map Prod.fst).Nodup)
    (one : ∀ position tid other, (position, tid) ∈ pairs → (position, other) ∈ pairs →
      tid = other) : (pairs.map Prod.fst).Nodup := by
  induction pairs with
  | nil => exact List.nodup_nil
  | cons pair rest ih =>
      obtain ⟨position, tid⟩ := pair
      rw [List.map_cons, List.nodup_cons]
      constructor
      · intro among
        obtain ⟨⟨again, other⟩, member, rfl⟩ := List.mem_map.mp among
        cases one again tid other (List.mem_cons_self ..) (List.mem_cons_of_mem _ member)
        have twice := each tid
        rw [List.filter_cons_of_pos (by simp), List.map_cons, List.nodup_cons] at twice
        exact twice.1 (List.mem_map_of_mem (List.mem_filter.mpr ⟨member, by simp⟩))
      · refine ih (fun other => ?_) fun position tid other first second =>
          one position tid other (List.mem_cons_of_mem _ first) (List.mem_cons_of_mem _ second)
        exact (each other).sublist (((List.sublist_cons_self ..).filter _).map _)

/-- The callbacks bound to a thread are executed in the order in which it takes them. -/
theorem Carrying.executed_sublist (carrying : Carrying manager) (queued : Queued manager)
    (bound : tid ≠ 0) : ((manager.executed.filter fun entry =>
      manager.ledger.sent[entry.1]?.any (boundTo tid)).map Prod.fst).Sublist
        (manager.ledger.takenOf (boundTo tid)) := by
  let kind : Nat → Bool := fun position => manager.ledger.sent[position]?.any (boundTo tid)
  have mine : ∀ entry ∈ manager.executed, kind entry.1 = true → entry.2 = tid := by
    rintro ⟨position, other⟩ executed found
    obtain ⟨entry, member, rfl, rfl, _⟩ := (carrying.each other).source executed
    simp only [kind, queued.sound.known entry member, Option.any_some, boundTo, Bool.and_eq_true,
      beq_iff_eq] at found
    rcases queued.admitted entry member with zero | same
    · exact absurd (found.2.symm.trans zero) bound
    · exact same.symm.trans found.2
  have known : ∀ entry ∈ manager.ledger.taken, kind entry.position = boundTo tid entry.task := by
    intro entry member
    simp only [kind, queued.sound.known entry member, Option.any_some]
  have executed : (manager.executed.filter fun entry => kind entry.1).map Prod.fst =
      (manager.executedBy tid).filter kind := by
    rw [executedBy, List.filter_map, List.filter_filter]
    refine congrArg _ (List.filter_congr fun entry member => ?_)
    cases found : kind entry.1 with
    | true => simp [mine entry member found, found]
    | false => simp [found]
  have taken : ((manager.takenBy tid).filter kind).Sublist
      (manager.ledger.takenOf (boundTo tid)) := by
    rw [takenBy, List.filter_map, List.filter_filter]
    have same : manager.ledger.taken.filter (fun entry =>
        (kind ∘ Taken.position) entry && (decide (entry.taker = tid) && entry.task.work.isCb)) =
        manager.ledger.taken.filter fun entry =>
          (decide (entry.taker = tid) && entry.task.work.isCb) && boundTo tid entry.task :=
      List.filter_congr fun entry member => by
        rw [Function.comp_apply, known entry member, Bool.and_comm]
    rw [same, ← List.filter_filter]
    exact List.filter_sublist.map _
  have before : (manager.executedBy tid).Sublist (manager.takenBy tid) := by
    rw [(carrying.each tid).flow]
    exact List.sublist_append_left ..
  rw [executed]
  exact (before.filter kind).trans taken

theorem Accounted.delivered (accounted : Accounted manager) : manager.Delivered := by
  obtain ⟨queued, carrying⟩ := accounted
  have unique : ∀ position tid other, (position, tid) ∈ manager.executed →
      (position, other) ∈ manager.executed → tid = other := by
    intro position tid other first second
    obtain ⟨entry, one, rfl, rfl, _⟩ := (carrying.each tid).source first
    obtain ⟨again, two, same, rfl, _⟩ := (carrying.each other).source second
    rw [queued.sound.entry_eq one two same.symm]
  have single : ∀ tid, (manager.takenBy tid).Nodup := queued.takenBy_nodup
  refine ⟨queued.nonNull, queued.queue, queued.sound.once, fun entry member isCb => ?_, ?_,
    fun ⟨position, tid⟩ executed => ?_, fun tid bound => ?_⟩
  · have carries := carrying.each entry.taker
    have taken := mem_takenBy member isCb
    rw [carries.flow] at taken
    rcases List.mem_append.mp taken with begun | still
    · exact .inl (mem_executedBy.mp begun)
    · have holding := Option.mem_toList.mp still
      refine .inr ⟨holding, fun among => ?_, carries.goes ?_⟩
      · obtain ⟨⟨position, other⟩, executed, same⟩ := List.mem_map.mp among
        obtain ⟨again, two, at_, taker, _⟩ := (carrying.each other).source executed
        cases queued.sound.entry_eq member two (same.symm.trans at_.symm)
        rw [taker] at carries still
        have distinct := single other
        rw [carries.flow] at distinct
        have begun : entry.position ∈ manager.executedBy other :=
          mem_executedBy.mpr (at_ ▸ executed)
        exact (List.nodup_append.mp distinct).2.2 _ begun _ still rfl
      · rw [← carries.held, holding]
        rfl
  · refine nodup_map_fst (fun tid => ?_) unique
    have distinct := single tid
    rw [(carrying.each tid).flow] at distinct
    exact (List.nodup_append.mp distinct).1
  · obtain ⟨entry, member, rfl, rfl, isCb⟩ := (carrying.each tid).source executed
    have known := queued.sound.known entry member
    have admitted := queued.admitted entry member
    obtain ⟨⟨work, th⟩, position, taker⟩ := entry
    cases work with
    | fiberPtr fiber => cases isCb
    | cb callback => exact ⟨callback, th, known, admitted⟩
  · have ordered := (queued.inOrder tid bound).taken_pairwise
    exact ordered.sublist (carrying.executed_sublist queued bound)

end TaskScheduler

/-- While no fiber that a thread keeps for its next callback is resumed from the
queue, the queue delivers every callback once, to the right thread and in order. -/
theorem callbacks_delivered {mThreadIds : List Int} {events : List TaskEvent}
    {last : TaskScheduler}
    (run : Run TaskScheduler.step keptUntouched (TaskScheduler.start mThreadIds) events last) :
    last.Delivered := by
  have accounted : last.Accounted :=
    run.invariant TaskScheduler.Accounted
      ⟨TaskScheduler.queued_start mThreadIds, TaskScheduler.carrying_start mThreadIds⟩
      fun accounted permitted stepped => accounted.step permitted stepped
  exact accounted.delivered

/-- Thread 1 executes the callback bound to it and thread 2 the unbound one,
behind a null task. -/
theorem callbacks_delivered_of_two_threads :
    ∃ last, Run TaskScheduler.step keptUntouched (TaskScheduler.start [1, 2])
        ([TaskEvent.schedule [(some (.cb 7), 1), (none, 0), (some (.cb 8), 0)]] ++
          List.replicate 4 (.threadloop 2) ++ List.replicate 4 (.threadloop 1)) last ∧
      last.executed = [(1, 2), (0, 1)] ∧ last.Delivered := by
  have run : Run TaskScheduler.step keptUntouched (TaskScheduler.start [1, 2])
      ([TaskEvent.schedule [(some (.cb 7), 1), (none, 0), (some (.cb 8), 0)]] ++
        List.replicate 4 (.threadloop 2) ++ List.replicate 4 (.threadloop 1)) _ :=
    Run.of_execute rfl
  exact ⟨_, run, rfl, callbacks_delivered run⟩

/-- The first callback schedules its own fiber for thread 2 and ends; thread 2
resumes the fiber while thread 1 is about to begin the second callback in it. -/
theorem callback_begun_by_another_thread :
    ∃ last, Run TaskScheduler.step anyStep (TaskScheduler.start [1, 2])
        ([TaskEvent.schedule [(some (.cb 7), 1)]] ++ List.replicate 4 (.threadloop 1) ++
          [.schedule [(some (.fiberPtr 0), 2)], .leave 1 .terminate, .threadloop 1, .threadloop 1,
            .schedule [(some (.cb 8), 1)], .threadloop 1, .threadloop 1] ++
          List.replicate 4 (.threadloop 2)) last ∧
      ¬ last.Delivered := by
  refine ⟨_, Run.of_execute rfl, fun delivered => ?_⟩
  obtain ⟨callback, th, known, admits⟩ := delivered.permitted (2, 2) (by decide)
  cases known
  exact absurd admits (by decide)

end FiberKcp.Scheduler
