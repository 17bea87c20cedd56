import FiberKcp.Scheduler.Threadloop

namespace FiberKcp.Scheduler

open FiberKcp.Fiber

/-! Which tasks, in the queue or in the hands of a thread, name a fiber. -/

/-- The fiber that a thread is at work with, and the origin of the task it is at
work for. -/
def Phase.serves : Phase → Option (Nat × Int)
  | .scan | .dispatch ⟨.cb _, _, _⟩ => none
  | .dispatch ⟨.fiberPtr fiber, _, origin⟩ => some (fiber, origin)
  | .swapIn slice | .switchIn slice | .running slice | .swapOut slice _ | .returned slice
  | .requeue slice | .setHold slice => some (slice.fiber, slice.origin)

/-- The fiber that a thread puts its next callback into. -/
def KScheduler.nextCbFiber (scheduler : KScheduler) (tid : Int) : Nat :=
  (scheduler.worker tid).cbFiber.getD scheduler.gFiberId

/-- A task in the queue or in the hands of a thread names the fiber. -/
def KScheduler.Names (scheduler : KScheduler) (fiber : Nat) (origin : Int) : Prop :=
  (∃ it ∈ scheduler.mFiberQueue, it.work = .fiberPtr fiber ∧ it.origin = origin) ∨
    ∃ tid, (scheduler.worker tid).phase.serves = some (fiber, origin)

section Names

variable {scheduler after : KScheduler} {tid : Int} {fiber : Nat} {origin : Int}

theorem names_congr (queue : after.mFiberQueue = scheduler.mFiberQueue)
    (phases : ∀ tid, (after.worker tid).phase = (scheduler.worker tid).phase)
    (names : after.Names fiber origin) : scheduler.Names fiber origin := by
  rcases names with ⟨it, member, named⟩ | ⟨other, serves⟩
  · exact .inl ⟨it, queue ▸ member, named⟩
  · exact .inr ⟨other, phases other ▸ serves⟩

theorem names_setPhase {phase : Phase} (names : (scheduler.setPhase tid phase).Names fiber origin) :
    phase.serves = some (fiber, origin) ∨ scheduler.Names fiber origin := by
  rcases names with queued | ⟨other, serves⟩
  · exact .inr (.inl queued)
  · by_cases same : other = tid
    · subst same
      rw [KScheduler.worker_setPhase_self] at serves
      exact .inl serves
    · rw [KScheduler.worker_setPhase_other _ _ _ same] at serves
      exact .inr (.inr ⟨other, serves⟩)

theorem names_push {ft : FiberBindThread} (names : (scheduler.push ft).Names fiber origin) :
    ft.work = .fiberPtr fiber ∧ ft.origin = origin ∨ scheduler.Names fiber origin := by
  rcases names with ⟨it, member, named⟩ | working
  · rcases List.mem_append.mp member with earlier | last
    · exact .inr (.inl ⟨it, earlier, named⟩)
    · rw [List.mem_singleton.mp last] at named
      exact .inl named
  · exact .inr (.inr working)

theorem names_scan (names : (scheduler.scan tid).Names fiber origin) :
    scheduler.Names fiber origin := by
  unfold KScheduler.scan at names
  split at names
  · exact names
  · rename_i ft left taken
    obtain ⟨front, back, queue, rfl, _⟩ := KScheduler.takeTask_cases taken
    have whole : ∀ it ∈ ft :: (front ++ back), it ∈ scheduler.mFiberQueue := by
      intro it member
      rw [queue]
      simp only [List.mem_cons, List.mem_append] at member ⊢
      tauto
    rcases names_setPhase names with serves | ⟨it, member, named⟩ | working
    · obtain ⟨work, th, source⟩ := ft
      cases work with
      | cb callback => cases serves
      | fiberPtr named =>
          cases serves
          exact .inl ⟨_, whole _ List.mem_cons_self, rfl, rfl⟩
    · exact .inl ⟨it, whole it (List.mem_cons_of_mem _ member), named⟩
    · exact .inr working

end Names

/-- The thread is about to put a callback into the fiber. -/
def KScheduler.Loads (scheduler : KScheduler) (tid : Int) (fiber : Nat) (origin : Int) : Prop :=
  fiber = scheduler.nextCbFiber tid ∧
    ∃ callback th, (scheduler.worker tid).phase = .dispatch ⟨.cb callback, th, origin⟩

/-- What a step of a thread does to the tasks that name a fiber and to the
fibers kept. -/
structure Advances (scheduler after : KScheduler) (tid : Int) : Prop where
  names : ∀ fiber origin, after.Names fiber origin →
    scheduler.Names fiber origin ∨ scheduler.Loads tid fiber origin
  others : ∀ other ≠ tid, after.worker other = scheduler.worker other
  made : scheduler.gFiberId ≤ after.gFiberId
  kept : ∀ fiber, (after.worker tid).cbFiber = some fiber →
    (scheduler.worker tid).cbFiber = some fiber ∨ fiber < after.gFiberId

namespace Advances

variable {scheduler middle after : KScheduler} {tid : Int}

theorem refl : Advances scheduler scheduler tid :=
  ⟨fun _ _ => .inl, fun _ _ => rfl, Nat.le_refl _, fun _ => .inl⟩

theorem congr (advances : Advances scheduler middle tid)
    (queue : after.mFiberQueue = middle.mFiberQueue) (workers : after.worker = middle.worker)
    (made : after.gFiberId = middle.gFiberId) : Advances scheduler after tid where
  names := fun fiber origin names =>
    advances.names fiber origin (names_congr queue (fun _ => by rw [workers]) names)
  others := fun other different => by rw [workers, advances.others other different]
  made := made ▸ advances.made
  kept := fun fiber kept => made ▸ advances.kept fiber (workers ▸ kept)

theorem setState (advances : Advances scheduler middle tid) (fiber : Nat) (state : FiberState) :
    Advances scheduler (middle.setState fiber state) tid := advances.congr rfl rfl rfl

theorem setCtx (advances : Advances scheduler middle tid) (fiber : Nat) (ctx : Option Nat) :
    Advances scheduler (middle.setCtx fiber ctx) tid := advances.congr rfl rfl rfl

theorem beginSlice (advances : Advances scheduler middle tid) (fiber : Nat) :
    Advances scheduler (middle.beginSlice fiber) tid := advances.congr rfl rfl rfl

theorem makeFiber (advances : Advances scheduler middle tid) (fiber : Nat) :
    Advances scheduler (middle.makeFiber fiber) tid :=
  (advances.setCtx fiber _).setState fiber .ready

theorem setPhase (advances : Advances scheduler middle tid) {phase : Phase}
    (serves : ∀ fiber origin, phase.serves = some (fiber, origin) →
      scheduler.Names fiber origin ∨ scheduler.Loads tid fiber origin) :
    Advances scheduler (middle.setPhase tid phase) tid where
  names := fun fiber origin names =>
    (names_setPhase names).elim (serves fiber origin) (advances.names fiber origin)
  others := fun other different => by
    rw [KScheduler.worker_setPhase_other _ _ _ different, advances.others other different]
  made := advances.made
  kept := fun fiber kept => advances.kept fiber (by rwa [KScheduler.worker_setPhase_self] at kept)

theorem toScan (advances : Advances scheduler middle tid) :
    Advances scheduler (middle.setPhase tid .scan) tid :=
  advances.setPhase fun _ _ serves => nomatch serves

/-- The thread stays at work for the same task. -/
theorem goesOn (advances : Advances scheduler middle tid) {phase : Phase}
    (same : phase.serves = (scheduler.worker tid).phase.serves) :
    Advances scheduler (middle.setPhase tid phase) tid :=
  advances.setPhase fun _ _ serves => .inl (.inr ⟨tid, same ▸ serves⟩)

theorem setCbFiber (advances : Advances scheduler middle tid) {cbFiber : Option Nat}
    (made : ∀ fiber ∈ cbFiber, fiber < middle.gFiberId) :
    Advances scheduler (middle.setCbFiber tid cbFiber) tid where
  names := by
    intro fiber origin names
    apply advances.names fiber origin
    refine names_congr ?_ ?_ names
    · rfl
    · exact fun other => middle.phase_setCbFiber tid cbFiber other
  others := fun other different => by
    rw [KScheduler.worker_setCbFiber_other _ _ _ different, advances.others other different]
  made := advances.made
  kept := fun fiber kept => .inr (made fiber (by simpa [KScheduler.setCbFiber] using kept))

theorem release (advances : Advances scheduler middle tid) (slice : Slice) :
    Advances scheduler (middle.release tid slice) tid := by
  unfold KScheduler.release
  split
  · exact advances.setCbFiber fun fiber member => nomatch member
  · exact advances

theorem newFiber (advances : Advances scheduler middle tid) :
    Advances scheduler middle.newFiber tid where
  names := fun fiber origin names =>
    advances.names fiber origin (names_congr rfl (fun _ => rfl) names)
  others := advances.others
  made := Nat.le_succ_of_le advances.made
  kept := fun fiber kept => (advances.kept fiber kept).imp_right Nat.lt_succ_of_lt

theorem scan : Advances scheduler (scheduler.scan tid) tid where
  names := fun fiber origin names => .inl (names_scan names)
  others := fun other different => by
    unfold KScheduler.scan
    split
    · rfl
    · exact KScheduler.worker_setPhase_other _ _ _ different
  made := by
    unfold KScheduler.scan
    split <;> exact Nat.le_refl _
  kept := fun fiber kept => by
    unfold KScheduler.scan at kept
    split at kept
    · exact .inl kept
    · rw [KScheduler.worker_setPhase_self] at kept
      exact .inl kept

theorem dispatch {ft : FiberBindThread} (phase : (scheduler.worker tid).phase = .dispatch ft)
    (stepped : scheduler.dispatch tid ft = some after) : Advances scheduler after tid := by
  obtain ⟨work, th, origin⟩ := ft
  cases work with
  | fiberPtr fiber =>
      simp only [KScheduler.dispatch] at stepped
      split at stepped <;> cases stepped
      · exact refl.goesOn (by rw [phase]; rfl)
      · exact refl.toScan
  | cb callback =>
      have loads : ∀ slice : Slice, slice.fiber = scheduler.nextCbFiber tid →
          slice.origin = origin → ∀ fiber origin',
            (Phase.swapIn slice).serves = some (fiber, origin') →
              scheduler.Names fiber origin' ∨ scheduler.Loads tid fiber origin' := by
        rintro slice next rfl _ _ ⟨⟩
        exact .inr ⟨next, callback, th, phase⟩
      simp only [KScheduler.dispatch] at stepped
      split at stepped
      · rename_i fiber found
        split at stepped <;> cases stepped
        exact (refl.makeFiber fiber).setPhase
          (loads ⟨fiber, origin, true, 0⟩ (by rw [KScheduler.nextCbFiber, found]; rfl) rfl)
      · rename_i found
        cases stepped
        have made : ∀ fiber ∈ some scheduler.gFiberId, fiber < scheduler.newFiber.gFiberId := by
          rintro _ ⟨⟩
          exact Nat.lt_succ_self _
        exact (refl.newFiber.setCbFiber made).setPhase
          (loads ⟨scheduler.gFiberId, origin, true, 0⟩
            (by rw [KScheduler.nextCbFiber, found]; rfl) rfl)

theorem returned {slice : Slice} (phase : (scheduler.worker tid).phase = .returned slice) :
    Advances scheduler (scheduler.returned tid slice) tid := by
  have ended : Advances scheduler (if slice.isCb then
      (scheduler.makeFiber slice.fiber).setPhase tid .scan else scheduler.setPhase tid .scan)
      tid := by
    split
    · exact (refl.makeFiber slice.fiber).toScan
    · exact refl.toScan
  unfold KScheduler.returned
  cases scheduler.mState slice.fiber with
  | ready => exact refl.goesOn (by rw [phase]; rfl)
  | term => exact ended
  | except => exact ended
  | hold => exact refl.goesOn (by rw [phase]; rfl)
  | exec => exact refl.goesOn (by rw [phase]; rfl)

theorem push {slice : Slice} (phase : (scheduler.worker tid).phase = .requeue slice) :
    Advances scheduler (scheduler.push ⟨.fiberPtr slice.fiber, 0, slice.origin⟩) tid where
  names := fun fiber origin names => by
    rcases names_push names with ⟨work, rfl⟩ | before
    · cases work
      exact .inl (.inr ⟨tid, by rw [phase]; rfl⟩)
    · exact .inl before
  others := fun _ _ => rfl
  made := Nat.le_refl _
  kept := fun _ => .inl

theorem threadloop (stepped : scheduler.threadloop tid = some after) :
    Advances scheduler after tid := by
  unfold KScheduler.threadloop at stepped
  cases phase : (scheduler.worker tid).phase with
  | scan =>
      simp only [phase] at stepped
      cases stepped
      exact scan
  | dispatch ft =>
      simp only [phase] at stepped
      exact dispatch phase stepped
  | swapIn slice =>
      simp only [phase, KScheduler.swapIn] at stepped
      split at stepped
      · contradiction
      · cases stepped
        exact (refl.setState slice.fiber .exec).goesOn (by rw [phase]; rfl)
  | switchIn slice =>
      simp only [phase, KScheduler.switchIn] at stepped
      split at stepped
      · contradiction
      · cases stepped
        exact (refl.beginSlice slice.fiber).goesOn (by rw [phase]; rfl)
  | running _ =>
      simp only [phase] at stepped
      contradiction
  | swapOut slice ended =>
      simp only [phase] at stepped
      cases stepped
      exact (refl.setCtx slice.fiber _).goesOn (by rw [phase]; rfl)
  | returned slice =>
      simp only [phase] at stepped
      cases stepped
      exact returned phase
  | requeue slice =>
      simp only [phase] at stepped
      cases stepped
      exact ((push phase).release slice).toScan
  | setHold slice =>
      simp only [phase] at stepped
      cases stepped
      exact ((refl.setState slice.fiber .hold).release slice).toScan

theorem leave {how : Leave} (stepped : scheduler.leave tid how = some after) :
    Advances scheduler after tid := by
  unfold KScheduler.leave at stepped
  cases phase : (scheduler.worker tid).phase with
  | running slice =>
      simp only [phase] at stepped
      split at stepped
      · contradiction
      · cases stepped
        exact (refl.setState slice.fiber how.state).goesOn (by rw [phase]; rfl)
  | _ =>
      simp only [phase] at stepped
      contradiction

end Advances

/-- Putting a callback into a fiber makes the thread keep the fiber. -/
theorem cbFiber_of_loads {scheduler after : KScheduler} {tid : Int} {fiber : Nat} {origin : Int}
    (loads : scheduler.Loads tid fiber origin) (stepped : scheduler.threadloop tid = some after) :
    (after.worker tid).cbFiber = some fiber := by
  obtain ⟨rfl, callback, th, phase⟩ := loads
  simp only [KScheduler.threadloop, phase, KScheduler.dispatch] at stepped
  split at stepped
  · rename_i fiber found
    split at stepped <;> cases stepped
    rw [KScheduler.worker_setPhase_self, KScheduler.nextCbFiber, found]
    exact found
  · rename_i found
    cases stepped
    rw [KScheduler.worker_setPhase_self, KScheduler.nextCbFiber, found]
    simp [KScheduler.setCbFiber]

/-- The fibers named by tasks and kept by threads have been made. -/
structure Made (scheduler : KScheduler) : Prop where
  named : ∀ fiber origin, scheduler.Names fiber origin → fiber < scheduler.gFiberId
  kept : ∀ tid fiber, (scheduler.worker tid).cbFiber = some fiber → fiber < scheduler.gFiberId
  idle : ∀ tid ∉ scheduler.mThreadIds, (scheduler.worker tid).phase = .scan

theorem not_names_start {mThreadIds : List Int} {fiber : Nat} {origin : Int} :
    ¬ (KScheduler.start mThreadIds).Names fiber origin := by
  rintro (⟨it, member, _⟩ | ⟨_, serves⟩)
  · exact List.not_mem_nil member
  · cases serves

theorem made_start (mThreadIds : List Int) : Made (KScheduler.start mThreadIds) where
  named := fun _ _ names => absurd names not_names_start
  kept := fun _ _ found => nomatch found
  idle := fun _ _ => rfl

section Made

variable {scheduler after : KScheduler} {tid : Int}

theorem Made.advances (made : Made scheduler) (advances : Advances scheduler after tid)
    (member : tid ∈ scheduler.mThreadIds) (ids : after.mThreadIds = scheduler.mThreadIds)
    (loaded : ∀ fiber origin, scheduler.Loads tid fiber origin →
      (after.worker tid).cbFiber = some fiber) : Made after := by
  have kept : ∀ other fiber, (after.worker other).cbFiber = some fiber →
      fiber < after.gFiberId := by
    intro other fiber kept
    by_cases same : other = tid
    · subst same
      rcases advances.kept fiber kept with before | fresh
      · exact Nat.lt_of_lt_of_le (made.kept other fiber before) advances.made
      · exact fresh
    · rw [advances.others other same] at kept
      exact Nat.lt_of_lt_of_le (made.kept other fiber kept) advances.made
  refine ⟨fun fiber origin names => ?_, kept, fun other absent => ?_⟩
  · rcases advances.names fiber origin names with before | loads
    · exact Nat.lt_of_lt_of_le (made.named fiber origin before) advances.made
    · exact kept tid fiber (loaded fiber origin loads)
  · have outside : other ∉ scheduler.mThreadIds := ids ▸ absent
    rw [advances.others other fun same => outside (same ▸ member)]
    exact made.idle other outside

theorem Made.step {event : SchedulerEvent} (made : Made scheduler)
    (stepped : scheduler.step event = some after) : Made after := by
  have ids := (KScheduler.step_queue stepped).1
  cases event with
  | newFiber =>
      cases stepped
      exact ⟨fun fiber origin names => Nat.lt_succ_of_lt
          (made.named fiber origin (names_congr rfl (fun _ => rfl) names)),
        fun other fiber kept => Nat.lt_succ_of_lt (made.kept other fiber kept), made.idle⟩
  | schedule work th =>
      refine ⟨fun fiber origin names => ?_, ?_, ?_⟩
      · cases work with
        | fiberPtr scheduled =>
            simp only [KScheduler.step, Option.ite_none_right_eq_some] at stepped
            obtain ⟨created, stepped⟩ := stepped
            cases stepped
            rcases names_push names with ⟨same, _⟩ | before
            · cases same
              exact created
            · exact made.named fiber origin before
        | cb callback =>
            cases stepped
            rcases names_push names with ⟨same, _⟩ | before
            · cases same
            · exact made.named fiber origin before
      · rw [KScheduler.step_schedule stepped]
        exact made.kept
      · rw [KScheduler.step_schedule stepped]
        exact made.idle
  | threadloop tid =>
      simp only [KScheduler.step, Option.ite_none_right_eq_some] at stepped
      obtain ⟨member, stepped⟩ := stepped
      exact made.advances (.threadloop stepped) member ids
        fun _ _ loads => cbFiber_of_loads loads stepped
  | leave tid how =>
      simp only [KScheduler.step, Option.ite_none_right_eq_some] at stepped
      obtain ⟨member, stepped⟩ := stepped
      refine made.advances (.leave stepped) member ids fun fiber origin loads => ?_
      obtain ⟨_, callback, th, phase⟩ := loads
      simp [KScheduler.leave, phase] at stepped

end Made

end FiberKcp.Scheduler
