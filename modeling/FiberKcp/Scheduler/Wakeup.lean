import FiberKcp.Data.Tally
import FiberKcp.Scheduler.Idle

namespace FiberKcp.Scheduler

open Data FiberKcp.Fiber

/-! When a thread may wait although a task is there for it. -/

/-- The thread scans the queue before it runs or waits again. -/
def Phase.rescans : Phase → Bool
  | .scan | .returned _ | .requeue _ | .setHold _ => true
  | _ => false

/-- The code of a task is on the thread. -/
def Phase.inTask : Phase → Bool
  | .running _ | .swapOut _ _ => true
  | _ => false

def Place.awake : Place → Bool
  | .outside | .blocked | .ended => false
  | _ => true

/-- The thread waits, or will without another look at the queue. -/
def Place.atRisk : Place → Bool
  | .count | .poll | .blocked => true
  | _ => false

def Place.counted : Place → Bool
  | .poll | .blocked | .woken _ | .uncount => true
  | _ => false

namespace PollScheduler

def OnItsWay (manager : PollScheduler) : Prop :=
  0 < manager.mEventFd ∨ manager.deciding ≠ [] ∨ manager.writing ≠ [] ∨
    ∃ other ∈ manager.core.mThreadIds, (manager.place other).awake = true ∧
      (manager.core.worker other).phase.inTask = false

/-- No thread waits while the queue has a task for it, unless a wake-up is on
its way. -/
def NoneForgotten (manager : PollScheduler) : Prop :=
  ∀ tid ∈ manager.core.mThreadIds, manager.place tid = .blocked →
    ∀ it ∈ manager.core.mFiberQueue, Admits it.tid tid → manager.OnItsWay

def rescans (manager : PollScheduler) (tid : Int) : Bool :=
  match manager.place tid with
  | .woken _ | .uncount => true
  | .loop => (manager.core.worker tid).phase.rescans
  | _ => false

/-- A write to `mEventFd` is under way or somebody, `besides` apart, is about to
scan the queue. -/
def Coming (manager : PollScheduler) (besides : Option Int) : Prop :=
  0 < manager.mEventFd ∨ manager.deciding ≠ [] ∨ manager.writing ≠ [] ∨
    ∃ other ∈ manager.core.mThreadIds, some other ≠ besides ∧ manager.rescans other = true

instance (manager : PollScheduler) (besides : Option Int) : Decidable (manager.Coming besides) :=
  inferInstanceAs (Decidable (_ ∨ _ ∨ _ ∨ _))

/-- A push that does not tickle has no thread at risk that it concerns. -/
def QuietPush (manager : PollScheduler) (tasks : List (Work × Int)) : Prop :=
  manager.core.mFiberQueue ≠ [] ∨ manager.mThreadCount = 0 →
    ∀ tid ∈ manager.core.mThreadIds, (manager.place tid).atRisk = true →
      ∀ task ∈ tasks, Admits task.2 tid → manager.Coming none

/-- When `hasIdleThread()` is false, no thread that found nothing and is not
counted yet has a task by now. -/
def QuietTest (manager : PollScheduler) (tid : Int) : Prop :=
  manager.mIdleThreadCount = 0 →
    ∀ other ∈ manager.core.mThreadIds, manager.place other = .count →
      ∀ it ∈ manager.core.mFiberQueue, Admits it.tid other →
        { manager with deciding := manager.deciding.filter (· ≠ tid) }.Coming none

/-- A scan that does not tickle passes over no fiber in `EXEC` for which a
thread at risk, or this one if it takes nothing, is needed. -/
def QuietScan (manager : PollScheduler) (tid : Int) : Prop :=
  manager.place tid = .loop → (manager.core.worker tid).phase = .scan →
    manager.core.needTickle tid manager.core.mFiberQueue = false →
      ∀ it ∈ manager.core.mFiberQueue, manager.core.skips tid it = true →
        ∀ other ∈ manager.core.mThreadIds,
          ((manager.place other).atRisk = true ∨
            other = tid ∧ ∀ it ∈ manager.core.mFiberQueue, manager.core.skips tid it = true) →
          Admits it.tid other → manager.Coming (some tid)

end PollScheduler

def ticklesWhenNeeded (manager : PollScheduler) : PollEvent → Prop
  | .schedule _ tasks => manager.QuietPush tasks
  | .testIdle tid => manager.QuietTest tid
  | .advance tid => manager.QuietScan tid
  | _ => True

instance (manager : PollScheduler) (event : PollEvent) :
    Decidable (ticklesWhenNeeded manager event) := by
  cases event <;>
    simp only [ticklesWhenNeeded, PollScheduler.QuietPush, PollScheduler.QuietTest,
      PollScheduler.QuietScan] <;> infer_instance

namespace KScheduler

variable {scheduler after : KScheduler} {tid : Int}

/-- A step of a thread other than a scan or a push. -/
structure Turn (scheduler : KScheduler) (tid : Int) (after : KScheduler) : Prop where
  ids : after.mThreadIds = scheduler.mThreadIds
  queue : after.mFiberQueue = scheduler.mFiberQueue
  others : ∀ other ≠ tid, (after.worker other).phase = (scheduler.worker other).phase
  rescans : (scheduler.worker tid).phase.rescans = true → (after.worker tid).phase.rescans = true

theorem turn_setPhase {middle : KScheduler} {phase : Phase}
    (ids : middle.mThreadIds = scheduler.mThreadIds)
    (queue : middle.mFiberQueue = scheduler.mFiberQueue)
    (phases : ∀ other, (middle.worker other).phase = (scheduler.worker other).phase)
    (rescans : (scheduler.worker tid).phase.rescans = true → phase.rescans = true) :
    Turn scheduler tid (middle.setPhase tid phase) := by
  refine ⟨ids, queue, fun other different => ?_, fun before => ?_⟩
  · rw [worker_setPhase_other _ _ _ different]
    exact phases other
  · rw [worker_setPhase_self]
    exact rescans before

theorem turn_dispatch {ft : FiberBindThread} (phase : (scheduler.worker tid).phase = .dispatch ft)
    (stepped : scheduler.dispatch tid ft = some after) : Turn scheduler tid after := by
  have quiet : ∀ next : Phase, (scheduler.worker tid).phase.rescans = true →
      next.rescans = true := by
    intro next rescans
    rw [phase] at rescans
    cases rescans
  unfold dispatch at stepped
  split at stepped
  · split at stepped <;> cases stepped
    · exact turn_setPhase rfl rfl (fun _ => rfl) (quiet _)
    · exact turn_setPhase rfl rfl (fun _ => rfl) (quiet _)
  · split at stepped
    · rename_i fiber _
      split at stepped
      · cases stepped
        have made : ∀ other, ((scheduler.makeFiber fiber).worker other).phase =
            (scheduler.worker other).phase := fun _ => rfl
        exact turn_setPhase rfl rfl made (quiet _)
      · contradiction
    · cases stepped
      exact turn_setPhase rfl rfl (fun other => scheduler.newFiber.phase_setCbFiber tid _ other)
        (quiet _)

theorem turn_returned {slice : Slice} : Turn scheduler tid (scheduler.returned tid slice) := by
  have ended : Turn scheduler tid (if slice.isCb then
      (scheduler.makeFiber slice.fiber).setPhase tid .scan else scheduler.setPhase tid .scan) := by
    split
    · have made : ∀ other, ((scheduler.makeFiber slice.fiber).worker other).phase =
          (scheduler.worker other).phase := fun _ => rfl
      exact turn_setPhase rfl rfl made fun _ => rfl
    · exact turn_setPhase rfl rfl (fun _ => rfl) fun _ => rfl
  unfold returned
  cases scheduler.mState slice.fiber with
  | ready => exact turn_setPhase rfl rfl (fun _ => rfl) fun _ => rfl
  | term => exact ended
  | except => exact ended
  | hold => exact turn_setPhase rfl rfl (fun _ => rfl) fun _ => rfl
  | exec => exact turn_setPhase rfl rfl (fun _ => rfl) fun _ => rfl

theorem turn_leave {how : Leave} (stepped : scheduler.leave tid how = some after) :
    Turn scheduler tid after := by
  unfold leave at stepped
  split at stepped
  · rename_i slice phase
    split at stepped
    · contradiction
    · cases stepped
      have set : ∀ other, ((scheduler.setState slice.fiber how.state).worker other).phase =
          (scheduler.worker other).phase := fun _ => rfl
      exact turn_setPhase rfl rfl set fun rescans => by rw [phase] at rescans; cases rescans
  · contradiction

theorem turn_threadloop (notScan : (scheduler.worker tid).phase ≠ .scan)
    (notRequeue : ∀ slice, (scheduler.worker tid).phase ≠ .requeue slice)
    (stepped : scheduler.threadloop tid = some after) : Turn scheduler tid after := by
  unfold threadloop at stepped
  cases phase : (scheduler.worker tid).phase with
  | scan => exact absurd phase notScan
  | dispatch ft =>
      simp only [phase] at stepped
      exact turn_dispatch phase stepped
  | swapIn slice =>
      simp only [phase, swapIn] at stepped
      split at stepped
      · contradiction
      · cases stepped
        have set : ∀ other, ((scheduler.setState slice.fiber .exec).worker other).phase =
            (scheduler.worker other).phase := fun _ => rfl
        exact turn_setPhase rfl rfl set fun rescans => by rw [phase] at rescans; cases rescans
  | switchIn slice =>
      simp only [phase, switchIn] at stepped
      split at stepped
      · contradiction
      · cases stepped
        have begun : ∀ other, ((scheduler.beginSlice slice.fiber).worker other).phase =
            (scheduler.worker other).phase := fun _ => rfl
        exact turn_setPhase rfl rfl begun fun rescans => by rw [phase] at rescans; cases rescans
  | running _ =>
      simp only [phase] at stepped
      contradiction
  | swapOut slice ended =>
      simp only [phase] at stepped
      cases stepped
      have saved : ∀ other, ((scheduler.setCtx slice.fiber
          (if ended then none else some slice.number)).worker other).phase =
            (scheduler.worker other).phase := fun _ => rfl
      exact turn_setPhase rfl rfl saved fun _ => rfl
  | returned slice =>
      simp only [phase] at stepped
      cases stepped
      exact turn_returned
  | requeue slice => exact absurd phase (notRequeue slice)
  | setHold slice =>
      simp only [phase] at stepped
      cases stepped
      exact turn_setPhase (release_mThreadIds ..) (release_mFiberQueue ..)
        (fun other => phase_release _ tid slice other) fun _ => rfl

/-- Without a tickle, a scan leaves only tasks it passed over for their state. -/
theorem skips_of_left {queue left : List FiberBindThread} {ft : FiberBindThread}
    (quiet : scheduler.needTickle tid queue = false)
    (taken : scheduler.takeTask tid queue = some (ft, left)) :
    ∀ it ∈ left, scheduler.skips tid it = true := by
  induction queue generalizing left with
  | nil => contradiction
  | cons it rest ih =>
      simp only [needTickle, takeTask] at quiet taken
      split at quiet
      · contradiction
      · split at quiet
        · rename_i skipped
          rw [if_pos skipped] at taken
          obtain ⟨⟨first, remaining⟩, found, same⟩ := Option.map_eq_some_iff.mp taken
          cases same
          intro other member
          rcases List.mem_cons.mp member with rfl | later
          · exact skipped
          · exact ih quiet found other later
        · rename_i kept
          rw [if_neg kept] at taken
          cases taken
          have none : rest = [] := by simpa using quiet
          simp [none]

theorem skips_of_none {queue : List FiberBindThread}
    (none : scheduler.takeTask tid queue = none) : ∀ it ∈ queue, scheduler.skips tid it = true := by
  induction queue with
  | nil => simp
  | cons it rest ih =>
      simp only [takeTask] at none
      split at none
      · rename_i skipped
        intro other member
        rcases List.mem_cons.mp member with rfl | later
        · exact skipped
        · exact ih (Option.map_eq_none_iff.mp none) other later
      · contradiction

structure Scanned (scheduler : KScheduler) (tid : Int) (after : KScheduler) : Prop where
  ids : after.mThreadIds = scheduler.mThreadIds
  others : ∀ other ≠ tid, after.worker other = scheduler.worker other
  queue : ∀ it ∈ after.mFiberQueue, it ∈ scheduler.mFiberQueue
  left : scheduler.needTickle tid scheduler.mFiberQueue = false →
    ∀ it ∈ after.mFiberQueue, scheduler.skips tid it = true
  nothing : scheduler.takeTask tid scheduler.mFiberQueue = none → after = scheduler

theorem scanned (scheduler : KScheduler) (tid : Int) :
    Scanned scheduler tid (scheduler.scan tid) := by
  unfold scan
  cases taken : scheduler.takeTask tid scheduler.mFiberQueue with
  | none => exact ⟨rfl, fun _ _ => rfl, fun _ => id, fun _ => skips_of_none taken, fun _ => rfl⟩
  | some task =>
      obtain ⟨ft, left⟩ := task
      obtain ⟨front, back, queue, rest, _⟩ := takeTask_cases taken
      refine ⟨rfl, fun other different => worker_setPhase_other _ _ _ different, fun it among => ?_,
        fun silent => skips_of_left silent taken, fun none => ?_⟩
      · change it ∈ left at among
        rw [rest] at among
        rw [queue]
        grind
      · rw [taken] at none
        contradiction

theorem schedule_all {tasks : List (Work × Int)}
    (pushed : tasks.foldlM (fun (core : KScheduler) task => core.step (.schedule task.1 task.2))
      scheduler = some after) :
    after = { scheduler with mFiberQueue :=
      scheduler.mFiberQueue ++ tasks.map fun task => ⟨task.1, task.2, task.2⟩ } := by
  induction tasks generalizing scheduler with
  | nil =>
      cases pushed
      simp
  | cons task rest ih =>
      obtain ⟨next, stepped, remaining⟩ := Option.bind_eq_some_iff.mp pushed
      have same : next = scheduler.push ⟨task.1, task.2, task.2⟩ := by
        obtain ⟨work, th⟩ := task
        cases work with
        | fiberPtr fiber =>
            simp only [step] at stepped
            split at stepped
            · exact (Option.some.inj stepped).symm
            · contradiction
        | cb _ => exact (Option.some.inj stepped).symm
      rw [ih remaining, same]
      simp [push]

end KScheduler

namespace PollScheduler

def idleThreads (manager : PollScheduler) : Finset Int :=
  manager.core.mThreadIds.toFinset.filter fun tid => (manager.place tid).counted = true

structure Covered (manager : PollScheduler) : Prop where
  idle : manager.mIdleThreadCount = manager.idleThreads.card
  waiting : ∀ tid, manager.place tid ≠ .loop → (manager.core.worker tid).phase = .scan
  needed : ∀ tid ∈ manager.core.mThreadIds, (manager.place tid).atRisk = true →
    ∀ it ∈ manager.core.mFiberQueue, Admits it.tid tid → manager.Coming none

theorem covered_start (mThreadIds : List Int) (user : Bool) :
    Covered (start mThreadIds user) := by
  refine ⟨?_, fun _ _ => rfl, fun _ _ _ _ member => (List.not_mem_nil member).elim⟩
  refine (Finset.card_eq_zero.mpr (Finset.filter_false_of_mem fun tid _ => ?_)).symm
  cases user with
  | false => simp [start, Place.counted]
  | true =>
      by_cases first : tid = mThreadIds.headD 0
      · simp [start, first, Place.counted]
      · have looping : (start mThreadIds true).place tid = .loop := by
          change Function.update (fun _ => Place.loop) (mThreadIds.headD 0) Place.outside tid = .loop
          exact Function.update_of_ne first _ _
        simp [looping, Place.counted]

section Steps

variable {manager after : PollScheduler} {tid : Int}

theorem coming_of_rescans (tid : Int) (member : tid ∈ manager.core.mThreadIds)
    (rescans : manager.rescans tid = true) : manager.Coming none :=
  .inr (.inr (.inr ⟨tid, member, by simp, rescans⟩))

/-- What is coming still comes when a step takes none of it away. -/
theorem Coming.step {besides : Option Int} (coming : manager.Coming besides)
    (unread : 0 < manager.mEventFd → after.Coming none)
    (deciding : manager.deciding ≠ [] → after.deciding ≠ [])
    (writing : manager.writing ≠ [] → after.writing ≠ [])
    (ids : after.core.mThreadIds = manager.core.mThreadIds)
    (rescans : ∀ other, some other ≠ besides → manager.rescans other = true →
      after.rescans other = true) : after.Coming none := by
  rcases coming with here | here | here | ⟨other, member, different, scanning⟩
  · exact unread here
  · exact .inr (.inl (deciding here))
  · exact .inr (.inr (.inl (writing here)))
  · exact coming_of_rescans other (ids ▸ member) (rescans other different scanning)

theorem Coming.onItsWay (waiting : ∀ tid, manager.place tid ≠ .loop →
      (manager.core.worker tid).phase = .scan) (coming : manager.Coming none) :
    manager.OnItsWay := by
  rcases coming with unread | deciding | writing | ⟨other, member, _, rescans⟩
  · exact .inl unread
  · exact .inr (.inl deciding)
  · exact .inr (.inr (.inl writing))
  · refine .inr (.inr (.inr ⟨other, member, ?_⟩))
    have phase := waiting other
    unfold PollScheduler.rescans at rescans
    cases place : manager.place other with
    | loop =>
        rw [place] at rescans
        refine ⟨rfl, ?_⟩
        cases here : (manager.core.worker other).phase <;>
          first | rfl | (rw [here] at rescans; contradiction)
    | woken fd => exact ⟨rfl, by rw [phase (by simp [place])]; rfl⟩
    | uncount => exact ⟨rfl, by rw [phase (by simp [place])]; rfl⟩
    | _ =>
        rw [place] at rescans
        contradiction

theorem Covered.noneForgotten (covered : Covered manager) : manager.NoneForgotten := by
  intro tid member blocked it queued admits
  exact (covered.needed tid member (by rw [blocked]; rfl) it queued admits).onItsWay
    covered.waiting

theorem mem_idleThreads {other : Int} : other ∈ manager.idleThreads ↔
    other ∈ manager.core.mThreadIds ∧ (manager.place other).counted = true := by
  simp [idleThreads]

theorem idleThreads_same (ids : after.core.mThreadIds = manager.core.mThreadIds)
    (counted : ∀ tid, (after.place tid).counted = (manager.place tid).counted) :
    after.idleThreads = manager.idleThreads := by
  ext other
  rw [mem_idleThreads, mem_idleThreads, ids, counted]

theorem counted_setPlace {place : Place}
    (same : place.counted = (manager.place tid).counted) (other : Int) :
    ((manager.setPlace tid place).place other).counted = (manager.place other).counted := by
  by_cases here : other = tid
  · subst here
    rw [place_setPlace_self, same]
  · rw [place_setPlace_other _ _ here]

/-- `idleThreads` is a tally of the threads at a counted place. -/
theorem card_idleThreads : manager.idleThreads.card =
    tally manager.core.mThreadIds fun tid => (manager.place tid).counted :=
  rfl

theorem counted_elsewhere {place : Place} (other : Int) (different : other ≠ tid) :
    ((manager.setPlace tid place).place other).counted = (manager.place other).counted := by
  rw [place_setPlace_other _ _ different]

theorem idleThreads_gain {place : Place} (member : tid ∈ manager.core.mThreadIds)
    (before : (manager.place tid).counted = false) (now : place.counted = true) :
    (manager.setPlace tid place).idleThreads.card = manager.idleThreads.card + 1 := by
  have here : ((manager.setPlace tid place).place tid).counted = true := by
    rw [place_setPlace_self, now]
  rw [card_idleThreads, card_idleThreads]
  exact tally_gain member counted_elsewhere before here

theorem idleThreads_lose {place : Place} (member : tid ∈ manager.core.mThreadIds)
    (before : (manager.place tid).counted = true) (now : place.counted = false) :
    (manager.setPlace tid place).idleThreads.card = manager.idleThreads.card - 1 := by
  have here : ((manager.setPlace tid place).place tid).counted = false := by
    rw [place_setPlace_self, now]
  have lost : manager.idleThreads.card = (manager.setPlace tid place).idleThreads.card + 1 := by
    rw [card_idleThreads, card_idleThreads]
    exact tally_lose member counted_elsewhere before here
  omega

theorem Covered.idle_of (covered : Covered manager)
    (ids : after.core.mThreadIds = manager.core.mThreadIds)
    (counted : ∀ tid, (after.place tid).counted = (manager.place tid).counted)
    (same : after.mIdleThreadCount = manager.mIdleThreadCount) :
    after.mIdleThreadCount = after.idleThreads.card := by
  rw [same, covered.idle, idleThreads_same ids counted]

/-- The thread comes to a place from which it scans. -/
theorem Covered.rescan (covered : Covered manager) (tid : Int)
    (member : tid ∈ manager.core.mThreadIds) (core : after.core = manager.core)
    (others : ∀ other ≠ tid, after.place other = manager.place other)
    (idle : after.mIdleThreadCount = after.idleThreads.card)
    (phase : (manager.core.worker tid).phase = .scan)
    (rescans : after.rescans tid = true) : Covered after := by
  refine ⟨idle, fun other elsewhere => ?_, fun _ _ _ _ _ _ => ?_⟩
  · rw [core]
    by_cases here : other = tid
    · exact here ▸ phase
    · rw [others other here] at elsewhere
      exact covered.waiting other elsewhere
  · exact coming_of_rescans tid (core ▸ member) rescans

/-- A thread at risk goes on to another place at risk. -/
theorem Covered.risk (covered : Covered manager) (tid : Int) (core : after.core = manager.core)
    (others : ∀ other ≠ tid, after.place other = manager.place other)
    (idle : after.mIdleThreadCount = after.idleThreads.card)
    (before : (manager.place tid).atRisk = true) (now : (after.place tid).atRisk = true)
    (unread : after.mEventFd = manager.mEventFd) (deciding : after.deciding = manager.deciding)
    (writing : after.writing = manager.writing) : Covered after := by
  have elsewhere : ∀ place : Place, place.atRisk = true → place ≠ .loop := by
    rintro place risk rfl
    cases risk
  have quiet : manager.rescans tid = false := by
    unfold PollScheduler.rescans
    cases place : manager.place tid <;> rw [place] at before <;> first | rfl | contradiction
  refine ⟨idle, fun other away => ?_, fun other member risk it queued admits => ?_⟩
  · rw [core]
    by_cases here : other = tid
    · exact here ▸ covered.waiting tid (elsewhere _ before)
    · rw [others other here] at away
      exact covered.waiting other away
  · rw [core] at member queued
    have earlier : (manager.place other).atRisk = true := by
      by_cases here : other = tid
      · exact here ▸ before
      · rw [others other here] at risk
        exact risk
    refine (covered.needed other member earlier it queued admits).step
      (fun positive => .inl (unread ▸ positive)) (fun some => deciding ▸ some)
      (fun some => writing ▸ some) (by rw [core]) fun another _ scanning => ?_
    have different : another ≠ tid := by
      rintro rfl
      rw [quiet] at scanning
      cases scanning
    unfold PollScheduler.rescans
    rw [others another different, core]
    exact scanning

/-- A thread takes a turn in `threadloop`. -/
theorem Covered.turn (covered : Covered manager) {core : KScheduler}
    (looping : manager.place tid = .loop) (turn : KScheduler.Turn manager.core tid core) :
    Covered { manager with core } := by
  refine ⟨covered.idle_of turn.ids (fun _ => rfl) rfl, fun other elsewhere => ?_,
    fun other member risk it queued admits => ?_⟩
  · have different : other ≠ tid := by
      rintro rfl
      exact elsewhere looping
    exact (turn.others other different).trans (covered.waiting other elsewhere)
  · have queue : it ∈ manager.core.mFiberQueue := turn.queue ▸ queued
    refine (covered.needed other (turn.ids ▸ member) risk it queue admits).step .inl id id turn.ids
      fun another _ scanning => ?_
    unfold PollScheduler.rescans at scanning ⊢
    cases place : manager.place another with
    | loop =>
        simp only [place] at scanning ⊢
        by_cases here : another = tid
        · subst here
          exact turn.rescans scanning
        · rw [turn.others another here]
          exact scanning
    | _ =>
        simp only [place] at scanning ⊢
        try contradiction

theorem Covered.decided {needed : Bool}
    (idle : manager.mIdleThreadCount = manager.idleThreads.card)
    (waiting : ∀ tid, manager.place tid ≠ .loop → (manager.core.worker tid).phase = .scan)
    (quiet : needed = false → ∀ tid ∈ manager.core.mThreadIds, (manager.place tid).atRisk = true →
      ∀ it ∈ manager.core.mFiberQueue, Admits it.tid tid → manager.Coming none) :
    Covered (manager.decideTickle tid needed) := by
  cases needed with
  | true => exact ⟨idle, waiting, fun _ _ _ _ _ _ => .inr (.inl (by simp [decideTickle]))⟩
  | false => exact ⟨idle, waiting, quiet rfl⟩

theorem Covered.scan (covered : Covered manager) (looping : manager.place tid = .loop)
    (phase : (manager.core.worker tid).phase = .scan) (permitted : manager.QuietScan tid)
    {place : Place} (found : place = if (manager.core.takeTask tid manager.core.mFiberQueue).isSome
      then .loop else if manager.idleTerm tid then .ended else .count) :
    Covered (({ manager with core := manager.core.scan tid }.setPlace tid place).decideTickle tid
      (manager.core.needTickle tid manager.core.mFiberQueue)) := by
  have scanned := manager.core.scanned tid
  have uncounted : place.counted = (manager.place tid).counted := by
    rw [found, looping]
    split
    · rfl
    · split <;> rfl
  -- a thread that took nothing is behind its scan, one that took a task is at no risk
  have nothing : place ≠ .loop → manager.core.takeTask tid manager.core.mFiberQueue = none := by
    intro elsewhere
    rw [← Option.not_isSome_iff_eq_none]
    exact fun some => elsewhere (by rw [found, if_pos some])
  refine Covered.decided ?_ (fun other elsewhere => ?_)
    fun silent other member risk it queued admits => ?_
  · exact covered.idle_of scanned.ids (counted_setPlace uncounted) rfl
  · by_cases here : other = tid
    · subst here
      rw [place_setPlace_self] at elsewhere
      change ((manager.core.scan other).worker other).phase = .scan
      rw [scanned.nothing (nothing elsewhere)]
      exact phase
    · rw [place_setPlace_other _ _ here] at elsewhere
      exact (congrArg Worker.phase (scanned.others other here)).trans
        (covered.waiting other elsewhere)
  · have before : (manager.place other).atRisk = true ∨
        other = tid ∧ ∀ it ∈ manager.core.mFiberQueue, manager.core.skips tid it = true := by
      by_cases here : other = tid
      · subst here
        rw [place_setPlace_self] at risk
        refine .inr ⟨rfl, KScheduler.skips_of_none (nothing ?_)⟩
        rintro rfl
        cases risk
      · rw [place_setPlace_other _ _ here] at risk
        exact .inl risk
    have coming := permitted looping phase silent it (scanned.queue it queued)
      (scanned.left silent it queued) other (scanned.ids ▸ member) before admits
    refine coming.step .inl id id scanned.ids fun another apart scanning => ?_
    have different : another ≠ tid := fun equal => apart (equal ▸ rfl)
    unfold PollScheduler.rescans at scanning ⊢
    rw [place_setPlace_other _ _ different]
    change (match manager.place another with
      | .woken _ | .uncount => true
      | .loop => ((manager.core.scan tid).worker another).phase.rescans
      | _ => false) = true
    rw [scanned.others another different]
    exact scanning

/-- The thread that puts a fiber back scans next. -/
theorem Covered.requeue (covered : Covered manager) (member : tid ∈ manager.core.mThreadIds)
    (looping : manager.place tid = .loop) (slice : Slice) (needed : Bool) :
    Covered ({ manager with core := manager.core.requeue tid slice }.decideTickle tid needed) := by
  have ids : (manager.core.requeue tid slice).mThreadIds = manager.core.mThreadIds :=
    KScheduler.release_mThreadIds ..
  have phase : ((manager.core.requeue tid slice).worker tid).phase = .scan := by
    rw [KScheduler.requeue, KScheduler.worker_setPhase_self]
  refine Covered.decided (covered.idle_of ids (fun _ => rfl) rfl) (fun other elsewhere => ?_)
    fun _ _ _ _ _ _ _ => ?_
  · have different : other ≠ tid := by
      rintro rfl
      exact elsewhere looping
    have before := covered.waiting other elsewhere
    change ((manager.core.requeue tid slice).worker other).phase = .scan
    rw [KScheduler.requeue, KScheduler.worker_setPhase_other _ _ _ different,
      KScheduler.phase_release]
    exact before
  · refine coming_of_rescans tid (ids ▸ member) ?_
    unfold PollScheduler.rescans
    rw [show ({ manager with core := manager.core.requeue tid slice } : PollScheduler).place tid =
      .loop from looping]
    change ((manager.core.requeue tid slice).worker tid).phase.rescans = true
    rw [phase]
    rfl

theorem Covered.loop (covered : Covered manager) (member : tid ∈ manager.core.mThreadIds)
    (looping : manager.place tid = .loop) (permitted : manager.QuietScan tid)
    (stepped : manager.loop tid = some after) : Covered after := by
  unfold PollScheduler.loop at stepped
  dsimp only at stepped
  split at stepped
  · rename_i phase
    cases stepped
    exact covered.scan looping phase permitted rfl
  · cases stepped
    exact covered.requeue member looping _ _
  · rename_i notScan notRequeue
    obtain ⟨core, moved, rfl⟩ := Option.map_eq_some_iff.mp stepped
    exact covered.turn looping (KScheduler.turn_threadloop notScan notRequeue moved)

theorem Covered.advance (covered : Covered manager) (member : tid ∈ manager.core.mThreadIds)
    (permitted : manager.QuietScan tid) (stepped : manager.advance tid = some after) :
    Covered after := by
  unfold PollScheduler.advance at stepped
  cases place : manager.place tid with
  | loop =>
      simp only [place] at stepped
      exact covered.loop member place permitted stepped
  | count =>
      simp only [place] at stepped
      cases stepped
      refine covered.risk tid rfl (fun _ => place_setPlace_other _ _) ?_ (by rw [place]; rfl)
        (by rw [place_setPlace_self]; rfl) rfl rfl rfl
      change manager.mIdleThreadCount + 1 = (manager.setPlace tid .poll).idleThreads.card
      rw [idleThreads_gain member (by rw [place]; rfl) rfl, covered.idle]
  | poll =>
      have phase := covered.waiting tid (by simp [place])
      simp only [place] at stepped
      split at stepped
      · cases stepped
        refine covered.rescan tid member rfl (fun _ => place_setPlace_other _ _) ?_ phase
          (by simp [PollScheduler.rescans])
        refine covered.idle_of rfl (counted_setPlace ?_) rfl
        change _ = (manager.place tid).counted
        rw [place]
        rfl
      · cases stepped
        refine covered.risk tid rfl (fun _ => place_setPlace_other _ _) ?_
          (by rw [place]; rfl) (by rw [place_setPlace_self]; rfl) rfl rfl rfl
        exact covered.idle_of rfl (counted_setPlace (by rw [place]; rfl)) rfl
  | woken fd =>
      have phase := covered.waiting tid (by simp [place])
      cases fd with
      | true =>
          simp only [place] at stepped
          cases stepped
          refine covered.rescan tid member rfl (fun _ => place_setPlace_other _ _) ?_ phase
            (by simp [PollScheduler.rescans])
          refine covered.idle_of rfl (counted_setPlace ?_) rfl
          change _ = (manager.place tid).counted
          rw [place]
          rfl
      | false =>
          simp only [place] at stepped
          cases stepped
          refine covered.rescan tid member rfl (fun _ => place_setPlace_other _ _) ?_ phase
            (by simp [PollScheduler.rescans])
          exact covered.idle_of rfl (counted_setPlace (by rw [place]; rfl)) rfl
  | uncount =>
      have phase := covered.waiting tid (by simp [place])
      simp only [place] at stepped
      cases stepped
      refine covered.rescan tid member rfl (fun _ => place_setPlace_other _ _) ?_ phase ?_
      · change manager.mIdleThreadCount - 1 = (manager.setPlace tid .loop).idleThreads.card
        rw [idleThreads_lose member (by rw [place]; rfl) rfl, covered.idle]
      · unfold PollScheduler.rescans
        rw [place_setPlace_self]
        change (manager.core.worker tid).phase.rescans = true
        rw [phase]
        rfl
  | _ =>
      simp only [place] at stepped
      contradiction

theorem Covered.schedule (covered : Covered manager) {tasks : List (Work × Int)}
    (permitted : manager.QuietPush tasks) (stepped : manager.schedule tid tasks = some after) :
    Covered after := by
  obtain ⟨core, pushed, rfl⟩ := Option.map_eq_some_iff.mp stepped
  rw [KScheduler.schedule_all pushed]
  refine Covered.decided (covered.idle_of rfl (fun _ => rfl) rfl) covered.waiting
    fun silent other member risk it queued admits => ?_
  rcases List.mem_append.mp queued with earlier | new
  · exact covered.needed other member risk it earlier admits
  · obtain ⟨task, among, rfl⟩ := List.mem_map.mp new
    refine permitted ?_ other member risk task among admits
    have some : tasks ≠ [] := List.ne_nil_of_mem among
    by_cases empty : manager.core.mFiberQueue = []
    · right
      simpa [empty, some] using silent
    · exact .inl empty

theorem Covered.testIdle (covered : Covered manager) (permitted : manager.QuietTest tid) :
    Covered (manager.testIdle tid) := by
  unfold PollScheduler.testIdle
  extract_lets tested
  split
  · exact ⟨covered.idle, covered.waiting, fun _ _ _ _ _ _ => .inr (.inr (.inl (by simp)))⟩
  · rename_i idle
    have zero : manager.mIdleThreadCount = 0 := Nat.eq_zero_of_not_pos idle
    refine ⟨covered.idle, covered.waiting, fun other member risk it queued admits => ?_⟩
    refine permitted zero other member ?_ it queued admits
    -- a thread that waits or is about to is counted
    have uncounted : (manager.place other).counted = false := by
      have none := covered.idle
      rw [zero] at none
      have absent := Finset.card_eq_zero.mp none.symm
      by_contra counted
      have present : other ∈ manager.idleThreads :=
        mem_idleThreads.mpr ⟨member, by simpa using counted⟩
      rw [absent] at present
      exact absurd present (by simp)
    change (manager.place other).atRisk = true at risk
    cases place : manager.place other <;> rw [place] at risk uncounted <;>
      first | rfl | contradiction

theorem Covered.write (covered : Covered manager) {woken : List Int}
    (stepped : manager.write tid woken = some after) : Covered after := by
  unfold PollScheduler.write at stepped
  dsimp only at stepped
  split at stepped
  · rename_i valid
    cases stepped
    have blocked : ∀ other ∈ woken, manager.place other = .blocked := by
      intro other member
      have waiting := valid.1 other member
      simpa using (List.mem_filter.mp waiting).2
    refine ⟨covered.idle_of rfl (fun other => ?_) rfl, fun other elsewhere => ?_,
      fun _ _ _ _ _ _ => .inl (Nat.succ_pos _)⟩
    · by_cases member : other ∈ woken
      · simp [member, blocked other member, Place.counted]
      · simp [member]
    · by_cases member : other ∈ woken
      · exact covered.waiting other (by simp [blocked other member])
      · exact covered.waiting other (by simpa [member] using elsewhere)
  · contradiction

theorem Covered.step {event : PollEvent} (covered : Covered manager)
    (permitted : ticklesWhenNeeded manager event) (stepped : manager.step event = some after) :
    Covered after := by
  have worker : ∀ tid, manager.idle tid = true → tid ∈ manager.core.mThreadIds := by
    intro tid idle
    simp only [PollScheduler.idle, Bool.and_eq_true] at idle
    simpa using idle.1
  cases event with
  | newFiber =>
      cases stepped
      exact ⟨covered.idle_of rfl (fun _ => rfl) rfl, covered.waiting, covered.needed⟩
  | schedule tid tasks =>
      simp only [PollScheduler.step] at stepped
      split at stepped
      · exact covered.schedule permitted stepped
      · contradiction
  | tickle tid =>
      simp only [PollScheduler.step] at stepped
      split at stepped
      · cases stepped
        exact Covered.decided covered.idle covered.waiting fun never => by contradiction
      · contradiction
  | testIdle tid =>
      simp only [PollScheduler.step] at stepped
      split at stepped
      · cases stepped
        exact covered.testIdle permitted
      · contradiction
  | write tid woken =>
      simp only [PollScheduler.step] at stepped
      split at stepped
      · exact covered.write stepped
      · contradiction
  | advance tid =>
      simp only [PollScheduler.step] at stepped
      split at stepped
      · rename_i idle
        exact covered.advance (worker tid idle) permitted stepped
      · contradiction
  | leave tid how =>
      simp only [PollScheduler.step] at stepped
      split at stepped
      · rename_i idle
        obtain ⟨core, left, rfl⟩ := Option.map_eq_some_iff.mp stepped
        exact covered.turn idle.2 (KScheduler.turn_leave left)
      · contradiction
  | timeout tid =>
      simp only [PollScheduler.step] at stepped
      split at stepped
      · rename_i idle
        cases stepped
        refine covered.rescan tid (worker tid idle.1) rfl (fun _ => place_setPlace_other _ _) ?_
          (covered.waiting tid (by simp [idle.2])) (by simp [PollScheduler.rescans])
        exact covered.idle_of rfl (counted_setPlace (by rw [idle.2]; rfl)) rfl
      · contradiction
  | stop =>
      cases stepped
      exact ⟨covered.idle_of rfl (fun _ => rfl) rfl, covered.waiting, covered.needed⟩
  | callRoot tid =>
      simp only [PollScheduler.step] at stepped
      split at stepped
      · rename_i idle
        cases stepped
        have phase := covered.waiting tid (by simp [idle.2.1])
        refine covered.rescan tid (worker tid idle.1) rfl (fun _ => place_setPlace_other _ _) ?_
          phase ?_
        · exact covered.idle_of rfl (counted_setPlace (by rw [idle.2.1]; rfl)) rfl
        · unfold PollScheduler.rescans
          rw [place_setPlace_self]
          change (manager.core.worker tid).phase.rescans = true
          rw [phase]
          rfl
      · contradiction
  | exit tid =>
      simp only [PollScheduler.step] at stepped
      split at stepped
      · rename_i idle
        cases stepped
        refine covered.rescan tid (worker tid idle.1) rfl (fun _ => place_setPlace_other _ _) ?_
          (covered.waiting tid (by simp [idle.2.1])) ?_
        · exact covered.idle_of rfl (counted_setPlace (by rw [idle.2.1]; rfl)) rfl
        · change (match (manager.setPlace tid .uncount).place tid with
            | .woken _ | .uncount => true
            | .loop => (manager.core.worker tid).phase.rescans
            | _ => false) = true
          rw [place_setPlace_self]
      · contradiction

end Steps

end PollScheduler

/-- While no needed tickle is left out, no thread waits with a task for it in
the queue and no wake-up on its way. -/
theorem no_lost_wakeup {mThreadIds : List Int} {user : Bool} {events : List PollEvent}
    {last : PollScheduler}
    (run : Run PollScheduler.step ticklesWhenNeeded (PollScheduler.start mThreadIds user) events
      last) : last.NoneForgotten := by
  have covered : last.Covered :=
    run.invariant PollScheduler.Covered (PollScheduler.covered_start mThreadIds user)
      fun covered permitted stepped => covered.step permitted stepped
  exact covered.noneForgotten

/-- Thread 1 waits, a task is scheduled from outside, the write wakes it and it
runs the task. -/
theorem no_lost_wakeup_of_one_thread :
    ∃ last, Run PollScheduler.step ticklesWhenNeeded (PollScheduler.start [1] false)
        ([PollEvent.advance 1, .advance 1, .advance 1, .schedule 9 [(.cb 7, 0)], .testIdle 9,
          .write 9 [1]] ++ List.replicate 7 (.advance 1)) last ∧
      (last.core.worker 1).phase = .running ⟨0, 0, true, 1⟩ ∧ last.NoneForgotten := by
  have run : Run PollScheduler.step ticklesWhenNeeded (PollScheduler.start [1] false)
      ([PollEvent.advance 1, .advance 1, .advance 1, .schedule 9 [(.cb 7, 0)], .testIdle 9,
        .write 9 [1]] ++ List.replicate 7 (.advance 1)) _ := Run.of_execute rfl
  exact ⟨_, run, rfl, no_lost_wakeup run⟩

/-- The only thread has found nothing and is not counted yet when the caller of
`schedule` tests `hasIdleThread`. -/
theorem wakeup_lost_before_count :
    ∃ last, Run PollScheduler.step anyStep (PollScheduler.start [1] false)
        [.advance 1, .schedule 9 [(.cb 7, 0)], .testIdle 9, .advance 1, .advance 1] last ∧
      ¬ last.NoneForgotten := by
  refine ⟨_, Run.of_execute rfl, fun safe => ?_⟩
  have coming := safe 1 (by decide) rfl ⟨.cb 7, 0, 0⟩ (by decide) (.inl rfl)
  rcases coming with unread | deciding | writing | ⟨other, member, awake, _⟩
  · exact absurd unread (by decide)
  · exact deciding rfl
  · exact writing rfl
  · cases List.mem_singleton.mp member
    exact absurd awake (by decide)

end FiberKcp.Scheduler
