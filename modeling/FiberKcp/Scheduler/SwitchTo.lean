import FiberKcp.Scheduler.Threadloop

namespace FiberKcp.Scheduler

open Data

/-! `switchTo`: a fiber asks a scheduler to go on with it on another thread. -/

/-- How a call of `switchTo` ends for its fiber: it returns, or the fiber is
scheduled and yields. -/
inductive Switched where
  | returned
  | yielded (after : KScheduler)

namespace KScheduler

variable {scheduler after : KScheduler} {this : Nat} {gScheduler : Int → Option Nat}
  {tid th : Int} {fiber : Nat}

/-- `switchTo(th)` of the scheduler `this`, called by a fiber on thread `tid`.
`gScheduler` is the thread-local pointer of each thread; it must not be null. -/
def switchTo (scheduler : KScheduler) (this : Nat) (gScheduler : Int → Option Nat) (tid : Int)
    (fiber : Nat) (th : Int) : Option Switched :=
  (gScheduler tid).map fun current =>
    if current = this ∧ (th = -1 ∨ th = tid) then .returned
    else .yielded (scheduler.push ⟨.fiberPtr fiber, th, th⟩)

/-- The scan of thread `id` takes the task when it reaches it, whatever else has
changed, once its fiber is not running. -/
def Accepts (id : Int) (it : FiberBindThread) : Prop :=
  ∀ later : KScheduler, (∀ fiber, it.work = .fiberPtr fiber → later.mState fiber ≠ .exec) →
    later.takeTask id [it] = some (it, [])

theorem accepts_iff {id : Int} {it : FiberBindThread} : Accepts id it ↔ Admits it.tid id := by
  constructor
  · intro accepts
    have taken := accepts (start []) fun _ _ => by simp [start]
    by_contra refused
    simp only [Admits, not_or] at refused
    simp [takeTask, skips, refused.1, refused.2] at taken
  · intro admits later idle
    have kept : later.skips id it = false := by
      cases work : it.work with
      | cb callback => rcases admits with zero | same <;> simp [skips, *]
      | fiberPtr fiber =>
          have state := idle fiber work
          rcases admits with zero | same <;> simp [skips, *]
    simp [takeTask, kept]

/-- The fiber goes on where it was asked to: it is on such a thread already, or
the call leaves a task of it that a thread of the scheduler takes, and every
thread when any thread will do. -/
inductive NotStranded (scheduler : KScheduler) (tid : Int) (fiber : Nat) (th : Int) :
    Option Switched → Prop where
  | stays (member : tid ∈ scheduler.mThreadIds) (permitted : th = -1 ∨ th = tid) :
      NotStranded scheduler tid fiber th (some .returned)
  | queued (after : KScheduler) (it : FiberBindThread) (work : it.work = .fiberPtr fiber)
      (queue : after.mFiberQueue = scheduler.mFiberQueue ++ [it])
      (accepted : ∃ id ∈ scheduler.mThreadIds, Accepts id it)
      (anyThread : th = -1 → ∀ id ∈ scheduler.mThreadIds, Accepts id it) :
      NotStranded scheduler tid fiber th (some (.yielded after))

theorem NotStranded.admits {th : Int} (notStranded : NotStranded scheduler tid fiber th
    (some (.yielded (scheduler.push ⟨.fiberPtr fiber, th, th⟩)))) :
    ∃ id ∈ scheduler.mThreadIds, Admits th id := by
  cases notStranded with
  | queued after it work queue accepted anyThread =>
      have same : it = ⟨.fiberPtr fiber, th, th⟩ :=
        (List.singleton_inj.mp (List.append_cancel_left queue)).symm
      obtain ⟨id, member, accepts⟩ := accepted
      rw [accepts_iff, same] at accepts
      exact ⟨id, member, accepts⟩

theorem not_admits_any {id : Int} (positive : 0 < id) : ¬ Admits (-1) id := by
  simp only [Admits]
  omega

/-- `-1` stands for any thread only while the caller is on a thread of the
scheduler itself: the scan knows 0 for it. -/
theorem switchTo_not_stranded_iff (ids : ∀ id ∈ scheduler.mThreadIds, 0 < id)
    (attached : (gScheduler tid).isSome = true)
    (own : gScheduler tid = some this → tid ∈ scheduler.mThreadIds)
    (target : th = -1 ∨ th ∈ scheduler.mThreadIds) :
    scheduler.NotStranded tid fiber th (scheduler.switchTo this gScheduler tid fiber th) ↔
      gScheduler tid = some this ∨ th ≠ -1 := by
  obtain ⟨current, here⟩ := Option.isSome_iff_exists.mp attached
  simp only [switchTo, here, Option.map_some, Option.some_inj]
  by_cases stays : current = this ∧ (th = -1 ∨ th = tid)
  · rw [if_pos stays]
    constructor
    · exact fun _ => .inl stays.1
    · intro _
      exact .stays (own (here.trans (congrArg some stays.1))) stays.2
  · rw [if_neg stays]
    constructor
    · intro notStranded
      obtain ⟨id, member, admits⟩ := notStranded.admits
      refine .inr fun anyThread => ?_
      rw [anyThread] at admits
      exact not_admits_any (ids id member) admits
    · intro reachable
      have named : th ≠ -1 := by
        rcases reachable with same | named
        · exact fun anyThread => stays ⟨same, .inl anyThread⟩
        · exact named
      have member := target.resolve_left named
      exact .queued _ ⟨.fiberPtr fiber, th, th⟩ rfl rfl ⟨th, member, accepts_iff.mpr (.inr rfl)⟩
        fun anyThread => absurd anyThread named

/-- A fiber of another scheduler asks for thread 2 by its id. -/
theorem switchTo_not_stranded_by_id :
    (start [1, 2]).NotStranded 9 0 2
      ((start [1, 2]).switchTo 0 (fun id => if id = 9 then some 1 else some 0) 9 0 2) :=
  (switchTo_not_stranded_iff (by decide) rfl (by decide) (.inr (by decide))).mpr
    (.inr (by decide))

/-- The same fiber asks for any thread. -/
theorem switchTo_any_thread_strands :
    ¬ (start [1, 2]).NotStranded 9 0 (-1)
      ((start [1, 2]).switchTo 0 (fun id => if id = 9 then some 1 else some 0) 9 0 (-1)) := by
  intro notStranded
  obtain ⟨id, member, admits⟩ := NotStranded.admits notStranded
  have positive : ∀ id ∈ [(1 : Int), 2], 0 < id := by decide
  exact not_admits_any (positive id member) admits

/-- A task that no thread admits stays in the queue in every run, so that
`stopping()` is false for ever. -/
theorem unadmitted_task_stays {allowed : KScheduler → SchedulerEvent → Prop}
    {events : List SchedulerEvent} {last : KScheduler} {it : FiberBindThread}
    (queued : it ∈ scheduler.mFiberQueue)
    (unadmitted : ∀ id ∈ scheduler.mThreadIds, ¬ Admits it.tid id)
    (run : Run step allowed scheduler events last) : it ∈ last.mFiberQueue := by
  have kept : it ∈ last.mFiberQueue ∧ ∀ id ∈ last.mThreadIds, ¬ Admits it.tid id := by
    refine run.invariant (fun state => it ∈ state.mFiberQueue ∧
      ∀ id ∈ state.mThreadIds, ¬ Admits it.tid id) ⟨queued, unadmitted⟩ ?_
    intro before after event ⟨member, refused⟩ _ stepped
    obtain ⟨threads, queue | ⟨ft, queue⟩ | ⟨id, thread, ft, taken⟩⟩ := step_queue stepped
    · exact ⟨queue ▸ member, threads ▸ refused⟩
    · rw [queue]
      exact ⟨List.mem_append_left _ member, threads ▸ refused⟩
    · obtain ⟨front, back, whole, left, kept⟩ := takeTask_cases taken
      have other : it ≠ ft := by
        rintro rfl
        exact refused id thread (tid_of_not_skips kept)
      rw [whole, List.mem_append, List.mem_cons] at member
      rw [left, List.mem_append]
      exact ⟨member.imp_right (Or.resolve_left · other), threads ▸ refused⟩
  exact kept.1

end KScheduler

end FiberKcp.Scheduler
