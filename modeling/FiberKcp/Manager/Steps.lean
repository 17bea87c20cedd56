import FiberKcp.Manager.KcpManager
import FiberKcp.Timer.Insertion

namespace FiberKcp.Manager

open Data Timer

/-! What a step of the manager can do, and what every step keeps. -/

namespace Stage

/-- The thread is in the block that `mQueueMutex` protects. -/
def inPass : Stage → Bool
  | .passing _ | .opened _ | .bound _ | .timed _ _ => true
  | _ => false

/-- The expired callbacks that the thread has not scheduled yet. -/
def pending : Stage → List (Callback × UInt32)
  | .expired cbs _ => cbs
  | _ => []

def runs : Stage → Option Callback
  | .running work _ => work.cb?
  | _ => none

/-- The position of the entry that a `NOTINIT` branch is working on. -/
def installs : Stage → Option Nat
  | .opened cursor | .bound cursor | .timed cursor _ => some cursor
  | _ => none

/-- The position of the iterator. -/
def cursor : Stage → Option Nat
  | .passing cursor | .opened cursor | .bound cursor | .timed cursor _ => some cursor
  | _ => none

/-- Neither in the pass nor holding a callback. -/
def bare (stage : Stage) : Prop :=
  stage.inPass = false ∧ stage.pending = [] ∧ stage.runs = none

theorem inPass_of_installs {stage : Stage} {cursor : Nat} (working : stage.installs = some cursor) :
    stage.inPass = true := by
  cases stage <;> first | rfl | cases working

end Stage

/-- The steps that change nothing but the stage of their thread. -/
def ThreadStep.moves : ThreadStep → Bool
  | .epollWait _ | .interrupted | .retry | .yield | .finish => true
  | _ => false

/-- The thread that takes the step. -/
def ManagerEvent.thread? : ManagerEvent → Option UInt32
  | .thread tid _ => some tid
  | _ => none

namespace KcpManager

variable {manager after : KcpManager} {tid other : UInt32} {kcp : Nat} {stage : Stage}
  {event : ManagerEvent} {index : Nat} {ctx : Context}

/-- The entry that the thread's iterator points to. -/
def it? (manager : KcpManager) (tid : UInt32) : Option (Nat × KcpState) :=
  (manager.stage tid).cursor.bind fun cursor => manager.mWaitingQueue[cursor]?

@[simp] theorem setStage_self : (manager.setStage tid stage).stage tid = stage := by
  simp [setStage]

theorem setStage_other (different : other ≠ tid) :
    (manager.setStage tid stage).stage other = manager.stage other := by
  simp [setStage, different]

/-- One case for each way the state can change. -/
inductive Took (manager : KcpManager) : ManagerEvent → KcpManager → Prop where
  | stay (event : ManagerEvent) (call : event.thread? = none)
      (unmarked : ∀ kcp, event ≠ .delKcp (some kcp)) : Took manager event manager
  | insert (mEventCount : UInt16) (kcp : Nat) (free : manager.mQueueMutex = none) :
      Took manager (.addKcp mEventCount (some kcp))
        { manager with
          mWaitingQueue := setInsert manager.kcpCompare (kcp, .notinit) manager.mWaitingQueue }
  | mark (kcp : Nat) (free : manager.mQueueMutex = none) :
      Took manager (.delKcp (some kcp)) (manager.delKcp (some kcp))
  | close (fd : Int32) :
      Took manager (.close fd) { manager with epoll := manager.epoll.filter (· ≠ fd) }
  | lock (tid : UInt32) (member : tid ∈ manager.mThreadIds)
      (here : manager.stage tid = .away false) (free : manager.mQueueMutex = none)
      (share : manager.localEventCount tid < manager.maxEvents) :
      Took manager (.thread tid .lockQueue)
        ({ manager with mQueueMutex := some tid }.setStage tid (.passing 0))
  | skip (tid : UInt32) (member : tid ∈ manager.mThreadIds)
      (here : manager.stage tid = .away false) (free : manager.mQueueMutex = none)
      (quota : ¬ manager.localEventCount tid < manager.maxEvents) :
      Took manager (.thread tid .lockQueue) (manager.setStage tid .unlocked)
  | unlock (tid : UInt32) (cursor : Nat) (member : tid ∈ manager.mThreadIds)
      (here : manager.stage tid = .passing cursor)
      (ended : manager.mWaitingQueue[cursor]? = none) :
      Took manager (.thread tid .visit)
        ({ manager with mQueueMutex := none }.setStage tid .unlocked)
  | keep (tid : UInt32) (cursor : Nat) (kcp : Nat) (state : KcpState)
      (member : tid ∈ manager.mThreadIds) (here : manager.stage tid = .passing cursor)
      (entry : manager.mWaitingQueue[cursor]? = some (kcp, state))
      (kept : state = .notinit ∧ manager.full ∨ state = .inited) :
      Took manager (.thread tid .visit) (manager.setStage tid (.passing (cursor + 1)))
  | openSlot (tid : UInt32) (cursor kcp : Nat) (member : tid ∈ manager.mThreadIds)
      (here : manager.stage tid = .passing cursor)
      (entry : manager.mWaitingQueue[cursor]? = some (kcp, .notinit)) (room : ¬ manager.full)
      (ctx : Context) (found : (manager.growContexts (manager.slot kcp)).context?
        (manager.slot kcp) = some ctx) :
      Took manager (.thread tid .visit)
        ((((manager.create kcp tid).growContexts (manager.slot kcp)).setContext (manager.slot kcp)
          { ctx with events := EPOLLIN, fd := manager.fd kcp, tid := tid }).setStage tid
            (.opened cursor))
  | remove (tid : UInt32) (cursor kcp : Nat) (member : tid ∈ manager.mThreadIds)
      (here : manager.stage tid = .passing cursor)
      (entry : manager.mWaitingQueue[cursor]? = some (kcp, .remove))
      (own : manager.mBindTid kcp = tid) (ctx : Context)
      (found : manager.context? (manager.slot kcp) = some ctx) :
      Took manager (.thread tid .visit) ((manager.unregister kcp tid ctx).eraseEntry cursor)
  | drop (tid : UInt32) (cursor kcp : Nat) (member : tid ∈ manager.mThreadIds)
      (here : manager.stage tid = .passing cursor)
      (entry : manager.mWaitingQueue[cursor]? = some (kcp, .remove))
      (foreign : manager.mBindTid kcp ≠ tid) :
      Took manager (.thread tid .visit) (manager.eraseEntry cursor)
  | bind (tid : UInt32) (cursor : Nat) (it : Nat × KcpState) (member : tid ∈ manager.mThreadIds)
      (here : manager.stage tid = .opened cursor)
      (entry : manager.mWaitingQueue[cursor]? = some it) (ctx : Context)
      (found : manager.context? (manager.slot it.1) = some ctx) :
      Took manager (.thread tid .bindCallback)
        ((manager.setContext (manager.slot it.1)
          { ctx with read := { cb := some (.plain (.inputRoutine it.1)) } }).setStage tid
            (.bound cursor))
  | time (tid : UInt32) (now : UInt64) (cursor : Nat) (it : Nat × KcpState)
      (member : tid ∈ manager.mThreadIds) (here : manager.stage tid = .bound cursor)
      (entry : manager.mWaitingQueue[cursor]? = some it) (ctx : Context)
      (found : manager.context? (manager.slot it.1) = some ctx) :
      Took manager (.thread tid (.addTimer now))
        (({ manager with timers := (manager.addOutputTimer it.1 tid now).1 }.setContext
          (manager.slot it.1) { ctx with timerId := manager.timers.gUniqueIdCount + 1 }).setStage
            tid (.timed cursor (manager.timers.gUniqueIdCount + 1)))
  | enroll (tid : UInt32) (accepted : Bool) (cursor timerId : Nat) (it : Nat × KcpState)
      (member : tid ∈ manager.mThreadIds) (here : manager.stage tid = .timed cursor timerId)
      (entry : manager.mWaitingQueue[cursor]? = some it)
      (success : manager.addSucceeds it.1 accepted) :
      Took manager (.thread tid (.epollCtlAdd accepted))
        (((manager.enroll it.1 tid).eraseEntry cursor).setStage tid (.passing cursor))
  | giveUp (tid : UInt32) (accepted : Bool) (cursor timerId : Nat) (it : Nat × KcpState)
      (member : tid ∈ manager.mThreadIds) (here : manager.stage tid = .timed cursor timerId)
      (entry : manager.mWaitingQueue[cursor]? = some it)
      (failure : ¬ manager.addSucceeds it.1 accepted) (ctx : Context)
      (found : manager.context? (manager.slot it.1) = some ctx) :
      Took manager (.thread tid (.epollCtlAdd accepted))
        ((({ manager with
          timers := manager.timers.setTimer timerId (manager.timers.timer timerId).cancel
          }.setContext (manager.slot it.1) (ctx.resetContext .read)).eraseEntry cursor).setStage
            tid (.passing cursor))
  | near (tid : UInt32) (now : UInt64) (member : tid ∈ manager.mThreadIds)
      (here : manager.stage tid = .unlocked) :
      Took manager (.thread tid (.getNearTimeout now))
        ({ manager with timers := (manager.timers.getNearTimeout now).1 }.setStage tid .polling)
  | move (tid : UInt32) (step : ThreadStep) (stage : Stage) (member : tid ∈ manager.mThreadIds)
      (plain : step.moves = true) (outside : (manager.stage tid).inPass = false)
      (bare : stage.bare) :
      Took manager (.thread tid step) (manager.setStage tid stage)
  | expire (tid : UInt32) (now : UInt64) (events : List EpollEvent)
      (member : tid ∈ manager.mThreadIds) (here : manager.stage tid = .woken events) :
      Took manager (.thread tid (.listExpiredTimer now))
        ({ manager with timers := (manager.timers.listExpiredTimer now).1 }.setStage tid
          (.expired (manager.timers.listExpiredTimer now).2 events))
  | schedule (tid : UInt32) (cbs : List (Callback × UInt32)) (events : List EpollEvent)
      (member : tid ∈ manager.mThreadIds) (here : manager.stage tid = .expired cbs events) :
      Took manager (.thread tid .schedule)
        ((manager.scheduleAll cbs).setStage tid (.dispatching events))
  | wake (tid : UInt32) (rest : List EpollEvent) (member : tid ∈ manager.mThreadIds)
      (here : manager.stage tid = .dispatching (.eventFd :: rest)) :
      Took manager (.thread tid .dispatch) (manager.setStage tid (.dispatching rest))
  | dispatch (tid : UInt32) (fd : Int32) (events : UInt32) (rest : List EpollEvent)
      (member : tid ∈ manager.mThreadIds)
      (here : manager.stage tid = .dispatching (.context fd events :: rest)) (ctx : Context)
      (found : manager.context? fd.toNatClampNeg = some ctx) :
      Took manager (.thread tid .dispatch)
        ({ manager with mFiberQueue := manager.mFiberQueue ++ ctx.dispatch events }.setStage tid
          (.dispatching rest))
  | begin (tid : UInt32) (retry : Bool) (ft : Work × UInt32) (member : tid ∈ manager.mThreadIds)
      (here : manager.stage tid = .away retry)
      (first : manager.mFiberQueue.find? (admits tid) = some ft) :
      Took manager (.thread tid .begin)
        ({ manager with mFiberQueue := manager.mFiberQueue.eraseP (admits tid) }.setStage tid
          (.running ft.1 retry))

theorem openContext_spec {opened : KcpManager}
    (result : (manager.create kcp tid).openContext kcp tid = some opened) :
    ∃ ctx, (manager.growContexts (manager.slot kcp)).context? (manager.slot kcp) = some ctx ∧
      opened = ((manager.create kcp tid).growContexts (manager.slot kcp)).setContext
        (manager.slot kcp) { ctx with events := EPOLLIN, fd := manager.fd kcp, tid := tid } := by
  simp only [openContext] at result
  split at result
  · obtain ⟨ctx, found, rfl⟩ := Option.map_eq_some_iff.mp result
    exact ⟨ctx, found, rfl⟩
  · contradiction

theorem visit_took {cursor : Nat} (member : tid ∈ manager.mThreadIds)
    (here : manager.stage tid = .passing cursor) (stepped : manager.visit tid cursor = some after) :
    Took manager (.thread tid .visit) after := by
  simp only [visit] at stepped
  split at stepped
  · rename_i ended
    cases stepped
    exact .unlock tid cursor member here ended
  · rename_i kcp entry
    split at stepped
    · rename_i isFull
      cases stepped
      exact .keep tid cursor kcp _ member here entry (.inl ⟨rfl, isFull⟩)
    · rename_i room
      obtain ⟨opened, result, rfl⟩ := Option.map_eq_some_iff.mp stepped
      obtain ⟨ctx, found, rfl⟩ := openContext_spec result
      exact .openSlot tid cursor kcp member here entry room ctx found
  · rename_i kcp entry
    cases stepped
    exact .keep tid cursor kcp _ member here entry (.inr rfl)
  · rename_i kcp entry
    split at stepped
    · rename_i own
      obtain ⟨removed, result, rfl⟩ := Option.map_eq_some_iff.mp stepped
      simp only [deregister, Option.ite_none_right_eq_some, Option.map_eq_some_iff] at result
      obtain ⟨_, ctx, found, rfl⟩ := result
      exact .remove tid cursor kcp member here entry own ctx found
    · rename_i foreign
      cases stepped
      exact .drop tid cursor kcp member here entry foreign

theorem epollCtlAdd_failure {cursor timerId : Nat} {accepted : Bool}
    (result : manager.epollCtlAdd tid kcp cursor timerId accepted = some after)
    (failure : ¬ manager.addSucceeds kcp accepted) :
    ∃ ctx, manager.context? (manager.slot kcp) = some ctx ∧
      after = (({ manager with
        timers := manager.timers.setTimer timerId (manager.timers.timer timerId).cancel
        }.setContext (manager.slot kcp) (ctx.resetContext .read)).eraseEntry cursor).setStage
          tid (.passing cursor) := by
  simp only [epollCtlAdd, if_neg failure, KcpManager.giveUp, Option.map_map,
    Option.map_eq_some_iff] at result
  obtain ⟨ctx, found, rfl⟩ := result
  exact ⟨ctx, found, rfl⟩

theorem epollCtlAdd_took {cursor timerId : Nat} {it : Nat × KcpState} {accepted : Bool}
    (member : tid ∈ manager.mThreadIds) (here : manager.stage tid = .timed cursor timerId)
    (entry : manager.mWaitingQueue[cursor]? = some it)
    (stepped : manager.epollCtlAdd tid it.1 cursor timerId accepted = some after) :
    Took manager (.thread tid (.epollCtlAdd accepted)) after := by
  by_cases success : manager.addSucceeds it.1 accepted
  · simp only [epollCtlAdd, if_pos success] at stepped
    cases stepped
    exact .enroll tid accepted cursor timerId it member here entry success
  · obtain ⟨ctx, found, rfl⟩ := epollCtlAdd_failure stepped success
    exact .giveUp tid accepted cursor timerId it member here entry success ctx found

theorem dispatch_took {events : List EpollEvent} {epollEvent : EpollEvent}
    (member : tid ∈ manager.mThreadIds)
    (here : manager.stage tid = .dispatching (epollEvent :: events))
    (stepped : (manager.dispatch epollEvent).map (·.setStage tid (.dispatching events)) =
      some after) :
    Took manager (.thread tid .dispatch) after := by
  cases epollEvent with
  | eventFd =>
      cases stepped
      exact .wake tid events member here
  | context fd mask =>
      simp only [KcpManager.dispatch, Option.map_map, Option.map_eq_some_iff] at stepped
      obtain ⟨ctx, found, rfl⟩ := stepped
      exact .dispatch tid fd mask events member here ctx found

theorem idle_took {step : ThreadStep} (member : tid ∈ manager.mThreadIds)
    (stepped : manager.idle tid (manager.stage tid) step = some after) :
    Took manager (.thread tid step) after := by
  cases here : manager.stage tid with
  | away retry =>
      simp only [here, idle] at stepped
      split at stepped
      · split at stepped
        · rename_i free
          split at stepped
          · rename_i share
            cases stepped
            exact .lock tid member here free share
          · rename_i quota
            cases stepped
            exact .skip tid member here free quota
        · contradiction
      · cases stepped
        exact .move tid _ _ member rfl (here ▸ rfl) ⟨rfl, rfl, rfl⟩
      · obtain ⟨ft, first, rfl⟩ := Option.map_eq_some_iff.mp stepped
        exact .begin tid _ ft member here first
      · contradiction
  | passing cursor =>
      simp only [here, idle] at stepped
      split at stepped
      · exact visit_took member here stepped
      · contradiction
  | opened cursor =>
      simp only [here, idle] at stepped
      split at stepped
      · obtain ⟨it, entry, result⟩ := Option.bind_eq_some_iff.mp stepped
        simp only [KcpManager.bindCallback, Option.map_map, Option.map_eq_some_iff] at result
        obtain ⟨ctx, found, rfl⟩ := result
        exact .bind tid _ it member here entry ctx found
      · contradiction
  | bound cursor =>
      simp only [here, idle] at stepped
      split at stepped
      · obtain ⟨it, entry, result⟩ := Option.bind_eq_some_iff.mp stepped
        simp only [KcpManager.addTimer, Option.map_map, Option.map_eq_some_iff] at result
        obtain ⟨ctx, found, rfl⟩ := result
        exact .time tid _ _ it member here entry ctx found
      · contradiction
  | timed cursor timerId =>
      simp only [here, idle] at stepped
      split at stepped
      · obtain ⟨it, entry, result⟩ := Option.bind_eq_some_iff.mp stepped
        exact epollCtlAdd_took member here entry result
      · contradiction
  | unlocked =>
      simp only [here, idle] at stepped
      split at stepped
      · cases stepped
        exact .near tid _ member here
      · contradiction
  | polling =>
      simp only [here, idle] at stepped
      split at stepped
      · rw [Option.ite_none_right_eq_some] at stepped
        obtain ⟨_, same⟩ := stepped
        cases same
        exact .move tid _ _ member rfl (here ▸ rfl) ⟨rfl, rfl, rfl⟩
      · cases stepped
        exact .move tid _ _ member rfl (here ▸ rfl) ⟨rfl, rfl, rfl⟩
      · contradiction
  | woken events =>
      simp only [here, idle] at stepped
      split at stepped
      · cases stepped
        exact .expire tid _ _ member here
      · contradiction
  | expired cbs events =>
      simp only [here, idle] at stepped
      split at stepped
      · cases stepped
        exact .schedule tid _ _ member here
      · contradiction
  | dispatching events =>
      simp only [here, idle] at stepped
      split at stepped
      · exact dispatch_took member here stepped
      · cases stepped
        exact .move tid _ _ member rfl (here ▸ rfl) ⟨rfl, rfl, rfl⟩
      · contradiction
  | running work retry =>
      simp only [here, idle] at stepped
      split at stepped
      · cases stepped
        exact .move tid _ _ member rfl (here ▸ rfl) ⟨rfl, rfl, rfl⟩
      · contradiction

theorem step_took (stepped : manager.step event = some after) : Took manager event after := by
  cases event with
  | addKcp mEventCount kcp =>
      simp only [KcpManager.step, Option.ite_none_right_eq_some] at stepped
      obtain ⟨free, same⟩ := stepped
      cases same
      cases kcp with
      | none =>
          have same : (manager.addKcp mEventCount none).1 = manager := by
            simp only [KcpManager.addKcp, ite_self]
          rw [same]
          exact .stay _ rfl fun _ found => by cases found
      | some kcp =>
          simp only [KcpManager.addKcp]
          split
          · exact .stay _ rfl fun _ found => by cases found
          · exact .insert mEventCount kcp free
  | delKcp kcp =>
      simp only [KcpManager.step, Option.ite_none_right_eq_some] at stepped
      obtain ⟨free, same⟩ := stepped
      cases same
      cases kcp with
      | none => exact .stay _ rfl fun _ found => by cases found
      | some kcp => exact .mark kcp free
  | close fd =>
      cases stepped
      exact .close fd
  | thread tid step =>
      simp only [KcpManager.step, Option.ite_none_right_eq_some] at stepped
      exact idle_took stepped.1 stepped.2

/-- An entry other than the erased one stays. -/
theorem mem_eraseIdx_of_ne {entries : List (Nat × KcpState)} {place : Nat}
    {erased entry : Nat × KcpState} (found : entries[place]? = some erased)
    (member : entry ∈ entries) (different : entry ≠ erased) : entry ∈ entries.eraseIdx place := by
  obtain ⟨index, there⟩ := List.mem_iff_getElem?.mp member
  refine List.mem_eraseIdx_iff_getElem?.mpr ⟨index, fun same => different ?_, there⟩
  subst same
  exact Option.some.inj (there.symm.trans found)

@[simp] theorem Took.mThreadIds (took : Took manager event after) :
    after.mThreadIds = manager.mThreadIds := by
  cases took <;> rfl

theorem Took.mAttr (took : Took manager event after) : after.mAttr = manager.mAttr := by
  cases took <;> rfl

theorem Took.stage_other (took : Took manager event after)
    (notBy : event.thread? ≠ some other) : after.stage other = manager.stage other := by
  cases took <;>
    first
    | rfl
    | exact setStage_other fun same => notBy (same ▸ rfl)

theorem Took.acts {step : ThreadStep} (took : Took manager (.thread tid step) after) :
    tid ∈ manager.mThreadIds := by
  cases took <;> first | assumption | contradiction

/-- What belongs to the thread that holds `mQueueMutex`. -/
structure SamePass (manager after : KcpManager) : Prop where
  mQueueMutex : after.mQueueMutex = manager.mQueueMutex
  mWaitingQueue : after.mWaitingQueue = manager.mWaitingQueue
  mContextVec : after.mContextVec = manager.mContextVec
  mBindTid : after.mBindTid = manager.mBindTid
  mEventCount : after.mEventCount = manager.mEventCount
  registered : after.registered = manager.registered

def Holding (manager : KcpManager) : Prop :=
  ∀ tid, (manager.stage tid).inPass = true → manager.mQueueMutex = some tid

/-- The steps of the others leave it alone. -/
theorem Took.samePass (took : Took manager event after) (holding : manager.Holding)
    (inPass : (manager.stage other).inPass = true) (notBy : event.thread? ≠ some other) :
    SamePass manager after := by
  have held := holding other inPass
  have foreign : ∀ tid, event.thread? = some tid → (manager.stage tid).inPass ≠ true := by
    intro tid by_ passing
    have := holding tid passing
    rw [held] at this
    exact notBy (by_.trans this.symm)
  cases took with
  | insert mEventCount kcp free => exact nomatch held.symm.trans free
  | mark kcp free => exact nomatch held.symm.trans free
  | lock tid member here free share => exact nomatch held.symm.trans free
  | unlock tid | keep tid | openSlot tid | remove tid | drop tid | bind tid | time tid
  | enroll tid | giveUp tid =>
      -- these are steps of a pass, and the acting thread is not the one in it
      have here := ‹manager.stage tid = _›
      exact absurd (by rw [here]; rfl) (foreign tid rfl)
  | _ => exact ⟨rfl, rfl, rfl, rfl, rfl, rfl⟩

theorem Took.holding (took : Took manager event after) (holding : manager.Holding) :
    after.Holding := by
  intro tid passing
  by_cases acting : event.thread? = some tid
  · cases took with
    | stay event call unmarked => exact holding tid passing
    | insert mEventCount kcp free => exact holding tid passing
    | mark kcp free => exact holding tid passing
    | close fd => exact holding tid passing
    | lock tid member here free share =>
        cases acting
        rfl
    | move tid step stage member plain outside bare =>
        cases acting
        rw [setStage_self, bare.1] at passing
        contradiction
    | _ =>
        cases acting
        first
        | exact holding _ (by rw [‹manager.stage _ = _›]; rfl)
        | exact absurd passing (by simp [setStage, Stage.inPass])
  · rw [took.stage_other acting] at passing
    rw [(took.samePass holding passing acting).mQueueMutex]
    exact holding tid passing

theorem context?_lt (found : manager.context? index = some ctx) :
    index < manager.mContextVec.length := by
  by_contra outside
  rw [context?, List.getElem?_eq_none (by omega)] at found
  contradiction

theorem context?_setContext_self {old : Context} (found : manager.context? index = some old) :
    (manager.setContext index ctx).context? index = some ctx := by
  simp [context?, setContext, context?_lt found]

theorem context?_setContext_other {place : Nat} (different : place ≠ index) :
    (manager.setContext index ctx).context? place = manager.context? place := by
  simp [context?, setContext, List.getElem?_set_ne different.symm]

/-- What a `NOTINIT` branch finds again at its next step. -/
structure SameInstall (manager after : KcpManager) : Prop where
  mWaitingQueue : after.mWaitingQueue = manager.mWaitingQueue
  mBindTid : after.mBindTid = manager.mBindTid
  registered : after.registered = manager.registered
  mTid : ∀ index ctx, manager.context? index = some ctx →
    ∃ later, after.context? index = some later ∧ later.tid = ctx.tid

theorem SamePass.sameInstall (same : SamePass manager after) : SameInstall manager after where
  mWaitingQueue := same.mWaitingQueue
  mBindTid := same.mBindTid
  registered := same.registered
  mTid := by
    intro index ctx found
    refine ⟨ctx, ?_, rfl⟩
    rw [context?, same.mContextVec]
    exact found

theorem mTid_setContext {old : Context} (found : manager.context? index = some old)
    (same : ctx.tid = old.tid) {place : Nat} {here : Context}
    (there : manager.context? place = some here) :
    ∃ later, (manager.setContext index ctx).context? place = some later ∧
      later.tid = here.tid := by
  by_cases equal : place = index
  · subst equal
    cases found.symm.trans there
    exact ⟨ctx, context?_setContext_self found, same⟩
  · exact ⟨here, (context?_setContext_other equal).trans there, rfl⟩

/-- A thread in a `NOTINIT` branch was in it before the step, or enters it. -/
theorem Took.installs_cases (took : Took manager event after) (holding : manager.Holding)
    {cursor : Nat} (working : (after.stage tid).installs = some cursor) :
    (manager.stage tid).installs = some cursor ∧ SameInstall manager after ∨
      ∃ kcp ctx, manager.stage tid = .passing cursor ∧
        manager.mWaitingQueue[cursor]? = some (kcp, .notinit) ∧ ¬ manager.full ∧
        (manager.growContexts (manager.slot kcp)).context? (manager.slot kcp) = some ctx ∧
        event = .thread tid .visit ∧
        after = (((manager.create kcp tid).growContexts (manager.slot kcp)).setContext
          (manager.slot kcp) { ctx with events := EPOLLIN, fd := manager.fd kcp, tid := tid
          }).setStage tid (.opened cursor) := by
  by_cases acting : event.thread? = some tid
  · cases took with
    | stay event call unmarked => exact .inl ⟨working, rfl, rfl, rfl, fun _ ctx found => ⟨ctx, found, rfl⟩⟩
    | insert mEventCount kcp free => cases acting
    | mark kcp free => cases acting
    | close fd => cases acting
    | openSlot tid place kcp member here entry room ctx found =>
        cases acting
        rw [setStage_self] at working
        cases working
        exact .inr ⟨kcp, ctx, here, entry, room, found, rfl, rfl⟩
    | bind tid place it member here entry ctx found =>
        cases acting
        rw [setStage_self] at working
        cases working
        exact .inl ⟨by rw [here]; rfl, rfl, rfl, rfl, fun _ _ there =>
          mTid_setContext found (by rfl) there⟩
    | time tid now place it member here entry ctx found =>
        cases acting
        rw [setStage_self] at working
        cases working
        exact .inl ⟨by rw [here]; rfl, rfl, rfl, rfl, fun _ _ there =>
          mTid_setContext found (by rfl) there⟩
    | move tid step stage member plain outside bare =>
        cases acting
        rw [setStage_self] at working
        exact nomatch bare.1.symm.trans (Stage.inPass_of_installs working)
    | remove tid place kcp member here entry own ctx found =>
        cases acting
        exact nomatch (congrArg Stage.installs here).symm.trans working
    | drop tid place kcp member here entry foreign =>
        cases acting
        exact nomatch (congrArg Stage.installs here).symm.trans working
    | _ =>
        cases acting
        exact absurd working (by simp [setStage, Stage.installs])
  · rw [took.stage_other acting] at working
    exact .inl ⟨working,
      (took.samePass holding (Stage.inPass_of_installs working) acting).sameInstall⟩

/-- The entry and the slot of a `NOTINIT` branch that has begun. -/
def Installs (manager : KcpManager) : Prop :=
  ∀ tid cursor, (manager.stage tid).installs = some cursor →
    ∃ kcp ctx, manager.mWaitingQueue[cursor]? = some (kcp, .notinit) ∧
      manager.context? (manager.slot kcp) = some ctx ∧ ctx.tid = tid

theorem Took.slot (took : Took manager event after) (kcp : Nat) :
    after.slot kcp = manager.slot kcp := by
  rw [KcpManager.slot, fd, took.mAttr]
  rfl

theorem Took.installs (took : Took manager event after) (holding : manager.Holding)
    (installs : manager.Installs) : after.Installs := by
  intro tid cursor working
  rcases took.installs_cases holding working with
    ⟨before, same⟩ | ⟨kcp, ctx, here, entry, room, found, _, rfl⟩
  · obtain ⟨kcp, ctx, entry, found, bound⟩ := installs tid cursor before
    obtain ⟨later, laterFound, sameTid⟩ := same.mTid _ ctx found
    rw [same.mWaitingQueue]
    exact ⟨kcp, later, entry, by rw [took.slot]; exact laterFound, sameTid.trans bound⟩
  · exact ⟨kcp, _, entry, context?_setContext_self found, rfl⟩

theorem Took.issued (took : Took manager event after) (issued : manager.timers.Issued) :
    after.timers.Issued := by
  cases took with
  | remove tid cursor kcp member here entry own ctx found => exact issued.delTimer ctx.timerId
  | time tid now cursor it member here entry ctx found => exact issued.addTimer _ _ _ _ _
  | giveUp tid accepted cursor timerId it member here entry failure ctx found =>
      exact issued.setTimer (issued.unique timerId)
  | near tid now member here => exact ⟨⟨issued.unique, issued.counted⟩, issued.nodup⟩
  | expire tid now events member here => exact (issued.listExpiredTimer now).toIssued
  | _ => exact issued

end KcpManager

end FiberKcp.Manager
