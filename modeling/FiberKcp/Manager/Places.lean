import FiberKcp.Manager.Steps

namespace FiberKcp.Manager

open Data Timer

/-! Where the functions bound to a raw `Kcp *` are kept, and how they move. -/

inductive Place where
  | slot (index : Nat)
  | timer (id : Nat)
  | pending (thread : UInt32)
  | task
  | running (thread : UInt32)
deriving DecidableEq, Repr

/-- The Kcp that the call passes. -/
def ManagerEvent.argument : ManagerEvent → Option Nat
  | .addKcp _ kcp | .delKcp kcp => kcp
  | _ => none

namespace KcpManager

/-- The function is kept at the place, bound to the thread id. -/
def Holds (manager : KcpManager) : Place → Callback → UInt32 → Prop
  | .slot index, cb, tid =>
      ∃ ctx, manager.context? index = some ctx ∧ cb ∈ ctx.handlers ∧ ctx.tid = tid
  | .timer id, cb, tid => id ∈ manager.timers.mTimers ∧
      (manager.timers.timer id).mCb = some cb ∧ (manager.timers.timer id).mTid = tid
  | .pending thread, cb, tid =>
      thread ∈ manager.mThreadIds ∧ (cb, tid) ∈ (manager.stage thread).pending
  | .task, cb, tid => (.cb cb, tid) ∈ manager.mFiberQueue
  | .running thread, cb, tid =>
      thread ∈ manager.mThreadIds ∧ (manager.stage thread).runs = some cb ∧ thread = tid

/-- All that `Holds` says, computed. -/
def holdings (manager : KcpManager) : List (Place × Callback × UInt32) :=
  ((List.range manager.mContextVec.length).flatMap fun index =>
    (manager.context? index).toList.flatMap fun ctx =>
      ctx.handlers.map fun cb => (.slot index, cb, ctx.tid)) ++
  (manager.timers.mTimers.flatMap fun id =>
    (manager.timers.timer id).mCb.toList.map fun cb =>
      (.timer id, cb, (manager.timers.timer id).mTid)) ++
  (manager.mThreadIds.flatMap fun thread =>
    (manager.stage thread).pending.map fun entry => (.pending thread, entry.1, entry.2)) ++
  (manager.mFiberQueue.flatMap fun task =>
    task.1.cb?.toList.map fun cb => (.task, cb, task.2)) ++
  (manager.mThreadIds.flatMap fun thread =>
    (manager.stage thread).runs.toList.map fun cb => (.running thread, cb, thread))

variable {manager after : KcpManager} {event : ManagerEvent} {place : Place} {cb : Callback}
  {tid th : UInt32} {index : Nat} {ctx : Context}

theorem cb?_eq_some {work : Work} : work.cb? = some cb ↔ work = .cb cb := by
  cases work <;> simp [Work.cb?]

theorem mem_holdings : (place, cb, th) ∈ manager.holdings ↔ manager.Holds place cb th := by
  cases place with
  | slot index =>
      simp only [holdings, List.mem_append, List.mem_flatMap, List.mem_map, Option.mem_toList,
        List.mem_range, Prod.mk.injEq, Place.slot.injEq, reduceCtorEq, false_and, and_false,
        exists_const, exists_false, or_false, Holds]
      constructor
      · rintro ⟨_, _, ctx, found, _, member, rfl, rfl, rfl⟩
        exact ⟨ctx, found, member, rfl⟩
      · rintro ⟨ctx, found, member, rfl⟩
        exact ⟨index, context?_lt found, ctx, found, cb, member, rfl, rfl, rfl⟩
  | timer id =>
      simp only [holdings, List.mem_append, List.mem_flatMap, List.mem_map, Option.mem_toList,
        Prod.mk.injEq, Place.timer.injEq, reduceCtorEq, false_and, and_false, exists_const,
        exists_false, or_false, false_or, Holds]
      constructor
      · rintro ⟨_, member, _, found, rfl, rfl, rfl⟩
        exact ⟨member, found, rfl⟩
      · rintro ⟨member, found, rfl⟩
        exact ⟨id, member, cb, found, rfl, rfl, rfl⟩
  | pending thread =>
      simp only [holdings, List.mem_append, List.mem_flatMap, List.mem_map, Option.mem_toList,
        Prod.mk.injEq, Place.pending.injEq, reduceCtorEq, false_and, and_false, exists_const,
        exists_false, or_false, false_or, Holds]
      constructor
      · rintro ⟨_, member, ⟨_, _⟩, found, rfl, rfl, rfl⟩
        exact ⟨member, found⟩
      · rintro ⟨member, found⟩
        exact ⟨thread, member, (cb, th), found, rfl, rfl, rfl⟩
  | task =>
      simp only [holdings, List.mem_append, List.mem_flatMap, List.mem_map, Option.mem_toList,
        Prod.mk.injEq, reduceCtorEq, false_and, and_false, exists_const, exists_false, or_false,
        false_or, true_and, Holds, cb?_eq_some]
      constructor
      · rintro ⟨⟨_, _⟩, member, _, rfl, rfl, rfl⟩
        exact member
      · intro member
        exact ⟨_, member, cb, rfl, rfl, rfl⟩
  | running thread =>
      simp only [holdings, List.mem_append, List.mem_flatMap, List.mem_map, Option.mem_toList,
        Prod.mk.injEq, Place.running.injEq, reduceCtorEq, false_and, and_false, exists_const,
        exists_false, false_or, Holds]
      constructor
      · rintro ⟨_, member, _, found, rfl, rfl, rfl⟩
        exact ⟨member, found, rfl⟩
      · rintro ⟨member, found, rfl⟩
        exact ⟨thread, member, cb, found, rfl, rfl, rfl⟩

/-! ## One store at a time -/

theorem holds_setStage {stage : Stage}
    (holds : (manager.setStage tid stage).Holds place cb th) :
    manager.Holds place cb th ∨ place = .pending tid ∧ (cb, th) ∈ stage.pending ∨
      place = .running tid ∧ stage.runs = some cb ∧ th = tid := by
  cases place with
  | pending thread =>
      by_cases same : thread = tid
      · subst same
        obtain ⟨member, pending⟩ := holds
        rw [setStage_self] at pending
        exact .inr (.inl ⟨rfl, pending⟩)
      · obtain ⟨member, pending⟩ := holds
        rw [setStage_other same] at pending
        exact .inl ⟨member, pending⟩
  | running thread =>
      by_cases same : thread = tid
      · subst same
        obtain ⟨member, runs, own⟩ := holds
        rw [setStage_self] at runs
        exact .inr (.inr ⟨rfl, runs, own.symm⟩)
      · obtain ⟨member, runs, own⟩ := holds
        rw [setStage_other same] at runs
        exact .inl ⟨member, runs, own⟩
  | _ => exact .inl holds

/-- A stage that holds no callback. -/
theorem holds_of_bare {stage : Stage} (pending : stage.pending = []) (runs : stage.runs = none)
    (holds : (manager.setStage tid stage).Holds place cb th) : manager.Holds place cb th := by
  rcases holds_setStage holds with before | ⟨_, member⟩ | ⟨_, member, _⟩
  · exact before
  · rw [pending] at member
    contradiction
  · rw [runs] at member
    contradiction

theorem holds_setContext {old : Context} (found : manager.context? index = some old)
    (holds : (manager.setContext index ctx).Holds place cb th) :
    manager.Holds place cb th ∨ place = .slot index ∧ cb ∈ ctx.handlers ∧ th = ctx.tid := by
  cases place with
  | slot here =>
      obtain ⟨later, there, member, own⟩ := holds
      by_cases same : here = index
      · subst same
        cases (context?_setContext_self found).symm.trans there
        exact .inr ⟨rfl, member, own.symm⟩
      · rw [context?_setContext_other same] at there
        exact .inl ⟨later, there, member, own⟩
  | _ => exact .inl holds

theorem fillContexts_join {contexts : List (Option Context)} {i : Nat}
    (found : (fillContexts i contexts)[index]?.join = some ctx) :
    contexts[index]?.join = some ctx ∨ ctx.handlers = [] := by
  induction contexts generalizing i index with
  | nil => exact .inl found
  | cons head rest ih =>
      cases head with
      | some old =>
          cases index with
          | zero => exact .inl found
          | succ index => exact ih found
      | none =>
          cases index with
          | zero =>
              cases found
              exact .inr rfl
          | succ index => exact ih found

theorem contextResize_join {contexts : List (Option Context)} {size : Nat}
    (found : (contextResize size contexts)[index]?.join = some ctx) :
    contexts[index]?.join = some ctx ∨ ctx.handlers = [] := by
  simp only [contextResize] at found
  split at found
  · exact .inl found
  · rcases fillContexts_join found with kept | fresh
    · refine .inl ?_
      rw [List.getElem?_append] at kept
      split at kept
      · rw [List.getElem?_take] at kept
        split at kept
        · exact kept
        · contradiction
      · rw [List.getElem?_replicate] at kept
        split at kept <;> contradiction
    · exact .inr fresh

theorem holds_growContexts {size : Nat}
    (holds : (manager.growContexts size).Holds place cb th) : manager.Holds place cb th := by
  cases place with
  | slot index =>
      obtain ⟨ctx, found, member, own⟩ := holds
      simp only [context?, growContexts] at found
      split at found
      · rcases contextResize_join found with kept | fresh
        · exact ⟨ctx, kept, member, own⟩
        · rw [fresh] at member
          contradiction
      · exact ⟨ctx, found, member, own⟩
  | _ => exact holds

theorem holds_push {more : List (Work × UInt32)}
    (holds : { manager with mFiberQueue := manager.mFiberQueue ++ more }.Holds place cb th) :
    manager.Holds place cb th ∨ place = .task ∧ (.cb cb, th) ∈ more := by
  cases place with
  | task => exact (List.mem_append.mp holds).imp_right fun member => ⟨rfl, member⟩
  | _ => exact .inl holds

/-- The dispatch loop schedules handlers of the context, bound to its thread. -/
theorem mem_dispatch {events : UInt32} (member : (.cb cb, th) ∈ ctx.dispatch events) :
    cb ∈ ctx.handlers ∧ ctx.tid = th := by
  have triggered : ∀ event, (Work.cb cb, th) ∈ ctx.triggerEvent event →
      (ctx.getContext event).cb = some cb ∧ ctx.tid = th := by
    intro event scheduled
    simp only [Context.triggerEvent] at scheduled
    split at scheduled
    · cases List.mem_singleton.mp scheduled
      exact ⟨‹_›, rfl⟩
    · cases List.mem_singleton.mp scheduled
    · contradiction
  simp only [Context.dispatch, List.mem_append, List.mem_ite_nil_right] at member
  rcases member with ⟨_, read⟩ | ⟨_, write⟩
  · obtain ⟨bound, own⟩ := triggered .read read
    have read : ctx.read.cb = some cb := bound
    exact ⟨by simp [Context.handlers, read], own⟩
  · obtain ⟨bound, own⟩ := triggered .write write
    have write : ctx.write.cb = some cb := bound
    exact ⟨by simp [Context.handlers, write], own⟩

/-! ## Where a function kept after a step comes from -/

/-- The Kcp whose `NOTINIT` branch the thread's next step begins. -/
def opens (manager : KcpManager) (tid : UInt32) : Option Nat :=
  match manager.stage tid with
  | .passing cursor =>
      match manager.mWaitingQueue[cursor]? with
      | some (kcp, .notinit) => if manager.full then none else some kcp
      | _ => none
  | _ => none

/-- The Kcp whose `NOTINIT` branch the thread is in. -/
def installing (manager : KcpManager) (tid : UInt32) : Option Nat :=
  (manager.stage tid).installs.bind fun cursor => manager.mWaitingQueue[cursor]?.map Prod.fst

theorem opens_eq_some {kcp : Nat} : manager.opens tid = some kcp ↔
    ∃ cursor, manager.stage tid = .passing cursor ∧
      manager.mWaitingQueue[cursor]? = some (kcp, .notinit) ∧ ¬ manager.full := by
  constructor
  · intro opens
    simp only [KcpManager.opens] at opens
    split at opens
    · rename_i cursor here
      split at opens
      · rename_i found entry
        rw [Option.ite_none_left_eq_some] at opens
        obtain ⟨room, same⟩ := opens
        cases same
        exact ⟨cursor, here, entry, room⟩
      · contradiction
    · contradiction
  · rintro ⟨cursor, here, entry, room⟩
    simp only [KcpManager.opens, here, entry, if_neg room]

/-- The ways a function comes to a place. -/
inductive Origin (manager : KcpManager) : ManagerEvent → Place → Callback → UInt32 → Prop where
  | kept {event : ManagerEvent} {place : Place} {cb : Callback} {tid : UInt32}
      (holds : manager.Holds place cb tid) : Origin manager event place cb tid
  | fired {thread : UInt32} {now : UInt64} {cb : Callback} {tid : UInt32} (id : Nat)
      (holds : manager.Holds (.timer id) cb tid) :
      Origin manager (.thread thread (.listExpiredTimer now)) (.pending thread) cb tid
  | scheduled {thread : UInt32} {cb : Callback} {tid : UInt32}
      (holds : manager.Holds (.pending thread) cb tid) :
      Origin manager (.thread thread .schedule) .task cb tid
  | triggered {thread : UInt32} {cb : Callback} {tid : UInt32} (index : Nat)
      (holds : manager.Holds (.slot index) cb tid) :
      Origin manager (.thread thread .dispatch) .task cb tid
  | begun {thread : UInt32} {cb : Callback} (tid : UInt32) (holds : manager.Holds .task cb tid)
      (admitted : tid = 0 ∨ tid = thread) :
      Origin manager (.thread thread .begin) (.running thread) cb thread
  | retagged {thread : UInt32} {cb : Callback} (kcp : Nat)
      (opens : manager.opens thread = some kcp) (tid : UInt32)
      (holds : manager.Holds (.slot (manager.slot kcp)) cb tid) :
      Origin manager (.thread thread .visit) (.slot (manager.slot kcp)) cb thread
  | bound {thread : UInt32} (kcp : Nat) (installing : manager.installing thread = some kcp)
      (ctx : Context) (found : manager.context? (manager.slot kcp) = some ctx) :
      Origin manager (.thread thread .bindCallback) (.slot (manager.slot kcp))
        (.plain (.inputRoutine kcp)) ctx.tid
  | timed {thread : UInt32} {now : UInt64} (kcp : Nat)
      (installing : manager.installing thread = some kcp) :
      Origin manager (.thread thread (.addTimer now)) (.timer (manager.timers.gUniqueIdCount + 1))
        (.plain (.outputRoutine kcp)) thread

theorem installing_of_stage {kcp : Nat} {state : KcpState} {cursor : Nat}
    (here : (manager.stage tid).installs = some cursor)
    (entry : manager.mWaitingQueue[cursor]? = some (kcp, state)) :
    manager.installing tid = some kcp := by
  simp only [KcpManager.installing, here, Option.bind_some, entry, Option.map_some]

theorem mem_handlers_of_read {old : Context} {event : EventContext}
    (member : cb ∈ { old with read := event }.handlers) : event.cb = some cb ∨ cb ∈ old.handlers := by
  simp only [Context.handlers, List.mem_append, Option.mem_toList] at member ⊢
  exact member.imp_right .inr

theorem holds_slot_reset {old : Context} (found : manager.context? index = some old)
    (holds : (manager.setContext index (old.resetContext .read)).Holds place cb th) :
    manager.Holds place cb th := by
  rcases holds_setContext found holds with before | ⟨rfl, member, rfl⟩
  · exact before
  · rcases mem_handlers_of_read member with bound | write
    · cases bound
    · exact ⟨old, found, write, rfl⟩

theorem holds_unregister {kcp : Nat} (found : manager.context? (manager.slot kcp) = some ctx)
    (holds : (manager.unregister kcp tid ctx).Holds place cb th) : manager.Holds place cb th := by
  cases place with
  | slot index => exact holds_slot_reset found holds
  | timer id => exact ⟨List.mem_of_mem_eraseP holds.1, holds.2⟩
  | _ => exact holds

/-- The timer is cancelled and the slot reset. -/
theorem holds_giveUp {kcp timerId : Nat} (found : manager.context? (manager.slot kcp) = some ctx)
    (holds : ({ manager with
      timers := manager.timers.setTimer timerId (manager.timers.timer timerId).cancel
      }.setContext (manager.slot kcp) (ctx.resetContext .read)).Holds place cb th) :
    manager.Holds place cb th ∧ place ≠ .timer timerId := by
  cases place with
  | slot index => exact ⟨holds_slot_reset found holds, nofun⟩
  | timer id =>
      obtain ⟨member, bound, own⟩ := holds
      by_cases same : id = timerId
      · subst same
        have cancelled := (congrArg KTimer.mCb (KTimerManager.setTimer_timer_self manager.timers id
          (manager.timers.timer id).cancel)).symm.trans bound
        cases cancelled
      · have kept := KTimerManager.setTimer_timer_other manager.timers (manager.timers.timer timerId).cancel
          same
        exact ⟨⟨member, (congrArg KTimer.mCb kept).symm.trans bound,
          (congrArg KTimer.mTid kept).symm.trans own⟩, fun equal => same (Place.timer.inj equal)⟩
  | _ => exact ⟨holds, nofun⟩

theorem holds_addTimer {kcp : Nat} {now : UInt64} (issued : manager.timers.Issued)
    (holds : { manager with timers := (manager.addOutputTimer kcp tid now).1 }.Holds place cb th) :
    manager.Holds place cb th ∨ place = .timer (manager.timers.gUniqueIdCount + 1) ∧
      cb = .plain (.outputRoutine kcp) ∧ th = tid := by
  cases place with
  | timer id =>
      obtain ⟨member, bound, own⟩ := holds
      rcases issued.addTimer_cases _ _ _ _ _ member with ⟨rfl, made⟩ | ⟨older, kept⟩
      · cases (congrArg KTimer.mCb made).symm.trans bound
        exact .inr ⟨rfl, rfl, own.symm.trans (congrArg KTimer.mTid made)⟩
      · exact .inl ⟨older, (congrArg KTimer.mCb kept).symm.trans bound,
          (congrArg KTimer.mTid kept).symm.trans own⟩
  | _ => exact .inl holds

theorem holds_expire {now : UInt64} (issued : manager.timers.Issued)
    (holds : { manager with timers := (manager.timers.listExpiredTimer now).1 }.Holds place cb th) :
    manager.Holds place cb th := by
  have fires := issued.listExpiredTimer now
  cases place with
  | timer id =>
      obtain ⟨member, bound, own⟩ := holds
      exact ⟨fires.members id member, (fires.mCb id).symm.trans bound,
        (fires.mTid id).symm.trans own⟩
  | _ => exact holds

theorem Took.origin (took : Took manager event after) (issued : manager.timers.Issued)
    (holds : after.Holds place cb th) : Origin manager event place cb th := by
  cases took with
  | stay event call unmarked => exact .kept holds
  | insert mEventCount kcp free => exact .kept (by cases place <;> exact holds)
  | mark kcp free => exact .kept (by cases place <;> exact holds)
  | close fd => exact .kept (by cases place <;> exact holds)
  | lock tid member here free share =>
      have holds := holds_of_bare rfl rfl holds
      exact .kept (by cases place <;> exact holds)
  | skip tid member here free quota => exact .kept (holds_of_bare rfl rfl holds)
  | unlock tid cursor member here ended =>
      have holds := holds_of_bare rfl rfl holds
      exact .kept (by cases place <;> exact holds)
  | keep tid cursor kcp state member here entry kept =>
      exact .kept (holds_of_bare rfl rfl holds)
  | openSlot tid cursor kcp member here entry room ctx found =>
      have holds := holds_of_bare rfl rfl holds
      have grown : ((manager.create kcp tid).growContexts (manager.slot kcp)).context?
          (manager.slot kcp) = some ctx := found
      rcases holds_setContext grown holds with before | ⟨rfl, bound, rfl⟩
      · have before := holds_growContexts before
        exact .kept (by cases place <;> exact before)
      · have before : manager.Holds (.slot (manager.slot kcp)) cb ctx.tid := by
          have inGrown : (manager.growContexts (manager.slot kcp)).Holds
              (.slot (manager.slot kcp)) cb ctx.tid := ⟨ctx, found, bound, rfl⟩
          exact holds_growContexts inGrown
        exact .retagged kcp (opens_eq_some.mpr ⟨cursor, here, entry, room⟩) _ before
  | remove tid cursor kcp member here entry own ctx found =>
      have before : manager.Holds place cb th :=
        holds_unregister found (by cases place <;> exact holds)
      exact .kept before
  | drop tid cursor kcp member here entry foreign => exact .kept (by cases place <;> exact holds)
  | bind tid cursor it member here entry ctx found =>
      have holds := holds_of_bare rfl rfl holds
      rcases holds_setContext found holds with before | ⟨rfl, bound, rfl⟩
      · exact .kept before
      · rcases mem_handlers_of_read bound with bound | old
        · cases bound
          exact .bound it.1 (installing_of_stage (by rw [here]; rfl) entry) ctx found
        · exact .kept ⟨ctx, found, old, rfl⟩
  | time tid now cursor it member here entry ctx found =>
      have holds := holds_of_bare rfl rfl holds
      have timed : { manager with timers := (manager.addOutputTimer it.1 tid now).1 }.context?
          (manager.slot it.1) = some ctx := found
      have before : { manager with timers := (manager.addOutputTimer it.1 tid now).1 }.Holds
          place cb th := by
        rcases holds_setContext timed holds with before | ⟨rfl, bound, rfl⟩
        · exact before
        · exact ⟨ctx, found, bound, rfl⟩
      rcases holds_addTimer issued before with before | ⟨rfl, rfl, rfl⟩
      · exact .kept before
      · exact .timed it.1 (installing_of_stage (by rw [here]; rfl) entry)
  | enroll tid accepted cursor timerId it member here entry success =>
      have holds := holds_of_bare rfl rfl holds
      exact .kept (by cases place <;> exact holds)
  | giveUp tid accepted cursor timerId it member here entry failure ctx found =>
      have holds := holds_of_bare rfl rfl holds
      exact .kept (holds_giveUp found (by cases place <;> exact holds)).1
  | near tid now member here =>
      have holds := holds_of_bare rfl rfl holds
      exact .kept (by cases place <;> exact holds)
  | move tid step stage member plain outside bare =>
      exact .kept (holds_of_bare bare.2.1 bare.2.2 holds)
  | expire tid now events member here =>
      rcases holds_setStage holds with before | ⟨rfl, returned⟩ | ⟨_, runs, _⟩
      · exact .kept (holds_expire issued before)
      · obtain ⟨id, set, found⟩ := (issued.listExpiredTimer now).returned _ returned
        exact .fired id ⟨set, found⟩
      · cases runs
  | schedule tid cbs events member here =>
      rcases holds_push (holds_of_bare rfl rfl holds) with before | ⟨rfl, more⟩
      · exact .kept before
      · obtain ⟨⟨scheduled, bound⟩, pending, same⟩ := List.mem_map.mp more
        cases same
        exact .scheduled ⟨member, by rw [here]; exact pending⟩
  | wake tid rest member here => exact .kept (holds_of_bare rfl rfl holds)
  | dispatch tid fd events rest member here ctx found =>
      rcases holds_push (holds_of_bare rfl rfl holds) with before | ⟨rfl, more⟩
      · exact .kept before
      · obtain ⟨bound, own⟩ := mem_dispatch more
        exact .triggered _ ⟨ctx, found, bound, own⟩
  | begin tid retry ft member here first =>
      rcases holds_setStage holds with before | ⟨_, pending⟩ | ⟨rfl, runs, rfl⟩
      · refine .kept ?_
        cases place with
        | task => exact List.mem_of_mem_eraseP before
        | _ => exact before
      · contradiction
      · have taken : (.cb cb, ft.2) ∈ manager.mFiberQueue := by
          have := List.mem_of_find?_eq_some first
          rw [← cb?_eq_some.mp runs]
          exact this
        have admitted := List.find?_some first
        simp only [admits, decide_eq_true_eq] at admitted
        exact .begun ft.2 taken admitted

theorem not_holds_start {mAttr : Nat → KcpAttr} {mBindTid : Nat → UInt32}
    {mThreadIds : List UInt32} {mThreadCount : UInt32} :
    ¬ (start mAttr mBindTid mThreadIds mThreadCount).Holds place cb tid := by
  intro holds
  cases place with
  | slot index =>
      obtain ⟨ctx, found, _⟩ := holds
      cases found
  | timer id => cases holds.1
  | pending thread => cases holds.2
  | task => cases holds
  | running thread => cases holds.2.1

theorem Took.installing_cases (took : Took manager event after) (holding : manager.Holding)
    {kcp : Nat} (installing : after.installing tid = some kcp) :
    manager.installing tid = some kcp ∨
      event = .thread tid .visit ∧ manager.opens tid = some kcp := by
  obtain ⟨cursor, working, found⟩ := Option.bind_eq_some_iff.mp installing
  rcases took.installs_cases holding working with
    ⟨before, same⟩ | ⟨opened, ctx, here, entry, room, _, acting, rfl⟩
  · rw [same.mWaitingQueue] at found
    exact .inl (Option.bind_eq_some_iff.mpr ⟨cursor, before, found⟩)
  · have same := (congrArg (Option.map Prod.fst) entry).symm.trans found
    cases same
    exact .inr ⟨acting, opens_eq_some.mpr ⟨cursor, here, entry, room⟩⟩

theorem Took.opened {kcp : Nat} (took : Took manager (.thread tid .visit) after)
    (opens : manager.opens tid = some kcp) : after.installing tid = some kcp := by
  obtain ⟨cursor, here, entry, room⟩ := opens_eq_some.mp opens
  cases took with
  | stay event call unmarked => contradiction
  | unlock tid place member there ended =>
      cases here.symm.trans there
      exact nomatch ended.symm.trans entry
  | keep tid place other state member there found kept =>
      cases here.symm.trans there
      cases entry.symm.trans found
      rcases kept with ⟨_, full⟩ | inited
      · exact absurd full room
      · contradiction
  | openSlot tid place other member there found space ctx slot =>
      cases here.symm.trans there
      cases entry.symm.trans found
      exact installing_of_stage (congrArg Stage.installs setStage_self) entry
  | remove tid place other member there found own ctx slot =>
      cases here.symm.trans there
      exact nomatch entry.symm.trans found
  | drop tid place other member there found foreign =>
      cases here.symm.trans there
      exact nomatch entry.symm.trans found
  | move tid step stage member plain outside bare => contradiction

theorem Holding.installing_unique (holding : manager.Holding) {first second : UInt32}
    {kcp other : Nat} (one : manager.installing first = some kcp) (two : manager.installing second = some other) :
    first = second := by
  obtain ⟨_, working, _⟩ := Option.bind_eq_some_iff.mp one
  obtain ⟨_, alsoWorking, _⟩ := Option.bind_eq_some_iff.mp two
  have held := holding first (Stage.inPass_of_installs working)
  exact Option.some.inj (held.symm.trans (holding second (Stage.inPass_of_installs alsoWorking)))

theorem Installs.waiting {kcp : Nat} (installs : manager.Installs)
    (installing : manager.installing tid = some kcp) :
    (kcp, .notinit) ∈ manager.mWaitingQueue := by
  obtain ⟨cursor, working, found⟩ := Option.bind_eq_some_iff.mp installing
  obtain ⟨other, ctx, entry, _⟩ := installs tid cursor working
  rw [entry] at found
  cases found
  exact List.mem_of_getElem? entry

/-- An entry that waits to be registered was there before or has been added. -/
theorem Took.waiting {kcp : Nat} (took : Took manager event after)
    (member : (kcp, .notinit) ∈ after.mWaitingQueue) :
    (kcp, .notinit) ∈ manager.mWaitingQueue ∨ event.argument = some kcp := by
  cases took with
  | insert mEventCount added free =>
      rcases eq_or_mem_of_mem_setInsert member with same | before
      · cases same
        exact .inr rfl
      · exact .inl before
  | mark marked free =>
      obtain ⟨entry, before, same⟩ := List.mem_map.mp member
      split at same
      · cases same
      · exact .inl (same ▸ before)
  | remove tid cursor removed thread here entry own ctx found =>
      exact .inl (List.mem_of_mem_eraseIdx member)
  | drop tid cursor removed thread here entry foreign =>
      exact .inl (List.mem_of_mem_eraseIdx member)
  | enroll tid accepted cursor timerId it thread here entry success =>
      exact .inl (List.mem_of_mem_eraseIdx member)
  | giveUp tid accepted cursor timerId it thread here entry failure ctx found =>
      exact .inl (List.mem_of_mem_eraseIdx member)
  | _ => exact .inl member

end KcpManager

end FiberKcp.Manager
