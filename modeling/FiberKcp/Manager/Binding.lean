import FiberKcp.Manager.Places

namespace FiberKcp.Manager

open Data Timer

namespace KcpManager

variable {manager after : KcpManager} {event : ManagerEvent} {kcp : Nat} {tid first second : UInt32}

/-! The thread that a Kcp is bound to, which the slot, the timer and every task
name for themselves. -/

/-- The thread is in a routine of the Kcp. -/
def Executes (manager : KcpManager) (tid : UInt32) (kcp : Nat) : Prop :=
  tid ∈ manager.mThreadIds ∧ ∃ cb, (manager.stage tid).runs = some cb ∧ kcpOf cb = some kcp

/-- Something in the manager binds the Kcp to the thread. -/
def BoundTo (manager : KcpManager) (kcp : Nat) (tid : UInt32) : Prop :=
  (∃ place cb, manager.Holds place cb tid ∧ kcpOf cb = some kcp) ∨
    manager.installing tid = some kcp

/-- The Kcps whose thread the `NOTINIT` branch that the next step begins will
name: the one it registers, and those whose callbacks the slot holds. -/
def rebinds (manager : KcpManager) (tid : UInt32) : List Nat :=
  (manager.opens tid).toList.flatMap fun opened =>
    opened :: ((manager.context? (manager.slot opened)).toList.flatMap fun ctx =>
      ctx.handlers.filterMap kcpOf)

/-- A `NOTINIT` branch begins only when all that is kept elsewhere of these Kcps
is bound to its thread. -/
def bindsAlone (manager : KcpManager) : ManagerEvent → Prop
  | .thread tid .visit => ∀ opened ∈ manager.opens tid, ∀ kcp ∈ manager.rebinds tid,
      ∀ entry ∈ manager.holdings, entry.1 ≠ .slot (manager.slot opened) →
        kcpOf entry.2.1 = some kcp → entry.2.2 = tid
  | _ => True

instance (manager : KcpManager) (event : ManagerEvent) : Decidable (manager.bindsAlone event) :=
  match event with
  | .thread tid .visit => inferInstanceAs (Decidable (∀ opened ∈ manager.opens tid,
      ∀ kcp ∈ manager.rebinds tid, ∀ entry ∈ manager.holdings,
        entry.1 ≠ .slot (manager.slot opened) → kcpOf entry.2.1 = some kcp → entry.2.2 = tid))
  | .addKcp _ _ | .delKcp _ | .close _
  | .thread _ .lockQueue | .thread _ .bindCallback | .thread _ (.addTimer _)
  | .thread _ (.epollCtlAdd _) | .thread _ (.getNearTimeout _) | .thread _ (.epollWait _)
  | .thread _ .interrupted | .thread _ .retry | .thread _ (.listExpiredTimer _)
  | .thread _ .schedule | .thread _ .dispatch | .thread _ .yield | .thread _ .begin
  | .thread _ .finish => inferInstanceAs (Decidable True)

/-- Everything kept of one Kcp is bound to one thread. -/
structure Agreed (manager : KcpManager) : Prop where
  holding : manager.Holding
  installs : manager.Installs
  issued : manager.timers.Issued
  nonzero : 0 ∉ manager.mThreadIds
  threads : ∀ kcp tid, manager.BoundTo kcp tid → tid ∈ manager.mThreadIds
  agree : ∀ kcp first second, manager.BoundTo kcp first → manager.BoundTo kcp second →
    first = second

theorem mem_rebinds : kcp ∈ manager.rebinds tid ↔ ∃ opened, manager.opens tid = some opened ∧
    (kcp = opened ∨ ∃ cb th, manager.Holds (.slot (manager.slot opened)) cb th ∧
      kcpOf cb = some kcp) := by
  simp only [rebinds, List.mem_flatMap, Option.mem_toList, List.mem_cons, List.mem_filterMap]
  refine exists_congr fun opened => and_congr_right fun _ => or_congr_right ?_
  constructor
  · rintro ⟨ctx, found, cb, member, routine⟩
    exact ⟨cb, ctx.tid, ⟨ctx, found, member, rfl⟩, routine⟩
  · rintro ⟨cb, _, ⟨ctx, found, member, rfl⟩, routine⟩
    exact ⟨ctx, found, cb, member, routine⟩

/-- In a `NOTINIT` branch the slot names the thread. -/
theorem Installs.slot_tid (installs : manager.Installs)
    (installing : manager.installing tid = some kcp) {ctx : Context}
    (found : manager.context? (manager.slot kcp) = some ctx) : ctx.tid = tid := by
  obtain ⟨cursor, working, same⟩ := Option.bind_eq_some_iff.mp installing
  obtain ⟨other, slot, entry, there, own⟩ := installs tid cursor working
  rw [entry] at same
  cases same
  cases found.symm.trans there
  exact own

/-- After a step a Kcp is bound to the threads it was bound to, or to the thread
whose `NOTINIT` branch begins. -/
theorem Agreed.boundTo_cases (agreed : manager.Agreed) (took : Took manager event after)
    (bound : after.BoundTo kcp tid) :
    manager.BoundTo kcp tid ∨
      event = .thread tid .visit ∧ kcp ∈ manager.rebinds tid := by
  rcases bound with ⟨place, cb, holds, routine⟩ | installing
  · cases took.origin agreed.issued holds with
    | kept holds => exact .inl (.inl ⟨_, cb, holds, routine⟩)
    | fired id holds => exact .inl (.inl ⟨_, cb, holds, routine⟩)
    | scheduled holds => exact .inl (.inl ⟨_, cb, holds, routine⟩)
    | triggered index holds => exact .inl (.inl ⟨_, cb, holds, routine⟩)
    | begun th task admitted =>
        have before : manager.BoundTo kcp th := .inl ⟨_, cb, task, routine⟩
        rcases admitted with zero | own
        · exact absurd (agreed.threads kcp th before) (zero ▸ agreed.nonzero)
        · exact .inl (own ▸ before)
    | retagged opened opens th slot =>
        exact .inr ⟨rfl, mem_rebinds.mpr ⟨opened, opens, .inr ⟨cb, th, slot, routine⟩⟩⟩
    | bound installed installing ctx found =>
        cases routine
        exact .inl (.inr (agreed.installs.slot_tid installing found ▸ installing))
    | timed installed installing =>
        cases routine
        exact .inl (.inr installing)
  · rcases took.installing_cases agreed.holding installing with before | ⟨acting, opens⟩
    · exact .inl (.inr before)
    · exact .inr ⟨acting, mem_rebinds.mpr ⟨kcp, opens, .inl rfl⟩⟩

/-- The `NOTINIT` branch that begins leaves its Kcps bound to its thread alone. -/
theorem Agreed.rebound (agreed : manager.Agreed) (took : Took manager (.thread tid .visit) after)
    (permitted : manager.bindsAlone (.thread tid .visit)) (rebinds : kcp ∈ manager.rebinds tid)
    (bound : after.BoundTo kcp first) : first = tid := by
  obtain ⟨opened, opens, _⟩ := mem_rebinds.mp rebinds
  have installing := took.opened opens
  have holding := took.holding agreed.holding
  have installs := took.installs agreed.holding agreed.installs
  rcases bound with ⟨place, cb, holds, routine⟩ | alsoInstalling
  · by_cases inSlot : place = .slot (manager.slot opened)
    · subst inSlot
      obtain ⟨ctx, found, _, own⟩ := holds
      rw [← took.slot] at found
      exact own.symm.trans (installs.slot_tid installing found)
    · cases took.origin agreed.issued holds with
      | kept before =>
          exact permitted opened opens kcp rebinds (place, cb, first) (mem_holdings.mpr before)
            inSlot routine
      | retagged again reopens th slot =>
          cases opens.symm.trans reopens
          exact absurd rfl inSlot
  · exact holding.installing_unique alsoInstalling installing

theorem Agreed.step (agreed : manager.Agreed) (permitted : manager.bindsAlone event)
    (took : Took manager event after) : after.Agreed where
  holding := took.holding agreed.holding
  installs := took.installs agreed.holding agreed.installs
  issued := took.issued agreed.issued
  nonzero := took.mThreadIds ▸ agreed.nonzero
  threads := by
    intro kcp tid bound
    rw [took.mThreadIds]
    rcases agreed.boundTo_cases took bound with before | ⟨rfl, _⟩
    · exact agreed.threads kcp tid before
    · exact took.acts
  agree := by
    intro kcp first second one two
    rcases agreed.boundTo_cases took one with before | ⟨rfl, rebinds⟩
    · rcases agreed.boundTo_cases took two with alsoBefore | ⟨rfl, rebinds⟩
      · exact agreed.agree kcp first second before alsoBefore
      · exact agreed.rebound took permitted rebinds one
    · exact (agreed.rebound took permitted rebinds two).symm

variable {mAttr : Nat → KcpAttr} {mBindTid : Nat → UInt32} {mThreadIds : List UInt32}
  {mThreadCount : UInt32} {events : List ManagerEvent}

theorem agreed_start (nonzero : 0 ∉ mThreadIds) :
    (start mAttr mBindTid mThreadIds mThreadCount).Agreed where
  holding := nofun
  installs := nofun
  issued := KTimerManager.issued_initial
  nonzero := nonzero
  threads := by
    rintro kcp tid (⟨place, cb, holds, _⟩ | installing)
    · exact absurd holds not_holds_start
    · cases installing
  agree := by
    rintro kcp first second (⟨place, cb, holds, _⟩ | installing) _
    · exact absurd holds not_holds_start
    · cases installing

/-- No two threads are in routines of one Kcp, in every run in which a `NOTINIT`
branch begins only when all that is kept elsewhere of its Kcps is bound to its
thread. -/
theorem one_thread_in_routines (nonzero : 0 ∉ mThreadIds)
    (run : Run step bindsAlone (start mAttr mBindTid mThreadIds mThreadCount) events manager) :
    ∀ kcp first second, manager.Executes first kcp → manager.Executes second kcp →
      first = second := by
  have agreed : manager.Agreed := run.invariant Agreed (agreed_start nonzero)
    fun agreed permitted stepped => agreed.step permitted (step_took stepped)
  rintro kcp first second ⟨member, cb, runs, routine⟩ ⟨other, otherCb, otherRuns, otherRoutine⟩
  apply agreed.agree kcp
  · exact .inl ⟨.running first, cb, ⟨member, runs, rfl⟩, routine⟩
  · exact .inl ⟨.running second, otherCb, ⟨other, otherRuns, rfl⟩, otherRoutine⟩

/-- A Kcp that thread 1 serves is added once more and taken up by thread 1 again,
where epoll refuses it; thread 2 lists its timer for thread 1. -/
theorem one_thread_in_routines_of_readded :
    ∃ last, Run step bindsAlone (start (fun _ => { fd := 4 }) (fun _ => 0) [1, 2] 2)
        ([ManagerEvent.addKcp 0 (some 0)] ++ idleRound 1 (notinitBranch 1 0 true) ++
          [ManagerEvent.addKcp 1 (some 0)] ++ idleRound 1 (notinitBranch 1 0 true) ++
          [ManagerEvent.thread 2 .lockQueue, .thread 2 .visit, .thread 2 (.getNearTimeout 0),
            .thread 2 (.epollWait []), .thread 2 (.listExpiredTimer 100), .thread 2 .schedule,
            .thread 2 .yield, .thread 1 .begin]) last ∧
      last.Executes 1 0 ∧
      ∀ kcp first second, last.Executes first kcp → last.Executes second kcp →
        first = second := by
  refine Run.exists_shown (fun last => 1 ∈ last.mThreadIds ∧
    (last.stage 1).runs = some (.plain (.outputRoutine 0))) (by decide +kernel)
    fun last run found => ?_
  obtain ⟨member, runs⟩ := found
  exact ⟨⟨member, _, runs, rfl⟩, one_thread_in_routines (by decide) run⟩

/-- The Kcp is added once more while thread 1 waits for its events, and thread 2
takes it up: until epoll refuses it, the slot names thread 2 and has its callback. -/
def readdedElsewhere : List ManagerEvent :=
  [ManagerEvent.addKcp 0 (some 0), .thread 1 .lockQueue] ++ notinitBranch 1 0 true ++
    [ManagerEvent.thread 1 .visit, .thread 1 (.getNearTimeout 0), .addKcp 1 (some 0),
      .thread 2 .lockQueue, .thread 2 .visit,
      .thread 1 (.epollWait [.context 4 1]), .thread 1 (.listExpiredTimer 100),
      .thread 1 .schedule, .thread 1 .dispatch, .thread 1 .yield,
      .thread 2 .bindCallback, .thread 2 (.addTimer 100), .thread 2 (.epollCtlAdd true),
      .thread 2 .visit, .thread 2 (.getNearTimeout 100), .thread 2 (.epollWait []),
      .thread 2 (.listExpiredTimer 100), .thread 2 .schedule, .thread 2 .yield,
      .thread 1 .begin, .thread 2 .begin]

theorem two_threads_in_routines :
    ∃ last, Run step anyStep (start (fun _ => { fd := 4 }) (fun _ => 0) [1, 2] 2)
        readdedElsewhere last ∧
      last.Executes 1 0 ∧ last.Executes 2 0 := by
  refine Run.exists_shown (fun last => last.mThreadIds = [1, 2] ∧
    (last.stage 1).runs = some (.plain (.outputRoutine 0)) ∧
    (last.stage 2).runs = some (.plain (.inputRoutine 0))) (by decide +kernel)
    fun last run found => ?_
  obtain ⟨threads, output, input⟩ := found
  refine ⟨⟨?_, _, output, rfl⟩, ⟨?_, _, input, rfl⟩⟩
  · simp [threads]
  · simp [threads]

end KcpManager

end FiberKcp.Manager
