import FiberKcp.Manager.Registrations

namespace FiberKcp.Manager

open Data Timer

/-! When a removal that `delKcp` accepted has taken effect. -/

namespace KcpManager

variable {manager after : KcpManager} {event : ManagerEvent} {tid : UInt32} {kcp : Nat}

/-- The thread whose pass over the waiting queue the step completes; at its
quota a thread passes the queue by. -/
def passed? (manager : KcpManager) : ManagerEvent → Option UInt32
  | .thread tid .lockQueue =>
      if manager.localEventCount tid < manager.maxEvents then none else some tid
  | .thread tid .visit => if (manager.it? tid).isNone then some tid else none
  | _ => none

/-- None of the threads is about to schedule a routine of the Kcp. -/
def noneAbout (manager : KcpManager) (threads : List UInt32) (kcp : Nat) : Prop :=
  ∀ thread ∈ threads, ∀ entry ∈ (manager.stage thread).pending, kcpOf entry.1 ≠ some kcp

instance (manager : KcpManager) (threads : List UInt32) (kcp : Nat) :
    Decidable (manager.noneAbout threads kcp) :=
  List.decidableBAll _ threads

/-- The tasks that run a routine of the Kcp. -/
def tasksOf (manager : KcpManager) (kcp : Nat) : List (Work × UInt32) :=
  manager.mFiberQueue.filter fun task => task.1.cb?.bind kcpOf = some kcp

end KcpManager

/-- The manager with the history of `delKcp`: for a Kcp that it was called for,
and that `addKcp` was not called for since, the threads that have completed a
pass since. -/
structure Removals where
  manager : KcpManager
  deleted : Nat → Option (List UInt32) := fun _ => none

namespace Removals

def record (removals : Removals) (event : ManagerEvent) : Nat → Option (List UInt32) :=
  match event with
  | .addKcp _ (some kcp) => Function.update removals.deleted kcp none
  | .delKcp (some kcp) =>
      Function.update removals.deleted kcp (some ((removals.deleted kcp).getD []))
  | event => fun kcp =>
      (removals.deleted kcp).map ((removals.manager.passed? event).toList ++ ·)

def step (removals : Removals) (event : ManagerEvent) : Option Removals :=
  (removals.manager.step event).map fun manager =>
    { manager := manager, deleted := removals.record event }

def start (mAttr : Nat → KcpAttr) (mBindTid : Nat → UInt32) (mThreadIds : List UInt32)
    (mThreadCount : UInt32) : Removals where
  manager := .start mAttr mBindTid mThreadIds mThreadCount

/-- The steps at which a removal is not lost: `delKcp` of a registered Kcp finds
its entry; no thread at its quota passes by the entry of a deleted Kcp that is
bound to it; a `NOTINIT` branch takes no registered Kcp's slot; and the entry of
a deleted Kcp is found first by the thread it is bound to, when no thread that
has completed its pass is about to schedule a routine of it. -/
def takesEffect (removals : Removals) : ManagerEvent → Prop
  | .delKcp (some kcp) => kcp ∈ removals.manager.registered →
      kcp ∈ removals.manager.mWaitingQueue.map Prod.fst
  | .thread tid .lockQueue =>
      ¬ removals.manager.localEventCount tid < removals.manager.maxEvents →
        ∀ it ∈ removals.manager.mWaitingQueue, it.2 = .remove →
          it.1 ∈ removals.manager.registered → (removals.deleted it.1).isSome = true →
            removals.manager.mBindTid it.1 ≠ tid
  | .thread tid .visit => removals.manager.freshSlot (.thread tid .visit) ∧
      ∀ it ∈ removals.manager.it? tid, it.2 = .remove → it.1 ∈ removals.manager.registered →
        ∀ passed ∈ removals.deleted it.1, removals.manager.mBindTid it.1 = tid ∧
          removals.manager.noneAbout passed it.1
  | _ => True

instance (removals : Removals) (event : ManagerEvent) : Decidable (removals.takesEffect event) :=
  match event with
  | .delKcp (some kcp) => inferInstanceAs (Decidable (kcp ∈ _ → kcp ∈ _))
  | .thread _ .lockQueue => inferInstanceAs (Decidable
      (_ → ∀ it ∈ removals.manager.mWaitingQueue, _ → it.1 ∈ _ → _ → _))
  | .thread tid .visit => inferInstanceAs (Decidable (_ ∧ ∀ it ∈ removals.manager.it? tid, _ →
      it.1 ∈ _ → ∀ passed ∈ removals.deleted it.1, _ ∧ _))
  | .addKcp _ _ | .delKcp none | .close _
  | .thread _ .bindCallback | .thread _ (.addTimer _)
  | .thread _ (.epollCtlAdd _) | .thread _ (.getNearTimeout _) | .thread _ (.epollWait _)
  | .thread _ .interrupted | .thread _ .retry | .thread _ (.listExpiredTimer _)
  | .thread _ .schedule | .thread _ .dispatch | .thread _ .yield | .thread _ .begin
  | .thread _ .finish => inferInstanceAs (Decidable True)

end Removals

namespace KcpManager

variable {manager after : KcpManager} {event : ManagerEvent} {tid : UInt32} {kcp : Nat}

/-- The Kcp is not registered any more: what is in epoll for its descriptor is
another Kcp's, nothing is kept of it, and no step schedules its routines. -/
structure Removed (manager : KcpManager) (kcp : Nat) : Prop where
  unregistered : kcp ∉ manager.registered
  epoll : manager.fd kcp ∈ manager.epoll →
    ∃ other ∈ manager.registered, other ≠ kcp ∧ manager.fd other = manager.fd kcp
  slot : ∀ index cb tid, manager.Holds (.slot index) cb tid → kcpOf cb ≠ some kcp
  timer : ∀ id cb tid, manager.Holds (.timer id) cb tid → kcpOf cb ≠ some kcp
  silent : ∀ event after, manager.step event = some after →
    (after.tasksOf kcp).Sublist (manager.tasksOf kcp)

/-- The iterator has left no `REMOVE` entry behind. -/
def Visited (manager : KcpManager) : Prop :=
  ∀ tid cursor, (manager.stage tid).cursor = some cursor → ∀ index < cursor, ∀ kcp,
    manager.mWaitingQueue[index]? ≠ some (kcp, .remove)

theorem inPass_of_cursor {stage : Stage} {cursor : Nat} (at_ : stage.cursor = some cursor) :
    stage.inPass = true := by
  cases stage <;> first | rfl | cases at_

theorem Took.visited (took : Took manager event after) (holding : manager.Holding)
    (visited : manager.Visited) : after.Visited := by
  intro tid cursor at_ index before kcp
  have erased : ∀ place, (manager.stage tid).cursor = some place → index < place →
      (manager.mWaitingQueue.eraseIdx place)[index]? ≠ some (kcp, .remove) := by
    intro place here earlier
    rw [List.getElem?_eraseIdx_of_lt earlier]
    exact visited tid place here index earlier kcp
  by_cases acting : event.thread? = some tid
  · cases took with
    | stay event call unmarked => exact visited tid cursor at_ index before kcp
    | insert mEventCount added free => cases acting
    | mark marked free => cases acting
    | close fd => cases acting
    | lock thread member here free share =>
        cases acting
        rw [setStage_self] at at_
        cases at_
        contradiction
    | keep thread place other state member here entry kept =>
        cases acting
        rw [setStage_self] at at_
        cases at_
        rcases Nat.lt_succ_iff_lt_or_eq.mp before with earlier | same
        · exact visited tid place (by rw [here]; rfl) index earlier kcp
        · intro found
          cases (same ▸ entry).symm.trans found
          rcases kept with ⟨notinit, _⟩ | inited <;> contradiction
    | openSlot thread place opened member here entry room ctx found =>
        cases acting
        rw [setStage_self] at at_
        cases at_
        exact visited tid cursor (by rw [here]; rfl) index before kcp
    | bind thread place it member here entry ctx found =>
        cases acting
        rw [setStage_self] at at_
        cases at_
        exact visited tid cursor (by rw [here]; rfl) index before kcp
    | time thread now place it member here entry ctx found =>
        cases acting
        rw [setStage_self] at at_
        cases at_
        exact visited tid cursor (by rw [here]; rfl) index before kcp
    | remove thread place removed member here entry own ctx found =>
        cases acting
        have same := (congrArg Stage.cursor here).symm.trans at_
        cases same
        exact erased cursor at_ before
    | drop thread place removed member here entry foreign =>
        cases acting
        have same := (congrArg Stage.cursor here).symm.trans at_
        cases same
        exact erased cursor at_ before
    | enroll thread accepted place timerId it member here entry success =>
        cases acting
        rw [setStage_self] at at_
        cases at_
        exact erased cursor (by rw [here]; rfl) before
    | giveUp thread accepted place timerId it member here entry failure ctx found =>
        cases acting
        rw [setStage_self] at at_
        cases at_
        exact erased cursor (by rw [here]; rfl) before
    | move thread step stage member plain outside bare =>
        cases acting
        rw [setStage_self] at at_
        exact nomatch bare.1.symm.trans (inPass_of_cursor at_)
    | _ =>
        cases acting
        rw [setStage_self] at at_
        cases at_
  · rw [took.stage_other acting] at at_
    rw [(took.samePass holding (inPass_of_cursor at_) acting).mWaitingQueue]
    exact visited tid cursor at_ index before kcp

theorem Took.stage_visit (took : Took manager (.thread tid .visit) after) :
    ∃ cursor, manager.stage tid = .passing cursor := by
  cases took with
  | stay event call unmarked => contradiction
  | unlock thread cursor member here ended => exact ⟨cursor, here⟩
  | keep thread cursor other state member here entry kept => exact ⟨cursor, here⟩
  | openSlot thread cursor opened member here entry room ctx found => exact ⟨cursor, here⟩
  | remove thread cursor removed member here entry own ctx found => exact ⟨cursor, here⟩
  | drop thread cursor removed member here entry foreign => exact ⟨cursor, here⟩
  | move thread step stage member plain outside bare => contradiction

end KcpManager

namespace Removals

variable {removals : Removals} {after : KcpManager} {event : ManagerEvent} {kcp : Nat}
  {passed : List UInt32}

/-- What is recorded of a deleted Kcp after a step. -/
theorem record_cases (recorded : removals.record event kcp = some passed) :
    event = .delKcp (some kcp) ∧ passed = [] ∨
      (∀ count, event ≠ .addKcp count (some kcp)) ∧ ∃ earlier,
        removals.deleted kcp = some earlier ∧
          passed = (removals.manager.passed? event).toList ++ earlier := by
  simp only [record] at recorded
  split at recorded
  · rename_i count added
    by_cases same : kcp = added
    · subst same
      rw [Function.update_self] at recorded
      contradiction
    · rw [Function.update_of_ne same] at recorded
      refine .inr ⟨fun _ equal => same ?_, passed, recorded, rfl⟩
      cases equal
      rfl
  · rename_i deleted
    by_cases same : kcp = deleted
    · subst same
      rw [Function.update_self] at recorded
      cases before : removals.deleted kcp with
      | none =>
          rw [before] at recorded
          cases recorded
          exact .inl ⟨rfl, rfl⟩
      | some earlier =>
          rw [before] at recorded
          cases recorded
          exact .inr ⟨nofun, _, rfl, rfl⟩
    · rw [Function.update_of_ne same] at recorded
      exact .inr ⟨nofun, passed, recorded, rfl⟩
  · rename_i notAdd notDel
    obtain ⟨earlier, before, same⟩ := Option.map_eq_some_iff.mp recorded
    exact .inr ⟨fun count added => notAdd count kcp added, earlier, before, same.symm⟩

/-- What the runs keep.  A deleted Kcp does not wait to be registered; while it
is registered its `REMOVE` entry waits for the thread it is bound to; and only
threads that have not completed a pass since are about to schedule routines of a
Kcp that is gone. -/
structure Tracked (removals : Removals) : Prop extends removals.manager.Placed where
  owned : removals.manager.Owned
  visited : removals.manager.Visited
  unwaiting : ∀ kcp passed, removals.deleted kcp = some passed →
    (kcp, .notinit) ∉ removals.manager.mWaitingQueue
  marked : ∀ kcp passed, removals.deleted kcp = some passed →
    kcp ∈ removals.manager.registered →
      (kcp, .remove) ∈ removals.manager.mWaitingQueue ∧ removals.manager.mBindTid kcp ∉ passed
  pending : ∀ thread cb th, removals.manager.Holds (.pending thread) cb th →
    ∃ kcp, kcpOf cb = some kcp ∧ (removals.manager.Served kcp ∨
      ∀ passed, removals.deleted kcp = some passed → thread ∉ passed)

theorem takesEffect.freshSlot (permitted : removals.takesEffect event) :
    removals.manager.freshSlot event := by
  cases event with
  | thread tid step =>
      cases step with
      | visit => exact permitted.1
      | _ => trivial
  | _ => trivial

theorem Tracked.unwaiting_step (tracked : removals.Tracked)
    (took : KcpManager.Took removals.manager event after)
    (recorded : removals.record event kcp = some passed) :
    (kcp, .notinit) ∉ after.mWaitingQueue := by
  intro member
  by_cases again : event = .delKcp (some kcp)
  · subst again
    cases took with
    | stay event call unmarked => exact unmarked kcp rfl
    | mark kcp free =>
        obtain ⟨entry, _, same⟩ := List.mem_map.mp member
        split at same
        · cases same
        · subst same
          contradiction
  · rcases record_cases recorded with ⟨called, _⟩ | ⟨unadded, earlier, before, _⟩
    · exact again called
    · rcases took.waiting member with waiting | argument
      · exact tracked.unwaiting kcp earlier before waiting
      · cases event with
        | addKcp count added => exact unadded count (congrArg (ManagerEvent.addKcp count) argument)
        | delKcp deleted => exact again (congrArg ManagerEvent.delKcp argument)
        | _ => contradiction

/-- The thread that completes a pass now is not the one that a deleted and
registered Kcp is bound to. -/
theorem Tracked.passed_foreign (tracked : removals.Tracked)
    (took : KcpManager.Took removals.manager event after)
    (permitted : removals.takesEffect event) (deleted : removals.deleted kcp = some passed)
    (registered : kcp ∈ removals.manager.registered) {tid : UInt32}
    (completes : removals.manager.passed? event = some tid) :
    removals.manager.mBindTid kcp ≠ tid := by
  obtain ⟨marked, _⟩ := tracked.marked kcp passed deleted registered
  cases event with
  | thread thread step =>
      cases step with
      | lockQueue =>
          simp only [KcpManager.passed?, Option.ite_none_left_eq_some, Option.some.injEq]
            at completes
          obtain ⟨quota, rfl⟩ := completes
          exact permitted quota (kcp, .remove) marked rfl registered (by rw [deleted]; rfl)
      | visit =>
          simp only [KcpManager.passed?, Option.ite_none_right_eq_some, Option.some.injEq,
            Option.isNone_iff_eq_none] at completes
          obtain ⟨ended, rfl⟩ := completes
          obtain ⟨cursor, here⟩ := took.stage_visit
          obtain ⟨index, there⟩ := List.mem_iff_getElem?.mp marked
          rw [KcpManager.it?, here] at ended
          have inside : index < removals.manager.mWaitingQueue.length :=
            (List.getElem?_eq_some_iff.mp there).1
          have beyond := List.getElem?_eq_none_iff.mp ended
          exact absurd there
            (tracked.visited thread cursor (by rw [here]; rfl) index (by omega) kcp)
      | _ => cases completes
  | _ => cases completes

/-- Of a deleted Kcp no thread is in the `NOTINIT` branch. -/
theorem Tracked.not_installing (tracked : removals.Tracked)
    (deleted : removals.deleted kcp = some passed) (tid : UInt32) :
    removals.manager.installing tid ≠ some kcp := by
  intro installing
  exact tracked.unwaiting kcp passed deleted (tracked.installs.waiting installing)

theorem Tracked.registered_before (tracked : removals.Tracked)
    (took : KcpManager.Took removals.manager event after)
    (deleted : removals.deleted kcp = some passed) (registered : kcp ∈ after.registered) :
    kcp ∈ removals.manager.registered := by
  cases took with
  | remove thread cursor removed member here entry own ctx found =>
      exact (List.mem_filter.mp registered).1
  | enroll thread accepted cursor timerId it member here entry success =>
      rcases List.mem_insert_iff.mp registered with rfl | before
      · exact absurd (KcpManager.installing_of_stage (by rw [here]; rfl) entry)
          (tracked.not_installing deleted thread)
      · exact before
  | _ => exact registered

/-- The `REMOVE` entry of a deleted Kcp leaves the queue only when the Kcp is
deregistered. -/
theorem Tracked.entry_kept (tracked : removals.Tracked)
    (took : KcpManager.Took removals.manager event after)
    (permitted : removals.takesEffect event) (deleted : removals.deleted kcp = some passed)
    (registered : kcp ∈ after.registered) : (kcp, .remove) ∈ after.mWaitingQueue := by
  have before := tracked.registered_before took deleted registered
  obtain ⟨waits, _⟩ := tracked.marked kcp passed deleted before
  cases took with
  | insert mEventCount added free => exact mem_setInsert_of_mem waits
  | mark marked free =>
      refine List.mem_map.mpr ⟨_, waits, ?_⟩
      split <;> rfl
  | remove thread cursor removed member here entry own ctx found =>
      refine KcpManager.mem_eraseIdx_of_ne entry waits fun same => ?_
      cases same
      exact absurd (List.mem_filter.mp registered).2 (by simp)
  | drop thread cursor removed member here entry foreign =>
      refine KcpManager.mem_eraseIdx_of_ne entry waits fun same => ?_
      cases same
      have it : removals.manager.it? thread = some (kcp, .remove) := by
        rw [KcpManager.it?, here]
        exact entry
      exact foreign (permitted.2 _ it rfl before passed deleted).1
  | enroll thread accepted cursor timerId it member here entry success =>
      refine KcpManager.mem_eraseIdx_of_ne entry waits fun same => ?_
      subst same
      exact tracked.not_installing deleted thread
        (KcpManager.installing_of_stage (by rw [here]; rfl) entry)
  | giveUp thread accepted cursor timerId it member here entry failure ctx found =>
      refine KcpManager.mem_eraseIdx_of_ne entry waits fun same => ?_
      subst same
      exact tracked.not_installing deleted thread
        (KcpManager.installing_of_stage (by rw [here]; rfl) entry)
  | _ => exact waits

theorem mBindTid_kept (took : KcpManager.Took removals.manager event after)
    (permitted : removals.takesEffect event) (registered : kcp ∈ removals.manager.registered) :
    after.mBindTid kcp = removals.manager.mBindTid kcp := by
  cases took with
  | openSlot thread cursor opened member here entry room ctx found =>
      have fresh := permitted.1 opened
        (KcpManager.opens_eq_some.mpr ⟨cursor, here, entry, room⟩) kcp registered
      exact Function.update_of_ne (fun same => fresh (congrArg removals.manager.slot same)) _ _
  | _ => rfl

theorem Tracked.marked_step (tracked : removals.Tracked)
    (took : KcpManager.Took removals.manager event after)
    (permitted : removals.takesEffect event)
    (recorded : removals.record event kcp = some passed) (registered : kcp ∈ after.registered) :
    (kcp, .remove) ∈ after.mWaitingQueue ∧ after.mBindTid kcp ∉ passed := by
  rcases record_cases recorded with ⟨rfl, rfl⟩ | ⟨_, earlier, deleted, rfl⟩
  · cases took with
    | stay event call unmarked => exact absurd rfl (unmarked kcp)
    | mark kcp free =>
        obtain ⟨⟨_, state⟩, waits, rfl⟩ := List.mem_map.mp (permitted registered)
        exact ⟨List.mem_map.mpr ⟨_, waits, if_pos rfl⟩, List.not_mem_nil⟩
  · have before := tracked.registered_before took deleted registered
    refine ⟨tracked.entry_kept took permitted deleted registered, ?_⟩
    rw [mBindTid_kept took permitted before, List.mem_append, Option.mem_toList]
    rintro (completes | already)
    · exact tracked.passed_foreign took permitted deleted before completes rfl
    · exact (tracked.marked kcp earlier deleted before).2 already

/-- A thread that completes its pass has scheduled the callbacks that it took
from the timers. -/
theorem pending_of_passed {tid : UInt32}
    (took : KcpManager.Took removals.manager event after)
    (completes : removals.manager.passed? event = some tid) :
    (removals.manager.stage tid).pending = [] := by
  cases event with
  | thread thread step =>
      cases step with
      | lockQueue =>
          simp only [KcpManager.passed?, Option.ite_none_left_eq_some, Option.some.injEq]
            at completes
          obtain ⟨_, rfl⟩ := completes
          cases took with
          | stay event call unmarked => contradiction
          | lock thread member here free share => rw [here]; rfl
          | skip thread member here free quota => rw [here]; rfl
          | move thread step stage member plain outside bare => contradiction
      | visit =>
          simp only [KcpManager.passed?, Option.ite_none_right_eq_some, Option.some.injEq]
            at completes
          obtain ⟨_, rfl⟩ := completes
          obtain ⟨cursor, here⟩ := took.stage_visit
          rw [here]
          rfl
      | _ => cases completes
  | _ => cases completes

/-- When a deleted Kcp is deregistered, only threads that have yet to complete
their pass are about to schedule its routines. -/
theorem Tracked.pending_ends (tracked : removals.Tracked)
    (permitted : removals.takesEffect event)
    (ends : KcpManager.Ends removals.manager kcp event after)
    {thread th : UInt32} {cb : Callback} (holds : removals.manager.Holds (.pending thread) cb th)
    (routine : kcpOf cb = some kcp) (recorded : removals.record event kcp = some passed) :
    thread ∉ passed := by
  intro completed
  rcases record_cases recorded with ⟨rfl, rfl⟩ | ⟨_, earlier, deleted, rfl⟩
  · contradiction
  · cases ends with
    | removed tid cursor registered here entry own ctx found =>
        have it : removals.manager.it? tid = some (kcp, .remove) := by
          rw [KcpManager.it?, here]
          exact entry
        rw [KcpManager.passed?, it] at completed
        exact (permitted.2 _ it rfl registered earlier deleted).2 thread completed _ holds.2 routine
    | gaveUp tid accepted cursor timerId here installing ctx found =>
        exact tracked.not_installing deleted tid installing

theorem Tracked.pending_step (tracked : removals.Tracked)
    (took : KcpManager.Took removals.manager event after)
    (permitted : removals.takesEffect event) {thread th : UInt32} {cb : Callback}
    (holds : after.Holds (.pending thread) cb th) :
    ∃ kcp, kcpOf cb = some kcp ∧ (after.Served kcp ∨
      ∀ passed, removals.record event kcp = some passed → thread ∉ passed) := by
  have onward : ∀ kcp, removals.manager.Served kcp →
      after.Served kcp ∨ KcpManager.Ends removals.manager kcp event after :=
    fun kcp => took.working_cases tracked.holding (fun _ => id) (fun _ _ => id)
  cases took.origin tracked.issued holds with
  | kept before =>
      obtain ⟨kcp, routine, served | yet⟩ := tracked.pending thread cb th before
      · refine ⟨kcp, routine, (onward kcp served).imp_right fun ends passed recorded => ?_⟩
        exact tracked.pending_ends permitted ends before routine recorded
      · refine ⟨kcp, routine, .inr fun passed recorded completed => ?_⟩
        rcases record_cases recorded with ⟨rfl, rfl⟩ | ⟨_, earlier, deleted, rfl⟩
        · contradiction
        · rcases List.mem_append.mp completed with now | already
          · have idle := pending_of_passed took (Option.mem_toList.mp now)
            exact absurd before.2 (by rw [idle]; exact List.not_mem_nil)
          · exact yet earlier deleted already
  | fired id slot =>
      obtain ⟨kcp, routine, isTimed, _⟩ := tracked.timers id cb th slot
      rcases onward kcp isTimed.served with served | ends
      · exact ⟨kcp, routine, .inl served⟩
      · cases ends

theorem Tracked.step (tracked : removals.Tracked) (permitted : removals.takesEffect event)
    {next : Removals} (stepped : removals.step event = some next) : next.Tracked := by
  obtain ⟨manager, managerStep, rfl⟩ := Option.map_eq_some_iff.mp stepped
  have took := KcpManager.step_took managerStep
  exact
    { tracked.toPlaced.step permitted.freshSlot took with
      owned := took.owned tracked.owned
      visited := took.visited tracked.holding tracked.visited
      unwaiting := fun _ _ => tracked.unwaiting_step took
      marked := fun _ _ => tracked.marked_step took permitted
      pending := fun _ _ _ => tracked.pending_step took permitted }

theorem tracked_start {mAttr : Nat → KcpAttr} {mBindTid : Nat → UInt32}
    {mThreadIds : List UInt32} {mThreadCount : UInt32} :
    (start mAttr mBindTid mThreadIds mThreadCount).Tracked :=
  { KcpManager.placed_start with
    owned := nofun
    visited := nofun
    unwaiting := nofun
    marked := nofun
    pending := fun _ _ _ holds => absurd holds KcpManager.not_holds_start }

end Removals

namespace KcpManager

variable {manager after : KcpManager} {event : ManagerEvent} {kcp : Nat}

theorem tasksOf_push {more : List (Work × UInt32)}
    (foreign : ∀ cb th, (.cb cb, th) ∈ more → kcpOf cb ≠ some kcp) :
    { manager with mFiberQueue := manager.mFiberQueue ++ more }.tasksOf kcp =
      manager.tasksOf kcp := by
  have none_ : more.filter (fun task => task.1.cb?.bind kcpOf = some kcp) = [] := by
    rw [List.filter_eq_nil_iff]
    rintro ⟨work, th⟩ member
    rw [decide_eq_true_eq]
    intro routine
    obtain ⟨cb, bound, same⟩ := Option.bind_eq_some_iff.mp routine
    cases cb?_eq_some.mp bound
    exact foreign cb th member same
  simp only [tasksOf, List.filter_append, none_, List.append_nil]

/-- Routines are scheduled from a slot or from the expired timers only. -/
theorem Took.tasksOf (took : Took manager event after)
    (slot : ∀ index cb th, manager.Holds (.slot index) cb th → kcpOf cb ≠ some kcp)
    (pending : ∀ thread cb th, manager.Holds (.pending thread) cb th → kcpOf cb ≠ some kcp) :
    (after.tasksOf kcp).Sublist (manager.tasksOf kcp) := by
  cases took with
  | schedule tid cbs events member here =>
      have same : (manager.scheduleAll cbs).tasksOf kcp = manager.tasksOf kcp := by
        apply tasksOf_push
        intro cb th more
        obtain ⟨⟨scheduled, bound⟩, expired, same⟩ := List.mem_map.mp more
        cases same
        exact pending tid cb th ⟨member, by rw [here]; exact expired⟩
      exact same ▸ List.Sublist.refl _
  | dispatch tid fd events rest member here ctx found =>
      have same : { manager with
          mFiberQueue := manager.mFiberQueue ++ ctx.dispatch events }.tasksOf kcp =
            manager.tasksOf kcp := by
        apply tasksOf_push
        intro cb th more
        obtain ⟨handler, own⟩ := mem_dispatch more
        exact slot _ cb th ⟨ctx, found, handler, own⟩
      exact same ▸ List.Sublist.refl _
  | begin tid retry ft member here first => exact List.eraseP_sublist.filter _
  | _ => exact List.Sublist.refl _

end KcpManager

namespace Removals

variable {removals : Removals} {kcp : Nat} {passed : List UInt32}

theorem Tracked.removed (tracked : removals.Tracked) (deleted : removals.deleted kcp = some passed)
    (all : ∀ tid ∈ removals.manager.mThreadIds, tid ∈ passed) : removals.manager.Removed kcp := by
  have unregistered : kcp ∉ removals.manager.registered := by
    intro registered
    obtain ⟨_, yet⟩ := tracked.marked kcp passed deleted registered
    exact yet (all _ (tracked.threads kcp registered))
  have unserved : ¬ removals.manager.Served kcp := by
    rintro (registered | ⟨tid, _, installing⟩)
    · exact unregistered registered
    · exact tracked.not_installing deleted tid installing
  have slot : ∀ index cb th, removals.manager.Holds (.slot index) cb th → kcpOf cb ≠ some kcp := by
    intro index cb th holds same
    obtain ⟨other, routine, _, served⟩ := tracked.slots index cb th holds
    cases routine.symm.trans same
    exact unserved served
  have pending : ∀ thread cb th, removals.manager.Holds (.pending thread) cb th →
      kcpOf cb ≠ some kcp := by
    intro thread cb th holds same
    obtain ⟨other, routine, served | yet⟩ := tracked.pending thread cb th holds
    · cases routine.symm.trans same
      exact unserved served
    · cases routine.symm.trans same
      exact yet passed deleted (all thread holds.1)
  exact
    { unregistered := unregistered
      epoll := by
        intro member
        obtain ⟨other, registered, same⟩ := tracked.owned _ member
        exact ⟨other, registered, fun equal => unregistered (equal ▸ registered), same⟩
      slot := slot
      timer := by
        intro id cb th holds same
        obtain ⟨other, routine, isTimed, _⟩ := tracked.timers id cb th holds
        cases routine.symm.trans same
        exact unserved isTimed.served
      silent := fun _ _ stepped => (KcpManager.step_took stepped).tasksOf slot pending }

variable {mAttr : Nat → KcpAttr} {mBindTid : Nat → UInt32} {mThreadIds : List UInt32}
  {mThreadCount : UInt32} {events : List ManagerEvent}

/-- A removal takes effect once every thread has completed a pass, in every run
in which it is not lost. -/
theorem removal_takes_effect
    (run : Run step takesEffect (start mAttr mBindTid mThreadIds mThreadCount) events removals)
    (deleted : removals.deleted kcp = some passed)
    (all : ∀ tid ∈ removals.manager.mThreadIds, tid ∈ passed) : removals.manager.Removed kcp := by
  have tracked : removals.Tracked :=
    run.invariant Tracked tracked_start fun tracked permitted stepped =>
      tracked.step permitted stepped
  exact tracked.removed deleted all

/-- A registered Kcp is added once more, so that `delKcp` finds an entry; the
thread it is bound to comes first. -/
theorem removal_takes_effect_after_readding :
    ∃ last, Run step takesEffect (start (fun _ => { fd := 4 }) (fun _ => 0) [1, 2] 2)
        ([ManagerEvent.addKcp 0 (some 0)] ++ idleRound 1 (notinitBranch 1 0 true) ++
          [ManagerEvent.addKcp 1 (some 0), .delKcp (some 0)] ++ idleRound 1 [.thread 1 .visit] ++
          idleRound 2 []) last ∧
      last.deleted 0 = some [2, 1] ∧ last.manager.Removed 0 := by
  refine Run.exists_shown
    (fun last => last.manager.mThreadIds = [1, 2] ∧ last.deleted 0 = some [2, 1])
    (by decide +kernel) fun last run found => ?_
  obtain ⟨threads, deleted⟩ := found
  refine ⟨deleted, removal_takes_effect run deleted ?_⟩
  rw [threads]
  simp

/-- `delKcp` of a registered Kcp finds no entry, as registration erased it. -/
theorem registered_kcp_not_removed :
    ∃ last, Run step anyStep (start (fun _ => { fd := 4 }) (fun _ => 0) [1, 2] 2)
        ([ManagerEvent.addKcp 0 (some 0)] ++ idleRound 1 (notinitBranch 1 0 true) ++
          [ManagerEvent.delKcp (some 0)] ++ idleRound 1 [] ++ idleRound 2 []) last ∧
      last.deleted 0 = some [2, 1] ∧ last.manager.mThreadIds = [1, 2] ∧
        ¬ last.manager.Removed 0 := by
  refine Run.exists_shown (fun last => last.manager.mThreadIds = [1, 2] ∧
    last.deleted 0 = some [2, 1] ∧ 0 ∈ last.manager.registered) (by decide +kernel)
    fun last run found => ?_
  obtain ⟨threads, deleted, registered⟩ := found
  exact ⟨deleted, threads, fun removed => removed.unregistered registered⟩

end Removals

end FiberKcp.Manager
