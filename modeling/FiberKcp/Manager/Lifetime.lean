import FiberKcp.Manager.Places

namespace FiberKcp.Manager

open Data Timer

/-! The owners of the Kcps.  A `Kcp` is destroyed when the last `Kcp::SP` to it
goes: the handles are the user's, the others are in `mWaitingQueue`. -/

structure OwnedManager where
  manager : KcpManager
  made : Nat → Bool := fun _ => false
  handles : Nat → Nat := fun _ => 0

/-- `addKcp` and `delKcp` are called with a handle. -/
inductive OwnedEvent where
  | make (kcp : Nat)
  | copy (kcp : Nat)
  | drop (kcp : Nat)
  | manager (event : ManagerEvent)
deriving DecidableEq, Repr

namespace OwnedManager

def setHandles (owned : OwnedManager) (kcp count : Nat) : OwnedManager :=
  { owned with handles := Function.update owned.handles kcp count }

def step (owned : OwnedManager) : OwnedEvent → Option OwnedManager
  | .make kcp =>
      if owned.made kcp = false then
        some ({ owned with made := Function.update owned.made kcp true }.setHandles kcp 1)
      else none
  | .copy kcp =>
      if 0 < owned.handles kcp then some (owned.setHandles kcp (owned.handles kcp + 1)) else none
  | .drop kcp =>
      if 0 < owned.handles kcp then some (owned.setHandles kcp (owned.handles kcp - 1)) else none
  | .manager event =>
      if ∀ kcp ∈ event.argument, 0 < owned.handles kcp then
        (owned.manager.step event).map fun manager => { owned with manager }
      else none

def owners (owned : OwnedManager) (kcp : Nat) : Nat :=
  owned.handles kcp + owned.manager.mWaitingQueue.countP fun entry => entry.1 = kcp

/-- The object exists. -/
def Alive (owned : OwnedManager) (kcp : Nat) : Prop :=
  owned.made kcp = true ∧ 0 < owned.owners kcp

end OwnedManager

/-- The stores of the manager, the stack of a running routine apart. -/
def Place.stores : Place → Bool
  | .running _ => false
  | _ => true

namespace OwnedManager

/-- The user gives up the last handle of a Kcp only while its raw pointer is
kept nowhere and it does not wait to be registered. -/
def handleKept (owned : OwnedManager) : OwnedEvent → Prop
  | .drop kcp => owned.handles kcp = 1 →
      (∀ entry ∈ owned.manager.holdings, entry.1.stores = true → kcpOf entry.2.1 ≠ some kcp) ∧
        (kcp, .notinit) ∉ owned.manager.mWaitingQueue
  | _ => True

instance (owned : OwnedManager) (event : OwnedEvent) : Decidable (owned.handleKept event) := by
  cases event <;> simp only [handleKept] <;> infer_instance

variable {owned after : OwnedManager} {event : OwnedEvent} {kcp : Nat}

/-- A Kcp that a routine is bound to, or will be, has a handle. -/
structure Handled (owned : OwnedManager) : Prop where
  holding : owned.manager.Holding
  installs : owned.manager.Installs
  issued : owned.manager.timers.Issued
  made : ∀ kcp, 0 < owned.handles kcp → owned.made kcp = true
  waiting : ∀ kcp, (kcp, .notinit) ∈ owned.manager.mWaitingQueue → 0 < owned.handles kcp
  bound : ∀ place cb tid kcp, owned.manager.Holds place cb tid → place.stores = true →
    kcpOf cb = some kcp → 0 < owned.handles kcp

theorem Handled.setHandles (handled : owned.Handled) {count : Nat}
    (made : 0 < count → owned.made kcp = true)
    (free : count = 0 → (∀ place cb tid, owned.manager.Holds place cb tid →
      place.stores = true → kcpOf cb ≠ some kcp) ∧
        (kcp, .notinit) ∉ owned.manager.mWaitingQueue) :
    (owned.setHandles kcp count).Handled where
  holding := handled.holding
  installs := handled.installs
  issued := handled.issued
  made := by
    intro other positive
    by_cases same : other = kcp
    · subst same
      exact made (by simpa [OwnedManager.setHandles] using positive)
    · exact handled.made other (by simpa [OwnedManager.setHandles, same] using positive)
  waiting := by
    intro other member
    by_cases same : other = kcp
    · subst same
      have positive : 0 < count := Nat.pos_of_ne_zero fun none => (free none).2 member
      simpa [OwnedManager.setHandles] using positive
    · simpa [OwnedManager.setHandles, same] using handled.waiting other member
  bound := by
    intro place cb tid other holds stores routine
    by_cases same : other = kcp
    · subst same
      have positive : 0 < count :=
        Nat.pos_of_ne_zero fun none => (free none).1 place cb tid holds stores routine
      simpa [OwnedManager.setHandles] using positive
    · simpa [OwnedManager.setHandles, same] using
        handled.bound place cb tid other holds stores routine

theorem Handled.manager (handled : owned.Handled) {call : ManagerEvent} {manager : KcpManager}
    (argument : ∀ kcp ∈ call.argument, 0 < owned.handles kcp)
    (stepped : owned.manager.step call = some manager) : { owned with manager }.Handled := by
  have took := KcpManager.step_took stepped
  refine ⟨took.holding handled.holding, took.installs handled.holding handled.installs,
    took.issued handled.issued, handled.made, ?_, ?_⟩
  · intro kcp member
    rcases took.waiting member with before | added
    · exact handled.waiting kcp before
    · exact argument kcp added
  · intro place cb tid kcp holds stores routine
    cases took.origin handled.issued holds with
    | kept holds => exact handled.bound _ _ _ _ holds stores routine
    | fired id holds => exact handled.bound _ _ _ _ holds rfl routine
    | scheduled holds => exact handled.bound _ _ _ _ holds rfl routine
    | triggered index holds => exact handled.bound _ _ _ _ holds rfl routine
    | begun tid holds admitted => cases stores
    | retagged opened opens tid holds => exact handled.bound _ _ _ _ holds rfl routine
    | bound installed installing ctx found =>
        cases routine
        exact handled.waiting installed (handled.installs.waiting installing)
    | timed installed installing =>
        cases routine
        exact handled.waiting installed (handled.installs.waiting installing)

theorem Handled.step (handled : owned.Handled) (permitted : owned.handleKept event)
    (stepped : owned.step event = some after) : after.Handled := by
  cases event with
  | make kcp =>
      simp only [OwnedManager.step, Option.ite_none_right_eq_some] at stepped
      obtain ⟨fresh, same⟩ := stepped
      cases same
      have none : ¬ 0 < owned.handles kcp := fun positive =>
        nomatch fresh.symm.trans (handled.made kcp positive)
      have made : { owned with made := Function.update owned.made kcp true }.Handled := by
        refine ⟨handled.holding, handled.installs, handled.issued, ?_, handled.waiting,
          handled.bound⟩
        intro other positive
        have different : other ≠ kcp := fun same => none (same ▸ positive)
        exact (Function.update_of_ne different _ _).trans (handled.made other positive)
      exact made.setHandles (fun _ => Function.update_self _ _ _) nofun
  | copy kcp =>
      simp only [OwnedManager.step, Option.ite_none_right_eq_some] at stepped
      obtain ⟨positive, same⟩ := stepped
      cases same
      exact handled.setHandles (fun _ => handled.made kcp positive) nofun
  | drop kcp =>
      simp only [OwnedManager.step, Option.ite_none_right_eq_some] at stepped
      obtain ⟨positive, same⟩ := stepped
      cases same
      refine handled.setHandles (fun _ => handled.made kcp positive) fun none => ?_
      obtain ⟨unheld, absent⟩ := permitted (by omega)
      refine ⟨fun place cb tid holds stores => ?_, absent⟩
      exact unheld (place, cb, tid) (KcpManager.mem_holdings.mpr holds) stores
  | manager call =>
      simp only [OwnedManager.step, Option.ite_none_right_eq_some, Option.map_eq_some_iff]
        at stepped
      obtain ⟨argument, manager, stepped, rfl⟩ := stepped
      exact handled.manager argument stepped

/-- The manager with no Kcp made yet. -/
def start (mAttr : Nat → KcpAttr) (mBindTid : Nat → UInt32) (mThreadIds : List UInt32)
    (mThreadCount : UInt32) : OwnedManager where
  manager := .start mAttr mBindTid mThreadIds mThreadCount

variable {mAttr : Nat → KcpAttr} {mBindTid : Nat → UInt32} {mThreadIds : List UInt32}
  {mThreadCount : UInt32} {events : List OwnedEvent}

theorem handled_start : (start mAttr mBindTid mThreadIds mThreadCount).Handled where
  holding := nofun
  installs := nofun
  issued := KTimerManager.issued_initial
  made := nofun
  waiting := nofun
  bound := fun _ _ _ _ holds => absurd holds KcpManager.not_holds_start

/-- Every Kcp whose raw pointer the manager keeps exists. -/
def Outlived (owned : OwnedManager) : Prop :=
  ∀ place cb tid kcp, owned.manager.Holds place cb tid → place.stores = true →
    kcpOf cb = some kcp → owned.Alive kcp

/-- It is so in every run in which the last handle of a Kcp is given up only
while its pointer is not kept. -/
theorem kcps_outlive_callbacks
    (run : Run step handleKept (start mAttr mBindTid mThreadIds mThreadCount) events owned) :
    owned.Outlived := by
  have handled : owned.Handled := run.invariant Handled handled_start
    fun handled permitted stepped => handled.step permitted stepped
  intro place cb tid kcp holds stores routine
  have positive := handled.bound place cb tid kcp holds stores routine
  exact ⟨handled.made kcp positive, Nat.add_pos_left positive _⟩

/-- The user registers two Kcps, one of which epoll does not take, and gives up
the handle of that one. -/
theorem kcps_outlive_callbacks_of_refused :
    ∃ last, Run step handleKept
        (start (fun kcp => { fd := if kcp = 0 then 4 else 5 }) (fun _ => 0) [1] 1)
        ([OwnedEvent.make 0, .make 1, .manager (.addKcp 0 (some 0)),
            .manager (.addKcp 0 (some 1))] ++
          (idleRound 1 (notinitBranch 1 0 true ++ notinitBranch 1 0 false)).map
            OwnedEvent.manager ++ [OwnedEvent.drop 1]) last ∧
      (last.owners 0 = 1 ∧ last.owners 1 = 0) ∧ last.Outlived := by
  refine Run.exists_shown (fun last => last.owners 0 = 1 ∧ last.owners 1 = 0) (by decide +kernel)
    fun last run owners => ?_
  exact ⟨owners, kcps_outlive_callbacks run⟩

/-- The user gives up the handle of a registered Kcp. -/
theorem registered_kcp_destroyed :
    ∃ last, Run step anyStep (start (fun _ => { fd := 4 }) (fun _ => 0) [1] 1)
        ([OwnedEvent.make 0, .manager (.addKcp 0 (some 0))] ++
          (idleRound 1 (notinitBranch 1 0 true)).map OwnedEvent.manager ++
          [OwnedEvent.drop 0]) last ∧
      ¬ last.Outlived := by
  refine Run.exists_shown (fun last => last.owners 0 = 0 ∧
    (.slot 4, .plain (.inputRoutine 0), 1) ∈ last.manager.holdings) (by decide +kernel)
    fun last run found => ?_
  obtain ⟨destroyed, bound⟩ := found
  intro outlived
  have alive := outlived _ _ _ 0 (KcpManager.mem_holdings.mp bound) rfl rfl
  exact absurd alive.2 (by omega)

end OwnedManager

end FiberKcp.Manager
