import Mathlib.Data.List.Count
import FiberKcp.Manager.Steps

namespace FiberKcp.Manager

open Data Timer

namespace KcpManager

variable {manager after : KcpManager} {event : ManagerEvent} {tid : UInt32} {kcp : Nat}

/-! The counters against the registrations they count. -/

/-- A registered Kcp is installed again only by the thread it is bound to, and
not with success; a `REMOVE` entry found by the thread its Kcp is bound to is of
a registered Kcp. -/
def countsOnce (manager : KcpManager) : ManagerEvent → Prop
  | .thread tid .visit => ∀ it ∈ manager.it? tid,
      (it.2 = .notinit → ¬ manager.full → it.1 ∈ manager.registered →
        manager.mBindTid it.1 = tid) ∧
      (it.2 = .remove → manager.mBindTid it.1 = tid → it.1 ∈ manager.registered)
  | .thread tid (.epollCtlAdd accepted) => ∀ it ∈ manager.it? tid,
      manager.addSucceeds it.1 accepted → it.1 ∉ manager.registered
  | _ => True

instance (manager : KcpManager) (event : ManagerEvent) :
    Decidable (manager.countsOnce event) := by
  unfold countsOnce
  split <;> infer_instance

/-- The registered Kcps that are bound to the thread. -/
def boundTo (manager : KcpManager) (tid : UInt32) : Nat :=
  manager.registered.countP fun kcp => manager.mBindTid kcp = tid

/-- The counters are the numbers of registrations, so none of them has wrapped. -/
structure Accounted (manager : KcpManager) : Prop where
  once : manager.registered.Nodup
  mEventCount : manager.mEventCount.toNat = manager.registered.length
  localEventCount : ∀ tid, (manager.localEventCount tid).toNat = manager.boundTo tid
  bounded : manager.mEventCount.toNat ≤ epollEventSize.toNat

/-- A `NOTINIT` branch that has begun has room and the Kcp bound to its thread. -/
def Enrolling (manager : KcpManager) : Prop :=
  ∀ tid cursor, (manager.stage tid).installs = some cursor →
    manager.registered.length < epollEventSize.toNat ∧
      ∀ it, manager.mWaitingQueue[cursor]? = some it → manager.mBindTid it.1 = tid

theorem not_full_iff : ¬ manager.full ↔ manager.mEventCount.toNat < epollEventSize.toNat := by
  rw [full, UInt32.le_iff_toNat_le, UInt16.toNat_toUInt32, Nat.not_le]

theorem Took.enrolling (took : Took manager event after) (holding : manager.Holding)
    (accounted : manager.Accounted) (enrolling : manager.Enrolling) : after.Enrolling := by
  intro tid cursor working
  rcases took.installs_cases holding working with
    ⟨before, same⟩ | ⟨kcp, ctx, here, entry, room, found, _, rfl⟩
  · rw [same.registered, same.mWaitingQueue, same.mBindTid]
    exact enrolling tid cursor before
  · refine ⟨?_, ?_⟩
    · exact accounted.mEventCount ▸ not_full_iff.mp room
    · intro it same
      cases entry.symm.trans same
      exact Function.update_self _ _ _

/-- `create` in the `NOTINIT` branch binds no registered Kcp to another thread. -/
theorem boundTo_create (bound : kcp ∈ manager.registered → manager.mBindTid kcp = tid)
    (other : UInt32) : (manager.create kcp tid).boundTo other = manager.boundTo other := by
  apply List.countP_congr
  intro registered member
  have same : (manager.create kcp tid).mBindTid registered = manager.mBindTid registered := by
    by_cases here : registered = kcp
    · subst here
      exact (Function.update_self _ _ _).trans (bound member).symm
    · exact Function.update_of_ne here _ _
  rw [same]

theorem Accounted.enroll (accounted : manager.Accounted) (fresh : kcp ∉ manager.registered)
    (room : manager.registered.length < epollEventSize.toNat)
    (bound : manager.mBindTid kcp = tid) : (manager.enroll kcp tid).Accounted := by
  have registered : (manager.enroll kcp tid).registered = kcp :: manager.registered :=
    List.insert_of_not_mem fresh
  have size : epollEventSize.toNat = 1024 := rfl
  have increased : (manager.enroll kcp tid).mEventCount.toNat = manager.mEventCount.toNat + 1 := by
    have := accounted.bounded
    simp only [KcpManager.enroll, UInt16.toNat_add, UInt16.reduceToNat]
    omega
  refine ⟨?_, ?_, ?_, ?_⟩
  · rw [registered]
    exact List.nodup_cons.mpr ⟨fresh, accounted.once⟩
  · rw [increased, registered, List.length_cons, accounted.mEventCount]
  · intro other
    have before := accounted.localEventCount other
    have most : manager.boundTo other ≤ manager.registered.length := List.countP_le_length
    have counted : (manager.enroll kcp tid).boundTo other =
        manager.boundTo other + if manager.mBindTid kcp = other then 1 else 0 := by
      simp only [boundTo, registered, List.countP_cons, decide_eq_true_eq]
      rfl
    rw [counted, bound]
    by_cases same : other = tid
    · subst same
      have counts : (manager.enroll kcp other).localEventCount other =
          manager.localEventCount other + 1 := Function.update_self _ _ _
      rw [if_pos rfl, counts]
      simp only [UInt32.toNat_add, UInt32.reduceToNat]
      omega
    · have counts : (manager.enroll kcp tid).localEventCount other =
          manager.localEventCount other := Function.update_of_ne same _ _
      rw [if_neg (Ne.symm same), counts, before, Nat.add_zero]
  · rw [increased, accounted.mEventCount]
    exact room

theorem Accounted.unregister (accounted : manager.Accounted) (member : kcp ∈ manager.registered)
    (bound : manager.mBindTid kcp = tid) (ctx : Context) :
    (manager.unregister kcp tid ctx).Accounted := by
  have registered : (manager.unregister kcp tid ctx).registered =
      manager.registered.erase kcp := by
    rw [accounted.once.erase_eq_filter]
    simp only [KcpManager.unregister, setContext, bne, ne_eq, decide_not, beq_eq_decide]
  have split := List.perm_cons_erase member
  have length : manager.registered.length = (manager.registered.erase kcp).length + 1 :=
    split.length_eq
  have size : epollEventSize.toNat = 1024 := rfl
  have bounded := accounted.bounded
  have mEventCount := accounted.mEventCount
  have decreased : (manager.unregister kcp tid ctx).mEventCount.toNat + 1 =
      manager.mEventCount.toNat := by
    simp only [KcpManager.unregister, setContext, UInt16.toNat_sub, UInt16.reduceToNat]
    omega
  refine ⟨?_, ?_, ?_, ?_⟩
  · rw [registered]
    exact accounted.once.erase kcp
  · rw [registered]
    omega
  · intro other
    have before := accounted.localEventCount other
    have most : manager.boundTo other ≤ manager.registered.length := List.countP_le_length
    have was : manager.boundTo other = (manager.unregister kcp tid ctx).boundTo other +
        if manager.mBindTid kcp = other then 1 else 0 := by
      simp only [boundTo, registered]
      rw [split.countP_eq, List.countP_cons]
      simp only [decide_eq_true_eq]
      rfl
    rw [bound] at was
    by_cases same : other = tid
    · subst same
      have counts : (manager.unregister kcp other ctx).localEventCount other =
          manager.localEventCount other - 1 := Function.update_self _ _ _
      rw [if_pos rfl] at was
      rw [counts]
      simp only [UInt32.toNat_sub, UInt32.reduceToNat]
      omega
    · have counts : (manager.unregister kcp tid ctx).localEventCount other =
          manager.localEventCount other := Function.update_of_ne same _ _
      rw [if_neg (Ne.symm same)] at was
      rw [counts, before, was, Nat.add_zero]
  · omega

theorem Took.accounted (took : Took manager event after) (permitted : manager.countsOnce event)
    (enrolling : manager.Enrolling) (accounted : manager.Accounted) : after.Accounted := by
  cases took with
  | openSlot tid cursor kcp member here entry room ctx found =>
      have pointed : (kcp, .notinit) ∈ manager.it? tid := by
        rw [it?, here]
        exact entry
      have bound := (permitted (kcp, .notinit) pointed).1 rfl room
      exact ⟨accounted.once, accounted.mEventCount, fun other =>
        (accounted.localEventCount other).trans (boundTo_create bound other).symm,
        accounted.bounded⟩
  | remove tid cursor kcp member here entry own ctx found =>
      have pointed : (kcp, .remove) ∈ manager.it? tid := by
        rw [it?, here]
        exact entry
      have registered := (permitted (kcp, .remove) pointed).2 rfl own
      have removed := accounted.unregister registered own ctx
      exact ⟨removed.once, removed.mEventCount, removed.localEventCount, removed.bounded⟩
  | enroll tid accepted cursor timerId it member here entry success =>
      have pointed : it ∈ manager.it? tid := by
        rw [it?, here]
        exact entry
      obtain ⟨room, bound⟩ := enrolling tid cursor (by rw [here]; rfl)
      have added := accounted.enroll (permitted it pointed success) room (bound it entry)
      exact ⟨added.once, added.mEventCount, added.localEventCount, added.bounded⟩
  | _ =>
      exact ⟨accounted.once, accounted.mEventCount, accounted.localEventCount, accounted.bounded⟩

/-- What the runs keep. -/
structure Accounting (manager : KcpManager) : Prop extends Accounted manager where
  holding : manager.Holding
  enrolling : manager.Enrolling

theorem accounting_start (mAttr : Nat → KcpAttr) (mBindTid : Nat → UInt32)
    (mThreadIds : List UInt32) (mThreadCount : UInt32) :
    (start mAttr mBindTid mThreadIds mThreadCount).Accounting where
  once := List.nodup_nil
  mEventCount := rfl
  localEventCount := fun _ => rfl
  bounded := Nat.zero_le _
  holding := nofun
  enrolling := nofun

variable {mAttr : Nat → KcpAttr} {mBindTid : Nat → UInt32} {mThreadIds : List UInt32}
  {mThreadCount : UInt32} {events : List ManagerEvent}

/-- In every run that registers no Kcp twice over and removes only registered
ones, the counters are the numbers of registrations. -/
theorem registrations_accounted
    (run : Run step countsOnce (start mAttr mBindTid mThreadIds mThreadCount) events manager) :
    manager.Accounted := by
  have kept : manager.Accounting := by
    apply run.invariant Accounting (accounting_start mAttr mBindTid mThreadIds mThreadCount)
    intro before after event accounting permitted stepped
    have took := step_took stepped
    exact ⟨took.accounted permitted accounting.enrolling accounting.toAccounted,
      took.holding accounting.holding,
      took.enrolling accounting.holding accounting.toAccounted accounting.enrolling⟩
  exact kept.toAccounted

/-- Thread 1 registers a Kcp and, when it has been added again and marked for
removal, deregisters it; thread 2 registers another. -/
theorem registrations_accounted_of_two_threads :
    ∃ last, Run step countsOnce (start (fun kcp => { fd := if kcp = 0 then 4 else 5 })
        (fun _ => 0) [1, 2] 2)
        ([ManagerEvent.addKcp 0 (some 0)] ++ idleRound 1 (notinitBranch 1 0 true) ++
          [ManagerEvent.addKcp 0 (some 1)] ++ idleRound 2 (notinitBranch 2 0 true) ++
          [ManagerEvent.addKcp 0 (some 0), .delKcp (some 0)] ++
          idleRound 1 [.thread 1 .visit]) last ∧
      last.registered = [1] ∧ last.Accounted := by
  refine Run.exists_shown (fun last => last.registered = [1]) (by decide +kernel)
    fun last run registered => ?_
  exact ⟨registered, registrations_accounted run⟩

/-- A Kcp is registered and then removed twice: the second removal counts below
zero. -/
theorem counter_wraps_on_second_removal :
    ∃ last, Run step anyStep (start (fun _ => { fd := 4 }) (fun _ => 0) [1] 1)
        ([ManagerEvent.addKcp 0 (some 0)] ++ idleRound 1 (notinitBranch 1 0 true) ++
          [ManagerEvent.addKcp 0 (some 0), .delKcp (some 0)] ++ idleRound 1 [.thread 1 .visit] ++
          [ManagerEvent.addKcp 0 (some 0), .delKcp (some 0)] ++
          idleRound 1 [.thread 1 .visit]) last ∧
      last.registered = [] ∧ last.mEventCount = 0xffff ∧
      last.localEventCount 1 = 0xffffffff ∧ ¬ last.Accounted := by
  refine Run.exists_shown (fun last => last.registered = [] ∧ last.mEventCount = 0xffff ∧
    last.localEventCount 1 = 0xffffffff) (by decide +kernel) fun last run wrapped => ?_
  obtain ⟨none, events, share⟩ := wrapped
  refine ⟨none, events, share, fun accounted => ?_⟩
  have counted := accounted.mEventCount
  rw [events, none] at counted
  exact absurd counted (by decide)

end KcpManager

end FiberKcp.Manager
