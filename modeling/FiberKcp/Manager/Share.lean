import FiberKcp.Manager.Steps

namespace FiberKcp.Manager

open Data

/-! The share of the registrations that a thread takes. -/

namespace KcpManager

variable {manager after : KcpManager} {event : ManagerEvent} {tid : UInt32} {kcp : Nat}

/-- The steps at which the quota is kept: a `NOTINIT` branch begins only below
it, a thread that has reached it passes by no `REMOVE` entry of its own, and a
`REMOVE` branch has a registration to give back. -/
def keepsShare (manager : KcpManager) : ManagerEvent → Prop
  | .thread tid .lockQueue => manager.maxEvents ≤ manager.localEventCount tid →
      ∀ it ∈ manager.mWaitingQueue, it.2 = .remove → manager.mBindTid it.1 ≠ tid
  | .thread tid .visit => ∀ it ∈ manager.it? tid,
      (it.2 = .notinit → ¬ manager.full → manager.localEventCount tid < manager.maxEvents) ∧
      (it.2 = .remove → manager.mBindTid it.1 = tid → 0 < manager.localEventCount tid)
  | _ => True

instance (manager : KcpManager) (event : ManagerEvent) : Decidable (manager.keepsShare event) :=
  match event with
  | .thread _ .lockQueue => inferInstanceAs (Decidable (_ → ∀ it ∈ manager.mWaitingQueue, _ → _))
  | .thread tid .visit => inferInstanceAs (Decidable (∀ it ∈ manager.it? tid, _ ∧ _))
  | .addKcp _ _ | .delKcp _ | .close _
  | .thread _ .bindCallback | .thread _ (.addTimer _)
  | .thread _ (.epollCtlAdd _) | .thread _ (.getNearTimeout _) | .thread _ (.epollWait _)
  | .thread _ .interrupted | .thread _ .retry | .thread _ (.listExpiredTimer _)
  | .thread _ .schedule | .thread _ .dispatch | .thread _ .yield | .thread _ .begin
  | .thread _ .finish => inferInstanceAs (Decidable True)

/-- What a step does when the load is shared as intended.  A thread that has
reached its share takes no waiting Kcp; one that has a removal request of its
own to serve looks at the queue, and serves the requests it finds there. -/
structure Shared (manager : KcpManager) (event : ManagerEvent) (after : KcpManager) : Prop where
  within : ∀ tid, after.localEventCount tid ≤ after.maxEvents
  leaves : ∀ tid, event.thread? = some tid → manager.maxEvents ≤ manager.localEventCount tid →
    ∀ kcp, (kcp, .notinit) ∈ manager.mWaitingQueue → (kcp, .notinit) ∈ after.mWaitingQueue
  looks : ∀ tid kcp, event = .thread tid .lockQueue → (kcp, .remove) ∈ manager.mWaitingQueue →
    manager.mBindTid kcp = tid → after.stage tid = .passing 0
  serves : ∀ tid kcp, event = .thread tid .visit → manager.it? tid = some (kcp, .remove) →
    manager.mBindTid kcp = tid → kcp ∉ after.registered

/-- What the runs keep. -/
structure Within (manager : KcpManager) : Prop where
  holding : manager.Holding
  share : ∀ tid, manager.localEventCount tid ≤ manager.maxEvents
  room : ∀ tid cursor, (manager.stage tid).installs = some cursor →
    manager.localEventCount tid < manager.maxEvents

theorem Took.maxEvents (took : Took manager event after) : after.maxEvents = manager.maxEvents := by
  have same : after.mThreadCount = manager.mThreadCount := by
    cases took <;> rfl
  rw [KcpManager.maxEvents, same]
  rfl

/-- The count of a thread changes at the end of a `NOTINIT` branch of it and in
its `REMOVE` branches. -/
inductive Counts (manager : KcpManager) (event : ManagerEvent) (after : KcpManager)
    (tid : UInt32) : Prop where
  | same (kept : after.localEventCount tid = manager.localEventCount tid)
  | enrolled (cursor : Nat) (before : (manager.stage tid).installs = some cursor)
      (ended : (after.stage tid).installs = none)
      (counted : after.localEventCount tid = manager.localEventCount tid + 1)
  | removed (kcp : Nat) (visit : event = .thread tid .visit)
      (it : manager.it? tid = some (kcp, .remove)) (own : manager.mBindTid kcp = tid)
      (ended : (after.stage tid).installs = none)
      (counted : after.localEventCount tid = manager.localEventCount tid - 1)

theorem Took.counts (took : Took manager event after) (tid : UInt32) :
    Counts manager event after tid := by
  cases took with
  | enroll thread accepted cursor timerId it member here entry success =>
      by_cases same : tid = thread
      · subst same
        exact .enrolled cursor (by rw [here]; rfl) (congrArg Stage.installs setStage_self)
          (Function.update_self _ _ _)
      · exact .same (Function.update_of_ne same _ _)
  | remove thread cursor kcp member here entry own ctx found =>
      by_cases same : tid = thread
      · subst same
        have it : manager.it? tid = some (kcp, .remove) := by
          rw [KcpManager.it?, here]
          exact entry
        exact .removed kcp rfl it own (congrArg Stage.installs here) (Function.update_self _ _ _)
      · exact .same (Function.update_of_ne same _ _)
  | _ => exact .same rfl

theorem Within.share_step (within : manager.Within) (permitted : manager.keepsShare event)
    (took : Took manager event after) (tid : UInt32) :
    after.localEventCount tid ≤ after.maxEvents := by
  rw [took.maxEvents]
  have share := within.share tid
  cases took.counts tid with
  | same kept => exact kept ▸ share
  | enrolled cursor before ended counted =>
      have room := within.room tid cursor before
      rw [counted]
      rw [UInt32.lt_iff_toNat_lt] at room
      rw [UInt32.le_iff_toNat_le, UInt32.toNat_add]
      exact Nat.le_trans (Nat.mod_le _ _) room
  | removed kcp visit it own ended counted =>
      subst visit
      have positive : 1 ≤ manager.localEventCount tid :=
        UInt32.le_iff_toNat_le.mpr (UInt32.lt_iff_toNat_lt.mp ((permitted _ it).2 rfl own))
      rw [UInt32.le_iff_toNat_le] at share ⊢
      rw [counted, UInt32.toNat_sub_of_le _ _ positive]
      omega

theorem Within.room_step (within : manager.Within) (permitted : manager.keepsShare event)
    (took : Took manager event after) {cursor : Nat}
    (working : (after.stage tid).installs = some cursor) :
    after.localEventCount tid < after.maxEvents := by
  rw [took.maxEvents]
  have kept : after.localEventCount tid = manager.localEventCount tid := by
    cases took.counts tid with
    | same kept => exact kept
    | enrolled place before ended counted => exact nomatch ended.symm.trans working
    | removed kcp visit it own ended counted => exact nomatch ended.symm.trans working
  rw [kept]
  rcases took.installs_cases within.holding working with
    ⟨before, _⟩ | ⟨kcp, ctx, here, entry, room, _, rfl, _⟩
  · exact within.room tid cursor before
  · have it : manager.it? tid = some (kcp, .notinit) := by
      rw [KcpManager.it?, here]
      exact entry
    exact (permitted _ it).1 rfl room

theorem Within.step (within : manager.Within) (permitted : manager.keepsShare event)
    (took : Took manager event after) : after.Within where
  holding := took.holding within.holding
  share := within.share_step permitted took
  room := fun _ _ => within.room_step permitted took

/-- Only at the end of a `NOTINIT` branch of the thread does a waiting Kcp leave
the queue. -/
theorem Took.leaves {step : ThreadStep} (took : Took manager (.thread tid step) after)
    (idle : (manager.stage tid).installs = none)
    (waits : (kcp, .notinit) ∈ manager.mWaitingQueue) : (kcp, .notinit) ∈ after.mWaitingQueue := by
  cases took with
  | remove thread cursor removed member here entry own ctx found =>
      exact mem_eraseIdx_of_ne entry waits nofun
  | drop thread cursor removed member here entry foreign =>
      exact mem_eraseIdx_of_ne entry waits nofun
  | enroll thread accepted cursor timerId it member here entry success =>
      rw [here] at idle
      contradiction
  | giveUp thread accepted cursor timerId it member here entry failure ctx found =>
      rw [here] at idle
      contradiction
  | _ => exact waits

theorem Took.serves (took : Took manager (.thread tid .visit) after)
    (it : manager.it? tid = some (kcp, .remove)) (own : manager.mBindTid kcp = tid) :
    kcp ∉ after.registered := by
  obtain ⟨cursor, at_, found⟩ := Option.bind_eq_some_iff.mp it
  cases took with
  | stay event call unmarked => contradiction
  | unlock thread place member here ended =>
      rw [here] at at_
      cases at_
      exact nomatch ended.symm.trans found
  | keep thread place other state member here entry kept =>
      rw [here] at at_
      cases at_
      cases entry.symm.trans found
      rcases kept with ⟨waiting, _⟩ | inited <;> contradiction
  | openSlot thread place other member here entry room ctx slot =>
      rw [here] at at_
      cases at_
      exact nomatch entry.symm.trans found
  | remove thread place removed member here entry bound ctx slot =>
      rw [here] at at_
      cases at_
      cases entry.symm.trans found
      exact fun registered => absurd (List.mem_filter.mp registered).2 (by simp)
  | drop thread place removed member here entry foreign =>
      rw [here] at at_
      cases at_
      cases entry.symm.trans found
      exact absurd own foreign
  | move thread step stage member plain outside bare => contradiction

theorem Within.shared (within : manager.Within) (permitted : manager.keepsShare event)
    (took : Took manager event after) : Shared manager event after where
  within := within.share_step permitted took
  leaves := by
    intro tid acting reached kcp waits
    cases event with
    | thread thread step =>
        cases acting
        refine took.leaves ?_ waits
        cases working : (manager.stage tid).installs with
        | none => rfl
        | some cursor =>
            exact absurd (within.room tid cursor working) (UInt32.not_lt.mpr reached)
    | _ => cases acting
  looks := by
    rintro tid kcp rfl waits own
    cases took with
    | stay event call unmarked => contradiction
    | lock thread member here free share => exact setStage_self
    | skip thread member here free quota =>
        exact absurd own (permitted (UInt32.not_lt.mp quota) _ waits rfl)
    | move thread step stage member plain outside bare => contradiction
  serves := by
    rintro tid kcp rfl it own
    exact took.serves it own

variable {mAttr : Nat → KcpAttr} {mBindTid : Nat → UInt32} {mThreadIds : List UInt32}
  {mThreadCount : UInt32} {events : List ManagerEvent}

theorem within_start : (start mAttr mBindTid mThreadIds mThreadCount).Within where
  holding := nofun
  share := fun _ => UInt32.zero_le
  room := nofun

/-- The load is shared in every run in which the quota is kept. -/
theorem load_shared
    (run : Run step keepsShare (start mAttr mBindTid mThreadIds mThreadCount) events manager) :
    (∀ tid, manager.localEventCount tid ≤ manager.maxEvents) ∧
      ∀ event after, manager.keepsShare event → manager.step event = some after →
        Shared manager event after := by
  have within : manager.Within := run.invariant Within within_start
    fun within permitted stepped => within.step permitted (step_took stepped)
  exact ⟨within.share, fun _ _ permitted stepped => within.shared permitted (step_took stepped)⟩

/-- Six Kcps for a scheduler of 255 threads, each of which should take at most
five. -/
def sixWaiting : List ManagerEvent :=
  (List.range 6).map (fun kcp => ManagerEvent.addKcp 0 (some kcp)) ++
    [ManagerEvent.thread 1 .lockQueue]

def manyThreads : KcpManager :=
  start (fun kcp => { fd := Int32.ofNat (kcp + 2) }) (fun _ => 0)
    ((List.range 255).map fun i => UInt32.ofNat (i + 1)) 255

/-- The first thread takes five of them. -/
theorem load_shared_at_quota :
    ∃ last, Run step keepsShare manyThreads
        (sixWaiting ++ (List.replicate 5 (notinitBranch 1 0 true)).flatten) last ∧
      last.localEventCount 1 = last.maxEvents ∧
      ∀ tid, last.localEventCount tid ≤ last.maxEvents := by
  refine Run.exists_shown (fun last => last.localEventCount 1 = last.maxEvents)
    (by decide +kernel) fun last run full => ?_
  exact ⟨full, (load_shared run).1⟩

/-- The quota is tested before the loop over the queue only, so the thread goes
on and takes the sixth as well. -/
theorem quota_exceeded :
    ∃ last, Run step anyStep manyThreads
        (sixWaiting ++ (List.replicate 6 (notinitBranch 1 0 true)).flatten) last ∧
      ¬ last.localEventCount 1 ≤ last.maxEvents := by
  exact Run.exists_shown (fun last => ¬ last.localEventCount 1 ≤ last.maxEvents)
    (by decide +kernel) fun last run exceeded => exceeded

end KcpManager

end FiberKcp.Manager
