import FiberKcp.Manager.Places

namespace FiberKcp.Manager

open Data Timer

namespace KcpManager

variable {manager after : KcpManager} {event : ManagerEvent} {index : Nat} {ctx : Context}
  {tid : UInt32} {kcp : Nat}

/-! What belongs to a registered Kcp: its slot, its timer and its descriptor in
epoll. -/

theorem fillContexts_some {contexts : List (Option Context)} {i : Nat}
    (found : contexts[index]?.join = some ctx) :
    (fillContexts i contexts)[index]?.join = some ctx := by
  induction contexts generalizing i index with
  | nil => exact found
  | cons head rest ih =>
      cases head with
      | some old =>
          cases index with
          | zero => exact found
          | succ index => exact ih found
      | none =>
          cases index with
          | zero => contradiction
          | succ index => exact ih found

/-- The table grows when the descriptor is beyond it, and keeps every context. -/
theorem context?_growContexts {size : Nat} (found : manager.context? index = some ctx) :
    (manager.growContexts size).context? index = some ctx := by
  have inside := context?_lt found
  simp only [context?, growContexts]
  split
  · rename_i beyond
    simp only [contextResize]
    split
    · exact found
    · apply fillContexts_some
      rw [List.take_of_length_le (by omega), List.getElem?_append_left inside]
      exact found
  · exact found

/-- A context stays where it is; its `timerId` changes only with the timer of
the Kcp that is installed in it. -/
theorem Took.context (took : Took manager event after)
    (found : manager.context? index = some ctx) :
    ∃ later, after.context? index = some later ∧
      (later.timerId = ctx.timerId ∨ ∃ thread now kcp, event = .thread thread (.addTimer now) ∧
        manager.installing thread = some kcp ∧ index = manager.slot kcp) := by
  have kept : ∀ (place : Nat) (old new : Context), manager.context? place = some old →
      new.timerId = old.timerId →
      ∃ later, (manager.setContext place new).context? index = some later ∧
        later.timerId = ctx.timerId := by
    intro place old new there same
    by_cases here : index = place
    · subst here
      cases there.symm.trans found
      exact ⟨new, context?_setContext_self there, same⟩
    · exact ⟨ctx, (context?_setContext_other here).trans found, rfl⟩
  cases took with
  | openSlot thread cursor kcp member here entry room old there =>
      have grown : ((manager.create kcp thread).growContexts (manager.slot kcp)).context? index =
          some ctx := by
        have created : (manager.create kcp thread).context? index = some ctx := found
        exact context?_growContexts created
      by_cases same : index = manager.slot kcp
      · subst same
        cases there.symm.trans (context?_growContexts found)
        exact ⟨_, context?_setContext_self there, .inl rfl⟩
      · exact ⟨ctx, (context?_setContext_other same).trans grown, .inl rfl⟩
  | remove thread cursor kcp member here entry own old there =>
      obtain ⟨later, laterFound, same⟩ := kept _ old (old.resetContext .read) there rfl
      exact ⟨later, laterFound, .inl same⟩
  | bind thread cursor it member here entry old there =>
      obtain ⟨later, laterFound, same⟩ := kept _ old
        { old with read := { cb := some (.plain (.inputRoutine it.1)) } } there rfl
      exact ⟨later, laterFound, .inl same⟩
  | time thread now cursor it member here entry old there =>
      by_cases same : index = manager.slot it.1
      · subst same
        exact ⟨{ old with timerId := manager.timers.gUniqueIdCount + 1 },
          context?_setContext_self there,
          .inr ⟨thread, now, it.1, rfl, installing_of_stage (by rw [here]; rfl) entry, rfl⟩⟩
      · exact ⟨ctx, (context?_setContext_other same).trans found, .inl rfl⟩
  | giveUp thread accepted cursor timerId it member here entry failure old there =>
      obtain ⟨later, laterFound, same⟩ := kept _ old (old.resetContext .read) there rfl
      exact ⟨later, laterFound, .inl same⟩
  | _ => exact ⟨ctx, found, .inl rfl⟩

/-- No step sets a handler for `WRITE`. -/
def ReadOnly (manager : KcpManager) : Prop :=
  ∀ index ctx, manager.context? index = some ctx → ctx.write.cb = none

theorem ReadOnly.setContext (readOnly : manager.ReadOnly) {old : Context}
    (found : manager.context? index = some old) (unwritten : ctx.write.cb = none) :
    (manager.setContext index ctx).ReadOnly := by
  intro place later there
  by_cases same : place = index
  · subst same
    cases (context?_setContext_self found).symm.trans there
    exact unwritten
  · rw [context?_setContext_other same] at there
    exact readOnly place later there

theorem ReadOnly.growContexts (readOnly : manager.ReadOnly) (size : Nat) :
    (manager.growContexts size).ReadOnly := by
  intro place later there
  simp only [context?, KcpManager.growContexts] at there
  split at there
  · rcases contextResize_join there with kept | fresh
    · exact readOnly place later kept
    · have both := List.append_eq_nil_iff.mp fresh
      cases written : later.write.cb with
      | none => rfl
      | some cb =>
          rw [written] at both
          cases both.2
  · exact readOnly place later there

theorem Took.readOnly (took : Took manager event after) (readOnly : manager.ReadOnly) :
    after.ReadOnly := by
  cases took with
  | openSlot thread cursor kcp member here entry room old there =>
      have grown := readOnly.growContexts (manager.slot kcp)
      exact grown.setContext there (grown _ old there)
  | remove thread cursor kcp member here entry own old there =>
      exact readOnly.setContext there (readOnly _ old there)
  | bind thread cursor it member here entry old there =>
      exact readOnly.setContext there (readOnly _ old there)
  | time thread now cursor it member here entry old there =>
      exact readOnly.setContext there (readOnly _ old there)
  | giveUp thread accepted cursor timerId it member here entry failure old there =>
      exact readOnly.setContext there (readOnly _ old there)
  | _ => exact readOnly

/-- A slot that was reset holds nothing. -/
theorem ReadOnly.not_holds_reset (readOnly : manager.ReadOnly) {cb : Callback} {th : UInt32}
    (found : manager.context? index = some ctx) :
    ¬ (manager.setContext index (ctx.resetContext .read)).Holds (.slot index) cb th := by
  rintro ⟨later, there, member, _⟩
  cases (context?_setContext_self found).symm.trans there
  have unwritten := readOnly _ ctx found
  simp [Context.handlers, Context.resetContext, unwritten] at member

/-- A descriptor in epoll is that of a registered Kcp. -/
def Owned (manager : KcpManager) : Prop :=
  ∀ fd ∈ manager.epoll, ∃ kcp ∈ manager.registered, manager.fd kcp = fd

theorem Took.fd (took : Took manager event after) (kcp : Nat) : after.fd kcp = manager.fd kcp := by
  rw [KcpManager.fd, took.mAttr]
  rfl

theorem Took.owned (took : Took manager event after) (owned : manager.Owned) : after.Owned := by
  cases took with
  | close fd =>
      intro other member
      exact owned other (List.mem_filter.mp member).1
  | remove thread cursor kcp member here entry own old there =>
      intro other member
      obtain ⟨inEpoll, different⟩ := List.mem_filter.mp member
      obtain ⟨owner, registered, same⟩ := owned other inEpoll
      refine ⟨owner, List.mem_filter.mpr ⟨registered, ?_⟩, same⟩
      have apart : owner ≠ kcp := by
        intro equal
        rw [decide_eq_true_eq, ← same, equal] at different
        exact different rfl
      simpa using apart
  | enroll thread accepted cursor timerId it member here entry success =>
      intro other member
      rcases List.mem_cons.mp member with rfl | before
      · exact ⟨it.1, List.mem_insert_self, rfl⟩
      · obtain ⟨owner, registered, same⟩ := owned other before
        exact ⟨owner, List.mem_insert_of_mem registered, same⟩
  | _ => exact owned

/-- The Kcp is registered, or a thread has reached such a stage of its
`NOTINIT` branch. -/
def Working (manager : KcpManager) (reached : Stage → Bool) (kcp : Nat) : Prop :=
  kcp ∈ manager.registered ∨
    ∃ tid, reached (manager.stage tid) = true ∧ manager.installing tid = some kcp

/-- The two ways this ends. -/
inductive Ends (manager : KcpManager) (kcp : Nat) : ManagerEvent → KcpManager → Prop where
  | removed (thread : UInt32) (cursor : Nat) (registered : kcp ∈ manager.registered)
      (here : manager.stage thread = .passing cursor)
      (entry : manager.mWaitingQueue[cursor]? = some (kcp, .remove))
      (own : manager.mBindTid kcp = thread) (ctx : Context)
      (found : manager.context? (manager.slot kcp) = some ctx) :
      Ends manager kcp (.thread thread .visit) ((manager.unregister kcp thread ctx).eraseEntry cursor)
  | gaveUp (thread : UInt32) (accepted : Bool) (cursor timerId : Nat)
      (here : manager.stage thread = .timed cursor timerId)
      (installing : manager.installing thread = some kcp) (ctx : Context)
      (found : manager.context? (manager.slot kcp) = some ctx) :
      Ends manager kcp (.thread thread (.epollCtlAdd accepted))
        ((({ manager with
          timers := manager.timers.setTimer timerId (manager.timers.timer timerId).cancel
          }.setContext (manager.slot kcp) (ctx.resetContext .read)).eraseEntry cursor).setStage
            thread (.passing cursor))

theorem installing_eq {it : Nat × KcpState} {cursor : Nat}
    (here : (manager.stage tid).installs = some cursor)
    (entry : manager.mWaitingQueue[cursor]? = some it)
    (installing : manager.installing tid = some kcp) : it.1 = kcp := by
  have same : manager.installing tid = some it.1 := installing_of_stage here entry
  exact Option.some.inj (same.symm.trans installing)

theorem Took.working_cases (took : Took manager event after) (holding : manager.Holding)
    {reached : Stage → Bool}
    (onward : ∀ cursor, reached (.opened cursor) = true → reached (.bound cursor) = true)
    (further : ∀ cursor timerId, reached (.bound cursor) = true →
      reached (.timed cursor timerId) = true)
    (working : manager.Working reached kcp) :
    after.Working reached kcp ∨ Ends manager kcp event after := by
  rcases working with registered | ⟨tid, stage, installing⟩
  · cases took with
    | remove thread cursor removed member here entry own ctx found =>
        by_cases same : kcp = removed
        · subst same
          exact .inr (.removed thread cursor registered here entry own ctx found)
        · exact .inl (.inl (List.mem_filter.mpr ⟨registered, by simpa using same⟩))
    | enroll thread accepted cursor timerId it member here entry success =>
        exact .inl (.inl (List.mem_insert_of_mem registered))
    | _ => exact .inl (.inl registered)
  · obtain ⟨cursor, at_, found⟩ := Option.bind_eq_some_iff.mp installing
    by_cases acting : event.thread? = some tid
    · cases took with
      | stay event call unmarked => exact .inl (.inr ⟨tid, stage, installing⟩)
      | insert mEventCount added free => cases acting
      | mark marked free => cases acting
      | close fd => cases acting
      | bind thread place it member here entry ctx slot =>
          cases acting
          rw [here] at stage at_
          cases at_
          refine .inl (.inr ⟨tid, ?_, ?_⟩)
          · rw [setStage_self]
            exact onward cursor stage
          · exact Option.bind_eq_some_iff.mpr ⟨cursor, congrArg Stage.installs setStage_self, found⟩
      | time thread now place it member here entry ctx slot =>
          cases acting
          rw [here] at stage at_
          cases at_
          refine .inl (.inr ⟨tid, ?_, ?_⟩)
          · rw [setStage_self]
            exact further cursor _ stage
          · exact Option.bind_eq_some_iff.mpr ⟨cursor, congrArg Stage.installs setStage_self, found⟩
      | enroll thread accepted place timerId it member here entry success =>
          cases acting
          have same := installing_eq (by rw [here]; rfl) entry installing
          exact .inl (.inl (same ▸ List.mem_insert_self))
      | giveUp thread accepted place timerId it member here entry failure ctx slot =>
          cases acting
          have same := installing_eq (by rw [here]; rfl) entry installing
          subst same
          exact .inr (.gaveUp tid accepted place timerId here installing ctx slot)
      | move thread step next member plain outside bare =>
          cases acting
          exact nomatch outside.symm.trans (Stage.inPass_of_installs at_)
      | _ =>
          cases acting
          rw [‹manager.stage tid = _›] at at_
          cases at_
    · refine .inl (.inr ⟨tid, ?_, ?_⟩)
      · rw [took.stage_other acting]
        exact stage
      · have same := took.samePass holding (Stage.inPass_of_installs at_) acting
        refine Option.bind_eq_some_iff.mpr ⟨cursor, ?_, ?_⟩
        · rw [took.stage_other acting]
          exact at_
        · rw [same.mWaitingQueue]
          exact found

def Served (manager : KcpManager) (kcp : Nat) : Prop := manager.Working (fun _ => true) kcp

def timed : Stage → Bool
  | .timed _ _ => true
  | _ => false

def Timed (manager : KcpManager) (kcp : Nat) : Prop := manager.Working timed kcp

theorem Timed.served (isTimed : manager.Timed kcp) : manager.Served kcp :=
  isTimed.imp_right fun ⟨tid, _, installing⟩ => ⟨tid, rfl, installing⟩

/-- A `NOTINIT` branch begins only in a slot that no registered Kcp has. -/
def freshSlot (manager : KcpManager) : ManagerEvent → Prop
  | .thread tid .visit => ∀ opened ∈ manager.opens tid, ∀ other ∈ manager.registered,
      manager.slot other ≠ manager.slot opened
  | _ => True

instance (manager : KcpManager) (event : ManagerEvent) : Decidable (manager.freshSlot event) :=
  match event with
  | .thread tid .visit => inferInstanceAs (Decidable (∀ opened ∈ manager.opens tid,
      ∀ other ∈ manager.registered, manager.slot other ≠ manager.slot opened))
  | .addKcp _ _ | .delKcp _ | .close _
  | .thread _ .lockQueue | .thread _ .bindCallback | .thread _ (.addTimer _)
  | .thread _ (.epollCtlAdd _) | .thread _ (.getNearTimeout _) | .thread _ (.epollWait _)
  | .thread _ .interrupted | .thread _ .retry | .thread _ (.listExpiredTimer _)
  | .thread _ .schedule | .thread _ .dispatch | .thread _ .yield | .thread _ .begin
  | .thread _ .finish => inferInstanceAs (Decidable True)

/-- What is kept of a Kcp while nobody takes its slot: the callback is in its
own slot, the only timer of it is the one that the slot names, and both are
there from the `NOTINIT` branch to the `REMOVE` branch only. -/
structure Placed (manager : KcpManager) : Prop where
  holding : manager.Holding
  installs : manager.Installs
  issued : manager.timers.Issued
  readOnly : manager.ReadOnly
  binds : ∀ tid kcp, manager.installing tid = some kcp →
    manager.mBindTid kcp = tid ∧ tid ∈ manager.mThreadIds
  threads : ∀ kcp ∈ manager.registered, manager.mBindTid kcp ∈ manager.mThreadIds
  apart : ∀ tid kcp, manager.installing tid = some kcp → ∀ other ∈ manager.registered,
    manager.slot other ≠ manager.slot kcp
  named : ∀ tid cursor timerId kcp, manager.stage tid = .timed cursor timerId →
    manager.installing tid = some kcp →
    ∃ ctx, manager.context? (manager.slot kcp) = some ctx ∧ ctx.timerId = timerId
  slots : ∀ index cb th, manager.Holds (.slot index) cb th →
    ∃ kcp, kcpOf cb = some kcp ∧ index = manager.slot kcp ∧ manager.Served kcp
  timers : ∀ id cb th, manager.Holds (.timer id) cb th →
    ∃ kcp, kcpOf cb = some kcp ∧ manager.Timed kcp ∧
      ∃ ctx, manager.context? (manager.slot kcp) = some ctx ∧ ctx.timerId = id

theorem Placed.binds_step (placed : manager.Placed) (took : Took manager event after)
    (installing : after.installing tid = some kcp) :
    after.mBindTid kcp = tid ∧ tid ∈ after.mThreadIds := by
  obtain ⟨cursor, working, found⟩ := Option.bind_eq_some_iff.mp installing
  rcases took.installs_cases placed.holding working with
    ⟨before, same⟩ | ⟨opened, ctx, here, entry, room, _, rfl, rfl⟩
  · rw [same.mWaitingQueue] at found
    rw [same.mBindTid, took.mThreadIds]
    exact placed.binds tid kcp (Option.bind_eq_some_iff.mpr ⟨cursor, before, found⟩)
  · have same := (congrArg (Option.map Prod.fst) entry).symm.trans found
    cases same
    exact ⟨Function.update_self _ _ _, took.acts⟩

theorem Placed.threads_step (placed : manager.Placed) (took : Took manager event after)
    (permitted : manager.freshSlot event) :
    ∀ kcp ∈ after.registered, after.mBindTid kcp ∈ after.mThreadIds := by
  intro kcp registered
  cases took with
  | openSlot thread cursor opened member here entry room ctx found =>
      have fresh := permitted opened (opens_eq_some.mpr ⟨cursor, here, entry, room⟩) kcp registered
      have different : kcp ≠ opened := fun same => fresh (congrArg manager.slot same)
      have bound : Function.update manager.mBindTid opened thread kcp ∈ manager.mThreadIds := by
        rw [Function.update_of_ne different]
        exact placed.threads kcp registered
      exact bound
  | remove thread cursor removed member here entry own ctx found =>
      exact placed.threads kcp (List.mem_filter.mp registered).1
  | enroll thread accepted cursor timerId it member here entry success =>
      rcases List.mem_insert_iff.mp registered with rfl | before
      · obtain ⟨bound, thread⟩ :=
          placed.binds thread it.1 (installing_of_stage (by rw [here]; rfl) entry)
        exact bound ▸ thread
      · exact placed.threads kcp before
  | _ => exact placed.threads kcp registered

theorem Placed.apart_step (placed : manager.Placed) (took : Took manager event after)
    (permitted : manager.freshSlot event) (installing : after.installing tid = some kcp) :
    ∀ other ∈ after.registered, after.slot other ≠ after.slot kcp := by
  intro other registered
  rw [took.slot, took.slot]
  obtain ⟨cursor, working, found⟩ := Option.bind_eq_some_iff.mp installing
  rcases took.installs_cases placed.holding working with
    ⟨before, same⟩ | ⟨opened, ctx, here, entry, room, _, rfl, rfl⟩
  · rw [same.mWaitingQueue] at found
    exact placed.apart tid kcp (Option.bind_eq_some_iff.mpr ⟨cursor, before, found⟩) other
      (same.registered ▸ registered)
  · have same := (congrArg (Option.map Prod.fst) entry).symm.trans found
    cases same
    exact permitted opened (opens_eq_some.mpr ⟨cursor, here, entry, room⟩) other registered

theorem Placed.named_step (placed : manager.Placed) (took : Took manager event after)
    {cursor timerId : Nat} (stage : after.stage tid = .timed cursor timerId)
    (installing : after.installing tid = some kcp) :
    ∃ ctx, after.context? (after.slot kcp) = some ctx ∧ ctx.timerId = timerId := by
  by_cases acting : event.thread? = some tid
  · cases took with
    | stay event call unmarked => exact placed.named tid cursor timerId kcp stage installing
    | insert mEventCount added free => cases acting
    | mark marked free => cases acting
    | close fd => cases acting
    | time thread now place it member here entry ctx found =>
        cases acting
        rw [setStage_self] at stage
        cases stage
        obtain ⟨position, working, pointed⟩ := Option.bind_eq_some_iff.mp installing
        rw [setStage_self] at working
        cases working
        cases (congrArg (Option.map Prod.fst) entry).symm.trans pointed
        exact ⟨_, context?_setContext_self found, rfl⟩
    | remove thread place removed member here entry own ctx found =>
        cases acting
        exact nomatch here.symm.trans stage
    | drop thread place removed member here entry foreign =>
        cases acting
        exact nomatch here.symm.trans stage
    | move thread step next member plain outside bare =>
        cases acting
        rw [setStage_self] at stage
        subst stage
        exact nomatch bare.1
    | _ =>
        cases acting
        rw [setStage_self] at stage
        cases stage
  · rw [took.stage_other acting] at stage
    have same := took.samePass placed.holding (by rw [stage]; rfl) acting
    have before : manager.installing tid = some kcp := by
      rw [← installing, KcpManager.installing, KcpManager.installing, took.stage_other acting,
        same.mWaitingQueue]
    obtain ⟨ctx, found, named⟩ := placed.named tid cursor timerId kcp stage before
    refine ⟨ctx, ?_, named⟩
    rw [took.slot, context?, same.mContextVec]
    exact found

theorem Placed.not_installing (placed : manager.Placed) {cursor : Nat} {other : UInt32}
    (here : manager.stage tid = .passing cursor) : manager.installing other ≠ some kcp := by
  intro installing
  obtain ⟨position, working, _⟩ := Option.bind_eq_some_iff.mp installing
  have held := placed.holding other (Stage.inPass_of_installs working)
  rw [placed.holding tid (by rw [here]; rfl)] at held
  cases held
  rw [here] at working
  cases working

theorem Placed.slots_step (placed : manager.Placed) (took : Took manager event after)
    (permitted : manager.freshSlot event) {cb : Callback} {th : UInt32}
    (holds : after.Holds (.slot index) cb th) :
    ∃ kcp, kcpOf cb = some kcp ∧ index = after.slot kcp ∧ after.Served kcp := by
  have onward : ∀ kcp, manager.Served kcp → after.Served kcp ∨ Ends manager kcp event after :=
    fun kcp => took.working_cases placed.holding (fun _ => id) (fun _ _ => id)
  cases took.origin placed.issued holds with
  | kept before =>
      obtain ⟨kcp, routine, same, served⟩ := placed.slots index cb th before
      rcases onward kcp served with served | ends
      · exact ⟨kcp, routine, by rw [took.slot]; exact same, served⟩
      · subst same
        cases ends with
        | removed thread cursor registered here entry own ctx found =>
            exact absurd holds (placed.readOnly.not_holds_reset found)
        | gaveUp thread accepted cursor timerId here installing ctx found =>
            exact absurd holds (placed.readOnly.not_holds_reset found)
  | retagged opened opens before slot =>
      obtain ⟨kcp, routine, same, served⟩ := placed.slots _ cb before slot
      obtain ⟨cursor, here, _⟩ := opens_eq_some.mp opens
      rcases served with registered | ⟨other, _, installing⟩
      · exact absurd same.symm (permitted opened opens kcp registered)
      · exact absurd installing (placed.not_installing here)
  | bound kcp installing ctx found =>
      rcases onward kcp (.inr ⟨_, rfl, installing⟩) with served | ends
      · exact ⟨kcp, rfl, (took.slot kcp).symm, served⟩
      · cases ends

theorem Took.stage_addTimer {now : UInt64} (took : Took manager (.thread tid (.addTimer now)) after) :
    ∃ cursor, manager.stage tid = .bound cursor := by
  cases took with
  | stay event call unmarked => contradiction
  | time thread now cursor it member here entry ctx found => exact ⟨cursor, here⟩
  | move thread step next member plain outside bare => contradiction

/-- The slot of a Kcp that has its timer goes on naming it. -/
theorem Placed.timerId_kept (placed : manager.Placed) (took : Took manager event after)
    (isTimed : manager.Timed kcp) (found : manager.context? (manager.slot kcp) = some ctx) :
    ∃ later, after.context? (after.slot kcp) = some later ∧ later.timerId = ctx.timerId := by
  rw [took.slot]
  obtain ⟨later, laterFound, same | ⟨thread, now, installed, rfl, installing, same⟩⟩ :=
    took.context found
  · exact ⟨later, laterFound, same⟩
  · rcases isTimed with registered | ⟨other, stage, alsoInstalling⟩
    · exact absurd same (placed.apart thread installed installing kcp registered)
    · have unique := placed.holding.installing_unique alsoInstalling installing
      subst unique
      obtain ⟨cursor, here⟩ := took.stage_addTimer
      rw [here] at stage
      cases stage

theorem Placed.timers_step (placed : manager.Placed) (took : Took manager event after)
    {timerId : Nat} {cb : Callback} {th : UInt32} (holds : after.Holds (.timer timerId) cb th) :
    ∃ kcp, kcpOf cb = some kcp ∧ after.Timed kcp ∧
      ∃ ctx, after.context? (after.slot kcp) = some ctx ∧ ctx.timerId = timerId := by
  cases took.origin placed.issued holds with
  | kept before =>
      obtain ⟨kcp, routine, isTimed, ctx, found, named⟩ := placed.timers timerId cb th before
      have onward : after.Timed kcp ∨ Ends manager kcp event after :=
        took.working_cases placed.holding nofun nofun isTimed
      obtain ⟨later, laterFound, same⟩ := placed.timerId_kept took isTimed found
      rcases onward with still | ends
      · exact ⟨kcp, routine, still, later, laterFound, same.trans named⟩
      · cases ends with
        | removed thread cursor registered here entry own slot there =>
            cases found.symm.trans there
            exact absurd named.symm (placed.issued.mem_delTimer.mp holds.1).2
        | gaveUp thread accepted cursor stored here installing slot there =>
            obtain ⟨other, otherFound, otherNamed⟩ :=
              placed.named thread cursor stored kcp here installing
            cases found.symm.trans there
            cases found.symm.trans otherFound
            have given : ({ manager with
                timers := manager.timers.setTimer stored (manager.timers.timer stored).cancel
                }.setContext (manager.slot kcp) (ctx.resetContext .read)).Holds
                  (.timer timerId) cb th := holds
            exact absurd (congrArg Place.timer (named.symm.trans otherNamed))
              (holds_giveUp there given).2
  | timed kcp installing =>
      cases took with
      | stay event call unmarked => contradiction
      | move thread step next member plain outside bare => contradiction
      | time thread now cursor it member here entry ctx found =>
          have same := installing_eq (by rw [here]; rfl) entry installing
          subst same
          refine ⟨it.1, rfl, .inr ⟨th, ?_, ?_⟩, _, context?_setContext_self found, rfl⟩
          · rw [setStage_self]
            rfl
          · exact installing_of_stage (congrArg Stage.installs setStage_self) entry

theorem Placed.step (placed : manager.Placed) (permitted : manager.freshSlot event)
    (took : Took manager event after) : after.Placed where
  holding := took.holding placed.holding
  installs := took.installs placed.holding placed.installs
  issued := took.issued placed.issued
  readOnly := took.readOnly placed.readOnly
  binds := fun _ _ => placed.binds_step took
  threads := placed.threads_step took permitted
  apart := fun _ _ => placed.apart_step took permitted
  named := fun _ _ _ _ => placed.named_step took
  slots := fun _ _ _ => placed.slots_step took permitted
  timers := fun _ _ _ => placed.timers_step took

theorem placed_start {mAttr : Nat → KcpAttr} {mBindTid : Nat → UInt32} {mThreadIds : List UInt32}
    {mThreadCount : UInt32} : (start mAttr mBindTid mThreadIds mThreadCount).Placed where
  holding := nofun
  installs := nofun
  issued := KTimerManager.issued_initial
  readOnly := fun _ _ found => nomatch found
  binds := nofun
  threads := nofun
  apart := nofun
  named := nofun
  slots := fun _ _ _ holds => absurd holds not_holds_start
  timers := fun _ _ _ holds => absurd holds not_holds_start

end KcpManager

end FiberKcp.Manager
