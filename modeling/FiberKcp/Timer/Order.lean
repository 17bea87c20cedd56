import FiberKcp.Data.Run
import FiberKcp.Timer.Manager

namespace FiberKcp.Timer

open FiberKcp.Data

namespace KTimerManager

variable {Action : Type} {manager : KTimerManager Action} {id other : Nat}

structure Identified (manager : KTimerManager Action) : Prop where
  unique : ∀ id, (manager.timer id).mUniqueId = id
  counted : ∀ id ∈ manager.mTimers, id ≤ manager.gUniqueIdCount

def Increasing (manager : KTimerManager Action) : Prop :=
  manager.mTimers.Pairwise manager.before

structure Sorted (manager : KTimerManager Action) : Prop extends Identified manager where
  increasing : manager.Increasing

theorem before_irrefl : ¬ manager.before id id := fun self =>
  KTimer.comparator_asymm self self

theorem before_asymm (first : manager.before id other) : ¬ manager.before other id :=
  KTimer.comparator_asymm first

theorem before_total (identified : manager.Identified) (different : id ≠ other) :
    manager.before id other ∨ manager.before other id := by
  apply KTimer.comparator_total
  rw [identified.unique, identified.unique]
  exact different

theorem Increasing.nodup (increasing : manager.Increasing) : manager.mTimers.Nodup := by
  refine List.Pairwise.imp ?_ increasing
  intro left right first same
  exact before_irrefl (same ▸ first)

/-- The comparator reads the two objects only. -/
theorem before_setTimer_other (timer : KTimer Action) {left right : Nat}
    (leftOther : left ≠ id) (rightOther : right ≠ id) :
    (manager.setTimer id timer).before left right ↔ manager.before left right := by
  simp only [before, setTimer_timer_other _ _ leftOther, setTimer_timer_other _ _ rightOther]

theorem increasing_setTimer_of_absent (timer : KTimer Action) (absent : id ∉ manager.mTimers)
    (increasing : manager.Increasing) : (manager.setTimer id timer).Increasing := by
  refine List.Pairwise.imp_of_mem ?_ increasing
  intro left right leftMember rightMember first
  have leftOther : left ≠ id := fun same => absent (same ▸ leftMember)
  have rightOther : right ≠ id := fun same => absent (same ▸ rightMember)
  exact (before_setTimer_other timer leftOther rightOther).mpr first

theorem Identified.setTimer (identified : manager.Identified) {timer : KTimer Action}
    (same : timer.mUniqueId = id) : (manager.setTimer id timer).Identified where
  unique := by
    intro candidate
    by_cases here : candidate = id
    · subst here
      rw [setTimer_timer_self, same]
    · rw [setTimer_timer_other _ _ here]
      exact identified.unique candidate
  counted := identified.counted

theorem Sorted.insertTimer (sorted : manager.Sorted) (counted : id ≤ manager.gUniqueIdCount) :
    (manager.insertTimer id).1.Sorted where
  unique := sorted.unique
  counted := by
    intro candidate member
    rcases eq_or_mem_of_mem_setInsert member with same | member
    · exact same ▸ counted
    · exact sorted.counted candidate member
  increasing := setInsert_pairwise sorted.increasing

theorem mem_insertTimer (identified : manager.Identified) {candidate : Nat} :
    candidate ∈ (manager.insertTimer id).1.mTimers ↔ candidate = id ∨ candidate ∈ manager.mTimers := by
  constructor
  · exact eq_or_mem_of_mem_setInsert
  · intro either
    by_cases present : id ∈ manager.mTimers
    · rcases either with same | member
      · exact mem_setInsert_of_mem (same ▸ present)
      · exact mem_setInsert_of_mem member
    · rcases either with same | member
      · subst same
        refine mem_setInsert_self fun other member => before_total identified ?_
        exact fun equal => present (equal ▸ member)
      · exact mem_setInsert_of_mem member

theorem Sorted.construct (sorted : manager.Sorted) (now ms : UInt64)
    (cb : Option (CallBack Action)) (recycle tid : UInt32) :
    (manager.construct now ms cb recycle tid).Sorted where
  unique := by
    have fresh : (KTimer.construct now ms cb recycle tid (manager.gUniqueIdCount + 1)).mUniqueId =
        manager.gUniqueIdCount + 1 := rfl
    exact (sorted.toIdentified.setTimer fresh).unique
  counted := fun candidate member => Nat.le_succ_of_le (sorted.counted candidate member)
  increasing := by
    have absent : manager.gUniqueIdCount + 1 ∉ manager.mTimers := fun member => by
      have := sorted.counted _ member
      omega
    exact increasing_setTimer_of_absent _ absent sorted.increasing

theorem Sorted.addTimer (sorted : manager.Sorted) (now ms : UInt64)
    (cb : Option (CallBack Action)) (recycle tid : UInt32) :
    (manager.addTimer now ms cb recycle tid).1.Sorted :=
  (sorted.construct now ms cb recycle tid).insertTimer (Nat.le_refl _)

theorem Sorted.delTimer (sorted : manager.Sorted) (timerId : Nat) :
    (manager.delTimer timerId).Sorted where
  unique := sorted.unique
  counted := fun candidate member => sorted.counted candidate (List.mem_of_mem_eraseP member)
  increasing := List.Pairwise.sublist List.eraseP_sublist sorted.increasing

theorem mem_delTimer (sorted : manager.Sorted) {timerId : Nat} :
    id ∈ (manager.delTimer timerId).mTimers ↔ id ∈ manager.mTimers ∧ id ≠ timerId := by
  have erased : (manager.delTimer timerId).mTimers = manager.mTimers.erase timerId := by
    simp only [delTimer, sorted.unique, List.erase_eq_eraseP, Bool.beq_comm]
  rw [erased, sorted.increasing.nodup.mem_erase_iff]
  exact And.comm

def fired (timer : KTimer Action) : KTimer Action :=
  if timer.mCb.isSome then timer.update else timer

def returnedCallback (timer : KTimer Action) : Option (CallBack Action × UInt32) :=
  timer.mCb.map fun cb => (cb, timer.mTid)

def goesBack (timer : KTimer Action) : Prop := timer.mCb.isSome ∧ timer.mRecycleTime ≠ 0

/-- What the loop does to the timers in `todo`, none of which is in the set. -/
structure FiredAll (before after : KTimerManager Action) (todo : List Nat) : Prop
    extends Sorted after where
  count : after.gUniqueIdCount = before.gUniqueIdCount
  untouched : ∀ id, id ∉ todo → after.timer id = before.timer id
  advanced : ∀ id ∈ todo, after.timer id = fired (before.timer id)
  members : ∀ id, id ∈ after.mTimers ↔
    id ∈ before.mTimers ∨ id ∈ todo ∧ goesBack (before.timer id)

theorem fire_callbacks (cbs : List (CallBack Action × UInt32)) :
    (fire (manager, cbs) id).2 = cbs ++ (returnedCallback (manager.timer id)).toList := by
  cases callback : (manager.timer id).mCb <;> simp [fire, returnedCallback, callback]

theorem fire_spec (sorted : manager.Sorted) (counted : id ≤ manager.gUniqueIdCount)
    (absent : id ∉ manager.mTimers) (cbs : List (CallBack Action × UInt32)) :
    FiredAll manager (fire (manager, cbs) id).1 [id] := by
  cases callback : (manager.timer id).mCb with
  | none =>
      have same : (fire (manager, cbs) id).1 = manager := by simp [fire, callback]
      rw [same]
      refine ⟨sorted, rfl, fun _ _ => rfl, ?_, ?_⟩
      · intro candidate member
        rw [List.mem_singleton.mp member]
        simp [fired, callback]
      · intro candidate
        simp only [List.mem_singleton]
        constructor
        · exact .inl
        · intro either
          rcases either with member | ⟨here, back⟩
          · exact member
          · rw [here] at back
            simp [goesBack, callback] at back
  | some cb =>
      by_cases oneShot : (manager.timer id).mRecycleTime = 0
      · have same : (fire (manager, cbs) id).1 = manager := by simp [fire, callback, oneShot]
        rw [same]
        refine ⟨sorted, rfl, fun _ _ => rfl, ?_, ?_⟩
        · intro candidate member
          rw [List.mem_singleton.mp member]
          simp [fired, callback, KTimer.update, oneShot]
        · intro candidate
          simp only [List.mem_singleton]
          constructor
          · exact .inl
          · intro either
            rcases either with member | ⟨here, back⟩
            · exact member
            · rw [here] at back
              simp [goesBack, oneShot] at back
      · have next : (fire (manager, cbs) id).1 = manager.rearm id := by
          simp [fire, callback, oneShot]
        have identified : (manager.setTimer id (manager.timer id).update).Identified :=
          sorted.toIdentified.setTimer (by rw [KTimer.update_mUniqueId, sorted.unique])
        have moved : (manager.setTimer id (manager.timer id).update).Sorted :=
          ⟨identified, increasing_setTimer_of_absent _ absent sorted.increasing⟩
        have inserted := moved.insertTimer counted
        rw [next]
        refine ⟨⟨⟨inserted.unique, inserted.counted⟩, inserted.increasing⟩, rfl, ?_, ?_, ?_⟩
        · intro candidate other
          exact rearm_timer_other _ (by simpa using other)
        · intro candidate member
          rw [List.mem_singleton.mp member, rearm_timer_self]
          simp [fired, callback]
        · intro candidate
          refine (mem_insertTimer identified).trans ?_
          rw [setTimer_mTimers, List.mem_singleton]
          constructor
          · intro either
            rcases either with here | member
            · exact .inr ⟨here, by simp [goesBack, here, callback, oneShot]⟩
            · exact .inl member
          · intro either
            rcases either with member | ⟨here, _⟩
            · exact .inr member
            · exact .inl here

theorem foldl_fire_callbacks (todo : List Nat) (sorted : manager.Sorted) (nodup : todo.Nodup)
    (counted : ∀ id ∈ todo, id ≤ manager.gUniqueIdCount)
    (absent : ∀ id ∈ todo, id ∉ manager.mTimers) (cbs : List (CallBack Action × UInt32)) :
    FiredAll manager (todo.foldl fire (manager, cbs)).1 todo ∧
      (todo.foldl fire (manager, cbs)).2 =
        cbs ++ todo.filterMap fun id => returnedCallback (manager.timer id) := by
  induction todo generalizing manager cbs with
  | nil => exact ⟨⟨sorted, rfl, fun _ _ => rfl, by simp, by simp⟩, by simp⟩
  | cons id rest ih =>
      obtain ⟨fresh, restNodup⟩ := List.nodup_cons.mp nodup
      have first := fire_spec sorted (counted id (by simp)) (absent id (by simp)) cbs
      have callbacks : (fire (manager, cbs) id).2 =
          cbs ++ (returnedCallback (manager.timer id)).toList := fire_callbacks cbs
      have restSame : ∀ other ∈ rest,
          (fire (manager, cbs) id).1.timer other = manager.timer other := by
        intro other member
        apply first.untouched
        intro here
        exact fresh (List.mem_singleton.mp here ▸ member)
      have restAbsent : ∀ other ∈ rest, other ∉ (fire (manager, cbs) id).1.mTimers := by
        intro other member present
        rcases (first.members other).mp present with old | ⟨here, _⟩
        · exact absent other (by simp [member]) old
        · exact fresh (List.mem_singleton.mp here ▸ member)
      obtain ⟨later, laterCallbacks⟩ := ih first.toSorted restNodup
        (fun other member => by rw [first.count]; exact counted other (by simp [member]))
        restAbsent (fire (manager, cbs) id).2
      refine ⟨⟨later.toSorted, later.count.trans first.count, ?_, ?_, ?_⟩, ?_⟩
      · intro other outside
        rw [List.foldl_cons, later.untouched other (by simp_all)]
        exact first.untouched other (by simp_all)
      · intro other member
        rw [List.foldl_cons]
        rcases List.mem_cons.mp member with here | member
        · rw [here, later.untouched id fresh]
          exact first.advanced id (by simp)
        · rw [later.advanced other member, restSame other member]
      · intro other
        rw [List.foldl_cons, later.members, first.members]
        constructor
        · intro either
          rcases either with (old | ⟨here, back⟩) | ⟨member, back⟩
          · exact .inl old
          · exact .inr ⟨by simp [List.mem_singleton.mp here], back⟩
          · rw [restSame other member] at back
            exact .inr ⟨by simp [member], back⟩
        · intro either
          rcases either with old | ⟨member, back⟩
          · exact .inl (.inl old)
          · rcases List.mem_cons.mp member with here | member
            · exact .inl (.inr ⟨by simp [here], back⟩)
            · exact .inr ⟨member, by rw [restSame other member]; exact back⟩
      · rw [List.foldl_cons, laterCallbacks, callbacks, List.filterMap_cons]
        have same : (rest.filterMap fun other =>
              returnedCallback ((fire (manager, cbs) id).1.timer other)) =
            rest.filterMap fun other => returnedCallback (manager.timer other) :=
          List.filterMap_congr fun other member => by rw [restSame other member]
        rw [same]
        cases returnedCallback (manager.timer id) <;> simp

theorem due_of_before {now : UInt64} (first : manager.before id other)
    (later : manager.due now other = true) : manager.due now id = true := by
  have le := KTimer.mTime_le_of_comparator first
  simp only [due, decide_eq_true_eq] at later ⊢
  exact UInt64.le_trans le later

theorem Increasing.due_closed (increasing : manager.Increasing) (now : UInt64) :
    manager.mTimers.Pairwise fun left right =>
      manager.due now right = true → manager.due now left = true :=
  List.Pairwise.imp due_of_before increasing

theorem Increasing.takeWhile_due (increasing : manager.Increasing) (now : UInt64) :
    manager.mTimers.takeWhile (manager.due now) = manager.mTimers.filter (manager.due now) :=
  takeWhile_eq_filter (increasing.due_closed now)

/-- What a `listExpiredTimer` call does to a sorted set: each due timer is
advanced, and stays exactly if it is periodic; the others are left alone. -/
structure Expired (manager : KTimerManager Action) (now : UInt64)
    (after : KTimerManager Action) : Prop extends Sorted after where
  count : after.gUniqueIdCount = manager.gUniqueIdCount
  untouched : ∀ id, ¬ (id ∈ manager.mTimers ∧ manager.due now id = true) →
    after.timer id = manager.timer id
  advanced : ∀ id ∈ manager.mTimers, manager.due now id = true →
    after.timer id = fired (manager.timer id)
  members : ∀ id, id ∈ after.mTimers ↔
    id ∈ manager.mTimers ∧ (manager.due now id = true → goesBack (manager.timer id))

theorem listExpiredTimer_spec (sorted : manager.Sorted) (now : UInt64) :
    Expired manager now (manager.listExpiredTimer now).1 ∧
      (manager.listExpiredTimer now).2 = (manager.mTimers.filter (manager.due now)).filterMap
        fun id => returnedCallback (manager.timer id) := by
  by_cases empty : manager.mTimers = []
  · have same : manager.listExpiredTimer now = (manager, []) := by simp [listExpiredTimer, empty]
    rw [same]
    exact ⟨⟨sorted, rfl, fun _ _ => rfl, by simp [empty], by simp [empty]⟩, by simp [empty]⟩
  · let rest := { manager with mTimers := manager.mTimers.dropWhile (manager.due now) }
    have unfolded : manager.listExpiredTimer now =
        (manager.mTimers.filter (manager.due now)).foldl fire (rest, []) := by
      rw [listExpiredTimer, if_neg (by simpa using empty), sorted.increasing.takeWhile_due]
    have remaining : rest.mTimers = manager.mTimers.filter fun id => !manager.due now id :=
      dropWhile_eq_filter (sorted.increasing.due_closed now)
    have restSorted : rest.Sorted := {
      unique := sorted.unique
      counted := fun id member =>
        sorted.counted id (List.mem_of_mem_filter (remaining ▸ member))
      increasing := by
        have kept : (manager.mTimers.filter fun id => !manager.due now id).Pairwise
            manager.before := List.Pairwise.sublist List.filter_sublist sorted.increasing
        rw [← remaining] at kept
        exact kept }
    obtain ⟨fires, callbacks⟩ := foldl_fire_callbacks (manager.mTimers.filter (manager.due now))
      restSorted (List.Pairwise.filter _ sorted.increasing.nodup)
      (fun id member => sorted.counted id (List.mem_of_mem_filter member))
      (fun id member present => by
        have isDue := (List.mem_filter.mp member).2
        rw [remaining] at present
        simp [isDue] at present) []
    rw [unfolded]
    refine ⟨⟨fires.toSorted, fires.count, ?_, ?_, ?_⟩, by simpa using callbacks⟩
    · intro id quiet
      exact fires.untouched id (by simpa using quiet)
    · intro id member isDue
      exact fires.advanced id (by simp [member, isDue])
    · intro id
      rw [fires.members, remaining]
      simp only [List.mem_filter, Bool.not_eq_true']
      constructor
      · intro either
        rcases either with ⟨member, notDue⟩ | ⟨⟨member, _⟩, back⟩
        · exact ⟨member, by simp [notDue]⟩
        · exact ⟨member, fun _ => back⟩
      · intro ⟨member, back⟩
        cases isDue : manager.due now id with
        | false => exact .inl ⟨member, rfl⟩
        | true => exact .inr ⟨⟨member, rfl⟩, back isDue⟩

/-- The set is in comparator order on the timers' current keys, so `begin()`
has the earliest deadline and the prefix scan finds what a full scan would. -/
structure TimerOrder (manager : KTimerManager Action) : Prop where
  increasing : manager.Increasing
  earliest : ∀ front ∈ manager.mTimers.head?, ∀ id ∈ manager.mTimers,
    (manager.timer front).mTime ≤ (manager.timer id).mTime
  scan : ∀ now, manager.mTimers.takeWhile (manager.due now) =
    manager.mTimers.filter (manager.due now)

theorem Increasing.timerOrder (increasing : manager.Increasing) : manager.TimerOrder where
  increasing := increasing
  earliest := by
    intro front isFront id member
    cases timers : manager.mTimers with
    | nil => simp [timers] at member
    | cons head rest =>
        rw [timers] at isFront member
        have same : head = front := by simpa using isFront
        subst same
        rcases List.mem_cons.mp member with here | later
        · exact here ▸ UInt64.le_refl _
        · have ordered : (head :: rest).Pairwise manager.before := timers ▸ increasing
          exact KTimer.mTime_le_of_comparator ((List.pairwise_cons.mp ordered).1 id later)
  scan := increasing.takeWhile_due

/-- The deadline an operation writes into a timer object directly, without
taking the pointer out of the set and putting it back. -/
def writesDeadline (manager : KTimerManager Action) :
    TimerOperation Action → Option (Nat × UInt64)
  | .cancel id => some (id, 0)
  | .setNextTime id timeMs => some (id, timeMs)
  | .reset id now ms cb _ _ =>
      if ms < (manager.timer id).mTime ∨ cb.isNone then none else some (id, now + ms)
  | _ => none

/-- A deadline written into a timer that is in the set leaves it on the side,
under the comparator, of every other timer in the set where it was. -/
def KeepsPlace (manager : KTimerManager Action) (operation : TimerOperation Action) : Prop :=
  ∀ write ∈ manager.writesDeadline operation, write.1 ∈ manager.mTimers →
    ∀ other ∈ manager.mTimers, other ≠ write.1 →
      (manager.before other write.1 ↔
        (manager.setTimer write.1 ((manager.timer write.1).setNextTime write.2)).before
          other write.1)

theorem before_setTimer_congr {first second : KTimer Action}
    (time : first.mTime = second.mTime) (unique : first.mUniqueId = second.mUniqueId)
    (left right : Nat) :
    (manager.setTimer id first).before left right ↔
      (manager.setTimer id second).before left right := by
  have key : ∀ candidate,
      ((manager.setTimer id first).timer candidate).mTime =
          ((manager.setTimer id second).timer candidate).mTime ∧
        ((manager.setTimer id first).timer candidate).mUniqueId =
          ((manager.setTimer id second).timer candidate).mUniqueId := by
    intro candidate
    by_cases here : candidate = id
    · subst here
      simp [time, unique]
    · simp [setTimer_timer_other _ _ here]
  simp only [before, KTimer.comparator_some, key]

theorem setTimer_self : manager.setTimer id (manager.timer id) = manager := by
  simp [setTimer]

/-- A write that keeps deadline and id keeps the order. -/
theorem increasing_setTimer_of_same_key {timer : KTimer Action}
    (time : timer.mTime = (manager.timer id).mTime)
    (unique : timer.mUniqueId = (manager.timer id).mUniqueId) :
    (manager.setTimer id timer).Increasing ↔ manager.Increasing := by
  have same : ∀ left right, (manager.setTimer id timer).before left right ↔
      manager.before left right := by
    intro left right
    rw [before_setTimer_congr time unique, setTimer_self]
  exact List.Pairwise.iff (fun {left right} => same left right)

/-- In a sorted set, writing a deadline through a handle keeps the order
exactly if the timer does not change sides with another timer of the set. -/
theorem increasing_setTimer_iff (sorted : manager.Sorted) {timer : KTimer Action}
    (unique : timer.mUniqueId = id) (present : id ∈ manager.mTimers) :
    (manager.setTimer id timer).Increasing ↔
      ∀ other ∈ manager.mTimers, other ≠ id →
        (manager.before other id ↔ (manager.setTimer id timer).before other id) := by
  have identified := sorted.toIdentified.setTimer unique
  constructor
  · intro increasing other member different
    have both : manager.mTimers.Pairwise fun left right =>
        manager.before left right ∧ (manager.setTimer id timer).before left right :=
      List.Pairwise.and sorted.increasing increasing
    rcases pairwise_sides both member present different with ⟨old, new⟩ | ⟨old, new⟩
    · exact ⟨fun _ => new, fun _ => old⟩
    · exact ⟨fun first => absurd first (before_asymm old),
        fun first => absurd first (before_asymm new)⟩
  · intro sides
    refine List.Pairwise.imp_of_mem ?_ sorted.increasing
    intro left right leftMember rightMember first
    by_cases leftHere : left = id
    · subst leftHere
      have different : right ≠ left := fun same => before_irrefl (same ▸ first)
      have notBefore := (sides right rightMember different).not.mp (before_asymm first)
      exact (before_total identified different).resolve_left notBefore
    · by_cases rightHere : right = id
      · subst rightHere
        exact (sides left leftMember leftHere).mp first
      · exact (before_setTimer_other timer leftHere rightHere).mpr first

/-- A write through a handle keeps the order exactly under `KeepsPlace`, when
the deadline it leaves in the object is the one `writesDeadline` names. -/
theorem increasing_iff_keepsPlace (sorted : manager.Sorted) {operation : TimerOperation Action}
    {time : UInt64} {timer : KTimer Action}
    (writes : manager.writesDeadline operation = some (id, time)) (written : timer.mTime = time)
    (unique : timer.mUniqueId = (manager.timer id).mUniqueId) :
    manager.KeepsPlace operation ↔ (manager.setTimer id timer).Increasing := by
  have sameKey : ∀ left right,
      (manager.setTimer id ((manager.timer id).setNextTime time)).before left right ↔
        (manager.setTimer id timer).before left right :=
    before_setTimer_congr (by rw [written]; rfl) (by rw [unique]; rfl)
  by_cases present : id ∈ manager.mTimers
  · rw [increasing_setTimer_iff sorted (unique.trans (sorted.unique id)) present]
    simp only [KeepsPlace, writes, Option.mem_def, Option.some.injEq, forall_eq', present,
      forall_const, sameKey]
  · have increasing := increasing_setTimer_of_absent timer present sorted.increasing
    simp only [KeepsPlace, writes, Option.mem_def, Option.some.injEq, forall_eq', present,
      false_implies, increasing]

theorem keepsPlace_of_noWrite {operation : TimerOperation Action}
    (quiet : manager.writesDeadline operation = none) : manager.KeepsPlace operation := by
  simp [KeepsPlace, quiet]

/-- The step lemma: after an operation on a sorted set the objects still carry
their ids, and the order is kept exactly if the deadline the operation writes
through a handle, if any, keeps the timer's place. -/
theorem perform_spec (sorted : manager.Sorted) {operation : TimerOperation Action}
    {after : KTimerManager Action} (performed : manager.perform operation = some after) :
    after.Identified ∧ (manager.KeepsPlace operation ↔ after.Increasing) := by
  have quiet : manager.writesDeadline operation = none → after.Sorted →
      after.Identified ∧ (manager.KeepsPlace operation ↔ after.Increasing) := fun noWrite result =>
    ⟨result.toIdentified, fun _ => result.increasing, fun _ => keepsPlace_of_noWrite noWrite⟩
  have handle : ∀ {id : Nat} {write : KTimer Action → KTimer Action},
      manager.onHandle id write = some after →
      (write (manager.timer id)).mUniqueId = (manager.timer id).mUniqueId →
      (manager.KeepsPlace operation ↔
        (manager.setTimer id (write (manager.timer id))).Increasing) →
      after.Identified ∧ (manager.KeepsPlace operation ↔ after.Increasing) := by
    intro id write applied unique exact
    unfold KTimerManager.onHandle at applied
    split at applied
    · cases applied
      exact ⟨sorted.toIdentified.setTimer (unique.trans (sorted.unique id)), exact⟩
    · contradiction
  have sameKey : ∀ {id : Nat} {timer : KTimer Action},
      manager.writesDeadline operation = none → timer.mTime = (manager.timer id).mTime →
      timer.mUniqueId = (manager.timer id).mUniqueId →
      (manager.KeepsPlace operation ↔ (manager.setTimer id timer).Increasing) := by
    intro id timer noWrite time unique
    have increasing := (increasing_setTimer_of_same_key time unique).mpr sorted.increasing
    exact ⟨fun _ => increasing, fun _ => keepsPlace_of_noWrite noWrite⟩
  cases operation with
  | addTimer now ms cb recycle tid =>
      cases performed
      exact quiet rfl (sorted.addTimer _ _ _ _ _)
  | addConditionTimer now ms cb cond recycle =>
      cases performed
      exact quiet rfl (sorted.addTimer _ _ _ _ _)
  | delTimer timerId =>
      cases performed
      exact quiet rfl (sorted.delTimer timerId)
  | listExpiredTimer now =>
      cases performed
      exact quiet rfl (listExpiredTimer_spec sorted now).1.toSorted
  | getNearTimeout now =>
      cases performed
      exact quiet rfl ⟨⟨sorted.unique, sorted.counted⟩, sorted.increasing⟩
  | cancel id =>
      have applied : manager.onHandle id KTimer.cancel = some after := performed
      exact handle applied rfl (increasing_iff_keepsPlace sorted rfl rfl rfl)
  | setNextTime id timeMs =>
      have applied : manager.onHandle id (·.setNextTime timeMs) = some after := performed
      exact handle applied rfl (increasing_iff_keepsPlace sorted rfl rfl rfl)
  | setRecycleTime id ms =>
      have applied : manager.onHandle id (·.setRecycleTime ms) = some after := performed
      exact handle applied rfl (sameKey rfl rfl rfl)
  | setCallback id cb =>
      have applied : manager.onHandle id (·.setCallback (cb.map .plain)) = some after := performed
      exact handle applied rfl (sameKey rfl rfl rfl)
  | reset id now ms cb recycle tid =>
      have applied : manager.onHandle id (·.reset now ms (cb.map .plain) recycle tid) =
        some after := performed
      apply handle applied (KTimer.reset_mUniqueId ..)
      by_cases ignored : ms < (manager.timer id).mTime ∨ cb.isNone
      · have noWrite : manager.writesDeadline (.reset id now ms cb recycle tid) = none :=
          if_pos ignored
        apply sameKey noWrite
        · rw [KTimer.reset, if_pos (by simpa using ignored)]
        · exact KTimer.reset_mUniqueId ..
      · refine increasing_iff_keepsPlace sorted (if_neg ignored) ?_ (KTimer.reset_mUniqueId ..)
        rw [KTimer.reset, if_neg (by simpa using ignored)]

theorem sorted_initial : (initial : KTimerManager Action).Sorted where
  unique := fun _ => rfl
  counted := by simp [initial]
  increasing := List.Pairwise.nil

/-- Over any sequence of operations, the set is in order in every state reached
exactly if every deadline written through a handle kept its timer's place. -/
theorem timerOrder_iff_keepsPlace (operations : List (TimerOperation Action)) :
    (∀ taken ∈ transitions perform initial operations, taken.1.KeepsPlace taken.2.1) ↔
      ∀ taken ∈ transitions perform initial operations, taken.2.2.TimerOrder := by
  refine transitions_allowed_iff KeepsPlace (fun _ _ after => after.TimerOrder) ?_ ?_
    sorted_initial operations
  · intro manager after operation sorted keeps performed
    obtain ⟨identified, exact⟩ := perform_spec sorted performed
    exact ⟨identified, exact.mp keeps⟩
  · intro manager after operation sorted performed
    rw [(perform_spec sorted performed).2]
    exact ⟨Increasing.timerOrder, TimerOrder.increasing⟩

/-- A `cancel` of the later of two pending timers, as `idle` does when
`epoll_ctl` fails, leaves the earlier deadline behind the later one. -/
theorem cancel_breaks_timerOrder :
    ∃ manager : KTimerManager Nat,
      Run perform anyStep initial
        [.addTimer 0 10 (some 1) 0 0, .addTimer 0 20 (some 2) 0 0, .cancel 2] manager ∧
      ¬ manager.TimerOrder := by
  refine ⟨_, Run.of_execute rfl, ?_⟩
  intro order
  have outOfOrder : ¬ KTimerManager.before
      (((((initial : KTimerManager Nat).addTimer 0 10 (some (.plain 1)) 0 0).1.addTimer 0 20
        (some (.plain 2)) 0 0).1.setTimer 2 ⟨0, 0, 0, none, 2⟩)) 1 2 := by decide
  exact outOfOrder ((List.pairwise_cons.mp order.increasing).1 2 (by decide))

end KTimerManager

end FiberKcp.Timer
