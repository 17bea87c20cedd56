import FiberKcp.Timer.Overtaking

namespace FiberKcp.Timer

open FiberKcp.Data

namespace KTimerManager

variable {Action : Type} {manager before after : KTimerManager Action} {id : Nat}
  {now ms deadline : UInt64} {cb : CallBack Action} {recycle tid : UInt32}
  {front back : List Nat} {timer : KTimer Action}

/-- The timer is pending with the deadline: calls before it do not return the
timer, and the first one after that does.  To the other timers calls do what they
do to them in `before` at the same clocks, whatever the trees. -/
structure Rescheduled (before after : KTimerManager Action) (id : Nat) (deadline : UInt64)
    (cb : CallBack Action) (tid : UInt32) : Prop where
  pending : id ∈ after.mTimers ∧ (after.timer id).mTime = deadline
  early : ∀ calls clock, (∀ call ∈ calls, call.1 < deadline) → clock < deadline →
    id ∉ (after.afterCalls calls).returned (.listExpiredTimer clock)
  next : ∀ calls clock, (∀ call ∈ calls, call.1 < deadline) → deadline ≤ clock →
    id ∈ (after.afterCalls calls).returned (.listExpiredTimer clock) ∧
      returnedCallback ((after.afterCalls calls).timer id) = some (cb, tid)
  others : ∀ calls without clock, calls.map Prod.fst = without.map Prod.fst → ∀ other ≠ id,
    (other ∈ (after.afterCalls calls).returned (.listExpiredTimer clock) ↔
      other ∈ (before.afterCalls without).returned (.listExpiredTimer clock)) ∧
    returnedCallback ((after.afterCalls calls).timer other) =
      returnedCallback ((before.afterCalls without).timer other)

/-- The place of the timer is right for the deadline: no timer in front of it is
due later, none with a callback behind it is due earlier, and none in front of it
goes back so often before the deadline that it comes to stand behind a cancelled
one behind it. -/
structure RightPlace (manager : KTimerManager Action) (id : Nat) (deadline : UInt64)
    (front back : List Nat) : Prop where
  whole : manager.mTimers = front ++ id :: back
  ahead : ∀ other ∈ front, (manager.timer other).mTime ≤ deadline
  behind : ∀ other ∈ back, (manager.timer other).mCb.isSome → deadline ≤ (manager.timer other).mTime
  apart : ∀ other ∈ front, goesBack (manager.timer other) → ∀ hidden ∈ back, ∀ times,
    ¬ (manager.timer other).Overtakes times deadline (manager.timer hidden)

/-- The place of the timer in the set is right for the new deadline.  Where
`reset` returns at its guard, the timer is already what the call asks for. -/
def Reschedulable (manager : KTimerManager Action) (id : Nat) (now ms : UInt64)
    (cb : CallBack Action) (tid : UInt32) : Prop :=
  (∃ front back, manager.RightPlace id (now + ms) front back) ∧
    (ms < (manager.timer id).mTime → (manager.timer id).mTime = now + ms ∧
      (manager.timer id).mCb = some cb ∧ (manager.timer id).mTid = tid)

theorem Issued.delTimer_mTimers (issued : manager.Issued)
    (whole : manager.mTimers = front ++ id :: back) :
    (manager.delTimer id).mTimers = front ++ back := by
  have absent : id ∉ front := fun member => issued.apart whole member List.mem_cons_self
  have erased : (manager.delTimer id).mTimers = manager.mTimers.erase id := by
    simp only [KTimerManager.delTimer, issued.unique, List.erase_eq_eraseP, Bool.beq_comm]
  rw [erased, whole, List.erase_append_right _ absent, List.erase_cons_head]

theorem Issued.apart_of_whole (issued : manager.Issued)
    (whole : manager.mTimers = front ++ id :: back) : ∀ other ∈ front ++ back, other ≠ id := by
  have nodup := issued.nodup
  rw [whole, List.nodup_middle] at nodup
  exact fun other member same => (List.nodup_cons.mp nodup).1 (same ▸ member)

theorem placed_setTimer (limit : Nat) (issued : manager.Issued)
    (ordered : (manager.delTimer id).InOrder) (whole : manager.mTimers = front ++ id :: back) (written : timer.mTime = deadline)
    (ahead : ∀ other ∈ front, (manager.timer other).mTime ≤ deadline)
    (behind : ∀ other ∈ back, (manager.timer other).mCb.isSome →
      deadline ≤ (manager.timer other).mTime)
    (apart : ∀ other ∈ front, goesBack (manager.timer other) → ∀ hidden ∈ back, ∀ times ≤ limit,
      ¬ (manager.timer other).Overtakes times deadline (manager.timer hidden)) :
    ∃ hidden late, back = hidden ++ late ∧
      (manager.setTimer id timer).Placed id front hidden late limit := by
  let isEarly := fun other => decide ((manager.timer other).mTime < deadline)
  have different := issued.apart_of_whole whole
  have written : ((manager.setTimer id timer).timer id).mTime = deadline := by
    rw [setTimer_timer_self, written]
  have same : ∀ other ∈ front ++ back,
      (manager.setTimer id timer).timer other = manager.timer other :=
    fun other member => setTimer_timer_other _ _ (different other member)
  have inOrder : (front ++ back).Pairwise (manager.setTimer id timer).noLater := by
    rw [InOrder, issued.delTimer_mTimers whole] at ordered
    exact noLater_congr (fun other member => (same other member).symm) ordered
  obtain ⟨frontOrdered, backOrdered, across⟩ := List.pairwise_append.mp inOrder
  have closed : back.Pairwise fun left right => isEarly right = true → isEarly left = true := by
    refine List.Pairwise.imp_of_mem ?_ backOrdered
    intro left right leftMember rightMember first
    rw [noLater, same left (List.mem_append_right _ leftMember),
      same right (List.mem_append_right _ rightMember)] at first
    simpa [isEarly] using UInt64.lt_of_le_of_lt first
  have lateEq := dropWhile_eq_filter closed
  refine ⟨back.takeWhile isEarly, back.dropWhile isEarly,
    List.takeWhile_append_dropWhile.symm, ?_, ?_, ?_, ?_⟩
  · rw [setTimer_mTimers, List.takeWhile_append_dropWhile, whole]
  · refine List.pairwise_append.mpr ⟨frontOrdered, List.pairwise_cons.mpr
      ⟨fun other isLate => ?_, backOrdered.sublist (List.dropWhile_sublist _)⟩, ?_⟩
    · obtain ⟨isBack, notEarly⟩ := List.mem_filter.mp (lateEq ▸ isLate)
      rw [noLater, written, same other (List.mem_append_right _ isBack)]
      simpa [isEarly] using notEarly
    · intro other isFront later isLater
      rcases List.mem_cons.mp isLater with rfl | isLate
      · rw [noLater, written, same other (List.mem_append_left _ isFront)]
        exact ahead other isFront
      · exact across other isFront later (List.dropWhile_subset _ isLate)
  · intro other isHidden
    have isBack := List.takeWhile_subset _ isHidden
    have before : (manager.timer other).mTime < deadline := by
      have taken : isEarly other = true := List.mem_takeWhile_imp isHidden
      simpa [isEarly] using taken
    rw [written, same other (List.mem_append_right _ isBack)]
    refine ⟨?_, before⟩
    by_contra callback
    have waits := behind other isBack (Option.isSome_iff_ne_none.mpr callback)
    exact absurd before (UInt64.not_lt.mpr waits)
  · intro other isFront periodic hidden isHidden times bound
    have isBack := List.takeWhile_subset _ isHidden
    rw [same other (List.mem_append_left _ isFront)] at periodic ⊢
    rw [written, same hidden (List.mem_append_right _ isBack)]
    exact apart other isFront periodic hidden isBack times bound

/-- The run without the timer, or, in a set in order, without the new deadline. -/
theorem agree_setTimer (issued : manager.Issued) (ordered : (manager.delTimer id).InOrder)
    (baseline : before = manager.delTimer id ∨ manager.InOrder ∧ before = manager)
    (timer : KTimer Action) : before.Issued ∧ before.InOrder ∧
      ∀ other ≠ id, Agree (manager.setTimer id timer) before other := by
  rcases baseline with rfl | ⟨inOrder, rfl⟩
  · refine ⟨issued.delTimer id, ordered, fun other different => .inr ⟨?_, ?_⟩⟩
    · exact setTimer_timer_other _ _ different
    · rw [setTimer_mTimers, issued.mem_delTimer]
      exact (and_iff_left different).symm
  · exact ⟨issued, inOrder, fun other different =>
      .inr ⟨setTimer_timer_other _ _ different, Iff.rfl⟩⟩

/-! From the place of the timer to what the calls do. -/

theorem Placed.early_calls {hidden late : List Nat} {calls : List (UInt64 × Shape)}
    (placed : manager.Placed id front hidden late calls.length) (issued : manager.Issued)
    (early : ∀ call ∈ calls, call.1 < (manager.timer id).mTime) :
    ∃ newFront newLate, (manager.afterCalls calls).Placed id newFront hidden newLate 0 ∧
      (manager.afterCalls calls).timer id = manager.timer id := by
  induction calls generalizing manager front late with
  | nil => exact ⟨front, late, placed, rfl⟩
  | cons call rest ih =>
      obtain ⟨first, later⟩ := List.forall_mem_cons.mp early
      have expires := issued.expires call.2.insertion call.1
      have same := expires.timer_early first
      obtain ⟨newFront, newLate, moved⟩ := placed.early_call issued first call.2
      obtain ⟨lastFront, lastLate, last, lastSame⟩ :=
        ih moved expires.toIssued (same.symm ▸ later)
      exact ⟨lastFront, lastLate, last, lastSame.trans same⟩

theorem Placed.mem_returned {hidden late : List Nat} {limit : Nat}
    (placed : manager.Placed id front hidden late limit) (issued : manager.Issued)
    (callback : (manager.timer id).mCb = some cb) (clock : UInt64) :
    id ∈ manager.returned (.listExpiredTimer clock) ↔ (manager.timer id).mTime ≤ clock := by
  have nodup := issued.nodup
  rw [placed.whole, List.nodup_middle, List.nodup_cons] at nodup
  have shown : id ∉ hidden := fun present => nodup.1 (by simp [present])
  rw [mem_returned_iff, placed.punctual shown, callback]
  simp [placed.whole]

theorem rescheduled_of_placed (beforeIssued : before.Issued) (issued : after.Issued)
    (ordered : before.InOrder)
    (placed : ∀ limit, ∃ front hidden late, after.Placed id front hidden late limit)
    (written : (after.timer id).mTime = deadline) (callback : (after.timer id).mCb = some cb)
    (thread : (after.timer id).mTid = tid) (agree : ∀ other ≠ id, Agree after before other) :
    Rescheduled before after id deadline cb tid where
  pending := by
    obtain ⟨front, hidden, late, placed⟩ := placed 0
    exact ⟨placed.mem_mTimers (by simp), written⟩
  early := by
    intro calls clock earlier isEarly isReturned
    obtain ⟨front, hidden, late, placed⟩ := placed calls.length
    obtain ⟨_, _, still, same⟩ := placed.early_calls issued (written ▸ earlier)
    have reached := (still.mem_returned (issued.afterCalls calls) (same ▸ callback) clock).mp
      isReturned
    rw [same, written] at reached
    exact UInt64.not_le.mpr isEarly reached
  next := by
    intro calls clock earlier reached
    obtain ⟨front, hidden, late, placed⟩ := placed calls.length
    obtain ⟨_, _, still, same⟩ := placed.early_calls issued (written ▸ earlier)
    rw [still.mem_returned (issued.afterCalls calls) (same ▸ callback), same, written,
      returnedCallback, callback, thread]
    exact ⟨reached, rfl⟩
  others := by
    intro calls without clock clocks other different
    obtain ⟨still, settled, inOrder⟩ := (agree other different).afterCalls issued beforeIssued
      (.inr (placed calls.length)) ordered clocks
    exact ⟨still.mem_returned settled.punctual (fun _ => inOrder.punctual other) clock,
      still.returnedCallback⟩

theorem reset_of_guard (guarded : ms < timer.mTime) :
    timer.reset now ms (some cb) recycle tid = timer :=
  if_pos (.inl guarded)

theorem reset_of_not_guard (passed : ¬ ms < timer.mTime) :
    timer.reset now ms (some cb) recycle tid =
      { timer with
        mTime := now + ms, mCb := some cb, mRecycleTime := recycle.toUInt64, mTid := tid } :=
  if_neg (by simpa using passed)

/-- Where the guard does not stop `reset`, or has nothing to stop. -/
theorem reset_written (recycle : UInt32) (guard : ms < timer.mTime →
      timer.mTime = now + ms ∧ timer.mCb = some cb ∧ timer.mTid = tid) :
    let written := timer.reset now ms (some cb) recycle tid
    written.mTime = now + ms ∧ written.mCb = some cb ∧ written.mTid = tid := by
  by_cases guarded : ms < timer.mTime
  · rw [reset_of_guard guarded]
    exact guard guarded
  · rw [reset_of_not_guard guarded]
    exact ⟨rfl, rfl, rfl⟩

theorem rescheduled_of_reschedulable (issued : manager.Issued)
    (ordered : (manager.delTimer id).InOrder)
    (baseline : before = manager.delTimer id ∨ manager.InOrder ∧ before = manager)
    (reschedulable : manager.Reschedulable id now ms cb tid) :
    Rescheduled before
      (manager.setTimer id ((manager.timer id).reset now ms (some cb) recycle tid))
      id (now + ms) cb tid := by
  obtain ⟨⟨front, back, place⟩, guard⟩ := reschedulable
  obtain ⟨written, callback, thread⟩ := reset_written recycle guard
  have placed : ∀ limit, ∃ front hidden late,
      (manager.setTimer id ((manager.timer id).reset now ms (some cb) recycle tid)).Placed
        id front hidden late limit := by
    intro limit
    obtain ⟨hidden, late, _, placed⟩ := placed_setTimer limit issued ordered place.whole written
      place.ahead place.behind fun other isFront periodic hidden isBack times _ =>
        place.apart other isFront periodic hidden isBack times
    exact ⟨front, hidden, late, placed⟩
  obtain ⟨beforeIssued, inOrder, agree⟩ := agree_setTimer issued ordered baseline
    ((manager.timer id).reset now ms (some cb) recycle tid)
  have sameId : ((manager.timer id).reset now ms (some cb) recycle tid).mUniqueId = id := by
    rw [KTimer.reset_mUniqueId, issued.unique]
  refine rescheduled_of_placed beforeIssued (issued.setTimer sameId) inOrder placed ?_ ?_ ?_ agree
  · rw [setTimer_timer_self, written]
  · rw [setTimer_timer_self, callback]
  · rw [setTimer_timer_self, thread]

/-! From what the calls do to the place of the timer. -/

/-- A timer with a callback that stands behind and is due earlier is returned
without the timer and not with it. -/
theorem behind_of_others (issued : after.Issued) (ordered : before.InOrder)
    (whole : after.mTimers = front ++ id :: back)
    (agree : ∀ other ≠ id, Agree after before other)
    (others : ∀ clock, ∀ other ≠ id, other ∈ after.returned (.listExpiredTimer clock) ↔
      other ∈ before.returned (.listExpiredTimer clock)) :
    ∀ other ∈ back, (after.timer other).mCb.isSome →
      (after.timer id).mTime ≤ (after.timer other).mTime := by
  intro other isBack callback
  have different := issued.apart_of_whole whole other (List.mem_append_right _ isBack)
  by_contra early
  rcases agree other different with ⟨null, _⟩ | ⟨same, members⟩
  · simp [null] at callback
  · have member : other ∈ before.mTimers := members.mp (by simp [whole, isBack])
    have reached : before.Reached other (after.timer other).mTime :=
      (ordered.punctual other _).mpr ⟨member, same ▸ UInt64.le_refl _⟩
    have isReturned := (others _ other different).mpr
      (mem_returned_iff.mpr ⟨reached, same ▸ callback⟩)
    have isFront := (mem_returned_iff.mp isReturned).1.mem_front whole (UInt64.not_le.mp early)
    exact issued.apart whole isFront (List.mem_cons_of_mem _ isBack)

/-- A timer that overtakes a cancelled one, as the first one to do so, is
returned without the timer and not with it. -/
theorem not_overtakes_of_others {hidden late : List Nat} {other behind times : Nat}
    (issued : after.Issued) (beforeIssued : before.Issued) (ordered : before.InOrder)
    (placed : after.Placed id front hidden late times)
    (agree : ∀ other ≠ id, Agree after before other)
    (others : ∀ calls clock, ∀ other ≠ id,
      other ∈ (after.afterCalls calls).returned (.listExpiredTimer clock) ↔
        other ∈ (before.afterCalls calls).returned (.listExpiredTimer clock))
    (isFront : other ∈ front) (periodic : goesBack (after.timer other))
    (isHidden : behind ∈ hidden) :
    ¬ (after.timer other).Overtakes (times + 1) (after.timer id).mTime (after.timer behind) := by
  intro overtakes
  have different : other ≠ id := fun same => placed.apart issued isFront (by simp [same])
  obtain ⟨same, members⟩ := (agree other different).resolve_left fun null => by
    simp [goesBack, null.1] at periodic
  have member := members.mp (placed.mem_mTimers (List.mem_append_left _ isFront))
  have onTime : ∀ earlier ≤ times + 1,
      (before.timer other).nextTime earlier ≤ (after.timer id).mTime - 1 := by
    intro earlier bound
    rw [← same]
    exact (le_pred_of_lt (overtakes.early earlier bound)).1
  have isReturned := ordered.returned_calls (times + 1) beforeIssued member (same ▸ periodic)
    onTime Shape.left
  exact placed.not_returned_calls issued isFront isHidden periodic overtakes
    ((others _ _ other different).mpr isReturned)

/-- Where the timer is returned at its deadline, none in front is due later. -/
theorem ahead_of_returned (whole : after.mTimers = front ++ id :: back) (issued : after.Issued)
    (isReturned : id ∈ after.returned (.listExpiredTimer deadline)) :
    ∀ other ∈ front, (after.timer other).mTime ≤ deadline := by
  intro other isFront
  by_contra late
  obtain ⟨lower, upper, rfl⟩ := List.append_of_mem isFront
  have split : after.mTimers = lower ++ other :: (upper ++ id :: back) := by simpa using whole
  have isLower := (mem_returned_iff.mp isReturned).1.mem_front split (UInt64.not_le.mp late)
  exact issued.apart_of_whole whole id (by simp [isLower]) rfl

theorem rightPlace_of_rescheduled (issued : manager.Issued) (sameId : timer.mUniqueId = id)
    (ordered : (manager.delTimer id).InOrder)
    (baseline : before = manager.delTimer id ∨ manager.InOrder ∧ before = manager)
    (rescheduled : Rescheduled before (manager.setTimer id timer) id deadline cb tid) :
    ∃ front back, manager.RightPlace id deadline front back := by
  obtain ⟨member, written⟩ := rescheduled.pending
  obtain ⟨beforeIssued, inOrder, agree⟩ := agree_setTimer issued ordered baseline timer
  obtain ⟨front, back, whole⟩ := List.append_of_mem member
  have afterIssued : (manager.setTimer id timer).Issued := issued.setTimer sameId
  have different := issued.apart_of_whole whole
  have same : ∀ other ∈ front ++ back,
      (manager.setTimer id timer).timer other = manager.timer other :=
    fun other member => setTimer_timer_other _ _ (different other member)
  have ahead : ∀ other ∈ front, (manager.timer other).mTime ≤ deadline := by
    intro other isFront
    have isReturned := (rescheduled.next [] deadline (by simp) (UInt64.le_refl _)).1
    rw [← same other (List.mem_append_left _ isFront)]
    exact ahead_of_returned whole afterIssued isReturned other isFront
  have behind : ∀ other ∈ back, (manager.timer other).mCb.isSome →
      deadline ≤ (manager.timer other).mTime := by
    intro other isBack callback
    have waits := behind_of_others afterIssued inOrder whole agree
      (fun clock other apart => (rescheduled.others [] [] clock rfl other apart).1) other isBack
    rw [same other (List.mem_append_right _ isBack), written] at waits
    exact waits callback
  refine ⟨front, back, whole, ahead, behind, fun other isFront periodic hidden isBack times => ?_⟩
  -- the first time that any of them overtakes one
  induction times using Nat.strong_induction_on generalizing other hidden with
  | _ times ih =>
      intro overtakes
      obtain ⟨previous, rfl⟩ := Nat.exists_eq_succ_of_ne_zero overtakes.positive.ne'
      obtain ⟨cancelled, late, backEq, placed⟩ := placed_setTimer previous issued ordered whole
        (by simpa using written) ahead behind
        fun candidate isCandidate candidatePeriodic other isOther earlier bound =>
          ih earlier (Nat.lt_succ_of_le bound) candidate isCandidate candidatePeriodic other isOther
      have hiddenSame := same hidden (List.mem_append_right _ isBack)
      have otherSame := same other (List.mem_append_left _ isFront)
      have isHidden : hidden ∈ cancelled := by
        rw [backEq, List.mem_append] at isBack
        refine isBack.resolve_right fun isLate => ?_
        have waits := placed.le_late isLate
        have passed := KTimer.mTime_le_of_comparator overtakes.behind
        rw [written, hiddenSame] at waits
        exact UInt64.not_le.mpr (overtakes.early (previous + 1) (Nat.le_refl _))
          (UInt64.le_trans waits passed)
      refine not_overtakes_of_others afterIssued beforeIssued inOrder placed agree ?_ isFront
        (otherSame.symm ▸ periodic) isHidden ?_
      · exact fun calls clock candidate apart =>
          (rescheduled.others calls calls clock rfl candidate apart).1
      · rwa [written, otherSame, hiddenSame]

end KTimerManager

end FiberKcp.Timer
