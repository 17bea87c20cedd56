import FiberKcp.Timer.Calls

namespace FiberKcp.Timer

open FiberKcp.Data

namespace KTimer

variable {Action : Type} {timer hidden : KTimer Action} {deadline : UInt64} {times : Nat}

/-- The key of the timer when it has been advanced so many times. -/
def nextTime (timer : KTimer Action) (times : Nat) : UInt64 :=
  timer.mTime + UInt64.ofNat times * timer.mRecycleTime

@[simp] theorem nextTime_zero (timer : KTimer Action) : timer.nextTime 0 = timer.mTime := by
  simp [nextTime]

theorem nextTime_update (timer : KTimer Action) (times : Nat) :
    timer.update.nextTime times = timer.nextTime (times + 1) := by
  by_cases oneShot : timer.mRecycleTime = 0
  · simp [update, nextTime, oneShot]
  · have product : UInt64.ofNat (times + 1) * timer.mRecycleTime =
        timer.mRecycleTime + UInt64.ofNat times * timer.mRecycleTime := by
      rw [UInt64.ofNat_add, UInt64.add_mul, UInt64.add_comm]
      simp
    simp only [update, nextTime, if_pos oneShot, product, UInt64.add_assoc]

/-- Before the deadline the timer goes back into the set so many times, and then
comes behind one that the timer with the deadline hides. -/
structure Overtakes (timer : KTimer Action) (times : Nat) (deadline : UInt64)
    (hidden : KTimer Action) : Prop where
  positive : 0 < times
  early : ∀ earlier ≤ times, timer.nextTime earlier < deadline
  behind : Comparator (some hidden) (some (timer.setNextTime (timer.nextTime times))) = true

theorem Overtakes.of_update (isEarly : timer.mTime < deadline)
    (overtakes : timer.update.Overtakes times deadline hidden) :
    timer.Overtakes (times + 1) deadline hidden where
  positive := Nat.succ_pos times
  early := by
    intro earlier bound
    cases earlier with
    | zero => simpa using isEarly
    | succ before =>
        rw [← nextTime_update]
        exact overtakes.early before (Nat.le_of_succ_le_succ bound)
  behind := by
    have behind := overtakes.behind
    rw [nextTime_update, comparator_some] at behind
    rw [comparator_some]
    simpa [setNextTime] using behind

end KTimer

namespace KTimerManager

variable {Action : Type} {manager current after : KTimerManager Action} {id other : Nat}
  {clock : UInt64} {front hidden late : List Nat} {limit : Nat}

/-- The timer in its set while its deadline is not the one of its place: timers
that are due no later, the timer, cancelled ones that are due earlier and that it
hides, and timers that are due no earlier.  For so many calls none of the first
comes to stand among the hidden ones. -/
structure Placed (manager : KTimerManager Action) (id : Nat) (front hidden late : List Nat)
    (limit : Nat) : Prop where
  whole : manager.mTimers = front ++ id :: (hidden ++ late)
  ordered : (front ++ id :: late).Pairwise manager.noLater
  cancelled : ∀ other ∈ hidden, (manager.timer other).mCb = none ∧
    (manager.timer other).mTime < (manager.timer id).mTime
  ahead : ∀ other ∈ front, goesBack (manager.timer other) → ∀ behind ∈ hidden, ∀ times ≤ limit,
    ¬ (manager.timer other).Overtakes times (manager.timer id).mTime (manager.timer behind)

namespace Placed

variable (placed : manager.Placed id front hidden late limit)

include placed

theorem front_le (member : other ∈ front) :
    (manager.timer other).mTime ≤ (manager.timer id).mTime :=
  (List.pairwise_append.mp placed.ordered).2.2 other member id List.mem_cons_self

theorem le_late (member : other ∈ late) : (manager.timer id).mTime ≤ (manager.timer other).mTime :=
  (List.pairwise_cons.mp (List.pairwise_append.mp placed.ordered).2.1).1 other member

/-- Every timer but the hidden ones is found as soon as it is due. -/
theorem punctual (shown : other ∉ hidden) : manager.Punctual other := by
  by_cases member : other ∈ manager.mTimers
  · rw [placed.whole, List.mem_append, List.mem_cons, List.mem_append] at member
    rcases member with isFront | rfl | isHidden | isLate
    · obtain ⟨lower, upper, rfl⟩ := List.append_of_mem isFront
      have whole : manager.mTimers = lower ++ other :: (upper ++ id :: (hidden ++ late)) := by
        simpa using placed.whole
      have ordered := placed.ordered
      rw [List.append_assoc] at ordered
      exact punctual_of_front whole fun earlier isLower =>
        (List.pairwise_append.mp ordered).2.2 earlier isLower other List.mem_cons_self
    · exact punctual_of_front placed.whole fun earlier isFront => placed.front_le isFront
    · exact absurd isHidden shown
    · obtain ⟨lower, upper, rfl⟩ := List.append_of_mem isLate
      have whole : manager.mTimers = (front ++ id :: (hidden ++ lower)) ++ other :: upper := by
        simpa using placed.whole
      have atLeast := placed.le_late isLate
      refine punctual_of_front whole fun earlier isAhead => ?_
      simp only [List.mem_append, List.mem_cons] at isAhead
      rcases isAhead with isFront | rfl | isHidden | isLower
      · exact UInt64.le_trans (placed.front_le isFront) atLeast
      · exact atLeast
      · exact UInt64.le_of_lt (UInt64.lt_of_lt_of_le (placed.cancelled earlier isHidden).2 atLeast)
      · have ordered := (List.pairwise_cons.mp (List.pairwise_append.mp placed.ordered).2.1).2
        exact (List.pairwise_append.mp ordered).2.2 earlier isLower other List.mem_cons_self
  · intro clock
    exact ⟨fun reached => absurd reached.mem member, fun present => absurd present.1 member⟩

theorem mem_mTimers (member : other ∈ front ++ id :: late) : other ∈ manager.mTimers := by
  simp only [placed.whole, List.mem_append, List.mem_cons] at member ⊢
  tauto

theorem mem_of_hidden (member : other ∈ hidden) : other ∈ manager.mTimers := by
  simp [placed.whole, member]

end Placed

/-! A timer from the front goes back: to the front if it is due no later than the
timer with the deadline, and else behind the hidden ones. -/

section Rearm

variable {shape : Shape} {lower upper : List Nat}
  (placed : current.Placed id front hidden late limit)
  (rearmed : Rearmed shape current after other lower upper)

include placed rearmed

theorem Placed.timer_id : after.timer id = current.timer id :=
  rearmed.timer_other (placed.mem_mTimers (by simp))

theorem Placed.timer_hidden {behind : Nat} (member : behind ∈ hidden) :
    after.timer behind = current.timer behind :=
  rearmed.timer_other (placed.mem_of_hidden member)

theorem Placed.rearmed_cancelled : ∀ behind ∈ hidden, (after.timer behind).mCb = none ∧
    (after.timer behind).mTime < (after.timer id).mTime := by
  intro behind member
  rw [placed.timer_id rearmed, placed.timer_hidden rearmed member]
  exact placed.cancelled behind member

theorem Placed.rearmed_old {candidate : Nat} (member : candidate ∈ front)
    (periodic : goesBack (after.timer candidate)) : ∀ behind ∈ hidden, ∀ times ≤ limit,
      ¬ (after.timer candidate).Overtakes times (after.timer id).mTime (after.timer behind) := by
  have same := rearmed.timer_other (placed.mem_mTimers (List.mem_append_left _ member))
  intro behind isHidden times bound
  rw [same, placed.timer_id rearmed, placed.timer_hidden rearmed isHidden]
  exact placed.ahead candidate member (same ▸ periodic) behind isHidden times bound

variable (isEarly : (current.timer other).mTime < (current.timer id).mTime)
  (ahead : ∀ behind ∈ hidden, ∀ times ≤ limit + 1,
    ¬ (current.timer other).Overtakes times (current.timer id).mTime (current.timer behind))

include isEarly ahead

theorem Placed.not_behind {behind : Nat} (member : behind ∈ hidden)
    (stillEarly : (after.timer other).mTime < (current.timer id).mTime) :
    ¬ after.before behind other := by
  intro passed
  have once : (current.timer other).nextTime 1 = (after.timer other).mTime := by
    rw [← KTimer.nextTime_update, KTimer.nextTime_zero, rearmed.timer_self]
  refine ahead behind member 1 (Nat.le_add_left 1 limit) ⟨Nat.one_pos, ?_, ?_⟩
  · intro earlier bound
    rcases Nat.le_one_iff_eq_zero_or_eq_one.mp bound with rfl | rfl
    · simpa using isEarly
    · rwa [once]
  · rw [before, KTimer.comparator_some, placed.timer_hidden rearmed member] at passed
    rw [KTimer.comparator_some, once]
    simpa [KTimer.setNextTime, rearmed.timer_self] using passed

theorem Placed.rearmed_ahead :
    ∀ behind ∈ hidden, ∀ times ≤ limit, ¬ (after.timer other).Overtakes times
      (after.timer id).mTime (after.timer behind) := by
  intro behind member times bound overtakes
  rw [rearmed.timer_self, placed.timer_id rearmed, placed.timer_hidden rearmed member] at overtakes
  exact ahead behind member (times + 1) (Nat.succ_le_succ bound) (overtakes.of_update isEarly)

theorem Placed.rearmed_front {more : List Nat} (frontEq : front = lower ++ more)
    (upperEq : upper = more ++ id :: (hidden ++ late)) :
    after.Placed id (lower ++ other :: more) hidden late limit := by
  have ordered : (lower ++ (more ++ id :: late)).Pairwise after.noLater := by
    rw [← List.append_assoc, ← frontEq]
    exact noLater_congr (fun candidate member =>
      (rearmed.timer_other (placed.mem_mTimers member)).symm) placed.ordered
  have between : FitsBetween after.noLater other lower (more ++ id :: late) :=
    ⟨rearmed.between.last, fun next isNext => rearmed.between.next next (by
      rw [upperEq]
      simpa using isNext)⟩
  refine ⟨?_, ?_, placed.rearmed_cancelled rearmed, ?_⟩
  · rw [rearmed.mTimers, upperEq]
    simp
  · simpa using between.pairwise ordered
  · intro candidate member periodic
    by_cases here : candidate = other
    · subst here
      exact placed.rearmed_ahead rearmed isEarly ahead
    · have old : candidate ∈ front := by
        rw [frontEq]
        simpa [here] using member
      exact placed.rearmed_old rearmed old periodic

theorem Placed.rearmed_late {more : List Nat} (lowerEq : lower = front ++ id :: more)
    (backEq : hidden ++ late = more ++ upper) :
    ∃ newLate, after.Placed id front hidden newLate limit := by
  have atLeast : (current.timer id).mTime ≤ (after.timer other).mTime := by
    obtain ⟨last, isLast⟩ : ∃ last, (id :: more).getLast? = some last := by
      rw [List.getLast?_cons]
      exact ⟨_, rfl⟩
    have first := rearmed.fits.last last (by rw [lowerEq, List.getLast?_append, isLast]; rfl)
    have noEarlier := KTimer.mTime_le_of_comparator first
    rcases List.mem_cons.mp (List.mem_of_getLast? isLast) with rfl | isMore
    · rwa [placed.timer_id rearmed] at noEarlier
    · have behind : last ∈ hidden ∨ last ∈ late := by
        rw [← List.mem_append, backEq]
        exact List.mem_append_left _ isMore
      rcases behind with isHidden | isLate
      · by_contra early
        exact placed.not_behind rearmed isEarly ahead isHidden (UInt64.not_le.mp early) first
      · rw [rearmed.timer_other (placed.mem_mTimers (by simp [isLate]))] at noEarlier
        exact UInt64.le_trans (placed.le_late isLate) noEarlier
  obtain ⟨mid, moreEq, lateEq⟩ : ∃ mid, more = hidden ++ mid ∧ late = mid ++ upper := by
    rcases List.append_eq_append_iff.mp backEq with after | ⟨rest, hiddenEq, upperEq⟩
    · exact after
    · cases rest with
      | nil => exact ⟨[], by simpa using hiddenEq.symm, by simpa using upperEq.symm⟩
      | cons next rest =>
          have isHidden : next ∈ hidden := by simp [hiddenEq]
          have atMost := rearmed.between.next next (by simp [upperEq])
          rw [noLater, placed.timer_hidden rearmed isHidden] at atMost
          have loop := UInt64.lt_of_le_of_lt (UInt64.le_trans atLeast atMost)
            (placed.cancelled next isHidden).2
          exact absurd loop (UInt64.lt_irrefl _)
  refine ⟨mid ++ other :: upper, ?_, ?_, placed.rearmed_cancelled rearmed,
    fun candidate member periodic => placed.rearmed_old rearmed member periodic⟩
  · rw [rearmed.mTimers, lowerEq, moreEq]
    simp
  · have ordered : ((front ++ id :: mid) ++ upper).Pairwise after.noLater := by
      have moved := noLater_congr (fun candidate member =>
        (rearmed.timer_other (placed.mem_mTimers member)).symm) placed.ordered
      simpa [lateEq] using moved
    have between : FitsBetween after.noLater other (front ++ id :: mid) upper := by
      refine ⟨fun last isLast => ?_, rearmed.between.next⟩
      cases midLast : mid.getLast? with
      | none =>
          have isId : id = last := by
            simpa [List.getLast?_append, List.getLast?_cons, midLast] using isLast
          rwa [← isId, noLater, placed.timer_id rearmed]
      | some final =>
          have isFinal : final = last := by
            simpa [List.getLast?_append, List.getLast?_cons, midLast] using isLast
          refine rearmed.between.last last ?_
          simp [lowerEq, moreEq, List.getLast?_append, List.getLast?_cons, midLast, isFinal]
    simpa using between.pairwise ordered

theorem Placed.rearm :
    ∃ newFront newLate, after.Placed id newFront hidden newLate limit := by
  have cut : front ++ id :: (hidden ++ late) = lower ++ upper :=
    placed.whole.symm.trans rearmed.whole
  rcases append_cons_sides cut with ⟨more, lowerEq, backEq⟩ | ⟨more, frontEq, upperEq⟩
  · obtain ⟨newLate, moved⟩ := placed.rearmed_late rearmed isEarly ahead lowerEq backEq
    exact ⟨front, newLate, moved⟩
  · exact ⟨_, late, placed.rearmed_front rearmed isEarly ahead frontEq upperEq⟩

end Rearm

section Call

variable (placed : manager.Placed id front hidden late limit)

include placed

theorem Placed.dropWhile (early : clock < (manager.timer id).mTime) :
    manager.mTimers.dropWhile (manager.due clock) =
      front.dropWhile (manager.due clock) ++ id :: (hidden ++ late) := by
  have notDue : ¬ manager.due clock id = true := by simpa [due] using early
  rw [placed.whole, List.dropWhile_append, List.dropWhile_cons_of_neg notDue]
  split
  · rename_i empty
    simp [List.isEmpty_iff.mp empty]
  · rfl

/-- A call at the deadline or later gets past the timer. -/
theorem Placed.inOrder_call (issued : manager.Issued) (reached : (manager.timer id).mTime ≤ clock)
    (shape : Shape) : (shape.insertion.listExpiredTimer manager clock).1.InOrder := by
  have allDue : ∀ other ∈ front ++ id :: hidden, manager.due clock other = true := by
    intro other member
    simp only [List.mem_append, List.mem_cons] at member
    simp only [due, decide_eq_true_eq]
    rcases member with isFront | rfl | isHidden
    · exact UInt64.le_trans (placed.front_le isFront) reached
    · exact reached
    · exact UInt64.le_trans (UInt64.le_of_lt (placed.cancelled other isHidden).2) reached
  have whole : manager.mTimers = (front ++ id :: hidden) ++ late := by simpa using placed.whole
  have ordered := (List.pairwise_append.mp placed.ordered).2.1
  apply issued.inOrder_call
  rw [whole, List.dropWhile_append_of_pos allDue]
  exact List.Pairwise.sublist (List.dropWhile_sublist _) (List.pairwise_cons.mp ordered).2

end Call

/-- A call before the deadline leaves the timer and the hidden ones where they are. -/
theorem Placed.early_call (issued : manager.Issued)
    (placed : manager.Placed id front hidden late (limit + 1))
    (early : clock < (manager.timer id).mTime) (shape : Shape) :
    ∃ newFront newLate, (shape.insertion.listExpiredTimer manager clock).1.Placed id newFront
      hidden newLate limit := by
  let Kept (current : KTimerManager Action) : Prop :=
    ∃ newFront newLate, current.Placed id newFront hidden newLate limit ∧
      current.timer id = manager.timer id ∧
        ∀ behind ∈ hidden, current.timer behind = manager.timer behind
  have kept : Kept (shape.insertion.listExpiredTimer manager clock).1 := by
    refine issued.call_induction shape clock ?_ ?_
    · refine ⟨front.dropWhile (manager.due clock), late, ⟨placed.dropWhile early, ?_,
        placed.cancelled, ?_⟩, rfl, fun _ _ => rfl⟩
      · exact placed.ordered.sublist (List.Sublist.append_right (List.dropWhile_sublist _) _)
      · intro other member periodic behind isHidden times bound
        exact placed.ahead other (List.dropWhile_subset _ member) periodic behind isHidden times
          (Nat.le_succ_of_le bound)
    · intro other reached periodic current after lower upper same rearmed kept
      obtain ⟨newFront, newLate, stillPlaced, idSame, hiddenSame⟩ := kept
      have isFront := reached.mem_front placed.whole early
      have isEarly : (current.timer other).mTime < (current.timer id).mTime := by
        rw [same, idSame]
        exact UInt64.lt_of_le_of_lt reached.mTime_le early
      obtain ⟨nextFront, nextLate, moved⟩ := stillPlaced.rearm rearmed isEarly (by
        intro behind isHidden times bound
        rw [same, idSame, hiddenSame behind isHidden]
        exact placed.ahead other isFront periodic behind isHidden times bound)
      refine ⟨nextFront, nextLate, moved, ?_, fun behind isHidden => ?_⟩
      · rw [stillPlaced.timer_id rearmed, idSame]
      · rw [stillPlaced.timer_hidden rearmed isHidden, hiddenSame behind isHidden]
  obtain ⟨newFront, newLate, stillPlaced, _⟩ := kept
  exact ⟨newFront, newLate, stillPlaced⟩

/-- For so many calls every timer with a callback is punctual. -/
def Settled (manager : KTimerManager Action) (id limit : Nat) : Prop :=
  manager.InOrder ∨ ∃ front hidden late, manager.Placed id front hidden late limit

theorem Settled.punctual (settled : manager.Settled id limit)
    (callback : (manager.timer other).mCb.isSome) : manager.Punctual other := by
  rcases settled with ordered | ⟨front, hidden, late, placed⟩
  · exact ordered.punctual other
  · refine placed.punctual fun isHidden => ?_
    simp [(placed.cancelled other isHidden).1] at callback

theorem Settled.call (settled : manager.Settled id (limit + 1)) (issued : manager.Issued)
    (clock : UInt64) (shape : Shape) :
    (shape.insertion.listExpiredTimer manager clock).1.Settled id limit := by
  rcases settled with ordered | ⟨front, hidden, late, placed⟩
  · exact .inl (issued.inOrder_call shape clock (ordered.sublist (List.dropWhile_sublist _)))
  · rcases UInt64.lt_or_le clock (manager.timer id).mTime with early | reached
    · obtain ⟨newFront, newLate, moved⟩ := placed.early_call issued early shape
      exact .inr ⟨newFront, hidden, newLate, moved⟩
    · exact .inl (placed.inOrder_call issued reached shape)

/-- Calls at the same clocks do the same to another timer in a run in which the
timer waits in its place and in one whose set is in order. -/
theorem Agree.afterCalls {left right : KTimerManager Action} {calls without : List (UInt64 × Shape)}
    (agree : Agree left right other) (leftIssued : left.Issued) (rightIssued : right.Issued)
    (settled : left.Settled id calls.length) (ordered : right.InOrder)
    (clocks : calls.map Prod.fst = without.map Prod.fst) :
    Agree (left.afterCalls calls) (right.afterCalls without) other ∧
      (left.afterCalls calls).Settled id 0 ∧ (right.afterCalls without).InOrder := by
  induction calls generalizing left right without with
  | nil =>
      cases without with
      | nil => exact ⟨agree, settled, ordered⟩
      | cons call rest => simp at clocks
  | cons call rest ih =>
      cases without with
      | nil => simp at clocks
      | cons first others =>
          obtain ⟨clock, shape⟩ := call
          obtain ⟨sameClock, otherShape⟩ := first
          obtain ⟨rfl, restClocks⟩ := List.cons_eq_cons.mp clocks
          have both := agree.listExpiredTimer leftIssued rightIssued settled.punctual
            (fun _ => ordered.punctual _) clock shape otherShape
          have later := ih both (leftIssued.expires shape.insertion clock).toIssued
            (rightIssued.expires otherShape.insertion clock).toIssued
            (settled.call leftIssued clock shape)
            (rightIssued.inOrder_call otherShape clock
              (ordered.sublist (List.dropWhile_sublist _))) restClocks
          exact later

end KTimerManager

end FiberKcp.Timer
