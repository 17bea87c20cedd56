import Mathlib.Tactic.Set
import FiberKcp.Timer.Placement

namespace FiberKcp.Timer

open FiberKcp.Data

namespace KTimerManager

variable {Action : Type} {manager current after : KTimerManager Action} {id other hidden : Nat}
  {clock : UInt64} {front cancelled late : List Nat} {limit times : Nat}

theorem le_pred_of_lt {first second : UInt64} (less : first < second) :
    first ≤ second - 1 ∧ second - 1 < second := by
  rw [UInt64.lt_iff_toNat_lt] at less
  have one : (1 : UInt64) ≤ second := UInt64.le_iff_toNat_le.mpr (Nat.one_le_of_lt less)
  rw [UInt64.le_iff_toNat_le, UInt64.lt_iff_toNat_lt, UInt64.toNat_sub_of_le _ _ one,
    UInt64.toNat_one]
  omega

theorem goesBack_update {timer : KTimer Action} (periodic : goesBack timer) :
    goesBack timer.update := by
  have advanced : timer.update = { timer with mTime := timer.mTime + timer.mRecycleTime } :=
    if_pos periodic.2
  rw [advanced]
  exact periodic

/-- Calls at a clock that a periodic timer in a set in order stays behind. -/
theorem InOrder.goesBack_calls (times : Nat) (ordered : manager.InOrder) (issued : manager.Issued)
    (member : id ∈ manager.mTimers) (periodic : goesBack (manager.timer id))
    (early : ∀ earlier < times, (manager.timer id).nextTime earlier ≤ clock) (shape : Shape) :
    let calls := List.replicate times (clock, shape)
    (manager.afterCalls calls).InOrder ∧ id ∈ (manager.afterCalls calls).mTimers ∧
      goesBack ((manager.afterCalls calls).timer id) ∧
      ((manager.afterCalls calls).timer id).mTime = (manager.timer id).nextTime times := by
  induction times generalizing manager with
  | zero => exact ⟨ordered, member, periodic, (KTimer.nextTime_zero _).symm⟩
  | succ times ih =>
      have isDue : (manager.timer id).mTime ≤ clock := by simpa using early 0 (Nat.succ_pos times)
      obtain ⟨stays, advanced⟩ :=
        (ordered.punctual id).goesBack_call issued member isDue periodic shape
      have nextOrdered := issued.inOrder_call shape clock
        (ordered.sublist (List.dropWhile_sublist _))
      have rest := ih nextOrdered (issued.expires shape.insertion clock).toIssued stays
        (advanced ▸ goesBack_update periodic) (by
          intro earlier bound
          rw [advanced, KTimer.nextTime_update]
          exact early (earlier + 1) (Nat.succ_lt_succ bound))
      rw [advanced, KTimer.nextTime_update] at rest
      exact rest

theorem InOrder.returned_calls (times : Nat) (ordered : manager.InOrder)
    (issued : manager.Issued) (member : id ∈ manager.mTimers)
    (periodic : goesBack (manager.timer id))
    (early : ∀ earlier ≤ times, (manager.timer id).nextTime earlier ≤ clock) (shape : Shape) :
    id ∈ (manager.afterCalls (List.replicate times (clock, shape))).returned
      (.listExpiredTimer clock) := by
  obtain ⟨stillOrdered, stays, stillPeriodic, time⟩ := ordered.goesBack_calls times issued member
    periodic (fun earlier bound => early earlier (Nat.le_of_lt bound)) shape
  have reached := (stillOrdered.punctual id clock).mpr
    ⟨stays, time.symm ▸ early times (Nat.le_refl times)⟩
  exact mem_returned_iff.mpr ⟨reached, stillPeriodic.1⟩

theorem Placed.apart (placed : manager.Placed id front cancelled late limit)
    (issued : manager.Issued) (member : other ∈ front) : other ∉ id :: (cancelled ++ late) :=
  issued.apart placed.whole member

/-- Calls right before the deadline, while a timer from the front goes back to it. -/
theorem Placed.goesBack_calls (placed : manager.Placed id front cancelled late times)
    (issued : manager.Issued) (member : other ∈ front) (periodic : goesBack (manager.timer other))
    (early : ∀ earlier ≤ times, (manager.timer other).nextTime earlier < (manager.timer id).mTime)
    (shape : Shape) :
    let calls := List.replicate times ((manager.timer id).mTime - 1, shape)
    ∃ newFront newLate, (manager.afterCalls calls).Placed id newFront cancelled newLate 0 ∧
      other ∈ newFront ∧ goesBack ((manager.afterCalls calls).timer other) ∧
      (∀ later, ((manager.afterCalls calls).timer other).nextTime later =
        (manager.timer other).nextTime (times + later)) ∧
      (manager.afterCalls calls).timer id = manager.timer id ∧
      ∀ behind ∈ cancelled, (manager.afterCalls calls).timer behind = manager.timer behind := by
  induction times generalizing manager front late with
  | zero =>
      refine ⟨front, late, placed, member, periodic, fun later => ?_, rfl, fun _ _ => rfl⟩
      rw [Nat.zero_add]
      rfl
  | succ times ih =>
      have first : (manager.timer other).mTime < (manager.timer id).mTime := by
        simpa using early 0 (Nat.zero_le _)
      obtain ⟨isDue, clockEarly⟩ := le_pred_of_lt first
      set clock := (manager.timer id).mTime - 1
      have inSet := placed.mem_mTimers (List.mem_append_left _ member)
      have behindIt := placed.apart issued member
      have shown : other ∉ cancelled := fun isHidden => behindIt (by simp [isHidden])
      have expires := issued.expires shape.insertion clock
      obtain ⟨newFront, newLate, moved⟩ := placed.early_call issued clockEarly shape
      obtain ⟨stays, advanced⟩ :=
        (placed.punctual shown).goesBack_call issued inSet isDue periodic shape
      have idSame := expires.timer_early clockEarly
      have hiddenSame : ∀ behind ∈ cancelled,
          (shape.insertion.listExpiredTimer manager clock).1.timer behind =
            manager.timer behind := by
        intro behind isHidden
        rw [expires.timer, if_neg]
        intro reached
        exact placed.apart issued (reached.mem_front placed.whole clockEarly) (by simp [isHidden])
      have next : (manager.timer other).nextTime 1 < (manager.timer id).mTime :=
        early 1 (Nat.succ_le_succ (Nat.zero_le times))
      have isFront : other ∈ newFront := by
        rw [moved.whole, List.mem_append, List.mem_cons, List.mem_append] at stays
        rcases stays with isFront | rfl | isHidden | isLate
        · exact isFront
        · exact absurd List.mem_cons_self behindIt
        · exact absurd isHidden shown
        · have atLeast := moved.le_late isLate
          rw [idSame, advanced, ← KTimer.nextTime_zero (manager.timer other).update,
            KTimer.nextTime_update] at atLeast
          exact absurd next (UInt64.not_lt.mpr atLeast)
      have rest := ih moved expires.toIssued isFront (advanced ▸ goesBack_update periodic) (by
        intro earlier bound
        rw [advanced, idSame, KTimer.nextTime_update]
        exact early (earlier + 1) (Nat.succ_le_succ bound))
      simp only [idSame, advanced, KTimer.nextTime_update] at rest
      obtain ⟨lastFront, lastLate, last, lastMember, lastPeriodic, lastTime, lastId, lastHidden⟩ :=
        rest
      refine ⟨lastFront, lastLate, last, lastMember, lastPeriodic, fun later => ?_, lastId, ?_⟩
      · rw [Nat.add_right_comm]
        exact lastTime later
      · intro behind isHidden
        exact (lastHidden behind isHidden).trans (hiddenSame behind isHidden)

/-- With the tree whose searches start at the last pointer the timer comes behind
the hidden one, and so behind the timer with the deadline. -/
theorem Placed.overtakes_call (placed : manager.Placed id front cancelled late limit)
    (issued : manager.Issued) (member : other ∈ front) (isHidden : hidden ∈ cancelled)
    (periodic : goesBack (manager.timer other)) (isDue : (manager.timer other).mTime ≤ clock)
    (early : clock < (manager.timer id).mTime)
    (behind : KTimer.Comparator (some (manager.timer hidden))
      (some ((manager.timer other).setNextTime ((manager.timer other).nextTime 1))) = true) :
    ∃ lower upper,
      (Shape.left.insertion.listExpiredTimer manager clock).1.mTimers = lower ++ id :: upper ∧
        other ∈ upper := by
  have behindIt := placed.apart issued member
  have reached : manager.Reached other clock := by
    have shown : other ∉ cancelled := fun present => behindIt (by simp [present])
    exact (placed.punctual shown clock).mpr
      ⟨placed.mem_mTimers (List.mem_append_left _ member), isDue⟩
  let Kept (current : KTimerManager Action) : Prop :=
    [id, hidden].Sublist current.mTimers ∧ current.timer hidden = manager.timer hidden ∧
      (other ∈ current.mTimers → [id, other].Sublist current.mTimers)
  have kept : Kept (Shape.left.insertion.listExpiredTimer manager clock).1 := by
    refine issued.call_induction Shape.left clock ?_ ?_
    · have dropped : ({ manager with
          mTimers := manager.mTimers.dropWhile (manager.due clock) } :
            KTimerManager Action).mTimers =
          front.dropWhile (manager.due clock) ++ id :: (cancelled ++ late) :=
        placed.dropWhile early
      refine ⟨?_, rfl, fun present => absurd present ((issued.dropWhile clock).2 other reached)⟩
      rw [dropped]
      have rest : [hidden].Sublist (cancelled ++ late) := by simp [isHidden]
      exact (List.Sublist.cons_cons id rest).trans (List.sublist_append_right _ _)
    · intro candidate candidateReached _ current after lower upper same rearmed
      rintro ⟨pair, hiddenSame, others⟩
      have hiddenMember : hidden ∈ current.mTimers := pair.subset (by simp)
      have hiddenAfter := (rearmed.timer_other hiddenMember).trans hiddenSame
      have grows : current.mTimers.Sublist after.mTimers := by
        rw [rearmed.whole, rearmed.mTimers]
        exact (List.sublist_cons_self candidate upper).append_left lower
      refine ⟨pair.trans grows, hiddenAfter, fun present => ?_⟩
      by_cases here : other = candidate
      · subst here
        have passed : after.before hidden other := by
          rw [before, hiddenAfter, rearmed.timer_self, same]
          rw [KTimer.comparator_some] at behind ⊢
          simpa [KTimer.setNextTime, ← KTimer.nextTime_update] using behind
        have notUpper : hidden ∉ upper := by
          intro isUpper
          have found : hidden ∈ (locate (fun node => decide (after.before other node))
              (leftSpine current.mTimers)).2 := by
            rw [show leftSpine current.mTimers = Shape.left.tree current.mTimers from rfl,
              rearmed.place]
            exact isUpper
          have toLeft := locate_leftSpine found
          exact before_asymm passed (by simpa using toLeft)
        have isLower : id ∈ lower := by
          rw [rearmed.whole] at pair
          obtain ⟨first, second, parts, inLower, inUpper⟩ := List.sublist_append_iff.mp pair
          cases first with
          | nil =>
              rw [List.nil_append] at parts
              exact absurd (inUpper.subset (by simp [← parts])) notUpper
          | cons head rest =>
              obtain ⟨rfl, _⟩ := List.cons_eq_cons.mp parts
              exact inLower.subset List.mem_cons_self
        rw [rearmed.mTimers]
        exact List.cons_sublist_iff.mpr ⟨lower, other :: upper, rfl, isLower, by simp⟩
      · have old : other ∈ current.mTimers := by
          rw [rearmed.mTimers] at present
          rw [rearmed.whole]
          simpa [here] using present
        exact (others old).trans grows
  obtain ⟨_, _, others⟩ := kept
  have stays := ((issued.expires Shape.left.insertion clock).mem_iff other).mpr
    ⟨reached.mem, fun _ => periodic⟩
  obtain ⟨lower, upper, whole, isLower, isUpper⟩ := List.cons_sublist_iff.mp (others stays)
  obtain ⟨first, second, rfl⟩ := List.append_of_mem isLower
  refine ⟨first, second ++ upper, by simpa using whole, ?_⟩
  exact List.mem_append_right _ (List.singleton_sublist.mp isUpper)

/-- Where it overtakes a hidden one, the calls before the deadline lose it. -/
theorem Placed.not_returned_calls (placed : manager.Placed id front cancelled late times)
    (issued : manager.Issued) (member : other ∈ front) (isHidden : hidden ∈ cancelled)
    (periodic : goesBack (manager.timer other))
    (overtakes : (manager.timer other).Overtakes (times + 1) (manager.timer id).mTime
      (manager.timer hidden)) :
    let clock := (manager.timer id).mTime - 1
    other ∉ (manager.afterCalls (List.replicate (times + 1) (clock, Shape.left))).returned
      (.listExpiredTimer clock) := by
  intro clock isReturned
  have clockEarly : clock < (manager.timer id).mTime :=
    (le_pred_of_lt (overtakes.early 0 (Nat.zero_le _))).2
  obtain ⟨newFront, newLate, last, lastMember, lastPeriodic, lastTime, lastId, lastHidden⟩ :=
    placed.goesBack_calls issued member periodic
      (fun earlier bound => overtakes.early earlier (Nat.le_succ_of_le bound)) Shape.left
  set state := manager.afterCalls (List.replicate times (clock, Shape.left))
  have stateIssued : state.Issued := issued.afterCalls _
  have isDue : (state.timer other).mTime ≤ clock := by
    rw [← KTimer.nextTime_zero, lastTime]
    exact (le_pred_of_lt (overtakes.early times (Nat.le_succ times))).1
  have stillEarly : clock < (state.timer id).mTime := lastId.symm ▸ clockEarly
  have passes : KTimer.Comparator (some (state.timer hidden))
      (some ((state.timer other).setNextTime ((state.timer other).nextTime 1))) = true := by
    have passes := overtakes.behind
    rw [KTimer.comparator_some] at passes ⊢
    simpa [KTimer.setNextTime, lastHidden hidden isHidden, lastTime, stateIssued.unique,
      issued.unique] using passes
  obtain ⟨lower, upper, whole, isUpper⟩ := last.overtakes_call stateIssued lastMember isHidden
    lastPeriodic isDue stillEarly passes
  have expires := stateIssued.expires Shape.left.insertion clock
  have idSame := expires.timer_early stillEarly
  rw [List.replicate_succ', afterCalls_append] at isReturned
  have isLower := (mem_returned_iff.mp isReturned).1.mem_front whole (idSame.symm ▸ stillEarly)
  exact expires.toIssued.apart whole isLower (List.mem_cons_of_mem _ isUpper)

end KTimerManager

end FiberKcp.Timer
