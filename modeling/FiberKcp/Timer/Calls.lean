import FiberKcp.Timer.Trees

namespace FiberKcp.Timer

open FiberKcp.Data

namespace KTimerManager

variable {Action : Type} {manager current left right : KTimerManager Action} {id other : Nat}
  {clock : UInt64} {shape : Shape}

/-- The manager after calls of `listExpiredTimer`, each with its clock and the
trees of the set during it. -/
def afterCalls (manager : KTimerManager Action) : List (UInt64 × Shape) → KTimerManager Action
  | [] => manager
  | (clock, shape) :: rest => (shape.insertion.listExpiredTimer manager clock).1.afterCalls rest

theorem afterCalls_append (calls later : List (UInt64 × Shape)) :
    manager.afterCalls (calls ++ later) = (manager.afterCalls calls).afterCalls later := by
  induction calls generalizing manager with
  | nil => rfl
  | cons call rest ih => exact ih

theorem Issued.afterCalls (issued : manager.Issued) (calls : List (UInt64 × Shape)) :
    (manager.afterCalls calls).Issued := by
  induction calls generalizing manager with
  | nil => exact issued
  | cons call rest ih => exact ih (issued.expires call.2.insertion call.1).toIssued

/-- A periodic timer goes back into the set: it is advanced, and its pointer put
where the search for the new key ends. -/
structure Rearmed (shape : Shape) (current after : KTimerManager Action) (id : Nat)
    (front back : List Nat) : Prop where
  whole : current.mTimers = front ++ back
  absent : id ∉ front ++ back
  place : locate (fun other => decide (after.before id other)) (shape.tree current.mTimers) =
    (front, back)
  fits : FitsBetween after.before id front back
  advanced : after =
    { current.setTimer id (current.timer id).update with mTimers := front ++ id :: back }

theorem rearmed_rearm (shape : Shape) (issued : current.Issued) (absent : id ∉ current.mTimers) :
    ∃ front back, Rearmed shape current (shape.insertion.rearm current id) id front back := by
  let updated := current.setTimer id (current.timer id).update
  let place := locate (fun other => decide (updated.before id other)) (shape.tree current.mTimers)
  have identified : updated.Identified :=
    issued.toIdentified.setTimer (by rw [KTimer.update_mUniqueId, issued.unique])
  have separated : ∀ other ∈ inorder (shape.tree current.mTimers),
      updated.before id other ∨ updated.before other id := by
    intro other member
    rw [shape.inorder_tree] at member
    exact before_total identified fun same => absent (same ▸ member)
  have whole : place.1 ++ place.2 = current.mTimers :=
    locate_append.trans (shape.inorder_tree current.mTimers)
  obtain ⟨inserted, fits⟩ := treeInsert_eq separated
  refine ⟨place.1, place.2, whole.symm, fun member => absent (whole ▸ member), rfl, fits, ?_⟩
  have placed : shape.insertion.insert updated id = place.1 ++ id :: place.2 := inserted
  simp only [Insertion.rearm, ← placed, updated]

section Induction

variable {motive : KTimerManager Action → Prop}

/-- What every round of the loop keeps, the loop keeps. -/
theorem Issued.foldl_fire_induction (issued : current.Issued) (todo : List Nat)
    (nodup : todo.Nodup) (counted : ∀ id ∈ todo, id ≤ current.gUniqueIdCount)
    (absent : ∀ id ∈ todo, id ∉ current.mTimers)
    (fresh : ∀ id ∈ todo, current.timer id = manager.timer id)
    (step : ∀ id ∈ todo, goesBack (manager.timer id) → ∀ current after front back,
      current.timer id = manager.timer id → Rearmed shape current after id front back →
        motive current → motive after)
    (holds : motive current) (cbs : List (CallBack Action × UInt32)) :
    motive (todo.foldl shape.insertion.fire (current, cbs)).1 := by
  induction todo generalizing current cbs with
  | nil => exact holds
  | cons id rest ih =>
      obtain ⟨headFresh, restNodup⟩ := List.nodup_cons.mp nodup
      obtain ⟨headCounted, restCounted⟩ := List.forall_mem_cons.mp counted
      obtain ⟨headAbsent, restAbsent⟩ := List.forall_mem_cons.mp absent
      obtain ⟨headSame, restSame⟩ := List.forall_mem_cons.mp fresh
      obtain ⟨headStep, restStep⟩ := List.forall_mem_cons.mp step
      have first := (issued.fire shape.insertion headCounted headAbsent cbs).1
      have next : motive (shape.insertion.fire (current, cbs) id).1 := by
        cases callback : (current.timer id).mCb with
        | none => simpa [Insertion.fire, callback] using holds
        | some cb =>
            by_cases oneShot : (current.timer id).mRecycleTime = 0
            · simpa [Insertion.fire, callback, oneShot] using holds
            · obtain ⟨front, back, rearmed⟩ := rearmed_rearm shape issued headAbsent
              have periodic : goesBack (manager.timer id) := by
                rw [← headSame, goesBack, callback]
                exact ⟨rfl, oneShot⟩
              have kept := headStep periodic current _ front back headSame rearmed holds
              simpa [Insertion.fire, callback, oneShot] using kept
      have apart : ∀ other ∈ rest, other ≠ id := fun other member same =>
        headFresh (same ▸ member)
      refine ih first.toIssued restNodup
        (fun other member => first.count.symm ▸ restCounted other member) ?_ ?_ restStep next _
      · intro other member present
        rcases (first.mem_iff other).mp present with old | ⟨here, _⟩
        · exact restAbsent other member old
        · exact apart other member (List.mem_singleton.mp here)
      · intro other member
        rw [first.timer, if_neg (by simpa using apart other member)]
        exact restSame other member

/-- What holds of the pointers that a call leaves, and is kept by every round of
its loop, holds after the call. -/
theorem Issued.call_induction (issued : manager.Issued) (shape : Shape) (clock : UInt64)
    (start : motive { manager with mTimers := manager.mTimers.dropWhile (manager.due clock) })
    (step : ∀ id, manager.Reached id clock → goesBack (manager.timer id) →
      ∀ current after front back, current.timer id = manager.timer id →
        Rearmed shape current after id front back → motive current → motive after) :
    motive (shape.insertion.listExpiredTimer manager clock).1 := by
  rw [Insertion.listExpiredTimer]
  split
  · rename_i empty
    have same : manager.mTimers.dropWhile (manager.due clock) = manager.mTimers := by
      simp [List.isEmpty_iff.mp empty]
    rwa [same] at start
  · obtain ⟨rest, apart⟩ := issued.dropWhile clock
    exact rest.foldl_fire_induction _
      (issued.nodup.sublist (List.takeWhile_sublist _))
      (fun id member => issued.counted id (List.takeWhile_subset _ member)) apart
      (fun _ _ => rfl) step start []

end Induction

/-! A set in order. -/

def noLater (manager : KTimerManager Action) (left right : Nat) : Prop :=
  (manager.timer left).mTime ≤ (manager.timer right).mTime

instance (manager : KTimerManager Action) : IsTrans Nat manager.noLater :=
  ⟨fun _ _ _ => UInt64.le_trans⟩

/-- No timer in the set is in front of one that is due earlier. -/
def InOrder (manager : KTimerManager Action) : Prop := manager.mTimers.Pairwise manager.noLater

theorem noLater_congr {left right : KTimerManager Action} {values : List Nat}
    (same : ∀ other ∈ values, left.timer other = right.timer other)
    (ordered : values.Pairwise left.noLater) : values.Pairwise right.noLater := by
  refine List.Pairwise.imp_of_mem ?_ ordered
  intro earlier later earlierMember laterMember first
  rwa [noLater, same earlier earlierMember, same later laterMember] at first

namespace Rearmed

variable {after : KTimerManager Action} {front back : List Nat}
  (rearmed : Rearmed shape current after id front back)

include rearmed

theorem mTimers : after.mTimers = front ++ id :: back := by rw [rearmed.advanced]

theorem timer_self : after.timer id = (current.timer id).update := by
  rw [rearmed.advanced]
  exact setTimer_timer_self ..

theorem timer_other (member : other ∈ current.mTimers) :
    after.timer other = current.timer other := by
  have different : other ≠ id := fun same => rearmed.absent (rearmed.whole ▸ same ▸ member)
  rw [rearmed.advanced]
  exact setTimer_timer_other _ _ different

/-- The neighbours are due no later and no earlier. -/
theorem between : FitsBetween after.noLater id front back where
  last := fun last isLast => KTimer.mTime_le_of_comparator (rearmed.fits.last last isLast)
  next := fun next isNext => KTimer.mTime_le_of_comparator (rearmed.fits.next next isNext)

theorem inOrder (ordered : current.InOrder) : after.InOrder := by
  have moved : (front ++ back).Pairwise after.noLater := by
    rw [← rearmed.whole]
    exact noLater_congr (fun other member => (rearmed.timer_other member).symm) ordered
  rw [InOrder, rearmed.mTimers]
  exact rearmed.between.pairwise moved

end Rearmed

/-- The set is in order after a call if what the call leaves of it is. -/
theorem Issued.inOrder_call (issued : manager.Issued) (shape : Shape) (clock : UInt64)
    (rest : (manager.mTimers.dropWhile (manager.due clock)).Pairwise manager.noLater) :
    (shape.insertion.listExpiredTimer manager clock).1.InOrder :=
  issued.call_induction shape clock rest
    fun _ _ _ _ _ _ _ _ rearmed ordered => rearmed.inOrder ordered

/-- Calls get to the timer as soon as it is due. -/
def Punctual (manager : KTimerManager Action) (id : Nat) : Prop :=
  ∀ clock, manager.Reached id clock ↔ id ∈ manager.mTimers ∧ (manager.timer id).mTime ≤ clock

theorem Reached.mem (reached : manager.Reached id clock) : id ∈ manager.mTimers :=
  List.takeWhile_subset _ reached

theorem Reached.mTime_le (reached : manager.Reached id clock) :
    (manager.timer id).mTime ≤ clock := by
  have isDue : manager.due clock id = true := List.mem_takeWhile_imp reached
  simpa [due] using isDue

theorem Expires.timer_early {after : KTimerManager Action}
    {cbs : List (CallBack Action × UInt32)} (expires : Expires manager clock after cbs)
    (early : clock < (manager.timer id).mTime) : after.timer id = manager.timer id := by
  rw [expires.timer, if_neg]
  exact fun reached => UInt64.not_le.mpr early reached.mTime_le

theorem Issued.apart {front back : List Nat} (issued : manager.Issued)
    (whole : manager.mTimers = front ++ back) (member : id ∈ front) : id ∉ back := by
  have nodup := issued.nodup
  rw [whole] at nodup
  exact List.disjoint_of_nodup_append nodup member

/-- A call before the deadline of a timer gets to timers in front of it. -/
theorem Reached.mem_front {front back : List Nat} (reached : manager.Reached other clock)
    (whole : manager.mTimers = front ++ id :: back) (early : clock < (manager.timer id).mTime) :
    other ∈ front := by
  have notDue : ¬ manager.due clock id = true := by simpa [due] using early
  rw [Reached, whole, List.takeWhile_append, List.takeWhile_cons_of_neg notDue] at reached
  split at reached
  · simpa using reached
  · exact List.takeWhile_subset _ reached

/-- A timer is punctual if no timer in front of it is due later. -/
theorem punctual_of_front {front back : List Nat} (whole : manager.mTimers = front ++ id :: back)
    (ahead : ∀ other ∈ front, manager.noLater other id) : manager.Punctual id := by
  intro clock
  constructor
  · intro reached
    exact ⟨reached.mem, reached.mTime_le⟩
  · rintro ⟨_, isDue⟩
    have allDue : ∀ other ∈ front, manager.due clock other = true := by
      intro other member
      simpa [due] using UInt64.le_trans (ahead other member) isDue
    have selfDue : manager.due clock id = true := by simpa [due] using isDue
    rw [Reached, whole, List.takeWhile_append_of_pos allDue, List.takeWhile_cons_of_pos selfDue]
    simp

theorem InOrder.punctual (ordered : manager.InOrder) (id : Nat) : manager.Punctual id := by
  by_cases member : id ∈ manager.mTimers
  · obtain ⟨front, back, whole⟩ := List.append_of_mem member
    rw [InOrder, whole] at ordered
    have across := (List.pairwise_append.mp ordered).2.2
    exact punctual_of_front whole fun other isFront => across other isFront id List.mem_cons_self
  · intro clock
    constructor
    · exact fun reached => absurd reached.mem member
    · exact fun present => absurd present.1 member

/-- A punctual periodic timer that is due goes back. -/
theorem Punctual.goesBack_call (punctual : manager.Punctual id) (issued : manager.Issued)
    (member : id ∈ manager.mTimers) (isDue : (manager.timer id).mTime ≤ clock)
    (periodic : goesBack (manager.timer id)) (shape : Shape) :
    id ∈ (shape.insertion.listExpiredTimer manager clock).1.mTimers ∧
      (shape.insertion.listExpiredTimer manager clock).1.timer id = (manager.timer id).update := by
  have expires := issued.expires shape.insertion clock
  have reached := (punctual clock).mpr ⟨member, isDue⟩
  refine ⟨(expires.mem_iff id).mpr ⟨member, fun _ => periodic⟩, ?_⟩
  rw [expires.timer, if_pos reached, fired, if_pos periodic.1]

/-- In two runs the timer is in both sets, and the same, or it is cancelled. -/
def Agree (left right : KTimerManager Action) (id : Nat) : Prop :=
  (left.timer id).mCb = none ∧ (right.timer id).mCb = none ∨
    left.timer id = right.timer id ∧ (id ∈ left.mTimers ↔ id ∈ right.mTimers)

theorem Agree.returnedCallback (agree : Agree left right id) :
    returnedCallback (left.timer id) = returnedCallback (right.timer id) := by
  rcases agree with ⟨leftNull, rightNull⟩ | ⟨same, _⟩
  · simp [KTimerManager.returnedCallback, leftNull, rightNull]
  · rw [same]

theorem Agree.reached (same : left.timer id = right.timer id)
    (members : id ∈ left.mTimers ↔ id ∈ right.mTimers) (leftPunctual : left.Punctual id)
    (rightPunctual : right.Punctual id) (clock : UInt64) :
    left.Reached id clock ↔ right.Reached id clock := by
  rw [leftPunctual, rightPunctual, same, members]

theorem Agree.mem_returned (agree : Agree left right id)
    (leftPunctual : (left.timer id).mCb.isSome → left.Punctual id)
    (rightPunctual : (right.timer id).mCb.isSome → right.Punctual id) (clock : UInt64) :
    id ∈ left.returned (.listExpiredTimer clock) ↔
      id ∈ right.returned (.listExpiredTimer clock) := by
  rw [mem_returned_iff, mem_returned_iff]
  rcases agree with ⟨leftNull, rightNull⟩ | ⟨same, members⟩
  · simp [leftNull, rightNull]
  · rw [same, and_congr_left_iff]
    intro callback
    exact Agree.reached same members (leftPunctual (same ▸ callback)) (rightPunctual callback) clock

theorem Agree.listExpiredTimer (agree : Agree left right id) (leftIssued : left.Issued)
    (rightIssued : right.Issued) (leftPunctual : (left.timer id).mCb.isSome → left.Punctual id)
    (rightPunctual : (right.timer id).mCb.isSome → right.Punctual id) (clock : UInt64)
    (leftShape rightShape : Shape) :
    Agree (leftShape.insertion.listExpiredTimer left clock).1
      (rightShape.insertion.listExpiredTimer right clock).1 id := by
  have leftExpires := leftIssued.expires leftShape.insertion clock
  have rightExpires := rightIssued.expires rightShape.insertion clock
  rcases agree with ⟨leftNull, rightNull⟩ | ⟨same, members⟩
  · exact .inl ⟨(leftExpires.mCb id).trans leftNull, (rightExpires.mCb id).trans rightNull⟩
  · cases callback : (right.timer id).mCb with
    | none =>
        exact .inl ⟨(leftExpires.mCb id).trans (same ▸ callback),
          (rightExpires.mCb id).trans callback⟩
    | some cb =>
        have reached := Agree.reached same members
          (leftPunctual (by simp [same, callback])) (rightPunctual (by simp [callback])) clock
        refine .inr ⟨?_, ?_⟩
        · simp only [leftExpires.timer, rightExpires.timer, reached, same]
        · rw [leftExpires.mem_iff, rightExpires.mem_iff, reached, same, members]

end KTimerManager

end FiberKcp.Timer
