import FiberKcp.Data.SearchTree
import FiberKcp.Timer.Scan

namespace FiberKcp.Timer

open FiberKcp.Data

/-! `mTimers` as the tree that `std::set` keeps.  `insert` goes down from the root
with the keys as they are now.  As long as the set is in comparator order the
place does not depend on the tree; after a key was changed in place it does. -/

/-- The tree in which the pointers lie while an operation runs, for every
sequence of them. -/
structure Shape where
  tree : List Nat → BinaryTree Nat
  inorder_tree : ∀ ids, inorder (tree ids) = ids

namespace Shape

variable {Action : Type}

def left : Shape where
  tree := leftSpine
  inorder_tree := fun _ => inorder_leftSpine

/-- `mTimers.insert`. -/
def insertion (shape : Shape) : Insertion Action where
  insert := fun manager id => treeInsert manager.before id (shape.tree manager.mTimers)
  places := by
    intro manager id identified absent
    have separated : ∀ other ∈ inorder (shape.tree manager.mTimers),
        manager.before id other ∨ manager.before other id := by
      intro other member
      rw [shape.inorder_tree] at member
      exact KTimerManager.before_total identified fun same => absent (same ▸ member)
    obtain ⟨front, back, whole, inserted, _⟩ := treeInsert_fits separated
    exact ⟨front, back, (shape.inorder_tree _).symm.trans whole, inserted⟩

end Shape

namespace KTimerManager

variable {Action : Type} {manager after : KTimerManager Action} {id : Nat} {shape : Shape}

/-- `KTimerManager.insertTimer` with the tree: `insert` returns `begin()` when the
pointer is now the first. -/
def insertTimerIn (manager : KTimerManager Action) (shape : Shape) (id : Nat) :
    KTimerManager Action :=
  let mTimers := shape.insertion.insert manager id
  { manager with mTimers, mTickle := manager.mTickle || mTimers.head? = some id }

/-- `KTimerManager.perform` with the tree. -/
def performIn (manager : KTimerManager Action) :
    TimerOperation Action × Shape → Option (KTimerManager Action)
  | (.addTimer now ms cb recycle tid, shape) =>
      some ((manager.construct now ms (cb.map .plain) recycle tid).insertTimerIn shape
        (manager.gUniqueIdCount + 1))
  | (.addConditionTimer now ms cb cond recycle, shape) =>
      some ((manager.construct now ms (some (.onTimer cond cb)) recycle 0).insertTimerIn shape
        (manager.gUniqueIdCount + 1))
  | (.listExpiredTimer now, shape) => some (shape.insertion.listExpiredTimer manager now).1
  | (operation, _) => manager.perform operation

/-! The objects keep their ids, and no pointer is in the set twice. -/

theorem Issued.insertTimerIn (issued : manager.Issued) (counted : id ≤ manager.gUniqueIdCount)
    (absent : id ∉ manager.mTimers) : (manager.insertTimerIn shape id).Issued := by
  obtain ⟨front, back, whole, inserted⟩ :=
    shape.insertion.places manager id issued.toIdentified absent
  have placed := issued.insertBetween counted absent whole
  rw [← inserted] at placed
  exact ⟨⟨placed.unique, placed.counted⟩, placed.nodup⟩

theorem Issued.performIn (issued : manager.Issued) {step : TimerOperation Action × Shape}
    (performed : manager.performIn step = some after) : after.Issued := by
  obtain ⟨operation, shape⟩ := step
  cases operation with
  | addTimer now ms cb recycle tid =>
      cases performed
      exact (issued.construct ..).insertTimerIn (Nat.le_refl _) issued.fresh
  | addConditionTimer now ms cb cond recycle =>
      cases performed
      exact (issued.construct ..).insertTimerIn (Nat.le_refl _) issued.fresh
  | listExpiredTimer now =>
      cases performed
      exact (issued.expires shape.insertion now).toIssued
  | _ =>
      simp only [KTimerManager.performIn] at performed
      exact issued.perform performed

theorem issued_of_run_in {steps : List (TimerOperation Action × Shape)}
    (run : Run KTimerManager.performIn anyStep initial steps manager) : manager.Issued :=
  run.invariant _ issued_initial fun issued _ performed => issued.performIn performed

/-- A set in order has one place for a pointer. -/
theorem Increasing.cut (identified : manager.Identified) (increasing : manager.Increasing)
    (absent : id ∉ manager.mTimers) : ∃ lower upper, manager.mTimers = lower ++ upper ∧
      (∀ other ∈ lower, manager.before other id ∧ ¬ manager.before id other) ∧
      ∀ other ∈ upper, manager.before id other := by
  have closed : manager.mTimers.Pairwise fun left right =>
      decide (manager.before right id) = true → decide (manager.before left id) = true := by
    refine List.Pairwise.imp ?_ increasing
    intro left right first later
    have next : manager.before right id := by simpa using later
    have both : manager.before left id := IsTrans.trans _ _ _ first next
    simpa using both
  let under := fun other => decide (manager.before other id)
  refine ⟨manager.mTimers.takeWhile under, manager.mTimers.dropWhile under,
    List.takeWhile_append_dropWhile.symm, fun other member => ?_, fun other member => ?_⟩
  · have taken : under other = true := List.mem_takeWhile_imp member
    have first : manager.before other id := by simpa [under] using taken
    exact ⟨first, before_asymm first⟩
  · have kept : other ∈ manager.mTimers.filter fun other => !under other :=
      dropWhile_eq_filter closed ▸ member
    obtain ⟨isTimer, notUnder⟩ := List.mem_filter.mp kept
    have notBefore : ¬ manager.before other id := by simpa [under] using notUnder
    have different : id ≠ other := fun same => absent (same ▸ isTimer)
    exact (before_total identified different).resolve_right notBefore

theorem insert_eq_of_increasing (identified : manager.Identified)
    (increasing : manager.Increasing) (shape : Shape) (absent : id ∉ manager.mTimers) :
    shape.insertion.insert manager id = setInsert manager.before id manager.mTimers := by
  obtain ⟨lower, upper, whole, under, above⟩ := increasing.cut identified absent
  have down : treeInsert manager.before id (shape.tree manager.mTimers) = lower ++ id :: upper :=
    treeInsert_between ((shape.inorder_tree _).trans whole) under above
  have walked := setInsert_between under above
  rw [← whole] at walked
  exact down.trans walked.symm

theorem insertTimerIn_eq (identified : manager.Identified) (increasing : manager.Increasing)
    (absent : id ∉ manager.mTimers) :
    manager.insertTimerIn shape id = (manager.insertTimer id).1 := by
  have inserted : shape.insertion.insert manager id = setInsert manager.before id manager.mTimers :=
    insert_eq_of_increasing identified increasing shape absent
  have first : decide ((setInsert manager.before id manager.mTimers).head? = some id) =
      (setInsert manager.before id manager.mTimers).head?.all fun front =>
        !decide (manager.before front id) := by
    obtain ⟨lower, upper, whole, under, above⟩ := increasing.cut identified absent
    have walked := setInsert_between under above
    rw [← whole] at walked
    rw [walked]
    cases lower with
    | nil => simp [before_irrefl]
    | cons head rest =>
        have different : head ≠ id := fun same => absent (by simp [whole, same])
        simp [different, (under head List.mem_cons_self).1]
  simp only [insertTimerIn, insertTimer, inserted, first]
  cases manager.mTickle <;> simp

theorem rearm_eq_of_increasing (sorted : manager.Sorted) (shape : Shape)
    (absent : id ∉ manager.mTimers) :
    shape.insertion.rearm manager id = manager.rearm id := by
  have identified : (manager.setTimer id (manager.timer id).update).Identified :=
    sorted.toIdentified.setTimer (by rw [KTimer.update_mUniqueId, sorted.unique])
  have increasing := increasing_setTimer_of_absent (manager.timer id).update absent
    sorted.increasing
  have inserted := insert_eq_of_increasing identified increasing shape absent
  simp only [Insertion.rearm, KTimerManager.rearm, inserted]

theorem foldl_fire_eq_of_increasing (sorted : manager.Sorted) (shape : Shape) (todo : List Nat)
    (nodup : todo.Nodup) (counted : ∀ id ∈ todo, id ≤ manager.gUniqueIdCount)
    (absent : ∀ id ∈ todo, id ∉ manager.mTimers) (cbs : List (CallBack Action × UInt32)) :
    todo.foldl shape.insertion.fire (manager, cbs) = todo.foldl fire (manager, cbs) := by
  induction todo generalizing manager cbs with
  | nil => rfl
  | cons id rest ih =>
      obtain ⟨fresh, restNodup⟩ := List.nodup_cons.mp nodup
      obtain ⟨headCounted, restCounted⟩ := List.forall_mem_cons.mp counted
      obtain ⟨headAbsent, restAbsent⟩ := List.forall_mem_cons.mp absent
      have one : shape.insertion.fire (manager, cbs) id = fire (manager, cbs) id := by
        have rearmed := rearm_eq_of_increasing sorted shape headAbsent
        cases callback : (manager.timer id).mCb with
        | none => simp [Insertion.fire, fire, callback]
        | some cb => simp [Insertion.fire, fire, callback, rearmed]
      have first := fire_spec sorted headCounted headAbsent cbs
      have stillAbsent : ∀ other ∈ rest, other ∉ (fire (manager, cbs) id).1.mTimers := by
        intro other member present
        rcases (first.members other).mp present with old | ⟨here, _⟩
        · exact restAbsent other member old
        · exact fresh (List.mem_singleton.mp here ▸ member)
      rw [List.foldl_cons, List.foldl_cons, one]
      exact ih first.toSorted restNodup
        (fun other member => first.count.symm ▸ restCounted other member) stillAbsent _

/-- While the set is in order, `perform` is what every tree does. -/
theorem performIn_eq_perform (sorted : manager.Sorted) (step : TimerOperation Action × Shape) :
    manager.performIn step = manager.perform step.1 := by
  obtain ⟨operation, shape⟩ := step
  have added : ∀ now ms cb recycle tid,
      (manager.construct now ms cb recycle tid).insertTimerIn shape (manager.gUniqueIdCount + 1) =
        (manager.addTimer now ms cb recycle tid).1 := by
    intro now ms cb recycle tid
    have constructed := sorted.construct now ms cb recycle tid
    refine insertTimerIn_eq constructed.toIdentified constructed.increasing fun present => ?_
    exact Nat.not_succ_le_self _ (sorted.counted _ present)
  cases operation with
  | addTimer now ms cb recycle tid => simp only [performIn, perform, added]
  | addConditionTimer now ms cb cond recycle =>
      simp only [performIn, perform, addConditionTimer, added]
  | listExpiredTimer now =>
      have issued : manager.Issued := ⟨sorted.toIdentified, sorted.increasing.nodup⟩
      obtain ⟨rest, apart⟩ := issued.dropWhile now
      have restSorted : ({ manager with mTimers := manager.mTimers.dropWhile (manager.due now) } :
          KTimerManager Action).Sorted :=
        ⟨rest.toIdentified, List.Pairwise.sublist (List.dropWhile_sublist _) sorted.increasing⟩
      have same := foldl_fire_eq_of_increasing restSorted shape
        (manager.mTimers.takeWhile (manager.due now))
        (issued.nodup.sublist (List.takeWhile_sublist _))
        (fun id member => sorted.counted id (List.takeWhile_subset _ member)) apart []
      simp only [performIn, perform, Insertion.listExpiredTimer, listExpiredTimer, same]
  | _ => rfl

/-- As long as every write leaves its timer in its place, the set does under any
trees what `perform` says. -/
theorem run_in_of_run {operations : List (TimerOperation Action)}
    (run : Run perform KeepsPlace initial operations manager) :
    manager.Sorted ∧ ∀ steps : List (TimerOperation Action × Shape),
      steps.map Prod.fst = operations → Run performIn anyStep initial steps manager := by
  induction run with
  | nil =>
      refine ⟨sorted_initial, fun steps same => ?_⟩
      rw [List.map_eq_nil_iff.mp same]
      exact .nil
  | snoc _ kept performed ih =>
      obtain ⟨sorted, earlier⟩ := ih
      obtain ⟨identified, exact⟩ := perform_spec sorted performed
      refine ⟨⟨identified, exact.mp kept⟩, fun steps same => ?_⟩
      obtain ⟨first, last, rfl, firstSame, lastSame⟩ := List.map_eq_append_iff.mp same
      obtain ⟨step, rfl, rfl⟩ := List.map_eq_singleton_iff.mp lastSame
      refine (earlier first firstSame).snoc trivial ?_
      rw [performIn_eq_perform sorted, performed]

end KTimerManager

end FiberKcp.Timer
