import Mathlib.Data.List.Nodup
import FiberKcp.Timer.Origin

namespace FiberKcp.Timer

open FiberKcp.Data

/-! `listExpiredTimer` without regard to where `mTimers.insert` puts a periodic
timer: what it does to the objects and to the members of the set does not depend
on the place. -/

/-- A way to insert a pointer that is not in the set. -/
structure Insertion (Action : Type) where
  insert : KTimerManager Action → Nat → List Nat
  places : ∀ manager id, manager.Identified → id ∉ manager.mTimers →
    ∃ front back, manager.mTimers = front ++ back ∧ insert manager id = front ++ id :: back

namespace Insertion

variable {Action : Type}

/-- The insertion of `KTimerManager.rearm`. -/
def walk : Insertion Action where
  insert := fun manager id => setInsert manager.before id manager.mTimers
  places := fun _ _ identified absent => setInsert_split fun _ member =>
    KTimerManager.before_total identified fun same => absent (same ▸ member)

def rearm (insertion : Insertion Action) (manager : KTimerManager Action) (id : Nat) :
    KTimerManager Action :=
  let updated := manager.setTimer id (manager.timer id).update
  { updated with mTimers := insertion.insert updated id }

def fire (insertion : Insertion Action)
    (state : KTimerManager Action × List (CallBack Action × UInt32)) (id : Nat) :
    KTimerManager Action × List (CallBack Action × UInt32) :=
  let timer := state.1.timer id
  match timer.mCb with
  | none => state
  | some cb =>
      (if timer.mRecycleTime ≠ 0 then insertion.rearm state.1 id else state.1,
       state.2 ++ [(cb, timer.mTid)])

/-- `KTimerManager.listExpiredTimer` with its insertion left open. -/
def listExpiredTimer (insertion : Insertion Action) (manager : KTimerManager Action)
    (now : UInt64) : KTimerManager Action × List (CallBack Action × UInt32) :=
  if manager.mTimers.isEmpty then (manager, [])
  else
    (manager.mTimers.takeWhile (manager.due now)).foldl insertion.fire
      ({ manager with mTimers := manager.mTimers.dropWhile (manager.due now) }, [])

theorem listExpiredTimer_walk (manager : KTimerManager Action) (now : UInt64) :
    walk.listExpiredTimer manager now = manager.listExpiredTimer now := rfl

end Insertion

namespace KTimerManager

variable {Action : Type} {manager after : KTimerManager Action} {id other : Nat}
  {now : UInt64} {cbs : List (CallBack Action × UInt32)}

/-- The scan of a call at the clock gets to the timer. -/
def Reached (manager : KTimerManager Action) (id : Nat) (clock : UInt64) : Prop :=
  id ∈ manager.mTimers.takeWhile (manager.due clock)

instance (id : Nat) (clock : UInt64) : Decidable (manager.Reached id clock) :=
  inferInstanceAs (Decidable (_ ∈ _))

theorem update_mCb (timer : KTimer Action) : timer.update.mCb = timer.mCb := by
  simp only [KTimer.update]
  split <;> rfl

theorem update_mTid (timer : KTimer Action) : timer.update.mTid = timer.mTid := by
  simp only [KTimer.update]
  split <;> rfl

theorem fired_mCb (timer : KTimer Action) : (fired timer).mCb = timer.mCb := by
  simp only [fired]
  split
  · exact update_mCb timer
  · rfl

theorem fired_mTid (timer : KTimer Action) : (fired timer).mTid = timer.mTid := by
  simp only [fired]
  split
  · exact update_mTid timer
  · rfl

/-- What the loop over the expired timers does, none of which is in the set. -/
structure Fires (before after : KTimerManager Action) (todo : List Nat) : Prop
    extends Issued after where
  count : after.gUniqueIdCount = before.gUniqueIdCount
  timer : ∀ id, after.timer id =
    if id ∈ todo then fired (before.timer id) else before.timer id
  mem_iff : ∀ id, id ∈ after.mTimers ↔
    id ∈ before.mTimers ∨ id ∈ todo ∧ goesBack (before.timer id)

/-- A pointer that was not in the set is put between the others. -/
theorem Issued.insertBetween (issued : manager.Issued) (counted : id ≤ manager.gUniqueIdCount)
    (absent : id ∉ manager.mTimers) {front back : List Nat}
    (whole : manager.mTimers = front ++ back) :
    ({ manager with mTimers := front ++ id :: back } : KTimerManager Action).Issued := by
  have nodup := issued.nodup
  rw [whole] at nodup absent
  refine ⟨⟨issued.unique, fun candidate member => ?_⟩, ?_⟩
  · have either : candidate = id ∨ candidate ∈ manager.mTimers := by
      simp only [whole, List.mem_append, List.mem_cons] at member ⊢
      tauto
    rcases either with rfl | older
    · exact counted
    · exact issued.counted candidate older
  · exact List.nodup_middle.mpr (List.nodup_cons.mpr ⟨absent, nodup⟩)

theorem Issued.rearm (issued : manager.Issued) (insertion : Insertion Action)
    (counted : id ≤ manager.gUniqueIdCount)
    (absent : id ∉ manager.mTimers) :
    (insertion.rearm manager id).Issued ∧ ∀ candidate,
      candidate ∈ (insertion.rearm manager id).mTimers ↔
        candidate = id ∨ candidate ∈ manager.mTimers := by
  have moved : (manager.setTimer id (manager.timer id).update).Issued :=
    issued.setTimer (by rw [KTimer.update_mUniqueId, issued.unique])
  obtain ⟨front, back, whole, inserted⟩ := insertion.places _ id moved.toIdentified absent
  have rearmed : insertion.rearm manager id =
      { manager.setTimer id (manager.timer id).update with mTimers := front ++ id :: back } := by
    simp only [Insertion.rearm, inserted]
  rw [rearmed]
  refine ⟨moved.insertBetween counted absent whole, fun candidate => ?_⟩
  rw [setTimer_mTimers] at whole
  rw [whole]
  simp only [List.mem_append, List.mem_cons]
  tauto

theorem Issued.fire (issued : manager.Issued) (insertion : Insertion Action)
    (counted : id ≤ manager.gUniqueIdCount)
    (absent : id ∉ manager.mTimers) (cbs : List (CallBack Action × UInt32)) :
    Fires manager (insertion.fire (manager, cbs) id).1 [id] ∧
      (insertion.fire (manager, cbs) id).2 =
        cbs ++ (returnedCallback (manager.timer id)).toList := by
  cases callback : (manager.timer id).mCb with
  | none =>
      have same : insertion.fire (manager, cbs) id = (manager, cbs) := by
        simp [Insertion.fire, callback]
      rw [same]
      refine ⟨⟨issued, rfl, fun candidate => ?_, fun candidate => ?_⟩, ?_⟩
      · by_cases here : candidate = id <;> simp [here, fired, callback]
      · by_cases here : candidate = id <;> simp [here, goesBack, callback]
      · simp [returnedCallback, callback]
  | some cb =>
      by_cases oneShot : (manager.timer id).mRecycleTime = 0
      · have same : insertion.fire (manager, cbs) id =
            (manager, cbs ++ [(cb, (manager.timer id).mTid)]) := by
          simp [Insertion.fire, callback, oneShot]
        rw [same]
        refine ⟨⟨issued, rfl, fun candidate => ?_, fun candidate => ?_⟩, ?_⟩
        · by_cases here : candidate = id <;> simp [here, fired, callback, KTimer.update, oneShot]
        · by_cases here : candidate = id <;> simp [here, goesBack, oneShot]
        · simp [returnedCallback, callback]
      · have next : insertion.fire (manager, cbs) id =
            (insertion.rearm manager id, cbs ++ [(cb, (manager.timer id).mTid)]) := by
          simp [Insertion.fire, callback, oneShot]
        obtain ⟨rearmed, members⟩ := issued.rearm insertion counted absent
        rw [next]
        refine ⟨⟨rearmed, rfl, fun candidate => ?_, fun candidate => ?_⟩, ?_⟩
        · by_cases here : candidate = id
          · subst here
            simp [Insertion.rearm, fired, callback]
          · simp [Insertion.rearm, setTimer_timer_other _ _ here, here]
        · rw [members]
          by_cases here : candidate = id <;> simp [here, goesBack, callback, oneShot]
        · simp [returnedCallback, callback]

theorem Issued.foldl_fire (issued : manager.Issued) (insertion : Insertion Action)
    (todo : List Nat) (nodup : todo.Nodup) (counted : ∀ id ∈ todo, id ≤ manager.gUniqueIdCount)
    (absent : ∀ id ∈ todo, id ∉ manager.mTimers) (cbs : List (CallBack Action × UInt32)) :
    Fires manager (todo.foldl insertion.fire (manager, cbs)).1 todo ∧
      (todo.foldl insertion.fire (manager, cbs)).2 =
        cbs ++ todo.filterMap fun id => returnedCallback (manager.timer id) := by
  induction todo generalizing manager cbs with
  | nil => exact ⟨⟨issued, rfl, by simp, by simp⟩, by simp⟩
  | cons id rest ih =>
      obtain ⟨fresh, restNodup⟩ := List.nodup_cons.mp nodup
      obtain ⟨headCounted, restCounted⟩ := List.forall_mem_cons.mp counted
      obtain ⟨headAbsent, restAbsent⟩ := List.forall_mem_cons.mp absent
      obtain ⟨first, callbacks⟩ := issued.fire insertion headCounted headAbsent cbs
      have restSame : ∀ other ∈ rest,
          (insertion.fire (manager, cbs) id).1.timer other = manager.timer other := by
        intro other member
        have different : other ≠ id := fun same => fresh (same ▸ member)
        simp [first.timer, different]
      have stillAbsent : ∀ other ∈ rest,
          other ∉ (insertion.fire (manager, cbs) id).1.mTimers := by
        intro other member present
        rcases (first.mem_iff other).mp present with old | ⟨here, _⟩
        · exact restAbsent other member old
        · exact fresh (List.mem_singleton.mp here ▸ member)
      obtain ⟨later, laterCallbacks⟩ := ih first.toIssued restNodup
        (fun other member => first.count.symm ▸ restCounted other member) stillAbsent
        (insertion.fire (manager, cbs) id).2
      refine ⟨⟨later.toIssued, later.count.trans first.count, fun other => ?_, fun other => ?_⟩, ?_⟩
      · rw [List.foldl_cons, later.timer, first.timer]
        by_cases here : other = id
        · subst here
          simp [fresh]
        · simp [here]
      · rw [List.foldl_cons, later.mem_iff, first.mem_iff]
        by_cases here : other = id
        · subst here
          simp [fresh]
        · by_cases member : other ∈ rest
          · simp [here, member, restSame other member]
          · simp [here, member]
      · have same : (rest.filterMap fun other =>
              returnedCallback ((insertion.fire (manager, cbs) id).1.timer other)) =
            rest.filterMap fun other => returnedCallback (manager.timer other) :=
          List.filterMap_congr fun other member => by rw [restSame other member]
        rw [List.foldl_cons, laterCallbacks, callbacks, same]
        cases found : returnedCallback (manager.timer id) <;> simp [found]

/-- What a call of `listExpiredTimer` does: the timers that the scan gets to are
fired, in any order of the set, and stay if they are periodic. -/
structure Expires (before : KTimerManager Action) (now : UInt64) (after : KTimerManager Action)
    (cbs : List (CallBack Action × UInt32)) : Prop extends Issued after where
  count : after.gUniqueIdCount = before.gUniqueIdCount
  timer : ∀ id, after.timer id =
    if before.Reached id now then fired (before.timer id) else before.timer id
  mem_iff : ∀ id, id ∈ after.mTimers ↔
    id ∈ before.mTimers ∧ (before.Reached id now → goesBack (before.timer id))
  handed : cbs = (before.mTimers.takeWhile (before.due now)).filterMap fun id =>
    returnedCallback (before.timer id)

/-- The pointers left when the expired ones have been erased. -/
theorem Issued.dropWhile (issued : manager.Issued) (now : UInt64) :
    ({ manager with mTimers := manager.mTimers.dropWhile (manager.due now) } :
      KTimerManager Action).Issued ∧
      ∀ id, manager.Reached id now → id ∉ manager.mTimers.dropWhile (manager.due now) := by
  have parts : (manager.mTimers.takeWhile (manager.due now) ++
      manager.mTimers.dropWhile (manager.due now)).Nodup := by
    rw [List.takeWhile_append_dropWhile]
    exact issued.nodup
  obtain ⟨_, remaining, apart⟩ := List.nodup_append.mp parts
  have counted : ∀ id ∈ manager.mTimers.dropWhile (manager.due now),
      id ≤ manager.gUniqueIdCount :=
    fun id member => issued.counted id (List.dropWhile_subset _ member)
  exact ⟨⟨⟨issued.unique, counted⟩, remaining⟩,
    fun id reached present => apart id reached id present rfl⟩

theorem Issued.expires (issued : manager.Issued) (insertion : Insertion Action) (now : UInt64) :
    Expires manager now (insertion.listExpiredTimer manager now).1
      (insertion.listExpiredTimer manager now).2 := by
  rw [Insertion.listExpiredTimer]
  split
  · rename_i empty
    have nothing : ∀ id, ¬ manager.Reached id now := by simp [Reached, List.isEmpty_iff.mp empty]
    exact ⟨issued, rfl, by simp [nothing], by simp [nothing], by simp [List.isEmpty_iff.mp empty]⟩
  · obtain ⟨rest, apart⟩ := issued.dropWhile now
    have taken := issued.nodup.sublist (List.takeWhile_sublist (manager.due now))
    obtain ⟨fires, handed⟩ := rest.foldl_fire insertion
      (manager.mTimers.takeWhile (manager.due now)) taken
      (fun id member => issued.counted id (List.takeWhile_subset _ member)) apart []
    refine ⟨fires.toIssued, fires.count, fires.timer, fun id => ?_, by simpa using handed⟩
    rw [fires.mem_iff]
    have whole : id ∈ manager.mTimers ↔ manager.Reached id now ∨
        id ∈ manager.mTimers.dropWhile (manager.due now) := by
      rw [Reached, ← List.mem_append, List.takeWhile_append_dropWhile]
    have excluded := apart id
    have reached : manager.Reached id now ↔
      id ∈ manager.mTimers.takeWhile (manager.due now) := Iff.rfl
    rw [whole, ← reached]
    tauto

theorem Issued.listExpiredTimer (issued : manager.Issued) (now : UInt64) :
    Expires manager now (manager.listExpiredTimer now).1 (manager.listExpiredTimer now).2 := by
  rw [← Insertion.listExpiredTimer_walk]
  exact issued.expires .walk now

namespace Expires

variable (expires : Expires manager now after cbs)

include expires

theorem mCb (id : Nat) : (after.timer id).mCb = (manager.timer id).mCb := by
  rw [expires.timer]
  split
  · exact fired_mCb _
  · rfl

theorem mTid (id : Nat) : (after.timer id).mTid = (manager.timer id).mTid := by
  rw [expires.timer]
  split
  · exact fired_mTid _
  · rfl

theorem members (id : Nat) (member : id ∈ after.mTimers) : id ∈ manager.mTimers :=
  ((expires.mem_iff id).mp member).1

/-- The callbacks are those of timers in the set. -/
theorem returned (entry : CallBack Action × UInt32) (member : entry ∈ cbs) :
    ∃ id ∈ manager.mTimers, (manager.timer id).mCb = some entry.1 ∧
      (manager.timer id).mTid = entry.2 := by
  rw [expires.handed] at member
  obtain ⟨id, taken, found⟩ := List.mem_filterMap.mp member
  obtain ⟨cb, callback, rfl⟩ := Option.map_eq_some_iff.mp found
  exact ⟨id, List.takeWhile_subset _ taken, callback, rfl⟩

end Expires

end KTimerManager

end FiberKcp.Timer
