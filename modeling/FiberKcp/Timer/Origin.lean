import FiberKcp.Timer.Order

namespace FiberKcp.Timer

open FiberKcp.Data

namespace KTimerManager

variable {Action : Type} {manager after : KTimerManager Action} {id other : Nat}

/-- What is true of the set even where its order is broken, as by a timer that is
cancelled while it is in the set. -/
structure Issued (manager : KTimerManager Action) : Prop extends Identified manager where
  nodup : manager.mTimers.Nodup

theorem issued_initial : (initial : KTimerManager Action).Issued where
  unique := fun _ => rfl
  counted := nofun
  nodup := List.nodup_nil

theorem Issued.setTimer (issued : manager.Issued) {timer : KTimer Action}
    (same : timer.mUniqueId = id) : (manager.setTimer id timer).Issued :=
  ⟨issued.toIdentified.setTimer same, issued.nodup⟩

theorem Issued.insertTimer (issued : manager.Issued) (counted : id ≤ manager.gUniqueIdCount)
    (fresh : id ∉ manager.mTimers) : (manager.insertTimer id).1.Issued where
  unique := issued.unique
  counted := by
    intro candidate member
    rcases eq_or_mem_of_mem_setInsert member with same | member
    · exact same ▸ counted
    · exact issued.counted candidate member
  nodup := setInsert_nodup issued.nodup fresh

theorem Issued.fresh (issued : manager.Issued) : manager.gUniqueIdCount + 1 ∉ manager.mTimers :=
  fun member => Nat.not_succ_le_self _ (issued.counted _ member)

theorem Issued.construct (issued : manager.Issued) (now ms : UInt64)
    (cb : Option (CallBack Action)) (recycle tid : UInt32) :
    (manager.construct now ms cb recycle tid).Issued where
  unique := by
    have same : (KTimer.construct now ms cb recycle tid (manager.gUniqueIdCount + 1)).mUniqueId =
        manager.gUniqueIdCount + 1 := rfl
    exact (issued.toIdentified.setTimer same).unique
  counted := fun candidate member => Nat.le_succ_of_le (issued.counted candidate member)
  nodup := issued.nodup

theorem Issued.addTimer (issued : manager.Issued) (now ms : UInt64)
    (cb : Option (CallBack Action)) (recycle tid : UInt32) :
    (manager.addTimer now ms cb recycle tid).1.Issued :=
  (issued.construct now ms cb recycle tid).insertTimer (Nat.le_refl _) issued.fresh

theorem addTimer_timer_other (now ms : UInt64) (cb : Option (CallBack Action))
    (recycle tid : UInt32) (different : id ≠ manager.gUniqueIdCount + 1) :
    (manager.addTimer now ms cb recycle tid).1.timer id = manager.timer id :=
  setTimer_timer_other _ _ different

theorem Issued.mem_addTimer (issued : manager.Issued) (now ms : UInt64)
    (cb : Option (CallBack Action)) (recycle tid : UInt32) :
    id ∈ (manager.addTimer now ms cb recycle tid).1.mTimers ↔
      id = manager.gUniqueIdCount + 1 ∨ id ∈ manager.mTimers :=
  mem_insertTimer (issued.construct now ms cb recycle tid).toIdentified

/-- A timer in the set after `addTimer` is the new one or as it was. -/
theorem Issued.addTimer_cases (issued : manager.Issued) (now ms : UInt64)
    (cb : Option (CallBack Action)) (recycle tid : UInt32)
    (member : id ∈ (manager.addTimer now ms cb recycle tid).1.mTimers) :
    id = manager.gUniqueIdCount + 1 ∧ (manager.addTimer now ms cb recycle tid).1.timer id =
        KTimer.construct now ms cb recycle tid (manager.gUniqueIdCount + 1) ∨
      id ∈ manager.mTimers ∧
        (manager.addTimer now ms cb recycle tid).1.timer id = manager.timer id := by
  rcases (issued.mem_addTimer now ms cb recycle tid).mp member with rfl | older
  · exact .inl ⟨rfl, setTimer_timer_self _ _ _⟩
  · have different : id ≠ manager.gUniqueIdCount + 1 := fun same => issued.fresh (same ▸ older)
    exact .inr ⟨older, setTimer_timer_other _ _ different⟩

theorem Issued.delTimer (issued : manager.Issued) (timerId : Nat) :
    (manager.delTimer timerId).Issued where
  unique := issued.unique
  counted := fun candidate member => issued.counted candidate (List.mem_of_mem_eraseP member)
  nodup := issued.nodup.sublist List.eraseP_sublist

theorem Issued.mem_delTimer (issued : manager.Issued) {timerId : Nat} :
    id ∈ (manager.delTimer timerId).mTimers ↔ id ∈ manager.mTimers ∧ id ≠ timerId := by
  have erased : (manager.delTimer timerId).mTimers = manager.mTimers.erase timerId := by
    simp only [KTimerManager.delTimer, issued.unique, List.erase_eq_eraseP, Bool.beq_comm]
  rw [erased, issued.nodup.mem_erase_iff]
  exact And.comm

end KTimerManager

end FiberKcp.Timer
