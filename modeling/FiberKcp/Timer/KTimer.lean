import Mathlib.Algebra.Ring.Nat
import Mathlib.Algebra.Ring.Int.Defs
import Mathlib.Order.Defs.Unbundled

namespace FiberKcp.Timer

/-- A non-null `KTimer::CallBack`: a user callback, or the `std::bind` of
`onTimer` that `addConditionTimer` builds. -/
inductive CallBack (Action : Type) where
  | plain (action : Action)
  | onTimer (cond : Nat) (cb : Option Action)
deriving DecidableEq, Repr

/-- The fields of a `KTimer` object; `mCb = none` is the null callback.
`mUniqueId` counts without wrapping: 2^64 timers are never created. -/
structure KTimer (Action : Type) where
  mTid : UInt32
  mTime : UInt64
  mRecycleTime : UInt64
  mCb : Option (CallBack Action)
  mUniqueId : Nat
deriving DecidableEq, Repr

namespace KTimer

variable {Action : Type}

/-- `KTimer::KTimer(ms, cb, recycle, tid)` at clock `now`. -/
def construct (now ms : UInt64) (cb : Option (CallBack Action)) (recycle tid : UInt32)
    (uniqueId : Nat) : KTimer Action where
  mTid := tid
  mTime := now + ms
  mRecycleTime := recycle.toUInt64
  mCb := cb
  mUniqueId := uniqueId

def setNextTime (timer : KTimer Action) (timeMs : UInt64) : KTimer Action :=
  { timer with mTime := timeMs }

def setRecycleTime (timer : KTimer Action) (ms : UInt64) : KTimer Action :=
  { timer with mRecycleTime := ms }

def setCallback (timer : KTimer Action) (cb : Option (CallBack Action)) : KTimer Action :=
  { timer with mCb := cb }

def cancel (timer : KTimer Action) : KTimer Action :=
  { timer with mTime := 0, mCb := none, mRecycleTime := 0 }

def update (timer : KTimer Action) : KTimer Action :=
  if timer.mRecycleTime ≠ 0 then { timer with mTime := timer.mTime + timer.mRecycleTime }
  else timer

/-- `KTimer::reset` at clock `now`; `onReset` is empty. -/
def reset (timer : KTimer Action) (now ms : UInt64) (cb : Option (CallBack Action))
    (recycle tid : UInt32) : KTimer Action :=
  if ms < timer.mTime ∨ cb.isNone then timer
  else { timer with
    mTime := now + ms, mCb := cb, mRecycleTime := recycle.toUInt64, mTid := tid }

/-- `KTimer::Comparator`, null pointers included. -/
def Comparator : Option (KTimer Action) → Option (KTimer Action) → Bool
  | none, none => false
  | none, some _ => true
  | some _, none => false
  | some left, some right =>
      if left.mTime = right.mTime then decide (left.mUniqueId < right.mUniqueId)
      else decide (left.mTime < right.mTime)

@[simp] theorem update_mUniqueId (timer : KTimer Action) :
    timer.update.mUniqueId = timer.mUniqueId := by
  unfold update
  split <;> rfl

@[simp] theorem cancel_mUniqueId (timer : KTimer Action) :
    timer.cancel.mUniqueId = timer.mUniqueId := rfl

@[simp] theorem reset_mUniqueId (timer : KTimer Action) (now ms : UInt64)
    (cb : Option (CallBack Action)) (recycle tid : UInt32) :
    (timer.reset now ms cb recycle tid).mUniqueId = timer.mUniqueId := by
  unfold reset
  split <;> rfl

/-- On objects the comparator is the lexicographic order of deadline and id. -/
theorem comparator_some (left right : KTimer Action) :
    Comparator (some left) (some right) = true ↔
      left.mTime < right.mTime ∨ left.mTime = right.mTime ∧ left.mUniqueId < right.mUniqueId := by
  unfold Comparator
  by_cases same : left.mTime = right.mTime
  · simp [same, UInt64.lt_irrefl]
  · simp [same]

theorem comparator_trans {first second third : KTimer Action}
    (before : Comparator (some first) (some second) = true)
    (after : Comparator (some second) (some third) = true) :
    Comparator (some first) (some third) = true := by
  rw [comparator_some] at before after ⊢
  rcases before with less | ⟨same, ids⟩
  · rcases after with next | ⟨equal, _⟩
    · exact .inl (UInt64.lt_trans less next)
    · exact .inl (equal ▸ less)
  · rcases after with next | ⟨equal, later⟩
    · exact .inl (same ▸ next)
    · exact .inr ⟨same.trans equal, Nat.lt_trans ids later⟩

theorem comparator_asymm {left right : KTimer Action}
    (before : Comparator (some left) (some right) = true) :
    ¬ Comparator (some right) (some left) = true := by
  intro after
  have loop := comparator_trans before after
  rw [comparator_some] at loop
  rcases loop with less | ⟨_, ids⟩
  · exact UInt64.lt_irrefl _ less
  · exact Nat.lt_irrefl _ ids

/-- Objects with different ids are never equivalent. -/
theorem comparator_total {left right : KTimer Action}
    (distinct : left.mUniqueId ≠ right.mUniqueId) :
    Comparator (some left) (some right) = true ∨ Comparator (some right) (some left) = true := by
  simp only [comparator_some]
  rcases UInt64.lt_or_le left.mTime right.mTime with less | less
  · exact .inl (.inl less)
  · rcases UInt64.lt_or_eq_of_le less with next | same
    · exact .inr (.inl next)
    · rcases Nat.lt_or_gt_of_ne distinct with ids | ids
      · exact .inl (.inr ⟨same.symm, ids⟩)
      · exact .inr (.inr ⟨same, ids⟩)

theorem mTime_le_of_comparator {left right : KTimer Action}
    (before : Comparator (some left) (some right) = true) : left.mTime ≤ right.mTime := by
  rcases (comparator_some left right).mp before with less | ⟨same, _⟩
  · exact UInt64.le_of_lt less
  · exact same ▸ UInt64.le_refl _

end KTimer

end FiberKcp.Timer
