import FiberKcp.Data.Run
import FiberKcp.Fiber.KFiber

namespace FiberKcp.Fiber

open Data

/-! Where control goes after a switch.  Every switch goes through the one slot
of the thread's main fiber, so what a yield finds there is the code that made
the last `resume` or `call`. -/

/-- The running code gives control back. -/
def SwitchEvent.leaves : SwitchEvent → Bool
  | .resume _ | .call _ => false
  | _ => true

structure ReturnsToResumer (before : FiberThread) (event : SwitchEvent) (after : FiberThread) :
    Prop where
  current : after.gCurrentFiber = after.running.owner
  returns : event.leaves → ∀ caller, before.resumer before.running.owner = some caller →
    after.running = caller

/-- A fiber that gives control back was entered by the main fiber of the
thread, and the main fiber itself is not entered and left. -/
def entersFromMain (thread : FiberThread) : SwitchEvent → Prop
  | .resume fiber | .call fiber =>
      fiber = thread.gThreadMainFiber → thread.running.owner = thread.gThreadMainFiber
  | _ => ∀ caller, thread.resumer thread.running.owner = some caller →
      thread.running.owner ≠ thread.gThreadMainFiber ∧ caller.owner = thread.gThreadMainFiber

/-- What holds while every fiber that gave control back was entered by the main
fiber. -/
structure OneDeep (thread : FiberThread) : Prop where
  current : thread.gCurrentFiber = thread.running.owner
  own : ∀ fiber ≠ thread.gThreadMainFiber, (thread.mCtx fiber).owner = fiber
  entered : thread.running.owner ≠ thread.gThreadMainFiber →
    thread.resumer thread.running.owner = some (thread.mCtx thread.gThreadMainFiber)
  past : ∀ caller, thread.resumer thread.gThreadMainFiber = some caller →
    (thread.running.owner = thread.gThreadMainFiber → caller.point ≤ thread.running.point) ∧
      ((thread.mCtx thread.gThreadMainFiber).owner = thread.gThreadMainFiber →
        caller.point ≤ (thread.mCtx thread.gThreadMainFiber).point)

theorem oneDeep_start (main : Nat) : OneDeep (FiberThread.start main) where
  current := rfl
  own _ _ := rfl
  entered := fun other => absurd rfl other
  past _ found := by cases found

section Switches

variable {thread after : FiberThread} {fiber : Nat}

@[simp] theorem Continuation.next_owner (continuation : Continuation) :
    continuation.next.owner = continuation.owner := rfl

@[simp] theorem Continuation.next_point (continuation : Continuation) :
    continuation.next.point = continuation.point + 1 := rfl

theorem swapcontext_self (switched : thread.swapcontext fiber fiber = some after) :
    after = { thread with
      mCtx := Function.update thread.mCtx fiber thread.running.next,
      running := thread.running.next } := by
  simp only [FiberThread.swapcontext, Function.update_self] at switched
  split at switched
  · contradiction
  · exact (Option.some.inj switched).symm

theorem swapcontext_other {oucp : Nat} (different : fiber ≠ oucp)
    (switched : thread.swapcontext oucp fiber = some after) :
    after = { thread with
      mCtx := Function.update thread.mCtx oucp thread.running.next,
      running := thread.mCtx fiber } := by
  simp only [FiberThread.swapcontext, Function.update_of_ne different] at switched
  split at switched
  · contradiction
  · exact (Option.some.inj switched).symm

/-- What entering and leaving a fiber look at and change, apart from the
states. -/
structure Entered (thread : FiberThread) (fiber : Nat) (after : FiberThread) : Prop where
  main : after.gThreadMainFiber = thread.gThreadMainFiber
  current : after.gCurrentFiber = fiber
  slots : after.mCtx = Function.update thread.mCtx thread.gThreadMainFiber thread.running.next
  running : after.running =
    if fiber = thread.gThreadMainFiber then thread.running.next else thread.mCtx fiber
  resumer : after.resumer = Function.update thread.resumer fiber (some thread.running.next)

theorem entered_of_enter {state : FiberState}
    (entering : ((thread.setThis fiber).setState fiber state).enter fiber = some after) :
    Entered thread fiber after := by
  by_cases main : fiber = thread.gThreadMainFiber
  · rw [FiberThread.enter] at entering
    subst main
    rw [swapcontext_self entering]
    exact ⟨rfl, rfl, rfl, (if_pos rfl).symm, rfl⟩
  · rw [FiberThread.enter] at entering
    rw [swapcontext_other main entering]
    exact ⟨rfl, rfl, rfl, (if_neg main).symm, rfl⟩

structure Left (thread : FiberThread) (fiber : Nat) (after : FiberThread) : Prop where
  main : after.gThreadMainFiber = thread.gThreadMainFiber
  current : after.gCurrentFiber = thread.gThreadMainFiber
  others : ∀ other ≠ fiber, after.mCtx other = thread.mCtx other
  slot : (after.mCtx fiber).owner = thread.running.owner ∧
    (after.mCtx fiber).point = thread.running.point + 1
  running : (fiber = thread.gThreadMainFiber → after.running = thread.running.next) ∧
    (fiber ≠ thread.gThreadMainFiber → after.running = thread.mCtx thread.gThreadMainFiber)
  resumer : after.resumer = thread.resumer

theorem left_of_swapOut (leaving : thread.swapOut fiber = some after) :
    Left thread fiber after := by
  rw [FiberThread.swapOut] at leaving
  by_cases main : fiber = thread.gThreadMainFiber
  · subst main
    rw [swapcontext_self leaving]
    refine ⟨rfl, rfl, fun other different => ?_, ?_, ⟨fun _ => rfl, fun no => absurd rfl no⟩, rfl⟩
    · exact Function.update_of_ne different _ _
    · simp [FiberThread.setThis]
  · rw [swapcontext_other (Ne.symm main) leaving]
    refine ⟨rfl, rfl, fun other different => ?_, ?_, ⟨fun yes => absurd yes main, fun _ => rfl⟩, rfl⟩
    · exact Function.update_of_ne different _ _
    · simp [FiberThread.setThis]

theorem left_of_yeild {state : FiberState} (current : thread.gCurrentFiber = thread.running.owner)
    (yielded : thread.yeild state = some after) : Left thread thread.running.owner after := by
  simp only [FiberThread.yeild, current] at yielded
  split at yielded
  · have left := left_of_swapOut yielded
    exact ⟨left.main, left.current, left.others, left.slot, left.running, left.resumer⟩
  · contradiction

theorem left_of_finish {state : FiberState} (finished : thread.finish state = some after) :
    Left thread thread.running.owner after := by
  simp only [FiberThread.finish] at finished
  split at finished
  · contradiction
  · rename_i other
    have left := left_of_swapOut finished
    exact ⟨left.main, left.current, left.others, left.slot,
      ⟨fun main => absurd main other, left.running.2⟩, left.resumer⟩

/-- A step enters a fiber or gives control back. -/
theorem step_cases {event : SwitchEvent} (one : OneDeep thread)
    (stepped : thread.step event = some after) :
    (∃ fiber, (event = .resume fiber ∨ event = .call fiber) ∧ Entered thread fiber after) ∨
      event.leaves = true ∧ Left thread thread.running.owner after := by
  cases event with
  | resume fiber =>
      simp only [FiberThread.step, FiberThread.swapIn] at stepped
      split at stepped
      · contradiction
      · exact .inl ⟨fiber, .inl rfl, entered_of_enter stepped⟩
  | call fiber => exact .inl ⟨fiber, .inr rfl, entered_of_enter stepped⟩
  | yeild2Hold => exact .inr ⟨rfl, left_of_yeild one.current stepped⟩
  | yeild2Ready => exact .inr ⟨rfl, left_of_yeild one.current stepped⟩
  | back => exact .inr ⟨rfl, left_of_swapOut stepped⟩
  | terminate => exact .inr ⟨rfl, left_of_finish stepped⟩
  | throw => exact .inr ⟨rfl, left_of_finish stepped⟩

theorem entersFromMain_of_leaves {event : SwitchEvent} (leaves : event.leaves = true) :
    entersFromMain thread event ↔
      ∀ caller, thread.resumer thread.running.owner = some caller →
        thread.running.owner ≠ thread.gThreadMainFiber ∧
          caller.owner = thread.gThreadMainFiber := by
  cases event with
  | resume _ => contradiction
  | call _ => contradiction
  | _ => exact Iff.rfl

theorem OneDeep.entered_step (one : OneDeep thread) (entered : Entered thread fiber after)
    (permitted : fiber = thread.gThreadMainFiber →
      thread.running.owner = thread.gThreadMainFiber) : OneDeep after := by
  obtain ⟨main, current, slots, running, resumer⟩ := entered
  have owner : after.running.owner = fiber := by
    by_cases self : fiber = thread.gThreadMainFiber
    · rw [running, if_pos self, Continuation.next_owner, permitted self, self]
    · rw [running, if_neg self, one.own fiber self]
  refine ⟨current.trans owner.symm, fun other different => ?_, fun other => ?_, fun caller found => ?_⟩
  · rw [main] at different
    rw [slots, Function.update_of_ne different]
    exact one.own other different
  · rw [owner, resumer, main, slots, Function.update_self, Function.update_self]
  · rw [main, resumer] at found
    rw [main, owner, slots, Function.update_self]
    by_cases self : fiber = thread.gThreadMainFiber
    · -- the main fiber entered itself
      rw [self, Function.update_self] at found
      cases found
      rw [running, if_pos self]
      exact ⟨fun _ => Nat.le_refl _, fun _ => Nat.le_refl _⟩
    · rw [Function.update_of_ne (Ne.symm self)] at found
      refine ⟨fun same => absurd same self, fun mainCode => ?_⟩
      exact Nat.le_succ_of_le ((one.past caller found).1 mainCode)

theorem OneDeep.left_step (one : OneDeep thread) (left : Left thread thread.running.owner after)
    (permitted : ∀ caller, thread.resumer thread.running.owner = some caller →
      thread.running.owner ≠ thread.gThreadMainFiber ∧ caller.owner = thread.gThreadMainFiber) :
    OneDeep after := by
  obtain ⟨main, current, others, ⟨slotOwner, slotPoint⟩, ⟨selfRuns, otherRuns⟩, resumer⟩ := left
  by_cases self : thread.running.owner = thread.gThreadMainFiber
  · have runs := selfRuns self
    have never : ∀ caller, after.resumer after.gThreadMainFiber ≠ some caller := by
      intro caller found
      rw [resumer, main, ← self] at found
      exact (permitted caller found).1 self
    refine ⟨?_, fun other different => ?_, fun other => ?_, fun caller found => ?_⟩
    · rw [current, runs, Continuation.next_owner, self]
    · rw [main, ← self] at different
      rw [others other different]
      exact one.own other (self ▸ different)
    · rw [main, runs] at other
      exact absurd self other
    · exact absurd found (never caller)
  · have caller := one.entered self
    have back := (permitted _ caller).2
    have runs := otherRuns self
    refine ⟨?_, fun other different => ?_, fun other => ?_, fun caller found => ?_⟩
    · rw [current, runs, back]
    · rw [main] at different
      by_cases same : other = thread.running.owner
      · rw [same, slotOwner]
      · rw [others other same]
        exact one.own other different
    · rw [main, runs] at other
      exact absurd back other
    · rw [main, resumer] at found
      have slot := others thread.gThreadMainFiber (Ne.symm self)
      rw [main, runs, slot]
      exact ⟨(one.past caller found).2, (one.past caller found).2⟩

theorem OneDeep.step {event : SwitchEvent} (one : OneDeep thread)
    (permitted : entersFromMain thread event) (stepped : thread.step event = some after) :
    OneDeep after := by
  rcases step_cases one stepped with ⟨fiber, rfl | rfl, entered⟩ | ⟨leaves, left⟩
  · exact one.entered_step entered permitted
  · exact one.entered_step entered permitted
  · exact one.left_step left ((entersFromMain_of_leaves leaves).mp permitted)

theorem returns_of_entered {event : SwitchEvent} (one : OneDeep thread)
    (stays : event.leaves = false) (entered : Entered thread fiber after) :
    (fiber = thread.gThreadMainFiber → thread.running.owner = thread.gThreadMainFiber) ↔
      ReturnsToResumer thread event after := by
  constructor
  · intro permitted
    exact ⟨(one.entered_step entered permitted).current, fun leaves => by simp [stays] at leaves⟩
  · intro good self
    have current := good.current
    rw [entered.current, entered.running, if_pos self, Continuation.next_owner] at current
    exact current.symm.trans self

theorem returns_of_left {event : SwitchEvent} (one : OneDeep thread)
    (leaves : event.leaves = true) (left : Left thread thread.running.owner after) :
    entersFromMain thread event ↔ ReturnsToResumer thread event after := by
  rw [entersFromMain_of_leaves leaves]
  constructor
  · intro permitted
    refine ⟨(one.left_step left permitted).current, fun _ caller found => ?_⟩
    have other := (permitted caller found).1
    rw [left.running.2 other]
    exact Option.some.inj ((one.entered other).symm.trans found)
  · intro good caller found
    have returned := good.returns leaves caller found
    have other : thread.running.owner ≠ thread.gThreadMainFiber := by
      intro self
      -- the main fiber went on behind this switch, not behind the one that entered it
      have before := (one.past caller (self ▸ found)).1 self
      rw [← returned, left.running.1 self, Continuation.next_point] at before
      exact Nat.not_succ_le_self _ before
    refine ⟨other, ?_⟩
    rw [← returned, ← good.current, left.current]

theorem entersFromMain_iff {event : SwitchEvent} (one : OneDeep thread)
    (stepped : thread.step event = some after) :
    entersFromMain thread event ↔ ReturnsToResumer thread event after := by
  rcases step_cases one stepped with ⟨fiber, rfl | rfl, entered⟩ | ⟨leaves, left⟩
  · exact returns_of_entered one rfl entered
  · exact returns_of_entered one rfl entered
  · exact returns_of_left one leaves left

end Switches

/-- All switches of a run return to the resumer exactly when every fiber that
gives control back was entered by the main fiber. -/
theorem switches_return_iff (main : Nat) (events : List SwitchEvent) :
    (∀ taken ∈ transitions FiberThread.step (FiberThread.start main) events,
        ReturnsToResumer taken.1 taken.2.1 taken.2.2) ↔
      ∀ taken ∈ transitions FiberThread.step (FiberThread.start main) events,
        entersFromMain taken.1 taken.2.1 :=
  (transitions_allowed_iff entersFromMain ReturnsToResumer
    (fun one permitted stepped => OneDeep.step one permitted stepped)
    (fun one stepped => entersFromMain_iff one stepped) (oneDeep_start main) events).symm

/-- The root fiber (1) of a user caller runs the idle fiber (2) to its end.  It
goes on while `gCurrentFiber` is the main fiber (0), and its own end leads back
into itself, not to the call in the main fiber. -/
theorem root_fiber_never_returns :
    ∃ idle last, Run FiberThread.step anyStep (FiberThread.start 0)
        [.call 1, .resume 2, .terminate] idle ∧
      idle.running.owner = 1 ∧ idle.gCurrentFiber = 0 ∧
      idle.resumer 1 = some ⟨0, 1, false⟩ ∧ idle.step .terminate = some last ∧
      last.running = idle.running ∧ ¬ ReturnsToResumer idle .terminate last := by
  refine ⟨_, _, Run.of_execute rfl, rfl, rfl, rfl, rfl, rfl, fun good => ?_⟩
  have returned := good.returns rfl ⟨0, 1, false⟩ rfl
  exact absurd returned (by decide)

end FiberKcp.Fiber
