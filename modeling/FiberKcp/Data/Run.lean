import Mathlib.Algebra.Ring.Nat
import Mathlib.Algebra.Ring.Int.Defs
import Mathlib.Data.List.Basic

namespace FiberKcp.Data

/-! Runs of a partial step function.

`allowed` restricts the steps a run may take: it looks at the state before the
step and at the event, never at the result.  A statement about every run of a
system is `Run.invariant` at `anyStep`; one that needs a condition on the
steps puts the condition there.
-/

variable {State Event : Type*} {step : State → Event → Option State}
  {allowed : State → Event → Prop} {start : State}

/-- `Run step allowed start events last`: from `start` the events are taken one
by one, each permitted by `allowed` where it is taken, and end in `last`. -/
inductive Run (step : State → Event → Option State) (allowed : State → Event → Prop)
    (start : State) : List Event → State → Prop where
  | nil : Run step allowed start [] start
  | snoc {events : List Event} {event : Event} {before after : State} :
      Run step allowed start events before → allowed before event →
      step before event = some after → Run step allowed start (events ++ [event]) after

/-- The unrestricted condition on steps. -/
def anyStep (_ : State) (_ : Event) : Prop := True

instance (state : State) (event : Event) : Decidable (anyStep state event) :=
  inferInstanceAs (Decidable True)

/-- The induction every invariant of a run is proved by: it holds at the start
and each permitted step keeps it. -/
theorem Run.invariant {events : List Event} {last : State} (Inv : State → Prop)
    (initial : Inv start)
    (preserved : ∀ {before after event}, Inv before → allowed before event →
      step before event = some after → Inv after)
    (run : Run step allowed start events last) : Inv last := by
  induction run with
  | nil => exact initial
  | snoc _ permitted stepped ih => exact preserved ih permitted stepped

/-- The state after a list of events, computed; `none` when a step is refused
by the system or not permitted by `allowed`. -/
def execute (step : State → Event → Option State) (allowed : State → Event → Prop)
    [∀ state event, Decidable (allowed state event)] : State → List Event → Option State
  | state, [] => some state
  | state, event :: rest =>
      if allowed state event then
        (step state event).bind fun next => execute step allowed next rest
      else none

theorem execute_cons [∀ state event, Decidable (allowed state event)] {state last : State}
    {event : Event} {rest : List Event} :
    execute step allowed state (event :: rest) = some last ↔
      allowed state event ∧ ∃ next, step state event = some next ∧
        execute step allowed next rest = some last := by
  simp only [execute, Option.ite_none_right_eq_some, Option.bind_eq_some_iff]

/-- A computed execution extends a run; concrete runs are exhibited this way. -/
theorem Run.extend [∀ state event, Decidable (allowed state event)]
    {events more : List Event} {middle last : State}
    (run : Run step allowed start events middle)
    (executed : execute step allowed middle more = some last) :
    Run step allowed start (events ++ more) last := by
  induction more generalizing events middle with
  | nil =>
      cases executed
      simpa using run
  | cons event rest ih =>
      simp only [execute] at executed
      split at executed
      · rename_i permitted
        obtain ⟨next, stepped, remaining⟩ := Option.bind_eq_some_iff.mp executed
        simpa using ih (run.snoc permitted stepped) remaining
      · contradiction

theorem Run.of_execute [∀ state event, Decidable (allowed state event)]
    {events : List Event} {last : State}
    (executed : execute step allowed start events = some last) :
    Run step allowed start events last := by
  simpa using Run.nil.extend executed

/-- A concrete run with what the evaluation of its last state shows. -/
theorem Run.exists_last [∀ state event, Decidable (allowed state event)] {events : List Event}
    {check : State → Bool} (executed : (execute step allowed start events).any check = true) :
    ∃ last, Run step allowed start events last ∧ check last = true := by
  obtain ⟨last, reached, checked⟩ := (Option.any_eq_true _ _).mp executed
  exact ⟨last, Run.of_execute reached, checked⟩

/-- What a run shows follows from what the evaluation of its last state shows. -/
theorem Run.exists_shown [∀ state event, Decidable (allowed state event)] {events : List Event}
    {Good : State → Prop} (shown : State → Prop) [DecidablePred shown]
    (executed : (execute step allowed start events).any (fun last => shown last) = true)
    (good : ∀ last, Run step allowed start events last → shown last → Good last) :
    ∃ last, Run step allowed start events last ∧ Good last := by
  obtain ⟨last, run, checked⟩ := Run.exists_last executed
  exact ⟨last, run, good last run (of_decide_eq_true checked)⟩

/-- The steps a list of events takes, each with the state before and after. -/
def transitions (step : State → Event → Option State) :
    State → List Event → List (State × Event × State)
  | _, [] => []
  | state, event :: rest =>
      match step state event with
      | none => []
      | some next => (state, event, next) :: transitions step next rest

theorem Run.transitions_append {events : List Event} {middle : State}
    (run : Run step allowed start events middle) (more : List Event) :
    transitions step start (events ++ more) =
      transitions step start events ++ transitions step middle more := by
  induction run generalizing more with
  | nil => rfl
  | snoc earlier permitted stepped ih =>
      rw [List.append_assoc, ih, ih]
      simp [transitions, stepped]

/-- When, in every state meeting an invariant, the condition on a step holds
exactly if the step is good, and a permitted step keeps the invariant, then all
steps of a run are good exactly if all of them are permitted. -/
theorem transitions_allowed_iff (allowed : State → Event → Prop)
    (Good : State → Event → State → Prop) {Inv : State → Prop}
    (preserved : ∀ {before after event}, Inv before → allowed before event →
      step before event = some after → Inv after)
    (exact : ∀ {before after event}, Inv before → step before event = some after →
      (allowed before event ↔ Good before event after))
    (initial : Inv start) (events : List Event) :
    (∀ taken ∈ transitions step start events, allowed taken.1 taken.2.1) ↔
      ∀ taken ∈ transitions step start events, Good taken.1 taken.2.1 taken.2.2 := by
  induction events generalizing start with
  | nil => simp [transitions]
  | cons event rest ih =>
      cases stepped : step start event with
      | none => simp [transitions, stepped]
      | some next =>
          have here : allowed start event ↔ Good start event next := exact initial stepped
          simp only [transitions, stepped, List.forall_mem_cons]
          constructor
          · rintro ⟨permitted, later⟩
            exact ⟨here.mp permitted, (ih (preserved initial permitted stepped)).mp later⟩
          · rintro ⟨good, later⟩
            have permitted := here.mpr good
            exact ⟨permitted, (ih (preserved initial permitted stepped)).mpr later⟩

end FiberKcp.Data
