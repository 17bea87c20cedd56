import FiberKcp.Data.Run

namespace FiberKcp.Data

/-! What a system can still reach: some run of permitted steps leads there. -/

section Leads

variable {State Event : Type*} {step : State → Event → Option State}
  {allowed : State → Event → Prop} {first middle last : State}

theorem Run.append {earlier later : List Event} (left : Run step allowed first earlier middle)
    (right : Run step allowed middle later last) :
    Run step allowed first (earlier ++ later) last := by
  induction right with
  | nil => simpa using left
  | snoc _ permitted stepped ih =>
      rw [← List.append_assoc]
      exact ih.snoc permitted stepped

/-- The condition on the steps may be weakened. -/
theorem Run.mono {weaker : State → Event → Prop} {events : List Event}
    (weaken : ∀ state event, allowed state event → weaker state event)
    (run : Run step allowed first events last) : Run step weaker first events last := by
  induction run with
  | nil => exact .nil
  | snoc _ permitted stepped ih => exact ih.snoc (weaken _ _ permitted) stepped

def Leads (step : State → Event → Option State) (allowed : State → Event → Prop)
    (first last : State) : Prop := ∃ events, Run step allowed first events last

theorem Leads.refl (state : State) : Leads step allowed state state := ⟨[], .nil⟩

theorem Leads.trans (left : Leads step allowed first middle)
    (right : Leads step allowed middle last) : Leads step allowed first last := by
  obtain ⟨earlier, toMiddle⟩ := left
  obtain ⟨later, toLast⟩ := right
  exact ⟨earlier ++ later, toMiddle.append toLast⟩

theorem Leads.single {event : Event} (permitted : allowed first event)
    (stepped : step first event = some last) : Leads step allowed first last :=
  ⟨[] ++ [event], Run.nil.snoc permitted stepped⟩

/-- Where every state short of the goal leads to one of smaller rank, the goal
is reached. -/
theorem Leads.of_rank (Inv Goal : State → Prop) (rank : State → Nat)
    (progress : ∀ state, Inv state → ¬ Goal state →
      ∃ next, Leads step allowed state next ∧ Inv next ∧ rank next < rank state)
    {start : State} (inv : Inv start) :
    ∃ last, Leads step allowed start last ∧ Inv last ∧ Goal last := by
  induction bound : rank start using Nat.strongRecOn generalizing start with
  | ind count ih =>
      by_cases reached : Goal start
      · exact ⟨start, .refl start, inv, reached⟩
      · obtain ⟨next, leads, invNext, less⟩ := progress start inv reached
        obtain ⟨last, further, invLast, goal⟩ := ih (rank next) (bound ▸ less) invNext rfl
        exact ⟨last, leads.trans further, invLast, goal⟩

end Leads

end FiberKcp.Data
