import Mathlib.Data.List.Basic

namespace FiberKcp.Data

/-! Two machines that answer the same calls, one of which may fail. -/

variable {State Concrete Call Reply : Type*}

/-- The state after a list of calls, and the replies in order. -/
def replies (step : State → Call → State × Reply) : State → List Call → State × List Reply
  | state, [] => (state, [])
  | state, call :: rest =>
      let (state, reply) := step state call
      let (state, later) := replies step state rest
      (state, reply :: later)

def tryReplies (step : Concrete → Call → Option (Concrete × Reply)) :
    Concrete → List Call → Option (Concrete × List Reply)
  | state, [] => some (state, [])
  | state, call :: rest => do
      let (state, reply) ← step state call
      let (state, later) ← tryReplies step state rest
      some (state, reply :: later)

/-- `low` stays related to `high`: no call fails on it, and it replies the same. -/
def Simulates (related : Concrete → State → Prop)
    (concrete : Concrete → Call → Option (Concrete × Reply))
    (abstract : State → Call → State × Reply) : Prop :=
  ∀ low high call, related low high →
    ∃ after, concrete low call = some (after, (abstract high call).2) ∧
      related after (abstract high call).1

theorem Simulates.replies {related : Concrete → State → Prop}
    {concrete : Concrete → Call → Option (Concrete × Reply)}
    {abstract : State → Call → State × Reply}
    (simulates : Simulates related concrete abstract) {low : Concrete} {high : State}
    (start : related low high) (calls : List Call) :
    ∃ last, tryReplies concrete low calls = some (last, (Data.replies abstract high calls).2) ∧
      related last (Data.replies abstract high calls).1 := by
  induction calls generalizing low high with
  | nil => exact ⟨low, rfl, start⟩
  | cons call rest ih =>
      obtain ⟨middle, stepped, between⟩ := simulates low high call start
      obtain ⟨last, done, reached⟩ := ih between
      refine ⟨last, ?_, reached⟩
      rw [tryReplies, stepped, Option.bind_eq_bind, Option.bind_some]
      simp only [done]
      rfl

end FiberKcp.Data
