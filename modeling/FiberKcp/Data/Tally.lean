import Mathlib.Algebra.Ring.Nat
import Mathlib.Algebra.Ring.Int.Defs
import Mathlib.Data.Finset.Card

namespace FiberKcp.Data

/-! Counting the keys of a list that have a property, each once. -/

variable {Key : Type*} [DecidableEq Key] {keys : List Key} {before after : Key → Bool} {key : Key}

def tally (keys : List Key) (holds : Key → Bool) : Nat :=
  (keys.toFinset.filter fun key => holds key = true).card

theorem tally_congr (same : ∀ key ∈ keys, after key = before key) :
    tally keys after = tally keys before := by
  refine congrArg Finset.card (Finset.filter_congr fun key member => ?_)
  rw [same key (List.mem_toFinset.mp member)]

/-- One more key has the property. -/
theorem tally_gain (member : key ∈ keys) (others : ∀ other ≠ key, after other = before other)
    (was : before key = false) (now : after key = true) :
    tally keys after = tally keys before + 1 := by
  have joined : keys.toFinset.filter (fun key => after key = true) =
      insert key (keys.toFinset.filter fun key => before key = true) := by
    ext other
    by_cases same : other = key
    · subst same
      simp [member, now]
    · simp [same, others other same]
  rw [tally, joined, Finset.card_insert_of_notMem (by simp [was]), tally]

theorem tally_lose (member : key ∈ keys) (others : ∀ other ≠ key, after other = before other)
    (was : before key = true) (now : after key = false) :
    tally keys before = tally keys after + 1 :=
  tally_gain member (fun other different => (others other different).symm) now was

theorem tally_eq_zero {holds : Key → Bool} :
    tally keys holds = 0 ↔ ∀ key ∈ keys, holds key = false := by
  simp [tally, Finset.filter_eq_empty_iff]

end FiberKcp.Data
