import Mathlib.Algebra.Ring.Nat
import Mathlib.Algebra.Ring.Int.Defs
import Mathlib.Data.List.Pairwise
import Mathlib.Order.Defs.Unbundled

namespace FiberKcp.Data

/-! An ordered set kept as the sequence its iterator visits.

`less` is the comparator.  Insertion walks to the position the comparator gives
and leaves the set alone when it meets an equivalent element, as an ordered
container with unique keys does.  In a sequence in order that is the position to
which every search tree leads; out of order the two may differ.
-/

variable {α : Type*} {less : α → α → Prop} [DecidableRel less]

def setInsert (less : α → α → Prop) [DecidableRel less] (value : α) : List α → List α
  | [] => [value]
  | head :: rest =>
      if less value head then value :: head :: rest
      else if less head value then head :: setInsert less value rest
      else head :: rest

theorem mem_setInsert_of_mem {value other : α} {values : List α} (member : other ∈ values) :
    other ∈ setInsert less value values := by
  induction values with
  | nil => contradiction
  | cons head rest ih =>
      simp only [setInsert]
      split
      · exact List.mem_cons_of_mem _ member
      · split
        · rcases List.mem_cons.mp member with rfl | member
          · exact List.mem_cons_self
          · exact List.mem_cons_of_mem _ (ih member)
        · exact member

theorem eq_or_mem_of_mem_setInsert {value other : α} {values : List α}
    (member : other ∈ setInsert less value values) : other = value ∨ other ∈ values := by
  induction values with
  | nil => exact .inl (by simpa [setInsert] using member)
  | cons head rest ih =>
      simp only [setInsert] at member
      split at member
      · exact List.mem_cons.mp member
      · split at member
        · rcases List.mem_cons.mp member with rfl | member
          · exact .inr List.mem_cons_self
          · exact (ih member).imp_right (List.mem_cons_of_mem _)
        · exact .inr member

/-- A value the comparator separates from every element is inserted. -/
theorem mem_setInsert_self {value : α} {values : List α}
    (separated : ∀ other ∈ values, less value other ∨ less other value) :
    value ∈ setInsert less value values := by
  induction values with
  | nil => simp [setInsert]
  | cons head rest ih =>
      simp only [setInsert]
      split
      · exact List.mem_cons_self
      · rename_i notBefore
        have after : less head value :=
          (separated head List.mem_cons_self).resolve_left notBefore
        rw [if_pos after]
        exact List.mem_cons_of_mem _
          (ih fun other member => separated other (List.mem_cons_of_mem _ member))

/-- A value that the comparator separates from every element goes between them. -/
theorem setInsert_split {value : α} {values : List α}
    (separated : ∀ other ∈ values, less value other ∨ less other value) :
    ∃ front back, values = front ++ back ∧
      setInsert less value values = front ++ value :: back := by
  induction values with
  | nil => exact ⟨[], [], rfl, rfl⟩
  | cons head rest ih =>
      by_cases before : less value head
      · exact ⟨[], head :: rest, rfl, by simp [setInsert, before]⟩
      · have after := (separated head List.mem_cons_self).resolve_left before
        obtain ⟨front, back, rfl, inserted⟩ :=
          ih fun other member => separated other (List.mem_cons_of_mem _ member)
        exact ⟨head :: front, back, rfl, by simp [setInsert, before, after, inserted]⟩

theorem setInsert_pairwise [IsTrans α less] {value : α} {values : List α}
    (ordered : values.Pairwise less) : (setInsert less value values).Pairwise less := by
  induction values with
  | nil => simp [setInsert]
  | cons head rest ih =>
      obtain ⟨headLeast, restOrdered⟩ := List.pairwise_cons.mp ordered
      simp only [setInsert]
      split
      · rename_i before
        refine List.pairwise_cons.mpr ⟨?_, ordered⟩
        intro other member
        rcases List.mem_cons.mp member with rfl | member
        · exact before
        · exact IsTrans.trans _ _ _ before (headLeast other member)
      · split
        · rename_i after
          refine List.pairwise_cons.mpr ⟨?_, ih restOrdered⟩
          intro other member
          rcases eq_or_mem_of_mem_setInsert member with rfl | member
          · exact after
          · exact headLeast other member
        · exact ordered

/-- The place of a value between the elements below it and those above it. -/
theorem setInsert_between {value : α} {lower upper : List α}
    (under : ∀ other ∈ lower, less other value ∧ ¬ less value other)
    (above : ∀ other ∈ upper, less value other) :
    setInsert less value (lower ++ upper) = lower ++ value :: upper := by
  induction lower with
  | nil =>
      cases upper with
      | nil => rfl
      | cons head rest => exact if_pos (above head List.mem_cons_self)
  | cons head rest ih =>
      obtain ⟨before, notAfter⟩ := under head List.mem_cons_self
      have inserted := ih fun other member => under other (List.mem_cons_of_mem _ member)
      rw [List.cons_append, setInsert, if_neg notAfter, if_pos before, inserted]
      rfl

/-- Insertion repeats nothing, whether or not the sequence is in order. -/
theorem setInsert_nodup {value : α} {values : List α} (nodup : values.Nodup)
    (fresh : value ∉ values) : (setInsert less value values).Nodup := by
  induction values with
  | nil => exact List.pairwise_singleton _ value
  | cons head rest ih =>
      obtain ⟨headFresh, restNodup⟩ := List.nodup_cons.mp nodup
      simp only [List.mem_cons, not_or] at fresh
      simp only [setInsert]
      split
      · exact List.nodup_cons.mpr ⟨by simp [fresh], nodup⟩
      · split
        · refine List.nodup_cons.mpr ⟨fun member => ?_, ih restNodup fresh.2⟩
          rcases eq_or_mem_of_mem_setInsert member with same | member
          · exact fresh.1 same.symm
          · exact headFresh member
        · exact nodup

/-- Two different elements of an ordered sequence are related one way round. -/
theorem pairwise_sides {relation : α → α → Prop} {values : List α} {left right : α}
    (ordered : values.Pairwise relation) (leftMember : left ∈ values) (rightMember : right ∈ values)
    (different : left ≠ right) : relation left right ∨ relation right left := by
  induction values with
  | nil => contradiction
  | cons head rest ih =>
      obtain ⟨headFirst, restOrdered⟩ := List.pairwise_cons.mp ordered
      rcases List.mem_cons.mp leftMember with leftHead | leftRest
      · rcases List.mem_cons.mp rightMember with rightHead | rightRest
        · exact absurd (leftHead.trans rightHead.symm) different
        · exact .inl (leftHead ▸ headFirst right rightRest)
      · rcases List.mem_cons.mp rightMember with rightHead | rightRest
        · exact .inr (rightHead ▸ headFirst left leftRest)
        · exact ih restOrdered leftRest rightRest

section Prefix

variable {due : α → Bool} {values : List α}

/-- Where earlier elements are due whenever later ones are, scanning until the
first element that is not due finds every due element. -/
theorem takeWhile_eq_filter
    (closed : values.Pairwise fun left right => due right = true → due left = true) :
    values.takeWhile due = values.filter due := by
  induction values with
  | nil => rfl
  | cons head rest ih =>
      obtain ⟨headFirst, restClosed⟩ := List.pairwise_cons.mp closed
      cases isDue : due head with
      | true => simp [isDue, ih restClosed]
      | false =>
          have none : rest.filter due = [] := by
            refine List.filter_eq_nil_iff.mpr fun other member isLater => ?_
            have := headFirst other member isLater
            simp [isDue] at this
          simp [isDue, none]

theorem dropWhile_eq_filter
    (closed : values.Pairwise fun left right => due right = true → due left = true) :
    values.dropWhile due = values.filter fun value => !due value := by
  induction values with
  | nil => rfl
  | cons head rest ih =>
      obtain ⟨headFirst, restClosed⟩ := List.pairwise_cons.mp closed
      cases isDue : due head with
      | true => simp [isDue, ih restClosed]
      | false =>
          have kept : rest.filter (fun value => !due value) = rest := by
            refine List.filter_eq_self.mpr fun other member => ?_
            cases later : due other with
            | false => rfl
            | true =>
                have := headFirst other member later
                simp [isDue] at this
          simp [isDue, kept]

end Prefix

end FiberKcp.Data
