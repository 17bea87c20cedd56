import FiberKcp.Data.Store

namespace FiberKcp.Data

/-! A store that holds lists: each head with its cells is a ring, and every cell
that is allocated is in one of them or loose. -/

section Rings

variable {Index Content : Type}

namespace Store

def Joined (store : Store Index Content) (left right : Place Index) : Prop :=
  store.next left = some right ∧ store.prev right = some left

/-- From the head through the cells and back. -/
def Ring (store : Store Index Content) (head : Place Index) (places : List (Place Index)) : Prop :=
  List.IsChain store.Joined (head :: (places ++ [head]))

/-- The neighbours of a gap in a ring. -/
def leftOf (head : Place Index) (places : List (Place Index)) : Place Index :=
  places.getLast?.getD head

def rightOf (head : Place Index) (places : List (Place Index)) : Place Index :=
  places.head?.getD head

@[simp] theorem rightOf_nil (head : Place Index) : rightOf head [] = head := rfl

@[simp] theorem rightOf_cons (head first : Place Index) (rest : List (Place Index)) :
    rightOf head (first :: rest) = first := rfl

@[simp] theorem leftOf_nil (head : Place Index) : leftOf head [] = head := rfl

@[simp] theorem leftOf_append (head last : Place Index) (places : List (Place Index)) :
    leftOf head (places ++ [last]) = last := by
  simp [leftOf]

theorem leftOf_mem (head : Place Index) (places : List (Place Index)) :
    leftOf head places ∈ head :: places := by
  cases last : places.getLast? with
  | none =>
      rw [leftOf, last]
      exact List.mem_cons_self
  | some place =>
      rw [leftOf, last]
      exact List.mem_cons_of_mem head (List.mem_of_getLast? last)

theorem rightOf_mem (head : Place Index) (places : List (Place Index)) :
    rightOf head places ∈ places ++ [head] := by
  cases places with
  | nil => exact List.mem_singleton_self head
  | cons first rest => exact List.mem_cons_self

variable {before after : Store Index Content} {head : Place Index}
  {places xs ys : List (Place Index)}

theorem ring_append : before.Ring head (xs ++ ys) ↔
    List.IsChain before.Joined (head :: xs) ∧
      before.Joined (leftOf head xs) (rightOf head ys) ∧
      List.IsChain before.Joined (ys ++ [head]) := by
  have parts : head :: (xs ++ ys ++ [head]) = (head :: xs) ++ (ys ++ [head]) := by simp
  have last : (head :: xs).getLast? = some (leftOf head xs) := List.getLast?_cons
  have first : (ys ++ [head]).head? = some (rightOf head ys) := by
    cases ys <;> rfl
  rw [Ring, parts, List.isChain_append, last, first]
  constructor
  · intro chain
    exact ⟨chain.1, chain.2.2 _ rfl _ rfl, chain.2.1⟩
  · intro chain
    refine ⟨chain.1, chain.2.2, ?_⟩
    intro left isLast right isFirst
    rw [← Option.some.inj isLast, ← Option.some.inj isFirst]
    exact chain.2.1

theorem chain_transport (chain : List.IsChain before.Joined places)
    (next : ∀ place ∈ places.dropLast, after.next place = before.next place)
    (prev : ∀ place ∈ places.tail, after.prev place = before.prev place) :
    List.IsChain after.Joined places := by
  induction places with
  | nil => exact .nil
  | cons first rest ih =>
      cases rest with
      | nil => exact .singleton first
      | cons second more =>
          obtain ⟨joined, later⟩ := List.isChain_cons_cons.mp chain
          refine List.isChain_cons_cons.mpr ⟨⟨?_, ?_⟩, ih later ?_ ?_⟩
          · rw [next first List.mem_cons_self, joined.1]
          · rw [prev second List.mem_cons_self, joined.2]
          · exact fun place member => next place (List.mem_cons_of_mem first member)
          · exact fun place member => prev place (List.mem_cons_of_mem second member)

theorem Ring.transport (ring : before.Ring head places)
    (next : ∀ place ∈ head :: places, after.next place = before.next place)
    (prev : ∀ place ∈ head :: places, after.prev place = before.prev place) :
    after.Ring head places := by
  apply chain_transport ring
  · intro place member
    rw [← List.cons_append, List.dropLast_concat] at member
    exact next place member
  · intro place member
    rcases List.mem_append.mp member with inside | atEnd
    · exact prev place (List.mem_cons_of_mem head inside)
    · rw [List.mem_singleton.mp atEnd]
      exact prev head List.mem_cons_self

/-- What holds of a ring without repetition, seen from one of its gaps. -/
structure Gap (head : Place Index) (xs ys : List (Place Index)) : Prop where
  before : ∀ place ∈ (head :: xs).dropLast, place ≠ leftOf head xs
  beforeRight : ∀ place ∈ xs, place ≠ rightOf head ys
  after : ∀ place ∈ ys, place ≠ leftOf head xs
  afterRight : ∀ place ∈ (ys ++ [head]).tail, place ≠ rightOf head ys

theorem gap_of_nodup (once : (head :: (xs ++ ys)).Nodup) : Gap head xs ys := by
  obtain ⟨outside, inside⟩ := List.nodup_cons.mp once
  obtain ⟨left, right, apart⟩ := List.nodup_append.mp inside
  constructor
  · intro place member same
    have whole : (head :: xs).dropLast ++ [leftOf head xs] = head :: xs := by
      rcases List.eq_nil_or_concat xs with empty | ⟨most, last, ends⟩
      · rw [empty]
        rfl
      · rw [ends, List.concat_eq_append, leftOf_append, ← List.cons_append, List.dropLast_concat]
    have nodup : ((head :: xs).dropLast ++ [leftOf head xs]).Nodup := by
      rw [whole]
      exact List.nodup_cons.mpr ⟨fun member => outside (List.mem_append_left _ member), left⟩
    exact (List.nodup_append.mp nodup).2.2 place member _ (List.mem_singleton_self _) same
  · intro place member same
    rcases List.mem_append.mp (rightOf_mem head ys) with inYs | atHead
    · exact apart place member _ inYs same
    · rw [same, List.mem_singleton.mp atHead] at member
      exact outside (List.mem_append_left _ member)
  · intro place member same
    rcases List.mem_cons.mp (leftOf_mem head xs) with atHead | inXs
    · rw [same, atHead] at member
      exact outside (List.mem_append_right _ member)
    · exact apart _ inXs place member same.symm
  · intro place member same
    cases ys with
    | nil => contradiction
    | cons first rest =>
        rw [same] at member
        rcases List.mem_append.mp member with inRest | atHead
        · exact (List.nodup_cons.mp right).1 inRest
        · rw [rightOf_cons] at atHead
          rw [List.mem_singleton.mp atHead] at outside
          exact outside (List.mem_append_right _ List.mem_cons_self)

/-- The neighbours of a cell in a ring. -/
theorem Ring.neighbours {node : Place Index} (ring : before.Ring head (xs ++ node :: ys)) :
    before.Joined (leftOf head xs) node ∧ before.Joined node (rightOf head ys) := by
  obtain ⟨_, joined, back⟩ := ring_append.mp ring
  refine ⟨joined, ?_⟩
  rw [List.cons_append] at back
  cases ys with
  | nil => exact (List.isChain_cons_cons.mp back).1
  | cons first rest => exact (List.isChain_cons_cons.mp back).1

variable [DecidableEq Index] {node left right : Place Index}

theorem Linked.ring (linked : before.Linked after left node right)
    (ring : before.Ring head (xs ++ ys)) (once : (head :: (xs ++ ys)).Nodup)
    (outside : node ∉ head :: (xs ++ ys)) (atLeft : left = leftOf head xs)
    (atRight : right = rightOf head ys) : after.Ring head (xs ++ node :: ys) := by
  have gap := gap_of_nodup once
  obtain ⟨front, _, back⟩ := ring_append.mp ring
  have other : ∀ place ∈ head :: (xs ++ ys), place ≠ node :=
    fun place member same => outside (same ▸ member)
  have leftOther : left ≠ node := by
    apply other
    rw [atLeft]
    exact List.mem_append_left ys (leftOf_mem head xs)
  have rightOther : right ≠ node := by
    apply other
    rw [atRight]
    rcases List.mem_append.mp (rightOf_mem head ys) with inYs | atHead
    · exact List.mem_cons_of_mem head (List.mem_append_right _ inYs)
    · rw [List.mem_singleton.mp atHead]
      exact List.mem_cons_self
  have nextOf : ∀ place, place ≠ left → place ≠ node → after.next place = before.next place := by
    intro place notLeft notNode
    rw [linked.next, Function.update_of_ne notLeft, Function.update_of_ne notNode]
  have prevOf : ∀ place, place ≠ right → place ≠ node → after.prev place = before.prev place := by
    intro place notRight notNode
    rw [linked.prev, Function.update_of_ne notRight, Function.update_of_ne notNode]
  apply ring_append.mpr
  refine ⟨chain_transport front ?_ ?_, ⟨?_, ?_⟩, ?_⟩
  · intro place member
    exact nextOf place (atLeft ▸ gap.before place member)
      (other place (List.mem_append_left ys (List.dropLast_subset _ member)))
  · intro place member
    exact prevOf place (atRight ▸ gap.beforeRight place member)
      (other place (List.mem_cons_of_mem head (List.mem_append_left ys member)))
  · rw [rightOf_cons, linked.next, atLeft, Function.update_self]
  · rw [rightOf_cons, linked.prev, Function.update_of_ne rightOther.symm, Function.update_self,
      atLeft]
  · have joined : after.Joined node right := by
      constructor
      · rw [linked.next, Function.update_of_ne leftOther.symm, Function.update_self]
      · rw [linked.prev, Function.update_self]
    have later : List.IsChain after.Joined (ys ++ [head]) := by
      apply chain_transport back
      · intro place member
        rw [List.dropLast_concat] at member
        exact nextOf place (atLeft ▸ gap.after place member)
          (other place (List.mem_cons_of_mem head (List.mem_append_right xs member)))
      · intro place member
        apply prevOf place (atRight ▸ gap.afterRight place member)
        rcases List.mem_append.mp (List.mem_of_mem_tail member) with inYs | atHead
        · exact other place (List.mem_cons_of_mem head (List.mem_append_right xs inYs))
        · rw [List.mem_singleton.mp atHead]
          exact other head List.mem_cons_self
    rw [List.cons_append]
    rw [atRight] at joined
    cases ys with
    | nil => exact List.isChain_cons_cons.mpr ⟨joined, later⟩
    | cons first rest => exact List.isChain_cons_cons.mpr ⟨joined, later⟩

theorem Unlinked.ring (ring : before.Ring head (xs ++ node :: ys))
    (once : (head :: (xs ++ node :: ys)).Nodup)
    (unlinked : before.Unlinked after (leftOf head xs) node (rightOf head ys)) :
    after.Ring head (xs ++ ys) := by
  have fewer : (head :: (xs ++ ys)).Nodup :=
    once.sublist ((List.Sublist.append_left (List.sublist_cons_self node ys) xs).cons_cons head)
  have gap := gap_of_nodup fewer
  obtain ⟨front, _, whole⟩ := ring_append.mp ring
  have back : List.IsChain before.Joined (ys ++ [head]) := List.IsChain.tail whole
  have other : ∀ place ∈ head :: (xs ++ ys), place ≠ node := by
    intro place member same
    have perm : (head :: xs ++ node :: ys).Perm (node :: (head :: xs ++ ys)) := List.perm_middle
    have twice : (node :: head :: (xs ++ ys)).Nodup := perm.nodup_iff.mp once
    exact (List.nodup_cons.mp twice).1 (same ▸ member)
  have leftOther := other _ (List.mem_append_left ys (leftOf_mem head xs))
  have rightOther : rightOf head ys ≠ node := by
    apply other
    rcases List.mem_append.mp (rightOf_mem head ys) with inYs | atHead
    · exact List.mem_cons_of_mem head (List.mem_append_right _ inYs)
    · rw [List.mem_singleton.mp atHead]
      exact List.mem_cons_self
  have nextOf : ∀ place, place ≠ leftOf head xs → place ≠ node →
      after.next place = before.next place := by
    intro place notLeft notNode
    rw [unlinked.next, Function.update_of_ne notNode, Function.update_of_ne notLeft]
  have prevOf : ∀ place, place ≠ rightOf head ys → place ≠ node →
      after.prev place = before.prev place := by
    intro place notRight notNode
    rw [unlinked.prev, Function.update_of_ne notNode, Function.update_of_ne notRight]
  apply ring_append.mpr
  refine ⟨chain_transport front ?_ ?_, ⟨?_, ?_⟩, chain_transport back ?_ ?_⟩
  · intro place member
    exact nextOf place (gap.before place member)
      (other place (List.mem_append_left ys (List.dropLast_subset _ member)))
  · intro place member
    exact prevOf place (gap.beforeRight place member)
      (other place (List.mem_cons_of_mem head (List.mem_append_left ys member)))
  · rw [unlinked.next, Function.update_of_ne leftOther, Function.update_self]
  · rw [unlinked.prev, Function.update_of_ne rightOther, Function.update_self]
  · intro place member
    rw [List.dropLast_concat] at member
    exact nextOf place (gap.after place member)
      (other place (List.mem_cons_of_mem head (List.mem_append_right xs member)))
  · intro place member
    apply prevOf place (gap.afterRight place member)
    rcases List.mem_append.mp (List.mem_of_mem_tail member) with inYs | atHead
    · exact other place (List.mem_cons_of_mem head (List.mem_append_right xs inYs))
    · rw [List.mem_singleton.mp atHead]
      exact other head List.mem_cons_self

end Store

end Rings

end FiberKcp.Data
