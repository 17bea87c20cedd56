import Mathlib.Algebra.Ring.Nat
import Mathlib.Algebra.Ring.Int.Defs
import Mathlib.Data.Tree.Basic
import Mathlib.Data.List.Basic
import Mathlib.Data.List.Induction

namespace FiberKcp.Data

/-! Searching a binary search tree with comparisons that may fail.

`goesLeft` says at a value of the tree to which side a search goes on; it is
`none` when the comparison fails, and the search fails with it.  The shape of
the tree is arbitrary: only the sequence its iterator visits is used.
-/

variable {α : Type*} {goesLeft : α → Option Bool}

def inorder : BinaryTree α → List α
  | .nil => []
  | .node value left right => inorder left ++ value :: inorder right

/-- The values before and after the place where the search ends. -/
def descend (goesLeft : α → Option Bool) : BinaryTree α → Option (List α × List α)
  | .nil => some ([], [])
  | .node value left right =>
      (goesLeft value).bind fun toLeft =>
        if toLeft then
          (descend goesLeft left).map fun (before, after) =>
            (before, after ++ value :: inorder right)
        else
          (descend goesLeft right).map fun (before, after) =>
            (inorder left ++ value :: before, after)

/-- A cut of a sequence is on one side of each of its elements. -/
theorem append_cons_sides {lower upper front back : List α} {value : α}
    (cut : lower ++ value :: upper = front ++ back) :
    (∃ more, front = lower ++ value :: more ∧ upper = more ++ back) ∨
      ∃ more, lower = front ++ more ∧ back = more ++ value :: upper := by
  rcases List.append_eq_append_iff.mp cut with ⟨more, frontEq, rest⟩ | after
  · cases more with
    | nil => exact .inr ⟨[], by simpa using frontEq.symm, by simpa using rest.symm⟩
    | cons head tail =>
        obtain ⟨rfl, upperEq⟩ := List.cons_eq_cons.mp rest
        exact .inl ⟨tail, frontEq, upperEq⟩
  · exact .inr after

/-- A search whose comparisons agree with a cut of the sequence ends at the cut. -/
theorem descend_eq {tree : BinaryTree α} {front back : List α}
    (cut : inorder tree = front ++ back) (right : ∀ value ∈ front, goesLeft value = some false)
    (left : ∀ value ∈ back, goesLeft value = some true) :
    descend goesLeft tree = some (front, back) := by
  induction tree generalizing front back with
  | nil =>
      obtain ⟨rfl, rfl⟩ := List.append_eq_nil_iff.mp cut.symm
      rfl
  | node value lower upper lowerIh upperIh =>
      rcases append_cons_sides cut with ⟨more, rfl, upperEq⟩ | ⟨more, lowerEq, rfl⟩
      · have later := upperIh upperEq (fun other member => right other (by simp [member])) left
        rw [descend, right value (by simp), Option.bind_some, if_neg (by decide), later]
        rfl
      · have earlier := lowerIh lowerEq right (fun other member => left other (by simp [member]))
        rw [descend, left value (by simp), Option.bind_some, if_pos rfl, earlier]
        rfl

/-- A search reaches the value that its comparisons cannot place. -/
theorem descend_eq_none {tree : BinaryTree α} {front back : List α} {middle : α}
    (cut : inorder tree = front ++ middle :: back)
    (right : ∀ value ∈ front, goesLeft value = some false) (fails : goesLeft middle = none)
    (left : ∀ value ∈ back, goesLeft value = some true) : descend goesLeft tree = none := by
  induction tree generalizing front back with
  | nil => simp [inorder] at cut
  | node value lower upper lowerIh upperIh =>
      rcases append_cons_sides cut with ⟨more, rfl, upperEq⟩ | ⟨more, lowerEq, rest⟩
      · have later := upperIh upperEq (fun other member => right other (by simp [member])) left
        rw [descend, right value (by simp), Option.bind_some, if_neg (by decide), later]
        rfl
      · cases more with
        | nil =>
            obtain ⟨rfl, _⟩ := List.cons_eq_cons.mp rest
            rw [descend, fails]
            rfl
        | cons head tail =>
            obtain ⟨rfl, rfl⟩ := List.cons_eq_cons.mp rest
            have earlier := lowerIh lowerEq right
              (fun other member => left other (by simp [member]))
            rw [descend, left value (by simp), Option.bind_some, if_pos rfl, earlier]
            rfl

/-! Insertion at the place where a search with comparisons that do not fail
ends. -/

def locate (goesLeft : α → Bool) : BinaryTree α → List α × List α
  | .nil => ([], [])
  | .node value left right =>
      if goesLeft value then
        ((locate goesLeft left).1, (locate goesLeft left).2 ++ value :: inorder right)
      else (inorder left ++ value :: (locate goesLeft right).1, (locate goesLeft right).2)

section Locate

variable {goesLeft : α → Bool} {tree : BinaryTree α}

theorem descend_some : descend (fun value => some (goesLeft value)) tree =
    some (locate goesLeft tree) := by
  induction tree with
  | nil => rfl
  | node value left right leftIh rightIh =>
      cases toLeft : goesLeft value with
      | true => simp [descend, locate, toLeft, leftIh]
      | false => simp [descend, locate, toLeft, rightIh]

theorem locate_append : (locate goesLeft tree).1 ++ (locate goesLeft tree).2 = inorder tree := by
  induction tree with
  | nil => rfl
  | node value left right leftIh rightIh =>
      cases toLeft : goesLeft value with
      | true => simp [locate, toLeft, inorder, ← leftIh]
      | false => simp [locate, toLeft, inorder, ← rightIh]

/-- The search went to the right at the last value before its end. -/
theorem locate_last {value : α} (last : (locate goesLeft tree).1.getLast? = some value) :
    goesLeft value = false := by
  induction tree with
  | nil => simp [locate] at last
  | node root left right leftIh rightIh =>
      cases toLeft : goesLeft root with
      | true =>
          simp only [locate, toLeft, if_true] at last
          exact leftIh last
      | false =>
          simp only [locate, toLeft, Bool.false_eq_true, if_false, List.getLast?_append,
            List.getLast?_cons] at last
          cases before : (locate goesLeft right).1.getLast? with
          | none =>
              simp only [before, Option.getD_none, Option.some_or, Option.some.injEq] at last
              rwa [← last]
          | some found =>
              simp only [before, Option.getD_some, Option.some_or, Option.some.injEq] at last
              exact rightIh (last ▸ before)

/-- The search went to the left at the first value after its end. -/
theorem locate_head {value : α} (next : (locate goesLeft tree).2.head? = some value) :
    goesLeft value = true := by
  induction tree with
  | nil => simp [locate] at next
  | node root left right leftIh rightIh =>
      cases toLeft : goesLeft root with
      | true =>
          simp only [locate, toLeft, if_true, List.head?_append, List.head?_cons] at next
          cases after : (locate goesLeft left).2.head? with
          | none =>
              simp only [after, Option.none_or, Option.some.injEq] at next
              rwa [← next]
          | some found =>
              simp only [after, Option.some_or, Option.some.injEq] at next
              exact leftIh (next ▸ after)
      | false =>
          simp only [locate, toLeft, Bool.false_eq_true, if_false] at next
          exact rightIh next

end Locate

/-- Insertion into the tree, where an equivalent value is left alone: the sequence
afterwards. -/
def treeInsert (less : α → α → Prop) [DecidableRel less] (value : α) (tree : BinaryTree α) :
    List α :=
  let place := locate (fun node => decide (less value node)) tree
  if place.1.getLast?.all fun last => decide (less last value) then
    place.1 ++ value :: place.2
  else inorder tree

/-- A place in a sequence at which a value is in order with its two neighbours. -/
structure FitsBetween (less : α → α → Prop) (value : α) (front back : List α) : Prop where
  last : ∀ last, front.getLast? = some last → less last value
  next : ∀ next, back.head? = some next → less value next

section TreeInsert

variable {less : α → α → Prop} [DecidableRel less] {value : α} {tree : BinaryTree α}

/-- Whatever the shape of the tree, a value that the comparator separates from
every element goes to where the search ends. -/
theorem treeInsert_eq (separated : ∀ other ∈ inorder tree, less value other ∨ less other value) :
    let place := locate (fun node => decide (less value node)) tree
    treeInsert less value tree = place.1 ++ value :: place.2 ∧
      FitsBetween less value place.1 place.2 := by
  intro place
  let goesLeft : α → Bool := fun node => decide (less value node)
  have whole : place.1 ++ place.2 = inorder tree := locate_append
  have passed : ∀ last, place.1.getLast? = some last → less last value := by
    intro last isLast
    have notBefore : goesLeft last = false := locate_last isLast
    have member : last ∈ inorder tree := by
      rw [← whole]
      exact List.mem_append_left _ (List.mem_of_getLast? isLast)
    exact (separated last member).resolve_left (by simpa [goesLeft] using notBefore)
  have stopped : ∀ next, place.2.head? = some next → less value next := by
    intro next isNext
    have toLeft : goesLeft next = true := locate_head isNext
    simpa [goesLeft] using toLeft
  have inserted : treeInsert less value tree = place.1 ++ value :: place.2 := by
    apply if_pos
    cases isLast : place.1.getLast? with
    | none => rfl
    | some last => simpa using passed last isLast
  exact ⟨inserted, passed, stopped⟩

theorem treeInsert_fits (separated : ∀ other ∈ inorder tree, less value other ∨ less other value) :
    ∃ front back, inorder tree = front ++ back ∧
      treeInsert less value tree = front ++ value :: back ∧ FitsBetween less value front back :=
  ⟨_, _, locate_append.symm, treeInsert_eq separated⟩

/-- In a sequence in order there is one such place. -/
theorem treeInsert_between {lower upper : List α} (cut : inorder tree = lower ++ upper)
    (under : ∀ other ∈ lower, less other value ∧ ¬ less value other)
    (above : ∀ other ∈ upper, less value other) :
    treeInsert less value tree = lower ++ value :: upper := by
  have found : descend (fun node => some (decide (less value node))) tree = some (lower, upper) :=
    descend_eq cut (fun other member => by simp [under other member])
      (fun other member => by simp [above other member])
  rw [descend_some, Option.some.injEq] at found
  have last : lower.getLast?.all fun last => decide (less last value) := by
    cases isLast : lower.getLast? with
    | none => rfl
    | some last => simpa using (under last (List.mem_of_getLast? isLast)).1
  simp [treeInsert, found, last]

end TreeInsert

/-- In a sequence out of order the place is a matter of the tree. -/
example : treeInsert (· < ·) 5 (.node 0 (.node 10 .nil .nil) (.node 20 .nil .nil)) =
    [10, 0, 5, 20] := by decide

example : treeInsert (· < ·) 5 (.node 10 .nil (.node 0 .nil (.node 20 .nil .nil))) =
    [5, 10, 0, 20] := by decide

/-- An element between its neighbours keeps a sequence in order. -/
theorem FitsBetween.pairwise {relation : α → α → Prop} [IsTrans α relation] {value : α}
    {front back : List α} (fits : FitsBetween relation value front back)
    (ordered : (front ++ back).Pairwise relation) :
    (front ++ value :: back).Pairwise relation := by
  obtain ⟨frontOrdered, backOrdered, across⟩ := List.pairwise_append.mp ordered
  have under : ∀ other ∈ front, relation other value := by
    rcases List.eq_nil_or_concat' front with rfl | ⟨first, last, rfl⟩
    · simp
    · have final := fits.last last (by simp)
      intro other member
      rcases List.mem_append.mp member with earlier | isLast
      · have ordered := (List.pairwise_append.mp frontOrdered).2.2 other earlier last (by simp)
        exact IsTrans.trans _ _ _ ordered final
      · rwa [List.mem_singleton.mp isLast]
  have above : ∀ other ∈ back, relation value other := by
    cases back with
    | nil => simp
    | cons next rest =>
        have first := fits.next next rfl
        intro other member
        rcases List.mem_cons.mp member with rfl | later
        · exact first
        · exact IsTrans.trans _ _ _ first ((List.pairwise_cons.mp backOrdered).1 other later)
  refine List.pairwise_append.mpr ⟨frontOrdered, List.pairwise_cons.mpr ⟨above, backOrdered⟩, ?_⟩
  intro left leftMember right rightMember
  rcases List.mem_cons.mp rightMember with rfl | later
  · exact under left leftMember
  · exact across left leftMember right later

/-! The tree in which every search goes through the sequence from its end. -/

def leftSpine (values : List α) : BinaryTree α :=
  values.foldl (fun tree value => .node value tree .nil) .nil

section Spine

variable {goesLeft : α → Bool} {value : α} {values : List α}

@[simp] theorem leftSpine_append : leftSpine (values ++ [value]) =
    .node value (leftSpine values) .nil := by
  simp [leftSpine]

theorem inorder_leftSpine : inorder (leftSpine values) = values := by
  induction values using List.reverseRecOn with
  | nil => rfl
  | append_singleton rest last ih => simp [inorder, ih]

/-- The search stops at the last value it goes to the right at. -/
theorem locate_leftSpine (member : value ∈ (locate goesLeft (leftSpine values)).2) :
    goesLeft value = true := by
  induction values using List.reverseRecOn with
  | nil => simp [leftSpine, locate] at member
  | append_singleton rest last ih =>
      cases toLeft : goesLeft last with
      | true =>
          simp only [leftSpine_append, locate, toLeft, if_true, inorder, List.mem_append,
            List.mem_singleton] at member
          rcases member with earlier | rfl
          · exact ih earlier
          · exact toLeft
      | false => simp [locate, toLeft] at member

end Spine

end FiberKcp.Data
