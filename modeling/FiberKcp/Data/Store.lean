import Mathlib.Data.List.Chain
import Mathlib.Data.List.Nodup
import Mathlib.Logic.Function.Basic

namespace FiberKcp.Data

/-! Allocated cells in circular lists with two links each.  A read or a write
through a null pointer, or of a cell that is not allocated, fails. -/

/-- Where a link may point to: the head of a list, or a cell. -/
inductive Place (Index : Type) where
  | head (index : Index)
  | cell (address : Nat)
deriving DecidableEq

structure Node (Index Content : Type) where
  next : Option (Place Index) := none
  prev : Option (Place Index) := none
  content : Option Content := none

structure Store (Index Content : Type) where
  nodes : Place Index → Option (Node Index Content)
  brk : Nat := 0

section Store

variable {Index Content : Type}

namespace Store

def next (store : Store Index Content) (place : Place Index) : Option (Place Index) :=
  (store.nodes place).bind Node.next

def prev (store : Store Index Content) (place : Place Index) : Option (Place Index) :=
  (store.nodes place).bind Node.prev

def read (store : Store Index Content) (place : Place Index) : Option Content :=
  (store.nodes place).bind Node.content

def Mapped (store : Store Index Content) (place : Place Index) : Prop :=
  (store.nodes place).isSome = true

/-- Nothing but links is changed. -/
structure Same (before after : Store Index Content) : Prop where
  mapped : ∀ place, after.Mapped place ↔ before.Mapped place
  read : after.read = before.read
  brk : after.brk = before.brk

theorem Same.refl (store : Store Index Content) : store.Same store :=
  ⟨fun _ => Iff.rfl, rfl, rfl⟩

theorem Same.trans {first second third : Store Index Content} (left : first.Same second)
    (right : second.Same third) : first.Same third :=
  ⟨fun place => (right.mapped place).trans (left.mapped place), right.read.trans left.read,
    right.brk.trans left.brk⟩

theorem mapped_of_next {store : Store Index Content} {place target : Place Index}
    (found : store.next place = some target) : store.Mapped place := by
  obtain ⟨node, here, _⟩ := Option.bind_eq_some_iff.mp found
  rw [Mapped, here]
  rfl

theorem mapped_of_prev {store : Store Index Content} {place target : Place Index}
    (found : store.prev place = some target) : store.Mapped place := by
  obtain ⟨node, here, _⟩ := Option.bind_eq_some_iff.mp found
  rw [Mapped, here]
  rfl

theorem mapped_of_read {store : Store Index Content} {place : Place Index} {content : Content}
    (found : store.read place = some content) : store.Mapped place := by
  obtain ⟨node, here, _⟩ := Option.bind_eq_some_iff.mp found
  rw [Mapped, here]
  rfl

variable [DecidableEq Index]

def modify (store : Store Index Content) (place : Place Index)
    (change : Node Index Content → Node Index Content) : Option (Store Index Content) :=
  (store.nodes place).map fun node =>
    { store with nodes := Function.update store.nodes place (some (change node)) }

def setNext (store : Store Index Content) (place : Place Index) (target : Option (Place Index)) :
    Option (Store Index Content) :=
  store.modify place fun node => { node with next := target }

def setPrev (store : Store Index Content) (place : Place Index) (target : Option (Place Index)) :
    Option (Store Index Content) :=
  store.modify place fun node => { node with prev := target }

def write (store : Store Index Content) (place : Place Index) (content : Content) :
    Option (Store Index Content) :=
  store.modify place fun node => { node with content := some content }

/-- The links of a new cell are null. -/
def alloc (store : Store Index Content) (content : Content) :
    Store Index Content × Place Index :=
  ({ nodes := Function.update store.nodes (.cell store.brk) (some { content := some content })
     brk := store.brk + 1 }, .cell store.brk)

@[simp] theorem alloc_place (store : Store Index Content) (content : Content) :
    (store.alloc content).2 = .cell store.brk := rfl

def free (store : Store Index Content) (place : Place Index) : Option (Store Index Content) :=
  (store.nodes place).map fun _ =>
    { store with nodes := Function.update store.nodes place none }

/-- Both links of a node point back to it. -/
def init (store : Store Index Content) (node : Place Index) : Option (Store Index Content) := do
  let store ← store.setNext node (some node)
  store.setPrev node (some node)

/-- `node` is put behind `head`. -/
def add (store : Store Index Content) (node head : Place Index) :
    Option (Store Index Content) := do
  let store ← store.setPrev node (some head)
  let after ← store.next head
  let store ← store.setNext node (some after)
  let after ← store.next head
  let store ← store.setPrev after (some node)
  store.setNext head (some node)

/-- `node` is put before `head`. -/
def addTail (store : Store Index Content) (node head : Place Index) :
    Option (Store Index Content) := do
  let before ← store.prev head
  let store ← store.setPrev node (some before)
  let store ← store.setNext node (some head)
  let before ← store.prev head
  let store ← store.setNext before (some node)
  store.setPrev head (some node)

def del (store : Store Index Content) (entry : Place Index) : Option (Store Index Content) := do
  let after ← store.next entry
  let before ← store.prev entry
  let store ← store.setPrev after (some before)
  let before ← store.prev entry
  let after ← store.next entry
  let store ← store.setNext before (some after)
  let store ← store.setNext entry none
  store.setPrev entry none

section Update

variable {store : Store Index Content} {place : Place Index}

theorem modify_spec (mapped : store.Mapped place)
    (change : Node Index Content → Node Index Content) :
    ∃ node after, store.nodes place = some node ∧ store.modify place change = some after ∧
      after.nodes = Function.update store.nodes place (some (change node)) ∧
      after.brk = store.brk := by
  obtain ⟨node, here⟩ := Option.isSome_iff_exists.mp mapped
  refine ⟨node, { store with nodes := Function.update store.nodes place (some (change node)) },
    here, ?_, rfl, rfl⟩
  rw [modify, here]
  rfl

theorem mapped_update {nodes : Place Index → Option (Node Index Content)}
    {node other : Node Index Content} (here : nodes place = some node) (elsewhere : Place Index) :
    (Function.update nodes place (some other) elsewhere).isSome = true ↔
      (nodes elsewhere).isSome = true := by
  by_cases same : elsewhere = place
  · rw [same, Function.update_self, here]
    rfl
  · rw [Function.update_of_ne same]

/-- A part of the node that a write changes at one place. -/
theorem bind_update {Part : Type*} {nodes : Place Index → Option (Node Index Content)}
    (part : Node Index Content → Option Part) (node : Node Index Content) :
    (fun elsewhere => (Function.update nodes place (some node) elsewhere).bind part) =
      Function.update (fun elsewhere => (nodes elsewhere).bind part) place (part node) := by
  funext elsewhere
  by_cases same : elsewhere = place
  · rw [same, Function.update_self, Function.update_self]
    rfl
  · rw [Function.update_of_ne same, Function.update_of_ne same]

/-- A part that a write leaves alone. -/
theorem bind_update_same {Part : Type*} {nodes : Place Index → Option (Node Index Content)}
    (part : Node Index Content → Option Part) {node other : Node Index Content}
    (here : nodes place = some node) (kept : part other = part node) :
    (fun elsewhere => (Function.update nodes place (some other) elsewhere).bind part) =
      fun elsewhere => (nodes elsewhere).bind part := by
  rw [bind_update, kept]
  apply Function.update_eq_self_iff.mpr
  rw [here]
  rfl

theorem setNext_spec (mapped : store.Mapped place) (target : Option (Place Index)) :
    ∃ after, store.setNext place target = some after ∧ store.Same after ∧
      after.next = Function.update store.next place target ∧ after.prev = store.prev := by
  obtain ⟨node, after, here, done, nodes, brk⟩ :=
    modify_spec mapped fun node => { node with next := target }
  refine ⟨after, done, ⟨fun elsewhere => ?_, ?_, brk⟩, ?_, ?_⟩
  · rw [Mapped, Mapped, nodes]
    exact mapped_update here elsewhere
  · unfold read
    rw [nodes]
    exact bind_update_same Node.content here rfl
  · unfold next
    rw [nodes]
    exact bind_update Node.next _
  · unfold prev
    rw [nodes]
    exact bind_update_same Node.prev here rfl

theorem setPrev_spec (mapped : store.Mapped place) (target : Option (Place Index)) :
    ∃ after, store.setPrev place target = some after ∧ store.Same after ∧
      after.prev = Function.update store.prev place target ∧ after.next = store.next := by
  obtain ⟨node, after, here, done, nodes, brk⟩ :=
    modify_spec mapped fun node => { node with prev := target }
  refine ⟨after, done, ⟨fun elsewhere => ?_, ?_, brk⟩, ?_, ?_⟩
  · rw [Mapped, Mapped, nodes]
    exact mapped_update here elsewhere
  · unfold read
    rw [nodes]
    exact bind_update_same Node.content here rfl
  · unfold prev
    rw [nodes]
    exact bind_update Node.prev _
  · unfold next
    rw [nodes]
    exact bind_update_same Node.next here rfl

theorem write_spec (mapped : store.Mapped place) (content : Content) :
    ∃ after, store.write place content = some after ∧
      (∀ elsewhere, after.Mapped elsewhere ↔ store.Mapped elsewhere) ∧ after.brk = store.brk ∧
      after.next = store.next ∧ after.prev = store.prev ∧
      after.read = Function.update store.read place (some content) := by
  obtain ⟨node, after, here, done, nodes, brk⟩ :=
    modify_spec mapped fun node => { node with content := some content }
  refine ⟨after, done, fun elsewhere => ?_, brk, ?_, ?_, ?_⟩
  · rw [Mapped, Mapped, nodes]
    exact mapped_update here elsewhere
  · unfold next
    rw [nodes]
    exact bind_update_same Node.next here rfl
  · unfold prev
    rw [nodes]
    exact bind_update_same Node.prev here rfl
  · unfold read
    rw [nodes]
    exact bind_update Node.content _

theorem free_spec (mapped : store.Mapped place) :
    ∃ after, store.free place = some after ∧
      after.nodes = Function.update store.nodes place none ∧ after.brk = store.brk := by
  obtain ⟨node, here⟩ := Option.isSome_iff_exists.mp mapped
  refine ⟨{ store with nodes := Function.update store.nodes place none }, ?_, rfl, rfl⟩
  rw [free, here]
  rfl

theorem init_spec (mapped : store.Mapped place) :
    ∃ after, store.init place = some after ∧ store.Same after ∧
      after.next = Function.update store.next place (some place) ∧
      after.prev = Function.update store.prev place (some place) := by
  obtain ⟨first, linked, same, next, prev⟩ := setNext_spec mapped (some place)
  obtain ⟨second, done, sameNext, prevNext, nextNext⟩ :=
    setPrev_spec ((same.mapped place).mpr mapped) (some place)
  refine ⟨second, ?_, same.trans sameNext, nextNext.trans next, ?_⟩
  · rw [init, linked]
    exact done
  · rw [prevNext, prev]

end Update

/-- `node` is linked in between two neighbours. -/
structure Linked (before after : Store Index Content) (left node right : Place Index) :
    Prop where
  same : before.Same after
  next : after.next = Function.update (Function.update before.next node (some right)) left
    (some node)
  prev : after.prev = Function.update (Function.update before.prev node (some left)) right
    (some node)

/-- `node` is taken out from between its neighbours. -/
structure Unlinked (before after : Store Index Content) (left node right : Place Index) :
    Prop where
  same : before.Same after
  next : after.next = Function.update (Function.update before.next left (some right)) node none
  prev : after.prev = Function.update (Function.update before.prev right (some left)) node none

section Links

variable {store : Store Index Content} {left node right : Place Index}

theorem add_spec (mapped : store.Mapped node) (after : store.next left = some right)
    (back : store.prev right = some left) (outside : left ≠ node) :
    ∃ later, store.add node left = some later ∧ store.Linked later left node right := by
  have mappedLeft := mapped_of_next after
  have mappedRight := mapped_of_prev back
  obtain ⟨s1, one, same1, prev1, next1⟩ := setPrev_spec mapped (some left)
  have after1 : s1.next left = some right := by rw [next1, after]
  obtain ⟨s2, two, same2, next2, prev2⟩ := setNext_spec ((same1.mapped node).mpr mapped) (some right)
  have after2 : s2.next left = some right := by
    rw [next2, Function.update_of_ne outside, after1]
  have same12 := same1.trans same2
  obtain ⟨s3, three, same3, prev3, next3⟩ :=
    setPrev_spec ((same12.mapped right).mpr mappedRight) (some node)
  have same123 := same12.trans same3
  obtain ⟨s4, four, same4, next4, prev4⟩ :=
    setNext_spec ((same123.mapped left).mpr mappedLeft) (some node)
  refine ⟨s4, ?_, same123.trans same4, ?_, ?_⟩
  · simp only [add, one, after1, two, after2, three, four, Option.bind_eq_bind, Option.bind_some]
  · rw [next4, next3, next2, next1]
  · rw [prev4, prev3, prev2, prev1]

theorem addTail_spec (mapped : store.Mapped node) (before : store.prev right = some left)
    (forth : store.next left = some right) (outside : right ≠ node) :
    ∃ later, store.addTail node right = some later ∧ store.Linked later left node right := by
  have mappedRight := mapped_of_prev before
  have mappedLeft := mapped_of_next forth
  obtain ⟨s1, one, same1, prev1, next1⟩ := setPrev_spec mapped (some left)
  obtain ⟨s2, two, same2, next2, prev2⟩ := setNext_spec ((same1.mapped node).mpr mapped) (some right)
  have before2 : s2.prev right = some left := by
    rw [prev2, prev1, Function.update_of_ne outside, before]
  have same12 := same1.trans same2
  obtain ⟨s3, three, same3, next3, prev3⟩ :=
    setNext_spec ((same12.mapped left).mpr mappedLeft) (some node)
  have same123 := same12.trans same3
  obtain ⟨s4, four, same4, prev4, next4⟩ :=
    setPrev_spec ((same123.mapped right).mpr mappedRight) (some node)
  refine ⟨s4, ?_, same123.trans same4, ?_, ?_⟩
  · simp only [addTail, before, one, two, before2, three, four, Option.bind_eq_bind,
      Option.bind_some]
  · rw [next4, next3, next2, next1]
  · rw [prev4, prev3, prev2, prev1]

theorem del_spec (after : store.next node = some right) (before : store.prev node = some left)
    (mappedLeft : store.Mapped left) (mappedRight : store.Mapped right) (outside : right ≠ node) :
    ∃ later, store.del node = some later ∧ store.Unlinked later left node right := by
  have mapped := mapped_of_next after
  obtain ⟨s1, one, same1, prev1, next1⟩ := setPrev_spec mappedRight (some left)
  have before1 : s1.prev node = some left := by
    rw [prev1, Function.update_of_ne outside.symm, before]
  have after1 : s1.next node = some right := by rw [next1, after]
  obtain ⟨s2, two, same2, next2, prev2⟩ :=
    setNext_spec ((same1.mapped left).mpr mappedLeft) (some right)
  have same12 := same1.trans same2
  obtain ⟨s3, three, same3, next3, prev3⟩ := setNext_spec ((same12.mapped node).mpr mapped) none
  have same123 := same12.trans same3
  obtain ⟨s4, four, same4, prev4, next4⟩ := setPrev_spec ((same123.mapped node).mpr mapped) none
  refine ⟨s4, ?_, same123.trans same4, ?_, ?_⟩
  · simp only [del, after, before, one, before1, after1, two, three, four, Option.bind_eq_bind,
      Option.bind_some]
  · rw [next4, next3, next2, next1]
  · rw [prev4, prev3, prev2, prev1]

end Links

end Store

end Store

end FiberKcp.Data
