import Mathlib.Data.List.Perm.Subperm
import FiberKcp.Data.Rings

namespace FiberKcp.Data

/-! A store that keeps a family of queues: what the operations on links do to the
lists of cells. -/

section Queues

variable {Index Content : Type}

/-- Addresses with what the cells hold. -/
abbrev Entries (Content : Type) := List (Nat × Content)

def cells (entries : Entries Content) : List (Place Index) :=
  entries.map fun entry => .cell entry.1

@[simp] theorem cells_nil : (cells ([] : Entries Content) : List (Place Index)) = [] := rfl

@[simp] theorem cells_cons (entry : Nat × Content) (rest : Entries Content) :
    (cells (entry :: rest) : List (Place Index)) = .cell entry.1 :: cells rest := rfl

@[simp] theorem cells_append (left right : Entries Content) :
    (cells (left ++ right) : List (Place Index)) = cells left ++ cells right :=
  List.map_append

theorem cells_keys (entries : Entries Content) :
    (cells entries : List (Place Index)) = (entries.map Prod.fst).map Place.cell := by
  rw [cells, List.map_map]
  rfl

/-- The cells of each queue in order, and at `none` those in no queue. -/
def together (queues : Index → Entries Content) (loose : Entries Content) :
    Option Index → Entries Content
  | none => loose
  | some index => queues index

namespace Store

/-- Every cell that is allocated is in one list, once, and holds what is there. -/
structure Owns (store : Store Index Content) (lists : Option Index → Entries Content) :
    Prop where
  content : ∀ index, ∀ entry ∈ lists index, store.read (.cell entry.1) = some entry.2
  once : ∀ index, ((lists index).map Prod.fst).Nodup
  unique : ∀ index other, ∀ entry ∈ lists index, ∀ same ∈ lists other,
    entry.1 = same.1 → index = other
  owned : ∀ address, store.Mapped (.cell address) → ∃ index, address ∈ (lists index).map Prod.fst
  fresh : ∀ address, store.Mapped (.cell address) → address < store.brk

/-- The queues with their cells linked up, and the cells in none of them. -/
structure Holds (store : Store Index Content) (queues : Index → Entries Content)
    (loose : Entries Content) : Prop where
  ring : ∀ index, store.Ring (.head index) (cells (queues index))
  owns : store.Owns (together queues loose)

section Owns

variable {store after : Store Index Content} {lists : Option Index → Entries Content}

theorem Owns.mapped (owns : store.Owns lists) (index : Option Index) {entry : Nat × Content}
    (member : entry ∈ lists index) : store.Mapped (.cell entry.1) :=
  mapped_of_read (owns.content index entry member)

/-- Cells of different lists are different. -/
theorem Owns.other (owns : store.Owns lists) {index other : Option Index} (apart : index ≠ other)
    {entry foreign : Nat × Content} (member : entry ∈ lists index)
    (elsewhere : foreign ∈ lists other) : entry.1 ≠ foreign.1 :=
  fun same => apart (owns.unique index other entry member foreign elsewhere same)

theorem Owns.same (owns : store.Owns lists) (same : store.Same after) : after.Owns lists := by
  constructor
  · intro index entry member
    rw [same.read]
    exact owns.content index entry member
  · exact owns.once
  · exact owns.unique
  · exact fun address mapped => owns.owned address ((same.mapped _).mp mapped)
  · intro address mapped
    rw [same.brk]
    exact owns.fresh address ((same.mapped _).mp mapped)

end Owns

section Navigate

variable {store : Store Index Content} {queues : Index → Entries Content}
  {loose xs ys : Entries Content} {index other : Index} {entry : Nat × Content}

/-- The head of a queue and its cells. -/
def members (queues : Index → Entries Content) (index : Index) : List (Place Index) :=
  .head index :: cells (queues index)

theorem leftOf_members (place : queues index = xs ++ ys) :
    leftOf (.head index) (cells xs) ∈ members queues index := by
  rw [members, place, cells_append]
  exact List.mem_append_left (cells ys) (leftOf_mem (.head index) (cells xs))

theorem rightOf_members (place : queues index = xs ++ ys) :
    rightOf (.head index) (cells ys) ∈ members queues index := by
  rw [members, place, cells_append]
  rcases List.mem_append.mp (rightOf_mem (.head index) (cells ys)) with inYs | atHead
  · exact List.mem_cons_of_mem _ (List.mem_append_right _ inYs)
  · rw [List.mem_singleton.mp atHead]
    exact List.mem_cons_self

theorem Holds.gap (holds : store.Holds queues loose) (place : queues index = xs ++ ys) :
    store.Joined (leftOf (.head index) (cells xs)) (rightOf (.head index) (cells ys)) := by
  have ring := holds.ring index
  rw [place, cells_append] at ring
  exact (ring_append.mp ring).2.1

theorem Holds.first (holds : store.Holds queues loose) (index : Index) :
    store.next (.head index) = some (rightOf (.head index) (cells (queues index))) :=
  (holds.gap (List.nil_append _).symm).1

theorem Holds.first_cons (holds : store.Holds queues loose) (entries : queues index = entry :: ys) :
    store.next (.head index) = some (.cell entry.1) := by
  rw [holds.first, entries, cells_cons, rightOf_cons]

theorem Holds.last (holds : store.Holds queues loose) (index : Index) :
    store.prev (.head index) = some (leftOf (.head index) (cells (queues index))) :=
  (holds.gap (List.append_nil _).symm).2

theorem Holds.between (holds : store.Holds queues loose) (place : queues index = xs ++ entry :: ys) :
    store.Joined (leftOf (.head index) (cells xs)) (.cell entry.1) ∧
      store.Joined (.cell entry.1) (rightOf (.head index) (cells ys)) := by
  have ring := holds.ring index
  rw [place, cells_append, cells_cons] at ring
  exact ring.neighbours

theorem Holds.read (holds : store.Holds queues loose) (place : queues index = xs ++ entry :: ys) :
    store.read (.cell entry.1) = some entry.2 := by
  apply holds.owns.content (some index) entry
  rw [together, place]
  exact List.mem_append_right xs List.mem_cons_self

theorem Holds.nodup (holds : store.Holds queues loose) (index : Index) :
    (members queues index).Nodup := by
  refine List.nodup_cons.mpr ⟨fun member => ?_, ?_⟩
  · obtain ⟨entry, _, same⟩ := List.mem_map.mp member
    cases same
  · have keys : ((queues index).map Prod.fst).Nodup := holds.owns.once (some index)
    rw [cells_keys]
    exact keys.map fun _ _ same => Place.cell.inj same

/-- A queue has no more cells than were ever allocated. -/
theorem Holds.length_le (holds : store.Holds queues loose) (index : Index) :
    (queues index).length ≤ store.brk := by
  have keys : ((queues index).map Prod.fst).Nodup := holds.owns.once (some index)
  have below : (queues index).map Prod.fst ⊆ List.range store.brk := by
    intro address member
    obtain ⟨entry, inQueue, same⟩ := List.mem_map.mp member
    have mapped : store.Mapped (.cell entry.1) := holds.owns.mapped (some index) inQueue
    exact List.mem_range.mpr (same ▸ holds.owns.fresh entry.1 mapped)
  have length := (List.Nodup.subperm keys below).length_le
  rw [List.length_map, List.length_range] at length
  exact length

theorem Holds.not_loose (holds : store.Holds queues loose) {place : Place Index}
    (member : place ∈ members queues index) (isLoose : entry ∈ loose) :
    place ≠ .cell entry.1 := by
  intro equal
  rcases List.mem_cons.mp member with atHead | inside
  · rw [atHead] at equal
    cases equal
  · obtain ⟨found, inQueue, built⟩ := List.mem_map.mp inside
    rw [← built] at equal
    exact holds.owns.other (Option.some_ne_none index) inQueue isLoose (Place.cell.inj equal)

/-- Two queues have neither heads nor cells in common. -/
theorem Holds.apart (holds : store.Holds queues loose) (different : other ≠ index)
    {place near : Place Index} (member : place ∈ members queues other)
    (inIndex : near ∈ members queues index) : place ≠ near := by
  have apart : some other ≠ some index := fun equal => different (Option.some.inj equal)
  intro equal
  rw [← equal] at inIndex
  rcases List.mem_cons.mp member with atHead | inside
  · rw [atHead] at inIndex
    rcases List.mem_cons.mp inIndex with sameHead | isCell
    · cases sameHead
      exact different rfl
    · obtain ⟨_, _, built⟩ := List.mem_map.mp isCell
      cases built
  · obtain ⟨found, inQueue, built⟩ := List.mem_map.mp inside
    rw [← built] at inIndex
    rcases List.mem_cons.mp inIndex with isHead | again
    · cases isHead
    · obtain ⟨twin, inTwin, same⟩ := List.mem_map.mp again
      exact holds.owns.other apart inQueue inTwin (Place.cell.inj same).symm

theorem Holds.mapped_loose (holds : store.Holds queues loose) (isLoose : entry ∈ loose) :
    store.Mapped (.cell entry.1) :=
  holds.owns.mapped none isLoose

end Navigate

variable [DecidableEq Index]

section Move

variable {before after : Store Index Content} {lists : Option Index → Entries Content}
  {source target : Option Index} {entry : Nat × Content} {left right : Entries Content}

/-- An entry goes from one list to another; the links do not matter here. -/
theorem Owns.move (owns : before.Owns lists) (same : before.Same after)
    (apart : source ≠ target) (taken : (lists source).Perm (entry :: left))
    (put : right.Perm (entry :: lists target)) :
    after.Owns (Function.update (Function.update lists source left) target right) := by
  have keys : (entry.1 :: left.map Prod.fst).Nodup :=
    (taken.map Prod.fst).nodup_iff.mp (owns.once source)
  have inSource : entry ∈ lists source := taken.mem_iff.mpr List.mem_cons_self
  -- what is in a list afterwards is the entry in its new place, or was there before
  have origin : ∀ index, ∀ other ∈ Function.update (Function.update lists source left) target
      right index, (index = target ∧ other = entry) ∨
        (other ∈ lists index ∧ other.1 ≠ entry.1) := by
    intro index other member
    by_cases atTarget : index = target
    · rw [atTarget, Function.update_self] at member
      rcases List.mem_cons.mp (put.mem_iff.mp member) with here | old
      · exact .inl ⟨atTarget, here⟩
      · exact .inr ⟨atTarget ▸ old, (owns.other apart inSource old).symm⟩
    · rw [Function.update_of_ne atTarget] at member
      right
      by_cases atSource : index = source
      · rw [atSource, Function.update_self] at member
        refine ⟨atSource ▸ taken.mem_iff.mpr (List.mem_cons_of_mem entry member), ?_⟩
        intro equal
        exact (List.nodup_cons.mp keys).1 (equal ▸ List.mem_map_of_mem member)
      · rw [Function.update_of_ne atSource] at member
        exact ⟨member, owns.other atSource member inSource⟩
  constructor
  · intro index other member
    rw [same.read]
    rcases origin index other member with moved | old
    · rw [moved.2]
      exact owns.content source entry inSource
    · exact owns.content index other old.1
  · intro index
    by_cases atTarget : index = target
    · rw [atTarget, Function.update_self]
      refine (put.map Prod.fst).nodup_iff.mpr (List.nodup_cons.mpr ⟨fun member => ?_, ?_⟩)
      · obtain ⟨other, old, equal⟩ := List.mem_map.mp member
        exact owns.other apart inSource old equal.symm
      · exact owns.once target
    · rw [Function.update_of_ne atTarget]
      by_cases atSource : index = source
      · rw [atSource, Function.update_self]
        exact (List.nodup_cons.mp keys).2
      · rw [Function.update_of_ne atSource]
        exact owns.once index
  · intro index elsewhere other member again twice equal
    rcases origin index other member with moved | old
    · rcases origin elsewhere again twice with movedToo | oldToo
      · exact moved.1.trans movedToo.1.symm
      · rw [moved.2] at equal
        exact absurd equal.symm oldToo.2
    · rcases origin elsewhere again twice with movedToo | oldToo
      · rw [movedToo.2] at equal
        exact absurd equal old.2
      · exact owns.unique index elsewhere other old.1 again oldToo.1 equal
  · intro address mapped
    obtain ⟨index, member⟩ := owns.owned address ((same.mapped _).mp mapped)
    obtain ⟨other, inList, equal⟩ := List.mem_map.mp member
    by_cases isEntry : other = entry
    · refine ⟨target, List.mem_map.mpr ⟨entry, ?_, isEntry ▸ equal⟩⟩
      rw [Function.update_self]
      exact put.mem_iff.mpr List.mem_cons_self
    · by_cases atTarget : index = target
      · refine ⟨target, List.mem_map.mpr ⟨other, ?_, equal⟩⟩
        rw [Function.update_self]
        exact put.mem_iff.mpr (List.mem_cons_of_mem entry (atTarget ▸ inList))
      · refine ⟨index, List.mem_map.mpr ⟨other, ?_, equal⟩⟩
        rw [Function.update_of_ne atTarget]
        by_cases atSource : index = source
        · rw [atSource, Function.update_self]
          rw [atSource] at inList
          rcases List.mem_cons.mp (taken.mem_iff.mp inList) with here | kept
          · exact absurd here isEntry
          · exact kept
        · rw [Function.update_of_ne atSource]
          exact inList
  · intro address mapped
    rw [same.brk]
    exact owns.fresh address ((same.mapped _).mp mapped)

theorem together_put (queues : Index → Entries Content) (loose rest entries : Entries Content)
    (index : Index) : together (Function.update queues index entries) rest =
      Function.update (Function.update (together queues loose) none rest) (some index) entries := by
  funext other
  cases other with
  | none =>
      rw [Function.update_of_ne (Option.some_ne_none index).symm, Function.update_self]
      rfl
  | some other =>
      by_cases same : other = index
      · rw [same, Function.update_self, together, Function.update_self]
      · have apart : some other ≠ some index := fun equal => same (Option.some.inj equal)
        rw [Function.update_of_ne apart, Function.update_of_ne (Option.some_ne_none other), together,
          Function.update_of_ne same]
        rfl

end Move

section Link

variable {store after : Store Index Content} {queues : Index → Entries Content} {index : Index}
  {loose xs ys : Entries Content} {entry : Nat × Content}

/-- A loose cell is put into a gap of a queue. -/
theorem Holds.link (holds : store.Holds queues (entry :: loose)) (place : queues index = xs ++ ys)
    (linked : store.Linked after (leftOf (.head index) (cells xs)) (.cell entry.1)
      (rightOf (.head index) (cells ys))) :
    after.Holds (Function.update queues index (xs ++ entry :: ys)) loose := by
  have isLoose : entry ∈ entry :: loose := List.mem_cons_self
  constructor
  · intro other
    by_cases same : other = index
    · rw [same, Function.update_self, cells_append, cells_cons]
      have ring := holds.ring index
      have once := holds.nodup index
      have outside : .cell entry.1 ∉ members queues index :=
        fun member => holds.not_loose member isLoose rfl
      rw [members] at outside once
      rw [place, cells_append] at ring once outside
      exact linked.ring ring once outside rfl rfl
    · rw [Function.update_of_ne same]
      apply (holds.ring other).transport
      · intro spot member
        rw [linked.next, Function.update_of_ne (holds.apart same member (leftOf_members place)),
          Function.update_of_ne (holds.not_loose member isLoose)]
      · intro spot member
        rw [linked.prev, Function.update_of_ne (holds.apart same member (rightOf_members place)),
          Function.update_of_ne (holds.not_loose member isLoose)]
  · rw [together_put queues (entry :: loose)]
    apply holds.owns.move linked.same (Option.some_ne_none index).symm
    · exact List.Perm.refl _
    · rw [together, place]
      exact List.perm_middle

/-- A cell of a queue becomes loose. -/
theorem Holds.unlink (holds : store.Holds queues loose) (place : queues index = xs ++ entry :: ys)
    (unlinked : store.Unlinked after (leftOf (.head index) (cells xs)) (.cell entry.1)
      (rightOf (.head index) (cells ys))) :
    after.Holds (Function.update queues index (xs ++ ys)) (entry :: loose) := by
  constructor
  · intro other
    by_cases same : other = index
    · rw [same, Function.update_self, cells_append]
      have ring := holds.ring index
      have once := holds.nodup index
      rw [members] at once
      rw [place, cells_append, cells_cons] at ring once
      exact Unlinked.ring ring once unlinked
    · rw [Function.update_of_ne same]
      have here : .cell entry.1 ∈ members queues index := by
        rw [members, place, cells_append, cells_cons]
        exact List.mem_cons_of_mem _ (List.mem_append_right _ List.mem_cons_self)
      have later : queues index = (xs ++ [entry]) ++ ys := by
        rw [place, List.append_assoc]
        rfl
      apply (holds.ring other).transport
      · intro spot member
        rw [unlinked.next, Function.update_of_ne (holds.apart same member here),
          Function.update_of_ne (holds.apart same member (leftOf_members place))]
      · intro spot member
        rw [unlinked.prev, Function.update_of_ne (holds.apart same member here),
          Function.update_of_ne (holds.apart same member (rightOf_members later))]
  · rw [together_put queues loose, Function.update_comm (Option.some_ne_none index).symm]
    apply holds.owns.move unlinked.same (Option.some_ne_none index)
    · rw [together, place]
      exact List.perm_middle
    · exact List.Perm.refl _

/-- The cell of `entry` is put behind the last of `xs`. -/
theorem Holds.add (holds : store.Holds queues (entry :: loose)) (place : queues index = xs ++ ys) :
    ∃ after, store.add (.cell entry.1) (leftOf (.head index) (cells xs)) = some after ∧
      after.Holds (Function.update queues index (xs ++ entry :: ys)) loose := by
  obtain ⟨next, prev⟩ := holds.gap place
  obtain ⟨after, added, linked⟩ := add_spec (holds.mapped_loose List.mem_cons_self) next prev
    (holds.not_loose (leftOf_members place) List.mem_cons_self)
  exact ⟨after, added, holds.link place linked⟩

theorem Holds.addTail (holds : store.Holds queues (entry :: loose)) (index : Index) :
    ∃ after, store.addTail (.cell entry.1) (.head index) = some after ∧
      after.Holds (Function.update queues index (queues index ++ [entry])) loose := by
  have place : queues index = queues index ++ [] := (List.append_nil _).symm
  obtain ⟨next, prev⟩ := holds.gap place
  obtain ⟨after, added, linked⟩ := addTail_spec (holds.mapped_loose List.mem_cons_self) prev next
    (holds.not_loose (rightOf_members place) List.mem_cons_self)
  exact ⟨after, added, holds.link place linked⟩

theorem Holds.del (holds : store.Holds queues loose) (place : queues index = xs ++ entry :: ys) :
    ∃ after, store.del (.cell entry.1) = some after ∧
      after.Holds (Function.update queues index (xs ++ ys)) (entry :: loose) := by
  obtain ⟨left, right⟩ := holds.between place
  have once : (Place.head index :: (cells xs ++ .cell entry.1 :: cells ys)).Nodup := by
    have once := holds.nodup index
    rw [members, place, cells_append, cells_cons] at once
    exact once
  have outside : rightOf (.head index) (cells ys) ≠ .cell entry.1 := by
    intro equal
    obtain ⟨notHead, inside⟩ := List.nodup_cons.mp once
    rcases List.mem_append.mp (equal ▸ rightOf_mem (.head index) (cells ys)) with inYs | atHead
    · exact (List.nodup_cons.mp (List.nodup_append.mp inside).2.1).1 inYs
    · cases List.mem_singleton.mp atHead
  obtain ⟨after, deleted, unlinked⟩ := del_spec right.1 left.2 (mapped_of_next left.1)
    (mapped_of_prev right.2) outside
  exact ⟨after, deleted, holds.unlink place unlinked⟩

theorem Holds.init (holds : store.Holds queues (entry :: loose)) :
    ∃ after, store.init (.cell entry.1) = some after ∧ after.Holds queues (entry :: loose) := by
  have isLoose : entry ∈ entry :: loose := List.mem_cons_self
  obtain ⟨after, done, same, next, prev⟩ := init_spec (holds.mapped_loose isLoose)
  refine ⟨after, done, fun index => ?_, holds.owns.same same⟩
  apply (holds.ring index).transport
  · intro spot member
    rw [next, Function.update_of_ne (holds.not_loose member isLoose)]
  · intro spot member
    rw [prev, Function.update_of_ne (holds.not_loose member isLoose)]

end Link

section Cells

variable {store : Store Index Content} {queues : Index → Entries Content} {index : Index}
  {loose xs ys : Entries Content} {entry : Nat × Content}

theorem Holds.alloc (holds : store.Holds queues loose) (content : Content) :
    (store.alloc content).1.Holds queues ((store.brk, content) :: loose) := by
  have elsewhere : ∀ place, place ≠ .cell store.brk →
      (store.alloc content).1.nodes place = store.nodes place :=
    fun place other => Function.update_of_ne other _ _
  have here : (store.alloc content).1.nodes (.cell store.brk) = some { content := some content } :=
    Function.update_self _ _ _
  have old : ∀ index, ∀ entry ∈ together queues loose index, entry.1 ≠ store.brk := by
    intro index entry member equal
    have bound := holds.owns.fresh entry.1 (holds.owns.mapped index member)
    omega
  have origin : ∀ index, ∀ entry ∈ together queues ((store.brk, content) :: loose) index,
      (index = none ∧ entry = (store.brk, content)) ∨ entry ∈ together queues loose index := by
    intro index entry member
    cases index with
    | none =>
        rcases List.mem_cons.mp member with new | rest
        · exact .inl ⟨rfl, new⟩
        · exact .inr rest
    | some index => exact .inr member
  constructor
  · intro index
    have outside : ∀ spot ∈ members queues index, spot ≠ .cell store.brk := by
      intro spot member equal
      rw [equal] at member
      rcases List.mem_cons.mp member with isHead | inside
      · cases isHead
      · obtain ⟨entry, inQueue, same⟩ := List.mem_map.mp inside
        exact old (some index) entry inQueue (Place.cell.inj same)
    apply (holds.ring index).transport
    · intro spot member
      rw [next, next, elsewhere spot (outside spot member)]
    · intro spot member
      rw [prev, prev, elsewhere spot (outside spot member)]
  · constructor
    · intro index entry member
      rcases origin index entry member with new | inside
      · rw [new.2, Store.read, here, Option.bind_some]
      · have other : (.cell entry.1 : Place Index) ≠ .cell store.brk :=
          fun equal => old index entry inside (Place.cell.inj equal)
        rw [Store.read, elsewhere _ other]
        exact holds.owns.content index entry inside
    · intro index
      cases index with
      | none =>
          refine List.nodup_cons.mpr ⟨fun member => ?_, holds.owns.once none⟩
          obtain ⟨entry, inLoose, equal⟩ := List.mem_map.mp member
          exact old none entry inLoose equal
      | some index => exact holds.owns.once (some index)
    · intro index other entry member foreign elsewhere equal
      rcases origin index entry member with new | inside
      · rcases origin other foreign elsewhere with newToo | insideToo
        · exact new.1.trans newToo.1.symm
        · rw [new.2] at equal
          exact absurd equal.symm (old other foreign insideToo)
      · rcases origin other foreign elsewhere with newToo | insideToo
        · rw [newToo.2] at equal
          exact absurd equal (old index entry inside)
        · exact holds.owns.unique index other entry inside foreign insideToo equal
    · intro address mapped
      by_cases same : address = store.brk
      · exact ⟨none, same ▸ List.mem_cons_self⟩
      · have other : (.cell address : Place Index) ≠ .cell store.brk :=
          fun equal => same (Place.cell.inj equal)
        rw [Mapped, elsewhere _ other] at mapped
        obtain ⟨index, member⟩ := holds.owns.owned address mapped
        refine ⟨index, ?_⟩
        cases index with
        | none => exact List.mem_cons_of_mem _ member
        | some index => exact member
    · intro address mapped
      change address < store.brk + 1
      by_cases same : address = store.brk
      · omega
      · have other : (.cell address : Place Index) ≠ .cell store.brk :=
          fun equal => same (Place.cell.inj equal)
        rw [Mapped, elsewhere _ other] at mapped
        have bound := holds.owns.fresh address mapped
        omega

theorem Holds.free (holds : store.Holds queues (entry :: loose)) :
    ∃ after, store.free (.cell entry.1) = some after ∧ after.Holds queues loose := by
  have isLoose : entry ∈ entry :: loose := List.mem_cons_self
  obtain ⟨after, done, nodes, brk⟩ := free_spec (holds.mapped_loose isLoose)
  refine ⟨after, done, fun index => ?_, ?_⟩
  · apply (holds.ring index).transport
    · intro spot member
      rw [next, next, nodes, Function.update_of_ne (holds.not_loose member isLoose)]
    · intro spot member
      rw [prev, prev, nodes, Function.update_of_ne (holds.not_loose member isLoose)]
  · have before : ∀ index, ∀ other ∈ together queues loose index,
        other ∈ together queues (entry :: loose) index ∧ other.1 ≠ entry.1 := by
      intro index other member
      cases index with
      | none =>
          refine ⟨List.mem_cons_of_mem entry member, fun equal => ?_⟩
          have once : ((entry :: loose).map Prod.fst).Nodup := holds.owns.once none
          exact (List.nodup_cons.mp once).1 (equal ▸ List.mem_map_of_mem member)
      | some index =>
          exact ⟨member, holds.owns.other (Option.some_ne_none index) member isLoose⟩
    constructor
    · intro index other member
      obtain ⟨old, apart⟩ := before index other member
      have elsewhere : (.cell other.1 : Place Index) ≠ .cell entry.1 :=
        fun equal => apart (Place.cell.inj equal)
      rw [Store.read, nodes, Function.update_of_ne elsewhere]
      exact holds.owns.content index other old
    · intro index
      cases index with
      | none => exact (List.nodup_cons.mp (holds.owns.once none)).2
      | some index => exact holds.owns.once (some index)
    · intro index other left inLeft right inRight equal
      exact holds.owns.unique index other left (before index left inLeft).1 right
        (before other right inRight).1 equal
    · intro address mapped
      have apart : address ≠ entry.1 := by
        intro equal
        rw [equal, Mapped, nodes, Function.update_self] at mapped
        contradiction
      have elsewhere : (.cell address : Place Index) ≠ .cell entry.1 :=
        fun equal => apart (Place.cell.inj equal)
      rw [Mapped, nodes, Function.update_of_ne elsewhere] at mapped
      obtain ⟨index, member⟩ := holds.owns.owned address mapped
      refine ⟨index, ?_⟩
      cases index with
      | none =>
          rcases List.mem_cons.mp member with isEntry | rest
          · exact absurd isEntry apart
          · exact rest
      | some index => exact member
    · intro address mapped
      rw [brk]
      apply holds.owns.fresh address
      by_cases same : (.cell address : Place Index) = .cell entry.1
      · rw [same]
        exact holds.mapped_loose isLoose
      · rw [Mapped, nodes, Function.update_of_ne same] at mapped
        exact mapped

theorem Holds.write (holds : store.Holds queues loose) (place : queues index = xs ++ entry :: ys)
    (content : Content) :
    ∃ after, store.write (.cell entry.1) content = some after ∧
      after.Holds (Function.update queues index (xs ++ (entry.1, content) :: ys)) loose := by
  have inQueue : entry ∈ together queues loose (some index) := by
    rw [together, place]
    exact List.mem_append_right xs List.mem_cons_self
  obtain ⟨after, done, mapped, brk, sameNext, samePrev, reads⟩ :=
    write_spec (holds.owns.mapped (some index) inQueue) content
  have apart : ∀ other ∈ xs ++ ys, other.1 ≠ entry.1 := by
    have perm : (xs ++ entry :: ys).Perm (entry :: (xs ++ ys)) := List.perm_middle
    have once : ((queues index).map Prod.fst).Nodup := holds.owns.once (some index)
    rw [place] at once
    have split := (perm.map Prod.fst).nodup_iff.mp once
    intro other member equal
    exact (List.nodup_cons.mp split).1 (equal ▸ List.mem_map_of_mem member)
  have keys : ∀ other, (together (Function.update queues index (xs ++ (entry.1, content) :: ys))
      loose other).map Prod.fst = (together queues loose other).map Prod.fst := by
    intro other
    cases other with
    | none => rfl
    | some other =>
        by_cases same : other = index
        · rw [same, together, together, Function.update_self, place]
          simp
        · rw [together, together, Function.update_of_ne same]
  have inOld : ∀ other, ∀ found ∈ together (Function.update queues index
      (xs ++ (entry.1, content) :: ys)) loose other,
      ∃ old ∈ together queues loose other, old.1 = found.1 := by
    intro other found member
    have key := List.mem_map_of_mem (f := Prod.fst) member
    rw [keys] at key
    exact List.mem_map.mp key
  refine ⟨after, done, fun other => ?_, ?_, ?_, ?_, ?_, ?_⟩
  · have same : (cells (Function.update queues index (xs ++ (entry.1, content) :: ys) other) :
        List (Place Index)) = cells (queues other) := by
      rw [cells_keys, cells_keys]
      exact congrArg _ (keys (some other))
    rw [same]
    apply (holds.ring other).transport
    · exact fun spot _ => congrFun sameNext spot
    · exact fun spot _ => congrFun samePrev spot
  · intro other found member
    rw [reads]
    cases other with
    | none =>
        have elsewhere : (.cell found.1 : Place Index) ≠ .cell entry.1 := fun equal =>
          holds.owns.other (Option.some_ne_none index) inQueue member (Place.cell.inj equal).symm
        rw [Function.update_of_ne elsewhere]
        exact holds.owns.content none found member
    | some other =>
        by_cases same : other = index
        · rw [same, together, Function.update_self] at member
          have old : found = (entry.1, content) ∨ found ∈ xs ++ ys := by
            have perm : (xs ++ (entry.1, content) :: ys).Perm ((entry.1, content) :: (xs ++ ys)) :=
              List.perm_middle
            exact List.mem_cons.mp (perm.mem_iff.mp member)
          rcases old with new | kept
          · rw [new, Function.update_self]
          · have elsewhere : (.cell found.1 : Place Index) ≠ .cell entry.1 :=
              fun equal => apart found kept (Place.cell.inj equal)
            rw [Function.update_of_ne elsewhere]
            apply holds.owns.content (some index) found
            have perm : (xs ++ entry :: ys).Perm (entry :: (xs ++ ys)) := List.perm_middle
            rw [together, place]
            exact perm.mem_iff.mpr (List.mem_cons_of_mem entry kept)
        · rw [together, Function.update_of_ne same] at member
          have different : some other ≠ some index := fun equal => same (Option.some.inj equal)
          have elsewhere : (.cell found.1 : Place Index) ≠ .cell entry.1 := fun equal =>
            holds.owns.other different member inQueue (Place.cell.inj equal)
          rw [Function.update_of_ne elsewhere]
          exact holds.owns.content (some other) found member
  · intro other
    rw [keys]
    exact holds.owns.once other
  · intro left right inLeft memberLeft inRight memberRight equal
    obtain ⟨oldLeft, wasLeft, sameLeft⟩ := inOld left inLeft memberLeft
    obtain ⟨oldRight, wasRight, sameRight⟩ := inOld right inRight memberRight
    exact holds.owns.unique left right oldLeft wasLeft oldRight wasRight
      (sameLeft.trans (equal.trans sameRight.symm))
  · intro address isMapped
    obtain ⟨other, member⟩ := holds.owns.owned address ((mapped _).mp isMapped)
    refine ⟨other, ?_⟩
    rw [keys]
    exact member
  · intro address isMapped
    rw [brk]
    exact holds.owns.fresh address ((mapped _).mp isMapped)

end Cells

end Store

end Queues

end FiberKcp.Data
