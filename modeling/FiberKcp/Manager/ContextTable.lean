import FiberKcp.Manager.Steps

namespace FiberKcp.Manager

open Data

/-! The growth of `mContextVec` over a sequence of registrations. -/

/-- The two writes of a registration to the table: its growth step, and the
assignment of the slot's fields, `ctx` being the slot with all of them written. -/
inductive TableEvent where
  | grow (fd : Nat)
  | assign (fd : Nat) (ctx : Context)

/-- `assigned` is history: the slots that a registration has assigned. -/
structure ContextTable where
  manager : KcpManager
  assigned : List Nat := []

namespace ContextTable

def step (table : ContextTable) : TableEvent → Option ContextTable
  | .grow fd => some { table with manager := table.manager.growContexts fd }
  | .assign fd ctx =>
      if fd < table.manager.mContextVec.length then
        some { manager := table.manager.setContext fd ctx, assigned := fd :: table.assigned }
      else none

/-- A registration of a descriptor, with what it leaves in the slot. -/
def registration (entry : Nat × Context) : List TableEvent :=
  [.grow entry.1, .assign entry.1 entry.2]

/-- Every slot that no registration has assigned carries its own index. -/
def Numbered (table : ContextTable) : Prop :=
  ∀ j ctx, table.manager.context? j = some ctx → j ∉ table.assigned → ctx.fd.toInt = j

def NonNull (table : ContextTable) : Prop :=
  ∀ slot ∈ table.manager.mContextVec, slot.isSome = true

/-- What the growth step should establish for the descriptor. -/
structure Grown (before : ContextTable) (fd : Nat) (after : ContextTable) : Prop where
  valid : fd < after.manager.mContextVec.length
  nonNull : after.NonNull
  numbered : after.Numbered
  kept : ∀ j ctx, before.manager.context? j = some ctx → after.manager.context? j = some ctx

def Good (before : ContextTable) (event : TableEvent) (after : ContextTable) : Prop :=
  ∀ fd, event = .grow fd → Grown before fd after

/-- The table has the slot, or it is still empty and grows past the descriptor,
to no more slots than an `int` can number. -/
def growsOnce (table : ContextTable) : TableEvent → Prop
  | .grow fd => fd < table.manager.mContextVec.length ∨
      table.manager.mContextVec = [] ∧ 2 ≤ fd ∧ fd + fd / 2 ≤ 2 ^ 31
  | .assign _ _ => True

instance (table : ContextTable) (event : TableEvent) : Decidable (table.growsOnce event) := by
  cases event <;> simp only [growsOnce] <;> infer_instance

end ContextTable

/-- The context that the loop puts into the null slot that it counts as `i`. -/
def freshContext (i : Nat) : Option Context := some { fd := Int32.ofNat i }

theorem fillContexts_append {contexts rest : List (Option Context)} {i : Nat}
    (filled : ∀ slot ∈ contexts, slot.isSome = true) :
    fillContexts i (contexts ++ rest) = contexts ++ fillContexts i rest := by
  induction contexts with
  | nil => rfl
  | cons head tail ih =>
      obtain ⟨headFilled, tailFilled⟩ := List.forall_mem_cons.mp filled
      obtain ⟨ctx, rfl⟩ := Option.isSome_iff_exists.mp headFilled
      simp only [List.cons_append, fillContexts, ih tailFilled]

theorem fillContexts_replicate (count i : Nat) :
    fillContexts i (List.replicate count none) = (List.range' i count).map freshContext := by
  induction count generalizing i with
  | zero => rfl
  | succ count ih =>
      simp only [List.replicate_succ, fillContexts, ih, List.range'_succ, List.map_cons]
      rfl

/-- A table without null slots that grows gets slots numbered from 0 on. -/
theorem contextResize_eq {contexts : List (Option Context)} {size : Nat}
    (filled : ∀ slot ∈ contexts, slot.isSome = true) (grows : contexts.length ≤ size) :
    contextResize size contexts =
      contexts ++ (List.range (size - contexts.length)).map freshContext := by
  simp only [contextResize]
  split
  · rename_i same
    simp [same]
  · rw [List.take_of_length_le grows, fillContexts_append filled, fillContexts_replicate,
      List.range_eq_range']

namespace ContextTable

variable {table before after : ContextTable} {fd : Nat}

/-- What is kept up to the first growth step that goes wrong. -/
structure Sound (table : ContextTable) : Prop where
  nonNull : table.NonNull
  numbered : table.Numbered
  inside : ∀ j ∈ table.assigned, j < table.manager.mContextVec.length

theorem sound_start {mAttr : Nat → KcpAttr} {mBindTid : Nat → UInt32} {mThreadIds : List UInt32}
    {mThreadCount : UInt32} :
    Sound { manager := .start mAttr mBindTid mThreadIds mThreadCount } := by
  refine ⟨fun _ member => ?_, fun _ _ found => ?_, fun _ member => ?_⟩
  · exact (List.not_mem_nil member).elim
  · cases found
  · exact (List.not_mem_nil member).elim

theorem NonNull.context? (nonNull : table.NonNull) {j : Nat}
    (inside : j < table.manager.mContextVec.length) :
    ∃ ctx, table.manager.context? j = some ctx := by
  obtain ⟨ctx, found⟩ := Option.isSome_iff_exists.mp (nonNull _ (List.getElem_mem inside))
  refine ⟨ctx, ?_⟩
  rw [KcpManager.context?, List.getElem?_eq_getElem inside, found]
  rfl

theorem growContexts_inside (inside : fd < table.manager.mContextVec.length) :
    table.manager.growContexts fd = table.manager := by
  simp only [KcpManager.growContexts, if_neg (Nat.not_le.mpr inside)]

theorem growContexts_beyond (nonNull : table.NonNull)
    (beyond : table.manager.mContextVec.length ≤ fd) :
    (table.manager.growContexts fd).mContextVec = table.manager.mContextVec ++
      (List.range (fd + fd / 2 - table.manager.mContextVec.length)).map freshContext := by
  simp only [KcpManager.growContexts, if_pos beyond]
  exact contextResize_eq nonNull (by omega)

/-- A slot that the growth adds carries its distance from the first of them. -/
theorem context?_beyond (nonNull : table.NonNull)
    (beyond : table.manager.mContextVec.length ≤ fd) (added : Nat)
    (room : table.manager.mContextVec.length + added < fd + fd / 2) :
    (table.manager.growContexts fd).context? (table.manager.mContextVec.length + added) =
      some { fd := Int32.ofNat added } := by
  rw [KcpManager.context?, growContexts_beyond nonNull beyond,
    List.getElem?_append_right (Nat.le_add_right _ _), Nat.add_sub_cancel_left, List.getElem?_map,
    List.getElem?_range (by omega)]
  rfl

theorem context?_kept (nonNull : table.NonNull) {j : Nat} {ctx : Context}
    (found : table.manager.context? j = some ctx) :
    (table.manager.growContexts fd).context? j = some ctx := by
  rcases Nat.lt_or_ge fd table.manager.mContextVec.length with inside | beyond
  · rw [growContexts_inside inside]
    exact found
  · rw [KcpManager.context?, growContexts_beyond nonNull beyond,
      List.getElem?_append_left (KcpManager.context?_lt found)]
    exact found

theorem nonNull_growContexts (nonNull : table.NonNull) :
    ∀ slot ∈ (table.manager.growContexts fd).mContextVec, slot.isSome = true := by
  rcases Nat.lt_or_ge fd table.manager.mContextVec.length with inside | beyond
  · rw [growContexts_inside inside]
    exact nonNull
  · rw [growContexts_beyond nonNull beyond]
    intro slot member
    rcases List.mem_append.mp member with old | new
    · exact nonNull slot old
    · obtain ⟨i, _, rfl⟩ := List.mem_map.mp new
      rfl

theorem grown_of_growsOnce (sound : table.Sound) (permitted : table.growsOnce (.grow fd)) :
    Grown table fd { table with manager := table.manager.growContexts fd } := by
  rcases permitted with inside | ⟨empty, atLeast, atMost⟩
  · rw [growContexts_inside inside]
    exact ⟨inside, sound.nonNull, sound.numbered, fun _ _ => id⟩
  · have beyond : table.manager.mContextVec.length ≤ fd := by rw [empty]; exact Nat.zero_le _
    have grown := growContexts_beyond sound.nonNull beyond
    rw [empty, List.nil_append, List.length_nil, Nat.sub_zero] at grown
    refine ⟨?_, nonNull_growContexts sound.nonNull, ?_, fun _ _ => context?_kept sound.nonNull⟩
    · simp only [grown, List.length_map, List.length_range]
      omega
    · intro j ctx found _
      simp only [KcpManager.context?, grown] at found
      have short : j < fd + fd / 2 := by
        by_contra outside
        rw [List.getElem?_eq_none (by simpa using Nat.not_lt.mp outside)] at found
        contradiction
      rw [List.getElem?_map, List.getElem?_range short] at found
      cases found
      exact Int32.toInt_ofNat_of_lt (by omega)

theorem growsOnce_of_grown (sound : table.Sound)
    (grown : Grown table fd { table with manager := table.manager.growContexts fd }) :
    table.growsOnce (.grow fd) := by
  rcases Nat.lt_or_ge fd table.manager.mContextVec.length with inside | beyond
  · exact .inl inside
  · have valid := grown.valid
    simp only [growContexts_beyond sound.nonNull beyond, List.length_append, List.length_map,
      List.length_range] at valid
    have unassigned : ∀ added, table.manager.mContextVec.length + added ∉ table.assigned := by
      intro added member
      have := sound.inside _ member
      omega
    -- the first slot that is added carries 0
    have first := grown.numbered _ _ (context?_beyond sound.nonNull beyond 0 (by omega))
      (unassigned 0)
    have empty : table.manager.mContextVec.length = 0 := by
      have zero : (Int32.ofNat 0).toInt = 0 := rfl
      rw [zero] at first
      omega
    refine .inr ⟨List.eq_nil_of_length_eq_zero empty, by omega, ?_⟩
    by_contra long
    have last := grown.numbered _ _
      (context?_beyond sound.nonNull beyond (2 ^ 31) (by omega)) (unassigned _)
    have wrapped : (Int32.ofNat (2 ^ 31)).toInt = -2 ^ 31 := by decide
    rw [wrapped] at last
    omega

theorem growsOnce_iff_good (sound : before.Sound) {event : TableEvent}
    (stepped : before.step event = some after) :
    before.growsOnce event ↔ Good before event after := by
  cases event with
  | grow fd =>
      cases stepped
      constructor
      · rintro permitted _ ⟨rfl⟩
        exact grown_of_growsOnce sound permitted
      · intro good
        exact growsOnce_of_grown sound (good fd rfl)
  | assign fd ctx => exact ⟨fun _ _ => nofun, fun _ => trivial⟩

theorem Sound.step (sound : before.Sound) {event : TableEvent}
    (permitted : before.growsOnce event) (stepped : before.step event = some after) :
    after.Sound := by
  cases event with
  | grow fd =>
      cases stepped
      have grown := grown_of_growsOnce sound permitted
      refine ⟨grown.nonNull, grown.numbered, fun j member => ?_⟩
      obtain ⟨ctx, found⟩ := sound.nonNull.context? (sound.inside j member)
      exact KcpManager.context?_lt (grown.kept j ctx found)
  | assign fd ctx =>
      simp only [ContextTable.step, Option.ite_none_right_eq_some, Option.some.injEq] at stepped
      obtain ⟨inside, rfl⟩ := stepped
      refine ⟨?_, ?_, ?_⟩
      · intro slot member
        rcases List.mem_or_eq_of_mem_set member with old | rfl
        · exact sound.nonNull slot old
        · rfl
      · intro j other found unassigned
        rw [List.mem_cons, not_or] at unassigned
        obtain ⟨different, free⟩ := unassigned
        rw [KcpManager.context?_setContext_other different] at found
        exact sound.numbered j other found free
      · intro j member
        simp only [KcpManager.setContext, List.length_set]
        rcases List.mem_cons.mp member with rfl | old
        · exact inside
        · exact sound.inside j old

/-- All growth steps of a sequence of registrations are right exactly if all of
them meet the condition. -/
theorem table_growth_iff {mAttr : Nat → KcpAttr} {mBindTid : Nat → UInt32}
    {mThreadIds : List UInt32} {mThreadCount : UInt32} (registrations : List (Nat × Context)) :
    (∀ taken ∈ transitions step { manager := .start mAttr mBindTid mThreadIds mThreadCount }
        (registrations.flatMap registration), taken.1.growsOnce taken.2.1) ↔
      ∀ taken ∈ transitions step { manager := .start mAttr mBindTid mThreadIds mThreadCount }
        (registrations.flatMap registration), Good taken.1 taken.2.1 taken.2.2 :=
  transitions_allowed_iff growsOnce Good
    (fun sound permitted stepped => sound.step permitted stepped)
    (fun sound stepped => growsOnce_iff_good sound stepped) sound_start _

/-- After descriptor 2 made a table of three slots, descriptor 4 adds slots that
are numbered from 0 again. -/
theorem second_growth_misnumbered :
    ¬ ∀ taken ∈ transitions step { manager := .start (fun _ => {}) (fun _ => 0) [1] 1 }
      ([(2, {}), (4, {})].flatMap registration), Good taken.1 taken.2.1 taken.2.2 := by
  intro all
  have second := all _ (List.mem_cons_of_mem _ (List.mem_cons_of_mem _ List.mem_cons_self))
  have numbered := (second 4 rfl).numbered 3 { fd := 0 } rfl (by decide)
  contradiction

end ContextTable

end FiberKcp.Manager
