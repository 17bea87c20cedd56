import FiberKcp.Data.SearchTree
import FiberKcp.Manager.KcpManager

namespace FiberKcp.Manager

open Data

/-! The look-ups of `addKcp` and `delKcp` in the tree of `mWaitingQueue`, with
the assertion of its comparator.  The shape of the tree is arbitrary. -/

namespace WaitingQueue

abbrev Queue := List (Nat × KcpState)

variable {fd : Nat → Int32} {queue : Queue}

/-- `KcpCompare`; `none` is a failed assertion. -/
def kcpCompare (fd : Nat → Int32) : Option Nat → Option Nat → Option Bool
  | none, _ => some true
  | some _, none => some false
  | some v1, some v2 => if fd v1 = fd v2 then none else some (decide (fd v1 < fd v2))

inductive Call where
  | addKcp (mEventCount : UInt16) (kcp : Option Nat)
  | delKcp (kcp : Option Nat)

/-- `addKcp`: the queue after it and its result.  `insert` goes left where the
key is below a node, and compares the predecessor of the place with the key. -/
def addKcp (fd : Nat → Int32) (tree : BinaryTree (Nat × KcpState)) (mEventCount : UInt16)
    (kcp : Option Nat) : Option (Queue × Bool) :=
  if epollEventSize ≤ mEventCount.toUInt32 then some (inorder tree, false)
  else match kcp with
    | none => some (inorder tree, false)
    | some kcp =>
        (descend (fun node => kcpCompare fd (some kcp) (some node.1)) tree).bind
          fun (lower, upper) =>
            match lower.getLast? with
            | none => some ((kcp, .notinit) :: upper, true)
            | some node => (kcpCompare fd (some node.1) (some kcp)).map fun less =>
                if less then (lower ++ (kcp, .notinit) :: upper, true)
                else (inorder tree, false)

/-- `delKcp`.  `find` goes left where a node is not below the key, and compares
the key with the first such node. -/
def delKcp (fd : Nat → Int32) (tree : BinaryTree (Nat × KcpState)) (kcp : Option Nat) :
    Option (Queue × Bool) :=
  (descend (fun node => (kcpCompare fd (some node.1) kcp).map not) tree).bind
    fun (lower, upper) =>
      match upper with
      | [] => some (lower, true)
      | node :: rest => (kcpCompare fd kcp (some node.1)).map fun less =>
          if less then (lower ++ node :: rest, true)
          else (lower ++ (node.1, .remove) :: rest, true)

def invoke (fd : Nat → Int32) (tree : BinaryTree (Nat × KcpState)) :
    Call → Option (Queue × Bool)
  | .addKcp mEventCount kcp => addKcp fd tree mEventCount kcp
  | .delKcp kcp => delKcp fd tree kcp

/-- A call on some tree that holds the queue; a failed assertion ends the run. -/
def step (fd : Nat → Int32) (queue : Queue) (event : BinaryTree (Nat × KcpState) × Call) :
    Option Queue :=
  if inorder event.1 = queue then (invoke fd event.1 event.2).map Prod.fst else none

def below (fd : Nat → Int32) (left right : Nat × KcpState) : Prop := fd left.1 < fd right.1

instance : DecidableRel (below fd) := fun _ _ => inferInstanceAs (Decidable (_ < _))

/-- No queued Kcp has the descriptor of the Kcp. -/
def Absent (fd : Nat → Int32) (queue : Queue) (kcp : Nat) : Prop :=
  ∀ node ∈ queue, fd node.1 ≠ fd kcp

instance (kcp : Nat) : Decidable (Absent fd queue kcp) :=
  List.decidableBAll _ queue

def intended (fd : Nat → Int32) (queue : Queue) : Call → Queue × Bool
  | .addKcp _ none => (queue, false)
  | .addKcp mEventCount (some kcp) =>
      if mEventCount.toUInt32 < epollEventSize ∧ Absent fd queue kcp then
        (setInsert (below fd) (kcp, .notinit) queue, true)
      else (queue, false)
  | .delKcp kcp =>
      (queue.map fun node => if some node.1 = kcp then (node.1, .remove) else node, true)

/-- The pointers among which a call has comparisons made. -/
def compared (queue : Queue) : Call → List (Option Nat)
  | .addKcp mEventCount kcp =>
      if epollEventSize ≤ mEventCount.toUInt32 ∨ kcp = none then []
      else kcp :: queue.map fun node => some node.1
  | .delKcp kcp => if queue = [] then [] else kcp :: queue.map fun node => some node.1

structure WellDefined (fd : Nat → Int32) (tree : BinaryTree (Nat × KcpState)) (call : Call) :
    Prop where
  order : IsStrictWeakOrder {pointer // pointer ∈ compared (inorder tree) call}
    fun left right => kcpCompare fd left right = some true
  result : invoke fd tree call = some (intended fd (inorder tree) call)

/-- The calls whose key, if it is looked up, is no null pointer and has a
descriptor that no queued Kcp has. -/
def separates (fd : Nat → Int32) (queue : Queue) : Call → Prop
  | .addKcp mEventCount kcp =>
      epollEventSize ≤ mEventCount.toUInt32 ∨ ∀ key ∈ kcp, Absent fd queue key
  | .delKcp kcp => queue = [] ∨ ∃ key, kcp = some key ∧ Absent fd queue key

/-! ## Comparisons and places -/

variable {kcp other : Nat} {node : Nat × KcpState} {tree : BinaryTree (Nat × KcpState)}

theorem kcpCompare_of_lt (less : fd kcp < fd other) :
    kcpCompare fd (some kcp) (some other) = some true := by
  rw [kcpCompare, if_neg (Int32.ne_of_lt less), decide_eq_true less]

theorem kcpCompare_of_gt (more : fd other < fd kcp) :
    kcpCompare fd (some kcp) (some other) = some false := by
  rw [kcpCompare, if_neg (Int32.ne_of_lt more).symm, decide_eq_false (Int32.lt_asymm more)]

theorem kcpCompare_of_eq (same : fd kcp = fd other) :
    kcpCompare fd (some kcp) (some other) = none := if_pos same

theorem kcpCompare_iff :
    kcpCompare fd (some kcp) (some other) = some true ↔ fd kcp < fd other := by
  constructor
  · intro less
    by_cases same : fd kcp = fd other
    · simp [kcpCompare, same] at less
    · simpa [kcpCompare, same] using less
  · exact kcpCompare_of_lt

/-- Where a Kcp belongs in a queue: between two entries, or at the entry with
its descriptor. -/
inductive Place (fd : Nat → Int32) (queue : Queue) (kcp : Nat) : Prop where
  | between (lower upper : Queue) (split : queue = lower ++ upper)
      (under : ∀ node ∈ lower, fd node.1 < fd kcp)
      (above : ∀ node ∈ upper, fd kcp < fd node.1)
  | met (lower upper : Queue) (node : Nat × KcpState) (split : queue = lower ++ node :: upper)
      (same : fd node.1 = fd kcp) (under : ∀ node ∈ lower, fd node.1 < fd kcp)
      (above : ∀ node ∈ upper, fd kcp < fd node.1)

theorem place (ordered : queue.Pairwise (below fd)) (kcp : Nat) : Place fd queue kcp := by
  induction queue with
  | nil => exact .between [] [] rfl (by simp) (by simp)
  | cons head rest ih =>
      obtain ⟨headLeast, restOrdered⟩ := List.pairwise_cons.mp ordered
      by_cases same : fd head.1 = fd kcp
      · exact .met [] rest head rfl same (by simp)
          fun node member => same ▸ headLeast node member
      · rcases Int32.lt_or_lt_of_ne same with less | more
        · cases ih restOrdered with
          | between lower upper split under above =>
              exact .between (head :: lower) upper (by rw [split]; rfl)
                (List.forall_mem_cons.mpr ⟨less, under⟩) above
          | met lower upper node split same under above =>
              exact .met (head :: lower) upper node (by rw [split]; rfl) same
                (List.forall_mem_cons.mpr ⟨less, under⟩) above
        · apply Place.between [] (head :: rest) rfl (by simp)
          exact List.forall_mem_cons.mpr
            ⟨more, fun node member => Int32.lt_trans more (headLeast node member)⟩

theorem Absent.of_sides {lower upper : Queue} (under : ∀ node ∈ lower, fd node.1 < fd kcp)
    (above : ∀ node ∈ upper, fd kcp < fd node.1) : Absent fd (lower ++ upper) kcp := by
  intro node member
  rcases List.mem_append.mp member with isLower | isUpper
  · exact Int32.ne_of_lt (under node isLower)
  · exact (Int32.ne_of_lt (above node isUpper)).symm

theorem order_of_nonnull {pointers : List (Option Nat)} (nonnull : none ∉ pointers) :
    IsStrictWeakOrder {pointer // pointer ∈ pointers}
      fun left right => kcpCompare fd left right = some true := by
  have rank : ∀ left right : {pointer // pointer ∈ pointers},
      kcpCompare fd left right = some true ↔
        (fd (left.val.getD 0)).toInt < (fd (right.val.getD 0)).toInt := by
    rintro ⟨left, isLeft⟩ ⟨right, isRight⟩
    cases left with
    | none => exact absurd isLeft nonnull
    | some left =>
        cases right with
        | none => exact absurd isRight nonnull
        | some right => exact kcpCompare_iff.trans Int32.lt_iff_toInt_lt
  exact
    { irrefl := fun pointer => by
        rw [rank]
        omega
      trans := fun first second third => by
        rw [rank, rank, rank]
        omega
      incomp_trans := fun first second third => by
        rw [rank, rank, rank, rank, rank, rank]
        omega }

theorem not_order_of_null {pointers : List (Option Nat)} (null : none ∈ pointers) :
    ¬ IsStrictWeakOrder {pointer // pointer ∈ pointers}
      fun left right => kcpCompare fd left right = some true :=
  fun order => order.irrefl ⟨none, null⟩ rfl

theorem null_not_compared {call : Call} (separated : separates fd queue call) :
    none ∉ compared queue call := by
  cases call with
  | addKcp mEventCount kcp =>
      rw [compared]
      split
      · exact List.not_mem_nil
      · rename_i looked
        cases kcp with
        | none => exact absurd (.inr rfl) looked
        | some kcp => simp
  | delKcp kcp =>
      rw [compared]
      split
      · exact List.not_mem_nil
      · rename_i filled
        obtain ⟨key, rfl, _⟩ := separated.resolve_left filled
        simp

section Ordered

variable (ordered : (inorder tree).Pairwise (below fd)) {mEventCount : UInt16}

include ordered

theorem addKcp_absent (room : ¬ epollEventSize ≤ mEventCount.toUInt32)
    (absent : Absent fd (inorder tree) kcp) : addKcp fd tree mEventCount (some kcp) =
      some (setInsert (below fd) (kcp, .notinit) (inorder tree), true) := by
  cases place ordered kcp with
  | between lower upper split under above =>
      have found : descend (fun node => kcpCompare fd (some kcp) (some node.1)) tree =
          some (lower, upper) :=
        descend_eq split (fun node member => kcpCompare_of_gt (under node member))
          fun node member => kcpCompare_of_lt (above node member)
      have inserted : setInsert (below fd) (kcp, .notinit) (inorder tree) =
          lower ++ (kcp, .notinit) :: upper := by
        rw [split]
        exact setInsert_between
          (fun node member => ⟨under node member, Int32.lt_asymm (under node member)⟩) above
      rw [addKcp, if_neg room, inserted]
      cases last : lower.getLast? with
      | none =>
          rw [List.getLast?_eq_none_iff.mp last] at found ⊢
          simp [found]
      | some node =>
          have less := kcpCompare_of_lt (under node (List.mem_of_getLast? last))
          simp [found, last, less]
  | met lower upper node split same under above =>
      exact absurd same (absent node (by rw [split]; simp))

theorem addKcp_present (room : ¬ epollEventSize ≤ mEventCount.toUInt32)
    (present : ¬ Absent fd (inorder tree) kcp) : addKcp fd tree mEventCount (some kcp) = none := by
  cases place ordered kcp with
  | between lower upper split under above =>
      exact absurd (split ▸ Absent.of_sides under above) present
  | met lower upper node split same under above =>
      have failed : descend (fun node => kcpCompare fd (some kcp) (some node.1)) tree = none :=
        descend_eq_none split (fun node member => kcpCompare_of_gt (under node member))
          (kcpCompare_of_eq same.symm) fun node member => kcpCompare_of_lt (above node member)
      simp [addKcp, room, failed]

theorem delKcp_absent (absent : Absent fd (inorder tree) kcp) :
    delKcp fd tree (some kcp) = some (inorder tree, true) := by
  cases place ordered kcp with
  | between lower upper split under above =>
      have found : descend (fun node => (kcpCompare fd (some node.1) (some kcp)).map not) tree =
          some (lower, upper) :=
        descend_eq split
          (fun node member => by rw [kcpCompare_of_lt (under node member)]; rfl)
          fun node member => by rw [kcpCompare_of_gt (above node member)]; rfl
      rw [delKcp, found, split]
      cases upper with
      | nil => simp
      | cons node rest => simp [kcpCompare_of_lt (above node List.mem_cons_self)]
  | met lower upper node split same under above =>
      exact absurd same (absent node (by rw [split]; simp))

theorem delKcp_present (present : ¬ Absent fd (inorder tree) kcp) :
    delKcp fd tree (some kcp) = none := by
  cases place ordered kcp with
  | between lower upper split under above =>
      exact absurd (split ▸ Absent.of_sides under above) present
  | met lower upper node split same under above =>
      have failed : descend (fun node => (kcpCompare fd (some node.1) (some kcp)).map not) tree =
          none :=
        descend_eq_none split
          (fun node member => by rw [kcpCompare_of_lt (under node member)]; rfl)
          (by rw [kcpCompare_of_eq same]; rfl)
          fun node member => by rw [kcpCompare_of_gt (above node member)]; rfl
      rw [delKcp, failed]
      rfl

end Ordered

theorem delKcp_null : delKcp fd tree none = some (inorder tree, true) := by
  have found : descend (fun node => (kcpCompare fd (some node.1) none).map not) tree =
      some ([], inorder tree) :=
    descend_eq rfl (by simp) fun node member => rfl
  rw [delKcp, found]
  cases inorder tree with
  | nil => rfl
  | cons node rest => rfl

/-! ## Every queue reached -/

theorem intended_delKcp (absent : Absent fd queue kcp) :
    intended fd queue (.delKcp (some kcp)) = (queue, true) := by
  have kept : ∀ node ∈ queue,
      (if some node.1 = some kcp then (node.1, .remove) else node) = node := by
    intro node member
    exact if_neg fun same => absent node member (congrArg fd (Option.some.inj same))
  rw [intended, List.map_congr_left kept, List.map_id']

theorem invoke_of_separates (ordered : (inorder tree).Pairwise (below fd)) {call : Call}
    (separated : separates fd (inorder tree) call) :
    invoke fd tree call = some (intended fd (inorder tree) call) := by
  cases call with
  | addKcp mEventCount kcp =>
      cases kcp with
      | none =>
          rw [invoke, addKcp]
          split <;> rfl
      | some kcp =>
          by_cases full : epollEventSize ≤ mEventCount.toUInt32
          · rw [invoke, addKcp, if_pos full, intended,
              if_neg fun room => UInt32.not_lt.mpr full room.1]
          · have absent := separated.resolve_left full kcp rfl
            rw [invoke, addKcp_absent ordered full absent, intended,
              if_pos ⟨UInt32.not_le.mp full, absent⟩]
  | delKcp kcp =>
      rcases separated with empty | ⟨key, rfl, absent⟩
      · have found : descend (fun node => (kcpCompare fd (some node.1) kcp).map not) tree =
            some ([], []) :=
          descend_eq empty (by simp) (by simp)
        rw [invoke, delKcp, found, empty]
        rfl
      · rw [invoke, delKcp_absent ordered absent, intended_delKcp absent]

theorem invoke_cases (ordered : (inorder tree).Pairwise (below fd)) (call : Call) :
    separates fd (inorder tree) call ∨ call = .delKcp none ∨ invoke fd tree call = none := by
  cases call with
  | addKcp mEventCount kcp =>
      by_cases full : epollEventSize ≤ mEventCount.toUInt32
      · exact .inl (.inl full)
      · cases kcp with
        | none => exact .inl (.inr fun key given => nomatch given)
        | some kcp =>
            by_cases absent : Absent fd (inorder tree) kcp
            · refine .inl (.inr fun key given => ?_)
              cases given
              exact absent
            · exact .inr (.inr (addKcp_present ordered full absent))
  | delKcp kcp =>
      cases kcp with
      | none => exact .inr (.inl rfl)
      | some kcp =>
          by_cases absent : Absent fd (inorder tree) kcp
          · exact .inl (.inr ⟨kcp, rfl, absent⟩)
          · exact .inr (.inr (delKcp_present ordered absent))

instance : IsTrans (Nat × KcpState) (below fd) := ⟨fun _ _ _ => Int32.lt_trans⟩

theorem intended_ordered (ordered : queue.Pairwise (below fd)) (call : Call) :
    (intended fd queue call).1.Pairwise (below fd) := by
  cases call with
  | addKcp mEventCount kcp =>
      cases kcp with
      | none => exact ordered
      | some kcp =>
          rw [intended]
          split
          · exact setInsert_pairwise ordered
          · exact ordered
  | delKcp kcp =>
      refine List.pairwise_map.mpr (ordered.imp fun {left right} less => ?_)
      unfold below
      split <;> split <;> exact less

theorem step_ordered {event : BinaryTree (Nat × KcpState) × Call} {after : Queue}
    (ordered : queue.Pairwise (below fd)) (stepped : step fd queue event = some after) :
    after.Pairwise (below fd) := by
  obtain ⟨tree, call⟩ := event
  obtain ⟨arranged, invoked⟩ := Option.ite_none_right_eq_some.mp stepped
  obtain ⟨result, answered, rfl⟩ := Option.map_eq_some_iff.mp invoked
  dsimp only at arranged answered
  subst arranged
  rcases invoke_cases ordered call with separated | null | failed
  · cases (invoke_of_separates ordered separated).symm.trans answered
    exact intended_ordered ordered call
  · subst null
    cases delKcp_null.symm.trans answered
    exact ordered
  · exact nomatch failed.symm.trans answered

/-- The look-ups are well defined exactly for the calls that the queue
separates: an entry of `mWaitingQueue` cannot be found. -/
theorem wellDefined_iff {events : List (BinaryTree (Nat × KcpState) × Call)}
    (run : Run (step fd) anyStep [] events (inorder tree)) (call : Call) :
    WellDefined fd tree call ↔ separates fd (inorder tree) call := by
  have ordered : (inorder tree).Pairwise (below fd) :=
    run.invariant _ List.Pairwise.nil fun ordered _ stepped => step_ordered ordered stepped
  constructor
  · intro defined
    rcases invoke_cases ordered call with separated | null | failed
    · exact separated
    · subst null
      by_cases empty : inorder tree = []
      · exact .inl empty
      · refine absurd defined.order (not_order_of_null ?_)
        rw [compared, if_neg empty]
        exact List.mem_cons_self
    · exact nomatch failed.symm.trans defined.result
  · intro separated
    exact ⟨order_of_nonnull (null_not_compared separated),
      invoke_of_separates ordered separated⟩

/-- A second Kcp with another descriptor. -/
theorem wellDefined_at_second :
    WellDefined (fun kcp => if kcp = 0 then 4 else 7) (.node (0, .notinit) .nil .nil)
      (.addKcp 0 (some 1)) := by
  have run : Run (step fun kcp => if kcp = 0 then 4 else 7) anyStep []
      [(.nil, .addKcp 0 (some 0))] (inorder (.node (0, .notinit) .nil .nil)) :=
    Run.of_execute (by decide)
  have separated : separates (fun kcp => if kcp = 0 then 4 else 7) [(0, .notinit)]
      (.addKcp 0 (some 1)) := .inr (by simp [Absent])
  exact (wellDefined_iff run (.addKcp 0 (some 1))).mpr separated

/-- A Kcp that was added is deleted: `find` compares its pointer with itself. -/
theorem queued_kcp_not_deleted :
    ¬ ∀ (fd : Nat → Int32) (tree : BinaryTree (Nat × KcpState)) events,
      Run (step fd) anyStep [] events (inorder tree) → ∀ call, WellDefined fd tree call := by
  intro always
  have run : Run (step fun _ => 4) anyStep [] [(.nil, .addKcp 0 (some 0))]
      (inorder (.node (0, .notinit) .nil .nil)) :=
    Run.of_execute (by decide)
  have failed : delKcp (fun _ => 4) (.node (0, .notinit) .nil .nil) (some 0) = none := by decide
  exact nomatch failed.symm.trans (always _ _ _ run (.delKcp (some 0))).result

/-! ## The manager without the assertion -/

section Manager

variable {manager : KcpManager} {after : Queue} {result : Bool}

theorem addKcp_manager {mEventCount : UInt16} {kcp : Option Nat}
    (ordered : (inorder tree).Pairwise (below manager.fd))
    (arranged : inorder tree = manager.mWaitingQueue)
    (answered : addKcp manager.fd tree mEventCount kcp = some (after, result)) :
    manager.addKcp mEventCount kcp = ({ manager with mWaitingQueue := after }, result) := by
  by_cases full : epollEventSize ≤ mEventCount.toUInt32
  · have refused : addKcp manager.fd tree mEventCount kcp = some (inorder tree, false) :=
      if_pos full
    cases refused.symm.trans answered
    rw [arranged]
    exact if_pos full
  · cases kcp with
    | none =>
        rw [addKcp, if_neg full] at answered
        cases answered
        rw [KcpManager.addKcp, if_neg full, arranged]
    | some kcp =>
        by_cases absent : Absent manager.fd (inorder tree) kcp
        · cases (addKcp_absent ordered full absent).symm.trans answered
          have noEqual : manager.mWaitingQueue.all
              (fun entry => manager.fd entry.1 ≠ manager.fd kcp) = true :=
            List.all_eq_true.mpr fun entry member =>
              decide_eq_true (absent entry (arranged ▸ member))
          rw [KcpManager.addKcp, if_neg full, arranged]
          exact congrArg (Prod.mk _) noEqual
        · cases (addKcp_present ordered full absent).symm.trans answered

theorem delKcp_manager {kcp : Option Nat}
    (ordered : (inorder tree).Pairwise (below manager.fd))
    (arranged : inorder tree = manager.mWaitingQueue)
    (answered : delKcp manager.fd tree kcp = some (after, result)) :
    manager.delKcp kcp = { manager with mWaitingQueue := after } := by
  cases kcp with
  | none =>
      cases delKcp_null.symm.trans answered
      rw [KcpManager.delKcp, arranged]
  | some kcp =>
      by_cases absent : Absent manager.fd (inorder tree) kcp
      · cases (delKcp_absent ordered absent).symm.trans answered
        have kept : ∀ node ∈ manager.mWaitingQueue,
            (if manager.fd node.1 = manager.fd kcp then (node.1, KcpState.remove) else node) =
              node :=
          fun node member => if_neg (absent node (arranged ▸ member))
        rw [KcpManager.delKcp, List.map_congr_left kept, List.map_id', arranged]
      · exact nomatch (delKcp_present ordered absent).symm.trans answered

end Manager

end WaitingQueue

end FiberKcp.Manager
