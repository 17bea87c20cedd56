import Mathlib.Algebra.Ring.Nat
import Mathlib.Algebra.Ring.Int.Defs
import Mathlib.Data.List.Nodup

namespace FiberKcp.Data

/-! A queue that keeps its history: what was pushed, and what was taken by whom.
A task is known by its position among all tasks pushed. -/

structure Taken (Task Taker : Type*) where
  task : Task
  position : Nat
  taker : Taker
deriving DecidableEq, Repr

structure Ledger (Task Taker : Type*) where
  sent : List Task := []
  taken : List (Taken Task Taker) := []
deriving DecidableEq, Repr

namespace Ledger

variable {Task Taker : Type*} {ledger : Ledger Task Taker}

/-- The tasks that nobody took, in the order in which they were pushed. -/
def waiting (ledger : Ledger Task Taker) : List (Task × Nat) :=
  ledger.sent.zipIdx.filter fun item => item.2 ∉ ledger.taken.map Taken.position

def queue (ledger : Ledger Task Taker) : List Task :=
  ledger.waiting.map Prod.fst

def push (ledger : Ledger Task Taker) (task : Task) : Ledger Task Taker :=
  { ledger with sent := ledger.sent ++ [task] }

/-- Takes the task at this place of the queue. -/
def take (ledger : Ledger Task Taker) (index : Nat) (taker : Taker) : Ledger Task Taker :=
  match ledger.waiting[index]? with
  | none => ledger
  | some (task, position) => { ledger with taken := ledger.taken ++ [⟨task, position, taker⟩] }

structure Sound (ledger : Ledger Task Taker) : Prop where
  once : (ledger.taken.map Taken.position).Nodup
  known : ∀ entry ∈ ledger.taken, ledger.sent[entry.position]? = some entry.task

theorem sound_empty : Sound ({} : Ledger Task Taker) :=
  ⟨List.nodup_nil, fun _ member => (List.not_mem_nil member).elim⟩

theorem waiting_nodup (ledger : Ledger Task Taker) :
    (ledger.waiting.map Prod.snd).Nodup := by
  have positions : (ledger.sent.zipIdx.map Prod.snd).Nodup := by
    rw [List.zipIdx_map_snd]
    exact List.nodup_range'
  exact positions.sublist (List.filter_sublist.map Prod.snd)

theorem Sound.position_lt (sound : Sound ledger) {entry : Taken Task Taker}
    (member : entry ∈ ledger.taken) : entry.position < ledger.sent.length :=
  (List.getElem?_eq_some_iff.mp (sound.known entry member)).1

theorem Sound.entry_eq (sound : Sound ledger) {entry other : Taken Task Taker}
    (one : entry ∈ ledger.taken) (two : other ∈ ledger.taken)
    (same : entry.position = other.position) : entry = other :=
  List.inj_on_of_nodup_map sound.once one two same

theorem Sound.waiting_push (sound : Sound ledger) (task : Task) :
    (ledger.push task).waiting = ledger.waiting ++ [(task, ledger.sent.length)] := by
  have free : ∀ entry ∈ ledger.taken, entry.position ≠ ledger.sent.length :=
    fun entry member => Nat.ne_of_lt (sound.position_lt member)
  simp only [waiting, push, List.zipIdx_append, List.filter_append]
  simpa using free

theorem Sound.queue_push (sound : Sound ledger) (task : Task) :
    (ledger.push task).queue = ledger.queue ++ [task] := by
  simp [queue, sound.waiting_push]

theorem Sound.push (sound : Sound ledger) (task : Task) : Sound (ledger.push task) := by
  refine ⟨sound.once, fun entry member => ?_⟩
  exact (List.getElem?_append_left (sound.position_lt member)).trans (sound.known entry member)

theorem waiting_split {front back : List Task} {task : Task}
    (split : ledger.queue = front ++ task :: back) :
    ∃ before position after, ledger.waiting = before ++ (task, position) :: after ∧
      before.map Prod.fst = front ∧ after.map Prod.fst = back := by
  obtain ⟨before, rest, whole, rfl, tail⟩ := List.map_eq_append_iff.mp split
  obtain ⟨⟨first, position⟩, after, rfl, rfl, rfl⟩ := List.map_eq_cons_iff.mp tail
  exact ⟨before, position, after, whole, rfl, rfl⟩

variable {before after : List (Task × Nat)} {task : Task} {position : Nat} {taker : Taker}

theorem take_eq (whole : ledger.waiting = before ++ (task, position) :: after) :
    ledger.take before.length taker =
      { ledger with taken := ledger.taken ++ [⟨task, position, taker⟩] } := by
  simp [take, whole]

theorem waiting_take (whole : ledger.waiting = before ++ (task, position) :: after) :
    (ledger.take before.length taker).waiting = before ++ after := by
  have distinct := ledger.waiting_nodup
  rw [whole] at distinct
  have kept : ∀ item ∈ before ++ after, item.2 ≠ position := by
    rw [List.map_append, List.map_cons, List.nodup_middle, List.nodup_cons,
      ← List.map_append] at distinct
    rintro item member rfl
    exact distinct.1 (List.mem_map.mpr ⟨item, member, rfl⟩)
  have filtered : (ledger.take before.length taker).waiting =
      ledger.waiting.filter fun item => item.2 ≠ position := by
    rw [take_eq whole]
    simp only [waiting, List.filter_filter]
    refine List.filter_congr fun item _ => ?_
    rw [List.map_append, ← Bool.decide_and, decide_eq_decide, List.mem_append, not_or, and_comm]
    rw [List.map_singleton, List.mem_singleton]
  rw [filtered, whole, List.filter_append, List.filter_cons_of_neg (by simp), ← List.filter_append]
  exact List.filter_eq_self.mpr fun item member => by simpa using kept item member

theorem Sound.take (sound : Sound ledger)
    (whole : ledger.waiting = before ++ (task, position) :: after) :
    Sound (ledger.take before.length taker) := by
  have member : (task, position) ∈ ledger.waiting := by simp [whole]
  have ⟨known, free⟩ := List.mem_filter.mp member
  rw [take_eq whole]
  refine ⟨?_, fun entry among => ?_⟩
  · simp only [List.map_append, List.map_cons, List.map_nil, List.nodup_append]
    refine ⟨sound.once, List.nodup_singleton _, fun other taken last here => ?_⟩
    rw [List.mem_singleton.mp here]
    rintro rfl
    simp [taken] at free
  · rcases List.mem_append.mp among with earlier | last
    · exact sound.known entry earlier
    · cases List.mem_singleton.mp last
      exact List.mem_zipIdx_iff_getElem?.mp known

/-- The tasks of one kind, in the order in which they were pushed. -/
def ofKind (ledger : Ledger Task Taker) (kind : Task → Bool) : List Nat :=
  (ledger.sent.zipIdx.filter fun item => kind item.1).map Prod.snd

def takenOf (ledger : Ledger Task Taker) (kind : Task → Bool) : List Nat :=
  (ledger.taken.filter fun entry => kind entry.task).map Taken.position

/-- The tasks of this kind are taken in the order in which they were pushed. -/
def InOrder (ledger : Ledger Task Taker) (kind : Task → Bool) : Prop :=
  ledger.takenOf kind ++ (ledger.waiting.filter fun item => kind item.1).map Prod.snd =
    ledger.ofKind kind

theorem inOrder_empty (kind : Task → Bool) : InOrder ({} : Ledger Task Taker) kind := rfl

theorem ofKind_pairwise (ledger : Ledger Task Taker) (kind : Task → Bool) :
    (ledger.ofKind kind).Pairwise (· < ·) := by
  have positions : (ledger.sent.zipIdx.map Prod.snd).Pairwise (· < ·) := by
    rw [List.zipIdx_map_snd]
    exact List.pairwise_lt_range'
  exact positions.sublist (List.filter_sublist.map Prod.snd)

theorem InOrder.taken_pairwise {kind : Task → Bool} (inOrder : ledger.InOrder kind) :
    (ledger.takenOf kind).Pairwise (· < ·) :=
  (inOrder ▸ ledger.ofKind_pairwise kind).sublist (List.sublist_append_left ..)

theorem InOrder.push {kind : Task → Bool} (inOrder : ledger.InOrder kind) (sound : Sound ledger)
    (task : Task) : (ledger.push task).InOrder kind := by
  have more : (ledger.push task).ofKind kind = ledger.ofKind kind ++
      ([(task, ledger.sent.length)].filter fun item => kind item.1).map Prod.snd := by
    simp [ofKind, Ledger.push, List.zipIdx_append]
  rw [InOrder, sound.waiting_push, more, ← inOrder, List.filter_append, List.map_append,
    List.append_assoc]
  rfl

/-- A task is taken in order when no task of its kind waits before it. -/
theorem InOrder.take {kind : Task → Bool} (inOrder : ledger.InOrder kind)
    (whole : ledger.waiting = before ++ (task, position) :: after)
    (first : kind task = true → ∀ item ∈ before, kind item.1 = false) :
    (ledger.take before.length taker).InOrder kind := by
  have order := inOrder
  rw [InOrder, takenOf, whole] at order
  rw [InOrder, waiting_take whole, take_eq whole, takenOf]
  cases concerned : kind task with
  | true =>
      have none : before.filter (fun item => kind item.1) = [] :=
        List.filter_eq_nil_iff.mpr fun item member => by simp [first concerned item member]
      simp only [List.filter_append, List.map_append, none, concerned, List.filter_cons_of_pos,
        List.map_cons, List.filter_nil, List.map_nil, List.nil_append] at order ⊢
      simpa [ofKind] using order
  | false =>
      simp only [List.filter_append, List.map_append, concerned, List.filter_cons_of_neg,
        Bool.false_eq_true, not_false_iff, List.filter_nil, List.append_nil] at order ⊢
      exact order

end Ledger

end FiberKcp.Data
