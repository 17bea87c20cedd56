import FiberKcp.Data.Window
import FiberKcp.Ikcp.Messages

namespace FiberKcp.Ikcp

open FiberKcp.Data

/-! What the receiving half holds at most, whatever arrives: the window bounds
both queues, and the serial numbers may pass zero. -/

/-- The segments are numbered upwards from `rcv_nxt`, less than the window ahead,
and the first of them is kept back only by a full queue. -/
structure RecvSide.Bounded (side : RecvSide) : Prop where
  narrow : side.rcv_wnd.toNat < 2 ^ 16
  count : side.nrcv_que.toNat = side.rcv_queue.length
  queue : side.rcv_queue.length ≤ side.rcv_wnd.toNat
  buffer : Ordered side.rcv_nxt side.rcv_wnd.toNat (side.rcv_buf.map IkcpSeg.sn)
  waiting : ∀ seg ∈ side.rcv_buf.head?, seg.sn = side.rcv_nxt →
    side.rcv_queue.length = side.rcv_wnd.toNat

/-- Segments that begin with consecutive numbers: the others are numbered upwards
from where these end. -/
theorem Consecutive.ordered_rest {serial : UInt32} {width : Nat} {moved left : List IkcpSeg}
    (consecutive : Consecutive serial moved) (few : width < 2 ^ 32)
    (ordered : Ordered serial width ((moved ++ left).map IkcpSeg.sn)) :
    Ordered (serial + UInt32.ofNat moved.length) width (left.map IkcpSeg.sn) := by
  induction moved generalizing serial width with
  | nil => simpa using ordered
  | cons seg rest ih =>
      obtain ⟨same, later⟩ := consecutive
      rw [List.cons_append, List.map_cons, same] at ordered
      obtain ⟨first, increasing⟩ := List.pairwise_cons.mp ordered.increasing
      have room := ordered.inside serial List.mem_cons_self
      rw [ahead_self] at first room
      have next : ahead serial (serial + 1) = 1 := ahead_add serial 1
      have tail : Ordered (serial + 1) width ((rest ++ left).map IkcpSeg.sn) := by
        have inside : Ordered serial width ((rest ++ left).map IkcpSeg.sn) :=
          ordered.sublist (List.sublist_cons_self _ _)
        have moved := inside.rebase (serial + 1) fun other member => by
          rw [next]
          exact first other member
        exact moved.mono (Nat.sub_le _ _)
      have rebased := ih later few tail
      rw [List.length_cons, Nat.add_comm rest.length, UInt32.ofNat_add, ← UInt32.add_assoc]
      exact rebased

/-- The loop stops at a gap or at a full queue. -/
theorem moveAvailable_stops (buffer : List IkcpSeg) (kcp : Ikcpcb) :
    ∀ seg ∈ (moveAvailable buffer kcp).rcv_buf.head?,
      seg.sn = (moveAvailable buffer kcp).rcv_nxt →
        ¬ (moveAvailable buffer kcp).nrcv_que < (moveAvailable buffer kcp).rcv_wnd := by
  induction buffer generalizing kcp with
  | nil => simp [moveAvailable]
  | cons seg rest ih =>
      by_cases moves : seg.sn = kcp.rcv_nxt ∧ kcp.nrcv_que < kcp.rcv_wnd
      · rw [moveAvailable, if_pos moves]
        exact ih _
      · rw [moveAvailable, if_neg moves]
        intro first front same room
        cases front
        exact moves ⟨same, room⟩

theorem moveAvailable_bounded {buffer : List IkcpSeg} {kcp : Ikcpcb}
    (narrow : kcp.rcv_wnd.toNat < 2 ^ 16) (count : kcp.nrcv_que.toNat = kcp.rcv_queue.length)
    (queue : kcp.rcv_queue.length ≤ kcp.rcv_wnd.toNat)
    (ordered : Ordered kcp.rcv_nxt kcp.rcv_wnd.toNat (buffer.map IkcpSeg.sn)) :
    (moveAvailable buffer kcp).recvSide.Bounded := by
  have stops := moveAvailable_stops buffer kcp
  obtain ⟨moved, left, parts, consecutive, room, result⟩ := moveAvailable_spec buffer kcp
  rw [parts] at ordered
  have rest := consecutive.ordered_rest (by omega) ordered
  rw [result] at stops ⊢
  have counted : (kcp.nrcv_que + UInt32.ofNat moved.length).toNat =
      (kcp.rcv_queue ++ moved).length := by
    rw [UInt32.toNat_add, UInt32.toNat_ofNat', List.length_append]
    omega
  have within : (kcp.rcv_queue ++ moved).length ≤ kcp.rcv_wnd.toNat := by
    rw [List.length_append]
    omega
  refine ⟨narrow, counted, within, rest, ?_⟩
  intro seg front same
  have full := stops seg front same
  rw [UInt32.lt_iff_toNat_lt] at full
  simp only [counted] at full
  change (kcp.rcv_queue ++ moved).length = kcp.rcv_wnd.toNat
  omega

/-- The place of a new segment: behind those with larger numbers, seen from the
back, and before the others. -/
theorem insertFromBack_split {newseg : IkcpSeg} {buffer inserted : List IkcpSeg}
    (placed : insertFromBack newseg buffer = some inserted) :
    ∃ later earlier, buffer = later ++ earlier ∧ inserted = later ++ newseg :: earlier ∧
      (∀ seg ∈ later, seg.sn ≠ newseg.sn ∧ ¬ itimediff newseg.sn seg.sn > 0) ∧
      ∀ seg ∈ earlier.head?, itimediff newseg.sn seg.sn > 0 := by
  induction buffer generalizing inserted with
  | nil =>
      cases placed
      exact ⟨[], [], rfl, rfl, by simp, by simp⟩
  | cons head rest ih =>
      rw [insertFromBack] at placed
      split at placed
      · contradiction
      · rename_i different
        split at placed
        · rename_i older
          cases placed
          exact ⟨[], head :: rest, rfl, rfl, by simp, by simpa using older⟩
        · rename_i newer
          obtain ⟨tail, inTail, built⟩ := Option.map_eq_some_iff.mp placed
          obtain ⟨later, earlier, parts, whole, behind, before⟩ := ih inTail
          refine ⟨head :: later, earlier, by rw [parts, List.cons_append],
            by rw [← built, whole, List.cons_append], ?_, before⟩
          intro seg member
          rcases List.mem_cons.mp member with same | member
          · rw [same]
            exact ⟨different, newer⟩
          · exact behind seg member

/-- An inserted segment of the window leaves the numbers increasing. -/
theorem insertFromBack_ordered {newseg : IkcpSeg} {buffer inserted : List IkcpSeg}
    {base : UInt32} {width : Nat} (narrow : width < 2 ^ 31)
    (ordered : Ordered base width (buffer.map IkcpSeg.sn))
    (inside : ahead base newseg.sn < width)
    (placed : insertFromBack newseg buffer.reverse = some inserted) :
    Ordered base width (inserted.reverse.map IkcpSeg.sn) := by
  obtain ⟨later, earlier, parts, whole, behind, before⟩ := insertFromBack_split placed
  have buffer_eq : buffer = earlier.reverse ++ later.reverse := by
    rw [← List.reverse_append, ← parts, List.reverse_reverse]
  have inserted_eq : inserted.reverse = earlier.reverse ++ newseg :: later.reverse := by
    rw [whole, List.reverse_append, List.reverse_cons, List.append_assoc, List.singleton_append]
  rw [buffer_eq, List.map_append] at ordered
  have small : ∀ seg ∈ earlier ++ later, ahead base seg.sn < width := by
    intro seg member
    apply ordered.inside
    rcases List.mem_append.mp member with member | member
    · exact List.mem_append_left _ (List.mem_map_of_mem (List.mem_reverse.mpr member))
    · exact List.mem_append_right _ (List.mem_map_of_mem (List.mem_reverse.mpr member))
  obtain ⟨front, back, across⟩ := List.pairwise_append.mp ordered.increasing
  -- the last of the earlier ones is the largest of them
  have below : ∀ seg ∈ earlier, ahead base seg.sn < ahead base newseg.sn := by
    intro seg member
    cases earlier with
    | nil => contradiction
    | cons last rest =>
        have less := before last rfl
        have lastSmall := small last List.mem_cons_self
        rw [itimediff, serialDiff_ahead base (by omega) (by omega)] at less
        rcases List.mem_cons.mp member with same | member
        · rw [same]
          omega
        · rw [List.reverse_cons, List.map_append] at front
          have order := (List.pairwise_append.mp front).2.2 seg.sn
            (List.mem_map_of_mem (List.mem_reverse.mpr member)) last.sn (by simp)
          omega
  have above : ∀ seg ∈ later, ahead base newseg.sn < ahead base seg.sn := by
    intro seg member
    obtain ⟨different, notLess⟩ := behind seg member
    have segSmall := small seg (List.mem_append_right _ member)
    rw [itimediff, serialDiff_ahead base (by omega) (by omega)] at notLess
    have apart : ahead base seg.sn ≠ ahead base newseg.sn := fun same =>
      different (ahead_inj base same)
    omega
  rw [inserted_eq, List.map_append, List.map_cons]
  constructor
  · apply List.pairwise_append.mpr
    refine ⟨front, List.pairwise_cons.mpr ⟨?_, back⟩, ?_⟩
    · intro serial member
      obtain ⟨seg, inLater, same⟩ := List.mem_map.mp member
      rw [← same]
      exact above seg (List.mem_reverse.mp inLater)
    · intro serial member other otherMember
      obtain ⟨seg, inEarlier, same⟩ := List.mem_map.mp member
      have less := below seg (List.mem_reverse.mp inEarlier)
      rw [← same]
      rcases List.mem_cons.mp otherMember with isNew | inLater
      · rw [isNew]
        exact less
      · obtain ⟨after, afterMember, afterSame⟩ := List.mem_map.mp inLater
        have more := above after (List.mem_reverse.mp afterMember)
        rw [← afterSame]
        omega
  · intro serial member
    rcases List.mem_append.mp member with early | rest
    · exact ordered.inside serial (List.mem_append_left _ early)
    · rcases List.mem_cons.mp rest with isNew | late
      · rw [isNew]
        exact inside
      · exact ordered.inside serial (List.mem_append_right _ late)

/-- The checks of `ikcp_parse_data`, as a distance. -/
theorem ahead_of_accepted {kcp : Ikcpcb} {sn : UInt32} (narrow : kcp.rcv_wnd.toNat < 2 ^ 16)
    (accepted : ¬ (itimediff sn (kcp.rcv_nxt + kcp.rcv_wnd) ≥ 0 ∨ itimediff sn kcp.rcv_nxt < 0)) :
    ahead kcp.rcv_nxt sn < kcp.rcv_wnd.toNat := by
  rw [not_or] at accepted
  obtain ⟨beforeEnd, notOlder⟩ := accepted
  have near : ahead kcp.rcv_nxt sn < 2 ^ 31 := by
    have bound := ahead_lt kcp.rcv_nxt sn
    unfold ahead at *
    rw [itimediff, serialDiff_cases] at notOlder
    split at notOlder <;> omega
  have farEnd : ahead kcp.rcv_nxt (kcp.rcv_nxt + kcp.rcv_wnd) = kcp.rcv_wnd.toNat :=
    ahead_add _ _
  rw [itimediff, serialDiff_ahead kcp.rcv_nxt near (by omega), farEnd] at beforeEnd
  omega

theorem ikcpParseData_bounded {kcp : Ikcpcb} {newseg : IkcpSeg}
    (bounded : kcp.recvSide.Bounded) : (ikcpParseData kcp newseg).recvSide.Bounded := by
  have narrow : kcp.rcv_wnd.toNat < 2 ^ 16 := bounded.narrow
  by_cases outside : itimediff newseg.sn (kcp.rcv_nxt + kcp.rcv_wnd) ≥ 0 ∨
      itimediff newseg.sn kcp.rcv_nxt < 0
  · rw [ikcpParseData, if_pos outside]
    exact bounded
  · rw [ikcpParseData, if_neg outside]
    apply moveAvailable_bounded narrow bounded.count bounded.queue
    cases placed : insertFromBack newseg kcp.rcv_buf.reverse with
    | none => exact bounded.buffer
    | some inserted =>
        exact insertFromBack_ordered (by omega) bounded.buffer
          (ahead_of_accepted narrow outside) placed

theorem applySegment_bounded (kcp : Ikcpcb) (scan : AckScan) (header : SegmentHeader)
    (payload : List UInt8) (bounded : kcp.recvSide.Bounded) :
    (applySegment kcp scan header payload).1.recvSide.Bounded := by
  obtain ⟨entered, same, arrival⟩ := applySegment_cases kcp scan header payload
  have enteredBounded : entered.recvSide.Bounded := same.recvSide ▸ bounded
  generalize (applySegment kcp scan header payload).1 = after at arrival
  cases arrival with
  | @acked timed _ _ sameTimed sameAfter =>
      rw [sameAfter.recvSide, (ikcpParseAck_keeps timed header.sn).2.1, sameTimed.recvSide]
      exact enteredBounded
  | stored _ _ _ => exact ikcpParseData_bounded enteredBounded
  | repeated _ _ => exact enteredBounded
  | passed unchanged => exact unchanged.recvSide ▸ enteredBounded

theorem ikcpInput_bounded {kcp : Ikcpcb} (data : List UInt8) (bounded : kcp.recvSide.Bounded) :
    (ikcpInput kcp data).1.recvSide.Bounded := by
  have scanned := inputLoop_preserves (fun kcp => kcp.recvSide.Bounded)
    applySegment_bounded data.length kcp {} data bounded
  rcases ikcpInput_cases kcp data with unchanged | ⟨counted, same, noted⟩
  · rw [unchanged]
    exact bounded
  · rw [same.recvSide]
    rcases noted with noted | ⟨sn, noted⟩
    · rw [noted]
      exact scanned
    · rw [noted, (ikcpParseFastack_keeps _ sn).2.1]
      exact scanned

theorem takeMessage_bounded {kcp : Ikcpcb} (bounded : kcp.recvSide.Bounded) :
    (takeMessage kcp).recvSide.Bounded := by
  have bound := kcp.nrcv_que.toNat_lt
  have count : kcp.nrcv_que.toNat = kcp.rcv_queue.length := bounded.count
  have within : kcp.rcv_queue.length ≤ kcp.rcv_wnd.toNat := bounded.queue
  have short := (messageParts_isInitial kcp.rcv_queue).length_le
  have left : (kcp.nrcv_que - UInt32.ofNat (messageParts kcp.rcv_queue).length).toNat =
      (kcp.rcv_queue.drop (messageParts kcp.rcv_queue).length).length := by
    rw [UInt32.toNat_sub_of_le]
    · rw [UInt32.toNat_ofNat', List.length_drop]
      omega
    · rw [UInt32.le_iff_toNat_le, UInt32.toNat_ofNat']
      omega
  have room : (dropMessage kcp).rcv_queue.length ≤ (dropMessage kcp).rcv_wnd.toNat := by
    simp only [dropMessage, List.length_drop]
    omega
  exact moveAvailable_bounded bounded.narrow left room bounded.buffer

end FiberKcp.Ikcp
