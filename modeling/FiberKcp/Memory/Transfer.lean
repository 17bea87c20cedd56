import FiberKcp.Memory.Represents

namespace FiberKcp.Ikcp.Machine

open FiberKcp.Data Store

/-! `ikcp_peeksize`, `ikcp_recv` and `ikcp_send` in memory. -/

/-! ## Receiving -/

section Receiving

variable {machine : Machine} {queues : Queue → Entries IkcpSeg} {kcp : Ikcpcb}

theorem peekLoop_spec (holds : machine.store.Holds queues []) {fuel length : Nat}
    {xs ys : Entries IkcpSeg} (place : queues .rcvQueue = xs ++ ys) (enough : ys.length < fuel) :
    machine.peekLoop fuel (rightOf (.head .rcvQueue) (cells ys)) length =
      some (length + messageLength (ys.map Prod.snd)) := by
  induction fuel generalizing xs ys length with
  | zero => contradiction
  | succ fuel ih =>
      cases ys with
      | nil => rfl
      | cons entry rest =>
          obtain ⟨read, next, _⟩ := at_entry holds place
          have later : queues .rcvQueue = (xs ++ [entry]) ++ rest :=
            place.trans (List.append_cons xs entry rest)
          have short : rest.length < fuel := Nat.lt_of_succ_lt_succ enough
          have onward := @ih (length + entry.2.data.length) _ _ later short
          rw [cells_cons, rightOf_cons, peekLoop, if_neg (by simp)]
          simp only [read, next, Option.bind_eq_bind, Option.bind_some, List.map_cons, messageLength]
          split
          · rw [Nat.add_zero]
          · rw [onward, Nat.add_assoc]

theorem ikcpPeeksize_spec (shows : machine.Shows queues [] kcp) :
    machine.ikcpPeeksize = some (Ikcp.ikcpPeeksize kcp) := by
  have contents : (queues .rcvQueue).map Prod.snd = kcp.rcv_queue := shows.contents .rcvQueue
  have count := shows.field Ikcpcb.nrcv_que rfl
  have walk := @peekLoop_spec _ _ shows.holds machine.fuel 0 [] (queues .rcvQueue) rfl
    (fuel_enough shows.holds _)
  rw [ikcpPeeksize, Ikcp.ikcpPeeksize, ← contents]
  simp only [isEmpty_eq shows.holds, shows.holds.first, count, walk, Option.bind_eq_bind,
    Option.bind_some, Nat.zero_add]
  cases entries : queues .rcvQueue with
  | nil => rfl
  | cons entry rest =>
      have place : queues .rcvQueue = [] ++ entry :: rest := entries
      obtain ⟨read, _, _⟩ := at_entry shows.holds place
      simp only [cells_cons, rightOf_cons, read, reduceCtorEq, decide_false, Bool.false_eq_true,
        if_false, Option.bind_some, List.map_cons]
      split
      · rfl
      · split <;> rfl

theorem mergeLoop_peek (holds : machine.store.Holds queues []) {fuel : Nat}
    {xs ys : Entries IkcpSeg} (place : queues .rcvQueue = xs ++ ys) (enough : ys.length < fuel)
    (bytes : List UInt8) :
    mergeLoop true fuel machine (rightOf (.head .rcvQueue) (cells ys)) bytes =
      some (machine, bytes ++ (mergeFragment (ys.map Prod.snd)).1) := by
  induction fuel generalizing xs ys bytes with
  | zero => contradiction
  | succ fuel ih =>
      cases ys with
      | nil =>
          rw [cells_nil, rightOf_nil, mergeLoop, if_pos rfl]
          simp [mergeFragment]
      | cons entry rest =>
          obtain ⟨read, next, _⟩ := at_entry holds place
          have later : queues .rcvQueue = (xs ++ [entry]) ++ rest :=
            place.trans (List.append_cons xs entry rest)
          have onward := ih later (Nat.lt_of_succ_lt_succ enough) (bytes ++ entry.2.data)
          rw [cells_cons, rightOf_cons, mergeLoop, if_neg (by simp)]
          simp only [read, next, Option.bind_eq_bind, Option.bind_some, if_true, List.map_cons,
            mergeFragment]
          split
          · rfl
          · rw [onward, List.append_assoc]

/-- Without peeking the segments are deleted on the way. -/
theorem mergeLoop_take {fuel : Nat} (holds : machine.store.Holds queues [])
    (enough : (queues .rcvQueue).length < fuel) (bytes : List UInt8) :
    ∃ store left, mergeLoop false fuel machine
        (rightOf (.head .rcvQueue) (cells (queues .rcvQueue))) bytes =
      some ({ machine with
          store
          block := { machine.block with
            nrcv_que := machine.block.nrcv_que -
              (mergeFragment ((queues .rcvQueue).map Prod.snd)).2.2 } },
        bytes ++ (mergeFragment ((queues .rcvQueue).map Prod.snd)).1) ∧
      left.map Prod.snd = (mergeFragment ((queues .rcvQueue).map Prod.snd)).2.1 ∧
      store.Holds (Function.update queues .rcvQueue left) [] := by
  induction fuel generalizing machine queues bytes with
  | zero => contradiction
  | succ fuel ih =>
      cases entries : queues .rcvQueue with
      | nil =>
          refine ⟨machine.store, [], ?_, rfl, ?_⟩
          · rw [cells_nil, rightOf_nil, mergeLoop, if_pos rfl]
            simp [mergeFragment]
          · rw [Function.update_eq_self_iff.mpr entries.symm]
            exact holds
      | cons entry rest =>
          have place : queues .rcvQueue = [] ++ entry :: rest := entries
          obtain ⟨read, next, _⟩ := at_entry holds place
          obtain ⟨s1, deleted, loose⟩ := holds.del place
          obtain ⟨s2, freed, fewer⟩ := loose.free
          rw [List.nil_append] at fewer
          rw [cells_cons, rightOf_cons, mergeLoop, if_neg (by simp)]
          simp only [read, next, deleted, segmentDelete, freed, onStore_some, Option.bind_eq_bind,
            Option.bind_some, Bool.false_eq_true, if_false, List.map_cons, mergeFragment]
          split
          · exact ⟨s2, rest, rfl, rfl, fewer⟩
          · have short : (Function.update queues .rcvQueue rest .rcvQueue).length < fuel := by
              rw [Function.update_self]
              rw [entries, List.length_cons] at enough
              omega
            obtain ⟨store, left, done, contents, later⟩ := @ih
              { machine with
                store := s2
                block := { machine.block with nrcv_que := machine.block.nrcv_que - 1 } } _ fewer
              short (bytes ++ entry.2.data)
            rw [Function.update_self] at done contents
            rw [Function.update_idem] at later
            refine ⟨store, left, ?_, contents, later⟩
            have total : machine.block.nrcv_que - 1 - (mergeFragment (rest.map Prod.snd)).2.2 =
                machine.block.nrcv_que - ((mergeFragment (rest.map Prod.snd)).2.2 + 1) := by
              grind
            rw [done, List.append_assoc, total]

theorem moveAvailable_spec {fuel : Nat} {left : List IkcpSeg}
    (shows : machine.Shows queues [] { kcp with rcv_buf := left }) (enough : left.length < fuel) :
    ∃ after, moveAvailable fuel machine = some after ∧
      after.Represents (Ikcp.moveAvailable left kcp) := by
  induction left generalizing machine queues kcp fuel with
  | nil =>
      obtain ⟨fuel, rfl⟩ := Nat.exists_eq_succ_of_ne_zero (Nat.ne_of_gt enough)
      have empty : queues .rcvBuf = [] := List.map_eq_nil_iff.mp (shows.contents .rcvBuf)
      refine ⟨machine, ?_, queues, shows⟩
      simp [moveAvailable, isEmpty_eq shows.holds, empty]
  | cons seg rest ih =>
      obtain ⟨fuel, rfl⟩ := Nat.exists_eq_succ_of_ne_zero (Nat.ne_of_gt (Nat.zero_lt_of_lt enough))
      obtain ⟨entry, others, entries, isSeg, isRest⟩ :=
        List.map_eq_cons_iff.mp (shows.contents .rcvBuf)
      have place : queues .rcvBuf = [] ++ entry :: others := entries
      have first : machine.store.next (.head .rcvBuf) = some (.cell entry.1) :=
        shows.holds.first_cons entries
      obtain ⟨read, _, _⟩ := at_entry shows.holds place
      have next : machine.block.rcv_nxt = kcp.rcv_nxt := shows.field Ikcpcb.rcv_nxt rfl
      have count : machine.block.nrcv_que = kcp.nrcv_que := shows.field Ikcpcb.nrcv_que rfl
      have window : machine.block.rcv_wnd = kcp.rcv_wnd := shows.field Ikcpcb.rcv_wnd rfl
      rw [moveAvailable, Ikcp.moveAvailable]
      simp only [isEmpty_eq shows.holds, entries, first, read, isSeg, next, count, window,
        Option.bind_eq_bind, Option.bind_some, reduceCtorEq, decide_false, Bool.false_eq_true,
        if_false]
      by_cases taken : seg.sn = kcp.rcv_nxt ∧ kcp.nrcv_que < kcp.rcv_wnd
      · obtain ⟨s1, deleted, loose⟩ := shows.holds.del place
        obtain ⟨s2, added, later⟩ := loose.addTail .rcvQueue
        rw [if_pos taken, if_pos taken]
        simp only [deleted, added, onStore_some, Option.bind_some]
        refine ih ⟨later, ?_, ?_, ?_, shows.nsnd_buf, shows.nsnd_que⟩ (Nat.lt_of_succ_lt_succ enough)
        · exact congrArg (fun block : Ikcpcb => { block with
            nrcv_que := block.nrcv_que + 1, rcv_nxt := block.rcv_nxt + 1 }) shows.block
        · have queued : (queues .rcvQueue).map Prod.snd = kcp.rcv_queue := shows.contents .rcvQueue
          intro queue
          cases queue with
          | sndQueue => exact shows.contents .sndQueue
          | rcvQueue =>
              change (queues .rcvQueue ++ [entry]).map Prod.snd = kcp.rcv_queue ++ [seg]
              rw [List.map_append, queued, ← isSeg]
              rfl
          | sndBuf => exact shows.contents .sndBuf
          | rcvBuf => exact isRest
        · change machine.nrcv_buf - 1 = UInt32.ofNat rest.length
          rw [shows.nrcv_buf]
          exact ofNat_succ_sub rest.length
      · refine ⟨machine, ?_, queues, ?_⟩
        · rw [if_neg taken]
        · rw [if_neg taken]
          exact shows

/-- The merge loop on the segments of a control block. -/
theorem mergeLoop_spec (shows : machine.Shows queues [] kcp) (ispeek : Bool) :
    ∃ middle, mergeLoop ispeek machine.fuel machine
        (rightOf (.head .rcvQueue) (cells (queues .rcvQueue))) [] =
      some (middle, (mergeFragment kcp.rcv_queue).1) ∧
      middle.Represents (if ispeek then kcp else { kcp with
        rcv_queue := (mergeFragment kcp.rcv_queue).2.1
        nrcv_que := kcp.nrcv_que - (mergeFragment kcp.rcv_queue).2.2 }) := by
  have contents : (queues .rcvQueue).map Prod.snd = kcp.rcv_queue := shows.contents .rcvQueue
  have enough := fuel_enough shows.holds .rcvQueue
  rw [← contents]
  cases ispeek with
  | true =>
      have peeked := mergeLoop_peek shows.holds (List.nil_append _).symm enough []
      exact ⟨machine, peeked, queues, shows⟩
  | false =>
      obtain ⟨store, left, done, isLeft, holds⟩ := mergeLoop_take shows.holds enough []
      refine ⟨_, done, _, holds, ?_, ?_, shows.nrcv_buf, shows.nsnd_buf, shows.nsnd_que⟩
      · exact congrArg (fun block : Ikcpcb => { block with
          nrcv_que := block.nrcv_que - (mergeFragment ((queues .rcvQueue).map Prod.snd)).2.2 })
          shows.block
      · rw [← isLeft]
        apply shows.contents_update
        funext queue
        cases queue <;> rfl

/-- The move loop from the control block with `left` in `rcv_buf`. -/
theorem moveAvailable_represents (kcp : Ikcpcb) (left : List IkcpSeg)
    (represents : machine.Represents { kcp with rcv_buf := left }) :
    ∃ after, moveAvailable machine.fuel machine = some after ∧
      after.Represents (Ikcp.moveAvailable left kcp) := by
  obtain ⟨queues, shows⟩ := represents
  have length : left.length = (queues .rcvBuf).length := by
    have contents : (queues .rcvBuf).map Prod.snd = left := shows.contents .rcvBuf
    rw [← contents, List.length_map]
  exact moveAvailable_spec shows (length ▸ fuel_enough shows.holds .rcvBuf)

theorem Represents.tell (represents : machine.Represents kcp) :
    { machine with
      block := { machine.block with probe := machine.block.probe ||| ikcpAskTell } }.Represents
      { kcp with probe := kcp.probe ||| ikcpAskTell } := by
  apply represents.change fun block => { block with probe := block.probe ||| ikcpAskTell }
  · funext queue
    cases queue <;> rfl
  · rfl

theorem ikcpRecv_spec (represents : machine.Represents kcp) (len : Int) :
    ∃ after, machine.ikcpRecv len = some (after, (Ikcp.ikcpRecv kcp len).2) ∧
      after.Represents (Ikcp.ikcpRecv kcp len).1 := by
  obtain ⟨queues, shows⟩ := represents
  have contents : (queues .rcvQueue).map Prod.snd = kcp.rcv_queue := shows.contents .rcvQueue
  have isEmpty : decide (queues .rcvQueue = []) = kcp.rcv_queue.isEmpty := by
    rw [← contents]
    cases queues .rcvQueue <;> rfl
  have count := shows.field Ikcpcb.nrcv_que rfl
  have window := shows.field Ikcpcb.rcv_wnd rfl
  rw [ikcpRecv, Ikcp.ikcpRecv]
  simp only [isEmpty_eq shows.holds, isEmpty, ikcpPeeksize_spec shows, shows.holds.first, count,
    window, Option.bind_eq_bind, Option.bind_some]
  split
  · exact ⟨machine, rfl, queues, shows⟩
  · split
    · exact ⟨machine, rfl, queues, shows⟩
    · split
      · exact ⟨machine, rfl, queues, shows⟩
      · obtain ⟨merged, done, taken⟩ := mergeLoop_spec shows (decide (len < 0))
        simp only [decide_eq_true_eq] at taken
        generalize (if len < 0 then kcp else { kcp with
          rcv_queue := (mergeFragment kcp.rcv_queue).2.1
          nrcv_que := kcp.nrcv_que - (mergeFragment kcp.rcv_queue).2.2 }) = rest at taken ⊢
        obtain ⟨moved, shifted, settled⟩ := moveAvailable_represents rest rest.rcv_buf taken
        simp only [done, shifted, Option.bind_some]
        generalize Ikcp.moveAvailable rest.rcv_buf rest = later at settled ⊢
        have countLater := settled.field Ikcpcb.nrcv_que rfl
        have windowLater := settled.field Ikcpcb.rcv_wnd rfl
        by_cases tell : later.nrcv_que < later.rcv_wnd ∧ kcp.nrcv_que ≥ kcp.rcv_wnd
        · rw [if_pos tell, if_pos (countLater ▸ windowLater ▸ tell)]
          exact ⟨_, rfl, settled.tell⟩
        · rw [if_neg tell, if_neg (countLater ▸ windowLater ▸ tell)]
          exact ⟨moved, rfl, settled⟩

end Receiving

/-! ## Sending -/

section Sending

variable {machine : Machine} {kcp : Ikcpcb}

theorem appendToPrevious_spec (represents : machine.Represents kcp) (buffer : List UInt8)
    (len : Nat) :
    ∃ after, machine.appendToPrevious buffer len =
        some (after, (Ikcp.appendToPrevious kcp buffer len).2) ∧
      after.Represents (Ikcp.appendToPrevious kcp buffer len).1 := by
  obtain ⟨queues, shows⟩ := represents
  have contents : (queues .sndQueue).map Prod.snd = kcp.snd_queue := shows.contents .sndQueue
  have mss : machine.block.mss = kcp.mss := shows.field Ikcpcb.mss rfl
  rw [appendToPrevious, Ikcp.appendToPrevious, ← contents]
  simp only [isEmpty_eq shows.holds, shows.holds.last, mss, Option.bind_eq_bind, Option.bind_some]
  rcases List.eq_nil_or_concat (queues .sndQueue) with empty | ⟨most, old, ends⟩
  · rw [empty]
    exact ⟨machine, rfl, queues, shows⟩
  · rw [List.concat_eq_append] at ends
    have place : queues .sndQueue = most ++ old :: [] := ends
    obtain ⟨read, _, _⟩ := at_entry shows.holds place
    have last : (most.map Prod.snd ++ [old.2]).getLast? = some old.2 := List.getLast?_concat
    simp only [ends, cells_append, cells_cons, cells_nil, leftOf_append, read, List.map_append,
      List.map_cons, List.map_nil, last, Option.bind_some, List.append_eq_nil_iff, reduceCtorEq,
      and_false, decide_false, Bool.false_eq_true, if_false, List.dropLast_concat]
    split
    · generalize (if len < kcp.mss.toNat - old.2.data.length then len
        else kcp.mss.toNat - old.2.data.length) = extend
      generalize isSeg : ({ data := old.2.data ++ buffer.take extend, frg := 0 } : IkcpSeg) = seg
      have fresh := shows.holds.alloc seg
      obtain ⟨s1, added, longer⟩ := fresh.addTail .sndQueue
      have behind : Function.update queues .sndQueue
          (queues .sndQueue ++ [(machine.store.brk, seg)]) .sndQueue =
            most ++ old :: [(machine.store.brk, seg)] := by
        rw [Function.update_self, ends, List.append_assoc]
        rfl
      obtain ⟨s2, deleted, loose⟩ := longer.del behind
      obtain ⟨s3, cleared, still⟩ := loose.init
      obtain ⟨s4, freed, later⟩ := still.free
      rw [Function.update_idem] at later
      simp only [segmentNew, alloc_place, added, deleted, cleared, segmentDelete, freed, onStore_some,
        Option.bind_some]
      refine ⟨_, rfl, _, later, shows.block, ?_, shows.nrcv_buf, shows.nsnd_buf, ?_⟩
      · apply shows.contents_update
        rw [List.map_append]
        funext queue
        cases queue <;> rfl
      · have queued : kcp.queue .sndQueue = most.map Prod.snd ++ [old.2] := shows.contents_at place
        have count := shows.nsnd_que
        rw [queued, List.length_append] at count
        rw [count, Ikcpcb.queue, List.length_append]
        rfl
    · exact ⟨machine, rfl, queues, shows⟩

theorem fragmentLoop_spec (left : Nat) (represents : machine.Represents kcp) (buffer : List UInt8)
    (len : Nat) :
    ∃ after, fragmentLoop left machine buffer len = some after ∧
      after.Represents { kcp with
        snd_queue := kcp.snd_queue ++ fragment kcp.mss.toNat (kcp.stream != 0) left buffer len } := by
  induction left generalizing machine kcp buffer len with
  | zero =>
      refine ⟨machine, rfl, ?_⟩
      rw [fragment, List.append_nil]
      exact represents
  | succ left ih =>
      obtain ⟨queues, shows⟩ := represents
      have mss : machine.block.mss = kcp.mss := shows.field Ikcpcb.mss rfl
      have stream : machine.block.stream = kcp.stream := shows.field Ikcpcb.stream rfl
      rw [fragmentLoop, fragment]
      simp only [mss, stream, Option.bind_eq_bind, bne_iff_ne]
      generalize (if len > kcp.mss.toNat then kcp.mss.toNat else len) = size
      generalize ({
        data := buffer.take size,
        frg := if kcp.stream ≠ 0 then 0 else UInt32.ofNat left } : IkcpSeg) = seg
      obtain ⟨s1, cleared, fresh⟩ := (shows.holds.alloc seg).init
      obtain ⟨s2, added, longer⟩ := fresh.addTail .sndQueue
      have queued : { machine with store := s2, nsnd_que := machine.nsnd_que + 1 }.Represents
          { kcp with snd_queue := kcp.snd_queue ++ [seg] } := by
        refine ⟨_, longer, shows.block, ?_, shows.nrcv_buf, shows.nsnd_buf, ?_⟩
        · apply shows.contents_update
          rw [List.map_append, shows.contents]
          funext queue
          cases queue <;> rfl
        · rw [shows.nsnd_que, ← ofNat_succ, Ikcpcb.queue, Ikcpcb.queue, List.length_append]
          rfl
      obtain ⟨after, done, later⟩ := ih queued (buffer.drop size) (len - size)
      refine ⟨after, ?_, ?_⟩
      · simp only [segmentNew, alloc_place, cleared, added, onStore_some, Option.bind_some]
        exact done
      · rw [List.append_assoc] at later
        exact later

/-- The part of `ikcpSend` after the streaming mode's. -/
def sentRest (kcp : Ikcpcb) (buffer : List UInt8) (size : Nat) : Ikcpcb × Int32 :=
  let count := fragmentCount kcp.mss.toNat size
  if count ≥ ikcpWndRcv.toNat then (kcp, -2)
  else
    ({ kcp with
      snd_queue := kcp.snd_queue ++ fragment kcp.mss.toNat (kcp.stream != 0) count buffer size }, 0)

theorem ikcpSend_eq (kcp : Ikcpcb) (buffer : List UInt8) (len : Int32) :
    Ikcp.ikcpSend kcp buffer len =
      if len < 0 then (kcp, -1)
      else if kcp.stream ≠ 0 then
        let appended := Ikcp.appendToPrevious kcp buffer len.toInt.toNat
        if appended.2.2 = 0 then (appended.1, 0)
        else sentRest appended.1 appended.2.1 appended.2.2
      else sentRest kcp buffer len.toInt.toNat := by
  have stream : (Ikcp.appendToPrevious kcp buffer len.toInt.toNat).1.stream = kcp.stream := by
    rw [Ikcp.appendToPrevious]
    split
    · rfl
    · split <;> rfl
  rw [Ikcp.ikcpSend]
  split
  · rfl
  · by_cases streaming : kcp.stream ≠ 0
    · rw [if_pos streaming, if_pos streaming]
      dsimp only
      rw [← stream] at streaming
      by_cases all : (Ikcp.appendToPrevious kcp buffer len.toInt.toNat).2.2 = 0
      · rw [if_pos ⟨streaming, all⟩, if_pos all]
      · rw [if_neg (fun both => all both.2), if_neg all]
        rfl
    · rw [if_neg streaming, if_neg streaming]
      dsimp only
      rw [if_neg (fun both => streaming both.1)]
      rfl

theorem sendRest_spec (represents : machine.Represents kcp) (buffer : List UInt8) (size : Nat) :
    ∃ after, machine.sendRest buffer size = some (after, (sentRest kcp buffer size).2) ∧
      after.Represents (sentRest kcp buffer size).1 := by
  rw [sendRest, sentRest, represents.field Ikcpcb.mss rfl]
  split
  · exact ⟨machine, rfl, represents⟩
  · obtain ⟨after, done, later⟩ :=
      fragmentLoop_spec (fragmentCount kcp.mss.toNat size) represents buffer size
    rw [done]
    exact ⟨after, rfl, later⟩

theorem ikcpSend_spec (represents : machine.Represents kcp) (buffer : List UInt8) (len : Int32) :
    ∃ after, machine.ikcpSend buffer len = some (after, (Ikcp.ikcpSend kcp buffer len).2) ∧
      after.Represents (Ikcp.ikcpSend kcp buffer len).1 := by
  rw [ikcpSend, ikcpSend_eq, represents.field Ikcpcb.stream rfl]
  split
  · exact ⟨machine, rfl, represents⟩
  · split
    · obtain ⟨middle, appended, represented⟩ :=
        appendToPrevious_spec represents buffer len.toInt.toNat
      rw [appended]
      dsimp only [Option.bind_eq_bind, Option.bind_some]
      split
      · exact ⟨middle, rfl, represented⟩
      · exact sendRest_spec represented _ _
    · exact sendRest_spec represents buffer len.toInt.toNat

end Sending

end FiberKcp.Ikcp.Machine
