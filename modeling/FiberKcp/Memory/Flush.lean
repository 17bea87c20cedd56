import FiberKcp.Memory.Input

namespace FiberKcp.Ikcp.Machine

open FiberKcp.Data Store

/-! `ikcp_flush`, `ikcp_update` and `ikcp_check` in memory. -/

section Moving

variable {machine : Machine} {queues : Queue → Entries IkcpSeg} {kcp : Ikcpcb}

/-- The first segment of `snd_queue` goes to the end of `snd_buf`. -/
theorem shift_spec {seg : IkcpSeg} {rest : List IkcpSeg}
    (shows : machine.Shows queues [] { kcp with snd_queue := seg :: rest }) :
    ∃ address others between moved, queues .sndQueue = (address, seg) :: others ∧
      machine.store.del (.cell address) = some between ∧
      between.addTail (.cell address) (.head .sndBuf) = some moved ∧
      { machine with
        store := moved
        nsnd_que := machine.nsnd_que - 1
        nsnd_buf := machine.nsnd_buf + 1 }.Shows
        (Function.update (Function.update queues .sndQueue others) .sndBuf
          (queues .sndBuf ++ [(address, seg)])) []
        { kcp with snd_queue := rest, snd_buf := kcp.snd_buf ++ [seg] } := by
  obtain ⟨⟨address, content⟩, others, entries, isSeg, isRest⟩ :=
    List.map_eq_cons_iff.mp (shows.contents .sndQueue)
  cases isSeg
  have place : queues .sndQueue = [] ++ (address, content) :: others := entries
  obtain ⟨between, deleted, loose⟩ := shows.holds.del place
  obtain ⟨moved, added, later⟩ := loose.addTail .sndBuf
  refine ⟨address, others, between, moved, entries, deleted, added, later, shows.block, ?_,
    shows.nrcv_buf, ?_, ?_⟩
  · have buffered : (queues .sndBuf).map Prod.snd = kcp.snd_buf := shows.contents .sndBuf
    intro queue
    cases queue with
    | sndQueue => exact isRest
    | rcvQueue => exact shows.contents .rcvQueue
    | sndBuf =>
        change (queues .sndBuf ++ [(address, content)]).map Prod.snd = kcp.snd_buf ++ [content]
        rw [List.map_append, buffered]
        rfl
    | rcvBuf => exact shows.contents .rcvBuf
  · change machine.nsnd_buf + 1 = UInt32.ofNat (kcp.snd_buf ++ [content]).length
    rw [shows.nsnd_buf, List.length_append, ← ofNat_succ]
    rfl
  · change machine.nsnd_que - 1 = UInt32.ofNat rest.length
    rw [shows.nsnd_que]
    exact ofNat_succ_sub rest.length

theorem moveToSndBuf_spec (cwnd wnd : UInt32) {fuel : Nat} {left : List IkcpSeg}
    (shows : machine.Shows queues [] { kcp with snd_queue := left }) (enough : left.length < fuel) :
    ∃ after, moveToSndBuf cwnd wnd fuel machine = some after ∧
      after.Represents (Ikcp.moveToSndBuf cwnd wnd left kcp) := by
  induction left generalizing machine queues kcp fuel with
  | nil =>
      obtain ⟨fuel, rfl⟩ := Nat.exists_eq_succ_of_ne_zero (Nat.ne_of_gt enough)
      have empty : queues .sndQueue = [] := List.map_eq_nil_iff.mp (shows.contents .sndQueue)
      refine ⟨machine, ?_, queues, shows⟩
      simp [moveToSndBuf, isEmpty_eq shows.holds, empty]
  | cons seg rest ih =>
      obtain ⟨fuel, rfl⟩ := Nat.exists_eq_succ_of_ne_zero (Nat.ne_of_gt (Nat.zero_lt_of_lt enough))
      have next : machine.block.snd_nxt = kcp.snd_nxt := shows.field Ikcpcb.snd_nxt rfl
      have una : machine.block.snd_una = kcp.snd_una := shows.field Ikcpcb.snd_una rfl
      rw [moveToSndBuf, Ikcp.moveToSndBuf, next, una]
      by_cases room : itimediff kcp.snd_nxt (kcp.snd_una + cwnd) < 0
      · obtain ⟨address, others, between, moved, entries, deleted, added, shifted⟩ :=
          shift_spec shows
        have place : Function.update (Function.update queues .sndQueue others) .sndBuf
            (queues .sndBuf ++ [(address, seg)]) .sndBuf = queues .sndBuf ++ (address, seg) :: [] :=
          Function.update_self _ _ _
        have first : machine.store.next (.head .sndQueue) = some (.cell address) :=
          shows.holds.first_cons entries
        obtain ⟨read, _, _⟩ := at_entry shifted.holds place
        obtain ⟨store, written, filled⟩ := shifted.write place { seg with
          conv := kcp.conv, cmd := ikcpCmdPush, wnd := wnd, ts := kcp.current
          sn := kcp.snd_nxt, una := kcp.rcv_nxt, resendts := kcp.current
          rto := kcp.rx_rto.toUInt32, fastack := 0, xmit := 0 }
        have buffered : (queues .sndBuf).map Prod.snd = kcp.snd_buf := shows.contents .sndBuf
        rw [if_pos room, if_pos room]
        simp only [isEmpty_eq shows.holds, entries, first, deleted, added, read, onStore_some,
          shows.block, Ikcpcb.withoutQueues, written, Option.bind_eq_bind, Option.bind_some,
          reduceCtorEq, decide_false, Bool.false_eq_true, if_false]
        refine ih (filled.withBlock ?_ ?_) (Nat.lt_of_succ_lt_succ enough)
        · rw [buffered]
          funext queue
          cases queue <;> rfl
        · rfl
      · rw [if_neg room, if_neg room]
        exact ⟨machine, rfl, queues, shows⟩

theorem flushLoop_spec (wnd : UInt32) {fuel : Nat} {xs ys : Entries IkcpSeg}
    (shows : machine.Shows queues [] { kcp with
      snd_buf := xs.map Prod.snd ++ ys.map Prod.snd })
    (place : queues .sndBuf = xs ++ ys) (enough : ys.length < fuel) (resend : Resend) :
    ∃ after, flushLoop wnd fuel machine (rightOf (.head .sndBuf) (cells ys)) resend =
        some (after, (flushSegments kcp wnd (ys.map Prod.snd) resend).2) ∧
      after.Represents { kcp with
        snd_buf := xs.map Prod.snd ++ (flushSegments kcp wnd (ys.map Prod.snd) resend).1 } := by
  induction fuel generalizing machine queues xs ys resend with
  | zero => contradiction
  | succ fuel ih =>
      cases ys with
      | nil => exact ⟨machine, rfl, queues, shows⟩
      | cons entry rest =>
          obtain ⟨read, _, _⟩ := at_entry shows.holds place
          have alike : flushSegment machine.block wnd entry.2 resend =
              flushSegment kcp wnd entry.2 resend := by
            rw [shows.block]
            rfl
          rw [cells_cons, rightOf_cons, flushLoop, if_neg (by simp), List.map_cons, flushSegments]
          simp only [read, alike, Option.bind_eq_bind, Option.bind_some]
          generalize flushSegment kcp wnd entry.2 resend = outcome
          obtain ⟨segment, counted⟩ := outcome
          obtain ⟨store, written, noted⟩ := shows.write place segment
          have later : Function.update queues .sndBuf (xs ++ (entry.1, segment) :: rest) .sndBuf =
              (xs ++ [(entry.1, segment)]) ++ rest :=
            (Function.update_self _ _ _).trans (List.append_cons xs _ rest)
          have here : Function.update queues .sndBuf (xs ++ (entry.1, segment) :: rest) .sndBuf =
              xs ++ (entry.1, segment) :: rest := Function.update_self _ _ _
          obtain ⟨_, next, _⟩ := at_entry noted.holds here
          have split : (xs ++ [(entry.1, segment)]).map Prod.snd = xs.map Prod.snd ++ [segment] :=
            List.map_append
          have onward := @ih _ _ (xs ++ [(entry.1, segment)]) rest
            (by rw [split, List.append_assoc]; exact noted) later (Nat.lt_of_succ_lt_succ enough)
            counted
          rw [split, List.append_assoc] at onward
          simp only [written, next, onStore_some, Option.bind_some]
          exact onward

end Moving

section Updating

variable {machine : Machine} {kcp : Ikcpcb}

/-- "Flush data segments" and "Update ssthresh", once the segments are moved. -/
theorem resendAll_spec (represents : machine.Represents kcp) (cwnd wnd : UInt32)
    (packer : Packer) :
    let sent := flushSegments kcp wnd kcp.snd_buf
      { packer := packer, xmit := kcp.xmit, state := kcp.state }
    ∃ p after, machine.store.next (.head .sndBuf) = some p ∧
      flushLoop wnd machine.fuel machine p
        { packer := packer, xmit := machine.block.xmit, state := machine.block.state } =
        some (after, sent.2) ∧
      { after with
        block := updateSsthresh
          { after.block with xmit := sent.2.xmit, state := sent.2.state } cwnd sent.2 }.Represents
        (updateSsthresh
          { kcp with snd_buf := sent.1, xmit := sent.2.xmit, state := sent.2.state } cwnd sent.2) := by
  intro sent
  obtain ⟨queues, shows⟩ := represents
  have contents : (queues .sndBuf).map Prod.snd = kcp.snd_buf := shows.contents .sndBuf
  obtain ⟨after, done, later⟩ := @flushLoop_spec _ queues kcp wnd _ [] (queues .sndBuf)
    (by rw [contents]; exact shows) (List.nil_append _).symm (fuel_enough shows.holds .sndBuf)
    { packer := packer, xmit := machine.block.xmit, state := machine.block.state }
  rw [contents, shows.field Ikcpcb.xmit rfl, shows.field Ikcpcb.state rfl] at done later
  refine ⟨_, after, shows.holds.first _, ?_, ?_⟩
  · rw [shows.field Ikcpcb.xmit rfl, shows.field Ikcpcb.state rfl]
    exact done
  · exact later.change (fun kcp => updateSsthresh
      { kcp with xmit := sent.2.xmit, state := sent.2.state } cwnd sent.2)
      (updateSsthresh_sameTraffic _ cwnd sent.2).queue
      (updateSsthresh_withoutQueues
        { kcp with snd_buf := sent.1, xmit := sent.2.xmit, state := sent.2.state } cwnd sent.2)

theorem ikcpFlush_spec (represents : machine.Represents kcp) :
    ∃ after, machine.ikcpFlush = some (after, (Ikcp.ikcpFlush kcp).2) ∧
      after.Represents (Ikcp.ikcpFlush kcp).1 := by
  have block : machine.block = kcp.withoutQueues := represents.elim fun _ shows => shows.block
  rw [ikcpFlush, Ikcp.ikcpFlush, represents.field Ikcpcb.updated rfl]
  by_cases idle : kcp.updated = 0
  · rw [if_pos idle, if_pos idle]
    exact ⟨machine, rfl, represents⟩
  · rw [if_neg idle, if_neg idle]
    obtain ⟨queues, shows⟩ := represents.change
      (fun kcp => { scheduleProbe { kcp with acklist := [] } with probe := 0 })
      (scheduleProbe_sameTraffic { kcp with acklist := [] }).queue
      (congrArg (fun kcp : Ikcpcb => { kcp with probe := 0 })
        (scheduleProbe_withoutQueues { kcp with acklist := [] }))
    have scheduled : scheduleProbe { machine.block with acklist := [] } =
        (scheduleProbe { kcp with acklist := [] }).withoutQueues := by
      rw [block]
      exact scheduleProbe_withoutQueues { kcp with acklist := [] }
    generalize scheduleProbe { machine.block with acklist := [] } = probed at *
    generalize scheduleProbe { kcp with acklist := [] } = probing at *
    subst scheduled
    have packed : flushProbes probing.withoutQueues machine.block (flushAcks machine.block {}) =
        flushProbes probing kcp (flushAcks kcp {}) := by
      rw [block]
      rfl
    have enough : probing.snd_queue.length < machine.fuel := by
      have contents : (queues .sndQueue).map Prod.snd = probing.snd_queue := shows.contents .sndQueue
      rw [← contents, List.length_map]
      exact fuel_enough shows.holds .sndQueue
    simp only [packed]
    generalize flushProbes probing kcp (flushAcks kcp {}) = packer
    obtain ⟨moved, done, relocated⟩ := @moveToSndBuf_spec _ queues { probing with probe := 0 }
      (if probing.nocwnd = 0 then imin probing.cwnd (imin probing.snd_wnd probing.rmt_wnd)
        else imin probing.snd_wnd probing.rmt_wnd)
      (ikcpWndUnused probing) machine.fuel probing.snd_queue shows enough
    obtain ⟨p, after, first, sent, last⟩ := resendAll_spec relocated
      (if probing.nocwnd = 0 then imin probing.cwnd (imin probing.snd_wnd probing.rmt_wnd)
        else imin probing.snd_wnd probing.rmt_wnd)
      (ikcpWndUnused probing) packer
    refine ⟨_, ?_, last⟩
    exact Option.bind_eq_some_iff.mpr ⟨moved, done, Option.bind_eq_some_iff.mpr ⟨p, first,
      Option.bind_eq_some_iff.mpr ⟨_, sent, rfl⟩⟩⟩

theorem ikcpUpdate_spec (represents : machine.Represents kcp) (now : UInt32) :
    ∃ after, machine.ikcpUpdate now = some (after, (Ikcp.ikcpUpdate kcp now).2) ∧
      after.Represents (Ikcp.ikcpUpdate kcp now).1 := by
  obtain ⟨queues, shows⟩ := represents
  unfold ikcpUpdate Ikcp.ikcpUpdate
  rw [shows.block]
  extract_lets _ timed started slap late rebased gap ts_flush timedToo startedToo slapToo lateToo
    rebasedToo gapToo ts_flushToo
  have sameStarted : started = startedToo.withoutQueues := withoutQueues_ite Iff.rfl rfl rfl
  have sameSlap : slap = slapToo := by
    change itimediff started.current started.ts_flush = slapToo
    rw [sameStarted]
    rfl
  have sameRebased : rebased = rebasedToo.withoutQueues := by
    refine withoutQueues_ite ?_ ?_ sameStarted
    · change (slap ≥ 10000 ∨ slap < -10000) ↔ (slapToo ≥ 10000 ∨ slapToo < -10000)
      rw [sameSlap]
    · rw [sameStarted]
      rfl
  have sameGap : gap = gapToo := by
    change (if slap ≥ 10000 ∨ slap < -10000 then (0 : Int) else slap) = gapToo
    rw [sameSlap]
  have startedTraffic : SameTraffic kcp startedToo :=
    .ite (.clock kcp now 1 now) (.clock kcp now kcp.updated kcp.ts_flush)
  have traffic : SameTraffic kcp rebasedToo :=
    .ite (startedTraffic.trans (.clock startedToo _ _ _)) startedTraffic
  clear_value rebased rebasedToo gap gapToo
  subst sameGap sameRebased
  by_cases due : gap ≥ 0
  · rw [if_pos due, if_pos due]
    exact ikcpFlush_spec ⟨queues, shows.withBlock
      (traffic.trans (.clock rebasedToo _ _ _)).queue rfl⟩
  · rw [if_neg due, if_neg due]
    exact ⟨_, rfl, queues, shows.withBlock traffic.queue rfl⟩

theorem checkLoop_spec {queues : Queue → Entries IkcpSeg} (holds : machine.store.Holds queues [])
    (current : UInt32) {fuel : Nat} {xs ys : Entries IkcpSeg} (place : queues .sndBuf = xs ++ ys)
    (enough : ys.length < fuel) (tm_packet : Int) :
    machine.checkLoop current fuel (rightOf (.head .sndBuf) (cells ys)) tm_packet =
      some (nearestResend current (ys.map Prod.snd) tm_packet) := by
  induction fuel generalizing xs ys tm_packet with
  | zero => contradiction
  | succ fuel ih =>
      cases ys with
      | nil => rfl
      | cons entry rest =>
          obtain ⟨read, next, _⟩ := at_entry holds place
          have later : queues .sndBuf = (xs ++ [entry]) ++ rest :=
            place.trans (List.append_cons xs entry rest)
          have onward := ih later (Nat.lt_of_succ_lt_succ enough)
          rw [cells_cons, rightOf_cons, checkLoop, if_neg (by simp), List.map_cons, nearestResend]
          simp only [read, next, onward, Option.bind_eq_bind, Option.bind_some]
          split <;> rfl

theorem ikcpCheck_spec (represents : machine.Represents kcp) (current : UInt32) :
    machine.ikcpCheck current = some (Ikcp.ikcpCheck kcp current) := by
  have updated : machine.block.updated = kcp.updated := represents.field Ikcpcb.updated rfl
  have flush : machine.block.ts_flush = kcp.ts_flush := represents.field Ikcpcb.ts_flush rfl
  have interval : machine.block.interval = kcp.interval := represents.field Ikcpcb.interval rfl
  obtain ⟨queues, shows⟩ := represents
  have contents : (queues .sndBuf).map Prod.snd = kcp.snd_buf := shows.contents .sndBuf
  have nearest := checkLoop_spec shows.holds current (List.nil_append _).symm
    (fuel_enough shows.holds .sndBuf) 0x7fffffff
  rw [contents] at nearest
  rw [ikcpCheck, Ikcp.ikcpCheck]
  simp only [updated, flush, interval, shows.holds.first, nearest, Option.bind_eq_bind,
    Option.bind_some]
  generalize (if itimediff current kcp.ts_flush ≥ 10000 ∨ itimediff current kcp.ts_flush < -10000
    then current else kcp.ts_flush) = ts_flush
  by_cases idle : kcp.updated = 0
  · rw [if_pos idle, if_pos idle]
  · rw [if_neg idle, if_neg idle]
    by_cases due : itimediff current ts_flush ≥ 0
    · rw [if_pos due, if_pos due]
    · rw [if_neg due, if_neg due]
      cases nearestResend current kcp.snd_buf 0x7fffffff <;> rfl

end Updating

end FiberKcp.Ikcp.Machine
