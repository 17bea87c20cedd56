import FiberKcp.Memory.Transfer

namespace FiberKcp.Ikcp.Machine

open FiberKcp.Data Store

/-! `ikcp_input` in memory. -/

section Acknowledgements

variable {machine : Machine} {queues : Queue → Entries IkcpSeg} {kcp : Ikcpcb}

theorem ikcpShrinkBuf_spec (represents : machine.Represents kcp) :
    ∃ after, machine.ikcpShrinkBuf = some after ∧ after.Represents (Ikcp.ikcpShrinkBuf kcp) := by
  obtain ⟨queues, shows⟩ := represents
  have contents : (queues .sndBuf).map Prod.snd = kcp.snd_buf := shows.contents .sndBuf
  have next : machine.block.snd_nxt = kcp.snd_nxt := shows.field Ikcpcb.snd_nxt rfl
  have settled : ∀ una, { machine with block := { machine.block with snd_una := una } }.Represents
      { kcp with snd_una := una } := by
    intro una
    refine ⟨queues, shows.withBlock ?_ ?_⟩
    · funext queue
      cases queue <;> rfl
    · exact congrArg (fun block : Ikcpcb => { block with snd_una := una }) shows.block
  rw [Ikcp.ikcpShrinkBuf]
  split
  · rename_i seg rest isCons
    obtain ⟨entry, others, entries, isSeg, _⟩ := List.map_eq_cons_iff.mp (contents.trans isCons)
    have place : queues .sndBuf = [] ++ entry :: others := entries
    obtain ⟨read, _, _⟩ := at_entry shows.holds place
    refine ⟨_, ?_, settled seg.sn⟩
    simp [ikcpShrinkBuf, shows.holds.first, entries, read, isSeg]
  · rename_i isNil
    have entries : queues .sndBuf = [] := List.map_eq_nil_iff.mp (contents.trans isNil)
    refine ⟨_, ?_, settled kcp.snd_nxt⟩
    simp [ikcpShrinkBuf, shows.holds.first, entries, next]

theorem dropSent_spec (shows : machine.Shows queues [] kcp) {xs ys : Entries IkcpSeg}
    {entry : Nat × IkcpSeg} (place : queues .sndBuf = xs ++ entry :: ys) :
    ∃ after, machine.dropSent (.cell entry.1) = some after ∧
      after.Shows (Function.update queues .sndBuf (xs ++ ys)) []
        { kcp with snd_buf := xs.map Prod.snd ++ ys.map Prod.snd } := by
  obtain ⟨s1, deleted, loose⟩ := shows.holds.del place
  obtain ⟨s2, freed, fewer⟩ := loose.free
  refine ⟨{ machine with store := s2, nsnd_buf := machine.nsnd_buf - 1 }, ?_,
    fewer, shows.block, ?_, shows.nrcv_buf, ?_, shows.nsnd_que⟩
  · simp only [dropSent, deleted, segmentDelete, freed, onStore_some, Option.bind_eq_bind,
      Option.bind_some]
  · apply shows.contents_update
    rw [List.map_append]
    funext queue
    cases queue <;> rfl
  · have length : (kcp.queue .sndBuf).length = xs.length + ys.length + 1 := by
      rw [shows.contents_at place]
      simp [Nat.add_assoc]
    change machine.nsnd_buf - 1 = _
    rw [shows.nsnd_buf, length, ofNat_succ_sub, Ikcpcb.queue, List.length_append, List.length_map,
      List.length_map]

theorem parseAckLoop_spec (sn : UInt32) (shows : machine.Shows queues [] kcp) {fuel : Nat}
    {xs ys : Entries IkcpSeg} (place : queues .sndBuf = xs ++ ys) (enough : ys.length < fuel) :
    ∃ after, parseAckLoop sn machine fuel (rightOf (.head .sndBuf) (cells ys)) = some after ∧
      after.Represents
        { kcp with snd_buf := xs.map Prod.snd ++ removeAcked sn (ys.map Prod.snd) } := by
  have same : kcp.snd_buf = xs.map Prod.snd ++ ys.map Prod.snd := shows.contents_at place
  have whole : machine.Represents { kcp with snd_buf := xs.map Prod.snd ++ ys.map Prod.snd } := by
    rw [← same]
    exact ⟨queues, shows⟩
  induction fuel generalizing xs ys with
  | zero => contradiction
  | succ fuel ih =>
      cases ys with
      | nil => exact ⟨machine, rfl, whole⟩
      | cons entry rest =>
          obtain ⟨read, next, _⟩ := at_entry shows.holds place
          rw [cells_cons, rightOf_cons, parseAckLoop, if_neg (by simp)]
          simp only [read, next, Option.bind_eq_bind, Option.bind_some, List.map_cons, removeAcked]
          by_cases found : sn = entry.2.sn
          · obtain ⟨after, dropped, later⟩ := dropSent_spec shows place
            rw [if_pos found, if_pos found]
            exact ⟨after, dropped, _, later⟩
          · rw [if_neg found, if_neg found]
            split
            · exact ⟨machine, rfl, whole⟩
            · have later : queues .sndBuf = (xs ++ [entry]) ++ rest :=
                place.trans (List.append_cons xs entry rest)
              have split : (xs ++ [entry]).map Prod.snd = xs.map Prod.snd ++ [entry.2] :=
                List.map_append
              have onward := ih later (Nat.lt_of_succ_lt_succ enough)
              rw [split, List.append_assoc, List.append_assoc] at onward
              exact onward same whole

theorem ikcpParseAck_spec (represents : machine.Represents kcp) (sn : UInt32) :
    ∃ after, machine.ikcpParseAck sn = some after ∧ after.Represents (Ikcp.ikcpParseAck kcp sn) := by
  obtain ⟨queues, shows⟩ := represents
  have contents : (queues .sndBuf).map Prod.snd = kcp.snd_buf := shows.contents .sndBuf
  rw [ikcpParseAck, Ikcp.ikcpParseAck, shows.field Ikcpcb.snd_una rfl,
    shows.field Ikcpcb.snd_nxt rfl]
  split
  · exact ⟨machine, rfl, queues, shows⟩
  · obtain ⟨after, done, later⟩ := parseAckLoop_spec sn shows (List.nil_append _).symm
      (fuel_enough shows.holds .sndBuf)
    rw [shows.holds.first, ← contents]
    exact ⟨after, done, later⟩

theorem parseUnaLoop_spec (una : UInt32) {fuel : Nat} {left : List IkcpSeg}
    (shows : machine.Shows queues [] { kcp with snd_buf := left }) (enough : left.length < fuel) :
    ∃ after, parseUnaLoop una fuel machine
        (rightOf (.head .sndBuf) (cells (queues .sndBuf))) = some after ∧
      after.Represents { kcp with
        snd_buf := left.dropWhile fun seg => decide (itimediff una seg.sn > 0) } := by
  have contents : (queues .sndBuf).map Prod.snd = left := shows.contents .sndBuf
  induction left generalizing machine queues fuel with
  | nil =>
      obtain ⟨fuel, rfl⟩ := Nat.exists_eq_succ_of_ne_zero (Nat.ne_of_gt enough)
      rw [List.map_eq_nil_iff.mp contents]
      exact ⟨machine, rfl, queues, shows⟩
  | cons seg rest ih =>
      obtain ⟨fuel, rfl⟩ := Nat.exists_eq_succ_of_ne_zero (Nat.ne_of_gt (Nat.zero_lt_of_lt enough))
      obtain ⟨entry, others, entries, isSeg, isRest⟩ := List.map_eq_cons_iff.mp contents
      have place : queues .sndBuf = [] ++ entry :: others := entries
      obtain ⟨read, next, _⟩ := at_entry shows.holds place
      rw [entries, cells_cons, rightOf_cons, parseUnaLoop, if_neg (by simp)]
      simp only [read, next, isSeg, Option.bind_eq_bind, Option.bind_some]
      by_cases acked : itimediff una seg.sn > 0
      · obtain ⟨after, dropped, later⟩ := dropSent_spec shows place
        rw [if_pos acked, List.dropWhile_cons_of_pos (by simpa using acked), dropped,
          Option.bind_some]
        rw [List.map_nil, List.nil_append, isRest] at later
        have fewer : Function.update queues .sndBuf others .sndBuf = others :=
          Function.update_self _ _ _
        have onward := ih later (Nat.lt_of_succ_lt_succ enough) (fewer ▸ isRest)
        rw [fewer] at onward
        exact onward
      · rw [if_neg acked, List.dropWhile_cons_of_neg (by simpa using acked)]
        exact ⟨machine, rfl, queues, shows⟩

theorem ikcpParseUna_spec (represents : machine.Represents kcp) (una : UInt32) :
    ∃ after, machine.ikcpParseUna una = some after ∧
      after.Represents (Ikcp.ikcpParseUna kcp una) := by
  obtain ⟨queues, shows⟩ := represents
  have contents : (queues .sndBuf).map Prod.snd = kcp.snd_buf := shows.contents .sndBuf
  have enough : kcp.snd_buf.length < machine.fuel := by
    rw [← contents, List.length_map]
    exact fuel_enough shows.holds .sndBuf
  rw [ikcpParseUna, shows.holds.first]
  exact parseUnaLoop_spec una shows enough

theorem parseFastackLoop_spec (sn : UInt32) {fuel : Nat} (shows : machine.Shows queues [] kcp)
    {xs ys : Entries IkcpSeg} (place : queues .sndBuf = xs ++ ys) (enough : ys.length < fuel) :
    ∃ after, parseFastackLoop sn fuel machine (rightOf (.head .sndBuf) (cells ys)) = some after ∧
      after.Represents
        { kcp with snd_buf := xs.map Prod.snd ++ countFastack sn (ys.map Prod.snd) } := by
  induction fuel generalizing machine queues kcp xs ys with
  | zero => contradiction
  | succ fuel ih =>
      have same : kcp.snd_buf = xs.map Prod.snd ++ ys.map Prod.snd := shows.contents_at place
      have whole : machine.Represents
          { kcp with snd_buf := xs.map Prod.snd ++ ys.map Prod.snd } := by
        rw [← same]
        exact ⟨queues, shows⟩
      cases ys with
      | nil => exact ⟨machine, rfl, whole⟩
      | cons entry rest =>
          obtain ⟨read, next, _⟩ := at_entry shows.holds place
          rw [cells_cons, rightOf_cons, parseFastackLoop, if_neg (by simp)]
          simp only [read, next, Option.bind_eq_bind, Option.bind_some, List.map_cons, countFastack]
          split
          · exact ⟨machine, rfl, whole⟩
          · split
            · obtain ⟨store, written, noted⟩ :=
                shows.write place { entry.2 with fastack := entry.2.fastack + 1 }
              have later : Function.update queues .sndBuf
                  (xs ++ (entry.1, { entry.2 with fastack := entry.2.fastack + 1 }) :: rest) .sndBuf =
                    (xs ++ [(entry.1, { entry.2 with fastack := entry.2.fastack + 1 })]) ++ rest :=
                (Function.update_self _ _ _).trans (List.append_cons xs _ rest)
              obtain ⟨after, done, represents⟩ := ih noted later (Nat.lt_of_succ_lt_succ enough)
              refine ⟨after, ?_, ?_⟩
              · rw [written, onStore_some, Option.bind_some, done]
              · rw [List.map_append, List.append_assoc] at represents
                exact represents
            · have later : queues .sndBuf = (xs ++ [entry]) ++ rest :=
                place.trans (List.append_cons xs entry rest)
              obtain ⟨after, done, represents⟩ := ih shows later (Nat.lt_of_succ_lt_succ enough)
              refine ⟨after, done, ?_⟩
              rw [List.map_append, List.append_assoc] at represents
              exact represents

theorem ikcpParseFastack_spec (represents : machine.Represents kcp) (sn : UInt32) :
    ∃ after, machine.ikcpParseFastack sn = some after ∧
      after.Represents (Ikcp.ikcpParseFastack kcp sn) := by
  obtain ⟨queues, shows⟩ := represents
  have contents : (queues .sndBuf).map Prod.snd = kcp.snd_buf := shows.contents .sndBuf
  rw [ikcpParseFastack, Ikcp.ikcpParseFastack, shows.field Ikcpcb.snd_una rfl,
    shows.field Ikcpcb.snd_nxt rfl]
  split
  · exact ⟨machine, rfl, queues, shows⟩
  · obtain ⟨after, done, later⟩ := parseFastackLoop_spec sn shows (List.nil_append _).symm
      (fuel_enough shows.holds .sndBuf)
    rw [shows.holds.first, ← contents]
    exact ⟨after, done, later⟩

end Acknowledgements

section Arriving

variable {machine : Machine} {queues : Queue → Entries IkcpSeg} {loose : Entries IkcpSeg}
  {kcp : Ikcpcb}

/-- The walk ends at a repeat, or behind `us`, where the segment belongs. -/
theorem placeLoop_spec (newseg : IkcpSeg) (holds : machine.store.Holds queues loose) {fuel : Nat}
    {xs ys : Entries IkcpSeg} (place : queues .rcvBuf = xs ++ ys) (enough : xs.length < fuel) :
    (∃ p, machine.placeLoop newseg.sn fuel (leftOf (.head .rcvBuf) (cells xs)) = some (p, true) ∧
      insertFromBack newseg (xs.map Prod.snd).reverse = none) ∨
    ∃ us vs, xs = us ++ vs ∧ machine.placeLoop newseg.sn fuel (leftOf (.head .rcvBuf) (cells xs)) =
        some (leftOf (.head .rcvBuf) (cells us), false) ∧
      insertFromBack newseg (xs.map Prod.snd).reverse =
        some ((vs.map Prod.snd).reverse ++ newseg :: (us.map Prod.snd).reverse) := by
  induction fuel generalizing xs ys with
  | zero => contradiction
  | succ fuel ih =>
      rcases List.eq_nil_or_concat xs with empty | ⟨most, entry, ends⟩
      · right
        rw [empty]
        exact ⟨[], [], rfl, rfl, rfl⟩
      · rw [List.concat_eq_append] at ends
        have here : queues .rcvBuf = most ++ entry :: ys := by
          rw [place, ends, List.append_assoc]
          rfl
        obtain ⟨read, _, prev⟩ := at_entry holds here
        have back : (xs.map Prod.snd).reverse = entry.2 :: (most.map Prod.snd).reverse := by
          rw [ends]
          simp
        have left : leftOf (.head .rcvBuf) (cells xs) = (.cell entry.1 : Pointer) := by
          rw [ends, cells_append, cells_cons, cells_nil, leftOf_append]
        rw [left, back, placeLoop, if_neg (by simp), insertFromBack]
        simp only [read, prev, Option.bind_eq_bind, Option.bind_some]
        by_cases again : entry.2.sn = newseg.sn
        · left
          rw [if_pos again, if_pos again]
          exact ⟨_, rfl, rfl⟩
        · rw [if_neg again, if_neg again]
          by_cases behind : itimediff newseg.sn entry.2.sn > 0
          · right
            rw [if_pos behind, if_pos behind]
            refine ⟨xs, [], (List.append_nil xs).symm, ?_, ?_⟩
            · rw [left]
            · rw [back]
              rfl
          · rw [if_neg behind, if_neg behind]
            have short : most.length < fuel := by
              rw [ends, List.length_append] at enough
              exact Nat.lt_of_succ_lt_succ enough
            rcases ih here short with ⟨p, walked, found⟩ | ⟨us, vs, split, walked, inserted⟩
            · exact .inl ⟨p, walked, by rw [found]; rfl⟩
            · right
              refine ⟨us, vs ++ [entry], ?_, walked, ?_⟩
              · rw [ends, split, List.append_assoc]
              · rw [inserted]
                simp

/-- `ikcp_parse_data` owns the new segment: it is linked in or deleted. -/
theorem ikcpParseData_spec {address : Nat} {newseg : IkcpSeg}
    (shows : machine.Shows queues [(address, newseg)] kcp) :
    ∃ after, machine.ikcpParseData (.cell address) = some after ∧
      after.Represents (Ikcp.ikcpParseData kcp newseg) := by
  have read : machine.store.read (.cell address) = some newseg :=
    shows.holds.owns.content none (address, newseg) List.mem_cons_self
  have contents : (queues .rcvBuf).map Prod.snd = kcp.rcv_buf := shows.contents .rcvBuf
  obtain ⟨s1, freed, deleted⟩ := shows.holds.free
  have without : { machine with store := s1 }.Represents kcp :=
    ⟨queues, deleted, shows.block, shows.contents, shows.nrcv_buf, shows.nsnd_buf, shows.nsnd_que⟩
  have gone : machine.segmentDelete (.cell address) = some { machine with store := s1 } := by
    rw [segmentDelete, freed, onStore_some]
  have next : machine.block.rcv_nxt = kcp.rcv_nxt := shows.field Ikcpcb.rcv_nxt rfl
  have window : machine.block.rcv_wnd = kcp.rcv_wnd := shows.field Ikcpcb.rcv_wnd rfl
  rw [ikcpParseData, Ikcp.ikcpParseData]
  simp only [read, next, window, Option.map_some, Option.bind_eq_bind, Option.bind_some]
  split
  · exact ⟨_, gone, without⟩
  · rw [shows.holds.last, Option.bind_some, ← contents]
    rcases placeLoop_spec newseg shows.holds (List.append_nil _).symm
        (fuel_enough shows.holds .rcvBuf) with ⟨p, walked, found⟩ | ⟨us, vs, split, walked, inserted⟩
    · obtain ⟨after, moved, later⟩ := moveAvailable_represents kcp _ without
      simp only [walked, found, gone, Option.bind_some, if_true]
      rw [contents]
      exact ⟨after, moved, later⟩
    · obtain ⟨s2, cleared, still⟩ := shows.holds.init
      obtain ⟨s3, added, holds⟩ := still.add split
      have order : ((vs.map Prod.snd).reverse ++ newseg :: (us.map Prod.snd).reverse).reverse =
          us.map Prod.snd ++ newseg :: vs.map Prod.snd := by simp
      have enlarged : { machine with store := s3, nrcv_buf := machine.nrcv_buf + 1 }.Represents
          { kcp with rcv_buf := us.map Prod.snd ++ newseg :: vs.map Prod.snd } := by
        refine ⟨_, holds, shows.block, ?_, ?_, shows.nsnd_buf, shows.nsnd_que⟩
        · apply shows.contents_update
          rw [List.map_append]
          funext queue
          cases queue <;> rfl
        · have length : (kcp.queue .rcvBuf).length = us.length + vs.length := by
            rw [shows.contents_at split]
            simp
          change machine.nrcv_buf + 1 = _
          rw [shows.nrcv_buf, length, ← ofNat_succ, Ikcpcb.queue]
          simp [Nat.add_assoc]
      obtain ⟨after, moved, later⟩ := moveAvailable_represents kcp _ enlarged
      simp only [walked, inserted, cleared, added, order, onStore_some, Option.bind_some,
        Bool.false_eq_true, if_false]
      exact ⟨after, moved, later⟩

end Arriving

section Decoding

variable {machine : Machine} {kcp : Ikcpcb}

theorem Represents.updateAck (represents : machine.Represents kcp) (rtt : Int32) :
    { machine with block := ikcpUpdateAck machine.block rtt }.Represents
      (ikcpUpdateAck kcp rtt) :=
  represents.change (fun block => ikcpUpdateAck block rtt)
    (ikcpUpdateAck_sameTraffic kcp rtt).queue (ikcpUpdateAck_withoutQueues kcp rtt)

theorem Represents.ackPush (represents : machine.Represents kcp) (sn ts : UInt32) :
    { machine with block := ikcpAckPush machine.block sn ts }.Represents (ikcpAckPush kcp sn ts) := by
  apply represents.change fun block => ikcpAckPush block sn ts
  · funext queue
    cases queue <;> rfl
  · rfl

/-- What `ikcp_input` does first with every segment. -/
theorem receiveUna_spec (represents : machine.Represents kcp) (wnd una : UInt32) :
    ∃ parsed shrunk,
      { machine with block := { machine.block with rmt_wnd := wnd } }.ikcpParseUna una =
        some parsed ∧ parsed.ikcpShrinkBuf = some shrunk ∧
      shrunk.Represents
        (Ikcp.ikcpShrinkBuf (Ikcp.ikcpParseUna { kcp with rmt_wnd := wnd } una)) := by
  have noted : { machine with block := { machine.block with rmt_wnd := wnd } }.Represents
      { kcp with rmt_wnd := wnd } := by
    apply represents.change fun block => { block with rmt_wnd := wnd }
    · funext queue
      cases queue <;> rfl
    · rfl
  obtain ⟨parsed, done, later⟩ := ikcpParseUna_spec noted una
  obtain ⟨shrunk, doneToo, last⟩ := ikcpShrinkBuf_spec later
  exact ⟨parsed, shrunk, done, doneToo, last⟩

/-- An acknowledgement. -/
theorem receiveAck_spec (represents : machine.Represents kcp) (sn ts : UInt32) :
    ∃ parsed shrunk,
      (if itimediff machine.block.current ts ≥ 0 then
        { machine with block := ikcpUpdateAck machine.block (machine.block.current - ts).toInt32 }
      else machine).ikcpParseAck sn = some parsed ∧
      parsed.ikcpShrinkBuf = some shrunk ∧
      shrunk.Represents (Ikcp.ikcpShrinkBuf (Ikcp.ikcpParseAck
        (if itimediff kcp.current ts ≥ 0 then ikcpUpdateAck kcp (kcp.current - ts).toInt32 else kcp)
        sn)) := by
  have current : machine.block.current = kcp.current := represents.field Ikcpcb.current rfl
  have measured : (if itimediff machine.block.current ts ≥ 0 then
      { machine with block := ikcpUpdateAck machine.block (machine.block.current - ts).toInt32 }
      else machine).Represents
        (if itimediff kcp.current ts ≥ 0 then ikcpUpdateAck kcp (kcp.current - ts).toInt32
          else kcp) := by
    rw [current]
    split
    · exact represents.updateAck _
    · exact represents
  obtain ⟨parsed, done, later⟩ := ikcpParseAck_spec measured sn
  obtain ⟨shrunk, doneToo, last⟩ := ikcpShrinkBuf_spec later
  exact ⟨parsed, shrunk, done, doneToo, last⟩

theorem Represents.parseNew (represents : machine.Represents kcp) (seg : IkcpSeg) :
    ∃ after, (machine.segmentNew seg).1.ikcpParseData (machine.segmentNew seg).2 = some after ∧
      after.Represents (Ikcp.ikcpParseData kcp seg) := by
  obtain ⟨queues, shows⟩ := represents
  have allocated : (machine.segmentNew seg).1.Shows queues [(machine.store.brk, seg)] kcp :=
    ⟨shows.holds.alloc seg, shows.block, shows.contents, shows.nrcv_buf, shows.nsnd_buf,
      shows.nsnd_que⟩
  exact ikcpParseData_spec allocated

theorem applySegment_spec (represents : machine.Represents kcp) (scan : AckScan)
    (header : SegmentHeader) (payload : List UInt8) :
    ∃ after, machine.applySegment scan header payload =
        some (after, (Ikcp.applySegment kcp scan header payload).2) ∧
      after.Represents (Ikcp.applySegment kcp scan header payload).1 := by
  obtain ⟨parsed, shrunk, done, doneToo, settled⟩ :=
    receiveUna_spec represents header.wnd.toUInt32 header.una
  rw [applySegment, Ikcp.applySegment]
  dsimp only
  generalize Ikcp.ikcpShrinkBuf (Ikcp.ikcpParseUna _ header.una) = kcp at settled ⊢
  simp only [done, doneToo, Option.bind_eq_bind, Option.bind_some]
  split
  · obtain ⟨parsed, shrunk, acked, shrunkToo, last⟩ := receiveAck_spec settled header.sn header.ts
    simp only [acked, shrunkToo, Option.bind_some]
    exact ⟨shrunk, rfl, last⟩
  · split
    · have next : shrunk.block.rcv_nxt = kcp.rcv_nxt := settled.field Ikcpcb.rcv_nxt rfl
      have window : shrunk.block.rcv_wnd = kcp.rcv_wnd := settled.field Ikcpcb.rcv_wnd rfl
      rw [next, window]
      split
      · have noted := settled.ackPush header.sn header.ts
        have same : (ikcpAckPush shrunk.block header.sn header.ts).rcv_nxt =
            (ikcpAckPush kcp header.sn header.ts).rcv_nxt := noted.field Ikcpcb.rcv_nxt rfl
        rw [same]
        by_cases new : itimediff header.sn (ikcpAckPush kcp header.sn header.ts).rcv_nxt ≥ 0
        · rw [if_pos new, if_pos new]
          obtain ⟨after, placed, last⟩ := noted.parseNew {
            conv := header.conv, cmd := header.cmd.toUInt32, frg := header.frg.toUInt32
            wnd := header.wnd.toUInt32, ts := header.ts, sn := header.sn, una := header.una
            data := payload }
          rw [placed]
          exact ⟨after, rfl, last⟩
        · rw [if_neg new, if_neg new]
          exact ⟨_, rfl, noted⟩
      · exact ⟨shrunk, rfl, settled⟩
    · split
      · exact ⟨_, rfl, settled.tell⟩
      · exact ⟨shrunk, rfl, settled⟩

theorem inputLoop_spec (fuel : Nat) (represents : machine.Represents kcp) (scan : AckScan)
    (data : List UInt8) :
    ∃ after, inputLoop fuel machine scan data =
        some (after, (Ikcp.inputLoop fuel kcp scan data).2) ∧
      after.Represents (Ikcp.inputLoop fuel kcp scan data).1 := by
  induction fuel generalizing machine kcp scan data with
  | zero => exact ⟨machine, rfl, represents⟩
  | succ fuel ih =>
      rw [inputLoop, Ikcp.inputLoop, represents.field Ikcpcb.conv rfl]
      dsimp only
      split
      · exact ⟨machine, rfl, represents⟩
      · split
        · exact ⟨machine, rfl, represents⟩
        · split
          · exact ⟨machine, rfl, represents⟩
          · split
            · exact ⟨machine, rfl, represents⟩
            · obtain ⟨middle, applied, later⟩ := applySegment_spec represents scan (decodeHeader data)
                ((data.drop ikcpOverhead).take (decodeHeader data).len.toNat)
              rw [applied]
              exact ih later _ _

theorem Represents.growCwnd (represents : machine.Represents kcp) (prevUna : UInt32) :
    (machine.growCwnd prevUna).Represents
      (if itimediff kcp.snd_una prevUna > 0 then Ikcp.growCwnd kcp else kcp) := by
  rw [Machine.growCwnd, represents.field Ikcpcb.snd_una rfl]
  split
  · exact represents.change Ikcp.growCwnd (growCwnd_sameTraffic kcp).queue
      (growCwnd_withoutQueues kcp)
  · exact represents

theorem ikcpInput_spec (represents : machine.Represents kcp) (data : List UInt8) :
    ∃ after, machine.ikcpInput data = some (after, (Ikcp.ikcpInput kcp data).2) ∧
      after.Represents (Ikcp.ikcpInput kcp data).1 := by
  rw [ikcpInput, Ikcp.ikcpInput, represents.field Ikcpcb.snd_una rfl]
  dsimp only
  split
  · exact ⟨machine, rfl, represents⟩
  · obtain ⟨read, looped, later⟩ := inputLoop_spec data.length represents {} data
    rw [looped]
    generalize Ikcp.inputLoop data.length kcp {} data = result at later ⊢
    simp only [Option.bind_eq_bind, Option.bind_some]
    split
    · exact ⟨read, rfl, later⟩
    · split
      · obtain ⟨counted, done, last⟩ := ikcpParseFastack_spec later result.2.1.maxack
        rw [done]
        exact ⟨_, rfl, last.growCwnd kcp.snd_una⟩
      · exact ⟨_, rfl, later.growCwnd kcp.snd_una⟩

end Decoding

end FiberKcp.Ikcp.Machine
