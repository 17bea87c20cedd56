import FiberKcp.Data.Queues
import FiberKcp.Ikcp.Sides
import FiberKcp.Memory.Machine

namespace FiberKcp.Ikcp

open FiberKcp.Data

/-! When the memory holds a control block of lists, and the steps every function
is made of. -/

def Ikcpcb.queue (kcp : Ikcpcb) : Queue → List IkcpSeg
  | .sndQueue => kcp.snd_queue
  | .rcvQueue => kcp.rcv_queue
  | .sndBuf => kcp.snd_buf
  | .rcvBuf => kcp.rcv_buf

def Ikcpcb.withoutQueues (kcp : Ikcpcb) : Ikcpcb :=
  { kcp with snd_queue := [], rcv_queue := [], snd_buf := [], rcv_buf := [] }

theorem withoutQueues_ite {condition other : Prop} [Decidable condition] [Decidable other]
    {left right leftToo rightToo : Ikcpcb} (same : other ↔ condition)
    (onLeft : leftToo = left.withoutQueues) (onRight : rightToo = right.withoutQueues) :
    (if other then leftToo else rightToo) = (if condition then left else right).withoutQueues := by
  by_cases holds : condition
  · rw [if_pos holds, if_pos (same.mpr holds), onLeft]
  · rw [if_neg holds, if_neg fun too => holds (same.mp too), onRight]

theorem SameTraffic.queue {before after : Ikcpcb} (same : SameTraffic before after) :
    after.queue = before.queue := by
  funext queue
  cases queue with
  | sndQueue => exact congrArg SendSide.snd_queue same.sendSide
  | rcvQueue => exact congrArg RecvSide.rcv_queue same.recvSide
  | sndBuf => exact congrArg SendSide.snd_buf same.sendSide
  | rcvBuf => exact congrArg RecvSide.rcv_buf same.recvSide

theorem ikcpUpdateAck_withoutQueues (kcp : Ikcpcb) (rtt : Int32) :
    ikcpUpdateAck kcp.withoutQueues rtt = (ikcpUpdateAck kcp rtt).withoutQueues := by
  rw [ikcpUpdateAck, ikcpUpdateAck]
  by_cases first : kcp.rx_srtt = 0
  · have firstToo : kcp.withoutQueues.rx_srtt = 0 := first
    rw [if_pos first, if_pos firstToo]
    rfl
  · have firstToo : kcp.withoutQueues.rx_srtt ≠ 0 := first
    rw [if_neg first, if_neg firstToo]
    rfl

theorem growCwnd_withoutQueues (kcp : Ikcpcb) :
    growCwnd kcp.withoutQueues = (growCwnd kcp).withoutQueues := by
  rw [growCwnd, growCwnd]
  refine withoutQueues_ite Iff.rfl ?_ rfl
  extract_lets mss incr advanced grown mssToo incrToo advancedToo grownToo
  have same : grown = grownToo.withoutQueues := withoutQueues_ite Iff.rfl rfl rfl
  rw [same]
  exact withoutQueues_ite Iff.rfl rfl rfl

theorem scheduleProbe_withoutQueues (kcp : Ikcpcb) :
    scheduleProbe kcp.withoutQueues = (scheduleProbe kcp).withoutQueues := by
  rw [scheduleProbe, scheduleProbe]
  exact withoutQueues_ite Iff.rfl
    (withoutQueues_ite Iff.rfl rfl (withoutQueues_ite Iff.rfl rfl rfl)) rfl

theorem updateSsthresh_withoutQueues (kcp : Ikcpcb) (cwnd : UInt32) (resend : Resend) :
    updateSsthresh kcp.withoutQueues cwnd resend =
      (updateSsthresh kcp cwnd resend).withoutQueues := by
  unfold updateSsthresh
  extract_lets resent half ssthresh changed halved lost _ _ _ changedToo lostToo
  have sameChanged : changed = changedToo.withoutQueues := withoutQueues_ite Iff.rfl rfl rfl
  have sameLost : lost = lostToo.withoutQueues :=
    withoutQueues_ite Iff.rfl (by rw [sameChanged]; rfl) sameChanged
  rw [sameLost]
  exact withoutQueues_ite Iff.rfl rfl rfl

namespace Machine

/-- The queues are in the memory at the addresses given, nothing is allocated
beside them but `loose`, and the counters count. -/
structure Shows (machine : Machine) (queues : Queue → Entries IkcpSeg)
    (loose : Entries IkcpSeg) (kcp : Ikcpcb) : Prop where
  holds : machine.store.Holds queues loose
  block : machine.block = kcp.withoutQueues
  contents : ∀ queue, (queues queue).map Prod.snd = kcp.queue queue
  nrcv_buf : machine.nrcv_buf = UInt32.ofNat (kcp.queue .rcvBuf).length
  nsnd_buf : machine.nsnd_buf = UInt32.ofNat (kcp.queue .sndBuf).length
  nsnd_que : machine.nsnd_que = UInt32.ofNat (kcp.queue .sndQueue).length

/-- No segment is allocated but those in the queues. -/
def Represents (machine : Machine) (kcp : Ikcpcb) : Prop :=
  ∃ queues, machine.Shows queues [] kcp

/-- What the counters do when a segment comes or goes. -/
theorem ofNat_succ (count : Nat) : UInt32.ofNat (count + 1) = UInt32.ofNat count + 1 := by
  simp

theorem ofNat_succ_sub (count : Nat) : UInt32.ofNat (count + 1) - 1 = UInt32.ofNat count := by
  simp

/-- A field of the control block that is not a queue. -/
theorem Shows.field {machine : Machine} {queues : Queue → Entries IkcpSeg}
    {loose : Entries IkcpSeg} {kcp : Ikcpcb} (shows : machine.Shows queues loose kcp)
    {Part : Type} (part : Ikcpcb → Part) (kept : part kcp.withoutQueues = part kcp) :
    part machine.block = part kcp := by
  rw [shows.block, kept]

theorem Represents.field {machine : Machine} {kcp : Ikcpcb} (represents : machine.Represents kcp)
    {Part : Type} (part : Ikcpcb → Part) (kept : part kcp.withoutQueues = part kcp) :
    part machine.block = part kcp := by
  obtain ⟨queues, shows⟩ := represents
  exact shows.field part kept

section Steps

variable {machine : Machine} {queues : Queue → Entries IkcpSeg} {loose : Entries IkcpSeg}
  {kcp later : Ikcpcb} {queue : Queue} {xs ys : Entries IkcpSeg} {entry : Nat × IkcpSeg}

@[simp] theorem onStore_some (store : Store Queue IkcpSeg) :
    machine.onStore (some store) = some { machine with store } := rfl

theorem isEmpty_eq (holds : machine.store.Holds queues loose) (queue : Queue) :
    machine.isEmpty queue = some (decide (queues queue = [])) := by
  rw [isEmpty, holds.first]
  cases queues queue with
  | nil => simp
  | cons entry rest => simp

theorem fuel_enough (holds : machine.store.Holds queues loose) (queue : Queue) :
    (queues queue).length < machine.fuel :=
  Nat.lt_succ_of_le (holds.length_le queue)

/-- The neighbours of the node that a walk is at. -/
theorem at_entry (holds : machine.store.Holds queues loose)
    (place : queues queue = xs ++ entry :: ys) :
    machine.store.read (.cell entry.1) = some entry.2 ∧
      machine.store.next (.cell entry.1) = some (Store.rightOf (.head queue) (cells ys)) ∧
      machine.store.prev (.cell entry.1) = some (Store.leftOf (.head queue) (cells xs)) :=
  ⟨holds.read place, (holds.between place).2.1, (holds.between place).1.2⟩

theorem Shows.contents_at (shows : machine.Shows queues loose kcp)
    (place : queues queue = xs ++ ys) :
    kcp.queue queue = xs.map Prod.snd ++ ys.map Prod.snd := by
  rw [← shows.contents, place, List.map_append]

/-- A change to one queue. -/
theorem Shows.contents_update (shows : machine.Shows queues loose kcp)
    {entries : Entries IkcpSeg}
    (changed : later.queue = Function.update kcp.queue queue (entries.map Prod.snd)) (other : Queue) :
    (Function.update queues queue entries other).map Prod.snd = later.queue other := by
  rw [changed]
  by_cases same : other = queue
  · rw [same, Function.update_self, Function.update_self]
  · rw [Function.update_of_ne same, Function.update_of_ne same]
    exact shows.contents other

/-- A change beside the queues. -/
theorem Shows.withBlock (shows : machine.Shows queues loose kcp) {block : Ikcpcb}
    (same : later.queue = kcp.queue) (changed : block = later.withoutQueues) :
    { machine with block }.Shows queues loose later where
  holds := shows.holds
  block := changed
  contents other := by
    rw [same]
    exact shows.contents other
  nrcv_buf := by
    rw [same]
    exact shows.nrcv_buf
  nsnd_buf := by
    rw [same]
    exact shows.nsnd_buf
  nsnd_que := by
    rw [same]
    exact shows.nsnd_que

/-- A segment of `snd_buf` is changed where it is. -/
theorem Shows.write (shows : machine.Shows queues loose kcp)
    (place : queues .sndBuf = xs ++ entry :: ys) (seg : IkcpSeg) :
    ∃ store, machine.store.write (.cell entry.1) seg = some store ∧
      { machine with store }.Shows (Function.update queues .sndBuf (xs ++ (entry.1, seg) :: ys)) loose
        { kcp with snd_buf := xs.map Prod.snd ++ seg :: ys.map Prod.snd } := by
  obtain ⟨store, written, holds⟩ := shows.holds.write place seg
  refine ⟨store, written, holds, shows.block, ?_, shows.nrcv_buf, ?_, shows.nsnd_que⟩
  · apply shows.contents_update
    rw [List.map_append]
    funext queue
    cases queue <;> rfl
  · have length : (kcp.queue .sndBuf).length = xs.length + (ys.length + 1) := by
      rw [shows.contents_at place]
      simp
    change machine.nsnd_buf = _
    rw [shows.nsnd_buf, length, Ikcpcb.queue]
    simp

end Steps

/-- A step beside the queues that does the same with them as without. -/
theorem Represents.change {machine : Machine} {kcp : Ikcpcb} (represents : machine.Represents kcp)
    (change : Ikcpcb → Ikcpcb) (queues : (change kcp).queue = kcp.queue)
    (alike : change kcp.withoutQueues = (change kcp).withoutQueues) :
    { machine with block := change machine.block }.Represents (change kcp) := by
  obtain ⟨addresses, shows⟩ := represents
  refine ⟨addresses, shows.withBlock queues ?_⟩
  rw [shows.block, alike]

theorem heads_holds : ∃ store, ((((heads.init (.head .sndQueue)).bind (·.init (.head .rcvQueue))).bind
    (·.init (.head .sndBuf))).bind (·.init (.head .rcvBuf))) = some store ∧
      store.Holds (fun _ => []) [] := by
  have mapped : ∀ queue, heads.Mapped (.head queue) := fun _ => rfl
  obtain ⟨s1, one, same1, next1, prev1⟩ := Store.init_spec (mapped .sndQueue)
  obtain ⟨s2, two, same2, next2, prev2⟩ := Store.init_spec ((same1.mapped _).mpr (mapped .rcvQueue))
  have same12 := same1.trans same2
  obtain ⟨s3, three, same3, next3, prev3⟩ :=
    Store.init_spec ((same12.mapped _).mpr (mapped .sndBuf))
  have same123 := same12.trans same3
  obtain ⟨s4, four, same4, next4, prev4⟩ :=
    Store.init_spec ((same123.mapped _).mpr (mapped .rcvBuf))
  have same := same123.trans same4
  refine ⟨s4, ?_, fun queue => ?_, ?_⟩
  · rw [one, Option.bind_some, two, Option.bind_some, three, Option.bind_some, four]
  · have next : s4.next (.head queue) = some (.head queue) := by
      rw [next4, next3, next2, next1]
      cases queue <;> rfl
    have prev : s4.prev (.head queue) = some (.head queue) := by
      rw [prev4, prev3, prev2, prev1]
      cases queue <;> rfl
    exact List.isChain_cons_cons.mpr ⟨⟨next, prev⟩, .singleton _⟩
  · have empty : ∀ index, together (fun _ : Queue => []) [] index = ([] : Entries IkcpSeg) := by
      intro index
      cases index <;> rfl
    have none : ∀ address, ¬ s4.Mapped (.cell address) := by
      intro address isMapped
      have before := (same.mapped _).mp isMapped
      contradiction
    constructor
    · intro index entry member
      rw [empty] at member
      contradiction
    · intro index
      rw [empty]
      exact List.nodup_nil
    · intro index other entry member
      rw [empty] at member
      contradiction
    · exact fun address isMapped => absurd isMapped (none address)
    · exact fun address isMapped => absurd isMapped (none address)

theorem ikcpCreate_represents (conv : UInt32) :
    ∃ machine, ikcpCreate conv = some machine ∧ machine.Represents (Ikcp.ikcpCreate conv) := by
  obtain ⟨store, built, holds⟩ := heads_holds
  refine ⟨{ block := Ikcp.ikcpCreate conv, nrcv_buf := 0, nsnd_buf := 0, nsnd_que := 0, store },
    ?_, fun _ => [], holds, rfl, fun queue => ?_, rfl, rfl, rfl⟩
  · simp only [Option.bind_eq_some_iff] at built
    obtain ⟨s3, ⟨s2, ⟨s1, one, two⟩, three⟩, four⟩ := built
    simp only [ikcpCreate, one, two, three, four, Option.bind_eq_bind, Option.bind_some]
  · cases queue <;> rfl

theorem releaseQueue_spec (queue : Queue) {fuel : Nat} {machine : Machine}
    {queues : Queue → Entries IkcpSeg} (holds : machine.store.Holds queues [])
    (enough : (queues queue).length < fuel) :
    ∃ store, releaseQueue queue fuel machine = some { machine with store } ∧
      store.Holds (Function.update queues queue []) [] := by
  induction fuel generalizing machine queues with
  | zero => contradiction
  | succ fuel ih =>
      cases entries : queues queue with
      | nil =>
          refine ⟨machine.store, ?_, ?_⟩
          · simp [releaseQueue, isEmpty_eq holds, entries]
          · rw [Function.update_eq_self_iff.mpr entries.symm]
            exact holds
      | cons entry rest =>
          have place : queues queue = [] ++ entry :: rest := entries
          obtain ⟨s1, deleted, loose⟩ := holds.del place
          obtain ⟨s2, freed, fewer⟩ := loose.free
          have first : machine.store.next (.head queue) = some (.cell entry.1) :=
            holds.first_cons entries
          have shorter : (Function.update queues queue ([] ++ rest) queue).length < fuel := by
            rw [Function.update_self, List.nil_append]
            rw [entries, List.length_cons] at enough
            omega
          obtain ⟨store, done, empty⟩ := @ih { machine with store := s2 } _ fewer shorter
          refine ⟨store, ?_, ?_⟩
          · simp only [releaseQueue, isEmpty_eq holds, entries, first, deleted, segmentDelete, freed,
              onStore_some, Option.bind_eq_bind, Option.bind_some, reduceCtorEq, decide_false,
              Bool.false_eq_true, if_false]
            exact done
          · rw [Function.update_idem] at empty
            exact empty

theorem ikcpRelease_spec {machine : Machine} {kcp : Ikcpcb} (represents : machine.Represents kcp) :
    ∃ after, machine.ikcpRelease = some after ∧
      ∀ address, ¬ after.store.Mapped (.cell address) := by
  obtain ⟨queues, shows⟩ := represents
  obtain ⟨s1, one, holds1⟩ := releaseQueue_spec .sndBuf shows.holds (fuel_enough shows.holds _)
  obtain ⟨s2, two, holds2⟩ := @releaseQueue_spec .rcvBuf _ { machine with store := s1 } _ holds1
    (@fuel_enough { machine with store := s1 } _ _ holds1 _)
  obtain ⟨s3, three, holds3⟩ := @releaseQueue_spec .sndQueue _ { machine with store := s2 } _ holds2
    (@fuel_enough { machine with store := s2 } _ _ holds2 _)
  obtain ⟨s4, four, holds4⟩ := @releaseQueue_spec .rcvQueue _ { machine with store := s3 } _ holds3
    (@fuel_enough { machine with store := s3 } _ _ holds3 _)
  refine ⟨{ machine with
    block := { machine.block with nrcv_que := 0, acklist := [] }
    nrcv_buf := 0, nsnd_buf := 0, nsnd_que := 0, store := s4 }, ?_, ?_⟩
  · simp only [ikcpRelease, one, two, three, four, Option.bind_eq_bind, Option.bind_some]
  · intro address mapped
    obtain ⟨index, member⟩ := holds4.owns.owned address mapped
    cases index with
    | none => contradiction
    | some queue => cases queue <;> contradiction

end Machine

end FiberKcp.Ikcp
