import FiberKcp.Timer.Insertion

namespace FiberKcp.Timer

open FiberKcp.Data

namespace KTimerManager

variable {Action : Type} {manager : KTimerManager Action} {id : Nat}

/-- Runs of `addTimer` with a non-null callback, `delTimer` and
`listExpiredTimer` in which no deadline overflows 64 bits. -/
def Scheduling (manager : KTimerManager Action) : TimerOperation Action → Prop
  | .addTimer now ms cb _ _ => cb.isSome ∧ now.toNat + ms.toNat < 2 ^ 64
  | .delTimer _ => True
  | .listExpiredTimer now => ∀ id ∈ manager.mTimers, manager.due now id = true →
      (manager.timer id).mTime.toNat + (manager.timer id).mRecycleTime.toNat < 2 ^ 64
  | _ => False

instance (manager : KTimerManager Action) (operation : TimerOperation Action) :
    Decidable (manager.Scheduling operation) :=
  match operation with
  | .addTimer .. => inferInstanceAs (Decidable (_ ∧ _))
  | .delTimer _ => inferInstanceAs (Decidable True)
  | .listExpiredTimer _ => inferInstanceAs (Decidable (∀ id ∈ manager.mTimers, _ → _ < _))
  | .addConditionTimer .. | .getNearTimeout _ | .cancel _ | .setNextTime .. | .setRecycleTime ..
  | .setCallback .. | .reset .. => inferInstanceAs (Decidable False)

/-- The timers whose callback an operation hands back, in the order of `cbs`. -/
def returned (manager : KTimerManager Action) : TimerOperation Action → List Nat
  | .listExpiredTimer now =>
      (manager.mTimers.takeWhile (manager.due now)).filter fun id => (manager.timer id).mCb.isSome
  | _ => []

/-- Their callbacks are what a call hands back, wherever it puts periodic timers. -/
theorem Expires.handed_returned {after : KTimerManager Action} {now : UInt64}
    {cbs : List (CallBack Action × UInt32)} (expires : Expires manager now after cbs) :
    cbs = (manager.returned (.listExpiredTimer now)).filterMap
      fun id => returnedCallback (manager.timer id) := by
  rw [expires.handed, KTimerManager.returned]
  refine (List.filterMap_filter.trans (List.filterMap_congr fun id _ => ?_)).symm
  cases callback : (manager.timer id).mCb <;> simp [returnedCallback, callback]

theorem listExpiredTimer_returned (issued : manager.Issued) (now : UInt64) :
    (manager.listExpiredTimer now).2 = (manager.returned (.listExpiredTimer now)).filterMap
      fun id => returnedCallback (manager.timer id) :=
  (issued.listExpiredTimer now).handed_returned

theorem mem_returned_iff {now : UInt64} : id ∈ manager.returned (.listExpiredTimer now) ↔
    manager.Reached id now ∧ (manager.timer id).mCb.isSome := List.mem_filter

def timesReturned (id : Nat)
    (taken : List (KTimerManager Action × TimerOperation Action × KTimerManager Action)) : Nat :=
  taken.countP fun step => decide (id ∈ step.1.returned step.2.1)

/-- Where a timer stands after some operations: `times` says how often it has
been returned, `deleted` whether `delTimer` has been called with its id. -/
structure OnSchedule (manager : KTimerManager Action) (id : Nat) (deadline : Nat)
    (cb : CallBack Action) (recycle tid : UInt32) (times : Nat) (deleted : Prop) : Prop where
  present : id ∈ manager.mTimers ↔ ¬ deleted ∧ (recycle = 0 → times = 0)
  object : id ∈ manager.mTimers →
    manager.timer id = ⟨tid, (manager.timer id).mTime, recycle.toUInt64, some cb, id⟩ ∧
      (manager.timer id).mTime.toNat = deadline + times * recycle.toNat
  once : recycle = 0 → times ≤ 1

theorem mem_returned (sorted : manager.Sorted) (now : UInt64) :
    id ∈ manager.returned (.listExpiredTimer now) ↔
      id ∈ manager.mTimers ∧ manager.due now id = true ∧ (manager.timer id).mCb.isSome := by
  rw [returned, sorted.increasing.takeWhile_due, List.mem_filter, List.mem_filter, and_assoc]

theorem due_iff_toNat (now : UInt64) :
    manager.due now id = true ↔ (manager.timer id).mTime.toNat ≤ now.toNat := by
  rw [due, decide_eq_true_eq, UInt64.le_iff_toNat_le]

theorem OnSchedule.mem_returned {deadline times : Nat} {cb : CallBack Action}
    {recycle tid : UInt32} {deleted : Prop} (sorted : manager.Sorted)
    (onSchedule : manager.OnSchedule id deadline cb recycle tid times deleted) (now : UInt64) :
    id ∈ manager.returned (.listExpiredTimer now) ↔
      id ∈ manager.mTimers ∧ deadline + times * recycle.toNat ≤ now.toNat := by
  rw [KTimerManager.mem_returned sorted, due_iff_toNat]
  constructor
  · intro ⟨member, isDue, _⟩
    rw [(onSchedule.object member).2] at isDue
    exact ⟨member, isDue⟩
  · intro ⟨member, isDue⟩
    obtain ⟨object, time⟩ := onSchedule.object member
    rw [object]
    exact ⟨member, by rw [← time] at isDue; exact isDue, rfl⟩

theorem toUInt64_eq_zero {recycle : UInt32} : recycle.toUInt64 = 0 ↔ recycle = 0 := by
  rw [← UInt64.toNat_inj, ← UInt32.toNat_inj, UInt32.toNat_toUInt64]
  rfl

section Step

variable {after : KTimerManager Action} {deadline times : Nat} {cb : CallBack Action}
  {recycle tid : UInt32} {deleted : Prop}

/-- Operations that leave the timer's object and membership alone. -/
theorem OnSchedule.frame (onSchedule : manager.OnSchedule id deadline cb recycle tid times deleted)
    (object : after.timer id = manager.timer id)
    (member : id ∈ after.mTimers ↔ id ∈ manager.mTimers) :
    after.OnSchedule id deadline cb recycle tid times deleted where
  present := member.trans onSchedule.present
  object := fun present => by rw [object]; exact onSchedule.object (member.mp present)
  once := onSchedule.once

theorem OnSchedule.addTimer (sorted : manager.Sorted) (counted : id ≤ manager.gUniqueIdCount)
    (onSchedule : manager.OnSchedule id deadline cb recycle tid times deleted)
    (now ms : UInt64) (newCb : Option (CallBack Action)) (newRecycle newTid : UInt32) :
    (manager.addTimer now ms newCb newRecycle newTid).1.OnSchedule
      id deadline cb recycle tid times deleted := by
  have older : id ≠ manager.gUniqueIdCount + 1 := by omega
  apply onSchedule.frame
  · exact setTimer_timer_other _ _ older
  · rw [KTimerManager.addTimer,
      mem_insertTimer (sorted.construct now ms newCb newRecycle newTid).toIdentified]
    constructor
    · intro either
      exact either.resolve_left older
    · exact .inr

theorem OnSchedule.delTimer (sorted : manager.Sorted) (timerId : Nat)
    (onSchedule : manager.OnSchedule id deadline cb recycle tid times deleted) :
    (manager.delTimer timerId).OnSchedule id deadline cb recycle tid times
      (deleted ∨ timerId = id) where
  present := by
    rw [mem_delTimer sorted, onSchedule.present]
    constructor
    · intro ⟨⟨kept, pending⟩, different⟩
      exact ⟨fun either => either.elim kept (fun same => different same.symm), pending⟩
    · intro ⟨kept, pending⟩
      exact ⟨⟨fun was => kept (.inl was), pending⟩, fun same => kept (.inr same.symm)⟩
  object := fun present => onSchedule.object ((mem_delTimer sorted).mp present).1
  once := onSchedule.once

theorem OnSchedule.listExpiredTimer (sorted : manager.Sorted) {now : UInt64}
    (permitted : manager.Scheduling (.listExpiredTimer now))
    (onSchedule : manager.OnSchedule id deadline cb recycle tid times deleted) :
    (manager.listExpiredTimer now).1.OnSchedule id deadline cb recycle tid
      (times + if id ∈ manager.returned (.listExpiredTimer now) then 1 else 0) deleted := by
  have expired := (listExpiredTimer_spec sorted now).1
  by_cases isReturned : id ∈ manager.returned (.listExpiredTimer now)
  · obtain ⟨member, isDue, _⟩ := (KTimerManager.mem_returned sorted now).mp isReturned
    obtain ⟨object, time⟩ := onSchedule.object member
    obtain ⟨kept, pending⟩ := onSchedule.present.mp member
    have moved := expired.advanced id member isDue
    have stays : id ∈ (manager.listExpiredTimer now).1.mTimers ↔ recycle ≠ 0 := by
      rw [expired.members, goesBack, object]
      simp [member, isDue, toUInt64_eq_zero]
    rw [if_pos isReturned]
    refine ⟨?_, ?_, ?_⟩
    · rw [stays]
      constructor
      · intro periodic
        exact ⟨kept, fun oneShot => absurd oneShot periodic⟩
      · rintro ⟨_, zero⟩ oneShot
        have := zero oneShot
        omega
    · intro present
      have periodic : recycle.toUInt64 ≠ 0 :=
        fun zero => stays.mp present (toUInt64_eq_zero.mp zero)
      have room := permitted id member isDue
      rw [moved, fired, object]
      simp only [Option.isSome_some, if_true, KTimer.update, if_pos periodic, true_and]
      rw [object, UInt32.toNat_toUInt64, time] at room
      rw [UInt64.toNat_add, UInt32.toNat_toUInt64, time, Nat.mod_eq_of_lt room, Nat.add_mul]
      omega
    · intro oneShot
      have := pending oneShot
      omega
  · have quiet : ¬ (id ∈ manager.mTimers ∧ manager.due now id = true) := by
      rintro ⟨member, isDue⟩
      apply isReturned
      rw [KTimerManager.mem_returned sorted, (onSchedule.object member).1]
      exact ⟨member, isDue, rfl⟩
    rw [if_neg isReturned]
    apply onSchedule.frame
    · exact expired.untouched id quiet
    · rw [expired.members]
      constructor
      · exact And.left
      · intro member
        exact ⟨member, fun isDue => absurd ⟨member, isDue⟩ quiet⟩

end Step

section Runs

variable {earlier later : List (TimerOperation Action)} {created last : KTimerManager Action}
  {now ms : UInt64} {cb : Action} {recycle tid : UInt32}

theorem Scheduling.sorted (sorted : manager.Sorted) {operation : TimerOperation Action}
    {after : KTimerManager Action} (permitted : manager.Scheduling operation)
    (performed : manager.perform operation = some after) : after.Sorted := by
  obtain ⟨identified, exact⟩ := perform_spec sorted performed
  refine ⟨identified, exact.mp (keepsPlace_of_noWrite ?_)⟩
  cases operation <;> first | rfl | exact permitted.elim

theorem sorted_of_run (run : Run perform Scheduling initial earlier created) : created.Sorted :=
  run.invariant _ sorted_initial fun sorted permitted performed => permitted.sorted sorted performed

theorem onSchedule_addTimer (sorted : created.Sorted)
    (fits : now.toNat + ms.toNat < 2 ^ 64) :
    (created.addTimer now ms (some (.plain cb)) recycle tid).1.OnSchedule
      (created.gUniqueIdCount + 1) (now.toNat + ms.toNat) (.plain cb) recycle tid 0 False := by
  have constructed :
      (created.addTimer now ms (some (.plain cb)) recycle tid).1.timer
          (created.gUniqueIdCount + 1) =
        KTimer.construct now ms (some (.plain cb)) recycle tid (created.gUniqueIdCount + 1) :=
    setTimer_timer_self ..
  refine ⟨?_, ?_, fun _ => Nat.zero_le _⟩
  · rw [KTimerManager.addTimer, mem_insertTimer (sorted.construct ..).toIdentified]
    simp
  · intro _
    rw [constructed]
    refine ⟨rfl, ?_⟩
    rw [KTimer.construct, UInt64.toNat_add, Nat.mod_eq_of_lt fits]
    omega

/-- The steps of the run after the timer was added. -/
def takenAfterAdd (created : KTimerManager Action) (now ms : UInt64) (cb : Action)
    (recycle tid : UInt32) (later : List (TimerOperation Action)) :
    List (KTimerManager Action × TimerOperation Action × KTimerManager Action) :=
  transitions perform (created.addTimer now ms (some (.plain cb)) recycle tid).1 later

theorem timesReturned_snoc (id : Nat)
    (taken : List (KTimerManager Action × TimerOperation Action × KTimerManager Action))
    (step : KTimerManager Action × TimerOperation Action × KTimerManager Action) :
    timesReturned id (taken ++ [step]) =
      timesReturned id taken + if id ∈ step.1.returned step.2.1 then 1 else 0 := by
  simp [timesReturned, List.countP_append, List.countP_cons]

/-- No call made while the timer was in the set had reached the deadline. -/
def NeverReached (id deadline : Nat)
    (taken : List (KTimerManager Action × TimerOperation Action × KTimerManager Action)) : Prop :=
  ∀ step ∈ taken, ∀ clock, step.2.1 = .listExpiredTimer clock → id ∈ step.1.mTimers →
    clock.toNat < deadline

theorem neverReached_snoc {id deadline : Nat}
    {taken : List (KTimerManager Action × TimerOperation Action × KTimerManager Action)}
    {step : KTimerManager Action × TimerOperation Action × KTimerManager Action} :
    NeverReached id deadline (taken ++ [step]) ↔ NeverReached id deadline taken ∧
      ∀ clock, step.2.1 = .listExpiredTimer clock → id ∈ step.1.mTimers → clock.toNat < deadline := by
  rw [NeverReached, List.forall_mem_append, List.forall_mem_singleton]
  rfl

/-- What a run keeps about the timer that was added: it stands where its
schedule says, and a one-shot timer has been returned exactly if some call made
while it was in the set had reached its deadline. -/
structure Followed (created last : KTimerManager Action) (now ms : UInt64) (cb : Action)
    (recycle tid : UInt32) (later : List (TimerOperation Action)) : Prop extends
    Sorted last where
  older : created.gUniqueIdCount + 1 ≤ last.gUniqueIdCount
  onSchedule : last.OnSchedule (created.gUniqueIdCount + 1) (now.toNat + ms.toNat) (.plain cb)
    recycle tid
    (timesReturned (created.gUniqueIdCount + 1) (takenAfterAdd created now ms cb recycle tid later))
    (.delTimer (created.gUniqueIdCount + 1) ∈ later)
  firstCall : recycle = 0 →
    (timesReturned (created.gUniqueIdCount + 1)
        (takenAfterAdd created now ms cb recycle tid later) = 0 ↔
      NeverReached (created.gUniqueIdCount + 1) (now.toNat + ms.toNat)
        (takenAfterAdd created now ms cb recycle tid later))

theorem followed_of_run (sorted : created.Sorted) (fits : now.toNat + ms.toNat < 2 ^ 64)
    (run : Run perform Scheduling (created.addTimer now ms (some (.plain cb)) recycle tid).1
      later last) :
    Followed created last now ms cb recycle tid later := by
  induction run with
  | nil =>
      refine ⟨sorted.addTimer _ _ _ _ _, Nat.le_refl _, ?_, fun _ => ?_⟩
      · simpa [takenAfterAdd, transitions, timesReturned] using onSchedule_addTimer sorted fits
      · simp [takenAfterAdd, transitions, timesReturned, NeverReached]
  | @snoc later operation before after run permitted performed ih =>
      have nextSorted := permitted.sorted ih.toSorted performed
      have taken : takenAfterAdd created now ms cb recycle tid (later ++ [operation]) =
          takenAfterAdd created now ms cb recycle tid later ++ [(before, operation, after)] := by
        rw [takenAfterAdd, run.transitions_append]
        simp [transitions, performed, takenAfterAdd]
      cases operation with
      | addTimer newNow newMs newCb newRecycle newTid =>
          cases performed
          refine ⟨nextSorted, Nat.le_succ_of_le ih.older, ?_, ?_⟩
          · rw [taken, timesReturned_snoc]
            simpa [returned] using ih.onSchedule.addTimer ih.toSorted ih.older ..
          · intro oneShot
            rw [taken, timesReturned_snoc, neverReached_snoc, ← ih.firstCall oneShot]
            simp [returned]
      | delTimer timerId =>
          cases performed
          refine ⟨nextSorted, ih.older, ?_, ?_⟩
          · rw [taken, timesReturned_snoc]
            simpa [returned, eq_comm] using ih.onSchedule.delTimer ih.toSorted timerId
          · intro oneShot
            rw [taken, timesReturned_snoc, neverReached_snoc, ← ih.firstCall oneShot]
            simp [returned]
      | listExpiredTimer clock =>
          cases performed
          have count := (listExpiredTimer_spec ih.toSorted clock).1.count
          refine ⟨nextSorted, by rw [count]; exact ih.older, ?_, ?_⟩
          · rw [taken, timesReturned_snoc]
            simpa using ih.onSchedule.listExpiredTimer ih.toSorted permitted
          · intro oneShot
            have returns := ih.onSchedule.mem_returned ih.toSorted clock
            rw [oneShot, UInt32.toNat_zero, Nat.mul_zero, Nat.add_zero] at returns
            rw [taken, timesReturned_snoc, neverReached_snoc, ← ih.firstCall oneShot]
            by_cases isReturned : created.gUniqueIdCount + 1 ∈
                before.returned (.listExpiredTimer clock)
            · obtain ⟨member, reached⟩ := returns.mp isReturned
              constructor
              · intro zero
                simp [isReturned] at zero
              · rintro ⟨_, early⟩
                have := early clock rfl member
                omega
            · have early : created.gUniqueIdCount + 1 ∈ before.mTimers →
                  clock.toNat < now.toNat + ms.toNat := by
                intro member
                by_contra reached
                exact isReturned (returns.mpr ⟨member, by omega⟩)
              simpa [isReturned] using fun _ => early
      | _ => exact permitted.elim

/-- The firing schedule, stated for the timer an arbitrary `addTimer` of a run
creates and for every point `last` the run comes to afterwards.  At that point
the timer stands on its schedule, a call at any clock would return it exactly if
its current deadline is reached, and what a call returns is in order of
deadline and id, each callback with the tid its timer was created with. -/
theorem timers_fire_on_schedule
    (reached : Run perform Scheduling initial earlier created)
    (permitted : created.Scheduling (.addTimer now ms (some cb) recycle tid))
    (run : Run perform Scheduling (created.addTimer now ms (some (.plain cb)) recycle tid).1
      later last) :
    let id := created.gUniqueIdCount + 1
    let taken := takenAfterAdd created now ms cb recycle tid later
    let deadline := now.toNat + ms.toNat
    last.OnSchedule id deadline (.plain cb) recycle tid (timesReturned id taken)
        (.delTimer id ∈ later) ∧
      (recycle = 0 → (timesReturned id taken = 0 ↔ NeverReached id deadline taken)) ∧
      (∀ clock, id ∈ last.returned (.listExpiredTimer clock) ↔
        id ∈ last.mTimers ∧ deadline + timesReturned id taken * recycle.toNat ≤ clock.toNat) ∧
      (∀ clock, (last.returned (.listExpiredTimer clock)).Pairwise last.before ∧
        (last.listExpiredTimer clock).2 =
          (last.returned (.listExpiredTimer clock)).filterMap
            fun other => returnedCallback (last.timer other)) ∧
      last.mTimers.Nodup ∧ ∀ other ∈ last.mTimers, other ≤ last.gUniqueIdCount := by
  have followed := followed_of_run (sorted_of_run reached) permitted.2 run
  refine ⟨followed.onSchedule, followed.firstCall,
    followed.onSchedule.mem_returned followed.toSorted, ?_, followed.increasing.nodup,
    followed.counted⟩
  intro clock
  constructor
  · exact List.Pairwise.filter _
      (List.Pairwise.sublist (List.takeWhile_sublist _) followed.increasing)
  · have issued : last.Issued := ⟨followed.toIdentified, followed.increasing.nodup⟩
    exact listExpiredTimer_returned issued clock

/-- A timer of period 5 with first deadline 10, after one call at clock 12. -/
theorem timers_fire_on_schedule_periodic :
    ∃ last : KTimerManager Nat,
      Run perform Scheduling (initial.addTimer 0 10 (some (.plain 7)) 5 3).1
        [.listExpiredTimer 12] last ∧
      last.OnSchedule 1 10 (.plain 7) 5 3 1
        (.delTimer 1 ∈ [(.listExpiredTimer 12 : TimerOperation Nat)]) := by
  have permitted : (initial : KTimerManager Nat).Scheduling (.addTimer 0 10 (some 7) 5 3) :=
    ⟨rfl, by decide⟩
  have run : Run perform Scheduling ((initial : KTimerManager Nat).addTimer 0 10
      (some (.plain 7)) 5 3).1 [.listExpiredTimer 12] _ := Run.of_execute rfl
  exact ⟨_, run, (timers_fire_on_schedule .nil permitted run).1⟩

end Runs

end KTimerManager

end FiberKcp.Timer
