import FiberKcp.Scheduler.Timers
import FiberKcp.Scheduler.Wakeup

namespace FiberKcp.Scheduler

open Data Timer

/-! When every thread waits although a timer falls due before any of them
wakes. -/

/-- The thread is in `threadloop`. -/
def Place.live : Place → Bool
  | .outside | .ended => false
  | _ => true

namespace TimerScheduler

/-- The eventfd is unread, or a caller of `addTimer` that found its timer at the
front has not executed `tickle`. -/
def Pending (manager : TimerScheduler) : Prop := 0 < manager.poll.mEventFd ∨ manager.adding ≠ []

/-- No timer can fall due earlier than the wait with this deadline ends. -/
def Covers (manager : TimerScheduler) (near : Near) : Prop :=
  ∃ deadline, near.front = some deadline ∧
    ∀ id ∈ manager.timers.mTimers, deadline ≤ (manager.timers.timer id).mTime

/-- While all live threads wait, one of them wakes for the earliest timer or a
wake-up is pending. -/
def NoTimerForgotten (manager : TimerScheduler) : Prop :=
  (∃ tid ∈ manager.poll.core.mThreadIds, (manager.poll.place tid).live = true) →
    (∀ tid ∈ manager.poll.core.mThreadIds, (manager.poll.place tid).live = true →
      manager.poll.place tid = .blocked) →
    manager.timers.mTimers ≠ [] →
    manager.Pending ∨ ∃ tid ∈ manager.poll.core.mThreadIds,
      manager.poll.place tid = .blocked ∧ manager.Covers (manager.near tid)

/-- The thread calls `getNearTimeout` before it waits again. -/
def WillLook (manager : TimerScheduler) (tid : Int) : Prop :=
  (manager.poll.place tid).live = true ∧ manager.poll.idleTerm tid = false ∧
    (manager.near tid = .unread ∨ ∃ fd, manager.poll.place tid = .woken fd)

/-- A live thread, if there is one, calls `getNearTimeout` before it waits. -/
def Watched (manager : TimerScheduler) : Prop :=
  (∃ tid ∈ manager.poll.core.mThreadIds, (manager.poll.place tid).live = true) →
    ∃ tid ∈ manager.poll.core.mThreadIds, manager.WillLook tid

end TimerScheduler

/-- `onTimerInsertedAtFront` finds no idle thread only while a live thread will
still look at the timers. -/
def tickleHeeded (manager : TimerScheduler) : TimerEvent → Prop
  | .poll (.testIdle tid) =>
      tid ∈ manager.adding → manager.poll.mIdleThreadCount = 0 → manager.Watched
  | _ => True

instance (manager : TimerScheduler) (tid : Int) : Decidable (manager.WillLook tid) :=
  inferInstanceAs (Decidable (_ ∧ _ ∧ (_ ∨ _)))

instance (manager : TimerScheduler) : Decidable manager.Watched :=
  inferInstanceAs (Decidable (_ → _))

instance (manager : TimerScheduler) (event : TimerEvent) :
    Decidable (tickleHeeded manager event) := by
  unfold tickleHeeded
  split <;> infer_instance

namespace PollScheduler

variable {manager after : PollScheduler} {tid : Int}

/-- The next place of a thread that steps by itself. -/
inductive Goes (idleTerm : Bool) : Place → Place → Prop where
  | stay : Goes idleTerm .loop .loop
  | count : idleTerm = false → Goes idleTerm .loop .count
  | finish : idleTerm = true → Goes idleTerm .loop .ended
  | poll : Goes idleTerm .count .poll
  | block : Goes idleTerm .poll .blocked
  | edge : Goes idleTerm .poll (.woken true)
  | readFd : Goes idleTerm (.woken true) (.woken false)
  | uncount : Goes idleTerm (.woken false) .uncount
  | back : Goes idleTerm .uncount .loop

/-- The places and the eventfd are as before. -/
structure SamePlaces (manager after : PollScheduler) : Prop where
  ids : after.core.mThreadIds = manager.core.mThreadIds
  place : after.place = manager.place
  idleTerm : after.idleTerm = manager.idleTerm
  mEventFd : after.mEventFd = manager.mEventFd

/-- Only one thread changed its place. -/
structure Moved (manager after : PollScheduler) (tid : Int) (place : Place) : Prop where
  ids : after.core.mThreadIds = manager.core.mThreadIds
  here : after.place tid = place
  others : ∀ other ≠ tid, after.place other = manager.place other

theorem moved_setPlace (manager : PollScheduler) (tid : Int) (place : Place) :
    Moved manager (manager.setPlace tid place) tid place :=
  ⟨rfl, place_setPlace_self manager tid place, fun _ => place_setPlace_other manager place⟩

theorem decideTickle_samePlaces (manager : PollScheduler) (tid : Int) (needed : Bool) :
    SamePlaces manager (manager.decideTickle tid needed) := by
  unfold decideTickle
  split <;> exact ⟨rfl, rfl, rfl, rfl⟩

structure Advanced (manager after : PollScheduler) (tid : Int) : Prop where
  moved : Moved manager after tid (after.place tid)
  goes : Goes (manager.idleTerm tid) (manager.place tid) (after.place tid)
  idleTerm : after.idleTerm = manager.idleTerm
  mEventFd : after.mEventFd = manager.mEventFd ∨ manager.place tid = .woken true

theorem advanced_loop (looping : manager.place tid = .loop)
    (stepped : manager.loop tid = some after) : Advanced manager after tid := by
  have stay : ∀ next : PollScheduler, SamePlaces manager next → Advanced manager next tid := by
    intro next same
    have here : next.place tid = manager.place tid := congrFun same.place tid
    refine ⟨⟨same.ids, rfl, fun other _ => congrFun same.place other⟩, ?_, same.idleTerm,
      .inl same.mEventFd⟩
    rw [here, looping]
    exact .stay
  unfold PollScheduler.loop at stepped
  dsimp only at stepped
  split at stepped
  · cases stepped
    generalize found : (if (manager.core.takeTask tid manager.core.mFiberQueue).isSome then
      Place.loop else if manager.idleTerm tid then .ended else .count) = place
    let scanned : PollScheduler := { manager with core := manager.core.scan tid }.setPlace tid place
    have decided := decideTickle_samePlaces scanned tid
      (manager.core.needTickle tid manager.core.mFiberQueue)
    have here : scanned.place tid = place := place_setPlace_self _ tid place
    refine ⟨⟨decided.ids.trans (manager.core.scanned tid).ids, rfl, fun other different => ?_⟩, ?_,
      decided.idleTerm, .inl decided.mEventFd⟩
    · exact (congrFun decided.place other).trans (place_setPlace_other _ place different)
    · rw [looping, (congrFun decided.place tid).trans here, ← found]
      cases ends : manager.idleTerm tid <;>
        cases (manager.core.takeTask tid manager.core.mFiberQueue).isSome
      · exact .count rfl
      · exact .stay
      · exact .finish rfl
      · exact .stay
  · cases stepped
    rename_i slice _
    have put : SamePlaces manager { manager with core := manager.core.requeue tid slice } :=
      ⟨KScheduler.release_mThreadIds .., rfl, rfl, rfl⟩
    have decided := decideTickle_samePlaces { manager with core := manager.core.requeue tid slice }
      tid (manager.core.mFiberQueue.isEmpty && manager.mThreadCount != 0)
    exact stay _ ⟨decided.ids.trans put.ids, decided.place, decided.idleTerm, decided.mEventFd⟩
  · rename_i notScan notRequeue
    obtain ⟨core, moved, rfl⟩ := Option.map_eq_some_iff.mp stepped
    exact stay _ ⟨(KScheduler.turn_threadloop notScan notRequeue moved).ids, rfl, rfl, rfl⟩

theorem advanced (stepped : manager.advance tid = some after) : Advanced manager after tid := by
  have move : ∀ (changed : PollScheduler) place, changed.core = manager.core →
      changed.place = manager.place → changed.idleTerm = manager.idleTerm →
      (changed.mEventFd = manager.mEventFd ∨ manager.place tid = .woken true) →
      Goes (manager.idleTerm tid) (manager.place tid) place →
      Advanced manager (changed.setPlace tid place) tid := by
    intro changed place core places idleTerm fd goes
    refine ⟨⟨congrArg KScheduler.mThreadIds core, rfl, fun other different => ?_⟩, ?_, idleTerm, fd⟩
    · rw [place_setPlace_other _ _ different, places]
    · rw [place_setPlace_self]
      exact goes
  unfold PollScheduler.advance at stepped
  cases place : manager.place tid with
  | loop =>
      simp only [place] at stepped
      exact advanced_loop place stepped
  | count =>
      simp only [place] at stepped
      cases stepped
      exact move _ _ rfl rfl rfl (.inl rfl) (place ▸ .poll)
  | poll =>
      simp only [place] at stepped
      split at stepped <;> cases stepped
      · exact move _ _ rfl rfl rfl (.inl rfl) (place ▸ .edge)
      · exact move _ _ rfl rfl rfl (.inl rfl) (place ▸ .block)
  | woken fd =>
      cases fd with
      | true =>
          simp only [place] at stepped
          cases stepped
          exact move _ _ rfl rfl rfl (.inr place) (place ▸ .readFd)
      | false =>
          simp only [place] at stepped
          cases stepped
          exact move _ _ rfl rfl rfl (.inl rfl) (place ▸ .uncount)
  | uncount =>
      simp only [place] at stepped
      cases stepped
      exact move _ _ rfl rfl rfl (.inl rfl) (place ▸ .back)
  | _ =>
      simp only [place] at stepped
      contradiction

end PollScheduler

/-! ## The timers -/

section Timers

variable {timers : KTimerManager Nat}

/-- A timer that goes to the front unnoticed goes behind an earlier one. -/
theorem insertTimer_behind {id : Nat} (sorted : timers.Sorted)
    (counted : id ≤ timers.gUniqueIdCount) (quiet : (timers.insertTimer id).2 = false)
    (unset : timers.mTickle = false) :
    ∀ new ∈ (timers.insertTimer id).1.mTimers, ∃ old ∈ timers.mTimers,
      (timers.timer old).mTime ≤ (timers.timer new).mTime := by
  have identified : timers.Identified := sorted.toIdentified
  intro new member
  rcases (KTimerManager.mem_insertTimer identified).mp member with rfl | old
  · simp only [KTimerManager.insertTimer, unset, Bool.not_false, Bool.and_true] at quiet
    cases inserted : setInsert timers.before new timers.mTimers with
    | nil =>
        rw [KTimerManager.insertTimer_mTimers, inserted] at member
        cases member
    | cons front rest =>
        simp only [inserted, List.head?_cons, Option.all_some, Bool.not_eq_eq_eq_not, Bool.not_false,
          decide_eq_true_eq] at quiet
        have among : front ∈ (timers.insertTimer new).1.mTimers := by
          rw [KTimerManager.insertTimer_mTimers, inserted]
          exact List.mem_cons_self
        rcases (KTimerManager.mem_insertTimer identified).mp among with same | old
        · exact absurd (same ▸ quiet) KTimerManager.before_irrefl
        · exact ⟨front, old, KTimer.mTime_le_of_comparator quiet⟩
  · exact ⟨new, old, UInt64.le_refl _⟩

theorem addTimer_behind (sorted : timers.Sorted) {now ms : UInt64} {cb : Option (CallBack Nat)}
    {recycle bind : UInt32} (quiet : (timers.addTimer now ms cb recycle bind).2 = false)
    (unset : timers.mTickle = false) :
    ∀ new ∈ (timers.addTimer now ms cb recycle bind).1.mTimers, ∃ old ∈ timers.mTimers,
      (timers.timer old).mTime ≤ ((timers.addTimer now ms cb recycle bind).1.timer new).mTime := by
  intro new member
  obtain ⟨old, present, earlier⟩ := insertTimer_behind (sorted.construct now ms cb recycle bind)
    (Nat.le_refl _) quiet unset new member
  have different : old ≠ timers.gUniqueIdCount + 1 := by
    have counted := sorted.counted old present
    omega
  refine ⟨old, present, ?_⟩
  have kept : (timers.construct now ms cb recycle bind).timer old = timers.timer old :=
    KTimerManager.setTimer_timer_other timers _ different
  rw [← kept]
  exact earlier

end Timers

namespace TimerScheduler

variable {manager after : TimerScheduler} {tid : Int}

/-- A wake-up is pending or a live thread will look. -/
def Noticed (manager : TimerScheduler) : Prop := manager.Pending ∨ manager.Watched

structure Attended (manager : TimerScheduler) : Prop where
  sorted : manager.timers.Sorted
  outside : ∀ tid, manager.poll.place tid = .outside →
    manager.near tid = .unread ∧ manager.poll.idleTerm tid = false
  waiting : ∀ tid, manager.poll.place tid = .blocked → manager.near tid ≠ .unread
  leaving : ∀ tid, manager.poll.idleTerm tid = true → manager.near tid = .read none ∧
    (manager.poll.place tid = .uncount ∨ manager.poll.place tid = .loop ∨
      manager.poll.place tid = .ended)
  ended : ∀ tid, manager.poll.place tid = .ended → manager.poll.idleTerm tid = true
  tickled : manager.timers.mTickle = true → manager.Noticed
  covered : manager.timers.mTimers ≠ [] → manager.Noticed ∨
    ∃ tid ∈ manager.poll.core.mThreadIds, manager.Covers (manager.near tid)

theorem attended_start (mThreadIds : List Int) (user : Bool) :
    Attended (start mThreadIds user) := by
  have place : ∀ tid, (start mThreadIds user).poll.place tid = .loop ∨
      (start mThreadIds user).poll.place tid = .outside := by
    intro tid
    cases user with
    | false => exact .inl rfl
    | true =>
        by_cases first : tid = mThreadIds.headD 0
        · right
          change Function.update (fun _ => Place.loop) (mThreadIds.headD 0) Place.outside tid = _
          rw [first, Function.update_self]
        · left
          change Function.update (fun _ => Place.loop) (mThreadIds.headD 0) Place.outside tid = _
          exact Function.update_of_ne first _ _
  refine ⟨KTimerManager.sorted_initial, fun _ _ => ⟨rfl, rfl⟩, fun tid blocked => ?_,
    fun _ ends => absurd ends Bool.false_ne_true, fun tid ended => ?_,
    fun set => absurd set Bool.false_ne_true, fun some => absurd rfl some⟩
  · rcases place tid with here | here <;> rw [here] at blocked <;> cases blocked
  · rcases place tid with here | here <;> rw [here] at ended <;> cases ended

theorem Attended.noTimerForgotten (attended : Attended manager) : manager.NoTimerForgotten := by
  intro some blocked timers
  have impossible : ¬ manager.Watched := by
    intro watched
    obtain ⟨tid, member, live, _, unread | ⟨fd, woken⟩⟩ := watched some
    · exact attended.waiting tid (blocked tid member live) unread
    · have waits := blocked tid member live
      rw [woken] at waits
      cases waits
  rcases attended.covered timers with (pending | watched) | ⟨tid, member, covers⟩
  · exact .inl pending
  · exact absurd watched impossible
  · refine .inr ⟨tid, member, blocked tid member ?_, covers⟩
    -- a thread that kept a deadline neither ended nor is it still outside
    obtain ⟨deadline, front, _⟩ := covers
    cases place : manager.poll.place tid with
    | outside =>
        rw [(attended.outside tid place).1] at front
        cases front
    | ended =>
        rw [(attended.leaving tid (attended.ended tid place)).1] at front
        cases front
    | _ => rfl

/-- What the invariant needs of a step of one thread, besides that thread. -/
structure StepOf (manager after : TimerScheduler) (tid : Int) : Prop where
  ids : after.poll.core.mThreadIds = manager.poll.core.mThreadIds
  place : ∀ other ≠ tid, after.poll.place other = manager.poll.place other
  near : ∀ other ≠ tid, after.near other = manager.near other
  idleTerm : ∀ other ≠ tid, after.poll.idleTerm other = manager.poll.idleTerm other

theorem StepOf.willLook {other : Int} (stepOf : StepOf manager after tid) (different : other ≠ tid)
    (look : manager.WillLook other) : after.WillLook other := by
  unfold WillLook
  rw [stepOf.place other different, stepOf.near other different, stepOf.idleTerm other different]
  exact look

/-- The local part of the invariant for one thread. -/
structure AttendedAt (manager : TimerScheduler) (tid : Int) : Prop where
  outside : manager.poll.place tid = .outside →
    manager.near tid = .unread ∧ manager.poll.idleTerm tid = false
  waiting : manager.poll.place tid = .blocked → manager.near tid ≠ .unread
  leaving : manager.poll.idleTerm tid = true → manager.near tid = .read none ∧
    (manager.poll.place tid = .uncount ∨ manager.poll.place tid = .loop ∨
      manager.poll.place tid = .ended)
  ended : manager.poll.place tid = .ended → manager.poll.idleTerm tid = true

theorem Attended.at (attended : Attended manager) (tid : Int) : manager.AttendedAt tid :=
  ⟨attended.outside tid, attended.waiting tid, attended.leaving tid, attended.ended tid⟩

theorem AttendedAt.congr (here : manager.AttendedAt tid)
    (place : after.poll.place tid = manager.poll.place tid)
    (near : after.near tid = manager.near tid)
    (idleTerm : after.poll.idleTerm tid = manager.poll.idleTerm tid) : after.AttendedAt tid := by
  refine ⟨?_, ?_, ?_, ?_⟩
  · rw [place, near, idleTerm]
    exact here.outside
  · rw [place, near]
    exact here.waiting
  · rw [place, near, idleTerm]
    exact here.leaving
  · rw [place, idleTerm]
    exact here.ended

theorem Watched.step (watched : manager.Watched) (stepOf : StepOf manager after tid)
    (look : tid ∈ manager.poll.core.mThreadIds → manager.WillLook tid → after.Watched)
    (gain : (after.poll.place tid).live = true → (manager.poll.place tid).live = true ∨
      after.WillLook tid) : after.Watched := by
  intro ⟨first, member, live⟩
  rw [stepOf.ids] at member
  have before : after.WillLook tid ∧ tid = first ∨ (manager.poll.place first).live = true := by
    by_cases same : first = tid
    · subst same
      exact (gain live).symm.imp_left fun look => ⟨look, rfl⟩
    · rw [stepOf.place first same] at live
      exact .inr live
  rcases before with ⟨now, rfl⟩ | before
  · exact ⟨tid, stepOf.ids ▸ member, now⟩
  · obtain ⟨other, present, looks⟩ := watched ⟨first, member, before⟩
    by_cases same : other = tid
    · exact look (same ▸ present) (same ▸ looks) ⟨first, stepOf.ids ▸ member, live⟩
    · exact ⟨other, stepOf.ids ▸ present, stepOf.willLook same looks⟩

/-- One thread steps and no timer changes. -/
theorem Attended.step_of (attended : Attended manager) (tid : Int)
    (stepOf : StepOf manager after tid) (timers : after.timers = manager.timers) (here : after.AttendedAt tid)
    (front : (after.near tid).front = (manager.near tid).front)
    (pending : manager.Pending → after.Noticed)
    (look : manager.WillLook tid → after.WillLook tid)
    (gain : (after.poll.place tid).live = true → (manager.poll.place tid).live = true ∨
      after.WillLook tid) : Attended after := by
  have local' : ∀ other, after.AttendedAt other := by
    intro other
    by_cases same : other = tid
    · exact same ▸ here
    · exact (attended.at other).congr (stepOf.place other same) (stepOf.near other same)
        (stepOf.idleTerm other same)
  have noticed : manager.Noticed → after.Noticed := by
    rintro (waits | watched)
    · exact pending waits
    · refine .inr (watched.step stepOf (fun member looks _ => ?_) gain)
      exact ⟨tid, stepOf.ids ▸ member, look looks⟩
  have fronts : ∀ other, (after.near other).front = (manager.near other).front := by
    intro other
    by_cases same : other = tid
    · exact same ▸ front
    · rw [stepOf.near other same]
  refine ⟨timers ▸ attended.sorted, fun tid => (local' tid).outside, fun tid => (local' tid).waiting,
    fun tid => (local' tid).leaving, fun tid => (local' tid).ended, fun set => ?_, fun some => ?_⟩
  · exact noticed (attended.tickled (timers ▸ set))
  · refine (attended.covered (timers ▸ some)).imp noticed ?_
    rintro ⟨other, member, deadline, same, earlier⟩
    exact ⟨other, stepOf.ids ▸ member, deadline, (fronts other).trans same, timers ▸ earlier⟩

/-- Nothing of the places, the eventfd and the timers changes. -/
theorem Attended.along {poll : PollScheduler} (attended : Attended manager)
    (same : PollScheduler.SamePlaces manager.poll poll) : Attended { manager with poll } := by
  have place : ∀ tid, poll.place tid = manager.poll.place tid := congrFun same.place
  have idleTerm : ∀ tid, poll.idleTerm tid = manager.poll.idleTerm tid := congrFun same.idleTerm
  refine attended.step_of 0 ⟨same.ids, fun _ _ => place _, fun _ _ => rfl,
    fun _ _ => idleTerm _⟩ rfl ((attended.at 0).congr (place 0) rfl (idleTerm 0)) rfl ?_ ?_ ?_
  · rintro (unread | adding)
    · exact .inl (.inl (same.mEventFd ▸ unread))
    · exact .inl (.inr adding)
  · unfold WillLook
    rw [place, idleTerm]
    exact id
  · intro live
    rw [place] at live
    exact .inl live

/-- Where a thread goes by itself, the invariant goes with it. -/
theorem Attended.goes (attended : Attended manager) {poll : PollScheduler}
    (advanced : PollScheduler.Advanced manager.poll poll tid)
    (ready : manager.poll.place tid = .poll → manager.near tid ≠ .unread) :
    ({ manager with poll } : TimerScheduler).AttendedAt tid := by
  have goes := advanced.goes
  have leaving := attended.leaving tid
  rw [← congrFun advanced.idleTerm tid] at goes leaving
  generalize left : manager.poll.place tid = before at goes leaving ready
  generalize reached : poll.place tid = next at goes
  refine ⟨fun outside => ?_, fun blocked => ?_, fun ends => ?_, fun ended => ?_⟩
  · rw [reached] at outside
    subst outside
    cases goes
  · rw [reached] at blocked
    subst blocked
    cases goes
    exact ready rfl
  · obtain ⟨near, place⟩ := leaving ends
    refine ⟨near, ?_⟩
    rw [reached]
    cases goes with
    | stay => exact .inr (.inl rfl)
    | count stays => exact absurd (stays.symm.trans ends) Bool.false_ne_true
    | finish _ => exact .inr (.inr rfl)
    | back => exact .inr (.inl rfl)
    | _ => simp at place
  · rw [reached] at ended
    subst ended
    cases goes with
    | finish ends => exact ends

theorem Attended.advance (attended : Attended manager) {poll : PollScheduler}
    (member : tid ∈ manager.poll.core.mThreadIds)
    (advanced : PollScheduler.Advanced manager.poll poll tid)
    (ready : manager.poll.place tid = .poll → manager.near tid ≠ .unread)
    (used : ∀ fd, manager.poll.place tid = .woken fd → manager.near tid = .unread) :
    Attended { manager with poll } := by
  have here := attended.goes advanced ready
  obtain ⟨moved, goes, idleTerm, fd⟩ := advanced
  have stays : manager.poll.idleTerm tid = false → (poll.place tid).live = true := by
    intro stays
    generalize manager.poll.place tid = before at goes
    generalize poll.place tid = next at goes
    cases goes with
    | finish ends => exact absurd (stays.symm.trans ends) Bool.false_ne_true
    | _ => rfl
  have living : (manager.poll.place tid).live = true := by
    generalize manager.poll.place tid = before at goes
    generalize poll.place tid = next at goes
    cases goes <;> rfl
  have look : manager.near tid = .unread → manager.poll.idleTerm tid = false →
      ({ manager with poll } : TimerScheduler).WillLook tid := fun unread lives =>
    ⟨stays lives, (congrFun idleTerm tid).trans lives, .inl unread⟩
  refine attended.step_of tid ⟨moved.ids, moved.others, fun _ _ => rfl,
    fun other _ => congrFun idleTerm other⟩ rfl here rfl ?_ ?_ fun _ => .inl living
  · rintro (unread | adding)
    · rcases fd with same | woken
      · exact .inl (.inl (same ▸ unread))
      · -- the reader of the eventfd looks at the timers next
        have lives : manager.poll.idleTerm tid = false := by
          by_contra ends
          have place := (attended.leaving tid (by simpa using ends)).2
          simp [woken] at place
        exact .inr fun _ => ⟨tid, moved.ids ▸ member, look (used _ woken) lives⟩
    · exact .inl (.inr adding)
  · rintro ⟨_, lives, unread | ⟨fd, woken⟩⟩
    · exact look unread lives
    · exact look (used fd woken) lives

/-- Only the counters of `threadloop` differ. -/
theorem Attended.recount (attended : Attended manager) (poll : after.poll = manager.poll)
    (timers : after.timers = manager.timers) (near : after.near = manager.near)
    (adding : after.adding = manager.adding) : Attended after := by
  have here : ∀ tid, after.AttendedAt tid := fun tid =>
    (attended.at tid).congr (poll ▸ rfl) (near ▸ rfl) (poll ▸ rfl)
  have noticed : manager.Noticed → after.Noticed := by
    unfold Noticed Pending Watched WillLook
    rw [poll, near, adding]
    exact id
  refine ⟨timers ▸ attended.sorted, fun tid => (here tid).outside, fun tid => (here tid).waiting,
    fun tid => (here tid).leaving, fun tid => (here tid).ended, fun set => ?_, fun some => ?_⟩
  · exact noticed (attended.tickled (timers ▸ set))
  · refine (attended.covered (timers ▸ some)).imp noticed ?_
    unfold Covers
    rw [poll, near, timers]
    exact id

theorem mem_of_idle (idle : manager.poll.idle tid = true) :
    tid ∈ manager.poll.core.mThreadIds := by
  simp only [PollScheduler.idle, Bool.and_eq_true] at idle
  simpa using idle.1

theorem Attended.advances (attended : Attended manager) {poll : PollScheduler}
    (stepped : manager.poll.step (.advance tid) = some poll)
    (ready : manager.poll.place tid = .poll → manager.near tid ≠ .unread)
    (used : ∀ fd, manager.poll.place tid = .woken fd → manager.near tid = .unread) :
    Attended { manager with poll } := by
  simp only [PollScheduler.step] at stepped
  split at stepped
  · rename_i idle
    exact attended.advance (mem_of_idle idle) (PollScheduler.advanced stepped) ready used
  · contradiction

theorem Attended.loop (attended : Attended manager) (looping : manager.poll.place tid = .loop)
    (stepped : manager.loop tid = some after) : Attended after := by
  unfold TimerScheduler.loop at stepped
  obtain ⟨poll, moved, rest⟩ := Option.bind_eq_some_iff.mp stepped
  have advanced : Attended { manager with poll } := attended.advances moved
    (fun place => by rw [looping] at place; cases place)
    (fun fd place => by rw [looping] at place; cases place)
  dsimp only at rest
  split at rest
  · cases rest
    exact advanced.recount rfl rfl rfl rfl
  · cases rest
    exact advanced.recount rfl rfl rfl rfl
  · split at rest
    · cases rest
      exact advanced.recount rfl rfl rfl rfl
    · contradiction
  · cases rest
    exact advanced

/-- A step to a place from which the thread looks, or from `outside`. -/
theorem Attended.arrive (attended : Attended manager) {poll : PollScheduler} {place : Place}
    (moved : PollScheduler.Moved manager.poll poll tid place)
    (idleTerm : poll.idleTerm = manager.poll.idleTerm)
    (mEventFd : poll.mEventFd = manager.poll.mEventFd)
    (live : place.live = true) (awake : place ≠ .blocked)
    (staying : manager.poll.idleTerm tid = false)
    (look : (∃ fd, place = .woken fd) ∨ manager.near tid = .unread) :
    Attended { manager with poll } := by
  have stays : poll.idleTerm tid = false := (congrFun idleTerm tid).trans staying
  have looks : ({ manager with poll } : TimerScheduler).WillLook tid := by
    refine ⟨moved.here.symm ▸ live, stays, look.symm.imp id ?_⟩
    rintro ⟨fd, woken⟩
    exact ⟨fd, moved.here.trans woken⟩
  refine attended.step_of tid ⟨moved.ids, moved.others, fun _ _ => rfl,
    fun other _ => congrFun idleTerm other⟩ rfl ⟨?_, ?_, ?_, ?_⟩ rfl ?_ (fun _ => looks)
    fun _ => .inr looks
  · intro outside
    have same : place = .outside := moved.here.symm.trans outside
    rw [same] at live
    cases live
  · intro blocked
    exact absurd (moved.here.symm.trans blocked) awake
  · intro ends
    exact absurd (stays.symm.trans ends) Bool.false_ne_true
  · intro ended
    have same : place = .ended := moved.here.symm.trans ended
    rw [same] at live
    cases live
  · rintro (unread | adding)
    · exact .inl (.inl (mEventFd ▸ unread))
    · exact .inl (.inr adding)

theorem Attended.staying (attended : Attended manager) (tid : Int)
    (place : manager.poll.place tid ≠ .uncount ∧ manager.poll.place tid ≠ .loop ∧
      manager.poll.place tid ≠ .ended) : manager.poll.idleTerm tid = false := by
  by_contra ends
  rcases (attended.leaving tid (by simpa using ends)).2 with here | here | here
  · exact place.1 here
  · exact place.2.1 here
  · exact place.2.2 here

/-- A written eventfd is a pending wake-up for everything. -/
theorem Attended.write (attended : Attended manager) {woken : List Int} {poll : PollScheduler}
    {adding : List Int} (stepped : manager.poll.write tid woken = some poll) :
    Attended { manager with poll, adding } := by
  unfold PollScheduler.write at stepped
  dsimp only at stepped
  split at stepped
  · rename_i valid
    cases stepped
    have blocked : ∀ other ∈ woken, manager.poll.place other = .blocked := by
      intro other member
      simpa using (List.mem_filter.mp (valid.1 other member)).2
    have pending : ∀ after : TimerScheduler, 0 < after.poll.mEventFd → after.Noticed :=
      fun _ unread => .inl (.inl unread)
    refine ⟨attended.sorted, fun other outside => ?_, fun other waits => ?_, fun other ends => ?_,
      fun other ended => ?_, fun _ => pending _ (Nat.succ_pos _), fun _ => .inl (pending _ (Nat.succ_pos _))⟩
    · by_cases member : other ∈ woken
      · simp [member] at outside
      · exact attended.outside other (by simpa [member] using outside)
    · by_cases member : other ∈ woken
      · simp [member] at waits
      · exact attended.waiting other (by simpa [member] using waits)
    · obtain ⟨near, place⟩ := attended.leaving other ends
      refine ⟨near, ?_⟩
      by_cases member : other ∈ woken
      · simp [blocked other member] at place
      · simpa [member] using place
    · by_cases member : other ∈ woken
      · simp [member] at ended
      · exact attended.ended other (by simpa [member] using ended)
  · contradiction

/-- `tickle` either goes on to write or was heeded already. -/
theorem Attended.testIdle (attended : Attended manager) (tid : Int)
    (permitted : tid ∈ manager.adding → manager.poll.mIdleThreadCount = 0 → manager.Watched) :
    Attended (if manager.poll.mIdleThreadCount > 0 then
        { manager with poll := manager.poll.testIdle tid }
      else { manager with
        poll := manager.poll.testIdle tid, adding := manager.adding.filter (· ≠ tid) }) := by
  have same : PollScheduler.SamePlaces manager.poll (manager.poll.testIdle tid) := by
    unfold PollScheduler.testIdle
    dsimp only
    split <;> exact ⟨rfl, rfl, rfl, rfl⟩
  have along := attended.along same
  split
  · exact along
  · rename_i none
    let tested : TimerScheduler := { manager with poll := manager.poll.testIdle tid }
    let adding := manager.adding.filter (· ≠ tid)
    have noticed : tested.Noticed → ({ tested with adding } : TimerScheduler).Noticed := by
      rintro ((unread | _) | watched)
      · exact .inl (.inl unread)
      · rename_i some
        by_cases caller : tid ∈ manager.adding
        · have watched := permitted caller (Nat.eq_zero_of_not_pos none)
          unfold Watched WillLook at watched
          refine .inr ?_
          unfold Watched WillLook
          rw [same.ids, same.place, same.idleTerm]
          exact watched
        · have kept : adding = manager.adding := List.filter_eq_self.mpr fun other member => by
            simpa using fun equal : other = tid => caller (equal ▸ member)
          exact .inl (.inr (kept ▸ some))
      · exact .inr watched
    exact ⟨along.sorted, along.outside, along.waiting, along.leaving, along.ended,
      fun set => noticed (along.tickled set), fun some => (along.covered some).imp_left noticed⟩

/-- A thread leaves after it found no timer. -/
theorem Attended.exit (attended : Attended manager) {poll : PollScheduler}
    (stepped : manager.poll.step (.exit tid) = some poll) (empty : manager.near tid = .read none) :
    Attended { manager with poll } := by
  simp only [PollScheduler.step] at stepped
  split at stepped
  · rename_i held
    cases stepped
    have moved := PollScheduler.moved_setPlace manager.poll tid .uncount
    have unlooking : ¬ manager.WillLook tid := by
      rintro ⟨_, _, unread | ⟨fd, woken⟩⟩
      · rw [empty] at unread
        cases unread
      · rw [held.2.1] at woken
        cases woken
    refine attended.step_of tid ⟨rfl, moved.others, fun _ _ => rfl, fun other different =>
        Function.update_of_ne different ..⟩ rfl ⟨?_, ?_, ?_, ?_⟩ rfl ?_
      (fun look => absurd look unlooking) fun _ => .inl (by rw [held.2.1]; rfl)
    · intro outside
      exact absurd (moved.here.symm.trans outside) (by decide)
    · intro blocked
      exact absurd (moved.here.symm.trans blocked) (by decide)
    · intro _
      exact ⟨empty, .inl moved.here⟩
    · intro ended
      exact absurd (moved.here.symm.trans ended) (by decide)
    · rintro (unread | adding)
      · exact .inl (.inl unread)
      · exact .inl (.inr adding)
  · contradiction

theorem Attended.interrupt (attended : Attended manager)
    (blocked : manager.poll.place tid = .blocked) :
    Attended { manager.setNear tid (.retry (manager.near tid).front) with
      poll := manager.poll.setPlace tid .uncount } := by
  have moved := PollScheduler.moved_setPlace manager.poll tid .uncount
  have staying := attended.staying tid (by rw [blocked]; decide)
  have unlooking : ¬ manager.WillLook tid := by
    rintro ⟨_, _, unread | ⟨fd, woken⟩⟩
    · exact attended.waiting tid blocked unread
    · rw [blocked] at woken
      cases woken
  refine attended.step_of tid ⟨rfl, moved.others, fun other different =>
      near_setNear_other manager _ different, fun _ _ => rfl⟩ rfl ⟨?_, ?_, ?_, ?_⟩ ?_ ?_
    (fun look => absurd look unlooking) fun _ => .inl (by rw [blocked]; rfl)
  · intro outside
    exact absurd (moved.here.symm.trans outside) (by decide)
  · intro blocked
    exact absurd (moved.here.symm.trans blocked) (by decide)
  · intro ends
    exact absurd (staying.symm.trans ends) Bool.false_ne_true
  · intro ended
    exact absurd (moved.here.symm.trans ended) (by decide)
  · change ((manager.setNear tid (.retry (manager.near tid).front)).near tid).front = _
    rw [near_setNear_self]
    rfl
  · rintro (unread | adding)
    · exact .inl (.inl unread)
    · exact .inl (.inr adding)

theorem Attended.pollStep {event : PollEvent} (attended : Attended manager)
    (permitted : tickleHeeded manager (.poll event))
    (stepped : manager.pollStep event = some after) : Attended after := by
  unfold TimerScheduler.pollStep at stepped
  dsimp only at stepped
  cases event with
  | newFiber =>
      cases stepped
      exact attended.along ⟨rfl, rfl, rfl, rfl⟩
  | schedule tid tasks =>
      obtain ⟨poll, moved, rfl⟩ := Option.map_eq_some_iff.mp stepped
      simp only [PollScheduler.step] at moved
      split at moved
      · obtain ⟨core, pushed, rfl⟩ := Option.map_eq_some_iff.mp moved
        have decided := PollScheduler.decideTickle_samePlaces { manager.poll with core } tid
          ((manager.poll.core.mFiberQueue.isEmpty && !tasks.isEmpty) &&
            manager.poll.mThreadCount != 0)
        have ids : core.mThreadIds = manager.poll.core.mThreadIds := by
          rw [KScheduler.schedule_all pushed]
        exact attended.along ⟨decided.ids.trans ids, decided.place, decided.idleTerm,
          decided.mEventFd⟩
      · contradiction
  | tickle tid =>
      obtain ⟨poll, moved, rfl⟩ := Option.map_eq_some_iff.mp stepped
      simp only [PollScheduler.step] at moved
      split at moved
      · cases moved
        exact attended.along (PollScheduler.decideTickle_samePlaces manager.poll tid true)
      · contradiction
  | testIdle tid =>
      obtain ⟨middle, moved, rfl⟩ := Option.map_eq_some_iff.mp stepped
      obtain ⟨poll, tested, rfl⟩ := Option.map_eq_some_iff.mp moved
      simp only [PollScheduler.step] at tested
      split at tested
      · cases tested
        exact attended.testIdle tid permitted
      · contradiction
  | write tid woken =>
      obtain ⟨middle, moved, rfl⟩ := Option.map_eq_some_iff.mp stepped
      obtain ⟨poll, written, rfl⟩ := Option.map_eq_some_iff.mp moved
      simp only [PollScheduler.step] at written
      split at written
      · exact attended.write written
      · contradiction
  | advance tid =>
      simp only at stepped
      cases place : manager.poll.place tid with
      | loop =>
          simp only [place] at stepped
          exact attended.loop place stepped
      | poll =>
          simp only [place] at stepped
          split at stepped
          · contradiction
          · rename_i ready
            obtain ⟨poll, moved, rfl⟩ := Option.map_eq_some_iff.mp stepped
            exact attended.advances moved (fun _ => ready) fun fd woken => by
              rw [place] at woken
              cases woken
      | woken fd =>
          simp only [place] at stepped
          split at stepped
          · rename_i unread
            obtain ⟨poll, moved, rfl⟩ := Option.map_eq_some_iff.mp stepped
            exact attended.advances moved (fun here => by rw [place] at here; cases here)
              fun _ _ => unread
          · contradiction
      | _ =>
          simp only [place] at stepped
          obtain ⟨poll, moved, rfl⟩ := Option.map_eq_some_iff.mp stepped
          exact attended.advances moved (fun here => by rw [place] at here; cases here)
            fun fd here => by rw [place] at here; cases here
  | leave tid how =>
      obtain ⟨poll, moved, rfl⟩ := Option.map_eq_some_iff.mp stepped
      simp only [PollScheduler.step] at moved
      split at moved
      · obtain ⟨core, left, rfl⟩ := Option.map_eq_some_iff.mp moved
        exact attended.along ⟨(KScheduler.turn_leave left).ids, rfl, rfl, rfl⟩
      · contradiction
  | timeout tid =>
      obtain ⟨poll, moved, rfl⟩ := Option.map_eq_some_iff.mp stepped
      simp only [PollScheduler.step] at moved
      split at moved
      · rename_i held
        cases moved
        exact attended.arrive (PollScheduler.moved_setPlace manager.poll tid (.woken false)) rfl rfl
          rfl (by decide) (attended.staying tid (by rw [held.2]; decide)) (.inl ⟨false, rfl⟩)
      · contradiction
  | stop =>
      cases stepped
      exact attended.along ⟨rfl, rfl, rfl, rfl⟩
  | callRoot tid =>
      obtain ⟨poll, moved, rfl⟩ := Option.map_eq_some_iff.mp stepped
      simp only [PollScheduler.step] at moved
      split at moved
      · rename_i held
        cases moved
        obtain ⟨unread, lives⟩ := attended.outside tid held.2.1
        exact attended.arrive (PollScheduler.moved_setPlace manager.poll tid .loop) rfl rfl rfl
          (by decide) lives (.inr unread)
      · contradiction
  | exit tid =>
      simp only at stepped
      split at stepped
      · rename_i found
        obtain ⟨poll, moved, rfl⟩ := Option.map_eq_some_iff.mp stepped
        exact attended.exit moved found.1
      · contradiction

/-- The thread keeps the deadline of the earliest timer. -/
theorem Attended.getNearTimeout (attended : Attended manager) (now : UInt64)
    (member : tid ∈ manager.poll.core.mThreadIds) (place : manager.poll.place tid = .poll) :
    Attended (manager.getNearTimeout tid now) := by
  have others : ∀ other ≠ tid, (manager.getNearTimeout tid now).near other = manager.near other :=
    fun other different => near_setNear_other manager _ different
  have elsewhere : ∀ other place', manager.poll.place other = place' → place' ≠ .poll →
      other ≠ tid := by
    rintro other place' here away rfl
    exact away (here.symm.trans place)
  refine ⟨?_, fun other outside => ?_, fun other blocked => ?_, fun other ends => ?_,
    attended.ended, fun set => absurd set Bool.false_ne_true, fun nonempty => .inr ⟨tid, member, ?_⟩⟩
  · exact ⟨⟨attended.sorted.unique, attended.sorted.counted⟩, attended.sorted.increasing⟩
  · rw [others other (elsewhere other _ outside (by decide))]
    exact attended.outside other outside
  · rw [others other (elsewhere other _ blocked (by decide))]
    exact attended.waiting other blocked
  · have here := attended.leaving other ends
    have different : other ≠ tid := by
      rintro rfl
      simp [place] at here
    rw [others other different]
    exact here
  · obtain ⟨front, rest, timers⟩ := List.exists_cons_of_ne_nil nonempty
    change manager.timers.mTimers = front :: rest at timers
    have near : (manager.getNearTimeout tid now).near tid =
        .read (some (manager.timers.timer front).mTime) := by
      change (manager.setNear tid _).near tid = _
      rw [near_setNear_self, timers]
      rfl
    refine ⟨(manager.timers.timer front).mTime, by rw [near]; rfl, fun id among => ?_⟩
    have earliest := attended.sorted.increasing.timerOrder.earliest front (by rw [timers]; rfl)
    exact earliest id among

theorem Attended.addTimer (attended : Attended manager) (tid : Int) (now ms : UInt64)
    (cb : Option Nat) (recycle bind : UInt32) :
    Attended (manager.addTimer tid now ms cb recycle bind) := by
  have sorted := attended.sorted.addTimer now ms (cb.map .plain) recycle bind
  let added := manager.addTimer tid now ms cb recycle bind
  have same : PollScheduler.SamePlaces manager.poll added.poll :=
    PollScheduler.decideTickle_samePlaces manager.poll tid _
  have here : ∀ other, added.AttendedAt other := fun other =>
    (attended.at other).congr (congrFun same.place other) rfl (congrFun same.idleTerm other)
  have noticed : manager.Noticed → added.Noticed := by
    rintro ((unread | adding) | watched)
    · exact .inl (.inl (same.mEventFd ▸ unread))
    · refine .inl (.inr ?_)
      change (if _ then tid :: manager.adding else manager.adding) ≠ []
      split
      · simp
      · exact adding
    · refine .inr ?_
      unfold Watched WillLook at watched ⊢
      rw [same.ids, same.place, same.idleTerm]
      exact watched
  cases atFront : (manager.timers.addTimer now ms (cb.map .plain) recycle bind).2 with
  | true =>
      have pending : added.Noticed := by
        refine .inl (.inr ?_)
        change (if (manager.timers.addTimer now ms (cb.map .plain) recycle bind).2 then
          tid :: manager.adding else manager.adding) ≠ []
        rw [atFront]
        simp
      exact ⟨sorted, fun other => (here other).outside, fun other => (here other).waiting,
        fun other => (here other).leaving, fun other => (here other).ended, fun _ => pending,
        fun _ => .inl pending⟩
  | false =>
      have ticked : added.timers.mTickle = manager.timers.mTickle := by
        change (manager.timers.mTickle ||
          (manager.timers.addTimer now ms (cb.map .plain) recycle bind).2) = _
        rw [atFront, Bool.or_false]
      refine ⟨sorted, fun other => (here other).outside, fun other => (here other).waiting,
        fun other => (here other).leaving, fun other => (here other).ended,
        fun set => noticed (attended.tickled (ticked ▸ set)), fun some => ?_⟩
      cases unset : manager.timers.mTickle with
      | true => exact .inl (noticed (attended.tickled unset))
      | false =>
          have behind := addTimer_behind attended.sorted atFront unset
          obtain ⟨new, among⟩ := List.exists_mem_of_ne_nil _ some
          obtain ⟨old, present, _⟩ := behind new among
          refine (attended.covered (List.ne_nil_of_mem present)).imp noticed ?_
          rintro ⟨other, member, deadline, front, earlier⟩
          refine ⟨other, same.ids ▸ member, deadline, front, fun id inside => ?_⟩
          obtain ⟨older, still, le⟩ := behind id inside
          exact UInt64.le_trans (earlier older still) le

theorem Attended.delTimer (attended : Attended manager) (timerId : Nat) :
    Attended { manager with timers := manager.timers.delTimer timerId } := by
  refine ⟨attended.sorted.delTimer timerId, attended.outside, attended.waiting, attended.leaving,
    attended.ended, attended.tickled, fun some => ?_⟩
  have kept : ∀ id ∈ (manager.timers.delTimer timerId).mTimers, id ∈ manager.timers.mTimers :=
    fun _ => List.mem_of_mem_eraseP
  obtain ⟨id, among⟩ := List.exists_mem_of_ne_nil _ some
  refine (attended.covered (List.ne_nil_of_mem (kept id among))).imp_right ?_
  rintro ⟨other, member, deadline, front, earlier⟩
  exact ⟨other, member, deadline, front, fun id inside => earlier id (kept id inside)⟩

/-- A thread behind `epoll_wait` looks at whatever it leaves in the set. -/
theorem Attended.listExpiredTimer (attended : Attended manager) (now : UInt64) {fd : Bool}
    (member : tid ∈ manager.poll.core.mThreadIds) (woken : manager.poll.place tid = .woken fd) :
    Attended { manager.setNear tid .unread with
      timers := (manager.timers.listExpiredTimer now).1 } := by
  have staying := attended.staying tid (by rw [woken]; simp)
  let after : TimerScheduler := { manager.setNear tid .unread with
    timers := (manager.timers.listExpiredTimer now).1 }
  have looks : after.WillLook tid := by
    refine ⟨?_, staying, .inr ⟨fd, woken⟩⟩
    change (manager.poll.place tid).live = true
    rw [woken]
    rfl
  have noticed : after.Noticed := .inr fun _ => ⟨tid, member, looks⟩
  have others : ∀ other ≠ tid, after.near other = manager.near other :=
    fun other different => near_setNear_other manager _ different
  refine ⟨(KTimerManager.listExpiredTimer_spec attended.sorted now).1.toSorted,
    fun other outside => ?_, fun other blocked => ?_, fun other ends => ?_, attended.ended,
    fun _ => noticed, fun _ => .inl noticed⟩
  · rw [others other (by rintro rfl; exact absurd (woken.symm.trans outside) (by simp))]
    exact attended.outside other outside
  · rw [others other (by rintro rfl; exact absurd (woken.symm.trans blocked) (by simp))]
    exact attended.waiting other blocked
  · rw [others other (by rintro rfl; exact absurd (staying.symm.trans ends) (by simp))]
    exact attended.leaving other ends

theorem Attended.step {event : TimerEvent} (attended : Attended manager)
    (permitted : tickleHeeded manager event) (stepped : manager.step event = some after) :
    Attended after := by
  cases event with
  | poll event => exact attended.pollStep permitted stepped
  | release tid =>
      simp only [TimerScheduler.step, TimerScheduler.release] at stepped
      split at stepped
      · split at stepped
        · cases stepped
          exact attended.recount rfl rfl rfl rfl
        · contradiction
      · contradiction
  | interrupt tid =>
      simp only [TimerScheduler.step] at stepped
      split at stepped
      · rename_i held
        cases stepped
        exact attended.interrupt held.2
      · contradiction
  | getNearTimeout tid now =>
      simp only [TimerScheduler.step] at stepped
      split at stepped
      · rename_i held
        cases stepped
        exact attended.getNearTimeout now (mem_of_idle held.1) held.2.1
      · contradiction
  | addTimer tid now ms cb recycle bind =>
      simp only [TimerScheduler.step] at stepped
      split at stepped
      · cases stepped
        exact attended.addTimer tid now ms cb recycle bind
      · contradiction
  | delTimer tid timerId =>
      simp only [TimerScheduler.step] at stepped
      split at stepped
      · cases stepped
        exact attended.delTimer timerId
      · contradiction
  | listExpiredTimer tid now =>
      simp only [TimerScheduler.step] at stepped
      split at stepped
      · rename_i fd woken
        split at stepped
        · rename_i held
          cases stepped
          exact attended.listExpiredTimer now (mem_of_idle held.1) woken
        · contradiction
      · contradiction

end TimerScheduler

/-- While no tickle of a timer at the front goes unheeded, no state is reached
in which all threads wait past the earliest timer. -/
theorem no_lost_timer {mThreadIds : List Int} {user : Bool} {events : List TimerEvent}
    {last : TimerScheduler}
    (run : Run TimerScheduler.step tickleHeeded (TimerScheduler.start mThreadIds user) events
      last) : last.NoTimerForgotten := by
  have attended : last.Attended :=
    run.invariant TimerScheduler.Attended (TimerScheduler.attended_start mThreadIds user)
      fun attended permitted stepped => attended.step permitted stepped
  exact attended.noTimerForgotten

/-- Thread 1 waits without a deadline; a timer added from outside wakes it, and
it waits again for the timer. -/
theorem no_lost_timer_of_one_thread :
    ∃ last, Run TimerScheduler.step tickleHeeded (TimerScheduler.start [1] false)
        [.poll (.advance 1), .poll (.advance 1), .getNearTimeout 1 0, .poll (.advance 1),
          .addTimer 9 0 5 (some 7) 0 0, .poll (.testIdle 9), .poll (.write 9 [1]),
          .listExpiredTimer 1 1, .poll (.advance 1), .poll (.advance 1), .poll (.advance 1),
          .poll (.advance 1), .poll (.advance 1), .getNearTimeout 1 1, .poll (.advance 1)] last ∧
      last.near 1 = .read (some 5) ∧ last.NoTimerForgotten := by
  have run : Run TimerScheduler.step tickleHeeded (TimerScheduler.start [1] false)
      [.poll (.advance 1), .poll (.advance 1), .getNearTimeout 1 0, .poll (.advance 1),
        .addTimer 9 0 5 (some 7) 0 0, .poll (.testIdle 9), .poll (.write 9 [1]),
        .listExpiredTimer 1 1, .poll (.advance 1), .poll (.advance 1), .poll (.advance 1),
        .poll (.advance 1), .poll (.advance 1), .getNearTimeout 1 1, .poll (.advance 1)] _ :=
    Run.of_execute rfl
  exact ⟨_, run, rfl, no_lost_timer run⟩

/-- The only thread is between an `epoll_wait` without a deadline that a signal
ended and the next one while the first timer is added. -/
theorem timer_lost_after_interrupt :
    ∃ last, Run TimerScheduler.step anyStep (TimerScheduler.start [1] false)
        [.poll (.advance 1), .poll (.advance 1), .getNearTimeout 1 0, .poll (.advance 1),
          .interrupt 1, .poll (.advance 1), .addTimer 9 0 5 (some 7) 0 0, .poll (.testIdle 9),
          .poll (.advance 1), .poll (.advance 1), .poll (.advance 1)] last ∧
      ¬ last.NoTimerForgotten := by
  refine ⟨_, Run.of_execute rfl, fun safe => ?_⟩
  rcases safe ⟨1, by decide, rfl⟩ (by decide) (by decide) with (unread | adding) | ⟨tid, member, _, covers⟩
  · exact absurd unread (by decide)
  · exact adding rfl
  · cases List.mem_singleton.mp member
    obtain ⟨deadline, front, _⟩ := covers
    cases front

end FiberKcp.Scheduler
