import FiberKcp.Scheduler.Resumes

namespace FiberKcp.Scheduler

open Data FiberKcp.Fiber

/-! Which fibers with a stack of their own are reset, and which are destroyed:
those whose last `KFiber::SP` is gone. -/

/-- The fiber that the thread runs a callback in. -/
def Phase.callback : Phase → Option Nat
  | .scan | .dispatch _ => none
  | .swapIn slice | .switchIn slice | .running slice | .swapOut slice _ | .returned slice
  | .requeue slice | .setHold slice => if slice.isCb then some slice.fiber else none

/-- `entered` says in which fibers `FiberEntry` has its pointer `curr`.
`handles` are the pointers of user code; `pinned` are those in the frames that
`mRootFiber->call()` left behind.  The other pointers are in the queue and in
`threadloop`. -/
structure FiberOwners where
  manager : FiberScheduler
  entered : Nat → Bool := fun _ => false
  handles : List Nat := []
  pinned : List Nat := []

namespace FiberOwners

def start (mThreadIds : List Int) (user : Bool) : FiberOwners where
  manager := .start mThreadIds user

def mThreadIds (owners : FiberOwners) : List Int := owners.manager.core.mThreadIds

def gFiberId (owners : FiberOwners) : Nat := owners.manager.core.gFiberId

def mState (owners : FiberOwners) : Nat → FiberState := owners.manager.core.mState

def phase (owners : FiberOwners) (tid : Int) : Phase := (owners.manager.core.worker tid).phase

/-- The variable `cbFiber`, gone when `threadloop` has returned. -/
def cbFiber (owners : FiberOwners) (tid : Int) : Option Nat :=
  if owners.manager.spot tid = .ended then none else (owners.manager.core.worker tid).cbFiber

def Queued (owners : FiberOwners) (fiber : Nat) : Prop :=
  ∃ ft ∈ owners.manager.core.mFiberQueue, ft.work.fiber = some fiber

/-- `threadloop` on the thread has a pointer to the fiber. -/
def Holds (owners : FiberOwners) (tid : Int) (fiber : Nat) : Prop :=
  (owners.phase tid).fiber = some fiber ∨ owners.cbFiber tid = some fiber

def Referenced (owners : FiberOwners) (fiber : Nat) : Prop :=
  fiber ∈ owners.handles ∨ fiber ∈ owners.pinned ∨ owners.entered fiber = true ∨
    owners.Queued fiber ∨ ∃ tid ∈ owners.mThreadIds, owners.Holds tid fiber

/-- No callback runs in the thread's `cbFiber`, or the one that did has ended. -/
def Recycled (owners : FiberOwners) (tid : Int) (fiber : Nat) : Prop :=
  owners.cbFiber tid = some fiber ∧
    ((owners.phase tid).fiber = some fiber → (owners.mState fiber).ended = true)

instance (owners : FiberOwners) (fiber : Nat) : Decidable (owners.Queued fiber) :=
  inferInstanceAs (Decidable (∃ ft ∈ _, _))

instance (owners : FiberOwners) (tid : Int) (fiber : Nat) : Decidable (owners.Holds tid fiber) :=
  inferInstanceAs (Decidable (_ ∨ _))

instance (owners : FiberOwners) (fiber : Nat) : Decidable (owners.Referenced fiber) :=
  inferInstanceAs (Decidable (_ ∨ _))

instance (owners : FiberOwners) (tid : Int) (fiber : Nat) :
    Decidable (owners.Recycled tid fiber) :=
  inferInstanceAs (Decidable (_ ∧ _))

end FiberOwners

/-- Beside the steps of the threads: a task keeps the result of
`KFiber::GetThis`, and user code gives up a pointer. -/
inductive OwnerEvent where
  | fiber (event : FiberEvent)
  | getThis (tid : Int)
  | drop (fiber : Nat)
deriving DecidableEq, Repr

namespace FiberOwners

/-- Only fibers that user code has a pointer to are scheduled by it. -/
def hasPointer (owners : FiberOwners) : FiberEvent → Bool
  | .core (.schedule (.fiberPtr fiber) _) => owners.handles.contains fiber
  | _ => true

/-- `FiberEntry` gets its pointer when the fiber is first switched to, and gives
it up before the last switch out. -/
def nextEntered (owners : FiberOwners) : FiberEvent → Nat → Bool
  | .core (.threadloop tid) =>
      match owners.phase tid with
      | .switchIn slice => Function.update owners.entered slice.fiber true
      | _ => owners.entered
  | .core (.leave tid how) =>
      match owners.phase tid with
      | .running slice =>
          if how.ended then Function.update owners.entered slice.fiber false else owners.entered
      | _ => owners.entered
  | _ => owners.entered

def nextHandles (owners : FiberOwners) : FiberEvent → List Nat
  | .core .newFiber => owners.gFiberId :: owners.handles
  | _ => owners.handles

def nextPinned (owners : FiberOwners) : FiberEvent → List Nat
  | .call tid =>
      (owners.phase tid).fiber.toList ++ (owners.cbFiber tid).toList ++ owners.pinned
  | _ => owners.pinned

def drop (owners : FiberOwners) (fiber : Nat) : FiberOwners :=
  { owners with handles := owners.handles.erase fiber }

def step (owners : FiberOwners) : OwnerEvent → Option FiberOwners
  | .fiber event =>
      if owners.hasPointer event then
        (owners.manager.step event).map fun manager =>
          { manager, entered := owners.nextEntered event, handles := owners.nextHandles event,
            pinned := owners.nextPinned event }
      else none
  | .getThis tid =>
      if owners.manager.free tid ∧ owners.manager.spot tid = .loop then
        match owners.phase tid with
        | .running slice => some { owners with handles := slice.fiber :: owners.handles }
        | _ => none
      else none
  | .drop fiber => if fiber ∈ owners.handles then some (owners.drop fiber) else none

/-- The next step of the thread is a `KFiber::reset` of the fiber. -/
def Resets (owners : FiberOwners) (tid : Int) (fiber : Nat) : Prop :=
  match owners.phase tid with
  | .dispatch ft => ft.work.fiber = none ∧ owners.cbFiber tid = some fiber
  | .returned slice =>
      slice.isCb = true ∧ slice.fiber = fiber ∧ (owners.mState fiber).ended = true
  | _ => False

/-- Someone other than the thread will resume the fiber. -/
def ResumedElsewhere (owners : FiberOwners) (tid : Int) (fiber : Nat) : Prop :=
  owners.Queued fiber ∨ ∃ other ≠ tid, (owners.phase other).fiber = some fiber

/-- The assertion in `reset` holds, and the fiber is for the thread's callbacks
only, when it is reset and as long as it is kept for the next one. -/
structure ResetsAlone (owners : FiberOwners) : Prop where
  state : ∀ tid fiber, owners.Resets tid fiber →
    (owners.mState fiber).ended = true ∨ owners.mState fiber = .ready
  reset : ∀ tid fiber, owners.Resets tid fiber → ¬ owners.ResumedElsewhere tid fiber
  recycled : ∀ tid fiber, owners.Recycled tid fiber → ¬ owners.ResumedElsewhere tid fiber

/-- The assertion in `~KFiber` holds in a step: of the fiber whose last pointer
goes, and of the idle fiber of a `threadloop` that returns. -/
structure DestroysEnded (before after : FiberOwners) : Prop where
  fiber : ∀ fiber, before.Referenced fiber → ¬ after.Referenced fiber →
    (after.mState fiber).ended = true
  idle : ∀ tid, before.manager.spot tid ≠ .ended → after.manager.spot tid = .ended →
    (after.manager.idleFiber tid).ended = true

/-- A scan takes no fiber that another thread is at. -/
def TakesFree (owners : FiberOwners) (tid : Int) : Prop :=
  owners.phase tid = .scan →
    ∀ taken ∈ owners.manager.core.takeTask tid owners.manager.core.mFiberQueue,
      ∀ fiber ∈ taken.1.work.fiber, ∀ other ∈ owners.mThreadIds,
        (owners.phase other).fiber ≠ some fiber

/-- `threadloop` returns in the next step of the thread. -/
def Returns (owners : FiberOwners) (tid : Int) : Prop :=
  owners.phase tid = .scan ∧
    owners.manager.core.takeTask tid owners.manager.core.mFiberQueue = none ∧
    owners.manager.idleFiber tid = .term

instance (owners : FiberOwners) (tid : Int) : Decidable (owners.TakesFree tid) :=
  inferInstanceAs (Decidable (_ → _))

instance (owners : FiberOwners) (tid : Int) : Decidable (owners.Returns tid) :=
  inferInstanceAs (Decidable (_ ∧ _))

end FiberOwners

/-- A thread takes no fiber that another one is at, and returns from `threadloop`
without a `cbFiber` or with one that user code has a pointer to.  No callback
ends while its fiber is in the queue, and its fiber is not scheduled after that.
User code gives up its last pointer to a fiber when the fiber has ended. -/
def reusesAlone (owners : FiberOwners) : OwnerEvent → Prop
  | .fiber (.core (.threadloop tid)) => owners.TakesFree tid ∧
      (owners.Returns tid → ∀ fiber ∈ owners.cbFiber tid, fiber ∈ owners.handles)
  | .fiber (.core (.leave tid how)) => how.ended = true →
      ∀ fiber ∈ (owners.phase tid).callback, ¬ owners.Queued fiber
  | .fiber (.core (.schedule (.fiberPtr fiber) _)) =>
      ∀ tid ∈ owners.mThreadIds, ¬ owners.Recycled tid fiber
  | .drop fiber => (owners.mState fiber).ended = true ∨ (owners.drop fiber).Referenced fiber
  | _ => True

instance (owners : FiberOwners) (event : OwnerEvent) : Decidable (reusesAlone owners event) :=
  match event with
  | .fiber (.core (.threadloop tid)) => inferInstanceAs (Decidable (_ ∧
      (_ → ∀ fiber ∈ owners.cbFiber tid, fiber ∈ owners.handles)))
  | .fiber (.core (.leave tid how)) => inferInstanceAs (Decidable (how.ended = true →
      ∀ fiber ∈ (owners.phase tid).callback, ¬ owners.Queued fiber))
  | .fiber (.core (.schedule (.fiberPtr fiber) _)) =>
      inferInstanceAs (Decidable (∀ tid ∈ owners.mThreadIds, ¬ owners.Recycled tid fiber))
  | .drop _ => inferInstanceAs (Decidable (_ = true ∨ _))
  | .fiber (.core .newFiber) | .fiber (.core (.schedule (.cb _) _)) | .fiber (.resumeIdle _)
  | .fiber (.leaveIdle _ _) | .fiber (.idleReturned _) | .fiber (.stop _ _) | .fiber (.call _)
  | .fiber (.endRoot _) | .getThis _ => inferInstanceAs (Decidable True)

/-- What a thread in this phase relies on. -/
def Phase.Relies (owners : FiberOwners) : Phase → Prop
  | .dispatch ft => ∀ fiber, ft.work.fiber = some fiber → owners.mState fiber ≠ .exec
  | .switchIn slice => (owners.mState slice.fiber).ended = false
  | .running slice | .setHold slice => owners.entered slice.fiber = true
  | .swapOut slice _ | .returned slice =>
      (owners.mState slice.fiber).ended = true ∨ owners.entered slice.fiber = true
  | _ => True

namespace FiberOwners

/-- The thread runs callbacks in its `cbFiber` and nothing else.  Between two
callbacks that waits to be reset. -/
structure Stands (owners : FiberOwners) (tid : Int) : Prop where
  callback : ∀ fiber, (owners.phase tid).fiber = some fiber →
    (owners.cbFiber tid = some fiber ↔ (owners.phase tid).callback = some fiber)
  ready : ∀ fiber, owners.cbFiber tid = some fiber → (owners.phase tid).fiber ≠ some fiber →
    owners.mState fiber = .ready
  recycled : ∀ fiber, owners.Recycled tid fiber →
    owners.entered fiber = false ∧ ¬ owners.Queued fiber
  relies : (owners.phase tid).Relies owners

structure Orderly (owners : FiberOwners) : Prop where
  worker : ∀ tid fiber, owners.Holds tid fiber → tid ∈ owners.mThreadIds
  holders : ∀ tid other fiber, owners.Holds tid fiber → owners.Holds other fiber → tid = other
  made : ∀ fiber, owners.Referenced fiber → fiber < owners.gFiberId
  stands : ∀ tid, owners.Stands tid

variable {owners before after : FiberOwners} {tid other : Int} {fiber : Nat}

theorem Orderly.made_held (orderly : owners.Orderly) (held : owners.Holds tid fiber) :
    fiber < owners.gFiberId :=
  orderly.made fiber (.inr (.inr (.inr (.inr ⟨tid, orderly.worker tid fiber held, held⟩))))

theorem holds_of_resets (stands : owners.Stands tid) (resets : owners.Resets tid fiber) :
    owners.Recycled tid fiber := by
  unfold Resets at resets
  split at resets
  · rename_i ft phase
    refine ⟨resets.2, fun found => ?_⟩
    rw [phase] at found
    cases resets.1.symm.trans found
  · rename_i slice phase
    obtain ⟨isCb, rfl, ended⟩ := resets
    have callback : (owners.phase tid).callback = some slice.fiber := by
      rw [phase, Phase.callback, if_pos isCb]
    exact ⟨(stands.callback slice.fiber (by rw [phase]; rfl)).mpr callback, fun _ => ended⟩
  · contradiction

theorem Orderly.resetsAlone (orderly : owners.Orderly) : owners.ResetsAlone := by
  have alone : ∀ tid fiber, owners.Recycled tid fiber → ¬ owners.ResumedElsewhere tid fiber := by
    intro tid fiber recycled elsewhere
    rcases elsewhere with queued | ⟨other, different, found⟩
    · exact ((orderly.stands tid).recycled fiber recycled).2 queued
    · exact different (orderly.holders other tid fiber (.inl found) (.inr recycled.1))
  refine ⟨fun tid fiber resets => ?_,
    fun tid fiber resets => alone tid fiber (holds_of_resets (orderly.stands tid) resets), alone⟩
  obtain ⟨cbFiber, ended⟩ := holds_of_resets (orderly.stands tid) resets
  by_cases found : (owners.phase tid).fiber = some fiber
  · exact .inl (ended found)
  · exact .inr ((orderly.stands tid).ready fiber cbFiber found)

/-- Nothing has changed that a thread other than the acting one relies on. -/
structure Same (before after : FiberOwners) (tid : Int) : Prop where
  phase : after.phase tid = before.phase tid
  cbFiber : after.cbFiber tid = before.cbFiber tid
  mState : ∀ fiber, before.Holds tid fiber → after.mState fiber = before.mState fiber
  entered : ∀ fiber, before.Holds tid fiber → after.entered fiber = before.entered fiber
  queued : ∀ fiber, before.Recycled tid fiber → after.Queued fiber → before.Queued fiber

theorem Same.holds (same : before.Same after tid) :
    after.Holds tid fiber ↔ before.Holds tid fiber := by
  rw [Holds, same.phase, same.cbFiber, Holds]

theorem Same.recycled (same : before.Same after tid) (recycled : after.Recycled tid fiber) :
    before.Recycled tid fiber := by
  obtain ⟨kept, ended⟩ := recycled
  rw [same.cbFiber] at kept
  rw [same.phase, same.mState fiber (.inr kept)] at ended
  exact ⟨kept, ended⟩

theorem Same.stands (same : before.Same after tid) (stands : before.Stands tid) :
    after.Stands tid := by
  refine ⟨fun fiber => ?_, fun fiber => ?_, fun fiber recycled => ?_, ?_⟩
  · rw [same.phase, same.cbFiber]
    exact stands.callback fiber
  · intro kept
    rw [same.cbFiber] at kept
    rw [same.phase, same.mState fiber (.inr kept)]
    exact stands.ready fiber kept
  · have earlier := same.recycled recycled
    obtain ⟨outside, unqueued⟩ := stands.recycled fiber earlier
    rw [same.entered fiber (.inr earlier.1)]
    exact ⟨outside, fun queued => unqueued (same.queued fiber earlier queued)⟩
  · have relies := stands.relies
    have mState := fun fiber found => same.mState fiber (.inl found)
    have entered := fun fiber found => same.entered fiber (.inl found)
    rw [same.phase]
    cases phase : before.phase tid with
    | dispatch ft =>
        rw [phase] at relies mState
        intro fiber found
        rw [mState fiber found]
        exact relies fiber found
    | switchIn slice =>
        rw [phase] at relies mState
        exact (congrArg FiberState.ended (mState slice.fiber rfl)).trans relies
    | running slice | setHold slice =>
        rw [phase] at relies entered
        exact (entered slice.fiber rfl).trans relies
    | swapOut slice _ | returned slice =>
        rw [phase] at relies mState entered
        rw [Phase.Relies, mState slice.fiber rfl, entered slice.fiber rfl]
        exact relies
    | scan | swapIn _ | requeue _ => trivial

/-- The thread has no fiber any more. -/
theorem stands_bare (phase : owners.phase tid = .scan) (cbFiber : owners.cbFiber tid = none) :
    owners.Stands tid := by
  refine ⟨fun fiber found => ?_, fun fiber kept => ?_, fun fiber recycled => ?_, ?_⟩
  · rw [phase] at found
    cases found
  · cases cbFiber.symm.trans kept
  · cases cbFiber.symm.trans recycled.1
  · rw [phase]
    trivial

/-- A step outside `threadloop`, or with which the thread leaves its fibers. -/
theorem Orderly.rest (orderly : before.Orderly) (ids : after.mThreadIds = before.mThreadIds)
    (threads : ∀ tid, before.Same after tid ∨ after.phase tid = .scan ∧ after.cbFiber tid = none)
    (made : ∀ fiber, after.Referenced fiber → fiber < after.gFiberId) : after.Orderly := by
  have holds : ∀ tid fiber, after.Holds tid fiber → before.Holds tid fiber := by
    intro tid fiber held
    rcases threads tid with same | ⟨phase, cbFiber⟩
    · exact same.holds.mp held
    · rcases held with found | kept
      · rw [phase] at found
        cases found
      · cases cbFiber.symm.trans kept
  refine ⟨fun tid fiber held => ?_, fun one two fiber first second => ?_, made, fun tid => ?_⟩
  · exact ids ▸ orderly.worker tid fiber (holds tid fiber held)
  · exact orderly.holders one two fiber (holds one fiber first) (holds two fiber second)
  · rcases threads tid with same | ⟨phase, cbFiber⟩
    · exact same.stands (orderly.stands tid)
    · exact stands_bare phase cbFiber

/-- A step of a thread in `threadloop`. -/
theorem Orderly.turn (orderly : before.Orderly) (ids : after.mThreadIds = before.mThreadIds)
    (worker : tid ∈ before.mThreadIds) (same : ∀ other ≠ tid, before.Same after other)
    (own : ∀ fiber, after.Holds tid fiber → ∀ other ≠ tid, ¬ before.Holds other fiber)
    (made : ∀ fiber, after.Referenced fiber → fiber < after.gFiberId)
    (stands : after.Stands tid) : after.Orderly := by
  refine ⟨fun one fiber held => ?_, fun one two fiber first second => ?_, made, fun one => ?_⟩
  · by_cases acting : one = tid
    · rw [acting, ids]
      exact worker
    · rw [ids]
      exact orderly.worker one fiber ((same one acting).holds.mp held)
  · by_cases acting : one = tid
    · subst acting
      by_cases also : two = one
      · exact also.symm
      · exact absurd ((same two also).holds.mp second) (own fiber first two also)
    · have held := (same one acting).holds.mp first
      by_cases also : two = tid
      · subst also
        exact absurd held (own fiber second one acting)
      · exact orderly.holders one two fiber held ((same two also).holds.mp second)
  · by_cases acting : one = tid
    · exact acting ▸ stands
    · exact (same one acting).stands (orderly.stands one)

/-! ## Steps of one thread -/

/-- A fiber that is given up has ended. -/
def Keeps (before after : FiberOwners) : Prop :=
  ∀ fiber, before.Referenced fiber → after.Referenced fiber ∨ (after.mState fiber).ended = true

def move (owners : FiberOwners) (core : KScheduler) (entered : Nat → Bool) : FiberOwners :=
  { owners with manager := { owners.manager with core }, entered }

theorem cbFiber_move (core : KScheduler) (entered : Nat → Bool)
    (looping : owners.manager.spot tid = .loop) :
    (owners.move core entered).cbFiber tid = (core.worker tid).cbFiber :=
  if_neg (by change owners.manager.spot tid ≠ _; rw [looping]; decide)

theorem cbFiber_looping (looping : owners.manager.spot tid = .loop) :
    owners.cbFiber tid = (owners.manager.core.worker tid).cbFiber :=
  if_neg (by rw [looping]; decide)

/-- The step is about fibers that the thread has, or gets, and nobody else. -/
structure Moves (owners : FiberOwners) (tid : Int) (core : KScheduler) (entered : Nat → Bool) :
    Prop where
  ids : core.mThreadIds = owners.mThreadIds
  gFiberId : owners.gFiberId ≤ core.gFiberId
  worker : ∀ other ≠ tid, core.worker other = owners.manager.core.worker other
  mState : ∀ fiber < owners.gFiberId, ¬ owners.Holds tid fiber →
    core.mState fiber = owners.mState fiber
  inside : ∀ fiber, ¬ owners.Holds tid fiber → entered fiber = owners.entered fiber
  queued : ∀ fiber, ¬ owners.Holds tid fiber → (owners.move core entered).Queued fiber →
    owners.Queued fiber
  taken : ∀ fiber, owners.Queued fiber →
    (owners.move core entered).Queued fiber ∨ (owners.move core entered).Holds tid fiber
  own : ∀ fiber, (owners.move core entered).Holds tid fiber → owners.Holds tid fiber ∨
    fiber < core.gFiberId ∧ ∀ other ≠ tid, ¬ owners.Holds other fiber
  stands : (owners.move core entered).Stands tid
  kept : ∀ fiber, owners.Holds tid fiber →
    (owners.move core entered).Referenced fiber ∨ (core.mState fiber).ended = true

theorem Moves.same {core : KScheduler} {entered : Nat → Bool}
    (moves : owners.Moves tid core entered) (orderly : owners.Orderly) (different : other ≠ tid) :
    owners.Same (owners.move core entered) other := by
  have apart : ∀ fiber, owners.Holds other fiber → ¬ owners.Holds tid fiber :=
    fun fiber held here => different (orderly.holders other tid fiber held here)
  refine ⟨congrArg Worker.phase (moves.worker other different), ?_, fun fiber held => ?_,
    fun fiber held => ?_, fun fiber recycled => ?_⟩
  · change (if owners.manager.spot other = .ended then none else (core.worker other).cbFiber) = _
    rw [moves.worker other different, cbFiber]
  · exact moves.mState fiber (orderly.made_held held) (apart fiber held)
  · exact moves.inside fiber (apart fiber held)
  · exact moves.queued fiber (apart fiber (.inr recycled.1))

theorem Orderly.moves {core : KScheduler} {entered : Nat → Bool} (orderly : owners.Orderly)
    (worker : tid ∈ owners.mThreadIds) (moves : owners.Moves tid core entered) :
    (owners.move core entered).Orderly ∧ owners.Keeps (owners.move core entered) := by
  have same : ∀ other ≠ tid, owners.Same (owners.move core entered) other :=
    fun other different => moves.same orderly different
  have own : ∀ fiber, (owners.move core entered).Holds tid fiber →
      fiber < core.gFiberId ∧ ∀ other ≠ tid, ¬ owners.Holds other fiber := by
    intro fiber held
    rcases moves.own fiber held with before | fresh
    · exact ⟨Nat.lt_of_lt_of_le (orderly.made_held before) moves.gFiberId,
        fun other different also => different (orderly.holders other tid fiber also before)⟩
    · exact fresh
  have earlier : ∀ fiber, owners.Referenced fiber → fiber < core.gFiberId := fun fiber referenced =>
    Nat.lt_of_lt_of_le (orderly.made fiber referenced) moves.gFiberId
  refine ⟨orderly.turn moves.ids worker same (fun fiber held => (own fiber held).2)
    (fun fiber referenced => ?_) moves.stands, fun fiber referenced => ?_⟩
  · by_cases held : owners.Holds tid fiber
    · exact earlier fiber (.inr (.inr (.inr (.inr ⟨tid, worker, held⟩))))
    · rcases referenced with handle | pinned | inside | queued | ⟨other, peer, held'⟩
      · exact earlier fiber (.inl handle)
      · exact earlier fiber (.inr (.inl pinned))
      · exact earlier fiber (.inr (.inr (.inl ((moves.inside fiber held).symm.trans inside))))
      · exact earlier fiber (.inr (.inr (.inr (.inl (moves.queued fiber held queued)))))
      · by_cases acting : other = tid
        · exact (own fiber (acting ▸ held')).1
        · have before := (same other acting).holds.mp held'
          exact earlier fiber (.inr (.inr (.inr (.inr
            ⟨other, orderly.worker other fiber before, before⟩))))
  · by_cases held : owners.Holds tid fiber
    · exact moves.kept fiber held
    · have here : ∀ other, (owners.move core entered).Holds other fiber →
          other ∈ owners.mThreadIds → (owners.move core entered).Referenced fiber := by
        intro other holds peer
        rw [← moves.ids] at peer
        exact .inr (.inr (.inr (.inr ⟨other, peer, holds⟩)))
      rcases referenced with handle | pinned | inside | queued | ⟨other, peer, held'⟩
      · exact .inl (.inl handle)
      · exact .inl (.inr (.inl pinned))
      · exact .inl (.inr (.inr (.inl ((moves.inside fiber held).trans inside))))
      · rcases moves.taken fiber queued with still | holds
        · exact .inl (.inr (.inr (.inr (.inl still))))
        · exact .inl (here tid holds worker)
      · by_cases acting : other = tid
        · exact absurd (acting ▸ held') held
        · exact .inl (here other ((same other acting).holds.mpr held') peer)

theorem queued_move {core : KScheduler} {entered : Nat → Bool}
    (queue : core.mFiberQueue = owners.manager.core.mFiberQueue) :
    (owners.move core entered).Queued fiber ↔ owners.Queued fiber := by
  change (∃ ft ∈ core.mFiberQueue, _) ↔ _
  rw [queue, Queued]

/-- The thread goes on with the fiber that it is at. -/
theorem Moves.slice (orderly : owners.Orderly) (looping : owners.manager.spot tid = .loop)
    (worker : tid ∈ owners.mThreadIds) {next : Phase} {core : KScheduler} {entered : Nat → Bool}
    (current : (owners.phase tid).fiber = some fiber) (stays : next.fiber = some fiber)
    (callback : next.callback = (owners.phase tid).callback)
    (ids : core.mThreadIds = owners.mThreadIds) (gFiberId : core.gFiberId = owners.gFiberId)
    (workers : core.worker = owners.manager.core.worker)
    (queue : core.mFiberQueue = owners.manager.core.mFiberQueue)
    (mState : ∀ other ≠ fiber, core.mState other = owners.mState other)
    (inside : ∀ other ≠ fiber, entered other = owners.entered other)
    (recycled : (owners.phase tid).callback = some fiber → (core.mState fiber).ended = true →
      entered fiber = false ∧ ¬ owners.Queued fiber)
    (relies : next.Relies (owners.move (core.setPhase tid next) entered)) :
    owners.Moves tid (core.setPhase tid next) entered := by
  have phase : (owners.move (core.setPhase tid next) entered).phase tid = next :=
    congrArg Worker.phase (core.worker_setPhase_self tid next)
  have cbFiber : (owners.move (core.setPhase tid next) entered).cbFiber tid =
      owners.cbFiber tid := by
    rw [cbFiber_move _ _ looping, KScheduler.worker_setPhase_self, workers,
      cbFiber_looping looping]
  have holds : ∀ other, (owners.move (core.setPhase tid next) entered).Holds tid other ↔
      owners.Holds tid other := by
    intro other
    rw [Holds, phase, cbFiber, stays, Holds, current]
  have queued : ∀ other, (owners.move (core.setPhase tid next) entered).Queued other ↔
      owners.Queued other := fun _ => queued_move queue
  have apart : ∀ {other}, ¬ owners.Holds tid other → other ≠ fiber := fun outside same =>
    outside (.inl (same ▸ current))
  have stands := orderly.stands tid
  refine ⟨ids, Nat.le_of_eq gFiberId.symm, fun other different => ?_, fun other _ outside => ?_,
    fun other outside => inside other (apart outside), fun other _ => (queued other).mp,
    fun other waits => .inl ((queued other).mpr waits), fun other held => ?_, ?_,
    fun other held => ?_⟩
  · rw [core.worker_setPhase_other tid next different, workers]
  · exact mState other (apart outside)
  · exact .inl ((holds other).mp held)
  · refine ⟨fun other found => ?_, fun other kept elsewhere => ?_, fun other again => ?_, ?_⟩
    · rw [phase, stays] at found
      cases found
      rw [cbFiber, phase, callback]
      exact stands.callback fiber current
    · rw [cbFiber] at kept
      rw [phase, stays] at elsewhere
      have different : other ≠ fiber := fun same => elsewhere (congrArg some same.symm)
      exact (mState other different).trans
        (stands.ready other kept (by rw [current]; exact elsewhere))
    · obtain ⟨kept, ended⟩ := again
      rw [cbFiber] at kept
      rw [phase, stays] at ended
      rw [queued other]
      by_cases same : other = fiber
      · subst same
        exact recycled ((stands.callback other current).mp kept) (ended rfl)
      · have earlier : owners.Recycled tid other := by
          refine ⟨kept, fun found => absurd ?_ same⟩
          rw [current] at found
          exact (Option.some.inj found).symm
        change entered other = false ∧ _
        rw [inside other same]
        exact stands.recycled other earlier
    · rw [phase]
      exact relies
  · have peer : tid ∈ core.mThreadIds := ids ▸ worker
    exact .inl (.inr (.inr (.inr (.inr ⟨tid, peer, (holds other).mpr held⟩))))

/-- While no callback runs, the `cbFiber` is not the fiber at hand. -/
theorem Stands.spare (stands : owners.Stands tid) (none : (owners.phase tid).callback = none)
    (kept : owners.cbFiber tid = some fiber) :
    (owners.phase tid).fiber ≠ some fiber ∧ owners.mState fiber = .ready ∧
      owners.entered fiber = false ∧ ¬ owners.Queued fiber := by
  have apart : (owners.phase tid).fiber ≠ some fiber := fun found =>
    nomatch none.symm.trans ((stands.callback fiber found).mp kept)
  exact ⟨apart, stands.ready fiber kept apart,
    stands.recycled fiber ⟨kept, fun found => absurd found apart⟩⟩

/-- The thread is done with the fiber that it was at. -/
theorem Moves.toScan (looping : owners.manager.spot tid = .loop)
    (worker : tid ∈ owners.mThreadIds) {core : KScheduler}
    (ids : core.mThreadIds = owners.mThreadIds) (gFiberId : core.gFiberId = owners.gFiberId)
    (workers : ∀ other ≠ tid, core.worker other = owners.manager.core.worker other)
    (mState : ∀ fiber, ¬ owners.Holds tid fiber → core.mState fiber = owners.mState fiber)
    (queued : ∀ fiber, ¬ owners.Holds tid fiber →
      (owners.move core owners.entered).Queued fiber → owners.Queued fiber)
    (taken : ∀ fiber, owners.Queued fiber → (owners.move core owners.entered).Queued fiber)
    (cbFiber : ∀ fiber, (core.worker tid).cbFiber = some fiber →
      owners.cbFiber tid = some fiber ∧ core.mState fiber = .ready ∧
        owners.entered fiber = false ∧ ¬ (owners.move core owners.entered).Queued fiber)
    (released : ∀ fiber, owners.cbFiber tid = some fiber →
      (core.worker tid).cbFiber = some fiber ∨ (owners.phase tid).fiber = some fiber)
    (kept : ∀ fiber, (owners.phase tid).fiber = some fiber →
      (core.worker tid).cbFiber = some fiber ∨ owners.entered fiber = true ∨
        (owners.move core owners.entered).Queued fiber ∨ (core.mState fiber).ended = true) :
    owners.Moves tid (core.setPhase tid .scan) owners.entered := by
  have phase : (owners.move (core.setPhase tid .scan) owners.entered).phase tid = .scan :=
    congrArg Worker.phase (core.worker_setPhase_self tid .scan)
  have stays : (owners.move (core.setPhase tid .scan) owners.entered).cbFiber tid =
      (core.worker tid).cbFiber := by
    rw [cbFiber_move _ _ looping, KScheduler.worker_setPhase_self]
  have holds : ∀ fiber, (owners.move (core.setPhase tid .scan) owners.entered).Holds tid fiber →
      (core.worker tid).cbFiber = some fiber := by
    intro fiber held
    rcases held with found | kept
    · rw [phase] at found
      cases found
    · exact stays.symm.trans kept
  have peer : tid ∈ core.mThreadIds := ids ▸ worker
  have referenced : ∀ fiber, (core.worker tid).cbFiber = some fiber ∨ owners.entered fiber = true ∨
      (owners.move core owners.entered).Queued fiber ∨ (core.mState fiber).ended = true →
        (owners.move (core.setPhase tid .scan) owners.entered).Referenced fiber ∨
          (core.mState fiber).ended = true := by
    intro fiber still
    rcases still with here | inside | waits | ended
    · exact .inl (.inr (.inr (.inr (.inr ⟨tid, peer, .inr (stays.trans here)⟩))))
    · exact .inl (.inr (.inr (.inl inside)))
    · exact .inl (.inr (.inr (.inr (.inl waits))))
    · exact .inr ended
  refine ⟨ids, Nat.le_of_eq gFiberId.symm, fun other different => ?_,
    fun fiber _ => mState fiber, fun _ _ => rfl, queued,
    fun fiber waits => .inl (taken fiber waits),
    fun fiber held => .inl (.inr (cbFiber fiber (holds fiber held)).1), ?_, fun fiber held => ?_⟩
  · rw [core.worker_setPhase_other tid _ different]
    exact workers other different
  · refine ⟨fun fiber found => ?_, fun fiber here _ => ?_, fun fiber again => ?_, ?_⟩
    · rw [phase] at found
      cases found
    · exact (cbFiber fiber (stays.symm.trans here)).2.1
    · exact (cbFiber fiber (stays.symm.trans again.1)).2.2
    · rw [phase]
      trivial
  · rcases held with found | here
    · exact referenced fiber (kept fiber found)
    · rcases released fiber here with stillHere | found
      · exact referenced fiber (.inl stillHere)
      · exact referenced fiber (kept fiber found)

end FiberOwners

end FiberKcp.Scheduler
