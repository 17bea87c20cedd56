import FiberKcp.Scheduler.Owners

namespace FiberKcp.Scheduler

open Data FiberKcp.Fiber

/-! Every step of the scheduler against the assertions in `KFiber::reset` and
`~KFiber`. -/

/-- In or around an idle fiber or the root fiber. -/
def FiberEvent.aside : FiberEvent → Bool
  | .core _ | .call _ => false
  | _ => true

namespace FiberScheduler

variable {manager after : FiberScheduler} {tid other : Int} {spot : Spot}

theorem spot_setSpot_self : (manager.setSpot tid spot).spot tid = spot :=
  Function.update_self ..

theorem spot_setSpot_other (different : other ≠ tid) :
    (manager.setSpot tid spot).spot other = manager.spot other :=
  Function.update_of_ne different ..

theorem ended_setSpot (before : manager.spot tid ≠ .ended) (after : spot ≠ .ended) (other : Int) :
    (manager.setSpot tid spot).spot other = .ended ↔ manager.spot other = .ended := by
  by_cases same : other = tid
  · subst same
    rw [spot_setSpot_self]
    exact iff_of_false after before
  · rw [spot_setSpot_other same]

/-- Such a step is not one of the tasks, and no thread returns from `threadloop`. -/
theorem step_aside {event : FiberEvent} (aside : event.aside = true)
    (stepped : manager.step event = some after) :
    after.core = manager.core ∧
      ∀ tid, after.spot tid = .ended ↔ manager.spot tid = .ended := by
  cases event with
  | core event => contradiction
  | call tid => contradiction
  | resumeIdle tid =>
      simp only [step, Option.ite_none_right_eq_some] at stepped
      obtain ⟨⟨_, here⟩, resumed⟩ := stepped
      unfold resumeIdle at resumed
      split at resumed <;> cases resumed
      exact ⟨rfl, ended_setSpot (ne_of_eq_of_ne here (by decide)) (by decide)⟩
  | leaveIdle tid how =>
      simp only [step, Option.ite_none_right_eq_some] at stepped
      obtain ⟨⟨_, here⟩, left⟩ := stepped
      cases left
      exact ⟨rfl, ended_setSpot (ne_of_eq_of_ne here (by decide)) (by decide)⟩
  | idleReturned tid =>
      simp only [step, Option.ite_none_right_eq_some] at stepped
      obtain ⟨⟨_, here⟩, returned⟩ := stepped
      cases returned
      have running : manager.spot tid ≠ .ended := ne_of_eq_of_ne here (by decide)
      unfold idleReturned
      split
      · exact ⟨rfl, ended_setSpot running (by decide)⟩
      · exact ⟨rfl, ended_setSpot running (by decide)⟩
  | stop tid stopping =>
      simp only [step, Option.ite_none_right_eq_some] at stepped
      obtain ⟨_, stopped⟩ := stepped
      cases stopped
      split <;> exact ⟨rfl, fun _ => .rfl⟩
  | endRoot tid =>
      simp only [step, Option.ite_none_right_eq_some] at stepped
      obtain ⟨_, ended⟩ := stepped
      cases ended
      exact ⟨rfl, fun _ => .rfl⟩

end FiberScheduler

namespace FiberOwners

variable {owners before after : FiberOwners} {tid other : Int} {fiber : Nat}

section Phases

variable {core : KScheduler} {slice : Slice}

theorem mState_setState (core : KScheduler) (fiber : Nat) (state : FiberState) :
    (core.setState fiber state).mState fiber = state :=
  Function.update_self ..

theorem Orderly.swapIn (orderly : owners.Orderly) (looping : owners.manager.spot tid = .loop)
    (worker : tid ∈ owners.mThreadIds) (phase : owners.phase tid = .swapIn slice)
    (stepped : owners.manager.core.swapIn tid slice = some core) :
    owners.Moves tid core owners.entered := by
  unfold KScheduler.swapIn at stepped
  split at stepped
  · contradiction
  · cases stepped
    have current : (owners.phase tid).fiber = some slice.fiber := by rw [phase]; rfl
    refine Moves.slice orderly looping worker current rfl
      (by rw [phase]; rfl) rfl rfl rfl rfl
      (fun other different => Function.update_of_ne different ..) (fun _ _ => rfl)
      (fun _ ended => ?_) ?_
    · rw [mState_setState] at ended
      cases ended
    · exact congrArg FiberState.ended (mState_setState _ slice.fiber .exec)

theorem Orderly.switchIn (orderly : owners.Orderly) (looping : owners.manager.spot tid = .loop)
    (worker : tid ∈ owners.mThreadIds) (phase : owners.phase tid = .switchIn slice)
    (stepped : owners.manager.core.switchIn tid slice = some core) :
    owners.Moves tid core (Function.update owners.entered slice.fiber true) := by
  have live := (orderly.stands tid).relies
  rw [phase] at live
  unfold KScheduler.switchIn at stepped
  split at stepped
  · contradiction
  · cases stepped
    have current : (owners.phase tid).fiber = some slice.fiber := by rw [phase]; rfl
    refine Moves.slice orderly looping worker current rfl
      (by rw [phase]; rfl) rfl rfl rfl rfl (fun _ _ => rfl)
      (fun other different => Function.update_of_ne different ..) (fun _ ended => ?_) ?_
    · cases live.symm.trans ended
    · exact Function.update_self ..

theorem Orderly.leave (orderly : owners.Orderly) (looping : owners.manager.spot tid = .loop)
    (worker : tid ∈ owners.mThreadIds) (phase : owners.phase tid = .running slice) {how : Leave}
    (permitted : how.ended = true → ∀ fiber ∈ (owners.phase tid).callback, ¬ owners.Queued fiber)
    (stepped : owners.manager.core.leave tid how = some core) :
    owners.Moves tid core (owners.nextEntered (.core (.leave tid how))) := by
  have inside := (orderly.stands tid).relies
  rw [phase] at inside
  have next : owners.nextEntered (.core (.leave tid how)) =
      if how.ended then Function.update owners.entered slice.fiber false else owners.entered := by
    simp only [nextEntered, phase]
  have running : (owners.manager.core.worker tid).phase = .running slice := phase
  simp only [KScheduler.leave, running] at stepped
  split at stepped
  · contradiction
  · cases stepped
    rw [next]
    have current : (owners.phase tid).fiber = some slice.fiber := by rw [phase]; rfl
    refine Moves.slice orderly looping worker current rfl
      (by rw [phase]; rfl) rfl rfl rfl rfl
      (fun other different => Function.update_of_ne different ..) (fun other different => ?_)
      (fun callback ended => ?_) ?_
    · split
      · exact Function.update_of_ne different ..
      · rfl
    · rw [mState_setState] at ended
      have ends : how.ended = true := by cases how <;> first | rfl | cases ended
      rw [if_pos ends]
      exact ⟨Function.update_self .., permitted ends slice.fiber callback⟩
    · cases ends : how.ended with
      | true =>
          refine .inl ((congrArg FiberState.ended (mState_setState _ slice.fiber _)).trans ?_)
          cases how <;> first | rfl | cases ends
      | false => exact .inr inside

theorem Orderly.swapOut (orderly : owners.Orderly) (looping : owners.manager.spot tid = .loop)
    (worker : tid ∈ owners.mThreadIds) {ended : Bool}
    (phase : owners.phase tid = .swapOut slice ended) :
    owners.Moves tid (owners.manager.core.swapOut tid slice ended) owners.entered := by
  have stands := orderly.stands tid
  have relies := stands.relies
  rw [phase] at relies
  have current : (owners.phase tid).fiber = some slice.fiber := by rw [phase]; rfl
  refine Moves.slice orderly looping worker current rfl (by rw [phase]; rfl) rfl rfl rfl rfl
    (fun _ _ => rfl) (fun _ _ => rfl) (fun callback finished => ?_) relies
  exact stands.recycled slice.fiber
    ⟨(stands.callback slice.fiber current).mpr callback, fun _ => finished⟩

/-- The scan that follows when the thread keeps its `cbFiber`. -/
theorem Orderly.dropped (orderly : owners.Orderly) (looping : owners.manager.spot tid = .loop)
    (worker : tid ∈ owners.mThreadIds) (none : (owners.phase tid).callback = none)
    (ended : ∀ fiber, (owners.phase tid).fiber = some fiber →
      (owners.mState fiber).ended = true) :
    owners.Moves tid (owners.manager.core.setPhase tid .scan) owners.entered := by
  have stands := orderly.stands tid
  refine Moves.toScan looping worker rfl rfl (fun _ _ => rfl) (fun _ _ => rfl) (fun _ _ => id)
    (fun _ => id) (fun fiber kept => ?_) (fun fiber kept => .inl ?_)
    fun fiber found => .inr (.inr (.inr (ended fiber found)))
  · have here : owners.cbFiber tid = some fiber := (cbFiber_looping looping).trans kept
    exact ⟨here, (stands.spare none here).2⟩
  · exact (cbFiber_looping looping).symm.trans kept

theorem gFiberId_release (core : KScheduler) (tid : Int) (slice : Slice) :
    (core.release tid slice).gFiberId = core.gFiberId := by
  unfold KScheduler.release
  split <;> rfl

theorem mState_release (core : KScheduler) (tid : Int) (slice : Slice) :
    (core.release tid slice).mState = core.mState := by
  unfold KScheduler.release
  split <;> rfl

theorem worker_release_other (core : KScheduler) (slice : Slice) (different : other ≠ tid) :
    (core.release tid slice).worker other = core.worker other := by
  unfold KScheduler.release
  split
  · exact core.worker_setCbFiber_other tid none different
  · rfl

theorem cbFiber_release (core : KScheduler) (tid : Int) (slice : Slice) :
    ((core.release tid slice).worker tid).cbFiber =
      if slice.isCb then none else (core.worker tid).cbFiber := by
  unfold KScheduler.release
  split
  · simp [KScheduler.setCbFiber]
  · rfl

/-- The fiber was left before it ended. -/
theorem Orderly.released (orderly : owners.Orderly) (looping : owners.manager.spot tid = .loop)
    (worker : tid ∈ owners.mThreadIds) (current : (owners.phase tid).fiber = some slice.fiber)
    (callback : (owners.phase tid).callback = if slice.isCb then some slice.fiber else none)
    {core : KScheduler} (ids : core.mThreadIds = owners.mThreadIds)
    (gFiberId : core.gFiberId = owners.gFiberId)
    (workers : core.worker = owners.manager.core.worker)
    (mState : ∀ other ≠ slice.fiber, core.mState other = owners.mState other)
    (queued : ∀ other ≠ slice.fiber, (owners.move core owners.entered).Queued other →
      owners.Queued other)
    (taken : ∀ other, owners.Queued other → (owners.move core owners.entered).Queued other)
    (kept : owners.entered slice.fiber = true ∨
      (owners.move core owners.entered).Queued slice.fiber) :
    owners.Moves tid ((core.release tid slice).setPhase tid .scan) owners.entered := by
  have stands := orderly.stands tid
  have same : ∀ other, (owners.move (core.release tid slice) owners.entered).Queued other ↔
      (owners.move core owners.entered).Queued other := by
    intro other
    change (∃ ft ∈ (core.release tid slice).mFiberQueue, _) ↔ _
    rw [KScheduler.release_mFiberQueue]
    rfl
  have apart : ∀ {other}, ¬ owners.Holds tid other → other ≠ slice.fiber := fun outside equal =>
    outside (.inl (equal ▸ current))
  refine Moves.toScan looping worker ((core.release_mThreadIds tid slice).trans ids)
    ((gFiberId_release core tid slice).trans gFiberId) (fun other different => ?_)
    (fun other outside => ?_) (fun other outside waits => ?_) (fun other waits => ?_)
    (fun other here => ?_) (fun other here => ?_) fun other found => ?_
  · rw [worker_release_other core slice different, workers]
  · rw [mState_release]
    exact mState other (apart outside)
  · exact queued other (apart outside) ((same other).mp waits)
  · exact (same other).mpr (taken other waits)
  · rw [cbFiber_release, workers, ← cbFiber_looping looping] at here
    split at here
    · contradiction
    · rename_i isCb
      rw [if_neg isCb] at callback
      obtain ⟨elsewhere, ready, outside, unqueued⟩ := stands.spare callback here
      have different : other ≠ slice.fiber := fun equal => elsewhere (equal ▸ current)
      rw [mState_release, mState other different, same]
      exact ⟨here, ready, outside, fun waits => unqueued (queued other different waits)⟩
  · rw [cbFiber_release, workers, ← cbFiber_looping looping]
    split
    · rename_i isCb
      rw [if_pos isCb] at callback
      have own := (stands.callback slice.fiber current).mpr callback
      rw [← own, here] at current
      exact .inr current
    · exact .inl here
  · rw [current] at found
    cases found
    rcases kept with inside | waits
    · exact .inr (.inl inside)
    · exact .inr (.inr (.inl ((same _).mpr waits)))

theorem queued_push {ft : FiberBindThread} {entered : Nat → Bool} :
    (owners.move (owners.manager.core.push ft) entered).Queued fiber ↔
      owners.Queued fiber ∨ ft.work.fiber = some fiber := by
  change (∃ it ∈ owners.manager.core.mFiberQueue ++ [ft], _) ↔ _
  simp only [List.mem_append, List.mem_singleton, or_and_right, exists_or, exists_eq_left, Queued]

theorem Orderly.requeue (orderly : owners.Orderly) (looping : owners.manager.spot tid = .loop)
    (worker : tid ∈ owners.mThreadIds) (phase : owners.phase tid = .requeue slice) :
    owners.Moves tid (owners.manager.core.requeue tid slice) owners.entered := by
  refine orderly.released looping worker (by rw [phase]; rfl) (by rw [phase]; rfl) rfl rfl rfl
    (fun _ _ => rfl) (fun other different waits => ?_)
    (fun other waits => queued_push.mpr (.inl waits)) (.inr (queued_push.mpr (.inr rfl)))
  rcases queued_push.mp waits with earlier | last
  · exact earlier
  · exact absurd (Option.some.inj last).symm different

theorem Orderly.setHold (orderly : owners.Orderly) (looping : owners.manager.spot tid = .loop)
    (worker : tid ∈ owners.mThreadIds) (phase : owners.phase tid = .setHold slice) :
    owners.Moves tid (owners.manager.core.setHold tid slice) owners.entered := by
  have inside := (orderly.stands tid).relies
  rw [phase] at inside
  exact orderly.released looping worker (by rw [phase]; rfl) (by rw [phase]; rfl) rfl rfl rfl
    (fun other different => Function.update_of_ne different ..) (fun _ _ => id) (fun _ => id)
    (.inl inside)

theorem Orderly.returned (orderly : owners.Orderly) (looping : owners.manager.spot tid = .loop)
    (worker : tid ∈ owners.mThreadIds) (phase : owners.phase tid = .returned slice) :
    owners.Moves tid (owners.manager.core.returned tid slice) owners.entered := by
  have stands := orderly.stands tid
  have relies := stands.relies
  rw [phase] at relies
  have current : (owners.phase tid).fiber = some slice.fiber := by rw [phase]; rfl
  have callback : (owners.phase tid).callback =
      if slice.isCb then some slice.fiber else none := by rw [phase]; rfl
  have goes : ∀ next : Phase, next.fiber = some slice.fiber →
      next.callback = (owners.phase tid).callback → (owners.mState slice.fiber).ended = false →
      next.Relies (owners.move (owners.manager.core.setPhase tid next) owners.entered) →
      owners.Moves tid (owners.manager.core.setPhase tid next) owners.entered := by
    intro next stays same live relies
    exact Moves.slice orderly looping worker current stays same rfl rfl rfl rfl (fun _ _ => rfl)
      (fun _ _ => rfl) (fun _ finished => nomatch live.symm.trans finished) relies
  have finished : (owners.mState slice.fiber).ended = true →
      owners.Moves tid (if slice.isCb then
          (owners.manager.core.makeFiber slice.fiber).setPhase tid .scan
        else owners.manager.core.setPhase tid .scan) owners.entered := by
    intro ended
    cases isCb : slice.isCb with
    | false =>
        rw [isCb] at callback
        refine orderly.dropped looping worker callback fun fiber found => ?_
        cases current.symm.trans found
        exact ended
    | true =>
        rw [isCb] at callback
        have own := (stands.callback slice.fiber current).mpr callback
        have free := stands.recycled slice.fiber ⟨own, fun _ => ended⟩
        -- reset(nullptr)
        refine Moves.toScan looping worker rfl rfl (fun _ _ => rfl) (fun other outside => ?_)
          (fun _ _ => id) (fun _ => id) (fun other here => ?_) (fun other here => .inl ?_)
          fun other found => .inl ?_
        · have different : other ≠ slice.fiber := fun equal => outside (.inr (equal ▸ own))
          exact Function.update_of_ne different ..
        · have kept : owners.cbFiber tid = some other := (cbFiber_looping looping).trans here
          cases own.symm.trans kept
          exact ⟨kept, mState_setState _ slice.fiber .ready, free⟩
        · exact (cbFiber_looping looping).symm.trans here
        · rw [current, ← own] at found
          exact (cbFiber_looping looping).symm.trans found
  unfold KScheduler.returned
  cases state : owners.manager.core.mState slice.fiber with
  | ready => exact goes _ rfl (by rw [phase]; rfl) (congrArg FiberState.ended state) trivial
  | term => exact finished (congrArg FiberState.ended state)
  | except => exact finished (congrArg FiberState.ended state)
  | hold | exec =>
      have live : (owners.mState slice.fiber).ended = false := congrArg FiberState.ended state
      refine goes _ rfl (by rw [phase]; rfl) live ?_
      rcases relies with ended | inside
      · cases live.symm.trans ended
      · exact inside

/-- A callback is about to begin in its fiber, recycled or new. -/
theorem Orderly.begins (orderly : owners.Orderly) (looping : owners.manager.spot tid = .loop)
    (worker : tid ∈ owners.mThreadIds) (free : (owners.phase tid).fiber = none) {core : KScheduler}
    {origin : Int} (cbFiber : (core.worker tid).cbFiber = some fiber)
    (own : owners.cbFiber tid = some fiber ∨
      owners.cbFiber tid = none ∧ owners.gFiberId ≤ fiber)
    (ids : core.mThreadIds = owners.mThreadIds) (gFiberId : owners.gFiberId ≤ core.gFiberId)
    (made : fiber < core.gFiberId)
    (workers : ∀ other ≠ tid, core.worker other = owners.manager.core.worker other)
    (queue : core.mFiberQueue = owners.manager.core.mFiberQueue)
    (mState : ∀ other ≠ fiber, core.mState other = owners.mState other)
    (ready : core.mState fiber = .ready) :
    owners.Moves tid (core.setPhase tid (.swapIn ⟨fiber, origin, true, 0⟩)) owners.entered := by
  have phase : (owners.move (core.setPhase tid (.swapIn ⟨fiber, origin, true, 0⟩))
      owners.entered).phase tid = .swapIn ⟨fiber, origin, true, 0⟩ :=
    congrArg Worker.phase (core.worker_setPhase_self tid _)
  have stays : (owners.move (core.setPhase tid (.swapIn ⟨fiber, origin, true, 0⟩))
      owners.entered).cbFiber tid = some fiber := by
    rw [cbFiber_move _ _ looping, KScheduler.worker_setPhase_self, cbFiber]
  have here : (owners.move (core.setPhase tid (.swapIn ⟨fiber, origin, true, 0⟩))
      owners.entered).Holds tid fiber := .inr stays
  have only : ∀ other, (owners.move (core.setPhase tid (.swapIn ⟨fiber, origin, true, 0⟩))
      owners.entered).Holds tid other → fiber = other := by
    intro other held
    rcases held with found | kept
    · rw [phase] at found
      exact Option.some.inj found
    · exact Option.some.inj (stays.symm.trans kept)
  have peer : tid ∈ core.mThreadIds := ids ▸ worker
  have queued : ∀ other, (owners.move (core.setPhase tid (.swapIn ⟨fiber, origin, true, 0⟩))
      owners.entered).Queued other ↔ owners.Queued other := fun _ => queued_move queue
  refine ⟨ids, gFiberId, fun other different => ?_, fun other older outside => mState other ?_,
    fun _ _ => rfl, fun other _ => (queued other).mp,
    fun other waits => .inl ((queued other).mpr waits), fun other held => ?_, ?_,
    fun other held => .inl ?_⟩
  · rw [core.worker_setPhase_other tid _ different]
    exact workers other different
  · rintro rfl
    rcases own with recycled | new
    · exact outside (.inr recycled)
    · exact absurd older (Nat.not_lt.mpr new.2)
  · cases only other held
    rcases own with recycled | new
    · exact .inl (.inr recycled)
    · refine .inr ⟨made, fun thread _ older => ?_⟩
      exact absurd (orderly.made_held older) (Nat.not_lt.mpr new.2)
  · refine ⟨fun other found => ?_, fun other kept elsewhere => ?_, fun other again => ?_, ?_⟩
    · cases only other (.inl found)
      rw [stays, phase]
      rfl
    · cases only other (.inr kept)
      rw [phase] at elsewhere
      exact absurd rfl elsewhere
    · cases only other (.inr again.1)
      have ended := again.2 (by rw [phase]; rfl)
      change (core.mState fiber).ended = true at ended
      rw [ready] at ended
      cases ended
    · rw [phase]
      trivial
  · rcases held with found | kept
    · cases free.symm.trans found
    · rcases own with recycled | new
      · cases recycled.symm.trans kept
        exact .inr (.inr (.inr (.inr ⟨tid, peer, here⟩)))
      · cases new.1.symm.trans kept

theorem Orderly.dispatch (orderly : owners.Orderly) (looping : owners.manager.spot tid = .loop)
    (worker : tid ∈ owners.mThreadIds) {ft : FiberBindThread}
    (phase : owners.phase tid = .dispatch ft)
    (stepped : owners.manager.core.dispatch tid ft = some core) :
    owners.Moves tid core owners.entered := by
  have waiting := (orderly.stands tid).relies
  rw [phase] at waiting
  have callback : (owners.phase tid).callback = none := by rw [phase]; rfl
  unfold KScheduler.dispatch at stepped
  split at stepped
  · rename_i fiber work
    have current : (owners.phase tid).fiber = some fiber := by
      rw [phase, Phase.fiber, work]
      rfl
    split at stepped
    · cases stepped
      exact Moves.slice orderly looping worker current rfl callback.symm rfl rfl rfl rfl
        (fun _ _ => rfl) (fun _ _ => rfl) (fun found => by cases callback.symm.trans found) trivial
    · rename_i state
      cases stepped
      refine orderly.dropped looping worker callback fun other found => ?_
      cases current.symm.trans found
      have notExec : owners.mState fiber ≠ .exec := waiting fiber (by rw [work]; rfl)
      have except : owners.mState fiber = .except := by
        by_contra notExcept
        exact state ⟨notExec, notExcept⟩
      exact congrArg FiberState.ended except
  · rename_i callback' work
    have free : (owners.phase tid).fiber = none := by
      rw [phase, Phase.fiber, work]
      rfl
    split at stepped
    · rename_i fiber kept
      split at stepped
      · cases stepped
        have own : owners.cbFiber tid = some fiber := (cbFiber_looping looping).trans kept
        exact orderly.begins looping worker free kept (.inl own) rfl (Nat.le_refl _)
          (orderly.made_held (.inr own)) (fun _ _ => rfl) rfl
          (fun other different => Function.update_of_ne different ..)
          (mState_setState _ fiber .ready)
      · contradiction
    · rename_i kept
      cases stepped
      have own : owners.cbFiber tid = none := (cbFiber_looping looping).trans kept
      refine orderly.begins looping worker free ?_ (.inr ⟨own, Nat.le_refl _⟩) rfl
        (Nat.le_succ _) (Nat.lt_succ_self _) (fun other different => ?_) rfl
        (fun other different => Function.update_of_ne different ..)
        (mState_setState _ owners.gFiberId .ready)
      · simp [KScheduler.setCbFiber]
      · exact KScheduler.worker_setCbFiber_other _ tid _ different

/-- A task is taken. -/
theorem Orderly.takes (orderly : owners.Orderly) (looping : owners.manager.spot tid = .loop)
    (worker : tid ∈ owners.mThreadIds) (phase : owners.phase tid = .scan)
    (permitted : owners.TakesFree tid) {ft : FiberBindThread} {left : List FiberBindThread}
    (taken : owners.manager.core.takeTask tid owners.manager.core.mFiberQueue = some (ft, left)) :
    owners.Moves tid
      ({ owners.manager.core with mFiberQueue := left }.setPhase tid (.dispatch ft))
      owners.entered := by
  have stands := orderly.stands tid
  obtain ⟨front, back, queue, rfl, kept⟩ := KScheduler.takeTask_cases taken
  have member : ∀ it, it ∈ owners.manager.core.mFiberQueue ↔ it = ft ∨ it ∈ front ++ back := by
    intro it
    simp only [queue, List.mem_append, List.mem_cons]
    tauto
  generalize core : { owners.manager.core with mFiberQueue := front ++ back }.setPhase tid
    (.dispatch ft) = next
  have here : next.worker tid = { owners.manager.core.worker tid with phase := .dispatch ft } := by
    rw [← core]
    exact KScheduler.worker_setPhase_self _ tid _
  have now : (owners.move next owners.entered).phase tid = .dispatch ft :=
    congrArg Worker.phase here
  have stays : (owners.move next owners.entered).cbFiber tid = owners.cbFiber tid := by
    rw [cbFiber_move _ _ looping, here, cbFiber_looping looping]
  have queued : ∀ fiber, (owners.move next owners.entered).Queued fiber → owners.Queued fiber := by
    rintro fiber ⟨it, among, found⟩
    rw [← core] at among
    exact ⟨it, (member it).mpr (.inr among), found⟩
  have spare : ∀ fiber, owners.cbFiber tid = some fiber → owners.Recycled tid fiber :=
    fun fiber kept => ⟨kept, fun found => by rw [phase] at found; cases found⟩
  have task : ∀ fiber, ft.work.fiber = some fiber → owners.Queued fiber := fun fiber found =>
    ⟨ft, (member ft).mpr (.inl rfl), found⟩
  refine ⟨core ▸ rfl, core ▸ Nat.le_refl _, fun other different => ?_, fun _ _ _ => core ▸ rfl,
    fun _ _ => rfl, fun fiber _ => queued fiber, fun fiber waits => ?_, fun fiber held => ?_, ?_,
    fun fiber held => .inl ?_⟩
  · rw [← core]
    exact KScheduler.worker_setPhase_other _ tid _ different
  · obtain ⟨it, among, found⟩ := waits
    rcases (member it).mp among with rfl | other
    · exact .inr (.inl (by rw [now]; exact found))
    · refine .inl ⟨it, ?_, found⟩
      rw [← core]
      exact other
  · rcases held with found | kept
    · rw [now] at found
      have waits := task fiber found
      refine .inr ⟨core ▸ orderly.made fiber (.inr (.inr (.inr (.inl waits)))),
        fun other different held => ?_⟩
      have free : (owners.phase other).fiber ≠ some fiber :=
        permitted phase (ft, front ++ back) taken fiber found other
          (orderly.worker other fiber held)
      rcases held with holds | keeps
      · exact free holds
      · have recycled : owners.Recycled other fiber := ⟨keeps, fun found => absurd found free⟩
        exact ((orderly.stands other).recycled fiber recycled).2 waits
    · exact .inl (.inr (stays.symm.trans kept))
  · refine ⟨fun fiber found => ?_, fun fiber kept _ => ?_, fun fiber again => ?_, ?_⟩
    · rw [now] at found ⊢
      rw [stays]
      refine ⟨fun kept => ?_, nofun⟩
      exact absurd (task fiber found) (stands.recycled fiber (spare fiber kept)).2
    · rw [stays] at kept
      have ready := stands.ready fiber kept (by rw [phase]; nofun)
      rw [← core]
      exact ready
    · have earlier := spare fiber (stays.symm.trans again.1)
      obtain ⟨outside, unqueued⟩ := stands.recycled fiber earlier
      exact ⟨outside, fun waits => unqueued (queued fiber waits)⟩
    · rw [now]
      intro fiber found
      have waiting : owners.mState fiber ≠ .exec := by
        intro exec
        cases work : ft.work with
        | cb _ => rw [work] at found; cases found
        | fiberPtr same =>
            rw [work] at found
            cases found
            change owners.manager.core.mState fiber = .exec at exec
            simp [KScheduler.skips, work, exec] at kept
      rw [← core]
      exact waiting
  · rcases held with found | kept
    · rw [phase] at found
      cases found
    · refine .inr (.inr (.inr (.inr ⟨tid, ?_, .inr (stays.trans kept)⟩)))
      rw [← core]
      exact worker

end Phases

/-- A step of `threadloop` in its loop that does not end a scan without a task. -/
theorem Orderly.advances (orderly : owners.Orderly) (looping : owners.manager.spot tid = .loop)
    (worker : tid ∈ owners.mThreadIds) (permitted : owners.TakesFree tid)
    (busy : ¬ (owners.phase tid = .scan ∧
      owners.manager.core.takeTask tid owners.manager.core.mFiberQueue = none))
    {core : KScheduler} (stepped : owners.manager.core.threadloop tid = some core) :
    owners.Moves tid core (owners.nextEntered (.core (.threadloop tid))) := by
  have entered : (∀ slice, owners.phase tid ≠ .switchIn slice) →
      owners.nextEntered (.core (.threadloop tid)) = owners.entered := by
    intro other
    cases phase : owners.phase tid with
    | switchIn slice => exact absurd phase (other slice)
    | _ => simp only [nextEntered, phase]
  have here : (owners.manager.core.worker tid).phase = owners.phase tid := rfl
  rw [KScheduler.threadloop, here] at stepped
  cases phase : owners.phase tid with
  | scan =>
      simp only [phase] at stepped
      cases stepped
      rw [entered (by rw [phase]; nofun), KScheduler.scan]
      split
      · rename_i none
        exact absurd ⟨phase, none⟩ busy
      · rename_i taken
        exact orderly.takes looping worker phase permitted taken
  | dispatch ft =>
      simp only [phase] at stepped
      rw [entered (by rw [phase]; nofun)]
      exact orderly.dispatch looping worker phase stepped
  | swapIn slice =>
      simp only [phase] at stepped
      rw [entered (by rw [phase]; nofun)]
      exact orderly.swapIn looping worker phase stepped
  | switchIn slice =>
      simp only [phase] at stepped
      have next : owners.nextEntered (.core (.threadloop tid)) =
          Function.update owners.entered slice.fiber true := by
        simp only [nextEntered, phase]
      rw [next]
      exact orderly.switchIn looping worker phase stepped
  | running slice =>
      simp only [phase] at stepped
      contradiction
  | swapOut slice ended =>
      simp only [phase] at stepped
      cases stepped
      rw [entered (by rw [phase]; nofun)]
      exact orderly.swapOut looping worker phase
  | returned slice =>
      simp only [phase] at stepped
      cases stepped
      rw [entered (by rw [phase]; nofun)]
      exact orderly.returned looping worker phase
  | requeue slice =>
      simp only [phase] at stepped
      cases stepped
      rw [entered (by rw [phase]; nofun)]
      exact orderly.requeue looping worker phase
  | setHold slice =>
      simp only [phase] at stepped
      cases stepped
      rw [entered (by rw [phase]; nofun)]
      exact orderly.setHold looping worker phase

/-! ## The other steps -/

theorem Same.of_core (core : after.manager.core = before.manager.core)
    (entered : after.entered = before.entered)
    (cbFiber : after.cbFiber tid = before.cbFiber tid) : before.Same after tid := by
  refine ⟨?_, cbFiber, fun fiber _ => ?_, fun fiber _ => congrFun entered fiber,
    fun fiber _ queued => ?_⟩
  · exact congrArg (fun core : KScheduler => (core.worker tid).phase) core
  · exact congrArg (fun core : KScheduler => core.mState fiber) core
  · rw [Queued, core] at queued
    exact queued

theorem cbFiber_congr (core : after.manager.core = before.manager.core)
    (spot : after.manager.spot tid = .ended ↔ before.manager.spot tid = .ended) :
    after.cbFiber tid = before.cbFiber tid := by
  rw [cbFiber, core, cbFiber]
  simp only [spot]

/-- Nothing changes but the references to the fibers. -/
theorem Orderly.refer (orderly : before.Orderly)
    (core : after.manager.core = before.manager.core) (entered : after.entered = before.entered)
    (cbFiber : ∀ tid, after.cbFiber tid = before.cbFiber tid ∨
      before.phase tid = .scan ∧ after.cbFiber tid = none)
    (handles : ∀ fiber ∈ after.handles, before.Referenced fiber)
    (pinned : after.pinned = before.pinned) : after.Orderly := by
  have threads : ∀ tid, before.Same after tid ∨
      after.phase tid = .scan ∧ after.cbFiber tid = none := by
    intro tid
    rcases cbFiber tid with same | ⟨scan, none⟩
    · exact .inl (.of_core core entered same)
    · refine .inr ⟨?_, none⟩
      rw [phase, core]
      exact scan
  refine orderly.rest (congrArg KScheduler.mThreadIds core) threads fun fiber referenced => ?_
  rw [gFiberId, core]
  refine orderly.made fiber ?_
  rcases referenced with handle | pin | inside | queued | ⟨tid, worker, held⟩
  · exact handles fiber handle
  · exact .inr (.inl (pinned ▸ pin))
  · exact .inr (.inr (.inl (entered ▸ inside)))
  · rw [Queued, core] at queued
    exact .inr (.inr (.inr (.inl queued)))
  · rw [mThreadIds, core] at worker
    refine .inr (.inr (.inr (.inr ⟨tid, worker, ?_⟩)))
    rcases threads tid with same | ⟨scan, none⟩
    · exact same.holds.mp held
    · rcases held with found | kept
      · rw [scan] at found
        cases found
      · cases none.symm.trans kept

/-- Of the references only pointers of user code and `cbFiber`s have gone. -/
theorem keeps_of_refer (core : after.manager.core = before.manager.core)
    (entered : after.entered = before.entered) (pinned : after.pinned = before.pinned)
    (cbFiber : ∀ tid ∈ before.mThreadIds, ∀ fiber, before.cbFiber tid = some fiber →
      after.cbFiber tid = some fiber ∨ fiber ∈ after.handles)
    (handles : ∀ fiber ∈ before.handles,
      after.Referenced fiber ∨ (after.mState fiber).ended = true) : before.Keeps after := by
  intro fiber referenced
  have ids : after.mThreadIds = before.mThreadIds := congrArg KScheduler.mThreadIds core
  rcases referenced with handle | pin | inside | queued | ⟨tid, worker, found | kept⟩
  · exact handles fiber handle
  · exact .inl (.inr (.inl (pinned ▸ pin)))
  · exact .inl (.inr (.inr (.inl (entered ▸ inside))))
  · refine .inl (.inr (.inr (.inr (.inl ?_))))
    rw [Queued, core]
    exact queued
  · refine .inl (.inr (.inr (.inr (.inr ⟨tid, ids ▸ worker, .inl ?_⟩))))
    rw [phase, core]
    exact found
  · rcases cbFiber tid worker fiber kept with still | handle
    · exact .inl (.inr (.inr (.inr (.inr ⟨tid, ids ▸ worker, .inr still⟩))))
    · exact .inl (.inl handle)

/-- A step in or around an idle fiber or the root fiber. -/
theorem Orderly.idles (orderly : owners.Orderly) {manager : FiberScheduler}
    (core : manager.core = owners.manager.core)
    (spot : ∀ tid, manager.spot tid = .ended ↔ owners.manager.spot tid = .ended) :
    ({ owners with manager } : FiberOwners).Orderly ∧ owners.Keeps { owners with manager } := by
  have same : ∀ tid, ({ owners with manager } : FiberOwners).cbFiber tid = owners.cbFiber tid :=
    fun tid => cbFiber_congr core (spot tid)
  exact ⟨orderly.refer core rfl (fun tid => .inl (same tid)) (fun _ => .inl) rfl,
    keeps_of_refer core rfl rfl (fun tid _ fiber kept => .inl ((same tid).trans kept))
      fun _ handle => .inl (.inl handle)⟩

/-- A scan without a task: the thread turns to its idle fiber, or returns. -/
theorem Orderly.idle (orderly : owners.Orderly) (looping : owners.manager.spot tid = .loop)
    (scan : owners.phase tid = .scan)
    (none : owners.manager.core.takeTask tid owners.manager.core.mFiberQueue = none)
    (permitted : owners.Returns tid → ∀ fiber ∈ owners.cbFiber tid, fiber ∈ owners.handles)
    {spot : Spot}
    (next : spot = if owners.manager.idleFiber tid = .term then .ended else .swapIdle) :
    ({ owners with manager := owners.manager.setSpot tid spot } : FiberOwners).Orderly ∧
      owners.Keeps { owners with manager := owners.manager.setSpot tid spot } := by
  have others : ∀ other ≠ tid, ({ owners with
      manager := owners.manager.setSpot tid spot } : FiberOwners).cbFiber other =
        owners.cbFiber other := by
    intro other different
    refine cbFiber_congr rfl ?_
    change (owners.manager.setSpot tid spot).spot other = .ended ↔ _
    rw [FiberScheduler.spot_setSpot_other different]
  have here : ({ owners with
      manager := owners.manager.setSpot tid spot } : FiberOwners).cbFiber tid =
        if owners.manager.idleFiber tid = .term then Option.none else owners.cbFiber tid := by
    change (if (owners.manager.setSpot tid spot).spot tid = .ended then Option.none
      else (owners.manager.core.worker tid).cbFiber) = _
    rw [FiberScheduler.spot_setSpot_self, next, cbFiber_looping looping]
    split
    · exact if_pos rfl
    · exact if_neg (by decide)
  refine ⟨orderly.refer rfl rfl (fun other => ?_) (fun _ => .inl) rfl,
    keeps_of_refer rfl rfl rfl (fun other _ fiber kept => ?_) fun _ handle => .inl (.inl handle)⟩
  · by_cases same : other = tid
    · subst same
      rw [here]
      split
      · exact .inr ⟨scan, rfl⟩
      · exact .inl rfl
    · exact .inl (others other same)
  · by_cases same : other = tid
    · subst same
      rw [here]
      split
      · rename_i term
        exact .inr (permitted ⟨scan, none, term⟩ fiber kept)
      · exact .inl kept
    · exact .inl ((others other same).trans kept)

theorem Orderly.loop (orderly : owners.Orderly) (looping : owners.manager.spot tid = .loop)
    (permitted : reusesAlone owners (.fiber (.core (.threadloop tid)))) {manager : FiberScheduler}
    (stepped : owners.manager.loop tid = some manager) :
    ({ owners with
      manager
      entered := owners.nextEntered (.core (.threadloop tid)) } : FiberOwners).Orderly ∧
    owners.Keeps { owners with
      manager
      entered := owners.nextEntered (.core (.threadloop tid)) } := by
  obtain ⟨core, moved, rfl⟩ := Option.map_eq_some_iff.mp stepped
  simp only [KScheduler.step, Option.ite_none_right_eq_some] at moved
  obtain ⟨worker, moved⟩ := moved
  split
  · rename_i rested
    obtain ⟨scan, none⟩ := rested
    have entered : owners.nextEntered (.core (.threadloop tid)) = owners.entered := by
      have phase : owners.phase tid = .scan := scan
      simp only [nextEntered, phase]
    simp only [KScheduler.threadloop, scan, KScheduler.scan, none] at moved
    cases moved
    rw [entered]
    exact orderly.idle looping scan none permitted.2 rfl
  · rename_i busy
    exact orderly.moves worker (orderly.advances looping worker permitted.1 busy moved)

/-- User code makes a fiber. -/
theorem Orderly.newFiber (orderly : owners.Orderly) :
    ({ owners with
      manager := { owners.manager with core := owners.manager.core.newFiber }
      handles := owners.gFiberId :: owners.handles } : FiberOwners).Orderly ∧
    owners.Keeps { owners with
      manager := { owners.manager with core := owners.manager.core.newFiber }
      handles := owners.gFiberId :: owners.handles } := by
  refine ⟨orderly.rest rfl (fun tid => .inl ⟨rfl, rfl, fun fiber held => ?_, fun _ _ => rfl,
    fun _ _ => id⟩) fun fiber referenced => ?_, fun fiber referenced => .inl ?_⟩
  · exact Function.update_of_ne (Nat.ne_of_lt (orderly.made_held held)) ..
  · rcases referenced with handle | others
    · rcases List.mem_cons.mp handle with rfl | older
      · exact Nat.lt_succ_self _
      · exact Nat.lt_succ_of_lt (orderly.made fiber (.inl older))
    · exact Nat.lt_succ_of_lt (orderly.made fiber (.inr others))
  · rcases referenced with handle | others
    · exact .inl (List.mem_cons_of_mem _ handle)
    · exact .inr others

theorem Orderly.schedule (orderly : owners.Orderly) {ft : FiberBindThread}
    (pointer : ∀ fiber, ft.work.fiber = some fiber → fiber ∈ owners.handles)
    (permitted : ∀ fiber, ft.work.fiber = some fiber →
      ∀ tid ∈ owners.mThreadIds, ¬ owners.Recycled tid fiber) :
    (owners.move (owners.manager.core.push ft) owners.entered).Orderly ∧
      owners.Keeps (owners.move (owners.manager.core.push ft) owners.entered) := by
  refine ⟨orderly.rest rfl (fun tid => .inl ⟨rfl, rfl, fun _ _ => rfl, fun _ _ => rfl,
    fun fiber recycled queued => ?_⟩) fun fiber referenced => orderly.made fiber ?_,
    fun fiber referenced => .inl ?_⟩
  · rcases queued_push.mp queued with earlier | last
    · exact earlier
    · have worker := orderly.worker tid fiber (.inr recycled.1)
      exact absurd recycled (permitted fiber last tid worker)
  · rcases referenced with handle | pin | inside | queued | held
    · exact .inl handle
    · exact .inr (.inl pin)
    · exact .inr (.inr (.inl inside))
    · rcases queued_push.mp queued with earlier | last
      · exact .inr (.inr (.inr (.inl earlier)))
      · exact .inl (pointer fiber last)
    · exact .inr (.inr (.inr (.inr held)))
  · rcases referenced with handle | pin | inside | queued | held
    · exact .inl handle
    · exact .inr (.inl pin)
    · exact .inr (.inr (.inl inside))
    · exact .inr (.inr (.inr (.inl (queued_push.mpr (.inl queued)))))
    · exact .inr (.inr (.inr (.inr held)))

theorem mem_nextPinned : fiber ∈ owners.nextPinned (.call tid) ↔
    owners.Holds tid fiber ∨ fiber ∈ owners.pinned := by
  simp only [nextPinned, List.mem_append, Option.mem_toList, Holds]

/-- The thread leaves its frames behind. -/
theorem Orderly.leaves (orderly : before.Orderly)
    (ids : after.mThreadIds = before.mThreadIds) (gFiberId : after.gFiberId = before.gFiberId)
    (others : ∀ other ≠ tid, before.Same after other) (scan : after.phase tid = .scan)
    (none : after.cbFiber tid = none) (entered : after.entered = before.entered)
    (queued : ∀ fiber, after.Queued fiber ↔ before.Queued fiber)
    (handles : after.handles = before.handles)
    (pinned : after.pinned = before.nextPinned (.call tid)) :
    after.Orderly ∧ before.Keeps after := by
  have threads : ∀ other, before.Same after other ∨
      after.phase other = .scan ∧ after.cbFiber other = Option.none := by
    intro other
    by_cases same : other = tid
    · exact .inr (same ▸ ⟨scan, none⟩)
    · exact .inl (others other same)
  refine ⟨orderly.rest ids threads fun fiber referenced => ?_, fun fiber referenced => .inl ?_⟩
  · rw [gFiberId]
    rcases referenced with handle | pin | inside | waits | ⟨other, worker, held⟩
    · exact orderly.made fiber (.inl (handles ▸ handle))
    · rw [pinned, mem_nextPinned] at pin
      rcases pin with held | earlier
      · exact orderly.made_held held
      · exact orderly.made fiber (.inr (.inl earlier))
    · exact orderly.made fiber (.inr (.inr (.inl (entered ▸ inside))))
    · exact orderly.made fiber (.inr (.inr (.inr (.inl ((queued fiber).mp waits)))))
    · rcases threads other with same | ⟨bare, gone⟩
      · exact orderly.made_held (same.holds.mp held)
      · rcases held with found | kept
        · rw [bare] at found
          cases found
        · cases gone.symm.trans kept
  · rcases referenced with handle | pin | inside | waits | ⟨other, worker, held⟩
    · exact .inl (handles ▸ handle)
    · exact .inr (.inl (pinned ▸ mem_nextPinned.mpr (.inr pin)))
    · exact .inr (.inr (.inl (entered ▸ inside)))
    · exact .inr (.inr (.inr (.inl ((queued fiber).mpr waits))))
    · by_cases same : other = tid
      · subst same
        exact .inr (.inl (pinned ▸ mem_nextPinned.mpr (.inl held)))
      · refine .inr (.inr (.inr (.inr ⟨other, ids ▸ worker, ?_⟩)))
        exact (others other same).holds.mpr held

/-- `mRootFiber->call()`. -/
theorem Orderly.call (orderly : owners.Orderly) {manager : FiberScheduler}
    (stepped : owners.manager.call tid = some manager) :
    ({ owners with manager, pinned := owners.nextPinned (.call tid) } : FiberOwners).Orderly ∧
      owners.Keeps { owners with manager, pinned := owners.nextPinned (.call tid) } := by
  unfold FiberScheduler.call at stepped
  split at stepped
  · contradiction
  · cases stepped
    have worker : ∀ other ≠ tid,
        ((owners.manager.core.setCbFiber tid none).setPhase tid .scan).worker other =
          owners.manager.core.worker other := by
      intro other different
      exact (KScheduler.worker_setPhase_other _ tid _ different).trans
        (KScheduler.worker_setCbFiber_other _ tid _ different)
    have here : ((owners.manager.core.setCbFiber tid none).setPhase tid .scan).worker tid = {} := by
      rw [KScheduler.worker_setPhase_self]
      simp [KScheduler.setCbFiber]
    refine orderly.leaves rfl rfl (fun other different => ?_) (congrArg Worker.phase here) ?_ rfl
      (fun _ => .rfl) rfl rfl
    · refine ⟨congrArg Worker.phase (worker other different), ?_, fun _ _ => rfl, fun _ _ => rfl,
        fun _ _ => id⟩
      change (if (owners.manager.setSpot tid .loop).spot other = .ended then none
        else Worker.cbFiber _) = _
      rw [FiberScheduler.spot_setSpot_other different, worker other different, cbFiber]
    · change (if (owners.manager.setSpot tid .loop).spot tid = .ended then none
        else Worker.cbFiber _) = _
      rw [here, ite_self]

theorem Orderly.scheduler (orderly : owners.Orderly) {event : FiberEvent}
    (permitted : reusesAlone owners (.fiber event))
    (stepped : owners.step (.fiber event) = some after) :
    after.Orderly ∧ owners.Keeps after := by
  simp only [step, Option.ite_none_right_eq_some] at stepped
  obtain ⟨pointer, stepped⟩ := stepped
  obtain ⟨manager, moved, rfl⟩ := Option.map_eq_some_iff.mp stepped
  cases event with
  | core event =>
      cases event with
      | threadloop tid =>
          simp only [FiberScheduler.step, Option.ite_none_right_eq_some] at moved
          exact orderly.loop moved.1.2 permitted moved.2
      | leave tid how =>
          simp only [FiberScheduler.step, Option.ite_none_right_eq_some] at moved
          obtain ⟨core, left, rfl⟩ := Option.map_eq_some_iff.mp moved.2
          simp only [KScheduler.step, Option.ite_none_right_eq_some] at left
          obtain ⟨worker, left⟩ := left
          cases phase : owners.phase tid with
          | running slice =>
              exact orderly.moves worker (orderly.leave moved.1.2 worker phase permitted left)
          | _ =>
              have here : (owners.manager.core.worker tid).phase = owners.phase tid := rfl
              simp only [KScheduler.leave, here, phase] at left
              contradiction
      | newFiber =>
          simp only [FiberScheduler.step] at moved
          obtain ⟨core, made, rfl⟩ := Option.map_eq_some_iff.mp moved
          cases made
          exact orderly.newFiber
      | schedule work th =>
          simp only [FiberScheduler.step] at moved
          obtain ⟨core, pushed, rfl⟩ := Option.map_eq_some_iff.mp moved
          cases KScheduler.step_schedule pushed
          refine orderly.schedule (fun fiber found => ?_) fun fiber found => ?_ <;>
            cases work <;> cases found
          · exact List.contains_iff_mem.mp pointer
          · exact permitted
  | call tid =>
      simp only [FiberScheduler.step, Option.ite_none_right_eq_some] at moved
      exact orderly.call moved.2
  | _ =>
      obtain ⟨core, spots⟩ := FiberScheduler.step_aside rfl moved
      exact orderly.idles core spots

theorem Orderly.getThis (orderly : owners.Orderly)
    (stepped : owners.step (.getThis tid) = some after) : after.Orderly ∧ owners.Keeps after := by
  simp only [step, Option.ite_none_right_eq_some] at stepped
  obtain ⟨_, stepped⟩ := stepped
  split at stepped
  · rename_i slice phase
    cases stepped
    have held : owners.Holds tid slice.fiber := .inl (by rw [phase]; rfl)
    have worker := orderly.worker tid slice.fiber held
    refine ⟨orderly.refer rfl rfl (fun _ => .inl rfl) (fun fiber handle => ?_) rfl,
      keeps_of_refer rfl rfl rfl (fun _ _ _ kept => .inl kept) fun fiber handle =>
        .inl (.inl (List.mem_cons_of_mem _ handle))⟩
    rcases List.mem_cons.mp handle with rfl | earlier
    · exact .inr (.inr (.inr (.inr ⟨tid, worker, held⟩)))
    · exact .inl earlier
  · contradiction

theorem Orderly.drop (orderly : owners.Orderly)
    (permitted : reusesAlone owners (.drop fiber))
    (stepped : owners.step (.drop fiber) = some after) : after.Orderly ∧ owners.Keeps after := by
  simp only [step, Option.ite_none_right_eq_some] at stepped
  obtain ⟨_, stepped⟩ := stepped
  cases stepped
  refine ⟨orderly.refer rfl rfl (fun _ => .inl rfl)
    (fun other handle => .inl (List.mem_of_mem_erase handle)) rfl,
    keeps_of_refer rfl rfl rfl (fun _ _ _ kept => .inl kept) fun other handle => ?_⟩
  by_cases same : other = fiber
  · subst same
    exact permitted.symm
  · exact .inl (.inl ((List.mem_erase_of_ne same).mpr handle))

theorem Orderly.step {event : OwnerEvent} (orderly : owners.Orderly)
    (permitted : reusesAlone owners event) (stepped : owners.step event = some after) :
    after.Orderly ∧ owners.Keeps after := by
  cases event with
  | fiber event => exact orderly.scheduler permitted stepped
  | getThis tid => exact orderly.getThis stepped
  | drop fiber => exact orderly.drop permitted stepped

theorem orderly_start (mThreadIds : List Int) (user : Bool) :
    (start mThreadIds user).Orderly := by
  have free : ∀ tid, (start mThreadIds user).cbFiber tid = none := fun tid => ite_self _
  have bare : ∀ tid fiber, ¬ (start mThreadIds user).Holds tid fiber := by
    rintro tid fiber (found | kept)
    · cases found
    · cases (free tid).symm.trans kept
  refine ⟨fun tid fiber held => absurd held (bare tid fiber),
    fun tid _ fiber held => absurd held (bare tid fiber), fun fiber referenced => ?_,
    fun tid => stands_bare rfl (free tid)⟩
  rcases referenced with handle | pin | inside | ⟨_, queued, _⟩ | ⟨tid, _, held⟩
  · cases handle
  · cases pin
  · cases inside
  · cases queued
  · exact absurd held (bare tid fiber)

end FiberOwners

/-- Only an idle fiber that is `TERM` ends `threadloop`. -/
theorem FiberScheduler.term_of_ended {manager after : FiberScheduler} {event : FiberEvent}
    {tid : Int} (running : manager.spot tid ≠ .ended) (ended : after.spot tid = .ended)
    (stepped : manager.step event = some after) : after.idleFiber tid = .term := by
  cases event with
  | core event =>
      cases event with
      | threadloop acting =>
          simp only [FiberScheduler.step, Option.ite_none_right_eq_some] at stepped
          obtain ⟨core, _, rfl⟩ := Option.map_eq_some_iff.mp stepped.2
          split at ended
          · rename_i rested
            rw [if_pos rested]
            by_cases same : tid = acting
            · subst same
              rw [spot_setSpot_self] at ended
              change manager.idleFiber tid = .term
              by_contra notTerm
              rw [if_neg notTerm] at ended
              cases ended
            · exact absurd ((spot_setSpot_other same).symm.trans ended) running
          · exact absurd ended running
      | leave acting how =>
          simp only [FiberScheduler.step, Option.ite_none_right_eq_some] at stepped
          obtain ⟨core, _, rfl⟩ := Option.map_eq_some_iff.mp stepped.2
          exact absurd ended running
      | newFiber | schedule =>
          simp only [FiberScheduler.step] at stepped
          obtain ⟨core, _, rfl⟩ := Option.map_eq_some_iff.mp stepped
          exact absurd ended running
  | call acting =>
      simp only [FiberScheduler.step, Option.ite_none_right_eq_some] at stepped
      obtain ⟨_, called⟩ := stepped
      unfold FiberScheduler.call at called
      split at called <;> cases called
      change (manager.setSpot acting .loop).spot tid = .ended at ended
      by_cases same : tid = acting
      · subst same
        cases spot_setSpot_self.symm.trans ended
      · exact absurd ((spot_setSpot_other same).symm.trans ended) running
  | _ => exact absurd (((step_aside rfl stepped).2 tid).mp ended) running

namespace FiberOwners

theorem Orderly.destroysEnded {owners after : FiberOwners} {event : OwnerEvent}
    (orderly : owners.Orderly) (permitted : reusesAlone owners event)
    (stepped : owners.step event = some after) : DestroysEnded owners after := by
  refine ⟨fun fiber referenced gone => ?_, fun tid running ended => ?_⟩
  · exact ((orderly.step permitted stepped).2 fiber referenced).resolve_left gone
  · cases event with
    | fiber event =>
        simp only [FiberOwners.step, Option.ite_none_right_eq_some] at stepped
        obtain ⟨manager, moved, rfl⟩ := Option.map_eq_some_iff.mp stepped.2
        exact congrArg FiberState.ended (FiberScheduler.term_of_ended running ended moved)
    | getThis tid =>
        simp only [FiberOwners.step, Option.ite_none_right_eq_some] at stepped
        obtain ⟨_, stepped⟩ := stepped
        split at stepped <;> cases stepped
        exact absurd ended running
    | drop fiber =>
        simp only [FiberOwners.step, Option.ite_none_right_eq_some] at stepped
        obtain ⟨_, stepped⟩ := stepped
        cases stepped
        exact absurd ended running

end FiberOwners

/-- While callbacks end with their fibers to themselves and `threadloop` returns
without a recycled fiber of its own, the assertions in `reset` and `~KFiber`
hold, and nobody else resumes a fiber that is reset. -/
theorem fibers_reset_and_destroyed {mThreadIds : List Int} {user : Bool}
    {events : List OwnerEvent} {last : FiberOwners}
    (run : Run FiberOwners.step reusesAlone (FiberOwners.start mThreadIds user) events last) :
    last.ResetsAlone ∧ ∀ event after, reusesAlone last event → last.step event = some after →
      last.DestroysEnded after := by
  have orderly : last.Orderly :=
    run.invariant FiberOwners.Orderly (FiberOwners.orderly_start mThreadIds user)
      fun orderly permitted stepped => (orderly.step permitted stepped).1
  exact ⟨orderly.resetsAlone, fun _ _ permitted stepped => orderly.destroysEnded permitted stepped⟩

/-- Steps of one thread in `threadloop`, one after the other. -/
def threadloops (tid : Int) (count : Nat) : List OwnerEvent :=
  List.replicate count (.fiber (.core (.threadloop tid)))

/-- A callback ends; its fiber is reset for the next one, which is left in
`HOLD`.  After the idle fiber ended the thread is about to return. -/
theorem fibers_reset_and_destroyed_of_callbacks :
    ∃ last, Run FiberOwners.step reusesAlone (FiberOwners.start [1] false)
        ([OwnerEvent.fiber (.core (.schedule (.cb 7) 0))] ++ threadloops 1 4 ++
          [OwnerEvent.fiber (.core (.leave 1 .terminate))] ++ threadloops 1 2 ++
          [OwnerEvent.fiber (.core (.schedule (.cb 8) 1))] ++ threadloops 1 4 ++
          [OwnerEvent.fiber (.core (.leave 1 .yeild2Hold))] ++ threadloops 1 4 ++
          [OwnerEvent.fiber (.resumeIdle 1), .fiber (.leaveIdle 1 .terminate),
            .fiber (.idleReturned 1)]) last ∧
      (last.Returns 1 ∧ last.gFiberId = 1 ∧ last.mState 0 = .hold) ∧ last.ResetsAlone ∧
      ∀ event after, reusesAlone last event → last.step event = some after →
        last.DestroysEnded after := by
  refine Run.exists_shown
    (fun last => last.Returns 1 ∧ last.gFiberId = 1 ∧ last.mState 0 = .hold)
    (by decide +kernel) fun last run found => ?_
  exact ⟨found, fibers_reset_and_destroyed run⟩

/-- A callback ends, and then the idle fiber; `threadloop` returns and destroys
the fiber of the callback, which is `READY`. -/
theorem recycled_fiber_destroyed_ready :
    ∃ last, Run FiberOwners.step anyStep (FiberOwners.start [1] false)
        ([OwnerEvent.fiber (.core (.schedule (.cb 7) 0))] ++ threadloops 1 4 ++
          [OwnerEvent.fiber (.core (.leave 1 .terminate))] ++ threadloops 1 3 ++
          [OwnerEvent.fiber (.resumeIdle 1), .fiber (.leaveIdle 1 .terminate),
            .fiber (.idleReturned 1)]) last ∧
      ∃ after, last.step (.fiber (.core (.threadloop 1))) = some after ∧
        ¬ last.DestroysEnded after := by
  refine Run.exists_shown (fun last => last.Referenced 0 ∧
    (last.step (.fiber (.core (.threadloop 1)))).any (fun after =>
      ¬ after.Referenced 0 ∧ after.mState 0 = .ready) = true) (by decide +kernel)
    fun last run found => ?_
  obtain ⟨referenced, gone⟩ := found
  obtain ⟨after, stepped, gone⟩ := (Option.any_eq_true _ _).mp gone
  obtain ⟨unreferenced, ready⟩ := of_decide_eq_true gone
  refine ⟨after, stepped, fun destroys => ?_⟩
  have ended := destroys.fiber 0 referenced unreferenced
  rw [ready] at ended
  cases ended

end FiberKcp.Scheduler
