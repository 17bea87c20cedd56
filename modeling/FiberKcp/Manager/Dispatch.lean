import Mathlib.Data.List.Flatten
import FiberKcp.Manager.KcpManager

namespace FiberKcp.Manager

/-! The dispatch loop of `idle()`: which handlers a batch of events schedules. -/

/-- The bit of the event in an epoll mask. -/
def Event.bit : Event → UInt32
  | .read => EPOLLIN
  | .write => EPOLLOUT

namespace Context

variable {ctx : Context} {mask : UInt32} {event : Event}

/-- The handler of the event; a callback goes before a fiber. -/
def handler (ctx : Context) (event : Event) : Option Work :=
  ((ctx.getContext event).cb.map Work.cb).or ((ctx.getContext event).fiber.map Work.fiberPtr)

/-- The mask says that the event has come, or it reports an error on a
descriptor that is registered for the event. -/
def signalled (ctx : Context) (mask : UInt32) (event : Event) : Prop :=
  mask &&& event.bit ≠ 0 ∨ mask &&& (EPOLLERR ||| EPOLLHUP) ≠ 0 ∧ ctx.events &&& event.bit ≠ 0

instance (ctx : Context) (mask : UInt32) (event : Event) : Decidable (ctx.signalled mask event) :=
  inferInstanceAs (Decidable (_ ∨ _))

/-- What one event should schedule: the handlers that are present and
signalled, `READ` first, bound to the context's thread. -/
def due (ctx : Context) (mask : UInt32) : List (Work × UInt32) :=
  [Event.read, Event.write].flatMap fun event =>
    if ctx.signalled mask event then ((ctx.handler event).map (·, ctx.tid)).toList else []

theorem triggerEvent_eq : ctx.triggerEvent event = ((ctx.handler event).map (·, ctx.tid)).toList := by
  simp only [triggerEvent, handler]
  cases (ctx.getContext event).cb with
  | some cb => rfl
  | none => cases (ctx.getContext event).fiber <;> rfl

theorem or_ne_zero {bit : UInt32} (nonzero : bit ≠ 0) : mask ||| bit ≠ 0 :=
  fun zero => nonzero (UInt32.or_eq_zero_iff.mp zero).2

/-- Both tests of the loop are disjunctions of bits, so they always hold. -/
theorem dispatch_eq : ctx.dispatch mask = ctx.triggerEvent .read ++ ctx.triggerEvent .write := by
  have input : EPOLLIN ≠ 0 := by decide
  have output : EPOLLOUT ≠ 0 := by decide
  simp only [dispatch]
  rw [if_pos (or_ne_zero input), if_pos (or_ne_zero output)]

theorem due_eq : ctx.due mask =
    (if ctx.signalled mask .read then ctx.triggerEvent .read else []) ++
      if ctx.signalled mask .write then ctx.triggerEvent .write else [] := by
  simp only [due, List.flatMap_cons, List.flatMap_nil, List.append_nil, triggerEvent_eq]

theorem due_sublist : (ctx.due mask).Sublist (ctx.dispatch mask) := by
  have each : ∀ event, (if ctx.signalled mask event then ctx.triggerEvent event else []).Sublist
      (ctx.triggerEvent event) := by
    intro event
    split
    · exact List.Sublist.refl _
    · exact List.nil_sublist _
  rw [due_eq, dispatch_eq]
  exact (each .read).append (each .write)

/-- Every handler that the context has is signalled. -/
def allSignalled (ctx : Context) (mask : UInt32) : Prop :=
  ∀ event, (ctx.handler event).isSome = true → ctx.signalled mask event

instance (ctx : Context) (mask : UInt32) : Decidable (ctx.allSignalled mask) :=
  decidable_of_iff
    (((ctx.handler .read).isSome = true → ctx.signalled mask .read) ∧
      ((ctx.handler .write).isSome = true → ctx.signalled mask .write))
    ⟨fun both event => match event with
      | .read => both.1
      | .write => both.2,
    fun all => ⟨all .read, all .write⟩⟩

theorem due_eq_dispatch_iff : ctx.due mask = ctx.dispatch mask ↔ ctx.allSignalled mask := by
  have kept : ∀ event, (if ctx.signalled mask event then ctx.triggerEvent event else []).length ≤
      (ctx.triggerEvent event).length := by
    intro event
    split
    · exact Nat.le_refl _
    · exact Nat.zero_le _
  constructor
  · intro same event present
    have total := congrArg List.length same
    rw [due_eq, dispatch_eq, List.length_append, List.length_append] at total
    have read := kept .read
    have write := kept .write
    by_contra unsignalled
    have nonempty : 0 < (ctx.triggerEvent event).length := by
      rw [triggerEvent_eq]
      obtain ⟨work, found⟩ := Option.isSome_iff_exists.mp present
      rw [found]
      exact Nat.one_pos
    cases event with
    | read =>
        rw [if_neg unsignalled, List.length_nil] at total
        omega
    | write =>
        rw [if_neg unsignalled, List.length_nil] at total
        omega
  · intro all
    have same : ∀ event, (if ctx.signalled mask event then ctx.triggerEvent event else []) =
        ctx.triggerEvent event := by
      intro event
      split
      · rfl
      · rename_i unsignalled
        rw [triggerEvent_eq]
        cases found : ctx.handler event with
        | none => rfl
        | some work => exact absurd (all event (by rw [found]; rfl)) unsignalled
    rw [due_eq, dispatch_eq, same, same]

end Context

/-- Where every part keeps at most what the other has, the wholes are equal
exactly if the parts are. -/
theorem flatMap_eq_iff_of_sublist {α β : Type*} {f g : α → List β} {values : List α}
    (part : ∀ value ∈ values, (f value).Sublist (g value)) :
    values.flatMap f = values.flatMap g ↔ ∀ value ∈ values, f value = g value := by
  induction values with
  | nil => simp
  | cons head rest ih =>
      have restPart : ∀ value ∈ rest, (f value).Sublist (g value) :=
        fun value member => part value (List.mem_cons_of_mem _ member)
      simp only [List.flatMap_cons, List.forall_mem_cons]
      constructor
      · intro same
        have headPart := part head List.mem_cons_self
        have whole : (rest.flatMap f).length ≤ (rest.flatMap g).length :=
          (List.Sublist.flatMap_right rest restPart).length_le
        have total := congrArg List.length same
        rw [List.length_append, List.length_append] at total
        have headSame : f head = g head :=
          headPart.eq_of_length (Nat.le_antisymm headPart.length_le (by omega))
        rw [headSame] at same
        exact ⟨headSame, (ih restPart).mp (List.append_cancel_left same)⟩
      · rintro ⟨headSame, restSame⟩
        rw [headSame, (ih restPart).mpr restSame]

namespace KcpManager

variable {manager : KcpManager} {events : List EpollEvent}

/-- The loop over the events that `epoll_wait` filled in. -/
def dispatchLoop (manager : KcpManager) : List EpollEvent → Option KcpManager
  | [] => some manager
  | event :: rest => (manager.dispatch event).bind fun after => after.dispatchLoop rest

/-- The context of the event with the mask it reports; the wake-up event of the
manager has none. -/
def reported (manager : KcpManager) : EpollEvent → Option (Context × UInt32)
  | .eventFd => none
  | .context fd events => (manager.context? fd.toNatClampNeg).map (·, events)

def enqueue (manager : KcpManager) (tasks : List (Work × UInt32)) : KcpManager :=
  { manager with mFiberQueue := manager.mFiberQueue ++ tasks }

@[simp] theorem reported_enqueue {tasks : List (Work × UInt32)} :
    (manager.enqueue tasks).reported = manager.reported := rfl

theorem enqueue_enqueue {first second : List (Work × UInt32)} :
    (manager.enqueue first).enqueue second = manager.enqueue (first ++ second) := by
  simp only [enqueue, List.append_assoc]

theorem enqueue_inj {first second : List (Work × UInt32)} :
    manager.enqueue first = manager.enqueue second ↔ first = second := by
  constructor
  · intro same
    exact List.append_cancel_left (congrArg KcpManager.mFiberQueue same)
  · rintro rfl
    rfl

/-- The event is the wake-up or on a context of the table. -/
def onContext (manager : KcpManager) : EpollEvent → Prop
  | .eventFd => True
  | .context fd _ => (manager.context? fd.toNatClampNeg).isSome = true

instance (manager : KcpManager) (event : EpollEvent) : Decidable (manager.onContext event) :=
  match event with
  | .eventFd => inferInstanceAs (Decidable True)
  | .context fd _ => inferInstanceAs (Decidable ((manager.context? fd.toNatClampNeg).isSome = true))

theorem dispatch_eq_enqueue {event : EpollEvent} (registered : manager.onContext event) :
    manager.dispatch event = some (manager.enqueue
      ((manager.reported event).toList.flatMap fun entry => entry.1.dispatch entry.2)) := by
  cases event with
  | eventFd => simp [dispatch, reported, enqueue]
  | context fd mask =>
      obtain ⟨ctx, found⟩ := Option.isSome_iff_exists.mp registered
      simp [dispatch, reported, enqueue, found]

/-- The loop schedules both handlers of every context, in the order of the
events. -/
theorem dispatchLoop_eq (registered : ∀ event ∈ events, manager.onContext event) :
    manager.dispatchLoop events = some (manager.enqueue
      ((events.filterMap manager.reported).flatMap fun entry => entry.1.dispatch entry.2)) := by
  induction events generalizing manager with
  | nil => simp [dispatchLoop, enqueue]
  | cons event rest ih =>
      obtain ⟨first, others⟩ := List.forall_mem_cons.mp registered
      have later : ∀ tasks, ∀ event ∈ rest, (manager.enqueue tasks).onContext event := by
        intro tasks event member
        cases event with
        | eventFd => trivial
        | context fd mask => exact others _ member
      rw [dispatchLoop, dispatch_eq_enqueue first, Option.bind_some, ih (later _), enqueue_enqueue]
      cases found : manager.reported event with
      | none => simp [found]
      | some entry => simp [found]

/-- A batch schedules exactly the handlers that are present and signalled, each
once for each event and in order, if and only if no context of the batch has a
handler that its event does not signal. -/
theorem dispatch_exact_iff (registered : ∀ event ∈ events, manager.onContext event) :
    manager.dispatchLoop events = some (manager.enqueue
        ((events.filterMap manager.reported).flatMap fun entry => entry.1.due entry.2)) ↔
      ∀ entry ∈ events.filterMap manager.reported, entry.1.allSignalled entry.2 := by
  have parts : ∀ entry ∈ events.filterMap manager.reported,
      (entry.1.due entry.2).Sublist (entry.1.dispatch entry.2) := fun _ _ => Context.due_sublist
  rw [dispatchLoop_eq registered, Option.some_inj, enqueue_inj, eq_comm,
    flatMap_eq_iff_of_sublist parts]
  simp only [Context.due_eq_dispatch_iff]

/-- A manager whose only context has a callback for `READ` and a fiber for
`WRITE`, and is registered for both. -/
def twoHandlers : KcpManager :=
  { start (fun _ => {}) (fun _ => 0) [1] 1 with
    mContextVec := [some { read := { cb := some (.plain (.inputRoutine 0)) }
                           write := { fiber := some 5 }
                           tid := 1
                           events := EPOLLIN ||| EPOLLOUT }] }

/-- An error signals both, and so does an event that reports both bits. -/
def signalsBoth : List EpollEvent :=
  [.context 0 EPOLLERR, .eventFd, .context 0 (EPOLLIN ||| EPOLLOUT)]

theorem dispatch_exact_on_error :
    twoHandlers.dispatchLoop signalsBoth = some (twoHandlers.enqueue
      ((signalsBoth.filterMap twoHandlers.reported).flatMap
        fun entry => entry.1.due entry.2)) := by
  refine (dispatch_exact_iff (by decide)).mpr ?_
  decide

/-- The `WRITE` handler is scheduled though only `EPOLLIN` has come. -/
theorem write_dispatched_on_input :
    (∀ event ∈ [EpollEvent.context 0 EPOLLIN], twoHandlers.onContext event) ∧
      twoHandlers.dispatchLoop [.context 0 EPOLLIN] ≠ some (twoHandlers.enqueue
        (([EpollEvent.context 0 EPOLLIN].filterMap twoHandlers.reported).flatMap
          fun entry => entry.1.due entry.2)) := by
  refine ⟨by decide, fun same => ?_⟩
  have dispatched := congrArg (Option.map KcpManager.mFiberQueue) same
  revert dispatched
  decide

end KcpManager

end FiberKcp.Manager
