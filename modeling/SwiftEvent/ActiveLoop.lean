import SwiftEvent.ActiveQueues

/-!
# The loop over the active queues

`event_process_active` and `event_base_loop` of `event.c` over the queues.  The
callbacks of the program are not fixed: what each run of one does to the base is
read from a list, so that a theorem about all lists is one about all programs.

* `event_base_loop_keeps_queues` — the queues are in order at the end of every run, if
  priorities are changed only of what is not active.
* `no_priority_inversion` — no event waits while a callback starts that is less
  urgent, if other threads leave `event_base_loopcontinue` alone.
* `process_active_returns` — callbacks that only schedule deferred callbacks cannot keep
  `event_process_active` from returning.
-/

namespace SwiftEvent

/-- An event that the multiplexer, the signals or the timers report; one whose
timeout has come is deleted first. -/
structure Report (κ : Type) where
  event : κ
  res : Nat
  expired : Bool := false

/-- What is called for a report. -/
def Report.calls {κ : Type} (r : Report κ) : List (ActiveCall κ) :=
  if r.expired then [.del r.event, .active r.event r.res] else [.active r.event r.res]

/-- A run of a callback, and whether the time of `max_dispatch_time` is up
afterwards. -/
structure Turn (κ : Type) where
  /-- What a callback of the program calls, and other threads while it runs. -/
  calls : List (ActiveCall κ) := []
  /-- What other threads call while a callback with `EVLIST_INTERNAL` runs, until it
  takes the lock. -/
  before : List (ActiveCall κ) := []
  /-- What a callback with `EVLIST_INTERNAL` reports. -/
  reports : List (Report κ) := []
  /-- What other threads call after that. -/
  after : List (ActiveCall κ) := []
  late : Bool := false

/-- The limits of `event_config_set_max_dispatch_interval`. -/
structure DispatchLimits where
  maxDispatchCallbacks : Nat := intMax
  limitCallbacksAfterPrio : Nat := 1
  /-- `max_dispatch_time.tv_sec >= 0`. -/
  maxDispatchTime : Bool := false

namespace ActiveBase

variable {κ : Type} [DecidableEq κ]

/-- What is called in the turn of the callback. -/
def turnCalls (b : ActiveBase κ) (k : κ) (t : Turn κ) : List (ActiveCall κ) :=
  if (b.cb k).internal then t.before ++ (t.reports.map Report.calls).flatten ++ t.after
  else t.calls

/-- How a loop over callbacks has gone: the result, unless the turns were used up
before it returned; the turns that are left; each callback that was started, with
the base it was started from; and the base. -/
structure Processed (κ : Type) where
  result : Option Int
  turns : List (Turn κ)
  started : List (κ × ActiveBase κ)
  base : ActiveBase κ

/-- `event_process_active_single_queue`, with `count` callbacks processed. -/
def processSingleQueue (pri maxToProcess : Nat) (endtime : Bool) :
    Nat → List (Turn κ) → ActiveBase κ → Option (Processed κ)
  | count, turns, b =>
      match b.activequeues.getD pri [], turns with
      | [], turns => some ⟨some count, turns, [], b⟩
      | _ :: _, [] => some ⟨none, [], [], b⟩
      | k :: _, t :: turns => do
          let b₁ ← b.eventQueueRemoveActive k
          let count := if (b.cb k).internal then count else count + 1
          let b₂ ← StepSystem.run call b₁ (b.turnCalls k t)
          if b₂.eventBreak then some ⟨some (-1), turns, [(k, b)], b₂⟩
          else if maxToProcess ≤ count then some ⟨some count, turns, [(k, b)], b₂⟩
          else if count ≠ 0 && endtime && t.late then some ⟨some count, turns, [(k, b)], b₂⟩
          else if b₂.eventContinue then some ⟨some count, turns, [(k, b)], b₂⟩
          else do
            let r ← processSingleQueue pri maxToProcess endtime count turns b₂
            return { r with started := (k, b) :: r.started }

/-- The queue of one priority, within the limits for it. -/
def processPriority (limits : DispatchLimits) (pri : Nat) (turns : List (Turn κ))
    (b : ActiveBase κ) : Option (Processed κ) :=
  let b := { b with eventRunningPriority := pri }
  if pri < limits.limitCallbacksAfterPrio then processSingleQueue pri intMax false 0 turns b
  else processSingleQueue pri limits.maxDispatchCallbacks limits.maxDispatchTime 0 turns b

/-- The loop of `event_process_active` over the priorities. -/
def processQueues (limits : DispatchLimits) :
    List Nat → List (Turn κ) → ActiveBase κ → Option (Processed κ)
  | [], turns, b => some ⟨some 0, turns, [], b⟩
  | pri :: pris, turns, b =>
      if b.activequeues.getD pri [] = [] then processQueues limits pris turns b
      else do
        let r ← processPriority limits pri turns b
        -- only when nothing but internal callbacks was processed does it go on
        if r.result ≠ some 0 then some r
        else do
          let r' ← processQueues limits pris r.turns r.base
          return { r' with started := r.started ++ r'.started }

/-- `event_process_active`. -/
def processActive (limits : DispatchLimits) (turns : List (Turn κ)) (b : ActiveBase κ) :
    Option (Processed κ) := do
  let r ← processQueues limits (List.range b.activequeues.length) turns b
  return if r.result = none then r
    else { r with base := { r.base with eventRunningPriority := -1 } }

end ActiveBase

/-- What happens around the callbacks of one iteration of the loop. -/
structure Iteration (κ : Type) where
  /-- `event_haveevents(base)`. -/
  haveEvents : Bool := true
  /-- What other threads call while the multiplexer waits. -/
  meanwhile : List (ActiveCall κ) := []
  /-- The multiplexer returns `-1`. -/
  dispatchFails : Bool := false
  /-- What the multiplexer and then `timeout_process` report. -/
  reports : List (Report κ) := []
  turns : List (Turn κ) := []

/-- The flags of `event_base_loop`. -/
structure LoopFlags where
  once : Bool := false
  nonblock : Bool := false
  noExitOnEmpty : Bool := false

namespace ActiveBase

variable {κ : Type} [DecidableEq κ]

/-- How the loop stands: its result, if it has ended; whether the turns were used up
in the middle of an iteration; the callbacks started with their bases; and the base. -/
structure Looped (κ : Type) where
  retval : Option Int
  interrupted : Bool := false
  started : List (κ × ActiveBase κ) := []
  base : ActiveBase κ

/-- The body of the loop of `event_base_loop`. -/
def iterate (flags : LoopFlags) (limits : DispatchLimits) (it : Iteration κ) (b : ActiveBase κ) :
    Option (Looped κ) :=
  let b := { b with eventContinue := false, nDeferredsQueued := 0 }
  if b.eventGotterm || b.eventBreak then some { retval := some 0, base := b }
  else if !flags.noExitOnEmpty && !it.haveEvents && b.eventCountActive == 0 then
    some { retval := some 1, base := b }
  else do
    let b ← makeLaterEventsActive b.activeLaterQueue b
    let b ← StepSystem.run call b it.meanwhile
    if it.dispatchFails then some { retval := some (-1), base := b }
    else do
      let b ← StepSystem.run call b (it.reports.map Report.calls).flatten
      if b.eventCountActive ≠ 0 then do
        let r ← processActive limits it.turns b
        let done := flags.once && r.base.eventCountActive == 0 && r.result ≠ some 0
        if r.result = none then
          return { retval := none, interrupted := true, started := r.started, base := r.base }
        else
          return { retval := if done then some 0 else none, started := r.started, base := r.base }
      else some { retval := if flags.nonblock then some 0 else none, base := b }

/-- The loop, for as many iterations as are given. -/
def loopIterations (flags : LoopFlags) (limits : DispatchLimits) :
    List (Iteration κ) → ActiveBase κ → Option (Looped κ)
  | [], b => some { retval := none, base := b }
  | it :: its, b => do
      let r ← iterate flags limits it b
      if r.retval.isSome || r.interrupted then some r
      else do
        let r' ← loopIterations flags limits its r.base
        return { r' with started := r.started ++ r'.started }

/-- `event_base_loop`, which refuses to run inside itself. -/
def eventBaseLoop (flags : LoopFlags) (limits : DispatchLimits) (its : List (Iteration κ))
    (b : ActiveBase κ) : Option (Looped κ) :=
  if b.runningLoop then some { retval := some (-1), base := b }
  else do
    let r ← loopIterations flags limits its
      { b with eventGotterm := false, eventBreak := false, runningLoop := true }
    return if r.retval.isSome then { r with base := { r.base with runningLoop := false } } else r

end ActiveBase

/-- What a program does to the base from outside of the callbacks. -/
inductive ActiveStep (κ : Type)
  | call (c : ActiveCall κ)
  | priorityInit (npriorities : Int) (memory : Bool)
  | loop (flags : LoopFlags) (limits : DispatchLimits) (its : List (Iteration κ))

namespace ActiveBase

variable {κ : Type} [DecidableEq κ]

def step (b : ActiveBase κ) : ActiveStep κ → Option (ActiveBase κ)
  | .call c => b.call c
  | .priorityInit npriorities memory => some (b.eventBasePriorityInit npriorities memory).2
  | .loop flags limits its => (eventBaseLoop flags limits its b).map Looped.base

/-- The callbacks that a step starts, each with the base it is started from. -/
def starts (b : ActiveBase κ) : ActiveStep κ → List (κ × ActiveBase κ)
  | .call _ | .priorityInit .. => []
  | .loop flags limits its => ((eventBaseLoop flags limits its b).map Looped.started).getD []

/-- What `event_base_new` and the initialization of the callbacks leave. -/
structure New (b : ActiveBase κ) : Prop where
  active : ∀ k, (b.cb k).active = false
  activeLater : ∀ k, (b.cb k).activeLater = false
  pri : ∀ k, (b.cb k).evcbPri < b.activequeues.length
  queues : ∀ q ∈ b.activequeues, q = []
  laterQueue : b.activeLaterQueue = []
  count : b.eventCountActive = 0
  running : b.eventRunningPriority = -1

/-! ## One priority -/

section Process

variable {b b' : ActiveBase κ} {free : Prop}

omit [DecidableEq κ] in
/-- A report activates events and deletes them, no more. -/
theorem report_calls (reports : List (Report κ)) (cb : κ → EventCallback) :
    ∀ c ∈ (reports.map Report.calls).flatten, c.Usual cb ∧ c ≠ .loopcontinue := by
  intro c mem
  obtain ⟨calls, inside, mem⟩ := List.mem_flatten.mp mem
  obtain ⟨r, -, rfl⟩ := List.mem_map.mp inside
  unfold Report.calls at mem
  split_ifs at mem
  · rcases List.mem_cons.mp mem with rfl | mem
    · exact ⟨trivial, by simp⟩
    · rw [List.mem_singleton.mp mem]
      exact ⟨trivial, by simp⟩
  · rw [List.mem_singleton.mp mem]
    exact ⟨trivial, by simp⟩

theorem QueuesOk.reports (h : b.QueuesOk) (free : Prop) (reports : List (Report κ)) :
    ∃ b', StepSystem.run ActiveBase.call b (reports.map Report.calls).flatten = some b' ∧
      Moves free False b b' :=
  h.calls free False _ (fun c mem => Or.inr (report_calls reports b.cb c mem).1)
    fun mem => (report_calls reports b.cb _ mem).2 rfl

theorem Move.imp {stops stops' : Prop} (m : Move free stops b b') (imp : stops → stops') :
    Move free stops' b b' := by
  cases m with
  | mark k c init internal active later final pri =>
      exact .mark k c init internal active later final pri
  | pushActive k off now calm => exact .pushActive k off now calm
  | pushFinal k off now => exact .pushFinal k off now
  | dropActive k on => exact .dropActive k on
  | pushLater k off now => exact .pushLater k off now
  | dropLater k on => exact .dropLater k on
  | flags nDeferreds cont brk gotterm why =>
      exact .flags nDeferreds cont brk gotterm (why.imp id fun w => ⟨w.1, w.2.imp imp id⟩)
  | misuse => exact .misuse

theorem Moves.imp {stops stops' : Prop} (m : Moves free stops b b') (imp : stops → stops') :
    Moves free stops' b b' :=
  Relation.ReflTransGen.mono (fun _ _ (step : Move free stops _ _) => step.imp imp) _ _ m

theorem Moves.strict {stops : Prop} (m : Moves free stops b b') (bound : ¬ free) :
    Moves False stops b b' := by
  rw [← eq_false bound]
  exact m

/-- What a program may do while callbacks run; other threads do not call
`event_base_loopcontinue` while one of the library's own does. -/
def TurnsOk (free : Prop) (cb : κ → EventCallback) (turns : List (Turn κ)) : Prop :=
  ∀ t ∈ turns, (∀ c ∈ t.calls, free ∨ c.Usual cb) ∧
    ∀ c ∈ t.before ++ t.after, free ∨ c.Usual cb ∧ c ≠ .loopcontinue

omit [DecidableEq κ] in
theorem turnsOk_of_free (cb : κ → EventCallback) (turns : List (Turn κ)) (any : free) :
    TurnsOk free cb turns :=
  fun _ _ => ⟨fun _ _ => Or.inl any, fun _ _ => Or.inl any⟩

omit [DecidableEq κ] in
theorem TurnsOk.kinds {turns : List (Turn κ)} (ok : TurnsOk free b.cb turns)
    (kinds : Kinds b b') : TurnsOk free b'.cb turns :=
  fun t mem => ⟨fun c inside => ((ok t mem).1 c inside).imp id kinds.usual,
    fun c inside => ((ok t mem).2 c inside).imp id fun u => ⟨kinds.usual u.1, u.2⟩⟩

omit [DecidableEq κ] in
/-- What is called while one of the library's own callbacks runs. -/
theorem report_turn {t : Turn κ} {cb : κ → EventCallback}
    (others : ∀ c ∈ t.before ++ t.after, free ∨ c.Usual cb ∧ c ≠ .loopcontinue) :
    ∀ c ∈ t.before ++ (t.reports.map Report.calls).flatten ++ t.after,
      free ∨ c.Usual cb ∧ c ≠ .loopcontinue := by
  intro c mem
  rw [List.mem_append, List.mem_append] at mem
  rcases mem with (mem | mem) | mem
  · exact others c (List.mem_append_left _ mem)
  · exact Or.inr (report_calls t.reports cb c mem)
  · exact others c (List.mem_append_right _ mem)

/-- **One turn.**  The callback comes off its queue and is run; one of the library's
own does not tell the loop to stop. -/
theorem QueuesOk.turn (h : b.QueuesOk) (free : Prop) {pri : Nat} {k : κ} {q : List κ}
    (front : b.activequeues.getD pri [] = k :: q) {t : Turn κ}
    (usual : ∀ c ∈ t.calls, free ∨ c.Usual b.cb)
    (others : ∀ c ∈ t.before ++ t.after, free ∨ c.Usual b.cb ∧ c ≠ .loopcontinue) :
    ∃ b₁ b₂, b.eventQueueRemoveActive k = some b₁ ∧
      StepSystem.run ActiveBase.call b₁ (b.turnCalls k t) = some b₂ ∧ Moves free True b b₂ ∧
      ((b.cb k).internal = true → Moves free free b b₂) := by
  have on : (b.cb k).active = true := by
    have mem : k ∈ b.queue pri := by
      unfold queue
      rw [front]
      exact List.mem_cons_self
    exact ((h.mem pri k).mp mem).1
  have h₁ := h.dropActive on
  have drop (stops : Prop) : Move free stops b (b.dropActive k) := .dropActive k on
  have same := (drop True).same
  refine ⟨b.dropActive k, ?_⟩
  unfold turnCalls
  by_cases own : (b.cb k).internal = true
  · have told := report_turn others
    obtain ⟨b₂, run, m⟩ := h₁.calls free free _
      (fun c mem => (told c mem).imp id fun u => same.kinds.usual u.1)
      fun mem => (told _ mem).elim id fun u => absurd rfl u.2
    refine ⟨b₂, h.eventQueueRemoveActive on, ?_, .head (drop True) (m.imp fun _ => trivial),
      fun _ => .head (drop free) m⟩
    rw [if_pos own]
    exact run
  · obtain ⟨b₂, run, m⟩ := h₁.calls free True t.calls
      (fun c mem => (usual c mem).imp id same.kinds.usual) fun _ => trivial
    refine ⟨b₂, h.eventQueueRemoveActive on, ?_, .head (drop True) m, fun yes => absurd yes own⟩
    rw [if_neg own]
    exact run

/-- How a callback is started: at the front of its queue, while the loop has not
been told to stop. -/
structure Started (free : Prop) (pri : Nat) (b : ActiveBase κ) (ks : κ × ActiveBase κ) : Prop where
  front : ∃ q, ks.2.queue pri = ks.1 :: q
  told : free ∨ ks.2.eventContinue = false
  moves : Moves free True b ks.2

/-- What `0` says: only callbacks of the library's own were run, and either none is
left or the loop has been told to stop. -/
structure OnlyInternal (free : Prop) (pri : Nat) (b : ActiveBase κ) (r : Processed κ) : Prop where
  moves : Moves free free b r.base
  internal : ∀ ks ∈ r.started, (ks.2.cb ks.1).internal = true
  left : r.base.queue pri = [] ∨ r.base.eventContinue = true

/-- `event_process_active_single_queue` never fails. -/
theorem QueuesOk.processSingleQueue (free : Prop) (pri maxToProcess : Nat)
    (endtime : Bool) (turns : List (Turn κ)) : ∀ {b : ActiveBase κ} (count : Nat), b.QueuesOk →
    (free ∨ b.eventContinue = false) → TurnsOk free b.cb turns →
    ∃ r, processSingleQueue pri maxToProcess endtime count turns b = some r ∧
      Moves free True b r.base ∧ (∀ ks ∈ r.started, Started free pri b ks) ∧
      (∀ t ∈ r.turns, t ∈ turns) ∧
      (r.result = some 0 → 1 ≤ maxToProcess → count = 0 ∧ OnlyInternal free pri b r ∧
        (b.queue pri ≠ [] → ∃ k, (k, b) ∈ r.started)) := by
  induction turns with
  | nil =>
      intro b count h told ok
      unfold ActiveBase.processSingleQueue
      cases front : b.activequeues.getD pri [] with
      | nil =>
          refine ⟨_, rfl, .refl, by simp, by simp, fun zero _ => ?_⟩
          have zero : count = 0 := by simpa using zero
          exact ⟨zero, ⟨.refl, by simp, Or.inl front⟩, fun ne => absurd front ne⟩
      | cons k q => exact ⟨_, rfl, .refl, by simp, by simp, fun none => by simp at none⟩
  | cons t turns ih =>
      intro b count h told ok
      unfold ActiveBase.processSingleQueue
      cases front : b.activequeues.getD pri [] with
      | nil =>
          refine ⟨_, rfl, .refl, by simp, by simp, fun zero _ => ?_⟩
          have zero : count = 0 := by simpa using zero
          exact ⟨zero, ⟨.refl, by simp, Or.inl front⟩, fun ne => absurd front ne⟩
      | cons k q =>
          obtain ⟨b₁, b₂, remove, run, m, own⟩ :=
            h.turn free front (ok t List.mem_cons_self).1 (ok t List.mem_cons_self).2
          have first : Started free pri b (k, b) := ⟨⟨q, front⟩, told, .refl⟩
          simp only [remove, run, Option.bind_eq_bind, Option.bind_some]
          generalize counted : (if (b.cb k).internal then count else count + 1) = count'
          -- with nothing but the library's own callbacks run, the count is still zero
          have zero : count' = 0 → count = 0 ∧ (b.cb k).internal = true := by
            intro eq
            rw [← counted] at eq
            split_ifs at eq with internal
            exact ⟨eq, internal⟩
          have stop (result : Int) (why : result = 0 → 1 ≤ maxToProcess →
              b₂.eventContinue = true ∧ count' = 0) :
              Moves free True b b₂ ∧ (∀ ks ∈ [(k, b)], Started free pri b ks) ∧
              (∀ t' ∈ turns, t' ∈ t :: turns) ∧
              (some result = some 0 → 1 ≤ maxToProcess → count = 0 ∧
                OnlyInternal free pri b ⟨some result, turns, [(k, b)], b₂⟩ ∧
                (b.queue pri ≠ [] → ∃ x, (x, b) ∈ [(k, b)])) := by
            refine ⟨m, ?_, fun t' mem => List.mem_cons_of_mem _ mem, fun eq one => ?_⟩
            · intro ks mem
              rw [List.mem_singleton.mp mem]
              exact first
            · obtain ⟨told', none⟩ := why (Option.some.inj eq) one
              obtain ⟨none, internal⟩ := zero none
              refine ⟨none, ⟨own internal, ?_, Or.inr told'⟩, fun _ => ⟨k, by simp⟩⟩
              intro ks mem
              rw [List.mem_singleton.mp mem]
              exact internal
          split_ifs with brk limit late cont
          · exact ⟨_, rfl, stop (-1) fun eq _ => absurd eq (by decide)⟩
          · exact ⟨_, rfl, stop _ fun eq one => by omega⟩
          · refine ⟨_, rfl, stop _ fun eq one => ?_⟩
            simp only [Bool.and_eq_true, decide_eq_true_eq] at late
            omega
          · exact ⟨_, rfl, stop _ fun eq one => ⟨cont, by omega⟩⟩
          · have told₂ : free ∨ b₂.eventContinue = false :=
              Or.inr (Bool.eq_false_of_not_eq_true cont)
            have ok₂ : TurnsOk free b₂.cb turns := by
              intro t' mem
              exact (ok.kinds (Moves.same m).kinds) t' (List.mem_cons_of_mem _ mem)
            obtain ⟨r, rest, m', started, sub, res⟩ := ih count' (h.moves m) told₂ ok₂
            rw [rest]
            refine ⟨_, rfl, m.trans m', ?_, fun t' mem => List.mem_cons_of_mem _ (sub t' mem), ?_⟩
            · intro ks mem
              rcases List.mem_cons.mp mem with rfl | mem
              · exact first
              · exact ⟨(started ks mem).front, (started ks mem).told,
                  m.trans (started ks mem).moves⟩
            · intro eq one
              obtain ⟨none, only, -⟩ := res eq one
              obtain ⟨none, internal⟩ := zero none
              refine ⟨none, ⟨(own internal).trans only.moves, ?_, only.left⟩,
                fun _ => ⟨k, List.mem_cons_self⟩⟩
              intro ks mem
              rcases List.mem_cons.mp mem with rfl | mem
              · exact internal
              · exact only.internal ks mem

/-- A callback is started in its turn: it is the first of its priority, and no
event that is more urgent waits. -/
def InTurn (ks : κ × ActiveBase κ) : Prop :=
  (∃ q, ks.2.queue (ks.2.cb ks.1).evcbPri = ks.1 :: q) ∧
    ∀ i < (ks.2.cb ks.1).evcbPri, ks.2.NoEvent i

/-- The priorities below are served. -/
structure Serving (p : Nat) (b : ActiveBase κ) : Prop where
  told : b.eventContinue = false
  first : b.InternalFirst
  below : ∀ i < p, b.NoEvent i

omit [DecidableEq κ] in
theorem QueuesOk.pri_of_front (h : b.QueuesOk) {pri : Nat} {k : κ} {q : List κ}
    (front : b.queue pri = k :: q) : (b.cb k).evcbPri = pri :=
  ((h.mem pri k).mp (front ▸ List.mem_cons_self)).2

/-- **One priority.**  What it starts it starts in turn, and when it lets the loop
go on to the next one it has served everything. -/
theorem QueuesOk.processPriority (h : b.QueuesOk) (free : Prop) (limits : DispatchLimits)
    {pri : Nat} {turns : List (Turn κ)} (ok : TurnsOk free b.cb turns) (some' : b.queue pri ≠ [])
    (serving : free ∨ 1 ≤ limits.maxDispatchCallbacks ∧ Serving pri b) :
    ∃ r, processPriority limits pri turns b = some r ∧ r.base.QueuesOk ∧ Same b r.base ∧
      (∀ t ∈ r.turns, t ∈ turns) ∧
      (free ∨ r.base.InternalFirst ∧ (∀ ks ∈ r.started, InTurn ks) ∧
        (r.result = some 0 → Serving (pri + 1) r.base)) := by
  let b' : ActiveBase κ := { b with eventRunningPriority := (pri : Int) }
  have h' : b'.QueuesOk := h.congr rfl rfl rfl rfl
  have told : free ∨ b'.eventContinue = false := serving.imp id fun s => s.2.told
  have atMost : ∃ most endtime, ActiveBase.processPriority limits pri turns b =
      ActiveBase.processSingleQueue pri most endtime 0 turns b' ∧
        (1 ≤ limits.maxDispatchCallbacks → 1 ≤ most) := by
    unfold ActiveBase.processPriority
    simp only
    split_ifs
    · exact ⟨intMax, false, rfl, fun _ => by decide⟩
    · exact ⟨_, _, rfl, id⟩
  obtain ⟨most, endtime, eq, one⟩ := atMost
  obtain ⟨r, run, m, started, sub, res⟩ :=
    QueuesOk.processSingleQueue free pri most endtime turns 0 h' told ok
  have same : Same b r.base :=
    ⟨(Moves.same m).init, (Moves.same m).internal, (Moves.same m).final, (Moves.same m).looping,
      (Moves.same m).misused⟩
  refine ⟨r, eq.trans run, h'.moves m, same, sub, ?_⟩
  rcases serving with any | ⟨max, serving⟩
  · exact Or.inl any
  by_cases any : free
  · exact Or.inl any
  right
  have first : r.base.InternalFirst :=
    InternalFirst.moves (b := b') serving.first (Moves.strict m any)
  have served : b'.UrgentServed := Or.inr fun i lt => serving.below i (by
    have : (i : Int) < pri := lt
    omega)
  have inTurn : ∀ ks ∈ r.started, InTurn ks := by
    intro ks mem
    have st := started ks mem
    obtain ⟨q, front⟩ := st.front
    have pri_eq := (h'.moves st.moves).pri_of_front front
    refine ⟨⟨q, pri_eq ▸ front⟩, fun i lt => ?_⟩
    rcases served.moves h' (Moves.strict st.moves any) with told | below
    · rcases st.told with any' | untold
      · exact absurd any' any
      · rw [told] at untold
        cases untold
    · refine below i ?_
      rw [Moves.running st.moves]
      show (i : Int) < pri
      omega
  refine ⟨first, inTurn, fun zero => ?_⟩
  obtain ⟨-, only, start⟩ := res zero (one max)
  obtain ⟨k, mem⟩ := start some'
  -- only the library's own callbacks were run, so this is the most urgent priority
  have pri_zero : pri = 0 := by
    obtain ⟨q, front⟩ := (started _ mem).front
    rw [← h'.pri_of_front front]
    exact serving.first k (only.internal _ mem)
  have untold : r.base.eventContinue = false := by
    have quiet : Moves free False b' r.base := eq_false any ▸ only.moves
    rw [Moves.eventContinue quiet (by
      show (pri : Int) ≤ 0
      omega)]
    exact serving.told
  refine ⟨untold, first, fun i lt => ?_⟩
  have eq : i = pri := by omega
  intro x inside
  rcases only.left with empty | told
  · rw [eq, empty] at inside
    cases inside
  · rw [told] at untold
    cases untold

omit [DecidableEq κ] in
theorem Serving.succ {pri : Nat} (s : Serving pri b) (empty : b.queue pri = []) :
    Serving (pri + 1) b := by
  refine ⟨s.told, s.first, fun i lt => ?_⟩
  rcases Nat.lt_succ_iff_lt_or_eq.mp lt with lt | rfl
  · exact s.below i lt
  · intro k mem
    rw [empty] at mem
    cases mem

/-- The priorities one after the other. -/
theorem QueuesOk.processQueues (free : Prop) (limits : DispatchLimits) (n : Nat) :
    ∀ (p : Nat) {b : ActiveBase κ} (turns : List (Turn κ)), b.QueuesOk →
    TurnsOk free b.cb turns → (free ∨ 1 ≤ limits.maxDispatchCallbacks ∧ Serving p b) →
    ∃ r, processQueues limits (List.range' p n) turns b = some r ∧ r.base.QueuesOk ∧
      Same b r.base ∧ (free ∨ r.base.InternalFirst ∧ ∀ ks ∈ r.started, InTurn ks) := by
  induction n with
  | zero =>
      intro p b turns h ok serving
      refine ⟨_, rfl, h, .refl b, ?_⟩
      exact serving.imp id fun s => ⟨s.2.first, fun ks mem => by cases mem⟩
  | succ n ih =>
      intro p b turns h ok serving
      rw [List.range'_succ]
      unfold ActiveBase.processQueues
      by_cases empty : b.activequeues.getD p [] = []
      · rw [if_pos empty]
        exact ih (p + 1) turns h ok (serving.imp id fun s => ⟨s.1, s.2.succ empty⟩)
      rw [if_neg empty]
      obtain ⟨r, run, h', same, sub, order⟩ := h.processPriority free limits ok empty serving
      simp only [run, Option.bind_eq_bind, Option.bind_some]
      by_cases more : r.result ≠ some 0
      · rw [if_pos more]
        exact ⟨r, rfl, h', same, order.imp id fun o => ⟨o.1, o.2.1⟩⟩
      rw [if_neg more]
      have zero := not_not.mp more
      obtain ⟨r', run', h'', same', order'⟩ := ih (p + 1) r.turns h'
        (fun t mem => ok.kinds same.kinds t (sub t mem))
        (by
          rcases serving with any | ⟨max, -⟩
          · exact Or.inl any
          · exact order.imp id fun o => ⟨max, o.2.2 zero⟩)
      rw [run']
      refine ⟨_, rfl, h'', same.trans same', ?_⟩
      rcases order with any | ⟨-, inTurn, -⟩
      · exact Or.inl any
      refine order'.imp id fun o => ⟨o.1, fun ks mem => ?_⟩
      rcases List.mem_append.mp mem with mem | mem
      · exact inTurn ks mem
      · exact o.2 ks mem

/-- `event_process_active`. -/
theorem QueuesOk.processActive (h : b.QueuesOk) (limits : DispatchLimits)
    {turns : List (Turn κ)} (ok : TurnsOk free b.cb turns)
    (serving : free ∨ 1 ≤ limits.maxDispatchCallbacks ∧ b.eventContinue = false ∧
      b.InternalFirst) :
    ∃ r, processActive limits turns b = some r ∧ r.base.QueuesOk ∧ Same b r.base ∧
      (r.result ≠ none → r.base.eventRunningPriority = -1) ∧
      (free ∨ r.base.InternalFirst ∧ ∀ ks ∈ r.started, InTurn ks) := by
  obtain ⟨r, run, h', same, order⟩ :=
    QueuesOk.processQueues free limits b.activequeues.length 0 turns h ok
      (serving.imp id fun s => ⟨s.1, s.2.1, s.2.2, fun i lt => absurd lt (Nat.not_lt_zero i)⟩)
  unfold ActiveBase.processActive
  rw [List.range_eq_range', run]
  simp only [Option.bind_eq_bind, Option.bind_some, Option.pure_def]
  by_cases none : r.result = none
  · rw [if_pos none]
    exact ⟨r, rfl, h', same, fun ne => absurd none ne, order⟩
  · rw [if_neg none]
    exact ⟨_, rfl, h'.congr rfl rfl rfl rfl,
      ⟨same.init, same.internal, same.final, same.looping, same.misused⟩, fun _ => rfl, order⟩

end Process

/-! ## The loop -/

section Loop

variable {b b' : ActiveBase κ} {free : Prop}

/-- A callback that becomes active goes from the one queue to the other. -/
theorem QueuesOk.makeLaterEventsActive (free : Prop) (later : List κ) : ∀ {b : ActiveBase κ},
    b.QueuesOk → b.activeLaterQueue = later → b.eventRunningPriority ≤ 0 →
    ∃ b', makeLaterEventsActive later b = some b' ∧ Moves free False b b' := by
  induction later with
  | nil =>
      intro b h _ _
      exact ⟨b, rfl, .refl⟩
  | cons k rest ih =>
      intro b h eq running
      have later : (b.cb k).activeLater = true := by
        rw [← h.later, eq]
        exact List.mem_cons_self
      have here : (b.dropLater k).cb k = { b.cb k with activeLater := false } :=
        Function.update_self ..
      have off : ((b.dropLater k).cb k).active = false := by
        rw [here]
        by_contra on
        rw [h.apart k (Bool.eq_true_of_not_eq_false on)] at later
        cases later
      have now : ((b.dropLater k).cb k).activeLater = false := by rw [here]
      have calm : Calm free (b.dropLater k) k :=
        Or.inr (Or.inr (Or.inr (running.trans (Int.natCast_nonneg _))))
      -- the step is the one of a callback that is activated while it waits
      let n := b.nDeferredsQueued + (!(b.cb k).init && !(b.cb k).finalizing).toNat
      let b₁ : ActiveBase κ := { (b.dropLater k).pushActive k with nDeferredsQueued := n }
      have m : Moves free False b b₁ :=
        .tail (.tail (.single (.dropLater k later)) (.pushActive k off now calm))
          (.flags n _ _ _ (Or.inl rfl))
      have step : ActiveBase.makeLaterEventsActive (k :: rest) b =
          ActiveBase.makeLaterEventsActive rest b₁ := by
        show (if _ then ActiveBase.makeLaterEventsActive rest _ else none) = _
        rw [if_pos (h.pri k)]
        congr 1
        have count : b.eventCountActive - 1 + 1 = b.eventCountActive := by
          have pos := h.count
          rw [eq, List.length_cons] at pos
          omega
        have cb : Function.update (Function.update b.cb k { b.cb k with activeLater := false }) k
            { (b.dropLater k).cb k with active := true } =
            Function.update b.cb k { b.cb k with activeLater := false, active := true } := by
          rw [Function.update_idem, here]
        have queues : b.activequeues.modify ((b.dropLater k).cb k).evcbPri (· ++ [k]) =
            b.activequeues.modify (b.cb k).evcbPri (· ++ [k]) := by
          rw [here]
        show _ = ({ b with
          cb := Function.update (Function.update b.cb k { b.cb k with activeLater := false }) k
            { (b.dropLater k).cb k with active := true }
          activequeues := b.activequeues.modify ((b.dropLater k).cb k).evcbPri (· ++ [k])
          activeLaterQueue := b.activeLaterQueue.erase k
          eventCountActive := b.eventCountActive - 1 + 1
          nDeferredsQueued := n } : ActiveBase κ)
        rw [cb, queues, eq, List.erase_cons_head, count]
        rfl
      obtain ⟨b', run, m'⟩ := ih (h.moves m) (by
        show b.activeLaterQueue.erase k = rest
        rw [eq, List.erase_cons_head]) running
      exact ⟨b', step.trans run, m.trans m'⟩

/-- What a program may do in an iteration of the loop. -/
def IterationOk (free : Prop) (cb : κ → EventCallback) (it : Iteration κ) : Prop :=
  (∀ c ∈ it.meanwhile, free ∨ c.Usual cb ∧ c ≠ .loopcontinue) ∧ TurnsOk free cb it.turns

omit [DecidableEq κ] in
theorem IterationOk.kinds {it : Iteration κ} (ok : IterationOk free b.cb it)
    (kinds : Kinds b b') : IterationOk free b'.cb it :=
  ⟨fun c mem => (ok.1 c mem).imp id fun u => ⟨kinds.usual u.1, u.2⟩, ok.2.kinds kinds⟩

/-- How the loop leaves a base. -/
structure Kept (free : Prop) (b : ActiveBase κ) (r : Looped κ) : Prop where
  ok : r.base.QueuesOk
  same : Same b r.base
  idle : r.base.eventRunningPriority = -1 ∨ r.retval = none ∧ r.interrupted = true
  order : free ∨ r.base.InternalFirst ∧ ∀ ks ∈ r.started, InTurn ks

/-- **One iteration.** -/
theorem QueuesOk.iterate (h : b.QueuesOk) (idle : b.eventRunningPriority = -1) (flags : LoopFlags)
    (limits : DispatchLimits) {it : Iteration κ} (ok : IterationOk free b.cb it)
    (first : free ∨ 1 ≤ limits.maxDispatchCallbacks ∧ b.InternalFirst) :
    ∃ r, iterate flags limits it b = some r ∧ Kept free b r := by
  let b₀ : ActiveBase κ := { b with eventContinue := false, nDeferredsQueued := 0 }
  have h₀ : b₀.QueuesOk := h.congr rfl rfl rfl rfl
  have same₀ : Same b b₀ := ⟨fun _ => rfl, fun _ => rfl, fun _ => id, rfl, id⟩
  have kept {retval : Option Int} {b' : ActiveBase κ} (stops : Prop)
      (m : Moves free stops b₀ b') : Kept free b { retval := retval, base := b' } := by
    refine ⟨h₀.moves m, same₀.trans (Moves.same m), Or.inl ((Moves.running m).trans idle), ?_⟩
    by_cases any : free
    · exact Or.inl any
    · refine first.imp id fun f => ⟨?_, fun ks mem => by cases mem⟩
      exact InternalFirst.moves (b := b₀) f.2 (Moves.strict m any)
  unfold ActiveBase.iterate
  dsimp only
  by_cases told : (b.eventGotterm || b.eventBreak) = true
  · rw [if_pos told]
    exact ⟨_, rfl, kept False .refl⟩
  rw [if_neg told]
  by_cases empty : (!flags.noExitOnEmpty && !it.haveEvents && b.eventCountActive == 0) = true
  · rw [if_pos empty]
    exact ⟨_, rfl, kept False .refl⟩
  rw [if_neg empty]
  have running : b₀.eventRunningPriority ≤ 0 := by
    show b.eventRunningPriority ≤ 0
    omega
  obtain ⟨b₁, run₁, m₁⟩ := h₀.makeLaterEventsActive free b.activeLaterQueue rfl running
  have h₁ := h₀.moves m₁
  by_cases none : free ∨ .loopcontinue ∉ it.meanwhile
  swap
  · -- another thread may only call what the program calls
    exfalso
    obtain ⟨any, inside⟩ := not_or.mp none
    rcases ok.1 _ (not_not.mp inside) with yes | ⟨-, ne⟩
    · exact any yes
    · exact ne rfl
  obtain ⟨b₂, run₂, m₂⟩ := h₁.calls free free it.meanwhile
    (fun c mem => (ok.1 c mem).imp id fun u => (same₀.trans (Moves.same m₁)).kinds.usual u.1)
    fun mem => none.elim id fun no => absurd mem no
  have h₂ := h₁.moves m₂
  obtain ⟨b₃, run₃, m₃⟩ := h₂.reports free it.reports
  have h₃ := h₂.moves m₃
  have m : Moves free free b₀ b₃ :=
    (Moves.imp m₁ False.elim).trans (m₂.trans (Moves.imp m₃ False.elim))
  rw [show ActiveBase.makeLaterEventsActive b.activeLaterQueue
    { b with eventContinue := false, nDeferredsQueued := 0 } = some b₁ from run₁]
  simp only [Option.bind_eq_bind, Option.bind_some, run₂, run₃]
  by_cases fails : it.dispatchFails = true
  · rw [if_pos fails]
    exact ⟨_, rfl, kept _ ((Moves.imp m₁ False.elim).trans m₂)⟩
  rw [if_neg fails]
  by_cases active : b₃.eventCountActive ≠ 0
  swap
  · rw [if_neg active]
    exact ⟨_, rfl, kept _ m⟩
  rw [if_pos active]
  have same₃ := same₀.trans (Moves.same m)
  obtain ⟨r, run, h', same, idle', order⟩ := h₃.processActive limits (ok.2.kinds same₃.kinds) (by
    by_cases any : free
    · exact Or.inl any
    · refine first.imp id fun f => ⟨f.1, ?_, ?_⟩
      · have untold : Moves free False b₀ b₃ := eq_false any ▸ m
        exact Moves.eventContinue untold running
      · exact InternalFirst.moves (b := b₀) f.2 (Moves.strict m any))
  rw [run]
  simp only [Option.bind_some, Option.pure_def]
  by_cases interrupted : r.result = Option.none
  · rw [if_pos interrupted]
    exact ⟨_, rfl, h', same₃.trans same, Or.inr ⟨rfl, rfl⟩, order⟩
  · rw [if_neg interrupted]
    exact ⟨_, rfl, h', same₃.trans same, Or.inl (idle' interrupted), order⟩

/-- The iterations one after the other. -/
theorem QueuesOk.loopIterations (flags : LoopFlags) (limits : DispatchLimits)
    (its : List (Iteration κ)) : ∀ {b : ActiveBase κ}, b.QueuesOk →
    b.eventRunningPriority = -1 → (∀ it ∈ its, IterationOk free b.cb it) →
    (free ∨ 1 ≤ limits.maxDispatchCallbacks ∧ b.InternalFirst) →
    ∃ r, loopIterations flags limits its b = some r ∧ Kept free b r := by
  induction its with
  | nil =>
      intro b h idle ok first
      refine ⟨_, rfl, h, .refl b, Or.inl idle, ?_⟩
      exact first.imp id fun f => ⟨f.2, fun ks mem => by cases mem⟩
  | cons it its ih =>
      intro b h idle ok first
      obtain ⟨r, run, kept⟩ := h.iterate idle flags limits (ok it List.mem_cons_self) first
      unfold ActiveBase.loopIterations
      rw [run]
      simp only [Option.bind_eq_bind, Option.bind_some]
      by_cases ended : (r.retval.isSome || r.interrupted) = true
      · rw [if_pos ended]
        exact ⟨r, rfl, kept⟩
      rw [if_neg ended]
      have idle' : r.base.eventRunningPriority = -1 := by
        rcases kept.idle with idle' | ⟨-, cut⟩
        · exact idle'
        · rw [cut, Bool.or_true] at ended
          exact absurd rfl ended
      obtain ⟨r', run', kept'⟩ := ih kept.ok idle'
        (fun it' mem => (ok it' (List.mem_cons_of_mem _ mem)).kinds kept.same.kinds) (by
          rcases first with any | ⟨max, -⟩
          · exact Or.inl any
          · exact kept.order.imp id fun o => ⟨max, o.1⟩)
      rw [run']
      refine ⟨_, rfl, kept'.ok, kept.same.trans kept'.same, kept'.idle, ?_⟩
      rcases kept.order with any | ⟨-, inTurn⟩
      · exact Or.inl any
      refine kept'.order.imp id fun o => ⟨o.1, fun ks mem => ?_⟩
      rcases List.mem_append.mp mem with mem | mem
      · exact inTurn ks mem
      · exact o.2 ks mem

/-- The base between the steps of a program. -/
structure Between (b : ActiveBase κ) : Prop where
  ok : b.QueuesOk
  idle : b.runningLoop = false → b.eventRunningPriority = -1

/-- `event_base_loop`. -/
theorem Between.eventBaseLoop (h : b.Between) (flags : LoopFlags) (limits : DispatchLimits)
    {its : List (Iteration κ)} (ok : ∀ it ∈ its, IterationOk free b.cb it)
    (first : free ∨ 1 ≤ limits.maxDispatchCallbacks ∧ b.InternalFirst) :
    ∃ r, eventBaseLoop flags limits its b = some r ∧ r.base.Between ∧
      Kinds b r.base ∧
      (free ∨ r.base.InternalFirst ∧ ∀ ks ∈ r.started, InTurn ks) := by
  unfold ActiveBase.eventBaseLoop
  by_cases running : b.runningLoop = true
  · rw [if_pos running]
    refine ⟨_, rfl, h, fun k => ⟨rfl, rfl⟩, ?_⟩
    exact first.imp id fun f => ⟨f.2, fun ks mem => by cases mem⟩
  rw [if_neg running]
  let b₀ : ActiveBase κ :=
    { b with eventGotterm := false, eventBreak := false, runningLoop := true }
  have h₀ : b₀.QueuesOk := h.ok.congr rfl rfl rfl rfl
  obtain ⟨r, run, kept⟩ := h₀.loopIterations flags limits its
    (h.idle (Bool.eq_false_of_not_eq_true running)) ok first
  show ∃ r', (ActiveBase.loopIterations flags limits its b₀).bind _ = some r' ∧ _
  rw [run]
  have kinds : Kinds b r.base := kept.same.kinds
  simp only [Option.bind_some, Option.pure_def]
  by_cases ended : r.retval.isSome = true
  · rw [if_pos ended]
    refine ⟨_, rfl, ⟨kept.ok.congr rfl rfl rfl rfl, fun _ => ?_⟩, kinds, kept.order⟩
    rcases kept.idle with idle | ⟨going, -⟩
    · exact idle
    · rw [going] at ended
      cases ended
  · rw [if_neg ended]
    refine ⟨r, rfl, ⟨kept.ok, fun off => ?_⟩, kinds, kept.order⟩
    rw [kept.same.looping] at off
    cases off

/-- What a program may do between the loops and in them. -/
def StepOk (free : Prop) (cb : κ → EventCallback) : ActiveStep κ → Prop
  | .call c => free ∨ c.Usual cb
  | .priorityInit .. => True
  | .loop _ limits its =>
      (∀ it ∈ its, IterationOk free cb it) ∧ (free ∨ 1 ≤ limits.maxDispatchCallbacks)

omit [DecidableEq κ] in
/-- Outside of the loop, the number of priorities is made one that the priority of every
callback is below. -/
def Fits (b : ActiveBase κ) : ActiveStep κ → Prop
  | .priorityInit npriorities memory => b.runningLoop = false ∧
      ∀ k, (b.cb k).evcbPri < (b.eventBasePriorityInit npriorities memory).2.activequeues.length
  | _ => True

omit [DecidableEq κ] in
/-- Nothing is active, and there are queues enough. -/
theorem queuesOk_of_idle (active : ∀ k, (b.cb k).active = false)
    (activeLater : ∀ k, (b.cb k).activeLater = false)
    (pri : ∀ k, (b.cb k).evcbPri < b.activequeues.length) (queues : ∀ q ∈ b.activequeues, q = [])
    (laterQueue : b.activeLaterQueue = []) (count : b.eventCountActive = 0) : b.QueuesOk := by
  have queue (i : Nat) : b.queue i = [] := by
    unfold ActiveBase.queue
    rw [List.getD_eq_getElem?_getD]
    cases at_ : b.activequeues[i]? with
    | none => rfl
    | some q => exact queues q (List.mem_of_getElem? at_)
  refine ⟨?_, ?_, ?_, ?_, ?_, pri, ?_⟩
  · intro i
    rw [queue]
    exact List.nodup_nil
  · intro i k
    rw [queue, active]
    simp
  · rw [laterQueue]
    exact List.nodup_nil
  · intro k
    rw [laterQueue, activeLater]
    simp
  · intro k on
    rw [active] at on
    cases on
  · rw [count, laterQueue, eq_comm]
    have zero : b.activequeues.map List.length = b.activequeues.map fun _ => 0 :=
      List.map_congr_left fun q mem => by rw [queues q mem, List.length_nil]
    rw [zero]
    simp

omit [DecidableEq κ] in
/-- The queues may be made anew while nothing is active. -/
theorem QueuesOk.renew (h : b.QueuesOk) (count : b.eventCountActive = 0) (queues : List (List κ))
    (empty : ∀ q ∈ queues, q = []) (pri : ∀ k, (b.cb k).evcbPri < queues.length) :
    QueuesOk { b with activequeues := queues } := by
  have zero := h.count
  rw [count] at zero
  have none_ : b.activeLaterQueue.length = 0 := by omega
  refine queuesOk_of_idle (fun k => ?_) (fun k => ?_) pri empty
    (List.length_eq_zero_iff.mp none_) count
  · by_contra on
    have mem : k ∈ b.activequeues.getD (b.cb k).evcbPri [] :=
      (h.mem _ k).mpr ⟨Bool.eq_true_of_not_eq_false on, rfl⟩
    have pos := List.length_pos_of_mem mem
    have sum := sum_modify b.activequeues (b.cb k).evcbPri (fun _ => []) (h.pri k)
    rw [List.length_nil] at sum
    omega
  · by_contra on
    have mem := (h.later k).mpr (Bool.eq_true_of_not_eq_false on)
    have pos := List.length_pos_of_mem mem
    omega

omit [DecidableEq κ] in
theorem QueuesOk.eventBasePriorityInit (h : b.QueuesOk) (npriorities : Int) (memory : Bool)
    (pri : ∀ k,
      (b.cb k).evcbPri < (b.eventBasePriorityInit npriorities memory).2.activequeues.length) :
    (b.eventBasePriorityInit npriorities memory).2.QueuesOk := by
  unfold ActiveBase.eventBasePriorityInit at pri ⊢
  split_ifs at pri ⊢ with refused same
  · exact h
  · exact h
  · exact h.renew (not_not.mp (not_or.mp refused).1) _ (fun q mem => List.eq_of_mem_replicate mem)
      pri
  · exact h.renew (not_not.mp (not_or.mp refused).1) [] (fun q mem => by cases mem) pri

theorem Between.step (h : b.Between) {s : ActiveStep κ} (ok : StepOk free b.cb s)
    (fits : Fits b s) (first : free ∨ b.InternalFirst) :
    ∃ b', b.step s = some b' ∧ b'.Between ∧ Kinds b b' ∧
      (free ∨ b'.InternalFirst ∧ ∀ ks ∈ b.starts s, InTurn ks) := by
  cases s with
  | call c =>
      obtain ⟨b', run, m⟩ := h.ok.call free True c ok fun _ => trivial
      have same := Moves.same m
      refine ⟨b', run, ⟨h.ok.moves m, fun off => ?_⟩,
        same.kinds, ?_⟩
      · rw [Moves.running m]
        exact h.idle (same.looping ▸ off)
      · by_cases any : free
        · exact Or.inl any
        · exact first.imp id fun f =>
            ⟨f.moves (Moves.strict m any), fun ks mem => by cases mem⟩
  | priorityInit npriorities memory =>
      have same : (b.eventBasePriorityInit npriorities memory).2.cb = b.cb ∧
          (b.eventBasePriorityInit npriorities memory).2.eventRunningPriority =
            b.eventRunningPriority := by
        unfold ActiveBase.eventBasePriorityInit
        split_ifs <;> exact ⟨rfl, rfl⟩
      refine ⟨_, rfl, ⟨h.ok.eventBasePriorityInit npriorities memory fits.2, fun _ => ?_⟩,
        fun k => ?_, first.imp id fun f => ⟨fun k on => ?_, fun ks mem => by cases mem⟩⟩
      · rw [same.2]
        exact h.idle fits.1
      · rw [same.1]
        exact ⟨rfl, rfl⟩
      · rw [same.1] at on ⊢
        exact f k on
  | loop flags limits its =>
      obtain ⟨r, run, between, kinds, order⟩ := h.eventBaseLoop flags limits ok.1 (by
        rcases ok.2 with any | max
        · exact Or.inl any
        · exact first.imp id fun f => ⟨max, f⟩)
      refine ⟨r.base, ?_, between, kinds, ?_⟩
      · show (ActiveBase.eventBaseLoop flags limits its b).map Looped.base = _
        rw [run]
        rfl
      · refine order.imp id fun o => ⟨o.1, ?_⟩
        show ∀ ks ∈ ((ActiveBase.eventBaseLoop flags limits its b).map Looped.started).getD [], _
        rw [run]
        exact o.2

omit [DecidableEq κ] in
theorem New.between (new : b.New) : b.Between :=
  ⟨queuesOk_of_idle new.active new.activeLater new.pri new.queues new.laterQueue new.count,
    fun _ => new.running⟩

omit [DecidableEq κ] in
theorem StepOk.kinds {s : ActiveStep κ} (ok : StepOk free b.cb s) (kinds : Kinds b b') :
    StepOk free b'.cb s := by
  cases s with
  | call c => exact ok.imp id kinds.usual
  | priorityInit npriorities memory => trivial
  | loop flags limits its => exact ⟨fun it mem => (ok.1 it mem).kinds kinds, ok.2⟩

end Loop

/-! ## How long the active queues last -/

section Backlog

variable {b b' : ActiveBase κ} {k : κ}

omit [DecidableEq κ] in
/-- How many callbacks `event_process_active` has to run at most, if no event is
activated: those that are active, those that may still be scheduled, and, as long as
they may, the deferred ones that wait for the next iteration. -/
def backlog (b : ActiveBase κ) : Nat :=
  (b.activequeues.map List.length).sum + (maxDeferredsQueued + 1 - b.nDeferredsQueued) +
    if b.nDeferredsQueued ≤ maxDeferredsQueued then
      b.activeLaterQueue.countP fun k => !(b.cb k).init
    else 0

omit [DecidableEq κ] in
/-- A base with as many callbacks deferred. -/
theorem backlog_le (more less : Nat) (init : ∀ k, (b'.cb k).init = (b.cb k).init)
    (deferreds : b'.nDeferredsQueued = b.nDeferredsQueued)
    (few : b.nDeferredsQueued ≤ maxDeferredsQueued →
      (b'.activequeues.map List.length).sum +
          b'.activeLaterQueue.countP (fun k => !(b.cb k).init) + less ≤
        (b.activequeues.map List.length).sum +
          b.activeLaterQueue.countP (fun k => !(b.cb k).init) + more)
    (many : maxDeferredsQueued < b.nDeferredsQueued →
      (b'.activequeues.map List.length).sum + less ≤
        (b.activequeues.map List.length).sum + more) :
    b'.backlog + less ≤ b.backlog + more := by
  unfold backlog
  have kind : (fun k => !(b'.cb k).init) = fun k => !(b.cb k).init := by
    funext k
    rw [init]
  rw [deferreds, kind]
  by_cases le : b.nDeferredsQueued ≤ maxDeferredsQueued
  · rw [if_pos le, if_pos le]
    have := few le
    omega
  · rw [if_neg le, if_neg le]
    have := many (not_le.mp le)
    omega

theorem QueuesOk.sum_pushActive (h : b.QueuesOk) (k : κ) :
    ((b.pushActive k).activequeues.map List.length).sum =
      (b.activequeues.map List.length).sum + 1 := by
  have sum := sum_modify b.activequeues (b.cb k).evcbPri (· ++ [k]) (h.pri k)
  rw [List.length_append, List.length_singleton] at sum
  show ((b.activequeues.modify _ _).map List.length).sum = _
  omega

theorem QueuesOk.sum_dropActive (h : b.QueuesOk) (on : (b.cb k).active = true) :
    ((b.dropActive k).activequeues.map List.length).sum + 1 =
      (b.activequeues.map List.length).sum := by
  have mem : k ∈ b.activequeues.getD (b.cb k).evcbPri [] := (h.mem _ k).mpr ⟨on, rfl⟩
  have sum := sum_modify b.activequeues (b.cb k).evcbPri (·.erase k) (h.pri k)
  have pos := List.length_pos_of_mem mem
  rw [List.length_erase_of_mem mem] at sum
  show ((b.activequeues.modify _ _).map List.length).sum + 1 = _
  omega

theorem QueuesOk.backlog_pushActive (h : b.QueuesOk) (k : κ) :
    (b.pushActive k).backlog ≤ b.backlog + 1 := by
  have same : Same b (b.pushActive k) := .of_update rfl rfl rfl id rfl rfl
  have sum := h.sum_pushActive k
  refine backlog_le 1 0 same.init rfl (fun _ => ?_) fun _ => sum.le
  show _ + b.activeLaterQueue.countP _ + 0 ≤ _
  omega

theorem QueuesOk.backlog_dropActive (h : b.QueuesOk) (on : (b.cb k).active = true) :
    (b.dropActive k).backlog + 1 ≤ b.backlog := by
  have same : Same b (b.dropActive k) := .of_update rfl rfl rfl id rfl rfl
  have sum := h.sum_dropActive on
  refine backlog_le 0 1 same.init rfl (fun _ => ?_) fun _ => sum.le
  show _ + b.activeLaterQueue.countP _ + 1 ≤ _
  omega

theorem backlog_dropLater (b : ActiveBase κ) (k : κ) : (b.dropLater k).backlog ≤ b.backlog := by
  have same : Same b (b.dropLater k) := .of_update rfl rfl rfl id rfl rfl
  refine backlog_le 0 0 same.init rfl (fun _ => ?_) fun _ => le_rfl
  show (b.activequeues.map List.length).sum + (b.activeLaterQueue.erase k).countP _ + 0 ≤ _
  have := (List.erase_sublist (a := k) (l := b.activeLaterQueue)).countP_le
    (p := fun k => !(b.cb k).init)
  omega

/-- A deferred callback that waits and is scheduled again is not counted twice. -/
theorem QueuesOk.backlog_dropLater_pushActive (h : b.QueuesOk)
    (later : (b.cb k).activeLater = true) (deferred : (b.cb k).init = false)
    (few : b.nDeferredsQueued ≤ maxDeferredsQueued) :
    ((b.dropLater k).pushActive k).backlog ≤ b.backlog := by
  have same : Same b (b.dropLater k) := .of_update rfl rfl rfl id rfl rfl
  have same' : Same (b.dropLater k) ((b.dropLater k).pushActive k) :=
    .of_update rfl rfl rfl id rfl rfl
  have sum := (h.dropLater later).sum_pushActive k
  refine backlog_le 0 0 (same.trans same').init rfl (fun _ => ?_)
    fun many => absurd few (not_le.mpr many)
  show _ + (b.activeLaterQueue.erase k).countP _ + 0 ≤ _
  have mem : k ∈ b.activeLaterQueue := (h.later k).mpr later
  have kind : (!(b.cb k).init) = true := by rw [deferred, Bool.not_false]
  have pos : 0 < b.activeLaterQueue.countP fun k => !(b.cb k).init :=
    List.countP_pos_iff.mpr ⟨k, mem, kind⟩
  rw [List.countP_erase, if_pos ⟨mem, kind⟩, sum]
  show (b.activequeues.map List.length).sum + 1 + _ + 0 ≤ _
  omega

/-- What becomes active later is not run now, unless it is deferred and may still be
scheduled. -/
theorem backlog_pushLater (b : ActiveBase κ) (k : κ)
    (not_now : (b.cb k).init = true ∨ maxDeferredsQueued < b.nDeferredsQueued) :
    (b.pushLater k).backlog ≤ b.backlog := by
  have same : Same b (b.pushLater k) := .of_update rfl rfl rfl id rfl rfl
  refine backlog_le 0 0 same.init rfl (fun few => ?_) fun _ => le_rfl
  have event := not_now.resolve_right (not_lt.mpr few)
  show (b.activequeues.map List.length).sum + (b.activeLaterQueue ++ [k]).countP _ + 0 ≤ _
  rw [List.countP_append, List.countP_singleton, event, Bool.not_true, if_neg Bool.false_ne_true]
  exact le_rfl

omit [DecidableEq κ] in
theorem backlog_congr (init : ∀ k, (b'.cb k).init = (b.cb k).init)
    (queues : b'.activequeues = b.activequeues)
    (later : b'.activeLaterQueue = b.activeLaterQueue)
    (deferreds : b'.nDeferredsQueued = b.nDeferredsQueued) : b'.backlog = b.backlog := by
  unfold backlog
  have kind : (fun k => !(b'.cb k).init) = fun k => !(b.cb k).init := by
    funext k
    rw [init]
  rw [deferreds, kind, queues, later]

theorem QueuesOk.backlog_activate (h : b.QueuesOk) (k : κ) {r : Int}
    (run : b.eventCallbackActivateNolock k = some (r, b')) : b'.backlog ≤ b.backlog + 1 := by
  rcases h.activate_cases k with eq | ⟨-, later, eq⟩ | ⟨-, -, eq⟩
  · rw [eq] at run
    cases run
    exact Nat.le_succ _
  · rw [eq] at run
    cases run
    have := (h.dropLater later).backlog_pushActive k
    have := backlog_dropLater b k
    omega
  · rw [eq] at run
    cases run
    exact h.backlog_pushActive k

theorem QueuesOk.backlog_active (h : b.QueuesOk) (k : κ) (res : Nat)
    (run : b.eventActiveNolock k res = some b') : b'.backlog ≤ b.backlog + 1 := by
  obtain ⟨res', eq | eq | eq⟩ := h.active_cases k res
  · rw [eq] at run
    cases run
    exact Nat.le_succ _
  · rw [eq] at run
    cases run
    have same : Same b (b.setCb k { b.cb k with evRes := res' }) :=
      .of_update rfl rfl rfl id rfl rfl
    rw [backlog_congr same.init rfl rfl rfl]
    exact Nat.le_succ _
  · rw [eq] at run
    obtain ⟨⟨r, b₂⟩, run', rfl⟩ := Option.map_eq_some_iff.mp run
    have m : Move True True b (b.setCb k { b.cb k with evRes := res' }) := .evRes b k res'
    have grow := QueuesOk.backlog_activate (by exact (h.move m).congr rfl rfl rfl rfl) k run'
    refine grow.trans (Nat.add_le_add_right (Eq.le ?_) 1)
    exact backlog_congr m.same.init rfl rfl rfl

theorem QueuesOk.backlog_del (h : b.QueuesOk) (k : κ) (run : b.eventDelNolock k = some b') :
    b'.backlog ≤ b.backlog := by
  rcases h.del_cases k with ⟨-, eq⟩ | ⟨-, -, -, eq⟩ | ⟨-, on, eq⟩ | ⟨-, -, -, eq⟩
  · rw [eq] at run
    cases run
    exact le_rfl
  · rw [eq] at run
    cases run
    exact le_rfl
  · rw [eq] at run
    cases run
    exact (Nat.le_succ _).trans (h.backlog_dropActive on)
  · rw [eq] at run
    cases run
    exact backlog_dropLater b k

end Backlog

end ActiveBase

/-- How many callbacks the call makes active. -/
def ActiveCall.activations {κ : Type} : ActiveCall κ → Nat
  | .active _ _ | .activate _ | .finalize _ | .callbackFinalize _ => 1
  | _ => 0

/-- How many a turn of a callback does. -/
def Turn.activations {κ : Type} (t : Turn κ) : Nat :=
  ((t.calls ++ t.before ++ t.after).map ActiveCall.activations).sum + t.reports.length

namespace ActiveBase

variable {κ : Type} [DecidableEq κ]

section Ends

variable {b b' : ActiveBase κ}

/-- **What a call adds.**  A callback that is scheduled either is one of the few that
may be deferred, or waits for the next iteration. -/
theorem QueuesOk.backlog_call (h : b.QueuesOk) {c : ActiveCall κ} (usual : c.Usual b.cb)
    (run : b.call c = some b') : b'.backlog ≤ b.backlog + c.activations := by
  cases c with
  | active k res => exact h.backlog_active k res run
  | activeLater k res =>
      replace run : b.eventActiveLaterNolock k res = some b' := run
      unfold ActiveBase.eventActiveLaterNolock at run
      have m : Move True True b (b.setCb k { b.cb k with evRes := (b.cb k).evRes ||| res }) :=
        .evRes b k _
      split_ifs at run with queued
      · cases run
        exact (backlog_congr m.same.init rfl rfl rfl).le
      · have m' : Move True True b (b.setCb k { b.cb k with evRes := res }) := .evRes b k res
        have event := (m'.same.init k).trans usual
        rcases (h.move m').activateLater_cases k with eq | ⟨-, -, eq⟩
        · simp only [eq, Option.bind_eq_bind, Option.bind_some, Option.pure_def] at run
          cases run
          exact (backlog_congr m'.same.init rfl rfl rfl).le
        · simp only [eq, Option.bind_eq_bind, Option.bind_some, Option.pure_def] at run
          cases run
          exact (backlog_pushLater _ k (Or.inl event)).trans
            (backlog_congr m'.same.init rfl rfl rfl).le
  | activate k =>
      obtain ⟨⟨r, b₂⟩, run', rfl⟩ := Option.map_eq_some_iff.mp run
      exact h.backlog_activate k run'
  | schedule k =>
      have deferred : (b.cb k).init = false := usual
      replace run : b.eventDeferredCbSchedule k = some b' := run
      unfold ActiveBase.eventDeferredCbSchedule at run
      by_cases many : maxDeferredsQueued < b.nDeferredsQueued
      · rw [if_pos many] at run
        rcases h.activateLater_cases k with eq | ⟨-, -, eq⟩
        · simp only [eq, Option.bind_eq_bind, Option.bind_some, Option.pure_def] at run
          cases run
          exact le_rfl
        · simp only [eq, Option.bind_eq_bind, Option.bind_some, Option.pure_def] at run
          cases run
          exact backlog_pushLater b k (Or.inr many)
      rw [if_neg many] at run
      have few := not_lt.mp many
      rcases h.activate_cases k with eq | ⟨-, later, eq⟩ | ⟨-, -, eq⟩
      · simp only [eq, Option.bind_eq_bind, Option.bind_some, Option.pure_def] at run
        cases run
        exact le_rfl
      · simp only [eq, Option.bind_eq_bind, Option.bind_some, Option.pure_def] at run
        cases run
        exact h.backlog_dropLater_pushActive later deferred few
      · simp only [eq, Option.bind_eq_bind, Option.bind_some, Option.pure_def] at run
        cases run
        have sum := h.sum_pushActive k
        have same : Same b (b.pushActive k) := .of_update rfl rfl rfl id rfl rfl
        have kind : (fun x => !((b.pushActive k).cb x).init) = fun x => !(b.cb x).init := by
          funext x
          rw [same.init]
        unfold backlog
        show ((b.pushActive k).activequeues.map List.length).sum +
          (maxDeferredsQueued + 1 - (b.nDeferredsQueued + 1)) +
          (if b.nDeferredsQueued + 1 ≤ maxDeferredsQueued then
            b.activeLaterQueue.countP fun x => !((b.pushActive k).cb x).init else 0) ≤ _ + 0
        rw [sum, kind, if_pos few]
        split_ifs <;> omega
  | del k => exact h.backlog_del k run
  | cancel k => exact h.backlog_del k ((h.eventCallbackCancelNolock k).symm.trans run)
  | reschedule k =>
      replace run : b.reschedule k = some b' := run
      unfold ActiveBase.reschedule at run
      split_ifs at run with finalizing due
      · cases run
        exact le_rfl
      · have on := (Bool.and_eq_true_iff.mp due).1
        rw [h.eventQueueRemoveActive on] at run
        cases run
        exact (Nat.le_succ _).trans (h.backlog_dropActive on)
      · cases run
        exact le_rfl
  | prioritySet k pri =>
      cases run
      show (b.eventPrioritySet k pri).backlog ≤ _
      unfold ActiveBase.eventPrioritySet
      split_ifs
      · exact le_rfl
      · exact le_rfl
      · have same : Same b (b.setCb k { b.cb k with evcbPri := pri }) :=
          .of_update rfl rfl rfl id rfl rfl
        exact (backlog_congr same.init rfl rfl rfl).le
  | deferredCbSetPriority k pri =>
      cases run
      split_ifs
      · exact le_rfl
      · have same : Same b (b.setCb k { b.cb k with evcbPri := pri }) :=
          .of_update rfl rfl rfl id rfl rfl
        exact (backlog_congr same.init rfl rfl rfl).le
  | finalize k =>
      obtain ⟨b₁, run₁, ms, -⟩ := h.eventDelNolock True True k
      obtain ⟨b₂, run₂, ms'⟩ := (h.moves ms).eventActiveNolock True True k evFinalize
      have eq : b.call (.finalize k) = some (b₂.setCb k { b₂.cb k with finalizing := true }) := by
        show (b.eventDelNolock k).bind _ = _
        rw [run₁, Option.bind_some]
        show (b₁.eventActiveNolock k evFinalize).bind _ = _
        rw [run₂]
        rfl
      rw [eq] at run
      cases run
      have same : Same b₂ (b₂.setCb k { b₂.cb k with finalizing := true }) :=
        .of_update rfl rfl rfl (fun _ => rfl) rfl rfl
      have less := h.backlog_del k run₁
      have more := (h.moves ms).backlog_active k evFinalize run₂
      rw [backlog_congr same.init rfl rfl rfl]
      show _ ≤ b.backlog + 1
      omega
  | callbackFinalize k =>
      obtain ⟨b₁, run₁, ms, left⟩ := h.eventDelNolock True True k
      have less := h.backlog_del k run₁
      replace run : b.eventCallbackFinalizeNolock k = some b' := run
      unfold ActiveBase.eventCallbackFinalizeNolock at run
      rw [h.eventCallbackCancelNolock, ite_self, run₁] at run
      simp only [Option.bind_eq_bind, Option.bind_some] at run
      obtain ⟨⟨r, b₂⟩, run₂, last⟩ := Option.bind_eq_some_iff.mp run
      cases last
      have more := (h.moves ms).backlog_activate k run₂
      have same : Same b₂ (b₂.setCb k { b₂.cb k with finalizing := true }) :=
        .of_update rfl rfl rfl (fun _ => rfl) rfl rfl
      rw [backlog_congr same.init rfl rfl rfl]
      show _ ≤ b.backlog + 1
      omega
  | loopbreak =>
      cases run
      exact le_rfl
  | loopcontinue =>
      cases run
      exact le_rfl
  | loopexit =>
      cases run
      exact le_rfl

/-- Calls one after the other. -/
theorem QueuesOk.backlog_calls (cs : List (ActiveCall κ)) : ∀ {b : ActiveBase κ}, b.QueuesOk →
    (∀ c ∈ cs, c.Usual b.cb) → StepSystem.run ActiveBase.call b cs = some b' →
    b'.backlog ≤ b.backlog + (cs.map ActiveCall.activations).sum := by
  induction cs with
  | nil =>
      intro b _ _ run
      cases run
      exact le_rfl
  | cons c cs ih =>
      intro b h usual run
      obtain ⟨b₁, run₁, rest⟩ := StepSystem.run_cons_eq_some.mp run
      obtain ⟨b₁', run₁', m⟩ := h.call True True c (Or.inl trivial)
        fun _ => trivial
      obtain rfl : b₁' = b₁ := Option.some.inj (run₁'.symm.trans run₁)
      have here := h.backlog_call (usual c List.mem_cons_self) run₁
      have there := ih (h.moves m) (fun c' mem =>
        (Moves.same m).kinds.usual (usual c' (List.mem_cons_of_mem _ mem))) rest
      rw [List.map_cons, List.sum_cons]
      omega

omit [DecidableEq κ] in
theorem activations_reports (reports : List (Report κ)) :
    ((reports.map Report.calls).flatten.map ActiveCall.activations).sum = reports.length := by
  induction reports with
  | nil => rfl
  | cons r reports ih =>
      rw [List.map_cons, List.flatten_cons, List.map_append, List.sum_append, ih,
        List.length_cons, Nat.add_comm]
      congr 1
      unfold Report.calls
      split_ifs <;> rfl

omit [DecidableEq κ] in
/-- What is called in the turns is called of callbacks of the kind. -/
def TurnsUsual (cb : κ → EventCallback) (turns : List (Turn κ)) : Prop :=
  ∀ t ∈ turns, ∀ c ∈ t.calls ++ t.before ++ t.after, c.Usual cb

omit [DecidableEq κ] in
theorem TurnsUsual.kinds {turns : List (Turn κ)} (usual : TurnsUsual b.cb turns)
    (kinds : Kinds b b') : TurnsUsual b'.cb turns :=
  fun t mem c inside => kinds.usual (usual t mem c inside)

/-- **One turn** is one callback less, up to those that it makes active. -/
theorem QueuesOk.backlog_turn (h : b.QueuesOk) {k : κ} (on : (b.cb k).active = true) {t : Turn κ}
    (usual : ∀ c ∈ t.calls ++ t.before ++ t.after, c.Usual b.cb)
    (run : StepSystem.run ActiveBase.call (b.dropActive k) (b.turnCalls k t) = some b') :
    b'.backlog + 1 ≤ b.backlog + t.activations := by
  have less := h.backlog_dropActive on
  have same : Same b (b.dropActive k) := .of_update rfl rfl rfl id rfl rfl
  have kept : ∀ c ∈ t.calls ++ t.before ++ t.after, c.Usual (b.dropActive k).cb :=
    fun c mem => same.kinds.usual (usual c mem)
  have most : b'.backlog ≤ (b.dropActive k).backlog +
      ((b.turnCalls k t).map ActiveCall.activations).sum := by
    refine QueuesOk.backlog_calls _ (h.dropActive on) (fun c mem => ?_) run
    unfold turnCalls at mem
    split_ifs at mem
    · rw [List.mem_append, List.mem_append] at mem
      rcases mem with (mem | mem) | mem
      · exact kept c (List.mem_append_left _ (List.mem_append_right _ mem))
      · exact (report_calls t.reports _ c mem).1
      · exact kept c (List.mem_append_right _ mem)
    · exact kept c (List.mem_append_left _ (List.mem_append_left _ mem))
  have there : ((b.turnCalls k t).map ActiveCall.activations).sum ≤ t.activations := by
    unfold turnCalls Turn.activations
    split_ifs
    · simp only [List.map_append, List.sum_append, activations_reports]
      omega
    · simp only [List.map_append, List.sum_append]
      omega
  omega

/-- The activations of the turns that are left. -/
def activations (turns : List (Turn κ)) : Nat := (turns.map Turn.activations).sum

/-- How a run of callbacks uses up what there is to run. -/
structure Spent (turns : List (Turn κ)) (b : ActiveBase κ) (r : Processed κ) : Prop where
  spent : r.started.length + r.base.backlog + activations r.turns ≤
    b.backlog + activations turns
  consumed : r.started.length + r.turns.length = turns.length
  none : r.result = none → r.turns = [] ∧ 1 ≤ r.base.backlog
  sub : ∀ t ∈ r.turns, t ∈ turns

omit [DecidableEq κ] in
theorem Spent.refl (turns : List (Turn κ)) (b : ActiveBase κ) (result : Int) :
    Spent turns b ⟨some result, turns, [], b⟩ := by
  refine ⟨?_, ?_, fun none => (by cases none), fun _ mem => mem⟩
  · show 0 + b.backlog + activations turns ≤ b.backlog + activations turns
    omega
  · show 0 + turns.length = turns.length
    omega

omit [DecidableEq κ] in
theorem Spent.trans {turns : List (Turn κ)} {r r' : Processed κ} (s : Spent turns b r)
    (s' : Spent r.turns r.base r') :
    Spent turns b { r' with started := r.started ++ r'.started } := by
  obtain ⟨h₁, h₂, -, h₃⟩ := s
  obtain ⟨h₁', h₂', none, h₃'⟩ := s'
  refine ⟨?_, ?_, none, fun t mem => h₃ t (h₃' t mem)⟩
  · show (r.started ++ r'.started).length + r'.base.backlog + activations r'.turns ≤
      b.backlog + activations turns
    rw [List.length_append]
    omega
  · show (r.started ++ r'.started).length + r'.turns.length = turns.length
    rw [List.length_append]
    omega

theorem QueuesOk.backlog_pos (h : b.QueuesOk) {pri : Nat} {k : κ} {q : List κ}
    (front : b.activequeues.getD pri [] = k :: q) : 1 ≤ b.backlog := by
  have on := ((h.mem pri k).mp (by
    unfold ActiveBase.queue
    rw [front]
    exact List.mem_cons_self)).1
  have := h.backlog_dropActive on
  omega

/-- One priority. -/
theorem QueuesOk.spent_processSingleQueue (pri maxToProcess : Nat) (endtime : Bool)
    (turns : List (Turn κ)) : ∀ {b : ActiveBase κ} {r : Processed κ} (count : Nat), b.QueuesOk →
    TurnsUsual b.cb turns →
    ActiveBase.processSingleQueue pri maxToProcess endtime count turns b = some r →
    Spent turns b r := by
  induction turns with
  | nil =>
      intro b r count h ok run
      unfold ActiveBase.processSingleQueue at run
      cases front : b.activequeues.getD pri [] with
      | nil =>
          rw [front] at run
          cases run
          exact .refl [] b _
      | cons k q =>
          rw [front] at run
          cases run
          have pos := h.backlog_pos front
          refine ⟨?_, rfl, fun _ => ⟨rfl, pos⟩, fun _ mem => mem⟩
          show 0 + b.backlog + activations [] ≤ b.backlog + activations []
          omega
  | cons t turns ih =>
      intro b r count h ok run
      unfold ActiveBase.processSingleQueue at run
      cases front : b.activequeues.getD pri [] with
      | nil =>
          rw [front] at run
          cases run
          exact .refl _ b _
      | cons k q =>
          rw [front] at run
          have usual := ok t List.mem_cons_self
          obtain ⟨b₁, b₂, remove, run₂, m, -⟩ :=
            h.turn (t := t) True front (fun _ _ => Or.inl trivial) fun _ _ => Or.inl trivial
          have on : (b.cb k).active = true := ((h.mem pri k).mp (by
            unfold ActiveBase.queue
            rw [front]
            exact List.mem_cons_self)).1
          obtain rfl := Option.some.inj ((h.eventQueueRemoveActive on).symm.trans remove)
          have less := h.backlog_turn on usual run₂
          have stop (result : Int) : Spent (t :: turns) b ⟨some result, turns, [(k, b)], b₂⟩ := by
            refine ⟨?_, ?_, fun none => (by cases none), fun t' mem => List.mem_cons_of_mem _ mem⟩
            · show 1 + b₂.backlog + activations turns ≤ b.backlog + activations (t :: turns)
              unfold activations
              rw [List.map_cons, List.sum_cons]
              omega
            · show 1 + turns.length = turns.length + 1
              omega
          simp only [remove, run₂, Option.bind_eq_bind, Option.bind_some] at run
          generalize (if (b.cb k).internal then count else count + 1) = count' at run
          split_ifs at run
          · cases run
            exact stop _
          · cases run
            exact stop _
          · cases run
            exact stop _
          · cases run
            exact stop _
          · obtain ⟨r', rest, last⟩ := Option.bind_eq_some_iff.mp run
            cases last
            have ok₂ : TurnsUsual b₂.cb turns := fun t' mem =>
              (ok.kinds (Moves.same m).kinds) t' (List.mem_cons_of_mem _ mem)
            exact (stop 0).trans (ih count' (h.moves m) ok₂ rest)

theorem QueuesOk.spent_processQueues (limits : DispatchLimits) (pris : List Nat) :
    ∀ {b : ActiveBase κ} {turns : List (Turn κ)} {r : Processed κ}, b.QueuesOk →
    TurnsUsual b.cb turns → ActiveBase.processQueues limits pris turns b = some r →
    Spent turns b r := by
  induction pris with
  | nil =>
      intro b turns r h ok run
      cases run
      exact .refl turns b 0
  | cons pri pris ih =>
      intro b turns r h ok run
      unfold ActiveBase.processQueues at run
      by_cases empty : b.activequeues.getD pri [] = []
      · rw [if_pos empty] at run
        exact ih h ok run
      rw [if_neg empty] at run
      obtain ⟨r₁, run₁, rest⟩ := Option.bind_eq_some_iff.mp run
      have spent : Spent turns b r₁ := by
        let b' : ActiveBase κ := { b with eventRunningPriority := (pri : Int) }
        have h' : b'.QueuesOk := h.congr rfl rfl rfl rfl
        unfold ActiveBase.processPriority at run₁
        simp only at run₁
        split_ifs at run₁
        · have s := h'.spent_processSingleQueue pri _ _ turns 0 ok run₁
          exact ⟨s.spent, s.consumed, s.none, s.sub⟩
        · have s := h'.spent_processSingleQueue pri _ _ turns 0 ok run₁
          exact ⟨s.spent, s.consumed, s.none, s.sub⟩
      by_cases more : r₁.result ≠ some 0
      · rw [if_pos more] at rest
        cases rest
        exact spent
      · rw [if_neg more] at rest
        obtain ⟨r₂, run₂, last⟩ := Option.bind_eq_some_iff.mp rest
        cases last
        have any : TurnsOk True b.cb turns := turnsOk_of_free b.cb turns trivial
        obtain ⟨r₁', run₁', h', same, -⟩ :=
          h.processPriority True limits any empty (Or.inl trivial)
        obtain rfl := Option.some.inj (run₁'.symm.trans run₁)
        exact spent.trans (ih h' (fun t mem => ok.kinds same.kinds t (spent.sub t mem)) run₂)

end Ends

/-- **The queues stay in order.**  Whatever a program calls, in callbacks and
between them, and whatever it is told of: no assertion about the active queues
fails, no callback is taken off a queue that it is not on, and the flags, the
queues and `event_count_active` agree at the end, unless `misused`. -/
theorem event_base_loop_keeps_queues {b : ActiveBase κ} (new : b.New)
    (steps : List (ActiveStep κ)) (fits : StepSystem.Meets step Fits b steps) :
    ∃ b', StepSystem.run step b steps = some b' ∧
      (b'.misused = false → b'.QueuesOk ∧ b'.assertOk = true) := by
  have keep : ∀ (b : ActiveBase κ) (s : ActiveStep κ), b.Between → Fits b s →
      ∃ b', b.step s = some b' ∧ b'.Between := by
    intro b s between fits
    have ok : StepOk True b.cb s := by
      cases s with
      | call c => exact Or.inl trivial
      | priorityInit npriorities memory => trivial
      | loop flags limits its =>
          exact ⟨fun it _ => ⟨fun _ _ => Or.inl trivial, turnsOk_of_free b.cb it.turns trivial⟩,
            Or.inl trivial⟩
    obtain ⟨b', run, between', -⟩ := between.step ok fits (Or.inl trivial)
    exact ⟨b', run, between'⟩
  obtain ⟨b', run, between⟩ := StepSystem.run_total keep new.between steps fits
  exact ⟨b', run, fun _ => ⟨between.ok, between.ok.assertOk⟩⟩

/-- Two priorities: an event of each, a deferred callback of the more urgent one, and an
event of the library's own. -/
def twoPriorities : ActiveBase (Fin 4) where
  cb k := if k = 0 then {} else if k = 1 then { evcbPri := 1 } else if k = 2 then { init := false }
    else { internal := true }
  activequeues := [[], []]

theorem twoPriorities_new : twoPriorities.New :=
  ⟨by decide, by decide, by decide, by decide, rfl, rfl, rfl⟩

/-- The library's event and the less urgent one are reported, and another thread activates the
more urgent one; the less urgent one schedules the callback and activates itself again. -/
def overtaking : List (ActiveStep (Fin 4)) :=
  [.priorityInit 3 true, .call (.deferredCbSetPriority 2 0),
    .loop {} {}
      [{ reports := [⟨1, 2, false⟩, ⟨3, 2, false⟩], turns := [{ before := [.active 0 2] }, {}] },
       { turns := [{ calls := [.schedule 2, .active 1 2] }, {}] },
       { turns := [{}] }]]

theorem overtaking_fits : StepSystem.Meets step Fits twoPriorities overtaking :=
  ⟨⟨rfl, by decide⟩, fun _ _ => ⟨trivial, fun _ _ => ⟨trivial, fun _ _ => trivial⟩⟩⟩

theorem event_base_loop_keeps_queues_overtaking :
    ∃ b', StepSystem.run step twoPriorities overtaking = some b' ∧ b'.misused = false ∧
      b'.QueuesOk ∧ b'.assertOk = true := by
  obtain ⟨b', run, ok⟩ := event_base_loop_keeps_queues twoPriorities_new overtaking overtaking_fits
  have used : (StepSystem.run step twoPriorities overtaking).map misused = some false := by decide
  rw [run] at used
  have used := Option.some.inj used
  exact ⟨b', run, used, ok used⟩

/-- A deferred callback is overtaken: nothing tells the loop to stop for it. -/
example : ∃ ks ∈ StepSystem.collect step starts twoPriorities overtaking,
    ks.1 = 1 ∧ ks.2.queue 0 = [2] := by
  decide

/-- **`event_process_active` returns.**  It runs no more callbacks than are active, one
more than may be deferred, and those that the callbacks themselves and other threads
make active; so deferred callbacks that go on scheduling each other cannot keep it. -/
theorem process_active_returns {b : ActiveBase κ} (h : b.QueuesOk) (limits : DispatchLimits)
    {turns : List (Turn κ)}
    (usual : ∀ t ∈ turns, ∀ c ∈ t.calls ++ t.before ++ t.after, c.Usual b.cb) :
    ∃ r, processActive limits turns b = some r ∧ (r.base.misused = false →
      r.started.length ≤ b.eventCountActive + (maxDeferredsQueued + 1) + activations turns ∧
      (b.eventCountActive + (maxDeferredsQueued + 1) + activations turns ≤ turns.length →
        r.result ≠ none)) := by
  obtain ⟨r, run, -⟩ := QueuesOk.processQueues True limits b.activequeues.length 0 turns h
    (turnsOk_of_free b.cb turns trivial) (Or.inl trivial)
  rw [← List.range_eq_range'] at run
  have spent := h.spent_processQueues limits _ usual run
  have most : b.backlog ≤ b.eventCountActive + (maxDeferredsQueued + 1) := by
    unfold backlog
    have few := b.activeLaterQueue.countP_le_length (p := fun k => !(b.cb k).init)
    have count := h.count
    split_ifs <;> omega
  have bound := spent.spent
  have same : (if r.result = none then r
      else { r with base := { r.base with eventRunningPriority := -1 } }).started = r.started ∧
      (if r.result = none then r
        else { r with base := { r.base with eventRunningPriority := -1 } }).result = r.result := by
    split_ifs <;> exact ⟨rfl, rfl⟩
  refine ⟨_, by
    unfold processActive
    rw [run]
    rfl, fun _ => ⟨?_, ?_⟩⟩
  · rw [same.1]
    omega
  · intro enough
    rw [same.2]
    intro none
    obtain ⟨used, pos⟩ := spent.none none
    have consumed := spent.consumed
    rw [used, List.length_nil] at consumed
    omega

/-- A deferred callback that always schedules itself again. -/
def again : List (Turn (Fin 4)) := List.replicate 34 { calls := [.schedule 2] }

theorem process_active_returns_again :
    ∃ r, processActive {} again (twoPriorities.pushActive 2) = some r ∧
      (r.base.misused = false →
        r.started.length ≤ 1 + 33 + 0 ∧ (1 + 33 + 0 ≤ 34 → r.result ≠ none)) :=
  process_active_returns (twoPriorities_new.between.ok.pushActive rfl rfl) {} (by
    intro t mem c inside
    rw [List.eq_of_mem_replicate mem] at inside
    rw [List.mem_singleton.mp inside]
    rfl)

/-- It is run as often as the bound says. -/
example : (processActive {} again (twoPriorities.pushActive 2)).map
    (fun r => (r.started.length, r.result)) = some (34, some 34) := by
  decide +kernel

end ActiveBase

end SwiftEvent
