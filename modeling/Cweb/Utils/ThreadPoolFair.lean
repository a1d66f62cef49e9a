import Mathlib.Tactic.IntervalCases
import Cweb.Utils.ThreadPoolRuns

/-!
# Every job runs once

The jobs that were accepted are the jobs that have been started, in their
order, and behind them the jobs of the list. A wait and a free return when all
of them are done. In an execution that lets every worker have its turns no
accepted job stays in the list.
-/

namespace Cweb.ThreadPool

open LinkedQueue

variable {α : Type*}

theorem held_eq_nil {workers : List Worker} (h : busyCount workers = 0) : held workers = [] := by
  rw [held, List.filterMap_eq_nil_iff]
  intro w hw
  have hIdle := List.countP_eq_zero.mp h w hw
  cases w <;> first | rfl | exact absurd rfl hIdle

theorem busyCount_exited {workers : List Worker} (h : ∀ w ∈ workers, w = .exited) :
    busyCount workers = 0 := by
  rw [busyCount, List.countP_eq_zero]
  intro w hw
  rw [h w hw]
  exact Bool.noConfusion

/-- All that was accepted has been started in that order and has returned. -/
structure AllDone (p : ThreadPool α) : Prop where
  started : p.started = p.accepted
  finished : p.finished.Perm p.accepted
  dropped : p.dropped = []

theorem allDone_of_idle {p : ThreadPool α} (hBooked : Booked p []) (hStaffed : Staffed p [])
    (hIdle : busyCount p.workers = 0) : AllDone p := by
  have hStarted : p.accepted = p.started := by
    have hOrder := hBooked.order
    rwa [args_nil, List.append_nil] at hOrder
  have hOnce := hBooked.once
  rw [held_eq_nil hIdle, args_nil, List.append_nil] at hOnce
  exact ⟨hStarted.symm, hStarted ▸ hOnce.symm, hStaffed.kept⟩

/-- What holds between any two steps. -/
structure Sane (p : ThreadPool α) : Prop where
  list : ∃ addrs, Linked p.queue addrs ∧ p.queued = addrs.length ∧
    p.accepted = p.started ++ args p.queue.heap addrs
  active : p.active = busyCount p.workers
  once : p.started.Perm (p.finished ++ args p.queue.heap (held p.workers))
  freed : p.freed = true → AllDone p

theorem Reachable.sane {p : ThreadPool α} (h : Reachable p) : Sane p := by
  obtain ⟨addrs, hBooked, hStaffed⟩ := h.sound
  refine ⟨⟨addrs, hBooked.linked, hBooked.queued, hBooked.order⟩, hBooked.active, hBooked.once, ?_⟩
  intro hFreed
  have hExited := (hStaffed.ended hFreed).2
  obtain ⟨w, hw⟩ := List.exists_mem_of_ne_nil _ hStaffed.staffed
  have hGone : .exited ∈ p.workers := hExited w hw ▸ hw
  obtain ⟨_, rfl⟩ := hStaffed.gone hGone
  exact allDone_of_idle hBooked hStaffed (busyCount_exited hExited)

/-- What a call has seen to when it returns. -/
structure Answers (p : ThreadPool α) (event : Event α) (outcome : Outcome) (p' : ThreadPool α) : Prop where
  waited : outcome = .waitReturned → AllDone p'
  freed : outcome = .freeReturned → AllDone p'
  accepted : outcome = .submitReturned 0 → ∃ (c job : Nat) (woken : Option Nat) (arg : α),
    event = .enqueue c job woken ∧
    p.callers[c]? = some (.submitting arg) ∧ p'.accepted = p.accepted ++ [arg]
  refused : outcome ≠ .submitReturned 0 → p'.accepted = p.accepted
  stopped : p.stop = true → p'.stop = true ∧ ∀ rc, outcome = .submitReturned rc →
    rc = -1 ∧ p'.queue = p.queue ∧ p'.queued = p.queued

theorem answers_of_silent {p p' : ThreadPool α} {event : Event α} (hAccepted : p'.accepted = p.accepted)
    (hStop : p.stop = true → p'.stop = true) : Answers p event .none p' :=
  ⟨nofun, nofun, nofun, fun _ => hAccepted, fun h => ⟨hStop h, nofun⟩⟩

theorem answers_of_refused {p p' : ThreadPool α} {event : Event α} (hAccepted : p'.accepted = p.accepted)
    (hStop : p'.stop = p.stop) (hQueue : p'.queue = p.queue) (hQueued : p'.queued = p.queued) :
    Answers p event (.submitReturned (-1)) p' := by
  refine ⟨nofun, nofun, fun hZero => ?_, fun _ => hAccepted, fun h => ⟨hStop ▸ h, ?_⟩⟩
  · exact absurd hZero (by decide)
  · intro rc hRc
    cases hRc
    exact ⟨rfl, hQueue, hQueued⟩

theorem answers_of_step {p p' : ThreadPool α} {event : Event α} {outcome : Outcome} (h : Reachable p)
    (hStep : step p event = some (p', outcome)) : Answers p event outcome p' := by
  obtain ⟨addrs, hBooked, hStaffed⟩ := (h.step hStep).sound
  cases event with
  | submit c arg =>
    obtain ⟨_, rfl, rfl⟩ | ⟨_, rfl, rfl⟩ := submit_cases hStep
    · exact answers_of_refused rfl rfl rfl rfl
    · exact answers_of_silent rfl id
  | enqueue c job woken =>
    obtain ⟨arg, hCaller, _, ⟨_, rfl, rfl⟩ | ⟨hStop, rfl, workers, _, rfl⟩⟩ := enqueue_cases hStep
    · exact answers_of_refused rfl rfl rfl rfl
    · refine ⟨nofun, nofun, fun _ => ⟨c, job, woken, arg, rfl, hCaller, rfl⟩, fun hNe => absurd rfl hNe, ?_⟩
      intro hStopped
      rw [hStop] at hStopped
      cases hStopped
  | look w =>
    obtain ⟨_, rfl, ⟨_, _, rfl⟩ | ⟨_, _, rfl⟩ | ⟨_, _, _, _, rfl⟩⟩ := look_cases hStep
    · exact answers_of_silent rfl id
    · exact answers_of_silent rfl id
    · exact answers_of_silent rfl id
  | jobReturns w =>
    obtain ⟨_, _, _, _, rfl, rfl⟩ := jobReturns_cases hStep
    exact answers_of_silent rfl id
  | account w woken =>
    obtain ⟨_, rfl, _, _, rfl⟩ := account_cases hStep
    exact answers_of_silent rfl id
  | wakeWorker w =>
    obtain ⟨_, rfl, rfl⟩ := wakeWorker_cases hStep
    exact answers_of_silent rfl id
  | wait c =>
    obtain ⟨_, rfl, rfl⟩ | ⟨hQueued, hActive, rfl, rfl⟩ := wait_cases hStep
    · exact answers_of_silent rfl id
    · refine ⟨fun _ => ?_, nofun, nofun, fun _ => rfl, fun hStopped => ⟨hStopped, nofun⟩⟩
      have hLength := hBooked.queued
      dsimp only at hLength
      rw [hQueued] at hLength
      obtain rfl := List.length_eq_zero_iff.mp hLength.symm
      exact allDone_of_idle hBooked hStaffed (hBooked.active.symm.trans hActive)
  | wakeCaller c =>
    obtain ⟨rfl, rfl⟩ := wakeCaller_cases hStep
    exact answers_of_silent rfl id
  | free c =>
    obtain ⟨rfl, rfl⟩ := free_cases hStep
    exact answers_of_silent rfl fun _ => rfl
  | join c =>
    obtain ⟨_, _, _, rfl, rfl⟩ := join_cases hStep
    exact answers_of_silent rfl id
  | finishFree c =>
    have hSane := (h.step hStep).sane
    obtain ⟨_, _, _, rfl, rfl⟩ := finishFree_cases hStep
    exact ⟨nofun, fun _ => hSane.freed rfl, nofun, fun _ => rfl, fun hStopped => ⟨hStopped, nofun⟩⟩

/-! ## Turns of the workers -/

def Event.worker : Event α → Option Nat
  | .look w => some w
  | .jobReturns w => some w
  | .account w _ => some w
  | _ => none

/-- The worker waits for nothing but its turn. -/
def Worker.runnable : Worker → Bool
  | .looking => true
  | .running _ => true
  | .returned => true
  | _ => false

theorem exists_condSignal {β : Type*} (sleeps : β → Bool) (awake : β) (threads : List β) :
    ∃ woken threads', condSignal sleeps awake threads woken = some threads' := by
  cases hAny : threads.any sleeps with
  | false => exact ⟨none, threads, by simp [condSignal, hAny]⟩
  | true =>
    obtain ⟨x, hx, hSleeps⟩ := List.any_eq_true.mp hAny
    obtain ⟨i, hi, hAt⟩ := List.getElem_of_mem hx
    refine ⟨some i, threads.set i awake, ?_⟩
    rw [condSignal, List.getElem?_eq_getElem hi, hAt]
    exact if_pos (congrArg some hSleeps)

theorem exists_step_of_runnable {p : ThreadPool α} (h : Reachable p) {w : Nat} {x : Worker}
    (hWorker : p.workers[w]? = some x) (hRunnable : x.runnable = true) :
    ∃ event p' outcome, event.worker = some w ∧ step p event = some (p', outcome) := by
  obtain ⟨addrs, hBooked, _⟩ := h.sound
  cases x with
  | looking =>
    cases hHead : p.queue.head with
    | none =>
      cases hStop : p.stop with
      | true =>
        exact ⟨.look w, _, _, rfl, by simp [ThreadPool.step, look, hWorker, hHead, hStop]; exact ⟨rfl, rfl⟩⟩
      | false =>
        exact ⟨.look w, _, _, rfl, by simp [ThreadPool.step, look, hWorker, hHead, hStop]; exact ⟨rfl, rfl⟩⟩
    | some job =>
      obtain ⟨cell, _, hCell, _⟩ := hBooked.linked.head_cell hHead
      exact ⟨.look w, _, _, rfl, by simp [ThreadPool.step, look, hWorker, hHead, hCell]; exact ⟨rfl, rfl⟩⟩
  | running job =>
    have hHeld : job ∈ held p.workers := List.mem_filterMap.mpr ⟨_, List.mem_of_getElem? hWorker, rfl⟩
    obtain ⟨cell, hCell⟩ := Option.isSome_iff_exists.mp (hBooked.alive job hHeld)
    exact ⟨.jobReturns w, _, _, rfl, by simp [ThreadPool.step, jobReturns, hWorker, hCell]; exact ⟨rfl, rfl⟩⟩
  | returned =>
    obtain ⟨woken, callers, hSignal⟩ := exists_condSignal Caller.sleeps .rechecking p.callers
    by_cases hRest : p.queued = 0 ∧ p.active - 1 = 0
    · exact ⟨.account w woken, _, _, rfl, by
        simp [ThreadPool.step, account, hWorker, hRest, hSignal]; exact ⟨rfl, rfl⟩⟩
    · exact ⟨.account w woken, _, _, rfl, by
        simp [ThreadPool.step, account, hWorker, hRest]; exact ⟨rfl, rfl⟩⟩
  | blocked => cases hRunnable
  | exited => cases hRunnable

/-- An infinite run. There may be turns in which nothing happens. -/
structure Execution (α : Type*) where
  pools : Nat → ThreadPool α
  events : Nat → Option (Event α)
  start : Reachable (pools 0)
  turn : ∀ i, match events i with
    | none => pools (i + 1) = pools i
    | some event => ∃ outcome, step (pools i) event = some (pools (i + 1), outcome)

/-- Every worker that waits for its turn gets it. -/
def Execution.Fair (x : Execution α) : Prop :=
  ∀ i w worker, (x.pools i).workers[w]? = some worker → worker.runnable = true →
    ∃ j, i ≤ j ∧ ∃ event, x.events j = some event ∧ event.worker = some w

theorem Execution.turn_cases (x : Execution α) (i : Nat) :
    (x.events i = none ∧ x.pools (i + 1) = x.pools i) ∨
      ∃ event outcome, x.events i = some event ∧
        step (x.pools i) event = some (x.pools (i + 1), outcome) := by
  have hTurn := x.turn i
  cases hEvent : x.events i with
  | none =>
    rw [hEvent] at hTurn
    exact .inl ⟨rfl, hTurn⟩
  | some event =>
    rw [hEvent] at hTurn
    obtain ⟨outcome, hStep⟩ := hTurn
    exact .inr ⟨event, outcome, rfl, hStep⟩

theorem Execution.reachable (x : Execution α) (i : Nat) : Reachable (x.pools i) := by
  induction i with
  | zero => exact x.start
  | succ i ih =>
    obtain ⟨_, hSame⟩ | ⟨event, outcome, _, hStep⟩ := x.turn_cases i
    · rw [hSame]
      exact ih
    · exact ih.step hStep

theorem step_history {p p' : ThreadPool α} {event : Event α} {outcome : Outcome}
    (hStep : step p event = some (p', outcome)) : p.accepted <+: p'.accepted ∧ p.started <+: p'.started := by
  have hRefl : ∀ l : List α, l <+: l := List.prefix_refl
  cases event with
  | submit c arg =>
    obtain ⟨_, rfl, _⟩ | ⟨_, rfl, _⟩ := submit_cases hStep
    · exact ⟨hRefl _, hRefl _⟩
    · exact ⟨hRefl _, hRefl _⟩
  | enqueue c job woken =>
    obtain ⟨arg, _, _, ⟨_, rfl, _⟩ | ⟨_, _, workers, _, rfl⟩⟩ := enqueue_cases hStep
    · exact ⟨hRefl _, hRefl _⟩
    · exact ⟨List.prefix_append _ _, hRefl _⟩
  | look w =>
    obtain ⟨_, _, ⟨_, _, rfl⟩ | ⟨_, _, rfl⟩ | ⟨_, _, _, _, rfl⟩⟩ := look_cases hStep
    · exact ⟨hRefl _, hRefl _⟩
    · exact ⟨hRefl _, hRefl _⟩
    · exact ⟨hRefl _, List.prefix_append _ _⟩
  | jobReturns w =>
    obtain ⟨_, _, _, _, _, rfl⟩ := jobReturns_cases hStep
    exact ⟨hRefl _, hRefl _⟩
  | account w woken =>
    obtain ⟨_, _, _, _, rfl⟩ := account_cases hStep
    exact ⟨hRefl _, hRefl _⟩
  | wakeWorker w =>
    obtain ⟨_, _, rfl⟩ := wakeWorker_cases hStep
    exact ⟨hRefl _, hRefl _⟩
  | wait c =>
    obtain ⟨_, _, rfl⟩ | ⟨_, _, _, rfl⟩ := wait_cases hStep
    · exact ⟨hRefl _, hRefl _⟩
    · exact ⟨hRefl _, hRefl _⟩
  | wakeCaller c =>
    obtain ⟨_, rfl⟩ := wakeCaller_cases hStep
    exact ⟨hRefl _, hRefl _⟩
  | free c =>
    obtain ⟨_, rfl⟩ := free_cases hStep
    exact ⟨hRefl _, hRefl _⟩
  | join c =>
    obtain ⟨_, _, _, _, rfl⟩ := join_cases hStep
    exact ⟨hRefl _, hRefl _⟩
  | finishFree c =>
    obtain ⟨_, _, _, _, rfl⟩ := finishFree_cases hStep
    exact ⟨hRefl _, hRefl _⟩

theorem step_other_worker {p p' : ThreadPool α} {event : Event α} {outcome : Outcome} {w : Nat} {x : Worker}
    (hStep : step p event = some (p', outcome)) (hOther : event.worker ≠ some w)
    (hWorker : p.workers[w]? = some x) (hRunnable : x.runnable = true) : p'.workers[w]? = some x := by
  have hSet : ∀ (v : Nat) (new : Worker), v ≠ w → (p.workers.set v new)[w]? = some x := fun v new hNe => by
    rw [List.getElem?_set_ne hNe]
    exact hWorker
  have hBlocked : ∀ v : Nat, p.workers[v]? = some .blocked → v ≠ w := by
    rintro v hv rfl
    rw [hWorker] at hv
    cases hv
    cases hRunnable
  cases event with
  | submit c arg =>
    obtain ⟨_, rfl, _⟩ | ⟨_, rfl, _⟩ := submit_cases hStep
    · exact hWorker
    · exact hWorker
  | enqueue c job woken =>
    obtain ⟨arg, _, _, ⟨_, rfl, _⟩ | ⟨_, _, workers, hSignal, rfl⟩⟩ := enqueue_cases hStep
    · exact hWorker
    · obtain ⟨i, old, hOld, hSleeps, rfl⟩ | ⟨_, rfl⟩ := condSignal_cases hSignal
      · exact hSet i _ (hBlocked i (by rw [hOld, Worker.eq_blocked hSleeps]))
      · exact hWorker
  | look v =>
    have hNe : v ≠ w := fun hEq => hOther (congrArg some hEq)
    obtain ⟨_, _, ⟨_, _, rfl⟩ | ⟨_, _, rfl⟩ | ⟨_, _, _, _, rfl⟩⟩ := look_cases hStep
    · exact hSet v _ hNe
    · exact hSet v _ hNe
    · exact hSet v _ hNe
  | jobReturns v =>
    have hNe : v ≠ w := fun hEq => hOther (congrArg some hEq)
    obtain ⟨_, _, _, _, _, rfl⟩ := jobReturns_cases hStep
    exact hSet v _ hNe
  | account v woken =>
    have hNe : v ≠ w := fun hEq => hOther (congrArg some hEq)
    obtain ⟨_, _, _, _, rfl⟩ := account_cases hStep
    exact hSet v _ hNe
  | wakeWorker v =>
    obtain ⟨hv, _, rfl⟩ := wakeWorker_cases hStep
    exact hSet v _ (hBlocked v hv)
  | wait c =>
    obtain ⟨_, _, rfl⟩ | ⟨_, _, _, rfl⟩ := wait_cases hStep
    · exact hWorker
    · exact hWorker
  | wakeCaller c =>
    obtain ⟨_, rfl⟩ := wakeCaller_cases hStep
    exact hWorker
  | free c =>
    obtain ⟨_, rfl⟩ := free_cases hStep
    dsimp only
    rw [List.getElem?_map, hWorker]
    cases x <;> first | rfl | cases hRunnable
  | join c =>
    obtain ⟨_, _, _, _, rfl⟩ := join_cases hStep
    exact hWorker
  | finishFree c =>
    obtain ⟨_, _, _, _, rfl⟩ := finishFree_cases hStep
    exact hWorker

theorem Execution.history (x : Execution α) (i d : Nat) :
    (x.pools i).accepted <+: (x.pools (i + d)).accepted ∧
      (x.pools i).started <+: (x.pools (i + d)).started := by
  induction d with
  | zero => exact ⟨List.prefix_refl _, List.prefix_refl _⟩
  | succ d ih =>
    obtain ⟨_, hSame⟩ | ⟨event, outcome, _, hStep⟩ := x.turn_cases (i + d)
    · rw [← Nat.add_assoc, hSame]
      exact ih
    · obtain ⟨hAccepted, hStarted⟩ := step_history hStep
      exact ⟨ih.1.trans hAccepted, ih.2.trans hStarted⟩

theorem Execution.next_turn (x : Execution α) (hFair : x.Fair) {i w : Nat} {worker : Worker}
    (hWorker : (x.pools i).workers[w]? = some worker) (hRunnable : worker.runnable = true) :
    ∃ d event outcome, event.worker = some w ∧ (x.pools (i + d)).workers[w]? = some worker ∧
      step (x.pools (i + d)) event = some (x.pools (i + d + 1), outcome) := by
  obtain ⟨j, hj, event, hEvent, hTurn⟩ := hFair i w worker hWorker hRunnable
  obtain ⟨n, rfl⟩ := Nat.exists_eq_add_of_le hj
  clear hj
  induction n generalizing i with
  | zero =>
    obtain ⟨hNone, _⟩ | ⟨event', outcome, hEvent', hStep⟩ := x.turn_cases i
    · rw [Nat.add_zero, hNone] at hEvent
      cases hEvent
    · rw [Nat.add_zero, hEvent'] at hEvent
      cases hEvent
      exact ⟨0, event, outcome, hTurn, hWorker, hStep⟩
  | succ n ih =>
    have hLater : ∀ (hNext : (x.pools (i + 1)).workers[w]? = some worker),
        ∃ d event outcome, event.worker = some w ∧ (x.pools (i + d)).workers[w]? = some worker ∧
          step (x.pools (i + d)) event = some (x.pools (i + d + 1), outcome) := by
      intro hNext
      obtain ⟨d, event', outcome, hOwn, hAt, hStep⟩ :=
        ih hNext (by rw [Nat.add_assoc, Nat.add_comm 1 n]; exact hEvent)
      refine ⟨1 + d, event', outcome, hOwn, ?_, ?_⟩
      · rw [← Nat.add_assoc]
        exact hAt
      · rw [← Nat.add_assoc]
        exact hStep
    obtain ⟨_, hSame⟩ | ⟨event', outcome, _, hStep⟩ := x.turn_cases i
    · exact hLater (by rw [hSame]; exact hWorker)
    · by_cases hOwn : event'.worker = some w
      · exact ⟨0, event', outcome, hOwn, hWorker, hStep⟩
      · exact hLater (step_other_worker hStep hOwn hWorker hRunnable)

theorem Execution.started_length_le (x : Execution α) (i d : Nat) :
    (x.pools i).started.length ≤ (x.pools (i + d)).started.length :=
  (x.history i d).2.length_le

theorem Execution.accepted_length_le (x : Execution α) (i d : Nat) :
    (x.pools i).accepted.length ≤ (x.pools (i + d)).accepted.length :=
  (x.history i d).1.length_le

theorem started_eq_accepted {p : ThreadPool α} (h : Reachable p) (hHead : p.queue.head = none) :
    p.started = p.accepted := by
  obtain ⟨addrs, hBooked, _⟩ := h.sound
  have hNil := hBooked.linked.head_eq_none.mp hHead
  rw [hBooked.order, hNil, args_nil, List.append_nil]

/-- A worker that looks at a queue with a job in it starts one, unless another
worker has done so before. -/
theorem Execution.looking_starts (x : Execution α) (hFair : x.Fair) {i w : Nat}
    (hWorker : (x.pools i).workers[w]? = some .looking)
    (hLeft : (x.pools i).started.length < (x.pools i).accepted.length) :
    ∃ d, (x.pools i).started.length < (x.pools (i + d)).started.length := by
  obtain ⟨d, event, outcome, hOwn, hAt, hStep⟩ := x.next_turn hFair hWorker rfl
  have hBefore := x.started_length_le i d
  cases event with
  | look v =>
    cases hOwn
    obtain ⟨_, _, ⟨hHead, _, _⟩ | ⟨hHead, _, _⟩ | ⟨_, _, _, _, hTaken⟩⟩ := look_cases hStep
    · have hAll := congrArg List.length (started_eq_accepted (x.reachable (i + d)) hHead)
      have hMore := x.accepted_length_le i d
      exact ⟨d, by omega⟩
    · have hAll := congrArg List.length (started_eq_accepted (x.reachable (i + d)) hHead)
      have hMore := x.accepted_length_le i d
      exact ⟨d, by omega⟩
    · refine ⟨d + 1, ?_⟩
      rw [← Nat.add_assoc, hTaken]
      dsimp only
      rw [List.length_append, List.length_singleton]
      omega
  | jobReturns v =>
    cases hOwn
    obtain ⟨_, _, hRunning, _⟩ := jobReturns_cases hStep
    rw [hAt] at hRunning
    cases hRunning
  | account v woken =>
    cases hOwn
    obtain ⟨hReturned, _⟩ := account_cases hStep
    rw [hAt] at hReturned
    cases hReturned
  | submit c arg => cases hOwn
  | enqueue c job woken => cases hOwn
  | wakeWorker v => cases hOwn
  | wait c => cases hOwn
  | wakeCaller c => cases hOwn
  | free c => cases hOwn
  | join c => cases hOwn
  | finishFree c => cases hOwn

theorem Execution.starts_of_later (x : Execution α) {i d : Nat}
    (hLeft : (x.pools i).started.length < (x.pools i).accepted.length)
    (hLater : (x.pools (i + d)).started.length < (x.pools (i + d)).accepted.length →
      ∃ e, (x.pools (i + d)).started.length < (x.pools (i + d + e)).started.length) :
    ∃ e, (x.pools i).started.length < (x.pools (i + e)).started.length := by
  have hStarted := x.started_length_le i d
  have hAccepted := x.accepted_length_le i d
  by_cases hGrown : (x.pools i).started.length < (x.pools (i + d)).started.length
  · exact ⟨d, hGrown⟩
  · obtain ⟨e, he⟩ := hLater (by omega)
    refine ⟨d + e, ?_⟩
    rw [← Nat.add_assoc]
    omega

theorem Execution.returned_starts (x : Execution α) (hFair : x.Fair) {i w : Nat}
    (hWorker : (x.pools i).workers[w]? = some .returned)
    (hLeft : (x.pools i).started.length < (x.pools i).accepted.length) :
    ∃ d, (x.pools i).started.length < (x.pools (i + d)).started.length := by
  obtain ⟨d, event, outcome, hOwn, hAt, hStep⟩ := x.next_turn hFair hWorker rfl
  have hInRange := (List.getElem?_eq_some_iff.mp hAt).1
  have hLooking : (x.pools (i + (d + 1))).workers[w]? = some .looking := by
    cases event with
    | account v woken =>
      cases hOwn
      obtain ⟨_, _, _, _, hNext⟩ := account_cases hStep
      rw [← Nat.add_assoc, hNext]
      exact List.getElem?_set_self hInRange
    | look v =>
      cases hOwn
      obtain ⟨hLooking, _⟩ := look_cases hStep
      rw [hAt] at hLooking
      cases hLooking
    | jobReturns v =>
      cases hOwn
      obtain ⟨_, _, hRunning, _⟩ := jobReturns_cases hStep
      rw [hAt] at hRunning
      cases hRunning
    | submit c arg => cases hOwn
    | enqueue c job woken => cases hOwn
    | wakeWorker v => cases hOwn
    | wait c => cases hOwn
    | wakeCaller c => cases hOwn
    | free c => cases hOwn
    | join c => cases hOwn
    | finishFree c => cases hOwn
  exact x.starts_of_later hLeft (x.looking_starts hFair hLooking)

theorem Execution.running_starts (x : Execution α) (hFair : x.Fair) {i w job : Nat}
    (hWorker : (x.pools i).workers[w]? = some (.running job))
    (hLeft : (x.pools i).started.length < (x.pools i).accepted.length) :
    ∃ d, (x.pools i).started.length < (x.pools (i + d)).started.length := by
  obtain ⟨d, event, outcome, hOwn, hAt, hStep⟩ := x.next_turn hFair hWorker rfl
  have hInRange := (List.getElem?_eq_some_iff.mp hAt).1
  have hReturned : (x.pools (i + (d + 1))).workers[w]? = some .returned := by
    cases event with
    | jobReturns v =>
      cases hOwn
      obtain ⟨_, _, _, _, _, hNext⟩ := jobReturns_cases hStep
      rw [← Nat.add_assoc, hNext]
      exact List.getElem?_set_self hInRange
    | look v =>
      cases hOwn
      obtain ⟨hLooking, _⟩ := look_cases hStep
      rw [hAt] at hLooking
      cases hLooking
    | account v woken =>
      cases hOwn
      obtain ⟨hReturned, _⟩ := account_cases hStep
      rw [hAt] at hReturned
      cases hReturned
    | submit c arg => cases hOwn
    | enqueue c job woken => cases hOwn
    | wakeWorker v => cases hOwn
    | wait c => cases hOwn
    | wakeCaller c => cases hOwn
    | free c => cases hOwn
    | join c => cases hOwn
    | finishFree c => cases hOwn
  exact x.starts_of_later hLeft (x.returned_starts hFair hReturned)

theorem Execution.starts_one (x : Execution α) (hFair : x.Fair) {i : Nat}
    (hLeft : (x.pools i).started.length < (x.pools i).accepted.length) :
    ∃ d, (x.pools i).started.length < (x.pools (i + d)).started.length := by
  obtain ⟨addrs, hBooked, hStaffed⟩ := (x.reachable i).sound
  have hSome : addrs ≠ [] := by
    rintro rfl
    rw [hBooked.order, args_nil, List.append_nil] at hLeft
    omega
  obtain ⟨worker, hIn, hAwake⟩ := hStaffed.awake hSome
  obtain ⟨w, hw, hAt⟩ := List.getElem_of_mem hIn
  have hWorker : (x.pools i).workers[w]? = some worker := by rw [List.getElem?_eq_getElem hw, hAt]
  cases worker with
  | looking => exact x.looking_starts hFair hWorker hLeft
  | blocked => exact absurd rfl hAwake
  | running job => exact x.running_starts hFair hWorker hLeft
  | returned => exact x.returned_starts hFair hWorker hLeft
  | exited => exact absurd (hStaffed.gone hIn).2 hSome

/-- By induction on how many of the jobs accepted so far are still waiting. -/
theorem Execution.starts_all (x : Execution α) (hFair : x.Fair) (i : Nat) :
    ∃ d, (x.pools i).accepted <+: (x.pools (i + d)).started := by
  have hCount : ∀ left d, (x.pools i).accepted.length ≤ (x.pools (i + d)).started.length + left →
      ∃ d, (x.pools i).accepted.length ≤ (x.pools (i + d)).started.length := by
    intro left
    induction left with
    | zero => exact fun d hd => ⟨d, by omega⟩
    | succ left ih =>
      intro d hd
      by_cases hDone : (x.pools i).accepted.length ≤ (x.pools (i + d)).started.length
      · exact ⟨d, hDone⟩
      · have hMore := x.accepted_length_le i d
        obtain ⟨e, he⟩ := x.starts_one hFair (i := i + d) (by omega)
        exact ih (d + e) (by rw [← Nat.add_assoc]; omega)
  obtain ⟨d, hd⟩ := hCount (x.pools i).accepted.length 0 (by omega)
  obtain ⟨⟨addrs, _, _, hOrder⟩, _⟩ := (x.reachable (i + d)).sane
  have hStarted : (x.pools (i + d)).started <+: (x.pools (i + d)).accepted := ⟨_, hOrder.symm⟩
  exact ⟨d, List.prefix_of_prefix_length_le (x.history i d).1 hStarted hd⟩

/-- Every job whose submit returned 0 is started once, in the order of the
submits. The counters are right between any two steps, a wait or a free returns
only when all is done, and a stopped pool takes no more jobs. -/
theorem jobs_run_once (α : Type*) :
    (∀ p : ThreadPool α, Reachable p → Sane p) ∧
      (∀ (p p' : ThreadPool α) (event : Event α) (outcome : Outcome), Reachable p →
        step p event = some (p', outcome) → Answers p event outcome p') ∧
      (∀ (p : ThreadPool α) (w : Nat) (worker : Worker), Reachable p → p.workers[w]? = some worker →
        worker.runnable = true →
        ∃ event p' outcome, event.worker = some w ∧ step p event = some (p', outcome)) ∧
      ∀ x : Execution α, x.Fair → ∀ i, ∃ d, (x.pools i).accepted <+: (x.pools (i + d)).started :=
  ⟨fun _ => Reachable.sane, fun _ _ _ _ => answers_of_step,
    fun _ _ _ hReachable hWorker => exists_step_of_runnable hReachable hWorker,
    fun x => x.starts_all⟩

def oneJob : List (Event Nat) :=
  [.submit 0 7, .enqueue 0 100 none, .look 0, .jobReturns 0, .account 0 none, .look 0]

def onePool : ThreadPool Nat :=
  ⟨[.looking], 1, false, LinkedQueue.empty, 0, 0, false, [.outside], [], [], [], []⟩

/-- The worker sleeps when the job is done, and nothing more happens. -/
def oneRun : Execution Nat where
  pools i := (oneJob.take i).foldl (fun p event => ((step p event).map Prod.fst).getD p) onePool
  events i := oneJob[i]?
  start := @Reachable.init _ 1 4 8 1 _ rfl
  turn := by
    intro i
    by_cases hMore : i < 6
    · interval_cases i <;> exact ⟨_, rfl⟩
    · have hLength : oneJob.length ≤ i := Nat.not_lt.mp hMore
      rw [List.getElem?_eq_none hLength]
      dsimp only
      rw [List.take_of_length_le hLength, List.take_of_length_le (Nat.le_succ_of_le hLength)]

theorem oneRun_fair : oneRun.Fair := by
  intro i w worker hWorker hRunnable
  by_cases hMore : i < 6
  · -- its last turn is the sixth
    refine ⟨5, Nat.le_of_lt_succ hMore, .look 0, rfl, ?_⟩
    have hOne : (oneRun.pools i).workers.length = 1 := by interval_cases i <;> rfl
    have hLt := (List.getElem?_eq_some_iff.mp hWorker).1
    rw [show w = 0 by omega]
    rfl
  · have hSleeps : (oneRun.pools i).workers = [.blocked] := by
      change (List.foldl _ onePool (oneJob.take i)).workers = _
      rw [List.take_of_length_le (Nat.not_lt.mp hMore)]
      rfl
    rw [hSleeps] at hWorker
    obtain rfl := List.mem_singleton.mp (List.mem_of_getElem? hWorker)
    cases hRunnable

theorem jobs_run_once_fair : ∃ d, [7] <+: (oneRun.pools (2 + d)).started :=
  (jobs_run_once Nat).2.2.2 oneRun oneRun_fair 2

end Cweb.ThreadPool
