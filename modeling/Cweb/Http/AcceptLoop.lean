import Cweb.Utils.ThreadPoolFair

/-!
# The accept loop and its workers

One thread accepts connections and submits them to the pool; the workers serve and close
them. After a signal the loop is left, and the thread waits for the pool before it returns.
The system hands out descriptors that are not open, and may hand one out again as soon as
it is closed.
-/

namespace Cweb.Serve

open ThreadPool LinkedQueue

/-! ## The worker -/

inductive Act where
  | tlsAccept
  | serve (h2 : Bool)
  | close
deriving DecidableEq, Repr

/-- What is done with a connection, in this order. Nothing stands for a handshake that
fails, and for a pool without encryption there is none. -/
def connectionWorker (tls : Bool) (handshake : Option Bool) : List Act :=
  if tls then
    match handshake with
    | none => [.tlsAccept, .close]
    | some h2 => [.tlsAccept, .serve h2, .close]
  else [.serve false, .close]

/-- Whatever the handshake comes to, the connection is closed once, at the end. -/
theorem connectionWorker_closes (tls : Bool) (handshake : Option Bool) :
    ∃ front, connectionWorker tls handshake = front ++ [.close] ∧ .close ∉ front := by
  cases tls with
  | false => exact ⟨[.serve false], rfl, by decide⟩
  | true =>
    cases handshake with
    | none => exact ⟨[.tlsAccept], rfl, by decide⟩
    | some h2 => exact ⟨[.tlsAccept, .serve h2], rfl, by simp⟩

theorem connectionWorker_close_last {tls : Bool} {handshake : Option Bool} {n : Nat} {act : Act}
    (h : (connectionWorker tls handshake)[n]? = some act) : act = .close ↔
      n + 1 = (connectionWorker tls handshake).length := by
  obtain ⟨front, hActs, hOpen⟩ := connectionWorker_closes tls handshake
  rw [hActs] at h
  rw [hActs, List.length_append, List.length_singleton]
  obtain hLt | hEq | hGt := Nat.lt_trichotomy n front.length
  · rw [List.getElem?_append_left hLt] at h
    refine ⟨fun hClose => absurd (hClose ▸ List.mem_of_getElem? h) hOpen, fun hLast => ?_⟩
    omega
  · rw [hEq, List.getElem?_append_right (Nat.le_refl _), Nat.sub_self] at h
    exact ⟨fun _ => by rw [hEq], fun _ => (Option.some.inj h).symm⟩
  · rw [List.getElem?_eq_none (by simp; omega)] at h
    cases h

/-! ## The loop -/

/-- Where the accepting thread stands. -/
inductive Place where
  | accepting
  | submitting (client : Nat)
  | waiting
  | freeing
  | releasing
  | returned
deriving DecidableEq, Repr

/-- What the handshake of a connection comes to, and how many acts are done with it. -/
structure Progress where
  handshake : Option Bool
  done : Nat

/-- `work` has the progress of the jobs that workers have begun. The connections accepted,
closed by a worker and refused by the loop are the history, and so are the jobs in `shut`,
whose connection is closed while they have not returned, and the acts in `ended` that each
closed connection saw. -/
structure Server where
  tls : Bool
  pool : ThreadPool Nat
  place : Place
  shutdown : Bool
  work : Nat → Option Progress
  opened : List Nat
  shut : List Nat
  ctxFreed : Bool
  accepted : List Nat
  closed : List Nat
  ended : List (Nat × List Act)
  refused : List Nat

/-- `tls` tells whether a certificate and a key were given. -/
structure ServeConfig where
  tls : Bool
  workers : Nat

/-- Nothing stands for the result -1. The pool has one caller, the accepting thread. -/
def httpServeConfig (cfg : Option ServeConfig) (available ctxOk : Bool) (parallelism canStart : Nat) :
    Option Server :=
  if (cfg.map ServeConfig.tls).getD false ∧ ¬ (available ∧ ctxOk) then none
  else
    (threadPoolInit ((cfg.map ServeConfig.workers).getD 0) parallelism canStart 1).map fun pool =>
      { tls := (cfg.map ServeConfig.tls).getD false
        pool := pool
        place := .accepting
        shutdown := false
        work := fun _ => none
        opened := []
        shut := []
        ctxFreed := false
        accepted := []
        closed := []
        ended := []
        refused := [] }

/-- The steps of the accepting thread, also within a call of the pool, and of the workers,
in the pool and in their job. -/
inductive Move where
  | signal
  | accept (client : Nat)
  | acceptFails
  | call (event : ThreadPool.Event Nat)
  | worker (event : ThreadPool.Event Nat)
  | begin (w : Nat) (handshake : Option Bool)
  | act (w : Nat)
  | release

/-- The steps of the calls that are made at a place. -/
def Place.calls : Place → ThreadPool.Event Nat → Bool
  | .submitting client, .submit 0 arg => arg == client
  | .submitting _, .enqueue 0 _ _ => true
  | .waiting, .wait 0 => true
  | .waiting, .wakeCaller 0 => true
  | .freeing, .free 0 => true
  | .freeing, .join 0 => true
  | .freeing, .finishFree 0 => true
  | _, _ => false

def afterCall (s : Server) : ThreadPool.Outcome → Server
  | .none => s
  | .submitReturned rc =>
    match s.place with
    | .submitting client =>
      if rc = 0 then { s with place := .accepting }
      else { s with place := .waiting, opened := s.opened.erase client, refused := s.refused ++ [client] }
    | _ => s
  | .waitReturned => { s with place := .freeing }
  | .freeReturned => { s with place := .releasing }

def isWorkers : ThreadPool.Event Nat → Bool
  | .look _ => true
  | .jobReturns _ => true
  | .account _ _ => true
  | .wakeWorker _ => true
  | _ => false

/-- The job that a worker runs, with what it carries. -/
def running (p : ThreadPool Nat) (w : Nat) : Option (Nat × Nat) :=
  match p.workers[w]? with
  | some (.running job) => (p.queue.heap job).map fun cell => (job, cell.arg)
  | _ => none

def Server.acts (s : Server) (progress : Progress) : List Act := connectionWorker s.tls progress.handshake

/-- A job returns when all its acts are done. -/
def mayReturn (s : Server) : ThreadPool.Event Nat → Bool
  | .jobReturns w => (running s.pool w).any fun job =>
      (s.work job.1).any fun progress => progress.done == (s.acts progress).length
  | _ => true

def afterWorker (s : Server) (pool : ThreadPool Nat) : ThreadPool.Event Nat → Server
  | .jobReturns w =>
    match running s.pool w with
    | some (job, _) =>
      { s with pool := pool, work := Function.update s.work job none, shut := s.shut.erase job }
    | none => { s with pool := pool }
  | _ => { s with pool := pool }

/-- The server once a worker has done one more act of its job. -/
def acted (s : Server) (job client : Nat) (progress : Progress) (act : Act) : Server :=
  let work := Function.update s.work job (some { progress with done := progress.done + 1 })
  match act with
  | .close =>
    { s with
      work := work
      opened := s.opened.erase client
      shut := job :: s.shut
      closed := s.closed ++ [client]
      ended := s.ended ++ [(client, (s.acts progress).take (progress.done + 1))] }
  | _ => { s with work := work }

def step (s : Server) : Move → Option Server
  | .signal => some { s with shutdown := true }
  | .accept client =>
    if s.place = .accepting ∧ client ∉ s.opened then
      some { s with place := .submitting client, opened := client :: s.opened, accepted :=
        s.accepted ++ [client] }
    else none
  | .acceptFails =>
    if s.place = .accepting then some (if s.shutdown then { s with place := .waiting } else s) else none
  | .call event =>
    if s.place.calls event then
      (ThreadPool.step s.pool event).map fun r => afterCall { s with pool := r.1 } r.2
    else none
  | .worker event =>
    if isWorkers event ∧ mayReturn s event then
      (ThreadPool.step s.pool event).map fun r => afterWorker s r.1 event
    else none
  | .begin w handshake =>
    (running s.pool w).bind fun job =>
      if (s.work job.1).isSome then none
      else some { s with work := Function.update s.work job.1 (some ⟨handshake, 0⟩) }
  | .act w =>
    (running s.pool w).bind fun job =>
      (s.work job.1).bind fun progress =>
        (s.acts progress)[progress.done]?.map fun act => acted s job.1 job.2 progress act
  | .release => if s.place = .releasing then some { s with place := .returned, ctxFreed := true } else none

/-- The servers that steps in any order lead to. -/
inductive Reached : Server → Prop where
  | start {cfg : Option ServeConfig} {available ctxOk : Bool} {parallelism canStart : Nat} {s : Server}
      (h : httpServeConfig cfg available ctxOk parallelism canStart = some s) : Reached s
  | step {s s' : Server} {move : Move} (h : Reached s) (hStep : step s move = some s') : Reached s'

/-! ## Steps of the pool -/

variable {p p' : ThreadPool Nat} {event : ThreadPool.Event Nat} {outcome : ThreadPool.Outcome}

theorem caller_of_set {callers : List (Caller Nat)} {c : Nat} {new : Caller Nat}
    (hNew : ∀ arg, new ≠ .submitting arg) {arg : Nat}
    (h : (callers.set c new)[0]? = some (.submitting arg)) : callers[0]? = some (.submitting arg) := by
  obtain ⟨-, hEq⟩ | ⟨-, hOld⟩ := getElem?_set_cases h
  · exact absurd hEq.symm (hNew arg)
  · exact hOld

/-- The workers do not stop the pool, accept a job or go into a call. -/
structure Works (p p' : ThreadPool Nat) (outcome : ThreadPool.Outcome) : Prop where
  silent : outcome = .none
  stop : p'.stop = p.stop
  freed : p'.freed = p.freed
  accepted : p'.accepted = p.accepted
  callers : ∀ arg, p'.callers[0]? = some (.submitting arg) → p.callers[0]? = some (.submitting arg)

theorem works_of_step (hWorkers : isWorkers event = true)
    (h : ThreadPool.step p event = some (p', outcome)) : Works p p' outcome := by
  cases event with
  | look w =>
    obtain ⟨-, rfl, ⟨-, -, rfl⟩ | ⟨-, -, rfl⟩ | ⟨job, cell, -, -, rfl⟩⟩ := look_cases h
    · exact ⟨rfl, rfl, rfl, rfl, fun _ => id⟩
    · exact ⟨rfl, rfl, rfl, rfl, fun _ => id⟩
    · exact ⟨rfl, rfl, rfl, rfl, fun _ => id⟩
  | jobReturns w =>
    obtain ⟨job, cell, -, -, rfl, rfl⟩ := jobReturns_cases h
    exact ⟨rfl, rfl, rfl, rfl, fun _ => id⟩
  | account w woken =>
    obtain ⟨-, rfl, callers, hCallers, rfl⟩ := account_cases h
    refine ⟨rfl, rfl, rfl, rfl, fun arg hArg => ?_⟩
    obtain rfl | hSignal := hCallers
    · exact hArg
    · obtain ⟨i, old, -, -, rfl⟩ | ⟨-, rfl⟩ := condSignal_cases hSignal
      · exact caller_of_set (fun _ h => by cases h) hArg
      · exact hArg
  | wakeWorker w =>
    obtain ⟨-, rfl, rfl⟩ := wakeWorker_cases h
    exact ⟨rfl, rfl, rfl, rfl, fun _ => id⟩
  | submit c arg => cases hWorkers
  | enqueue c job woken => cases hWorkers
  | wait c => cases hWorkers
  | wakeCaller c => cases hWorkers
  | free c => cases hWorkers
  | join c => cases hWorkers
  | finishFree c => cases hWorkers

/-- Jobs that run go on running, and carry what they carried. -/
structure RunsOn (p p' : ThreadPool Nat) : Prop where
  finished : p'.finished = p.finished
  held : ∀ job ∈ held p.workers, job ∈ held p'.workers
  args : ∀ job ∈ ThreadPool.held p.workers, (p'.queue.heap job).map Cell.arg = (p.queue.heap job).map Cell.arg

theorem runsOn_of_sameDuty (hDuty : SameDuty p.workers p'.workers)
    (hFinished : p'.finished = p.finished) (hQueue : p'.queue = p.queue) :
    RunsOn p p' :=
  ⟨hFinished, fun job hJob => by rwa [hDuty.held_eq], fun job _ => by rw [hQueue]⟩

theorem runsOn_of_step (hReached : ThreadPool.Reachable p) (h : ThreadPool.step p event = some (p', outcome))
    (hGoes : ∀ w, event ≠ .jobReturns w) : RunsOn p p' := by
  obtain ⟨addrs, hBooked, hStaffed⟩ := hReached.sound
  have hRefl := sameDuty_refl p.workers
  cases event with
  | submit c arg =>
    obtain ⟨-, rfl, -⟩ | ⟨-, rfl, -⟩ := submit_cases h
    · exact runsOn_of_sameDuty hRefl rfl rfl
    · exact runsOn_of_sameDuty hRefl rfl rfl
  | enqueue c job woken =>
    obtain ⟨arg, -, hFresh, ⟨-, rfl, -⟩ | ⟨-, -, workers, hSignal, rfl⟩⟩ := enqueue_cases h
    · exact runsOn_of_sameDuty hRefl rfl rfl
    · refine ⟨rfl, fun old hOld => ?_, fun old hOld => push_heap_arg ?_ arg⟩
      · dsimp only
        rwa [(signalled_sameDuty hSignal).held_eq]
      · rintro rfl
        have hSome := hBooked.alive old hOld
        rw [hFresh] at hSome
        cases hSome
  | look w =>
    obtain ⟨hWorker, -, ⟨-, -, rfl⟩ | ⟨-, -, rfl⟩ | ⟨job, cell, -, -, rfl⟩⟩ := look_cases h
    · exact runsOn_of_sameDuty (sameDuty_set hWorker rfl rfl) rfl rfl
    · exact runsOn_of_sameDuty (sameDuty_set hWorker rfl rfl) rfl rfl
    · obtain ⟨others, hOld, hNew⟩ := held_set hWorker (.running job)
      refine ⟨rfl, fun old hHeld => ?_, fun old _ => ?_⟩
      · exact hNew.mem_iff.mpr (List.mem_append_right _ (hOld.mem_iff.mp hHeld))
      · dsimp only
        rw [pop_heap]
  | jobReturns w => exact absurd rfl (hGoes w)
  | account w woken =>
    obtain ⟨hWorker, -, callers, -, rfl⟩ := account_cases h
    refine ⟨rfl, fun old hHeld => ?_, fun old _ => rfl⟩
    have hSame : held (p.workers.set w .looking) = held p.workers :=
      filterMap_eq_of_map_eq (map_set_eq Worker.job hWorker rfl)
    dsimp only
    rwa [hSame]
  | wakeWorker w =>
    obtain ⟨hWorker, -, rfl⟩ := wakeWorker_cases h
    exact runsOn_of_sameDuty (sameDuty_set hWorker rfl rfl) rfl rfl
  | wait c =>
    obtain ⟨-, -, rfl⟩ | ⟨-, -, -, rfl⟩ := wait_cases h
    · exact runsOn_of_sameDuty hRefl rfl rfl
    · exact runsOn_of_sameDuty hRefl rfl rfl
  | wakeCaller c =>
    obtain ⟨-, rfl⟩ := wakeCaller_cases h
    exact runsOn_of_sameDuty hRefl rfl rfl
  | free c =>
    obtain ⟨-, rfl⟩ := free_cases h
    exact runsOn_of_sameDuty (sameDuty_awake p.workers) rfl rfl
  | join c =>
    obtain ⟨_, _, _, _, rfl⟩ := join_cases h
    exact runsOn_of_sameDuty hRefl rfl rfl
  | finishFree c =>
    obtain ⟨i, hCaller, hJoined, -, rfl⟩ := finishFree_cases h
    have hNil := (hStaffed.all_exited hCaller hJoined).2
    rw [drain_of_head_none (hBooked.linked.head_eq_none.mpr hNil)]
    exact runsOn_of_sameDuty hRefl rfl rfl

theorem running_cell {w job client : Nat} (h : running p w = some (job, client)) :
    p.workers[w]? = some (.running job) ∧ ∃ cell, p.queue.heap job = some cell ∧ cell.arg = client := by
  rw [running] at h
  split at h
  · next job' hWorker =>
    obtain ⟨cell, hCell, hEq⟩ := Option.map_eq_some_iff.mp h
    cases hEq
    exact ⟨hWorker, cell, hCell, rfl⟩
  · cases h

theorem mem_held {w job : Nat} (h : p.workers[w]? = some (.running job)) : job ∈ held p.workers :=
  List.mem_filterMap.mpr ⟨.running job, List.mem_of_getElem? h, rfl⟩

theorem returns_of_step {w : Nat} (h : ThreadPool.step p (.jobReturns w) = some (p', outcome)) :
    ∃ job client, running p w = some (job, client) ∧ p'.finished = p.finished ++ [client] ∧
      p'.queue = p.queue.free job ∧
      ∀ old ∈ held p.workers, old ≠ job → old ∈ held p'.workers := by
  obtain ⟨job, cell, hWorker, hCell, -, rfl⟩ := jobReturns_cases h
  refine ⟨job, cell.arg, by rw [running, hWorker]; simp [hCell], rfl, rfl, fun old hOld hNe => ?_⟩
  obtain ⟨others, hBefore, hAfter⟩ := held_set hWorker .returned
  obtain hSame | hOther := List.mem_append.mp (hBefore.mem_iff.mp hOld)
  · exact absurd (List.mem_singleton.mp hSame) hNe
  · exact hAfter.mem_iff.mpr (List.mem_append_right _ hOther)

/-! ## What every order of steps keeps -/

/-- A connection that is not the pool's yet. -/
def Place.pending : Place → List Nat
  | .submitting client => [client]
  | _ => []

def Place.leaving : Place → Bool
  | .waiting => true
  | .freeing => true
  | .releasing => true
  | .returned => true
  | _ => false

/-- The pool is stopped in its last call only, and is gone behind that. -/
structure Phased (s : Server) : Prop where
  calling : ∀ arg, s.pool.callers[0]? = some (.submitting arg) → s.place = .submitting arg
  stop : s.pool.stop = true → s.place = .freeing ∨ s.place = .releasing ∨ s.place = .returned
  freed : s.pool.freed = true ↔ s.place = .releasing ∨ s.place = .returned
  released : s.ctxFreed = true → s.place = .returned
  signalled : s.place.leaving = true → s.shutdown = true

/-- The books of the loop and of the pool agree. -/
structure Counted (s : Server) : Prop where
  books : (s.closed ++ s.opened).Perm s.accepted
  handed : s.accepted = s.pool.accepted ++ s.place.pending
  distinct : s.opened.Nodup
  held : ∀ job ∈ s.shut, job ∈ held s.pool.workers
  once : s.shut.Nodup
  shut : s.closed.Perm (s.pool.finished ++ args s.pool.queue.heap s.shut)
  refused : s.refused = []

/-- A job's connection is closed when all its acts are done, and a closed connection saw
all of them. -/
structure Worked (s : Server) : Prop where
  shut : ∀ job, job ∈ s.shut ↔ ∃ progress, s.work job = some progress ∧
    progress.done = (s.acts progress).length
  ended : s.ended.map Prod.fst = s.closed
  acts : ∀ e ∈ s.ended, ∃ handshake, e.2 = connectionWorker s.tls handshake

structure Holds (s : Server) : Prop where
  pool : ThreadPool.Reachable s.pool
  phased : Phased s
  counted : Counted s
  worked : Worked s

/-- The connections that are open are those of the jobs that run and are not shut, of the
jobs in the queue, and the one to be submitted. -/
theorem Holds.openedOf {s : Server} (h : Holds s) {addrs : List Nat} (hBooked : Booked s.pool addrs) :
    ∃ rest, (ThreadPool.held s.pool.workers).Perm (s.shut ++ rest) ∧
      s.opened.Perm (args s.pool.queue.heap rest ++ (args s.pool.queue.heap addrs ++ s.place.pending)) := by
  have hHeld : (ThreadPool.held s.pool.workers).Perm
    (s.shut ++ (ThreadPool.held s.pool.workers).diff s.shut) := by
    refine (List.subperm_append_diff_self_of_count_le fun job hJob => ?_).symm
    rw [List.count_eq_one_of_mem h.counted.once hJob]
    exact List.one_le_count_iff.mpr (h.counted.held job hJob)
  refine ⟨_, hHeld, ?_⟩
  have hStarted : s.pool.started.Perm
    (s.closed ++ args s.pool.queue.heap ((ThreadPool.held s.pool.workers).diff s.shut)) := by
    refine hBooked.once.trans ?_
    refine ((args_perm _ hHeld).append_left _).trans ?_
    rw [args_append, ← List.append_assoc]
    exact h.counted.shut.symm.append_right _
  have hAccepted : s.accepted.Perm
    (s.closed ++ (args s.pool.queue.heap ((ThreadPool.held s.pool.workers).diff s.shut) ++
      (args s.pool.queue.heap addrs ++ s.place.pending))) := by
    rw [h.counted.handed, hBooked.order, List.append_assoc, ← List.append_assoc s.closed]
    exact hStarted.append_right _
  exact (List.perm_append_left_iff s.closed).mp (h.counted.books.trans hAccepted)

theorem Holds.mem_opened {s : Server} (h : Holds s) {w job client : Nat}
    (hRunning : running s.pool w = some (job, client))
    (hOpen : job ∉ s.shut) : client ∈ s.opened := by
  obtain ⟨addrs, hBooked, -⟩ := h.pool.sound
  obtain ⟨rest, hHeld, hOpened⟩ := h.openedOf hBooked
  obtain ⟨hWorker, cell, hCell, rfl⟩ := running_cell hRunning
  have hRest : job ∈ rest := by
    obtain hShut | hRest := List.mem_append.mp (hHeld.mem_iff.mp (mem_held hWorker))
    · exact absurd hShut hOpen
    · exact hRest
  refine hOpened.mem_iff.mpr (List.mem_append_left _ (List.mem_filterMap.mpr ⟨job, hRest, ?_⟩))
  rw [hCell]
  rfl

theorem httpServeConfig_holds {cfg : Option ServeConfig} {available ctxOk : Bool}
    {parallelism canStart : Nat} {s : Server}
    (h : httpServeConfig cfg available ctxOk parallelism canStart = some s) : Holds s := by
  rw [httpServeConfig] at h
  split at h
  · cases h
  · obtain ⟨pool, hPool, rfl⟩ := Option.map_eq_some_iff.mp h
    have hReached : ThreadPool.Reachable pool := .init hPool
    rw [threadPoolInit] at hPool
    generalize min (if (cfg.map ServeConfig.workers).getD 0 = 0 then parallelism
      else (cfg.map ServeConfig.workers).getD 0) canStart = n at hPool
    split at hPool
    · cases hPool
    · cases hPool
      refine ⟨hReached, ⟨?_, ?_, ?_, ?_, ?_⟩, ⟨?_, ?_, ?_, ?_, ?_, ?_, ?_⟩,
        ⟨?_, rfl, fun e he => absurd he List.not_mem_nil⟩⟩
      · intro arg hArg
        cases hArg
      · intro hStop
        cases hStop
      · refine ⟨fun hFreed => ?_, fun hPlace => by rcases hPlace with hPlace | hPlace <;> cases hPlace⟩
        cases hFreed
      · intro hFreed
        cases hFreed
      · intro hLeaving
        cases hLeaving
      · exact List.Perm.refl _
      · rfl
      · exact List.nodup_nil
      · exact fun job hJob => absurd hJob List.not_mem_nil
      · exact List.nodup_nil
      · exact List.Perm.refl _
      · rfl
      · intro job
        refine iff_of_false List.not_mem_nil ?_
        rintro ⟨progress, hSome, -⟩
        cases hSome

variable {s s' : Server}

theorem Worked.same (h : Worked s) (hTls : s'.tls = s.tls) (hWork : s'.work = s.work)
    (hShut : s'.shut = s.shut)
    (hEnded : s'.ended = s.ended) (hClosed : s'.closed = s.closed) : Worked s' := by
  constructor
  · intro job
    have hActs : s'.acts = s.acts := by
      funext progress
      rw [Server.acts, Server.acts, hTls]
    rw [hShut, hWork, hActs]
    exact h.shut job
  · rw [hEnded, hClosed]
    exact h.ended
  · rw [hEnded, hTls]
    exact h.acts

theorem Counted.runsOn (h : Counted s) (hRuns : RunsOn s.pool p')
    (hHanded : s.accepted = p'.accepted ++ s'.place.pending)
    (hPool : s'.pool = p') (hOpened : s'.opened = s.opened) (hShut : s'.shut = s.shut)
    (hAccepted : s'.accepted = s.accepted)
    (hClosed : s'.closed = s.closed) (hRefused : s'.refused = s.refused) : Counted s' := by
  constructor
  · rw [hClosed, hOpened, hAccepted]
    exact h.books
  · rw [hAccepted, hPool]
    exact hHanded
  · rw [hOpened]
    exact h.distinct
  · rw [hShut, hPool]
    exact fun job hJob => hRuns.held job (h.held job hJob)
  · rw [hShut]
    exact h.once
  · rw [hClosed, hPool, hRuns.finished, hShut, args_congr fun job hJob => hRuns.args job (h.held job hJob)]
    exact h.shut
  · rw [hRefused]
    exact h.refused

theorem calls_cases {place : Place} (h : place.calls event = true) :
    (∃ client, place = .submitting client ∧
      (event = .submit 0 client ∨ ∃ job woken, event = .enqueue 0 job woken)) ∨
      (place = .waiting ∧ (event = .wait 0 ∨ event = .wakeCaller 0)) ∨
      (place = .freeing ∧ (event = .free 0 ∨ event = .join 0 ∨ event = .finishFree 0)) := by
  unfold Place.calls at h
  split at h
  · next client arg => exact .inl ⟨client, rfl, .inl (by rw [beq_iff_eq.mp h])⟩
  · next client job woken => exact .inl ⟨client, rfl, .inr ⟨job, woken, rfl⟩⟩
  · exact .inr (.inl ⟨rfl, .inl rfl⟩)
  · exact .inr (.inl ⟨rfl, .inr rfl⟩)
  · exact .inr (.inr ⟨rfl, .inl rfl⟩)
  · exact .inr (.inr ⟨rfl, .inr (.inl rfl)⟩)
  · exact .inr (.inr ⟨rfl, .inr (.inr rfl)⟩)
  · cases h

theorem Phased.open (h : Phased s) (hFree : s.place ≠ .freeing) (hRelease : s.place ≠ .releasing)
    (hReturn : s.place ≠ .returned) :
    s.pool.stop = false ∧ s.pool.freed = false := by
  refine ⟨?_, ?_⟩
  · cases hStop : s.pool.stop with
    | false => rfl
    | true =>
      rcases h.stop hStop with hPlace | hPlace | hPlace
      · exact absurd hPlace hFree
      · exact absurd hPlace hRelease
      · exact absurd hPlace hReturn
  · cases hFreed : s.pool.freed with
    | false => rfl
    | true =>
      rcases h.freed.mp hFreed with hPlace | hPlace
      · exact absurd hPlace hRelease
      · exact absurd hPlace hReturn

theorem Phased.idle (h : Phased s) (hPlace : ∀ client, s.place ≠ .submitting client) (arg : Nat) :
    s.pool.callers[0]? ≠ some (.submitting arg) :=
  fun hArg => hPlace arg (h.calling arg hArg)

theorem Counted.handed_all (h : Counted s) (hNone : s.place.pending = []) : s.accepted = s.pool.accepted := by
  rw [h.handed, hNone, List.append_nil]

theorem Holds.submits (h : Holds s) {client : Nat} (hPlace : s.place = .submitting client)
    (hEvent : event = .submit 0 client ∨ ∃ job woken, event = .enqueue 0 job woken)
    (hStep : ThreadPool.step s.pool event = some (p', outcome)) :
    Holds (afterCall { s with pool := p' } outcome) := by
  have hPool := h.pool.step hStep
  obtain ⟨hStop, hFreed⟩ := h.phased.open (by rw [hPlace]; nofun) (by rw [hPlace]; nofun)
    (by rw [hPlace]; nofun)
  have hReleased : ¬ s.ctxFreed = true := mt h.phased.released (by rw [hPlace]; nofun)
  obtain rfl | ⟨job, woken, rfl⟩ := hEvent
  · have hRuns := runsOn_of_step h.pool hStep (fun _ => by nofun)
    obtain ⟨hGone, -, -⟩ | ⟨-, rfl, rfl⟩ := submit_cases hStep
    · rw [hFreed] at hGone
      cases hGone
    · refine ⟨hPool, ⟨?_, h.phased.stop, h.phased.freed, h.phased.released, h.phased.signalled⟩,
        h.counted.runsOn hRuns h.counted.handed rfl rfl rfl rfl rfl rfl, h.worked.same rfl rfl rfl rfl rfl⟩
      intro arg hArg
      obtain ⟨-, hEq⟩ | ⟨hNe, -⟩ := getElem?_set_cases hArg
      · cases hEq
        exact hPlace
      · exact absurd rfl hNe
  · have hRuns := runsOn_of_step h.pool hStep (fun _ => by nofun)
    obtain ⟨arg, hCaller, -, ⟨hGone, -, -⟩ | ⟨-, rfl, workers, -, rfl⟩⟩ := enqueue_cases hStep
    · rw [hStop] at hGone
      cases hGone
    · have hArg := h.phased.calling arg hCaller
      rw [hPlace] at hArg
      cases hArg
      have hAfter : ∀ pool, afterCall { s with pool := pool } (.submitReturned 0) =
        { s with pool := pool, place := .accepting } := by
        intro pool
        rw [afterCall]
        dsimp only
        rw [hPlace]
        rfl
      rw [hAfter]
      refine ⟨hPool, ⟨?_, ?_, ?_, fun hCtx => (hReleased hCtx).elim, nofun⟩,
        h.counted.runsOn hRuns ?_ rfl rfl rfl rfl rfl rfl,
        h.worked.same rfl rfl rfl rfl rfl⟩
      · intro other hOther
        have hOld := caller_of_set (fun _ h => by cases h) hOther
        obtain ⟨-, hEq⟩ | ⟨hNe, -⟩ := getElem?_set_cases hOther
        · cases hEq
        · exact absurd rfl hNe
      · intro hStopped
        rw [hStop] at hStopped
        cases hStopped
      · refine ⟨fun hGone => ?_, fun hAt => by rcases hAt with hAt | hAt <;> cases hAt⟩
        rw [hFreed] at hGone
        cases hGone
      · rw [h.counted.handed, hPlace]
        exact (List.append_nil _).symm

theorem Holds.waits (h : Holds s) (hPlace : s.place = .waiting)
    (hEvent : event = .wait 0 ∨ event = .wakeCaller 0)
    (hStep : ThreadPool.step s.pool event = some (p', outcome)) :
    Holds (afterCall { s with pool := p' } outcome) := by
  have hPool := h.pool.step hStep
  obtain ⟨hStop, hFreed⟩ :=
    h.phased.open (by rw [hPlace]; nofun) (by rw [hPlace]; nofun) (by rw [hPlace]; nofun)
  have hShutdown := h.phased.signalled (by rw [hPlace]; rfl)
  have hIdle := h.phased.idle (by rw [hPlace]; nofun)
  have hReleased : ¬ s.ctxFreed = true := mt h.phased.released (by rw [hPlace]; nofun)
  have hHanded := h.counted.handed_all (by rw [hPlace]; rfl)
  obtain rfl | rfl := hEvent
  · have hRuns := runsOn_of_step h.pool hStep (fun _ => by nofun)
    obtain ⟨-, rfl, rfl⟩ | ⟨-, -, rfl, rfl⟩ := wait_cases hStep
    · refine ⟨hPool, ⟨?_, h.phased.stop, h.phased.freed, h.phased.released, h.phased.signalled⟩,
        h.counted.runsOn hRuns h.counted.handed rfl rfl rfl rfl rfl rfl, h.worked.same rfl rfl rfl rfl rfl⟩
      exact fun arg hArg => absurd (caller_of_set (fun _ h => by cases h) hArg) (hIdle arg)
    · refine ⟨hPool, ⟨?_, fun _ => .inl rfl, ?_, fun hCtx => (hReleased hCtx).elim, fun _ => hShutdown⟩,
        h.counted.runsOn hRuns ?_ rfl rfl rfl rfl rfl rfl, h.worked.same rfl rfl rfl rfl rfl⟩
      · exact fun arg hArg => absurd (caller_of_set (fun _ h => by cases h) hArg) (hIdle arg)
      · refine ⟨fun hGone => ?_, fun hAt => by rcases hAt with hAt | hAt <;> cases hAt⟩
        rw [hFreed] at hGone
        cases hGone
      · rw [hHanded]
        exact (List.append_nil _).symm
  · have hRuns := runsOn_of_step h.pool hStep (fun _ => by nofun)
    obtain ⟨rfl, rfl⟩ := wakeCaller_cases hStep
    refine ⟨hPool, ⟨?_, h.phased.stop, h.phased.freed, h.phased.released, h.phased.signalled⟩,
      h.counted.runsOn hRuns h.counted.handed rfl rfl rfl rfl rfl rfl, h.worked.same rfl rfl rfl rfl rfl⟩
    exact fun arg hArg => absurd (caller_of_set (fun _ h => by cases h) hArg) (hIdle arg)

theorem Holds.frees (h : Holds s) (hPlace : s.place = .freeing)
    (hEvent : event = .free 0 ∨ event = .join 0 ∨ event = .finishFree 0)
    (hStep : ThreadPool.step s.pool event = some (p', outcome)) :
    Holds (afterCall { s with pool := p' } outcome) := by
  have hPool := h.pool.step hStep
  have hShutdown := h.phased.signalled (by rw [hPlace]; rfl)
  have hIdle := h.phased.idle (by rw [hPlace]; nofun)
  have hReleased : ¬ s.ctxFreed = true := mt h.phased.released (by rw [hPlace]; nofun)
  have hHanded := h.counted.handed_all (by rw [hPlace]; rfl)
  obtain rfl | rfl | rfl := hEvent
  · have hRuns := runsOn_of_step h.pool hStep (fun _ => by nofun)
    obtain ⟨rfl, rfl⟩ := free_cases hStep
    refine ⟨hPool, ⟨?_, fun _ => .inl hPlace, h.phased.freed, h.phased.released, h.phased.signalled⟩,
      h.counted.runsOn hRuns h.counted.handed rfl rfl rfl rfl rfl rfl, h.worked.same rfl rfl rfl rfl rfl⟩
    exact fun arg hArg => absurd (caller_of_set (fun _ h => by cases h) hArg) (hIdle arg)
  · have hRuns := runsOn_of_step h.pool hStep (fun _ => by nofun)
    obtain ⟨_, _, _, rfl, rfl⟩ := join_cases hStep
    refine ⟨hPool, ⟨?_, h.phased.stop, h.phased.freed, h.phased.released, h.phased.signalled⟩,
      h.counted.runsOn hRuns h.counted.handed rfl rfl rfl rfl rfl rfl, h.worked.same rfl rfl rfl rfl rfl⟩
    exact fun arg hArg => absurd (caller_of_set (fun _ h => by cases h) hArg) (hIdle arg)
  · have hRuns := runsOn_of_step h.pool hStep (fun _ => by nofun)
    obtain ⟨_, _, _, rfl, rfl⟩ := finishFree_cases hStep
    refine ⟨hPool,
      ⟨?_, fun _ => .inr (.inl rfl), ⟨fun _ => .inl rfl, fun _ => rfl⟩, fun hCtx =>
        (hReleased hCtx).elim, fun _ => hShutdown⟩,
      h.counted.runsOn hRuns ?_ rfl rfl rfl rfl rfl rfl, h.worked.same rfl rfl rfl rfl rfl⟩
    · exact fun arg hArg => absurd (caller_of_set (fun _ h => by cases h) hArg) (hIdle arg)
    · rw [hHanded]
      exact (List.append_nil _).symm

theorem Holds.works (h : Holds s) (hWorkers : isWorkers event = true) (hReturn : mayReturn s event = true)
    (hStep : ThreadPool.step s.pool event = some (p', outcome)) : Holds (afterWorker s p' event) := by
  obtain ⟨rfl, hStop, hFreed, hAccepted, hCallers⟩ := works_of_step hWorkers hStep
  have hPool := h.pool.step hStep
  have hPhased : ∀ shut work, Phased { s with pool := p', shut := shut, work := work } := by
    intro shut work
    refine ⟨fun arg hArg => h.phased.calling arg (hCallers arg hArg), ?_, ?_,
      h.phased.released, h.phased.signalled⟩
    · rw [hStop]
      exact h.phased.stop
    · rw [hFreed]
      exact h.phased.freed
  have hHanded : s.accepted = p'.accepted ++ s.place.pending := by
    rw [hAccepted]
    exact h.counted.handed
  by_cases hIs : ∃ w, event = .jobReturns w
  · obtain ⟨w, rfl⟩ := hIs
    obtain ⟨job, client, hRunning, hFinished, hQueue, hHeld⟩ := returns_of_step hStep
    obtain ⟨hWorker, cell, hCell, rfl⟩ := running_cell hRunning
    have hShut : job ∈ s.shut := by
      rw [mayReturn, hRunning, Option.any_some, Option.any_eq_true_iff_get] at hReturn
      obtain ⟨hSome, hDone⟩ := hReturn
      exact (h.worked.shut job).mpr ⟨_, (Option.some_get hSome).symm, beq_iff_eq.mp hDone⟩
    have hAfter : afterWorker s p' (.jobReturns w) =
        { s with pool := p', work := Function.update s.work job none, shut := s.shut.erase job } := by
      rw [afterWorker, hRunning]
    have hGone : job ∉ s.shut.erase job := h.counted.once.not_mem_erase
    rw [hAfter]
    refine ⟨hPool,
      hPhased _ _,
      ⟨h.counted.books, hHanded, h.counted.distinct, fun old hOld => ?_, h.counted.once.erase job, ?_,
      h.counted.refused⟩, ⟨fun old => ?_, h.worked.ended, h.worked.acts⟩⟩
    · exact hHeld old (h.counted.held old (List.mem_of_mem_erase hOld)) (ne_of_mem_of_not_mem hOld hGone)
    · dsimp only
      rw [hFinished, hQueue, args_free _ hGone, List.append_assoc, List.singleton_append, ← args_cons hCell]
      exact h.counted.shut.trans ((args_perm _ (List.perm_cons_erase hShut)).append_left _)
    · dsimp only
      by_cases hSame : old = job
      · rw [hSame, Function.update_self]
        refine iff_of_false hGone ?_
        rintro ⟨progress, hSome, -⟩
        cases hSome
      · rw [List.mem_erase_of_ne hSame, Function.update_of_ne hSame]
        exact h.worked.shut old
  · have hSame : afterWorker s p' event = { s with pool := p' } := by
      cases event with
      | jobReturns w => exact absurd ⟨w, rfl⟩ hIs
      | _ => rfl
    rw [hSame]
    exact ⟨hPool, hPhased _ _,
      h.counted.runsOn (runsOn_of_step h.pool hStep fun w hw => hIs ⟨w, hw⟩) hHanded rfl rfl rfl rfl rfl rfl,
      h.worked.same rfl rfl rfl rfl rfl⟩

theorem Holds.begins (h : Holds s) {job : Nat} {handshake : Option Bool} (hFresh : s.work job = none) :
    Holds { s with work := Function.update s.work job (some ⟨handshake, 0⟩) } := by
  refine ⟨h.pool,
    ⟨h.phased.calling, h.phased.stop, h.phased.freed, h.phased.released, h.phased.signalled⟩,
    ⟨h.counted.books, h.counted.handed,
    h.counted.distinct, h.counted.held, h.counted.once, h.counted.shut, h.counted.refused⟩,
    ⟨fun old => ?_, h.worked.ended, h.worked.acts⟩⟩
  dsimp only
  by_cases hSame : old = job
  · -- the acts are not none, so the job is open on both sides
    have hOpen : old ∉ s.shut := fun hMem => by
      obtain ⟨_, hSome, -⟩ := (h.worked.shut old).mp hMem
      rw [hSame, hFresh] at hSome
      cases hSome
    refine ⟨fun hMem => absurd hMem hOpen, fun ⟨progress, hSome, hDone⟩ => ?_⟩
    rw [hSame, Function.update_self] at hSome
    obtain rfl := Option.some.inj hSome
    obtain ⟨front, hActs, -⟩ := connectionWorker_closes s.tls handshake
    rw [Server.acts, hActs] at hDone
    simp at hDone
  · rw [Function.update_of_ne hSame]
    exact h.worked.shut old

theorem Holds.acts (h : Holds s) {w job client : Nat} {progress : Progress} {act : Act}
    (hRunning : running s.pool w = some (job, client))
    (hWork : s.work job = some progress) (hAct : (s.acts progress)[progress.done]? = some act) :
    Holds (acted s job client progress act) := by
  have hLast := connectionWorker_close_last hAct
  have hOpen : job ∉ s.shut := fun hMem => by
    obtain ⟨progress', hSome, hDone⟩ := (h.worked.shut job).mp hMem
    rw [hWork] at hSome
    obtain rfl := Option.some.inj hSome
    rw [hDone, List.getElem?_eq_none (Nat.le_refl _)] at hAct
    cases hAct
  have hOthers : ∀ old ≠ job,
    (old ∈ s.shut ↔
    ∃ progress', Function.update s.work job (some { progress with done := progress.done + 1 }) old =
      some progress' ∧ progress'.done = (s.acts progress').length) := by
    intro old hNe
    rw [Function.update_of_ne hNe]
    exact h.worked.shut old
  by_cases hClose : act = .close
  · have hClient := h.mem_opened hRunning hOpen
    obtain ⟨hWorker, cell, hCell, rfl⟩ := running_cell hRunning
    subst hClose
    refine ⟨h.pool, ⟨h.phased.calling, h.phased.stop, h.phased.freed, h.phased.released, h.phased.signalled⟩,
      ⟨?_, h.counted.handed, h.counted.distinct.erase _, ?_,
      List.nodup_cons.mpr ⟨hOpen, h.counted.once⟩, ?_, h.counted.refused⟩,
      ⟨fun old => ?_, ?_, ?_⟩⟩
    · dsimp only [acted]
      rw [List.append_assoc, List.singleton_append]
      exact ((List.perm_cons_erase hClient).symm.append_left _).trans h.counted.books
    · intro old hOld
      obtain rfl | hOld := List.mem_cons.mp hOld
      · exact mem_held hWorker
      · exact h.counted.held old hOld
    · dsimp only [acted]
      rw [args_cons hCell]
      exact (List.perm_append_singleton _ _).trans ((h.counted.shut.cons _).trans List.perm_middle.symm)
    · dsimp only [acted]
      by_cases hSame : old = job
      · rw [hSame, Function.update_self]
        exact ⟨fun _ => ⟨_, rfl, hLast.mp rfl⟩, fun _ => List.mem_cons_self⟩
      · rw [List.mem_cons, or_iff_right hSame]
        exact hOthers old hSame
    · dsimp only [acted]
      rw [List.map_append, h.worked.ended]
      rfl
    · intro e he
      obtain hOld | hNew := List.mem_append.mp he
      · exact h.worked.acts e hOld
      · -- the acts up to here are all of them
        rw [List.mem_singleton.mp hNew]
        exact ⟨progress.handshake, List.take_of_length_le (Nat.le_of_eq (hLast.mp rfl).symm)⟩
  · have hSame : acted s job client progress act =
        { s with work := Function.update s.work job (some { progress with done := progress.done + 1 }) } := by
      cases act with
      | close => exact absurd rfl hClose
      | _ => rfl
    rw [hSame]
    refine ⟨h.pool,
      ⟨h.phased.calling, h.phased.stop, h.phased.freed, h.phased.released, h.phased.signalled⟩,
      ⟨h.counted.books, h.counted.handed,
      h.counted.distinct, h.counted.held, h.counted.once, h.counted.shut, h.counted.refused⟩,
      ⟨fun old => ?_, h.worked.ended, h.worked.acts⟩⟩
    dsimp only
    by_cases hIs : old = job
    · refine ⟨fun hMem => absurd (hIs ▸ hMem) hOpen, fun ⟨progress', hSome, hDone⟩ => ?_⟩
      rw [hIs, Function.update_self] at hSome
      obtain rfl := Option.some.inj hSome
      exact absurd (hLast.mpr hDone) hClose
    · exact hOthers old hIs

/-- While it accepts, the thread is in no call, and the pool is as it was. -/
structure Accepting (s : Server) : Prop where
  calling : ∀ arg, s.pool.callers[0]? ≠ some (.submitting arg)
  stop : s.pool.stop = false
  freed : s.pool.freed = false
  released : s.ctxFreed = false

theorem Phased.accepting (h : Phased s) (hPlace : s.place = .accepting) : Accepting s := by
  obtain ⟨hStop, hFreed⟩ := h.open (by rw [hPlace]; nofun) (by rw [hPlace]; nofun) (by rw [hPlace]; nofun)
  refine ⟨fun arg hArg => ?_, hStop, hFreed, ?_⟩
  · have hNot := h.calling arg hArg
    rw [hPlace] at hNot
    cases hNot
  · cases hCtx : s.ctxFreed with
    | false => rfl
    | true =>
      have hNot := h.released hCtx
      rw [hPlace] at hNot
      cases hNot

theorem Accepting.phased (h : Accepting s) (hPool : s'.pool = s.pool) (hCtx : s'.ctxFreed = s.ctxFreed)
    (hPlace : s'.place ≠ .releasing ∧ s'.place ≠ .returned)
    (hShutdown : s'.place.leaving = true → s'.shutdown = true) : Phased s' := by
  refine ⟨fun arg hArg => ?_, fun hStop => ?_, ⟨fun hFreed => ?_, fun hAt => ?_⟩, fun hReleased => ?_,
    hShutdown⟩
  · rw [hPool] at hArg
    exact absurd hArg (h.calling arg)
  · rw [hPool, h.stop] at hStop
    cases hStop
  · rw [hPool, h.freed] at hFreed
    cases hFreed
  · rcases hAt with hAt | hAt
    · exact absurd hAt hPlace.1
    · exact absurd hAt hPlace.2
  · rw [hCtx, h.released] at hReleased
    cases hReleased

theorem Holds.accepts (h : Holds s) (hPlace : s.place = .accepting) {client : Nat}
    (hNew : client ∉ s.opened) :
    Holds { s with place := .submitting client, opened := client :: s.opened, accepted := s.accepted ++
      [client] } := by
  have hHanded := h.counted.handed_all (by rw [hPlace]; rfl)
  refine ⟨h.pool, (h.phased.accepting hPlace).phased rfl rfl ⟨nofun, nofun⟩ nofun,
    ⟨?_, ?_, List.nodup_cons.mpr ⟨hNew, h.counted.distinct⟩,
    h.counted.held, h.counted.once, h.counted.shut, h.counted.refused⟩, h.worked.same rfl rfl rfl rfl rfl⟩
  · exact List.perm_middle.trans ((h.counted.books.cons client).trans (List.perm_append_singleton _ _).symm)
  · dsimp only
    rw [hHanded]
    rfl

theorem Holds.leaves (h : Holds s) (hPlace : s.place = .accepting) (hShutdown : s.shutdown = true) :
    Holds { s with place := .waiting } := by
  have hHanded := h.counted.handed
  rw [hPlace] at hHanded
  exact ⟨h.pool, (h.phased.accepting hPlace).phased rfl rfl ⟨nofun, nofun⟩ fun _ => hShutdown,
    ⟨h.counted.books, hHanded, h.counted.distinct,
    h.counted.held, h.counted.once, h.counted.shut, h.counted.refused⟩, h.worked.same rfl rfl rfl rfl rfl⟩

theorem Holds.releases (h : Holds s) (hPlace : s.place = .releasing) :
    Holds { s with place := .returned, ctxFreed := true } := by
  have hHanded := h.counted.handed
  rw [hPlace] at hHanded
  refine ⟨h.pool,
    ⟨fun arg hArg => ?_, fun _ => .inr (.inr rfl),
    ⟨fun _ => .inr rfl, fun _ => h.phased.freed.mpr (.inl hPlace)⟩, fun _ => rfl,
    fun _ => h.phased.signalled (by rw [hPlace]; rfl)⟩, ⟨h.counted.books, hHanded, h.counted.distinct,
    h.counted.held, h.counted.once, h.counted.shut, h.counted.refused⟩, h.worked.same rfl rfl rfl rfl rfl⟩
  exact absurd hArg (h.phased.idle (by rw [hPlace]; nofun) arg)

theorem Holds.step {move : Move} (h : Holds s) (hStep : step s move = some s') : Holds s' := by
  cases move with
  | signal =>
    cases hStep
    exact ⟨h.pool, ⟨h.phased.calling, h.phased.stop, h.phased.freed, h.phased.released, fun _ => rfl⟩,
      ⟨h.counted.books, h.counted.handed,
      h.counted.distinct, h.counted.held, h.counted.once, h.counted.shut, h.counted.refused⟩,
      h.worked.same rfl rfl rfl rfl rfl⟩
  | accept client =>
    rw [Serve.step] at hStep
    split at hStep
    · next hGuard =>
      cases hStep
      exact h.accepts hGuard.1 hGuard.2
    · cases hStep
  | acceptFails =>
    rw [Serve.step] at hStep
    split at hStep
    · next hPlace =>
      cases hStep
      split
      · next hShutdown => exact h.leaves hPlace hShutdown
      · exact h
    · cases hStep
  | call event =>
    rw [Serve.step] at hStep
    split at hStep
    · next hCalls =>
      obtain ⟨⟨p', outcome⟩, hPool, rfl⟩ := Option.map_eq_some_iff.mp hStep
      obtain ⟨client, hPlace, hEvent⟩ | ⟨hPlace, hEvent⟩ | ⟨hPlace, hEvent⟩ := calls_cases hCalls
      · exact h.submits hPlace hEvent hPool
      · exact h.waits hPlace hEvent hPool
      · exact h.frees hPlace hEvent hPool
    · cases hStep
  | worker event =>
    rw [Serve.step] at hStep
    split at hStep
    · next hWorkers =>
      obtain ⟨⟨p', outcome⟩, hPool, rfl⟩ := Option.map_eq_some_iff.mp hStep
      exact h.works hWorkers.1 hWorkers.2 hPool
    · cases hStep
  | begin w handshake =>
    obtain ⟨⟨job, client⟩, -, hRest⟩ := Option.bind_eq_some_iff.mp hStep
    split at hRest
    · cases hRest
    · next hFresh =>
      cases hRest
      exact h.begins (Option.not_isSome_iff_eq_none.mp hFresh)
  | act w =>
    obtain ⟨⟨job, client⟩, hRunning, hRest⟩ := Option.bind_eq_some_iff.mp hStep
    obtain ⟨progress, hWork, hMap⟩ := Option.bind_eq_some_iff.mp hRest
    obtain ⟨act, hAct, rfl⟩ := Option.map_eq_some_iff.mp hMap
    exact h.acts hRunning hWork hAct
  | release =>
    rw [Serve.step] at hStep
    split at hStep
    · next hPlace =>
      cases hStep
      exact h.releases hPlace
    · cases hStep

theorem Reached.holds (h : Reached s) : Holds s := by
  induction h with
  | start hStart => exact httpServeConfig_holds hStart
  | step _ hStep ih => exact ih.step hStep

/-! ## Once and only once -/

theorem ne_of_held_nodup {workers : List Worker} {w w' job job' : Nat} (h : (ThreadPool.held workers).Nodup)
    (hWorker : workers[w]? = some (.running job)) (hWorker' : workers[w']? = some (.running job'))
    (hNe : w ≠ w') : job ≠ job' := by
  rintro rfl
  have hPerm : (ThreadPool.held workers).Perm (job :: ThreadPool.held (workers.eraseIdx w)) :=
    (perm_cons_eraseIdx hWorker).filterMap _
  have hOther : Worker.running job ∈ workers.eraseIdx w :=
    List.mem_eraseIdx_iff_getElem?.mpr ⟨w', hNe.symm, hWorker'⟩
  exact (List.nodup_cons.mp (hPerm.nodup_iff.mp h)).1 (List.mem_filterMap.mpr ⟨_, hOther, rfl⟩)

theorem Holds.apart (h : Holds s) {w w' job job' client client' : Nat}
    (hRunning : running s.pool w = some (job, client))
    (hRunning' : running s.pool w' = some (job', client')) (hOpen : job ∉ s.shut)
    (hOpen' : job' ∉ s.shut) (hNe : w ≠ w') : client ≠ client' := by
  obtain ⟨addrs, hBooked, -⟩ := h.pool.sound
  obtain ⟨rest, hHeld, hOpened⟩ := h.openedOf hBooked
  obtain ⟨hWorker, cell, hCell, rfl⟩ := running_cell hRunning
  obtain ⟨hWorker', cell', hCell', rfl⟩ := running_cell hRunning'
  have hJobs := ne_of_held_nodup (List.nodup_append.mp hBooked.apart).2.1 hWorker hWorker' hNe
  have hRest : ∀ {w job : Nat}, s.pool.workers[w]? = some (Worker.running job) → job ∉ s.shut →
    job ∈ rest := by
    intro w job hAt hNot
    obtain hShut | hRest := List.mem_append.mp (hHeld.mem_iff.mp (mem_held hAt))
    · exact absurd hShut hNot
    · exact hRest
  have hOne := List.perm_cons_erase (hRest hWorker hOpen)
  have hTwo := List.perm_cons_erase ((List.mem_erase_of_ne hJobs.symm).mpr (hRest hWorker' hOpen'))
  have hArgs : (args s.pool.queue.heap rest).Perm
    (cell.arg :: cell'.arg :: args s.pool.queue.heap ((rest.erase job).erase job')) := by
    rw [← args_cons hCell', ← args_cons hCell]
    exact args_perm _ (hOne.trans (hTwo.cons job))
  have hDistinct := (List.nodup_append.mp (hOpened.nodup_iff.mp h.counted.distinct)).1
  intro hSame
  rw [hArgs.nodup_iff, hSame] at hDistinct
  exact (List.nodup_cons.mp hDistinct).1 List.mem_cons_self

theorem Holds.tended (h : Holds s) {client : Nat} (hClient : client ∈ s.opened) :
    s.place = .submitting client ∨
    (∃ addrs, Linked s.pool.queue addrs ∧ client ∈ args s.pool.queue.heap addrs) ∨
      ∃ w job, running s.pool w = some (job, client) ∧ job ∉ s.shut := by
  obtain ⟨addrs, hBooked, -⟩ := h.pool.sound
  obtain ⟨rest, hHeld, hOpened⟩ := h.openedOf hBooked
  obtain hRest | hMore := List.mem_append.mp (hOpened.mem_iff.mp hClient)
  · obtain ⟨job, hJob, hArg⟩ := List.mem_filterMap.mp hRest
    obtain ⟨cell, hCell, rfl⟩ := Option.map_eq_some_iff.mp hArg
    obtain ⟨worker, hWorker, hSome⟩ :=
      List.mem_filterMap.mp (hHeld.mem_iff.mpr (List.mem_append_right _ hJob))
    obtain ⟨w, hAt⟩ := List.getElem?_of_mem hWorker
    cases worker with
    | running old =>
      cases hSome
      have hNodup := hHeld.nodup_iff.mp (List.nodup_append.mp hBooked.apart).2.1
      refine .inr (.inr ⟨w, job, by rw [running, hAt]; simp [hCell], fun hShut => ?_⟩)
      exact (List.nodup_append.mp hNodup).2.2 job hShut job hJob rfl
    | _ => cases hSome
  · obtain hQueued | hPending := List.mem_append.mp hMore
    · exact .inr (.inl ⟨addrs, hBooked.linked, hQueued⟩)
    · cases hPlace : s.place with
      | submitting client' =>
        rw [hPlace] at hPending
        exact .inl (congrArg Place.submitting (List.mem_singleton.mp hPending).symm)
      | _ =>
        rw [hPlace] at hPending
        cases hPending

/-- What holds of the connections between any two steps. -/
structure Served (s : Server) : Prop where
  refused : s.refused = []
  books : (s.closed ++ s.opened).Perm s.accepted
  tended : ∀ client ∈ s.opened, s.place = .submitting client ∨
    (∃ addrs, Linked s.pool.queue addrs ∧ client ∈ args s.pool.queue.heap addrs) ∨
      ∃ w job, running s.pool w = some (job, client) ∧ job ∉ s.shut
  ended : s.ended.map Prod.fst = s.closed
  acts : ∀ e ∈ s.ended, ∃ handshake, e.2 = connectionWorker s.tls handshake
  order : s.pool.started <+: s.accepted
  serving : ∀ w job client, running s.pool w = some (job, client) → job ∉ s.shut → client ∈ s.opened ∧
    ∀ w' job' client', w ≠ w' → running s.pool w' = some (job', client') → job' ∉ s.shut → client ≠ client'
  leaving : s.place.leaving = true → s.shutdown = true
  context : s.ctxFreed = true → ∀ w ∈ s.pool.workers, w = .exited
  returned : s.place = .returned → s.opened = [] ∧ s.closed.Perm s.accepted ∧ s.pool.started = s.accepted

theorem Holds.exited (h : Holds s) (hFreed : s.pool.freed = true) :
    (∀ w ∈ s.pool.workers, w = .exited) ∧ s.shut = [] := by
  obtain ⟨addrs, -, hStaffed⟩ := h.pool.sound
  have hAll := (hStaffed.ended hFreed).2
  refine ⟨hAll, List.eq_nil_iff_forall_not_mem.mpr fun job hJob => ?_⟩
  have hHeld := h.counted.held job hJob
  rw [held_eq_nil (busyCount_exited hAll)] at hHeld
  cases hHeld

/-- In every order of steps, every connection that is accepted is handed to one worker, in
the order of the accepts, and closed once, behind the acts of that worker. None is refused,
no two workers serve the same descriptor, and when the loop's thread returns all are closed. -/
theorem accepted_served (s : Server) (h : Reached s) : Served s := by
  have hHolds := h.holds
  obtain ⟨hPool, hPhased, hCounted, hWorked⟩ := h.holds
  refine ⟨hCounted.refused, hCounted.books, fun client => hHolds.tended, hWorked.ended, hWorked.acts,
    ?_, ?_, hPhased.signalled, ?_, ?_⟩
  · obtain ⟨⟨addrs, -, -, hOrder⟩, -⟩ := hPool.sane
    rw [hCounted.handed, hOrder, List.append_assoc]
    exact List.prefix_append _ _
  · intro w job client hRunning hOpen
    exact ⟨hHolds.mem_opened hRunning hOpen, fun w' job' client' hNe hRunning' hOpen' =>
      hHolds.apart hRunning hRunning' hOpen hOpen' hNe⟩
  · intro hCtx
    exact (hHolds.exited (hPhased.freed.mpr (.inr (hPhased.released hCtx)))).1
  · intro hPlace
    have hFreed := hPhased.freed.mpr (.inr hPlace)
    have hDone := hPool.sane.freed hFreed
    have hHanded := hCounted.handed_all (by rw [hPlace]; rfl)
    have hClosed : s.closed.Perm s.accepted := by
      have hShut := hCounted.shut
      rw [(hHolds.exited hFreed).2, args_nil, List.append_nil] at hShut
      rw [hHanded]
      exact hShut.trans hDone.finished
    refine ⟨?_, hClosed, hDone.started.trans hHanded.symm⟩
    have hLength := (hCounted.books.trans hClosed.symm).length_eq
    rw [List.length_append] at hLength
    exact List.length_eq_zero_iff.mp (by omega)

def runMoves : List Move → Server → Option Server
  | [], s => some s
  | move :: moves, s => (step s move).bind (runMoves moves)

theorem Reached.run (moves : List Move) : ∀ {s s' : Server}, Reached s → runMoves moves s = some s' →
    Reached s' := by
  induction moves with
  | nil =>
    intro s s' h hRun
    cases hRun
    exact h
  | cons move moves ih =>
    intro s s' h hRun
    rw [runMoves] at hRun
    obtain ⟨s₁, hStep, hRest⟩ := Option.bind_eq_some_iff.mp hRun
    exact ih (h.step hStep) hRest

/-- Two connections to an encrypted listener: the handshake of the first fails, and the
second has its descriptor again and is served while the signal comes. -/
def drainMoves : List Move :=
  [.accept 7, .call (.submit 0 7), .call (.enqueue 0 100 none), .worker (.look 0), .begin 0 none,
    .act 0, .act 0, .accept 7,
    .call (.submit 0 7), .worker (.jobReturns 0), .call (.enqueue 0 100 none),
    .worker (.account 0 none), .worker (.look 0),
    .begin 0 (some true), .act 0, .signal, .acceptFails, .call (.wait 0), .act 0, .act 0,
      .worker (.jobReturns 0),
    .worker (.account 0 (some 0)), .call (.wait 0), .call (.free 0), .worker (.look 0), .call (.join 0),
      .call (.finishFree 0), .release]

theorem accepted_served_drain : ∃ s, Served s ∧ s.place = .returned ∧
    s.ended = [(7, [.tlsAccept, .close]), (7, [.tlsAccept, .serve true, .close])] := by
  have hRun :
    ((httpServeConfig (some ⟨true, 1⟩) true true 4 8).bind (runMoves drainMoves)).map
      (fun s => (s.place, s.ended)) =
      some (.returned, [(7, [.tlsAccept, .close]), (7, [.tlsAccept, .serve true, .close])]) := by rfl
  obtain ⟨s, hSome, hEnd⟩ := Option.map_eq_some_iff.mp hRun
  obtain ⟨start, hStart, hMoves⟩ := Option.bind_eq_some_iff.mp hSome
  exact ⟨s, accepted_served s (Reached.run drainMoves (.start hStart) hMoves), congrArg Prod.fst hEnd,
    congrArg Prod.snd hEnd⟩

end Cweb.Serve
