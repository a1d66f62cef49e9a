import Cweb.Lib.LinkedQueue

/-!
# The worker pool

Workers take jobs off a linked queue behind one mutex. Each critical section is
one step here, and so is the return of a job. Workers that found the queue
empty and callers that wait for the pool to rest sleep on a condition variable.
A signal wakes one sleeper, if there is one, and a sleeper may also wake on its
own. The lists of jobs accepted, started and finished are the history of the
pool. The code does not keep them.
-/

namespace Cweb.ThreadPool

open LinkedQueue

/-- Where a thread stands in `worker_loop`. -/
inductive Worker where
  | looking
  | blocked
  | running (job : Nat)
  | returned
  | exited
deriving DecidableEq, Repr

/-- Where another thread stands with its call. A submit has passed the test of
`workers`, a free has joined the first `i` workers. -/
inductive Caller (α : Type*) where
  | outside
  | submitting (arg : α)
  | waiting
  | rechecking
  | joining (i : Nat)

structure ThreadPool (α : Type*) where
  workers : List Worker
  workerCount : Nat
  freed : Bool
  queue : LinkedQueue α
  queued : Nat
  active : Nat
  stop : Bool
  callers : List (Caller α)
  accepted : List α
  started : List α
  finished : List α
  dropped : List α

inductive Event (α : Type*) where
  | submit (c : Nat) (arg : α)
  | enqueue (c job : Nat) (woken : Option Nat)
  | look (w : Nat)
  | jobReturns (w : Nat)
  | account (w : Nat) (woken : Option Nat)
  | wakeWorker (w : Nat)
  | wait (c : Nat)
  | wakeCaller (c : Nat)
  | free (c : Nat)
  | join (c : Nat)
  | finishFree (c : Nat)

/-- What a call answers in the step in which it returns. -/
inductive Outcome where
  | none
  | submitReturned (rc : Int)
  | waitReturned
  | freeReturned
deriving DecidableEq, Repr

variable {α : Type*}

def Worker.sleeps : Worker → Bool
  | .blocked => true
  | _ => false

def Worker.awake : Worker → Worker
  | .blocked => .looking
  | w => w

def Caller.sleeps : Caller α → Bool
  | .waiting => true
  | _ => false

/-- One of the sleepers is woken, if there is any. -/
def condSignal {β : Type*} (sleeps : β → Bool) (awake : β) (threads : List β) (woken : Option Nat) :
    Option (List β) :=
  match woken with
  | some i => if threads[i]?.map sleeps = some true then some (threads.set i awake) else none
  | none => if threads.any sleeps then none else some threads

/-- `canStart` is how many threads the system lets the pool start. -/
def threadPoolInit (nWorkers parallelism canStart callers : Nat) : Option (ThreadPool α) :=
  let nWorkers := if nWorkers = 0 then parallelism else nWorkers
  let started := min nWorkers canStart
  if started = 0 then none
  else
    some
      { workers := List.replicate started .looking
        workerCount := started
        freed := false
        queue := LinkedQueue.empty
        queued := 0
        active := 0
        stop := false
        callers := List.replicate callers .outside
        accepted := []
        started := []
        finished := []
        dropped := [] }

def submit (p : ThreadPool α) (c : Nat) (arg : α) : Option (ThreadPool α × Outcome) :=
  match p.callers[c]? with
  | some .outside =>
    if p.freed then some (p, .submitReturned (-1))
    else some ({ p with callers := p.callers.set c (.submitting arg) }, .none)
  | _ => none

/-- The critical section of a submit. `job` is the address of the new cell. -/
def enqueue (p : ThreadPool α) (c job : Nat) (woken : Option Nat) : Option (ThreadPool α × Outcome) :=
  match p.callers[c]? with
  | some (.submitting arg) =>
    if (p.queue.heap job).isSome then none
    else if p.stop then some ({ p with callers := p.callers.set c .outside }, .submitReturned (-1))
    else
      (condSignal Worker.sleeps .looking p.workers woken).map fun workers =>
        ({ p with
            workers := workers
            queue := p.queue.push job arg
            queued := p.queued + 1
            callers := p.callers.set c .outside
            accepted := p.accepted ++ [arg] },
          .submitReturned 0)
  | _ => none

/-- The first critical section of `worker_loop`. -/
def look (p : ThreadPool α) (w : Nat) : Option (ThreadPool α × Outcome) :=
  match p.workers[w]? with
  | some .looking =>
    match p.queue.head with
    | none =>
      if p.stop then some ({ p with workers := p.workers.set w .exited }, .none)
      else some ({ p with workers := p.workers.set w .blocked }, .none)
    | some job =>
      match p.queue.heap job with
      | none => none
      | some cell =>
        some
          ({ p with
              queue := p.queue.pop cell
              queued := p.queued - 1
              active := p.active + 1
              workers := p.workers.set w (.running job)
              started := p.started ++ [cell.arg] },
            .none)
  | _ => none

def jobReturns (p : ThreadPool α) (w : Nat) : Option (ThreadPool α × Outcome) :=
  match p.workers[w]? with
  | some (.running job) =>
    match p.queue.heap job with
    | none => none
    | some cell =>
      some
        ({ p with
            queue := p.queue.free job
            workers := p.workers.set w .returned
            finished := p.finished ++ [cell.arg] },
          .none)
  | _ => none

/-- The second critical section of `worker_loop`. -/
def account (p : ThreadPool α) (w : Nat) (woken : Option Nat) : Option (ThreadPool α × Outcome) :=
  match p.workers[w]? with
  | some .returned =>
    let p := { p with active := p.active - 1, workers := p.workers.set w .looking }
    if p.queued = 0 ∧ p.active = 0 then
      (condSignal Caller.sleeps .rechecking p.callers woken).map fun callers =>
        ({ p with callers := callers }, .none)
    else some (p, .none)
  | _ => none

def wakeWorker (p : ThreadPool α) (w : Nat) : Option (ThreadPool α × Outcome) :=
  match p.workers[w]? with
  | some .blocked => some ({ p with workers := p.workers.set w .looking }, .none)
  | _ => none

/-- One round of the loop in `thread_pool_wait`. -/
def waitRound (p : ThreadPool α) (c : Nat) : ThreadPool α × Outcome :=
  if 0 < p.queued ∨ 0 < p.active then ({ p with callers := p.callers.set c .waiting }, .none)
  else ({ p with callers := p.callers.set c .outside }, .waitReturned)

def wait (p : ThreadPool α) (c : Nat) : Option (ThreadPool α × Outcome) :=
  match p.callers[c]? with
  | some .outside => some (waitRound p c)
  | some .rechecking => some (waitRound p c)
  | _ => none

def wakeCaller (p : ThreadPool α) (c : Nat) : Option (ThreadPool α × Outcome) :=
  match p.callers[c]? with
  | some .waiting => some ({ p with callers := p.callers.set c .rechecking }, .none)
  | _ => none

/-- The critical section of `thread_pool_free`. -/
def free (p : ThreadPool α) (c : Nat) : Option (ThreadPool α × Outcome) :=
  match p.callers[c]? with
  | some .outside =>
    some
      ({ p with
          stop := true
          workers := p.workers.map Worker.awake
          callers := p.callers.set c (.joining 0) },
        .none)
  | _ => none

def join (p : ThreadPool α) (c : Nat) : Option (ThreadPool α × Outcome) :=
  match p.callers[c]? with
  | some (.joining i) =>
    if i < p.workerCount ∧ p.workers[i]? = some .exited then
      some ({ p with callers := p.callers.set c (.joining (i + 1)) }, .none)
    else none
  | _ => none

/-- The loop that frees what is left in the queue. -/
def drain : Nat → LinkedQueue α → LinkedQueue α × List α
  | 0, q => (q, [])
  | fuel + 1, q =>
    match q.head with
    | none => (q, [])
    | some job =>
      match q.heap job with
      | none => (q, [])
      | some cell =>
        let rest := drain fuel { q.free job with head := cell.next }
        (rest.1, cell.arg :: rest.2)

def finishFree (p : ThreadPool α) (c : Nat) : Option (ThreadPool α × Outcome) :=
  match p.callers[c]? with
  | some (.joining i) =>
    if i < p.workerCount then none
    else
      let left := drain p.queued p.queue
      some
        ({ p with
            queue := left.1
            dropped := p.dropped ++ left.2
            freed := true
            workerCount := 0
            callers := p.callers.set c .outside },
          .freeReturned)
  | _ => none

def step (p : ThreadPool α) : Event α → Option (ThreadPool α × Outcome)
  | .submit c arg => submit p c arg
  | .enqueue c job woken => enqueue p c job woken
  | .look w => look p w
  | .jobReturns w => jobReturns p w
  | .account w woken => account p w woken
  | .wakeWorker w => wakeWorker p w
  | .wait c => wait p c
  | .wakeCaller c => wakeCaller p c
  | .free c => free p c
  | .join c => join p c
  | .finishFree c => finishFree p c

/-- The pools that steps in any order lead to. -/
inductive Reachable : ThreadPool α → Prop where
  | init {nWorkers parallelism canStart callers : Nat} {p : ThreadPool α}
      (h : threadPoolInit nWorkers parallelism canStart callers = some p) : Reachable p
  | step {p p' : ThreadPool α} {event : Event α} {outcome : Outcome} (h : Reachable p)
      (hStep : step p event = some (p', outcome)) : Reachable p'

end Cweb.ThreadPool
