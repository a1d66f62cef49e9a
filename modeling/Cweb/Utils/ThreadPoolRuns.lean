import Mathlib.Data.List.Perm.Basic
import Cweb.Utils.ThreadPool

/-!
# What every order of steps keeps

`Booked` says that the linked list, the two counters and the history of the
pool agree. `Staffed` says what the stop flag and the phases of the threads
have to do with the queue. Every step keeps both.
-/

namespace Cweb.ThreadPool

open LinkedQueue

variable {α : Type*}

/-! ## Lists of threads -/

def Worker.job : Worker → Option Nat
  | .running job => some job
  | _ => none

def Worker.busy : Worker → Bool
  | .running _ => true
  | .returned => true
  | _ => false

def held (workers : List Worker) : List Nat := workers.filterMap Worker.job

/-- Workers between their two critical sections. -/
def busyCount (workers : List Worker) : Nat := workers.countP Worker.busy

/-- The two lists differ only in who sleeps and who has left. -/
def SameDuty (workers workers' : List Worker) : Prop :=
  workers'.map Worker.job = workers.map Worker.job ∧ workers'.map Worker.busy = workers.map Worker.busy

theorem filterMap_eq_of_map_eq {β γ : Type*} {f : β → Option γ} {l l' : List β} (h : l'.map f = l.map f) :
    l'.filterMap f = l.filterMap f := by
  have hMap : ∀ l : List β, (l.map f).filterMap id = l.filterMap f := fun l => by
    rw [List.filterMap_map, Function.id_comp]
  rw [← hMap, ← hMap, h]

theorem SameDuty.held_eq {workers workers' : List Worker} (h : SameDuty workers workers') :
    held workers' = held workers :=
  filterMap_eq_of_map_eq h.1

theorem SameDuty.busyCount_eq {workers workers' : List Worker} (h : SameDuty workers workers') :
    busyCount workers' = busyCount workers := by
  have hMap : ∀ l : List Worker, (l.map Worker.busy).countP id = busyCount l := fun l => by
    rw [List.countP_map, Function.id_comp]
    rfl
  rw [← hMap, ← hMap, h.2]

theorem map_set_eq {β γ : Type*} (f : β → γ) {l : List β} {i : Nat} {old new : β} (h : l[i]? = some old)
    (hSame : f new = f old) : (l.set i new).map f = l.map f := by
  apply List.ext_getElem?
  intro j
  rw [List.map_set, List.getElem?_set]
  split
  · rename_i hEq
    subst hEq
    obtain ⟨hi, hOld⟩ := List.getElem?_eq_some_iff.mp h
    rw [List.length_map, if_pos hi, List.getElem?_map, h, Option.map_some, hSame]
  · rfl

theorem sameDuty_set {workers : List Worker} {w : Nat} {old new : Worker} (h : workers[w]? = some old)
    (hJob : new.job = old.job) (hBusy : new.busy = old.busy) : SameDuty workers (workers.set w new) :=
  ⟨map_set_eq Worker.job h hJob, map_set_eq Worker.busy h hBusy⟩

theorem sameDuty_awake (workers : List Worker) : SameDuty workers (workers.map Worker.awake) := by
  constructor
  · rw [List.map_map]
    apply List.map_congr_left
    intro w _
    cases w <;> rfl
  · rw [List.map_map]
    apply List.map_congr_left
    intro w _
    cases w <;> rfl

theorem perm_cons_eraseIdx {β : Type*} {l : List β} {i : Nat} {old : β} (h : l[i]? = some old) :
    l.Perm (old :: l.eraseIdx i) := by
  obtain ⟨hi, hOld⟩ := List.getElem?_eq_some_iff.mp h
  rw [← hOld]
  exact (List.getElem_cons_eraseIdx_perm hi).symm

theorem set_perm_cons_eraseIdx {β : Type*} {l : List β} {i : Nat} {old : β} (h : l[i]? = some old)
    (new : β) : (l.set i new).Perm (new :: l.eraseIdx i) :=
  List.set_perm_cons_eraseIdx (List.getElem?_eq_some_iff.mp h).1 new

theorem busyCount_set {workers : List Worker} {w : Nat} {old : Worker} (h : workers[w]? = some old)
    (new : Worker) :
    busyCount (workers.set w new) + (if old.busy then 1 else 0) =
      busyCount workers + (if new.busy then 1 else 0) := by
  have hOld := (perm_cons_eraseIdx h).countP_eq Worker.busy
  have hNew := (set_perm_cons_eraseIdx h new).countP_eq Worker.busy
  rw [List.countP_cons] at hOld hNew
  rw [busyCount, busyCount]
  omega

theorem held_set {workers : List Worker} {w : Nat} {old : Worker} (h : workers[w]? = some old)
    (new : Worker) :
    ∃ rest, (held workers).Perm (old.job.toList ++ rest) ∧
      (held (workers.set w new)).Perm (new.job.toList ++ rest) := by
  have hCons : ∀ (x : Worker) (l : List Worker), held (x :: l) = x.job.toList ++ held l := by
    intro x l
    rw [held, List.filterMap_cons]
    cases x <;> rfl
  refine ⟨held (workers.eraseIdx w), ?_, ?_⟩
  · rw [← hCons]
    exact (perm_cons_eraseIdx h).filterMap _
  · rw [← hCons]
    exact (set_perm_cons_eraseIdx h new).filterMap _

theorem getElem?_set_cases {β : Type*} {l : List β} {i j : Nat} {new x : β} (h : (l.set i new)[j]? = some x) :
    (j = i ∧ x = new) ∨ (j ≠ i ∧ l[j]? = some x) := by
  rw [List.getElem?_set] at h
  split at h
  · rename_i hEq
    subst hEq
    split at h
    · cases h
      exact .inl ⟨rfl, rfl⟩
    · cases h
  · rename_i hNe
    exact .inr ⟨Ne.symm hNe, h⟩

theorem condSignal_cases {β : Type*} {sleeps : β → Bool} {awake : β} {threads threads' : List β}
    {woken : Option Nat} (h : condSignal sleeps awake threads woken = some threads') :
    (∃ i old, threads[i]? = some old ∧ sleeps old = true ∧ threads' = threads.set i awake) ∨
      ((∀ x ∈ threads, sleeps x = false) ∧ threads' = threads) := by
  cases woken with
  | none =>
    rw [condSignal] at h
    split at h
    · cases h
    · rename_i hAny
      cases h
      refine .inr ⟨?_, rfl⟩
      intro x hx
      rw [Bool.not_eq_true, List.any_eq_false] at hAny
      simpa using hAny x hx
  | some i =>
    rw [condSignal] at h
    split at h
    · rename_i hSome
      cases h
      obtain ⟨old, hOld, hSleeps⟩ := Option.map_eq_some_iff.mp hSome
      exact .inl ⟨i, old, hOld, hSleeps, rfl⟩
    · cases h

theorem Worker.eq_blocked {w : Worker} (h : w.sleeps = true) : w = .blocked := by
  cases w <;> first | rfl | cases h

theorem signalled_sameDuty {workers workers' : List Worker} {woken : Option Nat}
    (h : condSignal Worker.sleeps .looking workers woken = some workers') : SameDuty workers workers' := by
  obtain ⟨i, old, hOld, hSleeps, rfl⟩ | ⟨_, rfl⟩ := condSignal_cases h
  · obtain rfl := Worker.eq_blocked hSleeps
    exact sameDuty_set hOld rfl rfl
  · exact ⟨rfl, rfl⟩

/-! ## What a step does -/

theorem submit_cases {p p' : ThreadPool α} {c : Nat} {arg : α} {outcome : Outcome}
    (h : submit p c arg = some (p', outcome)) :
    (p.freed = true ∧ p' = p ∧ outcome = .submitReturned (-1)) ∨
      (p.freed = false ∧ p' = { p with callers := p.callers.set c (.submitting arg) } ∧ outcome = .none) := by
  rw [submit] at h
  split at h
  · split at h
    · rename_i hFreed
      cases h
      exact .inl ⟨hFreed, rfl, rfl⟩
    · rename_i hFreed
      cases h
      exact .inr ⟨by simpa using hFreed, rfl, rfl⟩
  · cases h

theorem enqueue_cases {p p' : ThreadPool α} {c job : Nat} {woken : Option Nat} {outcome : Outcome}
    (h : enqueue p c job woken = some (p', outcome)) :
    ∃ arg, p.callers[c]? = some (.submitting arg) ∧ p.queue.heap job = none ∧
      ((p.stop = true ∧ p' = { p with callers := p.callers.set c .outside } ∧
          outcome = .submitReturned (-1)) ∨
        (p.stop = false ∧ outcome = .submitReturned 0 ∧
          ∃ workers, condSignal Worker.sleeps .looking p.workers woken = some workers ∧
            p' =
              { p with
                workers := workers
                queue := p.queue.push job arg
                queued := p.queued + 1
                callers := p.callers.set c .outside
                accepted := p.accepted ++ [arg] })) := by
  rw [enqueue] at h
  split at h
  · rename_i arg hCaller
    split at h
    · cases h
    · rename_i hFresh
      have hNone : p.queue.heap job = none := by simpa using hFresh
      split at h
      · rename_i hStop
        cases h
        exact ⟨arg, hCaller, hNone, .inl ⟨hStop, rfl, rfl⟩⟩
      · rename_i hStop
        obtain ⟨workers, hSignal, hEq⟩ := Option.map_eq_some_iff.mp h
        cases hEq
        exact ⟨arg, hCaller, hNone, .inr ⟨by simpa using hStop, rfl, workers, hSignal, rfl⟩⟩
  · cases h

theorem look_cases {p p' : ThreadPool α} {w : Nat} {outcome : Outcome} (h : look p w = some (p', outcome)) :
    p.workers[w]? = some .looking ∧ outcome = .none ∧
      ((p.queue.head = none ∧ p.stop = true ∧ p' = { p with workers := p.workers.set w .exited }) ∨
        (p.queue.head = none ∧ p.stop = false ∧ p' = { p with workers := p.workers.set w .blocked }) ∨
        ∃ job cell, p.queue.head = some job ∧ p.queue.heap job = some cell ∧
          p' =
            { p with
              queue := p.queue.pop cell
              queued := p.queued - 1
              active := p.active + 1
              workers := p.workers.set w (.running job)
              started := p.started ++ [cell.arg] }) := by
  rw [look] at h
  split at h
  · rename_i hWorker
    split at h
    · rename_i hHead
      split at h
      · rename_i hStop
        cases h
        exact ⟨hWorker, rfl, .inl ⟨hHead, hStop, rfl⟩⟩
      · rename_i hStop
        cases h
        exact ⟨hWorker, rfl, .inr (.inl ⟨hHead, by simpa using hStop, rfl⟩)⟩
    · rename_i job hHead
      split at h
      · cases h
      · rename_i cell hCell
        cases h
        exact ⟨hWorker, rfl, .inr (.inr ⟨job, cell, hHead, hCell, rfl⟩)⟩
  · cases h

theorem jobReturns_cases {p p' : ThreadPool α} {w : Nat} {outcome : Outcome}
    (h : jobReturns p w = some (p', outcome)) :
    ∃ job cell, p.workers[w]? = some (.running job) ∧ p.queue.heap job = some cell ∧ outcome = .none ∧
      p' =
        { p with
          queue := p.queue.free job
          workers := p.workers.set w .returned
          finished := p.finished ++ [cell.arg] } := by
  rw [jobReturns] at h
  split at h
  · rename_i job hWorker
    split at h
    · cases h
    · rename_i cell hCell
      cases h
      exact ⟨job, cell, hWorker, hCell, rfl, rfl⟩
  · cases h

theorem account_cases {p p' : ThreadPool α} {w : Nat} {woken : Option Nat} {outcome : Outcome}
    (h : account p w woken = some (p', outcome)) :
    p.workers[w]? = some .returned ∧ outcome = .none ∧
      ∃ callers, (callers = p.callers ∨ condSignal Caller.sleeps .rechecking p.callers woken = some callers) ∧
        p' =
          { p with
            active := p.active - 1
            workers := p.workers.set w .looking
            callers := callers } := by
  rw [account] at h
  split at h
  · rename_i hWorker
    dsimp only at h
    split at h
    · obtain ⟨callers, hSignal, hEq⟩ := Option.map_eq_some_iff.mp h
      cases hEq
      exact ⟨hWorker, rfl, callers, .inr hSignal, rfl⟩
    · cases h
      exact ⟨hWorker, rfl, p.callers, .inl rfl, rfl⟩
  · cases h

theorem wakeWorker_cases {p p' : ThreadPool α} {w : Nat} {outcome : Outcome}
    (h : wakeWorker p w = some (p', outcome)) :
    p.workers[w]? = some .blocked ∧ outcome = .none ∧
      p' = { p with workers := p.workers.set w .looking } := by
  rw [wakeWorker] at h
  split at h
  · rename_i hWorker
    cases h
    exact ⟨hWorker, rfl, rfl⟩
  · cases h

theorem wait_cases {p p' : ThreadPool α} {c : Nat} {outcome : Outcome} (h : wait p c = some (p', outcome)) :
    ((0 < p.queued ∨ 0 < p.active) ∧ outcome = .none ∧ p' = { p with callers := p.callers.set c .waiting }) ∨
      (p.queued = 0 ∧ p.active = 0 ∧ outcome = .waitReturned ∧
        p' = { p with callers := p.callers.set c .outside }) := by
  have hRound : waitRound p c = (p', outcome) := by
    rw [wait] at h
    split at h
    · exact Option.some.inj h
    · exact Option.some.inj h
    · cases h
  rw [waitRound] at hRound
  split at hRound
  · rename_i hBusy
    cases hRound
    exact .inl ⟨hBusy, rfl, rfl⟩
  · rename_i hRest
    cases hRound
    exact .inr ⟨by omega, by omega, rfl, rfl⟩

theorem wakeCaller_cases {p p' : ThreadPool α} {c : Nat} {outcome : Outcome}
    (h : wakeCaller p c = some (p', outcome)) :
    outcome = .none ∧ p' = { p with callers := p.callers.set c .rechecking } := by
  rw [wakeCaller] at h
  split at h
  · cases h
    exact ⟨rfl, rfl⟩
  · cases h

theorem free_cases {p p' : ThreadPool α} {c : Nat} {outcome : Outcome} (h : free p c = some (p', outcome)) :
    outcome = .none ∧
      p' =
        { p with
          stop := true
          workers := p.workers.map Worker.awake
          callers := p.callers.set c (.joining 0) } := by
  rw [free] at h
  split at h
  · cases h
    exact ⟨rfl, rfl⟩
  · cases h

theorem join_cases {p p' : ThreadPool α} {c : Nat} {outcome : Outcome} (h : join p c = some (p', outcome)) :
    ∃ i, p.callers[c]? = some (.joining i) ∧ p.workers[i]? = some .exited ∧ outcome = .none ∧
      p' = { p with callers := p.callers.set c (.joining (i + 1)) } := by
  rw [join] at h
  split at h
  · rename_i i hCaller
    split at h
    · rename_i hExited
      cases h
      exact ⟨i, hCaller, hExited.2, rfl, rfl⟩
    · cases h
  · cases h

theorem finishFree_cases {p p' : ThreadPool α} {c : Nat} {outcome : Outcome}
    (h : finishFree p c = some (p', outcome)) :
    ∃ i, p.callers[c]? = some (.joining i) ∧ p.workerCount ≤ i ∧ outcome = .freeReturned ∧
      p' =
        { p with
          queue := (drain p.queued p.queue).1
          dropped := p.dropped ++ (drain p.queued p.queue).2
          freed := true
          workerCount := 0
          callers := p.callers.set c .outside } := by
  rw [finishFree] at h
  split at h
  · rename_i i hCaller
    split at h
    · cases h
    · rename_i hJoined
      cases h
      exact ⟨i, hCaller, by omega, rfl, rfl⟩
  · cases h

theorem drain_of_head_none {q : LinkedQueue α} (h : q.head = none) (fuel : Nat) : drain fuel q = (q, []) := by
  cases fuel with
  | zero => rfl
  | succ fuel => rw [drain, h]

/-! ## The list, the counters and the history -/

structure Booked (p : ThreadPool α) (addrs : List Nat) : Prop where
  linked : Linked p.queue addrs
  queued : p.queued = addrs.length
  active : p.active = busyCount p.workers
  apart : (addrs ++ held p.workers).Nodup
  alive : ∀ job ∈ held p.workers, (p.queue.heap job).isSome = true
  order : p.accepted = p.started ++ args p.queue.heap addrs
  once : p.started.Perm (p.finished ++ args p.queue.heap (held p.workers))

theorem Booked.of_eq {p p' : ThreadPool α} {addrs : List Nat} (h : Booked p addrs)
    (hHeld : held p'.workers = held p.workers) (hActive : p'.active = busyCount p'.workers)
    (hQueue : p'.queue = p.queue) (hQueued : p'.queued = p.queued) (hAccepted : p'.accepted = p.accepted)
    (hStarted : p'.started = p.started) (hFinished : p'.finished = p.finished) : Booked p' addrs := by
  constructor
  · rw [hQueue]
    exact h.linked
  · rw [hQueued]
    exact h.queued
  · exact hActive
  · rw [hHeld]
    exact h.apart
  · rw [hHeld, hQueue]
    exact h.alive
  · rw [hAccepted, hStarted, hQueue]
    exact h.order
  · rw [hStarted, hFinished, hQueue, hHeld]
    exact h.once

theorem Booked.of_sameDuty {p p' : ThreadPool α} {addrs : List Nat} (h : Booked p addrs)
    (hDuty : SameDuty p.workers p'.workers) (hActive : p'.active = p.active)
    (hQueue : p'.queue = p.queue) (hQueued : p'.queued = p.queued) (hAccepted : p'.accepted = p.accepted)
    (hStarted : p'.started = p.started) (hFinished : p'.finished = p.finished) : Booked p' addrs :=
  h.of_eq hDuty.held_eq (by rw [hActive, h.active, hDuty.busyCount_eq]) hQueue hQueued hAccepted hStarted
    hFinished

theorem sameDuty_refl (workers : List Worker) : SameDuty workers workers := ⟨rfl, rfl⟩

theorem Booked.enqueue {p : ThreadPool α} {addrs : List Nat} (h : Booked p addrs) {job : Nat}
    (hFresh : p.queue.heap job = none) (arg : α) {workers : List Worker}
    (hDuty : SameDuty p.workers workers) (callers : List (Caller α)) :
    Booked
      { p with
        workers := workers
        queue := p.queue.push job arg
        queued := p.queued + 1
        callers := callers
        accepted := p.accepted ++ [arg] }
      (addrs ++ [job]) := by
  obtain ⟨hLinked, hArgs⟩ := h.linked.push hFresh arg
  have hNotHeld : job ∉ held p.workers := by
    intro hHeld
    have hSome := h.alive job hHeld
    rw [hFresh] at hSome
    cases hSome
  have hHeldArg : ∀ a ∈ held p.workers,
      ((p.queue.push job arg).heap a).map Cell.arg = (p.queue.heap a).map Cell.arg := fun a ha =>
    push_heap_arg (ne_of_mem_of_not_mem ha hNotHeld) arg
  constructor
  · exact hLinked
  · dsimp only
    rw [h.queued, List.length_append, List.length_singleton]
  · dsimp only
    rw [h.active, hDuty.busyCount_eq]
  · dsimp only
    rw [hDuty.held_eq]
    have hPerm : (addrs ++ [job] ++ held p.workers).Perm (job :: (addrs ++ held p.workers)) := by
      rw [List.append_assoc, List.singleton_append]
      exact List.perm_middle
    rw [hPerm.nodup_iff, List.nodup_cons]
    refine ⟨?_, h.apart⟩
    intro hMem
    obtain hIn | hHeld := List.mem_append.mp hMem
    · have hSome := h.linked.chain.allocated job hIn
      rw [hFresh] at hSome
      cases hSome
    · exact hNotHeld hHeld
  · dsimp only
    rw [hDuty.held_eq]
    intro a ha
    rw [← Option.isSome_map (f := Cell.arg), hHeldArg a ha, Option.isSome_map]
    exact h.alive a ha
  · dsimp only
    rw [hArgs, h.order, List.append_assoc]
  · dsimp only
    rw [hDuty.held_eq, args_congr hHeldArg]
    exact h.once

theorem Booked.take {p : ThreadPool α} {addrs : List Nat} (h : Booked p addrs) {w job : Nat}
    {cell : Cell α} (hWorker : p.workers[w]? = some .looking) (hHead : p.queue.head = some job)
    (hCell : p.queue.heap job = some cell) :
    ∃ rest, addrs = job :: rest ∧
      Booked
        { p with
          queue := p.queue.pop cell
          queued := p.queued - 1
          active := p.active + 1
          workers := p.workers.set w (.running job)
          started := p.started ++ [cell.arg] }
        rest := by
  obtain ⟨cell', rest, hCell', rfl⟩ := h.linked.head_cell hHead
  rw [hCell] at hCell'
  cases hCell'
  refine ⟨rest, rfl, ?_⟩
  obtain ⟨others, hOld, hNew⟩ := held_set hWorker (.running job)
  have hHeld : (held (p.workers.set w (.running job))).Perm (job :: held p.workers) :=
    hNew.trans (hOld.symm.cons job)
  constructor
  · exact h.linked.pop hCell
  · dsimp only
    rw [h.queued, List.length_cons, Nat.add_sub_cancel]
  · have hCount := busyCount_set hWorker (.running job)
    dsimp only
    rw [h.active]
    simpa [Worker.busy] using hCount.symm
  · have hPerm : (rest ++ held (p.workers.set w (.running job))).Perm (job :: rest ++ held p.workers) :=
      (hHeld.append_left rest).trans List.perm_middle
    exact hPerm.nodup_iff.mpr h.apart
  · dsimp only
    rw [pop_heap]
    intro a ha
    obtain rfl | hOther := List.mem_cons.mp (hHeld.mem_iff.mp ha)
    · rw [hCell]
      rfl
    · exact h.alive a hOther
  · dsimp only
    rw [pop_heap, h.order, args_cons hCell, List.append_assoc, List.singleton_append]
  · dsimp only
    rw [pop_heap]
    have hArgs := args_perm p.queue.heap hHeld
    rw [args_cons hCell] at hArgs
    have hStarted : (p.started ++ [cell.arg]).Perm
        (cell.arg :: (p.finished ++ args p.queue.heap (held p.workers))) :=
      (List.perm_append_singleton cell.arg p.started).trans (h.once.cons cell.arg)
    exact hStarted.trans (List.perm_middle.symm.trans (hArgs.symm.append_left p.finished))

theorem Booked.jobReturns {p : ThreadPool α} {addrs : List Nat} (h : Booked p addrs) {w job : Nat}
    {cell : Cell α} (hWorker : p.workers[w]? = some (.running job)) (hCell : p.queue.heap job = some cell) :
    Booked
      { p with
        queue := p.queue.free job
        workers := p.workers.set w .returned
        finished := p.finished ++ [cell.arg] }
      addrs := by
  obtain ⟨others, hOld, hNew⟩ := held_set hWorker .returned
  have hOld : (held p.workers).Perm (job :: others) := hOld
  have hNew : (held (p.workers.set w .returned)).Perm others := hNew
  have hApart : (job :: (addrs ++ others)).Nodup := by
    have hPerm : (addrs ++ held p.workers).Perm (job :: (addrs ++ others)) :=
      (hOld.append_left addrs).trans List.perm_middle
    exact hPerm.nodup_iff.mp h.apart
  obtain ⟨hNotIn, hRest⟩ := List.nodup_cons.mp hApart
  rw [List.mem_append, not_or] at hNotIn
  have hNotHeld : job ∉ held (p.workers.set w .returned) := fun hMem => hNotIn.2 (hNew.mem_iff.mp hMem)
  constructor
  · exact h.linked.free hNotIn.1
  · exact h.queued
  · have hCount := busyCount_set hWorker .returned
    dsimp only
    rw [h.active]
    simpa [Worker.busy] using hCount.symm
  · exact (hNew.append_left addrs).nodup_iff.mpr hRest
  · intro a ha
    have hNe : a ≠ job := ne_of_mem_of_not_mem ha hNotHeld
    have hSame : (p.queue.free job).heap a = p.queue.heap a := Function.update_of_ne hNe _ _
    dsimp only
    rw [hSame]
    exact h.alive a (hOld.mem_iff.mpr (List.mem_cons_of_mem job (hNew.mem_iff.mp ha)))
  · dsimp only
    rw [args_free p.queue hNotIn.1]
    exact h.order
  · dsimp only
    rw [args_free p.queue hNotHeld, List.append_assoc, List.singleton_append]
    have hArgs := args_perm p.queue.heap hOld
    rw [args_cons hCell] at hArgs
    have hTail := args_perm p.queue.heap hNew
    exact h.once.trans ((hArgs.trans (hTail.symm.cons cell.arg)).append_left p.finished)

theorem Booked.account {p : ThreadPool α} {addrs : List Nat} (h : Booked p addrs) {w : Nat}
    (hWorker : p.workers[w]? = some .returned) (callers : List (Caller α)) :
    Booked
      { p with
        active := p.active - 1
        workers := p.workers.set w .looking
        callers := callers }
      addrs := by
  have hCount := busyCount_set hWorker .looking
  apply h.of_eq
  · exact filterMap_eq_of_map_eq (map_set_eq Worker.job hWorker rfl)
  · dsimp only
    rw [h.active]
    simp [Worker.busy] at hCount
    omega
  · rfl
  · rfl
  · rfl
  · rfl
  · rfl

/-! ## The stop flag and the phases of the threads -/

structure Staffed (p : ThreadPool α) (addrs : List Nat) : Prop where
  gone : .exited ∈ p.workers → p.stop = true ∧ addrs = []
  awake : addrs ≠ [] → ∃ w ∈ p.workers, w ≠ .blocked
  woken : p.stop = true → .blocked ∉ p.workers
  staffed : p.workers ≠ []
  counted : p.freed = false → p.workerCount = p.workers.length
  joined : ∀ c i : Nat, p.callers[c]? = some (Caller.joining i) →
    p.stop = true ∧ ∀ k < i, p.workers[k]? = some Worker.exited
  ended : p.freed = true → p.stop = true ∧ ∀ w ∈ p.workers, w = .exited
  kept : p.dropped = []

theorem joining_of_set {callers : List (Caller α)} {c c' i : Nat} {new : Caller α}
    (hNew : ∀ i, new ≠ .joining i) (h : (callers.set c new)[c']? = some (.joining i)) :
    callers[c']? = some (.joining i) := by
  obtain ⟨_, hEq⟩ | ⟨_, hOld⟩ := getElem?_set_cases h
  · exact absurd hEq.symm (hNew i)
  · exact hOld

theorem Staffed.caller {p : ThreadPool α} {addrs : List Nat} (h : Staffed p addrs) (c : Nat)
    {new : Caller α} (hNew : ∀ i, new ≠ .joining i) :
    Staffed { p with callers := p.callers.set c new } addrs :=
  ⟨h.gone, h.awake, h.woken, h.staffed, h.counted,
    fun c' i hCaller => h.joined c' i (joining_of_set hNew hCaller), h.ended, h.kept⟩

theorem Staffed.worker {p p' : ThreadPool α} {addrs addrs' : List Nat} (h : Staffed p addrs) {w : Nat}
    {old : Worker} (hOld : p.workers[w]? = some old) (hStays : old ≠ .exited) (new : Worker)
    (hLeaves : new = .exited → p.stop = true ∧ addrs' = [])
    (hSleeps : new = .blocked → p.stop = false ∧ addrs' = []) (hEmpty : addrs = [] → addrs' = [])
    (hWorkers : p'.workers = p.workers.set w new) (hStop : p'.stop = p.stop)
    (hCount : p'.workerCount = p.workerCount) (hFreed : p'.freed = p.freed)
    (hCallers : ∀ c i : Nat, p'.callers[c]? = some (Caller.joining i) →
      p.callers[c]? = some (Caller.joining i))
    (hDropped : p'.dropped = p.dropped) : Staffed p' addrs' := by
  obtain ⟨hw, hAt⟩ := List.getElem?_eq_some_iff.mp hOld
  have hNewIn : new ∈ p'.workers := by
    rw [hWorkers]
    exact List.mem_set hw new
  have hCases : ∀ x ∈ p'.workers, x ∈ p.workers ∨ x = new := by
    intro x hx
    rw [hWorkers] at hx
    exact List.mem_or_eq_of_mem_set hx
  constructor
  · intro hGone
    rw [hStop]
    obtain hIn | hEq := hCases _ hGone
    · obtain ⟨hStopped, hNil⟩ := h.gone hIn
      exact ⟨hStopped, hEmpty hNil⟩
    · exact hLeaves hEq.symm
  · intro hSome
    refine ⟨new, hNewIn, ?_⟩
    intro hBlocked
    exact hSome (hSleeps hBlocked).2
  · intro hStopped hBlocked
    rw [hStop] at hStopped
    obtain hIn | hEq := hCases _ hBlocked
    · exact h.woken hStopped hIn
    · rw [(hSleeps hEq.symm).1] at hStopped
      cases hStopped
  · rintro hNil
    rw [hNil] at hNewIn
    cases hNewIn
  · rw [hFreed, hCount, hWorkers, List.length_set]
    exact h.counted
  · intro c i hCaller
    obtain ⟨hStopped, hExited⟩ := h.joined c i (hCallers c i hCaller)
    refine ⟨by rw [hStop]; exact hStopped, ?_⟩
    intro k hk
    rw [hWorkers, List.getElem?_set_ne]
    · exact hExited k hk
    · rintro rfl
      rw [hExited w hk] at hOld
      cases hOld
      exact hStays rfl
  · intro hOver
    rw [hFreed] at hOver
    exact absurd ((h.ended hOver).2 old (hAt ▸ List.getElem_mem hw)) hStays
  · rw [hDropped]
    exact h.kept

theorem Staffed.enqueue {p p' : ThreadPool α} {addrs : List Nat} (h : Staffed p addrs) (addrs' : List Nat)
    (hStop : p.stop = false) {woken : Option Nat}
    (hSignal : condSignal Worker.sleeps .looking p.workers woken = some p'.workers)
    (hStop' : p'.stop = p.stop) (hCount : p'.workerCount = p.workerCount) (hFreed : p'.freed = p.freed)
    (hCallers : ∀ c i : Nat, p'.callers[c]? = some (Caller.joining i) →
      p.callers[c]? = some (Caller.joining i))
    (hDropped : p'.dropped = p.dropped) : Staffed p' addrs' := by
  have hRuns : p'.stop ≠ true := by
    rw [hStop', hStop]
    nofun
  have hLength : p'.workers.length = p.workers.length := by
    obtain ⟨i, old, _, _, hSet⟩ | ⟨_, hSame⟩ := condSignal_cases hSignal
    · rw [hSet, List.length_set]
    · rw [hSame]
  have hStaffed : p'.workers ≠ [] := by
    rw [← List.length_pos_iff, hLength]
    exact List.length_pos_of_ne_nil h.staffed
  constructor
  · intro hGone
    exfalso
    obtain ⟨i, old, _, _, hSet⟩ | ⟨_, hSame⟩ := condSignal_cases hSignal
    · rw [hSet] at hGone
      obtain hIn | hEq := List.mem_or_eq_of_mem_set hGone
      · exact hRuns (by rw [hStop', (h.gone hIn).1])
      · cases hEq
    · rw [hSame] at hGone
      exact hRuns (by rw [hStop', (h.gone hGone).1])
  · intro _
    obtain ⟨i, old, hOld, _, hSet⟩ | ⟨hAwake, hSame⟩ := condSignal_cases hSignal
    · refine ⟨.looking, ?_, nofun⟩
      rw [hSet]
      exact List.mem_set (List.getElem?_eq_some_iff.mp hOld).1 _
    · obtain ⟨w, hw⟩ := List.exists_mem_of_ne_nil _ h.staffed
      refine ⟨w, by rw [hSame]; exact hw, ?_⟩
      rintro rfl
      exact absurd (hAwake _ hw) (by decide)
  · exact fun hStopped => absurd hStopped hRuns
  · exact hStaffed
  · rw [hFreed, hCount, hLength]
    exact h.counted
  · intro c i hCaller
    exact absurd (hStop'.trans (h.joined c i (hCallers c i hCaller)).1) hRuns
  · intro hOver
    rw [hFreed] at hOver
    exact absurd (hStop'.trans (h.ended hOver).1) hRuns
  · rw [hDropped]
    exact h.kept

theorem Staffed.free {p : ThreadPool α} {addrs : List Nat} (h : Staffed p addrs) (c : Nat) :
    Staffed
      { p with
        stop := true
        workers := p.workers.map Worker.awake
        callers := p.callers.set c (.joining 0) }
      addrs := by
  have hExited : ∀ w : Worker, w.awake = .exited → w = .exited := by
    intro w hw
    cases w <;> first | rfl | cases hw
  have hNotBlocked : ∀ w : Worker, w.awake ≠ .blocked := by
    intro w
    cases w <;> nofun
  constructor
  · intro hGone
    obtain ⟨w, hw, hEq⟩ := List.mem_map.mp hGone
    obtain rfl := hExited w hEq
    exact ⟨rfl, (h.gone hw).2⟩
  · intro _
    obtain ⟨w, hw⟩ := List.exists_mem_of_ne_nil _ h.staffed
    exact ⟨w.awake, List.mem_map_of_mem hw, hNotBlocked w⟩
  · intro _ hBlocked
    obtain ⟨w, _, hEq⟩ := List.mem_map.mp hBlocked
    exact hNotBlocked w hEq
  · intro hNil
    exact h.staffed (List.map_eq_nil_iff.mp hNil)
  · intro hFreed
    exact (h.counted hFreed).trans (List.length_map _).symm
  · intro c' i hCaller
    refine ⟨rfl, ?_⟩
    intro k hk
    obtain ⟨_, hEq⟩ | ⟨_, hOld⟩ := getElem?_set_cases hCaller
    · cases hEq
      omega
    · dsimp only
      rw [List.getElem?_map, (h.joined c' i hOld).2 k hk]
      rfl
  · intro hOver
    refine ⟨rfl, ?_⟩
    intro w hw
    obtain ⟨old, hOld, rfl⟩ := List.mem_map.mp hw
    rw [(h.ended hOver).2 old hOld]
    rfl
  · exact h.kept

theorem Staffed.join {p : ThreadPool α} {addrs : List Nat} (h : Staffed p addrs) {c i : Nat}
    (hCaller : p.callers[c]? = some (.joining i)) (hExited : p.workers[i]? = some .exited) :
    Staffed { p with callers := p.callers.set c (.joining (i + 1)) } addrs := by
  refine ⟨h.gone, h.awake, h.woken, h.staffed, h.counted, ?_, h.ended, h.kept⟩
  intro c' i' hCaller'
  obtain ⟨hStopped, hBefore⟩ := h.joined c i hCaller
  obtain ⟨_, hEq⟩ | ⟨_, hOld⟩ := getElem?_set_cases hCaller'
  · cases hEq
    refine ⟨hStopped, ?_⟩
    intro k hk
    obtain hLt | rfl := Nat.lt_succ_iff_lt_or_eq.mp hk
    · exact hBefore k hLt
    · exact hExited
  · exact h.joined c' i' hOld

theorem Staffed.all_exited {p : ThreadPool α} {addrs : List Nat} (h : Staffed p addrs) {c i : Nat}
    (hCaller : p.callers[c]? = some (.joining i)) (hJoined : p.workerCount ≤ i) :
    (∀ w ∈ p.workers, w = .exited) ∧ addrs = [] := by
  have hAll : ∀ w ∈ p.workers, w = .exited := by
    cases hFreed : p.freed with
    | true => exact (h.ended hFreed).2
    | false =>
      intro w hw
      obtain ⟨k, hk, hAt⟩ := List.getElem_of_mem hw
      have hCount := h.counted hFreed
      have hExited := (h.joined c i hCaller).2 k (by omega)
      rw [List.getElem?_eq_getElem hk, hAt] at hExited
      exact Option.some.inj hExited
  refine ⟨hAll, ?_⟩
  obtain ⟨w, hw⟩ := List.exists_mem_of_ne_nil _ h.staffed
  have hExited := hAll w hw
  subst hExited
  exact (h.gone hw).2

theorem Staffed.finishFree {p : ThreadPool α} {addrs : List Nat} (h : Staffed p addrs) {c i : Nat}
    (hCaller : p.callers[c]? = some (.joining i)) (hJoined : p.workerCount ≤ i) :
    Staffed { p with freed := true, workerCount := 0, callers := p.callers.set c .outside } addrs := by
  refine ⟨h.gone, h.awake, h.woken, h.staffed, ?_, ?_, ?_, h.kept⟩
  · intro hFreed
    cases hFreed
  · intro c' i' hCaller'
    exact h.joined c' i' (joining_of_set (by nofun) hCaller')
  · intro _
    exact ⟨(h.joined c i hCaller).1, (h.all_exited hCaller hJoined).1⟩

/-! ## Reachable pools -/

theorem busyCount_replicate_looking (n : Nat) : busyCount (List.replicate n .looking) = 0 := by
  rw [busyCount, List.countP_eq_zero]
  intro w hw
  rw [List.eq_of_mem_replicate hw]
  nofun

theorem threadPoolInit_sound {nWorkers parallelism canStart callers : Nat} {p : ThreadPool α}
    (h : threadPoolInit nWorkers parallelism canStart callers = some p) : Booked p [] ∧ Staffed p [] := by
  rw [threadPoolInit] at h
  generalize min (if nWorkers = 0 then parallelism else nWorkers) canStart = n at h
  split at h
  · cases h
  · rename_i hStarted
    cases h
    have hHeld : held (List.replicate n Worker.looking) = [] := by
      rw [held, List.filterMap_eq_nil_iff]
      intro w hw
      rw [List.eq_of_mem_replicate hw]
      rfl
    constructor
    · constructor
      · exact Linked.empty
      · rfl
      · exact (busyCount_replicate_looking _).symm
      · dsimp only
        rw [hHeld]
        exact List.nodup_nil
      · dsimp only
        rw [hHeld]
        nofun
      · rfl
      · dsimp only
        rw [hHeld]
        exact List.Perm.refl _
    · constructor
      · intro hGone
        cases List.eq_of_mem_replicate hGone
      · exact fun hNil => absurd rfl hNil
      · intro hStop
        cases hStop
      · intro hNil
        exact hStarted (by simpa using hNil)
      · intro _
        exact List.length_replicate.symm
      · intro c i hCaller
        cases List.eq_of_mem_replicate (List.mem_of_getElem? hCaller)
      · intro hFreed
        cases hFreed
      · rfl

theorem step_sound {p p' : ThreadPool α} {addrs : List Nat} {event : Event α} {outcome : Outcome}
    (hBooked : Booked p addrs) (hStaffed : Staffed p addrs) (hStep : step p event = some (p', outcome)) :
    ∃ addrs', Booked p' addrs' ∧ Staffed p' addrs' := by
  have hRefl := sameDuty_refl p.workers
  cases event with
  | submit c arg =>
    obtain ⟨_, rfl, _⟩ | ⟨_, rfl, _⟩ := submit_cases hStep
    · exact ⟨addrs, hBooked, hStaffed⟩
    · exact ⟨addrs, hBooked.of_sameDuty hRefl rfl rfl rfl rfl rfl rfl, hStaffed.caller c nofun⟩
  | enqueue c job woken =>
    obtain ⟨arg, _, hFresh, ⟨_, rfl, _⟩ | ⟨hStop, _, workers, hSignal, rfl⟩⟩ := enqueue_cases hStep
    · exact ⟨addrs, hBooked.of_sameDuty hRefl rfl rfl rfl rfl rfl rfl, hStaffed.caller c nofun⟩
    · exact ⟨addrs ++ [job], hBooked.enqueue hFresh arg (signalled_sameDuty hSignal) _,
        hStaffed.enqueue _ hStop hSignal rfl rfl rfl (fun _ _ => joining_of_set nofun) rfl⟩
  | look w =>
    obtain ⟨hWorker, _, ⟨hHead, hStop, rfl⟩ | ⟨hHead, hStop, rfl⟩ | ⟨job, cell, hHead, hCell, rfl⟩⟩ :=
      look_cases hStep
    · have hNil := hBooked.linked.head_eq_none.mp hHead
      exact ⟨addrs, hBooked.of_sameDuty (sameDuty_set hWorker rfl rfl) rfl rfl rfl rfl rfl rfl,
        hStaffed.worker hWorker nofun .exited (fun _ => ⟨hStop, hNil⟩) nofun id rfl rfl rfl rfl
          (fun _ _ => id) rfl⟩
    · have hNil := hBooked.linked.head_eq_none.mp hHead
      exact ⟨addrs, hBooked.of_sameDuty (sameDuty_set hWorker rfl rfl) rfl rfl rfl rfl rfl rfl,
        hStaffed.worker hWorker nofun .blocked nofun (fun _ => ⟨hStop, hNil⟩) id rfl rfl rfl rfl
          (fun _ _ => id) rfl⟩
    · obtain ⟨rest, rfl, hTaken⟩ := hBooked.take hWorker hHead hCell
      exact ⟨rest, hTaken, hStaffed.worker hWorker nofun (.running job) nofun nofun nofun
        rfl rfl rfl rfl (fun _ _ => id) rfl⟩
  | jobReturns w =>
    obtain ⟨job, cell, hWorker, hCell, _, rfl⟩ := jobReturns_cases hStep
    exact ⟨addrs, hBooked.jobReturns hWorker hCell,
      hStaffed.worker hWorker nofun .returned nofun nofun id rfl rfl rfl rfl (fun _ _ => id) rfl⟩
  | account w woken =>
    obtain ⟨hWorker, _, callers, hCallers, rfl⟩ := account_cases hStep
    refine ⟨addrs, hBooked.account hWorker callers,
      hStaffed.worker hWorker nofun .looking nofun nofun id rfl rfl rfl rfl ?_ rfl⟩
    intro c i hCaller
    obtain rfl | hSignal := hCallers
    · exact hCaller
    · obtain ⟨j, old, _, _, rfl⟩ | ⟨_, rfl⟩ := condSignal_cases hSignal
      · exact joining_of_set (by nofun) hCaller
      · exact hCaller
  | wakeWorker w =>
    obtain ⟨hWorker, _, rfl⟩ := wakeWorker_cases hStep
    exact ⟨addrs, hBooked.of_sameDuty (sameDuty_set hWorker rfl rfl) rfl rfl rfl rfl rfl rfl,
      hStaffed.worker hWorker nofun .looking nofun nofun id rfl rfl rfl rfl (fun _ _ => id) rfl⟩
  | wait c =>
    obtain ⟨_, _, rfl⟩ | ⟨_, _, _, rfl⟩ := wait_cases hStep
    · exact ⟨addrs, hBooked.of_sameDuty hRefl rfl rfl rfl rfl rfl rfl, hStaffed.caller c nofun⟩
    · exact ⟨addrs, hBooked.of_sameDuty hRefl rfl rfl rfl rfl rfl rfl, hStaffed.caller c nofun⟩
  | wakeCaller c =>
    obtain ⟨_, rfl⟩ := wakeCaller_cases hStep
    exact ⟨addrs, hBooked.of_sameDuty hRefl rfl rfl rfl rfl rfl rfl, hStaffed.caller c nofun⟩
  | free c =>
    obtain ⟨_, rfl⟩ := free_cases hStep
    exact ⟨addrs, hBooked.of_sameDuty (sameDuty_awake p.workers) rfl rfl rfl rfl rfl rfl, hStaffed.free c⟩
  | join c =>
    obtain ⟨i, hCaller, hExited, _, rfl⟩ := join_cases hStep
    exact ⟨addrs, hBooked.of_sameDuty hRefl rfl rfl rfl rfl rfl rfl, hStaffed.join hCaller hExited⟩
  | finishFree c =>
    obtain ⟨i, hCaller, hJoined, _, rfl⟩ := finishFree_cases hStep
    have hNil := (hStaffed.all_exited hCaller hJoined).2
    rw [drain_of_head_none (hBooked.linked.head_eq_none.mpr hNil), List.append_nil]
    exact ⟨addrs, hBooked.of_sameDuty hRefl rfl rfl rfl rfl rfl rfl, hStaffed.finishFree hCaller hJoined⟩

theorem Reachable.sound {p : ThreadPool α} (h : Reachable p) : ∃ addrs, Booked p addrs ∧ Staffed p addrs := by
  induction h with
  | init hInit => exact ⟨[], threadPoolInit_sound hInit⟩
  | step _ hStep ih =>
    obtain ⟨addrs, hBooked, hStaffed⟩ := ih
    exact step_sound hBooked hStaffed hStep

end Cweb.ThreadPool
