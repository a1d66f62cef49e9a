import Cweb.Http.H2Effect
import Cweb.Http.H2Idle

/-!
# The handler's calls on a connection

Which streams a round of dispatching hands to the handler, with the requests it
is given. A run is taken together with the log of these calls.
-/

namespace Cweb.H2

open Sv

variable {env : H2Env}

/-- The request that the handler is given for a stream, if it is. -/
def handedOver (env : H2Env) (s : H2Stream) : Option HttpRequest :=
  if s.dispatched ∨ s.reset ∨ ¬ s.remoteEnded then none
  else if s.bodyTooBig ∨ (env.maxBody : Int) < s.req.contentLength then none
  else if headerHasToken s.req (ascii "content-encoding") (ascii "gzip") ∨
      headerHasToken s.req (ascii "content-encoding") (ascii "x-gzip") then
    match env.inflate s.body env.maxInflated with
    | .bad => none
    | .tooBig => none
    | .ok bytes => some { s.req with body := bytes }
  else some { s.req with body := s.body }

theorem handedOver_ready {s : H2Stream} {req : HttpRequest} (h : handedOver env s = some req) :
    s.dispatched = false ∧ s.reset = false ∧ s.remoteEnded = true := by
  rw [handedOver] at h
  split at h
  · cases h
  · rename_i hReady
    obtain ⟨hDispatched, hRest⟩ := not_or.mp hReady
    obtain ⟨hReset, hEnded⟩ := not_or.mp hRest
    exact ⟨Bool.not_eq_true _ ▸ hDispatched, Bool.not_eq_true _ ▸ hReset, not_not.mp hEnded⟩

/-! ## One round of dispatching -/

/-- A stream is left alone or, if its request has ended, answered. -/
def Answers (env : H2Env) (s s' : H2Stream) : Prop :=
  s' = s ∧ handedOver env s = none ∨
    s.dispatched = false ∧ s.reset = false ∧ s.remoteEnded = true ∧ s'.id = s.id ∧ s'.reset = s.reset ∧
      s'.localEnded = s.localEnded ∧ s'.remoteEnded = s.remoteEnded ∧ s'.dispatched = true

theorem Answers.id_eq {s s' : H2Stream} (h : Answers env s s') : s'.id = s.id := by
  obtain ⟨rfl, _⟩ | ⟨_, _, _, hId, _⟩ := h
  · rfl
  · exact hId

theorem modify_eq_const {l : List H2Stream} {i : Nat} {s : H2Stream} (h : l[i]? = some s)
    (g : H2Stream → H2Stream) :
    l.modify i g = l.modify i fun _ => g s := by
  apply List.ext_getElem?
  intro j
  rw [List.getElem?_modify, List.getElem?_modify]
  split
  · rename_i hEq
    subst hEq
    rw [h]
    rfl
  · rfl

/-- What dispatching slot `i` does: the handler is given the request of that
slot or not, and no other slot changes. -/
theorem dispatchStream_answers {c : H2Conn} {i : Nat} {s : H2Stream} (hAt : c.streams[i]? = some s) :
    ∃ s', Answers env s s' ∧ (dispatchStream env c i).streams = c.streams.modify i (fun _ => s') ∧
      (dispatchStream env c i).calls = c.calls ++ (handedOver env s).toList := by
  have hSelf : c.streams = c.streams.modify i (fun _ => s) := (modify_eq_self hAt).symm
  rw [dispatchStream, hAt]
  dsimp only
  split
  · rename_i hSkip
    have hNone : handedOver env s = none := by
      rw [handedOver, if_pos hSkip]
    refine ⟨s, .inl ⟨rfl, hNone⟩, hSelf, ?_⟩
    rw [hNone]
    exact (List.append_nil _).symm
  · rename_i hReady
    obtain ⟨hDispatched, hRest⟩ := not_or.mp hReady
    obtain ⟨hReset, hEnded⟩ := not_or.mp hRest
    rw [handedOver, if_neg hReady]
    have hAnswered : ∀ s' : H2Stream, s'.id = s.id → s'.reset = s.reset → s'.localEnded = s.localEnded →
        s'.remoteEnded = s.remoteEnded → s'.dispatched = true → Answers env s s' :=
      fun s' hId hReset' hLocal hRemote hDone =>
        .inr ⟨Bool.not_eq_true _ ▸ hDispatched, Bool.not_eq_true _ ▸ hReset,
        not_not.mp hEnded, hId, hReset', hLocal, hRemote, hDone⟩
    have hDirect : ∀ status, ∃ s', Answers env s s' ∧
        (c.modifyStream i fun s => h2DirectError s status).streams = c.streams.modify i (fun _ => s') ∧
          (c.modifyStream i fun s => h2DirectError s status).calls = c.calls ++
          (none : Option HttpRequest).toList := by
      intro status
      refine ⟨h2DirectError s status, hAnswered _ rfl rfl rfl rfl rfl, ?_, (List.append_nil _).symm⟩
      exact modify_eq_const hAt _
    have hCalled : ∀ body req, ∃ s', Answers env s s' ∧
        (h2Dispatch env c i { s with body := body, req := req }).streams = c.streams.modify i (fun _ => s') ∧
          (h2Dispatch env c i { s with body := body, req := req }).calls = c.calls ++ (some req).toList :=
      fun body req => ⟨{ s with
        body := body, req := req, dispatched := true, responseReady := true, res :=
        env.handler (c.calls ++ [req]) },
        hAnswered _ rfl rfl rfl rfl rfl, rfl, rfl⟩
    split
    · exact hDirect 413
    · split
      · cases env.inflate s.body env.maxInflated with
        | bad => exact hDirect 400
        | tooBig => exact hDirect 413
        | ok bytes => exact hCalled [] _
      · exact hCalled s.body _

theorem dispatchFrom_answers (left : Nat) : ∀ i (c : H2Conn), c.streams.length ≤ i + left →
    (∀ j < i, (dispatchFrom env left i c).streams[j]? = c.streams[j]?) ∧
      List.Forall₂ (Answers env) (c.streams.drop i) ((dispatchFrom env left i c).streams.drop i) ∧
        (dispatchFrom env left i c).calls = c.calls ++ (c.streams.drop i).filterMap (handedOver env) := by
  induction left with
  | zero =>
    intro i c hLength
    rw [Nat.add_zero] at hLength
    rw [dispatchFrom, List.drop_eq_nil_of_le hLength]
    exact ⟨fun _ _ => rfl, .nil, (List.append_nil _).symm⟩
  | succ left ih =>
    intro i c hLength
    rw [dispatchFrom]
    cases hAt : c.streams[i]? with
    | none =>
      have hSame : dispatchStream env c i = c := by
        rw [dispatchStream, hAt]
      have hEnd := List.getElem?_eq_none_iff.mp hAt
      rw [hSame]
      obtain ⟨hBefore, hFrom, hCalls⟩ := ih (i + 1) c (by omega)
      rw [List.drop_eq_nil_of_le (by omega : c.streams.length ≤ i + 1)] at hFrom hCalls
      have hRest := List.drop_eq_nil_iff.mp (List.forall₂_nil_left_iff.mp hFrom)
      rw [List.drop_eq_nil_of_le hEnd]
      refine ⟨fun j hj => hBefore j (by omega), ?_, hCalls⟩
      have hLen : (dispatchFrom env left (i + 1) c).streams.length ≤ i := by
        refine List.getElem?_eq_none_iff.mp ?_
        rw [hBefore i (Nat.lt_succ_self i), hAt]
      rw [List.drop_eq_nil_of_le hLen]
      exact .nil
    | some s =>
      obtain ⟨s', hAnswers, hStreams, hCall⟩ := @dispatchStream_answers env _ _ _ hAt
      have hLt := (List.getElem?_eq_some_iff.mp hAt).1
      obtain ⟨hBefore, hFrom, hCalls⟩ := ih (i + 1) (dispatchStream env c i) (by
        rw [hStreams, List.length_modify]
        omega)
      have hTail : (dispatchStream env c i).streams.drop (i + 1) = c.streams.drop (i + 1) := by
        rw [hStreams]
        exact List.drop_modify_of_lt _ _ _ _ (Nat.lt_succ_self i)
      have hHead : (dispatchFrom env left (i + 1) (dispatchStream env c i)).streams[i]? = some s' := by
        rw [hBefore i (Nat.lt_succ_self i), hStreams, List.getElem?_modify_eq, hAt]
        rfl
      rw [hTail] at hFrom hCalls
      have hSplit : c.streams.drop i = s :: c.streams.drop (i + 1) := by
        rw [List.drop_eq_getElem_cons hLt, (List.getElem?_eq_some_iff.mp hAt).2]
      have hSplit' : (dispatchFrom env left (i + 1) (dispatchStream env c i)).streams.drop i =
          s' :: (dispatchFrom env left (i + 1) (dispatchStream env c i)).streams.drop (i + 1) := by
        obtain ⟨hLt', hEq⟩ := List.getElem?_eq_some_iff.mp hHead
        rw [List.drop_eq_getElem_cons hLt', hEq]
      refine ⟨?_, ?_, ?_⟩
      · intro j hj
        rw [hBefore j (by omega), hStreams]
        exact getElem?_modify_of_ne _ (by omega)
      · rw [hSplit, hSplit']
        exact .cons hAnswers hFrom
      · rw [hCalls, hCall, hSplit, List.filterMap_cons, List.append_assoc]
        cases handedOver env s with
        | none => rfl
        | some req => rfl

/-- A call of the handler, with the stream it was for and the trace up to it. -/
structure Call where
  id : Nat
  req : HttpRequest
  trace : List Event

/-- The calls of one round of dispatching. -/
def callsOf (env : H2Env) (c : H2Conn) : List Call :=
  if c.error = none then c.streams.filterMap fun s => (handedOver env s).map fun req => ⟨s.id, req, c.trace⟩
  else []

theorem mem_callsOf {c : H2Conn} {call : Call} (h : call ∈ callsOf env c) :
    c.error = none ∧ call.trace = c.trace ∧ ∃ s ∈ c.streams, s.id = call.id ∧
      handedOver env s = some call.req := by
  rw [callsOf] at h
  split at h
  · rename_i hOk
    obtain ⟨s, hs, hCall⟩ := List.mem_filterMap.mp h
    obtain ⟨req, hReq, rfl⟩ := Option.map_eq_some_iff.mp hCall
    exact ⟨hOk, rfl, s, hs, rfl, hReq⟩
  · exact absurd h List.not_mem_nil

theorem h2DispatchReady_answers (c : H2Conn) (hOk : c.error = none) :
    List.Forall₂ (Answers env) c.streams (h2DispatchReady env c).streams := by
  rw [h2DispatchReady, if_pos hOk]
  have h := (@dispatchFrom_answers env c.streams.length 0 c (by omega)).2.1
  rwa [List.drop_zero, List.drop_zero] at h

theorem h2DispatchReady_calls (c : H2Conn) :
    (h2DispatchReady env c).calls = c.calls ++ (callsOf env c).map Call.req := by
  rw [h2DispatchReady, callsOf]
  split
  · rw [(@dispatchFrom_answers env c.streams.length 0 c (by omega)).2.2, List.drop_zero, List.map_filterMap]
    congr 1
    refine List.filterMap_congr ?_
    intro s _
    cases handedOver env s with
    | none => rfl
    | some req => rfl
  · exact (List.append_nil _).symm

/-! ## Settling -/

/-- A stream after settling. -/
structure Survives (env : H2Env) (s s' : H2Stream) : Prop where
  id : s'.id = s.id
  reset : s'.reset = s.reset
  remote : s'.remoteEnded = s.remoteEnded
  ended : s.localEnded = true → s'.localEnded = true
  dispatched : s.dispatched = true → s'.dispatched = true
  handed : handedOver env s ≠ none → s'.dispatched = true

def Pumped (s s' : H2Stream) : Prop := s'.fixed = s.fixed ∧ (s.localEnded = true → s'.localEnded = true)

theorem Pumped.refl (s : H2Stream) : Pumped s s := ⟨rfl, fun h => h⟩

theorem Pumped.trans {s s' s'' : H2Stream} (h : Pumped s s') (h' : Pumped s' s'') : Pumped s s'' :=
  ⟨h'.1.trans h.1, fun hEnded => h'.2 (h.2 hEnded)⟩

theorem Kind.Touches.pumped {k : Kind} (hk : k ∈ [Kind.head, .deliver, .finish]) {s s' : H2Stream}
    (h : k.Touches s s') : Pumped s s' := by
  refine ⟨h.fixed_eq hk, ?_⟩
  intro hEnded
  simp only [List.mem_cons, List.not_mem_nil, or_false] at hk
  obtain rfl | rfl | rfl := hk
  · rw [h]
    exact hEnded
  · rw [h]
    exact hEnded
  · rw [h, hEnded]
    rfl

theorem Step.pumped {k : Kind} (hk : k ∈ [Kind.head, .deliver, .finish]) {c c' : H2Conn}
    (h : Step env k c c') :
    List.Forall₂ Pumped c.streams c'.streams := by
  have hSame : List.Forall₂ Pumped c.streams c.streams := List.forall₂_same.mpr fun s _ => Pumped.refl s
  cases h with
  | fail _ _ e =>
    rw [h2ConnError_eq]
    exact hSame
  | send _ _ f _ =>
    rw [h2SendFrame_streams]
    exact hSame
  | conn _ _ _ hChange =>
    simp only [List.mem_cons, List.not_mem_nil, or_false] at hk
    obtain rfl | rfl | rfl := hk <;> (rw [hChange]; exact hSame)
  | streams _ _ l hTouch => exact hTouch.imp fun _ _ => Kind.Touches.pumped hk
  | opened => simp at hk
  | drop => simp at hk

theorem h2Pump_pumped (c : H2Conn) : List.Forall₂ Pumped c.streams (h2Pump env c).streams :=
  (h2Pump_steps c).preserves (P := fun c' => List.Forall₂ Pumped c.streams c'.streams)
    (fun _ hk _ _ hStep h => @forall₂_trans Pumped Pumped Pumped (fun _ _ _ => Pumped.trans) _ _ h _
      (hStep.pumped hk))
    (List.forall₂_same.mpr fun s _ => Pumped.refl s)

theorem Answers.pumped {s s' s'' : H2Stream} (h : Answers env s s') (hPumped : Pumped s' s'') :
    Survives env s s'' := by
  obtain ⟨hFixed, hLocal⟩ := hPumped
  obtain ⟨hId, hFixed⟩ := Prod.mk.inj hFixed
  obtain ⟨hReset, hFixed⟩ := Prod.mk.inj hFixed
  obtain ⟨hDispatched, hRemote⟩ := Prod.mk.inj hFixed
  obtain ⟨rfl, hNone⟩ | ⟨_, _, _, hId', hReset', hLocal', hRemote', hDone⟩ := h
  · refine ⟨hId, hReset, hRemote, hLocal, ?_, fun hHanded => absurd hNone hHanded⟩
    intro h
    rw [hDispatched]
    exact h
  · refine ⟨hId.trans hId', hReset.trans hReset', hRemote.trans hRemote', ?_, ?_, ?_⟩
    · intro h
      apply hLocal
      rw [hLocal']
      exact h
    · exact fun _ => hDispatched.trans hDone
    · exact fun _ => hDispatched.trans hDone

theorem settle_survives {c : H2Conn} (hOk : c.error = none) {s' : H2Stream}
    (hs' : s' ∈ (settle env c).streams) :
    ∃ s ∈ c.streams, Survives env s s' := by
  have hMem := (sweepFrom_subset (h2Pump env (h2DispatchReady env c)).streams.length
    (h2Pump env (h2DispatchReady env c))).1 s' hs'
  have hAll : List.Forall₂ (Survives env) c.streams (h2Pump env (h2DispatchReady env c)).streams :=
    @forall₂_trans (Answers env) Pumped (Survives env) (fun _ _ _ => Answers.pumped) _ _
      (h2DispatchReady_answers c hOk) _
      (h2Pump_pumped _)
  exact mem_of_forall₂ hAll hMem

theorem Step.calls_eq {k : Kind} {c c' : H2Conn} (h : Step env k c c') (hk : k ≠ .answer) :
    c'.calls = c.calls := by
  cases h with
  | fail _ _ e => rw [h2ConnError_eq]
  | send _ _ f _ =>
    obtain ⟨hEq, _⟩ | ⟨writes, hEq⟩ | ⟨writes, hEq⟩ := h2SendFrame_cases env c f
    · rw [hEq, h2ConnError_eq]
    · rw [hEq]
    · rw [hEq]
  | conn _ _ _ hChange =>
    cases k with
    | answer => exact absurd rfl hk
    | _ => rw [hChange]
  | streams => rfl
  | opened => rfl
  | drop => rfl

theorem Steps.calls_eq {ks : List Kind} {c c' : H2Conn} (h : Steps env ks c c') (hk : Kind.answer ∉ ks) :
    c'.calls = c.calls :=
  h.preserves (P := fun c' => c'.calls = c.calls)
    (fun _ hMem _ _ hStep hEq => (hStep.calls_eq fun hEq => hk (hEq ▸ hMem)).trans hEq) rfl

theorem settle_calls (c : H2Conn) : (settle env c).calls = c.calls ++ (callsOf env c).map Call.req := by
  calc
    (settle env c).calls = (h2Pump env (h2DispatchReady env c)).calls :=
      (@h2Sweep_steps env _).calls_eq (by simp)
    _ = (h2DispatchReady env c).calls := (h2Pump_steps _).calls_eq (by simp)
    _ = c.calls ++ (callsOf env c).map Call.req := h2DispatchReady_calls c

/-! ## Runs with their calls -/

/-- `Run` with the calls of the handler made on the way. -/
inductive LoggedRun (env : H2Env) (c₀ : H2Conn) : List Call → H2Conn → Prop where
  | start : LoggedRun env c₀ (callsOf env c₀) (settle env c₀)
  | turn {log : List Call} {c : H2Conn} : LoggedRun env c₀ log c → c.error = none →
      LoggedRun env c₀ (log ++ callsOf env c) (settle env c)
  | frame {log : List Call} {c : H2Conn} (f : H2Frame) : LoggedRun env c₀ log c → c.error = none →
      LoggedRun env c₀ (log ++ callsOf env (h2ProcessFrame env c f)) (frameStep env c f)
  | behind {log log' : List Call} {c : H2Conn} (f g : H2Frame) : LoggedRun env c₀ log c → c.error = none →
      FailsBehind env c f → LoggedRun env c₀ log' (frameStep env c f) →
      LoggedRun env c₀ log' (h2ProcessFrame env (frameStep env c f) g)

theorem LoggedRun.run {c₀ c : H2Conn} {log : List Call} (h : LoggedRun env c₀ log c) : Run env c₀ c := by
  induction h with
  | start => exact .start
  | turn _ hOk ih => exact ih.turn hOk
  | frame f _ hOk ih => exact ih.frame f hOk
  | behind f g _ hOk hFails _ ih ih' => exact ih.behind f g hOk hFails ih'

theorem Run.logged {c₀ c : H2Conn} (h : Run env c₀ c) : ∃ log, LoggedRun env c₀ log c := by
  induction h with
  | start => exact ⟨_, .start⟩
  | turn _ hOk ih =>
    obtain ⟨log, hLog⟩ := ih
    exact ⟨_, hLog.turn hOk⟩
  | frame f _ hOk ih =>
    obtain ⟨log, hLog⟩ := ih
    exact ⟨_, hLog.frame f hOk⟩
  | behind f g _ hOk hFails _ ih ih' =>
    obtain ⟨log, hLog⟩ := ih
    obtain ⟨log', hLog'⟩ := ih'
    exact ⟨_, hLog.behind f g hOk hFails hLog'⟩

theorem h2ProcessFrame_calls (c : H2Conn) (f : H2Frame) : (h2ProcessFrame env c f).calls = c.calls :=
  (handleFrame_steps { c with trace := c.trace ++ [.recv f] } f).calls_eq (by simp)

theorem frameStep_calls (c : H2Conn) (f : H2Frame) :
    (frameStep env c f).calls = c.calls ++ (callsOf env (h2ProcessFrame env c f)).map Call.req := by
  rw [frameStep]
  split
  · rw [settle_calls, h2ProcessFrame_calls]
  · rename_i hError
    rw [callsOf, if_neg hError, h2ProcessFrame_calls]
    exact (List.append_nil _).symm

theorem h2Start_calls {upgrade : Option HttpRequest} {c : H2Conn} (h : h2Start env upgrade = some c) :
    c.calls = [] := by
  obtain ⟨writes, events, hEq, _⟩ := @prologueStart_eq env upgrade
  rw [(h2Start_steps h).calls_eq (by simp), hEq]
  rfl

theorem LoggedRun.calls_eq {upgrade : Option HttpRequest} {c₀ c : H2Conn} {log : List Call}
    (h : LoggedRun env c₀ log c) (hStart : h2Start env upgrade = some c₀) : c.calls = log.map Call.req := by
  induction h with
  | start =>
    rw [settle_calls, h2Start_calls hStart]
    rfl
  | turn _ _ ih => rw [settle_calls, ih, List.map_append]
  | frame f _ _ ih => rw [frameStep_calls, ih, List.map_append]
  | behind f g _ _ _ _ _ ih => rw [h2ProcessFrame_calls, ih]

end Cweb.H2
