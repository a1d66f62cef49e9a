import Cweb.Http.H2Settle

/-!
# The streams of a connection

No two streams share an id, and none has an id above the last one opened.
After settling no stream is left that is reset or ended on both sides.
-/

namespace Cweb.H2

open SwapRemove

variable {env : H2Env}

structure Distinct (c : H2Conn) : Prop where
  nodup : (c.streams.map H2Stream.id).Nodup
  bound : ∀ s ∈ c.streams, s.id ≠ 0 ∧ s.id ≤ c.lastStreamId

theorem Kind.Touches.id_eq {k : Kind} {s s' : H2Stream} (h : k.Touches s s') : s'.id = s.id := by
  cases k <;> rw [h]

theorem touches_map_id {k : Kind} {l l' : List H2Stream} (h : List.Forall₂ k.Touches l l') :
    l'.map H2Stream.id = l.map H2Stream.id := by
  induction h with
  | nil => rfl
  | cons hHead _ ih => rw [List.map_cons, List.map_cons, hHead.id_eq, ih]

theorem mem_of_forall₂ {R : H2Stream → H2Stream → Prop} {l l' : List H2Stream} (h : List.Forall₂ R l l')
    {s' : H2Stream} (hs' : s' ∈ l') : ∃ s ∈ l, R s s' := by
  induction h with
  | nil => exact absurd hs' List.not_mem_nil
  | cons hHead _ ih =>
    obtain rfl | hs' := List.mem_cons.mp hs'
    · exact ⟨_, List.mem_cons_self, hHead⟩
    · obtain ⟨s, hs, hR⟩ := ih hs'
      exact ⟨s, List.mem_cons_of_mem _ hs, hR⟩

theorem Step.distinct {k : Kind} {c c' : H2Conn} (h : Step env k c c') (hc : Distinct c) : Distinct c' := by
  obtain ⟨hNodup, hBound⟩ := hc
  cases h with
  | fail _ _ e =>
    rw [h2ConnError_eq]
    exact ⟨hNodup, hBound⟩
  | send _ _ f _ =>
    obtain ⟨hEq, _⟩ | ⟨writes, hEq⟩ | ⟨writes, hEq⟩ := h2SendFrame_cases env c f
    · rw [hEq, h2ConnError_eq]
      exact ⟨hNodup, hBound⟩
    · rw [hEq]
      exact ⟨hNodup, hBound⟩
    · rw [hEq]
      exact ⟨hNodup, hBound⟩
  | conn _ _ _ hChange =>
    cases k <;> (rw [hChange]; exact ⟨hNodup, hBound⟩)
  | streams _ _ l hTouch =>
    have hIds := touches_map_id hTouch
    refine ⟨by rw [hIds]; exact hNodup, ?_⟩
    intro s hs
    have hMem : s.id ∈ l.map H2Stream.id := List.mem_map_of_mem hs
    rw [hIds] at hMem
    obtain ⟨t, ht, hEq⟩ := List.mem_map.mp hMem
    rw [← hEq]
    exact hBound t ht
  | opened _ s hOpens =>
    have hNew := hOpens.1
    refine ⟨?_, ?_⟩
    · rw [List.map_append, List.map_singleton]
      refine List.nodup_append.mpr ⟨hNodup, List.pairwise_singleton _ _, ?_⟩
      intro a ha b hb
      obtain ⟨t, ht, rfl⟩ := List.mem_map.mp ha
      obtain rfl := List.mem_singleton.mp hb
      have hLe := (hBound t ht).2
      omega
    · intro t ht
      change t.id ≠ 0 ∧ t.id ≤ s.id
      obtain ht | ht := List.mem_append.mp ht
      · have hLe := hBound t ht
        omega
      · rw [List.mem_singleton.mp ht]
        omega
  | drop _ i hi =>
    have hPerm := swapRemove_perm c.streams i hi
    refine ⟨?_, ?_⟩
    · refine ((hPerm.map H2Stream.id).nodup_iff).mpr ?_
      exact ((List.eraseIdx_sublist c.streams i).map _).nodup hNodup
    · intro s hs
      exact hBound s (mem_of_mem_swapRemove hi hs)

theorem Steps.distinct {ks : List Kind} {c c' : H2Conn} (h : Steps env ks c c') (hc : Distinct c) :
    Distinct c' :=
  h.preserves (fun _ _ _ _ hStep => hStep.distinct) hc

/-! ## Finding a stream -/

theorem h2FindStream_some {c : H2Conn} {id i : Nat} (h : h2FindStream c id = some i) :
    ∃ s, c.streams[i]? = some s ∧ s.id = id := by
  obtain ⟨hi, hEq, _⟩ := List.findIdx?_eq_some_iff_getElem.mp h
  exact ⟨_, List.getElem?_eq_getElem hi, beq_iff_eq.mp hEq⟩

theorem h2FindStream_none {c : H2Conn} {id : Nat} (h : h2FindStream c id = none) :
    ∀ s ∈ c.streams, s.id ≠ id := by
  intro s hs hEq
  have hFalse := List.findIdx?_eq_none_iff.mp h s hs
  rw [hEq, beq_self_eq_true] at hFalse
  cases hFalse

theorem mem_modify {l : List H2Stream} (hNodup : (l.map H2Stream.id).Nodup) {i : Nat} {s : H2Stream}
    (hAt : l[i]? = some s) {g : H2Stream → H2Stream} {t : H2Stream} (ht : t ∈ l.modify i g) :
    t = g s ∨ t ∈ l ∧ t.id ≠ s.id := by
  obtain ⟨j, hj⟩ := List.mem_iff_getElem?.mp ht
  rw [List.getElem?_modify] at hj
  by_cases hEq : i = j
  · subst hEq
    rw [hAt] at hj
    left
    simpa using hj.symm
  · right
    have hAt' : l[j]? = some t := by simpa [hEq] using hj
    refine ⟨List.mem_of_getElem? hAt', ?_⟩
    intro hId
    have hLt : j < (l.map H2Stream.id).length := by
      rw [List.length_map]
      exact (List.getElem?_eq_some_iff.mp hAt').1
    refine hEq ((List.getElem?_inj hLt hNodup).mp ?_).symm
    rw [List.getElem?_map, List.getElem?_map, hAt, hAt', Option.map_some, Option.map_some, hId]

theorem mem_of_mem_modify {l : List H2Stream} {i : Nat} {g : H2Stream → H2Stream} {t : H2Stream}
    (ht : t ∈ l.modify i g) : t ∈ l ∨ ∃ s, l[i]? = some s ∧ t = g s := by
  obtain ⟨j, hj⟩ := List.mem_iff_getElem?.mp ht
  rw [List.getElem?_modify] at hj
  split at hj
  · rename_i hEq
    subst hEq
    obtain ⟨s, hs, hEq⟩ := Option.map_eq_some_iff.mp hj
    exact .inr ⟨s, hs, hEq.symm⟩
  · exact .inl (List.mem_of_getElem? (by simpa using hj))

/-! ## Sweeping -/

theorem sweepFrom_live (i : Nat) : ∀ c : H2Conn, (∀ j s, i ≤ j → c.streams[j]? = some s → s.done = false) →
    ∀ s ∈ (sweepFrom i c).streams, s.done = false := by
  induction i with
  | zero =>
    intro c h s hs
    obtain ⟨j, hj⟩ := List.mem_iff_getElem?.mp hs
    exact h j s (Nat.zero_le j) hj
  | succ i ih =>
    intro c h
    rw [sweepFrom]
    split
    · rename_i hNone
      refine ih c ?_
      intro j s hj hs
      have hLe := List.getElem?_eq_none_iff.mp hNone
      have hLt := (List.getElem?_eq_some_iff.mp hs).1
      omega
    · rename_i t hAt
      split
      · refine ih _ ?_
        intro j s hj hs
        obtain ⟨k, hk, hs⟩ := swapRemove_getElem?_of_le hj hs
        exact h k s hk hs
      · rename_i hLive
        refine ih c ?_
        intro j s hj hs
        obtain rfl | hLt := Nat.eq_or_lt_of_le hj
        · obtain rfl : t = s := Option.some.inj (hAt.symm.trans hs)
          exact Bool.not_eq_true _ ▸ hLive
        · exact h j s hLt hs

theorem h2Sweep_live (c : H2Conn) : ∀ s ∈ (h2Sweep c).streams, s.done = false := by
  refine sweepFrom_live _ c ?_
  intro j s hj hs
  have hLt := (List.getElem?_eq_some_iff.mp hs).1
  omega

/-! ## Along a run -/

theorem h2ProcessFrame_distinct {c : H2Conn} (hc : Distinct c) (f : H2Frame) :
    Distinct (h2ProcessFrame env c f) :=
  (handleFrame_steps { c with trace := c.trace ++ [.recv f] } f).distinct ⟨hc.nodup, hc.bound⟩

theorem distinct_start {upgrade : Option HttpRequest} {c : H2Conn} (h : h2Start env upgrade = some c) :
    Distinct c := by
  refine (h2Start_steps h).distinct ?_
  obtain ⟨writes, events, hEq, _⟩ := @prologueStart_eq env upgrade
  rw [hEq]
  exact ⟨List.nodup_nil, fun s hs => absurd hs List.not_mem_nil⟩

/-- A connection between two frames. -/
structure Settled (c : H2Conn) : Prop where
  distinct : Distinct c
  live : ∀ s ∈ c.streams, s.done = false

theorem settle_settled {c : H2Conn} (hc : Distinct c) : Settled (settle env c) :=
  ⟨(settle_steps c).distinct hc, h2Sweep_live _⟩

theorem Settled.not_reset {c : H2Conn} (h : Settled c) : ∀ s ∈ c.streams, s.reset = false := by
  intro s hs
  have hDone := h.live s hs
  rw [H2Stream.done, Bool.or_eq_false_iff] at hDone
  exact hDone.1

theorem h2ProcessFrame_error {c : H2Conn} (f : H2Frame) (hOk : (h2ProcessFrame env c f).error = none) :
    c.error = none :=
  (handleFrame_steps { c with trace := c.trace ++ [.recv f] } f).error_mono hOk

theorem Run.invariant {upgrade : Option HttpRequest} {c₀ c : H2Conn} {P : H2Conn → Prop} (h : Run env c₀ c)
    (hStart : h2Start env upgrade = some c₀) (hInit : P c₀)
    (hSettle : ∀ c, Distinct c → (settle env c).error = none → P c → P (settle env c))
    (hFrame : ∀ c c' f, Settled c → P c → Handled env { c with trace := c.trace ++ [.recv f] } f c' →
      c'.error = none → P c')
    (hOk : c.error = none) : Settled c ∧ P c := by
  induction h with
  | start =>
    have hDistinct := distinct_start hStart
    exact ⟨settle_settled hDistinct, hSettle _ hDistinct hOk hInit⟩
  | turn _ hPrev ih =>
    obtain ⟨hSettled, hP⟩ := ih hPrev
    exact ⟨settle_settled hSettled.distinct, hSettle _ hSettled.distinct hOk hP⟩
  | frame f _ hPrev ih =>
    obtain ⟨hSettled, hP⟩ := ih hPrev
    obtain ⟨hHandled, hNone, hEq⟩ := frameStep_handled hOk
    have hDistinct : Distinct (h2ProcessFrame env _ f) := h2ProcessFrame_distinct hSettled.distinct f
    rw [hEq] at hOk ⊢
    exact ⟨settle_settled hDistinct, hSettle _ hDistinct hOk (hFrame _ _ f hSettled hP hHandled hNone)⟩
  | behind f g _ _ hFails _ _ _ => exact absurd (h2ProcessFrame_error g hOk) hFails.failed

end Cweb.H2
