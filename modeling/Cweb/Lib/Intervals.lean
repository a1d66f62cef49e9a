import Mathlib.Data.List.Induction
import Mathlib.Order.MinMax

/-!
# Coalescing intervals

Half-open intervals over a linear order, sorted by where they start, are put
into a list of intervals with gaps between them. The list covers what the
intervals cover, and it is the only such list.
-/

namespace Intervals

/-- From `start` on, up to what is before `stop`. -/
structure Span (α : Type*) where
  start : α
  stop : α

variable {α : Type*} [LinearOrder α]

def Span.Mem (s : Span α) (x : α) : Prop := s.start ≤ x ∧ x < s.stop

def Covers (l : List (Span α)) (x : α) : Prop := ∃ s ∈ l, s.Mem x

structure Apart (l : List (Span α)) : Prop where
  nonempty : ∀ s ∈ l, s.start < s.stop
  gaps : l.Pairwise fun s t => s.stop < t.start

/-- An interval that overlaps or touches the last one extends it. -/
def absorb (out : List (Span α)) (s : Span α) : List (Span α) :=
  match out.getLast? with
  | none => out ++ [s]
  | some last => if s.start ≤ last.stop then out.dropLast ++ [⟨last.start, max last.stop s.stop⟩]
    else out ++ [s]

@[simp]
theorem covers_nil (x : α) : ¬Covers [] x := by
  rintro ⟨s, hs, -⟩
  cases hs

@[simp]
theorem covers_cons (s : Span α) (l : List (Span α)) (x : α) : Covers (s :: l) x ↔ s.Mem x ∨ Covers l x := by
  simp [Covers]

@[simp]
theorem covers_append (l l' : List (Span α)) (x : α) : Covers (l ++ l') x ↔ Covers l x ∨ Covers l' x := by
  simp [Covers, or_and_right, exists_or]

@[simp]
theorem absorb_nil (s : Span α) : absorb [] s = [s] := rfl

theorem absorb_concat (init : List (Span α)) (last s : Span α) : absorb (init ++ [last]) s =
    if s.start ≤ last.stop then init ++ [⟨last.start, max last.stop s.stop⟩] else init ++ [last] ++ [s] := by
  rw [absorb, List.getLast?_concat, List.dropLast_concat]

theorem apart_concat {init : List (Span α)} {last : Span α} : Apart (init ++ [last]) ↔
    Apart init ∧ last.start < last.stop ∧ ∀ s ∈ init, s.stop < last.start := by
  constructor
  · rintro ⟨hSome, hGaps⟩
    rw [List.pairwise_append] at hGaps
    refine ⟨⟨fun s hs => hSome s (List.mem_append_left _ hs), hGaps.1⟩, hSome last (by simp), ?_⟩
    exact fun s hs => hGaps.2.2 s hs last (List.mem_singleton_self last)
  · rintro ⟨⟨hSome, hGaps⟩, hLast, hBefore⟩
    refine ⟨?_, ?_⟩
    · intro s hs
      rcases List.mem_append.mp hs with hs | hs
      · exact hSome s hs
      · exact List.mem_singleton.mp hs ▸ hLast
    · refine List.pairwise_append.mpr ⟨hGaps, List.pairwise_singleton _ _, ?_⟩
      intro s hs t ht
      exact List.mem_singleton.mp ht ▸ hBefore s hs

/-! ## One interval -/

theorem Apart.absorb {out : List (Span α)} (h : Apart out) {s : Span α} (hs : s.start < s.stop) :
    Apart (absorb out s) := by
  cases out using List.reverseRecOn with
  | nil => exact ⟨by simpa using hs, List.pairwise_singleton _ _⟩
  | append_singleton init last _ =>
    obtain ⟨hInit, hLast, hBefore⟩ := apart_concat.mp h
    rw [absorb_concat]
    split
    · exact apart_concat.mpr ⟨hInit, lt_max_of_lt_left hLast, hBefore⟩
    · next hBehind =>
      refine apart_concat.mpr ⟨h, hs, ?_⟩
      intro t ht
      rcases List.mem_append.mp ht with ht | ht
      · exact (hBefore t ht).trans (hLast.trans (not_le.mp hBehind))
      · exact List.mem_singleton.mp ht ▸ not_le.mp hBehind

theorem covers_absorb {out : List (Span α)} {s : Span α} (hSorted : ∀ t ∈ out, t.start ≤ s.start) (x : α) :
    Covers (absorb out s) x ↔ Covers out x ∨ s.Mem x := by
  cases out using List.reverseRecOn with
  | nil => simp
  | append_singleton init last _ =>
    have hLe : last.start ≤ s.start := hSorted last (by simp)
    rw [absorb_concat]
    split
    · next hTouch =>
      rw [covers_append, covers_append, or_assoc]
      refine or_congr_right ?_
      simp only [covers_cons, covers_nil, or_false, Span.Mem, lt_max_iff]
      constructor
      · rintro ⟨hStart, hStop | hStop⟩
        · exact .inl ⟨hStart, hStop⟩
        · -- what is behind the old end begins behind the start of the new interval
          rcases lt_or_ge x last.stop with hOld | hNew
          · exact .inl ⟨hStart, hOld⟩
          · exact .inr ⟨hTouch.trans hNew, hStop⟩
      · rintro (⟨hStart, hStop⟩ | ⟨hStart, hStop⟩)
        · exact ⟨hStart, .inl hStop⟩
        · exact ⟨hLe.trans hStart, .inr hStop⟩
    · simp [or_assoc]

theorem start_le_of_mem_absorb {out : List (Span α)} {s : Span α} (hSorted : ∀ t ∈ out, t.start ≤ s.start) :
    ∀ t ∈ absorb out s, t.start ≤ s.start := by
  intro t ht
  cases out using List.reverseRecOn with
  | nil => exact (List.mem_singleton.mp ht) ▸ le_rfl
  | append_singleton init last _ =>
    rw [absorb_concat] at ht
    split at ht
    · rcases List.mem_append.mp ht with ht | ht
      · exact hSorted t (List.mem_append_left _ ht)
      · rw [List.mem_singleton.mp ht]
        exact hSorted last (by simp)
    · rcases List.mem_append.mp ht with ht | ht
      · exact hSorted t ht
      · exact (List.mem_singleton.mp ht) ▸ le_rfl

/-! ## All of them -/

theorem foldl_absorb (l : List (Span α)) : ∀ out : List (Span α), Apart out → (∀ s ∈ l, s.start < s.stop) →
    l.Pairwise (fun s t => s.start ≤ t.start) → (∀ t ∈ out, ∀ s ∈ l, t.start ≤ s.start) →
    Apart (l.foldl absorb out) ∧ ∀ x, Covers (l.foldl absorb out) x ↔ Covers out x ∨ Covers l x := by
  induction l with
  | nil => exact fun out h _ _ _ => ⟨h, fun x => by simp⟩
  | cons s l ih =>
    intro out h hSome hSorted hBefore
    obtain ⟨hFirst, hRest⟩ := List.pairwise_cons.mp hSorted
    have hOut : ∀ t ∈ out, t.start ≤ s.start := fun t ht => hBefore t ht s List.mem_cons_self
    obtain ⟨hApart, hCovers⟩ := ih (absorb out s) (h.absorb (hSome s List.mem_cons_self))
      (fun t ht => hSome t (List.mem_cons_of_mem _ ht)) hRest
      fun t ht u hu => (start_le_of_mem_absorb hOut t ht).trans (hFirst u hu)
    refine ⟨hApart, fun x => ?_⟩
    rw [List.foldl_cons, hCovers, covers_absorb hOut, covers_cons, or_assoc]

/-! ## The list is determined by what it covers -/

theorem Apart.tail {s : Span α} {l : List (Span α)} (h : Apart (s :: l)) : Apart l :=
  ⟨fun t ht => h.nonempty t (List.mem_cons_of_mem _ ht), (List.pairwise_cons.mp h.gaps).2⟩

theorem Apart.stop_lt {s : Span α} {l : List (Span α)} (h : Apart (s :: l)) {x : α} (hx : Covers l x) :
    s.stop < x := by
  obtain ⟨t, ht, hStart, -⟩ := hx
  exact ((List.pairwise_cons.mp h.gaps).1 t ht).trans_le hStart

theorem Apart.start_le {s : Span α} {l : List (Span α)} (h : Apart (s :: l)) {x : α}
    (hx : Covers (s :: l) x) : s.start ≤ x := by
  rcases (covers_cons s l x).mp hx with hHere | hLater
  · exact hHere.1
  · exact ((h.nonempty s List.mem_cons_self).trans (h.stop_lt hLater)).le

theorem Apart.covers_start {s : Span α} {l : List (Span α)} (h : Apart (s :: l)) : Covers (s :: l) s.start :=
  ⟨s, List.mem_cons_self, le_rfl, h.nonempty s List.mem_cons_self⟩

theorem Apart.not_covers_stop {s : Span α} {l : List (Span α)} (h : Apart (s :: l)) :
    ¬Covers (s :: l) s.stop := by
  rw [covers_cons]
  rintro (hHere | hLater)
  · exact lt_irrefl _ hHere.2
  · exact lt_irrefl _ (h.stop_lt hLater)

theorem stop_le_of_covers {s s' : Span α} {l l' : List (Span α)} (h : Apart (s :: l))
    (hStart : s'.start = s.start) (hSame : ∀ x, Covers (s :: l) x ↔ Covers (s' :: l') x) :
    s'.stop ≤ s.stop := by
  refine not_lt.mp fun hLt => h.not_covers_stop ((hSame _).mpr ⟨s', List.mem_cons_self, ?_, hLt⟩)
  exact hStart ▸ (h.nonempty s List.mem_cons_self).le

theorem Apart.unique {l : List (Span α)} (h : Apart l) : ∀ {l' : List (Span α)}, Apart l' →
    (∀ x, Covers l x ↔ Covers l' x) → l = l' := by
  induction l with
  | nil =>
    intro l' h' hSame
    cases l' with
    | nil => rfl
    | cons s' l' => exact absurd ((hSame _).mpr h'.covers_start) (covers_nil _)
  | cons s l ih =>
    intro l' h' hSame
    cases l' with
    | nil => exact absurd ((hSame _).mp h.covers_start) (covers_nil _)
    | cons s' l' =>
      have hStart : s.start = s'.start :=
        le_antisymm (h.start_le ((hSame _).mpr h'.covers_start)) (h'.start_le ((hSame _).mp h.covers_start))
      have hStop : s.stop = s'.stop :=
        le_antisymm (stop_le_of_covers h' hStart fun x => (hSame x).symm)
          (stop_le_of_covers h hStart.symm hSame)
      obtain rfl : s = s' := by
        cases s
        cases s'
        simp_all
      refine congrArg _ (ih h.tail h'.tail fun x => ?_)
      have hMem : ∀ {l : List (Span α)}, Apart (s :: l) → (Covers l x ↔ Covers (s :: l) x ∧ ¬s.Mem x) := by
        intro l hl
        rw [covers_cons]
        constructor
        · exact fun hx => ⟨.inr hx, fun hHere => lt_asymm hHere.2 (hl.stop_lt hx)⟩
        · exact fun hx => hx.1.resolve_left hx.2
      rw [hMem h, hMem h', hSame]

end Intervals
