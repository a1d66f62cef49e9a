import Mathlib.Data.Option.Basic

/-!
# Layers around a core

A layer sees a state before what lies behind it does. It answers, or lets the
state through and may change what comes back. Layers stack up to one layer, so a
core behind them is entered once or not at all, and `none` is a core that does
not come back.
-/

namespace Layers

variable {σ : Type*}

/-- `leave` is also given the state that entered the layer. -/
structure Layer (σ : Type*) where
  enter : σ → Except σ σ
  leave : σ → σ → σ

namespace Layer

def wrap (l : Layer σ) (next : σ → Option σ) (s : σ) : Option σ :=
  match l.enter s with
  | .error t => some t
  | .ok t => (next t).map (l.leave s)

/-- Lets everything through. -/
def through : Layer σ := ⟨.ok, fun _ t => t⟩

def comp (outer inner : Layer σ) : Layer σ where
  enter s :=
    match outer.enter s with
    | .error t => .error t
    | .ok t =>
      match inner.enter t with
      | .error u => .error (outer.leave s u)
      | .ok u => .ok u
  leave s u :=
    match outer.enter s with
    | .error t => t
    | .ok t => outer.leave s (inner.leave t u)

theorem wrap_ok {l : Layer σ} {s t : σ} (h : l.enter s = .ok t) (next : σ → Option σ) :
    l.wrap next s = (next t).map (l.leave s) := by
  rw [wrap, h]

@[simp]
theorem wrap_through (next : σ → Option σ) : (through : Layer σ).wrap next = next := by
  funext s
  cases h : next s with
  | none => simp [wrap, through, h]
  | some t => simp [wrap, through, h]

theorem wrap_comp (outer inner : Layer σ) (next : σ → Option σ) :
    (outer.comp inner).wrap next = outer.wrap (inner.wrap next) := by
  funext s
  rw [wrap, wrap, comp]
  dsimp only
  cases hOuter : outer.enter s with
  | error t => rfl
  | ok t =>
    dsimp only
    rw [wrap]
    cases inner.enter t with
    | error u => rfl
    | ok u => exact (Option.map_map (outer.leave s) (inner.leave t) (next u)).symm

theorem enter_comp_ok_iff {outer inner : Layer σ} {s u : σ} :
    (outer.comp inner).enter s = .ok u ↔ ∃ t, outer.enter s = .ok t ∧ inner.enter t = .ok u := by
  rw [comp]
  dsimp only
  cases outer.enter s with
  | error t => simp
  | ok t =>
    cases hInner : inner.enter t with
    | error v => simp [hInner]
    | ok v => simp [hInner]

end Layer

/-! ## Layers of one kind -/

/-- Answers or lets through, and leaves alone what comes back. -/
def gate (enter : σ → Except σ σ) : Layer σ := ⟨enter, fun _ t => t⟩

/-- Changes what goes in. -/
def before (f : σ → σ) : Layer σ := gate fun s => .ok (f s)

/-- Changes what comes back. -/
def after (f : σ → σ → σ) : Layer σ := ⟨.ok, f⟩

theorem wrap_gate (enter : σ → Except σ σ) (next : σ → Option σ) (s : σ) :
    (gate enter).wrap next s = match enter s with | .error t => some t | .ok t => next t := by
  rw [Layer.wrap, gate]
  dsimp only
  cases enter s with
  | error t => rfl
  | ok t =>
    dsimp only
    cases next t with
    | none => rfl
    | some u => rfl

theorem wrap_before (f : σ → σ) (next : σ → Option σ) (s : σ) : (before f).wrap next s = next (f s) :=
  wrap_gate _ next s

/-- The first layer is the outermost. -/
def stack (layers : List (Layer σ)) : Layer σ := layers.foldr Layer.comp Layer.through

def run (layers : List (Layer σ)) (core : σ → Option σ) : σ → Option σ := layers.foldr Layer.wrap core

theorem run_eq_wrap (layers : List (Layer σ)) (core : σ → Option σ) :
    run layers core = (stack layers).wrap core := by
  induction layers with
  | nil => exact (Layer.wrap_through core).symm
  | cons l layers ih =>
    calc
      run (l :: layers) core = l.wrap (run layers core) := rfl
      _ = l.wrap ((stack layers).wrap core) := by rw [ih]
      _ = (l.comp (stack layers)).wrap core := (l.wrap_comp (stack layers) core).symm

theorem run_append (outer inner : List (Layer σ)) (core : σ → Option σ) :
    run (outer ++ inner) core = run outer (run inner core) := List.foldr_append

theorem run_gate_ok {enter : σ → Except σ σ} {s t : σ} (h : enter s = .ok t) (core : σ → Option σ) :
    run [gate enter] core s = core t := by
  change (gate enter).wrap core s = core t
  rw [wrap_gate, h]

theorem run_gate_error {enter : σ → Except σ σ} {s t : σ} (h : enter s = .error t)
    (core : σ → Option σ) : run [gate enter] core s = some t := by
  change (gate enter).wrap core s = some t
  rw [wrap_gate, h]

/-! ## What holds of every state -/

/-- A layer keeps a property if what it answers, what it lets through and what it
makes of what comes back have it. -/
structure Layer.Keeps (P : σ → Prop) (l : Layer σ) : Prop where
  answer : ∀ s t, P s → l.enter s = .error t → P t
  through : ∀ s t, P s → l.enter s = .ok t → P t
  back : ∀ s t, P s → P t → P (l.leave s t)

theorem Layer.keeps_through (P : σ → Prop) : (Layer.through : Layer σ).Keeps P where
  answer _ _ _ h := by cases h
  through _ _ hs h := by cases h; exact hs
  back _ _ _ ht := ht

theorem keeps_gate {P : σ → Prop} {enter : σ → Except σ σ} (hAnswer : ∀ s t, P s → enter s = .error t → P t)
    (hThrough : ∀ s t, P s → enter s = .ok t → P t) : (gate enter).Keeps P :=
  ⟨hAnswer, hThrough, fun _ _ _ ht => ht⟩

theorem keeps_after {P : σ → Prop} {f : σ → σ → σ} (h : ∀ s t, P s → P t → P (f s t)) :
    (after f).Keeps P where
  answer _ _ _ hEq := by cases hEq
  through _ _ hs hEq := by
    cases hEq
    exact hs
  back := h

theorem Layer.Keeps.comp {P : σ → Prop} {outer inner : Layer σ} (ho : outer.Keeps P) (hi : inner.Keeps P) :
    (outer.comp inner).Keeps P where
  answer s t hs h := by
    rw [Layer.comp] at h
    dsimp only at h
    cases hOuter : outer.enter s with
    | error u =>
      rw [hOuter] at h
      cases h
      exact ho.answer s t hs hOuter
    | ok u =>
      rw [hOuter] at h
      have hu := ho.through s u hs hOuter
      cases hInner : inner.enter u with
      | error v =>
        simp only [hInner] at h
        cases h
        exact ho.back s v hs (hi.answer u v hu hInner)
      | ok v =>
        simp only [hInner] at h
        cases h
  through s u hs h := by
    obtain ⟨t, hOuter, hInner⟩ := Layer.enter_comp_ok_iff.mp h
    exact hi.through t u (ho.through s t hs hOuter) hInner
  back s u hs hu := by
    rw [Layer.comp]
    dsimp only
    cases hOuter : outer.enter s with
    | error t => exact ho.answer s t hs hOuter
    | ok t => exact ho.back s _ hs (hi.back t u (ho.through s t hs hOuter) hu)

theorem keeps_stack {P : σ → Prop} {layers : List (Layer σ)} (h : ∀ l ∈ layers, l.Keeps P) :
    (stack layers).Keeps P := by
  induction layers with
  | nil => exact Layer.keeps_through P
  | cons l layers ih =>
    obtain ⟨hl, hLayers⟩ := List.forall_mem_cons.mp h
    exact hl.comp (ih hLayers)

theorem Layer.Keeps.wrap {P : σ → Prop} {l : Layer σ} (h : l.Keeps P) {core : σ → Option σ}
    (hCore : ∀ s t, P s → core s = some t → P t) : ∀ s t, P s → l.wrap core s = some t → P t := by
  intro s t hs hWrap
  rw [Layer.wrap] at hWrap
  cases hEnter : l.enter s with
  | error u =>
    rw [hEnter] at hWrap
    cases hWrap
    exact h.answer s t hs hEnter
  | ok u =>
    rw [hEnter] at hWrap
    obtain ⟨v, hv, rfl⟩ := Option.map_eq_some_iff.mp hWrap
    exact h.back s v hs (hCore u v (h.through s u hs hEnter) hv)

theorem run_keeps {P : σ → Prop} {layers : List (Layer σ)} (h : ∀ l ∈ layers, l.Keeps P) {core : σ → Option σ}
    (hCore : ∀ s t, P s → core s = some t → P t) : ∀ s t, P s → run layers core s = some t → P t := by
  rw [run_eq_wrap]
  exact (keeps_stack h).wrap hCore

/-! ## Layers that refuse nothing -/

def Layer.Open (l : Layer σ) : Prop := ∀ s, ∃ t, l.enter s = .ok t

theorem leave_stack {P : σ → Prop} {layers : List (Layer σ)} (hOpen : ∀ l ∈ layers, l.Open)
    (h : ∀ l ∈ layers, ∀ s t, P t → P (l.leave s t)) :
    ∀ s t, P t → P ((stack layers).leave s t) := by
  induction layers with
  | nil => exact fun _ _ ht => ht
  | cons l layers ih =>
    rw [List.forall_mem_cons] at hOpen h
    intro s t ht
    obtain ⟨u, hEnter⟩ := hOpen.1 s
    change P ((l.comp (stack layers)).leave s t)
    rw [Layer.comp]
    dsimp only
    rw [hEnter]
    exact h.1 s _ (ih hOpen.2 h.2 u t ht)

end Layers
