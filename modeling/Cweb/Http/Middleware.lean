import Cweb.Http.AccessLog
import Cweb.Lib.Layers

/-!
# Middleware

A chain is an array of callbacks. Building it gives an array of nodes, one for each
callback, and every node but the last continues at the next one through the same
trampoline. A callback is a function of what it continues with, its data applied.
-/

namespace Cweb.Middleware

open Sv AccessLog Layers

/-- `none` is a handler that does not come back. -/
abbrev HttpHandlerFn (σ : Type) := σ → Option σ

abbrev HttpMiddlewareFn (σ : Type) := HttpHandlerFn σ → HttpHandlerFn σ

structure HttpMiddlewareChain (σ : Type) where
  items : List (HttpMiddlewareFn σ)
  capacity : Nat

variable {σ : Type}

def httpMiddlewareInit : HttpMiddlewareChain σ := ⟨[], 0⟩

def httpMiddlewareAdd (c : HttpMiddlewareChain σ) (fn : HttpMiddlewareFn σ) : HttpMiddlewareChain σ :=
  let capacity := if c.items.length = c.capacity then (if c.capacity ≠ 0 then c.capacity * 2 else 4)
    else c.capacity
  ⟨c.items ++ [fn], capacity⟩

/-- Where a node continues: in the trampoline with the node of that index, or in
the final handler. -/
inductive Next where
  | trampoline (node : Nat)
  | finalHandler
deriving DecidableEq, Repr

structure Node (σ : Type) where
  fn : Option (HttpMiddlewareFn σ)
  next : Next

/-- The trampoline called with a node, `calls` deep at most. A node outside of the
array is not read. -/
def trampoline (nodes : List (Node σ)) (final : HttpHandlerFn σ) : Nat → Nat → HttpHandlerFn σ
  | 0, _, _ => none
  | calls + 1, i, s =>
    match nodes[i]? with
    | none => none
    | some n =>
      let next :=
        match n.next with
        | .trampoline j => trampoline nodes final calls j
        | .finalHandler => final
      match n.fn with
      | none => next s
      | some fn => fn next s

def httpMiddlewareBuild (c : HttpMiddlewareChain σ) : List (Node σ) :=
  if c.items.length = 0 then [⟨none, .finalHandler⟩]
  else
    c.items.mapIdx fun i fn => ⟨some fn, if i + 1 < c.items.length then .trampoline (i + 1)
      else .finalHandler⟩

/-! ## The nodes are the callbacks, nested -/

def nested (fns : List (HttpMiddlewareFn σ)) (final : HttpHandlerFn σ) : HttpHandlerFn σ :=
  fns.foldr (fun fn next => fn next) final

theorem trampoline_node {c : HttpMiddlewareChain σ} (final : HttpHandlerFn σ) (calls : Nat) :
    ∀ i, i < c.items.length →
    c.items.length ≤ i + calls →
      trampoline (httpMiddlewareBuild c) final calls i = nested (c.items.drop i) final := by
  induction calls with
  | zero =>
    intro i hLt hCalls
    omega
  | succ calls ih =>
    intro i hLt hCalls
    have hNode : (httpMiddlewareBuild c)[i]? =
        some ⟨some c.items[i], if i + 1 < c.items.length then .trampoline (i + 1) else .finalHandler⟩ := by
      rw [httpMiddlewareBuild, if_neg (by omega), List.getElem?_mapIdx, List.getElem?_eq_getElem hLt]
      rfl
    funext s
    rw [trampoline, hNode, List.drop_eq_getElem_cons hLt, nested, List.foldr_cons, ← nested]
    dsimp only
    by_cases hMore : i + 1 < c.items.length
    · rw [if_pos hMore, ← ih (i + 1) hMore (by omega)]
    · rw [if_neg hMore, List.drop_eq_nil_of_le (Nat.le_of_not_lt hMore)]
      rfl

/-- Calling the trampoline with the first node is calling the callbacks, each with
the rest of them. -/
theorem trampoline_build (c : HttpMiddlewareChain σ) (final : HttpHandlerFn σ) {calls : Nat}
    (h : c.items.length < calls) :
    trampoline (httpMiddlewareBuild c) final calls 0 = nested c.items final := by
  rcases Nat.eq_zero_or_pos c.items.length with hNone | hSome
  · obtain ⟨calls, rfl⟩ := Nat.exists_eq_succ_of_ne_zero (by omega : calls ≠ 0)
    funext s
    rw [List.length_eq_zero_iff.mp hNone, trampoline, httpMiddlewareBuild, if_pos hNone]
    rfl
  · rw [trampoline_node final calls 0 hSome (by omega), List.drop_zero]

def addAll (fns : List (HttpMiddlewareFn σ)) : HttpMiddlewareChain σ :=
  fns.foldl httpMiddlewareAdd httpMiddlewareInit

theorem items_foldl_add (fns : List (HttpMiddlewareFn σ)) : ∀ c : HttpMiddlewareChain σ,
    (fns.foldl httpMiddlewareAdd c).items = c.items ++ fns := by
  induction fns with
  | nil => exact fun c => (List.append_nil c.items).symm
  | cons fn fns ih =>
    intro c
    rw [List.foldl_cons, ih, httpMiddlewareAdd, List.append_assoc]
    rfl

theorem items_addAll (fns : List (HttpMiddlewareFn σ)) : (addAll fns).items = fns :=
  items_foldl_add fns httpMiddlewareInit

theorem nested_wrap (layers : List (Layer σ)) (final : HttpHandlerFn σ) :
    nested (layers.map Layer.wrap) final = run layers final := by
  rw [nested, List.foldr_map]
  rfl

/-! ## What a request carries through a chain -/

/-- A request with whom it was found to come from. -/
structure Identified extends Tagged where
  authUser : Bytes
  authRoles : Bytes

/-- A request, its response and the state behind the middleware. -/
structure Exchange (ω : Type) where
  req : Identified
  res : HttpResponse
  world : ω

namespace Exchange

variable {ω : Type}

def respond (x : Exchange ω) (res : HttpResponse) : Exchange ω := { x with res := res }

@[simp]
theorem req_respond (x : Exchange ω) (res : HttpResponse) : (x.respond res).req = x.req := rfl

@[simp]
theorem res_respond (x : Exchange ω) (res : HttpResponse) : (x.respond res).res = res := rfl

@[simp]
theorem world_respond (x : Exchange ω) (res : HttpResponse) : (x.respond res).world = x.world := rfl

end Exchange

/-- The state that a callback is given, as a part of all there is. -/
structure Part (ω κ : Type) where
  get : ω → κ
  put : κ → ω → ω
  get_put : ∀ k w, get (put k w) = k

def Part.whole (κ : Type) : Part κ κ := ⟨id, fun k _ => k, fun _ _ => rfl⟩

end Cweb.Middleware
