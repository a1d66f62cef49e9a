import Mathlib.Algebra.Order.BigOperators.Group.List
import Cweb.Routing.RouteSpec

/-!
# Dispatching through a route table

Routes are added at the end and removed from anywhere. The dispatcher tries
them in order, and writes the methods a path exists under into a buffer of 128
bytes as it passes them; a write past the end of the buffer is `none` here.
-/

namespace Cweb

open Sv Segments

/-! ## The table -/

/-- Patterns are C strings. -/
def routerAdd (routes : List HttpRoute) (method : HttpMethod) (pattern : Bytes)
    (handler : HttpRequest → StrMap → HttpResponse → HttpResponse) : List HttpRoute :=
  routes ++ [⟨method, svFromCstr pattern, handler, 0⟩]

/-- The first route with the method and the pattern is taken out. -/
def routerRemove (routes : List HttpRoute) (method : HttpMethod) (pattern : Bytes) : List HttpRoute × Int :=
  match routes.findIdx? fun route => route.method == method && route.pattern == svFromCstr pattern with
  | none => (routes, -1)
  | some i => (routes.eraseIdx i, 0)

inductive TableCall where
  | add (method : HttpMethod) (pattern : Bytes) (handler : HttpRequest → StrMap → HttpResponse → HttpResponse)
  | remove (method : HttpMethod) (pattern : Bytes)

def tableCall (routes : List HttpRoute) : TableCall → List HttpRoute
  | .add method pattern handler => routerAdd routes method pattern handler
  | .remove method pattern => (routerRemove routes method pattern).1

def routesOf (calls : List TableCall) : List HttpRoute := calls.foldl tableCall []

theorem tableCall_patterns {routes : List HttpRoute} (h : ∀ route ∈ routes, 0 ∉ route.pattern)
    (c : TableCall) :
    ∀ route ∈ tableCall routes c, 0 ∉ route.pattern := by
  intro route hRoute
  cases c with
  | add method pattern handler =>
    rcases List.mem_append.mp hRoute with hOld | hNew
    · exact h route hOld
    · rw [List.mem_singleton.mp hNew]
      exact not_mem_svFromCstr pattern
  | remove method pattern =>
    rw [tableCall, routerRemove] at hRoute
    split at hRoute
    · exact h route hRoute
    · exact h route (List.mem_of_mem_eraseIdx hRoute)

theorem routesOf_patterns (calls : List TableCall) : ∀ route ∈ routesOf calls, 0 ∉ route.pattern := by
  have hRun : ∀ routes : List HttpRoute, (∀ route ∈ routes, 0 ∉ route.pattern) →
      ∀ route ∈ calls.foldl tableCall routes, 0 ∉ route.pattern := by
    induction calls with
    | nil => exact fun _ h => h
    | cons c calls ih => exact fun routes h => ih _ (tableCall_patterns h c)
  exact hRun [] fun _ h => absurd h List.not_mem_nil

/-! ## The buffer for the methods -/

/-- Whether a name is one of the tokens between commas. -/
def allowHas : Nat → Bytes → Bytes → Bool
  | 0, _, _ => false
  | fuel + 1, allow, name =>
    if allow = [] then false
    else
      let token := svChopByDelim 44 (allow.dropWhile (· = 32))
      token.1 == name || allowHas fuel token.2 name

def allowPut (allow name : Bytes) : Option Bytes :=
  if allowHas allow.length allow name then some allow
  else
    let allow := (if allow = [] then [] else allow ++ ascii ", ") ++ name
    if allow.length < 128 then some allow else none

inductive Scanned where
  | matched (route : HttpRoute) (params : StrMap)
  | unmatched (found : Bool) (allow : Bytes)

def scanRoutes (want : HttpMethod) (path : Bytes) : List HttpRoute → StrMap → Bool → Bytes → Option Scanned
  | [], _, found, allow => some (.unmatched found allow)
  | route :: routes, params, found, allow =>
    if route.method = want then
      match routePathMatches route.pattern path params with
      | (true, params) => some (.matched route params)
      | (false, params) => scanRoutes want path routes params found allow
    else if (routePathMatches route.pattern path strmapInit).1 then
      match httpMethodName route.method with
      | none => scanRoutes want path routes params true allow
      | some name => (allowPut allow name).bind fun allow => scanRoutes want path routes params true allow
    else scanRoutes want path routes params found allow

def setAllowText (res : HttpResponse) (allow : Bytes) : HttpResponse :=
  if allow = [] then res else res.apply (.setHeader (ascii "Allow") allow)

def dispatchWithBuffer (routes : List HttpRoute) (req : HttpRequest) (res : HttpResponse) :
    Option HttpResponse :=
  match requestMergeParams req strmapInit with
  | none => some ((plainAnswer res 400).apply (.addBody (ascii "400 malformed request data")))
  | some params =>
    (scanRoutes (wantedMethod req) req.path routes params false []).map fun
      | .matched route params =>
        let res := route.handler req params res
        if req.method = .head then { res with suppressBody := true } else res
      | .unmatched true allow =>
        if req.method = .options then setAllowText (res.apply (.setStatus 200)) allow
        else (setAllowText (plainAnswer res 405) allow).apply (.addBody (ascii "405 method not allowed"))
      | .unmatched false _ => (plainAnswer res 404).apply (.addBody (ascii "404 not found"))

/-! ## The buffer holds the names -/

def methodNames : List Bytes :=
  [ascii "GET", ascii "POST", ascii "PUT", ascii "DELETE", ascii "PATCH", ascii "HEAD", ascii "OPTIONS"]

theorem httpMethodName_mem {method : HttpMethod} {name : Bytes} (h : httpMethodName method = some name) :
    name ∈ methodNames := by
  cases method with
  | unknown => cases h
  | _ =>
    obtain rfl := Option.some.inj h
    decide

theorem methodNames_plain : ∀ name ∈ methodNames, name ≠ [] ∧ name.head? ≠ some 32 ∧ 44 ∉ name := by decide

/-- Different names of methods. -/
structure Names (names : List Bytes) : Prop where
  nodup : names.Nodup
  known : ∀ name ∈ names, name ∈ methodNames

theorem allowText_cons (name : Bytes) {names : List Bytes} (h : names ≠ []) :
    allowText (name :: names) = name ++ 44 :: 32 :: allowText names := by
  obtain ⟨second, rest, rfl⟩ := List.exists_cons_of_ne_nil h
  rfl

theorem allowText_concat {names : List Bytes} (h : names ≠ []) (name : Bytes) :
    allowText (names ++ [name]) = allowText names ++ ascii ", " ++ name := by
  induction names with
  | nil => exact absurd rfl h
  | cons first names ih =>
    rcases eq_or_ne names [] with rfl | hNe
    · simp [allowText, ascii]
    · rw [List.cons_append, allowText_cons first (List.append_ne_nil_of_left_ne_nil hNe _), ih hNe,
        allowText_cons first hNe]
      simp

theorem allowText_eq_nil_iff {names : List Bytes} (h : Names names) : allowText names = [] ↔ names = [] := by
  cases names with
  | nil => exact ⟨fun _ => rfl, fun _ => rfl⟩
  | cons name names =>
    have hSome := (methodNames_plain name (h.known name List.mem_cons_self)).1
    refine ⟨fun hNil => absurd hNil ?_, nofun⟩
    rcases eq_or_ne names [] with rfl | hNe
    · simpa [allowText] using hSome
    · rw [allowText_cons name hNe]
      exact List.append_ne_nil_of_left_ne_nil hSome _

theorem allowText_head {name : Bytes} (names : List Bytes) (hSome : name ≠ []) :
    (allowText (name :: names)).head? = name.head? := by
  obtain ⟨c, cs, rfl⟩ := List.exists_cons_of_ne_nil hSome
  rcases eq_or_ne names [] with rfl | hNe
  · rfl
  · rw [allowText_cons _ hNe]
    rfl

theorem dropWhile_spaces {s : Bytes} (h : s.head? ≠ some 32) {pre : Bytes} (hPre : pre = [] ∨ pre = [32]) :
    (pre ++ s).dropWhile (· = 32) = s := by
  have hStart : s.dropWhile (· = 32) = s := by
    cases s with
    | nil => rfl
    | cons c s =>
      rw [List.dropWhile_cons, if_neg]
      intro hSpace
      exact h (congrArg some (of_decide_eq_true hSpace))
  rcases hPre with rfl | rfl
  · exact hStart
  · exact hStart

theorem allowHas_text (name : Bytes) (names : List Bytes) : ∀ fuel (pre : Bytes), pre = [] ∨
    pre = [32] ∧ names ≠ [] →
    (pre ++ allowText names).length ≤ fuel → (∀ n ∈ names, n ∈ methodNames) →
    (allowHas fuel (pre ++ allowText names) name = true ↔ name ∈ names) := by
  induction names with
  | nil =>
    intro fuel pre hPre _ _
    obtain rfl : pre = [] := hPre.resolve_right fun hBoth => hBoth.2 rfl
    cases fuel with
    | zero => exact ⟨nofun, nofun⟩
    | succ fuel => exact ⟨nofun, nofun⟩
  | cons n names ih =>
    intro fuel pre hPre hFuel hKnown
    obtain ⟨hSome, hSpace, hComma⟩ := methodNames_plain n (hKnown n List.mem_cons_self)
    have hHead : (allowText (n :: names)).head? ≠ some 32 := by rwa [allowText_head names hSome]
    have hText : allowText (n :: names) ≠ [] := by
      intro hNil
      have hStart := allowText_head names hSome
      rw [hNil] at hStart
      exact hSome (List.head?_eq_none_iff.mp hStart.symm)
    have hLength := List.length_pos_iff.mpr hText
    rw [List.length_append] at hFuel
    obtain ⟨fuel, rfl⟩ : ∃ fuel', fuel = fuel' + 1 := ⟨fuel - 1, by omega⟩
    rw [allowHas, if_neg (List.append_ne_nil_of_right_ne_nil _ hText),
      dropWhile_spaces hHead (hPre.imp_right And.left)]
    dsimp only
    rcases eq_or_ne names [] with rfl | hNe
    · have hChop : svChopByDelim 44 (allowText [n]) = (n, []) := by
        have hOne : allowText [n] = n := by simp [allowText]
        rw [hOne]
        rcases svChopByDelim_cases 44 n with ⟨_, hChop⟩ | ⟨piece, rest, hSplit, _, _⟩
        · exact hChop
        · rw [hSplit] at hComma
          exact absurd (List.mem_append_right _ List.mem_cons_self) hComma
      have hEnd : allowHas fuel [] name = false := by cases fuel <;> rfl
      rw [hChop, hEnd, Bool.or_false, beq_iff_eq, List.mem_singleton]
      exact eq_comm
    · rw [allowText_cons n hNe, List.length_append, List.length_cons, List.length_cons] at hFuel
      have hRest :=
        ih fuel [32] (.inr ⟨rfl, hNe⟩) (by simp only [List.length_append, List.length_singleton]; omega)
        fun m hm => hKnown m (List.mem_cons_of_mem _ hm)
      rw [allowText_cons n hNe, svChopByDelim_append 44 _ _ hComma, Bool.or_eq_true, beq_iff_eq,
        List.mem_cons]
      exact or_congr eq_comm hRest

theorem allowText_length (names : List Bytes) :
    (allowText names).length ≤ (names.map fun name => name.length + 2).sum := by
  induction names with
  | nil => exact Nat.le_refl _
  | cons name names ih =>
    rcases eq_or_ne names [] with rfl | hNe
    · simp [allowText]
    · rw [allowText_cons name hNe, List.map_cons, List.sum_cons]
      simp only [List.length_append, List.length_cons]
      omega

theorem Names.room {names : List Bytes} (h : Names names) : (allowText names).length < 128 := by
  have hSub : names.Subperm methodNames := List.subperm_of_subset h.nodup h.known
  obtain ⟨same, hPerm, hSublist⟩ := hSub
  have hSum : (names.map fun name => name.length + 2).sum ≤
    (methodNames.map fun name => name.length + 2).sum := by
    rw [(hPerm.map fun name => name.length + 2).sum_eq.symm]
    exact (hSublist.map fun name => name.length + 2).sum_le_sum fun n _ => Nat.zero_le n
  have hAll : (methodNames.map fun name => name.length + 2).sum < 128 := by decide
  have hText := allowText_length names
  omega

theorem allowPut_eq {names : List Bytes} (h : Names names) {name : Bytes} (hName : name ∈ methodNames) :
    ∃ names', (if name ∈ names then names else names ++ [name]) = names' ∧ Names names' ∧
      allowPut (allowText names) name = some (allowText names') := by
  have hHas := allowHas_text name names _ [] (.inl rfl) (Nat.le_refl _) h.known
  rw [List.nil_append] at hHas
  rcases em (name ∈ names) with hIn | hOut
  · exact ⟨names, if_pos hIn, h, by rw [allowPut, if_pos (hHas.mpr hIn)]⟩
  · have hNew : Names (names ++ [name]) := by
      constructor
      · rw [List.nodup_append]
        refine ⟨h.nodup, List.nodup_singleton name, ?_⟩
        intro a ha b hb
        rw [List.mem_singleton.mp hb]
        rintro rfl
        exact hOut ha
      · intro n hn
        rcases List.mem_append.mp hn with hOld | hLast
        · exact h.known n hOld
        · rw [List.mem_singleton.mp hLast]
          exact hName
    refine ⟨names ++ [name], if_neg hOut, hNew, ?_⟩
    have hText : (if allowText names = [] then [] else allowText names ++ ascii ", ") ++
      name = allowText (names ++ [name]) := by
      rcases eq_or_ne names [] with rfl | hNe
      · simp [allowText]
      · rw [if_neg (mt (allowText_eq_nil_iff h).mp hNe), allowText_concat hNe]
    rw [allowPut, if_neg (mt hHas.mp hOut)]
    dsimp only
    rw [hText, if_pos hNew.room]

/-! ## The loop -/

/-- Whether the path is one of the pattern's. -/
def FitsPath (route : HttpRoute) (path : Bytes) : Prop := Fits (segments 47 route.pattern) (segments 47 path)

def Scanned.of : Routed → Scanned
  | .matched route params => .matched route params
  | .unmatched allow => .unmatched allow.isSome (allowText (allow.getD []))

theorem allowAdd_names {allow : Option (List Bytes)} (h : Names (allow.getD [])) (method : HttpMethod) :
    Names ((allowAdd allow method).getD []) := by
  rw [allowAdd]
  cases hName : httpMethodName method with
  | none => exact h
  | some name =>
    obtain ⟨names', hEq, hNames, _⟩ := allowPut_eq h (httpMethodName_mem hName)
    dsimp only
    rw [hEq]
    exact hNames

theorem scanRoutes_eq (want : HttpMethod) (path : Bytes) (routes : List HttpRoute) : ∀ (params : StrMap)
    (allow : Option (List Bytes)), Names (allow.getD []) →
    scanRoutes want path routes params allow.isSome (allowText (allow.getD [])) =
      some (Scanned.of (routeLoop want path routes params allow)) := by
  induction routes with
  | nil => exact fun _ _ _ => rfl
  | cons route routes ih =>
    intro params allow h
    rw [scanRoutes, routeLoop]
    split
    · cases routePathMatches route.pattern path params with
      | mk fits left =>
        cases fits with
        | true => rfl
        | false => exact ih left allow h
    · split
      · rename_i hMatch
        have hRest := ih params _ (allowAdd_names h route.method)
        rw [← hRest]
        rw [allowAdd]
        cases hName : httpMethodName route.method with
        | none => rfl
        | some name =>
          obtain ⟨names', hEq, _, hPut⟩ := allowPut_eq h (httpMethodName_mem hName)
          dsimp only
          rw [hPut, hEq]
          rfl
      · exact ih params allow h

theorem routeLoop_names (want : HttpMethod) (path : Bytes) (routes : List HttpRoute) : ∀ (params : StrMap)
    (allow : Option (List Bytes)), Names (allow.getD []) →
      ∀ allow', routeLoop want path routes params allow = .unmatched allow' →
      Names (allow'.getD []) := by
  induction routes with
  | nil =>
    intro params allow h allow' hEq
    cases hEq
    exact h
  | cons route routes ih =>
    intro params allow h allow' hEq
    rw [routeLoop] at hEq
    split at hEq
    · split at hEq
      · cases hEq
      · exact ih _ allow h allow' hEq
    · split at hEq
      · exact ih _ _ (allowAdd_names h route.method) allow' hEq
      · exact ih _ allow h allow' hEq

theorem names_nil : Names [] := ⟨List.nodup_nil, fun _ h => absurd h List.not_mem_nil⟩

theorem setAllowText_eq (res : HttpResponse) {names : List Bytes} (h : Names names) :
    setAllowText res (allowText names) = setAllow res names := by
  rw [setAllowText, setAllow]
  simp only [allowText_eq_nil_iff h]

theorem dispatchWithBuffer_eq (routes : List HttpRoute) (req : HttpRequest) (res : HttpResponse) :
    dispatchWithBuffer routes req res = some (routerDispatch routes req res) := by
  rw [dispatchWithBuffer, routerDispatch]
  cases requestMergeParams req strmapInit with
  | none => rfl
  | some params =>
    have hScan := scanRoutes_eq (wantedMethod req) req.path routes params none names_nil
    have hNames := routeLoop_names (wantedMethod req) req.path routes params none names_nil
    have hStart : scanRoutes (wantedMethod req) req.path routes params false [] =
        some (Scanned.of (routeLoop (wantedMethod req) req.path routes params none)) := hScan
    dsimp only
    rw [hStart, Option.map_some]
    cases hLoop : routeLoop (wantedMethod req) req.path routes params none with
    | matched route m => rfl
    | unmatched allow =>
      have hKnown := hNames allow hLoop
      cases allow with
      | none => rfl
      | some names =>
        have hText := fun res => setAllowText_eq res hKnown
        simp only [Option.getD_some] at hText
        simp only [Scanned.of, Option.isSome_some, Option.getD_some, hText]

end Cweb
