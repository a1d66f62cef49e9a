import Cweb.Http.Static

/-!
# Static files and their root

The path is decoded and normalised as a counted text and then handed on as a C
string. It is the root with the resolved segments behind it unless one of them
holds a zero, which cuts it short.
-/

namespace Cweb.Static

open Sv Segments

/-- The segments a request path resolves to once it is decoded. -/
def resolved (path : Bytes) : Option (List Bytes) :=
  (urlDecode path).bind fun decoded => resolve (decoded.splitOn 47)

/-- A directory stands for its index. -/
def components (path : Bytes) (stack : List Bytes) : List Bytes :=
  stack ++ if path.getLast? = some 47 ∨ stack = [] then [ascii "index.html"] else []

/-- The whole of the resolved path below the root, in components none of which
leads elsewhere. -/
def UnderRoot (root path cstr : Bytes) : Prop :=
  ∃ stack, resolved path = some stack ∧ (∀ seg ∈ components path stack, Plain seg) ∧
    cstr = withSlash (svFromCstr root) ++ text 47 (components path stack)

theorem normalizedPath_cases (path : Bytes) : (normalizedPath path = none ∧ resolved path = none) ∨
    ∃ absolute stack, normalizedPath path = some (pathOf absolute stack) ∧ resolved path = some stack ∧
      ∀ seg ∈ stack, Plain seg := by
  rw [normalizedPath, resolved]
  cases urlDecode path with
  | none => exact .inl ⟨rfl, rfl⟩
  | some decoded =>
    rw [Option.bind_some, Option.bind_some]
    rcases uriPathNormalize_cases decoded [] with ⟨hEq, hNone⟩ | ⟨stack, hEq, hSome, hPlain⟩
    · rw [hEq]
      exact .inl ⟨rfl, hNone⟩
    · rw [hEq]
      exact .inr ⟨_, stack, rfl, hSome, hPlain⟩

theorem withSlash_of_slash {path : Bytes} (hSome : path ≠ []) (hSlash : path.getLast? = some 47) :
    withSlash path = path := by
  rw [withSlash, if_neg (not_or.mpr ⟨hSome, not_not.mpr hSlash⟩)]

theorem withSlash_spec (path : Bytes) : withSlash path ≠ [] ∧ (withSlash path).getLast? = some 47 := by
  rw [withSlash]
  split
  · exact ⟨List.append_ne_nil_of_right_ne_nil _ (List.cons_ne_nil _ _), List.getLast?_concat⟩
  · rename_i hSlash
    obtain ⟨hSome, hLast⟩ := not_or.mp hSlash
    exact ⟨hSome, not_not.mp hLast⟩

theorem drop_pathOf (absolute : Bool) {stack : List Bytes} (h : ∀ seg ∈ stack, Plain seg) :
    (if (pathOf absolute stack).head? = some 47 then (pathOf absolute stack).drop 1
      else pathOf absolute stack) =
      text 47 stack := by
  rw [pathOf]
  split
  · rename_i hNil
    rw [hNil]
    rfl
  · split
    · exact if_pos rfl
    · exact if_neg (text_head_ne fun seg hSeg => (h seg hSeg).proper)

theorem splicedPath_pathOf (root : Bytes) (absolute dirRequest : Bool) {stack : List Bytes}
    (h : ∀ seg ∈ stack, Plain seg) :
    splicedPath root (pathOf absolute stack) dirRequest = withSlash root ++
      text 47 (stack ++ if dirRequest = true ∨ stack = [] then [ascii "index.html"] else []) := by
  obtain ⟨hRoot, hRootSlash⟩ := withSlash_spec root
  rw [splicedPath, drop_pathOf absolute h]
  rcases eq_or_ne stack [] with rfl | hNe
  · rw [text_nil, List.append_nil, if_pos (.inr (.inr hRootSlash)), if_pos (.inr rfl),
      withSlash_of_slash hRoot hRootSlash]
    rfl
  · have hProper : ∀ seg ∈ stack, Proper 47 seg := fun seg hSeg => (h seg hSeg).proper
    have hText : text 47 stack ≠ [] := mt (text_eq_nil_iff hProper).mp hNe
    have hWhole : withSlash root ++ text 47 stack ≠ [] := List.append_ne_nil_of_left_ne_nil hRoot _
    have hLast : (withSlash root ++ text 47 stack).getLast? ≠ some 47 := by
      rw [List.getLast?_append_of_ne_nil _ hText]
      exact text_getLast_ne hProper
    cases dirRequest with
    | false =>
      rw [if_neg, if_neg (not_or.mpr ⟨Bool.false_ne_true, hNe⟩), List.append_nil]
      exact not_or.mpr ⟨Bool.false_ne_true, not_or.mpr ⟨hWhole, hLast⟩⟩
    | true =>
      rw [if_pos (.inl rfl), if_pos (.inl rfl), withSlash, if_pos (.inr hLast), text_concat hNe]
      simp only [List.append_assoc, List.cons_append, List.nil_append]

theorem plain_index : Plain (ascii "index.html") := by
  refine ⟨⟨?_, ?_⟩, ?_, ?_⟩ <;> decide

theorem plain_components (path : Bytes) {stack : List Bytes} (h : ∀ seg ∈ stack, Plain seg) :
    ∀ seg ∈ components path stack, Plain seg := by
  intro seg hSeg
  rcases List.mem_append.mp hSeg with hStack | hIndex
  · exact h seg hStack
  · split at hIndex
    · rw [List.mem_singleton.mp hIndex]
      exact plain_index
    · cases hIndex

/-! ## The calls -/

theorem readParts_calls (site : Site) (path boundary mime : Bytes) (fsize : Nat)
    (ranges : List ByteRange) : ∀ body,
    ∀ call ∈ (readParts site path boundary mime fsize ranges body).2, call.path = path := by
  induction ranges with
  | nil => exact fun _ _ h => absurd h List.not_mem_nil
  | cons r ranges ih =>
    intro body call hCall
    rw [readParts] at hCall
    split at hCall
    · rw [List.mem_singleton.mp hCall]
      rfl
    · rcases List.mem_cons.mp hCall with rfl | hRest
      · rfl
      · exact ih _ call hRest

theorem serveRanges_calls (site : Site) (res : HttpResponse) (path mime : Bytes) (mtime : Int) (fsize : Nat)
    (ranges : List ByteRange) : ∀ call ∈ (serveRanges site res path mime mtime fsize ranges).2,
      call.path = path := by
  intro call hCall
  rw [serveRanges.eq_def] at hCall
  split at hCall
  · split at hCall
    · rw [List.mem_singleton.mp hCall]
      rfl
    · rw [List.mem_singleton.mp hCall]
      rfl
  · split at hCall
    · rw [List.mem_singleton.mp hCall]
      rfl
    · rw [List.mem_singleton.mp hCall]
      rfl
  · have hParts := readParts_calls site path (rangesBoundary mtime fsize) mime fsize ranges []
    dsimp only at hCall
    split at hCall
    · rename_i hRead
      rw [hRead] at hParts
      exact hParts call hCall
    · rename_i hRead
      rw [hRead] at hParts
      exact hParts call hCall

/-- Every call is given one and the same string, and the first call is made as
soon as the path is accepted. -/
theorem httpServeStatic_calls (site : Site) (req : HttpRequest) (res : HttpResponse) (root : Bytes) :
    (httpServeStatic site req res root).2 = [] ∧ normalizedPath req.path = none ∨
      ∃ norm, normalizedPath req.path = some norm ∧ (httpServeStatic site req res root).2 ≠ [] ∧
        ∀ call ∈ (httpServeStatic site req res root).2,
          call.path = svFromCstr (splicedPath (svFromCstr root) norm (req.path.getLast? = some 47)) := by
  rw [httpServeStatic]
  cases hNorm : normalizedPath req.path with
  | none => exact .inl ⟨rfl, rfl⟩
  | some norm =>
    refine .inr ⟨norm, rfl, ?_⟩
    dsimp only
    split
    · refine ⟨List.cons_ne_nil _ _, ?_⟩
      intro call hCall
      rw [List.mem_singleton.mp hCall]
      rfl
    · split
      · refine ⟨List.cons_ne_nil _ _, ?_⟩
        intro call hCall
        rw [List.mem_singleton.mp hCall]
        rfl
      · split
        · refine ⟨List.cons_ne_nil _ _, ?_⟩
          intro call hCall
          rw [List.mem_singleton.mp hCall]
          rfl
        · refine ⟨List.cons_ne_nil _ _, ?_⟩
          intro call hCall
          rcases List.mem_cons.mp hCall with rfl | hRest
          · rfl
          · exact serveRanges_calls _ _ _ _ _ _ _ call hRest

/-- The string that is handed on is the whole path when no segment of it holds a
zero. -/
theorem zero_mem_withSlash_iff (path : Bytes) : 0 ∈ withSlash path ↔ 0 ∈ path := by
  rw [withSlash]
  split
  · rw [List.mem_append, List.mem_singleton]
    exact or_iff_left (by decide)
  · exact Iff.rfl

theorem zero_mem_components_iff (path : Bytes) (stack : List Bytes) :
    (∃ seg ∈ components path stack, 0 ∈ seg) ↔ ∃ seg ∈ stack, 0 ∈ seg := by
  constructor
  · rintro ⟨seg, hSeg, hZero⟩
    rcases List.mem_append.mp hSeg with hStack | hIndex
    · exact ⟨seg, hStack, hZero⟩
    · split at hIndex
      · rw [List.mem_singleton.mp hIndex] at hZero
        exact absurd hZero (by decide)
      · cases hIndex
  · rintro ⟨seg, hStack, hZero⟩
    exact ⟨seg, List.mem_append_left _ hStack, hZero⟩

/-- The text of the whole path below the root. -/
def wholePath (root path : Bytes) (stack : List Bytes) : Bytes :=
  withSlash (svFromCstr root) ++ text 47 (components path stack)

theorem zero_mem_wholePath_iff (root path : Bytes) (stack : List Bytes) :
    0 ∈ wholePath root path stack ↔ ∃ seg ∈ stack, 0 ∈ seg := by
  have hRoot : 0 ∉ withSlash (svFromCstr root) := mt (zero_mem_withSlash_iff _).mp (not_mem_svFromCstr root)
  have hSlash : (0 : UInt8) ≠ 47 := by decide
  rw [wholePath, List.mem_append, mem_text_iff hSlash, zero_mem_components_iff]
  exact or_iff_right hRoot

theorem calls_of_resolved (site : Site) (req : HttpRequest) (res : HttpResponse) (root : Bytes)
    {stack : List Bytes}
    (hStack : resolved req.path = some stack) : (∀ seg ∈ stack, Plain seg) ∧
      (httpServeStatic site req res root).2 ≠ [] ∧
      ∀ call ∈ (httpServeStatic site req res root).2,
        call.path = svFromCstr (wholePath root req.path stack) := by
  rcases normalizedPath_cases req.path with ⟨_, hNone⟩ | ⟨absolute, stack', hNorm, hSome, hPlain⟩
  · rw [hStack] at hNone
    cases hNone
  · obtain rfl : stack = stack' := Option.some.inj (hStack.symm.trans hSome)
    rcases httpServeStatic_calls site req res root with ⟨_, hNone⟩ | ⟨norm, hIs, hCalls, hPaths⟩
    · rw [hNorm] at hNone
      cases hNone
    · obtain rfl : norm = pathOf absolute stack := Option.some.inj (hIs.symm.trans hNorm)
      rw [splicedPath_pathOf _ absolute _ hPlain] at hPaths
      simp only [decide_eq_true_eq] at hPaths
      exact ⟨hPlain, hCalls, hPaths⟩

theorem calls_of_refused (site : Site) (req : HttpRequest) (res : HttpResponse) (root : Bytes)
    (hNone : resolved req.path = none) : (httpServeStatic site req res root).2 = [] := by
  rcases normalizedPath_cases req.path with ⟨hNorm, _⟩ | ⟨_, stack, _, hSome, _⟩
  · rcases httpServeStatic_calls site req res root with ⟨hCalls, _⟩ | ⟨norm, hIs, _⟩
    · exact hCalls
    · rw [hNorm] at hIs
      cases hIs
  · rw [hNone] at hSome
    cases hSome

/-- The file system is asked for the resolved path under the root, exactly when no
zero is left in it. -/
theorem static_under_root_iff (site : Site) (req : HttpRequest) (res : HttpResponse) (root : Bytes) :
    (∀ call ∈ (httpServeStatic site req res root).2, UnderRoot root req.path call.path) ↔
      ∀ stack, resolved req.path = some stack → ∀ seg ∈ stack, 0 ∉ seg := by
  constructor
  · intro hUnder stack hStack seg hSeg hZero
    obtain ⟨_, hCalls, hPaths⟩ := calls_of_resolved site req res root hStack
    obtain ⟨call, hCall⟩ := List.exists_mem_of_ne_nil _ hCalls
    obtain ⟨stack', hSome, _, hWhole⟩ := hUnder call hCall
    obtain rfl : stack = stack' := Option.some.inj (hStack.symm.trans hSome)
    have hUncut : svFromCstr (wholePath root req.path stack) = wholePath root req.path stack :=
      (hPaths call hCall).symm.trans hWhole
    exact (svFromCstr_eq_self_iff _).mp hUncut
      ((zero_mem_wholePath_iff root req.path stack).mpr ⟨seg, hSeg, hZero⟩)
  · intro hFree call hCall
    cases hStack : resolved req.path with
    | none =>
      rw [calls_of_refused site req res root hStack] at hCall
      cases hCall
    | some stack =>
      obtain ⟨hPlain, _, hPaths⟩ := calls_of_resolved site req res root hStack
      have hUncut : 0 ∉ wholePath root req.path stack := by
        rw [zero_mem_wholePath_iff]
        rintro ⟨seg, hSeg, hZero⟩
        exact hFree stack hStack seg hSeg hZero
      refine ⟨stack, hStack, plain_components req.path hPlain, ?_⟩
      rw [hPaths call hCall, svFromCstr_of_not_mem hUncut]
      rfl

def emptySite : Site := ⟨fun _ => none, fun _ => none, fun _ _ _ => none, fun _ => [], fun _ => -1, 0⟩

def getRequest (path : Bytes) : HttpRequest :=
  { emptyRequest with method := .get, target := path, path := path }

/-- A zero behind the name of a file is not seen by the file system. -/
theorem static_cut_short :
    (httpServeStatic emptySite (getRequest (ascii "/notes.txt%00.png")) httpResponseInit (ascii "www")).2 =
      [.stat (ascii "www/notes.txt")] ∧
    ¬ ∀ call ∈
      (httpServeStatic emptySite (getRequest (ascii "/notes.txt%00.png")) httpResponseInit (ascii "www")).2,
      UnderRoot (ascii "www") (ascii "/notes.txt%00.png") call.path := by
  have hCalls :
    (httpServeStatic emptySite (getRequest (ascii "/notes.txt%00.png")) httpResponseInit (ascii "www")).2 =
      [.stat (ascii "www/notes.txt")] := by decide
  have hStack : resolved (ascii "/notes.txt%00.png") =
    some [ascii "notes.txt" ++ 0 :: ascii ".png"] := by decide
  refine ⟨hCalls, ?_⟩
  rw [hCalls]
  intro hUnder
  obtain ⟨stack, hSome, _, hWhole⟩ := hUnder _ (List.mem_singleton.mpr rfl)
  rw [hStack] at hSome
  cases hSome
  revert hWhole
  decide

end Cweb.Static
