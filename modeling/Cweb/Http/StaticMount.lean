import Cweb.Http.StaticRoot
import Cweb.Routing.DispatchSpec

/-!
# Mounts of static files

A mount takes every path under its prefix. The router compares segments, and the
handler of the mount cuts as many bytes off the path as the prefix has.
-/

namespace Cweb.Static

open Sv Segments

def mountPattern (urlPrefix : Bytes) : Option Bytes :=
  let pattern := svFromCstr urlPrefix ++ ascii "/*"
  if pattern.length < 1024 then some pattern else none

/-- The part of the path that is meant for the root. -/
def mountSubPath (urlPrefix path : Bytes) : Bytes :=
  let sub := path.drop (svFromCstr urlPrefix).length
  if sub = [] then ascii "/" else sub

def httpStaticMountHandler (site : Site) (urlPrefix fsRoot : Bytes) (req : HttpRequest) (_ : StrMap)
    (res : HttpResponse) :
    HttpResponse :=
  (httpServeStatic site { req with path := mountSubPath urlPrefix req.path } res fsRoot).1

def httpStaticMount (site : Site) (routes : List HttpRoute) (urlPrefix fsRoot : Bytes) :
    List HttpRoute × Int :=
  match mountPattern urlPrefix with
  | none => (routes, -1)
  | some pattern =>
    (routerAdd routes .get pattern
      (httpStaticMountHandler site (svFromCstr urlPrefix) (svFromCstr fsRoot)), 0)

def mountRoute (site : Site) (urlPrefix fsRoot : Bytes) : HttpRoute :=
  ⟨.get, svFromCstr urlPrefix ++ ascii "/*", httpStaticMountHandler site (svFromCstr urlPrefix)
    (svFromCstr fsRoot), 0⟩

theorem httpStaticMount_eq (site : Site) (routes : List HttpRoute) (urlPrefix fsRoot : Bytes) :
    httpStaticMount site routes urlPrefix fsRoot =
      if (svFromCstr urlPrefix).length < 1022 then (routes ++ [mountRoute site urlPrefix fsRoot], 0)
        else (routes, -1) := by
  have hLength : (svFromCstr urlPrefix ++ ascii "/*").length = (svFromCstr urlPrefix).length + 2 :=
    List.length_append
  have hNul : 0 ∉ svFromCstr urlPrefix ++ ascii "/*" :=
    fun hMem => (List.mem_append.mp hMem).elim (not_mem_svFromCstr urlPrefix) (by decide)
  rw [httpStaticMount, mountPattern, hLength]
  split
  · rename_i hNone
    split at hNone
    · cases hNone
    · rw [if_neg (by omega)]
  · rename_i pattern hSome
    split at hSome
    · obtain rfl := Option.some.inj hSome
      rw [if_pos (by omega), routerAdd, svFromCstr_of_not_mem hNul]
      rfl
    · cases hSome

theorem segments_mountRoute (site : Site) (urlPrefix fsRoot : Bytes) :
    segments 47 (mountRoute site urlPrefix fsRoot).pattern = segments 47 (svFromCstr urlPrefix) ++ [[42]] :=
  segments_append (svFromCstr urlPrefix) [42]

theorem length_le_of_fits_star {ps : List Bytes} : ∀ {qs : List Bytes}, Fits (ps ++ [[42]]) qs →
    ps.length ≤ qs.length := by
  induction ps with
  | nil => exact fun _ => Nat.zero_le _
  | cons seg ps ih =>
    intro qs h
    rw [List.cons_append] at h
    generalize hRest : ps ++ [[42]] = rest at h
    cases h with
    | star => exact absurd hRest (List.append_ne_nil_of_right_ne_nil _ (List.cons_ne_nil _ _))
    | capture _ _ hFits => exact Nat.succ_le_succ (ih (hRest ▸ hFits))
    | literal _ _ hFits => exact Nat.succ_le_succ (ih (hRest ▸ hFits))

theorem segments_mountSubPath (urlPrefix path : Bytes) :
    segments 47 (mountSubPath urlPrefix path) = segments 47 (path.drop (svFromCstr urlPrefix).length) := by
  rw [mountSubPath]
  split
  · rename_i hNil
    rw [hNil]
    rfl
  · rfl

/-- In front of the cut there are as many segments as the prefix has, and the last one
of them is whole. -/
def CutBehind (urlPrefix path : Bytes) : Prop :=
  (segments 47 (path.take urlPrefix.length)).length = (segments 47 urlPrefix).length ∧
    ¬ Inside 47 (path.take urlPrefix.length) (path.drop urlPrefix.length)

theorem cutBehind_append {urlPrefix rest : Bytes} (h : ¬ Inside 47 urlPrefix rest) :
    CutBehind urlPrefix (urlPrefix ++ rest) := by
  rw [CutBehind, List.take_left, List.drop_left]
  exact ⟨rfl, h⟩

/-- The mount serves the segments behind those of its prefix exactly when the cut is
between the two. -/
theorem static_mount_iff (site : Site) (routes : List HttpRoute) (urlPrefix fsRoot : Bytes)
    (route : HttpRoute)
    (hMount : httpStaticMount site routes urlPrefix fsRoot = (routes ++ [route], 0)) (req : HttpRequest)
    (hFits : FitsPath route req.path) :
    (∀ params res, route.handler req params res =
      (httpServeStatic site { req with path := mountSubPath (svFromCstr urlPrefix) req.path } res
        (svFromCstr fsRoot)).1) ∧
    (segments 47 (mountSubPath (svFromCstr urlPrefix) req.path) =
        (segments 47 req.path).drop (segments 47 (svFromCstr urlPrefix)).length ↔
      CutBehind (svFromCstr urlPrefix) req.path) := by
  have hRoute : route = mountRoute site urlPrefix fsRoot := by
    rw [httpStaticMount_eq] at hMount
    split at hMount
    · have hLast := List.append_cancel_left (Prod.mk.inj hMount).1
      exact (List.cons.inj hLast).1.symm
    · cases (Prod.mk.inj hMount).2
  subst hRoute
  rw [FitsPath, segments_mountRoute] at hFits
  refine ⟨fun _ _ => rfl, ?_⟩
  rw [segments_mountSubPath, svFromCstr_of_not_mem (not_mem_svFromCstr urlPrefix)]
  exact segments_drop_iff req.path _ (length_le_of_fits_star hFits)

theorem static_mount_files :
    segments 47 (mountSubPath (ascii "/files") (ascii "/files//a/b.txt")) = [ascii "a", ascii "b.txt"] := by
  have hOutside : ¬ Inside 47 (ascii "/files") (ascii "//a/b.txt") := by
    rintro ⟨_, y, hHead, hNe⟩
    cases hHead
    exact hNe rfl
  have hMount : httpStaticMount emptySite [] (ascii "/files") (ascii "www") =
      ([] ++ [mountRoute emptySite (ascii "/files") (ascii "www")], 0) := httpStaticMount_eq _ _ _ _
  have hServed :=
    static_mount_iff emptySite [] (ascii "/files") (ascii "www") _ hMount
      (getRequest (ascii "/files//a/b.txt"))
    (by decide)
  exact hServed.2.mpr (cutBehind_append hOutside)

/-- With one more slash in front the cut is inside the segment of the prefix. -/
theorem static_mount_slashes :
    httpStaticMount emptySite [] (ascii "/files") (ascii "www") =
      ([mountRoute emptySite (ascii "/files") (ascii "www")], 0) ∧
    FitsPath (mountRoute emptySite (ascii "/files") (ascii "www")) (ascii "//files/a.txt") ∧
    mountSubPath (ascii "/files") (ascii "//files/a.txt") = ascii "s/a.txt" ∧
    segments 47 (ascii "s/a.txt") ≠ (segments 47 (ascii "//files/a.txt")).drop
      (segments 47 (ascii "/files")).length :=
  ⟨httpStaticMount_eq _ _ _ _, by decide, by decide, by decide⟩

end Cweb.Static
