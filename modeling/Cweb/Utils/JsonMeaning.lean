import Cweb.Utils.JsonAccept

/-!
# What is built

Strings and keys are decoded as the RFC has it and then read back as C strings.
Where no zero character is lost that way, the tree is the meaning of the text:
one member for each key, with the value that comes last.
-/

namespace Cweb.Json

open Sv JsonText Lookup

/-! ## Setting members -/

theorem setMember_filter_self (key : Bytes) (v : JsonValue ν) (members : List (Bytes × JsonValue ν)) :
    (setMember key v members).filter (·.1 ≠ key) = members.filter (·.1 ≠ key) := by
  induction members with
  | nil => simp [setMember]
  | cons e members ih =>
    rw [setMember]
    split
    · rename_i hSame
      rw [List.filter_cons_of_neg (by simpa using hSame), List.filter_cons_of_neg (by simpa using hSame)]
    · rename_i hOther
      rw [List.filter_cons_of_pos (by simpa using hOther),
        List.filter_cons_of_pos (by simpa using hOther), ih]

theorem setMember_filter_ne {key other : Bytes} (h : key ≠ other) (v : JsonValue ν)
    (members : List (Bytes × JsonValue ν)) :
    (setMember key v members).filter (·.1 ≠ other) = setMember key v (members.filter (·.1 ≠ other)) := by
  induction members with
  | nil => simp [setMember, h]
  | cons e members ih =>
    rw [setMember]
    split
    · rename_i hSame
      rw [List.filter_cons_of_pos (by simpa [hSame] using h),
        List.filter_cons_of_pos (by simpa [hSame] using h), setMember,
        if_pos hSame]
    · rename_i hKey
      rcases eq_or_ne e.1 other with hDrop | hKeep
      · rw [List.filter_cons_of_neg (by simpa using hDrop),
          List.filter_cons_of_neg (by simpa using hDrop), ih]
      · rw [List.filter_cons_of_pos (by simpa using hKeep),
          List.filter_cons_of_pos (by simpa using hKeep), ih, setMember,
          if_neg hKey]

theorem lastMembers_concat (key : Bytes) (v : JsonValue ν) (members : List (Bytes × JsonValue ν)) :
    lastMembers (members ++ [(key, v)]) = setMember key v (lastMembers members) := by
  induction members with
  | nil => rfl
  | cons e members ih =>
    rw [List.cons_append, lastMembers, ih, lastMembers, setMember, lastOf_append]
    split
    · rename_i hSame
      rw [hSame, setMember_filter_self, lastOf, if_pos rfl]
      rfl
    · rename_i hOther
      rw [setMember_filter_ne (Ne.symm hOther), lastOf, if_neg (Ne.symm hOther)]
      rfl

theorem foldl_jsonObjectSet (members : List (Bytes × JsonValue ν)) :
    members.foldl (fun done e => jsonObjectSet done e.1 e.2) [] = lastMembers
      (members.map fun e => (svFromCstr e.1, e.2)) := by
  induction members using List.reverseRecOn with
  | nil => rfl
  | append_singleton members e ih =>
    rw [List.foldl_append, ih, List.map_append]
    exact (lastMembers_concat (svFromCstr e.1) e.2 _).symm

theorem build_owned_object (strtod : Bytes → ν) (members : List (Bytes × JsonValue Bytes)) :
    (owned strtod).build (.object members) =
      .object (lastMembers (members.map fun e => (svFromCstr e.1, (owned strtod).build e.2))) := by
  rw [Builder.build, Value.rebuild_object]
  refine congrArg Value.object ((foldl_jsonObjectSet _).trans ?_)
  rw [List.map_map]
  rfl

/-! ## Zero characters -/

/-- No string and no key holds a zero character. -/
def NulFree (v : JsonValue ν) : Prop := v.Every (fun _ => True) (fun s => 0 ∉ s) (fun _ => True)

theorem build_owned_every (strtod : Bytes → ν) (tree : JsonValue Bytes) :
    ((owned strtod).build tree).Every (fun _ => True) (fun s => 0 ∉ s) List.Nodup := by
  induction tree using Value.ind with
  | null => exact .null
  | bool b => exact .bool b
  | number n => exact .number trivial
  | string s => exact .string (not_mem_svFromCstr s)
  | array items ih =>
    rw [Builder.build, Value.rebuild_array]
    refine .array fun v hv => ?_
    obtain ⟨item, hItem, rfl⟩ := List.mem_map.mp hv
    exact ih item hItem
  | object members ih =>
    rw [build_owned_object]
    have hFrom : ∀ e ∈ lastMembers (members.map fun e => (svFromCstr e.1, (owned strtod).build e.2)),
        ∃ m ∈ members, e = (svFromCstr m.1, (owned strtod).build m.2) := by
      intro e he
      obtain ⟨m, hm, rfl⟩ := List.mem_map.mp (mem_of_mem_lastMembers he)
      exact ⟨m, hm, rfl⟩
    refine .object ?_ (nodup_lastMembers _) ?_
    · intro e he
      obtain ⟨m, _, rfl⟩ := hFrom e he
      exact not_mem_svFromCstr m.1
    · intro e he
      obtain ⟨m, hm, rfl⟩ := hFrom e he
      exact ih m hm

theorem meaning_object (strtod : Bytes → ν) (members : List (Bytes × JsonValue Bytes)) :
    (Value.object members).meaning strtod = .object
      ((lastMembers members).map fun e => (e.1, e.2.meaning strtod)) := by
  rw [Value.meaning, Value.rebuild_object, lastMembers_map]
  rfl

theorem build_owned_eq (strtod : Bytes → ν) (tree : JsonValue Bytes) :
    NulFree (tree.meaning strtod) → (owned strtod).build tree = tree.meaning strtod := by
  induction tree using Value.ind with
  | null => exact fun _ => rfl
  | bool b => exact fun _ => rfl
  | number n => exact fun _ => rfl
  | string s =>
    intro h
    cases h with
    | string hNul => exact congrArg Value.string (svFromCstr_of_not_mem hNul)
  | array items ih =>
    intro h
    rw [Value.meaning, Value.rebuild_array] at h ⊢
    rw [Builder.build, Value.rebuild_array]
    cases h with
    | array hItems =>
      exact congrArg Value.array (List.map_congr_left fun v hv => ih v hv (hItems _ (List.mem_map_of_mem hv)))
  | object members ih =>
    intro h
    rw [meaning_object] at h ⊢
    rw [build_owned_object]
    cases h with
    | object hKeys _ hMembers =>
      have hKey : ∀ e ∈ members, 0 ∉ e.1 := by
        intro e he
        obtain ⟨e', hMem, hSame⟩ := exists_mem_lastMembers he
        rw [← hSame]
        exact hKeys _ (List.mem_map_of_mem hMem)
      have hUncut : members.map (fun e => (svFromCstr e.1, (owned strtod).build e.2)) =
          members.map fun e => (e.1, (owned strtod).build e.2) := by
        refine List.map_congr_left fun e he => ?_
        rw [svFromCstr_of_not_mem (hKey e he)]
      rw [hUncut, lastMembers_map]
      refine congrArg Value.object (List.map_congr_left fun e he => ?_)
      rw [ih e (mem_of_mem_lastMembers he) (hMembers _ (List.mem_map_of_mem he))]

/-- The tree of an accepted text is the meaning of the one tree that the text is read
as exactly when no string and no key of the meaning holds a zero character. -/
theorem json_meaning_iff (strtod : Bytes → ν) (s : Bytes) (v : JsonValue ν) (h : jsonParse strtod s = .ok v) :
    ∃ tree, Reads s tree ∧ (∀ other, Reads s other → other = tree) ∧
      (v = tree.meaning strtod ↔ NulFree (tree.meaning strtod)) := by
  obtain ⟨tree, hReads, rfl⟩ := (parseWhole_ok_iff _ _ _).mp h
  refine ⟨tree, hReads, fun other hOther => hOther.unique hReads, ?_⟩
  constructor
  · intro hSame
    rw [← hSame]
    exact (build_owned_every strtod tree).mono (fun _ hn => hn) (fun _ hs => hs) fun _ _ => trivial
  · exact build_owned_eq strtod tree

theorem reads_of_plain {s : Bytes} {tree : JsonValue Bytes} (h : parseWhole plain s = .ok tree) :
    Reads s tree := by
  obtain ⟨other, hReads, hBuild⟩ := (parseWhole_ok_iff _ _ _).mp h
  rwa [hBuild, build_plain]

/-- Two values under one key, the last of them an escape of two bytes. -/
def repeated : Bytes := ascii "\x7b\"k\":1,\"k\":\"\\u00e9\"\x7d"

theorem json_meaning_repeated : ∃ tree, Reads repeated tree ∧
    (.object [(ascii "k", .string [0xC3, 0xA9])] : JsonValue Nat) = tree.meaning readDecimal := by
  obtain ⟨tree, hReads, hOnly, hMeaning⟩ := json_meaning_iff readDecimal repeated
    (.object [(ascii "k", .string [0xC3, 0xA9])]) rfl
  have hPlain : Reads repeated
    (.object [(ascii "k", .number (ascii "1")), (ascii "k", .string [0xC3, 0xA9])]) :=
    reads_of_plain rfl
  refine ⟨tree, hReads, hMeaning.mpr ?_⟩
  rw [← hOnly _ hPlain, meaning_object]
  have hLast : lastMembers [(ascii "k", (.number (ascii "1") : JsonValue Bytes)),
    (ascii "k", .string [0xC3, 0xA9])] =
      [(ascii "k", .string [0xC3, 0xA9])] := rfl
  rw [hLast]
  refine .object ?_ trivial ?_
  · exact List.forall_mem_singleton.mpr (by decide)
  · exact List.forall_mem_singleton.mpr (.string (by decide))

/-- Two keys of which one goes on behind a zero character. -/
def cutKeys : Bytes := ascii "\x7b\"a\\u0000b\":1,\"a\":2\x7d"

theorem json_meaning_cut : ∃ tree, Reads cutKeys tree ∧
    jsonParse readDecimal cutKeys = .ok (.object [(ascii "a", .number 2)]) ∧
    tree.meaning readDecimal = .object [(97 :: 0 :: ascii "b", .number 1), (ascii "a", .number 2)] ∧
    tree.meaning readDecimal ≠ .object [(ascii "a", .number 2)] :=
  ⟨.object [(97 :: 0 :: ascii "b", .number (ascii "1")), (ascii "a", .number (ascii "2"))],
    reads_of_plain rfl, rfl, rfl, nofun⟩

end Cweb.Json
