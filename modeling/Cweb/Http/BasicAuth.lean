import Cweb.Http.Response
import Cweb.Lib.QuotedString

/-!
# The challenge of basic authentication

The realm is escaped into a buffer of 256 bytes. A turn of the loop writes one byte
or two, and reserves room for one of them and the NUL behind the text.
-/

namespace Cweb.BasicAuth

open Sv QuotedString

/-! ## The answer -/

/-- What the loop writes to `quoted`, with the indices, from the index `n` on. -/
def quoteLoop : Bytes → Nat → List (Nat × UInt8)
  | [], n => [(n, 0)]
  | c :: realm, n =>
    if n + 1 < 256 then
      if c = 34 ∨ c = 92 then (n, 92) :: (n + 1, c) :: quoteLoop realm (n + 2)
      else (n, c) :: quoteLoop realm (n + 1)
    else [(n, 0)]

def quoteWrites (realm : Bytes) : List (Nat × UInt8) := quoteLoop (svFromCstr realm) 0

/-- The writes stand side by side, so they are the text of the buffer. -/
def quoted (realm : Bytes) : Bytes := svFromCstr ((quoteWrites realm).map Prod.snd)

def challenge (realm : Bytes) : Bytes :=
  (ascii "Basic realm=\"" ++ quoted realm ++ ascii "\"").take (256 + 32 - 1)

def httpResponseRequireBasicAuth (res : HttpResponse) (realm : Bytes) : HttpResponse :=
  let res := res.apply (.setStatus 401)
  let res := res.apply (.setHeader (ascii "Content-Type") (ascii "text/plain; charset=utf-8"))
  let res := res.apply (.setHeader (ascii "WWW-Authenticate") (challenge realm))
  res.apply (.addBody (ascii "authentication required\n"))

/-! ## What is written -/

/-- The characters that the loop takes, from the index `n` on. -/
def taken : Bytes → Nat → Bytes
  | [], _ => []
  | c :: realm, n => if n + 1 < 256 then c :: taken realm (n + (escapeChar c).length) else []

theorem isSpecial_iff (c : UInt8) : isSpecial c = true ↔ c = 34 ∨ c = 92 := by
  rw [isSpecial, Bool.or_eq_true, beq_iff_eq, beq_iff_eq]

theorem quoteLoop_eq (realm : Bytes) :
    ∀ n, quoteLoop realm n = ((escape (taken realm n) ++ [0]).zipIdx n).map Prod.swap := by
  induction realm with
  | nil => exact fun _ => rfl
  | cons c realm ih =>
    intro n
    rw [quoteLoop, taken]
    split
    · by_cases hSpecial : isSpecial c = true
      · have hPair : escapeChar c = [92, c] := if_pos hSpecial
        rw [if_pos ((isSpecial_iff c).mp hSpecial), ih, escape_cons, hPair]
        rfl
      · have hSelf : escapeChar c = [c] := if_neg hSpecial
        rw [if_neg (mt (isSpecial_iff c).mpr hSpecial), ih, escape_cons, hSelf]
        rfl
    · rfl

theorem prefix_taken (realm : Bytes) : ∀ n, taken realm n <+: realm := by
  induction realm with
  | nil => exact fun _ => List.prefix_refl _
  | cons c realm ih =>
    intro n
    rw [taken]
    split
    · exact List.cons_prefix_cons.mpr ⟨rfl, ih _⟩
    · exact List.nil_prefix

theorem exists_prefix_concat {c : UInt8} {s : Bytes} {P : Bytes → UInt8 → Prop} :
    (∃ q d, q ++ [d] <+: c :: s ∧ P q d) ↔ P [] c ∨ ∃ q d, q ++ [d] <+: s ∧ P (c :: q) d := by
  constructor
  · rintro ⟨q, d, hPrefix, hHolds⟩
    cases q with
    | nil =>
      obtain ⟨rfl, _⟩ := List.cons_prefix_cons.mp hPrefix
      exact .inl hHolds
    | cons b q =>
      obtain ⟨rfl, hRest⟩ := List.cons_prefix_cons.mp hPrefix
      exact .inr ⟨q, d, hRest, hHolds⟩
  · rintro (hHolds | ⟨q, d, hPrefix, hHolds⟩)
    · exact ⟨[], c, List.cons_prefix_cons.mpr ⟨rfl, List.nil_prefix⟩, hHolds⟩
    · exact ⟨c :: q, d, List.cons_prefix_cons.mpr ⟨rfl, hPrefix⟩, hHolds⟩

theorem mem_taken (d : UInt8) (realm : Bytes) : ∀ n, d ∈ taken realm n ↔ ∃ q c, q ++ [c] <+: realm ∧
    n + escapedLength q < 255 ∧ c = d := by
  induction realm with
  | nil =>
    intro n
    simp [taken]
  | cons c realm ih =>
    intro n
    have hNil : escapedLength [] = 0 := rfl
    rw [exists_prefix_concat (P := fun q c => n + escapedLength q < 255 ∧ c = d), taken]
    simp only [escapedLength_cons, hNil]
    split
    · next hRoom =>
      rw [List.mem_cons, ih]
      simp only [Nat.add_assoc]
      constructor
      · rintro (rfl | hBehind)
        · exact .inl ⟨by omega, rfl⟩
        · exact .inr hBehind
      · rintro (⟨_, rfl⟩ | hBehind)
        · exact .inl rfl
        · exact .inr hBehind
    · next hFull =>
      constructor
      · exact fun hMem => absurd hMem List.not_mem_nil
      · rintro (⟨hPlace, _⟩ | ⟨q, _, _, hPlace, _⟩)
        · omega
        · omega

/-- The text leaves room for the NUL unless an escape begins at the last byte but
one. -/
theorem room_iff (realm : Bytes) : ∀ n < 256, n + (escape (taken realm n)).length < 256 ↔
    ¬ ∃ q c, q ++ [c] <+: realm ∧ n + escapedLength q = 254 ∧ isSpecial c = true := by
  induction realm with
  | nil =>
    intro n hn
    simpa [taken, escape] using hn
  | cons c realm ih =>
    intro n hn
    have hNil : escapedLength [] = 0 := rfl
    have hWidth := length_escapeChar c
    rw [exists_prefix_concat (P := fun q c => n + escapedLength q = 254 ∧ isSpecial c = true), not_or, taken]
    simp only [escapedLength_cons, hNil, ← Nat.add_assoc]
    split
    · next hRoom =>
      rw [escape_cons, List.length_append, ← Nat.add_assoc]
      by_cases hFits : n + (escapeChar c).length < 256
      · rw [ih _ hFits]
        refine (and_iff_right ?_).symm
        rintro ⟨hPlace, hSpecial⟩
        rw [if_pos hSpecial] at hWidth
        omega
      · constructor
        · intro hLess
          omega
        · rintro ⟨hPlace, _⟩
          refine absurd ⟨?_, ?_⟩ hPlace
          · split at hWidth <;> omega
          · by_contra hPlain
            rw [if_neg hPlain] at hWidth
            omega
    · next hFull =>
      refine iff_of_true hn ⟨?_, ?_⟩
      · rintro ⟨hPlace, _⟩
        omega
      · rintro ⟨q, _, _, hPlace, _⟩
        omega

theorem length_taken_le (realm : Bytes) : ∀ n ≤ 256, n + (escape (taken realm n)).length ≤ 256 := by
  induction realm with
  | nil => exact fun n hn => hn
  | cons c realm ih =>
    intro n hn
    have hWidth := length_escapeChar c
    rw [taken]
    split
    · next hRoom =>
      have hNext : n + (escapeChar c).length ≤ 256 := by split at hWidth <;> omega
      rw [escape_cons, List.length_append, ← Nat.add_assoc]
      exact ih _ hNext
    · exact hn

theorem quoted_eq (realm : Bytes) : quoted realm = escape (taken (svFromCstr realm) 0) := by
  have hNone : 0 ∉ escape (taken (svFromCstr realm) 0) :=
    not_mem_escape (fun hMem => not_mem_svFromCstr realm ((prefix_taken _ 0).mem hMem)) (by decide)
  have hBytes : (quoteWrites realm).map Prod.snd = escape (taken (svFromCstr realm) 0) ++ [0] := by
    rw [quoteWrites, quoteLoop_eq, List.map_map]
    exact List.zipIdx_map_fst 0 _
  rw [quoted, hBytes, svFromCstr_append hNone]
  exact List.append_nil _

theorem inside_iff (realm : Bytes) : (∀ w ∈ quoteWrites realm, w.1 < 256) ↔
    (escape (taken (svFromCstr realm) 0)).length < 256 := by
  have hPlaces : (quoteWrites realm).map Prod.fst = List.range' 0
    ((escape (taken (svFromCstr realm) 0)).length + 1) := by
    rw [quoteWrites, quoteLoop_eq, List.map_map]
    refine (List.zipIdx_map_snd 0 _).trans ?_
    rw [List.length_append, List.length_singleton]
  rw [← List.forall_mem_map (P := fun i => i < 256), hPlaces]
  constructor
  · exact fun hAll => hAll _ (List.mem_range'_1.mpr ⟨Nat.zero_le _, by omega⟩)
  · intro hLess i hi
    have hLe := (List.mem_range'_1.mp hi).2
    omega

theorem challenge_eq (realm : Bytes) :
    challenge realm = ascii "Basic realm=" ++ 34 :: (escape (taken (svFromCstr realm) 0) ++ [34]) := by
  have hLength := length_taken_le (svFromCstr realm) 0 (Nat.zero_le _)
  have hName : (ascii "Basic realm=\"").length = 13 := by decide
  have hMark : ascii "\"" = [34] := by decide
  rw [challenge, quoted_eq, hMark, List.take_of_length_le]
  · rw [List.append_assoc]
    rfl
  · rw [List.length_append, List.length_append, hName, List.length_singleton]
    omega

/-! ## What is promised -/

/-- The writes stay in the buffer, and the header's value is a quoted string that
stands for the realm or a prefix of it. -/
structure Promise (realm : Bytes) : Prop where
  inside : ∀ w ∈ quoteWrites realm, w.1 < 256
  quoted : ∃ text, challenge realm = ascii "Basic realm=" ++ text ∧ (∃ content, IsQuoted content text) ∧
    ∀ content, IsQuoted content text → content <+: svFromCstr realm
  sets : ∀ res : HttpResponse, ∃ front name, (httpResponseRequireBasicAuth res realm).headers = front ++
    headerLine name (challenge realm) ∧
    name.map tolower = (ascii "WWW-Authenticate").map tolower

/-- No escape begins at the last byte but one, and what is written is text. -/
structure Fits (realm : Bytes) : Prop where
  place : ∀ q c, q ++ [c] <+: svFromCstr realm → escapedLength q = 254 → isSpecial c = false
  text : ∀ q c, q ++ [c] <+: svFromCstr realm → escapedLength q < 255 → ChunkGrammar.isText c = true

theorem emit_last (headers name value : Bytes) :
    ∃ front spelled, responseEmitHeader headers name value true = front ++ headerLine spelled value ∧
      spelled.map tolower = name.map tolower := by
  refine ⟨_, _, rfl, ?_⟩
  cases hFind : (headerLinesOf headers).find? (lineNamed name) with
  | none => rfl
  | some first =>
    have hNamed := List.find?_some hFind
    rw [lineNamed, Bool.and_eq_true, beq_iff_eq, beq_iff_eq] at hNamed
    exact hNamed.2

theorem Promise.isText {realm : Bytes} (h : Promise realm) : ∀ c ∈ taken (svFromCstr realm) 0,
    ChunkGrammar.isText c = true := by
  obtain ⟨text, hChallenge, ⟨content, inner, rfl, hInner⟩, _⟩ := h.quoted
  rw [challenge_eq] at hChallenge
  rw [← List.append_cancel_right (List.cons.inj (List.append_cancel_left hChallenge)).2] at hInner
  exact fun c hc => hInner.isText c (mem_escape hc)

theorem promise_iff (realm : Bytes) : Promise realm ↔ Fits realm := by
  have hPlaces := inside_iff realm
  have hRoom := room_iff (svFromCstr realm) 0 (by decide)
  have hTaken := fun d => mem_taken d (svFromCstr realm) 0
  simp only [Nat.zero_add] at hRoom hTaken
  rw [hRoom] at hPlaces
  constructor
  · intro h
    refine ⟨fun q c hPrefix hLength => ?_, fun q c hPrefix hLength => ?_⟩
    · rw [← Bool.not_eq_true]
      exact fun hSpecial => hPlaces.mp h.inside ⟨q, c, hPrefix, hLength, hSpecial⟩
    · exact h.isText c ((hTaken c).mpr ⟨q, c, hPrefix, hLength, rfl⟩)
  · intro h
    have hInner : Inner (taken (svFromCstr realm) 0) (escape (taken (svFromCstr realm) 0)) := by
      refine inner_escape fun b hb => ?_
      obtain ⟨q, c, hPrefix, hLength, rfl⟩ := (hTaken b).mp hb
      exact h.text q c hPrefix hLength
    refine ⟨hPlaces.mpr ?_, ⟨_, challenge_eq realm, ⟨_, _, rfl, hInner⟩, ?_⟩, fun res => emit_last _ _ _⟩
    · rintro ⟨q, c, hPrefix, hLength, hSpecial⟩
      exact Bool.noConfusion (hSpecial.symm.trans (h.place q c hPrefix hLength))
    · rintro content ⟨inner, hEq, hContent⟩
      rw [← List.append_cancel_right (List.cons.inj hEq).2] at hContent
      rw [hContent.unique hInner]
      exact prefix_taken _ 0

theorem late_escape : ¬ Promise (List.replicate 254 97 ++ [34]) ∧ ¬ Promise (ascii "a\nb") := by
  constructor
  · intro h
    exact absurd (h.inside (256, 0) (by decide +kernel)) (Nat.lt_irrefl 256)
  · intro h
    exact absurd (h.isText 10 (by decide)) (by decide)

end Cweb.BasicAuth
