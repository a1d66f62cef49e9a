import Cweb.Lib.EventStream
import Cweb.Lib.Segments
import Cweb.Utils.Sv

/-!
# Frames of server-sent events

The data of an event is cut at line feeds until nothing is left. A line feed at
its end leaves nothing behind it, so no line is written for what follows.
-/

namespace Cweb.Sse

open Sv EventStream

/-- The pieces of the loop, which runs at least once. -/
def dataLines (data : Bytes) : List Bytes :=
  let (line, rest) := svChopByDelim 10 data
  line :: svSplit 10 rest

def sseFrame (data : Bytes) (event id : Option Bytes) (retryMs : Int) : Bytes :=
  (id.elim [] fun id => ascii "id: " ++ id ++ [10]) ++
    (event.elim [] fun event => ascii "event: " ++ event ++ [10]) ++
    ((dataLines data).flatMap fun line => ascii "data: " ++ line ++ [10]) ++
    (if 0 < retryMs then ascii "retry: " ++ decimalInt retryMs ++ [10] else []) ++ [10]

/-- A name for the event or for its id: a C string without the end of a line. -/
structure IsName (name : Bytes) : Prop where
  nul : 0 ∉ name
  lf : 10 ∉ name
  cr : 13 ∉ name

/-- The event that is meant. Without a name it is a message. -/
def meantEvent (data : Bytes) (event id : Option Bytes) : Event :=
  ⟨if event.getD [] = [] then message else event.getD [], data, id.getD []⟩

/-! ## The lines of the data -/

theorem dataLines_eq {data : Bytes} (h : data ≠ []) : dataLines data = svSplit 10 data := by
  obtain ⟨hNone, hChop⟩ | ⟨piece, rest, rfl, hNone, hChop⟩ := svChopByDelim_cases 10 data
  · rw [dataLines, hChop, svSplit_last hNone h]
    rfl
  · rw [dataLines, hChop, svSplit_line hNone]

theorem text_svSplit (n : Nat) : ∀ data : Bytes, data.length ≤ n →
    Segments.text 10 (svSplit 10 data) = if data.getLast? = some 10 then data.dropLast else data := by
  induction n with
  | zero =>
    intro data h
    rw [List.length_eq_zero_iff.mp (Nat.le_zero.mp h)]
    rfl
  | succ n ih =>
    intro data h
    obtain ⟨hNone, -⟩ | ⟨piece, rest, rfl, hNone, -⟩ := svChopByDelim_cases 10 data
    · by_cases hSome : data = []
      · rw [hSome]
        rfl
      · rw [svSplit_last hNone hSome, Segments.text_singleton, if_neg fun hLast =>
          hNone (List.mem_of_getLast? hLast)]
    · rw [List.length_append, List.length_cons] at h
      rw [svSplit_line hNone]
      cases rest with
      | nil => simp [svSplit, svPieces, Segments.text_singleton]
      | cons b rest =>
        have hSplit : svSplit 10 (b :: rest) ≠ [] := by simp [svSplit, svPieces]
        rw [Segments.text_cons hSplit, ih (b :: rest) (by omega), List.getLast?_append_cons,
          List.getLast?_cons_cons,
          List.dropLast_append_cons]
        split <;> simp

theorem text_dataLines (data : Bytes) :
    Segments.text 10 (dataLines data) = if data.getLast? = some 10 then data.dropLast else data := by
  by_cases hSome : data = []
  · rw [hSome]
    rfl
  · rw [dataLines_eq hSome, text_svSplit _ data (Nat.le_refl _)]

theorem not_mem_dataLines {data line : Bytes} (hCr : 13 ∉ data) (h : line ∈ dataLines data) :
    10 ∉ line ∧ 13 ∉ line := by
  have hLf : 10 ∉ line := by
    rw [dataLines] at h
    rcases List.mem_cons.mp h with rfl | h
    · exact svChopByDelim_not_mem 10 data
    · exact not_mem_svSplit h
  refine ⟨hLf, fun hIn => hCr ?_⟩
  have hText := (Segments.mem_text_iff (by decide : (13 : UInt8) ≠ 10) (dataLines data)).mpr ⟨line, h, hIn⟩
  rw [text_dataLines] at hText
  split at hText
  · exact List.dropLast_subset data hText
  · exact hText

/-! ## Frames -/

def idLine (id : Bytes) : Bytes := idField ++ 58 :: 32 :: id
def eventLine (event : Bytes) : Bytes := eventField ++ 58 :: 32 :: event
def dataLine (line : Bytes) : Bytes := dataField ++ 58 :: 32 :: line
def retryLine (retryMs : Int) : Bytes := retryField ++ 58 :: 32 :: decimalInt retryMs

def frameLines (data : Bytes) (event id : Option Bytes) (retryMs : Int) : List Bytes :=
  (id.map idLine).toList ++ (event.map eventLine).toList ++ (dataLines data).map dataLine ++
    (if 0 < retryMs then [retryLine retryMs] else []) ++ [[]]

theorem sseFrame_eq (data : Bytes) (event id : Option Bytes) (retryMs : Int) :
    sseFrame data event id retryMs = (frameLines data event id retryMs).flatMap fun line => line ++ [10] := by
  have hId : ascii "id: " = idField ++ [58, 32] := by decide
  have hEvent : ascii "event: " = eventField ++ [58, 32] := by decide
  have hData : ascii "data: " = dataField ++ [58, 32] := by decide
  have hRetry : ascii "retry: " = retryField ++ [58, 32] := by decide
  have hLines : ((dataLines data).flatMap fun line => ascii "data: " ++ line ++ [10]) =
      ((dataLines data).map dataLine).flatMap fun line => line ++ [10] := by
    rw [List.flatMap_map]
    simp [dataLine, hData]
  rw [sseFrame, frameLines, hLines, hId, hEvent, hRetry]
  simp only [List.flatMap_append, List.flatMap_singleton, List.nil_append]
  congr 1
  congr 1
  · congr 1
    congr 1
    · cases id with
      | none => rfl
      | some id => simp [idLine]
    · cases event with
      | none => rfl
      | some event => simp [eventLine]
  · split <;> simp [retryLine]

theorem not_mem_frameLines {data : Bytes} {event id : Option Bytes} (retryMs : Int) (hCr : 13 ∉ data)
    (hEvent : ∀ name ∈ event, IsName name)
    (hId : ∀ name ∈ id, IsName name) : ∀ line ∈ frameLines data event id retryMs, 10 ∉ line ∧ 13 ∉ line := by
  intro line hLine
  simp only [frameLines, List.mem_append, Option.mem_toList, Option.map_eq_some_iff, List.mem_map,
    List.mem_singleton] at hLine
  rcases hLine with (((⟨name, hName, rfl⟩ | ⟨name, hName, rfl⟩) | ⟨piece, hPiece, rfl⟩) | hRetry) | rfl
  · obtain ⟨-, hLf, hCr'⟩ := hId name hName
    simp [idLine, idField, hLf, hCr']
  · obtain ⟨-, hLf, hCr'⟩ := hEvent name hName
    simp [eventLine, eventField, hLf, hCr']
  · obtain ⟨hLf, hCr'⟩ := not_mem_dataLines hCr hPiece
    simp [dataLine, dataField, hLf, hCr']
  · split at hRetry
    · rw [List.mem_singleton.mp hRetry]
      have hLf : 10 ∉ decimalInt retryMs := not_mem_decimalInt (by decide) (by decide) retryMs
      have hCr' : 13 ∉ decimalInt retryMs := not_mem_decimalInt (by decide) (by decide) retryMs
      simp [retryLine, retryField, hLf, hCr']
    · cases hRetry
  · simp

theorem flatMap_text {ls : List Bytes} (h : ls ≠ []) :
    (ls.flatMap fun line => line ++ [10]) = Segments.text 10 ls ++ [10] := by
  induction ls with
  | nil => exact absurd rfl h
  | cons line ls ih =>
    cases ls with
    | nil => simp [Segments.text_singleton]
    | cons next ls =>
      rw [List.flatMap_cons, ih (List.cons_ne_nil _ _), Segments.text_cons (List.cons_ne_nil _ _)]
      simp

theorem parse_sseFrame {data : Bytes} {event id : Option Bytes} (retryMs : Int) (hCr : 13 ∉ data)
    (hEvent : ∀ name ∈ event, IsName name)
    (hId : ∀ name ∈ id, IsName name) :
    parse (sseFrame data event id retryMs) = [meantEvent (Segments.text 10 (dataLines data)) event id] := by
  rw [parse, sseFrame_eq, lines_flatMap (not_mem_frameLines retryMs hCr hEvent hId), frameLines]
  have hStart : (((id.map idLine).toList ++ (event.map eventLine).toList).foldl Reader.line Reader.start) =
      ⟨[], event.getD [], id.getD [], none, []⟩ := by
    cases id with
    | none =>
      cases event with
      | none => rfl
      | some event => simp [eventLine, Reader.start]
    | some id =>
      have hNul := (hId id rfl).nul
      cases event with
      | none => simp [idLine, Reader.start, hNul]
      | some event => simp [idLine, eventLine, Reader.start, hNul]
  have hData := foldl_data (dataLines data) ⟨[], event.getD [], id.getD [], none, []⟩
  have hSome : dataLines data ≠ [] := List.cons_ne_nil _ _
  rw [flatMap_text hSome] at hData
  have hRetry : ∀ r : Reader, ∃ retry,
    (if 0 < retryMs then [retryLine retryMs] else []).foldl Reader.line r = { r with retry := retry } := by
    intro r
    split
    · exact line_retry r _
    · exact ⟨r.retry, rfl⟩
  rw [List.foldl_append, List.foldl_append, List.foldl_append, hStart]
  change (List.foldl Reader.line
    (List.foldl Reader.line
      (List.foldl Reader.line _ ((dataLines data).map fun line => dataField ++ 58 :: 32 :: line)) _)
    [[]]).events = _
  rw [hData]
  obtain ⟨retry, hEq⟩ :=
    hRetry ⟨[] ++ (Segments.text 10 (dataLines data) ++ [10]), event.getD [], id.getD [], none, []⟩
  rw [hEq]
  simp [Reader.line, Reader.dispatch, meantEvent]

/-- The event is the one that is meant unless its data end in a line feed. -/
theorem frame_iff {data : Bytes} {event id : Option Bytes} (retryMs : Int) (hCr : 13 ∉ data)
    (hEvent : ∀ name ∈ event, IsName name) (hId : ∀ name ∈ id, IsName name) :
    parse (sseFrame data event id retryMs) = [meantEvent data event id] ↔ data.getLast? ≠ some 10 := by
  rw [parse_sseFrame retryMs hCr hEvent hId, text_dataLines]
  constructor
  · intro h hLast
    rw [if_pos hLast] at h
    have hSame : data.dropLast = data := congrArg Event.data (List.cons.inj h).1
    have hLength := congrArg List.length hSame
    rw [List.length_dropLast] at hLength
    have hPos : 0 < data.length := List.length_pos_iff.mpr fun hNil => by simp [hNil] at hLast
    omega
  · intro hLast
    rw [if_neg hLast]

theorem frame_two_lines : parse (sseFrame (ascii "a\n\nb") (some (ascii "tick")) (some (ascii "7")) 0) =
    [meantEvent (ascii "a\n\nb") (some (ascii "tick")) (some (ascii "7"))] := by
  refine (frame_iff 0 ?_ ?_ ?_).mpr ?_
  · decide
  · exact fun name hName => Option.some.inj hName ▸ ⟨by decide, by decide, by decide⟩
  · exact fun name hName => Option.some.inj hName ▸ ⟨by decide, by decide, by decide⟩
  · decide

/-- A line feed at the end of the data is lost. -/
theorem frame_line_feed : sseFrame (ascii "a\n") none none 0 = ascii "data: a\n\n" ∧
    parse (sseFrame (ascii "a\n") none none 0) = [meantEvent (ascii "a") none none] ∧
    parse (sseFrame (ascii "a\n") none none 0) ≠ [meantEvent (ascii "a\n") none none] := by
  decide +kernel

end Cweb.Sse
