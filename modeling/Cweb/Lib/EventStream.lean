import Mathlib.Data.List.Basic

/-!
# Event streams

The algorithm by which a client of server-sent events reads a stream. Lines end
in CR LF, in LF or in CR; a line names a field and has its value, and an empty
line dispatches the event of the fields before it. What follows the last end of
a line is dropped. Streams are bytes of UTF-8 text without a byte order mark.
-/

namespace EventStream

abbrev Text := List UInt8

/-- The lines that are ended, the first of them behind `front`. -/
def linesFrom (front : Text) : Text → List Text
  | [] => []
  | 10 :: rest => front :: linesFrom [] rest
  | 13 :: 10 :: rest => front :: linesFrom [] rest
  | 13 :: rest => front :: linesFrom [] rest
  | b :: rest => linesFrom (front ++ [b]) rest

def lines (stream : Text) : List Text := linesFrom [] stream

structure Event where
  type : Text
  data : Text
  lastEventId : Text
deriving DecidableEq, Repr

/-- The buffers of the reader, the time to wait before it connects again, and
the events dispatched so far. -/
structure Reader where
  data : Text
  type : Text
  lastEventId : Text
  retry : Option Text
  events : List Event
deriving DecidableEq, Repr

def message : Text := [109, 101, 115, 115, 97, 103, 101]

def Reader.start : Reader := ⟨[], [], [], none, []⟩

/-- An event without data is none; otherwise one line feed behind the data goes. -/
def Reader.dispatch (r : Reader) : Reader :=
  if r.data = [] then { r with data := [], type := [] }
  else
    let data := if r.data.getLast? = some 10 then r.data.dropLast else r.data
    { r with data := [], type := [], events :=
      r.events ++ [⟨if r.type = [] then message else r.type, data, r.lastEventId⟩] }

def dataField : Text := [100, 97, 116, 97]
def eventField : Text := [101, 118, 101, 110, 116]
def idField : Text := [105, 100]
def retryField : Text := [114, 101, 116, 114, 121]

def Reader.field (r : Reader) (name value : Text) : Reader :=
  if name = eventField then { r with type := value }
  else if name = dataField then { r with data := r.data ++ value ++ [10] }
  else if name = idField then if 0 ∈ value then r else { r with lastEventId := value }
  else if name = retryField then if value.all fun b => 48 ≤ b && b ≤ 57 then { r with retry := some value }
  else r
  else r

/-- One blank behind the colon is not part of the value. -/
def dropBlank : Text → Text
  | 32 :: value => value
  | value => value

/-- A line that starts with a colon is a comment, one without a colon is a name. -/
def Reader.line (r : Reader) (line : Text) : Reader :=
  if line = [] then r.dispatch
  else if line.head? = some 58 then r
  else r.field (line.takeWhile (· ≠ 58)) (dropBlank ((line.dropWhile (· ≠ 58)).drop 1))

def parse (stream : Text) : List Event := ((lines stream).foldl Reader.line Reader.start).events

/-! ## Lines -/

theorem linesFrom_line {line : Text} (hLf : 10 ∉ line) (hCr : 13 ∉ line) (rest : Text) : ∀ front,
    linesFrom front (line ++ 10 :: rest) = (front ++ line) :: linesFrom [] rest := by
  induction line with
  | nil => simp [linesFrom]
  | cons b line ih =>
    intro front
    rw [List.mem_cons, not_or] at hLf hCr
    rw [List.cons_append, linesFrom, ih hLf.2 hCr.2]
    · simp
    · exact fun h => hLf.1 h.symm
    · exact fun _ h => absurd h.symm hCr.1
    · exact fun h => hCr.1 h.symm

theorem lines_line {line : Text} (hLf : 10 ∉ line) (hCr : 13 ∉ line) (rest : Text) :
    lines (line ++ 10 :: rest) = line :: lines rest := linesFrom_line hLf hCr rest []

theorem lines_flatMap {ls : List Text} (h : ∀ line ∈ ls, 10 ∉ line ∧ 13 ∉ line) :
    lines (ls.flatMap fun line => line ++ [10]) = ls := by
  induction ls with
  | nil => rfl
  | cons line ls ih =>
    obtain ⟨hLf, hCr⟩ := h line List.mem_cons_self
    rw [List.flatMap_cons, List.append_assoc, List.singleton_append, lines_line hLf hCr, ih fun l hl =>
      h l (List.mem_cons_of_mem _ hl)]

/-! ## Fields -/

theorem line_field {name : Text} (hSome : name ≠ []) (hColon : 58 ∉ name) (r : Reader) (value : Text) :
    r.line (name ++ 58 :: 32 :: value) = r.field name value := by
  have hAll : ∀ b ∈ name, decide (b ≠ 58) = true := fun b hb => decide_eq_true fun h => hColon (h ▸ hb)
  have hHead : (name ++ 58 :: 32 :: value).head? ≠ some 58 := by
    rw [List.head?_append_of_ne_nil _ hSome]
    exact fun h => hColon (List.mem_of_mem_head? h)
  rw [Reader.line, if_neg (by simp), if_neg hHead, List.takeWhile_append_of_pos hAll,
    List.dropWhile_append_of_pos hAll]
  simp [dropBlank]

@[simp] theorem line_data (r : Reader) (value : Text) :
    r.line (dataField ++ 58 :: 32 :: value) = { r with data := r.data ++ value ++ [10] } :=
  (line_field (by decide) (by decide) r value).trans rfl

@[simp] theorem line_event (r : Reader) (value : Text) :
    r.line (eventField ++ 58 :: 32 :: value) = { r with type := value } :=
  (line_field (by decide) (by decide) r value).trans rfl

@[simp] theorem line_id {value : Text} (h : 0 ∉ value) (r : Reader) :
    r.line (idField ++ 58 :: 32 :: value) = { r with lastEventId := value } :=
  (line_field (by decide) (by decide) r value).trans (if_neg h)

theorem line_retry (r : Reader) (value : Text) :
    ∃ retry, r.line (retryField ++ 58 :: 32 :: value) = { r with retry := retry } := by
  rw [line_field (by decide) (by decide)]
  by_cases hDigits : (value.all fun b => 48 ≤ b && b ≤ 57) = true
  · exact ⟨some value, if_pos hDigits⟩
  · exact ⟨r.retry, if_neg hDigits⟩

theorem foldl_data (values : List Text) : ∀ r : Reader,
    (values.map fun value => dataField ++ 58 :: 32 :: value).foldl Reader.line r =
      { r with data := r.data ++ values.flatMap fun value => value ++ [10] } := by
  induction values with
  | nil => simp
  | cons value values ih =>
    intro r
    rw [List.map_cons, List.foldl_cons, line_data, ih]
    simp

end EventStream
