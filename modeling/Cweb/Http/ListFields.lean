import Cweb.Http.ServerFraming

/-!
# Fields that are lists

A list may come on several lines of one name, and means what one line with all of
the values would. The token tests look at the first line only.
-/

namespace Cweb

open Sv

/-! ## The tests -/

def wsLower (b : UInt8) : UInt8 := if 65 ≤ b && b ≤ 90 then b + 32 else b

/-- The test of the WebSocket handshake lowers letters by hand. -/
def wsHeaderHasToken (req : HttpRequest) (name token : Bytes) : Bool :=
  match httpRequestGetHeader req name with
  | none => false
  | some v => (svSplit 44 v).any fun part => (svTrim part).map wsLower == token.map wsLower

theorem wsHeaderHasToken_eq (req : HttpRequest) (name token : Bytes) :
    wsHeaderHasToken req name token = headerHasToken req name token := by
  rw [wsHeaderHasToken, headerHasToken]
  cases httpRequestGetHeader req name <;> rfl

/-! ## Joined lines -/

def joinCommas : List Bytes → Bytes
  | [] => []
  | [v] => v
  | v :: w :: vs => v ++ 44 :: joinCommas (w :: vs)

def sameName (name : Bytes) (f : HttpHeader) : Bool := f.key.map toupper == name.map toupper

/-- The lines of a name become one, where the first of them was. -/
def joinFields (name : Bytes) : List HttpHeader → List HttpHeader
  | [] => []
  | f :: rest =>
    if sameName name f then
      { f with value := joinCommas (f.value :: named name rest) } :: rest.filter fun g => !sameName name g
    else f :: joinFields name rest

def HttpRequest.joined (req : HttpRequest) (name : Bytes) : HttpRequest :=
  { req with headers := joinFields name req.headers }

theorem named_cons (name : Bytes) (f : HttpHeader) (rest : List HttpHeader) :
    named name (f :: rest) = if sameName name f then f.value :: named name rest else named name rest := by
  rw [named, named, List.filter_cons]
  split
  · rename_i hSame
    rw [sameName, if_pos hSame]
    rfl
  · rename_i hOther
    rw [sameName, if_neg hOther]

theorem named_joinFields (name : Bytes) (fields : List HttpHeader) :
    named name (joinFields name fields) = if named name fields = [] then []
      else [joinCommas (named name fields)] := by
  induction fields with
  | nil => rfl
  | cons f rest ih =>
    rw [joinFields, named_cons]
    split
    · rename_i hSame
      have hNone : named name (rest.filter fun g => !sameName name g) = [] := by
        rw [named, List.filter_filter, List.map_eq_nil_iff, List.filter_eq_nil_iff]
        intro g _
        change ¬ (sameName name g && !sameName name g) = true
        rw [Bool.and_not_self]
        exact Bool.false_ne_true
      have hKeeps : sameName name { f with value := joinCommas (f.value :: named name rest) } = true := hSame
      rw [named_cons, if_pos hKeeps, hNone, if_neg (List.cons_ne_nil _ _)]
    · rename_i hOther
      rw [named_cons, if_neg hOther, ih]

theorem headerHasToken_eq_first (req : HttpRequest) (name token : Bytes) :
    headerHasToken req name token = ((named name req.headers).head?.any fun v => tokIn v token) := by
  rw [headerHasToken, httpRequestGetHeader_eq_head]
  cases (named name req.headers).head? <;> rfl

/-! ## Elements of a list -/

/-- A comma ends the text, or there is none: an empty element is in front of what follows. -/
def EndsEmpty (v : Bytes) : Prop := v = [] ∨ v.getLast? = some 44

theorem tokIn_comma (v rest token : Bytes) :
    tokIn (v ++ 44 :: rest) token = true ↔ tokIn v token = true ∨ (token = [] ∧ EndsEmpty v) ∨
      tokIn rest token = true := by
  obtain ⟨empty, hSplit, hEnds⟩ := @svSplit_cut 44 _ v (Nat.le_refl _) rest
  have hNil : svIeq (svTrim []) token = true ↔ token = [] := by
    have hTrim : svTrim [] = [] := rfl
    rw [hTrim, svIeq, beq_iff_eq, List.map_nil, eq_comm, List.map_eq_nil_iff]
  rw [tokIn, tokIn, tokIn, hSplit, List.any_append, List.any_append, Bool.or_eq_true, Bool.or_eq_true,
    or_assoc]
  have hEmpty : (empty.any fun part => svIeq (svTrim part) token) = true ↔ token = [] ∧ EndsEmpty v := by
    obtain ⟨hIs, rfl⟩ | ⟨hNot, rfl⟩ := hEnds
    · rw [List.any_cons, List.any_nil, Bool.or_false, hNil]
      exact ⟨fun h => ⟨h, hIs⟩, fun h => h.1⟩
    · rw [List.any_nil]
      exact ⟨nofun, fun h => absurd h.2 hNot⟩
  rw [hEmpty]

/-- A line behind the first has the token, or there is an empty element and the token
is empty. -/
def LaterHas (token first : Bytes) : List Bytes → Prop
  | [] => False
  | v :: later => (token = [] ∧ EndsEmpty first) ∨ tokIn v token = true ∨ LaterHas token v later

theorem tokIn_joinCommas (token : Bytes) (later : List Bytes) : ∀ first,
    tokIn (joinCommas (first :: later)) token = true ↔ tokIn first token = true ∨
      LaterHas token first later := by
  induction later with
  | nil =>
    intro first
    rw [joinCommas, LaterHas, or_false]
  | cons v later ih =>
    intro first
    rw [joinCommas, tokIn_comma, ih v, LaterHas]

/-! ## Several lines and one -/

/-- The token tests answer as they would for one line with all the values. -/
structure TokensJoined (req : HttpRequest) (name token : Bytes) : Prop where
  list : headerHasToken (req.joined name) name token = headerHasToken req name token
  ws : wsHeaderHasToken (req.joined name) name token = wsHeaderHasToken req name token

/-- Where a later line has the token the first one has it too. -/
def FirstTells (req : HttpRequest) (name token : Bytes) : Prop :=
  ∀ first later, named name req.headers = first :: later → LaterHas token first later →
    tokIn first token = true

/-- Lines of a name count as one list exactly when nothing of them is to be found in
the later lines only. -/
theorem tokensJoined_iff (req : HttpRequest) (name token : Bytes) : TokensJoined req name token ↔
    FirstTells req name token := by
  have hBoth : TokensJoined req name token ↔
    headerHasToken (req.joined name) name token = headerHasToken req name token := by
    constructor
    · exact fun h => h.list
    · intro h
      refine ⟨h, ?_⟩
      rw [wsHeaderHasToken_eq, wsHeaderHasToken_eq]
      exact h
  rw [hBoth, headerHasToken_eq_first, headerHasToken_eq_first, HttpRequest.joined, named_joinFields,
    FirstTells]
  cases named name req.headers with
  | nil =>
    rw [if_pos rfl]
    exact ⟨fun _ first later h => (nomatch h), fun _ => rfl⟩
  | cons first later =>
    have hTok := tokIn_joinCommas token later first
    rw [if_neg (List.cons_ne_nil _ _), List.head?_cons, List.head?_cons, Option.any_some,
      Option.any_some, Bool.eq_iff_iff, hTok]
    constructor
    · rintro h _ _ hSame hLater
      obtain ⟨rfl, rfl⟩ := List.cons.inj hSame
      exact h.mp (.inr hLater)
    · intro h
      constructor
      · rintro (hFirst | hLater)
        · exact hFirst
        · exact h first later rfl hLater
      · exact .inl

def twoConnections : HttpRequest :=
  { emptyRequest with headers :=
    [⟨ascii "Connection", ascii "keep-alive"⟩, ⟨ascii "Connection", ascii "close"⟩] }

/-- A `close` on the second line is not seen. -/
theorem second_close_unseen : ¬ TokensJoined twoConnections (ascii "connection") (ascii "close") := by
  intro h
  exact absurd h.list (by decide +kernel)

end Cweb
