import Mathlib.Data.List.Induction

/-!
# Reading a prefix code

A reader follows one letter after the other from its root; a letter takes it to
another state or completes a symbol, after which it starts at the root again.
When the symbols it completes are exactly the words of a code, what it reads is
a text in that code and a partial word, and nothing else.
-/

namespace PrefixCode

structure Reader (σ β α : Type*) where
  root : σ
  step : σ → β → Option (σ ⊕ α)

variable {σ β α : Type*}

/-- Where a partial word leads, completing no symbol on the way. -/
def Reader.walkFrom (r : Reader σ β α) (n : σ) (word : List β) : Option σ :=
  word.foldlM (fun n b => (r.step n b).bind Sum.getLeft?) n

def Reader.walk (r : Reader σ β α) (word : List β) : Option σ := r.walkFrom r.root word

/-- The symbols read, and the partial word behind them with its state. -/
structure Progress (σ β α : Type*) where
  state : σ
  text : List α
  rest : List β
deriving DecidableEq, Repr

def Reader.start (r : Reader σ β α) : Progress σ β α := ⟨r.root, [], []⟩

def Reader.feed (r : Reader σ β α) (p : Progress σ β α) (b : β) : Option (Progress σ β α) :=
  match r.step p.state b with
  | none => none
  | some (.inl n) => some ⟨n, p.text, p.rest ++ [b]⟩
  | some (.inr a) => some ⟨r.root, p.text ++ [a], []⟩

def Reader.run (r : Reader σ β α) (w : List β) : Option (Progress σ β α) := w.foldlM r.feed r.start

def encode (code : α → List β) (text : List α) : List β := text.flatMap code

/-- Every symbol completed is at the end of its word, and every word completes its symbol. -/
structure Reader.Spells (r : Reader σ β α) (code : α → List β) : Prop where
  sound : ∀ word n b a, r.walk word = some n → r.step n b = some (.inr a) → code a = word ++ [b]
  complete : ∀ a, ∃ word n b, code a = word ++ [b] ∧ r.walk word = some n ∧ r.step n b = some (.inr a)

@[simp]
theorem encode_append (code : α → List β) (s t : List α) :
    encode code (s ++ t) = encode code s ++ encode code t := List.flatMap_append

@[simp]
theorem encode_singleton (code : α → List β) (a : α) : encode code [a] = code a := by
  rw [encode, List.flatMap_singleton]

theorem Reader.walkFrom_cons_of_step {r : Reader σ β α} {n m : σ} {b : β} (hStep : r.step n b = some (.inl m))
    (word : List β) : r.walkFrom n (b :: word) = r.walkFrom m word := by
  rw [Reader.walkFrom, List.foldlM_cons, hStep]
  rfl

theorem Reader.walk_concat (r : Reader σ β α) (word : List β) (b : β) :
    r.walk (word ++ [b]) = (r.walk word).bind fun n => (r.step n b).bind Sum.getLeft? := by
  rw [Reader.walk, Reader.walkFrom, List.foldlM_append]
  cases h : r.walk word with
  | none => rw [Reader.walk, Reader.walkFrom] at h; rw [h]; rfl
  | some n =>
    rw [Reader.walk, Reader.walkFrom] at h
    rw [h]
    exact bind_pure (m := Option) _

theorem Reader.walk_concat_of_step {r : Reader σ β α} {word : List β} {n m : σ} {b : β}
    (hWalk : r.walk word = some n)
    (hStep : r.step n b = some (.inl m)) : r.walk (word ++ [b]) = some m := by
  rw [r.walk_concat, hWalk, Option.bind_some, hStep]
  rfl

theorem Reader.run_concat (r : Reader σ β α) (w : List β) (b : β) :
    r.run (w ++ [b]) = (r.run w).bind fun p => r.feed p b := by
  rw [Reader.run, List.foldlM_append]
  cases h : r.run w with
  | none => rw [Reader.run] at h; rw [h]; rfl
  | some p =>
    rw [Reader.run] at h
    rw [h]
    exact bind_pure (m := Option) _

theorem Reader.run_append_walk {r : Reader σ β α} {w : List β} {text : List α}
    (hRun : r.run w = some ⟨r.root, text, []⟩) (word : List β) : ∀ {n : σ}, r.walk word = some n →
    r.run (w ++ word) = some ⟨n, text, word⟩ := by
  induction word using List.reverseRecOn with
  | nil =>
    intro n hWalk
    rw [List.append_nil, hRun, ← Option.some.inj hWalk]
  | append_singleton word b ih =>
    intro n hWalk
    rw [r.walk_concat] at hWalk
    obtain ⟨m, hm, hWalk⟩ := Option.bind_eq_some_iff.mp hWalk
    obtain ⟨next, hStep, hLeft⟩ := Option.bind_eq_some_iff.mp hWalk
    rcases next with n' | a
    · rw [← List.append_assoc, r.run_concat, ih hm, Option.bind_some, Reader.feed, hStep,
        ← Option.some.inj hLeft]
    · simp only [Sum.getLeft?_inr, reduceCtorEq] at hLeft

section Spells

variable {r : Reader σ β α} {code : α → List β} (hSpells : r.Spells code)

include hSpells

theorem Reader.run_sound (w : List β) : ∀ {p : Progress σ β α}, r.run w = some p →
    w = encode code p.text ++ p.rest ∧ r.walk p.rest = some p.state := by
  induction w using List.reverseRecOn with
  | nil =>
    rintro p hRun
    obtain rfl := Option.some.inj hRun
    exact ⟨rfl, rfl⟩
  | append_singleton w b ih =>
    intro p hRun
    rw [r.run_concat] at hRun
    obtain ⟨q, hq, hFeed⟩ := Option.bind_eq_some_iff.mp hRun
    obtain ⟨hWord, hWalk⟩ := ih hq
    rw [Reader.feed] at hFeed
    split at hFeed
    · exact nomatch hFeed
    next n hStep =>
      obtain rfl := Option.some.inj hFeed
      refine ⟨?_, Reader.walk_concat_of_step hWalk hStep⟩
      rw [hWord, List.append_assoc]
    next a hStep =>
      obtain rfl := Option.some.inj hFeed
      refine ⟨?_, rfl⟩
      rw [hWord, List.append_assoc, ← hSpells.sound _ _ _ _ hWalk hStep, encode_append, encode_singleton,
        List.append_nil]

theorem Reader.run_encode (text : List α) : r.run (encode code text) = some ⟨r.root, text, []⟩ := by
  induction text using List.reverseRecOn with
  | nil => rfl
  | append_singleton text a ih =>
    obtain ⟨word, n, b, hCode, hWalk, hStep⟩ := hSpells.complete a
    rw [encode_append, encode_singleton, hCode, ← List.append_assoc, r.run_concat,
      Reader.run_append_walk ih word hWalk, Option.bind_some, Reader.feed, hStep]

/-- The reader succeeds on the texts of the code followed by a partial word, and on nothing else. -/
theorem Reader.run_eq_some_iff (w : List β) (p : Progress σ β α) :
    r.run w = some p ↔ w = encode code p.text ++ p.rest ∧ r.walk p.rest = some p.state := by
  constructor
  · exact Reader.run_sound hSpells w
  · rintro ⟨rfl, hWalk⟩
    exact Reader.run_append_walk (Reader.run_encode hSpells p.text) p.rest hWalk

end Spells

end PrefixCode
