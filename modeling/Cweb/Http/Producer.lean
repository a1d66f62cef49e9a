import Mathlib.Data.List.Infix
import Cweb.Http.Response

/-!
# Producers

A producer is a function of the capacities it has been offered. It is steady
when what it gives does not depend on them: however it is asked, it gives the
pieces of one text and then nothing.
-/

namespace Cweb

variable {fn : List Nat → Bytes} {body : Bytes}

/-- The capacities of calls none of which ended the stream, and what they gave. -/
inductive Offered (fn : List Nat → Bytes) : List Nat → Bytes → Prop where
  | start : Offered fn [] []
  | call {caps : List Nat} {given : Bytes} {cap : Nat} (h : Offered fn caps given) (hRoom : 0 < cap)
      (hSome : fn (caps ++ [cap]) ≠ []) : Offered fn (caps ++ [cap]) (given ++ fn (caps ++ [cap]))

structure Steady (fn : List Nat → Bytes) (body : Bytes) : Prop where
  fits : ∀ {caps given cap}, Offered fn caps given → 0 < cap → (fn (caps ++ [cap])).length ≤ cap
  given : ∀ {caps given}, Offered fn caps given → given <+: body
  ends : ∀ {caps given cap}, Offered fn caps given → 0 < cap → fn (caps ++ [cap]) = [] → given = body

/-! ## Over HTTP/1.1 -/

theorem streamBufferSize_pos : 0 < streamBufferSize := by decide

theorem Steady.producedChunks_some (h : Steady fn body) (calls : Nat) : ∀ {caps : List Nat} {given : Bytes},
    Offered fn caps given → body.length < given.length + calls →
      ∃ chunks, producedChunks fn calls caps = some chunks := by
  induction calls with
  | zero =>
    intro caps given hOffered hLength
    have hLe := (h.given hOffered).length_le
    omega
  | succ calls ih =>
    intro caps given hOffered hLength
    rw [producedChunks]
    by_cases hNext : fn (caps ++ [streamBufferSize]) = []
    · rw [if_pos (.inl hNext)]
      exact ⟨[], rfl⟩
    · have hFits := h.fits hOffered streamBufferSize_pos
      rw [if_neg (not_or.mpr ⟨hNext, not_lt.mpr hFits⟩)]
      have hPos := List.length_pos_iff.mpr hNext
      obtain ⟨chunks, hChunks⟩ :=
        ih (hOffered.call streamBufferSize_pos hNext) (by rw [List.length_append]; omega)
      rw [hChunks]
      exact ⟨_, rfl⟩

theorem Steady.producedChunks_eq (h : Steady fn body) (calls : Nat) : ∀ {caps : List Nat}
    {given : Bytes} {chunks : List Bytes},
    Offered fn caps given → producedChunks fn calls caps = some chunks →
      given ++ chunks.flatten = body ∧ ∀ ch ∈ chunks, ch ≠ [] := by
  induction calls with
  | zero =>
    intro caps given chunks _ hChunks
    cases hChunks
  | succ calls ih =>
    intro caps given chunks hOffered hChunks
    rw [producedChunks] at hChunks
    by_cases hNext : fn (caps ++ [streamBufferSize]) = []
    · rw [if_pos (.inl hNext)] at hChunks
      obtain rfl := Option.some.inj hChunks
      refine ⟨?_, fun ch hCh => absurd hCh List.not_mem_nil⟩
      rw [List.flatten_nil, List.append_nil]
      exact h.ends hOffered streamBufferSize_pos hNext
    · have hFits := h.fits hOffered streamBufferSize_pos
      rw [if_neg (not_or.mpr ⟨hNext, not_lt.mpr hFits⟩)] at hChunks
      obtain ⟨later, hLater, rfl⟩ := Option.map_eq_some_iff.mp hChunks
      obtain ⟨hBody, hSome⟩ := ih (hOffered.call streamBufferSize_pos hNext) hLater
      refine ⟨?_, ?_⟩
      · rw [List.flatten_cons, ← List.append_assoc]
        exact hBody
      · intro ch hCh
        obtain rfl | hCh := List.mem_cons.mp hCh
        · exact hNext
        · exact hSome ch hCh

/-! ## A text in pieces -/

/-- Gives the next bytes of a text, as many as fit. -/
def textProducer (text : Bytes) (caps : List Nat) : Bytes :=
  (text.drop caps.dropLast.sum).take (caps.getLast?.getD 0)

theorem textProducer_concat (text : Bytes) (caps : List Nat) (cap : Nat) :
    textProducer text (caps ++ [cap]) = (text.drop caps.sum).take cap := by
  rw [textProducer, List.dropLast_concat, List.getLast?_concat, Option.getD_some]

theorem textProducer_offered {text : Bytes} {caps : List Nat} {given : Bytes}
    (h : Offered (textProducer text) caps given) :
    given = text.take caps.sum := by
  induction h with
  | start => rfl
  | call h hRoom hSome ih =>
    rw [ih, textProducer_concat, List.sum_append, List.sum_singleton, List.take_add]

theorem textProducer_steady (text : Bytes) : Steady (textProducer text) text where
  fits := by
    intro caps given cap _ _
    rw [textProducer_concat]
    exact List.length_take_le _ _
  given := by
    intro caps given h
    rw [textProducer_offered h]
    exact List.take_prefix _ _
  ends := by
    intro caps given cap h hRoom hNil
    rw [textProducer_concat] at hNil
    rw [textProducer_offered h]
    refine List.take_of_length_le ?_
    have hLength := congrArg List.length hNil
    rw [List.length_take, List.length_drop, List.length_nil] at hLength
    omega

end Cweb
