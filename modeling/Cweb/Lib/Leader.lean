import Mathlib.Order.Basic
import Mathlib.Data.List.Induction
import Mathlib.Order.Lattice

/-!
# The leader of a list

Some members of a list have a weight. The leader is the first of those with the
greatest one: what stands before it weighs less, what follows does not weigh
more. A list with a weighed member has exactly one leader.
-/

namespace Leader

variable {α β : Type*} [LinearOrder β] {weigh : α → β → Prop}

structure Leads (weigh : α → β → Prop) (front : List α) (a : α) (w : β) (back : List α) : Prop where
  weighs : weigh a w
  front_lt : ∀ x ∈ front, ∀ v, weigh x v → v < w
  back_le : ∀ x ∈ back, ∀ v, weigh x v → v ≤ w

theorem Leads.single {a : α} {w : β} (h : weigh a w) : Leads weigh [] a w [] := ⟨h, by simp, by simp⟩

theorem Leads.keep {front back : List α} {a x : α} {w : β} (h : Leads weigh front a w back)
    (hx : ∀ v, weigh x v → v ≤ w) :
    Leads weigh front a w (back ++ [x]) := by
  refine ⟨h.weighs, h.front_lt, fun y hy => ?_⟩
  rcases List.mem_append.mp hy with hy | hy
  · exact h.back_le y hy
  · exact List.mem_singleton.mp hy ▸ hx

theorem Leads.overtake {front : List α} {x : α} {w : β} (hx : weigh x w)
    (h : ∀ y ∈ front, ∀ v, weigh y v → v < w) :
    Leads weigh front x w [] := ⟨hx, h, by simp⟩

theorem Leads.le {front back : List α} {a : α} {w : β} (h : Leads weigh front a w back)
    (hFun : ∀ v, weigh a v → v = w) {x : α}
    (hx : x ∈ front ++ a :: back) {v : β} (hv : weigh x v) : v ≤ w := by
  rcases List.mem_append.mp hx with hx | hx
  · exact (h.front_lt x hx v hv).le
  · rcases List.mem_cons.mp hx with rfl | hx
    · exact (hFun v hv).le
    · exact h.back_le x hx v hv

theorem Leads.unique {front front' back back' : List α} {a a' : α} {w w' : β} (h : Leads weigh front a w back)
    (h' : Leads weigh front' a' w' back') (hEq : front ++ a :: back = front' ++ a' :: back') :
    front = front' ∧ a = a' ∧ back = back' := by
  rcases List.append_eq_append_iff.mp hEq with ⟨mid, rfl, hMid⟩ | ⟨mid, rfl, hMid⟩
  · cases mid with
    | nil => simpa using hMid
    | cons x mid =>
      obtain ⟨rfl, rfl⟩ := List.cons.inj hMid
      have hLess : w < w' := h'.front_lt a (by simp) w h.weighs
      exact absurd (h.back_le a' (by simp) w' h'.weighs) hLess.not_ge
  · cases mid with
    | nil => simpa [eq_comm] using hMid
    | cons x mid =>
      obtain ⟨rfl, rfl⟩ := List.cons.inj hMid
      have hLess : w' < w := h.front_lt a' (by simp) w' h'.weighs
      exact absurd (h'.back_le a (by simp) w h.weighs) hLess.not_ge

theorem exists_leads (hFun : ∀ a v w, weigh a v → weigh a w → v = w) (l : List α) :
    (∀ a ∈ l, ∀ w, ¬weigh a w) ∨ ∃ front a w back, l = front ++ a :: back ∧ Leads weigh front a w back := by
  induction l using List.reverseRecOn with
  | nil => exact .inl nofun
  | append_singleton l x ih =>
    by_cases hx : ∃ v, weigh x v
    · obtain ⟨v, hv⟩ := hx
      rcases ih with hNone | ⟨front, a, w, back, rfl, hLeads⟩
      · exact .inr ⟨l, x, v, [], rfl, .overtake hv fun y hy u hu => absurd hu (hNone y hy u)⟩
      · rcases lt_or_ge w v with hMore | hLess
        · refine .inr ⟨front ++ a :: back, x, v, [], rfl, .overtake hv fun y hy u hu => ?_⟩
          exact (hLeads.le (fun u hu => hFun a u w hu hLeads.weighs) hy hu).trans_lt hMore
        · refine .inr ⟨front, a, w, back ++ [x], by simp, hLeads.keep fun u hu => ?_⟩
          exact hFun x u v hu hv ▸ hLess
    · rcases ih with hNone | ⟨front, a, w, back, rfl, hLeads⟩
      · refine .inl fun a ha => ?_
        rcases List.mem_append.mp ha with ha | ha
        · exact hNone a ha
        · exact fun w hw => hx ⟨w, List.mem_singleton.mp ha ▸ hw⟩
      · exact .inr ⟨front, a, w, back ++ [x], by simp, hLeads.keep fun u hu => absurd ⟨u, hu⟩ hx⟩

end Leader
