import Cweb.Http.H2HpackSync

/-!
# Frames that leave the requests alone

Most frames change no stream but for a mark as reset, or its send window.
-/

namespace Cweb.H2

variable {env : H2Env}

/-- A relation that lets a stream be marked as reset, and its send window change. -/
structure Lax (R : H2Stream → H2Stream → Prop) : Prop where
  refl : ∀ s, R s s
  trans : ∀ s s' s'', R s s' → R s' s'' → R s s''
  reset : ∀ s, R s { s with reset := true }
  grant : ∀ s s', Kind.grant.Touches s s' → R s s'

def Each (R : H2Stream → H2Stream → Prop) (c c' : H2Conn) : Prop := List.Forall₂ R c.streams c'.streams

variable {R : H2Stream → H2Stream → Prop}

theorem Each.same (hR : Lax R) {c c' : H2Conn} (h : c'.streams = c.streams) : Each R c c' := by
  rw [Each, h]
  exact List.forall₂_same.mpr fun s _ => hR.refl s

theorem Each.refl (hR : Lax R) (c : H2Conn) : Each R c c := Each.same hR rfl

theorem Each.trans (hR : Lax R) {c c' c'' : H2Conn} (h : Each R c c') (h' : Each R c' c'') : Each R c c'' :=
  @forall₂_trans R R R hR.trans _ _ h _ h'

theorem Each.connError (hR : Lax R) (c : H2Conn) (e : H2Error) : Each R c (h2ConnError c e) :=
  Each.same hR (by rw [h2ConnError_eq])

theorem Each.sendFrame (hR : Lax R) (c : H2Conn) (g : H2Frame) : Each R c (h2SendFrame env c g).1 :=
  Each.same hR (h2SendFrame_streams env c g)

theorem Each.streamError (hR : Lax R) (c : H2Conn) (id : Nat) (e : H2Error) :
    Each R c (h2SendStreamError env c id e) :=
  Each.sendFrame hR c _

theorem Each.modify (hR : Lax R) {c : H2Conn} {i : Nat} {g : H2Stream → H2Stream}
    (h : ∀ s, c.streams[i]? = some s → R s (g s)) : Each R c (c.modifyStream i g) :=
  forall₂_modify hR.refl g c.streams i h

theorem h2OnPriority_each (hR : Lax R) (c : H2Conn) (f : H2Frame) : Each R c (h2OnPriority env c f) := by
  rw [h2OnPriority]
  split
  · exact Each.connError hR c _
  · split
    · split
      · exact Each.streamError hR c _ _
      · exact Each.connError hR c _
    · exact Each.refl hR c

theorem h2OnRst_each (hR : Lax R) (c : H2Conn) (f : H2Frame) : Each R c (h2OnRst c f) := by
  rw [h2OnRst]
  split
  · exact Each.connError hR c _
  · split
    · exact Each.connError hR c _
    · split
      · split
        · exact Each.connError hR c _
        · exact Each.refl hR c
      · exact Each.modify hR fun s _ => hR.reset s

theorem h2OnPing_each (hR : Lax R) (c : H2Conn) (f : H2Frame) : Each R c (h2OnPing env c f) := by
  rw [h2OnPing]
  split
  · exact Each.connError hR c _
  · split
    · exact Each.connError hR c _
    · split
      · exact Each.refl hR c
      · exact Each.sendFrame hR c _

theorem h2OnGoaway_each (hR : Lax R) (c : H2Conn) (f : H2Frame) : Each R c (h2OnGoaway c f) := by
  rw [h2OnGoaway]
  split
  · exact Each.connError hR c _
  · split
    · exact Each.connError hR c _
    · exact Each.same hR rfl

theorem h2OnWindow_each (hR : Lax R) (c : H2Conn) (f : H2Frame) : Each R c (h2OnWindow env c f) := by
  rw [h2OnWindow]
  split
  · exact Each.connError hR c _
  · split
    · split
      · exact Each.connError hR c _
      · exact Each.streamError hR c _ _
    · split
      · dsimp only
        split
        · rw [Each, h2ConnError_eq]
          exact Each.refl hR c
        · exact Each.same hR rfl
      · split
        · split
          · exact Each.connError hR c _
          · exact Each.refl hR c
        · rename_i i _
          split
          · exact Each.refl hR c
          · rw [windowOnStream]
            split
            · exact Each.refl hR c
            · dsimp only
              have hWindow : Each R c
                (c.modifyStream i fun s => { s with sendWindow := s.sendWindow + windowIncrement f }) :=
                Each.modify hR fun s _ => hR.grant _ _ rfl
              split
              · exact (hWindow.trans hR (Each.streamError hR _ _ _)).trans hR
                  (Each.modify hR fun s _ => hR.reset s)
              · exact hWindow

theorem applySetting_each (hR : Lax R) (c : H2Conn) (id val : Nat) : Each R c (applySetting c id val) := by
  rw [applySetting.eq_def]
  split
  · split
    · exact Each.connError hR c _
    · exact Each.refl hR c
  · split
    · exact Each.connError hR c _
    · dsimp only
      have hShift : List.Forall₂ R c.streams (shiftWindows ((val : Int) - c.clientInitWindow) c.streams).1 :=
        (shiftWindows_touches _ c.streams).imp hR.grant
      split
      · rw [Each, h2ConnError_eq]
        exact hShift
      · exact hShift
  · split
    · exact Each.connError hR c _
    · exact Each.refl hR c
  · exact Each.refl hR c

theorem applySettingsLoop_each (hR : Lax R) (fuel : Nat) : ∀ c p, Each R c (applySettingsLoop fuel c p) := by
  induction fuel with
  | zero => exact fun c _ => Each.refl hR c
  | succ fuel ih =>
    intro c p
    rw [applySettingsLoop]
    split
    · exact Each.refl hR c
    · exact (applySetting_each hR c _ _).trans hR (ih _ _)

theorem h2ApplySettings_each (hR : Lax R) (c : H2Conn) (payload : Bytes) :
    Each R c (h2ApplySettings c payload) := by
  rw [h2ApplySettings]
  split
  · exact Each.connError hR c _
  · exact applySettingsLoop_each hR _ c payload

theorem h2OnSettings_each (hR : Lax R) (c : H2Conn) (f : H2Frame) : Each R c (h2OnSettings env c f) := by
  rw [h2OnSettings]
  split
  · exact Each.connError hR c _
  · split
    · split
      · exact Each.connError hR c _
      · exact Each.refl hR c
    · dsimp only
      have hSeen : Each R c { c with gotClientSettings := true } := Each.same hR rfl
      have hApply := hSeen.trans hR (h2ApplySettings_each hR _ f.payload)
      split
      · exact hApply.trans hR (Each.sendFrame hR _ _)
      · exact hApply

theorem handleFrame_each (hR : Lax R) (c : H2Conn) {f : H2Frame} (hData : f.type ≠ .data)
    (hHeaders : f.type ≠ .headers)
    (hCont : f.type ≠ .cont) : Each R c (handleFrame env c f) := by
  rw [handleFrame]
  split
  · exact Each.connError hR c _
  · split
    · exact Each.connError hR c _
    · cases hType : f.type with
      | data => exact absurd hType hData
      | headers => exact absurd hType hHeaders
      | cont => exact absurd hType hCont
      | priority => exact h2OnPriority_each hR c f
      | rst => exact h2OnRst_each hR c f
      | settings => exact h2OnSettings_each hR c f
      | ping => exact h2OnPing_each hR c f
      | goaway => exact h2OnGoaway_each hR c f
      | window => exact h2OnWindow_each hR c f
      | pushPromise => exact Each.connError hR c _
      | unknown code => exact Each.refl hR c

end Cweb.H2
