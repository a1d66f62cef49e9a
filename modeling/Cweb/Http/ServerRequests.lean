import Cweb.Http.RequestCut

/-!
# The requests of a connection

The handler is called with requests that were parsed, but for the body and for
fields that were taken away. So it is with a request whose body goes to a file.
-/

namespace Cweb

open Sv H2 Loop

variable {env : ServerEnv} {P : HttpRequest → Prop}

/-! ## Bodies in a file -/

/-- What holds of the request whose body is on its way to a file. -/
def Spills (P : HttpRequest → Prop) (m : Conn) : Prop := ∀ sp, m.spill = some sp → P sp.req

/-- What holds of the requests whose bodies begin to go to a file. -/
def Begins (env : ServerEnv) (P : HttpRequest → Prop) (m : Conn) : Prop :=
  ∀ req, httpRequestParseAdv m.rb.view m.rb.behind = .incomplete req →
    (env.maxBody : Int) < req.contentLength →
    P (httpRequestParseHeaderBlock req (m.rb.view.take req.bodyOffset))

theorem Spills.of_none {m : Conn} (h : m.spill = none) : Spills P m := by
  intro sp hSpill
  rw [h] at hSpill
  cases hSpill

theorem readOn_spills {m : Conn} (hSpill : m.spill = none) {req : HttpRequest}
    (hBegins : (env.maxBody : Int) < req.contentLength →
      P (httpRequestParseHeaderBlock req (m.rb.view.take req.bodyOffset))) :
    Spills P (readOn env m req).state := by
  rw [readOn]
  split
  · split
    · exact .of_none hSpill
    · split
      · rename_i hLong
        rw [spillStart]
        split
        · exact .of_none hSpill
        · intro sp hSome
          obtain rfl := Option.some.inj hSome
          exact hBegins hLong.2.1
      · exact .of_none hSpill
  · exact .of_none ((fillMore_spill m).trans hSpill)

theorem incompleteTurn_spills {m : Conn} (hSpill : m.spill = none) {req : HttpRequest}
    (hBegins : (env.maxBody : Int) < req.contentLength →
      P (httpRequestParseHeaderBlock req (m.rb.view.take req.bodyOffset))) :
    Spills P (incompleteTurn env m req).state := by
  rw [incompleteTurn]
  split
  · dsimp only
    split
    · exact .of_none hSpill
    · split
      · split
        · exact .of_none hSpill
        · split
          · exact .of_none hSpill
          · apply readOn_spills
            · exact hSpill
            · exact hBegins
      · exact readOn_spills hSpill hBegins
  · exact readOn_spills hSpill hBegins

def SpillsPass (P : HttpRequest → Prop) : Pass → Prop
  | .next t => Spills P t.state
  | .staged m' _ _ => m'.spill = none

theorem drainPass_spills {m : Conn} {sp : Spill} (hSpill : m.spill = some sp) (h : Spills P m) :
    SpillsPass P (drainPass env m sp) := by
  have hHere := h sp hSpill
  have hSame : ∀ {m' : Conn}, m'.spill = m.spill → Spills P m' := by
    intro m' hEq sp' hSome
    exact h sp' (hEq.symm.trans hSome)
  rw [drainPass]
  dsimp only
  split
  · refine hSame ?_
    rw [Turn.state, stalled]
    split <;> rfl
  · exact hSame rfl
  · split
    · exact hSame rfl
    · split
      · rw [spillDone]
        dsimp only
        split
        · exact rfl
        · exact .of_none rfl
      · intro sp' hSome
        obtain rfl := Option.some.inj hSome
        exact hHere

theorem sniffTurn_spill (m : Conn) : (sniffTurn env m).state.spill = m.spill := by
  rw [sniffTurn]
  split
  · exact fillMore_spill m
  · split
    · exact fillMore_spill m
    · split <;> rfl

theorem unfoldedPass_spills {m : Conn} (hSpill : m.spill = none) (req : HttpRequest) (consumed : Nat)
    (moved : Bytes → ReadBuffer) (held : ReadBuffer → Bytes) (unfolded : Unfolded) :
    SpillsPass P (unfoldedPass env m req consumed moved held unfolded) := by
  cases unfolded with
  | complete payload left overread => exact hSpill
  | incomplete payload =>
    rw [unfoldedPass]
    dsimp only [SpillsPass]
    split
    · exact .of_none hSpill
    · exact .of_none ((fillMore_spill _).trans hSpill)
  | malformed payload => exact hSpill
  | wild => exact .of_none hSpill

theorem overreadPass_spills {m : Conn} (hSpill : m.spill = none) : SpillsPass P (overreadPass env m) := by
  rw [overreadPass]
  split
  · exact .of_none hSpill
  · split
    · exact unfoldedPass_spills (m := m.log [.overread]) hSpill _ _ _ _ _
    · exact hSpill

theorem servePass_spills {m : Conn} (hBegins : Begins env P m) (h : Spills P m) :
    SpillsPass P (servePass env m) := by
  rw [servePass]
  split
  · intro sp hSome
    exact h sp ((sniffTurn_spill m).symm.trans hSome)
  · rename_i sp hServe hSpill
    exact drainPass_spills hSpill h
  · rename_i hServe hSpill
    rw [parsePass]
    split
    · rename_i req hParse
      exact incompleteTurn_spills hSpill (hBegins req hParse)
    · exact .of_none hSpill
    · exact overreadPass_spills hSpill
    · split
      · exact unfoldedPass_spills hSpill _ _ _ _ _
      · exact hSpill

theorem serves_spills {arrivals : List Arrival} (hBegins : ∀ m, Begins env P m) {m : Conn}
    (h : Serves env arrivals m) :
    Spills P m := by
  refine Visits.invariant (P := Spills P) h (.of_none rfl) ?_
  intro m₁ m₂ _ hBefore hTurn
  have hPass := servePass_spills (hBegins m₁) hBefore
  rw [serveTurn] at hTurn
  split at hTurn
  · rename_i t hNext
    rw [hNext, SpillsPass, hTurn] at hPass
    exact hPass
  · rename_i m' req consumed hStaged
    rw [hStaged] at hPass
    have hSpill := @dispatch_spill env m' req consumed
    rw [hTurn] at hSpill
    exact .of_none (hSpill.trans hPass)

/-! ## Staged requests -/

/-- A request but for its body and its fields. -/
def SameLine (req₀ req : HttpRequest) : Prop := req = { req₀ with headers := req.headers, body := req.body }

theorem unfoldedPass_staged {m m' : Conn} {req₀ req : HttpRequest} {consumed₀ consumed : Nat}
    {moved : Bytes → ReadBuffer}
    {held : ReadBuffer → Bytes} {unfolded : Unfolded}
    (h : unfoldedPass env m req₀ consumed₀ moved held unfolded = .staged m' req consumed) :
    m'.calls = m.calls ∧ SameLine req₀ req := by
  cases unfolded with
  | complete payload left overread =>
    cases h
    exact ⟨rfl, rfl⟩
  | incomplete payload => cases h
  | malformed payload =>
    cases h
    exact ⟨rfl, rfl⟩
  | wild => cases h

/-- What the parser makes of a view and of the memory behind it. -/
def ParsedAs (raw behind : Bytes) (req : HttpRequest) (consumed : Nat) : Prop :=
  httpRequestParseAdv raw behind = .ok req consumed ∨ parseBehind raw behind = some (req, consumed)

theorem staged_from {m m' : Conn} {req : HttpRequest} {consumed : Nat}
    (h : servePass env m = .staged m' req consumed) :
    m'.calls = m.calls ∧ ((∃ sp, m.spill = some sp ∧ SameLine sp.req req) ∨
      ∃ req₀ consumed₀, ParsedAs m.rb.view m.rb.behind req₀ consumed₀ ∧ SameLine req₀ req) := by
  rw [servePass] at h
  split at h
  · cases h
  · rename_i sp _ hSpill
    rw [drainPass] at h
    dsimp only at h
    split at h
    · cases h
    · cases h
    · split at h
      · cases h
      · split at h
        · rw [spillDone] at h
          dsimp only at h
          split at h
          · cases h
            exact ⟨rfl, .inl ⟨sp, hSpill, rfl⟩⟩
          · cases h
        · cases h
  · rw [parsePass] at h
    split at h
    · cases h
    · cases h
    · rw [overreadPass] at h
      split at h
      · cases h
      · rename_i req₀ consumed₀ hParse
        split at h
        · obtain ⟨hCalls, hLine⟩ := unfoldedPass_staged h
          exact ⟨hCalls, .inr ⟨_, _, .inr hParse, hLine⟩⟩
        · cases h
          exact ⟨rfl, .inr ⟨_, _, .inr hParse, rfl⟩⟩
    · rename_i req₀ consumed₀ hParse
      split at h
      · obtain ⟨hCalls, hLine⟩ := unfoldedPass_staged h
        exact ⟨hCalls, .inr ⟨_, _, .inl hParse, hLine⟩⟩
      · cases h
        exact ⟨rfl, .inr ⟨_, _, .inl hParse, rfl⟩⟩

/-! ## Calls -/

theorem callHandler_called (env : ServerEnv) (m : Conn) (req : HttpRequest) (consumed : Nat) :
    (callHandler env m req consumed).state.calls = m.calls ++ [{ req with remote := env.remote }] := by
  rw [callHandler]
  dsimp only
  split
  · split <;> rfl
  · split
    · rfl
    · split <;> rfl

theorem dispatch_called (m : Conn) (req : HttpRequest) (consumed : Nat) :
    (dispatch env m req consumed).state.calls = m.calls ∨
    ∃ body, (dispatch env m req consumed).state.calls = m.calls ++
      [{ req with body := body, remote := env.remote }] := by
  rw [dispatch]
  split
  · exact .inl rfl
  · split
    · split
      · exact .inl rfl
      · exact .inl rfl
      · exact .inr ⟨_, callHandler_called env m _ consumed⟩
    · exact .inr ⟨req.body, callHandler_called env m req consumed⟩

/-- What holds of a request whatever its fields, its body and its peer are. -/
def OfLine (P : HttpRequest → Prop) : Prop :=
  ∀ req headers body remote, P req → P { req with headers := headers, body := body, remote := remote }

/-- What the parser makes of every request line. -/
def Parses (P : HttpRequest → Prop) : Prop := ∀ raw behind req,
  httpRequestParseAdv raw behind = .incomplete req ∨ (∃ consumed, ParsedAs raw behind req consumed) → P req

theorem serveTurn_calls (hLine : OfLine P) (hParses : Parses P) {m : Conn} (hSpills : Spills P m)
    (h : ∀ req ∈ m.calls, P req) :
    ∀ req ∈ (serveTurn env m).state.calls, P req := by
  intro req hReq
  rw [serveTurn] at hReq
  split at hReq
  · rename_i t hNext
    rw [next_calls hNext] at hReq
    exact h req hReq
  · rename_i m' staged consumed hStaged
    obtain ⟨hSame, hFrom⟩ := staged_from hStaged
    have hHere : ∀ body, P { staged with body := body, remote := env.remote } := by
      intro body
      obtain ⟨sp, hSpill, hEq⟩ | ⟨req₀, consumed₀, hParse, hEq⟩ := hFrom
      · rw [hEq]
        exact hLine sp.req _ body _ (hSpills sp hSpill)
      · rw [hEq]
        exact hLine req₀ _ body _ (hParses _ _ req₀ (.inr ⟨consumed₀, hParse⟩))
    obtain hNone | ⟨body, hCalled⟩ := @dispatch_called env m' staged consumed
    · rw [hNone, hSame] at hReq
      exact h req hReq
    · rw [hCalled, hSame] at hReq
      obtain hReq | hReq := List.mem_append.mp hReq
      · exact h req hReq
      · rw [List.mem_singleton.mp hReq]
        exact hHere body

theorem runs_calls (hLine : OfLine P) (hParses : Parses P) {arrivals : List Arrival} {m : Conn}
    (h : Runs env arrivals m) :
    ∀ req ∈ m.calls, P req := by
  have hBegins : ∀ m, Begins env P m := by
    intro m req hParse _
    rw [httpRequestParseHeaderBlock, foldl_parseHeaderLine_eq]
    exact hLine req _ req.body req.remote (hParses _ _ req (.inl hParse))
  have hServes : ∀ {m}, Serves env arrivals m → ∀ req ∈ m.calls, P req := by
    intro m hServes
    refine Visits.invariant (P := fun m => ∀ req ∈ m.calls, P req) hServes (fun _ hReq => nomatch hReq) ?_
    intro m₁ m₂ hVisits hBefore hTurn
    have hAfter := @serveTurn_calls env P hLine hParses m₁ (serves_spills hBegins hVisits) hBefore
    rw [hTurn] at hAfter
    exact hAfter
  obtain hServes' | ⟨m', hServes', hLeave⟩ := h
  · exact hServes hServes'
  · have hAfter := @serveTurn_calls env P hLine hParses m' (serves_spills hBegins hServes') (hServes hServes')
    rw [hLeave] at hAfter
    exact hAfter

end Cweb
