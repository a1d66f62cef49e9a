import Cweb.Http.ClientGrowth
import Cweb.Http.HttpClient

/-!
# Which bytes a response is parsed from

A parsed response starts at the front of the read-ahead buffer, so it is made
of its own bytes exactly when the buffer was empty at the time the request was
sent. Nothing empties the buffer when an exchange fails or a connection is
closed.
-/

namespace Cweb.HttpClient

open Sv

/-! ## Exchanges -/

/-- Only bytes received on the connection of the request, after it was sent. -/
def Exchange.Isolated (e : Exchange) : Prop := ∀ b ∈ e.parsed, b.stamp = e.stamp

instance (e : Exchange) : Decidable e.Isolated :=
  inferInstanceAs (Decidable (∀ b ∈ e.parsed, b.stamp = e.stamp))

/-- What is parsed is a prefix of what was left over with what came for the
request behind it. -/
structure Exchange.Sound (e : Exchange) : Prop where
  parsed : ∃ got, (∀ b ∈ got, b.stamp = e.stamp) ∧ e.parsed <+: e.leftover ++ got
  headers : e.out.headers = [] ↔ e.parsed = []
  older : ∀ b ∈ e.leftover, b.stamp.sent < e.stamp.sent

theorem Exchange.Sound.isolated_iff {e : Exchange} (h : e.Sound) :
    e.Isolated ↔ e.leftover = [] ∨ e.out.headers = [] := by
  obtain ⟨got, hStamp, hPrefix⟩ := h.parsed
  constructor
  · intro hIsolated
    by_contra hNot
    rw [not_or, h.headers] at hNot
    obtain ⟨hLeft, hParsed⟩ := hNot
    obtain ⟨b, left, hb⟩ := List.exists_cons_of_ne_nil hLeft
    obtain ⟨b', parsed, hb'⟩ := List.exists_cons_of_ne_nil hParsed
    rw [hb, hb', List.cons_append, List.cons_prefix_cons] at hPrefix
    have hOld := h.older b (hb ▸ List.mem_cons_self)
    have hNew := hIsolated b' (hb' ▸ List.mem_cons_self)
    rw [hPrefix.1] at hNew
    rw [hNew] at hOld
    exact Nat.lt_irrefl _ hOld
  · rintro (hLeft | hHeaders)
    · rw [hLeft, List.nil_append] at hPrefix
      exact fun b hb => hStamp b (hPrefix.subset hb)
    · rw [h.headers] at hHeaders
      intro b hb
      rw [hHeaders] at hb
      cases hb

theorem readResponse_spec (stamp : Stamp) (method : HttpMethod) (w : Wire) :
    ∃ got, (∀ b ∈ got, b.stamp = stamp) ∧ (readResponse stamp method w).parsed <+: w.rbuf ++ got ∧
      ((readResponse stamp method w).out.headers = [] ↔ (readResponse stamp method w).parsed = []) ∧
      ∀ b ∈ (readResponse stamp method w).wire.rbuf, b ∈ w.rbuf ++ got := by
  have hHead := readHead_grows stamp (w.recvs.length + 1) w false
  have hSep := readHead_sep stamp (w.recvs.length + 1) w false
  rw [readResponse]
  rcases hRead : readHead stamp (w.recvs.length + 1) w false with ⟨w', touched, err | sep⟩
  · rw [hRead] at hHead
    obtain ⟨got, hEq, hStamp⟩ := hHead
    exact ⟨got, hStamp, List.nil_prefix, by simp [failWith, emptyResult], fun b hb => hEq ▸ hb⟩
  · rw [hRead] at hHead hSep
    have hLength := hSep sep rfl
    dsimp only at hHead hLength ⊢
    cases parseStatusLine (w'.text.take (sep + 2)) with
    | none =>
      obtain ⟨got, hEq, hStamp⟩ := hHead
      exact ⟨got, hStamp, List.nil_prefix, by simp [failWith, emptyResult], fun b hb => hEq ▸ hb⟩
    | some status =>
      have hNonempty : w'.text.take (sep + 2) ≠ [] := by
        intro hNil
        have hZero := congrArg List.length hNil
        rw [List.length_take, Wire.text, List.length_map, List.length_nil] at hZero
        omega
      have hBody := readBody_grows stamp method status (w'.text.take (sep + 2)) (sep + 4) w'
      dsimp only
      rcases hRest : readBody stamp method status (w'.text.take (sep + 2)) (sep + 4) w' with
        ⟨w'', body, err | ⟨stop, closed⟩⟩
      · rw [hRest] at hBody
        have hMore := hBody.length_le
        obtain ⟨got, hEq, hStamp⟩ := hHead.trans hBody
        dsimp only at hMore hEq ⊢
        refine ⟨got, hStamp, by rw [← hEq], iff_of_false hNonempty ?_, fun b hb => hEq ▸ hb⟩
        intro hNil
        rw [hNil, List.length_nil] at hMore
        omega
      · rw [hRest] at hBody
        have hMore := hBody.length_le
        have hStop := readBody_pos (by omega) hLength hRest
        obtain ⟨got, hEq, hStamp⟩ := hHead.trans hBody
        dsimp only at hMore hEq ⊢
        refine ⟨got, hStamp, ?_, ?_, ?_⟩
        · rw [← hEq]
          exact List.take_prefix stop w''.rbuf
        · refine iff_of_false hNonempty ?_
          intro hNil
          have hZero := congrArg List.length hNil
          rw [List.length_take, List.length_nil] at hZero
          omega
        · intro b hb
          exact hEq ▸ List.mem_of_mem_drop hb

/-! ## Runs -/

/-- No byte in the buffer is stamped with a request still to be sent. -/
def Aged (c : HttpClient) : Prop := ∀ b ∈ c.rbuf, b.stamp.sent ≤ c.sent

theorem connectStep_frame (c : HttpClient) (net : Net) :
    (connectStep c net).1.rbuf = c.rbuf ∧ (connectStep c net).1.sent = c.sent := by
  rw [connectStep]
  split
  · exact ⟨rfl, rfl⟩
  · dsimp only
    split <;> exact ⟨rfl, rfl⟩

theorem sentAttempt_sound {c : HttpClient} (h : Aged c) (net : Net) (r : Request) (conn : Nat)
    (reused : Bool) :
    Aged (sentAttempt c net r conn reused).client ∧ ∀ e ∈ (sentAttempt c net r conn reused).log, e.Sound := by
  obtain ⟨got, hStamp, hParsed, hHeaders, hKept⟩ :=
    readResponse_spec ⟨conn, c.sent + 1⟩ r.method ⟨c.rbuf, net.recvs⟩
  constructor
  · intro b hb
    change b.stamp.sent ≤ c.sent + 1
    obtain hOld | hNew := List.mem_append.mp (hKept b hb)
    · exact (h b hOld).trans (Nat.le_succ _)
    · rw [hStamp b hNew]
  · intro e he
    obtain rfl := List.mem_singleton.mp he
    exact ⟨⟨got, hStamp, hParsed⟩, hHeaders, fun b hb => Nat.lt_succ_of_le (h b hb)⟩

theorem attempt_sound {c : HttpClient} (h : Aged c) (net : Net) (r : Request) :
    Aged (attempt c net r).client ∧ ∀ e ∈ (attempt c net r).log, e.Sound := by
  have hConnected : Aged (connectStep c net).1 := by
    obtain ⟨hBuffer, hSent⟩ := connectStep_frame c net
    rw [Aged, hBuffer, hSent]
    exact h
  obtain ⟨c', net', err, hConnect, hEq⟩ | ⟨c', net', conn, reason, result, hConnect, hEq, _, _⟩ |
    ⟨c', net', conn, hConnect, _, hEq⟩ := attempt_cases c net r
  · rw [hConnect] at hConnected
    rw [hEq]
    exact ⟨hConnected, fun e he => absurd he List.not_mem_nil⟩
  · rw [hConnect] at hConnected
    rw [hEq]
    exact ⟨hConnected, fun e he => absurd he List.not_mem_nil⟩
  · rw [hConnect] at hConnected
    rw [hEq]
    exact sentAttempt_sound hConnected _ r conn _

theorem sound_append {log log' : List Exchange} (h : ∀ e ∈ log, e.Sound) (h' : ∀ e ∈ log', e.Sound) :
    ∀ e ∈ log ++ log', e.Sound := by
  intro e he
  obtain he | he := List.mem_append.mp he
  · exact h e he
  · exact h' e he

theorem attempts_sound (rounds : Nat) :
    ∀ {c : HttpClient}, Aged c → ∀ net r,
      Aged (attempts rounds c net r).1 ∧ ∀ e ∈ (attempts rounds c net r).2.2.1, e.Sound := by
  induction rounds with
  | zero => exact fun h _ _ => ⟨h, fun e he => absurd he List.not_mem_nil⟩
  | succ rounds ih =>
    intro c h net r
    have hFirst := attempt_sound h net r
    rw [attempts]
    split
    · rename_i hEq
      rw [hEq] at hFirst
      exact hFirst
    · rename_i hEq
      rw [hEq] at hFirst
      obtain ⟨hAged, hLog⟩ := ih hFirst.1 _ r
      exact ⟨hAged, sound_append hFirst.2 hLog⟩

theorem resolveTarget_frame (c : HttpClient) (raw : Bytes) :
    (resolveTarget c raw).1.rbuf = c.rbuf ∧ (resolveTarget c raw).1.sent = c.sent := by
  rw [resolveTarget]
  split
  · split
    · exact ⟨rfl, rfl⟩
    · split
      · exact ⟨rfl, rfl⟩
      · split
        · exact ⟨rfl, rfl⟩
        · split
          · exact ⟨rfl, rfl⟩
          · split <;> exact ⟨rfl, rfl⟩
  · split
    · exact ⟨rfl, rfl⟩
    · split <;> exact ⟨rfl, rfl⟩

theorem doRequest_sound {c : HttpClient} (h : Aged c) (net : Net) (raw : Bytes) (method : HttpMethod)
    (extraHeaders body : Bytes) :
    Aged (doRequest c net raw method extraHeaders body).1 ∧
      ∀ e ∈ (doRequest c net raw method extraHeaders body).2.2.1, e.Sound := by
  have hResolved : Aged (resolveTarget c raw).1 := by
    obtain ⟨hBuffer, hSent⟩ := resolveTarget_frame c raw
    rw [Aged, hBuffer, hSent]
    exact h
  rw [doRequest]
  split
  · exact ⟨h, fun e he => absurd he List.not_mem_nil⟩
  · split
    · rename_i hEq
      rw [hEq] at hResolved
      exact ⟨hResolved, fun e he => absurd he List.not_mem_nil⟩
    · rename_i hEq
      rw [hEq] at hResolved
      exact attempts_sound 2 hResolved _ _

theorem followRedirects_sound (extraHeaders : Bytes) (left : Nat) :
    ∀ hops {c : HttpClient}, Aged c → ∀ net raw method body,
      Aged (followRedirects extraHeaders left hops c net raw method body).1 ∧
        ∀ e ∈ (followRedirects extraHeaders left hops c net raw method body).2.2.1, e.Sound := by
  induction left with
  | zero =>
    intro hops c h net raw method body
    have hFirst := doRequest_sound h net raw method extraHeaders body
    rw [followRedirects]
    split
    · rename_i hEq
      rw [hEq] at hFirst
      exact hFirst
    · rename_i hEq
      rw [hEq] at hFirst
      dsimp only
      split <;> exact hFirst
  | succ left ih =>
    intro hops c h net raw method body
    have hFirst := doRequest_sound h net raw method extraHeaders body
    rw [followRedirects]
    split
    · rename_i hEq
      rw [hEq] at hFirst
      exact hFirst
    · rename_i hEq
      rw [hEq] at hFirst
      dsimp only
      split
      · split
        · split
          · exact hFirst
          · rename_i hLeft _ _
            obtain rfl := Nat.succ.inj hLeft
            obtain ⟨hAged, hLog⟩ := ih (hops + 1) hFirst.1 _ _ _ _
            exact ⟨hAged, sound_append hFirst.2 hLog⟩
        · exact hFirst
      · exact hFirst

theorem runCalls_sound (calls : List Call) :
    ∀ {c : HttpClient}, Aged c → ∀ net, ∀ e ∈ (runCalls c net calls).2.2, e.Sound := by
  induction calls with
  | nil => exact fun _ _ e he => absurd he List.not_mem_nil
  | cons call calls ih =>
    intro c h net
    cases call with
    | setRedirects n => exact ih (c := httpClientSetRedirects c n) h net
    | req url method extraHeaders body =>
      obtain ⟨hAged, hLog⟩ := followRedirects_sound (svFromCstr extraHeaders) c.redirects 0 h net
        (svFromCstr url) method body
      exact sound_append hLog (ih hAged _)

theorem httpClientOpen_aged {base : Option Bytes} {c : HttpClient} (h : httpClientOpen base = some c) :
    Aged c := by
  have hEmpty : c.rbuf = [] := by
    cases base with
    | none =>
      obtain rfl := Option.some.inj h
      rfl
    | some url =>
      simp only [httpClientOpen] at h
      split at h
      · cases h
      · split at h
        · obtain ⟨port, _, rfl⟩ := Option.map_eq_some_iff.mp h
          rfl
        · cases h
  intro b hb
  rw [hEmpty] at hb
  cases hb

/-- When every request is sent with an empty buffer each response is made of
its own bytes, and whatever is parsed behind left over bytes is not. -/
theorem responses_isolated_of_empty {base : Option Bytes} {c : HttpClient} (h : httpClientOpen base = some c)
    (net : Net) (calls : List Call) :
    ((∀ e ∈ (runCalls c net calls).2.2, e.leftover = []) → ∀ e ∈ (runCalls c net calls).2.2, e.Isolated) ∧
      ∀ e ∈ (runCalls c net calls).2.2, e.leftover ≠ [] → e.parsed ≠ [] → ¬ e.Isolated := by
  have hSound := runCalls_sound calls (httpClientOpen_aged h) net
  constructor
  · intro hEmpty e he
    exact (hSound e he).isolated_iff.mpr (.inl (hEmpty e he))
  · intro e he hLeft hParsed hIsolated
    obtain hNone | hHeaders := (hSound e he).isolated_iff.mp hIsolated
    · exact hLeft hNone
    · exact hParsed ((hSound e he).headers.mp hHeaders)

/-- A fresh client, one request and its whole response. -/
theorem responses_isolated_single :
    httpClientOpen none = some ⟨none, [], 0, 0, 5, [], 0⟩ ∧
    ∀ e ∈ (runCalls ⟨none, [], 0, 0, 5, [], 0⟩
      ⟨[none], [none], [.data (ascii "HTTP/1.1 200 OK\r\nContent-Length: 2\r\n\r\nhi")]⟩
      [.req (ascii "http://a/") .get [] []]).2.2, e.Isolated := by
  refine ⟨rfl, (@responses_isolated_of_empty none _ rfl _ _).1 ?_⟩
  decide +kernel

/-- The head of a response whose body never came is left in the buffer, and
the next request, to another host, is answered with it. -/
theorem response_from_failed_exchange :
    ((runCalls ⟨none, [], 0, 0, 5, [], 0⟩
      ⟨[none, none], [none, none], [.data (ascii "HTTP/1.1 200 OK\r\nContent-Length: 8\r\n\r\n"), .timeout,
        .data (ascii "HTTP/1.1 404 Not Found\r\n\r\n"), .closed]⟩
      [.req (ascii "http://a/") .get [] [], .req (ascii "http://b/") .get [] []]).2.2.map fun e =>
        (e.host, e.out.status, e.out.body, e.out.error.isSome, decide e.Isolated)) =
    [(ascii "a", 200, [], true, true), (ascii "b", 200, ascii "HTTP/1.1", false, false)] := by
  decide +kernel

end Cweb.HttpClient
