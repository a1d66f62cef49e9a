import Cweb.Http.H2Ids
import Cweb.Http.ServerRequests

/-!
# The upgrade to HTTP/2

A request that asks for the upgrade becomes stream 1, and what is buffered behind
it is read as frames. It is compared with the request that the HTTP/1.1 loop would
dispatch if these bytes were all there is and did not ask for the upgrade. The
query is lost, as the path takes the place of the target; without a length the
body runs on over the frames; and a length stays that of the compressed body.
-/

namespace Cweb

open Sv H2 Loop

/-! ## The request on its own -/

def upgradeName (name : Bytes) : Bool :=
  [ascii "connection", ascii "upgrade", ascii "http2-settings"].any fun n => svIeq name n

def withoutUpgrade (req : HttpRequest) : HttpRequest := req.keeping fun name => !upgradeName name

/-- The request that is staged when the buffer holds these bytes only. -/
def stagedAlone (bytes : Bytes) : Option HttpRequest :=
  match parseKept (fun name => !upgradeName name) bytes [] with
  | .ok req _ =>
    if httpRequestGetHeader req (ascii "transfer-encoding") ≠ none then
      match httpRequestDecodeChunked req [] with
      | .complete payload _ _ => some { req with body := payload }
      | _ => none
    else some req
  | _ => none

/-- The bytes of a request are those counted as consumed, or the head and a file. -/
def alone (m : Conn) (req : HttpRequest) (consumed : Nat) : Option HttpRequest :=
  match m.spill with
  | none => stagedAlone ((m.rb.view ++ m.rb.behind).take consumed)
  | some _ => some (withoutUpgrade req)

def inflated (env : ServerEnv) (req : HttpRequest) : Option Bytes :=
  if isGzip req then
    match env.inflate req.body env.maxInflated with
    | .ok bytes => some bytes
    | _ => none
  else some req.body

/-- What the HTTP/1.1 loop gives the handler. -/
def calledWith (env : ServerEnv) (req : HttpRequest) : Option HttpRequest :=
  (inflated env req).map fun bytes => { req with body := bytes, remote := env.remote }

/-! ## The claim about the upgrade -/

/-- What stream 1 keeps of the request. -/
structure SameRequest (seen alone : HttpRequest) : Prop where
  method : seen.method = alone.method
  target : seen.target = alone.target
  path : seen.path = alone.path
  query : seen.query = alone.query
  body : seen.body = alone.body
  headers : seen.headers = alone.headers.filter fun h =>
    !(connSpecName h.key || svIeq h.key (ascii "http2-settings"))
  length : seen.contentLength = seen.body.length

def SeenSame : List HttpRequest → Option HttpRequest → Prop
  | [], none => True
  | [seen], some alone => SameRequest seen alone
  | _, _ => False

/-- The calls for stream 1 in a run of the connection that the upgrade begins. -/
def StreamOneCalls (env : H2Env) (req : HttpRequest) (calls : List HttpRequest) : Prop :=
  ∃ c₀ log c, h2Start env (some req) = some c₀ ∧ LoggedRun env c₀ log c ∧
    calls = (log.filter fun call => call.id == 1).map Call.req

/-- The storage of the stream backs all views of its request. -/
def ViewsLast (req : HttpRequest) : Prop := ∀ v ∈ (upgradeStorage req).2, (upgradeStorage req).1.Backs v

/-- The head of the request was read. What follows the request is handed over, and
fits the buffer of the frames. The request has the body it has alone, and so has the
call, which is made while all views of the request last. -/
structure RequestKept (env : ServerEnv) (m m' : Conn) (req : HttpRequest) (consumed : Nat) : Prop where
  received : req.bodyOffset ≤ m.rb.count
  handed : serveTurn env m = .leave (m'.log [.handover (some req) (m'.rb.view.drop consumed)])
  room : (m'.rb.view.drop consumed).length ≤ h2BufferCap
  same : ∃ req', alone m req consumed = some req' ∧ req.body = req'.body ∧
    ∀ calls, StreamOneCalls env.toH2Env req calls → SeenSame calls (calledWith env req') ∧
    (calls ≠ [] → ViewsLast req)

/-- The length that stream 1 declares. -/
def declared (req : HttpRequest) : Int := if 0 ≤ req.contentLength then req.contentLength else req.body.length

/-- How much the storage takes in behind the path. -/
def fieldsLength (fields : List HttpHeader) : Nat := (fields.map fun h => h.key.length + h.value.length).sum

/-- The fields fit behind the path, in the room that was taken for the path. -/
def Storable (req : HttpRequest) : Prop :=
  req.path.length + fieldsLength (upgradeFields req) ≤ sbGrowTo 0 req.path.length

/-- The head ends within what was read. The body ends by its own account, or nothing
follows. If the stream begins, and its body inflates, the target has no query, the
length is within the limit, inflating does not change it, and the storage of the
stream does not move. -/
structure Upgradable (env : ServerEnv) (m m' : Conn) (req : HttpRequest) (consumed : Nat) : Prop where
  received : req.bodyOffset ≤ m.rb.count
  ends : 0 ≤ req.contentLength ∨ httpRequestGetHeader req (ascii "transfer-encoding") ≠ none ∨
    m'.rb.view.drop consumed = []
  room : (m'.rb.view.drop consumed).length ≤ h2BufferCap
  plain : (h2Start env.toH2Env (some req)).isSome = true → ∀ bytes, inflated env req = some bytes →
    63 ∉ req.target ∧ declared req ≤ env.maxBody ∧ declared req = bytes.length ∧ Storable req

end Cweb

namespace Cweb.H2

open Sv

variable {env : H2Env}

/-! ## Stream 1 -/

/-- Stream 1, before it is dispatched. -/
structure FromUpgrade (src : HttpRequest) (s : H2Stream) : Prop where
  id : s.id = 1
  dispatched : s.dispatched = false
  reset : s.reset = false
  remote : s.remoteEnded = true
  small : s.bodyTooBig = false
  body : s.body = src.body
  method : s.req.method = src.method
  target : s.req.target = src.path
  path : s.req.path = (splitQuery src.path).1
  query : s.req.query = (splitQuery src.path).2
  length : s.req.contentLength = declared src
  headers : (∀ f ∈ src.headers, 58 ∉ f.key) →
    s.req.headers = src.headers.filter fun h => !(connSpecName h.key || svIeq h.key (ascii "http2-settings"))

theorem h2AddUpgradeStream_fromUpgrade {c : H2Conn} (hNone : c.streams = []) (src : HttpRequest) :
    ∃ s, (h2AddUpgradeStream env c src).streams = [s] ∧ FromUpgrade src s := by
  rw [h2AddUpgradeStream]
  dsimp only
  rw [hNone]
  refine ⟨_, rfl, ⟨rfl, rfl, rfl, rfl, rfl, rfl, rfl, rfl, rfl, rfl, rfl, ?_⟩⟩
  intro hNames
  have hAuthority : httpRequestGetHeader src (ascii ":authority") = none := getHeader_colon hNames (by decide)
  rw [newStream]
  dsimp only
  rw [upgradeFields, hAuthority]
  cases hHost : src.headers.any fun h => svIeq h.key (ascii "host") with
  | true => exact List.append_nil _
  | false =>
    have hMissing : httpRequestGetHeader src (ascii "host") = none := by
      rw [httpRequestGetHeader, Option.map_eq_none_iff, List.find?_eq_none]
      intro f hf hSame
      have hOther := List.any_eq_false.mp hHost f hf
      rw [svIeq_of_toupper (beq_iff_eq.mp hSame)] at hOther
      exact hOther (by decide)
    rw [hMissing]
    exact List.append_nil _

theorem h2Start_fromUpgrade {src : HttpRequest} {c : H2Conn} (h : h2Start env (some src) = some c) :
    ∃ s, c.streams = [s] ∧ FromUpgrade src s := by
  simp only [h2Start] at h
  split at h
  · cases h
  · rename_i c' hText
    obtain ⟨c'', hSettings, rfl⟩ := Option.map_eq_some_iff.mp h
    have hNone : c'.streams = [] := by
      obtain ⟨writes, events, hEq, _⟩ := @prologueStart_eq env (some src)
      rw [prologueStart, hText] at hEq
      dsimp only at hEq
      rw [hEq]
      rfl
    rw [h2SendSettings, h2SendFrame_streams]
    exact h2AddUpgradeStream_fromUpgrade (upgradeSettings_streams hSettings hNone) src

/-- Stream 1 has been answered, and its id is not used again. -/
structure Answered (c : H2Conn) : Prop where
  last : 1 ≤ c.lastStreamId
  done : ∀ s ∈ c.streams, s.id = 1 → s.dispatched = true ∨ s.reset = true

theorem Answered.settle {c : H2Conn} (h : Answered c) (hOk : c.error = none) : Answered (settle env c) := by
  constructor
  · rw [settle_lastStreamId]
    exact h.last
  · intro s' hs' hId
    obtain ⟨s, hs, hSurvives⟩ := settle_survives hOk hs'
    obtain hDone | hReset := h.done s hs (hSurvives.id.symm.trans hId)
    · exact .inl (hSurvives.dispatched hDone)
    · exact .inr (hSurvives.reset.trans hReset)

theorem Answered.process {c : H2Conn} (h : Answered c) (f : H2Frame) : Answered (h2ProcessFrame env c f) := by
  have hEffect := @handleFrame_effect env { c with trace := c.trace ++ [.recv f] } f
  refine ⟨h.last.trans hEffect.last, ?_⟩
  intro s' hs' hId
  obtain ⟨e, hOpened, _⟩ | hKeeps := hEffect.streams
  · obtain ⟨req, window, hStreams⟩ := hOpened.streams
    rw [h2ProcessFrame, hStreams] at hs'
    obtain hs' | hs' := List.mem_append.mp hs'
    · exact h.done s' hs' hId
    · have hNew : f.streamId = 1 := by
        rw [List.mem_singleton.mp hs'] at hId
        exact hId
      have hFresh : c.lastStreamId < f.streamId := hOpened.fresh
      have hLast := h.last
      omega
  · obtain ⟨s, hs, hKept⟩ := mem_of_forall₂ hKeeps hs'
    obtain hDone | hReset := h.done s hs (hKept.id.symm.trans hId)
    · exact .inl (hKept.dispatched.trans hDone)
    · exact .inr (hKept.reset hReset)

theorem Answered.calls {c : H2Conn} (h : Answered c) :
    (callsOf env c).filter (fun call => call.id == 1) = [] := by
  rw [List.filter_eq_nil_iff]
  intro call hCall hId
  obtain ⟨_, _, s, hs, hSame, hReq⟩ := mem_callsOf hCall
  obtain ⟨hDispatched, hReset, _⟩ := handedOver_ready hReq
  obtain hDone | hDone := h.done s hs (hSame.trans (beq_iff_eq.mp hId))
  · rw [hDispatched] at hDone
    cases hDone
  · rw [hReset] at hDone
    cases hDone

theorem answered_start {src : HttpRequest} {c : H2Conn} (hStart : h2Start env (some src) = some c)
    (hOk : (settle env c).error = none) : Answered (settle env c) := by
  obtain ⟨s, hOne, hFrom⟩ := h2Start_fromUpgrade hStart
  constructor
  · rw [settle_lastStreamId, ← hFrom.id]
    exact ((distinct_start hStart).bound s (hOne ▸ List.mem_singleton_self s)).2
  · intro s' hs' _
    obtain ⟨t, ht, hSurvives⟩ := settle_survives (h2Start_error hStart) hs'
    rw [hOne] at ht
    obtain rfl := List.mem_singleton.mp ht
    obtain hDone | hReset | hOpen := (settle_idle hOk s' hs').1
    · exact .inl hDone
    · exact .inr hReset
    · rw [hSurvives.remote, hFrom.remote] at hOpen
      cases hOpen

theorem LoggedRun.first_calls {src : HttpRequest} {c₀ c : H2Conn} {log : List Call}
    (hStart : h2Start env (some src) = some c₀) (h : LoggedRun env c₀ log c) :
    log.filter (fun call => call.id == 1) = (callsOf env c₀).filter (fun call => call.id == 1) ∧
      (c.error = none → Answered c) := by
  induction h with
  | start => exact ⟨rfl, answered_start hStart⟩
  | turn _ hOk ih =>
    obtain ⟨hCalls, hAnswered⟩ := ih
    rw [List.filter_append, hCalls, (hAnswered hOk).calls, List.append_nil]
    exact ⟨rfl, fun _ => (hAnswered hOk).settle hOk⟩
  | frame f _ hOk ih =>
    obtain ⟨hCalls, hAnswered⟩ := ih
    have hAfter := @Answered.process env _ (hAnswered hOk) f
    rw [List.filter_append, hCalls, hAfter.calls, List.append_nil, frameStep]
    refine ⟨rfl, ?_⟩
    split
    · rename_i hNone
      exact fun _ => hAfter.settle hNone
    · exact fun _ => hAfter
  | behind f g _ _ hFails _ _ ih =>
    exact ⟨ih.1, fun hNone => absurd (h2ProcessFrame_error g hNone) hFails.failed⟩

theorem streamOneCalls_iff {src : HttpRequest} {c₀ : H2Conn} (hStart : h2Start env (some src) = some c₀) :
    ∃ s, FromUpgrade src s ∧ ∀ calls, StreamOneCalls env src calls ↔ calls = (handedOver env s).toList := by
  obtain ⟨s, hOne, hFrom⟩ := h2Start_fromUpgrade hStart
  have hFirst : ((callsOf env c₀).filter fun call => call.id == 1).map Call.req =
    (handedOver env s).toList := by
    rw [callsOf, if_pos (h2Start_error hStart), hOne, List.filterMap_cons, List.filterMap_nil, hFrom.id]
    cases handedOver env s <;> rfl
  refine ⟨s, hFrom, fun calls => ⟨?_, ?_⟩⟩
  · rintro ⟨c, log, c', hStart', hRun, rfl⟩
    rw [hStart] at hStart'
    obtain rfl := Option.some.inj hStart'
    rw [(hRun.first_calls hStart).1, hFirst]
  · rintro rfl
    exact ⟨c₀, _, _, hStart, .start, hFirst.symm⟩

theorem headerHasToken_congr {req req' : HttpRequest} {name : Bytes}
    (h : httpRequestGetHeader req' name = httpRequestGetHeader req name) (token : Bytes) :
    headerHasToken req' name token = headerHasToken req name token := by
  rw [headerHasToken, headerHasToken, h]

theorem FromUpgrade.isGzip_eq {src : HttpRequest} {s : H2Stream} (h : FromUpgrade src s)
    (hNames : ∀ f ∈ src.headers, 58 ∉ f.key) : isGzip s.req = isGzip src := by
  have hFound : httpRequestGetHeader s.req (ascii "content-encoding") = httpRequestGetHeader src
    (ascii "content-encoding") := by
    refine getHeader_filter (p := fun key => !(connSpecName key || svIeq key (ascii "http2-settings")))
      (h.headers hNames) ?_
    intro key hKey
    simp only [connSpecName, svIeq_of_toupper hKey]
    decide
  rw [isGzip, isGzip, headerHasToken_congr hFound, headerHasToken_congr hFound]

theorem FromUpgrade.not_handed {src : HttpRequest} {s : H2Stream} (h : FromUpgrade src s)
    (hLong : (env.maxBody : Int) < declared src) : handedOver env s = none := by
  rw [handedOver]
  split
  · rfl
  · rw [if_pos (.inr (h.length ▸ hLong))]

theorem FromUpgrade.handed {env : ServerEnv} {src : HttpRequest} {s : H2Stream} (h : FromUpgrade src s)
    (hNames : ∀ f ∈ src.headers, 58 ∉ f.key) (hFits : declared src ≤ env.maxBody) :
    handedOver env.toH2Env s = (inflated env src).map fun bytes => { s.req with body := bytes } := by
  have hReady : ¬ (s.dispatched = true ∨ s.reset = true ∨ ¬ s.remoteEnded = true) := by
    rw [h.dispatched, h.reset, h.remote]
    decide
  have hSmall : ¬ (s.bodyTooBig = true ∨ (env.maxBody : Int) < s.req.contentLength) := by
    rw [h.small, h.length]
    rintro (hBig | hLong)
    · cases hBig
    · omega
  rw [handedOver, if_neg hReady, if_neg hSmall, inflated, ← h.isGzip_eq hNames, isGzip, h.body]
  simp only [Bool.or_eq_true]
  split
  · cases env.inflate src.body env.maxInflated <;> rfl
  · rfl

end Cweb.H2

namespace Cweb

open Sv H2 Loop

variable {env : ServerEnv}

/-! ## The storage of the stream -/

def fieldLengths (fields : List HttpHeader) : List Nat :=
  fields.flatMap fun h => [h.key.length, h.value.length]

theorem sum_fieldLengths (fields : List HttpHeader) : (fieldLengths fields).sum = fieldsLength fields := by
  induction fields with
  | nil => rfl
  | cons h fields ih =>
    have hOne : [h.key.length, h.value.length].sum = h.key.length + h.value.length := rfl
    have hMore : fieldsLength (h :: fields) = h.key.length + h.value.length + fieldsLength fields := by
      rw [fieldsLength, List.map_cons, List.sum_cons, fieldsLength]
    rw [fieldLengths, List.flatMap_cons, List.sum_append, ← fieldLengths, ih, hOne, hMore]

/-- A view is taken of the block the storage is in, at its beginning, at its end or in
between. -/
theorem storeFields_spec (fields : List HttpHeader) : ∀ {st : Strbuf × List StrbufView}, st.1.Within →
    (fields.foldl storeField st).1 = strbufAppendAll st.1 (fieldLengths fields) ∧
      st.2 ⊆ (fields.foldl storeField st).2 ∧
      ∀ v ∈ (fields.foldl storeField st).2, v ∈ st.2 ∨ st.1.moves ≤ v.block ∧
        v.block ≤ (fields.foldl storeField st).1.moves := by
  induction fields with
  | nil => exact fun _ => ⟨rfl, List.Subset.refl _, fun v hv => .inl hv⟩
  | cons h fields ih =>
    intro st hIn
    have hNext : (storeField st h).1.Within := strbufAppend_within (strbufAppend_within hIn _) _
    have hMoves : st.1.moves ≤ (storeField st h).1.moves :=
      strbufAppendAll_moves_le [h.key.length, h.value.length] hIn
    obtain ⟨hStorage, hKept, hViews⟩ := ih hNext
    rw [List.foldl_cons]
    refine ⟨hStorage, fun v hv => hKept (List.mem_append_left _ hv), fun v hv => ?_⟩
    have hLast : (storeField st h).1.moves ≤ (fields.foldl storeField (storeField st h)).1.moves := by
      rw [hStorage]
      exact strbufAppendAll_moves_le _ hNext
    obtain hv | ⟨hFrom, hTo⟩ := hViews v hv
    · obtain hv | hv := List.mem_append.mp hv
      · exact .inl hv
      · have hBlock : v.block = (storeField st h).1.moves := by
          simp only [List.mem_cons, List.not_mem_nil, or_false] at hv
          obtain rfl | rfl := hv <;> rfl
        rw [hBlock]
        exact .inr ⟨hMoves, hLast⟩
    · exact .inr ⟨hMoves.trans hFrom, hTo⟩

theorem viewsLast_iff {req : HttpRequest} (hPath : req.path ≠ []) : ViewsLast req ↔ Storable req := by
  obtain ⟨sb, hsb⟩ : ∃ sb, sb = strbufAppend strbufInit req.path.length := ⟨_, rfl⟩
  have hIn : sb.Within := hsb ▸ @strbufAppend_within strbufInit (Nat.le_refl 0) _
  have hSome : req.path.length ≠ 0 := fun hNone => hPath (List.length_eq_zero_iff.mp hNone)
  have hRoom : sb.count = req.path.length ∧ sb.capacity = sbGrowTo 0 req.path.length := by
    rw [hsb, strbufAppend, if_neg hSome, if_pos (by change 0 < 0 + _; omega)]
    exact ⟨Nat.zero_add _, congrArg (sbGrowTo 0) (Nat.zero_add _)⟩
  have hStays := strbufAppendAll_stays_iff (fieldLengths (upgradeFields req)) hIn
  rw [sum_fieldLengths, hRoom.1, hRoom.2] at hStays
  obtain ⟨hStorage, hKept, hViews⟩ :=
    @storeFields_spec (upgradeFields req) (sb, [⟨sb.moves, 0, req.path.length⟩,
    ⟨sb.moves, 0, (splitQuery req.path).1.length⟩,
    ⟨sb.moves, req.path.length - (splitQuery req.path).2.length,
      (splitQuery req.path).2.length⟩]) hIn
  rw [ViewsLast, Storable, ← hStays, ← hStorage]
  have hFold : upgradeStorage req = (upgradeFields req).foldl storeField (sb, [⟨sb.moves, 0, req.path.length⟩,
      ⟨sb.moves, 0, (splitQuery req.path).1.length⟩,
      ⟨sb.moves, req.path.length - (splitQuery req.path).2.length,
        (splitQuery req.path).2.length⟩]) := by
    rw [upgradeStorage, hsb]
  rw [hFold]
  constructor
  · intro hBacked
    obtain hNone | hBlock := hBacked _ (hKept List.mem_cons_self)
    · exact absurd hNone hSome
    · exact hBlock.symm
  · intro hSame v hv
    right
    obtain hv | ⟨hFrom, hTo⟩ := hViews v hv
    · rw [hSame]
      simp only [List.mem_cons, List.not_mem_nil, or_false] at hv
      obtain rfl | rfl | rfl := hv <;> rfl
    · change sb.moves ≤ v.block at hFrom
      rw [hSame] at hTo
      rw [hSame]
      exact Nat.le_antisymm hTo hFrom

/-! ## Bodies in a file -/

/-- A body goes to a file when it is longer than the buffer. -/
def SpillLong (env : ServerEnv) (m : Conn) : Prop := ∀ sp, m.spill = some sp →
    (env.maxBody : Int) < sp.req.contentLength

theorem parseHeaderBlock_contentLength (req : HttpRequest) (head : Bytes) :
    (httpRequestParseHeaderBlock req head).contentLength = req.contentLength := by
  rw [httpRequestParseHeaderBlock, foldl_parseHeaderLine_eq]

theorem serves_long {arrivals : List Arrival} {m : Conn} (h : Serves env arrivals m) : SpillLong env m := by
  refine serves_spills (P := fun req => (env.maxBody : Int) < req.contentLength) ?_ h
  intro m req _ hLong
  rw [parseHeaderBlock_contentLength]
  exact hLong

/-! ## The request that was staged -/

/-- The request alone differs in its body at most, and in that if the body runs
on over what follows. -/
structure Staged (env : ServerEnv) (m m' : Conn) (req : HttpRequest) (consumed : Nat) : Prop where
  alone : ∃ body, alone m req consumed = some { withoutUpgrade req with body := body } ∧
    (req.body = body ↔ 0 ≤ req.contentLength ∨ httpRequestGetHeader req (ascii "transfer-encoding") ≠ none ∨
      m'.rb.view.drop consumed = [])
  names : declared req ≤ env.maxBody → ∀ f ∈ req.headers, 58 ∉ f.key
  target : declared req ≤ env.maxBody → splitQuery req.target = (req.path, req.query)
  some : declared req ≤ env.maxBody → req.target ≠ []

theorem upgradeName_other {name : Bytes} (h : upgradeName name = false) (key : Bytes)
    (hKey : key.map toupper = name.map toupper) : (!upgradeName key) = true := by
  have hSame : upgradeName key = upgradeName name := by
    simp only [upgradeName, svIeq_of_toupper hKey]
  rw [hSame, h]
  rfl

theorem getHeader_withoutUpgrade (req : HttpRequest) {name : Bytes} (h : upgradeName name = false) :
    httpRequestGetHeader (withoutUpgrade req) name = httpRequestGetHeader req name :=
  getHeader_filter rfl (upgradeName_other h)

theorem parseRequestLine_some_target {req req' : HttpRequest} {text : Bytes}
    (h : parseRequestLine req text = some req') :
    req'.target ≠ [] := by
  rw [parseRequestLine] at h
  dsimp only at h
  split at h
  · cases h
  · rename_i hOk
    cases h
    exact fun hNil => hOk (.inr (.inl hNil))

theorem parseAdv_target {raw behind : Bytes} {req : HttpRequest} {consumed : Nat}
    (h : httpRequestParseAdv raw behind = .ok req consumed) (hFields : req.headers ≠ []) :
    req.target ≠ [] := by
  rw [← parseKept_all, parseKept] at h
  split at h
  · cases h
  · split at h
    · cases h
    · rename_i base hHead
      have hSame : req.target = base.target ∧ req.headers = base.headers := by
        obtain ⟨_, ⟨_, rfl, _⟩ | ⟨_, _, _, _, _, _, rfl⟩⟩ := parseBody_ok_cases h <;> exact ⟨rfl, rfl⟩
      rw [hSame.2] at hFields
      rw [hSame.1]
      rw [parseHead] at hHead
      split at hHead
      · obtain rfl := Option.some.inj hHead
        exact absurd rfl hFields
      · obtain ⟨line, hLine, rfl⟩ := Option.map_eq_some_iff.mp hHead
        rw [foldl_parseHeaderLine_eq]
        have hSome := parseRequestLine_some_target hLine
        exact hSome

theorem upgrade_headers {req : HttpRequest} (h : h2IsUpgradeRequest req = true) : req.headers ≠ [] := by
  intro hNil
  rw [h2IsUpgradeRequest, headerHasToken, httpRequestGetHeader, hNil] at h
  cases h

theorem staged_plain {m : Conn} {req : HttpRequest} {consumed : Nat} (hSpill : m.spill = none)
    (hParse : httpRequestParseAdv m.rb.view m.rb.behind = .ok req consumed) (hFields : req.headers ≠ [])
    (hPlain : httpRequestGetHeader req (ascii "transfer-encoding") = none) : Staged env m m req consumed := by
  have hParsed := httpRequestParseAdv_parsed hParse
  have hCoding : httpRequestGetHeader (withoutUpgrade req) (ascii "transfer-encoding") = none :=
    (getHeader_withoutUpgrade req (by decide)).trans hPlain
  refine ⟨?_, fun _ => hParsed.names, fun _ => hParsed.target, fun _ => parseAdv_target hParse hFields⟩
  rw [alone, hSpill]
  dsimp only
  cases hLength : httpRequestGetHeader req (ascii "content-length") with
  | none =>
    obtain ⟨hNegative, rfl, hBody⟩ := hParsed.unmeasured hLength
    have hCut := (parse_cut hParse (upgradeName_other (by decide)) (Nat.le_refl _)
      (hParsed.inside.trans (Nat.le_succ _))).1 hLength
    rw [List.drop_eq_nil_of_le (List.length_take_le _ _)] at hCut
    refine ⟨[], ?_, ?_⟩
    · rw [stagedAlone, hCut]
      exact if_neg fun hSome => hSome hCoding
    · rw [hBody, hNegative]
      constructor
      · exact fun hNil => .inr (.inr hNil)
      · rintro (hPos | hSome | hNil)
        · exact absurd hPos (by decide)
        · exact absurd hPlain hSome
        · exact hNil
  | some value =>
    have hSome : httpRequestGetHeader req (ascii "content-length") ≠ none := by
      rw [hLength]
      nofun
    obtain ⟨hMeasured, hEnds, hWithin⟩ := hParsed.measured hSome
    have hCut := (parse_cut hParse (n := consumed) (upgradeName_other (by decide)) (by omega)
      (hWithin.trans (Nat.le_succ _))).2 hSome rfl
    refine ⟨req.body, ?_, ?_⟩
    · rw [stagedAlone, hCut]
      exact if_neg fun hSome => hSome hCoding
    · rw [hMeasured]
      exact ⟨fun _ => .inl (Int.natCast_nonneg _), fun _ => rfl⟩

theorem decodeChunked_unmeasured {req : HttpRequest} {behind payload left : Bytes} {overread : Bool}
    (h : httpRequestDecodeChunked req behind = .complete payload left overread) :
    httpRequestGetHeader req (ascii "content-length") = none := by
  rw [httpRequestDecodeChunked] at h
  split at h
  · cases h
  · rename_i hNone
    exact not_not.mp hNone

theorem staged_chunked {m : Conn} {req : HttpRequest} {consumed : Nat} {payload left : Bytes}
    {overread : Bool}
    (hSpill : m.spill = none) (hParse : httpRequestParseAdv m.rb.view m.rb.behind = .ok req consumed)
    (hFields : req.headers ≠ []) (hCoding : httpRequestGetHeader req (ascii "transfer-encoding") ≠ none)
    (hChunks : httpRequestDecodeChunked req m.rb.behind = .complete payload left overread) (m' : Conn) :
    Staged env m m' { req with body := payload }
      (req.bodyOffset + (req.body.length - left.length) + if overread then 1 else 0) := by
  have hParsed := httpRequestParseAdv_parsed hParse
  have hLength := decodeChunked_unmeasured hChunks
  have hSome := parseAdv_target hParse hFields
  obtain ⟨_, _, hBody⟩ := hParsed.unmeasured hLength
  refine ⟨⟨payload, ?_, fun _ => .inr (.inl hCoding), fun _ => rfl⟩, fun _ => hParsed.names,
    fun _ => hParsed.target,
    fun _ => hSome⟩
  have hSize : req.body.length = m.rb.view.length - req.bodyOffset := by
    rw [hBody, List.length_drop]
  have hInside := hParsed.inside
  have hOver : (if overread = true then 1 else 0) ≤ 1 := by cases overread <;> decide
  rw [Nat.add_assoc]
  generalize hTaken : req.body.length - left.length + (if overread = true then 1 else 0) = taken
  have hCut :=
    (parse_cut hParse (n := req.bodyOffset + taken) (upgradeName_other (by decide)) (Nat.le_add_right _ _)
    (by omega)).1 hLength
  rw [alone, hSpill]
  dsimp only
  rw [stagedAlone, hCut]
  have hSame : ∀ {name : Bytes} {body : Bytes}, upgradeName name = false →
      httpRequestGetHeader { req.keeping (fun name => !upgradeName name) with body := body } name =
        httpRequestGetHeader req name := fun h => getHeader_filter rfl (upgradeName_other h)
  have hRest : ((m.rb.view ++ m.rb.behind).take (req.bodyOffset + taken)).drop req.bodyOffset =
      (req.body ++ m.rb.behind).take taken := by
    rw [List.drop_take, Nat.add_sub_cancel_left, List.drop_append_of_le_length hInside, ← hBody]
  have hDone : httpRequestDecodeChunked { req.keeping (fun name => !upgradeName name) with
      body := ((m.rb.view ++ m.rb.behind).take (req.bodyOffset + taken)).drop req.bodyOffset } [] =
        .complete payload [] false := by
    refine decodeChunked_cut hChunks (hSame (by decide)) ?_
    rw [hTaken]
    exact hRest
  dsimp only
  rw [if_pos, hDone]
  · rfl
  · rw [hSame (by decide)]
    exact hCoding

theorem drainPass_contentLength {m m' : Conn} {sp : Spill} {req : HttpRequest} {consumed : Nat}
    (h : drainPass env m sp = .staged m' req consumed) : req.contentLength = sp.req.contentLength := by
  rw [drainPass] at h
  dsimp only at h
  split at h
  · cases h
  · cases h
  · split at h
    · cases h
    · split at h
      · rw [spillDone] at h
        dsimp only at h
        split at h
        · cases h
          rfl
        · cases h
      · cases h

theorem overread_unread {m m' : Conn} {req : HttpRequest} {consumed : Nat}
    (h : overreadPass env m = .staged m' req consumed) :
    ¬ req.bodyOffset ≤ m.rb.count := by
  have hEnd : ∀ {req₀ consumed₀}, parseBehind m.rb.view m.rb.behind = some (req₀, consumed₀) →
      req₀.bodyOffset = m.rb.count + 1 := by
    intro req₀ consumed₀ hParse
    rw [parseBehind] at hParse
    split at hParse
    · cases hParse
      rfl
    · cases hParse
  rw [overreadPass] at h
  split at h
  · cases h
  · rename_i req₀ consumed₀ hParse
    split at h
    · have hOffset := congrArg HttpRequest.bodyOffset (unfoldedPass_staged h).2
      rw [hOffset]
      change ¬ req₀.bodyOffset ≤ _
      rw [hEnd hParse]
      omega
    · cases h
      rw [hEnd hParse]
      omega

theorem staged_of_pass {arrivals : List Arrival} {m m' : Conn} {req : HttpRequest} {consumed : Nat}
    (h : Serves env arrivals m) (hStaged : servePass env m = .staged m' req consumed)
    (hUpgrade : h2IsUpgradeRequest req = true) (hReceived : req.bodyOffset ≤ m.rb.count) :
    Staged env m m' req consumed := by
  have hLong := serves_long h
  have hFields := upgrade_headers hUpgrade
  rw [servePass] at hStaged
  split at hStaged
  · cases hStaged
  · rename_i sp hServe hSpill
    have hMore := hLong sp hSpill
    have hDeclared := drainPass_contentLength hStaged
    have hTooLong : ¬ declared req ≤ env.maxBody := by
      rw [declared, if_pos (by omega)]
      omega
    refine ⟨⟨req.body, ?_, fun _ => .inl (by omega), fun _ => rfl⟩, fun hFits => absurd hFits hTooLong,
      fun hFits => absurd hFits hTooLong, fun hFits => absurd hFits hTooLong⟩
    rw [alone, hSpill]
    rfl
  · rename_i hServe hSpill
    rw [parsePass] at hStaged
    split at hStaged
    · cases hStaged
    · cases hStaged
    · exact absurd hReceived (overread_unread hStaged)
    · rename_i req₀ consumed₀ hParse
      split at hStaged
      · rename_i hCoding
        rw [chunkedPass] at hStaged
        cases hChunks : httpRequestDecodeChunked req₀ m.rb.behind with
        | complete payload left overread =>
          rw [hChunks] at hStaged
          cases hStaged
          exact staged_chunked hSpill hParse hFields hCoding hChunks _
        | incomplete payload =>
          rw [hChunks] at hStaged
          cases hStaged
        | malformed payload =>
          rw [hChunks] at hStaged
          cases hStaged
          cases hUpgrade
        | wild =>
          rw [hChunks] at hStaged
          cases hStaged
      · rename_i hPlain
        cases hStaged
        exact staged_plain hSpill hParse hFields (not_not.mp hPlain)

/-! ## The upgrade -/

theorem calledWith_withoutUpgrade (req : HttpRequest) :
    calledWith env (withoutUpgrade req) =
      (inflated env req).map fun bytes =>
        { withoutUpgrade req with body := bytes, remote := env.remote } := by
  have hFound := @getHeader_withoutUpgrade req (ascii "content-encoding") (by decide)
  rw [calledWith, inflated, inflated, isGzip, isGzip, headerHasToken_congr hFound,
    headerHasToken_congr hFound]
  rfl

theorem splitQuery_path {target path query : Bytes} (h : splitQuery target = (path, query))
    (hPlain : 63 ∉ target) :
    path = target ∧ query = [] ∧ splitQuery path = (path, []) := by
  have hAll : ∀ b ∈ target, decide (b ≠ 63) = true := by
    intro b hb
    refine decide_eq_true ?_
    rintro rfl
    exact hPlain hb
  have hTake : target.takeWhile (· ≠ 63) = target := List.takeWhile_eq_self_iff.mpr hAll
  have hDrop : target.dropWhile (· ≠ 63) = [] := List.dropWhile_eq_nil_iff.mpr hAll
  have hSplit : splitQuery target = (target, []) := by
    rw [splitQuery, hTake, hDrop]
    rfl
  rw [hSplit] at h
  obtain ⟨rfl, rfl⟩ := Prod.mk.inj h
  exact ⟨rfl, rfl, hSplit⟩

theorem not_mem_of_splitQuery {target query : Bytes} (h : splitQuery target = (target, query)) :
    63 ∉ target := by
  intro hMem
  have hTake : target.takeWhile (· ≠ 63) = target := (Prod.mk.inj h).1
  rw [← hTake] at hMem
  have hOther := List.mem_takeWhile_imp hMem
  simp at hOther

theorem upgradeName_dropped {name : Bytes} (h : upgradeName name = true) :
    (connSpecName name || svIeq name (ascii "http2-settings")) = true := by
  rw [upgradeName, List.any_eq_true] at h
  obtain ⟨n, hn, hSame⟩ := h
  simp only [List.mem_cons, List.not_mem_nil, or_false] at hn
  rw [connSpecName, Bool.or_eq_true, List.any_eq_true]
  obtain rfl | rfl | rfl := hn
  · exact .inl ⟨_, by simp, hSame⟩
  · exact .inl ⟨_, by simp, hSame⟩
  · exact .inr hSame

theorem filter_upgradeName (fields : List HttpHeader) :
    (fields.filter fun f => !upgradeName f.key).filter
        (fun h => !(connSpecName h.key || svIeq h.key (ascii "http2-settings"))) =
      fields.filter fun h => !(connSpecName h.key || svIeq h.key (ascii "http2-settings")) := by
  rw [List.filter_filter]
  refine List.filter_congr ?_
  intro f _
  cases hName : upgradeName f.key with
  | true =>
    rw [upgradeName_dropped hName]
    rfl
  | false => exact Bool.and_true _

/-- Over the upgrade a request is what it would be alone exactly when its end is
told by the request itself or by the end of the buffer, it has no query, its body
is no longer than the limit and as long as declared when inflated, and its fields fit
behind the path. -/
theorem upgrade_kept_iff {arrivals : List Arrival} {m m' : Conn} {req : HttpRequest} {consumed : Nat}
    (h : Serves env arrivals m) (hPass : servePass env m = .staged m' req consumed) (hTls : env.tls = false)
    (hUpgrade : h2IsUpgradeRequest req = true) :
    RequestKept env m m' req consumed ↔ Upgradable env m m' req consumed := by
  have hHanded : serveTurn env m = .leave (m'.log [.handover (some req) (m'.rb.view.drop consumed)]) := by
    rw [serveTurn, hPass]
    dsimp only
    rw [dispatch, if_pos ⟨hTls, hUpgrade⟩]
    rfl
  constructor
  · intro hKept
    have hStaged := staged_of_pass h hPass hUpgrade hKept.received
    obtain ⟨body, hAlone, hEnds⟩ := hStaged.alone
    obtain ⟨req', hAlone', hBody, hCalls⟩ := hKept.same
    rw [hAlone] at hAlone'
    obtain rfl := Option.some.inj hAlone'
    have hBody : req.body = body := hBody
    refine ⟨hKept.received, hEnds.mp hBody, hKept.room, ?_⟩
    intro hStarts bytes hInflated
    obtain ⟨c₀, hStart⟩ := Option.isSome_iff_exists.mp hStarts
    obtain ⟨s, hFrom, hOnly⟩ := streamOneCalls_iff hStart
    have hSame : SeenSame (handedOver env.toH2Env s).toList (calledWith env (withoutUpgrade req)) ∧
        ((handedOver env.toH2Env s).toList ≠ [] → ViewsLast req) := by
      subst hBody
      exact hCalls _ ((hOnly _).mpr rfl)
    obtain ⟨hSame, hLast⟩ := hSame
    rw [calledWith_withoutUpgrade, hInflated, Option.map_some] at hSame
    by_cases hFits : declared req ≤ env.maxBody
    · rw [hFrom.handed (hStaged.names hFits) hFits, hInflated] at hSame hLast
      have hSame : SameRequest { s.req with body := bytes } _ := hSame
      have hPath : req.path = req.target := hFrom.target.symm.trans hSame.target
      have hQuery := hStaged.target hFits
      rw [hPath] at hQuery
      have hSome : req.path ≠ [] := hPath ▸ hStaged.some hFits
      exact ⟨not_mem_of_splitQuery hQuery, hFits, hFrom.length.symm.trans hSame.length,
        (viewsLast_iff hSome).mp (hLast (List.cons_ne_nil _ _))⟩
    · rw [hFrom.not_handed (not_le.mp hFits)] at hSame
      exact absurd hSame id
  · intro hUp
    have hStaged := staged_of_pass h hPass hUpgrade hUp.received
    obtain ⟨body, hAlone, hEnds⟩ := hStaged.alone
    have hBody := hEnds.mpr hUp.ends
    refine ⟨hUp.received, hHanded, hUp.room, _, hAlone, hBody, ?_⟩
    subst hBody
    rintro calls hCalls
    have hStarts := hCalls
    obtain ⟨c₀, _, _, hStart, _⟩ := hStarts
    obtain ⟨s, hFrom, hOnly⟩ := streamOneCalls_iff hStart
    rw [(hOnly calls).mp hCalls]
    change SeenSame _ (calledWith env (withoutUpgrade req)) ∧ _
    rw [calledWith_withoutUpgrade]
    cases hInflated : inflated env req with
    | none =>
      have hNone : handedOver env.toH2Env s = none := by
        by_cases hFits : declared req ≤ env.maxBody
        · rw [hFrom.handed (hStaged.names hFits) hFits, hInflated]
          rfl
        · exact hFrom.not_handed (not_le.mp hFits)
      rw [hNone]
      exact ⟨trivial, fun hSome => absurd rfl hSome⟩
    | some bytes =>
      obtain ⟨hPlain, hFits, hLength, hStorable⟩ :=
        hUp.plain (Option.isSome_iff_exists.mpr ⟨c₀, hStart⟩) bytes hInflated
      obtain ⟨hPath, hQuery, hSplit⟩ := splitQuery_path (hStaged.target hFits) hPlain
      have hSome : req.path ≠ [] := hPath.symm ▸ hStaged.some hFits
      rw [hFrom.handed (hStaged.names hFits) hFits, hInflated]
      refine ⟨?_, fun _ => (viewsLast_iff hSome).mpr hStorable⟩
      constructor
      · exact hFrom.method
      · exact hFrom.target.trans hPath
      · exact hFrom.path.trans (congrArg Prod.fst hSplit)
      · exact (hFrom.query.trans (congrArg Prod.snd hSplit)).trans hQuery.symm
      · rfl
      · exact (hFrom.headers (hStaged.names hFits)).trans (filter_upgradeName req.headers).symm
      · exact hFrom.length.trans hLength

/-- The head of an upgrade request for a target. -/
def upgradeHead (target : String) : Bytes :=
  ascii "GET " ++ ascii target ++ ascii " HTTP/1.1\r\nHost: a\r\nConnection: Upgrade, HTTP2-Settings\r\n" ++
    ascii "Upgrade: h2c\r\nHTTP2-Settings: AAMAAABk\r\n\r\n"

/-- The state at which the upgrade is dispatched. -/
def upgradeState (target : String) : Conn :=
  steps (serveTurn pageEnv) 2 (serveStart pageEnv [.data (upgradeHead target)])

theorem upgrade_kept_root :
    ∃ m' req consumed, servePass pageEnv (upgradeState "/") = .staged m' req consumed ∧
    RequestKept pageEnv (upgradeState "/") m' req consumed := by
  have hServes : Serves pageEnv [.data (upgradeHead "/")] (upgradeState "/") :=
    visits_steps 2 (by decide +kernel)
  have hFacts : (match servePass pageEnv (upgradeState "/") with
      | .staged m' req consumed => h2IsUpgradeRequest req && m'.rb.view.drop consumed == [] && !isGzip req &&
          !req.target.contains 63 && declared req == 0 && req.body == [] &&
          decide (req.bodyOffset ≤ (upgradeState "/").rb.count) &&
          decide (req.path.length + fieldsLength (upgradeFields req) ≤ sbGrowTo 0 req.path.length)
      | .next _ => false) = true := by decide +kernel
  split at hFacts
  · rename_i m' req consumed hPass
    simp only [Bool.and_eq_true, beq_iff_eq, Bool.not_eq_true', List.contains_eq_mem, decide_eq_false_iff_not,
      decide_eq_true_eq] at hFacts
    obtain ⟨⟨⟨⟨⟨⟨⟨hUpgrade, hNothing⟩, hGzip⟩, hQuery⟩, hDeclared⟩, hBody⟩, hReceived⟩, hStorable⟩ := hFacts
    refine ⟨m', req, consumed, hPass,
      (upgrade_kept_iff hServes hPass rfl hUpgrade).mpr ⟨hReceived, .inr (.inr hNothing), ?_, ?_⟩⟩
    · rw [hNothing]
      exact Nat.zero_le _
    · intro _ bytes hInflated
      rw [inflated, hGzip, if_neg Bool.false_ne_true, hBody] at hInflated
      obtain rfl := Option.some.inj hInflated
      rw [hDeclared]
      exact ⟨hQuery, by decide, rfl, hStorable⟩
  · cases hFacts

/-- The handler is called for the target without its query. -/
theorem upgrade_loses_query :
    ∃ m' req consumed, Serves pageEnv [.data (upgradeHead "/?q=1")] (upgradeState "/?q=1") ∧
    servePass pageEnv (upgradeState "/?q=1") = .staged m' req consumed ∧ h2IsUpgradeRequest req = true ∧
      ¬ RequestKept pageEnv (upgradeState "/?q=1") m' req consumed := by
  have hServes : Serves pageEnv [.data (upgradeHead "/?q=1")] (upgradeState "/?q=1") :=
    visits_steps 2 (by decide +kernel)
  have hFacts : (match servePass pageEnv (upgradeState "/?q=1") with
      | .staged m' req consumed => h2IsUpgradeRequest req &&
          (alone (upgradeState "/?q=1") req consumed).map HttpRequest.target == some (ascii "/?q=1") &&
          (h2Start pageEnv.toH2Env (some req)).map (fun c => ((callsOf pageEnv.toH2Env c).filter fun call =>
            call.id == 1).map fun call => call.req.target) == some [ascii "/"]
      | .next _ => false) = true := by decide +kernel
  split at hFacts
  · rename_i m' req consumed hPass
    simp only [Bool.and_eq_true, beq_iff_eq] at hFacts
    obtain ⟨⟨hUpgrade, hAlone⟩, hCalls⟩ := hFacts
    refine ⟨m', req, consumed, hServes, hPass, hUpgrade, ?_⟩
    intro hKept
    obtain ⟨req', hAlone', _, hSame⟩ := hKept.same
    obtain ⟨c₀, hStart, hTargets⟩ := Option.map_eq_some_iff.mp hCalls
    have hSeen := (hSame _ ⟨c₀, _, _, hStart, .start, rfl⟩).1
    rw [hAlone'] at hAlone
    obtain ⟨call, hOne, hTarget⟩ := List.map_eq_singleton_iff.mp hTargets
    rw [hOne] at hSeen
    cases hCalled : calledWith pageEnv req' with
    | none =>
      rw [hCalled] at hSeen
      exact hSeen
    | some req'' =>
      rw [hCalled] at hSeen
      have hSeen : SameRequest call.req req'' := hSeen
      obtain ⟨bytes, _, rfl⟩ := Option.map_eq_some_iff.mp hCalled
      have hEq : ascii "/" = ascii "/?q=1" := hTarget.symm.trans (hSeen.target.trans (Option.some.inj hAlone))
      exact absurd hEq (by decide)
  · cases hFacts

end Cweb
