import Cweb.Http.H2WellFormed
import Cweb.Http.RequestLine
import Cweb.Http.ServerReject
import Cweb.Http.ServerRequests
import Cweb.Security.PasswordRecord

/-!
# Signed requests

The signature is an HMAC over the method, the path, the time and the body, with line
feeds between them. The parser of HTTP/1.1 cuts its lines before it looks for a path.
The one of HTTP/2 takes a path as it comes.
-/

namespace Cweb.Sign

open Sv Hmac Password CString

/-! ## Numbers -/

def signOf : Bytes → Bool × Bytes
  | 45 :: s => (true, s)
  | 43 :: s => (false, s)
  | s => (false, s)

/-- The function of the C library, for base ten: the number and what follows it,
or nothing without digits or out of range. -/
def strtoll (s : Bytes) : Option (Int × Bytes) :=
  let (negative, s) := signOf (svTrimLeft s)
  let digits := s.takeWhile isdigit
  let n : Int := if negative then -numberOf digits else numberOf digits
  if digits = [] ∨ n < -2 ^ 63 ∨ llongMax < n then none else some (n, s.dropWhile isdigit)

/-- The seconds between two times, in a `long long`. -/
def timeDiff (now ts : Int) : Int := (if ts < now then now - ts else ts - now).bmod (2 ^ 64)

/-! ## Signing -/

def dateHeader : Bytes := ascii "X-CWEB-Date"

def macHeader : Bytes := ascii "X-CWEB-Signature"

def macHexLen : Nat := 64

def defaultMaxAge : Nat := 300

def hexDigit (c : UInt8) : Int :=
  if 48 ≤ c ∧ c ≤ 57 then c.toNat - 48
  else if 97 ≤ c ∧ c ≤ 102 then 10 + (c.toNat - 97)
  else -1

def message (method path : Bytes) (unixSeconds : Int) (body : Bytes) : Bytes :=
  method ++ 10 :: (path ++ 10 :: (decimalInt unixSeconds ++ 10 :: body))

def httpRequestSignatureCompute (method path body : Bytes) (unixSeconds : Int) (secret : Bytes) : Bytes :=
  hmacSha256Hex (svFromCstr secret) (message (svFromCstr method) path unixSeconds body)

/-- The name of the method in a signature. All methods that are not known have one name. -/
def methodToken (req : HttpRequest) : Bytes := (httpMethodName req.method).getD (ascii "???")

/-- The time in a header of which 63 bytes are looked at. -/
def readDate (date : Bytes) : Option Int :=
  match strtoll (svFromCstr (date.take 63)) with
  | some (ts, []) => some ts
  | _ => none

/-- 0 for a request that is genuine and fresh, and -1 for any other. -/
def httpRequestSignatureVerify (now : Int) (secret : Option Bytes) (maxAge : Nat) (req : HttpRequest) : Int :=
  match secret, httpRequestGetHeader req macHeader, httpRequestGetHeader req dateHeader with
  | some secret, some sig, some date =>
    if sig.length ≠ macHexLen then -1
    else if sig.any fun c => hexDigit c < 0 then -1
    else
      match readDate date with
      | none => -1
      | some ts =>
        let maxAge := if maxAge = 0 then defaultMaxAge else maxAge
        let diff := timeDiff now ts
        if diff < 0 ∨ maxAge < diff.toNat then -1
        else
          let want := httpRequestSignatureCompute (methodToken req) req.path req.body ts secret
          if secureByteEqual sig want then 0 else -1
  | _, _, _ => -1

/-! ## What is accepted -/

def hexPair (b : UInt8) : Bytes :=
  [digits.getD (b >>> 4 : UInt8).toNat 0, digits.getD (b &&& 0x0f : UInt8).toNat 0]

theorem hexDigit_hexPair : ∀ b, ∀ c ∈ hexPair b, ¬ hexDigit c < 0 := by
  -- over the list of the pair, where a decision over all bytes would be one for each pair
  have hPairs : ∀ b, (hexPair b).all (fun c => ¬ hexDigit c < 0) = true := forall_byte (by decide +kernel)
  intro b c hc
  exact of_decide_eq_true (List.all_eq_true.mp (hPairs b) c hc)

theorem hexPair_value : ∀ b, (hexPair b).foldl (fun n c => n * 16 + hexDigit c) 0 = b.toNat :=
  forall_byte (by decide +kernel)

theorem hexPair_injective {a b : UInt8} (h : hexPair a = hexPair b) : a = b := by
  have hValue := hexPair_value a
  rw [h, hexPair_value] at hValue
  exact UInt8.toNat_inj.mp (Int.ofNat.inj hValue).symm

theorem flatMap_hexPair_inj {xs : Bytes} : ∀ {ys : Bytes}, xs.flatMap hexPair = ys.flatMap hexPair →
    xs = ys := by
  induction xs with
  | nil =>
    intro ys h
    cases ys with
    | nil => rfl
    | cons b ys => cases h
  | cons a xs ih =>
    intro ys h
    cases ys with
    | nil => cases h
    | cons b ys =>
      obtain ⟨hPair, hRest⟩ := List.append_inj h rfl
      rw [hexPair_injective hPair, ih hRest]

theorem length_hmacSha256Hex (key msg : Bytes) : (hmacSha256Hex key msg).length = macHexLen := by
  have hLength : (hmacSha256 key msg).length = 32 := by
    rw [hmacSha256_eq]
    exact Fips.length_sha256 _
  have hTwice : ∀ bytes : Bytes, (bytes.flatMap hexPair).length = 2 * bytes.length := by
    intro bytes
    induction bytes with
    | nil => rfl
    | cons b bytes ih =>
      rw [List.flatMap_cons, List.length_append, ih, List.length_cons, Nat.mul_succ, Nat.add_comm]
      rfl
  exact (hTwice _).trans (congrArg (2 * ·) hLength)

theorem hexDigit_hmacSha256Hex (key msg : Bytes) :
    (hmacSha256Hex key msg).any (fun c => hexDigit c < 0) = false := by
  rw [List.any_eq_false]
  intro c hc
  obtain ⟨b, _, hPair⟩ := List.mem_flatMap.mp hc
  rw [decide_eq_true_eq]
  exact hexDigit_hexPair b c hPair

/-- What a request is signed for, with its time. -/
def canonical (req : HttpRequest) (ts : Int) : Bytes := message (methodToken req) req.path ts req.body

/-- The signature that a request needs at a time. -/
def signature (secret : Bytes) (req : HttpRequest) (ts : Int) : Bytes :=
  httpRequestSignatureCompute (methodToken req) req.path req.body ts secret

theorem methodToken_cases (req : HttpRequest) : 0 ∉ methodToken req ∧ 10 ∉ methodToken req := by
  rw [methodToken]
  cases req.method <;> decide

theorem signature_eq (secret : Bytes) (req : HttpRequest) (ts : Int) :
    signature secret req ts = hmacSha256Hex (svFromCstr secret) (canonical req ts) := by
  rw [signature, httpRequestSignatureCompute, svFromCstr_of_not_mem (methodToken_cases req).1, canonical]

def dateOf (req : HttpRequest) : Option Int := (httpRequestGetHeader req dateHeader).bind readDate

def Fresh (now : Int) (maxAge : Nat) (ts : Int) : Prop :=
  0 ≤ timeDiff now ts ∧ (timeDiff now ts).toNat ≤ if maxAge = 0 then defaultMaxAge else maxAge

theorem verify_iff {now : Int} {secret : Bytes} {maxAge : Nat} {req : HttpRequest} :
    httpRequestSignatureVerify now (some secret) maxAge req = 0 ↔
      ∃ ts, dateOf req = some ts ∧ Fresh now maxAge ts ∧
        httpRequestGetHeader req macHeader = some (signature secret req ts) := by
  have hRefused : ¬ (-1 : Int) = 0 := by decide
  unfold httpRequestSignatureVerify
  rw [dateOf]
  cases httpRequestGetHeader req macHeader with
  | none => exact iff_of_false hRefused fun ⟨_, _, _, hSig⟩ => nomatch hSig
  | some sig =>
    cases httpRequestGetHeader req dateHeader with
    | none => exact iff_of_false hRefused fun ⟨_, hTime, _⟩ => nomatch hTime
    | some date =>
      dsimp only [Option.bind_some]
      constructor
      · intro h
        split at h
        · cases h
        · rename_i hLength
          split at h
          · cases h
          · split at h
            · cases h
            · rename_i ts hTime
              by_cases hStale : timeDiff now ts < 0 ∨
                (if maxAge = 0 then defaultMaxAge else maxAge) < (timeDiff now ts).toNat
              · rw [if_pos hStale] at h
                exact absurd h hRefused
              · rw [if_neg hStale] at h
                rw [not_or, not_lt, not_lt] at hStale
                split at h
                · rename_i hSame
                  refine ⟨ts, hTime, hStale, ?_⟩
                  rw [← signature, secureByteEqual_iff] at hSame
                  · rw [hSame]
                  · rw [not_not.mp hLength, signature_eq, length_hmacSha256Hex]
                · exact absurd h hRefused
      · rintro ⟨ts, hTime, hFresh, hSig⟩
        obtain rfl := Option.some.inj hSig
        rw [if_neg, if_neg, hTime]
        · dsimp only
          rw [if_neg (not_or.mpr ⟨not_lt.mpr hFresh.1, not_lt.mpr hFresh.2⟩), ← signature, if_pos]
          exact (secureByteEqual_iff rfl).mpr rfl
        · rw [signature_eq, hexDigit_hmacSha256Hex]
          exact Bool.false_ne_true
        · rw [signature_eq, length_hmacSha256Hex]
          exact not_not.mpr rfl

/-! ## What a message is made of -/

/-- All that a signature is to vouch for. -/
structure SameFacts (r : HttpRequest) (ts : Int) (r' : HttpRequest) (ts' : Int) : Prop where
  method : r.method = r'.method
  path : r.path = r'.path
  seconds : ts = ts'
  body : r.body = r'.body

/-- The path goes on, behind a line feed, with the time of the other request, and what
it goes on with stands in front of its own time and body in the body of the other. -/
def Continues (r : HttpRequest) (ts : Int) (r' : HttpRequest) (ts' : Int) : Prop :=
  r.method = r'.method ∧ ∃ more, r'.path = r.path ++ 10 :: (decimalInt ts ++ more) ∧
    10 :: r.body = more ++ 10 :: (decimalInt ts' ++ 10 :: r'.body)

theorem methodToken_injective {r r' : HttpRequest} (h : methodToken r = methodToken r') :
    r.method = r'.method := by
  rw [methodToken, methodToken] at h
  cases hMethod : r.method <;> cases hMethod' : r'.method <;> rw [hMethod, hMethod'] at h <;>
    first | rfl | exact absurd h (by decide)

theorem not_mem_time (ts : Int) : 10 ∉ decimalInt ts := not_mem_decimalInt (by decide) (by decide) ts

theorem continues_of_cut {ts ts' : Int} {body body' rest : Bytes}
    (h : decimalInt ts ++ 10 :: body = rest ++ 10 :: (decimalInt ts' ++ 10 :: body')) :
    ∃ more, rest = decimalInt ts ++ more ∧ 10 :: body = more ++ 10 :: (decimalInt ts' ++ 10 :: body') := by
  rcases Segments.cut_cases h with ⟨rfl, rfl⟩ | ⟨more, rfl, rfl⟩ | ⟨more, hTime, -⟩
  · exact ⟨[], (List.append_nil _).symm, rfl⟩
  · exact ⟨10 :: more, rfl, rfl⟩
  · refine absurd (List.mem_append_right _ List.mem_cons_self) (hTime ▸ not_mem_time ts)

theorem canonical_cases {r r' : HttpRequest} {ts ts' : Int} (h : canonical r ts = canonical r' ts') :
    SameFacts r ts r' ts' ∨ Continues r ts r' ts' ∨ Continues r' ts' r ts := by
  obtain ⟨hToken, hRest⟩ := Segments.cut_inj (methodToken_cases r).2 (methodToken_cases r').2 h
  have hMethod := methodToken_injective hToken
  rcases Segments.cut_cases hRest with ⟨hPath, hTail⟩ | ⟨rest, hPath, hTail⟩ | ⟨rest, hPath, hTail⟩
  · obtain ⟨hTime, hBody⟩ := Segments.cut_inj (not_mem_time ts) (not_mem_time ts') hTail
    exact .inl ⟨hMethod, hPath, decimalInt_injective hTime, hBody⟩
  · obtain ⟨more, rfl, hBody⟩ := continues_of_cut hTail
    exact .inr (.inl ⟨hMethod, more, hPath, hBody⟩)
  · obtain ⟨more, rfl, hBody⟩ := continues_of_cut hTail
    exact .inr (.inr ⟨hMethod.symm, more, hPath, hBody⟩)

theorem Continues.canonical_eq {r r' : HttpRequest} {ts ts' : Int} (h : Continues r ts r' ts') :
    canonical r ts = canonical r' ts' := by
  obtain ⟨hMethod, more, hPath, hBody⟩ := h
  rw [canonical, canonical, message, message, methodToken, hMethod, ← methodToken, hPath, hBody]
  simp only [List.append_assoc, List.cons_append]

theorem Continues.path_ne {r r' : HttpRequest} {ts ts' : Int} (h : Continues r ts r' ts') :
    r.path ≠ r'.path := by
  obtain ⟨-, more, hPath, -⟩ := h
  intro hSame
  rw [hSame] at hPath
  exact absurd (List.append_right_eq_self.mp hPath.symm) (List.cons_ne_nil _ _)

theorem Continues.mem_path {r r' : HttpRequest} {ts ts' : Int} (h : Continues r ts r' ts') :
    10 ∈ r'.path := by
  obtain ⟨-, more, hPath, -⟩ := h
  rw [hPath]
  exact List.mem_append_right _ List.mem_cons_self

/-! ## Paths -/

theorem parseBody_path {base req : HttpRequest} {raw : Bytes} {stop : Nat}
    (h : parseBody base raw stop = .incomplete req ∨
      ∃ consumed, parseBody base raw stop = .ok req consumed) : req.path = base.path := by
  rw [parseBody] at h
  split at h
  · obtain h | ⟨_, h⟩ := h <;> cases h
  · dsimp only at h
    split at h
    · obtain h | ⟨_, h⟩ := h <;> cases h
      rfl
    · split at h
      · obtain h | ⟨_, h⟩ := h <;> cases h
      · split at h
        · obtain h | ⟨_, h⟩ := h <;> cases h
        · split at h
          · obtain h | ⟨_, h⟩ := h <;> cases h
            rfl
          · obtain h | ⟨_, h⟩ := h <;> cases h
            rfl

theorem parseRequestLine_path {req req' : HttpRequest} {text : Bytes} (hLine : 10 ∉ text)
    (h : parseRequestLine req text = some req') : 10 ∉ req'.path := by
  rw [parseRequestLine] at h
  dsimp only at h
  split at h
  · cases h
  · cases h
    intro hMem
    have hTarget := (List.takeWhile_prefix _).subset hMem
    have hRest := (svChopByDelim_subset 32 _).1 10 hTarget
    exact hLine ((svChopByDelim_subset 32 text).2 10 hRest)

theorem firstLine_path {head first : Bytes} {fields : List Bytes} {base : HttpRequest}
    (hLines : (svSplit 10 (svTrim head)).map dropCr = first :: fields)
    (hBase : parseRequestLine emptyRequest first = some base) :
    10 ∉ base.path := by
  have hFirst : first ∈ (svSplit 10 (svTrim head)).map dropCr := by
    rw [hLines]
    exact List.mem_cons_self
  obtain ⟨text, hText, rfl⟩ := List.mem_map.mp hFirst
  exact parseRequestLine_path (fun hMem => not_mem_svSplit hText (dropCr_subset text hMem)) hBase

theorem parseAdv_path {raw behind : Bytes} {req : HttpRequest}
    (h : httpRequestParseAdv raw behind = .incomplete req ∨
      ∃ consumed, httpRequestParseAdv raw behind = .ok req consumed) :
    10 ∉ req.path := by
  rw [httpRequestParseAdv] at h
  split at h
  · obtain h | ⟨_, h⟩ := h <;> cases h
    exact List.not_mem_nil
  · split at h
    · rw [parseBody_path h]
      exact List.not_mem_nil
    · rename_i first fields hLines
      split at h
      · obtain h | ⟨_, h⟩ := h <;> cases h
      · rename_i base hBase
        rw [parseBody_path h, foldl_parseHeaderLine_eq]
        have hPath := firstLine_path hLines hBase
        exact hPath

theorem measureBody_path {base req : HttpRequest} {raw : Bytes} {stop consumed : Nat}
    (h : measureBody base raw stop = .ok req consumed) : req.path = base.path := by
  rw [measureBody] at h
  split at h
  · cases h
    rfl
  · split at h
    · cases h
    · split at h
      · cases h
      · split at h
        · cases h
          rfl
        · cases h

theorem parseBehind_path {raw behind : Bytes} {req : HttpRequest} {consumed : Nat}
    (h : parseBehind raw behind = some (req, consumed)) : 10 ∉ req.path := by
  rw [parseBehind] at h
  split at h
  · rename_i base stop hOutcome
    cases h
    change 10 ∉ base.path
    rw [parseOutcome] at hOutcome
    split at hOutcome
    · cases hOutcome
    · split at hOutcome
      · rw [measureBody_path hOutcome]
        exact List.not_mem_nil
      · rename_i first fields hLines
        split at hOutcome
        · cases hOutcome
        · rename_i line hBase
          rw [measureBody_path hOutcome, foldl_parseHeaderLine_eq]
          have hPath := firstLine_path hLines hBase
          exact hPath
  · cases h

theorem parses_path : Parses fun req => 10 ∉ req.path := by
  rintro raw behind req (hWaits | ⟨consumed, hOk | hBehind⟩)
  · exact parseAdv_path (.inl hWaits)
  · exact parseAdv_path (.inr ⟨consumed, hOk⟩)
  · exact parseBehind_path hBehind

/-- The handler was called with the request on a connection that speaks HTTP/1.1. -/
def OverHttp1 (req : HttpRequest) : Prop := ∃ env arrivals m, Runs env arrivals m ∧ req ∈ m.calls

def OverH2 (req : HttpRequest) : Prop := ∃ env c, H2.Reachable env c ∧ req ∈ c.calls

def Delivered (req : HttpRequest) : Prop := OverHttp1 req ∨ OverH2 req

theorem OverHttp1.path {req : HttpRequest} (h : OverHttp1 req) : 10 ∉ req.path := by
  obtain ⟨env, arrivals, m, hRuns, hCall⟩ := h
  exact runs_calls (P := fun req => 10 ∉ req.path) (fun _ _ _ _ hPath => hPath) parses_path hRuns req hCall

theorem Continues.overH2 {r r' : HttpRequest} {ts ts' : Int} (h : Continues r ts r' ts')
    (hDelivered : Delivered r') : OverH2 r' := by
  obtain hHttp1 | hH2 := hDelivered
  · exact absurd h.mem_path hHttp1.path
  · exact hH2

/-! ## What a signature is good for -/

/-- The HMAC is not the same for two messages. -/
def NoCollision (secret : Bytes) (m m' : Bytes) : Prop :=
  hmacSha256 (svFromCstr secret) m = hmacSha256 (svFromCstr secret) m' → m = m'

/-- The message of a request is its own, and its signature not accepted for another
path or body. -/
structure Binds (r : HttpRequest) (ts : Int) (r' : HttpRequest) (ts' : Int) : Prop where
  injective : canonical r ts = canonical r' ts' → SameFacts r ts r' ts'
  refused : ∀ now secret maxAge, NoCollision secret (canonical r ts) (canonical r' ts') →
    dateOf r' = some ts' → httpRequestGetHeader r' macHeader = some (signature secret r ts) →
    r.path ≠ r'.path ∨ r.body ≠ r'.body → httpRequestSignatureVerify now (some secret) maxAge r' ≠ 0

theorem signature_eq_iff {secret : Bytes} {r r' : HttpRequest} {ts ts' : Int}
    (hHmac : NoCollision secret (canonical r ts) (canonical r' ts')) :
    signature secret r ts = signature secret r' ts' ↔ canonical r ts = canonical r' ts' := by
  rw [signature_eq, signature_eq]
  exact ⟨fun h => hHmac (flatMap_hexPair_inj h), congrArg _⟩

/-- The path of a request over HTTP/2 may go on behind a line feed with what another
request has in its body. Signatures are good for one path and body but for that. -/
theorem binds_iff {r r' : HttpRequest} (hr : Delivered r) (hr' : Delivered r') (ts ts' : Int) :
    Binds r ts r' ts' ↔ ¬ (OverH2 r' ∧ Continues r ts r' ts') ∧ ¬ (OverH2 r ∧ Continues r' ts' r ts) := by
  constructor
  · intro h
    constructor
    · rintro ⟨-, hContinues⟩
      exact hContinues.path_ne (h.injective hContinues.canonical_eq).path
    · rintro ⟨-, hContinues⟩
      exact hContinues.path_ne (h.injective hContinues.canonical_eq.symm).path.symm
  · rintro ⟨hNot, hNot'⟩
    have hInjective : canonical r ts = canonical r' ts' → SameFacts r ts r' ts' := by
      intro hSame
      rcases canonical_cases hSame with hFacts | hContinues | hContinues
      · exact hFacts
      · exact absurd ⟨hContinues.overH2 hr', hContinues⟩ hNot
      · exact absurd ⟨hContinues.overH2 hr, hContinues⟩ hNot'
    refine ⟨hInjective, ?_⟩
    intro now secret maxAge hHmac hDate hMac hOther hAccepted
    obtain ⟨ts₀, hDate₀, -, hMac₀⟩ := verify_iff.mp hAccepted
    obtain rfl : ts' = ts₀ := Option.some.inj (hDate.symm.trans hDate₀)
    have hSame := (signature_eq_iff hHmac).mp (Option.some.inj (hMac.symm.trans hMac₀))
    obtain ⟨-, hPath, -, hBody⟩ := hInjective hSame
    exact hOther.elim (fun hNe => hNe hPath) fun hNe => hNe hBody

/-- A request that bears the signature of another one with the same message is
accepted with it, as long as it is fresh. -/
theorem accepted_with {r r' : HttpRequest} {ts ts' : Int} (hSame : canonical r ts = canonical r' ts')
    (hDate : dateOf r = some ts)
    (hDate' : dateOf r' = some ts')
    (hMac : httpRequestGetHeader r' macHeader = httpRequestGetHeader r macHeader)
    {now : Int} {secret : Bytes} {maxAge : Nat} (hFresh : Fresh now maxAge ts')
    (h : httpRequestSignatureVerify now (some secret) maxAge r = 0) :
    httpRequestSignatureVerify now (some secret) maxAge r' = 0 := by
  obtain ⟨ts₀, hDate₀, -, hSig⟩ := verify_iff.mp h
  obtain rfl : ts = ts₀ := Option.some.inj (hDate.symm.trans hDate₀)
  refine verify_iff.mpr ⟨ts', hDate', hFresh, ?_⟩
  rw [hMac, hSig, signature_eq, signature_eq, hSame]

/-! ## Two requests with one message -/

def postSignature : Bytes := ascii "8e0f55ee86e4ab468b7fc3f62ede530da5bdd00a40c7403eab748fca8e9062a5"

/-- Signed at time 100 with the secret `k`. -/
def postText : Bytes :=
  ascii "POST /a HTTP/1.1\r\nX-CWEB-Date: 100\r\nX-CWEB-Signature: " ++ postSignature ++
    ascii "\r\nContent-Length: 4\r\n\r\n200\n"

def postRun : Conn := Loop.run (serveTurn pageEnv) 10 (serveStart pageEnv [.data postText])

def post : HttpRequest where
  method := .post
  target := ascii "/a"
  path := ascii "/a"
  query := []
  version := ascii "HTTP/1.1"
  body := ascii "200\n"
  contentLength := 4
  bodyOffset := 141
  remote := ascii "127.0.0.1"
  headers := [⟨dateHeader, ascii "100"⟩, ⟨macHeader, postSignature⟩, ⟨ascii "Content-Length", ascii "4"⟩]

theorem post_delivered : Delivered post :=
  .inl ⟨pageEnv, [.data postText], postRun, Loop.run_visits 10 _, by decide +kernel⟩

/-- The body of the other request is in its path. -/
def forgedFields : List HpackTable.Field :=
  [⟨ascii ":method", ascii "POST"⟩, ⟨ascii ":scheme", ascii "http"⟩, ⟨ascii ":path", ascii "/a\n100"⟩,
    ⟨ascii "x-cweb-date", ascii "200"⟩, ⟨ascii "x-cweb-signature", postSignature⟩]

def forgedRun : H2.H2Conn :=
  H2.plainRun H2.plainEnv [⟨.settings, 0, 0, []⟩, ⟨.headers, 5, 1, H2.literalBlock forgedFields⟩]

def forged : HttpRequest where
  method := .post
  target := ascii "/a\n100"
  path := ascii "/a\n100"
  query := []
  version := ascii "HTTP/2.0"
  body := []
  contentLength := -1
  bodyOffset := 0
  remote := []
  headers := [⟨ascii "x-cweb-date", ascii "200"⟩, ⟨ascii "x-cweb-signature", postSignature⟩]

theorem forged_delivered : Delivered forged :=
  .inr ⟨H2.plainEnv, forgedRun, H2.reachable_plainRun _ _, by decide +kernel⟩

/-- Made at another time, the signature is of no use for the other path. -/
theorem binds_other_time : Binds post 150 forged 200 := by
  refine (binds_iff post_delivered forged_delivered 150 200).mpr ⟨?_, ?_⟩
  · rintro ⟨-, -, more, hPath, -⟩
    have hFront : ascii "/a\n100" = ascii "/a\n150" := congrArg (List.take 6) hPath
    exact absurd hFront (by decide)
  · rintro ⟨-, -, more, hPath, -⟩
    have hLength := congrArg List.length hPath
    rw [List.length_append] at hLength
    exact absurd hLength (Nat.ne_of_lt (Nat.lt_of_lt_of_le (by decide) (Nat.le_add_right _ _)))

/-- A signature for one path is accepted for another one. -/
theorem forged_accepted : Delivered post ∧ Delivered forged ∧
    canonical post 100 = canonical forged 200 ∧ post.path ≠ forged.path ∧
    ∀ now secret maxAge, Fresh now maxAge 200 → httpRequestSignatureVerify now (some secret) maxAge post = 0 →
      httpRequestSignatureVerify now (some secret) maxAge forged = 0 := by
  have hSame : canonical post 100 = canonical forged 200 := by decide +kernel
  refine ⟨post_delivered, forged_delivered, hSame, by decide, ?_⟩
  intro now secret maxAge hFresh hAccepted
  exact accepted_with hSame (by decide +kernel) (by decide +kernel) (by decide +kernel) hFresh hAccepted

end Cweb.Sign
