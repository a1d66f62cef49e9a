import Cweb.Http.ClientIp
import Cweb.Http.Date
import Cweb.Http.Request
import Cweb.Http.Response
import Cweb.Lib.CString

/-!
# The access logs

Both front ends and the logging middleware write one record for a request.
Path and version are escaped. The address of the client and the id of the
request are copied as they are, since both have been looked at before: the
address by `inet_pton`, which sees it up to its first NUL byte, the id by a
test that lets quotes through.
-/

namespace Cweb.AccessLog

open Sv Ip ClientIp Date
open CString (forall_byte)

/-! ## The records -/

/-- A request with what middleware has found out about it. -/
structure Tagged extends HttpRequest where
  clientIp : Bytes
  requestId : Bytes

def Resolved.text (peer : Bytes) : Resolved → Bytes
  | .peer => peer
  | .hop h => h.text

def httpClientIpMiddleware (net : InetPton) (trusted : List HttpCidr) (req : Tagged) : Tagged :=
  let xff := (httpRequestGetHeader req.toHttpRequest (ascii "x-forwarded-for")).getD []
  { req with clientIp := Resolved.text req.remote (httpClientIpResolve net trusted req.remote xff) }

def inboundOk (v : Bytes) : Bool :=
  let v := svTrim v
  v.length != 0 && v.length ≤ 128 && v.all fun c => 33 ≤ c && c ≤ 126

/-- `%016llx` -/
def hex16 (n : Nat) : Bytes := (List.range 16).map fun i => hexDigitChar (n / 16 ^ (15 - i) % 16)

def chosenId (honorIncoming : Bool) (req : Tagged) : Bytes :=
  match httpRequestGetHeader req.toHttpRequest (ascii "x-request-id") with
  | some v => if honorIncoming && inboundOk v then svTrim v else []
  | none => []

/-- `next` is the number a minted id is made of. -/
def httpRequestIdMiddleware (honorIncoming : Bool) (next : Nat) (req : Tagged) : Tagged :=
  let chosen := chosenId honorIncoming req
  { req with requestId := if chosen = [] then hex16 next else chosen }

/-- Which of the two middlewares are installed. -/
structure Stack where
  clientIp : Option (List HttpCidr)
  requestId : Option Bool

def Stack.apply (stack : Stack) (net : InetPton) (next : Nat) (req : HttpRequest) : Tagged :=
  let req : Tagged := { req with clientIp := [], requestId := [] }
  let req :=
    match stack.clientIp with
    | some trusted => httpClientIpMiddleware net trusted req
    | none => req
  match stack.requestId with
  | some honorIncoming => httpRequestIdMiddleware honorIncoming next req
  | none => req

def zone (off : Int) (hours minutes : Nat) : Bytes :=
  (if off < 0 then ascii "-" else ascii "+") ++ padded 2 hours ++ padded 2 minutes

def stamp (tm : Tm) (year : Bytes) : Bytes :=
  padded 2 tm.mday ++ ascii "/" ++ months tm.mon ++ ascii "/" ++ year ++ ascii ":" ++ padded 2 tm.hour ++
    ascii ":" ++ padded 2 tm.min ++ ascii ":" ++ padded 2 tm.sec ++ ascii " "

/-- `tm` is what `localtime_r` gives for `t`. -/
def httpDateClf (mktime : Tm → Int) (t : Int) (tm : Tm) : Bytes :=
  let off := mktime tm - t
  let hours := off.tdiv 3600
  let minutes := (off.tmod 3600).tdiv 60
  let skewed := hours < -12 ∨ 14 < hours
  (stamp tm (paddedInt 4 tm.year) ++
    zone off (if skewed then 0 else hours.natAbs) (if skewed then 0 else minutes.natAbs)).take 39

/-- The text of `strftime` in the C locale. -/
def clfTimestamp (tm : Tm) : Bytes :=
  ascii "[" ++ stamp tm (decimalInt tm.year) ++
    zone tm.off (tm.off.tdiv 3600).natAbs ((tm.off.tmod 3600).tdiv 60).natAbs ++ ascii "]"

def upperHex (d : Nat) : UInt8 := if d < 10 then UInt8.ofNat (48 + d) else UInt8.ofNat (55 + d)

def clfEscape (c : UInt8) : Bytes :=
  if c < 32 ∨ c = 127 ∨ c = 34 ∨ c = 92 then ascii "\\x" ++ [upperHex (c.toNat / 16), upperHex (c.toNat % 16)]
  else [c]

def clfAppendEscaped (s : Bytes) : Bytes := s.flatMap clfEscape

def who (req : Tagged) : Bytes :=
  let who := if 0 < req.clientIp.length then req.clientIp else req.remote
  if who.length = 0 then ascii "0.0.0.0" else who

def requestField (req : Tagged) (noMethod : Bytes) : Bytes :=
  ascii "\"" ++ ((httpMethodName req.method).getD noMethod ++ ascii " " ++ clfAppendEscaped req.path ++
    ascii " " ++
    clfAppendEscaped req.version) ++ ascii "\""

def logClfLine (line : Bytes) : Bytes := if line.getLast? = some 10 then line else line ++ [10]

def clfLine (mktime : Tm → Int) (t : Int) (req : Tagged) (status : Nat) (bytes : Int) (tm : Tm) : Bytes :=
  who req ++ (ascii " - - [" ++ httpDateClf mktime t tm ++ ascii "] ") ++ requestField req (ascii "???") ++
    (ascii " " ++ decimal status ++ ascii " " ++ if 0 < bytes then decimalInt bytes else ascii "-")

def logAccess (mktime : Tm → Int) (t : Int) (req : Tagged) (status : Nat) (bytes : Int) (tm : Tm) : Bytes :=
  logClfLine (clfLine mktime t req status bytes tm)

def h2LogAccess (mktime : Tm → Int) (t : Int) (req : Tagged) (status : Nat) (bytes : Int) (tm : Tm) : Bytes :=
  logClfLine (clfLine mktime t req status bytes tm)

def httpAccessLogMiddleware (includeRequestId : Bool) (req : Tagged) (status bodyCount elapsed : Nat)
    (tm : Tm) : Bytes :=
  who req ++ (ascii " - " ++ clfTimestamp tm ++ ascii " ") ++ requestField req (ascii "-") ++
    (ascii " " ++
    (decimal status ++ ascii " " ++ decimal bodyCount ++ ascii " " ++ decimal elapsed).take 47 ++
      if includeRequestId ∧ 0 < req.requestId.length then ascii " " ++ req.requestId else []) ++ [10]

/-! ## Bytes that leave a record whole -/

def isControl (b : UInt8) : Bool := b < 32 || b == 127

/-- Neither a control character nor a quote. -/
def isPlain (b : UInt8) : Bool := !isControl b && b != 34

def Plain (s : Bytes) : Prop := ∀ b ∈ s, isPlain b = true

/-- The final newline is the only control character of a record, and it has no
quotes but the two around the request. -/
def Intact (record : Bytes) : Prop :=
  record.getLast? = some 10 ∧ (∀ b ∈ record.dropLast, isControl b = false) ∧ record.dropLast.count 34 = 2

instance (s : Bytes) : Decidable (Plain s) := decidable_of_iff (s.all isPlain = true) List.all_eq_true

instance (record : Bytes) : Decidable (Intact record) := inferInstanceAs (Decidable (_ ∧ _))

@[simp]
theorem plain_append (s t : Bytes) : Plain (s ++ t) ↔ Plain s ∧ Plain t := by
  constructor
  · intro h
    exact ⟨fun b hb => h b (List.mem_append_left t hb), fun b hb => h b (List.mem_append_right s hb)⟩
  · rintro ⟨hs, ht⟩ b hb
    obtain hb | hb := List.mem_append.mp hb
    · exact hs b hb
    · exact ht b hb

theorem Plain.take {s : Bytes} (h : Plain s) (n : Nat) : Plain (s.take n) :=
  fun b hb => h b (List.mem_of_mem_take hb)

theorem isPlain_of_isdigit : ∀ b : UInt8, isdigit b = true → isPlain b = true :=
  forall_byte (by decide +kernel)

theorem plain_of_isdigit {s : Bytes} (h : ∀ b ∈ s, isdigit b = true) : Plain s :=
  fun b hb => isPlain_of_isdigit b (h b hb)

theorem plain_decimal (n : Nat) : Plain (decimal n) := plain_of_isdigit (decimalFuel_isdigit n n)

theorem plain_decimalInt (n : Int) : Plain (decimalInt n) := by
  cases n with
  | ofNat n => exact plain_decimal n
  | negSucc n =>
    intro b hb
    obtain rfl | hb := List.mem_cons.mp hb
    · decide
    · exact plain_decimal (n + 1) b hb

theorem plain_padded (width n : Nat) : Plain (padded width n) := by
  rw [padded, plain_append]
  refine ⟨?_, plain_decimal n⟩
  intro b hb
  rw [List.eq_of_mem_replicate hb]
  decide

theorem plain_paddedInt (width : Nat) (n : Int) : Plain (paddedInt width n) := by
  cases n with
  | ofNat n => exact plain_padded width n
  | negSucc n =>
    intro b hb
    obtain rfl | hb := List.mem_cons.mp hb
    · decide
    · exact plain_padded (width - 1) (n + 1) b hb

theorem plain_zone (off : Int) (hours minutes : Nat) : Plain (zone off hours minutes) := by
  simp only [zone, plain_append]
  refine ⟨⟨?_, plain_padded 2 hours⟩, plain_padded 2 minutes⟩
  split
  · decide
  · decide

theorem plain_stamp (tm : Tm) {year : Bytes} (hYear : Plain year) : Plain (stamp tm year) := by
  have hMonth : ∀ mon : Fin 12, Plain (months mon) := by decide
  have hSlash : Plain (ascii "/") := by decide
  have hColon : Plain (ascii ":") := by decide
  have hBlank : Plain (ascii " ") := by decide
  simp only [stamp, plain_append]
  exact ⟨⟨⟨⟨⟨⟨⟨⟨⟨⟨⟨plain_padded 2 _, hSlash⟩, hMonth _⟩, hSlash⟩, hYear⟩, hColon⟩, plain_padded 2 _⟩, hColon⟩,
    plain_padded 2 _⟩, hColon⟩, plain_padded 2 _⟩, hBlank⟩

theorem plain_httpDateClf (mktime : Tm → Int) (t : Int) (tm : Tm) : Plain (httpDateClf mktime t tm) := by
  apply Plain.take
  rw [plain_append]
  exact ⟨plain_stamp tm (plain_paddedInt 4 _), plain_zone _ _ _⟩

theorem plain_clfTimestamp (tm : Tm) : Plain (clfTimestamp tm) := by
  have hOpen : Plain (ascii "[") := by decide
  have hClose : Plain (ascii "]") := by decide
  simp only [clfTimestamp, plain_append]
  exact ⟨⟨⟨hOpen, plain_stamp tm (plain_decimalInt _)⟩, plain_zone _ _ _⟩, hClose⟩

theorem plain_clfEscape : ∀ c : UInt8, Plain (clfEscape c) :=
  forall_byte (by decide +kernel)

theorem plain_clfAppendEscaped (s : Bytes) : Plain (clfAppendEscaped s) := by
  intro b hb
  obtain ⟨c, _, hc⟩ := List.mem_flatMap.mp hb
  exact plain_clfEscape c b hc

theorem plain_iff (s : Bytes) : Plain s ↔ (∀ b ∈ s, isControl b = false) ∧ s.count 34 = 0 := by
  rw [List.count_eq_zero]
  constructor
  · intro h
    refine ⟨fun b hb => ?_, fun hQuote => absurd (h 34 hQuote) (by decide)⟩
    have hPlain := h b hb
    rw [isPlain, Bool.and_eq_true, Bool.not_eq_true'] at hPlain
    exact hPlain.1
  · rintro ⟨hControl, hQuote⟩ b hb
    have hNe : b ≠ 34 := fun hEq => hQuote (hEq ▸ hb)
    simp [isPlain, hControl b hb, hNe]

theorem intact_iff {front field back : Bytes} (hField : Plain field) :
    Intact (front ++ (ascii "\"" ++ field ++ ascii "\"") ++ back ++ [10]) ↔ Plain front ∧ Plain back := by
  have hMiddle : ∀ b ∈ ascii "\"" ++ field ++ ascii "\"", isControl b = false := by
    intro b hb
    simp only [List.mem_append] at hb
    obtain (hb | hb) | hb := hb
    · obtain rfl := List.mem_singleton.mp hb
      decide
    · exact ((plain_iff field).mp hField).1 b hb
    · obtain rfl := List.mem_singleton.mp hb
      decide
  have hTwo : (ascii "\"" ++ field ++ ascii "\"").count 34 = 2 := by
    have hOne : (ascii "\"").count 34 = 1 := by decide
    rw [List.count_append, List.count_append, ((plain_iff field).mp hField).2, hOne]
  rw [Intact, List.getLast?_concat, List.dropLast_concat, List.count_append, List.count_append, hTwo,
    plain_iff, plain_iff]
  constructor
  · rintro ⟨_, hControl, hCount⟩
    refine ⟨⟨fun b hb => hControl b ?_, by omega⟩, fun b hb => hControl b ?_, by omega⟩
    · simp [hb]
    · simp [hb]
  · rintro ⟨⟨hFront, hFrontCount⟩, hBack, hBackCount⟩
    refine ⟨rfl, ?_, by omega⟩
    intro b hb
    obtain hb | hb := List.mem_append.mp hb
    · obtain hb | hb := List.mem_append.mp hb
      · exact hFront b hb
      · exact hMiddle b hb
    · exact hBack b hb

/-! ## Addresses -/

def isAddressByte (b : UInt8) : Bool :=
  isdigit b || (65 ≤ b && b ≤ 70) || (97 ≤ b && b ≤ 102) || b == 46 || b == 58

/-- What `inet_pton` reads consists of digits, dots and colons. -/
structure NumericOnly (net : InetPton) : Prop where
  v4 : ∀ text a, net.v4 text = some a → ∀ b ∈ text, isAddressByte b = true
  v6 : ∀ text a, net.v6 text = some a → ∀ b ∈ text, isAddressByte b = true

theorem isPlain_of_isAddressByte : ∀ b : UInt8, isAddressByte b = true → isPlain b = true :=
  forall_byte (by decide +kernel)

theorem parseIp_bytes {net : InetPton} (hNet : NumericOnly net) {ip : Bytes} (h : parseIp net ip ≠ none) :
    ∀ b ∈ svFromCstr ip, isAddressByte b = true := by
  rw [parseIp] at h
  split at h
  · exact absurd rfl h
  · dsimp only at h
    split at h
    · obtain ⟨image, hImage⟩ := Option.ne_none_iff_exists'.mp h
      obtain ⟨a, hRead, _⟩ := Option.map_eq_some_iff.mp hImage
      exact hNet.v4 _ a hRead
    · obtain ⟨image, hImage⟩ := Option.ne_none_iff_exists'.mp h
      obtain ⟨a, hRead, _⟩ := Option.map_eq_some_iff.mp hImage
      exact hNet.v6 _ a hRead

/-- A parsed address is plain, or there is a NUL in it and the rest was never
looked at. -/
theorem plain_parsed_iff {net : InetPton} (hNet : NumericOnly net) {ip : Bytes} (h : parseIp net ip ≠ none) :
    Plain ip ↔ 0 ∉ ip := by
  constructor
  · intro hPlain hNul
    exact absurd (hPlain 0 hNul) (by decide)
  · intro hNul
    have hBytes := parseIp_bytes hNet h
    rw [svFromCstr_of_not_mem hNul] at hBytes
    exact fun b hb => isPlain_of_isAddressByte b (hBytes b hb)

theorem httpClientIpResolve_parsed {net : InetPton} {trusted : List HttpCidr} {peer xff : Bytes} {hop : Hop}
    (h : httpClientIpResolve net trusted peer xff = .hop hop) : parseIp net hop.text ≠ none := by
  rw [httpClientIpResolve] at h
  split at h
  · cases h
  · rename_i hSome
    have hTrusted : trusted ≠ [] := fun hNil => hSome (.inl hNil)
    split at h
    · rw [scanHops_eq hTrusted] at h
      split at h
      · rename_i found hFound
        cases h
        have hPicked := List.find?_some hFound
        exact (of_decide_eq_true hPicked).1
      · cases h
    · cases h

theorem plain_of_address {s : Bytes} (h : ∀ b ∈ s, isAddressByte b = true) : Plain s :=
  fun b hb => isPlain_of_isAddressByte b (h b hb)

theorem not_mem_of_plain {s : Bytes} (h : Plain s) : 0 ∉ s := fun hNul => absurd (h 0 hNul) (by decide)

theorem plain_clientIp_iff {net : InetPton} (hNet : NumericOnly net) (trusted : List HttpCidr) {req : Tagged}
    (hRemote : ∀ b ∈ req.remote, isAddressByte b = true) :
    Plain (httpClientIpMiddleware net trusted req).clientIp ↔
      0 ∉ (httpClientIpMiddleware net trusted req).clientIp := by
  rw [httpClientIpMiddleware]
  dsimp only
  cases hResolve : httpClientIpResolve net trusted req.remote
      ((httpRequestGetHeader req.toHttpRequest (ascii "x-forwarded-for")).getD []) with
  | peer => exact ⟨not_mem_of_plain, fun _ => plain_of_address hRemote⟩
  | hop h => exact plain_parsed_iff hNet (httpClientIpResolve_parsed hResolve)

/-! ## Request ids -/

theorem plain_hex16 (n : Nat) : Plain (hex16 n) := by
  have hDigit : ∀ d : Fin 16, isPlain (hexDigitChar d) = true := by decide
  intro b hb
  obtain ⟨i, _, rfl⟩ := List.mem_map.mp hb
  exact hDigit ⟨n / 16 ^ (15 - i) % 16, Nat.mod_lt _ (by decide)⟩

theorem isPlain_of_visible : ∀ b : UInt8, 33 ≤ b ∧ b ≤ 126 ∧ b ≠ 34 → isPlain b = true :=
  forall_byte (by decide +kernel)

theorem chosenId_cases (honorIncoming : Bool) (req : Tagged) :
    chosenId honorIncoming req = [] ∨ ∃ v, inboundOk v = true ∧ chosenId honorIncoming req = svTrim v := by
  rw [chosenId]
  split
  · rename_i v _
    by_cases hHonor : (honorIncoming && inboundOk v) = true
    · rw [if_pos hHonor]
      rw [Bool.and_eq_true] at hHonor
      exact .inr ⟨v, hHonor.2, rfl⟩
    · rw [if_neg hHonor]
      exact .inl rfl
  · exact .inl rfl

theorem plain_of_inboundOk {v : Bytes} (h : inboundOk v = true) (hQuote : 34 ∉ svTrim v) :
    Plain (svTrim v) := by
  rw [inboundOk] at h
  simp only [Bool.and_eq_true, List.all_eq_true, decide_eq_true_eq] at h
  intro b hb
  have hNe : b ≠ 34 := fun hEq => hQuote (hEq ▸ hb)
  exact isPlain_of_visible b ⟨(h.2 b hb).1, (h.2 b hb).2, hNe⟩

theorem plain_requestId_iff (honorIncoming : Bool) (next : Nat) (req : Tagged) :
    Plain (httpRequestIdMiddleware honorIncoming next req).requestId ↔
      34 ∉ (httpRequestIdMiddleware honorIncoming next req).requestId := by
  constructor
  · intro hPlain hQuote
    exact absurd (hPlain 34 hQuote) (by decide)
  · rw [httpRequestIdMiddleware]
    dsimp only
    intro hQuote
    by_cases hNil : chosenId honorIncoming req = []
    · rw [if_pos hNil]
      exact plain_hex16 next
    · rw [if_neg hNil] at hQuote ⊢
      obtain hEmpty | ⟨v, hOk, hEq⟩ := chosenId_cases honorIncoming req
      · exact absurd hEmpty hNil
      · rw [hEq] at hQuote ⊢
        exact plain_of_inboundOk hOk hQuote

/-! ## The three writers -/

theorem apply_clientIp (stack : Stack) (net : InetPton) (next : Nat) (req : HttpRequest) :
    (stack.apply net next req).remote = req.remote ∧
      ((stack.apply net next req).clientIp = [] ∨
        ∃ trusted, (stack.apply net next req).clientIp =
          (httpClientIpMiddleware net trusted { req with clientIp := [], requestId := [] }).clientIp) := by
  obtain ⟨clientIp, requestId⟩ := stack
  rw [Stack.apply]
  cases clientIp with
  | none =>
    cases requestId with
    | none => exact ⟨rfl, .inl rfl⟩
    | some honorIncoming => exact ⟨rfl, .inl rfl⟩
  | some trusted =>
    cases requestId with
    | none => exact ⟨rfl, .inr ⟨trusted, rfl⟩⟩
    | some honorIncoming => exact ⟨rfl, .inr ⟨trusted, rfl⟩⟩

theorem apply_requestId (stack : Stack) (net : InetPton) (next : Nat) (req : HttpRequest) :
    (stack.apply net next req).requestId = [] ∨
      ∃ honorIncoming req', (stack.apply net next req).requestId =
        (httpRequestIdMiddleware honorIncoming next req').requestId := by
  obtain ⟨clientIp, requestId⟩ := stack
  rw [Stack.apply]
  cases requestId with
  | none =>
    cases clientIp with
    | none => exact .inl rfl
    | some trusted => exact .inl rfl
  | some honorIncoming => exact .inr ⟨honorIncoming, _, rfl⟩

theorem plain_who_iff {net : InetPton} (hNet : NumericOnly net) (stack : Stack) (next : Nat)
    {req : HttpRequest} (hRemote : ∀ b ∈ req.remote, isAddressByte b = true) :
    Plain (who (stack.apply net next req)) ↔ 0 ∉ (stack.apply net next req).clientIp := by
  obtain ⟨hSame, hClient⟩ := apply_clientIp stack net next req
  generalize stack.apply net next req = tagged at hSame hClient ⊢
  by_cases hNil : tagged.clientIp = []
  · rw [who, hNil, hSame]
    have hText : Plain (if req.remote.length = 0 then ascii "0.0.0.0" else req.remote) := by
      split
      · decide
      · exact plain_of_address hRemote
    exact ⟨fun _ => List.not_mem_nil, fun _ => hText⟩
  · have hPos : 0 < tagged.clientIp.length := List.length_pos_iff.mpr hNil
    have hWho : who tagged = tagged.clientIp := by
      rw [who, if_pos hPos]
      exact if_neg (by omega)
    rw [hWho]
    obtain hEmpty | ⟨trusted, hTrusted⟩ := hClient
    · exact absurd hEmpty hNil
    · rw [hTrusted]
      exact plain_clientIp_iff hNet trusted hRemote

theorem plain_httpMethodName {m : HttpMethod} {name : Bytes} (h : httpMethodName m = some name) :
    Plain name := by
  cases m with
  | unknown => cases h
  | _ =>
    obtain rfl := Option.some.inj h
    decide

theorem plain_requestField (req : Tagged) {noMethod : Bytes} (hNoMethod : Plain noMethod) :
    Plain ((httpMethodName req.method).getD noMethod ++ ascii " " ++ clfAppendEscaped req.path ++ ascii " " ++
      clfAppendEscaped req.version) := by
  have hBlank : Plain (ascii " ") := by decide
  have hMethod : Plain ((httpMethodName req.method).getD noMethod) := by
    cases hName : httpMethodName req.method with
    | none => exact hNoMethod
    | some name => exact plain_httpMethodName hName
  simp only [plain_append]
  exact ⟨⟨⟨⟨hMethod, hBlank⟩, plain_clfAppendEscaped _⟩, hBlank⟩, plain_clfAppendEscaped _⟩

theorem logClfLine_of_plain {front back : Bytes} (hBack : Plain back) (hSome : back ≠ []) :
    logClfLine (front ++ back) = front ++ back ++ [10] := by
  rw [logClfLine, if_neg]
  rw [List.getLast?_append_of_ne_nil _ hSome]
  intro hLast
  exact absurd (hBack 10 (List.mem_of_getLast? hLast)) (by decide)

theorem logAccess_intact_iff (mktime : Tm → Int) (t : Int) (req : Tagged) (status : Nat) (bytes : Int)
    (tm : Tm) :
    Intact (logAccess mktime t req status bytes tm) ↔ Plain (who req) := by
  have hBlank : Plain (ascii " ") := by decide
  have hBytes : Plain (if 0 < bytes then decimalInt bytes else ascii "-") := by
    split
    · exact plain_decimalInt bytes
    · decide
  have hBack : Plain (ascii " " ++ decimal status ++ ascii " " ++
      if 0 < bytes then decimalInt bytes else ascii "-") := by
    simp only [plain_append]
    exact ⟨⟨⟨hBlank, plain_decimal status⟩, hBlank⟩, hBytes⟩
  have hOpen : Plain (ascii " - - [") := by decide
  have hClose : Plain (ascii "] ") := by decide
  have hNoMethod : Plain (ascii "???") := by decide
  have hBackSome : ascii " " ++ decimal status ++ ascii " " ++
      (if 0 < bytes then decimalInt bytes else ascii "-") ≠ [] := nofun
  rw [logAccess, clfLine, logClfLine_of_plain hBack hBackSome, requestField,
    intact_iff (plain_requestField req hNoMethod)]
  simp only [plain_append] at hBack ⊢
  exact ⟨fun h => h.1.1, fun h => ⟨⟨h, ⟨hOpen, plain_httpDateClf mktime t tm⟩, hClose⟩, hBack⟩⟩

theorem httpAccessLogMiddleware_intact_iff (includeRequestId : Bool) (req : Tagged)
    (status bodyCount elapsed : Nat) (tm : Tm) :
    Intact (httpAccessLogMiddleware includeRequestId req status bodyCount elapsed tm) ↔
      Plain (who req) ∧ (includeRequestId = true → Plain req.requestId) := by
  have hBlank : Plain (ascii " ") := by decide
  have hOpen : Plain (ascii " - ") := by decide
  have hNoMethod : Plain (ascii "-") := by decide
  have hField : Plain ((decimal status ++ ascii " " ++ decimal bodyCount ++ ascii " " ++
      decimal elapsed).take 47) := by
    apply Plain.take
    simp only [plain_append]
    exact ⟨⟨⟨⟨plain_decimal _, hBlank⟩, plain_decimal _⟩, hBlank⟩, plain_decimal _⟩
  have hToken : Plain (if includeRequestId ∧ 0 < req.requestId.length then ascii " " ++ req.requestId
    else []) ↔
      (includeRequestId = true → Plain req.requestId) := by
    by_cases hInclude : includeRequestId = true
    · by_cases hSome : 0 < req.requestId.length
      · rw [if_pos ⟨hInclude, hSome⟩, plain_append]
        exact ⟨fun h _ => h.2, fun h => ⟨hBlank, h hInclude⟩⟩
      · have hNil : req.requestId = [] := List.length_eq_zero_iff.mp (by omega)
        rw [if_neg (fun h => hSome h.2), hNil]
        exact ⟨fun h _ => h, fun h => h hInclude⟩
    · rw [if_neg (fun h => hInclude h.1)]
      exact ⟨fun _ h => absurd h hInclude, fun _ => nofun⟩
  rw [httpAccessLogMiddleware, requestField, intact_iff (plain_requestField req hNoMethod)]
  simp only [plain_append]
  constructor
  · rintro ⟨⟨hWho, _⟩, _, hId⟩
    exact ⟨hWho, hToken.mp hId⟩
  · rintro ⟨hWho, hId⟩
    exact ⟨⟨hWho, ⟨hOpen, plain_clfTimestamp tm⟩, hBlank⟩, ⟨hBlank, hField⟩, hToken.mpr hId⟩

/-- Records stay whole as long as the resolved address has no NUL byte in it
and the logged id no quote. -/
theorem access_log_intact_iff {net : InetPton} (hNet : NumericOnly net) {req : HttpRequest}
    (hRemote : ∀ b ∈ req.remote, isAddressByte b = true) (stack : Stack) (next : Nat)
    (mktime : Tm → Int) (t : Int) (tm : Tm) :
    (∀ status bytes,
      Intact (logAccess mktime t (stack.apply net next req) status bytes tm) ↔
        0 ∉ (stack.apply net next req).clientIp) ∧
    (∀ status bytes,
      Intact (h2LogAccess mktime t (stack.apply net next req) status bytes tm) ↔
        0 ∉ (stack.apply net next req).clientIp) ∧
    ∀ includeRequestId status bodyCount elapsed,
      Intact (httpAccessLogMiddleware includeRequestId
        (stack.apply net next req) status bodyCount elapsed tm) ↔
        0 ∉ (stack.apply net next req).clientIp ∧
          (includeRequestId = true → 34 ∉ (stack.apply net next req).requestId) := by
  have hWho := plain_who_iff hNet stack next hRemote
  have hId : Plain (stack.apply net next req).requestId ↔ 34 ∉ (stack.apply net next req).requestId := by
    obtain hNil | ⟨honorIncoming, req', hEq⟩ := apply_requestId stack net next req
    · rw [hNil]
      exact ⟨fun _ => List.not_mem_nil, fun _ => nofun⟩
    · rw [hEq]
      exact plain_requestId_iff honorIncoming next req'
  refine ⟨fun status bytes => ?_, fun status bytes => ?_, fun includeRequestId status bodyCount elapsed => ?_⟩
  · rw [logAccess_intact_iff, hWho]
  · exact (logAccess_intact_iff mktime t _ status bytes tm).trans hWho
  · rw [httpAccessLogMiddleware_intact_iff, hWho, hId]

theorem threeAddresses_numeric : NumericOnly threeAddresses := by
  constructor
  · intro text a h b hb
    have hTable : ∀ known ∈ [ascii "10.0.0.1", ascii "6.6.6.6", ascii "9.9.9.9"],
        ∀ b ∈ known, isAddressByte b = true := by decide +kernel
    rw [threeAddresses] at h
    dsimp only at h
    split at h
    · rename_i hEq
      exact hTable text (by simp [hEq]) b hb
    · split at h
      · rename_i hEq
        exact hTable text (by simp [hEq]) b hb
      · split at h
        · rename_i hEq
          exact hTable text (by simp [hEq]) b hb
        · cases h
  · intro text a h
    cases h

/-- A header value goes on behind a NUL byte. -/
def forgedText : Bytes :=
  ascii "GET / HTTP/1.1\r\nX-Forwarded-For: 9.9.9.9" ++ [0] ++ ascii "\" 200 \"\r\n\r\n"

/-- The request as the HTTP/1.1 front end hands it on. -/
def forgedRequest : HttpRequest :=
  match httpRequestParseAdv forgedText [] with
  | .ok req _ => { req with remote := ascii "10.0.0.1" }
  | _ => emptyRequest

/-- Noon of the first of June 2026, two hours east of UTC. -/
def noonOfJune : Tm := ⟨1, 1, 5, 2026, 12, 0, 0, 7200⟩

def noonInUtc : Int := 1780308000

def forgedTagged : Tagged := Stack.apply ⟨some [tenNet.toHttpCidr], none⟩ threeAddresses 0 forgedRequest

theorem access_log_intact_forged :
    (∀ status bytes, Intact (logAccess Tm.moment noonInUtc forgedTagged status bytes noonOfJune) ↔
      0 ∉ forgedTagged.clientIp) ∧
    (∀ status bytes, Intact (h2LogAccess Tm.moment noonInUtc forgedTagged status bytes noonOfJune) ↔
      0 ∉ forgedTagged.clientIp) ∧
    ∀ includeRequestId status bodyCount elapsed,
      Intact (httpAccessLogMiddleware includeRequestId forgedTagged status bodyCount elapsed noonOfJune) ↔
        0 ∉ forgedTagged.clientIp ∧ (includeRequestId = true → 34 ∉ forgedTagged.requestId) :=
  access_log_intact_iff threeAddresses_numeric (by decide +kernel) _ _ _ _ _

/-- The client puts a NUL byte and quotes into the record. -/
theorem forged_record : ¬ Intact (logAccess Tm.moment noonInUtc forgedTagged 200 5 noonOfJune) := by
  decide +kernel

end Cweb.AccessLog
