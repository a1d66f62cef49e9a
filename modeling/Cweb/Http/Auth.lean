import Cweb.Http.BasicAuth
import Cweb.Http.Middleware
import Cweb.Security.Digest
import Cweb.Security.PasswordRecord
import Cweb.Utils.Base64

/-!
# Basic authentication

The guard decodes one header and compares the hash of the whole text with that of the
expected one. Whom a request is taken to come from is read off the text that was sent.
-/

namespace Cweb.Auth

open Sv Base64 Hmac Password Middleware Layers

structure HttpBasicAuthOptions where
  user : Option Bytes
  pass : Option Bytes
  realm : Option Bytes
deriving DecidableEq, Repr

/-- What stands behind the name of the scheme. -/
def basicPayload (header : Bytes) : Option Bytes :=
  let header := svTrim header
  if header.length < 6 ∨ (header.take 5).map tolower ≠ ascii "basic" ∨ header[5]? ≠ some 32 then none
  else
    let payload := header.drop 6
    if payload = [] then none else some payload

/-- How long the name in front of the first colon is. -/
def colonAt (decoded : Bytes) : Nat := (decoded.takeWhile (· ≠ 58)).length

/-- The name that is copied to a buffer of that size when the credentials are right. -/
def checkCreds (header wantUser wantPass : Bytes) (userCap : Nat) : Option Bytes :=
  match basicPayload header with
  | none => none
  | some payload =>
    match base64DecodeInto payload with
    | none => none
    | some decoded =>
      let colon := colonAt decoded
      if colon = 0 ∨ decoded.length ≤ colon then none
      else if 1024 < wantUser.length + 1 + wantPass.length + 1 then none
      else
        let expected := wantUser ++ 58 :: wantPass
        if secureByteEqual (sha256 expected) (sha256 decoded) then
          some (decoded.take (min colon (userCap - 1)))
        else none

variable {ω : Type}

/-- Without a user the guard lets everything through. -/
def httpBasicAuthMiddleware (opts : Option HttpBasicAuthOptions) :
    HttpMiddlewareFn (Exchange ω) := fun next x =>
  match opts with
  | none => next x
  | some opts =>
    let user := svFromCstr (opts.user.getD [])
    if user = [] then next x
    else
      let creds := (httpRequestGetHeader x.req.toHttpRequest (ascii "authorization")).bind fun auth =>
        checkCreds auth user (svFromCstr (opts.pass.getD [])) 128
      match creds with
      | none =>
        some (x.respond (BasicAuth.httpResponseRequireBasicAuth x.res (opts.realm.getD (ascii "cweb"))))
      | some userbuf => next { x with req := { x.req with authUser := svFromCstr userbuf } }

/-! ## Who is let in -/

/-- The text of a header's credentials, its padding aside. -/
def Encodes (header decoded : Bytes) : Prop :=
  ∃ scheme payload, svTrim header = scheme ++ 32 :: payload ∧ scheme.map tolower = ascii "basic" ∧
    payload ≠ [] ∧
    payload.rdropWhile (· == 61) = unpadded decoded

theorem basicPayload_eq_some {header payload : Bytes} :
    basicPayload header = some payload ↔
      payload ≠ [] ∧ ∃ scheme, svTrim header = scheme ++ 32 :: payload ∧
        scheme.map tolower = ascii "basic" := by
  rw [basicPayload]
  dsimp only
  generalize svTrim header = text
  constructor
  · intro h
    split at h
    · cases h
    · next hScheme =>
      rw [not_or, not_or, not_not, not_not, Nat.not_lt] at hScheme
      obtain ⟨hLength, hName, hBlank⟩ := hScheme
      split at h
      · cases h
      · next hSome =>
        obtain rfl := Option.some.inj h
        obtain ⟨hLt, hGet⟩ := List.getElem?_eq_some_iff.mp hBlank
        refine ⟨hSome, text.take 5, ?_, hName⟩
        conv_lhs => rw [← List.take_append_drop 5 text, List.drop_eq_getElem_cons hLt, hGet]
  · rintro ⟨hSome, scheme, rfl, hName⟩
    have hFive : scheme.length = 5 := by
      have hLength := congrArg List.length hName
      rwa [List.length_map] at hLength
    have hDrop : (scheme ++ 32 :: payload).drop 6 = payload := by
      rw [show 6 = scheme.length + 1 by omega, List.drop_append]
      simp
    rw [if_neg, hDrop, if_neg hSome]
    rw [not_or, not_or, not_not, not_not]
    refine ⟨?_, ?_, ?_⟩
    · rw [List.length_append, List.length_cons, hFive]
      omega
    · rw [← hFive, List.take_left, hName]
    · rw [← hFive]
      simp

theorem encodes_iff (header decoded : Bytes) :
    Encodes header decoded ↔ ∃ payload, basicPayload header = some payload ∧
      base64DecodeInto payload = some decoded := by
  simp only [basicPayload_eq_some, base64DecodeInto_iff]
  constructor
  · rintro ⟨scheme, payload, hText, hName, hSome, hDecoded⟩
    exact ⟨payload, ⟨hSome, scheme, hText, hName⟩, hDecoded⟩
  · rintro ⟨payload, ⟨hSome, scheme, hText, hName⟩, hDecoded⟩
    exact ⟨scheme, payload, hText, hName, hSome, hDecoded⟩

theorem Encodes.unique {header decoded decoded' : Bytes} (h : Encodes header decoded)
    (h' : Encodes header decoded') :
    decoded = decoded' := by
  obtain ⟨payload, hPayload, hDecoded⟩ := (encodes_iff _ _).mp h
  obtain ⟨payload', hPayload', hDecoded'⟩ := (encodes_iff _ _).mp h'
  obtain rfl := Option.some.inj (hPayload.symm.trans hPayload')
  exact Option.some.inj (hDecoded.symm.trans hDecoded')

theorem colonAt_spec (decoded : Bytes) : (¬ (colonAt decoded = 0 ∨ decoded.length ≤ colonAt decoded)) ↔
    ∃ name secret, decoded = name ++ 58 :: secret ∧ name ≠ [] ∧ 58 ∉ name := by
  rw [colonAt]
  constructor
  · intro h
    rw [not_or, Nat.not_le] at h
    have hSplit := List.takeWhile_append_dropWhile (p := fun b : UInt8 => decide (b ≠ 58)) (l := decoded)
    cases hDrop : decoded.dropWhile (· ≠ 58) with
    | nil =>
      rw [hDrop, List.append_nil] at hSplit
      exact absurd h.2 (by rw [hSplit]; exact Nat.lt_irrefl _)
    | cons b secret =>
      have hColon := List.head?_dropWhile_not (fun b : UInt8 => decide (b ≠ 58)) decoded
      rw [hDrop] at hColon hSplit
      obtain rfl : b = 58 := by simpa using hColon
      refine ⟨_, secret, hSplit.symm, ?_, ?_⟩
      · exact fun hNil => h.1 (List.length_eq_zero_iff.mpr hNil)
      · intro hMem
        simpa using List.mem_takeWhile_imp hMem
  · rintro ⟨name, secret, rfl, hName, hNone⟩
    have hTake : (name ++ 58 :: secret).takeWhile (· ≠ 58) = name := by
      rw [List.takeWhile_append_of_pos fun b hb => by simpa using fun hEq : b = 58 => hNone (hEq ▸ hb),
        List.takeWhile_cons_of_neg (by decide), List.append_nil]
    rw [hTake, not_or, List.length_append, List.length_cons]
    exact ⟨fun hZero => hName (List.length_eq_zero_iff.mp hZero), by omega⟩

/-- A header is accepted for a user and a password: the text in it has the hash of
the two with a colon between them. -/
structure Accepts (user pass header name secret : Bytes) : Prop where
  encodes : Encodes header (name ++ 58 :: secret)
  named : name ≠ []
  first : 58 ∉ name
  fits : user.length + pass.length ≤ 1022
  hash : Fips.sha256 (name ++ 58 :: secret) = Fips.sha256 (user ++ 58 :: pass)

theorem takeWhile_name {name : Bytes} (h : 58 ∉ name) (secret : Bytes) :
    (name ++ 58 :: secret).takeWhile (· ≠ 58) = name := by
  rw [List.takeWhile_append_of_pos fun b hb => by simpa using fun hEq : b = 58 => h (hEq ▸ hb),
    List.takeWhile_cons_of_neg (by decide),
    List.append_nil]

theorem checkCreds_iff {header user pass userbuf : Bytes} (userCap : Nat) :
    checkCreds header user pass userCap = some userbuf ↔
      ∃ name secret, Accepts user pass header name secret ∧ userbuf = name.take (userCap - 1) := by
  rw [checkCreds]
  constructor
  · intro h
    split at h
    · cases h
    · next payload hPayload =>
      split at h
      · cases h
      · next decoded hDecoded =>
        dsimp only at h
        split at h
        · cases h
        · next hColon =>
          obtain ⟨name, secret, rfl, hNamed, hFirst⟩ := (colonAt_spec decoded).mp hColon
          split at h
          · cases h
          · next hFits =>
            split at h
            · next hHash =>
              rw [sha256_eq, sha256_eq,
                secureByteEqual_iff (by rw [Fips.length_sha256, Fips.length_sha256])] at hHash
              refine ⟨name, secret,
                ⟨(encodes_iff _ _).mpr ⟨payload, hPayload, hDecoded⟩, hNamed, hFirst, by
                omega, hHash.symm⟩, ?_⟩
              rw [← Option.some.inj h, colonAt, takeWhile_name hFirst, Nat.min_comm, ← List.take_take,
                List.take_left]
            · cases h
  · rintro ⟨name, secret, h, rfl⟩
    obtain ⟨payload, hPayload, hDecoded⟩ := (encodes_iff _ _).mp h.encodes
    have hFits := h.fits
    rw [hPayload]
    dsimp only
    rw [hDecoded]
    dsimp only
    rw [if_neg ((colonAt_spec _).mpr ⟨name, secret, rfl, h.named, h.first⟩), if_neg (by omega), if_pos,
      colonAt, takeWhile_name h.first,
      Nat.min_comm, ← List.take_take, List.take_left]
    rw [sha256_eq, sha256_eq, secureByteEqual_iff (by rw [Fips.length_sha256, Fips.length_sha256]), h.hash]

/-- The header that a client makes of its credentials. -/
def basicHeader (user pass : Bytes) : Bytes := ascii "Basic " ++ base64EncodeInto (user ++ 58 :: pass)

theorem isspace_encode (d : Bytes) : ∀ c ∈ base64EncodeInto d, isspace c = false := by
  have hDigits : ∀ d : Bytes, ∀ c ∈ unpadded d, isspace c = false := by
    intro d
    have hDigit : ∀ {k : Nat}, k < 64 → isspace (digit k) = false := by
      have hAll : ∀ k : Fin 64, isspace (digit k) = false := by decide +kernel
      exact fun {k} hk => hAll ⟨k, hk⟩
    induction d using unpadded.induct with
    | case1 => exact fun c hc => absurd hc List.not_mem_nil
    | case2 a =>
      have ha := a.toNat_lt
      simp only [unpadded, List.forall_mem_cons]
      exact ⟨hDigit (by omega), hDigit (by omega), fun _ h => absurd h List.not_mem_nil⟩
    | case3 a b =>
      have ha := a.toNat_lt
      have hb := b.toNat_lt
      simp only [unpadded, List.forall_mem_cons]
      exact ⟨hDigit (by omega), hDigit (by omega), hDigit (by omega), fun _ h => absurd h List.not_mem_nil⟩
    | case4 a b c d ih =>
      have ha := a.toNat_lt
      have hb := b.toNat_lt
      have hc := c.toNat_lt
      simp only [unpadded, List.forall_mem_cons]
      exact ⟨hDigit (by omega), hDigit (by omega), hDigit (by omega), hDigit (by omega), ih⟩
  intro c hc
  rw [base64EncodeInto_eq] at hc
  rcases List.mem_append.mp hc with hDigit | hPad
  · exact hDigits d c hDigit
  · rw [List.eq_of_mem_replicate hPad]
    decide

theorem encodes_basicHeader (user pass : Bytes) : Encodes (basicHeader user pass) (user ++ 58 :: pass) := by
  have hSome : base64EncodeInto (user ++ 58 :: pass) ≠ [] := by
    intro hNil
    have hLength := congrArg List.length (rdropWhile_encode (user ++ 58 :: pass))
    rw [hNil, length_unpadded, List.length_append, List.length_cons] at hLength
    simp only [List.rdropWhile_nil, List.length_nil] at hLength
    omega
  refine ⟨ascii "Basic", base64EncodeInto (user ++ 58 :: pass), ?_, by decide, hSome, rdropWhile_encode _⟩
  rw [basicHeader, svTrim_eq_self]
  · rfl
  · intro b hb
    obtain rfl := Option.some.inj hb
    decide
  · intro b hb
    rw [List.getLast?_append_of_ne_nil _ hSome] at hb
    exact isspace_encode _ b (List.mem_of_getLast? hb)

/-- Of its own header the server sees the name in front of the first colon, also
where the user has a colon. -/
theorem exists_accepts_basicHeader_iff {user pass : Bytes} (hUser : user ≠ []) :
    (∃ secret, Accepts user pass (basicHeader user pass) (user.takeWhile (· ≠ 58)) secret) ↔
      user.length + pass.length ≤ 1022 ∧ user.head? ≠ some 58 := by
  constructor
  · rintro ⟨secret, h⟩
    refine ⟨h.fits, ?_⟩
    intro hColon
    obtain ⟨rest, rfl⟩ := List.head?_eq_some_iff.mp hColon
    exact h.named (List.takeWhile_cons_of_neg (by decide))
  · rintro ⟨hFits, hHead⟩
    obtain ⟨secret, hText⟩ : ∃ secret, user.takeWhile (· ≠ 58) ++ 58 :: secret = user ++ 58 :: pass := by
      have hSplit := List.takeWhile_append_dropWhile (p := fun b : UInt8 => decide (b ≠ 58)) (l := user)
      cases hDrop : user.dropWhile (· ≠ 58) with
      | nil =>
        rw [hDrop, List.append_nil] at hSplit
        exact ⟨pass, by rw [hSplit]⟩
      | cons b rest =>
        have hColon := List.head?_dropWhile_not (fun b : UInt8 => decide (b ≠ 58)) user
        rw [hDrop] at hColon
        obtain rfl : b = 58 := by simpa using hColon
        refine ⟨rest ++ 58 :: pass, ?_⟩
        conv_rhs => rw [← hSplit, hDrop, List.append_assoc, List.cons_append]
    refine ⟨secret, hText ▸ encodes_basicHeader user pass, ?_, fun hMem =>
      absurd (List.mem_takeWhile_imp hMem) (by decide), hFits,
      congrArg Fips.sha256 hText⟩
    obtain ⟨b, rest, rfl⟩ := List.exists_cons_of_ne_nil hUser
    have hFirst : b ≠ 58 := fun hEq => hHead (congrArg some hEq)
    rw [List.takeWhile_cons_of_pos (by simpa using hFirst)]
    exact List.cons_ne_nil _ _

def basicEnter (opts : Option HttpBasicAuthOptions) (x : Exchange ω) : Except (Exchange ω) (Exchange ω) :=
  match opts with
  | none => .ok x
  | some opts =>
    let user := svFromCstr (opts.user.getD [])
    if user = [] then .ok x
    else
      let creds := (httpRequestGetHeader x.req.toHttpRequest (ascii "authorization")).bind fun auth =>
        checkCreds auth user (svFromCstr (opts.pass.getD [])) 128
      match creds with
      | none =>
        .error (x.respond (BasicAuth.httpResponseRequireBasicAuth x.res (opts.realm.getD (ascii "cweb"))))
      | some userbuf => .ok { x with req := { x.req with authUser := svFromCstr userbuf } }

theorem httpBasicAuthMiddleware_eq (opts : Option HttpBasicAuthOptions) :
    (httpBasicAuthMiddleware opts : HttpMiddlewareFn (Exchange ω)) = (gate (basicEnter opts)).wrap := by
  funext next x
  rw [wrap_gate]
  cases opts with
  | none => rfl
  | some opts =>
    simp only [httpBasicAuthMiddleware, basicEnter]
    by_cases hUser : svFromCstr (opts.user.getD []) = []
    · rw [if_pos hUser, if_pos hUser]
    · rw [if_neg hUser, if_neg hUser]
      split
      · rfl
      · rfl

/-- The credentials of a request, as the guard finds them. -/
def Presents (opts : HttpBasicAuthOptions) (req : HttpRequest) (name secret : Bytes) : Prop :=
  ∃ auth, httpRequestGetHeader req (ascii "authorization") = some auth ∧
    Accepts (svFromCstr (opts.user.getD [])) (svFromCstr (opts.pass.getD [])) auth name secret

theorem Presents.unique {opts : HttpBasicAuthOptions} {req : HttpRequest} {name secret name' secret' : Bytes}
    (h : Presents opts req name secret) (h' : Presents opts req name' secret') : name = name' := by
  obtain ⟨auth, hAuth, hAccepts⟩ := h
  obtain ⟨auth', hAuth', hAccepts'⟩ := h'
  obtain rfl := Option.some.inj (hAuth.symm.trans hAuth')
  have hText := hAccepts.encodes.unique hAccepts'.encodes
  rw [← takeWhile_name hAccepts.first secret, hText, takeWhile_name hAccepts'.first]

theorem basicEnter_cases {opts : HttpBasicAuthOptions} (hUser : svFromCstr (opts.user.getD []) ≠ [])
    (x : Exchange ω) :
    (∃ name secret, Presents opts x.req.toHttpRequest name secret ∧
      basicEnter (some opts) x = .ok { x with req :=
        { x.req with authUser := svFromCstr (name.take 127) } }) ∨
    (¬ ∃ name secret, Presents opts x.req.toHttpRequest name secret) ∧
      basicEnter (some opts) x = .error
        (x.respond (BasicAuth.httpResponseRequireBasicAuth x.res (opts.realm.getD (ascii "cweb")))) := by
  have hCreds : ∀ userbuf,
    ((httpRequestGetHeader x.req.toHttpRequest (ascii "authorization")).bind fun auth =>
      checkCreds auth (svFromCstr (opts.user.getD [])) (svFromCstr (opts.pass.getD [])) 128) = some userbuf ↔
      ∃ name secret, Presents opts x.req.toHttpRequest name secret ∧ userbuf = name.take 127 := by
    intro userbuf
    rw [Option.bind_eq_some_iff]
    constructor
    · rintro ⟨auth, hAuth, hCheck⟩
      obtain ⟨name, secret, hAccepts, hBuf⟩ := (checkCreds_iff 128).mp hCheck
      exact ⟨name, secret, ⟨auth, hAuth, hAccepts⟩, hBuf⟩
    · rintro ⟨name, secret, ⟨auth, hAuth, hAccepts⟩, hBuf⟩
      exact ⟨auth, hAuth, (checkCreds_iff 128).mpr ⟨name, secret, hAccepts, hBuf⟩⟩
  simp only [basicEnter]
  rw [if_neg hUser]
  split
  · next hNone =>
    refine .inr ⟨?_, rfl⟩
    rintro ⟨name, secret, hPresents⟩
    rw [(hCreds _).mpr ⟨name, secret, hPresents, rfl⟩] at hNone
    cases hNone
  · next userbuf hSome =>
    obtain ⟨name, secret, hPresents, rfl⟩ := (hCreds userbuf).mp hSome
    exact .inl ⟨name, secret, hPresents, rfl⟩

/-- The guard continues exactly with the requests that present the hash of the
credentials, under the name that was sent, and answers 401 to the others. The
header made from the credentials is accepted when they fit and the user has no
colon in front. -/
theorem basic_guard_exact {opts : HttpBasicAuthOptions} {user pass : Bytes}
    (hUser : svFromCstr (opts.user.getD []) = user) (hSome : user ≠ [])
    (hPass : svFromCstr (opts.pass.getD []) = pass) (next : HttpHandlerFn (Exchange ω)) (x : Exchange ω) :
    (∀ name secret, Presents opts x.req.toHttpRequest name secret →
      httpBasicAuthMiddleware (some opts) next x =
      next { x with req := { x.req with authUser := svFromCstr (name.take 127) } }) ∧
    ((¬ ∃ name secret, Presents opts x.req.toHttpRequest name secret) →
      httpBasicAuthMiddleware (some opts) next x =
      some (x.respond (BasicAuth.httpResponseRequireBasicAuth x.res (opts.realm.getD (ascii "cweb"))))) ∧
    (httpRequestGetHeader x.req.toHttpRequest (ascii "authorization") = some (basicHeader user pass) →
      ((∃ secret, Presents opts x.req.toHttpRequest (user.takeWhile (· ≠ 58)) secret) ↔
        user.length + pass.length ≤ 1022 ∧ user.head? ≠ some 58)) := by
  subst hUser hPass
  rw [httpBasicAuthMiddleware_eq, wrap_gate]
  refine ⟨?_, ?_, ?_⟩
  · intro name secret hPresents
    rcases basicEnter_cases hSome x with ⟨name', secret', hPresents', hEnter⟩ | ⟨hNone, _⟩
    · rw [hEnter, hPresents.unique hPresents']
    · exact absurd ⟨name, secret, hPresents⟩ hNone
  · intro hNone
    rcases basicEnter_cases hSome x with ⟨name', secret', hPresents', _⟩ | ⟨_, hEnter⟩
    · exact absurd ⟨name', secret', hPresents'⟩ hNone
    · rw [hEnter]
  · intro hHeader
    rw [← exists_accepts_basicHeader_iff hSome]
    constructor
    · rintro ⟨secret, auth, hAuth, hAccepts⟩
      obtain rfl := Option.some.inj (hHeader.symm.trans hAuth)
      exact ⟨secret, hAccepts⟩
    · rintro ⟨secret, hAccepts⟩
      exact ⟨secret, _, hHeader, hAccepts⟩

/-- A request with the header of the user `ada` and the password `b:c`. -/
def adaRequest : HttpRequest :=
  { emptyRequest with headers :=
    [⟨ascii "Authorization", ascii "Basic " ++ base64EncodeInto (ascii "ada:b:c")⟩] }

def adaOptions : HttpBasicAuthOptions := ⟨some (ascii "ada"), some (ascii "b:c"), none⟩

def adaExchange : Exchange Unit := ⟨⟨⟨adaRequest, [], []⟩, [], []⟩, httpResponseInit, ()⟩

theorem basic_guard_exact_ada : ∃ secret, Presents adaOptions adaRequest (ascii "ada") secret := by
  have hUser : svFromCstr (adaOptions.user.getD []) = ascii "ada" := rfl
  have hPass : svFromCstr (adaOptions.pass.getD []) = ascii "b:c" := rfl
  exact ((basic_guard_exact hUser (by decide) hPass (fun x => some x) adaExchange).2.2 rfl).mpr (by decide)

end Cweb.Auth
