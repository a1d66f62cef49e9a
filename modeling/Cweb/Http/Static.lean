import Cweb.Http.Params
import Cweb.Http.Response
import Cweb.Security.Path

/-!
# Static files

The handler decodes and normalises the request path, puts it behind the root
and asks the file system for it, as a C string. Validators and ranges decide
what of the file is sent. The file system, the texts of dates and their reading
are inputs, and the calls to the file system are written down in order.
-/

namespace Cweb.Static

open Sv

structure Site where
  fileStat : Bytes → Option (Int × Nat)
  fileReadAll : Bytes → Option Bytes
  fileReadRange : Bytes → Nat → Nat → Option Bytes
  httpDate : Int → Bytes
  httpDateParse : Bytes → Int
  cacheMaxAge : Nat

/-- A call with the C string it is given. -/
inductive FileCall where
  | stat (path : Bytes)
  | readAll (path : Bytes)
  | readRange (path : Bytes) (offset len : Nat)
deriving DecidableEq, Repr

def FileCall.path : FileCall → Bytes
  | .stat path => path
  | .readAll path => path
  | .readRange path _ _ => path

def reject (res : HttpResponse) (status : Nat) : HttpResponse :=
  ((res.apply (.setStatus status)).apply
    (.setHeader (ascii "Content-Type") (ascii "text/plain; charset=utf-8"))).apply
    (.addBody (if status = 404 then ascii "404 not found" else ascii "400 bad path"))

/-! ## Types -/

def mimeTable : List (Bytes × Bytes) :=
  [(ascii "html", ascii "text/html"), (ascii "htm", ascii "text/html"), (ascii "css", ascii "text/css"),
    (ascii "js", ascii "text/javascript"), (ascii "json", ascii "application/json"),
    (ascii "xml", ascii "application/xml"),
    (ascii "txt", ascii "text/plain"), (ascii "csv", ascii "text/csv"), (ascii "png", ascii "image/png"),
    (ascii "jpg", ascii "image/jpeg"), (ascii "jpeg", ascii "image/jpeg"), (ascii "gif", ascii "image/gif"),
    (ascii "svg", ascii "image/svg+xml"), (ascii "webp", ascii "image/webp"),
      (ascii "avif", ascii "image/avif"),
    (ascii "ico", ascii "image/x-icon"), (ascii "woff2", ascii "font/woff2"), (ascii "ttf", ascii "font/ttf"),
    (ascii "mp4", ascii "video/mp4"), (ascii "webm", ascii "video/webm"), (ascii "mp3", ascii "audio/mpeg"),
    (ascii "pdf", ascii "application/pdf"), (ascii "zip", ascii "application/zip"),
      (ascii "wasm", ascii "application/wasm")]

/-- The extension is what is behind the last dot. -/
def mimeForPath (path : Bytes) : Bytes :=
  if 46 ∈ path then
    let ext := (path.reverse.takeWhile (· ≠ 46)).reverse
    ((mimeTable.find? fun e => ext.map tolower == e.1.map tolower).map Prod.snd).getD
      (ascii "application/octet-stream")
  else ascii "application/octet-stream"

/-! ## Validators -/

/-- The strong validator from the modification time and the size. -/
def staticEtag (mtime : Int) (fsize : Nat) : Bytes :=
  let time := hex (mtime % 2 ^ 64).toNat
  ascii "\"" ++ List.replicate (8 - time.length) 48 ++ time ++ ascii "-" ++ hex fsize ++ ascii "\""

/-- Between double quotes, which are peeled off. -/
def unquoted (tag : Bytes) : Option Bytes :=
  if 2 ≤ tag.length ∧ tag.head? = some 34 ∧ tag.getLast? = some 34 then some ((tag.drop 1).dropLast) else none

def etagListMatches (header ours : Bytes) : Bool :=
  let ours := (unquoted ours).getD ours
  (svSplit 44 header).any fun tag =>
    let tag := svTrim tag
    let tag := if (ascii "W/").isPrefixOf tag then svTrim (tag.drop 2) else tag
    tag == ascii "*" || unquoted tag == some ours

def ifRangeMatches (site : Site) (v etag : Bytes) (mtime : Int) : Bool :=
  let v := svTrim v
  if (unquoted v).isSome then etag == v
  else
    let since := site.httpDateParse v
    decide (0 ≤ since) && decide (mtime ≤ since)

/-! ## Ranges -/

structure ByteRange where
  base : Nat
  n : Nat
deriving DecidableEq, Repr

def maxRanges : Nat := 64

/-- The conversion from `long long` to `size_t` is of no account behind the
tests for a sign. -/
def rangeSpec (spec : Bytes) (fsize : Nat) : Option ByteRange :=
  let chopped := svChopByDelim 45 (svTrim spec)
  let start := svTrim chopped.1
  let spec := svTrim chopped.2
  if start = [] ∧ spec = [] then none
  else if spec = [] then
    match svToI64 start with
    | none => none
    | some start => if start < 0 ∨ fsize ≤ start.toNat then none else some ⟨start.toNat, fsize - start.toNat⟩
  else if start = [] then
    match svToI64 spec with
    | none => none
    | some last =>
      if last ≤ 0 ∨ fsize = 0 then none
      else
        let n := min last.toNat fsize
        some ⟨fsize - n, n⟩
  else
    match svToI64 start, svToI64 spec with
    | some start, some last =>
      if start < 0 ∨ last < start ∨ fsize ≤ start.toNat then none
      else some ⟨start.toNat, min ((last - start).toNat + 1) (fsize - start.toNat)⟩
    | _, _ => none

/-- A window that overlaps or touches the last one extends it; there is room for
`cap` of them. -/
def coalesce (cap : Nat) (out : List ByteRange) (r : ByteRange) : List ByteRange :=
  if cap ≤ out.length then out
  else
    match out.getLast? with
    | none => out ++ [r]
    | some last =>
      if r.base ≤ last.base + last.n then
        out.dropLast ++ [⟨last.base, max (last.base + last.n) (r.base + r.n) - last.base⟩]
      else out ++ [r]

/-- `none` for a header that asks for nothing the file has, no windows for one
that is not about bytes. -/
def parseRanges (header : Bytes) (fsize cap : Nat) : Option (List ByteRange) :=
  let header := svTrim header
  if ¬ (ascii "bytes=").isPrefixOf header then some []
  else
    let header := header.drop 6
    if 44 ∉ header then (rangeSpec header fsize).map fun r => [r]
    else
      let raw := ((svSplit 44 header).filterMap fun spec => rangeSpec spec fsize).take maxRanges
      if raw = [] then none
      else some ((raw.mergeSort fun a b => decide (a.base ≤ b.base)).foldl (coalesce cap) [])

/-- The index of the last byte of a window, as a `size_t`. -/
def lastByte (base len : Nat) : Nat := (base + len + (2 ^ 64 - 1)) % 2 ^ 64

def rangeText (base len fsize : Nat) : Bytes :=
  ascii "bytes " ++ decimal base ++ ascii "-" ++ decimal (lastByte base len) ++ ascii "/" ++ decimal fsize

/-! ## The path -/

/-- The request path decoded and normalised, `none` when it is refused. -/
def normalizedPath (path : Bytes) : Option Bytes :=
  (urlDecode path).bind fun decoded =>
    let r := uriPathNormalize decoded []
    if r.1 = 0 then some r.2 else none

def withSlash (path : Bytes) : Bytes := if path = [] ∨ path.getLast? ≠ some 47 then path ++ [47] else path

def splicedPath (root norm : Bytes) (dirRequest : Bool) : Bytes :=
  let path := withSlash root ++ if norm.head? = some 47 then norm.drop 1 else norm
  if dirRequest ∨ path = [] ∨ path.getLast? = some 47 then withSlash path ++ ascii "index.html" else path

/-! ## The handler -/

/-- The parts of a multipart answer and the calls made for them, `none` when a
window cannot be read. -/
def readParts (site : Site) (path boundary mime : Bytes) (fsize : Nat) : List ByteRange → Bytes →
    Option Bytes × List FileCall
  | [], body => (some body, [])
  | r :: ranges, body =>
    match site.fileReadRange path r.base r.n with
    | none => (none, [.readRange path r.base r.n])
    | some data =>
      let head := ascii "\r\n--" ++ boundary ++ ascii "\r\nContent-Type: " ++ mime ++
        ascii "\r\nContent-Range: " ++
        rangeText r.base data.length fsize ++ ascii "\r\n\r\n"
      let rest := readParts site path boundary mime fsize ranges (body ++ head ++ data)
      (rest.1, .readRange path r.base r.n :: rest.2)

def rangesBoundary (mtime : Int) (fsize : Nat) : Bytes :=
  let time := hex (mtime % 2 ^ 64).toNat
  ascii "----cweb" ++ List.replicate (8 - time.length) 48 ++ time ++ ascii "-" ++ decimal fsize

/-- The windows asked for, `none` when there are none to be had. -/
def wantedRanges (site : Site) (req : HttpRequest) (etag : Bytes) (mtime : Int) (fsize : Nat) :
    Option (List ByteRange) :=
  if req.method = .get ∨ req.method = .head then
    match httpRequestGetHeader req (ascii "range") with
    | none => some []
    | some range =>
      match httpRequestGetHeader req (ascii "if-range") with
      | none => parseRanges range fsize maxRanges
      | some v => if ifRangeMatches site v etag mtime then parseRanges range fsize maxRanges else some []
  else some []

def notModified (site : Site) (req : HttpRequest) (etag : Bytes) (mtime : Int) : Bool :=
  match httpRequestGetHeader req (ascii "if-none-match") with
  | some inm => etagListMatches inm etag
  | none =>
    match httpRequestGetHeader req (ascii "if-modified-since") with
    | some ims =>
      let since := site.httpDateParse ims
      decide (0 ≤ since) && decide (mtime ≤ since)
    | none => false

/-- What is sent of a file that is there. `path` is the C string. -/
def serveRanges (site : Site) (res : HttpResponse) (path mime : Bytes) (mtime : Int) (fsize : Nat) :
    List ByteRange → HttpResponse × List FileCall
  | [] =>
    match site.fileReadAll path with
    | none => (reject res 404, [.readAll path])
    | some data => (res.apply (.addBody data), [.readAll path])
  | [r] =>
    match site.fileReadRange path r.base r.n with
    | none => (reject res 404, [.readRange path r.base r.n])
    | some data =>
      let res := res.apply (.setHeader (ascii "Content-Range") (rangeText r.base data.length fsize))
      ((res.apply (.setStatus 206)).apply (.addBody data), [.readRange path r.base r.n])
  | ranges =>
    let boundary := rangesBoundary mtime fsize
    let res :=
      res.apply (.setHeader (ascii "Content-Type") (ascii "multipart/byteranges; boundary=" ++ boundary))
    match readParts site path boundary mime fsize ranges [] with
    | (none, calls) => (reject res 404, calls)
    | (some body, calls) =>
      ((res.apply (.setStatus 206)).apply
        (.addBody (body ++ ascii "\r\n--" ++ boundary ++ ascii "--\r\n")), calls)

def httpServeStatic (site : Site) (req : HttpRequest) (res : HttpResponse) (root : Bytes) :
    HttpResponse × List FileCall :=
  match normalizedPath req.path with
  | none => (reject res 400, [])
  | some norm =>
    let mime := svFromCstr ((mimeForPath norm).take 63)
    let path := svFromCstr (splicedPath (svFromCstr root) norm (req.path.getLast? = some 47))
    let res := (res.apply (.setStatus 200)).apply (.setHeader (ascii "Content-Type") mime)
    match site.fileStat path with
    | none => (reject res 404, [.stat path])
    | some (mtime, fsize) =>
      let etag := staticEtag mtime fsize
      let res :=
        (res.apply (.setHeader (ascii "Last-Modified") (site.httpDate mtime))).apply
          (.setHeader (ascii "ETag") etag)
      let res :=
        if 0 < site.cacheMaxAge then
          res.apply
            (.setHeader (ascii "Cache-Control") (ascii "public, max-age=" ++ decimal site.cacheMaxAge))
        else res
      if notModified site req etag mtime then (res.apply (.setStatus 304), [.stat path])
      else
        match wantedRanges site req etag mtime fsize with
        | none =>
          ((res.apply (.setStatus 416)).apply
            (.setHeader (ascii "Content-Range") (ascii "bytes */" ++ decimal fsize)),
            [.stat path])
        | some ranges =>
          let served := serveRanges site res path mime mtime fsize ranges
          (served.1, .stat path :: served.2)

end Cweb.Static
