import Cweb.Utils.Sv

/-!
# Methods and status codes

Method tokens are case-sensitive. A status is any number a response line can
carry; only some have a reason phrase.
-/

namespace Cweb

inductive HttpMethod where
  | get
  | post
  | put
  | delete
  | patch
  | head
  | options
  | unknown
deriving DecidableEq, Repr

def httpMethodName : HttpMethod → Option Bytes
  | .get => some (ascii "GET")
  | .post => some (ascii "POST")
  | .put => some (ascii "PUT")
  | .delete => some (ascii "DELETE")
  | .patch => some (ascii "PATCH")
  | .head => some (ascii "HEAD")
  | .options => some (ascii "OPTIONS")
  | .unknown => none

def httpMethodFromSv (name : Bytes) : HttpMethod :=
  if name = ascii "GET" then .get
  else if name = ascii "POST" then .post
  else if name = ascii "PUT" then .put
  else if name = ascii "DELETE" then .delete
  else if name = ascii "PATCH" then .patch
  else if name = ascii "HEAD" then .head
  else if name = ascii "OPTIONS" then .options
  else .unknown

def httpStatusReason (status : Nat) : Bytes :=
  match status with
  | 100 => ascii "Continue"
  | 101 => ascii "Switching Protocols"
  | 200 => ascii "OK"
  | 201 => ascii "Created"
  | 202 => ascii "Accepted"
  | 204 => ascii "No Content"
  | 206 => ascii "Partial Content"
  | 301 => ascii "Moved Permanently"
  | 302 => ascii "Found"
  | 303 => ascii "See Other"
  | 304 => ascii "Not Modified"
  | 307 => ascii "Temporary Redirect"
  | 308 => ascii "Permanent Redirect"
  | 400 => ascii "Bad Request"
  | 401 => ascii "Unauthorized"
  | 403 => ascii "Forbidden"
  | 404 => ascii "Not Found"
  | 405 => ascii "Method Not Allowed"
  | 408 => ascii "Request Timeout"
  | 413 => ascii "Payload Too Large"
  | 415 => ascii "Unsupported Media Type"
  | 416 => ascii "Range Not Satisfiable"
  | 417 => ascii "Expectation Failed"
  | 429 => ascii "Too Many Requests"
  | 500 => ascii "Internal Server Error"
  | 501 => ascii "Not Implemented"
  | 502 => ascii "Bad Gateway"
  | 503 => ascii "Service Unavailable"
  | 504 => ascii "Gateway Timeout"
  | _ => ascii "Unknown"

end Cweb
