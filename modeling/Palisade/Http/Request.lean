import Palisade.Http.Head
import Palisade.Http.Headers
import Palisade.Http.Method
import Palisade.Http.Form
import Palisade.Text.Blank
import Palisade.Text.Numeral

/-!
# Requests

A request is read from the front of a connection's bytes: the head, and of what follows it as many
bytes as the first Content-Length says, or all there are if it says nothing readable. A header whose
value is not UTF-8 is left out. Request and head together are bounded.
-/
namespace Palisade

open Palisade.Text

/-- A request. -/
structure Request where
  /-- What is to be done. -/
  method : Method
  /-- The target up to the first question mark. -/
  path : String
  /-- The target after the first question mark, if it has one. -/
  query : Option String
  /-- The minor number of the version. -/
  minor : Nat
  /-- The header fields. -/
  headers : Headers
  /-- The body, as far as it had arrived. -/
  body : Bytes
  /-- Whether the request came over an encrypted connection. -/
  tls : Bool
  deriving Repr, DecidableEq

/-- Why no request can be read. -/
inductive RequestError where
  /-- The head is not complete. -/
  | incomplete
  /-- The head is none. -/
  | malformed (offence : Head.Offence)
  /-- Head and body exceed the bound. -/
  | bodyTooLarge
  deriving Repr, DecidableEq

namespace Request

/-- The greatest size of a request, head and body, that is buffered: eight mebibytes. -/
def maxSize : Nat := 8 * 1024 * 1024

/-- The greatest request is below what sixty-four bits count. -/
theorem maxSize_lt_largest64 : maxSize < largest64 := by decide

end Request

/-- The message of an error. -/
def RequestError.message : RequestError → String
  | incomplete => "request is incomplete — more data needed"
  | malformed offence => "HTTP parse error: " ++ offence.message
  | bodyTooLarge =>
    "request body exceeds maximum allowed size of " ++ showNat Request.maxSize ++ " bytes"

namespace Request

/-- The header fields of a head whose values are UTF-8. Names are tokens, so their bytes are their
characters. -/
def headersOf (fields : List (Bytes × Bytes)) : Headers :=
  ⟨fields.filterMap fun (name, value) =>
    (ofUtf8? value).map fun v => ⟨String.ofList (decodeLossy name), v⟩⟩

/-- The first Content-Length, if it is a number that sixty-four bits hold. -/
def contentLengthOf (headers : Headers) : Option Nat :=
  (headers.get? "content-length").bind (readNat? largest64)

/-- A target's path, and its query if it has a question mark. -/
def splitTarget (target : String) : String × Option String :=
  match cutAt '?' target.toList with
  | some (path, query) => (String.ofList path, some (String.ofList query))
  | none => (target, none)

/-- Reads the request at the front of the bytes and says where its body begins. -/
def parse (buffer : Bytes) : Except RequestError (Request × Nat) :=
  match Head.scan buffer with
  | .error .incomplete => .error .incomplete
  | .error (.offence o) => .error (.malformed o)
  | .ok (head, rest) =>
    let headers := headersOf head.fields
    let start := buffer.length - rest.length
    let length := (contentLengthOf headers).getD rest.length
    if maxSize < start + length then .error .bodyTooLarge
    else
      let (path, query) := splitTarget head.target
      .ok ({
        method := Method.ofName (String.ofList (decodeLossy head.method))
        path, query
        minor := head.minor
        headers
        body := rest.take length
        tls := false }, start)

/-- The same request, marked as encrypted or not. -/
def withTls (r : Request) (tls : Bool) : Request := { r with tls }

/-- The value of the first Host header, or the empty text. -/
def host (r : Request) : String := (r.headers.get? "host").getD ""

/-- The decoded query. -/
def params (r : Request) : Params :=
  match r.query with
  | some query => Urlencoded.parse query
  | none => ⟨[]⟩

/-- The declared length of the body. -/
def contentLength (r : Request) : Option Nat := contentLengthOf r.headers

/-- The name and the value of one cookie of a Cookie line, without the blanks around it and the
quotation marks around its value. A cookie without a name is none. -/
def readCookie (part : List Char) : Option (String × String) :=
  match cutAt '=' (trimBlanks part) with
  | some (name, value) =>
    if name.isEmpty then none
    else some (String.ofList name, String.ofList (trimBoth (· == '\"') value))
  | none => none

/-- The cookies of all Cookie lines, in order. -/
def cookies (r : Request) : List (String × String) :=
  (r.headers.getAll "cookie").flatMap fun line => (pieces ';' line.toList).filterMap readCookie

/-- The value of the first cookie of a name. -/
def cookie? (r : Request) (name : String) : Option String := r.cookies.lookup name

/-- The text before the first of a mark, or the whole text. -/
def beforeMark (mark : Char) (s : List Char) : List Char :=
  match cutAt mark s with
  | some (before, _) => before
  | none => s

/-- The media type of a Content-Type value: what stands before its parameters. -/
def mediaType (contentType : String) : String :=
  String.ofList (trimBlanks (beforeMark ';' contentType.toList))

/-- The media type of encoded forms. -/
def formType : String := "application/x-www-form-urlencoded"

/-- The body as a form. -/
def form (r : Request) : Except FormError Form :=
  let contentType := (r.headers.get? "content-type").getD ""
  if !alike (mediaType contentType) formType then .error (.unsupportedContentType contentType)
  else match ofUtf8? r.body with
    | some text => .ok ⟨Urlencoded.parse text⟩
    | none => .error .encoding

/-- Whether the connection is to be kept after the response: the first Connection header says so, or
the version does if there is none. -/
def isKeepAlive (r : Request) : Bool :=
  match r.headers.get? "connection" with
  | some connection => alike connection "keep-alive"
  | none => r.minor == 1

/-- A request that is read begins its body behind its first byte and within the buffer. -/
theorem start_pos_of_parse {buffer : Bytes} {r : Request} {start : Nat}
    (h : parse buffer = .ok (r, start)) : 0 < start ∧ start ≤ buffer.length := by
  unfold parse at h
  split at h
  · simp at h
  · simp at h
  · rename_i head rest heq
    obtain ⟨taken, hne, rfl⟩ := Head.scan_takes _ _ _ heq
    have : 0 < taken.length := List.length_pos_iff.2 hne
    simp only at h
    split at h
    · simp at h
    · simp only [Except.ok.injEq, Prod.mk.injEq] at h
      obtain ⟨-, rfl⟩ := h
      simp
      omega

end Request

end Palisade
