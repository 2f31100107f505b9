import Palisade.Text.Numeral

/-!
# Status codes

The status codes a response may have, with their numbers and reason phrases. A code is known by its
number: no two codes share one.
-/
namespace Palisade

/-- The status of a response. -/
inductive Status where
  | continue_
  | switchingProtocols
  | ok
  | created
  | accepted
  | noContent
  | partialContent
  | movedPermanently
  | found
  | seeOther
  | notModified
  | temporaryRedirect
  | permanentRedirect
  | badRequest
  | unauthorized
  | forbidden
  | notFound
  | methodNotAllowed
  | conflict
  | gone
  | lengthRequired
  | preconditionFailed
  | payloadTooLarge
  | uriTooLong
  | unsupportedMediaType
  | unprocessableEntity
  | tooManyRequests
  | internalServerError
  | notImplemented
  | badGateway
  | serviceUnavailable
  | gatewayTimeout
  | httpVersionNotSupported
  deriving Repr, DecidableEq

namespace Status

/-- The number and the reason phrase of a status. -/
def entry : Status → Nat × String
  | continue_ => (100, "Continue")
  | switchingProtocols => (101, "Switching Protocols")
  | ok => (200, "OK")
  | created => (201, "Created")
  | accepted => (202, "Accepted")
  | noContent => (204, "No Content")
  | partialContent => (206, "Partial Content")
  | movedPermanently => (301, "Moved Permanently")
  | found => (302, "Found")
  | seeOther => (303, "See Other")
  | notModified => (304, "Not Modified")
  | temporaryRedirect => (307, "Temporary Redirect")
  | permanentRedirect => (308, "Permanent Redirect")
  | badRequest => (400, "Bad Request")
  | unauthorized => (401, "Unauthorized")
  | forbidden => (403, "Forbidden")
  | notFound => (404, "Not Found")
  | methodNotAllowed => (405, "Method Not Allowed")
  | conflict => (409, "Conflict")
  | gone => (410, "Gone")
  | lengthRequired => (411, "Length Required")
  | preconditionFailed => (412, "Precondition Failed")
  | payloadTooLarge => (413, "Payload Too Large")
  | uriTooLong => (414, "URI Too Long")
  | unsupportedMediaType => (415, "Unsupported Media Type")
  | unprocessableEntity => (422, "Unprocessable Entity")
  | tooManyRequests => (429, "Too Many Requests")
  | internalServerError => (500, "Internal Server Error")
  | notImplemented => (501, "Not Implemented")
  | badGateway => (502, "Bad Gateway")
  | serviceUnavailable => (503, "Service Unavailable")
  | gatewayTimeout => (504, "Gateway Timeout")
  | httpVersionNotSupported => (505, "HTTP Version Not Supported")

/-- The number of a status. -/
def code (s : Status) : Nat := s.entry.1

/-- The reason phrase of a status. -/
def reason (s : Status) : String := s.entry.2

/-- All statuses, in the order of their numbers. -/
def all : List Status := [
  continue_, switchingProtocols, ok, created, accepted, noContent, partialContent,
  movedPermanently, found, seeOther, notModified, temporaryRedirect, permanentRedirect, badRequest,
  unauthorized, forbidden, notFound, methodNotAllowed, conflict, gone, lengthRequired,
  preconditionFailed, payloadTooLarge, uriTooLong, unsupportedMediaType, unprocessableEntity,
  tooManyRequests, internalServerError, notImplemented, badGateway, serviceUnavailable,
  gatewayTimeout, httpVersionNotSupported]

/-- The status with a number, if there is one. -/
def ofCode? (n : Nat) : Option Status := all.find? (·.code == n)

/-- The number and the reason phrase, as messages show a status. -/
def display (s : Status) : String := Text.showNat s.code ++ " " ++ s.reason

/-- The request was done. -/
def isSuccess (s : Status) : Bool := 200 ≤ s.code && s.code < 300

/-- The client has to go on elsewhere. -/
def isRedirection (s : Status) : Bool := 300 ≤ s.code && s.code < 400

/-- The request was refused or went wrong. -/
def isError (s : Status) : Bool := 400 ≤ s.code

/-- Every status is found by its number. -/
theorem ofCode?_code (s : Status) : ofCode? s.code = some s := by cases s <;> decide

/-- A status is known by its number. -/
theorem code_injective {s t : Status} (h : s.code = t.code) : s = t := by
  have := ofCode?_code s
  rw [h, ofCode?_code] at this
  exact (Option.some.inj this).symm

end Status

end Palisade
