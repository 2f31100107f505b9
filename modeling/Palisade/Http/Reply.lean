import Palisade.Http.Headers
import Palisade.Http.Status
import Palisade.Journal
import Palisade.Text.Quoted
import Palisade.Text.Utf8

/-!
# Responses on the wire

A reply is written as a status line, one line for each header field, the length of the body, an empty
line and the body. A body without a type is plain text; the Connection field says what becomes of the
connection and the Content-Length field counts the body, whatever was set before. Fields that would
break a line are left out, and each of them is reported.
-/
namespace Palisade

open Palisade.Text

/-- A response that is ready to be written. -/
structure Reply where
  /-- The status. -/
  status : Status
  /-- The header fields, in order. -/
  headers : Headers
  /-- The body. -/
  body : Bytes
  /-- Whether the connection is kept. -/
  keepAlive : Bool

namespace Reply

/-- A reply without headers and body, on a connection that is kept. -/
def ofStatus (status : Status) : Reply := ⟨status, Headers.empty, [], true⟩

/-- Appends a header field. -/
def header (r : Reply) (name value : String) : Reply :=
  { r with headers := r.headers.insert name value }

/-- The header fields with those that the body and the connection ask for. -/
def framed (r : Reply) : Headers :=
  let typed :=
    if !r.body.isEmpty && !r.headers.contains "content-type" then
      r.headers.insert "Content-Type" "text/plain; charset=utf-8"
    else r.headers
  let connected := typed.set "Connection" (if r.keepAlive then "keep-alive" else "close")
  connected.remove "content-length"

/-- Whether a field can be written on one line. -/
def isLine (f : Field) : Bool := !(breaksLine f.name || breaksLine f.value)

/-- The header fields that are written. -/
def lines (r : Reply) : List Field := r.framed.fields.filter isLine

/-- A header line with its line end. -/
def headerLine (name value : String) : List Char :=
  name.toList ++ ": ".toList ++ value.toList ++ "\r\n".toList

/-- The status line with its line end. -/
def statusLine (s : Status) : List Char :=
  "HTTP/1.1 ".toList ++ decimal s.code ++ " ".toList ++ s.reason.toList ++ "\r\n".toList

/-- Everything before the body. -/
def head (r : Reply) : List Char :=
  statusLine r.status ++
    r.lines.flatMap (fun f => headerLine f.name f.value) ++
    headerLine "Content-Length" (showNat r.body.length) ++ "\r\n".toList

/-- The bytes of a reply. -/
def wire (r : Reply) : Bytes := encode r.head ++ r.body

/-- One report for each field that is left out. -/
def reports (r : Reply) : List Event :=
  (r.framed.fields.filter fun f => !isLine f).map fun f =>
    ⟨.error, "dropping header with line break", [("header", escapeField f.name)]⟩

/-- Every field written can stand on one line. -/
theorem isLine_of_mem_lines {r : Reply} {f : Field} (h : f ∈ r.lines) : isLine f = true :=
  (List.mem_filter.1 h).2

end Reply

end Palisade
