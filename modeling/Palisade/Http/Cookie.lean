import Palisade.Text.Ascii
import Palisade.Text.Quoted
import Palisade.Text.Numeral

/-!
# Cookies of a response

A new cookie is sent only over encrypted connections, is hidden from scripts, stays with its site and
belongs to the whole host. Each of these is weakened by an operation of its own. Names, values and
attributes are checked when they are set, so that none can add an attribute or end the line.
-/
namespace Palisade

open Palisade.Text

/-- Why a cookie, or a change to it, is refused. -/
inductive CookieError where
  | invalidName (name : String)
  /-- The value of the named cookie. -/
  | invalidValue (name : String)
  | invalidAttribute (name part : String)
  deriving Repr, DecidableEq

/-- The message of an error. -/
def CookieError.message : CookieError → String
  | invalidName name => "invalid cookie name " ++ quote name
  | invalidValue name => "invalid value for cookie " ++ quote name
  | invalidAttribute name part =>
    "invalid " ++ part ++ " attribute for cookie " ++ quote name

/-- Which requests from other sites carry a cookie. -/
inductive SameSite where
  | strict
  | lax
  | none
  deriving Repr, DecidableEq

/-- The attribute's text. -/
def SameSite.name : SameSite → String
  | strict => "Strict"
  | lax => "Lax"
  | none => "None"

/-- A cookie to be set. -/
structure Cookie where
  /-- The name, a token. -/
  name : String
  /-- The value. -/
  value : String
  /-- The path it belongs to. -/
  path : Option String
  /-- The domain it belongs to, if not only the host that set it. -/
  domain : Option String
  /-- After how many seconds it expires; nothing means at the end of the session. -/
  maxAge : Option Int
  /-- Whether it is sent only over encrypted connections. -/
  secure : Bool
  /-- Whether scripts cannot see it. -/
  httpOnly : Bool
  /-- Which requests from other sites carry it. -/
  sameSite : SameSite
  deriving Repr, DecidableEq

namespace Cookie

/-- Characters of names: visible ASCII without separators. -/
def isNameChar (c : Char) : Bool :=
  isVisible c && !"()<>@,;:\\\"/[]?=\x7b\x7d".toList.contains c

/-- Characters of values: visible ASCII without quotation mark, comma, semicolon and backslash. -/
def isValueChar (c : Char) : Bool :=
  isVisible c && !(c == '\"' || c == ',' || c == ';' || c == '\\')

/-- Characters of attributes: everything but controls and the semicolon. -/
def isAttributeChar (c : Char) : Bool := !isControl c && c != ';'

/-- A cookie of a name and a value, with the attributes of a new one. -/
def new (name value : String) : Except CookieError Cookie :=
  if name.toList.isEmpty || !name.toList.all isNameChar then .error (.invalidName name)
  else if !value.toList.all isValueChar then .error (.invalidValue name)
  else .ok {
    name, value
    path := some "/"
    domain := none
    maxAge := none
    secure := true
    httpOnly := true
    sameSite := .lax }

/-- The greatest age that is written. -/
def maxMaxAge : Int := Int.ofNat (Nat.pow 2 63 - 1)

/-- A change to a cookie. -/
inductive Change where
  | sameSite (policy : SameSite)
  /-- Expires after so many seconds; zero means at once. -/
  | maxAge (seconds : Nat)
  /-- Deletes the cookie on the client: no value, and an age below zero. -/
  | expire
  | path (path : String)
  | domain (domain : String)
  | disableSecure
  | disableHttpOnly
  deriving Repr, DecidableEq

/-- Makes a change; one that is refused leaves no changed cookie. -/
def change (c : Cookie) : Change → Except CookieError Cookie
  | .sameSite policy => .ok { c with sameSite := policy }
  | .maxAge seconds => .ok { c with maxAge := some (min (Int.ofNat seconds) maxMaxAge) }
  | .expire => .ok { c with value := "", maxAge := some (-1) }
  | .path path =>
    if path.toList.all isAttributeChar then .ok { c with path := some path }
    else .error (.invalidAttribute c.name "Path")
  | .domain domain =>
    if !domain.toList.isEmpty && domain.toList.all isAttributeChar then
      .ok { c with domain := some domain }
    else .error (.invalidAttribute c.name "Domain")
  | .disableSecure => .ok { c with secure := false }
  | .disableHttpOnly => .ok { c with httpOnly := false }

/-- Makes changes one after the other, each refused one leaving the cookie as it was, and tells how
each of them went. -/
def changes (c : Cookie) : List Change → Cookie × List (Except CookieError Unit)
  | [] => (c, [])
  | x :: rest =>
    match c.change x with
    | .ok c' => let (last, results) := c'.changes rest; (last, .ok () :: results)
    | .error e => let (last, results) := c.changes rest; (last, .error e :: results)

/-- The parts of the header value, in order. -/
def parts (c : Cookie) : List String :=
  [c.name ++ "=" ++ c.value] ++
    (c.path.map ("Path=" ++ ·)).toList ++
    (c.domain.map ("Domain=" ++ ·)).toList ++
    (c.maxAge.map fun age => "Max-Age=" ++ showInt age).toList ++
    (if c.secure then ["Secure"] else []) ++
    (if c.httpOnly then ["HttpOnly"] else []) ++
    ["SameSite=" ++ c.sameSite.name]

/-- The value of the Set-Cookie header. -/
def display (c : Cookie) : String := String.intercalate "; " c.parts

end Cookie

end Palisade
