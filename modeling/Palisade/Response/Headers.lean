import Palisade.Http.Cookie
import Palisade.Http.Headers
import Palisade.Text.Quoted

/-!
# Headers of a response under construction

A header can be claimed, and from then on it is written only with the claim. Set-Cookie is never
written as a header: cookies are queued, one of each name. Names and values are checked when they
are written, so that none can break the head of the response. An operation that is refused changes
nothing.
-/
namespace Palisade

open Palisade.Text

/-- Why a header operation is refused. -/
inductive HeaderError where
  | alreadyClaimed (name : String)
  | claimed (name : String)
  /-- Set-Cookie was to be written as a header. -/
  | setCookie
  | invalidName (name : String)
  /-- The value of the named header. -/
  | invalidValue (name : String)
  deriving Repr, DecidableEq

/-- The message of an error. -/
def HeaderError.message : HeaderError → String
  | alreadyClaimed name => "header " ++ quote name ++ " is already claimed"
  | claimed name => "header " ++ quote name ++ " is claimed and cannot be modified directly"
  | setCookie => "Set-Cookie cannot be written directly, use add_cookie"
  | invalidName name => "invalid header name " ++ quote name
  | invalidValue name => "invalid value for header " ++ quote name

/-- The right to write one header, in the spelling in which it was claimed. -/
structure Claim where
  /-- The header. -/
  name : String
  deriving Repr, DecidableEq

/-- Headers and cookies of a response under construction. -/
structure ResponseHeaders where
  /-- The fields written so far. -/
  headers : Headers
  /-- The claimed names in small letters. -/
  claimed : List String
  /-- The queued cookies, in order. -/
  cookies : List Cookie
  deriving Repr, DecidableEq

namespace ResponseHeaders

/-- Nothing is written, claimed or queued. -/
def empty : ResponseHeaders := ⟨Headers.empty, [], []⟩

/-- Characters of header names. -/
def isTokenChar (c : Char) : Bool := c.isAlphanum || "!#$%&'*+-.^_`|~".toList.contains c

/-- Whether a text can be the name of a header. -/
def isToken (name : String) : Bool := !name.toList.isEmpty && name.toList.all isTokenChar

/-- The name under which cookies are sent. -/
def cookieName : String := "Set-Cookie"

/-- Refuses what can name no header, and the header of cookies. -/
def checkName (name : String) : Except HeaderError Unit :=
  if !isToken name then .error (.invalidName name)
  else if alike name cookieName then .error .setCookie
  else .ok ()

/-- Refuses a value that would break the line of its header. -/
def checkValue (name value : String) : Except HeaderError Unit :=
  if breaksLine value then .error (.invalidValue name) else .ok ()

/-- Refuses values that would break their lines. -/
def checkValues (name : String) (values : List String) : Except HeaderError Unit :=
  if values.any breaksLine then .error (.invalidValue name) else .ok ()

/-- Whether a header is claimed. -/
def isClaimed (h : ResponseHeaders) (name : String) : Bool := h.claimed.contains (lower name)

/-- Refuses names that are not written freely. -/
def checkWritable (h : ResponseHeaders) (name : String) : Except HeaderError Unit :=
  match checkName name with
  | .error e => .error e
  | .ok () => if h.isClaimed name then .error (.claimed name) else .ok ()

/-- Changes the fields if the name may be written freely and the value keeps its line. -/
def write (h : ResponseHeaders) (name value : String) (change : Headers → Headers) :
    Except HeaderError ResponseHeaders :=
  match h.checkWritable name with
  | .error e => .error e
  | .ok () =>
    match checkValue name value with
    | .error e => .error e
    | .ok () => .ok { h with headers := change h.headers }

/-- Replaces the values of a header by one value. -/
def set (h : ResponseHeaders) (name value : String) : Except HeaderError ResponseHeaders :=
  h.write name value fun fields => fields.set name value

/-- Appends a value to a header. -/
def add (h : ResponseHeaders) (name value : String) : Except HeaderError ResponseHeaders :=
  h.write name value fun fields => fields.insert name value

/-- Removes a header. -/
def del (h : ResponseHeaders) (name : String) : Except HeaderError ResponseHeaders :=
  h.write name "" fun fields => fields.remove name

/-- The first value of a header. -/
def get? (h : ResponseHeaders) (name : String) : Option String := h.headers.get? name

/-- The values of a header, in order. -/
def values (h : ResponseHeaders) (name : String) : List String := h.headers.getAll name

/-- Claims a header. -/
def claim (h : ResponseHeaders) (name : String) : Except HeaderError (Claim × ResponseHeaders) :=
  match checkName name with
  | .error e => .error e
  | .ok () =>
    if h.isClaimed name then .error (.alreadyClaimed name)
    else .ok (⟨name⟩, { h with claimed := lower name :: h.claimed })

/-- Appends fields of one name. -/
def insertAll (fields : Headers) (name : String) (values : List String) : Headers :=
  values.foldl (fun fields value => fields.insert name value) fields

/-- Gives the header of a claim exactly these values. -/
def setClaimed (h : ResponseHeaders) (c : Claim) (values : List String) :
    Except HeaderError ResponseHeaders :=
  match checkValues c.name values with
  | .error e => .error e
  | .ok () => .ok { h with headers := insertAll (h.headers.remove c.name) c.name values }

/-- Queues a cookie in place of one with the same name. -/
def addCookie (h : ResponseHeaders) (cookie : Cookie) : ResponseHeaders :=
  { h with cookies := (h.cookies.filter fun c => c.name != cookie.name) ++ [cookie] }

/-- The fields to be sent: those written, then one for each queued cookie. -/
def toHeaders (h : ResponseHeaders) : Headers :=
  ⟨h.headers.fields ++ h.cookies.map fun c => ⟨cookieName, c.display⟩⟩

end ResponseHeaders

end Palisade
