import Palisade.Response.Headers

/-!
# Header writes

What is to be written into the headers of a response is listed as data and performed in order. The
first write that is refused ends the list; what was written before it stays.
-/
namespace Palisade

/-- One step of writing headers. -/
inductive HeaderWrite where
  /-- Claims a header and writes nothing. -/
  | reserve (name : String)
  /-- Claims a header and gives it exactly these values. -/
  | own (name : String) (values : List String)
  /-- Gives the header of a claim exactly these values. -/
  | fill (claim : Claim) (values : List String)
  /-- Appends a value to a header. -/
  | add (name value : String)
  /-- Replaces the values of a header by one value. -/
  | set (name value : String)
  deriving Repr, DecidableEq

namespace HeaderWrite

/-- Keeps the headers as they were if an operation is refused. -/
def orKeep (h : ResponseHeaders) : Except HeaderError ResponseHeaders →
    ResponseHeaders × Option HeaderError
  | .ok changed => (changed, none)
  | .error e => (h, some e)

/-- Performs a write. A claim that was made stays, also if its values are refused. -/
def perform (h : ResponseHeaders) : HeaderWrite → ResponseHeaders × Option HeaderError
  | reserve name => orKeep h ((h.claim name).map (·.2))
  | own name values =>
    match h.claim name with
    | .error e => (h, some e)
    | .ok (claim, claimed) => orKeep claimed (claimed.setClaimed claim values)
  | fill claim values => orKeep h (h.setClaimed claim values)
  | add name value => orKeep h (h.add name value)
  | set name value => orKeep h (h.set name value)

/-- Performs writes in order, up to the first that is refused. -/
def performAll (h : ResponseHeaders) : List HeaderWrite → ResponseHeaders × Option HeaderError
  | [] => (h, none)
  | w :: rest =>
    match perform h w with
    | (changed, none) => performAll changed rest
    | (changed, some e) => (changed, some e)

end HeaderWrite

end Palisade
