import Palisade.Response.Headers

/-!
# Scripted header operations

Operations on the headers of a response as data, with what each of them gives. A run of operations
keeps the claims that it makes in a table, under the names as they were written.
-/
namespace Palisade

/-- An operation on the headers of a response. -/
inductive HeaderStep where
  | set (name value : String)
  | add (name value : String)
  | del (name : String)
  | get (name : String)
  | values (name : String)
  | isClaimed (name : String)
  | claim (name : String)
  /-- Writes with the claim that is kept under the name. -/
  | setClaimed (name : String) (values : List String)
  /-- Builds a cookie, makes changes to it and queues it. -/
  | cookie (name value : String) (changes : List Cookie.Change)
  deriving Repr, DecidableEq

/-- What an operation gives. -/
inductive HeaderOutcome where
  | done
  | refused (error : HeaderError)
  | value (value : Option String)
  | values (values : List String)
  | truth (value : Bool)
  | claimed (name : String)
  /-- No claim is kept under the name. -/
  | noClaim
  | cookieRefused (error : CookieError)
  /-- The names of the queued cookies, and how the changes went. -/
  | queued (names : List String) (changes : List (Except CookieError Unit))

/-- The headers in a run of operations, with the claims that were made. -/
structure HeaderRun where
  /-- The headers. -/
  headers : ResponseHeaders
  /-- The claims under their names, the latest first. -/
  claims : List (String × Claim)

namespace HeaderStep

/-- The name of the header or cookie that an operation is about. -/
def name : HeaderStep → String
  | set name _ | add name _ | del name | get name | values name | isClaimed name | claim name
  | setClaimed name _ | cookie name _ _ => name

/-- Keeps the run as it was if an operation is refused. -/
def attempt (run : HeaderRun) : Except HeaderError ResponseHeaders → HeaderOutcome × HeaderRun
  | .ok headers => (.done, { run with headers })
  | .error e => (.refused e, run)

/-- Makes an operation. -/
def run (run : HeaderRun) : HeaderStep → HeaderOutcome × HeaderRun
  | set name value => attempt run (run.headers.set name value)
  | add name value => attempt run (run.headers.add name value)
  | del name => attempt run (run.headers.del name)
  | get name => (.value (run.headers.get? name), run)
  | values name => (.values (run.headers.values name), run)
  | isClaimed name => (.truth (run.headers.isClaimed name), run)
  | claim name =>
    match run.headers.claim name with
    | .ok (held, headers) => (.claimed name, ⟨headers, (name, held) :: run.claims⟩)
    | .error e => (.refused e, run)
  | setClaimed name texts =>
    match run.claims.lookup name with
    | some held => attempt run (run.headers.setClaimed held texts)
    | none => (.noClaim, run)
  | cookie name value changes =>
    match Cookie.new name value with
    | .error e => (.cookieRefused e, run)
    | .ok fresh =>
      let (changed, results) := fresh.changes changes
      let headers := run.headers.addCookie changed
      (.queued (headers.cookies.map (·.name)) results, { run with headers })

end HeaderStep

end Palisade
