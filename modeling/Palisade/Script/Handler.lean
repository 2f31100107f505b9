import Palisade.Routing.Route
import Palisade.Script.HeaderStep
import Palisade.Script.ResponsePlan

/-!
# Scripted handlers

Handlers as data: steps that look at the request or work on the headers, and then one response. Each
step leaves a note of what it gave in the journal, and so does the response.
-/
namespace Palisade

/-- A step of a handler. -/
inductive HandlerStep where
  /-- What the route captured under a name. -/
  | capture (name : String)
  /-- The first value of a key in the query. -/
  | query (key : String)
  /-- The first value of a field in the form. -/
  | form (field : String)
  /-- The body as a JSON value. -/
  | bodyJson
  | nonce
  | token
  /-- The values of a header of the response. -/
  | headers (name : String)
  /-- An operation on the headers of the response. -/
  | header (step : HeaderStep)
  deriving Repr, DecidableEq

/-- What a step gives. -/
inductive HandlerOutcome where
  | text (value : Option String)
  | form (value : Except FormError (Option String))
  | json (value : Except Json.Fault Json)
  | values (values : List String)
  | header (outcome : HeaderOutcome)
  /-- The response that was planned cannot be built. -/
  | unplanned (error : PlanError)

/-- What a handler answers with. -/
inductive HandlerAnswer where
  /-- The word ok. -/
  | plain
  /-- What the route captured under a name, escaped, or nothing. -/
  | capture (name : String)
  /-- The body of the request, escaped. -/
  | body
  /-- A planned response. -/
  | plan (plan : ResponsePlan)
  deriving Repr, DecidableEq

/-- A handler as data. -/
structure HandlerScript where
  /-- The steps, in order. -/
  steps : List HandlerStep
  /-- The answer. -/
  answer : HandlerAnswer
  deriving Repr, DecidableEq

namespace HandlerStep

/-- Makes an operation on the headers of a context; `claims` were made before. -/
def runHeader (step : HeaderStep) (ctx : Context) (claims : List (String × Claim)) :
    HeaderOutcome × Context × List (String × Claim) :=
  let (outcome, run) := step.run ⟨ctx.headers, claims⟩
  (outcome, { ctx with headers := run.headers }, run.claims)

/-- Makes a step. -/
def run (ctx : Context) (claims : List (String × Claim)) :
    HandlerStep → HandlerOutcome × Context × List (String × Claim)
  | capture name => (.text (ctx.captures.get? name), ctx, claims)
  | query key => (.text (ctx.request.params.get? key), ctx, claims)
  | form field =>
    let value := match ctx.request.form with
      | .ok fields => .ok (fields.string? field)
      | .error e => .error e
    (.form value, ctx, claims)
  | bodyJson => (.json (Json.read ctx.request.body), ctx, claims)
  | nonce => (.text ctx.nonce?, ctx, claims)
  | token => (.text ctx.token?, ctx, claims)
  | headers name => (.values (ctx.headers.values name), ctx, claims)
  | header step =>
    let (outcome, ctx, claims) := runHeader step ctx claims
    (.header outcome, ctx, claims)

end HandlerStep

namespace HandlerScript

/-- The note of what a step of a handler gave. -/
def note (describe : HandlerOutcome → String) (outcome : HandlerOutcome) : Entry :=
  .note ("handler " ++ describe outcome)

/-- Makes steps one after the other and notes what they give. -/
def runSteps (describe : HandlerOutcome → String) :
    List HandlerStep → Context → List (String × Claim) → Context
  | [], ctx, _ => ctx
  | step :: rest, ctx, claims =>
    let (outcome, ctx, claims) := step.run ctx claims
    runSteps describe rest (ctx.write (note describe outcome)) claims

/-- The response of an answer. A plan that cannot be built is noted and becomes an error. -/
def respond (describe : HandlerOutcome → String) (ctx : Context) :
    HandlerAnswer → Response × Context
  | .plain => (.html (.trusted "ok"), ctx)
  | .capture name => (.html (.escape ((ctx.captures.get? name).getD "")), ctx)
  | .body => (.html (.escape (String.ofList (Text.decodeLossy ctx.request.body))), ctx)
  | .plan plan =>
    match plan.build with
    | .ok response => (response, ctx)
    | .error e => (.error .internalServerError, ctx.write (note describe (.unplanned e)))

/-- The note of a response that was written. -/
def writtenNote (response : Response) (ctx : Context) : Entry :=
  .note ("written " ++ response.status.display ++ " cookies=" ++
    Text.showNat ctx.headers.cookies.length)

/-- The handler of a script. -/
def handler (describe : HandlerOutcome → String) (script : HandlerScript) : Handler := fun ctx =>
  let (response, ctx) := respond describe (runSteps describe script.steps ctx []) script.answer
  (response, ctx.write (writtenNote response ctx))

end HandlerScript

end Palisade
