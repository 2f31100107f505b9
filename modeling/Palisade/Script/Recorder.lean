import Palisade.Script.Handler

/-!
# Scripted interceptors

Interceptors as data: they note that they run, make operations on the headers and note what those
give, and may answer a request or replace a response.
-/
namespace Palisade

/-- An interceptor as data. -/
structure RecorderScript where
  /-- Its name. -/
  name : String
  /-- The operations before the handler. -/
  before : List HeaderStep
  /-- The answer to every request, if there is one. -/
  answer : Option ResponsePlan
  /-- The operations when a response has been written. -/
  commit : List HeaderStep
  /-- The error that replaces every response, if there is one. -/
  replace : Option Status
  deriving Repr, DecidableEq

namespace RecorderScript

/-- The note of what an operation gave. -/
def note (name : String) (describe : HandlerOutcome → String) (outcome : HandlerOutcome) : Entry :=
  .note (name ++ " " ++ describe outcome)

/-- Makes operations one after the other and notes what they give. -/
def runSteps (name : String) (describe : HandlerOutcome → String) :
    List HeaderStep → Context → List (String × Claim) → Context
  | [], ctx, _ => ctx
  | step :: rest, ctx, claims =>
    let (outcome, ctx, claims) := HandlerStep.runHeader step ctx claims
    runSteps name describe rest (ctx.write (note name describe (.header outcome))) claims

/-- What is done before the handler. -/
def runBefore (r : RecorderScript) (describe : HandlerOutcome → String) (configs : Configs)
    (ctx : Context) : Flow × Context :=
  let noted := ctx.write (.note ("before " ++ r.name ++ " " ++ configs.tag?.getD "-"))
  let stepped := runSteps r.name describe r.before noted []
  match r.answer with
  | none => (.pass, stepped)
  | some plan =>
    match plan.build with
    | .ok response => (.respond response, stepped)
    | .error e => (.reject .internalServerError, stepped.write (note r.name describe (.unplanned e)))

/-- What is done when a response has been written. -/
def runCommit (r : RecorderScript) (describe : HandlerOutcome → String) (response : Response)
    (ctx : Context) : Response × Context :=
  let noted := ctx.write
    (.note ("commit " ++ r.name ++ " " ++ Text.showNat response.status.code))
  let stepped := runSteps r.name describe r.commit noted []
  match r.replace with
  | none => (response, stepped)
  | some status => (.error status, stepped)

/-- The interceptor of a script. -/
def interceptor (describe : HandlerOutcome → String) (r : RecorderScript) : Interceptor where
  name := r.name
  before := r.runBefore describe
  commit _ := r.runCommit describe

end RecorderScript

end Palisade
