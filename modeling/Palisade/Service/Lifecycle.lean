import Palisade.Routing.Route

/-!
# The life of a request

Interceptors run in order until one of them answers. If none does, the target of the request answers.
Then those that ran finish the response in the reverse order, whoever wrote it.
-/
namespace Palisade

/-- What the interceptors before the handler have come to. -/
structure Passage where
  /-- Those that ran, the latest first. -/
  ran : List Interceptor
  /-- The answer of the latest, if it gave one. -/
  answer : Option Response
  /-- The context they left. -/
  context : Context

namespace Passage

/-- The event of an interceptor that answers. -/
def event (i : Interceptor) (response : Response) : Event :=
  ⟨.debug, "interceptor responded before handler",
    [("interceptor", i.name), ("status", Text.showNat response.status.code)]⟩

/-- Runs interceptors up to the first that answers; `ran` ran before. -/
def follow (configs : Configs) (ran : List Interceptor) (ctx : Context) :
    List Interceptor → Passage
  | [] => ⟨ran, none, ctx⟩
  | i :: rest =>
    match i.before configs ctx with
    | (.pass, ctx) => follow configs (i :: ran) ctx rest
    | (.respond response, ctx) => ⟨i :: ran, some response, ctx.record (event i response)⟩

/-- Finishes a response. -/
def finish (configs : Configs) (response : Response) (ctx : Context) :
    List Interceptor → Response × Context
  | [] => (response, ctx)
  | i :: rest =>
    let (response, ctx) := i.commit configs response ctx
    finish configs response ctx rest

/-- The response that is written first: that of the interceptor that answered, or the target's. -/
def written (p : Passage) (target : Target) : Response × Context :=
  match p.answer with
  | some response => (response, p.context)
  | none => target.answer p.context

end Passage

/-- Runs interceptors and target around a request. -/
def Target.run (target : Target) (interceptors : List Interceptor) (ctx : Context) :
    Response × Context :=
  let passage := Passage.follow target.configs [] ctx interceptors
  let (response, ctx) := passage.written target
  Passage.finish target.configs response ctx passage.ran

end Palisade
