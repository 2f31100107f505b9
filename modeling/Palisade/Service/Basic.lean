import Palisade.Http.Reply
import Palisade.Response.Rendering
import Palisade.Service.Lifecycle

/-!
# Services

A service has interceptors, routes and a renderer, and turns each request into one reply. No two of
its routes have the same host, pattern and method. A response that cannot be rendered becomes an
error, and the type that the renderer chose is the only one that is sent.
-/
namespace Palisade

/-- Why a service cannot be built: a route repeats another. -/
structure DuplicateRoute where
  /-- The route as it was written. -/
  source : String
  /-- Its method. -/
  method : Method
  deriving Repr, DecidableEq

/-- The message of the error. -/
def DuplicateRoute.message (d : DuplicateRoute) : String :=
  "route `" ++ d.source ++ "` registered twice for method " ++ d.method.name

/-- A service. -/
structure Service where
  /-- What turns responses into bytes. -/
  renderer : Renderer
  /-- What runs around every handler, in order. -/
  interceptors : List Interceptor
  /-- The routes in the order in which they were given. -/
  routes : List Route
  /-- No route repeats another. -/
  distinct : Route.duplicate? routes = none

namespace Service

/-- Builds a service. -/
def build (renderer : Renderer) (interceptors : List Interceptor) (routes : List Route) :
    Except DuplicateRoute Service :=
  match h : Route.duplicate? routes with
  | some r => .error ⟨r.source, r.method⟩
  | none => .ok ⟨renderer, interceptors, routes, h⟩

/-- The event of a service that was built. -/
def builtEvent (s : Service) : Event :=
  ⟨.debug, "serve mux built",
    [("routes", Text.showNat s.routes.length),
     ("interceptors", Text.showNat s.interceptors.length)]⟩

/-- What is sent when not even an error can be rendered. -/
def fallback : Rendering :=
  .ofText .internalServerError Rendering.plainType Status.internalServerError.reason.toList

/-- Renders a response, or an error in its place, and tells what went wrong. -/
def renderSafely (renderer : Renderer) (response : Response) : Rendering × List Event :=
  match renderer response with
  | .ok rendering => (rendering, [])
  | .error first =>
    let failed : Event := ⟨.error, "failed to render response", [("error", first.message)]⟩
    match renderer (.error .internalServerError) with
    | .ok rendering => (rendering, [failed])
    | .error second =>
      (fallback, [failed, ⟨.error, "dispatcher cannot render errors, using fallback",
        [("error", second.message)]⟩])

/-- The header fields with the type and the location of a rendering. -/
def settle (rendering : Rendering) (headers : Headers) : Headers :=
  let typed := match rendering.contentType with
    | some contentType => headers.set "Content-Type" contentType
    | none => headers.remove "content-type"
  match rendering.location with
  | some location => typed.set "Location" location
  | none => typed

/-- The reply that a response becomes. -/
def encode (renderer : Renderer) (response : Response) (ctx : Context) (keepAlive : Bool) :
    Reply × World :=
  let (rendering, events) := renderSafely renderer response
  ({ status := rendering.status
     headers := settle rendering ctx.headers.toHeaders
     body := rendering.body
     keepAlive }, ctx.world.recordAll events)

/-- The event of a request that was served. -/
def servedEvent (request : Request) (reply : Reply) : Event :=
  ⟨.info, "request served",
    [("method", request.method.name), ("path", request.path),
     ("status", Text.showNat reply.status.code)]⟩

/-- Serves a request. -/
def serve (s : Service) (request : Request) (world : World) : Reply × World :=
  let target := Target.lookup s.routes request
  let (response, ctx) := target.run s.interceptors (.ofRequest request target.captures world)
  let (reply, world) := encode s.renderer response ctx request.isKeepAlive
  (reply, world.record (servedEvent request reply))

end Service

end Palisade
