import Palisade.Context.Extensions
import Palisade.Http.Request
import Palisade.Response.HeaderWrite
import Palisade.Routing.Captures
import Palisade.World

/-!
# The context of a request

What is at hand while one request is served: the request itself, what its route captured, the values
kept with it, the headers of its response, and the world outside.
-/
namespace Palisade

/-- A request that is being served. -/
structure Context where
  /-- The request. -/
  request : Request
  /-- What the route captured from the path. -/
  captures : Captures
  /-- The values kept with the request. -/
  extensions : Extensions
  /-- The headers of the response under construction. -/
  headers : ResponseHeaders
  /-- The world outside. -/
  world : World

namespace Context

/-- The context of a request that has just been received. -/
def ofRequest (request : Request) (captures : Captures) (world : World) : Context :=
  ⟨request, captures, .empty, .empty, world⟩

/-- Records an event. -/
def record (ctx : Context) (e : Event) : Context := { ctx with world := ctx.world.record e }

/-- Writes an entry of the journal. -/
def write (ctx : Context) (e : Entry) : Context := { ctx with world := ctx.world.write e }

/-- Queues a cookie. -/
def addCookie (ctx : Context) (cookie : Cookie) : Context :=
  { ctx with headers := ctx.headers.addCookie cookie }

/-- Keeps a value with the request. -/
def keep (ctx : Context) (slot : Slot) (value : slot.Value) : Context :=
  { ctx with extensions := ctx.extensions.insert slot value }

/-- Performs header writes up to the first that is refused. -/
def perform (ctx : Context) (writes : List HeaderWrite) : Context × Option HeaderError :=
  let (headers, error?) := HeaderWrite.performAll ctx.headers writes
  ({ ctx with headers }, error?)

/-- The nonce of the response, if it has content policies. -/
def nonce? (ctx : Context) : Option String :=
  (ctx.extensions.get? .policies).map (·.nonce)

/-- The token that was issued for the request. -/
def token? (ctx : Context) : Option String := ctx.extensions.get? .token

end Context

end Palisade
