import Palisade.Interceptor
import Palisade.Routing.Route
import Palisade.Security.Token

/-!
# Protection of forms against forgery

Every client gets a cookie of random bytes, and every form a token that is signed for that cookie and
for the host. A request that may change something must bring both. A token is issued for each request
that passes, so that pages can be filled.
-/
namespace Palisade

namespace TokenKey

/-- Refuses the empty key. -/
def ofBytes (bytes : Bytes) : Except SetupError TokenKey :=
  if bytes.isEmpty then .error .emptyKey else .ok ⟨bytes⟩

end TokenKey

namespace FormForgery

/-- The cookie that tells clients apart. -/
def cookieName : String := "__Host-xsrf"

/-- How many random bytes a cookie has. -/
def cookieBytes : Nat := 20

/-- The value of a cookie of random bytes. -/
def cookieValueOf (bytes : Bytes) : String := String.ofList (Base64.encode Base64.urlSafe bytes)

/-- Whether a request has to bring a token. -/
def needsToken (configs : Configs) (r : Request) : Bool :=
  r.method.isStateChanging && !configs.has .withoutTokens

/-- The token in a request's form. -/
def submitted? (r : Request) : Option String :=
  match r.form with
  | .ok form => form.string? Markup.tokenField
  | .error _ => none

/-- What a token is signed for, besides the client: the host. -/
def action (r : Request) : String := Host.normalize r.host

/-- Refuses a request that does not bring a cookie and a token that is signed for it. -/
def check (key : TokenKey) (r : Request) (now : Nat) : Except Refusal Unit :=
  match r.cookie? cookieName with
  | none =>
    .error ⟨.forbidden, .warn, "state-changing request without XSRF cookie", [("path", r.path)]⟩
  | some cookie =>
    match submitted? r with
    | none =>
      .error ⟨.unauthorized, .warn, "state-changing request without XSRF token",
        [("path", r.path)]⟩
    | some token =>
      match Token.check key token cookie (action r) now with
      | .ok () => .ok ()
      | .error e =>
        .error ⟨.forbidden, .warn, "XSRF token rejected", [("path", r.path), ("error", e.message)]⟩

/-- Draws the value of a new cookie and queues the cookie. -/
def newClient (ctx : Context) : Except Refusal (String × Context) :=
  let (bytes, world) := ctx.world.draw cookieBytes
  let value := cookieValueOf bytes
  match Cookie.new cookieName value with
  | .ok cookie => .ok (value, { ctx with world }.addCookie cookie)
  | .error e =>
    .error ⟨.internalServerError, .error, "could not build XSRF cookie", [("error", e.message)]⟩

/-- The cookie value of a request's client, which is a new one if the request brings none. -/
def client (ctx : Context) : Except Refusal (String × Context) :=
  match ctx.request.cookie? cookieName with
  | some value => .ok (value, ctx)
  | none => newClient ctx

/-- Issues the token of a request and keeps it. -/
def issue (key : TokenKey) (ctx : Context) : Flow × Context :=
  match client ctx with
  | .error refusal => refusal.answer ctx
  | .ok (value, ctx) =>
    (.pass, ctx.keep .token (Token.issue key value (action ctx.request) ctx.world.millis))

/-- Tells a page the token. -/
def commit (response : Response) (ctx : Context) : Response :=
  match ctx.token? with
  | some token => response.addFunction Markup.tokenFunction token
  | none => response

/-- The interceptor with a key. -/
def interceptor (key : TokenKey) : Interceptor where
  name := "xsrf"
  before configs ctx :=
    if needsToken configs ctx.request then
      match check key ctx.request ctx.world.millis with
      | .error refusal => refusal.answer ctx
      | .ok () => issue key ctx
    else issue key ctx
  commit _ response ctx := (commit response ctx, ctx)

end FormForgery

end Palisade
