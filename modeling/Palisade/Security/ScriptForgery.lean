import Palisade.Security.FormForgery

/-!
# Protection of scripts against forgery

A client gets a signed token in a cookie that its scripts can read, and they send it back in a header.
Scripts of other sites cannot read the cookie and so cannot set the header. A request that may change
something must bring both, and they must agree. The token is not bound to a client. A new one is issued
when the one that a request brings does not hold.
-/
namespace Palisade.ScriptForgery

/-- The cookie that scripts read. -/
def cookieName : String := "XSRF-TOKEN"

/-- The header that scripts send. -/
def headerName : String := "X-XSRF-TOKEN"

/-- The user that tokens are signed for: none in particular. -/
def user : String := ""

/-- Refuses a request whose cookie and header do not agree on a token that holds. -/
def check (key : TokenKey) (r : Request) (now : Nat) : Except Refusal Unit :=
  match r.cookie? cookieName with
  | none =>
    .error ⟨.forbidden, .warn, "state-changing request without XSRF-TOKEN cookie",
      [("path", r.path)]⟩
  | some cookie =>
    match r.headers.get? headerName with
    | none =>
      .error ⟨.unauthorized, .warn, "state-changing request without X-XSRF-TOKEN",
        [("path", r.path)]⟩
    | some header =>
      if header ≠ cookie then
        .error ⟨.forbidden, .warn, "X-XSRF-TOKEN does not match cookie", [("path", r.path)]⟩
      else match Token.check key header user (FormForgery.action r) now with
        | .ok () => .ok ()
        | .error e =>
          .error ⟨.forbidden, .warn, "XSRF-TOKEN rejected",
            [("path", r.path), ("error", e.message)]⟩

/-- Whether the token that a request brings holds. -/
def holds (key : TokenKey) (r : Request) (now : Nat) : Bool :=
  match r.cookie? cookieName with
  | some token => (Token.check key token user (FormForgery.action r) now).isOk
  | none => false

/-- Queues a cookie with a new token. -/
def issue (key : TokenKey) (ctx : Context) : Flow × Context :=
  let token := Token.issue key user (FormForgery.action ctx.request) ctx.world.millis
  match Cookie.new cookieName token with
  | .ok cookie => (.pass, ctx.addCookie { cookie with httpOnly := false })
  | .error e =>
    Refusal.answer ⟨.internalServerError, .error, "could not issue XSRF-TOKEN cookie",
      [("error", e.message)]⟩ ctx

/-- Issues a token unless the one that the request brings holds. -/
def renew (key : TokenKey) (ctx : Context) : Flow × Context :=
  if holds key ctx.request ctx.world.millis then (.pass, ctx) else issue key ctx

/-- The interceptor with a key. -/
def interceptor (key : TokenKey) : Interceptor where
  name := "xsrf_angular"
  before configs ctx :=
    if FormForgery.needsToken configs ctx.request then
      match check key ctx.request ctx.world.millis with
      | .error refusal => refusal.answer ctx
      | .ok () => renew key ctx
    else renew key ctx

end Palisade.ScriptForgery
