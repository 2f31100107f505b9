import Palisade.Proofs.Security.Confinement
import Palisade.Proofs.Service.Journal
import Palisade.Script.Handler
import Palisade.Script.Recorder

/-!
# What is recorded is not read

The interceptors of the library record events, and scripted interceptors and handlers leave notes. None
of them reads the journal. This is said once for the steps that they are made of, and then for each of
them.
-/
namespace Palisade

open Context

namespace Interceptor

/-- What follows writes adds its entries behind those of the past. -/
theorem afterWrites_behind (name : String) (onward : Flow) (p : Context × Option HeaderError)
    (past : List Entry) : afterWrites name onward (p.1.behind past, p.2) =
      ((afterWrites name onward p).1, (afterWrites name onward p).2.behind past) := by
  obtain ⟨ctx, error?⟩ := p
  cases error? with
  | none => rfl
  | some e => simp only [afterWrites, record_behind]

/-- Writes do not read the journal. -/
theorem blind_afterWrites (name : String) (onward : Flow) (ws : List HeaderWrite) :
    Palisade.Blind fun ctx => afterWrites name onward (ctx.perform ws) :=
  fun ctx past => afterWrites_behind name onward (ctx.perform ws) past

/-- An interceptor that only writes headers. -/
theorem blind_ofWrites (name : String) (writes : Configs → List HeaderWrite) :
    (ofWrites name writes).Blind where
  before configs := blind_afterWrites name .pass (writes configs)
  commit _ _ _ _ := rfl

end Interceptor

/-- Refusals do not read the journal. -/
theorem Refusal.blind_answer (r : Refusal) : Blind r.answer := by
  intro ctx past
  simp only [answer, record_behind]

/-! ### Interceptors of the library -/

/-- Nor does the redirect to an encrypted connection. -/
theorem TransportSecurity.blind (t : TransportSecurity) : t.interceptor.Blind where
  before _ := .ite (Interceptor.blind_afterWrites name .pass _)
    (fun _ _ => rfl) fun _ _ => .rfl
  commit _ _ _ _ := rfl

/-- Nor does the check of metadata. -/
theorem FetchMetadata.blind (f : FetchMetadata) : f.interceptor.Blind where
  before configs ctx past := by
    simp only [interceptor, request_behind]
    split
    · rfl
    · split
      · rfl
      · split <;> simp only [record_behind]
  commit _ _ _ _ := rfl

namespace CrossOrigin

/-- Nor does the answer to a foreign origin. -/
theorem blind_foreign (c : CrossOrigin) (origin : String) : Blind (c.foreign origin) := by
  intro ctx past
  simp only [foreign, request_behind]
  split
  · exact Refusal.blind_answer _ ctx past
  · split
    · split
      · exact Refusal.blind_answer _ ctx past
      · exact Interceptor.blind_afterWrites name _ _ ctx past
    · split
      · exact Refusal.blind_answer _ ctx past
      · exact Interceptor.blind_afterWrites name _ _ ctx past

/-- Nor does the gate for other origins. -/
theorem blind (c : CrossOrigin) : c.interceptor.Blind where
  before configs ctx past := by
    simp only [interceptor, request_behind]
    cases ctx.request.headers.get? "origin" with
    | none => rfl
    | some origin =>
      exact (Blind.const Flow.pass).ite (c := fun ctx => isSameOrigin origin ctx.request.host)
        (c.blind_foreign origin) (fun _ _ => .rfl) ctx past
  commit _ _ _ _ := rfl

end CrossOrigin

namespace ContentSecurity

/-- Content policies are started whatever the journal says. -/
theorem start_behind (ctx : Context) (past : List Entry) :
    start (ctx.behind past) = ((start ctx).1.behind past, (start ctx).2) := by
  simp only [start, extensions_behind, headers_behind]
  split
  · rfl
  · split
    · rfl
    · split <;> rfl

/-- Content policies are applied whatever the journal says. -/
theorem apply_behind (policies : List ContentPolicy) (configs : Configs) (ctx : Context)
    (past : List Entry) : apply policies configs (ctx.behind past) =
      ((apply policies configs ctx).1.behind past, (apply policies configs ctx).2) := by
  unfold apply
  rw [start_behind]
  generalize start ctx = started
  obtain ⟨next, error | state⟩ := started <;> rfl

/-- The interceptor of content policies does not read the journal. -/
theorem blind (policies : List ContentPolicy) : (interceptor policies).Blind where
  before configs ctx past := by
    simp only [interceptor, apply_behind]
    exact Interceptor.afterWrites_behind name .pass (apply policies configs ctx) past
  commit _ _ _ _ := rfl

end ContentSecurity

namespace FormForgery

/-- A client is told apart whatever the journal says. -/
theorem client_behind (ctx : Context) (past : List Entry) :
    client (ctx.behind past) = (client ctx).map fun p => (p.1, p.2.behind past) := by
  have hnew : newClient (ctx.behind past) = (newClient ctx).map fun p => (p.1, p.2.behind past) := by
    have hdraw : ((ctx.behind past).world.draw cookieBytes).1 = (ctx.world.draw cookieBytes).1 := rfl
    simp only [newClient, hdraw]
    cases Cookie.new cookieName (cookieValueOf (ctx.world.draw cookieBytes).1) <;> rfl
  simp only [client, request_behind, hnew]
  cases ctx.request.cookie? cookieName <;> rfl

/-- Tokens are issued without reading the journal. -/
theorem blind_issue (key : TokenKey) : Blind (issue key) := by
  intro ctx past
  simp only [issue, client_behind]
  cases client ctx with
  | ok p => rfl
  | error refusal => exact refusal.blind_answer ctx past

/-- The protection of forms does not read the journal. -/
theorem blind (key : TokenKey) : (interceptor key).Blind where
  before configs := by
    refine .ite (fun ctx past => ?_) (blind_issue key) fun _ _ => .rfl
    simp only [request_behind, millis_behind]
    cases check key ctx.request ctx.world.millis with
    | ok u => exact blind_issue key ctx past
    | error refusal => exact refusal.blind_answer ctx past
  commit _ _ _ _ := rfl

end FormForgery

namespace ScriptForgery

/-- Tokens are renewed without reading the journal. -/
theorem blind_renew (key : TokenKey) : Blind (renew key) := by
  refine .ite (.const Flow.pass) (fun ctx past => ?_) fun _ _ => .rfl
  simp only [issue, request_behind, millis_behind]
  cases Cookie.new cookieName
      (Token.issue key user (FormForgery.action ctx.request) ctx.world.millis) with
  | ok cookie => rfl
  | error e => exact Refusal.blind_answer _ ctx past

/-- The renewal of tokens does not read the journal. -/
theorem blind (key : TokenKey) : (interceptor key).Blind where
  before configs := by
    refine .ite (fun ctx past => ?_) (blind_renew key) fun _ _ => .rfl
    simp only [request_behind, millis_behind]
    cases check key ctx.request ctx.world.millis with
    | ok u => exact blind_renew key ctx past
    | error refusal => exact refusal.blind_answer ctx past
  commit _ _ _ _ := rfl

end ScriptForgery

/-- No interceptor of the library reads the journal. -/
theorem Interceptor.Shipped.blind {i : Interceptor} (h : i.Shipped) : i.Blind := by
  cases h with
  | transport t => exact t.blind
  | fixed => exact Interceptor.blind_ofWrites _ _
  | openers policies => exact Interceptor.blind_ofWrites _ _
  | policies policies => exact ContentSecurity.blind policies
  | framing => exact Interceptor.blind_ofWrites _ _
  | metadata f => exact f.blind
  | forms key => exact FormForgery.blind key
  | scripts key => exact ScriptForgery.blind key

/-! ### Scripts -/

namespace RecorderScript

/-- The steps of a script for interceptors add their entries behind those of the past. -/
theorem runSteps_behind (name : String) (describe : HandlerOutcome → String)
    (steps : List HeaderStep) (ctx : Context) (claims : List (String × Claim)) (past : List Entry) :
    runSteps name describe steps (ctx.behind past) claims =
      (runSteps name describe steps ctx claims).behind past := by
  induction steps generalizing ctx claims with
  | nil => rfl
  | cons step rest ih =>
    simp only [runSteps, HandlerStep.runHeader, headers_behind]
    rw [← ih, ← write_behind]
    rfl

/-- Interceptors of scripts do not read the journal. -/
theorem blind (describe : HandlerOutcome → String) (r : RecorderScript) :
    (r.interceptor describe).Blind where
  before configs ctx past := by
    simp only [interceptor, runBefore, write_behind, runSteps_behind]
    split
    · rfl
    · split
      · rfl
      · rfl
  commit configs response ctx past := by
    simp only [interceptor, runCommit, write_behind, runSteps_behind]
    split <;> rfl

end RecorderScript

namespace HandlerScript

/-- A step of a handler adds its entries behind those of the past. -/
theorem run_behind (step : HandlerStep) (ctx : Context) (claims : List (String × Claim))
    (past : List Entry) : step.run (ctx.behind past) claims =
      ((step.run ctx claims).1, (step.run ctx claims).2.1.behind past, (step.run ctx claims).2.2) := by
  cases step with
  | form field => simp only [HandlerStep.run, request_behind]
  | bodyJson => simp only [HandlerStep.run, request_behind]
  | query key => simp only [HandlerStep.run, request_behind]
  | header step => simp only [HandlerStep.run, HandlerStep.runHeader, headers_behind]; rfl
  | capture name | nonce | token | headers name => rfl

/-- The steps of a handler add their entries behind those of the past. -/
theorem runSteps_behind (describe : HandlerOutcome → String) (steps : List HandlerStep)
    (ctx : Context) (claims : List (String × Claim)) (past : List Entry) :
    runSteps describe steps (ctx.behind past) claims =
      (runSteps describe steps ctx claims).behind past := by
  induction steps generalizing ctx claims with
  | nil => rfl
  | cons step rest ih => simp only [runSteps, run_behind, write_behind, ih]

/-- The answers of scripts do not read the journal. -/
theorem blind_respond (describe : HandlerOutcome → String) (answer : HandlerAnswer) :
    Blind fun ctx => respond describe ctx answer := by
  intro ctx past
  cases answer with
  | plain | capture name | body => simp only [respond, request_behind, captures_behind]
  | plan plan =>
    simp only [respond]
    cases plan.build with
    | ok response => rfl
    | error e => simp only [write_behind]

/-- A handler that is a script. -/
theorem blind_handler (describe : HandlerOutcome → String) (script : HandlerScript) :
    Blind (script.handler describe) := by
  intro ctx past
  have hr := blind_respond describe script.answer (runSteps describe script.steps ctx []) past
  simp only at hr
  simp only [handler, runSteps_behind, hr, write_behind]
  rfl

end HandlerScript

end Palisade
