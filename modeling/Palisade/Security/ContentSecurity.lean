import Palisade.Codec.Base64
import Palisade.Security.ContentPolicy

/-!
# Content security

Every response gets one nonce and two headers of content policies, the enforced ones and those that
only report. Several interceptors may contribute policies: the first draws the nonce and claims the
headers, and each adds its own policies behind those that are there. On a route without policies the
headers stay empty, but there is a nonce, so that pages can be filled.
-/
namespace Palisade.ContentSecurity

/-- The header of enforced policies. -/
def enforcedHeader : String := "Content-Security-Policy"

/-- The header of policies whose violations are only reported. -/
def reportedHeader : String := "Content-Security-Policy-Report-Only"

/-- How many random bytes a nonce has. -/
def nonceBytes : Nat := 20

/-- A nonce of random bytes. -/
def nonceOf (bytes : Bytes) : String := String.ofList (Base64.encodePadded Base64.standard bytes)

/-- The policies of the response so far. The first time a nonce is drawn and both headers are
claimed. -/
def start (ctx : Context) : Context × Except HeaderError PolicyState :=
  match ctx.extensions.get? .policies with
  | some state => (ctx, .ok state)
  | none =>
    let (bytes, world) := ctx.world.draw nonceBytes
    match ctx.headers.claim enforcedHeader with
    | .error e => ({ ctx with world }, .error e)
    | .ok (enforce, headers) =>
      match headers.claim reportedHeader with
      | .error e => ({ ctx with world, headers }, .error e)
      | .ok (report, headers) =>
        ({ ctx with world, headers }, .ok ⟨nonceOf bytes, enforce, report, [], []⟩)

/-- The texts of those policies that apply. -/
def texts (policies : List ContentPolicy) (nonce : String) (configs : Configs) : List String :=
  policies.filterMap fun p => p.serialize nonce configs

/-- Policies of an interceptor behind those that are there. -/
def extend (policies : List ContentPolicy) (configs : Configs) (state : PolicyState) :
    PolicyState :=
  if configs.has .withoutPolicies then state
  else { state with
    enforced := state.enforced ++
      texts (policies.filter fun p => !p.reportOnly) state.nonce configs
    reported := state.reported ++
      texts (policies.filter fun p => p.reportOnly) state.nonce configs }

/-- Adds policies to the response. -/
def apply (policies : List ContentPolicy) (configs : Configs) (ctx : Context) :
    Context × Option HeaderError :=
  match start ctx with
  | (started, .error e) => (started, some e)
  | (started, .ok state) =>
    let extended := extend policies configs state
    let (written, error?) := started.perform
      [.fill extended.enforce extended.enforced, .fill extended.report extended.reported]
    (written.keep .policies extended, error?)

/-- Tells a page the nonce. -/
def commit (response : Response) (ctx : Context) : Response :=
  match ctx.nonce? with
  | some nonce => response.addFunction Markup.nonceFunction nonce
  | none => response

/-- The name that the journal shows. -/
def name : String := "csp"

/-- The interceptor of policies. -/
def interceptor (policies : List ContentPolicy) : Interceptor where
  name
  before configs ctx := Interceptor.afterWrites name .pass (apply policies configs ctx)
  commit _ response ctx := (commit response ctx, ctx)

/-- The usual policies: scripts with nonces and checked types, both enforced. -/
def usual (reportUri : Option String) : List ContentPolicy :=
  [StrictPolicy.policy ⟨false, reportUri, false, false, none⟩,
   TrustedTypesPolicy.policy ⟨false, reportUri⟩]

end Palisade.ContentSecurity
