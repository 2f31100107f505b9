import Palisade.Security.ContentSecurity
import Palisade.Security.CrossOrigin
import Palisade.Security.FetchMetadata
import Palisade.Security.OwnHeaders
import Palisade.Security.ScriptForgery

/-!
# Settings of the security stack

One record holds the settings of all interceptors. What is not given has a default that protects. The
interceptors are built in a fixed order, and the first setting that is refused is the error. The key
that signs tokens is given apart and is never part of the settings.
-/
namespace Palisade.Settings

/-- Settings of transport security. -/
structure Transport where
  /-- For how many seconds a browser remembers it. -/
  maxAge : Nat := 63072000
  /-- Whether it holds for the hosts below as well. -/
  includeSubdomains : Bool := true
  /-- Whether the host may be put on lists that browsers bring along. -/
  preload : Bool := false
  /-- Whether a proxy ends the encryption. -/
  behindProxy : Bool := false
  deriving Repr, DecidableEq

/-- Settings of content policies. -/
structure Content where
  /-- Whether there are any. -/
  enabled : Bool := true
  /-- Whether violations are only reported. -/
  reportOnly : Bool := false
  /-- Where violations are reported. -/
  reportUri : Option String := none
  /-- Whether scripts that trusted scripts load are not trusted. -/
  noStrictDynamic : Bool := false
  /-- Whether texts may be run as scripts. -/
  unsafeEval : Bool := false
  /-- What base addresses a page may have, in place of none. -/
  baseUri : Option String := none
  /-- Whether scripts write into pages only through checked types. -/
  trustedTypes : Bool := true
  deriving Repr, DecidableEq

/-- Settings of the protection against framing. -/
structure Frames where
  /-- Whether there is any. -/
  enabled : Bool := true
  /-- Where violations are reported. -/
  reportUri : Option String := none
  deriving Repr, DecidableEq

/-- Settings of the isolation by fetch metadata. -/
structure Metadata where
  /-- Whether there is any. -/
  enabled : Bool := true
  /-- Whether navigations are refused as well. -/
  navigationIsolation : Bool := false
  /-- Whether violations are only recorded. -/
  reportOnly : Bool := false
  /-- Paths that are open to other origins. -/
  corsEndpoints : List String := []
  deriving Repr, DecidableEq

/-- Settings for requests of other origins. -/
structure Origins where
  /-- The origins that may read responses. -/
  allowedOrigins : List String := []
  /-- Further methods that they may use, in any case. -/
  allowedMethods : List String := []
  /-- Further headers that they may send. -/
  allowedHeaders : List String := []
  /-- The headers of responses that they may read. -/
  exposedHeaders : List String := []
  /-- Whether their requests carry cookies. -/
  allowCredentials : Bool := false
  /-- For how many seconds an answer beforehand holds. -/
  maxAge : Nat := 5
  deriving Repr, DecidableEq

/-- What protects against forged requests. -/
inductive Forgery where
  /-- Tokens in forms. -/
  | html
  /-- A cookie that scripts send back. -/
  | angular
  /-- Nothing. -/
  | disabled
  deriving Repr, DecidableEq

end Settings

/-- The settings of all interceptors. -/
structure Settings where
  /-- Transport security. -/
  transport : Settings.Transport := {}
  /-- Whether the fixed headers are sent. -/
  fixedHeaders : Bool := true
  /-- Policies on openers. -/
  openers : List OpenerPolicy := [{}]
  /-- Content policies. -/
  content : Settings.Content := {}
  /-- Protection against framing. -/
  frames : Settings.Frames := {}
  /-- Isolation by fetch metadata. -/
  metadata : Settings.Metadata := {}
  /-- Requests of other origins. Without settings they are treated like all others. -/
  origins : Option Settings.Origins := none
  /-- Protection against forged requests. -/
  forgery : Settings.Forgery := .html
  deriving Repr, DecidableEq

namespace Settings

/-- The interceptor of transport security. -/
def Transport.build (t : Transport) : Except SetupError Interceptor :=
  match TransportSecurity.build
    ⟨t.maxAge * 1000, t.includeSubdomains, t.preload, t.behindProxy⟩ with
  | .error e => .error e
  | .ok transport => .ok transport.interceptor

/-- The content policies. -/
def Content.policies (c : Content) : List ContentPolicy :=
  [StrictPolicy.policy ⟨c.reportOnly, c.reportUri, c.noStrictDynamic, c.unsafeEval, c.baseUri⟩] ++
    if c.trustedTypes then [TrustedTypesPolicy.policy ⟨c.reportOnly, c.reportUri⟩] else []

/-- What other origins may do. -/
def Origins.crossOrigin (o : Origins) : Except SetupError CrossOrigin :=
  match CrossOrigin.ofOrigins o.allowedOrigins with
  | .error e => .error e
  | .ok c =>
    let methods := o.allowedMethods.map fun m => Method.ofName (Text.upper m)
    .ok { methods.foldl CrossOrigin.allowMethod c with
      headers := c.headers ++ o.allowedHeaders
      exposed := o.exposedHeaders
      credentials := o.allowCredentials
      maxAge := o.maxAge }

/-- The interceptors for requests of other origins. -/
def Origins.build (o : Origins) : Except SetupError (List Interceptor) :=
  match o.crossOrigin with
  | .error e => .error e
  | .ok c => .ok [c.interceptor]

/-- The interceptors against forged requests, with a key. -/
def Forgery.build (f : Forgery) (key : Bytes) : Except SetupError (List Interceptor) :=
  match f with
  | disabled => .ok []
  | html =>
    match TokenKey.ofBytes key with
    | .error e => .error e
    | .ok key => .ok [FormForgery.interceptor key]
  | angular =>
    match TokenKey.ofBytes key with
    | .error e => .error e
    | .ok key => .ok [ScriptForgery.interceptor key]

/-- The interceptors that are built without a check, between transport security and those for other
origins. -/
def unchecked (s : Settings) : List Interceptor :=
  (if s.fixedHeaders then [FixedHeaders.interceptor] else []) ++
    (if s.openers.isEmpty then [] else [OpenerIsolation.interceptor s.openers]) ++
    (if s.content.enabled then [ContentSecurity.interceptor s.content.policies] else []) ++
    (if s.frames.enabled then Framing.interceptors s.frames.reportUri else []) ++
    (if s.metadata.enabled then
      [FetchMetadata.interceptor
        ⟨s.metadata.navigationIsolation, s.metadata.reportOnly, s.metadata.corsEndpoints⟩]
     else [])

/-- The interceptors in the order in which they run. -/
def interceptors (s : Settings) (key : Bytes) : Except SetupError (List Interceptor) :=
  match s.transport.build with
  | .error e => .error e
  | .ok transport =>
    match (s.origins.map Origins.build).getD (.ok []) with
    | .error e => .error e
    | .ok origins =>
      match s.forgery.build key with
      | .error e => .error e
      | .ok forgery => .ok ([transport] ++ s.unchecked ++ origins ++ forgery)

end Settings

end Palisade
