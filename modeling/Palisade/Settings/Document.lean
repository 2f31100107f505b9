import Palisade.Json.Shape
import Palisade.Settings.Basic

/-!
# Settings as documents

Settings are read from a JSON document. Sections and fields that are left out keep their defaults,
and fields that are unknown are refused, except in policies on openers.
-/
namespace Palisade

open Json.Reader

/-- A policy on openers in a document. -/
def OpenerPolicy.shape : Record OpenerPolicy where
  name := "Policy"
  default := {}
  fields := [
    field "mode" (variant OpenerMode.byName) fun v p => { p with mode := v },
    field "report_to" (optional text) fun v p => { p with reportTo := v },
    field "report_only" bool fun v p => { p with reportOnly := v }]
  lenient := true

/-- Reads a policy on openers. -/
def OpenerPolicy.read (document : String) : Except Json.Fault OpenerPolicy :=
  Json.readWith (record shape) (Text.utf8 document)

namespace Settings

/-- The section on transport security. -/
def Transport.shape : Record Transport where
  name := "HstsConfig"
  default := {}
  fields := [
    field "max_age_secs" whole fun v t => { t with maxAge := v },
    field "include_subdomains" bool fun v t => { t with includeSubdomains := v },
    field "preload" bool fun v t => { t with preload := v },
    field "behind_proxy" bool fun v t => { t with behindProxy := v }]
  lenient := false

/-- The section on content policies. -/
def Content.shape : Record Content where
  name := "CspConfig"
  default := {}
  fields := [
    field "enabled" bool fun v c => { c with enabled := v },
    field "report_only" bool fun v c => { c with reportOnly := v },
    field "report_uri" (optional text) fun v c => { c with reportUri := v },
    field "no_strict_dynamic" bool fun v c => { c with noStrictDynamic := v },
    field "unsafe_eval" bool fun v c => { c with unsafeEval := v },
    field "base_uri" (optional text) fun v c => { c with baseUri := v },
    field "trusted_types" bool fun v c => { c with trustedTypes := v }]
  lenient := false

/-- The section on framing. -/
def Frames.shape : Record Frames where
  name := "FramingConfig"
  default := {}
  fields := [
    field "enabled" bool fun v f => { f with enabled := v },
    field "report_uri" (optional text) fun v f => { f with reportUri := v }]
  lenient := false

/-- The section on fetch metadata. -/
def Metadata.shape : Record Metadata where
  name := "FetchMetadataConfig"
  default := {}
  fields := [
    field "enabled" bool fun v m => { m with enabled := v },
    field "navigation_isolation" bool fun v m => { m with navigationIsolation := v },
    field "report_only" bool fun v m => { m with reportOnly := v },
    field "cors_endpoints" (listOf text) fun v m => { m with corsEndpoints := v }]
  lenient := false

/-- The section on other origins. -/
def Origins.shape : Record Origins where
  name := "CorsConfig"
  default := {}
  fields := [
    field "allowed_origins" (listOf text) fun v o => { o with allowedOrigins := v },
    field "allowed_methods" (listOf text) fun v o => { o with allowedMethods := v },
    field "allowed_headers" (listOf text) fun v o => { o with allowedHeaders := v },
    field "exposed_headers" (listOf text) fun v o => { o with exposedHeaders := v },
    field "allow_credentials" bool fun v o => { o with allowCredentials := v },
    field "max_age_secs" whole fun v o => { o with maxAge := v }]
  lenient := false

/-- The names of what protects against forged requests. -/
def Forgery.byName : List (String × Forgery) :=
  [("html", .html), ("angular", .angular), ("disabled", .disabled)]

/-- The whole document. -/
def shape : Record Settings where
  name := "SecurityConfig"
  default := {}
  fields := [
    field "hsts" (record Transport.shape) fun v s => { s with transport := v },
    field "static_headers" bool fun v s => { s with fixedHeaders := v },
    field "coop" (listOf (record OpenerPolicy.shape)) fun v s => { s with openers := v },
    field "csp" (record Content.shape) fun v s => { s with content := v },
    field "framing" (record Frames.shape) fun v s => { s with frames := v },
    field "fetch_metadata" (record Metadata.shape) fun v s => { s with metadata := v },
    field "cors" (optional (record Origins.shape)) fun v s => { s with origins := v },
    field "xsrf" (variant Forgery.byName) fun v s => { s with forgery := v }]
  lenient := false

/-- Reads settings. -/
def read (document : String) : Except SetupError Settings :=
  match Json.readWith (record shape) (Text.utf8 document) with
  | .error fault => .error (.document fault)
  | .ok settings => .ok settings

end Settings

end Palisade
