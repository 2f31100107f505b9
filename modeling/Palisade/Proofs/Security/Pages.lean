import Palisade.Proofs.Security.Handover
import Palisade.Proofs.Template.Rendering

/-!
# Pages with the nonce and the token of their response

A page is filled when its response is rendered, long after the interceptors have written its headers and
the handler has chosen its template. In between the interceptors finish the response in the reverse order
and give the page two functions. The main statement puts the whole way together for the usual settings
and templates that were written into: what scripts carry is the nonce that the content policies name, and
what forms carry is a token that is good for the client. A handler that takes away what the interceptors
have left in its context is not covered.
-/
namespace Palisade

open Palisade.Text Palisade.Markup ResponseHeaders

/-! ### Nonces and tokens in markup -/

/-- A nonce needs no escaping. -/
theorem ContentSecurity.escape_nonceOf (bytes : Bytes) :
    escape (nonceOf bytes).toList = (nonceOf bytes).toList := by
  have hchar : ∀ n : Fin 64, Base64.standard.char n ∉ escaped := by decide
  have hsign : '=' ∉ escaped := by decide
  refine escape_eq_self fun mark hm hc => ?_
  rw [nonceOf, String.toList_ofList] at hc
  rcases List.mem_append.1 hc with hc | hc
  · exact Base64.not_mem_encode (fun n he => hchar n (he ▸ hm)) bytes hc
  · have he : mark = '=' := by
      unfold Base64.padding at hc
      split at hc <;> simp at hc <;> exact hc
    exact hsign (he ▸ hm)

/-- A token needs no escaping. -/
theorem Token.escape_issue (key : TokenKey) (user action : String) (millis : Nat) :
    escape (issue key user action millis).toList = (issue key user action millis).toList := by
  have hchar : ∀ n : Fin 64, Base64.urlSafe.char n ∉ escaped := by decide
  have hcolon : ':' ∉ escaped := by decide
  have hdigit : ∀ d : Fin 10, digitChar d ∉ escaped := by decide
  refine escape_eq_self fun mark hm => ?_
  exact not_mem_issue (fun n he => hchar n (he ▸ hm)) (fun he => hcolon (he ▸ hm))
    (fun d he => hdigit d (he ▸ hm)) key user action millis

/-! ### Behind the handler -/

/-- The handler leaves what the library keeps with a request: nobody else has the types of these
slots. -/
structure Handler.Spares (handler : Handler) : Prop where
  policies : ∀ ctx, (handler ctx).2.extensions.get? .policies = ctx.extensions.get? .policies
  token : ∀ ctx, (handler ctx).2.extensions.get? .token = ctx.extensions.get? .token

/-- If all interceptors pass a request on then all of them finish what its target has answered. -/
theorem Target.run_of_passed {target : Target} {is : List Interceptor} {ctx next : Context}
    (h : Passed target.configs is ctx next) :
    target.run is ctx =
      Passage.finish target.configs (target.answer next).1 (target.answer next).2 is.reverse := by
  have hfollow : Passage.follow target.configs [] ctx is = ⟨is.reverse, none, next⟩ := by
    have hf := h.follow_append [] []
    rwa [List.append_nil, List.append_nil] at hf
  rw [run, hfollow]
  rfl

/-- A page that was told a nonce and a token. The nonce is told twice, by two interceptors. -/
def Page.told (p : Page) (nonce token : String) : Page :=
  let told := (p.functions.insert tokenFunction token).insert nonceFunction nonce
  { p with functions := told.insert nonceFunction nonce }

/-- A page that was told both has them as functions, with its other functions as they were. -/
theorem Page.get?_told (p : Page) (nonce token : String) :
    (p.told nonce token).functions.get? nonceFunction = some nonce ∧
      (p.told nonce token).functions.get? tokenFunction = some token ∧
      ∀ name, name ≠ nonceFunction → name ≠ tokenFunction →
        (p.told nonce token).functions.get? name = p.functions.get? name := by
  have hne : tokenFunction ≠ nonceFunction := by decide
  refine ⟨?_, ?_, fun name hn ht => ?_⟩
  · simp [told]
  · simp [told, hne]
  · simp [told, hn, ht]

/-- A page that was told both is not missing one of them. -/
theorem Page.not_unknown (p : Page) {nonce token name : String}
    (h : render (.page (p.told nonce token)) = .error (.page (.unknownFunction name))) :
    name ≠ nonceFunction ∧ name ≠ tokenFunction := by
  have hfill : (p.told nonce token).template.fill (p.told nonce token).data
      (p.told nonce token).functions = .error (.unknownFunction name) := by
    unfold render at h
    simp only at h
    split at h
    · cases h
    · rename_i e he
      rw [he, RenderError.page.inj (Except.error.inj h)]
  have hnone := Template.get?_of_fill_eq_error hfill
  obtain ⟨hnonce, htoken, -⟩ := p.get?_told nonce token
  constructor
  · rintro rfl
    rw [hnonce] at hnone
    cases hnone
  · rintro rfl
    rw [htoken] at hnone
    cases hnone

/-- A page whose template was written into, when it is rendered. -/
theorem Page.inlaid_of_render (p : Page) {nonce token source : String} {w : Insertions}
    (h : (p.told nonce token).functions.Tells nonce token)
    (ht : Template.parseInjected w source = .ok p.template) {rendering : Rendering}
    (hr : render (.page (p.told nonce token)) = .ok rendering) :
    ∃ ps parts text, Cut source.toList ps ∧ Template.Reads source.toList parts ∧
      Template.Inlaid p.data (p.told nonce token).functions nonce token 0 (marks w 0 ps) parts text ∧
      rendering.body = encode text := by
  unfold render at hr
  simp only at hr
  split at hr
  · rename_i html hfill
    obtain rfl := Except.ok.inj hr
    obtain ⟨ps, parts, hc, hparts, hinlaid⟩ := h.inlaid_of_fill ht hfill
    exact ⟨ps, parts, _, hc, hparts, hinlaid, rfl⟩
  · cases hr

namespace Settings

/-- Of the usual interceptors three finish a response: it is told the token, and twice the nonce. -/
theorem finish_usual (key : TokenKey) (configs : Configs) (response : Response) (ctx : Context) :
    Passage.finish configs response ctx (usual key).reverse =
      (ContentSecurity.commit (ContentSecurity.commit (FormForgery.commit response ctx) ctx) ctx, ctx) :=
  rfl

/-- Behind the handler the usual interceptors tell a page its nonce and its token. -/
theorem finish_page (key : TokenKey) (configs : Configs) (page : Page) {ctx : Context}
    {nonce token : String} (hn : ctx.nonce? = some nonce) (ht : ctx.token? = some token) :
    Passage.finish configs (.page page) ctx (usual key).reverse =
      (.page (page.told nonce token), ctx) := by
  rw [finish_usual]
  simp only [ContentSecurity.commit, FormForgery.commit, hn, ht, Response.addFunction, Page.told]

end Settings

namespace Service

open Settings FormForgery

variable {s : Service} {key : Bytes} {request : Request} {world : World} {r : Route}
  {captures : Captures} {page : Page} {left : Context}

/-- The response of a request before it is rendered. -/
def response (s : Service) (request : Request) (world : World) : Response :=
  let target := Target.lookup s.routes request
  (target.run s.interceptors (.ofRequest request target.captures world)).1

/-- The response is what the run of the target gives. -/
theorem response_eq (s : Service) (request : Request) (world : World) :
    s.response request world = ((Target.lookup s.routes request).run s.interceptors
      (.ofRequest request (Target.lookup s.routes request).captures world)).1 := rfl

/-- The body of a reply is what its response is rendered to, if it can be rendered. -/
theorem body_of_render {rendering : Rendering}
    (h : s.renderer (s.response request world) = .ok rendering) :
    (s.serve request world).1.body = rendering.body := by
  have hsafely : renderSafely s.renderer (s.response request world) = (rendering, []) := by
    rw [renderSafely, h]
  exact congrArg (fun p => p.1.body) hsafely

/-- What reaches a handler is prepared. -/
theorem exists_prepared (hi : Settings.interceptors {} key = .ok s.interceptors)
    (hh : s.Handled request world) :
    ∃ nonce client, Prepared ⟨key⟩ request world (Target.lookup s.routes request).configs
      (s.passage request world).context nonce client := by
  have hp := hh.passed
  rw [interceptors_eq_usual hi] at hp
  exact Settings.exists_prepared hp

/-- A run in which the handler answers with a page ends with this page, told the nonce and the token. -/
theorem run_of_page {nonce token : String} (hi : Settings.interceptors {} key = .ok s.interceptors)
    (hh : s.Handled request world) (hl : Target.lookup s.routes request = .route r captures)
    (hpage : r.handler (s.passage request world).context = (.page page, left))
    (hn : left.nonce? = some nonce) (ht : left.token? = some token) :
    (Target.lookup s.routes request).run s.interceptors
        (.ofRequest request (Target.lookup s.routes request).captures world) =
      (.page (page.told nonce token), left) := by
  have hanswer : (Target.lookup s.routes request).answer (s.passage request world).context =
      (.page page, left) := by
    rw [hl]
    exact hpage
  rw [Target.run_of_passed hh.passed, hanswer, interceptors_eq_usual hi]
  exact finish_page _ _ page hn ht

/-- The content policies of a reply on a route, of which the first names the nonce. -/
def policyTexts (nonce : String) (configs : Configs) : List String :=
  ["object-src 'none'; script-src 'unsafe-inline' 'nonce-" ++ nonce ++
      "' 'strict-dynamic' https: http:; base-uri 'none'",
    "require-trusted-types-for 'script'"] ++ (FramingPolicy.serialize {} configs).toList

/-- The strict policy names the nonce. -/
theorem strict_serialize (nonce : String) :
    StrictPolicy.serialize {} nonce = "object-src 'none'; script-src 'unsafe-inline' 'nonce-" ++ nonce ++
      "' 'strict-dynamic' https: http:; base-uri 'none'" := by
  have hs : StrictPolicy.serialize {} nonce = "object-src 'none'; script-src " ++
      ("'unsafe-inline' 'nonce-" ++ nonce ++ "'" ++ " 'strict-dynamic'" ++ "") ++
      " https: http:; base-uri " ++ "'none'" := rfl
  have hfront : "object-src 'none'; script-src 'unsafe-inline' 'nonce-" =
      "object-src 'none'; script-src " ++ "'unsafe-inline' 'nonce-" := rfl
  have hback : "' 'strict-dynamic' https: http:; base-uri 'none'" =
      "'" ++ (" 'strict-dynamic'" ++ ("" ++ (" https: http:; base-uri " ++ "'none'"))) := rfl
  rw [hs, hfront, hback]
  simp only [String.append_assoc]

/-- The policies that the usual interceptors enforce, unless the route has none. -/
theorem enforced_extendAll (nonce : String) (configs : Configs) :
    (ContentSecurity.extendAll (policyLists {}) configs (ContentSecurity.fresh nonce)).enforced =
      if configs.has .withoutPolicies then [] else policyTexts nonce configs := by
  have hlists : (policyLists {}).flatten =
      [StrictPolicy.policy {}, TrustedTypesPolicy.policy {}, FramingPolicy.policy {}] := rfl
  have hall : ∀ p ∈ (policyLists {}).flatten, (!p.reportOnly) = true := by
    rw [hlists]
    simp [StrictPolicy.policy, TrustedTypesPolicy.policy, FramingPolicy.policy]
  have htexts : ContentSecurity.texts ((policyLists {}).flatten.filter fun p => !p.reportOnly) nonce
      configs = policyTexts nonce configs := by
    rw [List.filter_eq_self.2 hall, hlists, policyTexts, ← strict_serialize]
    cases hf : FramingPolicy.serialize {} configs <;>
      simp [ContentSecurity.texts, StrictPolicy.policy, TrustedTypesPolicy.policy,
        FramingPolicy.policy, ContentPolicy.withReports, hf]
  rw [ContentSecurity.extendAll_fresh, htexts]

/-! ### The page -/

/-- What the interceptors have left is still there behind a handler that spares it. -/
theorem told_of_spares {nonce client : String} {configs : Configs} {ctx : Context} {handler : Handler}
    (h : Prepared ⟨key⟩ request world configs ctx nonce client) (hs : handler.Spares) :
    (handler ctx).2.nonce? = some nonce ∧
      (handler ctx).2.token? =
        some (Token.issue ⟨key⟩ client (Host.normalize request.host) world.millis) := by
  constructor
  · rw [Context.nonce?, hs.policies, h.policies.kept, ContentSecurity.extendAll_fresh]
    rfl
  · rw [Context.token?, hs.token]
    exact h.issued

/-- The response of a page whose handler leaves what the library keeps. -/
theorem response_of_prepared {nonce client : String} {configs : Configs}
    (hi : Settings.interceptors {} key = .ok s.interceptors) (hh : s.Handled request world)
    (hl : Target.lookup s.routes request = .route r captures) (hs : r.handler.Spares)
    (hp : Prepared ⟨key⟩ request world configs (s.passage request world).context nonce client)
    (hpage : (r.handler (s.passage request world).context).1 = .page page) :
    s.response request world = .page (page.told nonce
      (Token.issue ⟨key⟩ client (Host.normalize request.host) world.millis)) := by
  obtain ⟨hn, ht⟩ := told_of_spares hp hs
  exact congrArg Prod.fst (run_of_page hi hh hl (Prod.ext hpage rfl) hn ht)

/-- A page that is told what the interceptors have left is told what needs no escaping. -/
theorem tells_of_prepared {nonce client : String} {configs : Configs} {ctx : Context}
    (h : Prepared ⟨key⟩ request world configs ctx nonce client) (page : Page) :
    (page.told nonce (Token.issue ⟨key⟩ client (Host.normalize request.host)
      world.millis)).functions.Tells nonce
        (Token.issue ⟨key⟩ client (Host.normalize request.host) world.millis) := by
  obtain ⟨bytes, rfl⟩ := h.drawn
  obtain ⟨hnonce, htoken, -⟩ := page.get?_told (ContentSecurity.nonceOf bytes)
    (Token.issue ⟨key⟩ client (Host.normalize request.host) world.millis)
  exact ⟨hnonce, htoken, ContentSecurity.escape_nonceOf bytes, Token.escape_issue _ _ _ _⟩

/-- The policies that were written are in the reply and in its lines. -/
theorem policies_of_prepared {nonce client : String} {ctx : Context}
    (hi : Settings.interceptors {} key = .ok s.interceptors)
    (ho : ∀ r ∈ s.routes, r.handler.Leaves [ContentSecurity.enforcedHeader])
    (hctx : (s.passage request world).context = ctx) (h : Prepared ⟨key⟩ request world r.configs ctx nonce client) :
    let texts := if r.configs.has .withoutPolicies then [] else policyTexts nonce r.configs
    (s.serve request world).1.headers.getAll ContentSecurity.enforcedHeader = texts ∧
      Headers.getAll ⟨(s.serve request world).1.lines⟩ ContentSecurity.enforcedHeader = texts := by
  intro texts
  have hcommit : ∀ i ∈ s.interceptors, i.LeavesCommit [ContentSecurity.enforcedHeader] := by
    intro i hm
    rcases interceptors_cases hi i hm with hs | ⟨policies, rfl⟩
    · exact hs.respectsCommit.leaves _
    · exact fun _ _ _ => .refl _ _
  have hpinned := h.policies.enforced
  have hlines := h.policies.ready.enforced
  rw [enforced_extendAll] at hpinned hlines
  have hname : checkName ContentSecurity.enforcedHeader = .ok () :=
    checkName_eq_ok_iff.2 (by decide)
  rw [← hctx] at hpinned
  exact getAll_serve_of_pinned hcommit ho List.mem_cons_self (by decide) ⟨hname, hlines⟩ hpinned

/-- Pages carry the nonce and the token of their response. When a handler that leaves the header of content
policies, and what the library keeps with the request, answers with a page whose template was written
into, then this page is told a nonce and a token, in place of what the handler has told it
under their names. It cannot fail for want of them; and if it is rendered then every nonce that was
written is this nonce and every field this token. The content policies name the nonce, unless the route is
without policies; and the token is good at the time of the request for its host and its client, whose
cookie came with the request or is queued for the response, unless the clock is at the end of time. -/
theorem pages_carry_nonce_and_token {w : Insertions} {source : String}
    (hi : Settings.interceptors {} key = .ok s.interceptors) (hrender : s.renderer = render)
    (hr : ∀ r ∈ s.routes, r.handler.Leaves [ContentSecurity.enforcedHeader] ∧ r.handler.Spares)
    (hh : s.Handled request world)
    (hl : Target.lookup s.routes request = .route r captures)
    (ht : Template.parseInjected w source = .ok page.template)
    (hpage : (r.handler (s.passage request world).context).1 = .page page) :
    let reply := (s.serve request world).1
    ∃ nonce token client,
      s.response request world = .page (page.told nonce token) ∧
      (∀ name, render (s.response request world) = .error (.page (.unknownFunction name)) →
        name ≠ nonceFunction ∧ name ≠ tokenFunction) ∧
      (∀ rendering, render (s.response request world) = .ok rendering →
        ∃ ps parts text, Cut source.toList ps ∧ Template.Reads source.toList parts ∧
          Template.Inlaid page.data (page.told nonce token).functions nonce token 0 (marks w 0 ps) parts
            text ∧
          reply.body = Text.encode text) ∧
      (r.configs.has .withoutPolicies = false →
        reply.headers.getAll ContentSecurity.enforcedHeader = policyTexts nonce r.configs ∧
          Headers.getAll ⟨reply.lines⟩ ContentSecurity.enforcedHeader =
            policyTexts nonce r.configs) ∧
      Identified request (s.passage request world).context.headers client ∧
      (world.millis < largest64 →
        Token.check ⟨key⟩ token client (Host.normalize request.host) world.millis = .ok ()) := by
  intro reply
  have hmem := Target.mem_of_lookup hl
  obtain ⟨nonce, client, hp⟩ := exists_prepared hi hh
  have hconfigs : (Target.lookup s.routes request).configs = r.configs := by rw [hl]; rfl
  rw [hconfigs] at hp
  have hresponse := response_of_prepared hi hh hl (hr r hmem).2 hp hpage
  have htells := tells_of_prepared hp page
  refine ⟨nonce, _, client, hresponse, ?_, ?_, ?_, hp.identified, ?_⟩
  · intro name herror
    rw [hresponse] at herror
    exact page.not_unknown herror
  · intro rendering hrendering
    have hbody := body_of_render (hrender ▸ hrendering)
    rw [hresponse] at hrendering
    obtain ⟨ps, parts, text, hc, hparts, hinlaid, htext⟩ := page.inlaid_of_render htells ht hrendering
    exact ⟨ps, parts, text, hc, hparts, hinlaid, hbody.trans htext⟩
  · intro hpolicies
    have hwritten := policies_of_prepared hi (fun r hm => (hr r hm).1) rfl hp
    simpa only [hpolicies, Bool.false_eq_true, if_false] using hwritten
  · intro htime
    have htimely : Token.Timely world.millis world.millis :=
      Token.timely_of_le world.millis_le (by omega) (by omega) htime
    exact (Token.check_issue_eq_ok_iff _ _ _ _ _ _ world.millis_le).2 ⟨htimely, rfl⟩

end Service

/-! A page with a form and a script. Where the main statement has a condition, the page carries a nonce
that no policy names, or a token that is good for nobody, or is not rendered at all. -/

namespace Greeting

open Service

/-- The source of the page. -/
def source : String := "<form><script></script>"

/-- The page, with what is written into it. -/
def page : Page where
  template := ⟨[.text "<form><input type=\"hidden\" name=\"xsrf-token\" value=\"".toList,
    .function tokenFunction, .text "\"><script nonce=\"".toList, .function nonceFunction,
    .text "\"></script>".toList]⟩
  data := .null
  functions := .empty

/-- A handler that answers with the page and does this to the context. -/
def answering (change : Context → Context) : Handler := fun ctx => (.page page, change ctx)

/-- The page on a route with these settings, behind the usual interceptors. -/
def service (configs : Configs) (change : Context → Context) : Service where
  renderer := render
  interceptors := Settings.usual ⟨[1]⟩
  routes := [.ofText "/" .get (answering change) configs]
  distinct := Route.duplicate?_eq_none_iff.2 (by simp)

/-- A request for the page, over an encrypted connection. -/
def request : Request := ⟨.get, "/", none, 1, ⟨[⟨"Host", "h"⟩]⟩, [], true⟩

/-- A world at this time. -/
def world (clock : Nat) : World := ⟨clock, fun _ => 0, 0, []⟩

/-- Routes and times: a plain route, one without policies, and the end of time. -/
def places : List (Configs × Nat) := [(⟨[]⟩, 0), (⟨[.withoutPolicies]⟩, 0), (⟨[]⟩, largest64)]

variable {configs : Configs} {clock : Nat} {change : Context → Context} {nonce token : String}

/-- The source is parsed with its marks. -/
theorem parsed : Template.parseInjected {} source = .ok page.template := by decide +kernel

/-- A token is written behind the form, and a nonce into the script. -/
theorem marks_of_cut {ps : List Piece} (hc : Cut source.toList ps) :
    marks {} 0 ps = [(6, tokenText), (13, nonceText)] := by
  have h : (Markup.pieces source.toList).map (marks {} 0) =
      .ok [(6, tokenText), (13, nonceText)] := by decide +kernel
  rw [pieces_eq_ok_iff.2 hc] at h
  exact Except.ok.inj h

/-- The interceptors are the usual ones. -/
theorem interceptors_eq : Settings.interceptors {} [1] = .ok (service configs change).interceptors := rfl

/-- The request finds the route of the page. -/
theorem lookup_eq : Target.lookup (service configs change).routes request =
    .route (.ofText "/" .get (answering change) configs) .empty := rfl

/-- The request reaches the handler. -/
theorem handled (hp : (configs, clock) ∈ places) (change : Context → Context) :
    (service configs change).Handled request (world clock) := by
  have hpasses : ∀ p ∈ places, (Passage.follow p.1 [] (.ofRequest request .empty (world p.2))
      (Settings.usual ⟨[1]⟩)).answer.isNone = true := by decide +kernel
  exact ⟨Option.isNone_iff_eq_none.1 (hpasses _ hp), _, _, lookup_eq⟩

/-- A handler that leaves what is kept spares it. -/
theorem spares_of_eq (h : ∀ ctx, (change ctx).extensions = ctx.extensions) :
    (answering change).Spares :=
  ⟨fun ctx => by rw [answering, h], fun ctx => by rw [answering, h]⟩

/-- The page with what is filled in. -/
def markup (nonce token : List Char) : List Char :=
  "<form><input type=\"hidden\" name=\"xsrf-token\" value=\"".toList ++ (token ++
    ("\"><script nonce=\"".toList ++ (nonce ++ ("\"></script>".toList ++ []))))

/-- The page renders to its markup, with the two values as they are shown. -/
theorem render_page {fs : Template.Functions} {shownNonce shownToken : List Char}
    (hn : Template.fillNode .null fs (.function nonceFunction) = .ok shownNonce)
    (ht : Template.fillNode .null fs (.function tokenFunction) = .ok shownToken) :
    render (.page { page with functions := fs }) =
      .ok (Rendering.ofText .ok Rendering.htmlType (markup shownNonce shownToken)) := by
  have hnodes : ∀ first second third, Template.fillNodes .null fs [.text first,
      .function tokenFunction, .text second, .function nonceFunction, .text third] =
        .ok (first ++ (shownToken ++ (second ++ (shownNonce ++ (third ++ []))))) := by
    intro first second third
    have htext : ∀ text, Template.fillNode .null fs (.text text) = .ok text := fun _ => rfl
    simp only [Template.fillNodes, htext, hn, ht]
  have hpage : Template.fillNodes .null fs page.template.nodes =
      .ok (markup shownNonce shownToken) := hnodes _ _ _
  have hfill : page.template.fill .null fs = .ok ⟨String.ofList (markup shownNonce shownToken)⟩ := by
    rw [Template.fill, hpage]
    rfl
  have hrender : render (.page { page with functions := fs }) = .ok (Rendering.ofText .ok
      Rendering.htmlType (String.ofList (markup shownNonce shownToken)).toList) := by
    rw [render, show page.data = .null from rfl, hfill]
  rwa [String.toList_ofList] at hrender

/-- The page carries a nonce and a token where nothing interferes. -/
theorem carries_both :
    ∃ nonce token client parts text,
      Template.Inlaid .null (page.told nonce token).functions nonce token 0
        [(6, tokenText), (13, nonceText)] parts text ∧
      ((service ⟨[]⟩ id).serve request (world 0)).1.body = Text.encode text ∧
      ((service ⟨[]⟩ id).serve request (world 0)).1.headers.getAll ContentSecurity.enforcedHeader =
        policyTexts nonce ⟨[]⟩ ∧
      Token.check ⟨[1]⟩ token client (Host.normalize request.host) 0 = .ok () := by
  have hr : ∀ r ∈ (service ⟨[]⟩ id).routes,
      r.handler.Leaves [ContentSecurity.enforcedHeader] ∧ r.handler.Spares := by
    intro r hm
    obtain rfl := List.mem_singleton.1 hm
    exact ⟨fun ctx => .refl _ ctx.headers, spares_of_eq fun _ => rfl⟩
  have hh := @handled ⟨[]⟩ 0 (by simp [places]) id
  obtain ⟨nonce, token, client, hresponse, -, hbody, hpolicies, -, hcheck⟩ :=
    pages_carry_nonce_and_token interceptors_eq rfl hr hh lookup_eq parsed rfl
  obtain ⟨hnonce, htoken, -⟩ := page.get?_told nonce token
  have hn : Template.fillNode .null (page.told nonce token).functions (.function nonceFunction) =
      .ok (escape nonce.toList) := by simp only [Template.fillNode, hnonce]
  have ht : Template.fillNode .null (page.told nonce token).functions (.function tokenFunction) =
      .ok (escape token.toList) := by simp only [Template.fillNode, htoken]
  have hrender : render (.page (page.told nonce token)) = _ := render_page hn ht
  rw [← hresponse] at hrender
  obtain ⟨ps, parts, text, hc, -, hinlaid, htext⟩ := hbody _ hrender
  rw [marks_of_cut hc] at hinlaid
  have htime : (world 0).millis < largest64 := by decide
  exact ⟨nonce, token, client, parts, text, hinlaid, htext, (hpolicies rfl).1, hcheck htime⟩

/-- The page with its nonce and its token, if the handler leaves the extensions of the context. -/
theorem exists_markup (hp : (configs, clock) ∈ places)
    (hs : ∀ ctx, (change ctx).extensions = ctx.extensions) :
    ∃ nonce client, Settings.Prepared ⟨[1]⟩ request (world clock) configs
        ((service configs change).passage request (world clock)).context nonce client ∧
      ((service configs change).serve request (world clock)).1.body = Text.encode (markup nonce.toList
        (Token.issue ⟨[1]⟩ client (Host.normalize request.host) (world clock).millis).toList) := by
  have hh := handled hp change
  obtain ⟨nonce, client, hprepared⟩ := exists_prepared interceptors_eq hh
  have hresponse := response_of_prepared interceptors_eq hh lookup_eq (spares_of_eq hs) hprepared rfl
  have htells := tells_of_prepared hprepared page
  have hrender : render (.page (page.told nonce _)) = _ :=
    render_page htells.fillNode_nonce htells.fillNode_token
  rw [← hresponse] at hrender
  have hbody := body_of_render (show (service configs change).renderer _ = _ from hrender)
  exact ⟨nonce, client, hprepared, hbody⟩

/-- The run of the page, whatever the handler does to the context. -/
theorem run_eq (hp : (configs, clock) ∈ places) (change : Context → Context) :
    (Target.lookup (service configs change).routes request).run (service configs change).interceptors
        (.ofRequest request (Target.lookup (service configs change).routes request).captures
          (world clock)) =
      Passage.finish configs (.page page)
        (change ((service configs change).passage request (world clock)).context)
        (Settings.usual ⟨[1]⟩).reverse := by
  have hrun := Target.run_of_passed (handled hp change).passed
  rw [lookup_eq] at hrun ⊢
  exact hrun

/-- A context without the values that are kept with the request. -/
def forgotten (ctx : Context) : Context := { ctx with extensions := .empty }

/-- A page that finds nothing kept is sent as the handler has made it. -/
theorem response_of_forgotten : (service ⟨[]⟩ forgotten).response request (world 0) = .page page := by
  have hnonce : ∀ ctx, ContentSecurity.commit (.page page) (forgotten ctx) = .page page := fun _ => rfl
  have htoken : ∀ ctx, FormForgery.commit (.page page) (forgotten ctx) = .page page := fun _ => rfl
  rw [response_eq, run_eq (by simp [places]), Settings.finish_usual, htoken, hnonce, hnonce]

/-- With fresh headers the reply has no policies. -/
theorem policies_of_clear : ((service ⟨[]⟩ .clear).serve request (world 0)).1.headers.getAll
    ContentSecurity.enforcedHeader = [] := by
  have hfields := (service ⟨[]⟩ .clear).fieldsOf_serve request (world 0)
    (show Kept ContentSecurity.enforcedHeader by decide)
  have hrun := @run_eq ⟨[]⟩ 0 (by simp [places]) .clear
  rw [Settings.finish_usual] at hrun
  have hempty := congrArg (fun p => p.2.headers.headers.fieldsOf ContentSecurity.enforcedHeader) hrun
  have hnone : Headers.fieldsFor ContentSecurity.enforcedHeader [] = [] := rfl
  exact Headers.getAll_of_fieldsOf ((hfields.trans hempty).trans hnone.symm)

/-- The page on a route without policies, at the end of time, and behind handlers that replace what is
kept with the request or all headers. -/
theorem carried_in_vain :
    (∃ nonce token : String,
      ((service ⟨[.withoutPolicies]⟩ id).serve request (world 0)).1.body =
        Text.encode (markup nonce.toList token.toList) ∧
      ((service ⟨[.withoutPolicies]⟩ id).serve request (world 0)).1.headers.getAll
        ContentSecurity.enforcedHeader = []) ∧
    (∃ nonce token : String,
      ((service ⟨[]⟩ id).serve request (world largest64)).1.body =
        Text.encode (markup nonce.toList token.toList) ∧
      ∀ user action, Token.check ⟨[1]⟩ token user action (world largest64).millis ≠ .ok ()) ∧
    render ((service ⟨[]⟩ forgotten).response request (world 0)) =
      .error (.page (.unknownFunction tokenFunction)) ∧
    ∃ nonce token : String,
      ((service ⟨[]⟩ .clear).serve request (world 0)).1.body =
        Text.encode (markup nonce.toList token.toList) ∧
      ((service ⟨[]⟩ .clear).serve request (world 0)).1.headers.getAll
        ContentSecurity.enforcedHeader = [] := by
  have ho : ∀ configs, ∀ r ∈ (service configs id).routes,
      r.handler.Leaves [ContentSecurity.enforcedHeader] := by
    intro configs r hm
    obtain rfl := List.mem_singleton.1 hm
    exact fun ctx => .refl _ ctx.headers
  refine ⟨?_, ?_, ?_, ?_⟩
  · obtain ⟨nonce, client, hp, hbody⟩ := @exists_markup ⟨[.withoutPolicies]⟩ 0 id (by simp [places])
      fun _ => rfl
    have hr : (Route.ofText "/" .get (answering id) ⟨[.withoutPolicies]⟩).configs =
      ⟨[.withoutPolicies]⟩ := rfl
    rw [← hr] at hp
    exact ⟨nonce, _, hbody, (policies_of_prepared interceptors_eq (ho _) rfl hp).1⟩
  · obtain ⟨nonce, client, -, hbody⟩ := @exists_markup ⟨[]⟩ largest64 id (by simp [places]) fun _ => rfl
    refine ⟨nonce, _, hbody, fun user action hc => ?_⟩
    have htimely := ((Token.check_issue_eq_ok_iff _ _ _ _ _ _ (World.millis_le _)).1 hc).1
    exact absurd htimely (by decide +kernel)
  · rw [response_of_forgotten]
    rfl
  · obtain ⟨nonce, client, -, hbody⟩ := @exists_markup ⟨[]⟩ 0 .clear (by simp [places]) fun _ => rfl
    exact ⟨nonce, _, hbody, policies_of_clear⟩

end Greeting

end Palisade
