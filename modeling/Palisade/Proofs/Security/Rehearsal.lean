import Palisade.Proofs.Security.Recording
import Palisade.Proofs.Service.Trace

/-!
# Measuring isolation before it is enforced

Which requests of other sites reach a handler where the isolation is enforced, and what a service does
that only records violations. The main statement compares three services that differ in this interceptor
alone: one enforces it, one rehearses it, and one is without it. What a rehearsal records is what
enforcement refuses, and nothing else changes. For this the other interceptors and the handlers must not
depend on what is recorded; those of the library do not. The interceptor stands at any place.
-/
namespace Palisade

namespace FetchMetadata

variable {f : FetchMetadata} {configs : Configs} {ctx next : Context} {r : Request}

/-! ### Requests of other sites -/

/-- What a request says of its site if it comes from the own one, or from none. -/
def ownSites : List String := ["same-origin", "same-site", "none"]

/-- The request says that it comes from another site. Of several headers the first counts. -/
def Foreign (r : Request) : Prop :=
  ∃ site, r.headers.get? siteHeader = some site ∧ site ∉ ownSites

/-- What other sites may do. -/
inductive Tolerated (f : FetchMetadata) (r : Request) : Prop where
  /-- They link here, but embed nothing. -/
  | navigation (mode : r.headers.get? modeHeader = some "navigate") (get : r.method = .get)
      (destination : r.headers.get? destinationHeader ∉ [some "object", some "embed"])
      (linked : f.navigationIsolation = false)
  /-- They send requests to endpoints that are open to them. -/
  | endpoint (mode : r.headers.get? modeHeader = some "cors") (path : r.path ∈ f.corsEndpoints)

/-- The request is one of another site that the interceptor does not let pass on the route. -/
structure Breaks (f : FetchMetadata) (configs : Configs) (r : Request) : Prop where
  foreign : Foreign r
  notExempt : .anySite ∉ configs.items
  notTolerated : ¬ Tolerated f r

/-- A value that is not empty is that of a header. -/
theorem valueOf_eq_iff (r : Request) (name : String) {value : String} (hv : value ≠ "") :
    valueOf r name = value ↔ r.headers.get? name = some value := by
  unfold valueOf
  cases r.headers.get? name with
  | none => simp [hv.symm]
  | some found => simp

/-- A destination embeds only if it is one of two. -/
theorem isEmbedding_eq_false_iff :
    isEmbedding (valueOf r destinationHeader) = false ↔
      r.headers.get? destinationHeader ∉ [some "object", some "embed"] := by
  have ho := valueOf_eq_iff r destinationHeader (show "object" ≠ "" by decide)
  have he := valueOf_eq_iff r destinationHeader (show "embed" ≠ "" by decide)
  simp only [isEmbedding, Bool.or_eq_false_iff, beq_eq_false_iff_ne, ne_eq, ho, he,
    List.mem_cons, List.not_mem_nil, or_false, not_or]

/-- A request of another site breaks no rule exactly if it is tolerated. -/
theorem foreignViolation?_eq_none_iff : f.foreignViolation? r = none ↔ Tolerated f r := by
  have hnav := valueOf_eq_iff r modeHeader (show "navigate" ≠ "" by decide)
  have hcors := valueOf_eq_iff r modeHeader (show "cors" ≠ "" by decide)
  have hdest := isEmbedding_eq_false_iff (r := r)
  simp only [foreignViolation?, hnav, hcors]
  constructor
  · intro h
    split at h
    · rename_i hmode
      split at h
      · cases h
      · rename_i hiso
        split at h
        · rename_i hget
          exact .navigation hmode hget.1 (hdest.1 (by simpa using hget.2)) (by simpa using hiso)
        · cases h
    · split at h
      · rename_i hc
        exact .endpoint hc.1 (by simpa using hc.2)
      · cases h
  · intro h
    cases h with
    | navigation mode get destination linked =>
      simp [mode, get, linked, hdest.2 destination]
    | endpoint mode path => simp [mode, path]

/-- The own sites are three. -/
theorem isOwnSite_iff (site : String) : isOwnSite site = true ↔ site ∈ ownSites := by
  simp only [isOwnSite, ownSites, Bool.or_eq_true, beq_iff_eq, or_assoc, List.mem_cons,
    List.not_mem_nil, or_false]

/-- A request that breaks no rule is none of another site, or one that is tolerated. -/
theorem violation?_eq_none_iff : f.violation? r = none ↔ (Foreign r → Tolerated f r) := by
  unfold violation?
  cases hs : r.headers.get? siteHeader with
  | none =>
    refine ⟨fun _ ⟨site, hsome, _⟩ => ?_, fun _ => rfl⟩
    rw [hs] at hsome
    cases hsome
  | some site =>
    have hforeign : Foreign r ↔ site ∉ ownSites := by simp [Foreign, hs]
    rw [hforeign, ← isOwnSite_iff]
    by_cases ho : isOwnSite site = true
    · simp [ho]
    · simp [ho, foreignViolation?_eq_none_iff]

/-! ### Enforcing and rehearsing -/

/-- The same rules, enforced. -/
def enforcing (f : FetchMetadata) : FetchMetadata := { f with reportOnly := false }

/-- The same rules, whose violations are only recorded. -/
def rehearsing (f : FetchMetadata) : FetchMetadata := { f with reportOnly := true }

/-- A request passes unchanged in both modes, or it breaks a rule. Then both modes record this, and the
one that enforces the rules refuses the request. -/
theorem before_modes (f : FetchMetadata) (configs : Configs) (ctx : Context) :
    (¬ Breaks f configs ctx.request ∧ f.enforcing.interceptor.before configs ctx = (.pass, ctx) ∧
        f.rehearsing.interceptor.before configs ctx = (.pass, ctx)) ∨
      Breaks f configs ctx.request ∧ ∃ rule, f.violation? ctx.request = some rule ∧
        f.enforcing.interceptor.before configs ctx =
          (.reject .forbidden, ctx.record (f.enforcing.event ctx.request rule)) ∧
        f.rehearsing.interceptor.before configs ctx =
          (.pass, ctx.record (f.rehearsing.event ctx.request rule)) := by
  have he : f.enforcing.violation? ctx.request = f.violation? ctx.request := rfl
  have hr : f.rehearsing.violation? ctx.request = f.violation? ctx.request := rfl
  by_cases hc : .anySite ∈ configs.items
  · have hhas : configs.has .anySite = true := by simpa [Configs.has] using hc
    refine .inl ⟨fun h => h.notExempt hc, ?_⟩
    simp only [interceptor, hhas, if_true, and_self]
  · have hhas : configs.has .anySite = false := by simpa [Configs.has] using hc
    cases hv : f.violation? ctx.request with
    | none =>
      refine .inl ⟨fun h => h.notTolerated (violation?_eq_none_iff.1 hv h.foreign), ?_⟩
      simp only [interceptor, hhas, he, hr, hv, Bool.false_eq_true, if_false, and_self]
    | some rule =>
      have hbroken : ¬ (Foreign ctx.request → Tolerated f ctx.request) := by
        rw [← violation?_eq_none_iff, hv]
        exact Option.some_ne_none rule
      obtain ⟨hforeign, htol⟩ := Classical.not_imp.1 hbroken
      refine .inr ⟨⟨hforeign, hc, htol⟩, rule, rfl, ?_⟩
      simp only [interceptor, hhas, he, hr, hv, Bool.false_eq_true, if_false]
      exact ⟨rfl, rfl⟩

/-- A request that the interceptors in front have passed on is refused where the rules are enforced. -/
def RefusedAt (f : FetchMetadata) (configs : Configs) (front : List Interceptor)
    (received next : Context) : Prop :=
  Passed configs front received next ∧
    ∃ response after, f.enforcing.interceptor.before configs next = (.respond response, after)

/-- Refused are the requests that break a rule. -/
theorem refusedAt_iff {front : List Interceptor} {received : Context} :
    RefusedAt f configs front received next ↔
      Passed configs front received next ∧ Breaks f configs next.request := by
  refine and_congr_right fun _ => ?_
  rcases before_modes f configs next with ⟨hn, he, -⟩ | ⟨hb, rule, -, he, -⟩
  · rw [he]
    refine ⟨fun ⟨response, after, h⟩ => ?_, fun h => absurd h hn⟩
    cases h
  · exact ⟨fun _ => hb, fun _ => ⟨_, _, he⟩⟩

end FetchMetadata

namespace Service

/-- What becomes of a response does not depend on the journal. -/
theorem conclude_behind (s : Service) (request : Request) (response : Response) (ctx : Context)
    (past : List Entry) :
    s.conclude request (response, ctx.behind past) =
      ((s.conclude request (response, ctx)).1,
        { (s.conclude request (response, ctx)).2 with
          journal := past ++ (s.conclude request (response, ctx)).2.journal }) := by
  simp only [conclude, encode, Context.behind, World.recordAll, World.record, World.write,
    List.append_assoc]

/-- A run with an entry in the middle of its journal becomes the same reply, and leaves the same world
but for the entry. -/
theorem conclude_of_inserts (s : Service) (request : Request) (response : Response) {entry : Entry}
    {earlier : List Entry} {plain noted : Context} (h : plain.Inserts entry earlier noted) :
    ∃ later, (s.conclude request (response, plain)).2.journal = earlier ++ later ∧
      s.conclude request (response, noted) =
        ((s.conclude request (response, plain)).1,
          { (s.conclude request (response, plain)).2 with journal := earlier ++ entry :: later }) := by
  obtain ⟨rest, rfl, rfl⟩ := h
  refine ⟨(s.conclude request (response, rest)).2.journal, ?_, ?_⟩
  · rw [conclude_behind]
  · rw [conclude_behind, conclude_behind, List.append_assoc]
    rfl

end Service

namespace FetchMetadata

/-- What a rehearsal of the rules tells of their enforcement, for every request, wherever the interceptor
stands and whatever the route. Where the rules are enforced, a handler runs for a request of another site,
on a route that is not exempt, only if the request is tolerated. If the rules refuse nothing, be it that
the request never gets there, then a service that rehearses them serves it as one that enforces them, and
as one without them: reply, journal and all. If they refuse it then the rehearsal gives the reply of the
service without them and leaves the same world, but for one warning in the journal, which stands behind
what the interceptors in front have recorded. Interceptors in front that leave the request as it is have
passed on the one that was received. -/
theorem rehearsal_shows_enforcement (s : Service) (f : FetchMetadata) (front back : List Interceptor)
    (request : Request) (world : World) :
    let target := Target.lookup s.routes request
    let received := Context.ofRequest request target.captures world
    let plain := s.withInterceptors (front ++ back)
    let enforced := s.withInterceptors (front ++ f.enforcing.interceptor :: back)
    let rehearsed := s.withInterceptors (front ++ f.rehearsing.interceptor :: back)
    (enforced.Handled request world → ∃ next, Passed target.configs front received next ∧
      (Foreign next.request → .anySite ∉ target.configs.items → Tolerated f next.request)) ∧
    ((∀ next, ¬ RefusedAt f target.configs front received next) →
      rehearsed.serve request world = enforced.serve request world ∧
        rehearsed.serve request world = plain.serve request world) ∧
    ((∀ i ∈ front ++ back, i.Blind) → (∀ r ∈ s.routes, Blind r.handler) →
      ∀ next, RefusedAt f target.configs front received next → ∃ rule later,
        f.violation? next.request = some rule ∧
          (plain.serve request world).2.journal = next.world.journal ++ later ∧
          rehearsed.serve request world = ((plain.serve request world).1,
            { (plain.serve request world).2 with
              journal := next.world.journal ++
                .event (f.rehearsing.event next.request rule) :: later })) ∧
    ∀ next, Passed target.configs front received next → (∀ i ∈ front, i.KeepsRequest) →
      next.request = request := by
  intro target received plain enforced rehearsed
  refine ⟨?_, ?_, ?_, fun next hp hk => hp.request_eq hk⟩
  · intro hh
    obtain ⟨next, hfront, hrest⟩ := hh.passed.of_append
    refine ⟨next, hfront, fun hforeign hexempt => ?_⟩
    by_contra hn
    obtain ⟨-, response, after, hb⟩ := refusedAt_iff.2 ⟨hfront, hforeign, hexempt, hn⟩
    obtain ⟨last, hpass⟩ := hrest.before_eq
    cases hpass.symm.trans hb
  · intro hn
    rcases target.passed_or_run_eq front received with ⟨next, hp⟩ | hrun
    · have hok : ¬ Breaks f target.configs next.request := fun h => hn next (refusedAt_iff.2 ⟨hp, h⟩)
      rcases before_modes f target.configs next with ⟨-, he, hr⟩ | ⟨hb, -⟩
      · have henforced := Target.run_idle hp he (fun _ _ => rfl) back
        have hrehearsed := Target.run_idle hp hr (fun _ _ => rfl) back
        exact ⟨Service.serve_congr (hrehearsed.trans henforced.symm), Service.serve_congr hrehearsed⟩
      · exact absurd hb hok
    · exact ⟨Service.serve_congr ((hrun _).trans (hrun _).symm),
        Service.serve_congr ((hrun _).trans (hrun _).symm)⟩
  · intro hblind hroutes next href
    obtain ⟨hp, hbreaks⟩ := refusedAt_iff.1 href
    rcases before_modes f target.configs next with ⟨hn, -⟩ | ⟨-, rule, hv, -, hr⟩
    · exact absurd hbreaks hn
    · obtain ⟨hresponse, hinserts⟩ := Target.inserts_run hp hr (fun _ _ => rfl) hblind
        (Target.blind_lookup hroutes request)
      obtain ⟨later, hjournal, hserve⟩ := s.conclude_of_inserts request
        (target.run (front ++ back) received).1 hinserts
      have hrehearsed : rehearsed.serve request world = s.conclude request
          ((target.run (front ++ back) received).1,
            (target.run (front ++ f.rehearsing.interceptor :: back) received).2) := by
        rw [← hresponse]
        rfl
      exact ⟨rule, later, hv, hjournal, hrehearsed.trans hserve⟩

namespace Measured

/-- What is done with a page that is read and submitted. -/
def script : HandlerScript where
  steps := [.header (.set "Vary" "Accept"), .form "name"]
  answer := .plain

/-- A service with the page. -/
def service : Service where
  renderer := render
  interceptors := []
  routes := [.ofText "/" .get (script.handler fun _ => "") .empty,
    .ofText "/" .post (script.handler fun _ => "") .empty]
  distinct := Route.duplicate?_eq_none_iff.2 (by decide)

/-- A request that a page of another site makes by navigating here. -/
def request (method : Method) : Request :=
  ⟨method, "/", none, 1,
    ⟨[⟨"Host", "h"⟩, ⟨"Sec-Fetch-Site", "cross-site"⟩, ⟨"Sec-Fetch-Mode", "navigate"⟩]⟩, [], true⟩

/-- The world when it is received. -/
def world : World := ⟨0, fun _ => 0, 0, []⟩

/-- An interceptor that leaves notes. -/
def noting : Interceptor :=
  RecorderScript.interceptor (fun _ => "") ⟨"noting", [.get "Vary"], none, [], none⟩

/-- The interceptors in front. -/
def front : List Interceptor := [FixedHeaders.interceptor]

/-- No interceptor reads the journal. -/
theorem blind : ∀ i ∈ front ++ [noting], i.Blind := by
  simp only [front, List.singleton_append, List.forall_mem_cons, List.not_mem_nil, false_imp_iff,
    implies_true, and_true]
  exact ⟨Interceptor.Shipped.fixed.blind, RecorderScript.blind _ _⟩

/-- No handler reads the journal. -/
theorem blind_handlers : ∀ r ∈ service.routes, Blind r.handler := by
  simp only [service, List.forall_mem_cons, List.not_mem_nil, false_imp_iff, implies_true, and_true]
  exact ⟨script.blind_handler _, script.blind_handler _⟩

/-- The interceptor in front leaves the request as it is. -/
theorem keepsRequest : ∀ i ∈ front, i.KeepsRequest :=
  List.forall_mem_singleton.2 FixedHeaders.stepwise.keepsRequest

/-- The request comes from another site. -/
theorem foreign (method : Method) : Foreign (request method) := by
  have hsite : (request .get).headers.get? siteHeader = some "cross-site" := by decide
  exact ⟨"cross-site", hsite, by decide⟩

/-- The interceptor in front passes the request on. -/
theorem passes : ∃ next, Passed .empty front (.ofRequest (request .post) .empty world) next := by
  have hnone : (Passage.follow .empty [] (.ofRequest (request .post) .empty world)
      front).answer.isNone = true := by decide +kernel
  exact ⟨_, Passage.passed_of_answer_eq_none (Option.isNone_iff_eq_none.1 hnone)⟩

/-- Whoever follows a link is served alike, and a form of another site is served as if there were no
rules, but for a warning. -/
theorem links_pass_and_forms_are_recorded :
    let f : FetchMetadata := {}
    let plain := service.withInterceptors (front ++ [noting])
    let rehearsed := service.withInterceptors (front ++ f.rehearsing.interceptor :: [noting])
    Tolerated f (request .get) ∧
      rehearsed.serve (request .get) world = plain.serve (request .get) world ∧
      ∃ next rule later, RefusedAt f .empty front (.ofRequest (request .post) .empty world) next ∧
        rehearsed.serve (request .post) world = ((plain.serve (request .post) world).1,
          { (plain.serve (request .post) world).2 with
            journal := next.world.journal ++
              .event (f.rehearsing.event (request .post) rule) :: later }) := by
  intro f plain rehearsed
  obtain ⟨hgate, hsame, -, hget⟩ :=
    rehearsal_shows_enforcement service f front [noting] (request .get) world
  obtain ⟨-, -, hrecords, hpost⟩ :=
    rehearsal_shows_enforcement service f front [noting] (request .post) world
  have hhandled : (service.withInterceptors (front ++ f.enforcing.interceptor :: [noting])).Handled
      (request .get) world := by
    have hnone : ((service.withInterceptors
        (front ++ f.enforcing.interceptor :: [noting])).passage (request .get) world).answer.isNone =
          true := by decide +kernel
    exact ⟨Option.isNone_iff_eq_none.1 hnone, _, _, rfl⟩
  have htolerated : Tolerated f (request .get) := by
    obtain ⟨next, hp, ht⟩ := hgate hhandled
    rw [hget next hp keepsRequest] at ht
    exact ht (foreign .get) (by decide)
  refine ⟨htolerated, (hsame fun next href => ?_).2, ?_⟩
  · obtain ⟨hp, hb⟩ := refusedAt_iff.1 href
    rw [hget next hp keepsRequest] at hb
    exact hb.notTolerated htolerated
  · obtain ⟨next, hp⟩ := passes
    have hrequest := hpost next hp keepsRequest
    have hbreaks : Breaks f .empty (request .post) := by
      refine ⟨foreign .post, by decide, fun h => ?_⟩
      cases h with
      | navigation _ get _ _ => cases get
      | endpoint _ path => cases path
    have href : RefusedAt f .empty front (.ofRequest (request .post) .empty world) next :=
      refusedAt_iff.2 ⟨hp, hrequest ▸ hbreaks⟩
    obtain ⟨rule, later, -, -, hserve⟩ := hrecords blind blind_handlers next href
    rw [hrequest] at hserve
    exact ⟨next, rule, later, href, hserve⟩

end Measured

end FetchMetadata

end Palisade
