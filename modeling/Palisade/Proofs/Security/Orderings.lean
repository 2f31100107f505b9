import Palisade.Proofs.Security.HeaderChains
import Palisade.Proofs.Security.Owners
import Palisade.Proofs.Service.Views

/-!
# Interceptors in another order

Keepers of headers and interceptors of content policies can be put in any order, as long as no keeper
comes twice and the interceptors of policies keep their order among each other. What two such orders hand
on cannot be told apart by looking at headers by name, so the replies have the same status and body and
the same values under every name. The order of different headers in a reply may differ.
-/
namespace Palisade

open Palisade.Text ResponseHeaders

namespace HeaderLink

open ContentSecurity

variable {configs : Configs} {links others : List HeaderLink} {ctx next last : Context}

/-! ### What two orders hand on -/

/-- A pinned header is the same wherever it is pinned to the same values. -/
theorem sameAt_of_pinned {h h' : ResponseHeaders} {name : String} {values : List String}
    (hp : Pinned h name values) (hp' : Pinned h' name values) : SameAt h h' name :=
  ⟨hp'.isClaimed.trans hp.isClaimed.symm, hp'.fieldsOf.trans hp.fieldsOf.symm⟩

/-- What two chains hand on cannot be told apart if they have the same keepers, and the same policies in
the same order. A header was written by a keeper in both orders, or by nobody, or it is one of the two of
content policies. -/
theorem HandsOn.indistinct (h : HandsOn configs links ctx next) (h' : HandsOn configs others ctx last)
    (hkeepers : ∀ k ∈ keepers links, k ∈ keepers others)
    (hkeepers' : ∀ k ∈ keepers others, k ∈ keepers links)
    (hpolicies : policyLists links = policyLists others) : next.Alike last := by
  have hstate : next.extensions.get? .policies = last.extensions.get? .policies ∧
      next.world = last.world := by
    by_cases hlists : policyLists links = []
    · obtain ⟨hkept, hworld⟩ := h.unstarted hlists
      obtain ⟨hkept', hworld'⟩ := h'.unstarted (hpolicies ▸ hlists)
      exact ⟨hkept.trans hkept'.symm, hworld.trans hworld'.symm⟩
    · obtain ⟨hg, hworld⟩ := h.gathered hlists
      obtain ⟨hg', hworld'⟩ := h'.gathered (hpolicies ▸ hlists)
      rw [← hpolicies] at hg'
      exact ⟨hg.kept.trans hg'.kept.symm, hworld.trans hworld'.symm⟩
  have hslots : next.extensions = last.extensions := by
    have hget : next.extensions.get? = last.extensions.get? := by
      funext slot
      by_cases hs : slot = .policies
      · subst hs
        exact hstate.1
      · exact (h.aside.slots slot hs).trans (h'.aside.slots slot hs).symm
    exact congrArg Extensions.mk hget
  have hheaders : ∀ name, SameAt next.headers last.headers name := by
    intro name
    by_cases hwritten : ∃ k ∈ keepers links, ∃ own ∈ k.names, alike own name = true
    · obtain ⟨k, hk, own, ho, ha⟩ := hwritten
      rw [← k.names_eq configs] at ho
      obtain ⟨w, hw, rfl⟩ := List.mem_map.1 ho
      exact ((h.written k hk w hw).sameAt (h'.written k (hkeepers k hk) w hw)).of_alike ha
    · have hfree : ∀ k ∈ keepers links, ∀ own ∈ k.names, alike own name = false := by
        intro k hk own ho
        by_contra ha
        exact hwritten ⟨k, hk, own, ho, by simpa using ha⟩
      by_cases hother : policyLists links ≠ [] → Other name
      · have hs := h.same name ⟨hfree, hother⟩
        have hs' := h'.same name ⟨fun k hk => hfree k (hkeepers' k hk), hpolicies ▸ hother⟩
        exact ⟨hs'.isClaimed_eq.trans hs.isClaimed_eq.symm, hs'.fieldsOf_eq.trans hs.fieldsOf_eq.symm⟩
      · obtain ⟨hlists, hname⟩ := Classical.not_imp.1 hother
        obtain ⟨hg, -⟩ := h.gathered hlists
        obtain ⟨hg', -⟩ := h'.gathered (hpolicies ▸ hlists)
        rw [← hpolicies] at hg'
        have henforced := sameAt_of_pinned hg.enforced hg'.enforced
        have hreported := sameAt_of_pinned hg.reported hg'.reported
        cases he : alike enforcedHeader name with
        | true => exact henforced.of_alike he
        | false =>
          cases hr : alike reportedHeader name with
          | true => exact hreported.of_alike hr
          | false => exact absurd ⟨he, hr⟩ hname
  exact ⟨h.aside.request_eq.trans h'.aside.request_eq.symm,
    h.aside.captures_eq.trans h'.aside.captures_eq.symm, hslots,
    .of_same hheaders (h.aside.cookies_eq.trans h'.aside.cookies_eq.symm), hstate.2⟩

/-- Behind the handler every interceptor of content policies tells the response the nonce, and the keepers
do nothing. -/
theorem finish_eq (configs : Configs) (response : Response) (ctx : Context)
    (links : List HeaderLink) :
    Passage.finish configs response ctx (links.map interceptor) =
      ((policyLists links).foldl (fun r _ => commit r ctx) response, ctx) := by
  induction links generalizing response with
  | nil => rfl
  | cons link rest ih =>
    cases link with
    | keeper k =>
      rw [List.map_cons, Passage.finish, interceptor, k.commit_eq]
      exact ih response
    | policies list => exact ih (commit response ctx)

end HeaderLink

open HeaderLink

/-- A handler that looks by name answers the same, and leaves what cannot be told apart. -/
theorem Target.answer_alike {target : Target} {ctx ctx' : Context}
    (hl : ∀ r captures, target = .route r captures → r.handler.LooksByName) (ha : ctx.Alike ctx') :
    (target.answer ctx).1 = (target.answer ctx').1 ∧
      (target.answer ctx).2.Alike (target.answer ctx').2 := by
  cases target with
  | route r captures => exact hl r captures rfl ctx ctx' ha
  | methodNotAllowed => exact ⟨rfl, ha⟩
  | notFound => exact ⟨rfl, ha⟩

/-- A run through a chain is the answer of the target on what the chain hands on, told the nonce. -/
theorem Target.run_of_handsOn {target : Target} {links : List HeaderLink} {ctx next : Context}
    (h : HandsOn target.configs links ctx next) :
    target.run (links.map interceptor) ctx =
      ((policyLists links).reverse.foldl (fun r _ => ContentSecurity.commit r (target.answer next).2)
        (target.answer next).1, (target.answer next).2) := by
  have hrun := run_append_of_passed h.passed []
  rw [List.append_nil] at hrun
  rw [hrun, run_nil, ← List.map_reverse, finish_eq, policyLists, policyLists, List.filterMap_reverse]

/-- Behind the handler, content policies look at what is kept and not at headers. -/
theorem ContentSecurity.commit_alike {ctx ctx' : Context} (ha : ctx.Alike ctx') (response : Response) :
    commit response ctx = commit response ctx' := by
  simp only [commit, Context.nonce?, ha.extensions]

/-- Runs through two chains that hand on the same give the same response and leave contexts that are
alike. -/
theorem Target.run_alike {target : Target} {links others : List HeaderLink} {ctx next last : Context}
    (h : HandsOn target.configs links ctx next) (h' : HandsOn target.configs others ctx last)
    (ha : next.Alike last) (horder : policyLists links = policyLists others)
    (hl : ∀ r captures, target = .route r captures → r.handler.LooksByName) :
    (target.run (links.map interceptor) ctx).1 = (target.run (others.map interceptor) ctx).1 ∧
      (target.run (links.map interceptor) ctx).2.Alike (target.run (others.map interceptor) ctx).2 := by
  obtain ⟨hresponse, hctx⟩ := answer_alike hl ha
  rw [run_of_handsOn h, run_of_handsOn h']
  simp only [ContentSecurity.commit_alike hctx, horder, hresponse]
  exact ⟨trivial, hctx⟩

namespace Service

/-- Interceptors that are concerned with headers alone can be put in any order: the two services differ
in the order of such interceptors, no keeper comes twice, and the interceptors of content policies have
one order in both. What they write on the route keeps its lines, the request comes over an encrypted
connection, and handlers look at headers by name. Then the two replies are the same but for the order of
different headers: status and body, and under every name the same values in the same order. The two leave
the same world, so that no byte more is drawn in one of them and nothing else is recorded. -/
theorem orders_serve_alike (s : Service) {links others : List HeaderLink} (hperm : links.Perm others)
    (horder : policyLists links = policyLists others)
    (honce : ((keepers links).map Keeper.kind).Nodup) {request : Request} (htls : request.tls = true)
    (world : World)
    (hclean : ∀ link ∈ links, link.Clean (Target.lookup s.routes request).configs
      (ContentSecurity.nonceOf (world.draw ContentSecurity.nonceBytes).1))
    (hlooks : ∀ r ∈ s.routes, r.handler.LooksByName) :
    let first := (s.withInterceptors (links.map interceptor)).serve request world
    let second := (s.withInterceptors (others.map interceptor)).serve request world
    first.1.status = second.1.status ∧ first.1.body = second.1.body ∧
      (∀ name, first.1.headers.getAll name = second.1.headers.getAll name) ∧
      first.2 = second.2 := by
  intro first second
  have hfresh := fresh_ofRequest htls (Target.lookup s.routes request).captures world
  have hkeepers : (keepers links).Perm (keepers others) := hperm.filterMap _
  obtain ⟨next, hnext⟩ := exists_handsOn hfresh honce hclean
  obtain ⟨last, hlast⟩ := exists_handsOn hfresh ((hkeepers.map Keeper.kind).nodup_iff.1 honce)
    fun link hm => hclean link (hperm.mem_iff.2 hm)
  have halike := hnext.indistinct hlast (fun k => hkeepers.mem_iff.1) (fun k => hkeepers.mem_iff.2) horder
  obtain ⟨hresponse, hctx⟩ := Target.run_alike hnext hlast halike horder
    fun r captures hl => hlooks r (Target.mem_of_lookup hl)
  have hsecond : second = s.conclude request
      (((Target.lookup s.routes request).run (links.map interceptor)
        (.ofRequest request (Target.lookup s.routes request).captures world)).1,
      ((Target.lookup s.routes request).run (others.map interceptor)
        (.ofRequest request (Target.lookup s.routes request).captures world)).2) := by
    rw [hresponse]
    rfl
  rw [hsecond]
  exact s.conclude_alike request _ hctx

end Service

/-! ### Values of keepers -/

/-- What a keeper writes keeps its lines if the report groups of its policies on openers do. -/
theorem Keeper.clean {k : Keeper} {configs : Configs}
    (h : ∀ policies, k = .openers policies →
      ∀ p ∈ OpenerIsolation.effective policies configs, KeepsLine p.reportTo) (nonce : String) :
    (HeaderLink.keeper k).Clean configs nonce := by
  unfold Clean
  cases k with
  | transport t =>
    refine List.forall_mem_singleton.2 ?_
    simp only [HeaderWrite.values, List.any_cons, List.any_nil, t.breaksLine_headerValue, Bool.or_false]
  | fixed => exact (by decide : ∀ w ∈ FixedHeaders.writes, w.values.any breaksLine = false)
  | openers policies =>
    have hvalid := OpenerIsolation.valid (h policies rfl)
    exact List.forall_mem_cons.2 ⟨(hvalid _ List.mem_cons_self).values,
      List.forall_mem_singleton.2 (hvalid _ (List.mem_cons_of_mem _ List.mem_cons_self)).values⟩
  | framing =>
    simp only [Keeper.writes, Framing.writes]
    split <;> decide

namespace Shuffled

/-- Interceptors that come first or second. -/
def scripts : List HeaderLink := [.keeper .fixed, .policies [StrictPolicy.policy {}]]

/-- Interceptors that come second or first. -/
def openers : List HeaderLink := [.keeper (.openers [{}])]

/-- Interceptors that come last. -/
def others : List HeaderLink :=
  [.policies [TrustedTypesPolicy.policy {}], .keeper .framing, .keeper (.transport {})]

/-- A handler that looks at headers, writes one and asks for the nonce. -/
def script : HandlerScript where
  steps := [.headers FixedHeaders.typeHeader, .header (.set "Vary" "Accept"), .nonce]
  answer := .plain

/-- A service with the handler. -/
def service : Service where
  renderer := render
  interceptors := []
  routes := [.ofText "/" .get (script.handler fun _ => "") .empty]
  distinct := Route.duplicate?_eq_none_iff.2 (by decide)

/-- A request for the route, over an encrypted connection. -/
def request : Request := ⟨.get, "/", none, 1, ⟨[⟨"Host", "h"⟩]⟩, [], true⟩

/-- A world in which every random byte is zero. -/
def world : World := ⟨0, fun _ => 0, 0, []⟩

/-- The reply of the service with interceptors. -/
def serve (links : List HeaderLink) : Reply × World :=
  (service.withInterceptors (links.map HeaderLink.interceptor)).serve request world

/-- The interceptors write no line break and no NUL. -/
theorem clean (nonce : String) (hn : breaksLine nonce = false) :
    ∀ link ∈ (scripts ++ openers) ++ others, link.Clean .empty nonce := by
  have hnone : KeepsLine none := fun t ht => nomatch ht
  have hkeeper : ∀ k : Keeper, (∀ policies, k = .openers policies → policies = [{}]) →
      (HeaderLink.keeper k).Clean .empty nonce := by
    intro k hk
    refine Keeper.clean (fun policies he p hp => ?_) nonce
    obtain rfl := hk policies he
    obtain rfl := List.mem_singleton.1 hp
    exact hnone
  have hstrict : (HeaderLink.policies [StrictPolicy.policy {}]).Clean .empty nonce := by
    refine List.forall_mem_singleton.2 fun text ht => ?_
    obtain rfl := Option.some.inj ht
    exact StrictPolicy.breaksLine_serialize hn hnone hnone
  have htypes : (HeaderLink.policies [TrustedTypesPolicy.policy {}]).Clean .empty nonce := by
    refine List.forall_mem_singleton.2 fun text ht => ?_
    obtain rfl := Option.some.inj ht
    exact ContentPolicy.breaksLine_withReports (by decide) hnone
  simp only [scripts, openers, others, List.cons_append, List.nil_append, List.forall_mem_cons,
    List.not_mem_nil, false_implies, implies_true, and_true]
  exact ⟨hkeeper _ (by simp), hstrict, hkeeper _ (by simp), htypes, hkeeper _ (by simp), hkeeper _ (by simp)⟩

/-- The headers come in another order, and their values are the same. -/
theorem shuffled_headers_agree :
    (∀ name, (serve ((scripts ++ openers) ++ others)).1.headers.getAll name =
        (serve ((openers ++ scripts) ++ others)).1.headers.getAll name) ∧
      (serve ((scripts ++ openers) ++ others)).1.headers ≠
        (serve ((openers ++ scripts) ++ others)).1.headers := by
  have hperm : ((scripts ++ openers) ++ others).Perm ((openers ++ scripts) ++ others) :=
    List.perm_append_comm.append_right others
  have htls : request.tls = true := rfl
  have hsame := Service.orders_serve_alike service hperm rfl (by decide) htls world
    (clean _ (ContentSecurity.breaksLine_nonceOf _)) (List.forall_mem_singleton.2 (script.looksByName _))
  refine ⟨?_, by decide +kernel⟩
  unfold serve
  exact hsame.2.2.1

end Shuffled

end Palisade
