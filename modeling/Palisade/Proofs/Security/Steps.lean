import Palisade.Proofs.Service.Handlers
import Palisade.Proofs.Service.Readable
import Palisade.Security.CrossOrigin
import Palisade.Security.FetchMetadata
import Palisade.Security.OwnHeaders
import Palisade.Security.ScriptForgery

/-!
# What the interceptors do to a context

Before the handler an interceptor records events, draws bytes, writes headers without the claims of
others, queues cookies and keeps a token. That it does nothing else is said once for each interceptor;
from it follows that the interceptor keeps the request, every claimed header and what can be read back.
The interceptor of content policies is not among these: it writes with claims that another may have made.
-/
namespace Palisade

open Palisade.Text ResponseHeaders

/-! ### Steps -/

namespace Context

/-- What interceptors make of a context, one step after the other. -/
inductive Reaches (ctx : Context) : Context → Prop where
  | start : Reaches ctx ctx
  /-- An event is recorded, or bytes are drawn. -/
  | pass {next : Context} (h : Reaches ctx next) (world : World) : Reaches ctx { next with world }
  /-- Headers are written, without a claim that was made before. -/
  | write {next : Context} (h : Reaches ctx next) {ws : List HeaderWrite}
      (hw : ∀ w ∈ ws, w.Free ∧ PlainName w.name) : Reaches ctx (next.perform ws).1
  | cookie {next : Context} (h : Reaches ctx next) {cookie : Cookie} (hc : cookie.Clean) :
      Reaches ctx (next.addCookie cookie)
  | token {next : Context} (h : Reaches ctx next) (token : String) : Reaches ctx (next.keep .token token)

variable {ctx next : Context}

/-- An event is a step. -/
theorem Reaches.record (h : Reaches ctx next) (e : Event) : Reaches ctx (next.record e) := h.pass _

/-- Steps leave the request as it is. -/
theorem Reaches.request_eq (h : Reaches ctx next) : next.request = ctx.request := by
  induction h with
  | start => rfl
  | pass _ _ ih | write _ _ ih | cookie _ _ ih | token _ _ ih => exact ih

/-- Steps respect all claims. -/
theorem Reaches.respects (h : Reaches ctx next) : Respects ctx.headers next.headers := by
  induction h with
  | start => exact .refl _
  | pass _ _ ih | token _ _ ih => exact ih
  | write _ hw ih => exact ih.trans (HeaderWrite.respects_performAll _ _ fun w hm => (hw w hm).1)
  | cookie _ _ ih => exact ih.trans (respects_addCookie _ _)

/-- A token that is kept leaves the content policies that are kept. -/
theorem policies_keep_token (ctx : Context) (token : String) :
    (ctx.keep .token token).extensions.get? .policies = ctx.extensions.get? .policies := by
  have hslot : Slot.policies ≠ .token := by decide
  rw [keep, Extensions.insert, Extensions.get?_put_of_ne _ hslot]

/-- Steps leave the content policies that are kept. -/
theorem Reaches.policies_eq (h : Reaches ctx next) :
    next.extensions.get? .policies = ctx.extensions.get? .policies := by
  induction h with
  | start => rfl
  | pass _ _ ih | write _ _ ih | cookie _ _ ih => exact ih
  | token _ token ih => exact (policies_keep_token _ token).trans ih

/-- Steps keep what can be read back. -/
theorem Reaches.readable (h : Reaches ctx next) (hc : ctx.Readable) : next.Readable := by
  induction h with
  | start => exact hc
  | pass _ _ ih => exact ⟨ih.headers, ih.claims⟩
  | write _ hw ih => exact ih.perform fun w hm => (hw w hm).2
  | cookie _ hclean ih => exact ⟨ih.headers.addCookie hclean, ih.claims⟩
  | token _ token ih =>
    exact ⟨ih.headers, fun state hs => ih.claims state ((policies_keep_token _ token).symm.trans hs)⟩

end Context

open Context

namespace Interceptor

/-- Before the handler the interceptor does these steps alone, and behind it nothing to the context. -/
structure Stepwise (i : Interceptor) : Prop where
  before : ∀ configs ctx, Reaches ctx (i.before configs ctx).2
  commit : ∀ configs response ctx, (i.commit configs response ctx).2 = ctx

variable {i : Interceptor}

/-- Who goes from step to step leaves the request as it is. -/
theorem Stepwise.keepsRequest (h : i.Stepwise) : i.KeepsRequest :=
  fun configs ctx => (h.before configs ctx).request_eq

/-- Before the handler it respects all claims. -/
theorem Stepwise.respectsBefore (h : i.Stepwise) : i.RespectsBefore :=
  fun configs ctx => (h.before configs ctx).respects

/-- Behind the handler as well. -/
theorem Stepwise.respectsCommit (h : i.Stepwise) : i.RespectsCommit := by
  intro configs response ctx
  rw [h.commit]
  exact .refl _

/-- It keeps what can be read back. -/
theorem Stepwise.keepsReadable (h : i.Stepwise) : i.KeepsReadable where
  before configs ctx hc := (h.before configs ctx).readable hc
  commit configs response ctx hc := by
    rw [h.commit]
    exact hc

/-- Going on after writes, or refusing the request, is a step. -/
theorem reaches_afterWrites {name : String} {onward : Flow} {ctx : Context} {ws : List HeaderWrite}
    (hw : ∀ w ∈ ws, w.Free ∧ PlainName w.name) :
    Reaches ctx (afterWrites name onward (ctx.perform ws)).2 :=
  afterWrites_induction (fun _ e hreached => hreached.record e) (.write .start hw)

/-- An interceptor that only writes headers. -/
theorem stepwise_ofWrites {name : String} {writes : Configs → List HeaderWrite}
    (hw : ∀ configs, ∀ w ∈ writes configs, w.Free ∧ PlainName w.name) :
    (ofWrites name writes).Stepwise where
  before configs _ := reaches_afterWrites (hw configs)
  commit _ _ _ := rfl

end Interceptor

/-- A refusal is a step. -/
theorem Refusal.reaches_answer (r : Refusal) (ctx : Context) : Reaches ctx (r.answer ctx).2 :=
  .record .start _

/-! ### Interceptors that write headers -/

/-- The redirect and the header of secure transport are steps. -/
theorem TransportSecurity.stepwise (t : TransportSecurity) : t.interceptor.Stepwise where
  before configs ctx := by
    unfold interceptor
    simp only
    split
    · refine Interceptor.reaches_afterWrites ?_
      rw [List.forall_mem_singleton]
      exact ⟨trivial, (by decide : PlainName headerName)⟩
    · exact .start
  commit _ _ _ := rfl

/-- The fixed headers are a step. -/
theorem FixedHeaders.stepwise : interceptor.Stepwise := by
  refine Interceptor.stepwise_ofWrites fun _ => ?_
  unfold writes
  rw [List.forall_mem_cons, List.forall_mem_singleton]
  exact ⟨⟨trivial, (by decide : PlainName typeHeader)⟩, trivial, (by decide : PlainName filterHeader)⟩

/-- The headers of openers are a step. -/
theorem OpenerIsolation.stepwise (policies : List OpenerPolicy) : (interceptor policies).Stepwise := by
  refine Interceptor.stepwise_ofWrites fun configs => ?_
  unfold writes
  rw [List.forall_mem_cons, List.forall_mem_singleton]
  exact ⟨⟨trivial, (by decide : PlainName OpenerPolicy.enforcedHeader)⟩, trivial,
    (by decide : PlainName OpenerPolicy.reportedHeader)⟩

/-- The header against framing is a step. -/
theorem Framing.stepwise : interceptor.Stepwise := by
  have hname : PlainName headerName := by decide
  refine Interceptor.stepwise_ofWrites fun configs => ?_
  unfold writes
  split <;> exact List.forall_mem_singleton.2 ⟨trivial, hname⟩

/-! ### Interceptors that can refuse a request -/

/-- The check of metadata is a step. -/
theorem FetchMetadata.stepwise (f : FetchMetadata) : f.interceptor.Stepwise where
  before configs ctx := by
    unfold interceptor
    simp only
    split
    · exact .start
    · split
      · exact .start
      · split <;> exact .record .start _
  commit _ _ _ := rfl

namespace CrossOrigin

/-- The headers that tell other origins what they may do. -/
def headerNames : List String :=
  [originHeader, "Vary", "Access-Control-Allow-Credentials", "Access-Control-Expose-Headers",
    "Access-Control-Allow-Methods", "Access-Control-Allow-Headers", "Access-Control-Max-Age"]

/-- The headers for other origins have plain names. -/
theorem plain_of_mem_headerNames : ∀ name ∈ headerNames, PlainName name := by decide

/-- What is written with responses needs no claim, and is about these headers. -/
theorem free_allowWrites {c : CrossOrigin} {origin : String} {w : HeaderWrite}
    (hw : w ∈ c.allowWrites origin) : w.Free ∧ w.name ∈ headerNames := by
  unfold allowWrites at hw
  simp only [List.mem_append, List.mem_cons, List.not_mem_nil, or_false, List.mem_ite_nil_right,
    List.mem_ite_nil_left] at hw
  rcases hw with ((rfl | rfl) | ⟨-, rfl⟩) | ⟨-, rfl⟩ <;>
    exact ⟨trivial, by simp [headerNames, HeaderWrite.name]⟩

/-- What is written in answers to questions needs no claim, and is about these headers. -/
theorem free_preflightWrites {c : CrossOrigin} {origin : String} {requested : List String}
    {w : HeaderWrite} (hw : w ∈ c.preflightWrites origin requested) :
    w.Free ∧ w.name ∈ headerNames := by
  unfold preflightWrites at hw
  simp only [List.mem_append, List.mem_cons, List.not_mem_nil, or_false, List.mem_ite_nil_left] at hw
  rcases hw with ((hw | rfl) | ⟨-, rfl⟩) | rfl
  · exact free_allowWrites hw
  all_goals exact ⟨trivial, by simp [headerNames, HeaderWrite.name]⟩

/-- The answer to a foreign origin is a step. -/
theorem reaches_foreign (c : CrossOrigin) (origin : String) (ctx : Context) :
    Reaches ctx (c.foreign origin ctx).2 := by
  have hwrites : ∀ {ws : List HeaderWrite}, (∀ w ∈ ws, w.Free ∧ w.name ∈ headerNames) →
      ∀ onward, Reaches ctx (Interceptor.afterWrites name onward (ctx.perform ws)).2 := by
    intro ws hw onward
    refine Interceptor.reaches_afterWrites fun w hm => ?_
    exact ⟨(hw w hm).1, plain_of_mem_headerNames w.name (hw w hm).2⟩
  unfold foreign
  split
  · exact Refusal.reaches_answer _ ctx
  · split
    · simp only
      split
      · exact Refusal.reaches_answer _ ctx
      · exact hwrites (fun w => free_preflightWrites) _
    · split
      · exact Refusal.reaches_answer _ ctx
      · exact hwrites (fun w => free_allowWrites) _

/-- The gate goes from step to step. -/
theorem stepwise (c : CrossOrigin) : c.interceptor.Stepwise where
  before configs ctx := by
    unfold interceptor
    simp only
    split
    · exact .start
    · split
      · exact .start
      · exact c.reaches_foreign _ ctx
  commit _ _ _ := rfl

end CrossOrigin

namespace FormForgery

/-- To tell a client apart is a step. -/
theorem reaches_client {ctx next : Context} {value : String} (h : client ctx = .ok (value, next)) :
    Reaches ctx next := by
  unfold client newClient at h
  split at h
  · cases h
    exact .start
  · simp only at h
    split at h
    · rename_i cookie hcookie
      cases h
      exact .cookie (.pass .start _) (Cookie.clean_of_new hcookie)
    · cases h

/-- To issue a token is a step. -/
theorem reaches_issue (key : TokenKey) (ctx : Context) : Reaches ctx (issue key ctx).2 := by
  cases hc : client ctx with
  | error refusal =>
    simp only [issue, hc]
    exact refusal.reaches_answer ctx
  | ok p =>
    simp only [issue, hc]
    exact .token (reaches_client hc) _

/-- A request is refused, or it is issued a token. -/
theorem before_cases (key : TokenKey) (configs : Configs) (ctx : Context) :
    (∃ refusal : Refusal, check key ctx.request ctx.world.millis = .error refusal ∧
      (interceptor key).before configs ctx = refusal.answer ctx) ∨
    (interceptor key).before configs ctx = issue key ctx := by
  simp only [interceptor]
  split
  · cases hc : check key ctx.request ctx.world.millis with
    | error refusal => exact .inl ⟨refusal, rfl, rfl⟩
    | ok => exact .inr rfl
  · exact .inr rfl

/-- The protection of forms goes from step to step. -/
theorem stepwise (key : TokenKey) : (interceptor key).Stepwise where
  before configs ctx := by
    rcases before_cases key configs ctx with ⟨refusal, -, hb⟩ | hb
    · rw [hb]
      exact refusal.reaches_answer ctx
    · rw [hb]
      exact reaches_issue key ctx
  commit _ _ _ := rfl

end FormForgery

namespace ScriptForgery

/-- To renew a token is a step. -/
theorem reaches_renew (key : TokenKey) (ctx : Context) : Reaches ctx (renew key ctx).2 := by
  unfold renew issue
  split
  · exact .start
  · simp only
    split
    · rename_i cookie hcookie
      have hclean := Cookie.clean_of_new hcookie
      exact .cookie .start ⟨hclean.name, hclean.value, hclean.path, hclean.domain⟩
    · exact Refusal.reaches_answer _ ctx

/-- The renewal of tokens goes from step to step. -/
theorem stepwise (key : TokenKey) : (interceptor key).Stepwise where
  before configs ctx := by
    unfold interceptor
    simp only
    split
    · split
      · exact Refusal.reaches_answer _ ctx
      · exact reaches_renew key ctx
    · exact reaches_renew key ctx
  commit _ _ _ := rfl

end ScriptForgery

end Palisade
