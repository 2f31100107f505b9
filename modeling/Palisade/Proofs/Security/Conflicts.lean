import Palisade.Proofs.Security.Keepers
import Palisade.Script.Recorder

/-!
# Two interceptors that claim one header

If two interceptors of a chain claim one header then the second of them refuses the request, so that no
response goes out without a policy that somebody has asked for. The main statement says this of the four
interceptors that keep headers of their own, wherever the two stand and whatever stands between them and
around them. The others may do what they like, but those in front of the second do not make a request a
plain one, and those between the two do not touch the headers that the first has claimed. What becomes of
the refusal on its way out is up to the commits that it meets. None of these conditions can be left out,
as is shown at the end.
-/
namespace Palisade

open Palisade.Text ResponseHeaders

/-! ### Refusals on their way out -/

/-- Interceptors that keep these names when they are claimed, and pass a request on, have kept them. -/
theorem Passed.respectsAt {configs : Configs} {is : List Interceptor} {ctx next : Context}
    {names : List String} (h : Passed configs is ctx next) (hb : ∀ i ∈ is, i.LeavesBefore names) :
    RespectsAt names ctx.headers next.headers := by
  induction h with
  | nil ctx => exact .refl names _
  | @cons i rest ctx mid last first _ ih =>
    rw [List.forall_mem_cons] at hb
    have hr := hb.1 configs ctx
    rw [first] at hr
    exact hr.trans (ih hb.2)

/-- The interceptor does not make a request a plain one that came over an encrypted connection. -/
def Interceptor.KeepsTls (i : Interceptor) : Prop :=
  ∀ configs ctx, ctx.request.tls = true → (i.before configs ctx).2.request.tls = true

/-- An interceptor that leaves the request as it is leaves its connection. -/
theorem Interceptor.KeepsRequest.keepsTls {i : Interceptor} (h : i.KeepsRequest) : i.KeepsTls := by
  intro configs ctx htls
  rw [h configs ctx, htls]

/-- A request stays encrypted on its way through interceptors that keep it so. -/
theorem Passed.tls {configs : Configs} {is : List Interceptor} {ctx next : Context}
    (h : Passed configs is ctx next) (hk : ∀ i ∈ is, i.KeepsTls) (htls : ctx.request.tls = true) :
    next.request.tls = true := by
  induction h with
  | nil ctx => exact htls
  | @cons i rest ctx mid last first _ ih =>
    rw [List.forall_mem_cons] at hk
    have hmid := hk.1 configs ctx htls
    rw [first] at hmid
    exact ih hk.2 hmid

/-- When a response has been written the interceptor leaves errors in place. -/
def Interceptor.KeepsErrors (i : Interceptor) : Prop :=
  ∀ configs status ctx, (i.commit configs (.error status) ctx).1 = .error status

/-- Where errors are kept, an error is the response in the end. -/
theorem Passage.error_finish {configs : Configs} {is : List Interceptor} (hk : ∀ i ∈ is, i.KeepsErrors)
    (status : Status) (ctx : Context) : (finish configs (.error status) ctx is).1 = .error status := by
  induction is generalizing ctx with
  | nil => rfl
  | cons i rest ih =>
    rw [List.forall_mem_cons] at hk
    rw [finish]
    have hi := hk.1 configs status ctx
    generalize i.commit configs (.error status) ctx = committed at hi
    obtain ⟨response, next⟩ := committed
    obtain rfl : response = .error status := hi
    exact ih hk.2 next

/-! ### The second claim -/

namespace Keeper

/-- The two interceptors claim one header, in whatever spelling. -/
def Share (a b : Keeper) : Prop := ∃ name ∈ a.names, ∃ other ∈ b.names, alike name other = true

variable {a : Keeper} {configs : Configs} {front middle : List Interceptor}
  {received reached : Context}

/-- What a keeper has left when its request reaches a later interceptor; `before` had come to the
keeper. -/
structure Between (a : Keeper) (configs : Configs) (before reached : Context) : Prop where
  tls : reached.request.tls = true
  done : ∀ w ∈ a.writes configs, w.Done before.headers reached.headers
  claimed : ∀ name ∈ a.names, reached.headers.isClaimed name = true

/-- A request that has passed a keeper comes with the headers of the keeper. -/
theorem between_of_passed (htls : received.request.tls = true)
    (hk : ∀ i ∈ front ++ middle, i.KeepsTls) (hm : ∀ i ∈ middle, i.LeavesBefore a.names)
    (hp : Passed configs (front ++ a.interceptor :: middle) received reached) :
    ∃ before, Between a configs before reached := by
  rw [List.forall_mem_append] at hk
  obtain ⟨before, hfront, hrest⟩ := hp.of_append
  cases hrest with
  | @cons _ _ _ next _ first others =>
    have hbefore : before.request.tls = true := hfront.tls hk.1 htls
    obtain ⟨⟨headers, hnext⟩, hdone⟩ := done_of_pass hbefore first
    have hkept := others.respectsAt hm
    have hstands : ∀ w ∈ a.writes configs, w.Done before.headers reached.headers := fun w hw =>
      (hdone w hw).2.of_same_after (hkept w.name (name_mem_names hw) (hdone w hw).2.isClaimed)
    refine ⟨before, others.tls hk.2 (hnext ▸ hbefore), hstands, ?_⟩
    rw [← a.names_eq configs, List.forall_mem_map]
    exact fun w hw => (hstands w hw).isClaimed

/-- A keeper does nothing when a response has been written. -/
theorem keepsErrors (a : Keeper) : a.interceptor.KeepsErrors := by
  intro configs status ctx
  rw [a.commit_eq]

/-- What holds of a keeper and of all around it holds of those that ran. -/
theorem forall_mem_ran {P : Interceptor → Prop} (h : ∀ i ∈ front ++ middle, P i)
    (ha : P a.interceptor) : ∀ i ∈ (front ++ a.interceptor :: middle).reverse, P i := by
  rw [List.forall_mem_append] at h
  intro i hi
  rw [List.mem_reverse, List.mem_append, List.mem_cons] at hi
  rcases hi with hi | rfl | hi
  · exact h.1 i hi
  · exact ha
  · exact h.2 i hi

/-- Fields that a keeper has written and that nobody touches any more are those of the reply. -/
theorem values_of_done {s : Service} {request : Request} {world : World} {h : ResponseHeaders}
    (hd : ∀ w ∈ a.writes (Target.lookup s.routes request).configs, w.Done h
      ((Target.lookup s.routes request).run s.interceptors
        (.ofRequest request (Target.lookup s.routes request).captures world)).2.headers) :
    ∀ name values, .own name values ∈ a.writes (Target.lookup s.routes request).configs →
      (s.serve request world).1.headers.getAll name = values ∧
        Headers.getAll ⟨(s.serve request world).1.lines⟩ name = values := by
  intro name values hw
  obtain ⟨hpinned, hvalues⟩ := hd _ hw
  have hname : name ∈ a.names := Keeper.name_mem_names hw
  obtain ⟨hvalid, hkept⟩ := a.kept_of_mem_names name hname
  have hfields : (s.serve request world).1.headers.fieldsOf name = Headers.fieldsFor name values := by
    rw [s.fieldsOf_serve request world hkept]
    exact hpinned.fieldsOf
  have hlines : Headers.fieldsOf ⟨(s.serve request world).1.lines⟩ name =
      Headers.fieldsFor name values := by
    have hl := Pin.Valid.isLine (p := ⟨name, values⟩) ⟨hvalid, hvalues⟩
    rw [← hfields] at hl
    rw [Reply.fieldsOf_lines hkept hl, hfields]
  exact ⟨Headers.getAll_of_fieldsOf hfields, Headers.getAll_of_fieldsOf hlines⟩

end Keeper

namespace Service

/-- Conflicting claims fail closed. Two keepers in a chain claim one header, and a request over an
encrypted connection has passed all interceptors in front of the second one, which have left it on that
connection; those between the two have left the headers of the first as they were. Then its handler does
not run, and the service does what it would do with any other handlers; the interceptors that run are
those up to the second keeper, and the service does what it would do with any others behind it. What is
written is an error of the server, and what is sent is what the commits of the interceptors in front make
of it: the error itself, if none of them replaces errors. If none of them touches the headers that the
first keeper has claimed, then these are in the reply and in its lines, with exactly their values. -/
theorem conflicting_claims_fail_closed (s : Service) {front middle back : List Interceptor}
    {a b : Keeper}
    (hi : s.interceptors = (front ++ a.interceptor :: middle) ++ b.interceptor :: back)
    (hshare : a.Share b) (hk : ∀ i ∈ front ++ middle, i.KeepsTls)
    (hm : ∀ i ∈ middle, i.LeavesBefore a.names)
    (request : Request) (htls : request.tls = true) (world : World) :
    let target := Target.lookup s.routes request
    let received := Context.ofRequest request target.captures world
    ∀ reached, Passed target.configs (front ++ a.interceptor :: middle) received reached →
      (¬ s.Handled request world ∧
        ∀ change, (s.withHandlers change).serve request world = s.serve request world) ∧
      ((s.passage request world).ran = b.interceptor :: (front ++ a.interceptor :: middle).reverse ∧
        ∀ others, (s.withInterceptors
          ((front ++ a.interceptor :: middle) ++ b.interceptor :: others)).serve request world =
            s.serve request world) ∧
      ((s.passage request world).answer = some (.error .internalServerError) ∧
        (∃ refused, target.run s.interceptors received =
          Passage.finish target.configs (.error .internalServerError) refused
            (front ++ a.interceptor :: middle).reverse) ∧
        ((∀ i ∈ front ++ middle, i.KeepsErrors) →
          (target.run s.interceptors received).1 = .error .internalServerError)) ∧
      ((∀ i ∈ front ++ middle, i.LeavesCommit a.names) →
        ∀ name values, .own name values ∈ a.writes target.configs →
          (s.serve request world).1.headers.getAll name = values ∧
            Headers.getAll ⟨(s.serve request world).1.lines⟩ name = values) := by
  intro target received reached hp
  obtain ⟨before, hbetween⟩ := Keeper.between_of_passed htls hk hm hp
  obtain ⟨after, hb⟩ : ∃ after, b.interceptor.before target.configs reached =
      (.reject .internalServerError, after) := by
    obtain ⟨name, hn, other, ho, ha⟩ := hshare
    refine Keeper.rejects_of_isClaimed hbetween.tls ho ?_
    rw [← isClaimed_eq_of_alike _ ha]
    exact hbetween.claimed name hn
  have hrun : ∀ rest, target.run ((front ++ a.interceptor :: middle) ++ b.interceptor :: rest) received =
      Passage.finish target.configs (.error .internalServerError)
        (after.record (Passage.event b.interceptor (.error .internalServerError)))
        (front ++ a.interceptor :: middle).reverse := by
    intro rest
    rw [Target.run_append_of_passed hp, Target.run_cons_of_respond hb, b.commit_eq]
  have hserved : target.run s.interceptors received = _ := hi ▸ hrun back
  obtain ⟨hanswer, hhandled⟩ := not_handled_of_respond hi hp hb
  refine ⟨⟨hhandled, serve_withHandlers hhandled⟩, ⟨?_, fun others => ?_⟩,
    ⟨hanswer, ⟨_, hserved⟩, fun he => ?_⟩, fun hc => ?_⟩
  · unfold passage
    rw [hi, hp.follow_append, Passage.follow, hb, List.append_nil]
    rfl
  · have hback : s = s.withInterceptors
        ((front ++ a.interceptor :: middle) ++ b.interceptor :: back) := by
      rw [← hi]
      rfl
    rw [hback]
    exact serve_congr ((hrun others).trans (hrun back).symm)
  · rw [hserved]
    exact Passage.error_finish (Keeper.forall_mem_ran he a.keepsErrors) _ _
  · have hrefused : RespectsAt a.names reached.headers after.headers := by
      have hr := (b.stepwise.respectsBefore target.configs reached).at a.names
      rwa [hb] at hr
    have hcommits := Keeper.forall_mem_ran hc (a.stepwise.respectsCommit.leaves a.names)
    have hkept := hrefused.trans (@Passage.respectsAt_finish target.configs _ _ hcommits
      (.error .internalServerError)
      (after.record (Passage.event b.interceptor (.error .internalServerError))))
    refine @Keeper.values_of_done a s request world before.headers fun w hw => ?_
    have hdone := hbetween.done w hw
    rw [hserved]
    exact hdone.of_same_after (hkept w.name (Keeper.name_mem_names hw) hdone.isClaimed)

end Service

/-! ### Scripts -/

namespace RecorderScript

variable (r : RecorderScript) (describe : HandlerOutcome → String)

/-- What a script does to headers are its operations. -/
theorem headers_runSteps (name : String) (steps : List HeaderStep) (ctx : Context)
    (claims : List (String × Claim)) :
    (runSteps name describe steps ctx claims).headers =
      (HeaderStep.runAll steps ⟨ctx.headers, claims⟩).headers := by
  induction steps generalizing ctx claims with
  | nil => rfl
  | cons step rest ih =>
    simp only [runSteps, ih]
    rfl

/-- What an interceptor of a script does to headers leaves the request as it is. -/
theorem request_runSteps (name : String) (steps : List HeaderStep) (ctx : Context)
    (claims : List (String × Claim)) :
    (runSteps name describe steps ctx claims).request = ctx.request := by
  induction steps generalizing ctx claims with
  | nil => rfl
  | cons step rest ih =>
    simp only [runSteps, ih]
    rfl

/-- A scripted interceptor makes its operations before the handler, and leaves the request. -/
theorem before_eq (configs : Configs) (ctx : Context) :
    ((r.interceptor describe).before configs ctx).2.headers =
        (HeaderStep.runAll r.before ⟨ctx.headers, []⟩).headers ∧
      ((r.interceptor describe).before configs ctx).2.request = ctx.request := by
  simp only [interceptor, runBefore]
  split
  · exact ⟨headers_runSteps _ _ _ _ _, request_runSteps _ _ _ _ _⟩
  · split <;> exact ⟨headers_runSteps _ _ _ _ _, request_runSteps _ _ _ _ _⟩

/-- Its request is the same afterwards. -/
theorem keepsRequest : (r.interceptor describe).KeepsRequest :=
  fun configs ctx => (r.before_eq describe configs ctx).2

/-- A scripted interceptor touches no header that is claimed. -/
theorem respectsBefore : (r.interceptor describe).RespectsBefore := by
  intro configs ctx
  rw [(r.before_eq describe configs ctx).1]
  exact HeaderStep.respects_runAll ctx.headers r.before

/-- When a response has been written it respects all claims. -/
theorem respectsCommit : (r.interceptor describe).RespectsCommit := by
  intro configs response ctx
  have hc : ((r.interceptor describe).commit configs response ctx).2.headers =
      (HeaderStep.runAll r.commit ⟨ctx.headers, []⟩).headers := by
    simp only [interceptor, runCommit]
    split <;> exact headers_runSteps _ _ _ _ _
  rw [hc]
  exact HeaderStep.respects_runAll ctx.headers r.commit

end RecorderScript

namespace Doubled

/-- A service with a keeper that stands twice, and another interceptor between the two. -/
def service (keeper : Keeper) (between : Interceptor) : Service where
  renderer := render
  interceptors := ([] ++ keeper.interceptor :: [between]) ++
    keeper.interceptor :: [OpenerIsolation.standard]
  routes := [.ofText "/" .get (fun ctx => (.noContent, ctx)) .empty]
  distinct := Route.duplicate?_eq_none_iff.2 (by decide)

/-- A request for the route, over an encrypted connection. -/
def request : Request := ⟨.get, "/", none, 1, ⟨[⟨"Host", "h"⟩]⟩, [], true⟩

/-- The world in which the request is served. -/
def world : World := ⟨0, fun _ => 0, 0, []⟩

/-- The request when it has been received. -/
def received : Context := .ofRequest request .empty world

/-- No interceptor in front of the second keeper answers the request. -/
def Reached (keeper : Keeper) (between : Interceptor) : Prop :=
  ∃ reached, Passed .empty ([] ++ keeper.interceptor :: [between]) received reached

/-- The keeper in front has passed the request on, and so has the other interceptor. -/
theorem reached {keeper : Keeper} {between : Interceptor}
    (h : (Passage.follow .empty [] received
      ([] ++ keeper.interceptor :: [between])).answer.isNone = true) : Reached keeper between :=
  ⟨_, Passage.passed_of_answer_eq_none (Option.isNone_iff_eq_none.1 h)⟩

/-- What is sent, as a response. -/
def sent (keeper : Keeper) (between : Interceptor) : Response :=
  ((Target.lookup (service keeper between).routes request).run
    (service keeper between).interceptors received).1

/-- A keeper claims headers in common with itself. -/
theorem share (name : String) {keeper : Keeper} (hn : name ∈ keeper.names) : keeper.Share keeper :=
  ⟨name, hn, name, hn, alike_refl _⟩

/-- An interceptor that does nothing but replace the response, if there is something to put in its place. -/
def replacing (replacement : Option Status) : Interceptor :=
  RecorderScript.interceptor (fun _ => "") ⟨"replacing", [], none, [], replacement⟩

/-- Where nobody replaces it the refusal is sent, with the headers that were written first. -/
theorem doubled_headers_fail_closed :
    sent .fixed (replacing none) = .error .internalServerError ∧
      (¬ (service .fixed (replacing none)).Handled request world) ∧
      Headers.getAll ⟨((service .fixed (replacing none)).serve request world).1.lines⟩
        FixedHeaders.typeHeader = ["nosniff"] := by
  obtain ⟨reached, hp⟩ : Reached .fixed (replacing none) := reached (by decide +kernel)
  obtain ⟨⟨hhandled, -⟩, -, ⟨-, -, herror⟩, hvalues⟩ :=
    (service .fixed (replacing none)).conflicting_claims_fail_closed rfl
      (share FixedHeaders.typeHeader List.mem_cons_self)
      (List.forall_mem_singleton.2 (RecorderScript.keepsRequest _ _).keepsTls)
      (List.forall_mem_singleton.2 ((RecorderScript.respectsBefore _ _).leaves _)) request rfl world
      reached hp
  refine ⟨herror (List.forall_mem_singleton.2 fun _ _ _ => rfl), hhandled, ?_⟩
  have hcommits : ∀ i ∈ [] ++ [replacing none], i.LeavesCommit Keeper.fixed.names :=
    List.forall_mem_singleton.2 ((RecorderScript.respectsCommit _ _).leaves _)
  exact (hvalues hcommits _ _ List.mem_cons_self).2

/-- Replaces the request by a plain one. -/
def downgrade (ctx : Context) : Context := { ctx with request := ctx.request.withTls false }

/-- Claims need not fail closed if the other interceptors may do anything. One that replaces every
response replaces the refusal. One between the two that replaces all headers lets the second claim
succeed, and the handler runs. One that makes the request a plain one has it redirected and not refused.
And one that replaces all headers behind the handler takes away what the first keeper has written. -/
theorem conflicts_left_open :
    (Keeper.Share .fixed .fixed ∧ Keeper.Share (.transport {}) (.transport {}) ∧ request.tls = true) ∧
    (Reached .fixed (replacing (some .serviceUnavailable)) ∧
      (sent .fixed (replacing (some .serviceUnavailable))).status = .serviceUnavailable) ∧
    (Reached .fixed (.ofChanges .clear id) ∧
      (service .fixed (.ofChanges .clear id)).Handled request world) ∧
    (Reached (.transport {}) (.ofChanges downgrade id) ∧
      (sent (.transport {}) (.ofChanges downgrade id)).status = .movedPermanently) ∧
    (Reached .fixed (.ofChanges id .clear) ∧
      .own FixedHeaders.typeHeader ["nosniff"] ∈ Keeper.fixed.writes .empty ∧
      Headers.getAll ⟨((service .fixed (.ofChanges id .clear)).serve request world).1.lines⟩
        FixedHeaders.typeHeader = []) := by
  refine ⟨⟨share FixedHeaders.typeHeader List.mem_cons_self,
    share TransportSecurity.headerName List.mem_cons_self, rfl⟩, ?replaced, ?cleared, ?downgraded, ?lost⟩
  case replaced => exact ⟨reached (by decide +kernel), by decide +kernel⟩
  case cleared =>
    have hanswer : ((service .fixed (.ofChanges .clear id)).passage request world).answer.isNone = true := by
      decide +kernel
    exact ⟨reached (by decide +kernel), Option.isNone_iff_eq_none.1 hanswer, _, _, rfl⟩
  case downgraded => exact ⟨reached (by decide +kernel), by decide +kernel⟩
  case lost => exact ⟨reached (by decide +kernel), List.mem_cons_self, by decide +kernel⟩

end Doubled

end Palisade
