import Palisade.Proofs.Response.Readable
import Palisade.Proofs.Security.Lines
import Palisade.Proofs.Service.Passage
import Palisade.Security.ContentSecurity

/-!
# Replies that can be read back

The headers of a response can be read back when a request arrives, and they stay so through the
interceptors, the handler and the encoding. Of the interceptors this takes that each of them keeps it,
before the handler and behind it; those of the library do, as is shown where they are described. The
standard renderer adds that a status without a body gets none.
-/
namespace Palisade

open Palisade.Text ResponseHeaders

/-! ### Contexts -/

/-- The headers of the response can be read back, and the claims that are kept for content policies
are of their two headers. -/
structure Context.Readable (ctx : Context) : Prop where
  headers : ctx.headers.Readable
  claims : ∀ state, ctx.extensions.get? .policies = some state →
    state.enforce = ⟨ContentSecurity.enforcedHeader⟩ ∧
      state.report = ⟨ContentSecurity.reportedHeader⟩

namespace Context

/-- A fresh context can be read back. -/
theorem readable_ofRequest (request : Request) (captures : Captures) (world : World) :
    (ofRequest request captures world).Readable := by
  refine ⟨readable_empty, ?_⟩
  intro state hs
  cases hs

variable {ctx : Context}

/-- An event changes no header. -/
theorem Readable.record (hc : ctx.Readable) (e : Event) : (ctx.record e).Readable :=
  ⟨hc.headers, hc.claims⟩

/-- Writes under plain names keep what can be read back. -/
theorem Readable.perform (hc : ctx.Readable) {ws : List HeaderWrite} (hw : ∀ w ∈ ws, PlainName w.name) :
    (ctx.perform ws).1.Readable :=
  ⟨HeaderWrite.readable_performAll hc.headers hw, hc.claims⟩

end Context

/-! ### The run of a request -/

namespace Interceptor

/-- The interceptor keeps what can be read back. -/
structure KeepsReadable (i : Interceptor) : Prop where
  before : ∀ configs ctx, ctx.Readable → (i.before configs ctx).2.Readable
  commit : ∀ configs response ctx, ctx.headers.Readable →
    (i.commit configs response ctx).2.headers.Readable

end Interceptor

/-- The handler of the target, if it has one, gives the header of the encoding no value. -/
def Target.Unencoded : Target → Prop
  | .route r _ => r.handler.Unencoded
  | _ => True

/-- A target that does not set the header of the encoding leaves headers that can be read back. -/
theorem Target.Unencoded.readable {target : Target} (hu : target.Unencoded) {ctx : Context}
    (hc : ctx.headers.Readable) : (target.answer ctx).2.headers.Readable := by
  cases target with
  | route r captures => exact Handler.Unencoded.readable hu hc
  | methodNotAllowed => exact hc
  | notFound => exact hc

/-- Whatever a request finds among such handlers is such a target. -/
theorem Target.unencoded_lookup {routes : List Route} (hu : ∀ r ∈ routes, r.handler.Unencoded)
    (request : Request) : (lookup routes request).Unencoded := by
  cases hl : lookup routes request with
  | route r captures => exact hu r (mem_of_lookup hl)
  | methodNotAllowed => trivial
  | notFound => trivial

namespace Passage

/-- Interceptors that keep what can be read back keep it one after the other. -/
theorem readable_follow {configs : Configs} {is : List Interceptor} (hi : ∀ i ∈ is, i.KeepsReadable)
    {ctx : Context} (hc : ctx.Readable) : (follow configs [] ctx is).context.Readable :=
  follow_induction (fun i hm ctx hc => (hi i hm).before configs ctx hc) (fun _ e hc => hc.record e) [] hc

/-- Writing the response keeps what can be read back. -/
theorem readable_written {target : Target} (hu : target.Unencoded) {p : Passage}
    (hp : p.context.headers.Readable) : (p.written target).2.headers.Readable := by
  unfold written
  cases p.answer with
  | some response => exact hp
  | none => exact hu.readable hp

/-- Behind the handler it is kept as well. -/
theorem readable_finish {configs : Configs} {is : List Interceptor} (hi : ∀ i ∈ is, i.KeepsReadable)
    (response : Response) {ctx : Context} (hc : ctx.headers.Readable) :
    (finish configs response ctx is).2.headers.Readable := by
  refine finish_induction (P := fun next => next.headers.Readable) ?_ response hc
  exact fun i hm response ctx hc => (hi i hm).commit configs response ctx hc

end Passage

/-- What a run leaves can be read back. -/
theorem Target.readable_run {target : Target} (hu : target.Unencoded) {is : List Interceptor}
    (hi : ∀ i ∈ is, i.KeepsReadable) {ctx : Context} (hc : ctx.Readable) :
    (target.run is ctx).2.headers.Readable := by
  have hran : ∀ i ∈ (Passage.follow target.configs [] ctx is).ran, i.KeepsReadable := by
    intro i hm
    rcases Passage.mem_of_mem_ran hm with hm | hm
    · exact absurd hm List.not_mem_nil
    · exact hi i hm
  have hfollow : (Passage.follow target.configs [] ctx is).context.Readable :=
    Passage.readable_follow hi hc
  exact Passage.readable_finish hran _ (Passage.readable_written hu hfollow.headers)

/-! ### Encoding -/

/-- The type and the location keep their lines, and there is no body where the status rules one out. -/
structure Rendering.Sound (r : Rendering) : Prop where
  contentType : KeepsLine r.contentType
  location : KeepsLine r.location
  body : r.status.code = 204 ∨ r.status.code = 304 → r.body = []

namespace Rendering

/-- The rendering of a status alone is sound. -/
theorem sound_ofStatus (status : Status) : (ofStatus status).Sound := by
  refine ⟨?_, ?_, fun _ => rfl⟩ <;> rintro t ⟨⟩

/-- The rendering of a text is sound if its type is one line and its status allows a body. -/
theorem sound_ofText {status : Status} {contentType : String} (text : List Char)
    (ht : breaksLine contentType = false) (hs : status.code ≠ 204 ∧ status.code ≠ 304) :
    (ofText status contentType text).Sound := by
  refine ⟨?_, ?_, fun hn => absurd hn (not_or.2 hs)⟩
  · rintro t ⟨⟩
    exact ht
  · rintro t ⟨⟩

/-- A safe location is one line. -/
theorem breaksLine_of_isSafeLocation {location : String} (h : isSafeLocation location = true) :
    breaksLine location = false := by
  simp only [isSafeLocation, Bool.and_eq_true, Bool.not_eq_true'] at h
  exact h.1.2

end Rendering

open Rendering in
/-- What the standard renderer makes of a response is sound. -/
theorem sound_of_render {response : Response} {r : Rendering} (h : render response = .ok r) :
    r.Sound := by
  unfold render at h
  split at h
  · cases h
    exact sound_ofText _ (by decide) (by decide)
  · split at h
    · cases h
      exact sound_ofText _ (by decide) (by decide)
    · cases h
  · cases h
    exact sound_ofText _ (by decide) (by decide)
  · rename_i location status
    split at h
    · cases h
    · split at h
      · cases h
      · rename_i hl
        cases h
        refine ⟨(sound_ofStatus status).contentType, ?_, (sound_ofStatus status).body⟩
        rintro t ⟨⟩
        exact breaksLine_of_isSafeLocation (by simpa using hl)
  · cases h
    exact sound_ofStatus _
  · rename_i status
    split at h
    · cases h
    · rename_i he
      cases h
      have hcode : 400 ≤ status.code := by simpa [Status.isError] using he
      exact sound_ofText _ (by decide) ⟨by omega, by omega⟩

namespace Service

/-- What stands in place of a response that cannot be rendered is sound as well. -/
theorem sound_renderSafely (response : Response) : (renderSafely render response).1.Sound := by
  unfold renderSafely
  cases h : render response with
  | ok r => exact sound_of_render h
  | error first =>
    cases he : render (.error .internalServerError) with
    | ok r => exact sound_of_render he
    | error second => exact Rendering.sound_ofText _ (by decide) (by decide)

/-- The headers of a sound rendering can be read back. -/
theorem readable_settle {rendering : Rendering} (hs : rendering.Sound) {headers : Headers}
    (hr : headers.Readable) : (settle rendering headers).Readable := by
  have htyped : ∀ contentType, rendering.contentType = some contentType →
      (headers.set "Content-Type" contentType).Readable := fun contentType ht =>
    hr.set ⟨(by decide : PlainName "Content-Type"), hs.contentType contentType ht⟩
  have hlocated : ∀ typed : Headers, typed.Readable → ∀ location,
      rendering.location = some location → (typed.set "Location" location).Readable :=
    fun typed ht location hl =>
      ht.set ⟨(by decide : PlainName "Location"), hs.location location hl⟩
  cases hl : rendering.location with
  | none =>
    cases ht : rendering.contentType with
    | none => simpa only [settle, hl, ht] using hr.remove "content-type"
    | some contentType => simpa only [settle, hl, ht] using htyped contentType ht
  | some location =>
    cases ht : rendering.contentType with
    | none => simpa only [settle, hl, ht] using hlocated _ (hr.remove "content-type") location hl
    | some contentType =>
      simpa only [settle, hl, ht] using hlocated _ (htyped contentType ht) location hl

/-- The headers of every reply can be read back. -/
theorem readable_serve {s : Service} (hrender : s.renderer = render)
    (hi : ∀ i ∈ s.interceptors, i.KeepsReadable) (hu : ∀ r ∈ s.routes, r.handler.Unencoded)
    (request : Request) (world : World) : (s.serve request world).1.headers.Readable := by
  have hrun := Target.readable_run (Target.unencoded_lookup hu request) hi
    (Context.readable_ofRequest request (Target.lookup s.routes request).captures world)
  unfold serve encode
  rw [hrender]
  exact readable_settle (sound_renderSafely _) hrun.toHeaders

/-- A reply whose status rules a body out has none. -/
theorem body_serve {s : Service} (hrender : s.renderer = render) {request : Request} {world : World}
    (h : (s.serve request world).1.status.code = 204 ∨ (s.serve request world).1.status.code = 304) :
    (s.serve request world).1.body = [] := by
  unfold serve encode at h ⊢
  rw [hrender] at h ⊢
  exact (sound_renderSafely _).body h

end Service

end Palisade
