import Palisade.Proofs.Response.Fields
import Palisade.Service.Basic

/-!
# What a response becomes

Whatever a renderer does with a response, there is a reply: what the renderer made of it, what it made of
an error in its place, or a fixed text. The reply is described by this rendering and by the headers as the
interceptors have left them. In the other two cases nothing in it depends on the response. How a reply is
written as bytes is not said here.
-/
namespace Palisade

open Palisade.Text

/-! ### Two names apart -/

namespace Headers

variable {h h' : Headers} {name other : String}

/-- The fields that answer to neither of two names, in order. -/
def apart (h : Headers) (name other : String) : List Field := (h.others name).filter (!·.named other)

/-- The order of the two names does not matter. -/
theorem apart_comm (h : Headers) (name other : String) : h.apart name other = h.apart other name := by
  unfold apart others
  rw [List.filter_filter, List.filter_filter]
  exact List.filter_congr fun f _ => Bool.and_comm _ _

/-- Headers with the same others under one name are the same apart from both. -/
theorem apart_of_others_eq (ho : h'.others name = h.others name) (other : String) :
    h'.apart name other = h.apart name other := by
  rw [apart, apart, ho]

/-- A name in another case has the same others. -/
theorem others_of_alike (ha : alike name other = true) (h : Headers) : h.others name = h.others other :=
  List.filter_congr fun f _ => by rw [Field.named, Field.named, alike_congr_right ha]

end Headers

namespace Service

open Headers

variable {renderer : Renderer} {response : Response}

/-! ### The rendering that is sent -/

/-- The rendering that is sent for a response: its own, that of an error in its place, or a text that takes
no rendering. -/
inductive Chosen (renderer : Renderer) (response : Response) : Rendering → Prop where
  | rendered {rendering : Rendering} (made : renderer response = .ok rendering) :
      Chosen renderer response rendering
  | replaced {rendering : Rendering} {refusal : RenderError}
      (refused : renderer response = .error refusal)
      (made : renderer (.error .internalServerError) = .ok rendering) :
      Chosen renderer response rendering
  | fallback {refusal second : RenderError} (refused : renderer response = .error refusal)
      (again : renderer (.error .internalServerError) = .error second) :
      Chosen renderer response
        ⟨.internalServerError, some "text/plain; charset=utf-8", none, utf8 "Internal Server Error"⟩

/-- The rendering that is sent was chosen in this way. -/
theorem chosen_renderSafely (renderer : Renderer) (response : Response) :
    Chosen renderer response (renderSafely renderer response).1 := by
  unfold renderSafely
  cases h : renderer response with
  | ok rendering => exact .rendered h
  | error refusal =>
    cases he : renderer (.error .internalServerError) with
    | ok rendering => exact .replaced h he
    | error second => exact .fallback h he

/-- Two responses that cannot be rendered are replaced by the same. -/
theorem renderSafely_of_refused {response' : Response} {refusal refusal' : RenderError}
    (h : renderer response = .error refusal) (h' : renderer response' = .error refusal') :
    (renderSafely renderer response).1 = (renderSafely renderer response').1 := by
  unfold renderSafely
  rw [h, h']
  cases renderer (.error .internalServerError) <;> rfl

/-! ### Its headers -/

/-- The headers are those that were left, with the type of the rendering as the only type, its location as
the only one if it has one, and all other fields as they were. -/
structure Settled (rendering : Rendering) (left sent : Headers) : Prop where
  contentType : sent.getAll "Content-Type" = rendering.contentType.toList
  location : ∀ location, rendering.location = some location → sent.getAll "Location" = [location]
  noLocation : rendering.location = none → sent.getAll "Location" = left.getAll "Location"
  apart : sent.apart "Content-Type" "Location" = left.apart "Content-Type" "Location"

/-- Headers are settled for the rendering that is sent. -/
theorem settled_settle (rendering : Rendering) (left : Headers) :
    Settled rendering left (settle rendering left) := by
  have hne : alike "Location" "Content-Type" = false := by decide
  have hne' : alike "Content-Type" "Location" = false := by decide
  have ha : alike "content-type" "Content-Type" = true := by decide
  obtain ⟨typed, hlocated, hunlocated, htype, hlocation, hothers⟩ : ∃ typed : Headers,
      (∀ location, rendering.location = some location →
        settle rendering left = typed.set "Location" location) ∧
      (rendering.location = none → settle rendering left = typed) ∧
      typed.getAll "Content-Type" = rendering.contentType.toList ∧
      typed.fieldsOf "Location" = left.fieldsOf "Location" ∧
      typed.others "Content-Type" = left.others "Content-Type" := by
    refine ⟨_, fun location hl => by rw [settle, hl], fun hn => by rw [settle, hn], ?_⟩
    cases hc : rendering.contentType with
    | some contentType =>
      exact ⟨left.getAll_set_self contentType (alike_refl _), left.fieldsOf_set_of_ne contentType hne',
        left.others_set "Content-Type" contentType⟩
    | none =>
      refine ⟨?_, left.fieldsOf_remove_of_ne (by decide), ?_⟩
      · rw [getAll_eq_map_fieldsOf, left.fieldsOf_remove_self ha]
        rfl
      · rw [← others_of_alike ha, ← others_of_alike ha]
        exact left.others_remove "content-type"
  cases hl : rendering.location with
  | none =>
    rw [hunlocated hl]
    refine ⟨htype, fun location h => ?_, fun _ => ?_, apart_of_others_eq hothers _⟩
    · rw [hl] at h
      cases h
    · rw [getAll_eq_map_fieldsOf, getAll_eq_map_fieldsOf, hlocation]
  | some location =>
    rw [hlocated location hl]
    refine ⟨?_, fun location' h => ?_, fun h => ?_, ?_⟩
    · rw [getAll_eq_map_fieldsOf, fieldsOf_set_of_ne _ location hne, ← getAll_eq_map_fieldsOf, htype]
    · rw [hl] at h
      cases h
      exact typed.getAll_set_self location (alike_refl _)
    · rw [hl] at h
      cases h
    · rw [apart_comm, apart_of_others_eq (typed.others_set "Location" location), apart_comm,
        apart_of_others_eq hothers]

/-! ### The reply -/

/-- The headers as they were left, and the cookies that wait. -/
def leftBy (ctx : Context) : Headers :=
  ⟨ctx.headers.headers.fields ++ ctx.headers.cookies.map fun c => ⟨"Set-Cookie", c.display⟩⟩

/-- Every response becomes a reply, and the reply is what was rendered under the headers that were left.
Of a response that is refused it has nothing: any other that is refused becomes the same reply. With the
standard renderer the status is that of the response, and an error if it is refused. -/
theorem encode_complete (renderer : Renderer) (response : Response) (ctx : Context) (keepAlive : Bool) :
    (∃ rendering, Chosen renderer response rendering ∧
      (encode renderer response ctx keepAlive).1.status = rendering.status ∧
      (encode renderer response ctx keepAlive).1.body = rendering.body ∧
      Settled rendering (leftBy ctx) (encode renderer response ctx keepAlive).1.headers) ∧
    (∀ refusal response' refusal', renderer response = .error refusal →
      renderer response' = .error refusal' →
      (encode renderer response ctx keepAlive).1 = (encode renderer response' ctx keepAlive).1) ∧
    (∀ rendering, render response = .ok rendering →
      (encode render response ctx keepAlive).1.status = response.status) ∧
    (∀ refusal, render response = .error refusal →
      (encode render response ctx keepAlive).1.status = .internalServerError) := by
  have hleft : ctx.headers.toHeaders = leftBy ctx := rfl
  refine ⟨⟨_, chosen_renderSafely renderer response, rfl, rfl, ?_⟩, ?_, ?_, ?_⟩
  · exact hleft ▸ settled_settle _ _
  · intro refusal response' refusal' h h'
    unfold encode
    simp only [renderSafely_of_refused h h']
  · intro rendering h
    have hs : (renderSafely render response).1 = rendering := by rw [renderSafely, h]
    exact (congrArg Rendering.status hs).trans (status_of_render h)
  · intro refusal h
    have hs : (renderSafely render response).1 =
        .ofText .internalServerError Rendering.plainType Status.internalServerError.reason.toList := by
      rw [renderSafely, h]
      rfl
    exact congrArg Rendering.status hs

end Service

end Palisade
