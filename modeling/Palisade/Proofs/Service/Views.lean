import Palisade.Proofs.Response.Operations
import Palisade.Proofs.Service.Trace
import Palisade.Script.Handler

/-!
# What can be seen of headers

Headers are looked at by name: which values a name has, and whether it is claimed. Two maps of headers
that agree on this for every name cannot be told apart, although their fields may stand in another order.
Operations do not tell them apart either: on two such maps an operation gives the same and leaves two
such maps again. So scripted handlers answer alike on them, and the replies have the same values under
every name.
-/
namespace Palisade

open Palisade.Text

/-! ### Fields -/

namespace Headers

/-- The two have the same values under every name. -/
def Alike (a b : Headers) : Prop := ∀ name, a.getAll name = b.getAll name

variable {a b : Headers}

/-- An insertion cannot be told apart. -/
theorem Alike.insert (h : Alike a b) (name value : String) :
    Alike (a.insert name value) (b.insert name value) := by
  intro other
  rw [getAll_insert, getAll_insert, h other]

/-- Nor can a value in place of others. -/
theorem Alike.set (h : Alike a b) (name value : String) : Alike (a.set name value) (b.set name value) := by
  intro other
  rw [getAll_set, getAll_set, h other]

/-- Nor can a removal. -/
theorem Alike.remove (h : Alike a b) (name : String) : Alike (a.remove name) (b.remove name) := by
  intro other
  rw [getAll_remove, getAll_remove, h other]

/-- Nor can several insertions. -/
theorem Alike.insertAll (h : Alike a b) (name : String) (values : List String) :
    Alike (ResponseHeaders.insertAll a name values) (ResponseHeaders.insertAll b name values) := by
  induction values generalizing a b with
  | nil => exact h
  | cons value rest ih => exact ih (h.insert name value)

end Headers

/-! ### Headers under construction -/

namespace ResponseHeaders

/-- The two cannot be told apart by looking at names, and have queued the same cookies. -/
structure Alike (h h' : ResponseHeaders) : Prop where
  values : Headers.Alike h.headers h'.headers
  isClaimed : ∀ name, h.isClaimed name = h'.isClaimed name
  cookies : h.cookies = h'.cookies

/-- Operations on them were both refused for one reason, or have left maps that are alike again. -/
def AlikeResults : Except HeaderError ResponseHeaders → Except HeaderError ResponseHeaders → Prop
  | .ok h, .ok h' => Alike h h'
  | .error e, .error e' => e = e'
  | _, _ => False

variable {h h' : ResponseHeaders}

/-- Maps that are the same at a name in one spelling are so in every other. -/
theorem SameAt.of_alike {name other : String} (hs : SameAt h h' name) (ha : alike name other = true) :
    SameAt h h' other := by
  have hf : ∀ fields : Headers, fields.fieldsOf name = fields.fieldsOf other := by
    intro fields
    simp only [Headers.fieldsOf, Field.named, alike_congr_right ha]
  refine ⟨?_, ?_⟩
  · rw [← isClaimed_eq_of_alike h ha, ← isClaimed_eq_of_alike h' ha]
    exact hs.isClaimed_eq
  · rw [← hf, ← hf]
    exact hs.fieldsOf_eq

/-- Maps that are the same at every name cannot be told apart. -/
theorem Alike.of_same (hs : ∀ name, SameAt h h' name) (hc : h.cookies = h'.cookies) : Alike h h' where
  values name := congrArg (List.map Field.value) (hs name).fieldsOf_eq.symm
  isClaimed name := (hs name).isClaimed_eq.symm
  cookies := hc

/-- A look at a name finds the same. -/
theorem Alike.get?_eq (ha : Alike h h') (name : String) : h.get? name = h'.get? name := by
  rw [get?, get?, Headers.get?_eq_head?_getAll, Headers.get?_eq_head?_getAll, ha.values name]

/-- Writing freely. -/
theorem Alike.write (ha : Alike h h') (name value : String) {change : Headers → Headers}
    (hc : ∀ {a b}, Headers.Alike a b → Headers.Alike (change a) (change b)) :
    AlikeResults (h.write name value change) (h'.write name value change) := by
  unfold ResponseHeaders.write checkWritable
  rw [ha.isClaimed name]
  cases checkName name with
  | error e => exact rfl
  | ok =>
    cases h'.isClaimed name with
    | true => exact rfl
    | false =>
      cases checkValue name value with
      | error e => exact rfl
      | ok => exact ⟨hc ha.values, ha.isClaimed, ha.cookies⟩

/-- Claiming: both are refused for one reason, or both give the same claim. -/
theorem Alike.claim (ha : Alike h h') (name : String) :
    (∃ e, h.claim name = .error e ∧ h'.claim name = .error e) ∨
      ∃ c next next', h.claim name = .ok (c, next) ∧ h'.claim name = .ok (c, next') ∧
        Alike next next' := by
  unfold ResponseHeaders.claim
  rw [ha.isClaimed name]
  cases checkName name with
  | error e => exact .inl ⟨e, rfl, rfl⟩
  | ok =>
    cases h'.isClaimed name with
    | true => exact .inl ⟨_, rfl, rfl⟩
    | false =>
      refine .inr ⟨_, _, _, rfl, rfl, ha.values, fun other => ?_, ha.cookies⟩
      rw [isClaimed_cons, isClaimed_cons, ha.isClaimed other]

/-- Writing with a claim. -/
theorem Alike.setClaimed (ha : Alike h h') (c : Claim) (values : List String) :
    AlikeResults (h.setClaimed c values) (h'.setClaimed c values) := by
  unfold ResponseHeaders.setClaimed
  cases checkValues c.name values with
  | error e => exact rfl
  | ok => exact ⟨(ha.values.remove c.name).insertAll c.name values, ha.isClaimed, ha.cookies⟩

/-- A cookie more cannot be told apart. -/
theorem Alike.addCookie (ha : Alike h h') (cookie : Cookie) :
    Alike (h.addCookie cookie) (h'.addCookie cookie) := by
  refine ⟨ha.values, ha.isClaimed, ?_⟩
  simp only [ResponseHeaders.addCookie, ha.cookies]

/-- What is sent of them has the same values under every name. -/
theorem Alike.toHeaders (ha : Alike h h') : Headers.Alike h.toHeaders h'.toHeaders := by
  intro name
  have hv := ha.values name
  simp only [Headers.getAll] at hv
  simp only [ResponseHeaders.toHeaders, Headers.getAll, List.filter_append, List.map_append, hv,
    ha.cookies]

end ResponseHeaders

open ResponseHeaders

/-! ### Handlers -/

namespace HeaderStep

variable {h h' : ResponseHeaders} {claims : List (String × Claim)}

/-- Results that are alike leave contexts that are alike, with the same claims and the same answer. -/
theorem attempt_alike {result result' : Except HeaderError ResponseHeaders} (ha : Alike h h')
    (hr : AlikeResults result result') :
    (attempt ⟨h, claims⟩ result).1 = (attempt ⟨h', claims⟩ result').1 ∧
      (attempt ⟨h, claims⟩ result).2.claims = (attempt ⟨h', claims⟩ result').2.claims ∧
      Alike (attempt ⟨h, claims⟩ result).2.headers (attempt ⟨h', claims⟩ result').2.headers := by
  cases result with
  | ok next =>
    cases result' with
    | ok next' => exact ⟨rfl, rfl, hr⟩
    | error e => exact hr.elim
  | error e =>
    cases result' with
    | ok next' => exact hr.elim
    | error e' =>
      obtain rfl : e = e' := hr
      exact ⟨rfl, rfl, ha⟩

/-- An operation gives the same on headers that cannot be told apart, and leaves such headers again. -/
theorem run_alike (step : HeaderStep) (ha : Alike h h') (claims : List (String × Claim)) :
    (step.run ⟨h, claims⟩).1 = (step.run ⟨h', claims⟩).1 ∧
      (step.run ⟨h, claims⟩).2.claims = (step.run ⟨h', claims⟩).2.claims ∧
      Alike (step.run ⟨h, claims⟩).2.headers (step.run ⟨h', claims⟩).2.headers := by
  cases step with
  | set name value => exact attempt_alike ha (ha.write name value fun hf => hf.set name value)
  | add name value => exact attempt_alike ha (ha.write name value fun hf => hf.insert name value)
  | del name => exact attempt_alike ha (ha.write name "" fun hf => hf.remove name)
  | get name => exact ⟨congrArg HeaderOutcome.value (ha.get?_eq name), rfl, ha⟩
  | values name => exact ⟨congrArg HeaderOutcome.values (ha.values name), rfl, ha⟩
  | isClaimed name => exact ⟨congrArg HeaderOutcome.truth (ha.isClaimed name), rfl, ha⟩
  | claim name =>
    simp only [run]
    rcases ha.claim name with ⟨e, hc, hc'⟩ | ⟨c, next, next', hc, hc', hnext⟩
    · rw [hc, hc']
      exact ⟨rfl, rfl, ha⟩
    · rw [hc, hc']
      exact ⟨rfl, rfl, hnext⟩
  | setClaimed name texts =>
    simp only [run]
    cases claims.lookup name with
    | none => exact ⟨rfl, rfl, ha⟩
    | some held => exact attempt_alike ha (ha.setClaimed held texts)
  | cookie name value changes =>
    simp only [run]
    cases Cookie.new name value with
    | error e => exact ⟨rfl, rfl, ha⟩
    | ok fresh =>
      have hnext := ha.addCookie (fresh.changes changes).1
      exact ⟨by simp only [hnext.cookies], rfl, hnext⟩

end HeaderStep

namespace Context

/-- The two are the same but for their headers, and these cannot be told apart. -/
structure Alike (ctx ctx' : Context) : Prop where
  request : ctx.request = ctx'.request
  captures : ctx.captures = ctx'.captures
  extensions : ctx.extensions = ctx'.extensions
  headers : ResponseHeaders.Alike ctx.headers ctx'.headers
  world : ctx.world = ctx'.world

variable {ctx ctx' : Context}

/-- An entry in the journal says nothing of headers. -/
theorem Alike.write (ha : Alike ctx ctx') (e : Entry) : Alike (ctx.write e) (ctx'.write e) :=
  { ha with world := congrArg (World.write · e) ha.world }

end Context

/-- The handler looks at headers by name alone: on contexts that are the same otherwise it answers the
same, and leaves such contexts again. -/
def Handler.LooksByName (handler : Handler) : Prop :=
  ∀ ctx ctx', Context.Alike ctx ctx' →
    (handler ctx).1 = (handler ctx').1 ∧ Context.Alike (handler ctx).2 (handler ctx').2

namespace HandlerScript

variable {ctx ctx' : Context}

/-- A step of a handler does the same on both. -/
theorem run_alike (step : HandlerStep) (ha : Context.Alike ctx ctx') (claims : List (String × Claim)) :
    (step.run ctx claims).1 = (step.run ctx' claims).1 ∧
      Context.Alike (step.run ctx claims).2.1 (step.run ctx' claims).2.1 ∧
      (step.run ctx claims).2.2 = (step.run ctx' claims).2.2 := by
  cases step with
  | header step =>
    obtain ⟨ho, hc, hh⟩ := step.run_alike ha.headers claims
    exact ⟨congrArg HandlerOutcome.header ho, { ha with headers := hh }, hc⟩
  | headers name => exact ⟨congrArg HandlerOutcome.values (ha.headers.values name), ha, rfl⟩
  | capture name => simp only [HandlerStep.run, ha.captures, ha, and_self]
  | query key | form field | bodyJson => simp only [HandlerStep.run, ha.request, ha, and_self]
  | nonce => simp only [HandlerStep.run, Context.nonce?, ha.extensions, ha, and_self]
  | token => simp only [HandlerStep.run, Context.token?, ha.extensions, ha, and_self]

/-- Steps of a handler do the same on both. -/
theorem runSteps_alike (describe : HandlerOutcome → String) (steps : List HandlerStep)
    (ha : Context.Alike ctx ctx') (claims : List (String × Claim)) :
    Context.Alike (runSteps describe steps ctx claims) (runSteps describe steps ctx' claims) := by
  induction steps generalizing ctx ctx' claims with
  | nil => exact ha
  | cons step rest ih =>
    obtain ⟨ho, hctx, hclaims⟩ := run_alike step ha claims
    simp only [runSteps, ho, hclaims]
    exact ih (hctx.write _) _

/-- The answer of a handler is the same on both. -/
theorem respond_alike (describe : HandlerOutcome → String) (answer : HandlerAnswer)
    (ha : Context.Alike ctx ctx') :
    (respond describe ctx answer).1 = (respond describe ctx' answer).1 ∧
      Context.Alike (respond describe ctx answer).2 (respond describe ctx' answer).2 := by
  cases answer with
  | plain => exact ⟨rfl, ha⟩
  | capture name => simp only [respond, ha.captures, ha, and_self]
  | body => simp only [respond, ha.request, ha, and_self]
  | plan plan =>
    simp only [respond]
    cases plan.build with
    | ok response => exact ⟨rfl, ha⟩
    | error e => exact ⟨rfl, ha.write _⟩

/-- A handler that is a script looks at headers by name. -/
theorem looksByName (describe : HandlerOutcome → String) (script : HandlerScript) :
    (script.handler describe).LooksByName := by
  intro ctx ctx' ha
  obtain ⟨hr, hc⟩ := respond_alike describe script.answer (runSteps_alike describe script.steps ha [])
  simp only [handler, hr, writtenNote, hc.headers.cookies, hc.write, and_self]

end HandlerScript

/-! ### Replies -/

namespace Service

/-- The headers with the type and the location of a rendering. -/
theorem settle_alike (rendering : Rendering) {a b : Headers} (ha : Headers.Alike a b) :
    Headers.Alike (settle rendering a) (settle rendering b) := by
  unfold settle
  cases rendering.contentType with
  | none =>
    cases rendering.location with
    | none => exact ha.remove _
    | some location => exact (ha.remove _).set _ _
  | some contentType =>
    cases rendering.location with
    | none => exact ha.set _ _
    | some location => exact (ha.set _ _).set _ _

/-- What becomes of a response in two contexts that are alike: replies with the same status and body, and
with the same values under every name, and the same world. -/
theorem conclude_alike (s : Service) (request : Request) (response : Response) {ctx ctx' : Context}
    (ha : Context.Alike ctx ctx') :
    let first := s.conclude request (response, ctx)
    let second := s.conclude request (response, ctx')
    first.1.status = second.1.status ∧ first.1.body = second.1.body ∧
      (∀ name, first.1.headers.getAll name = second.1.headers.getAll name) ∧
      first.2 = second.2 := by
  refine ⟨rfl, rfl, settle_alike _ ha.headers.toHeaders, ?_⟩
  simp only [conclude, encode, ha.world, servedEvent]

end Service

end Palisade
