import Palisade.Proofs.Service.Layers

/-!
# The journal is only written

Nothing that happens while a request is served reads the journal: a step adds its entries behind those
that are there, and what it does otherwise is the same whatever these are. This is said of interceptors,
handlers and whole runs; it is what the interceptors of the library and scripted ones have in common, as
is shown where they are described. An entry that is added in the middle of a run then shows in the journal
and nowhere else.
-/
namespace Palisade

namespace Context

/-- The context with entries in front of those of its journal. -/
def behind (ctx : Context) (past : List Entry) : Context :=
  { ctx with world := { ctx.world with journal := past ++ ctx.world.journal } }

/-- The context with an empty journal. -/
def forget (ctx : Context) : Context := { ctx with world := { ctx.world with journal := [] } }

variable (ctx : Context) (past : List Entry)

/-- The journal has no part in the request. -/
@[simp] theorem request_behind : (ctx.behind past).request = ctx.request := rfl

/-- The journal has no part in the captures. -/
@[simp] theorem captures_behind : (ctx.behind past).captures = ctx.captures := rfl

/-- The journal has no part in the extensions. -/
@[simp] theorem extensions_behind : (ctx.behind past).extensions = ctx.extensions := rfl

/-- The journal has no part in the headers. -/
@[simp] theorem headers_behind : (ctx.behind past).headers = ctx.headers := rfl

/-- The journal has no part in the clock. -/
@[simp] theorem millis_behind : (ctx.behind past).world.millis = ctx.world.millis := rfl

/-- A new entry stands behind those of the past. -/
theorem write_behind (e : Entry) : (ctx.behind past).write e = (ctx.write e).behind past := by
  simp only [write, behind, World.write, List.append_assoc]

/-- A new event stands behind those of the past. -/
theorem record_behind (e : Event) : (ctx.behind past).record e = (ctx.record e).behind past :=
  write_behind ctx past (.event e)

/-- A context is what is left of it without its journal, behind its journal. -/
theorem behind_forget : ctx.forget.behind ctx.world.journal = ctx := by
  simp only [forget, behind, List.append_nil]

/-- An event is an entry of the past for all that comes after it. -/
theorem record_eq_behind (e : Event) :
    ctx.record e = ctx.forget.behind (ctx.world.journal ++ [.event e]) := by
  simp only [forget, behind, record, World.record, World.write, List.append_nil]

end Context

/-! ### Steps that do not read the journal -/

/-- A step does the same whatever the journal says, and adds its entries behind those that are there. -/
def Blind {α : Type} (step : Context → α × Context) : Prop :=
  ∀ ctx past, step (ctx.behind past) = ((step ctx).1, (step ctx).2.behind past)

namespace Blind

variable {α : Type}

/-- Leaving the context as it is. -/
theorem const (value : α) : Blind fun ctx => (value, ctx) := fun _ _ => rfl

/-- One of two steps, as the context says apart from its journal. -/
theorem ite {c : Context → Prop} [DecidablePred c] {f g : Context → α × Context} (hf : Blind f)
    (hg : Blind g) (hc : ∀ ctx past, c (ctx.behind past) ↔ c ctx) :
    Blind fun ctx => if c ctx then f ctx else g ctx := by
  intro ctx past
  by_cases h : c ctx
  · simp only [if_pos h, if_pos ((hc ctx past).2 h)]
    exact hf ctx past
  · simp only [if_neg h, if_neg fun hb => h ((hc ctx past).1 hb)]
    exact hg ctx past

/-- Steps one after the other, the second with what the first has given. -/
theorem bind {β : Type} {f : Context → α × Context} {g : α → Context → β × Context}
    (hf : Blind f) (hg : ∀ value, Blind (g value)) : Blind fun ctx => g (f ctx).1 (f ctx).2 := by
  intro ctx past
  simp only [hf ctx past]
  exact hg _ _ past

end Blind

/-- Neither before the handler nor behind it does the interceptor read the journal. -/
structure Interceptor.Blind (i : Interceptor) : Prop where
  before : ∀ configs, Palisade.Blind (i.before configs)
  commit : ∀ configs response, Palisade.Blind (i.commit configs response)

/-- The handler of the target, if it has one, does not read the journal. -/
def Target.Blind : Target → Prop
  | .route r _ => Palisade.Blind r.handler
  | _ => True

/-- A target whose handler does not read the journal answers without reading it. -/
theorem Target.Blind.answer {target : Target} (h : target.Blind) :
    Palisade.Blind target.answer := by
  cases target with
  | route r captures => exact h
  | methodNotAllowed => exact fun _ _ => rfl
  | notFound => exact fun _ _ => rfl

/-- Whatever a request finds among blind handlers is blind. -/
theorem Target.blind_lookup {routes : List Route} (h : ∀ r ∈ routes, Palisade.Blind r.handler)
    (request : Request) : (lookup routes request).Blind := by
  cases hl : lookup routes request with
  | route r captures => exact h r (mem_of_lookup hl)
  | methodNotAllowed => trivial
  | notFound => trivial

/-- A run through interceptors that do not read the journal does not read it. -/
theorem Target.blind_run {target : Target} {is : List Interceptor} (hi : ∀ i ∈ is, i.Blind)
    (ht : target.Blind) : Palisade.Blind (target.run is) := by
  induction is with
  | nil => exact ht.answer
  | cons i rest ih =>
    rw [List.forall_mem_cons] at hi
    intro ctx past
    have hb := hi.1.before target.configs ctx past
    cases hf : i.before target.configs ctx with
    | mk flow next =>
      rw [hf] at hb
      cases flow with
      | pass =>
        rw [run_cons_of_pass hb, run_cons_of_pass hf, ih hi.2 next past]
        exact hi.1.commit target.configs _ _ past
      | respond response =>
        rw [run_cons_of_respond hb, run_cons_of_respond hf, Context.record_behind]
        exact hi.1.commit target.configs _ _ past

/-- Finishing a response through interceptors that do not read the journal does not read it. -/
theorem Passage.blind_finish (configs : Configs) (response : Response) {is : List Interceptor}
    (hi : ∀ i ∈ is, i.Blind) : Blind fun ctx => finish configs response ctx is := by
  induction is generalizing response with
  | nil => exact fun _ _ => rfl
  | cons i rest ih =>
    rw [List.forall_mem_cons] at hi
    intro ctx past
    have hc := hi.1.commit configs response ctx past
    simp only [finish, hc]
    exact ih _ hi.2 _ past

/-! ### An entry in the middle -/

/-- The second context is the first but for an entry in its journal, which the first does not have. -/
def Context.Inserts (entry : Entry) (earlier : List Entry) (plain noted : Context) : Prop :=
  ∃ rest : Context, plain = rest.behind earlier ∧ noted = rest.behind (earlier ++ [entry])

/-- An event is one entry more. -/
theorem Context.inserts_record (ctx : Context) (e : Event) :
    Inserts (.event e) ctx.world.journal ctx (ctx.record e) :=
  ⟨ctx.forget, ctx.behind_forget.symm, ctx.record_eq_behind e⟩

/-- A step that does not read the journal gives the same with the entry and without it. -/
theorem Blind.inserts {α : Type} {step : Context → α × Context} (h : Blind step) {entry : Entry}
    {earlier : List Entry} {plain noted : Context} (hi : plain.Inserts entry earlier noted) :
    (step noted).1 = (step plain).1 ∧ (step plain).2.Inserts entry earlier (step noted).2 := by
  obtain ⟨rest, rfl, rfl⟩ := hi
  rw [h rest, h rest]
  exact ⟨rfl, (step rest).2, rfl, rfl⟩

/-- An interceptor that records an event and does nothing else inserts it into the journal. -/
theorem Target.inserts_run {target : Target} {front back : List Interceptor} {i : Interceptor}
    {ctx next : Context} {e : Event} (hp : Passed target.configs front ctx next)
    (hb : i.before target.configs next = (.pass, next.record e))
    (hc : ∀ response ctx, i.commit target.configs response ctx = (response, ctx))
    (hi : ∀ i ∈ front ++ back, i.Blind) (ht : target.Blind) :
    (target.run (front ++ i :: back) ctx).1 = (target.run (front ++ back) ctx).1 ∧
      (target.run (front ++ back) ctx).2.Inserts (.event e) next.world.journal
        (target.run (front ++ i :: back) ctx).2 := by
  rw [List.forall_mem_append] at hi
  have hfront : ∀ j ∈ front.reverse, j.Blind := fun j hm => hi.1 j (List.mem_reverse.1 hm)
  have houter : Palisade.Blind fun ctx => Passage.finish target.configs (target.run back ctx).1
      (target.run back ctx).2 front.reverse :=
    (blind_run hi.2 ht).bind fun response => Passage.blind_finish target.configs response hfront
  rw [run_append_of_passed hp, run_append_of_passed hp, run_cons_of_pass hb, hc]
  exact houter.inserts (next.inserts_record e)

end Palisade
