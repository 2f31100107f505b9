import Mathlib.Data.List.Dedup
import Mathlib.Data.List.Pairwise
import Palisade.Proofs.Response.Claims

/-!
# Histories of headers

A map of headers that began empty has gone through some list of operations, each with what it gave.
What a single operation can do is said once; from it follows what every history has come to: which
fields can be in the map, who may claim a name, what the claim of a name has written, and which cookies
wait. Claims of other maps are not among the operations.
-/
namespace Palisade

open Palisade.Text ResponseHeaders

/-- A field that can be sent as a header: its name is a token and not that of cookies, and its value
keeps its line. -/
structure Field.Sendable (f : Field) : Prop where
  token : isToken f.name = true
  notCookie : alike f.name cookieName = false
  keepsLine : breaksLine f.value = false

/-- A field whose name and value were checked can be sent. -/
theorem Field.Sendable.of_check {name value : String} (hn : checkName name = .ok ())
    (hv : breaksLine value = false) : Field.Sendable ⟨name, value⟩ where
  token := (checkName_eq_ok_iff.1 hn).1
  notCookie := (checkName_eq_ok_iff.1 hn).2
  keepsLine := hv

/-- Every field of the map can be sent. -/
def Headers.Sendable (h : Headers) : Prop := ∀ f ∈ h.fields, f.Sendable

namespace Headers

/-- No fields can be sent. -/
theorem sendable_empty : Headers.empty.Sendable := List.forall_mem_nil _

/-- Fields that can be sent still can without a name. -/
theorem Sendable.remove {h : Headers} (hs : h.Sendable) (name : String) : (h.remove name).Sendable :=
  forall_remove hs name

/-- Fields that can be sent still can with one more of that kind. -/
theorem Sendable.insert {h : Headers} (hs : h.Sendable) {name value : String}
    (hf : Field.Sendable ⟨name, value⟩) : (h.insert name value).Sendable := forall_insert hs hf

/-- Fields that can be sent still can with one of that kind in place of others. -/
theorem Sendable.set {h : Headers} (hs : h.Sendable) {name value : String}
    (hf : Field.Sendable ⟨name, value⟩) : (h.set name value).Sendable :=
  forall_set hs hf fun _ hg => ⟨hg.token, hg.notCookie, hf.keepsLine⟩

end Headers

/-- Fields that can be sent still can with values of a name that were checked. -/
theorem ResponseHeaders.sendable_insertAll {fields : Headers} (hs : fields.Sendable) {name : String}
    (hn : checkName name = .ok ()) {values : List String} (hv : values.any breaksLine = false) :
    (insertAll fields name values).Sendable := by
  refine forall_insertAll hs fun value hm => .of_check hn ?_
  simpa using List.any_eq_false.1 hv value hm

/-! ### Cookies of one name -/

namespace Cookie

/-- Of the cookies of each name the last, in the order of the last ones. -/
def latest : List Cookie → List Cookie
  | [] => []
  | c :: later => if later.any (·.name == c.name) then latest later else c :: latest later

/-- Each name is left once. -/
theorem map_name_latest (cookies : List Cookie) :
    (latest cookies).map name = (cookies.map name).dedup := by
  induction cookies with
  | nil => rfl
  | cons c later ih =>
    by_cases hc : c.name ∈ later.map name
    · have hany : later.any (·.name == c.name) = true := by simpa using hc
      rw [latest, if_pos hany, List.map_cons, List.dedup_cons_of_mem hc, ih]
    · have hany : later.any (·.name == c.name) = false := by simpa using hc
      rw [latest, if_neg (by simp [hany]), List.map_cons, List.map_cons,
        List.dedup_cons_of_notMem hc, ih]

/-- A further cookie takes the place of an earlier one of its name, behind all others. -/
theorem latest_append_singleton (cookies : List Cookie) (c : Cookie) :
    latest (cookies ++ [c]) = ((latest cookies).filter fun d => d.name != c.name) ++ [c] := by
  induction cookies with
  | nil => simp [latest]
  | cons first later ih =>
    rw [List.cons_append, latest, latest, List.any_append, ih]
    cases hany : later.any (·.name == first.name) with
    | true => simp
    | false =>
      by_cases hc : c.name = first.name
      · simp [hc]
      · have hne : (first.name != c.name) = true := by simpa using Ne.symm hc
        simp [hc, hne]

/-- No change of a cookie changes its name. -/
theorem name_change {c changed : Cookie} {x : Change} (h : c.change x = .ok changed) :
    changed.name = c.name := by
  cases x with
  | path | domain =>
    simp only [change] at h
    split at h
    · cases h
      rfl
    · cases h
  | _ =>
    cases h
    rfl

/-- Changes keep the name of a cookie. -/
theorem name_changes (c : Cookie) (xs : List Change) : (c.changes xs).1.name = c.name := by
  induction xs generalizing c with
  | nil => rfl
  | cons x rest ih =>
    unfold changes
    cases h : c.change x with
    | ok changed => exact (ih changed).trans (name_change h)
    | error e => exact ih c

/-- A new cookie has the name that was asked for. -/
theorem name_new {name value : String} {c : Cookie} (h : new name value = .ok c) : c.name = name := by
  unfold new at h
  split at h
  · cases h
  · split at h
    · cases h
    · cases h
      rfl

end Cookie

/-! ### What an operation does -/

/-- Nothing was written and nothing claimed. -/
def HeaderRun.start : HeaderRun := ⟨.empty, []⟩

/-- The run with its fields changed. -/
def HeaderRun.rewrite (run : HeaderRun) (change : Headers → Headers) : HeaderRun :=
  { run with headers := { run.headers with headers := change run.headers.headers } }

/-- Whether an operation was refused. -/
def HeaderOutcome.isRefusal : HeaderOutcome → Bool
  | refused _ | noClaim | cookieRefused _ => true
  | _ => false

namespace HeaderStep

/-- The operation would write this field, or drop it. -/
def touches : HeaderStep → Field → Bool
  | set name _, f | add name _, f | del name, f | setClaimed name _, f => f.named name
  | _, _ => false

/-- The operation would queue a cookie of this name. -/
def queues : HeaderStep → String → Bool
  | cookie name _ _, other => name == other
  | _, _ => false

/-- The cookie that an operation queues. -/
def queued? : HeaderStep → Option Cookie
  | cookie name value changes =>
    match Cookie.new name value with
    | .ok fresh => some (fresh.changes changes).1
    | .error _ => none
  | _ => none

/-- The name that was claimed, if this is an operation that claimed one. -/
def granted? : HeaderStep × HeaderOutcome → Option String
  | (claim name, .claimed _) => some name
  | _ => none

/-- The values that were written with the claim of a name, if this is an operation that wrote some. -/
def accepted? (name : String) : HeaderStep × HeaderOutcome → Option (List String)
  | (setClaimed spelling texts, .done) => if spelling = name then some texts else none
  | _ => none

/-- Everything that an operation can do to a run, with what it gives. -/
inductive Makes (run : HeaderRun) : HeaderStep → HeaderOutcome → HeaderRun → Prop where
  | set {name value : String} (valid : checkName name = .ok ())
      (free : run.headers.isClaimed name = false) (keepsLine : breaksLine value = false) :
      Makes run (set name value) .done (run.rewrite fun fields => fields.set name value)
  | add {name value : String} (valid : checkName name = .ok ())
      (free : run.headers.isClaimed name = false) (keepsLine : breaksLine value = false) :
      Makes run (add name value) .done (run.rewrite fun fields => fields.insert name value)
  | del {name : String} (valid : checkName name = .ok ())
      (free : run.headers.isClaimed name = false) :
      Makes run (del name) .done (run.rewrite fun fields => fields.remove name)
  | claim {name : String} (valid : checkName name = .ok ())
      (free : run.headers.isClaimed name = false) :
      Makes run (claim name) (.claimed name)
        ⟨{ run.headers with claimed := lower name :: run.headers.claimed },
          (name, ⟨name⟩) :: run.claims⟩
  | fill {name : String} {c : Claim} {texts : List String} (kept : run.claims.lookup name = some c)
      (keepLines : texts.any breaksLine = false) :
      Makes run (setClaimed name texts) .done
        (run.rewrite fun fields => insertAll (fields.remove c.name) c.name texts)
  | queue {name value : String} {changes : List Cookie.Change} {fresh : Cookie} {names : List String}
      {results : List (Except CookieError Unit)} (built : Cookie.new name value = .ok fresh) :
      Makes run (cookie name value changes) (.queued names results)
        { run with headers := run.headers.addCookie (fresh.changes changes).1 }
  /-- It is refused, or only looks. -/
  | idle {step : HeaderStep} {outcome : HeaderOutcome} (unqueued : step.queued? = none)
      (ungranted : granted? (step, outcome) = none)
      (unaccepted : ∀ name, accepted? name (step, outcome) = none) : Makes run step outcome run

/-- An operation that is tried makes what it makes if it succeeds, and its error otherwise. -/
theorem makes_attempt {run : HeaderRun} {step : HeaderStep}
    {result : Except HeaderError ResponseHeaders}
    (ok : ∀ h, result = .ok h → Makes run step .done { run with headers := h })
    (unqueued : step.queued? = none) :
    Makes run step (attempt run result).1 (attempt run result).2 := by
  cases result with
  | ok h => exact ok h rfl
  | error e =>
    refine .idle unqueued ?_ fun name => ?_
    all_goals cases step <;> rfl

/-- Every operation does one of these things. -/
theorem makes_run (run : HeaderRun) (step : HeaderStep) :
    Makes run step (step.run run).1 (step.run run).2 := by
  cases step with
  | set name value =>
    refine makes_attempt (fun h hw => ?_) rfl
    obtain ⟨valid, free, keepsLine, rfl⟩ := write_eq_ok_iff.1 hw
    exact .set valid free keepsLine
  | add name value =>
    refine makes_attempt (fun h hw => ?_) rfl
    obtain ⟨valid, free, keepsLine, rfl⟩ := write_eq_ok_iff.1 hw
    exact .add valid free keepsLine
  | del name =>
    refine makes_attempt (fun h hw => ?_) rfl
    obtain ⟨valid, free, -, rfl⟩ := write_eq_ok_iff.1 hw
    exact .del valid free
  | get name => exact .idle rfl rfl fun _ => rfl
  | values name => exact .idle rfl rfl fun _ => rfl
  | isClaimed name => exact .idle rfl rfl fun _ => rfl
  | claim name =>
    cases hc : run.headers.claim name with
    | error e =>
      simp only [HeaderStep.run, hc]
      exact .idle rfl rfl fun _ => rfl
    | ok p =>
      obtain ⟨c, h⟩ := p
      obtain ⟨valid, free, rfl, rfl⟩ := claim_eq_ok_iff.1 hc
      simp only [HeaderStep.run, hc]
      exact .claim valid free
  | setClaimed name texts =>
    cases hl : run.claims.lookup name with
    | none =>
      simp only [HeaderStep.run, hl]
      exact .idle rfl rfl fun _ => rfl
    | some c =>
      simp only [HeaderStep.run, hl]
      refine makes_attempt (fun h hw => ?_) rfl
      obtain ⟨keepLines, rfl⟩ := setClaimed_eq_ok_iff.1 hw
      exact .fill hl keepLines
  | cookie name value changes =>
    cases hc : Cookie.new name value with
    | error e =>
      have hq : (cookie name value changes).queued? = none := by simp only [queued?, hc]
      simp only [HeaderStep.run, hc]
      exact .idle hq rfl fun _ => rfl
    | ok fresh =>
      simp only [HeaderStep.run, hc]
      exact .queue hc

namespace Makes

variable {run next : HeaderRun} {step : HeaderStep} {outcome : HeaderOutcome}

/-- An operation that is refused changes nothing. -/
theorem eq_of_refusal (h : Makes run step outcome next) (hr : outcome.isRefusal = true) :
    next = run := by
  cases h with
  | idle => rfl
  | set | add | del | claim | fill | queue => simp [HeaderOutcome.isRefusal] at hr

end Makes

/-! ### What every run keeps -/

/-- The fields can be sent; every claim that was made is of the name it is kept under, which is claimed;
and no two are of one name. -/
structure Orderly (run : HeaderRun) : Prop where
  sendable : run.headers.headers.Sendable
  kept : ∀ p ∈ run.claims, p.2 = ⟨p.1⟩ ∧ checkName p.1 = .ok () ∧ run.headers.isClaimed p.1 = true
  distinct : run.claims.Pairwise fun p q => alike p.1 q.1 = false

/-- The start is orderly. -/
theorem orderly_start : Orderly .start where
  sendable := Headers.sendable_empty
  kept := List.forall_mem_nil _
  distinct := .nil

/-- The claim that is found under a name is a claim of this name. -/
theorem Orderly.of_lookup {run : HeaderRun} (ho : Orderly run) {name : String} {c : Claim}
    (hl : run.claims.lookup name = some c) :
    (name, ⟨name⟩) ∈ run.claims ∧ c = ⟨name⟩ ∧ checkName name = .ok () := by
  have hm := mem_claims_of_lookup hl
  obtain ⟨hc, hn, -⟩ := ho.kept _ hm
  obtain rfl : c = ⟨name⟩ := hc
  exact ⟨hm, rfl, hn⟩

/-- Rewriting fields keeps a run orderly if the fields can still be sent. -/
theorem Orderly.rewrite {run : HeaderRun} (ho : Orderly run) {change : Headers → Headers}
    (hs : (change run.headers.headers).Sendable) : Orderly (run.rewrite change) where
  sendable := hs
  kept := ho.kept
  distinct := ho.distinct

/-- Every operation keeps a run orderly. -/
theorem Orderly.step {run next : HeaderRun} {step : HeaderStep} {outcome : HeaderOutcome}
    (ho : Orderly run) (h : Makes run step outcome next) : Orderly next := by
  cases h with
  | set valid free keepsLine => exact ho.rewrite (ho.sendable.set (.of_check valid keepsLine))
  | add valid free keepsLine => exact ho.rewrite (ho.sendable.insert (.of_check valid keepsLine))
  | del valid free => exact ho.rewrite (ho.sendable.remove _)
  | @claim name valid free =>
    refine ⟨ho.sendable, ?_, ?_⟩
    · rw [List.forall_mem_cons]
      have hself := isClaimed_cons run.headers name name
      refine ⟨⟨rfl, valid, by simpa using hself⟩, ?_⟩
      intro p hp
      obtain ⟨hc, hn, hcl⟩ := ho.kept p hp
      have hold := isClaimed_cons run.headers name p.1
      exact ⟨hc, hn, by simpa [hcl] using hold⟩
    · rw [List.pairwise_cons]
      exact ⟨fun p hp => not_alike_of_isClaimed free (ho.kept p hp).2.2, ho.distinct⟩
  | fill kept keepLines =>
    obtain ⟨-, rfl, hn⟩ := ho.of_lookup kept
    exact ho.rewrite (sendable_insertAll (ho.sendable.remove _) hn keepLines)
  | queue => exact ⟨ho.sendable, ho.kept, ho.distinct⟩
  | idle => exact ho

/-- An operation leaves all fields that it is not about in their places. -/
theorem Makes.filter_touches {run next : HeaderRun} {step : HeaderStep} {outcome : HeaderOutcome}
    (h : Makes run step outcome next) (ho : Orderly run) :
    next.headers.headers.fields.filter (fun f => !step.touches f) =
      run.headers.headers.fields.filter (fun f => !step.touches f) := by
  cases h with
  | set => exact Headers.others_set _ _ _
  | add => exact Headers.others_insert _ _ _
  | del => exact Headers.others_remove _ _
  | fill kept =>
    obtain ⟨-, rfl, -⟩ := ho.of_lookup kept
    exact others_insertAll_remove _ _ _
  | claim | queue | idle => rfl

/-- An operation leaves the cookies of all other names in their places. -/
theorem Makes.filter_queues {run next : HeaderRun} {step : HeaderStep} {outcome : HeaderOutcome}
    (h : Makes run step outcome next) :
    next.headers.cookies.filter (fun c => !step.queues c.name) =
      run.headers.cookies.filter (fun c => !step.queues c.name) := by
  cases h with
  | @queue name value changes fresh names results built =>
    have hname : (fresh.changes changes).1.name = name :=
      (Cookie.name_changes fresh changes).trans (Cookie.name_new built)
    simp [addCookie, queues, hname, List.filter_filter, bne, Bool.beq_comm]
  | set | add | del | claim | fill | idle => rfl

/-- What an operation does to the queue of cookies. -/
theorem Makes.cookies_eq {run next : HeaderRun} {step : HeaderStep} {outcome : HeaderOutcome}
    (h : Makes run step outcome next) {queue : List Cookie}
    (hq : run.headers.cookies = Cookie.latest queue) :
    next.headers.cookies = Cookie.latest (queue ++ step.queued?.toList) := by
  cases h with
  | @queue name value changes fresh names results built =>
    have hs : (cookie name value changes).queued? = some (fresh.changes changes).1 := by
      simp only [queued?, built]
    rw [hs, Option.toList_some, Cookie.latest_append_singleton, ← hq]
    rfl
  | idle unqueued => rwa [unqueued, Option.toList_none, List.append_nil]
  | set | add | del | claim | fill =>
    rw [← List.append_nil queue] at hq
    exact hq

/-- What an operation does to the values of a name that was claimed in the run: nothing, unless it
writes them with the claim. -/
theorem Makes.values_eq {run next : HeaderRun} {step : HeaderStep} {outcome : HeaderOutcome}
    (h : Makes run step outcome next) (ho : Orderly run) {name : String}
    (hm : (name, ⟨name⟩) ∈ run.claims) :
    next.headers.values name = (accepted? name (step, outcome)).getD (run.headers.values name) := by
  have held := (ho.kept _ hm).2.2
  have same : ∀ {h' : Headers} {other : String}, alike other name = false →
      h'.others other = run.headers.headers.others other →
      h'.getAll name = run.headers.values name := by
    intro h' other hn hothers
    rw [ResponseHeaders.values, Headers.getAll_eq_map_fieldsOf, Headers.getAll_eq_map_fieldsOf,
      Headers.fieldsOf_of_others_eq hothers hn]
  cases h with
  | set _ free => exact same (not_alike_of_isClaimed free held) (Headers.others_set _ _ _)
  | add _ free => exact same (not_alike_of_isClaimed free held) (Headers.others_insert _ _ _)
  | del _ free => exact same (not_alike_of_isClaimed free held) (Headers.others_remove _ _)
  | @fill spelling c texts kept keepLines =>
    obtain ⟨hk, rfl, -⟩ := ho.of_lookup kept
    by_cases he : spelling = name
    · subst he
      have hf := fieldsOf_insertAll_self (run.headers.headers.remove spelling) texts
        (alike_refl spelling)
      rw [Headers.fieldsOf_remove_self _ (alike_refl spelling), List.nil_append] at hf
      have ha : accepted? spelling (setClaimed spelling texts, .done) = some texts := if_pos rfl
      rw [ha, Option.getD_some]
      exact Headers.getAll_of_fieldsOf hf
    · have hne : ((spelling, ⟨spelling⟩) : String × Claim) ≠ (name, ⟨name⟩) := by
        simp [he]
      have symm : Std.Symm fun p q : String × Claim => alike p.1 q.1 = false :=
        ⟨fun p q hpq => (alike_comm q.1 p.1).trans hpq⟩
      have hn := ho.distinct.forall hk hm hne
      have ha : accepted? name (setClaimed spelling texts, .done) = none := if_neg he
      rw [ha, Option.getD_none]
      exact same hn (others_insertAll_remove _ _ _)
  | idle _ _ unaccepted => rw [unaccepted, Option.getD_none]
  | claim | queue => rfl

/-- What an operation does to the claims that are kept. -/
theorem Makes.claims_eq {run next : HeaderRun} {step : HeaderStep} {outcome : HeaderOutcome}
    (h : Makes run step outcome next) :
    next.claims = ((granted? (step, outcome)).toList.map fun name => (name, ⟨name⟩)) ++ run.claims := by
  cases h with
  | idle _ ungranted => rw [ungranted]; rfl
  | set | add | del | claim | fill | queue => rfl

/-! ### Runs -/

/-- The operations of a run, each with what it gave. -/
def history (run : HeaderRun) : List HeaderStep → List (HeaderStep × HeaderOutcome)
  | [] => []
  | step :: rest => (step, (step.run run).1) :: history (step.run run).2 rest

/-- A run begins with its first operation. -/
theorem runAll_cons (step : HeaderStep) (rest : List HeaderStep) (run : HeaderRun) :
    runAll (step :: rest) run = runAll rest (step.run run).2 := rfl

/-- A run keeps the order that each of its operations keeps. -/
theorem Orderly.runAll {run : HeaderRun} (ho : Orderly run) (steps : List HeaderStep) :
    Orderly (runAll steps run) := by
  induction steps generalizing run with
  | nil => exact ho
  | cons step rest ih => exact ih (ho.step (makes_run run step))

/-- The claims that a run keeps are those that were granted, the latest first. -/
theorem claims_runAll (run : HeaderRun) (steps : List HeaderStep) :
    (runAll steps run).claims =
      (((history run steps).filterMap granted?).map fun name => (name, ⟨name⟩)).reverse ++
        run.claims := by
  induction steps generalizing run with
  | nil => rfl
  | cons step rest ih =>
    have hstep := (makes_run run step).claims_eq
    rw [runAll_cons, ih, hstep, history, List.filterMap_cons]
    cases granted? (step, (step.run run).1) <;> simp

/-- No name is granted twice, in whatever spelling. -/
theorem pairwise_granted (steps : List HeaderStep) :
    ((history .start steps).filterMap granted?).Pairwise fun a b => alike a b = false := by
  have hd := (orderly_start.runAll steps).distinct
  rw [claims_runAll, HeaderRun.start, List.append_nil, List.pairwise_reverse, List.pairwise_map] at hd
  exact hd.imp fun {a b} hab => (alike_comm a b).trans hab

/-- The queue holds the last cookie of each name. -/
theorem cookies_runAll {run : HeaderRun} {queue : List Cookie}
    (hq : run.headers.cookies = Cookie.latest queue) (steps : List HeaderStep) :
    (runAll steps run).headers.cookies = Cookie.latest (queue ++ steps.filterMap queued?) := by
  induction steps generalizing run queue with
  | nil => simpa [runAll] using hq
  | cons step rest ih =>
    rw [runAll_cons, ih ((makes_run run step).cookies_eq hq), List.filterMap_cons]
    cases step.queued? <;> simp

/-- The values of a name that was claimed are those last written with the claim. -/
theorem values_runAll {run : HeaderRun} (ho : Orderly run) {name : String}
    (hm : (name, ⟨name⟩) ∈ run.claims) (steps : List HeaderStep) :
    (runAll steps run).headers.values name =
      ((history run steps).filterMap (accepted? name)).getLast?.getD (run.headers.values name) := by
  induction steps generalizing run with
  | nil => rfl
  | cons step rest ih =>
    have hmakes := makes_run run step
    have hm' : (name, ⟨name⟩) ∈ (step.run run).2.claims := by
      rw [hmakes.claims_eq]
      exact List.mem_append_right _ hm
    rw [runAll_cons, ih (ho.step hmakes) hm', hmakes.values_eq ho hm, history, List.filterMap_cons]
    cases accepted? name (step, (step.run run).1) with
    | none => rfl
    | some texts => simp [List.getLast?_cons]

/-- What a claim that is granted leaves. -/
theorem of_claimed {run : HeaderRun} {name : String}
    (h : ((claim name).run run).1 = .claimed name) :
    (name, ⟨name⟩) ∈ ((claim name).run run).2.claims ∧
      ((claim name).run run).2.headers.values name = run.headers.values name := by
  have hmakes := makes_run run (claim name)
  rw [h] at hmakes
  generalize ((claim name).run run).2 = next at hmakes ⊢
  cases hmakes with
  | claim => exact ⟨List.mem_cons_self, rfl⟩
  | idle _ ungranted => simp [granted?] at ungranted

/-- Whatever operations a map of headers has gone through since it was empty: its fields can be sent,
and none is that of cookies; no name was granted twice; the values of a name are, from its claim on,
the last that were written with the claim, or those that it had; an operation that is refused changes
nothing; every operation leaves all other fields and cookies in their places; and what is sent is the
fields and behind them the last cookie of each name, in the order in which these were queued. -/
theorem headers_of_history (steps : List HeaderStep) :
    let run := runAll steps .start
    let queued := steps.filterMap queued?
    run.headers.headers.Sendable ∧
      ((history .start steps).filterMap granted?).Pairwise (fun a b => alike a b = false) ∧
      (∀ name later, ((claim name).run run).1 = .claimed name →
        (runAll later ((claim name).run run).2).headers.values name =
          ((history ((claim name).run run).2 later).filterMap (accepted? name)).getLast?.getD
            (run.headers.values name)) ∧
      (∀ step : HeaderStep, (step.run run).1.isRefusal = true → (step.run run).2 = run) ∧
      (∀ step : HeaderStep,
        (step.run run).2.headers.headers.fields.filter (fun f => !step.touches f) =
            run.headers.headers.fields.filter (fun f => !step.touches f) ∧
          (step.run run).2.headers.cookies.filter (fun c => !step.queues c.name) =
            run.headers.cookies.filter (fun c => !step.queues c.name)) ∧
      run.headers.toHeaders.fields =
        run.headers.headers.fields ++
          (Cookie.latest queued).map (fun c => ⟨cookieName, c.display⟩) ∧
      (Cookie.latest queued).map Cookie.name = (queued.map Cookie.name).dedup := by
  intro run queued
  have ho : Orderly run := orderly_start.runAll steps
  have hstart : HeaderRun.start.headers.cookies = Cookie.latest [] := rfl
  have hcookies : run.headers.cookies = Cookie.latest queued := cookies_runAll hstart steps
  refine ⟨ho.sendable, pairwise_granted steps, ?_, ?_, ?_, ?_, Cookie.map_name_latest queued⟩
  · intro name later granted
    obtain ⟨hm, hvalues⟩ := of_claimed granted
    have hv := values_runAll (ho.step (makes_run run (claim name))) hm later
    rwa [hvalues] at hv
  · intro step refused
    exact (makes_run run step).eq_of_refusal refused
  · intro step
    exact ⟨(makes_run run step).filter_touches ho, (makes_run run step).filter_queues⟩
  · rw [toHeaders, hcookies]

end HeaderStep

end Palisade
