import Palisade.Proofs.Response.Claims

/-!
# Headers that everybody may write

A name that nobody has claimed is open to every operation. What setting, adding and deleting make of its
values is said for one operation and then for a run of them; from it follows exactly when a value with
some property is there behind the run.
-/
namespace Palisade

open Palisade.Text

/-! ### Spellings of a name -/

namespace ResponseHeaders

/-- Letters may stand in a token. -/
theorem isTokenChar_of_letter {c : Char} (h : c.isUpper = true ∨ c.isLower = true) :
    isTokenChar c = true := by
  have hletter : c.isAlpha = true := Bool.or_eq_true_iff.2 h
  have hcounted : c.isAlphanum = true := Bool.or_eq_true_iff.2 (.inl hletter)
  rw [isTokenChar, hcounted, Bool.true_or]

/-- Whether a character may stand in a token does not depend on its size. -/
theorem isTokenChar_toLower (c : Char) : isTokenChar c.toLower = isTokenChar c := by
  unfold Char.toLower
  split
  · rename_i hu
    have hlow : 65 ≤ c.val.toNat := hu.1
    have hhigh : c.val.toNat ≤ 90 := hu.2
    have hsum : (c.val + ('a'.val - 'A'.val)).toNat = c.val.toNat + 32 := by
      rw [UInt32.toNat_add, show ('a'.val - 'A'.val).toNat = 32 from rfl]
      omega
    have hfirst : 'a'.val.toNat ≤ (c.val + ('a'.val - 'A'.val)).toNat := by
      rw [hsum, show 'a'.val.toNat = 97 from rfl]
      omega
    have hlast : (c.val + ('a'.val - 'A'.val)).toNat ≤ 'z'.val.toNat := by
      rw [hsum, show 'z'.val.toNat = 122 from rfl]
      omega
    rw [isTokenChar_of_letter (.inl (decide_eq_true hu)), isTokenChar_of_letter (.inr ?_)]
    exact Bool.and_eq_true_iff.2 ⟨decide_eq_true hfirst, decide_eq_true hlast⟩
  · rfl

/-- A name is a token in every spelling or in none. -/
theorem isToken_eq_of_alike {a b : String} (h : alike a b = true) : isToken a = isToken b := by
  have hlower : ∀ s, isToken (lower s) = isToken s := by
    intro s
    have hchars : isTokenChar ∘ Char.toLower = isTokenChar := funext isTokenChar_toLower
    simp only [isToken, toList_lower, List.isEmpty_map, List.all_map, hchars]
  rw [← hlower a, ← hlower b, (alike_iff a b).1 h]

/-- Names that are alike pass the check together. -/
theorem checkName_of_alike {a b : String} (h : alike a b = true) (hb : checkName b = .ok ()) :
    checkName a = .ok () := by
  rw [checkName_eq_ok_iff] at hb ⊢
  exact ⟨(isToken_eq_of_alike h).trans hb.1, not_alike_of_alike h hb.2⟩

end ResponseHeaders

open ResponseHeaders

namespace HeaderStep

/-! ### One operation -/

/-- The operation sets, adds or deletes. -/
def IsChange : HeaderStep → Prop
  | set _ _ | add _ _ | del _ => True
  | _ => False

/-- What an operation makes of the values of a name that nobody has claimed. -/
def rewritten (name : String) (values : List String) : HeaderStep → List String
  | set spelling value => if alike spelling name && !breaksLine value then [value] else values
  | add spelling value => if alike spelling name && !breaksLine value then values ++ [value] else values
  | del spelling => if alike spelling name then [] else values
  | _ => values

variable {name : String} {run : HeaderRun}

/-- Writing freely is refused for a name that nobody has claimed only if the value breaks its line. -/
theorem values_attempt_write (hn : checkName name = .ok ()) (hf : run.headers.isClaimed name = false)
    {spelling : String} (value : String) {change : Headers → Headers} (hl : Local spelling change) :
    let next := (attempt run (run.headers.write spelling value change)).2
    next.headers.isClaimed name = false ∧
      next.headers.values name =
        if alike spelling name && !breaksLine value then (change run.headers.headers).getAll name
        else run.headers.values name := by
  intro next
  cases hw : run.headers.write spelling value change with
  | ok h =>
    have hnext : next.headers = h := by simp only [next, hw, attempt]
    obtain ⟨-, -, hkeeps, rfl⟩ := write_eq_ok_iff.1 hw
    rw [hnext, hkeeps]
    refine ⟨hf, ?_⟩
    cases ha : alike spelling name with
    | true => rfl
    | false =>
      have hsame := hl run.headers.headers name ha
      exact congrArg (List.map Field.value) hsame
  | error e =>
    have hnext : next = run := by simp only [next, hw, attempt]
    rw [hnext]
    refine ⟨hf, ?_⟩
    have hrefused : ¬ (alike spelling name && !breaksLine value) = true := by
      intro h
      simp only [Bool.and_eq_true, Bool.not_eq_true'] at h
      have hfree : run.headers.isClaimed spelling = false :=
        (isClaimed_eq_of_alike _ h.1).trans hf
      rw [write_eq_ok_iff.2 ⟨checkName_of_alike h.1 hn, hfree, h.2, rfl⟩] at hw
      cases hw
    rw [if_neg hrefused]

/-- Setting, adding and deleting leave a name unclaimed, and this is what they make of its values. -/
theorem values_run_of_free (hn : checkName name = .ok ()) (hf : run.headers.isClaimed name = false)
    {step : HeaderStep} (hc : step.IsChange) :
    (step.run run).2.headers.isClaimed name = false ∧
      (step.run run).2.headers.values name = step.rewritten name (run.headers.values name) := by
  cases step with
  | set spelling value =>
    obtain ⟨hfree, hvalues⟩ := values_attempt_write hn hf value (local_set spelling value)
    refine ⟨hfree, hvalues.trans ?_⟩
    rw [rewritten]
    split
    · rename_i h
      exact Headers.getAll_set_self _ value (Bool.and_eq_true_iff.1 h).1
    · rfl
  | add spelling value =>
    obtain ⟨hfree, hvalues⟩ := values_attempt_write hn hf value (local_insert spelling value)
    refine ⟨hfree, hvalues.trans ?_⟩
    rw [rewritten]
    split
    · rename_i h
      rw [Headers.getAll_insert, if_pos (Bool.and_eq_true_iff.1 h).1]
      rfl
    · rfl
  | del spelling =>
    obtain ⟨hfree, hvalues⟩ := values_attempt_write hn hf "" (local_remove spelling)
    refine ⟨hfree, hvalues.trans ?_⟩
    have hempty : breaksLine "" = false := rfl
    rw [rewritten, hempty, Bool.not_false, Bool.and_true]
    split
    · rename_i h
      rw [Headers.getAll_eq_map_fieldsOf, Headers.fieldsOf_remove_self _ h, List.map_nil]
    · rfl
  | _ => exact hc.elim

/-! ### Runs -/

/-- What operations make of the values of a name that nobody has claimed. -/
def rewrittenAll (name : String) (steps : List HeaderStep) (values : List String) : List String :=
  steps.foldl (fun values step => step.rewritten name values) values

/-- The values of an unclaimed name behind operations are those that these leave. -/
theorem values_runAll_of_free (hn : checkName name = .ok ()) (hf : run.headers.isClaimed name = false)
    {steps : List HeaderStep} (hc : ∀ step ∈ steps, step.IsChange) :
    (runAll steps run).headers.values name = rewrittenAll name steps (run.headers.values name) := by
  induction steps generalizing run with
  | nil => rfl
  | cons step rest ih =>
    rw [List.forall_mem_cons] at hc
    obtain ⟨hfree, hvalues⟩ := values_run_of_free hn hf hc.1
    rw [rewrittenAll, List.foldl_cons, ← hvalues]
    exact ih hfree hc.2

/-- No operation writes a value that breaks its line. -/
theorem breaksLine_rewritten {values : List String} (hv : ∀ value ∈ values, breaksLine value = false)
    (step : HeaderStep) : ∀ value ∈ step.rewritten name values, breaksLine value = false := by
  have hkeeps : ∀ {spelling value : String}, (alike spelling name && !breaksLine value) = true →
      breaksLine value = false := by
    intro spelling value h
    simpa using (Bool.and_eq_true_iff.1 h).2
  cases step with
  | set spelling value =>
    rw [rewritten]
    split
    · exact List.forall_mem_singleton.2 (hkeeps ‹_›)
    · exact hv
  | add spelling value =>
    rw [rewritten]
    split
    · rw [List.forall_mem_append, List.forall_mem_singleton]
      exact ⟨hv, hkeeps ‹_›⟩
    · exact hv
  | del spelling =>
    rw [rewritten]
    split
    · exact List.forall_mem_nil _
    · exact hv
  | _ => exact hv

/-- What operations leave keeps its lines if the values before did. -/
theorem breaksLine_rewrittenAll {values : List String}
    (hv : ∀ value ∈ values, breaksLine value = false) (steps : List HeaderStep) :
    ∀ value ∈ rewrittenAll name steps values, breaksLine value = false := by
  induction steps generalizing values with
  | nil => exact hv
  | cons step rest ih => exact ih (breaksLine_rewritten hv step)

/-! ### Values with a property -/

/-- The operation takes away the values that a name has. -/
def Drops (name : String) : HeaderStep → Prop
  | set spelling value => alike spelling name = true ∧ breaksLine value = false
  | del spelling => alike spelling name = true
  | _ => False

/-- The operation gives a name a value with a property. -/
def Gives (name : String) (P : String → Prop) : HeaderStep → Prop
  | set spelling value | add spelling value =>
    alike spelling name = true ∧ breaksLine value = false ∧ P value
  | _ => False

variable {P : String → Prop}

/-- Behind an operation there is such a value if it was there and stays, or is given. -/
theorem exists_rewritten_iff (step : HeaderStep) (values : List String) :
    (∃ value ∈ step.rewritten name values, P value) ↔
      (∃ value ∈ values, P value) ∧ ¬ step.Drops name ∨ step.Gives name P := by
  cases step with
  | set spelling value =>
    cases ha : alike spelling name <;> cases hb : breaksLine value <;>
      simp [rewritten, Drops, Gives, ha, hb]
  | add spelling value =>
    cases ha : alike spelling name <;> cases hb : breaksLine value <;>
      simp [rewritten, Drops, Gives, ha, hb, or_and_right, exists_or]
  | del spelling =>
    cases ha : alike spelling name <;> simp [rewritten, Drops, Gives, ha]
  | _ => simp [rewritten, Drops, Gives]

/-- The operations give a name a value with a property, and none of those behind takes it away. -/
def Restore (name : String) (P : String → Prop) (steps : List HeaderStep) : Prop :=
  ∃ earlier step later, steps = earlier ++ step :: later ∧ step.Gives name P ∧
    ∀ other ∈ later, ¬ other.Drops name

/-- Operations bring something back if the first gives it and no other drops it, or if the others do. -/
theorem restore_cons_iff {step : HeaderStep} {rest : List HeaderStep} :
    Restore name P (step :: rest) ↔
      step.Gives name P ∧ (∀ other ∈ rest, ¬ other.Drops name) ∨ Restore name P rest := by
  constructor
  · rintro ⟨earlier, giving, later, he, hg, hlater⟩
    cases earlier with
    | nil =>
      obtain ⟨rfl, rfl⟩ := List.cons.inj he
      exact .inl ⟨hg, hlater⟩
    | cons first earlier => exact .inr ⟨earlier, giving, later, (List.cons.inj he).2, hg, hlater⟩
  · rintro (⟨hg, hrest⟩ | ⟨earlier, giving, later, rfl, hg, hlater⟩)
    · exact ⟨[], step, rest, rfl, hg, hrest⟩
    · exact ⟨step :: earlier, giving, later, rfl, hg, hlater⟩

/-- A value of some kind is there behind operations if it was there and none dropped it, or if they bring
one back. -/
theorem exists_rewrittenAll_iff (steps : List HeaderStep) (values : List String) :
    (∃ value ∈ rewrittenAll name steps values, P value) ↔
      (∃ value ∈ values, P value) ∧ (∀ step ∈ steps, ¬ step.Drops name) ∨ Restore name P steps := by
  induction steps generalizing values with
  | nil => simp [rewrittenAll, Restore]
  | cons step rest ih =>
    rw [rewrittenAll, List.foldl_cons, ← rewrittenAll, ih, exists_rewritten_iff, restore_cons_iff,
      List.forall_mem_cons, or_and_right, or_assoc, and_assoc]

/-- Operations leave a name a value with a property exactly if none of them takes its values away, or one
gives it such a value again and none of those behind takes that away. -/
theorem exists_rewrittenAll_iff_of_mem {steps : List HeaderStep} {values : List String}
    (hv : ∃ value ∈ values, P value) :
    (∃ value ∈ rewrittenAll name steps values, P value) ↔
      (∀ step ∈ steps, ¬ step.Drops name) ∨ Restore name P steps := by
  rw [exists_rewrittenAll_iff, and_iff_right hv]

end HeaderStep

/-- What a handler does to the headers of a response are these operations, all of which set, add or
delete. -/
def Handler.Changes (handler : Handler) (steps : Context → List HeaderStep) : Prop :=
  ∀ ctx, (∀ step ∈ steps ctx, step.IsChange) ∧
    (handler ctx).2.headers = (HeaderStep.runAll (steps ctx) ⟨ctx.headers, []⟩).headers

/-- A handler that makes these changes works on headers with operations. -/
theorem Handler.Changes.operates {handler : Handler} {steps : Context → List HeaderStep}
    (h : handler.Changes steps) : handler.Operates := fun ctx => ⟨steps ctx, (h ctx).2⟩

/-- A scripted handler with no other operations among its steps. -/
theorem HandlerScript.changes_handler (describe : HandlerOutcome → String) {script : HandlerScript}
    (h : ∀ step ∈ headerSteps script.steps, step.IsChange) :
    (handler describe script).Changes fun _ => headerSteps script.steps :=
  fun ctx => ⟨h, headers_handler describe script ctx⟩

end Palisade
