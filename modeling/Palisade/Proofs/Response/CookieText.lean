import Palisade.Proofs.Response.Readable
import Palisade.Proofs.Text.Pieces

/-!
# The text of a cookie

A cookie is made of a name and a value and is changed any number of times, and some of the changes are
refused. Its text is then described by the changes that were made: a part for name and value, and one for
each attribute, in a fixed order and with what it was last set to. That no text of a name, a value or an
attribute can do more is the main statement. What a browser makes of an attribute is not said.
-/
namespace Palisade.Cookie

open Palisade.Text

/-! ### What changes set -/

/-- What the last of some changes that sets something sets it to. -/
def lastSet {α : Type} (sets : Change → Option α) (xs : List Change) : Option α :=
  (xs.filterMap sets).getLast?

/-- One change sets what it sets. -/
theorem lastSet_singleton {α : Type} (sets : Change → Option α) (x : Change) :
    lastSet sets [x] = sets x := by
  unfold lastSet
  cases hx : sets x with
  | none => rw [List.filterMap_cons_none hx]; rfl
  | some text => rw [List.filterMap_cons_some hx]; rfl

/-- What a later change sets takes the place of what an earlier one has set. -/
theorem lastSet_cons {α : Type} (sets : Change → Option α) (x : Change) (xs : List Change) :
    lastSet sets (x :: xs) = (lastSet sets xs).or (lastSet sets [x]) := by
  rw [lastSet_singleton]
  unfold lastSet
  cases hx : sets x with
  | none => rw [List.filterMap_cons_none hx, Option.or_none]
  | some text =>
    rw [List.filterMap_cons_some hx, List.getLast?_cons]
    cases (xs.filterMap sets).getLast? <;> rfl

namespace Change

/-- The path that a change sets. -/
def path? : Change → Option String
  | path text => some text
  | _ => none

/-- The domain that a change sets. -/
def domain? : Change → Option String
  | domain text => some text
  | _ => none

/-- The age that a change sets, at most the greatest number of sixty-three bits. A deleted cookie has an
age below zero. -/
def age? : Change → Option Int
  | maxAge seconds => some (min (Int.ofNat seconds) 9223372036854775807)
  | expire => some (-1)
  | _ => none

/-- The policy for other sites that a change sets. -/
def site? : Change → Option SameSite
  | sameSite policy => some policy
  | _ => none

end Change

/-- A cookie after changes that were all made: each attribute is as it was last set, or as before. -/
def after (c : Cookie) (made : List Change) : Cookie where
  name := c.name
  value := if .expire ∈ made then "" else c.value
  path := (lastSet Change.path? made).or c.path
  domain := (lastSet Change.domain? made).or c.domain
  maxAge := (lastSet Change.age? made).or c.maxAge
  secure := if .disableSecure ∈ made then false else c.secure
  httpOnly := if .disableHttpOnly ∈ made then false else c.httpOnly
  sameSite := (lastSet Change.site? made).getD c.sameSite

/-- What a change does that is made. -/
theorem eq_after_of_change {c changed : Cookie} {x : Change} (h : c.change x = .ok changed) :
    changed = c.after [x] := by
  cases x with
  | maxAge seconds =>
    have hbound : maxMaxAge = 9223372036854775807 := by decide
    simp only [change, Except.ok.injEq, hbound] at h
    rw [← h]
    simp [after, lastSet_singleton, Change.path?, Change.domain?, Change.age?, Change.site?]
  | path | domain =>
    simp only [change] at h
    split at h
    · cases h
      simp [after, lastSet_singleton, Change.path?, Change.domain?, Change.age?, Change.site?]
    · cases h
  | _ =>
    cases h
    simp [after, lastSet_singleton, Change.path?, Change.domain?, Change.age?, Change.site?]

/-- Changes are made one after the other. -/
theorem after_cons (c : Cookie) (x : Change) (xs : List Change) :
    c.after (x :: xs) = (c.after [x]).after xs := by
  have hflag : ∀ {α : Type} (y : Change) (gone start : α),
      (if y ∈ x :: xs then gone else start) =
        if y ∈ xs then gone else if y ∈ [x] then gone else start := by
    intro α y gone start
    by_cases hy : y = x <;> by_cases hmem : y ∈ xs <;> simp [hy, hmem]
  have hsite : ∀ first second : Option SameSite,
      (first.or second).getD c.sameSite = first.getD (second.getD c.sameSite) := by
    intro first second
    cases first <;> rfl
  unfold after
  simp only [lastSet_cons _ x xs, Option.or_assoc, hflag, hsite]

/-! ### The changes that are made -/

/-- The changes that are made to a cookie, without those that are refused. -/
def made (c : Cookie) (xs : List Change) : List Change :=
  ((xs.zip (c.changes xs).2).filter fun step => step.2.isOk).map Prod.fst

/-- Each change has its outcome. -/
theorem length_changes (c : Cookie) (xs : List Change) : (c.changes xs).2.length = xs.length := by
  induction xs generalizing c with
  | nil => rfl
  | cons x rest ih =>
    rw [changes]
    split
    · exact congrArg Nat.succ (ih _)
    · exact congrArg Nat.succ (ih _)

/-- Changes leave a cookie as those of them do that are made. -/
theorem changes_eq_after (c : Cookie) (xs : List Change) :
    (c.changes xs).1 = c.after (c.made xs) := by
  induction xs generalizing c with
  | nil => simp [changes, made, after, lastSet]
  | cons x rest ih =>
    cases h : c.change x with
    | ok changed =>
      have hmade : c.made (x :: rest) = x :: changed.made rest := by
        simp [made, changes, h, Except.isOk, Except.toBool]
      have hrun : (c.changes (x :: rest)).1 = (changed.changes rest).1 := by simp [changes, h]
      rw [hmade, hrun, after_cons, ih, ← eq_after_of_change h]
    | error e =>
      have hmade : c.made (x :: rest) = c.made rest := by
        simp [made, changes, h, Except.isOk, Except.toBool]
      have hrun : (c.changes (x :: rest)).1 = (c.changes rest).1 := by simp [changes, h]
      rw [hmade, hrun, ih]

/-- Two lists of changes are made one after the other. -/
theorem changes_append (c : Cookie) (xs ys : List Change) :
    c.changes (xs ++ ys) =
      (((c.changes xs).1.changes ys).1, (c.changes xs).2 ++ ((c.changes xs).1.changes ys).2) := by
  induction xs generalizing c with
  | nil => rfl
  | cons x rest ih =>
    rw [List.cons_append, changes, changes]
    cases h : c.change x with
    | ok changed => simp only [ih, List.cons_append]
    | error e => simp only [ih, List.cons_append]

/-- A change that was refused has left the cookie as it was. -/
theorem changes_of_refused {c : Cookie} {before later : List Change} {x : Change} {e : CookieError}
    (h : (c.changes (before ++ x :: later)).2[before.length]? = some (.error e)) :
    (c.changes (before ++ [x])).1 = (c.changes before).1 := by
  rw [changes_append, List.getElem?_append_right (Nat.le_of_eq (length_changes c before)),
    length_changes, Nat.sub_self, changes] at h
  rw [changes_append, changes]
  cases hx : (c.changes before).1.change x with
  | ok changed => simp [hx] at h
  | error e => rfl

/-! ### The text -/

/-- The attributes of a new cookie after changes that were made. -/
def attributes (made : List Change) : List String :=
  ["Path=" ++ (lastSet Change.path? made).getD "/"] ++
    ((lastSet Change.domain? made).map ("Domain=" ++ ·)).toList ++
    ((lastSet Change.age? made).map fun age => "Max-Age=" ++ showInt age).toList ++
    (if .disableSecure ∈ made then [] else ["Secure"]) ++
    (if .disableHttpOnly ∈ made then [] else ["HttpOnly"]) ++
    ["SameSite=" ++ ((lastSet Change.site? made).getD .lax).name]

/-- The parts of a changed cookie are its pair and the attributes that were made. -/
theorem parts_after_of_new {name value : String} {c : Cookie} (h : new name value = .ok c)
    (made : List Change) :
    (c.after made).parts =
      (name ++ "=" ++ if .expire ∈ made then "" else value) :: attributes made := by
  obtain ⟨-, -, -, rfl⟩ := new_eq_ok_iff.1 h
  have hpath : ((lastSet Change.path? made).or (some "/")).map ("Path=" ++ ·) =
      some ("Path=" ++ (lastSet Change.path? made).getD "/") := by
    cases lastSet Change.path? made <;> rfl
  have hflag : ∀ (y : Change) (text : String),
      (if (if y ∈ made then false else true) = true then [text] else []) =
        if y ∈ made then [] else [text] := by
    intro y text
    by_cases hy : y ∈ made <;> simp [hy]
  unfold parts attributes after
  simp only [hpath, hflag, Option.or_none, Option.toList_some, List.cons_append, List.nil_append]

/-- The text of a clean cookie is without control characters. -/
theorem Clean.isControl_display {c : Cookie} (hc : c.Clean) :
    ∀ x ∈ c.display.toList, isControl x = false := by
  have hparts : ∀ part ∈ c.parts.map String.toList, ∀ x ∈ part, isControl x = false := by
    rw [List.forall_mem_map]
    intro part hp x hx
    have h := hc.isAttribute_of_mem part hp x hx
    rw [isAttributeChar, Bool.and_eq_true, Bool.not_eq_true'] at h
    exact h.1
  have hseparator : "; ".toList.all (!isControl ·) = true := by decide
  rw [display, String.toList_intercalate]
  refine forall_mem_intercalate (fun x hx => ?_) hparts
  have h := List.all_eq_true.1 hseparator x hx
  rwa [Bool.not_eq_true'] at h

/-- The text of a clean cookie, cut at the semicolons: its parts, each behind the first with a blank. -/
theorem Clean.pieces_display {c : Cookie} (hc : c.Clean) {first : String} {others : List String}
    (hp : c.parts = first :: others) :
    pieces ';' c.display.toList = first.toList :: others.map (' ' :: ·.toList) := by
  have hmark : ∀ part ∈ c.parts, ';' ∉ part.toList := fun part hm hsemicolon =>
    absurd (hc.isAttribute_of_mem part hm ';' hsemicolon) (by decide)
  rw [hp] at hmark
  have hseparator : "; ".toList = ';' :: [' '] := rfl
  rw [display, hp, String.toList_intercalate, hseparator, List.map_cons,
    pieces_intercalate_cons (by decide) (by simpa using hmark), List.map_map]
  rfl

/-- Whatever is changed about a new cookie, and whatever of it is refused: a refused change leaves the
cookie as it was, the text is without control characters, and between its semicolons there are the name
with the value and, in a fixed order, the attributes as they were last set, and nothing else. -/
theorem display_changes {name value : String} {c : Cookie} (h : new name value = .ok c)
    (xs : List Change) :
    (c.changes xs).2.length = xs.length ∧
    (∀ before x later e, xs = before ++ x :: later →
      (c.changes xs).2[before.length]? = some (.error e) →
      (c.changes (before ++ [x])).1 = (c.changes before).1) ∧
    (∀ x ∈ (c.changes xs).1.display.toList, isControl x = false) ∧
    pieces ';' (c.changes xs).1.display.toList =
      (name ++ "=" ++ if .expire ∈ c.made xs then "" else value).toList ::
        (attributes (c.made xs)).map (' ' :: ·.toList) := by
  have hclean : (c.changes xs).1.Clean := (clean_of_new h).changes xs
  have hparts := parts_after_of_new h (c.made xs)
  rw [← changes_eq_after] at hparts
  refine ⟨length_changes c xs, ?_, hclean.isControl_display, hclean.pieces_display hparts⟩
  rintro before x later e rfl hrefused
  exact changes_of_refused hrefused

/-- A path and two domains that are refused, and a deletion behind an age. -/
theorem display_changes_with_refusals :
    ∃ c, new "id" "v" = .ok c ∧
      pieces ';' (c.changes [.path "/; Domain=evil.test", .maxAge 60, .domain "", .path "/a b",
        .disableSecure, .domain "a\r\nb", .expire]).1.display.toList =
        ["id=", " Path=/a b", " Max-Age=-1", " HttpOnly", " SameSite=Lax"].map String.toList :=
  ⟨_, rfl, (@display_changes "id" "v" _ rfl _).2.2.2.trans (by decide +kernel)⟩

end Palisade.Cookie
