import Mathlib.Data.List.Basic
import Palisade.Markup.Tag

/-!
# What start tags look like

The grammar of start tags as relations on texts, without positions and without a scan: which texts are
values, attributes and insides of tags, and what may stand behind them. The main statement says that
the scan finds a tag exactly where the grammar has one, with the attributes that the grammar gives it,
so that nothing else has to look at the scan. Errors are not covered.
-/
namespace Palisade

open Palisade.Text

namespace Text

/-! ### Runs of characters of a class -/

/-- The characters of the class at the front of a text, and the text behind all of them. -/
structure Run (p : Char → Bool) (run rest : List Char) : Prop where
  all : ∀ c ∈ run, p c = true
  stops : ∀ c ∈ rest.head?, p c = false

namespace Run

variable {p : Char → Bool} {run rest : List Char}

/-- Whether a run ends here can be computed. -/
theorem iff_all : Run p run rest ↔ run.all p = true ∧ (rest.head?.all fun c => !p c) = true := by
  have hstops : (∀ c ∈ rest.head?, p c = false) ↔ (rest.head?.all fun c => !p c) = true := by
    cases rest <;> simp
  rw [← hstops, List.all_eq_true]
  exact ⟨fun h => ⟨h.all, h.stops⟩, fun h => ⟨h.1, h.2⟩⟩

/-- Whether a run ends here can be computed. -/
instance (p : Char → Bool) (run rest : List Char) : Decidable (Run p run rest) :=
  decidable_of_iff _ iff_all.symm

/-- What is taken from the front is a run, with what is dropped. -/
theorem takeWhile_dropWhile (p : Char → Bool) (s : List Char) :
    Run p (s.takeWhile p) (s.dropWhile p) where
  all c hc := by
    have hall := List.all_takeWhile (p := p) (l := s)
    rw [List.all_eq_true] at hall
    exact hall c hc
  stops c hc := by
    have hh := List.head?_dropWhile_not p s
    rw [Option.mem_def.1 hc] at hh
    simpa using hh

/-- A run is taken from the front. -/
theorem takeWhile_eq (h : Run p run rest) : (run ++ rest).takeWhile p = run := by
  rw [List.takeWhile_append_of_pos h.all]
  cases rest with
  | nil => simp
  | cons c tail =>
    have hc := h.stops c rfl
    simp [hc]

/-- What stands behind a run is left. -/
theorem dropWhile_eq (h : Run p run rest) : (run ++ rest).dropWhile p = rest := by
  rw [List.dropWhile_append_of_pos h.all]
  cases rest with
  | nil => rfl
  | cons c tail =>
    have hc := h.stops c rfl
    simp [hc]

/-- Only the first character behind a run matters. -/
theorem append_iff (hne : rest ≠ []) (more : List Char) :
    Run p run (rest ++ more) ↔ Run p run rest := by
  have hh : (rest ++ more).head? = rest.head? := List.head?_append_of_ne_nil rest hne
  constructor
  · rintro ⟨hall, hstops⟩
    rw [hh] at hstops
    exact ⟨hall, hstops⟩
  · rintro ⟨hall, hstops⟩
    rw [← hh] at hstops
    exact ⟨hall, hstops⟩

end Run

end Text

namespace StartTag

/-! ### Values and attributes -/

/-- The value of an attribute as written behind its equality sign, and what stands behind it. -/
inductive Value : List Char → List Char → Prop where
  | quoted {blanks value after : List Char} {mark : Char} (hb : ∀ c ∈ blanks, isMarkupBlank c = true)
      (hm : mark = '\"' ∨ mark = '\'') (hv : mark ∉ value) :
      Value (blanks ++ mark :: value ++ [mark]) after
  | bare {blanks value after : List Char} (hb : Run isMarkupBlank blanks (value ++ after))
      (hv : Run isBareChar value after) (hne : value ++ after ≠ [])
      (hq : ∀ c ∈ (value ++ after).head?, ¬ (c = '\"' ∨ c = '\'')) :
      Value (blanks ++ value) after

/-- The scan of a value finds what the grammar calls one. -/
theorem scanValue_eq_ok_iff {start position : Nat} {s taken after : List Char} :
    scanValue start position s = .ok (taken, after) ↔ s = taken ++ after ∧ Value taken after := by
  constructor
  · intro h
    refine ⟨scanValue_eq h, ?_⟩
    have hrun := Run.takeWhile_dropWhile isMarkupBlank s
    unfold scanValue at h
    simp only at h
    split at h
    · cases h
    rename_i c r heq
    rw [heq] at hrun
    split at h
    · rename_i hc
      split at h
      · rename_i value rest hcut
        simp only [Except.ok.injEq, Prod.mk.injEq] at h
        obtain ⟨rfl, rfl⟩ := h
        exact .quoted hrun.all hc (cutAt_eq_some hcut).2
      · cases h
    · rename_i hc
      simp only [Except.ok.injEq, Prod.mk.injEq] at h
      obtain ⟨rfl, rfl⟩ := h
      have hsplit := List.takeWhile_append_dropWhile (p := isBareChar) (l := c :: r)
      refine .bare ?_ (.takeWhile_dropWhile _ _) ?_ ?_
      · rwa [hsplit]
      · rw [hsplit]
        exact List.cons_ne_nil c r
      · rw [hsplit]
        intro d hd
        obtain rfl : c = d := Option.some.inj hd
        exact hc
  · rintro ⟨rfl, h⟩
    cases h with
    | @quoted blanks value _ mark hb hm hv =>
      have hrun : Run isMarkupBlank blanks (mark :: value ++ [mark] ++ after) := by
        refine ⟨hb, ?_⟩
        intro c hc
        obtain rfl : mark = c := Option.some.inj hc
        rcases hm with rfl | rfl <;> decide
      have hs : blanks ++ mark :: value ++ [mark] ++ after =
          blanks ++ (mark :: value ++ [mark] ++ after) := by simp
      have hd := hrun.dropWhile_eq
      have hcut := cutAt_append hv after
      unfold scanValue
      rw [hs, hrun.takeWhile_eq, hd]
      simp only [List.cons_append, List.append_assoc, List.nil_append, hm, if_true, hcut]
    | @bare blanks value _ hb hv hne hq =>
      cases hfront : value ++ after with
      | nil => exact absurd hfront hne
      | cons c r =>
        rw [hfront] at hb hq
        have hc : ¬ (c = '\"' ∨ c = '\'') := hq c rfl
        unfold scanValue
        rw [List.append_assoc, hfront, hb.takeWhile_eq, hb.dropWhile_eq]
        simp only [if_neg hc]
        rw [← hfront, hv.takeWhile_eq, hv.dropWhile_eq]

/-- Only the first character behind a value matters. -/
theorem Value.append_iff {taken rest : List Char} (hne : rest ≠ []) (more : List Char) :
    Value taken (rest ++ more) ↔ Value taken rest := by
  constructor
  · intro h
    cases h with
    | quoted hb hm hv => exact .quoted hb hm hv
    | @bare blanks value _ hb hv _ hq =>
      have hne' : value ++ rest ≠ [] := List.append_ne_nil_of_right_ne_nil value hne
      rw [← List.append_assoc] at hb hq
      rw [List.head?_append_of_ne_nil _ hne'] at hq
      exact .bare ((Run.append_iff hne' more).1 hb) ((Run.append_iff hne more).1 hv) hne' hq
  · intro h
    cases h with
    | quoted hb hm hv => exact .quoted hb hm hv
    | @bare blanks value _ hb hv hne' hq =>
      rw [← Run.append_iff hne' more, List.append_assoc] at hb
      have hh : (value ++ rest ++ more).head? = (value ++ rest).head? :=
        List.head?_append_of_ne_nil _ hne'
      rw [← hh, List.append_assoc] at hq
      have hne'' : value ++ (rest ++ more) ≠ [] := by simp [hne]
      exact .bare hb ((Run.append_iff hne more).2 hv) hne'' hq

/-- An attribute as written, its name, and what stands behind it. The blanks behind a name without a
value belong to the attribute. -/
inductive Attribute : List Char → List Char → List Char → Prop where
  | alone {name blanks after : List Char} (hn : Run isNameChar name (blanks ++ after))
      (hb : Run isMarkupBlank blanks after) (he : after.head? ≠ some '=') :
      Attribute (name ++ blanks) name after
  | valued {name blanks value after : List Char} (hn : ∀ c ∈ name, isNameChar c = true)
      (hb : ∀ c ∈ blanks, isMarkupBlank c = true) (hv : Value value after) :
      Attribute (name ++ blanks ++ '=' :: value) name after

/-- A blank is in no name. -/
theorem isNameChar_of_isMarkupBlank {c : Char} (h : isMarkupBlank c = true) :
    isNameChar c = false := by
  simp [isNameChar, endsName, h]

/-- A name ends at the equality sign of its attribute, or at the blanks before it. -/
theorem run_name {name blanks : List Char} (hn : ∀ c ∈ name, isNameChar c = true)
    (hb : ∀ c ∈ blanks, isMarkupBlank c = true) (rest : List Char) :
    Run isNameChar name (blanks ++ '=' :: rest) := by
  refine ⟨hn, ?_⟩
  cases blanks with
  | nil =>
    intro c hc
    obtain rfl : '=' = c := Option.some.inj hc
    decide
  | cons b blanks =>
    intro c hc
    obtain rfl : b = c := Option.some.inj hc
    exact isNameChar_of_isMarkupBlank (hb b List.mem_cons_self)

/-- The blanks before an equality sign end there. -/
theorem run_blanks {blanks : List Char} (hb : ∀ c ∈ blanks, isMarkupBlank c = true)
    (rest : List Char) : Run isMarkupBlank blanks ('=' :: rest) := by
  refine ⟨hb, ?_⟩
  intro c hc
  obtain rfl : '=' = c := Option.some.inj hc
  decide

/-- An attribute begins with its name. -/
theorem Attribute.takeWhile_eq {taken name after : List Char} (h : Attribute taken name after) :
    (taken ++ after).takeWhile isNameChar = name := by
  cases h with
  | alone hn => rw [List.append_assoc, hn.takeWhile_eq]
  | @valued _ blanks value _ hn hb =>
    have hs : name ++ blanks ++ '=' :: value ++ after =
        name ++ (blanks ++ '=' :: (value ++ after)) := by simp
    rw [hs, (run_name hn hb _).takeWhile_eq]

/-- The scan of an attribute finds what the grammar calls one. -/
theorem scanAttribute_eq_ok_iff {start position : Nat} {s taken after : List Char} :
    scanAttribute start position s = .ok (taken, after) ↔
      s = taken ++ after ∧ Attribute taken (s.takeWhile isNameChar) after := by
  constructor
  · intro h
    refine ⟨scanAttribute_eq h, ?_⟩
    have hname := Run.takeWhile_dropWhile isNameChar s
    have hblanks := Run.takeWhile_dropWhile isMarkupBlank (s.dropWhile isNameChar)
    unfold scanAttribute at h
    simp only at h
    split at h
    · rename_i r heq
      split at h
      · cases h
      · rename_i value rest hv
        simp only [Except.ok.injEq, Prod.mk.injEq] at h
        obtain ⟨rfl, rfl⟩ := h
        exact .valued hname.all hblanks.all (scanValue_eq_ok_iff.1 hv).2
    · rename_i hne
      simp only [Except.ok.injEq, Prod.mk.injEq] at h
      obtain ⟨rfl, rfl⟩ := h
      refine .alone ?_ hblanks ?_
      · rwa [List.takeWhile_append_dropWhile]
      · intro he
        cases hd : (s.dropWhile isNameChar).dropWhile isMarkupBlank with
        | nil => simp [hd] at he
        | cons c r =>
          rw [hd] at he
          obtain rfl : c = '=' := Option.some.inj he
          exact hne r hd
  · rintro ⟨rfl, h⟩
    generalize hname : (taken ++ after).takeWhile isNameChar = name at h
    cases h with
    | @alone _ blanks _ hn hb he =>
      unfold scanAttribute
      simp only [List.append_assoc, hn.takeWhile_eq, hn.dropWhile_eq, hb.takeWhile_eq,
        hb.dropWhile_eq]
      cases after with
      | nil => rfl
      | cons c r =>
        have hc : c ≠ '=' := fun hc => he (by rw [hc]; rfl)
        split
        · rename_i heq
          simp only [List.cons.injEq] at heq
          exact absurd heq.1 hc
        · rfl
    | @valued _ blanks value _ hn hb hv =>
      have hs : name ++ blanks ++ '=' :: value ++ after =
          name ++ (blanks ++ '=' :: (value ++ after)) := by simp
      have hr := run_name hn hb (value ++ after)
      have hbr := run_blanks hb (value ++ after)
      unfold scanAttribute
      simp only [hs, hr.takeWhile_eq, hr.dropWhile_eq, hbr.takeWhile_eq, hbr.dropWhile_eq,
        scanValue_eq_ok_iff.2 ⟨rfl, hv⟩]

/-- Only the first character behind an attribute matters. -/
theorem Attribute.append_iff {taken name rest : List Char} (hne : rest ≠ []) (more : List Char) :
    Attribute taken name (rest ++ more) ↔ Attribute taken name rest := by
  constructor
  · intro h
    cases h with
    | @alone _ blanks _ hn hb he =>
      have hne' : blanks ++ rest ≠ [] := List.append_ne_nil_of_right_ne_nil blanks hne
      rw [← List.append_assoc] at hn
      rw [List.head?_append_of_ne_nil rest hne] at he
      exact .alone ((Run.append_iff hne' more).1 hn) ((Run.append_iff hne more).1 hb) he
    | valued hn hb hv => exact .valued hn hb ((Value.append_iff hne more).1 hv)
  · intro h
    cases h with
    | @alone _ blanks _ hn hb he =>
      have hne' : blanks ++ rest ≠ [] := List.append_ne_nil_of_right_ne_nil blanks hne
      rw [← Run.append_iff hne' more, List.append_assoc] at hn
      have hh : (rest ++ more).head? = rest.head? := List.head?_append_of_ne_nil rest hne
      rw [← hh] at he
      exact .alone hn ((Run.append_iff hne more).2 hb) he
    | valued hn hb hv => exact .valued hn hb ((Value.append_iff hne more).2 hv)

/-! ### Tags -/

/-- What a start tag holds behind its name, up to its closing bracket: the text, the names of the
attributes in small letters, and the blanks and slashes right before the bracket. -/
inductive Inside : List Char → List String → List Char → Prop where
  | close {last : List Char} (hf : ∀ c ∈ last, isFiller c = true) : Inside (last ++ ['>']) [] last
  | more {filler text name rest last : List Char} {names : List String}
      (hf : Run isFiller filler (text ++ rest)) (hg : (text ++ rest).head? ≠ some '>')
      (ha : Attribute text name rest) (hr : Inside rest names last) :
      Inside (filler ++ text ++ rest) (lower (String.ofList name) :: names) last

/-- Inside of a tag stands at least its bracket. -/
theorem Inside.ne_nil {text last : List Char} {names : List String} (h : Inside text names last) :
    text ≠ [] := by
  induction h with
  | close => simp
  | more _ _ _ _ ih => exact List.append_ne_nil_of_right_ne_nil _ ih

/-- The scan at a closing bracket. -/
theorem scanAttributes_of_bracket {start position : Nat} {s r : List Char}
    (h : s.dropWhile isFiller = '>' :: r) :
    scanAttributes start position s = .ok ⟨s.takeWhile isFiller ++ ['>'], [], r⟩ := by
  rw [scanAttributes.eq_def]
  split <;> simp_all

/-- The scan at an attribute. -/
theorem scanAttributes_of_attribute {start position : Nat} {s r taken after : List Char} {c : Char}
    {rest : Rest} (h : s.dropWhile isFiller = c :: r) (hg : c ≠ '>')
    (ha : scanAttribute start (position + byteLength (s.takeWhile isFiller)) (c :: r) =
      .ok (taken, after))
    (hr : scanAttributes start
      (position + byteLength (s.takeWhile isFiller) + byteLength taken) after = .ok rest) :
    scanAttributes start position s =
      .ok ⟨s.takeWhile isFiller ++ taken ++ rest.inside,
        lower (String.ofList ((c :: r).takeWhile isNameChar)) :: rest.attributes, rest.after⟩ := by
  rw [scanAttributes.eq_def]
  split
  · simp_all
  · rename_i c' r' h'
    rw [h] at h'
    simp only [List.cons.injEq] at h'
    obtain ⟨rfl, rfl⟩ := h'
    simp only [dif_neg hg]
    split
    · rename_i e he
      rw [ha] at he
      cases he
    · rename_i taken' after' ha'
      rw [ha] at ha'
      simp only [Except.ok.injEq, Prod.mk.injEq] at ha'
      obtain ⟨rfl, rfl⟩ := ha'
      rw [hr]

/-- What the grammar calls the inside of a tag is found by the scan, whatever follows. -/
theorem Inside.scan_eq {text last : List Char} {names : List String} (h : Inside text names last)
    (start position : Nat) (after : List Char) :
    scanAttributes start position (text ++ after) = .ok ⟨text, names, after⟩ := by
  induction h generalizing position with
  | @close last hf =>
    have hrun : Run isFiller last ('>' :: after) := by
      refine ⟨hf, ?_⟩
      intro c hc
      obtain rfl : '>' = c := Option.some.inj hc
      decide
    have hs : last ++ ['>'] ++ after = last ++ '>' :: after := by simp
    rw [hs, scanAttributes_of_bracket hrun.dropWhile_eq, hrun.takeWhile_eq]
  | @more filler text name rest last names hf hg ha hr ih =>
    have hne : text ++ rest ≠ [] := List.append_ne_nil_of_right_ne_nil text hr.ne_nil
    have hrun := (Run.append_iff hne after).2 hf
    have hattr := (Attribute.append_iff hr.ne_nil after).2 ha
    have hs : filler ++ text ++ rest ++ after = filler ++ (text ++ rest ++ after) := by simp
    cases hfront : text ++ rest with
    | nil => exact absurd hfront hne
    | cons c r =>
      have hc : c ≠ '>' := fun hc => hg (by rw [hfront, hc]; rfl)
      have hfront' : text ++ rest ++ after = c :: (r ++ after) := by rw [hfront, List.cons_append]
      have htake : (c :: (r ++ after)).takeWhile isNameChar = name := by
        rw [← hfront', List.append_assoc, hattr.takeWhile_eq]
      have hd := hrun.dropWhile_eq
      have ht := hrun.takeWhile_eq
      rw [hfront'] at hs hd ht
      have hscan : scanAttribute start (position + byteLength filler) (c :: (r ++ after)) =
          .ok (text, rest ++ after) := by
        rw [scanAttribute_eq_ok_iff, htake, ← hfront', List.append_assoc]
        exact ⟨rfl, hattr⟩
      rw [← ht] at hscan
      rw [hs, scanAttributes_of_attribute hd hc hscan (ih _), ht, htake]

/-- The scan of a tag behind its name finds what the grammar has there. -/
theorem scanAttributes_eq_ok_iff {start position : Nat} {s : List Char} {rest : Rest} :
    scanAttributes start position s = .ok rest ↔
      s = rest.inside ++ rest.after ∧ ∃ last, Inside rest.inside rest.attributes last := by
  constructor
  · intro h
    refine ⟨scanAttributes_eq h, ?_⟩
    fun_induction scanAttributes start position s generalizing rest with
    | case1 => cases h
    | case2 =>
      rename_i s filler r hs
      simp only [Except.ok.injEq] at h
      subst h
      exact ⟨filler, .close (Run.takeWhile_dropWhile isFiller s).all⟩
    | case3 => cases h
    | case4 => cases h
    | case5 =>
      rename_i s filler c r hs hg here taken after ha name tail hr ih
      simp only [Except.ok.injEq] at h
      subst h
      obtain ⟨last, hl⟩ := ih hr
      obtain ⟨he, hattr⟩ := scanAttribute_eq_ok_iff.1 ha
      have hrun := Run.takeWhile_dropWhile isFiller s
      have hafter := scanAttributes_eq hr
      have hne : taken ++ tail.inside ≠ [] := List.append_ne_nil_of_right_ne_nil taken hl.ne_nil
      have hfront : c :: r = taken ++ tail.inside ++ tail.after := by
        rw [he, List.append_assoc, ← hafter]
      rw [hs, hfront, Run.append_iff hne] at hrun
      rw [hafter, Attribute.append_iff hl.ne_nil] at hattr
      refine ⟨last, .more hrun ?_ hattr hl⟩
      have hh : (taken ++ tail.inside ++ tail.after).head? = (taken ++ tail.inside).head? :=
        List.head?_append_of_ne_nil _ hne
      rw [← hh, ← hfront]
      simpa using hg
  · obtain ⟨inside, names, after⟩ := rest
    rintro ⟨rfl, last, h⟩
    exact h.scan_eq start position after

/-- A letter does not end a name. -/
theorem endsName_of_isAlpha {c : Char} (h : c.isAlpha = true) : endsName c = false := by
  cases he : endsName c with
  | false => rfl
  | true =>
    have hc : c = ' ' ∨ c = '\t' ∨ c = '\n' ∨ c = '\x0c' ∨ c = '\r' ∨ c = '>' ∨ c = '/' := by
      simpa [endsName, isMarkupBlank, or_assoc] using he
    rcases hc with rfl | rfl | rfl | rfl | rfl | rfl | rfl <;> exact absurd h (by decide)

/-- A start tag of the grammar, with the blanks and slashes right before its closing bracket: an opening
bracket, a name that begins with a letter and takes all characters up to a blank, a slash or a closing
bracket, and the inside of a tag. -/
inductive Written : StartTag → List Char → Prop where
  | intro {name inside last : List Char} {names : List String} (hl : ∃ c ∈ name.head?, c.isAlpha = true)
      (hn : Run (fun c => !endsName c) name inside) (hi : Inside inside names last) :
      Written ⟨'<' :: name, inside, names⟩ last

/-- A start tag begins with a bracket and a letter. -/
theorem Written.front {t : StartTag} {last : List Char} (h : t.Written last) :
    ∃ c tail, t.source = '<' :: c :: tail ∧ c.isAlpha = true := by
  cases h with
  | @intro name inside _ names hl hn hi =>
    obtain ⟨c, hc, ha⟩ := hl
    cases name with
    | nil => cases hc
    | cons d name =>
      obtain rfl : d = c := Option.some.inj hc
      exact ⟨d, name ++ inside, rfl, ha⟩

/-- The opening of a tag is not empty. -/
theorem Written.opening_ne_nil {t : StartTag} {last : List Char} (h : t.Written last) :
    t.opening ≠ [] := by
  cases h with
  | intro => exact List.cons_ne_nil _ _

/-- The scan at an opening bracket before a letter finds what the grammar calls a start tag. -/
theorem scan_eq_ok_iff {start : Nat} {r after : List Char} {t : StartTag}
    (hr : ∃ c ∈ r.head?, c.isAlpha = true) :
    scan start ('<' :: r) = .ok (t, after) ↔ '<' :: r = t.source ++ after ∧ ∃ last, t.Written last := by
  constructor
  · intro h
    refine ⟨scan_eq h, ?_⟩
    have hrun := Run.takeWhile_dropWhile (fun c => !endsName c) r
    unfold scan at h
    simp only [List.take_succ_cons, List.take_zero, List.drop_succ_cons, List.drop_zero] at h
    split at h
    · cases h
    · rename_i rest heq
      simp only [Except.ok.injEq, Prod.mk.injEq] at h
      obtain ⟨rfl, rfl⟩ := h
      obtain ⟨he, last, hi⟩ := scanAttributes_eq_ok_iff.1 heq
      rw [he, Run.append_iff hi.ne_nil] at hrun
      refine ⟨last, .intro ?_ hrun hi⟩
      obtain ⟨c, hc, ha⟩ := hr
      cases r with
      | nil => simp at hc
      | cons d r =>
        obtain rfl : d = c := Option.some.inj hc
        have hd : (!endsName d) = true := by simp [endsName_of_isAlpha ha]
        exact ⟨d, by simp [List.takeWhile, hd], ha⟩
  · rintro ⟨he, last, h⟩
    cases h with
    | @intro name inside _ names hl hn hi =>
      obtain rfl : r = name ++ (inside ++ after) := by simpa [source] using he
      have hrun := (Run.append_iff hi.ne_nil after).2 hn
      unfold scan
      simp only [List.take_succ_cons, List.take_zero, List.drop_succ_cons, List.drop_zero,
        hrun.takeWhile_eq, hrun.dropWhile_eq, hi.scan_eq, List.singleton_append]

/-- A slash stands right before the closing bracket and belongs to no value. -/
def ClosesItself (t : StartTag) : Prop := ∃ last, t.Written last ∧ last.getLast? = some '/'

end StartTag

end Palisade
