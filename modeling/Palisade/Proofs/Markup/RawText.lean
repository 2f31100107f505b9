import Palisade.Proofs.Markup.Places

/-!
# Raw text

The content of a script, a style, a text area or a title is text, in which nothing should be written.
The walk passes over such content up to the first place at which the end tag seems to begin, unless a
slash stands right before the closing bracket of the start tag. The main statement says in which cases
this is all of the content: those in which the slash does not belong to a value, and no longer name
in the content begins like the name of the element.
-/
namespace Palisade

open Palisade.Text

namespace StartTag

/-- Nothing stands between the last attribute and the closing bracket, and yet a slash is right before
the bracket: it is the end of a value. -/
def EndsInValue (t : StartTag) : Prop := t.Written [] ∧ t.selfClosing = true

/-- The blanks and slashes before the closing bracket stand right before it. -/
theorem Inside.exists_front {text last : List Char} {names : List String}
    (h : Inside text names last) : ∃ front, text = front ++ (last ++ ['>']) := by
  induction h with
  | close => exact ⟨[], rfl⟩
  | @more filler text _ _ _ _ _ _ _ _ ih =>
    obtain ⟨front, rfl⟩ := ih
    exact ⟨filler ++ text ++ front, by simp⟩

/-- The character before the closing bracket. -/
theorem Written.selfClosing_eq {t : StartTag} {last : List Char} (h : t.Written last)
    (hne : last ≠ []) : t.selfClosing = (last.getLast? == some '/') := by
  cases h with
  | @intro name inside _ names _ _ hi =>
    obtain ⟨front, rfl⟩ := hi.exists_front
    have hs : source ⟨'<' :: name, front ++ (last ++ ['>']), names⟩ =
        ('<' :: name ++ front ++ last) ++ ['>'] := by simp [source]
    rw [selfClosing, hs, List.dropLast_concat, List.getLast?_append_of_ne_nil _ hne]

/-- A slash right before the closing bracket closes the tag itself or ends a value. -/
theorem Written.selfClosing_iff {t : StartTag} {last : List Char} (h : t.Written last) :
    t.selfClosing = true ↔ t.ClosesItself ∨ t.EndsInValue := by
  constructor
  · intro hs
    by_cases hne : last = []
    · subst hne
      exact .inr ⟨h, hs⟩
    · rw [h.selfClosing_eq hne, beq_iff_eq] at hs
      exact .inl ⟨last, h, hs⟩
  · rintro (⟨last', h', hl⟩ | ⟨-, hs⟩)
    · have hne : last' ≠ [] := by
        rintro rfl
        cases hl
      rw [h'.selfClosing_eq hne, hl]
      rfl
    · exact hs

/-- The blanks and slashes before the closing bracket are determined by the tag. -/
theorem Inside.last_unique {text last last' : List Char} {names : List String}
    (h : Inside text names last) (h' : Inside text names last') : last = last' := by
  induction h with
  | @close last =>
    generalize ht : last ++ ['>'] = text at h'
    cases h' with
    | close => exact (List.append_cancel_right ht)
  | @more filler text name rest last names hf hg ha hr ih =>
    generalize ht : filler ++ text ++ rest = whole at h'
    generalize hn : lower (String.ofList name) :: names = all at h'
    cases h' with
    | close => cases hn
    | @more filler' text' name' rest' _ names' hf' hg' ha' hr' =>
      rw [List.append_assoc, List.append_assoc] at ht
      have hfiller : filler = filler' := by
        rw [← hf.takeWhile_eq, ht, hf'.takeWhile_eq]
      rw [hfiller, List.append_cancel_left_eq] at ht
      have hscan : scanAttribute 0 0 (text ++ rest) = .ok (text, rest) :=
        scanAttribute_eq_ok_iff.2 ⟨rfl, ha.takeWhile_eq.symm ▸ ha⟩
      have hscan' : scanAttribute 0 0 (text' ++ rest') = .ok (text', rest') :=
        scanAttribute_eq_ok_iff.2 ⟨rfl, ha'.takeWhile_eq.symm ▸ ha'⟩
      rw [ht, hscan', Except.ok.injEq, Prod.mk.injEq] at hscan
      obtain ⟨-, rfl⟩ := hscan
      exact ih ((List.cons.inj hn).2 ▸ hr')

/-- A slash before the closing bracket is either or. -/
theorem EndsInValue.not_closesItself {t : StartTag} (h : t.EndsInValue) : ¬ t.ClosesItself := by
  rintro ⟨last, hl, hs⟩
  obtain ⟨hw, -⟩ := h
  cases hw with
  | intro _ _ hi =>
    cases hl with
    | intro _ _ hi' =>
      rw [← hi.last_unique hi'] at hs
      cases hs

end StartTag

namespace Markup

/-- Whether the end tag of an element is written here: its name, and something that ends a name. -/
def closesProperly (name : String) (s : List Char) : Bool :=
  closes name s && (s.drop (2 + name.toList.length)).head?.any StartTag.endsName

/-- What closes an element as it should be closes it. -/
theorem closes_of_closesProperly {name : String} {s : List Char} (h : closesProperly name s = true) :
    closes name s = true := (Bool.and_eq_true_iff.1 h).1

/-- Behind the tag of a construct stands its raw text as a piece of its own. -/
theorem Construct.raw_of_tag {before more : List Piece} {t : StartTag} {after : List Char}
    (h : Construct (before ++ .tag t :: more) after) :
    ∃ raw, more = [.verbatim raw] ∧ Raw t raw after := by
  generalize hps : before ++ .tag t :: more = ps at h
  cases h with
  | @tag u last raw _ _ hr =>
    cases before with
    | nil =>
      simp only [List.nil_append, List.cons.injEq, Piece.tag.injEq] at hps
      obtain ⟨rfl, rfl⟩ := hps
      exact ⟨raw, rfl, hr⟩
    | cons p before =>
      have hmem : Piece.tag t ∈ before ++ Piece.tag t :: more := by simp
      simp only [List.cons_append, List.cons.injEq] at hps
      rw [hps.2] at hmem
      simp at hmem
  | comment | declaration | loose =>
    have hmem : Piece.tag t ∈ before ++ Piece.tag t :: more := by simp
    rw [hps] at hmem
    simp at hmem

/-- Behind the tag of a cut stands its raw text as a piece of its own. -/
theorem Cut.raw_of_tag {s : List Char} {before after : List Piece} {t : StartTag}
    (h : Cut s (before ++ .tag t :: after)) :
    ∃ raw more, after = .verbatim raw :: more ∧ Raw t raw (source more) := by
  generalize hps : before ++ .tag t :: after = ps at h
  induction h generalizing before with
  | text =>
    have hmem : Piece.tag t ∈ before ++ Piece.tag t :: after := by simp
    rw [hps] at hmem
    simp at hmem
  | @construct text rest ps more _ hc hm ih =>
    cases before with
    | nil => cases hps
    | cons p before =>
      simp only [List.cons_append, List.cons.injEq] at hps
      rcases List.append_eq_append_iff.1 hps.2 with ⟨v, hv, hmore⟩ | ⟨v, -, hmore⟩
      · cases v with
        | nil => exact @ih [] hmore
        | cons q v =>
          rw [List.cons_append, List.cons.injEq] at hmore
          obtain ⟨rfl, hafter⟩ := hmore
          rw [hv] at hc
          obtain ⟨raw, rfl, hr⟩ := hc.raw_of_tag
          rw [← hm.source_eq] at hr
          exact ⟨raw, more, hafter, hr⟩
      · exact ih hmore.symm

/-- Nothing is written into the piece behind a tag, nor at its end. -/
theorem not_mem_marks_of_verbatim {w : Insertions} {before more : List Piece} {t : StartTag}
    {raw : List Char} (ho : ∀ u, .tag u ∈ more → u.opening ≠ []) {m : Nat × List Char}
    (hm : m ∈ marks w 0 (before ++ .tag t :: .verbatim raw :: more)) :
    ¬ ((source before).length + t.source.length < m.1 ∧
      m.1 ≤ (source before).length + t.source.length + raw.length) := by
  rw [marks, visited_append, List.flatMap_append, List.mem_append, Nat.zero_add] at hm
  rcases hm with hm | hm
  · have hle := (mem_marks hm).2
    omega
  · have hm' : m ∈ marks w (source before).length (.tag t :: .verbatim raw :: more) := hm
    rw [marks_tag, marks_verbatim, List.mem_append] at hm'
    rcases hm' with hm' | hm'
    · have hle := (mem_places hm').2
      omega
    · have hlt := lt_of_mem_marks ho hm'
      omega

/-- The raw text is at the front of what stands before the end tag. -/
theorem Raw.prefix_content {t : StartTag} {raw after content rest : List Char} (h : Raw t raw after)
    (hl : Leftmost (closesProperly t.name) content rest) (he : raw ++ after = content ++ rest) :
    raw <+: content := by
  cases h with
  | none => exact List.nil_prefix
  | text _ hr => exact hr.prefix_of_imp hl he closes_of_closesProperly

/-- The raw text is what stands before the end tag if the start tag seems not to close itself, or
nothing stands there, and nothing there begins like the end tag. -/
theorem Raw.eq_content_iff {t : StartTag} {raw after content rest : List Char} (h : Raw t raw after)
    (hn : t.name ∈ rawElements) (hl : Leftmost (closesProperly t.name) content rest)
    (he : raw ++ after = content ++ rest) :
    raw = content ↔ (t.selfClosing = true → content = []) ∧
      ∀ k < content.length, closes t.name ((content ++ rest).drop k) = false := by
  cases h with
  | none hs =>
    have hself : t.selfClosing = true := by simpa [hn] using hs
    constructor
    · rintro rfl
      exact ⟨fun _ => rfl, fun k hk => absurd hk (Nat.not_lt_zero k)⟩
    · rintro ⟨hempty, -⟩
      exact (hempty hself).symm
  | text hs hr =>
    have hself : t.selfClosing = false := by simpa [hn] using hs
    rw [hself]
    constructor
    · rintro rfl
      rw [List.append_cancel_left_eq] at he
      rw [← he]
      exact ⟨fun hf => absurd hf Bool.false_ne_true, hr.first⟩
    · rintro ⟨-, hfirst⟩
      exact hr.unique ⟨closes_of_closesProperly hl.here, hfirst⟩ he

/-- Where the walk goes on behind a raw start tag that does not close itself. What stands before the
end tag is its content; the walk passes over a stretch at the front of it, and writes nothing there.
The stretch is all of the content exactly if the start tag does not end in a value with a slash at its
end, or has no content, and nothing in the content begins like the end tag. -/
theorem raw_text_is_passed_over {s : List Char} {ps : List Piece} (h : Cut s ps) {position : Nat}
    {t : StartTag} (hv : (position, t) ∈ visited 0 ps) (hr : t.name ∈ rawElements)
    (hs : ¬ t.ClosesItself) {content rest : List Char}
    (hc : s.drop (position + t.source.length) = content ++ rest)
    (hl : Leftmost (closesProperly t.name) content rest) :
    ∃ raw, raw <+: content ∧
      (raw = content ↔ (t.EndsInValue → content = []) ∧
        ∀ k < content.length, closes t.name ((content ++ rest).drop k) = false) ∧
      ∀ w, inject w s = .ok (splice 0 (marks w 0 ps) s) ∧
        ∀ m ∈ marks w 0 ps, ¬ (position + t.source.length < m.1 ∧
          m.1 ≤ position + t.source.length + raw.length) := by
  obtain ⟨before, after, rfl, rfl⟩ := exists_of_mem_visited hv
  obtain ⟨raw, more, rfl, hraw⟩ := h.raw_of_tag
  obtain ⟨last, ht⟩ := h.written (List.mem_append_right before List.mem_cons_self)
  have hopening : ∀ u, .tag u ∈ more → u.opening ≠ [] := by
    intro u hu
    obtain ⟨_, hw⟩ := h.written (List.mem_append_right before
      (List.mem_cons_of_mem _ (List.mem_cons_of_mem _ hu)))
    exact hw.opening_ne_nil
  have hbehind : raw ++ source more = content ++ rest := by
    rw [← hc, ← h.source_eq, source_append, Nat.zero_add, ← List.drop_drop, List.drop_left]
    have hdrop : (t.source ++ (raw ++ source more)).drop t.source.length = raw ++ source more :=
      List.drop_left
    exact hdrop.symm
  have hslash : t.selfClosing = true ↔ t.EndsInValue := by
    rw [ht.selfClosing_iff]
    exact or_iff_right hs
  refine ⟨raw, hraw.prefix_content hl hbehind, ?_, ?_⟩
  · rw [hraw.eq_content_iff hr hl hbehind, hslash]
  · intro w
    refine ⟨inject_of_cut h w, fun m hm => ?_⟩
    rw [Nat.zero_add]
    exact not_mem_marks_of_verbatim hopening hm

/-! A slash that belongs to a value without quotation marks, right before the closing bracket. -/

namespace SlashedValue

/-- A script whose start tag ends in an unquoted value with a slash, and a form in it. -/
def markup : List Char := "<script src=a/><form>x</script>".toList

/-- The start tag of the script. -/
def script : StartTag := ⟨"<script".toList, " src=a/>".toList, ["src"]⟩

/-- The start tag of the form. -/
def form : StartTag := ⟨"<form".toList, ">".toList, []⟩

/-- What stands between the tags of the script. -/
def content : List Char := "<form>x".toList

/-- The pieces of the text, with the content of the script as raw text. -/
def cut : List Piece :=
  [.verbatim [], .tag script, .verbatim [], .verbatim [], .tag form, .verbatim [], .verbatim ['x'],
    .verbatim "</script>".toList, .verbatim []]

/-- The start tag of the script ends in a value, and the slash is part of it. -/
theorem script_endsInValue : script.EndsInValue := by
  have hfront : ∀ c ∈ ("a/".toList ++ ">".toList).head?, ¬ (c = '\"' ∨ c = '\'') := by
    rintro c ⟨⟩
    decide
  have hvalue : StartTag.Value ([] ++ "a/".toList) ">".toList :=
    .bare (by decide) (by decide) (by decide) hfront
  have hsrc : StartTag.Attribute ("src".toList ++ [] ++ '=' :: "a/".toList) "src".toList ">".toList :=
    .valued (List.all_eq_true.1 (by decide)) (List.forall_mem_nil _) hvalue
  have hlast : StartTag.Inside ([] ++ ['>']) [] [] := .close (List.forall_mem_nil _)
  have hinside := @StartTag.Inside.more [' '] _ _ _ _ _ (by decide) (by decide) hsrc hlast
  have hname : lower (String.ofList "src".toList) = "src" := by decide
  rw [hname] at hinside
  exact ⟨.intro ⟨'s', rfl, by decide⟩ (by decide) hinside, by decide⟩

/-- The walk does not pass over the content of this script, and a form in it gets a token. -/
theorem content_is_not_passed_over :
    ∃ raw, raw <+: content ∧ raw ≠ content ∧
      (∀ w, inject w markup = .ok (splice 0 (marks w 0 cut) markup)) ∧
      ∃ m ∈ marks ⟨false, true⟩ 0 cut, 0 + script.source.length < m.1 ∧
        m.1 < 0 + script.source.length + content.length := by
  have hcut : Cut markup cut := pieces_eq_ok_iff.1 (by decide +kernel)
  have hscript : (0, script) ∈ visited 0 cut := by decide
  have hmarkup : markup.drop (0 + script.source.length) = content ++ "</script>".toList := by decide
  have hclosing : Leftmost (closesProperly script.name) content "</script>".toList :=
    ⟨by decide, by decide⟩
  obtain ⟨raw, hprefix, hall, hw⟩ := raw_text_is_passed_over hcut hscript (by decide)
    script_endsInValue.not_closesItself hmarkup hclosing
  refine ⟨raw, hprefix, ?_, ?_, ?_⟩
  · intro he
    exact absurd ((hall.1 he).1 script_endsInValue) (by decide)
  · intro w
    exact (hw w).1
  · exact ⟨(21, tokenText), by decide, by decide, by decide⟩

end SlashedValue

end Markup

end Palisade
