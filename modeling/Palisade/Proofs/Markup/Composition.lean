import Palisade.Proofs.Markup.Cuts

/-!
# Writing into markup twice

What was written into markup is markup again, and the next walk has to find its way through it. It
does: a nonce is one more attribute of its tag, a token is one more tag, and neither changes how
anything behind it is cut. The main statement says what follows for texts that are written into more
than once: nonces are written only once, and it does not matter whether nonces or tokens come first.
-/
namespace Palisade

open Palisade.Text

namespace StartTag

variable {t : StartTag} {last : List Char}

/-- The character of a name neither fills nor closes a tag. -/
theorem isFiller_of_isNameChar {c : Char} (h : isNameChar c = true) : isFiller c = false ∧ c ≠ '>' := by
  have hc : (isMarkupBlank c = false ∧ c ≠ '>' ∧ c ≠ '/') ∧ c ≠ '=' := by
    simpa [isNameChar, endsName, and_assoc] using h
  exact ⟨by simp [isFiller, hc.1], hc.1.2.1⟩

/-- An attribute whose value stands between quotation marks, in front of the inside of a tag. -/
theorem Inside.quoted {name value inside : List Char} {names : List String}
    (hn : name.all isNameChar = true) (hne : name ≠ []) (hv : '\"' ∉ value)
    (h : Inside inside names last) :
    Inside ([' '] ++ (name ++ [] ++ '=' :: ([] ++ '\"' :: value ++ ['\"'])) ++ inside)
      (lower (String.ofList name) :: names) last := by
  rw [List.all_eq_true] at hn
  have hvalue : Value ([] ++ '\"' :: value ++ ['\"']) inside :=
    .quoted (List.forall_mem_nil _) (.inl rfl) hv
  have hattr := Attribute.valued hn (List.forall_mem_nil _) hvalue
  obtain ⟨c, tail, rfl⟩ := List.exists_cons_of_ne_nil hne
  obtain ⟨hfiller, hbracket⟩ := isFiller_of_isNameChar (hn c List.mem_cons_self)
  refine .more ⟨List.forall_mem_singleton.2 (by decide), ?_⟩ ?_ hattr h
  · intro d hd
    obtain rfl : c = d := Option.some.inj hd
    exact hfiller
  · intro hd
    exact hbracket (Option.some.inj hd)

end StartTag

namespace Markup

/-- What is inserted by one or the other. -/
def Insertions.union (w w' : Insertions) : Insertions :=
  ⟨w.nonces || w'.nonces, w.tokens || w'.tokens⟩

/-! ### Tags that were written into -/

/-- A start tag with a nonce, if it gets one: the nonce is its first attribute. -/
def withNonce (w : Insertions) (t : StartTag) : StartTag :=
  if w.nonces && needsNonce t then ⟨t.opening, nonceText ++ t.inside, "nonce" :: t.attributes⟩ else t

/-- The hidden field that carries a token, as a tag. -/
def tokenTag : StartTag := ⟨"<input".toList, tokenText.drop 6, ["type", "name", "value"]⟩

/-- A piece that was written into, as pieces. -/
def Piece.refilled (w : Insertions) : Piece → List Piece
  | verbatim s => [verbatim s]
  | tag t => tag (withNonce w t) ::
      if w.tokens && needsToken t then [verbatim [], verbatim [], tag tokenTag] else []

variable {w : Insertions} {t : StartTag}

/-- A tag that needs a nonce gets one in front of its attributes. -/
theorem withNonce_of_needs (h : (w.nonces && needsNonce t) = true) :
    withNonce w t = ⟨t.opening, nonceText ++ t.inside, "nonce" :: t.attributes⟩ := if_pos h

/-- A tag that needs none stays as it is. -/
theorem withNonce_of_not_needs (h : ¬ (w.nonces && needsNonce t) = true) : withNonce w t = t :=
  if_neg h

/-- A nonce leaves the opening of a tag. -/
@[simp] theorem opening_withNonce (w : Insertions) (t : StartTag) :
    (withNonce w t).opening = t.opening := by
  unfold withNonce
  split <;> rfl

/-- A nonce leaves the name of a tag. -/
@[simp] theorem name_withNonce (w : Insertions) (t : StartTag) : (withNonce w t).name = t.name := by
  simp only [StartTag.name, opening_withNonce]

/-- A nonce does not change whether a token is needed. -/
@[simp] theorem needsToken_withNonce (w : Insertions) (t : StartTag) :
    needsToken (withNonce w t) = needsToken t := by
  simp only [needsToken, name_withNonce]

/-- What stands inside a tag with its nonce. -/
theorem inside_withNonce (w : Insertions) (t : StartTag) :
    (withNonce w t).inside = (if w.nonces && needsNonce t then nonceText else []) ++ t.inside := by
  unfold withNonce
  split <;> rfl

/-- A tag does not need a second nonce. -/
theorem needsNonce_withNonce (w : Insertions) (t : StartTag) :
    needsNonce (withNonce w t) = (!w.nonces && needsNonce t) := by
  by_cases h : (w.nonces && needsNonce t) = true
  · obtain ⟨hw, -⟩ := Bool.and_eq_true_iff.1 h
    rw [withNonce_of_needs h, hw]
    simp [needsNonce]
  · rw [withNonce_of_not_needs h]
    cases hw : w.nonces <;> simp_all

/-- A nonce in front of the inside of a tag is one more attribute. -/
theorem inside_nonceText {inside last : List Char} {names : List String}
    (h : StartTag.Inside inside names last) :
    StartTag.Inside (nonceText ++ inside) ("nonce" :: names) last := by
  have hq := h.quoted (by decide : "nonce".toList.all StartTag.isNameChar = true) (by decide)
    (by decide : '\"' ∉ (placeholder nonceFunction).toList)
  have hname : lower (String.ofList "nonce".toList) = "nonce" := by decide
  have htext : nonceText = [' '] ++ ("nonce".toList ++ [] ++
    '=' :: ([] ++ '\"' :: (placeholder nonceFunction).toList ++ ['\"'])) := by decide
  rwa [hname, ← htext] at hq

/-- A tag with a nonce is a tag. -/
theorem written_withNonce {last : List Char} (h : t.Written last) :
    (withNonce w t).Written last := by
  unfold withNonce
  split
  · cases h with
    | @intro name inside _ names hl hn hi =>
      refine .intro hl ⟨hn.all, ?_⟩ (inside_nonceText hi)
      intro c hc
      obtain rfl : ' ' = c := Option.some.inj hc
      decide
  · exact h

/-- The hidden field that carries a token is a tag. -/
theorem written_tokenTag : tokenTag.Written [] := by
  have hlast : StartTag.Inside ([] ++ ['>']) [] [] := .close (List.forall_mem_nil _)
  have hvalue := hlast.quoted (by decide : "value".toList.all StartTag.isNameChar = true)
    (by decide) (by decide : '\"' ∉ (placeholder tokenFunction).toList)
  have hname := hvalue.quoted (by decide : "name".toList.all StartTag.isNameChar = true)
    (by decide) (by decide : '\"' ∉ tokenField.toList)
  have htype := hname.quoted (by decide : "type".toList.all StartTag.isNameChar = true)
    (by decide) (by decide : '\"' ∉ "hidden".toList)
  have hnames : ["type", "name", "value"].map (fun name => lower (String.ofList name.toList)) =
      ["type", "name", "value"] := by decide
  simp only [List.map_cons, List.map_nil, List.cons.injEq, and_true] at hnames
  obtain ⟨h1, h2, h3⟩ := hnames
  rw [h1, h2, h3] at htype
  exact .intro ⟨'i', rfl, by decide⟩ (by decide) htype

/-- The tag of the token is written as its text. -/
theorem source_tokenTag : tokenTag.source = tokenText := by decide

/-- If no slash stands before the inside of a tag, only the inside decides whether one stands before
the closing bracket. -/
theorem slash_append_iff {front inside : List Char} (hi : inside ≠ [])
    (hf : front.getLast? ≠ some '/') :
    ((front ++ inside).dropLast.getLast? == some '/') = (inside.dropLast.getLast? == some '/') := by
  rw [List.dropLast_append_of_ne_nil hi, List.getLast?_append]
  cases inside.dropLast.getLast? with
  | none => simpa using hf
  | some c => rfl

/-- A nonce does not make a tag close itself, nor keep it from doing so. -/
theorem selfClosing_withNonce {last : List Char} (h : t.Written last) :
    (withNonce w t).selfClosing = t.selfClosing := by
  unfold withNonce
  split
  · cases h with
    | @intro name inside _ names _ hn hi =>
      have hname : ('<' :: name).getLast? ≠ some '/' := by
        intro hl
        rcases List.mem_cons.1 (List.mem_of_getLast? hl) with hc | hc
        · exact absurd hc (by decide)
        · exact absurd (hn.all _ hc) (by decide)
      have hnonce : ('<' :: name ++ nonceText).getLast? ≠ some '/' := by
        rw [List.getLast?_append_of_ne_nil _ (by decide)]
        decide
      unfold StartTag.selfClosing StartTag.source
      rw [← List.append_assoc, slash_append_iff hi.ne_nil hname, slash_append_iff hi.ne_nil hnonce]
  · rfl

/-- A tag with a nonce has the same raw text behind it. -/
theorem raw_withNonce {last raw after : List Char} (h : t.Written last) (hr : Raw t raw after) :
    Raw (withNonce w t) raw after := by
  cases hr with
  | none hn =>
    rw [← selfClosing_withNonce (w := w) h, ← name_withNonce w] at hn
    exact .none hn
  | text ht hl =>
    rw [← selfClosing_withNonce (w := w) h, ← name_withNonce w] at ht
    rw [← name_withNonce w] at hl
    exact .text ht hl

/-- A form has no raw text. -/
theorem raw_form_iff (hf : t.name = "form") {raw after : List Char} : Raw t raw after ↔ raw = [] := by
  have hn : (!t.selfClosing && rawElements.contains t.name) = false := by simp [hf, rawElements]
  constructor
  · intro h
    cases h with
    | none => rfl
    | text ht =>
      rw [hn] at ht
      cases ht
  · rintro rfl
    exact .none hn

/-! ### Texts that go on alike -/

/-- What is at the front of a text decides on what stands before it: its first character, and, if an
end tag begins there, everything up to the closing bracket. -/
structure Alike (s s' : List Char) : Prop where
  head : s'.head? = s.head?
  closing : "</".toList <+: s →
    ∃ front more more', s = front ++ '>' :: more ∧ s' = front ++ '>' :: more'

/-- Where a name is closed, its closing tag stands in small letters. -/
theorem closes_iff {name : String} {s : List Char} :
    closes name s = true ↔ "</".toList ++ name.toList <+: s.map Char.toLower :=
  List.isPrefixOf_iff_prefix

/-- An end tag begins with a bracket and a slash. -/
theorem prefix_of_closes {name : String} {s : List Char} (h : closes name s = true) :
    "</".toList <+: s := by
  have hp : "</".toList <+: s.map Char.toLower := (List.prefix_append _ _).trans (closes_iff.1 h)
  match s with
  | [] => exact absurd hp (by decide)
  | [_] => simp at hp
  | c :: d :: s =>
    have hl : '<' = c.toLower ∧ '/' = d.toLower := by simpa using hp
    rw [eq_of_toLower_eq hl.1.symm (by decide), eq_of_toLower_eq hl.2.symm (by decide)]
    exact List.prefix_append _ s

/-- Whether an end tag begins here is decided before the next closing bracket. -/
theorem closes_append_cons {name : String} (hn : '>' ∉ name.toList) (s more more' : List Char) :
    closes name (s ++ '>' :: more) = closes name (s ++ '>' :: more') := by
  have hp : '>' ∉ "</".toList ++ name.toList := by
    rw [List.mem_append]
    rintro (h | h)
    · exact absurd h (by decide)
    · exact hn h
  have hc : '>'.toLower = '>' := by decide
  rw [Bool.eq_iff_iff, closes_iff, closes_iff, List.map_append, List.map_append, List.map_cons,
    List.map_cons, hc, prefix_append_cons_iff hp, prefix_append_cons_iff hp]

/-- No name of an element with raw text has a bracket in it. -/
theorem not_mem_of_mem_rawElements : ∀ name ∈ rawElements, '>' ∉ name.toList := by decide

/-- Raw text ends where it ended if what stands behind it goes on alike. -/
theorem Raw.of_alike {raw after after' : List Char} (h : Raw t raw after) (ha : Alike after after') :
    Raw t raw after' := by
  cases h with
  | none hn => exact .none hn
  | text ht hl =>
    have hname : '>' ∉ t.name.toList :=
      not_mem_of_mem_rawElements _ (List.contains_iff_mem.1 (Bool.and_eq_true_iff.1 ht).2)
    obtain ⟨front, more, more', rfl, rfl⟩ := ha.closing (prefix_of_closes hl.here)
    refine .text ht ⟨?_, ?_⟩
    · rw [closes_append_cons hname front more' more]
      exact hl.here
    · intro k hk
      have hfirst := hl.first k hk
      rw [List.drop_append_of_le_length (Nat.le_of_lt hk), ← List.append_assoc] at hfirst ⊢
      rw [closes_append_cons hname _ more' more]
      exact hfirst

/-- Behind a text that begins no closing tag, raw text ends where it did. -/
theorem alike_of_not_prefix {s s' : List Char} (hh : s'.head? = s.head?) (hn : ¬ "</".toList <+: s) :
    Alike s s' :=
  ⟨hh, fun hp => absurd hp hn⟩

/-- Behind a bracket, raw text ends where it did. -/
theorem alike_of_bracket (front more more' : List Char) :
    Alike (front ++ ['>'] ++ more) (front ++ ['>'] ++ more') := by
  refine ⟨?_, fun _ => ⟨front, more, more', by simp, by simp⟩⟩
  cases front <;> rfl

/-- A tag that was filled is the tag with its nonce and a token behind it. -/
theorem fillTag_eq_source_append (w : Insertions) (t : StartTag) :
    fillTag w t = (withNonce w t).source ++ (if w.tokens && needsToken t then tokenText else []) := by
  simp only [fillTag, StartTag.source, opening_withNonce, inside_withNonce, List.append_assoc]

/-- A construct that was written into goes on as before. -/
theorem Construct.alike {ps : List Piece} {after : List Char} (h : Construct ps after)
    (after' : List Char) :
    Alike (source ps ++ after) (ps.flatMap (Piece.filled w) ++ after') := by
  cases h with
  | @comment inner =>
    have hs : "<!--".toList ++ inner ++ "-->".toList = "<!--".toList ++ inner ++ "--".toList ++ ['>'] := by
      simp
    simp only [source, List.flatMap_cons, List.flatMap_nil, List.append_nil, Piece.source,
      Piece.filled]
    rw [hs]
    exact alike_of_bracket _ _ _
  | declaration =>
    simp only [source, List.flatMap_cons, List.flatMap_nil, List.append_nil, Piece.source,
      Piece.filled]
    exact alike_of_bracket _ _ _
  | loose hl =>
    refine alike_of_not_prefix rfl ?_
    rintro ⟨tail, htail⟩
    have hslash : after.head? = some '/' := by
      have he := (List.cons.inj htail).2
      have he' : '/' :: tail = after := he
      rw [← he']
      rfl
    exact (hl '/' hslash).1 (.inl rfl)
  | @tag t last raw _ ht hr =>
    obtain ⟨c, tail, hs, hc⟩ := ht.front
    refine alike_of_not_prefix ?_ ?_
    · cases ht
      rfl
    · rintro ⟨more, hmore⟩
      have he : source [.tag t, .verbatim raw] = '<' :: c :: tail ++ (raw ++ []) := by
        simp only [source, List.flatMap_cons, List.flatMap_nil, Piece.source, hs]
      rw [he] at hmore
      have hslash : '/' = c := (List.cons.inj (List.cons.inj hmore).2).1
      rw [← hslash] at hc
      exact absurd hc (by decide)

/-- A text of markup that was written into goes on as before. -/
theorem Cut.alike {s : List Char} {ps : List Piece} (h : Cut s ps) :
    Alike s (ps.flatMap (Piece.filled w)) := by
  have of_text {c : Char} {text : List Char} (ht : '<' ∉ c :: text) (more more' : List Char) :
      Alike (c :: text ++ more) (c :: text ++ more') := by
    refine alike_of_not_prefix rfl ?_
    rintro ⟨tail, htail⟩
    have hc : '<' = c := (List.cons.inj htail).1
    exact ht (hc ▸ List.mem_cons_self)
  cases h with
  | text h =>
    cases s with
    | nil => exact alike_of_not_prefix rfl (by decide)
    | cons c s =>
      have ha := of_text h [] []
      simpa only [List.flatMap_singleton, Piece.filled, List.append_nil] using ha
  | @construct text after ps more h hc _ =>
    rw [List.cons_append, List.flatMap_cons, List.flatMap_append]
    cases text with
    | nil => exact hc.alike _
    | cons c text => exact of_text h _ _

/-! ### Cutting what was written into -/

/-- A construct that was written into is the construct, and a token behind it. A form has no raw text, so
that the token behind it is a construct of its own. -/
theorem Construct.refilled {ps more : List Piece} {text after after' : List Char}
    (h : Construct ps after) (ha : Alike after after') (ht : '<' ∉ text) (hm : Cut after' more) :
    Cut (text ++ (ps.flatMap (Piece.filled w) ++ after'))
      (.verbatim text :: ps.flatMap (Piece.refilled w) ++ more) := by
  cases h with
  | comment hl => exact .construct ht (.comment (leftmost_append hl after')) hm
  | declaration hc hn hi => exact .construct ht (.declaration hc hn hi) hm
  | loose hl => exact .construct ht (.loose (ha.head ▸ hl)) hm
  | @tag t last raw _ hw hr =>
    have htag := written_withNonce (w := w) hw
    simp only [List.flatMap_cons, List.flatMap_nil, List.append_nil, Piece.filled, Piece.refilled,
      fillTag_eq_source_append]
    by_cases htoken : (w.tokens && needsToken t) = true
    · have hform : t.name = "form" := by simpa [needsToken] using (Bool.and_eq_true_iff.1 htoken).2
      obtain rfl := (raw_form_iff hform).1 hr
      have hc := Cut.construct List.not_mem_nil (.tag written_tokenTag (.none (by decide))) hm
      have hcut := Cut.construct ht (.tag htag (raw_withNonce hw ((raw_form_iff hform).2 rfl))) hc
      simpa [htoken, source, Piece.source, source_tokenTag] using hcut
    · have hraw := raw_withNonce (w := w) hw (hr.of_alike ha)
      have hcut := Cut.construct ht (.tag htag hraw) hm
      simpa [htoken, source, Piece.source] using hcut

/-- What was written into a text that can be cut can be cut, into the pieces that were written into. -/
theorem Cut.refilled {s : List Char} {ps : List Piece} (h : Cut s ps) (w : Insertions) :
    Cut (ps.flatMap (Piece.filled w)) (ps.flatMap (Piece.refilled w)) := by
  induction h with
  | text h =>
    rw [List.flatMap_singleton, List.flatMap_singleton]
    exact .text h
  | construct h hc hm ih =>
    have hcut := hc.refilled (w := w) hm.alike h ih
    simpa only [List.cons_append, List.nil_append, List.flatMap_cons, List.flatMap_append,
      Piece.filled, Piece.refilled] using hcut

/-! ### Writing twice -/

/-- The token's own tag gets nothing. -/
theorem fillTag_tokenTag (w : Insertions) : fillTag w tokenTag = tokenText := by
  have hn : needsNonce tokenTag = false := by decide
  have ht : needsToken tokenTag = false := by decide
  rw [← source_tokenTag]
  simp [fillTag, StartTag.source, hn, ht]

/-- A piece that was written into gets the rest the second time, if tokens are not written twice. -/
theorem flatMap_filled_refilled {w w' : Insertions} (h : ¬ (w.tokens = true ∧ w'.tokens = true))
    (p : Piece) : (p.refilled w).flatMap (Piece.filled w') = p.filled (w.union w') := by
  cases p with
  | verbatim s => simp only [Piece.refilled, List.flatMap_singleton, Piece.filled]
  | tag t =>
    have hnonce : (if w'.nonces && (!w.nonces && needsNonce t) then nonceText else []) ++
        (if w.nonces && needsNonce t then nonceText else []) =
        if (w.nonces || w'.nonces) && needsNonce t then nonceText else [] := by
      cases w.nonces <;> cases w'.nonces <;> cases needsNonce t <;> rfl
    have htoken : (if w'.tokens && needsToken t then tokenText else []) ++
        (if w.tokens && needsToken t then tokenText else []) =
        if (w.tokens || w'.tokens) && needsToken t then tokenText else [] := by
      cases hw : w.tokens <;> cases hw' : w'.tokens <;> cases needsToken t <;> simp_all
    have htag : (if w.tokens && needsToken t then [Piece.verbatim [], .verbatim [], .tag tokenTag]
        else []).flatMap (Piece.filled w') = if w.tokens && needsToken t then tokenText else [] := by
      split
      · simp only [List.flatMap_cons, List.flatMap_nil, Piece.filled, fillTag_tokenTag,
          List.nil_append, List.append_nil]
      · rfl
    have hunion : fillTag (w.union w') t = t.opening ++
        (if (w.nonces || w'.nonces) && needsNonce t then nonceText else []) ++ t.inside ++
        (if (w.tokens || w'.tokens) && needsToken t then tokenText else []) := rfl
    rw [Piece.refilled, List.flatMap_cons, htag, Piece.filled, Piece.filled, hunion, fillTag,
      needsNonce_withNonce, needsToken_withNonce, opening_withNonce, inside_withNonce, ← hnonce,
      ← htoken]
    simp only [List.append_assoc]

/-- To write into a text twice is to write everything at once, if tokens are not written twice. -/
theorem inject_bind_inject {w w' : Insertions} (h : ¬ (w.tokens = true ∧ w'.tokens = true))
    (s : List Char) : (inject w s).bind (inject w') = inject (w.union w') s := by
  cases hp : pieces s with
  | error e =>
    simp only [inject, hp]
    rfl
  | ok ps =>
    have hcut := (pieces_eq_ok_iff.1 hp).refilled w
    simp only [inject, hp, Except.map, Except.bind, pieces_eq_ok_iff.2 hcut, List.flatMap_assoc,
      flatMap_filled_refilled h]

/-- Nonces are written only once, and nonces and tokens may be written in any order or at once: whether
the text can be cut or not, the outcome is the same. -/
theorem nonces_and_tokens_compose (s : List Char) :
    (inject ⟨true, false⟩ s).bind (inject ⟨true, false⟩) = inject ⟨true, false⟩ s ∧
      (inject ⟨true, false⟩ s).bind (inject ⟨false, true⟩) = inject ⟨true, true⟩ s ∧
      (inject ⟨false, true⟩ s).bind (inject ⟨true, false⟩) = inject ⟨true, true⟩ s :=
  ⟨inject_bind_inject (by decide) s, inject_bind_inject (by decide) s,
    inject_bind_inject (by decide) s⟩

end Markup

end Palisade
