import Palisade.Proofs.Markup.Places
import Palisade.Proofs.Markup.RawText
import Palisade.Proofs.Template.Parts

/-!
# Templates that are written into before they are parsed

The walk through markup knows nothing of actions, and the parser of templates nothing of tags. Yet a
nonce or a token is never written into an action: the place of a nonce has the bracket of its tag
before it and only a name between, and the place of a token a closing bracket, neither of which stands
in an action. The main statement says that it makes no difference whether a text is written into and
then parsed or parsed as it is, but for the parts of what was written. Messages are not covered.
-/
namespace Palisade

open Palisade.Text Palisade.Markup

namespace Template

/-! ### What is written, as parts -/

/-- The parts of the nonce of a script. -/
def nonceParts : List Part :=
  " nonce=\"".toList.map .character ++
    .action nonceFunction.toList (.function nonceFunction) :: "\"".toList.map .character

/-- The parts of the hidden field with the token of a form. -/
def tokenParts : List Part :=
  ("<input type=\"hidden\" name=\"" ++ tokenField ++ "\" value=\"").toList.map .character ++
    .action tokenFunction.toList (.function tokenFunction) :: "\">".toList.map .character

/-- A place, with the parts of what is written there. -/
def insertedParts (m : Nat × List Char) : Nat × List Part :=
  (m.1, if m.2 = nonceText then nonceParts else tokenParts)

/-- At a script the parts of a nonce are written. -/
theorem insertedParts_nonceText (place : Nat) :
    insertedParts (place, nonceText) = (place, nonceParts) := rfl

/-- At a form the parts of a hidden field are written. -/
theorem insertedParts_tokenText (place : Nat) :
    insertedParts (place, tokenText) = (place, tokenParts) := by
  have hne : tokenText ≠ nonceText := by decide
  rw [insertedParts, if_neg hne]

/-- A text with one action in it, between texts without braces. -/
theorem reads_around_action (before after : List Char) {inside : List Char} {node : Node}
    (hb : '\x7b' ∉ before) (hl : Leftmost closing.isPrefixOf inside (closing ++ after))
    (hn : readAction? (trimAction inside) = some node) (ha : '\x7b' ∉ after) :
    Reads (before ++ (opening ++ (inside ++ (closing ++ after))))
      (before.map .character ++ .action inside node :: after.map .character) := by
  have hlast : before.getLast? ≠ some '\x7b' := fun h => hb (List.mem_of_getLast? h)
  exact ((reads_plain hb).append_iff hlast).2 ⟨_, rfl, .action hl hn (reads_plain ha)⟩

/-- The nonce is read as its parts, whatever the text around it. -/
theorem reads_nonceText : Reads nonceText nonceParts := by
  have hn : readAction? (trimAction nonceFunction.toList) = some (.function nonceFunction) := by decide
  have h := reads_around_action " nonce=\"".toList "\"".toList (by decide)
    ⟨by decide, by decide⟩ hn (by decide)
  have ht : nonceText = " nonce=\"".toList ++
    (opening ++ (nonceFunction.toList ++ (closing ++ "\"".toList))) := by decide
  rwa [← ht] at h

/-- The hidden field is read as its parts. -/
theorem reads_tokenText : Reads tokenText tokenParts := by
  have hn : readAction? (trimAction tokenFunction.toList) = some (.function tokenFunction) := by decide
  have h := reads_around_action
    ("<input type=\"hidden\" name=\"" ++ tokenField ++ "\" value=\"").toList
    "\">".toList (by decide) ⟨by decide, by decide⟩ hn (by decide)
  have ht : tokenText = ("<input type=\"hidden\" name=\"" ++ tokenField ++ "\" value=\"").toList ++
    (opening ++ (tokenFunction.toList ++ (closing ++ "\">".toList))) := by decide
  rwa [← ht] at h

/-! ### Reading a text that was written into -/

/-- Parts with parts put between them at places of the text; the parts begin at the position
`start`. No place is inside a part. -/
inductive Woven : Nat → List (Nat × List Part) → List Part → List Part → Prop where
  | nil {start : Nat} {parts : List Part} : Woven start [] parts parts
  | cons {start place : Nat} {front inserted back back' : List Part} {ms : List (Nat × List Part)}
      (hp : place = start + (written front).length) (hr : Woven place ms back back') :
      Woven start ((place, inserted) :: ms) (front ++ back) (front ++ (inserted ++ back'))

/-- The parts of one text are those of another with parts put between them, and one text has parts
exactly if the other has. -/
structure Reread (start : Nat) (ms : List (Nat × List Part)) (s s' : List Char) : Prop where
  forth : ∀ parts, Reads s parts → ∃ parts', Reads s' parts' ∧ Woven start ms parts parts'
  back : ∀ parts', Reads s' parts' → ∃ parts, Reads s parts ∧ Woven start ms parts parts'

variable {start : Nat} {ms : List (Nat × List Part)} {s s' t text : List Char}

/-- A text into which nothing was put is itself again. -/
theorem Reread.refl (start : Nat) (s : List Char) : Reread start [] s s :=
  ⟨fun parts h => ⟨parts, h, .nil⟩, fun parts h => ⟨parts, h, .nil⟩⟩

/-- Something is written behind a text over the end of which no action reaches. -/
theorem Reread.write {inserted : List Part} (hs : Sealed s) (ht : Reads text inserted)
    (he : text.getLast? ≠ some '\x7b') (h : Reread (start + s.length) ms t s') :
    Reread start ((start + s.length, inserted) :: ms) (s ++ t) (s ++ (text ++ s')) := by
  constructor
  · intro parts hp
    obtain ⟨front, back, rfl, hf, hb⟩ := hs.reads_append_iff.1 hp
    obtain ⟨back', hb', hw⟩ := h.forth back hb
    have hplace : start + s.length = start + (written front).length := by rw [hf.written_eq]
    exact ⟨_, hs.reads_append_iff.2 ⟨front, inserted ++ back', rfl, hf,
      (ht.append_iff he).2 ⟨back', rfl, hb'⟩⟩, .cons hplace hw⟩
  · intro parts' hp
    obtain ⟨front, rest, rfl, hf, hr⟩ := hs.reads_append_iff.1 hp
    obtain ⟨back', rfl, hb'⟩ := (ht.append_iff he).1 hr
    obtain ⟨back, hb, hw⟩ := h.back back' hb'
    have hplace : start + s.length = start + (written front).length := by rw [hf.written_eq]
    exact ⟨_, hs.reads_append_iff.2 ⟨front, back, rfl, hf, hb⟩, .cons hplace hw⟩

/-! ### The places of tags -/

/-- No action reaches over the end of the name of a script. -/
theorem sealed_opening {u : StartTag} {last : List Char} (h : u.Written last)
    (hname : u.name = "script") (v : List Char) : Sealed (v ++ u.opening) := by
  cases h with
  | @intro name inside _ _ _ _ _ =>
    refine ⟨v, '<', name, rfl, by decide, fun hm => ?_⟩
    have hlow : '\x7b' ∈ "script".toList := by
      rw [← hname]
      have hmap : (lower (String.ofList name)).toList = name.map Char.toLower := by
        simp [lower]
      simp only [StartTag.name, List.drop_succ_cons, List.drop_zero, hmap]
      exact List.mem_map.2 ⟨'\x7b', hm, by decide⟩
    exact absurd hlow (by decide)

/-- No action reaches over the end of a tag. -/
theorem sealed_source {u : StartTag} {last : List Char} (h : u.Written last) (v : List Char) :
    Sealed (v ++ u.source) := by
  cases h with
  | @intro name inside _ _ _ _ hi =>
    obtain ⟨front, rfl⟩ := hi.exists_front
    exact ⟨v ++ ('<' :: name ++ front ++ last), '>', [], by simp [StartTag.source], by decide,
      List.not_mem_nil⟩

/-- Pieces that were written into are read as before, with the parts of what was written between. Here
`v` is the text between the last place and the pieces; a place cuts it off. -/
theorem reread_filled (w : Insertions) {ps : List Piece}
    (hw : ∀ u, .tag u ∈ ps → ∃ last, u.Written last) (start : Nat) (v : List Char) :
    Reread start ((marks w (start + v.length) ps).map insertedParts) (v ++ source ps)
      (v ++ ps.flatMap (Piece.filled w)) := by
  induction ps generalizing start v with
  | nil => exact .refl start (v ++ [])
  | cons p rest ih =>
    have hrest : ∀ u, .tag u ∈ rest → ∃ last, u.Written last := fun u hu =>
      hw u (List.mem_cons_of_mem p hu)
    cases p with
    | verbatim s =>
      have hr := ih hrest start (v ++ s)
      rwa [List.length_append, ← Nat.add_assoc, List.append_assoc, List.append_assoc] at hr
    | tag u =>
      obtain ⟨last, hu⟩ := hw u List.mem_cons_self
      have hlength : u.source.length = u.opening.length + u.inside.length := List.length_append
      have hsource : source (.tag u :: rest) = u.source ++ source rest := rfl
      rw [hsource, List.flatMap_cons, Piece.filled, fillTag_eq, marks_tag, places]
      by_cases hnonce : w.nonces = true ∧ u.name = "script" ∧ "nonce" ∉ u.attributes
      · have hform : ¬ (w.tokens = true ∧ u.name = "form") := fun h => by simp [hnonce.2.1] at h
        have hr := (ih hrest (start + (v ++ u.opening).length) u.inside).write
          (sealed_opening hu hnonce.2.1 v) reads_nonceText (by decide)
        simpa [hnonce, hform, StartTag.source, insertedParts_nonceText, Nat.add_assoc] using hr
      · by_cases htoken : w.tokens = true ∧ u.name = "form"
        · have hr := (ih hrest (start + (v ++ u.source).length) []).write
            (sealed_source hu v) reads_tokenText (by decide)
          simpa [hnonce, htoken, StartTag.source, insertedParts_tokenText, Nat.add_assoc] using hr
        · have hr := ih hrest start (v ++ u.source)
          simpa [hnonce, htoken, StartTag.source, Nat.add_assoc] using hr

/-! ### Parsing -/

/-- Parsing succeeds exactly on texts that have parts, with the nodes of these. -/
theorem parse_eq_ok_iff {source : String} {t : Template} :
    parse source = .ok t ↔ ∃ parts, Reads source.toList parts ∧ t = ⟨gather parts⟩ := by
  unfold parse
  constructor
  · intro h
    split at h
    · cases h
    · rename_i nodes hn
      obtain ⟨parts, hp, rfl⟩ := parseFrom_eq_ok_iff.1 hn
      exact ⟨parts, hp, (Except.ok.inj h).symm⟩
  · rintro ⟨parts, hp, rfl⟩
    rw [hp.parseFrom_eq]

/-- A template that is not parsed has no parts. -/
theorem not_reads_of_parse_eq_error {source : String} {e : TemplateError}
    (h : parse source = .error e) (parts : List Part) : ¬ Reads source.toList parts := by
  intro hp
  rw [parse_eq_ok_iff.2 ⟨parts, hp, rfl⟩] at h
  cases h

/-- After marks were written a source is parsed in their presence. -/
theorem parseInjected_of_inject {w : Insertions} {source : String} {out : List Char}
    (h : inject w source.toList = .ok out) : parseInjected w source = parse (String.ofList out) := by
  rw [parseInjected, h]

/-- Writing into a text and parsing it commute. Either the text that was written into is not parsed,
and then the text cannot be written into or is not parsed as it is; or both are possible, and then the
nodes of the text that was written into, their text character by character, are those of the text, with
the parts of nonces and tokens between them at the places where they were written, none of which is in
an action. -/
theorem injection_commutes_with_parsing (w : Insertions) (source : String) :
    ((∃ e, parseInjected w source = .error e) ∧
        ((∃ e, inject w source.toList = .error e) ∨ ∃ e, parse source = .error e)) ∨
      ∃ t t' ps parts parts', parse source = .ok t ∧ parseInjected w source = .ok t' ∧
        Cut source.toList ps ∧
        inject w source.toList = .ok (splice 0 (marks w 0 ps) source.toList) ∧
        Reads source.toList parts ∧ flatten t.nodes = parts.map Part.symbol ∧
        Reads (splice 0 (marks w 0 ps) source.toList) parts' ∧
        flatten t'.nodes = parts'.map Part.symbol ∧
        Woven 0 ((marks w 0 ps).map insertedParts) parts parts' := by
  cases hp : Markup.pieces source.toList with
  | error e =>
    have hi : inject w source.toList = .error e := by
      rw [inject, hp]
      rfl
    exact .inl ⟨⟨.markup e, by rw [parseInjected, hi]⟩, .inl ⟨e, hi⟩⟩
  | ok ps =>
    have hc : Cut source.toList ps := pieces_eq_ok_iff.1 hp
    have hi := inject_of_cut hc w
    have hr := reread_filled w (fun u hu => hc.written hu) 0 []
    rw [List.nil_append, List.nil_append, flatMap_filled_eq w 0, hc.source_eq] at hr
    cases hs : parse source with
    | error e =>
      refine .inl ⟨?_, .inr ⟨e, rfl⟩⟩
      rw [parseInjected_of_inject hi]
      cases hs' : parse (String.ofList (splice 0 (marks w 0 ps) source.toList)) with
      | error e' => exact ⟨e', rfl⟩
      | ok t' =>
        obtain ⟨parts', hp', -⟩ := parse_eq_ok_iff.1 hs'
        rw [String.toList_ofList] at hp'
        obtain ⟨parts, hparts, -⟩ := hr.back parts' hp'
        exact absurd hparts (not_reads_of_parse_eq_error hs parts)
    | ok t =>
      obtain ⟨parts, hparts, rfl⟩ := parse_eq_ok_iff.1 hs
      obtain ⟨parts', hp', hw⟩ := hr.forth parts hparts
      have hs' : parseInjected w source = .ok ⟨gather parts'⟩ := by
        rw [parseInjected_of_inject hi]
        exact parse_eq_ok_iff.2 ⟨parts', by rwa [String.toList_ofList], rfl⟩
      exact .inr ⟨_, _, ps, parts, parts', rfl, hs', hc, hi, hparts, hparts.flatten_gather, hp',
        hp'.flatten_gather, hw⟩

end Template

end Palisade
