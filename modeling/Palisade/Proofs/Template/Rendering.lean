import Palisade.Proofs.Template.Injection
import Palisade.Template.Fill

/-!
# What was written into a template, when it is filled

Where a nonce or a token was written into the source of a template the filled template has the value of
a function. The main statement describes the whole of it: the parts of the source as they are filled,
and between them, at the places at which something was written and nowhere else, the nonce or the field
with the token. Values that change when they are escaped are not covered.
-/
namespace Palisade

open Palisade.Text Palisade.Markup

namespace Markup

/-- The characters that are escaped. -/
def escaped : List Char := ['&', '<', '>', '\"', '\'', '\x00']

/-- A character that needs no escaping is left as it is. -/
theorem escapeChar_eq_self {c : Char} (h : c ∉ escaped) : escapeChar c = [c] := by
  simp only [escaped, List.mem_cons, List.not_mem_nil, or_false, not_or] at h
  obtain ⟨hamp, hlt, hgt, hquot, hapos, hnul⟩ := h
  rw [escapeChar, if_neg hamp, if_neg hlt, if_neg hgt, if_neg hquot, if_neg hapos, if_neg hnul]

/-- A text without these characters stays as it is. -/
theorem escape_eq_self {s : List Char} (h : ∀ mark ∈ escaped, mark ∉ s) : escape s = s := by
  have hchar : ∀ c ∈ s, escapeChar c = [c] := fun c hc => escapeChar_eq_self fun he => h c he hc
  rw [escape, List.flatMap_congr hchar, List.flatMap_singleton']

end Markup

namespace Template

variable {data : Json} {fs : Functions} {out : List Char}

/-! ### Parts of a filled template -/

/-- Parts of a template, and what they are when it is filled. -/
inductive Shown (data : Json) (fs : Functions) : List Part → List Char → Prop where
  | nil : Shown data fs [] []
  | character {c : Char} {parts : List Part} {out : List Char} (hr : Shown data fs parts out) :
      Shown data fs (.character c :: parts) (c :: out)
  | action {inside : List Char} {node : Node} {parts : List Part} {value out : List Char}
      (hv : fillNode data fs node = .ok value) (hr : Shown data fs parts out) :
      Shown data fs (.action inside node :: parts) (value ++ out)

/-- Nodes are filled one after the other, and all of them have to be. -/
theorem fillNodes_cons_eq_ok_iff {node : Node} {rest : List Node} :
    fillNodes data fs (node :: rest) = .ok out ↔ ∃ front back,
      fillNode data fs node = .ok front ∧ fillNodes data fs rest = .ok back ∧ out = front ++ back := by
  rw [fillNodes]
  cases fillNode data fs node with
  | error e => simp
  | ok front =>
    cases fillNodes data fs rest with
    | error e => simp
    | ok back => simp [eq_comm]

/-- A character in front of nodes shows in front of them. -/
theorem fillNodes_withCharacter_eq_ok_iff {c : Char} {nodes : List Node} :
    fillNodes data fs (withCharacter c nodes) = .ok out ↔
      ∃ back, fillNodes data fs nodes = .ok back ∧ out = c :: back := by
  unfold withCharacter
  split
  · rename_i markup rest
    simp only [fillNodes_cons_eq_ok_iff, fillNode, Except.ok.injEq]
    constructor
    · rintro ⟨front, back, rfl, hb, rfl⟩
      exact ⟨markup ++ back, ⟨markup, back, rfl, hb, rfl⟩, rfl⟩
    · rintro ⟨_, ⟨front, back, rfl, hb, rfl⟩, rfl⟩
      exact ⟨c :: markup, back, rfl, hb, rfl⟩
  · simp only [fillNodes_cons_eq_ok_iff, fillNode, Except.ok.injEq]
    constructor
    · rintro ⟨front, back, rfl, hb, rfl⟩
      exact ⟨back, hb, rfl⟩
    · rintro ⟨back, hb, rfl⟩
      exact ⟨[c], back, rfl, hb, rfl⟩

/-- The nodes of parts are filled part by part. -/
theorem fillNodes_gather_eq_ok_iff {parts : List Part} :
    fillNodes data fs (gather parts) = .ok out ↔ Shown data fs parts out := by
  induction parts generalizing out with
  | nil =>
    constructor
    · intro h
      obtain rfl := Except.ok.inj h
      exact .nil
    · rintro ⟨⟩
      rfl
  | cons part rest ih =>
    cases part with
    | character c =>
      rw [gather, fillNodes_withCharacter_eq_ok_iff]
      constructor
      · rintro ⟨back, hb, rfl⟩
        exact .character (ih.1 hb)
      · intro h
        cases h with
        | character hr => exact ⟨_, ih.2 hr, rfl⟩
    | action inside node =>
      rw [gather, fillNodes_cons_eq_ok_iff]
      constructor
      · rintro ⟨front, back, hf, hb, rfl⟩
        exact .action hf (ih.1 hb)
      · intro h
        cases h with
        | action hv hr => exact ⟨_, _, hv, ih.2 hr, rfl⟩

/-- Parts one behind the other show what they show each. -/
theorem shown_append_iff {ps qs : List Part} :
    Shown data fs (ps ++ qs) out ↔
      ∃ front back, Shown data fs ps front ∧ Shown data fs qs back ∧ out = front ++ back := by
  induction ps generalizing out with
  | nil =>
    constructor
    · intro h
      exact ⟨[], out, .nil, h, rfl⟩
    · rintro ⟨_, back, ⟨⟩, hb, rfl⟩
      exact hb
  | cons part rest ih =>
    rw [List.cons_append]
    constructor
    · intro h
      cases h with
      | character hr =>
        obtain ⟨front, back, hf, hb, rfl⟩ := ih.1 hr
        exact ⟨_, back, .character hf, hb, rfl⟩
      | action hv hr =>
        obtain ⟨front, back, hf, hb, rfl⟩ := ih.1 hr
        exact ⟨_, back, .action hv hf, hb, (List.append_assoc _ _ _).symm⟩
    · rintro ⟨front, back, hf, hb, rfl⟩
      cases hf with
      | character hr => exact .character (ih.2 ⟨_, back, hr, hb, rfl⟩)
      | action hv hr =>
        rw [List.append_assoc]
        exact .action hv (ih.2 ⟨_, back, hr, hb, rfl⟩)

/-- Characters show as themselves. -/
theorem shown_characters {s : List Char} (h : Shown data fs (s.map .character) out) : out = s := by
  induction s generalizing out with
  | nil =>
    cases h
    rfl
  | cons c rest ih =>
    cases h with
    | character hr => rw [ih hr]

/-- A value between two texts. -/
theorem shown_around_action {before inside after value : List Char} {node : Node}
    (hv : fillNode data fs node = .ok value)
    (h : Shown data fs (before.map .character ++ .action inside node :: after.map .character) out) :
    out = before ++ (value ++ after) := by
  obtain ⟨front, back, hf, hb, rfl⟩ := shown_append_iff.1 h
  rw [shown_characters hf]
  cases hb with
  | action hv' hr =>
    obtain rfl := Except.ok.inj (hv.symm.trans hv')
    rw [shown_characters hr]

/-- If a template is not filled for want of a function then the function has no value. -/
theorem get?_of_fill_eq_error {t : Template} {name : String}
    (h : t.fill data fs = .error (.unknownFunction name)) : fs.get? name = none := by
  have hnodes : fillNodes data fs t.nodes = .error (.unknownFunction name) := by
    unfold fill at h
    split at h
    · rename_i e he
      rw [he, Except.error.inj h]
    · cases h
  generalize t.nodes = nodes at hnodes
  induction nodes with
  | nil => cases hnodes
  | cons node rest ih =>
    rw [fillNodes] at hnodes
    split at hnodes
    · rename_i e he
      obtain rfl := Except.error.inj hnodes
      unfold fillNode at he
      split at he
      · cases he
      · split at he
        · cases he
        · rename_i hnone
          cases he
          exact hnone
      · split at he <;> cases he
    · split at hnodes
      · rename_i e he
        obtain rfl := Except.error.inj hnodes
        exact ih he
      · cases hnodes

/-! ### What was written, with its value -/

/-- The nonce of a script. -/
def nonceAttribute (nonce : String) : List Char :=
  " nonce=\"".toList ++ (nonce.toList ++ "\"".toList)

/-- The hidden field with the token of a form. -/
def tokenInput (token : String) : List Char :=
  ("<input type=\"hidden\" name=\"" ++ tokenField ++ "\" value=\"").toList ++
    (token.toList ++ "\">".toList)

/-- A filled template that was written into: the parts of its source as they are filled, and at the
places where something was written the nonce or the field with the token. The parts begin at the position
`start`; no place is inside a part. -/
inductive Inlaid (data : Json) (fs : Functions) (nonce token : String) :
    Nat → List (Nat × List Char) → List Part → List Char → Prop where
  | nil {start : Nat} {parts : List Part} {out : List Char} (h : Shown data fs parts out) :
      Inlaid data fs nonce token start [] parts out
  | nonce {start place : Nat} {ms : List (Nat × List Char)} {front back : List Part}
      {shown out : List Char} (hp : place = start + (written front).length)
      (hf : Shown data fs front shown) (hr : Inlaid data fs nonce token place ms back out) :
      Inlaid data fs nonce token start ((place, nonceText) :: ms) (front ++ back)
        (shown ++ (nonceAttribute nonce ++ out))
  | token {start place : Nat} {ms : List (Nat × List Char)} {front back : List Part}
      {shown out : List Char} (hp : place = start + (written front).length)
      (hf : Shown data fs front shown) (hr : Inlaid data fs nonce token place ms back out) :
      Inlaid data fs nonce token start ((place, tokenText) :: ms) (front ++ back)
        (shown ++ (tokenInput token ++ out))

/-- Nothing but nonces and tokens is written. -/
theorem text_of_mem_marks {w : Insertions} {start : Nat} {ps : List Piece} {m : Nat × List Char}
    (h : m ∈ marks w start ps) : m.2 = nonceText ∨ m.2 = tokenText := by
  obtain ⟨p, -, hm⟩ := List.mem_flatMap.1 h
  rcases List.mem_append.1 hm with hm | hm
  · split at hm
    · exact .inl (congrArg Prod.snd (List.mem_singleton.1 hm))
    · cases hm
  · split at hm
    · exact .inr (congrArg Prod.snd (List.mem_singleton.1 hm))
    · cases hm

/-- The two functions have values that need no escaping. -/
structure Functions.Tells (fs : Functions) (nonce token : String) : Prop where
  nonce_eq : fs.get? nonceFunction = some nonce
  token_eq : fs.get? tokenFunction = some token
  escape_nonce : escape nonce.toList = nonce.toList
  escape_token : escape token.toList = token.toList

variable {nonce token : String}

/-- The function for the nonce is filled in with the nonce. -/
theorem Functions.Tells.fillNode_nonce (h : fs.Tells nonce token) :
    fillNode data fs (.function nonceFunction) = .ok nonce.toList := by
  simp only [fillNode, h.nonce_eq, h.escape_nonce]

/-- The function for the token is filled in with the token. -/
theorem Functions.Tells.fillNode_token (h : fs.Tells nonce token) :
    fillNode data fs (.function tokenFunction) = .ok token.toList := by
  simp only [fillNode, h.token_eq, h.escape_token]

/-- Parts with those of nonces and tokens between them, when they are filled. -/
theorem Functions.Tells.inlaid (h : fs.Tells nonce token) {start : Nat} {ms : List (Nat × List Char)}
    {parts parts' : List Part} (hm : ∀ m ∈ ms, m.2 = nonceText ∨ m.2 = tokenText)
    (hw : Woven start (ms.map insertedParts) parts parts') (hs : Shown data fs parts' out) :
    Inlaid data fs nonce token start ms parts out := by
  induction ms generalizing start parts parts' out with
  | nil =>
    cases hw
    exact .nil hs
  | cons m rest ih =>
    rw [List.forall_mem_cons] at hm
    obtain ⟨place, text⟩ := m
    rw [List.map_cons] at hw
    cases hw with
    | @cons _ _ front inserted back back' _ hp hr =>
      obtain ⟨shown, behind, hf, hbehind, rfl⟩ := shown_append_iff.1 hs
      obtain ⟨value, after, hvalue, hafter, rfl⟩ := shown_append_iff.1 hbehind
      have hrest := ih hm.2 hr hafter
      rcases hm.1 with ht | ht
      · obtain rfl : text = nonceText := ht
        rw [show value = nonceAttribute nonce from shown_around_action h.fillNode_nonce hvalue]
        exact .nonce hp hf hrest
      · obtain rfl : text = tokenText := ht
        have hparts : (insertedParts (place, tokenText)).2 = tokenParts :=
          congrArg Prod.snd (insertedParts_tokenText place)
        have htoken : Shown data fs tokenParts value := hparts ▸ hvalue
        rw [show value = tokenInput token from shown_around_action h.fillNode_token htoken]
        exact .token hp hf hrest

/-- The parts of a template that was written into are those of its source, with others between them. -/
theorem exists_woven {w : Insertions} {source : String} {t : Template}
    (h : parseInjected w source = .ok t) :
    ∃ ps parts parts', Cut source.toList ps ∧ Reads source.toList parts ∧ t = ⟨gather parts'⟩ ∧
      Woven 0 ((marks w 0 ps).map insertedParts) parts parts' := by
  cases hp : Markup.pieces source.toList with
  | error e =>
    have hi : inject w source.toList = .error e := by
      rw [inject, hp]
      rfl
    rw [parseInjected, hi] at h
    cases h
  | ok ps =>
    have hc : Cut source.toList ps := pieces_eq_ok_iff.1 hp
    rw [parseInjected_of_inject (inject_of_cut hc w)] at h
    obtain ⟨parts', hp', rfl⟩ := parse_eq_ok_iff.1 h
    have hr := reread_filled w (fun u hu => hc.written hu) 0 []
    rw [List.nil_append, List.nil_append, flatMap_filled_eq w 0, hc.source_eq] at hr
    rw [String.toList_ofList] at hp'
    obtain ⟨parts, hparts, hw⟩ := hr.back parts' hp'
    exact ⟨ps, parts, parts', hc, hparts, rfl, hw⟩

/-- A template that was written into, when it is filled. -/
theorem Functions.Tells.inlaid_of_fill (h : fs.Tells nonce token) {w : Insertions} {source : String}
    {t : Template} (ht : parseInjected w source = .ok t) {html : SafeHtml}
    (hf : t.fill data fs = .ok html) :
    ∃ ps parts, Cut source.toList ps ∧ Reads source.toList parts ∧
      Inlaid data fs nonce token 0 (marks w 0 ps) parts html.text.toList := by
  obtain ⟨ps, parts, parts', hc, hparts, rfl, hw⟩ := exists_woven ht
  refine ⟨ps, parts, hc, hparts, ?_⟩
  unfold fill at hf
  split at hf
  · cases hf
  · rename_i out hout
    obtain rfl := Except.ok.inj hf
    have hshown : Shown data fs parts' out := fillNodes_gather_eq_ok_iff.1 hout
    have htext : (SafeHtml.trusted (String.ofList out)).text.toList = out := String.toList_ofList
    rw [htext]
    exact h.inlaid (fun m hm => text_of_mem_marks hm) hw hshown

end Template

end Palisade
