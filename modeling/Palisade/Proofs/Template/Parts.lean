import Palisade.Proofs.Text.Leftmost
import Palisade.Proofs.Text.Pieces
import Palisade.Proofs.Text.Trimming
import Palisade.Template.Parser

/-!
# The parts of a template

The grammar of templates as a relation between a text and its parts: characters at which no action
opens, and actions with everything up to the first closing braces. The main statements say that the
parser succeeds exactly on the texts that have such parts and gives their nodes, and where a text may be
cut in two without cutting an action. Errors are not covered.
-/
namespace Palisade

open Palisade.Text

namespace Template

/-! ### Actions -/

/-- Characters that may stand between the braces of an action. -/
def isActionChar (c : Char) : Bool := isNameChar c || c == '.' || c == '-' || isBlank c

/-- Identifiers are made of characters of names. -/
theorem isNameChar_of_mem_identifier {name : List Char} (h : isIdentifier name = true) {c : Char}
    (hc : c ∈ name) : isNameChar c = true := by
  cases name with
  | nil => cases hc
  | cons d rest =>
    obtain ⟨hd, hr⟩ := Bool.and_eq_true_iff.1 h
    rcases List.mem_cons.1 hc with rfl | hc
    · rcases Bool.or_eq_true_iff.1 hd with hd | hd
      · simp [isNameChar, Char.isAlphanum, hd]
      · simp [isNameChar, hd]
    · exact List.all_eq_true.1 hr c hc

/-- What is read as an action are names and dots. -/
theorem isNameChar_of_readAction? {s : List Char} {node : Node} (h : readAction? s = some node)
    {c : Char} (hc : c ∈ s) : isNameChar c = true ∨ c = '.' := by
  unfold readAction? at h
  split at h
  · exact .inr (List.mem_singleton.1 hc)
  · rename_i path _
    simp only at h
    split at h
    · rename_i hall
      rcases List.mem_cons.1 hc with rfl | hc
      · exact .inr rfl
      · rcases eq_or_mem_piece '.' hc with rfl | ⟨name, hname, hm⟩
        · exact .inr rfl
        · exact .inl (isNameChar_of_mem_identifier (List.all_eq_true.1 hall name hname) hm)
    · cases h
  · split at h
    · rename_i hname
      exact .inl (isNameChar_of_mem_identifier hname hc)
    · cases h

/-- An action holds nothing but names, dots, dashes and blanks. -/
theorem isActionChar_of_readAction? {inside : List Char} {node : Node}
    (h : readAction? (trimAction inside) = some node) {c : Char} (hc : c ∈ inside) :
    isActionChar c = true := by
  unfold isActionChar
  cases hblank : isBlank c with
  | true => simp
  | false =>
    cases hdash : c == '-' with
    | true => simp
    | false =>
      have hm : c ∈ trimAction inside :=
        mem_trimBoth (mem_trimBoth (mem_trimBoth hc hblank) hdash) hblank
      rcases isNameChar_of_readAction? h hm with hn | hn
      · simp [hn]
      · simp [hn]

/-- An action is a field or a function. -/
theorem ne_text_of_readAction? {s : List Char} {node : Node} (h : readAction? s = some node)
    (markup : List Char) : node ≠ .text markup := by
  rintro rfl
  unfold readAction? at h
  split at h
  · cases h
  · simp only at h
    split at h <;> cases h
  · split at h <;> cases h

/-! ### Parts -/

/-- A part of a template as it is written. -/
inductive Part where
  /-- A character that stands for itself. -/
  | character (c : Char)
  /-- An action: what stands between its braces, and what it stands for. -/
  | action (inside : List Char) (node : Node)
  deriving Repr, DecidableEq

/-- A part as written. -/
def Part.source : Part → List Char
  | character c => [c]
  | action inside _ => opening ++ inside ++ closing

/-- Parts as written, one after the other. -/
def written (parts : List Part) : List Char := parts.flatMap Part.source

/-- What a part stands for. -/
def Part.symbol : Part → Char ⊕ Node
  | character c => .inl c
  | action _ node => .inr node

/-- Nodes with their text character by character. -/
def flatten (nodes : List Node) : List (Char ⊕ Node) :=
  nodes.flatMap fun
    | .text markup => markup.map .inl
    | node => [.inr node]

/-- A character in front of nodes; it joins the text that is there. -/
def withCharacter (c : Char) : List Node → List Node
  | .text markup :: rest => .text (c :: markup) :: rest
  | nodes => .text [c] :: nodes

/-- The nodes of parts: characters that stand beside each other are one text. -/
def gather : List Part → List Node
  | [] => []
  | .character c :: rest => withCharacter c (gather rest)
  | .action _ node :: rest => node :: gather rest

/-- A text and its parts, from left to right. -/
inductive Reads : List Char → List Part → Prop where
  | nil : Reads [] []
  | character {c : Char} {rest : List Char} {parts : List Part} (h : ¬ opening <+: c :: rest)
      (hr : Reads rest parts) : Reads (c :: rest) (.character c :: parts)
  | action {inside rest : List Char} {node : Node} {parts : List Part}
      (hl : Leftmost closing.isPrefixOf inside (closing ++ rest))
      (hn : readAction? (trimAction inside) = some node) (hr : Reads rest parts) :
      Reads (opening ++ (inside ++ (closing ++ rest))) (.action inside node :: parts)

/-- The parts of a text, one after the other, are the text. -/
theorem Reads.written_eq {s : List Char} {parts : List Part} (h : Reads s parts) :
    written parts = s := by
  induction h with
  | nil => rfl
  | character _ _ ih =>
    rw [written, List.flatMap_cons, ← written, ih]
    rfl
  | action _ _ _ ih =>
    rw [written, List.flatMap_cons, ← written, ih]
    simp only [Part.source, List.append_assoc]

/-- A character in front of nodes is the first of what they hold. -/
theorem flatten_withCharacter (c : Char) (nodes : List Node) :
    flatten (withCharacter c nodes) = .inl c :: flatten nodes := by
  unfold withCharacter
  split <;> simp [flatten]

/-- Nodes gathered from parts hold the parts, in order. -/
theorem Reads.flatten_gather {s : List Char} {parts : List Part} (h : Reads s parts) :
    flatten (gather parts) = parts.map Part.symbol := by
  induction h with
  | nil => rfl
  | character _ _ ih =>
    rw [gather, flatten_withCharacter, ih]
    rfl
  | @action inside rest node parts _ hn _ ih =>
    have hnode : flatten (node :: gather parts) = .inr node :: flatten (gather parts) := by
      cases node with
      | text markup => exact absurd rfl (ne_text_of_readAction? hn markup)
      | field | function => rfl
    rw [gather, hnode, ih]
    rfl

/-! ### The parser -/

/-- An action is read exactly if its trimmed text is one. -/
theorem readAction_eq_ok_iff {position : Nat} {inside : List Char} {node : Node} :
    readAction position inside = .ok node ↔ readAction? (trimAction inside) = some node := by
  unfold readAction
  simp only
  split <;> simp_all

/-- A text without opening braces is parsed to text. -/
theorem parseFrom_of_text {position : Nat} {s : List Char} (h : cutPattern opening s = none) :
    parseFrom position s = .ok (textNodes s) := by
  rw [parseFrom.eq_def]
  split <;> simp_all

/-- The parser at a text with an action. -/
theorem parseFrom_of_cut {position : Nat} {s before after : List Char}
    (h : cutPattern opening s = some (before, after)) :
    parseFrom position s = match cutPattern closing after with
      | none => .error (.unterminated (position + byteLength before))
      | some (inside, rest) =>
        (readAction (position + byteLength before) inside).bind fun node =>
          (parseFrom (position + byteLength before + byteLength opening + byteLength inside +
            byteLength closing) rest).map fun others => textNodes before ++ node :: others := by
  rw [parseFrom.eq_def]
  split
  · simp_all
  · rename_i before' after' h'
    rw [h, Option.some.injEq, Prod.mk.injEq] at h'
    obtain ⟨rfl, rfl⟩ := h'
    simp only
    split
    · rename_i hc
      rw [hc]
    · rename_i inside rest hc
      simp only [hc]
      cases hn : readAction (position + byteLength before) inside with
      | error e => rfl
      | ok node =>
        simp only [Except.bind]
        cases parseFrom (position + byteLength before + byteLength opening + byteLength inside +
          byteLength closing) rest <;> rfl

/-- A character in front of text joins the text. -/
theorem withCharacter_textNodes (c : Char) (before : List Char) {node : Node} {others : List Node}
    (hn : ∀ markup, node ≠ .text markup) :
    withCharacter c (textNodes before ++ node :: others) =
      textNodes (c :: before) ++ node :: others := by
  cases before with
  | nil =>
    cases node with
    | text markup => exact absurd rfl (hn markup)
    | field | function => rfl
  | cons d rest => rfl

/-- The parser at a character at which no action opens. -/
theorem parseFrom_character {position : Nat} {c : Char} {rest : List Char}
    (h : ¬ opening <+: c :: rest) :
    parseFrom position (c :: rest) =
      (parseFrom (position + byteLength [c]) rest).map (withCharacter c) := by
  cases hr : cutPattern opening rest with
  | none =>
    have hs := cutPattern_cons_eq_none_iff.2 ⟨h, hr⟩
    rw [parseFrom_of_text hs, parseFrom_of_text hr]
    cases rest <;> rfl
  | some p =>
    obtain ⟨before, after⟩ := p
    have hs : cutPattern opening (c :: rest) = some (c :: before, after) := by
      rw [cutPattern, if_neg (by rwa [List.isPrefixOf_iff_prefix]), hr]
      rfl
    have hp : position + byteLength (c :: before) = position + byteLength [c] + byteLength before := by
      rw [Nat.add_assoc, ← byteLength_append]
      rfl
    rw [parseFrom_of_cut hs, parseFrom_of_cut hr, hp]
    cases cutPattern closing after with
    | none => rfl
    | some q =>
      obtain ⟨inside, behind⟩ := q
      simp only
      cases hn : readAction (position + byteLength [c] + byteLength before) inside with
      | error e => rfl
      | ok node =>
        simp only [Except.bind]
        cases parseFrom _ behind with
        | error e => rfl
        | ok others =>
          have hnode := ne_text_of_readAction? (readAction_eq_ok_iff.1 hn)
          simp only [Except.map, withCharacter_textNodes c before hnode]

/-- The parser at an action. -/
theorem parseFrom_action (position : Nat) {inside rest : List Char} {node : Node}
    (hl : Leftmost closing.isPrefixOf inside (closing ++ rest))
    (hn : readAction? (trimAction inside) = some node) :
    ∃ behind, parseFrom position (opening ++ (inside ++ (closing ++ rest))) =
      (parseFrom behind rest).map (node :: ·) := by
  have hopen : cutPattern opening (opening ++ (inside ++ (closing ++ rest))) =
      some ([], inside ++ (closing ++ rest)) := rfl
  have hclose := (cutPattern_eq_some_iff (by decide : closing ≠ [])).2 ⟨rfl, hl⟩
  rw [parseFrom_of_cut hopen, hclose]
  simp only [readAction_eq_ok_iff.2 hn, Except.bind]
  exact ⟨_, rfl⟩

/-- A text that has parts is parsed. -/
theorem Reads.parseFrom_eq {s : List Char} {parts : List Part} (h : Reads s parts)
    (position : Nat) : parseFrom position s = .ok (gather parts) := by
  induction h generalizing position with
  | nil => exact parseFrom_of_text rfl
  | character h _ ih =>
    rw [parseFrom_character h, ih]
    rfl
  | action hl hn _ ih =>
    obtain ⟨behind, hp⟩ := parseFrom_action position hl hn
    rw [hp, ih]
    rfl

/-- A text that is parsed has parts. The induction is on the length, because behind an action the parser
goes on past more than one character. -/
theorem exists_reads_of_parseFrom {position : Nat} {s : List Char} {nodes : List Node}
    (h : parseFrom position s = .ok nodes) : ∃ parts, Reads s parts := by
  induction hlen : s.length using Nat.strongRecOn generalizing s position nodes with
  | ind n ih =>
  cases s with
  | nil => exact ⟨[], .nil⟩
  | cons c rest =>
    by_cases ho : opening <+: c :: rest
    · obtain ⟨after, hafter⟩ := ho
      have hopen : cutPattern opening (c :: rest) = some ([], after) := by
        rw [← hafter]
        rfl
      rw [parseFrom_of_cut hopen] at h
      cases hc : cutPattern closing after with
      | none =>
        rw [hc] at h
        cases h
      | some p =>
        obtain ⟨inside, behind⟩ := p
        rw [hc] at h
        simp only at h
        obtain ⟨rfl, hl⟩ := (cutPattern_eq_some_iff (by decide)).1 hc
        cases hn : readAction (position + byteLength []) inside with
        | error e =>
          rw [hn] at h
          cases h
        | ok node =>
          rw [hn] at h
          simp only [Except.bind] at h
          cases hr : parseFrom (position + byteLength [] + byteLength opening + byteLength inside +
              byteLength closing) behind with
          | error e =>
            rw [hr] at h
            cases h
          | ok others =>
            have hshort : behind.length < n := by
              rw [← hlen, ← hafter]
              simp only [List.length_append, opening, List.length_cons, List.length_nil]
              omega
            obtain ⟨parts, hparts⟩ := ih behind.length hshort hr rfl
            rw [← hafter]
            exact ⟨_, .action hl (readAction_eq_ok_iff.1 hn) hparts⟩
    · rw [parseFrom_character ho] at h
      cases hr : parseFrom (position + byteLength [c]) rest with
      | error e =>
        rw [hr] at h
        cases h
      | ok others =>
        have hshort : rest.length < n := by
          rw [← hlen]
          exact Nat.lt_succ_self _
        obtain ⟨parts, hparts⟩ := ih rest.length hshort hr rfl
        exact ⟨_, .character ho hparts⟩

/-- The parser gives the nodes of the parts of a text, if it has parts. -/
theorem parseFrom_eq_ok_iff {position : Nat} {s : List Char} {nodes : List Node} :
    parseFrom position s = .ok nodes ↔ ∃ parts, Reads s parts ∧ gather parts = nodes := by
  constructor
  · intro h
    obtain ⟨parts, hp⟩ := exists_reads_of_parseFrom h
    rw [hp.parseFrom_eq, Except.ok.injEq] at h
    exact ⟨parts, hp, h⟩
  · rintro ⟨parts, hp, rfl⟩
    exact hp.parseFrom_eq position

/-! ### Cutting a text in two -/

/-- Where no action opens the first part is a character. -/
theorem reads_character_iff {c : Char} {rest : List Char} {parts : List Part}
    (h : ¬ opening <+: c :: rest) :
    Reads (c :: rest) parts ↔ ∃ others, parts = .character c :: others ∧ Reads rest others := by
  constructor
  · intro hr
    generalize hs : c :: rest = s at hr h
    cases hr with
    | nil => cases hs
    | character _ hr =>
      obtain ⟨rfl, rfl⟩ := List.cons.inj hs
      exact ⟨_, rfl, hr⟩
    | action => exact absurd (List.prefix_append opening _) h
  · rintro ⟨others, rfl, hr⟩
    exact .character h hr

/-- Where an action opens it is the first part. -/
theorem reads_action_iff {inside rest : List Char} {node : Node} {parts : List Part}
    (hl : Leftmost closing.isPrefixOf inside (closing ++ rest))
    (hn : readAction? (trimAction inside) = some node) :
    Reads (opening ++ (inside ++ (closing ++ rest))) parts ↔
      ∃ others, parts = .action inside node :: others ∧ Reads rest others := by
  constructor
  · intro hr
    generalize hs : opening ++ (inside ++ (closing ++ rest)) = s at hr
    cases hr with
    | nil => cases hs
    | character h => exact absurd (hs ▸ List.prefix_append opening _) h
    | action hl' hn' hr =>
      rw [List.append_cancel_left_eq] at hs
      obtain rfl := hl.unique hl' hs
      rw [List.append_cancel_left_eq, List.append_cancel_left_eq] at hs
      subst hs
      rw [hn, Option.some.injEq] at hn'
      exact ⟨_, by rw [hn'], hr⟩
  · rintro ⟨others, rfl, hr⟩
    exact .action hl hn hr

/-- A text without opening braces is all characters. -/
theorem reads_plain {s : List Char} (h : '\x7b' ∉ s) : Reads s (s.map .character) := by
  induction s with
  | nil => exact .nil
  | cons c rest ih =>
    rw [List.mem_cons, not_or] at h
    refine .character ?_ (ih h.2)
    rintro ⟨tail, ht⟩
    exact h.1 (List.cons.inj ht).1

/-- Parts of the rest, with one more part in front of them. -/
theorem exists_cons_append_iff {s t : List Char} {part : Part} {front parts : List Part}
    (h : ∀ others, Reads s others ↔ ∃ back, others = front ++ back ∧ Reads t back) :
    (∃ others, parts = part :: others ∧ Reads s others) ↔
      ∃ back, parts = part :: front ++ back ∧ Reads t back := by
  constructor
  · rintro ⟨others, rfl, hr⟩
    obtain ⟨back, rfl, ht⟩ := (h others).1 hr
    exact ⟨back, rfl, ht⟩
  · rintro ⟨back, rfl, ht⟩
    exact ⟨_, rfl, (h _).2 ⟨back, rfl, ht⟩⟩

/-- Behind a text with parts, the last character of which is no opening brace, everything is read as if
nothing stood before it. Braces that open across the end would begin with the last character. -/
theorem Reads.append_iff {s t : List Char} {front parts : List Part} (hs : Reads s front)
    (he : s.getLast? ≠ some '\x7b') :
    Reads (s ++ t) parts ↔ ∃ back, parts = front ++ back ∧ Reads t back := by
  induction hs generalizing parts with
  | nil => simp
  | @character c rest front h _ ih =>
    have hopen : ¬ opening <+: c :: (rest ++ t) := by
      rintro ⟨tail, ht⟩
      obtain ⟨hc, ht⟩ := List.cons.inj ht
      cases rest with
      | nil =>
        rw [← hc] at he
        exact he rfl
      | cons d rest =>
        obtain ⟨hd, -⟩ := List.cons.inj ht
        rw [← hc, ← hd] at h
        exact h (List.prefix_append opening rest)
    have hlast : rest.getLast? ≠ some '\x7b' := by
      cases rest with
      | nil => simp
      | cons d rest => rwa [List.getLast?_cons_cons] at he
    rw [List.cons_append, reads_character_iff hopen]
    exact exists_cons_append_iff fun _ => ih hlast
  | @action inside rest node front hl hn _ ih =>
    have hlast : rest.getLast? ≠ some '\x7b' := by
      intro hb
      have hne : rest ≠ [] := by
        rintro rfl
        cases hb
      rw [List.getLast?_append_of_ne_nil _ (by simp [hne]), List.getLast?_append_of_ne_nil _
        (by simp [hne]), List.getLast?_append_of_ne_nil _ hne] at he
      exact he hb
    simp only [List.append_assoc]
    rw [reads_action_iff (leftmost_append hl _) hn]
    exact exists_cons_append_iff fun _ => ih hlast

/-- A character that stands neither in an action nor in its braces. -/
def isOutside (c : Char) : Bool := !isActionChar c && c != '\x7b' && c != '\x7d'

/-- Such characters are not braces. -/
theorem not_mem_of_isOutside {c : Char} (h : isOutside c = true) : c ∉ opening ∧ c ∉ closing := by
  have hc : (isActionChar c = false ∧ c ≠ '\x7b') ∧ c ≠ '\x7d' := by simpa [isOutside] using h
  simp [opening, closing, hc]

/-- What lacks a character stands before it. -/
theorem exists_of_append_eq {u rest s t : List Char} {c : Char} (hu : c ∉ u)
    (he : u ++ rest = s ++ c :: t) : ∃ v, s = u ++ v ∧ rest = v ++ c :: t := by
  rcases List.append_eq_append_iff.1 he with ⟨v, rfl, rfl⟩ | ⟨v, rfl, hv⟩
  · exact ⟨v, rfl, rfl⟩
  · cases v with
    | nil => exact ⟨[], by simp, hv.symm⟩
    | cons d v =>
      obtain ⟨rfl, -⟩ := List.cons.inj hv
      exact absurd (List.mem_append_right s List.mem_cons_self) hu

/-- A text may be cut around a character that stands in no action: if an action were still open there,
the text would have no parts. -/
theorem reads_append_cons_iff {s t : List Char} {c : Char} {parts : List Part}
    (hc : isOutside c = true) :
    Reads (s ++ c :: t) parts ↔
      ∃ front back, parts = front ++ .character c :: back ∧ Reads s front ∧ Reads t back := by
  obtain ⟨hopening, hclosing⟩ := not_mem_of_isOutside hc
  constructor
  · intro h
    generalize hs : s ++ c :: t = text at h
    induction h generalizing s with
    | nil => simp at hs
    | @character d rest parts h hr ih =>
      cases s with
      | nil =>
        obtain ⟨rfl, rfl⟩ := List.cons.inj hs
        exact ⟨[], parts, rfl, .nil, hr⟩
      | cons e s =>
        obtain ⟨rfl, rfl⟩ := List.cons.inj hs
        obtain ⟨front, back, rfl, hf, hb⟩ := ih rfl
        have he : ¬ opening <+: e :: s := fun hp => h (hp.trans (List.prefix_append _ (c :: t)))
        exact ⟨_, back, rfl, .character he hf, hb⟩
    | @action inside rest node parts hl hn hr ih =>
      have hinside : c ∉ inside := by
        intro hm
        have ha := isActionChar_of_readAction? hn hm
        simp [isOutside, ha] at hc
      obtain ⟨behind, rfl, hbehind⟩ := exists_of_append_eq hopening hs.symm
      obtain ⟨after, rfl, hafter⟩ := exists_of_append_eq hinside hbehind
      obtain ⟨v, rfl, hv⟩ := exists_of_append_eq hclosing hafter
      obtain ⟨front, back, rfl, hf, hb⟩ := ih hv.symm
      exact ⟨_, back, rfl, .action (leftmost_append hl v) hn hf, hb⟩
  · rintro ⟨front, back, rfl, hf, hb⟩
    induction hf with
    | nil =>
      refine .character ?_ hb
      rintro ⟨tail, ht⟩
      exact hopening ((List.cons.inj ht).1 ▸ List.mem_cons_self)
    | character h _ ih =>
      exact .character (fun hp => h ((prefix_append_cons_iff (s := _ :: _) hopening t).1 hp)) ih
    | action hl hn _ ih =>
      simp only [List.append_assoc]
      exact .action (leftmost_append hl _) hn ih

/-- No action of a longer text reaches over the end of such a text: somewhere in it stands a character
that is in no action, and no opening brace behind it. -/
def Sealed (s : List Char) : Prop :=
  ∃ front c back, s = front ++ c :: back ∧ isOutside c = true ∧ '\x7b' ∉ back

/-- Behind a sealed text parts begin anew: its own parts come first, and then those of the rest. -/
theorem Sealed.reads_append_iff {s t : List Char} {parts : List Part} (h : Sealed s) :
    Reads (s ++ t) parts ↔ ∃ front back, parts = front ++ back ∧ Reads s front ∧ Reads t back := by
  obtain ⟨start, c, plain, rfl, hc, hplain⟩ := h
  have hlast : plain.getLast? ≠ some '\x7b' := fun hb => hplain (List.mem_of_getLast? hb)
  rw [List.append_assoc, List.cons_append, reads_append_cons_iff hc]
  constructor
  · rintro ⟨front, others, rfl, hf, ho⟩
    obtain ⟨back, rfl, hb⟩ := ((reads_plain hplain).append_iff hlast).1 ho
    exact ⟨front ++ .character c :: plain.map .character, back, by simp,
      (reads_append_cons_iff hc).2 ⟨front, _, rfl, hf, reads_plain hplain⟩, hb⟩
  · rintro ⟨parts, back, rfl, hp, hb⟩
    obtain ⟨front, others, rfl, hf, ho⟩ := (reads_append_cons_iff hc).1 hp
    exact ⟨front, others ++ back, by simp, hf, (ho.append_iff hlast).2 ⟨back, rfl, hb⟩⟩

end Template

end Palisade
