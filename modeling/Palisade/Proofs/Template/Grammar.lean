import Mathlib.Data.List.Chain
import Palisade.Proofs.Template.Parts

/-!
# The grammar of templates

A template is scanned from left to right: up to the first opening braces, then up to the first closing
braces behind them, where what stands between must be an action. The main statement says for every text
what it is parsed to or which error it gives: the slots of the scan in order with the text between them, or
the first braces that open no action, with their place in bytes. What fills the slots later is not said
here.
-/
namespace Palisade

open Palisade.Text

namespace Template

/-! ### Actions -/

/-- Names of fields and functions: ASCII letters, digits and underscores, no digit first. -/
structure Name (s : List Char) : Prop where
  ne_nil : s ≠ []
  chars : ∀ c ∈ s, c.isAlphanum = true ∨ c = '_'
  first : ∀ c ∈ s.head?, c.isDigit = false

/-- What a trimmed action denotes: a dot the data itself, names behind dots a field of it, and a name a
function. -/
inductive Denotes : List Char → Node → Prop where
  | data : Denotes ['.'] (.field [])
  | field {names : List (List Char)} (hne : names ≠ []) (h : ∀ name ∈ names, Name name) :
      Denotes ('.' :: List.intercalate ['.'] names) (.field (names.map String.ofList))
  | function {name : List Char} (h : Name name) : Denotes name (.function (String.ofList name))

/-- What is left of the text of an action without the blanks at its ends, then without the dashes at its
ends, then without blanks again. -/
def Core (inside action : List Char) : Prop :=
  ∃ bare undashed, Trimmed isBlank inside bare ∧ Trimmed (· == '-') bare undashed ∧
    Trimmed isBlank undashed action

/-- Letters and the underscore may stand first in a name, and digits not. -/
theorem isFirstChar_iff {c : Char} :
    isFirstChar c = true ↔ (c.isAlphanum = true ∨ c = '_') ∧ c.isDigit = false := by
  have hdigit : c.isAlpha = true → c.isDigit = false := by
    rw [Bool.eq_false_iff]
    intro ha hd
    have h9 : c.val.toNat ≤ 57 := (Char.isDigit_iff_toNat.1 hd).2
    rcases Bool.or_eq_true_iff.1 ha with hu | hl
    · have hA : 65 ≤ c.val.toNat := (of_decide_eq_true hu).1
      omega
    · have ha : 97 ≤ c.val.toNat := of_decide_eq_true (Bool.and_eq_true_iff.1 hl).1
      omega
  rw [isFirstChar, Char.isAlphanum, Bool.or_eq_true, Bool.or_eq_true, beq_iff_eq]
  constructor
  · rintro (ha | rfl)
    · exact ⟨.inl (.inl ha), hdigit ha⟩
    · exact ⟨.inr rfl, rfl⟩
  · rintro ⟨(ha | hd) | hu, hn⟩
    · exact .inl ha
    · rw [hn] at hd
      cases hd
    · exact .inr hu

/-- The check for identifiers is that for names. -/
theorem isIdentifier_iff {s : List Char} : isIdentifier s = true ↔ Name s := by
  have hchar : ∀ c, isNameChar c = true ↔ c.isAlphanum = true ∨ c = '_' := by
    intro c
    rw [isNameChar, Bool.or_eq_true, beq_iff_eq]
  cases s with
  | nil => exact ⟨fun h => (by cases h), fun h => absurd rfl h.ne_nil⟩
  | cons c rest =>
    rw [isIdentifier, Bool.and_eq_true, isFirstChar_iff, List.all_eq_true]
    constructor
    · rintro ⟨⟨hc, hd⟩, hr⟩
      refine ⟨List.cons_ne_nil c rest, ?_, fun d hm => ?_⟩
      · exact List.forall_mem_cons.2 ⟨hc, fun d hm => (hchar d).1 (hr d hm)⟩
      · rwa [← Option.some.inj hm]
    · rintro ⟨-, hchars, hfirst⟩
      rw [List.forall_mem_cons] at hchars
      exact ⟨⟨hchars.1, hfirst c rfl⟩, fun d hm => (hchar d).2 (hchars.2 d hm)⟩

/-- A name has no dot. -/
theorem Name.dot_not_mem {s : List Char} (h : Name s) : '.' ∉ s := by
  intro hm
  rcases h.chars '.' hm with hc | hc
  · exact absurd hc (by decide)
  · exact absurd hc (by decide)

/-- What is read from an action is what it denotes. -/
theorem denotes_of_readAction? {s : List Char} {node : Node} (h : readAction? s = some node) :
    Denotes s node := by
  unfold readAction? at h
  split at h
  · obtain rfl := Option.some.inj h
    exact .data
  · rename_i path _
    simp only at h
    split at h
    · rename_i hall
      obtain rfl := Option.some.inj h
      have hnames : ∀ name ∈ pieces '.' path, Name name := fun name hm =>
        isIdentifier_iff.1 (List.all_eq_true.1 hall name hm)
      have hfield := Denotes.field (pieces_ne_nil '.' path) hnames
      rwa [intercalate_pieces] at hfield
    · cases h
  · split at h
    · rename_i hname
      obtain rfl := Option.some.inj h
      exact .function (isIdentifier_iff.1 hname)
    · cases h

/-- What an action denotes is read from it. -/
theorem Denotes.readAction?_eq {s : List Char} {node : Node} (h : Denotes s node) :
    readAction? s = some node := by
  cases h with
  | data => rfl
  | @field names hne h =>
    have hpieces := pieces_intercalate hne fun name hm => (h name hm).dot_not_mem
    have hall : names.all isIdentifier = true :=
      List.all_eq_true.2 fun name hm => isIdentifier_iff.2 (h name hm)
    unfold readAction?
    split
    · rename_i heq
      have hnil : List.intercalate ['.'] names = [] := (List.cons.inj heq).2
      rw [hnil] at hpieces
      have hempty : Name [] := h [] (hpieces ▸ List.mem_cons_self)
      exact absurd rfl hempty.ne_nil
    · rename_i path _ heq
      obtain rfl := (List.cons.inj heq).2
      simp only [hpieces, hall, if_true]
    · rename_i hdot
      exact absurd rfl (hdot _)
  | function h =>
    have hfirst : ∀ rest, s ≠ '.' :: rest := by
      rintro rest rfl
      exact h.dot_not_mem List.mem_cons_self
    unfold readAction?
    split
    · exact absurd rfl (hfirst [])
    · exact absurd rfl (hfirst _)
    · rw [if_pos (isIdentifier_iff.2 h)]

/-- Actions are read as what they denote, and nothing else is read. -/
theorem readAction?_eq_some_iff {s : List Char} {node : Node} :
    readAction? s = some node ↔ Denotes s node :=
  ⟨denotes_of_readAction?, Denotes.readAction?_eq⟩

/-- Trimming leaves the core of an action, and there is only one. -/
theorem trimAction_eq_iff {inside action : List Char} :
    trimAction inside = action ↔ Core inside action := by
  unfold trimAction trimBlanks Core
  rw [trimBoth_eq_iff]
  constructor
  · intro h
    exact ⟨_, _, trimmed_trimBoth _ _, trimmed_trimBoth _ _, h⟩
  · rintro ⟨bare, undashed, hb, hd, ha⟩
    rwa [hb.trimBoth_eq, hd.trimBoth_eq]

/-- Text that denotes nothing is no action, and is named in the error. -/
theorem readAction_eq_error_iff {position : Nat} {inside : List Char} {e : TemplateError} :
    readAction position inside = .error e ↔
      ∃ action, Core inside action ∧ (∀ node, ¬ Denotes action node) ∧
        e = .malformed (String.ofList action) position := by
  have hcore {action : List Char} : Core inside action ↔ trimAction inside = action :=
    trimAction_eq_iff.symm
  simp only [hcore, exists_eq_left', ← readAction?_eq_some_iff, ← Option.eq_none_iff_forall_ne_some]
  unfold readAction
  simp only
  split <;> rename_i hr <;> simp [hr, eq_comm]

/-! ### The scan -/

/-- A slot of a template: the text before it, what stands between its braces, and what it denotes. -/
structure Slot where
  /-- The text between the slot before and this one. -/
  before : List Char
  /-- What stands between the braces. -/
  inside : List Char
  /-- The field or function. -/
  node : Node

namespace Slot

/-- The action as it is written. -/
def action (slot : Slot) : List Char := opening ++ (slot.inside ++ closing)

/-- The slot as it is written, with the text before it. -/
def source (slot : Slot) : List Char := slot.before ++ slot.action

/-- The parts that a slot becomes. -/
def nodes (slot : Slot) : List Node := textNodes slot.before ++ [slot.node]

end Slot

/-- A text as far as it was scanned from left to right: the slots that were passed, and the rest. Each slot
opens at the first opening braces behind the one before it, and closes at the first closing braces. -/
inductive Scanned : List Char → List Slot → List Char → Prop where
  | start (s : List Char) : Scanned s [] s
  | slot {before inside action after rest : List Char} {node : Node} {slots : List Slot}
      (ho : Leftmost opening.isPrefixOf before (opening ++ (inside ++ (closing ++ after))))
      (hc : Leftmost closing.isPrefixOf inside (closing ++ after))
      (ha : Core inside action) (hn : Denotes action node) (hs : Scanned after slots rest) :
      Scanned (before ++ (opening ++ (inside ++ (closing ++ after))))
        (⟨before, inside, node⟩ :: slots) rest

/-- The first opening braces of a text open no action, and why. The text before them is shown, and the
error is given by its cause, for any position. -/
inductive Stuck : List Char → List Char → (Nat → TemplateError) → Prop where
  | unterminated {before after : List Char}
      (ho : Leftmost opening.isPrefixOf before (opening ++ after)) (hc : ¬ closing <:+: after) :
      Stuck (before ++ (opening ++ after)) before .unterminated
  | malformed {before inside action after : List Char}
      (ho : Leftmost opening.isPrefixOf before (opening ++ (inside ++ (closing ++ after))))
      (hc : Leftmost closing.isPrefixOf inside (closing ++ after))
      (ha : Core inside action) (hn : ∀ node, ¬ Denotes action node) :
      Stuck (before ++ (opening ++ (inside ++ (closing ++ after)))) before
        (.malformed (String.ofList action))

/-- What was scanned and the rest are the text. -/
theorem Scanned.source_eq {s rest : List Char} {slots : List Slot} (h : Scanned s slots rest) :
    slots.flatMap Slot.source ++ rest = s := by
  induction h with
  | start s => rfl
  | slot _ _ _ _ _ ih =>
    rw [List.flatMap_cons, List.append_assoc, ih]
    simp only [Slot.source, Slot.action, List.append_assoc]

/-- The parser goes past slots that are in order, and keeps its position in bytes. -/
theorem Scanned.parseFrom_eq {s rest : List Char} {slots : List Slot} (h : Scanned s slots rest)
    (position : Nat) :
    parseFrom position s =
      (parseFrom (position + byteLength (slots.flatMap Slot.source)) rest).map
        (slots.flatMap Slot.nodes ++ ·) := by
  induction h generalizing position with
  | start s =>
    have hzero : position + byteLength [] = position := rfl
    rw [List.flatMap_nil, List.flatMap_nil, hzero]
    cases parseFrom position s <;> rfl
  | @slot before inside action after rest node slots ho hc ha hn hs ih =>
    have hread : readAction (position + byteLength before) inside = .ok node := by
      rw [readAction_eq_ok_iff, trimAction_eq_iff.2 ha, readAction?_eq_some_iff.2 hn]
    have hplace : position + byteLength before + byteLength opening + byteLength inside +
        byteLength closing + byteLength (slots.flatMap Slot.source) =
          position + byteLength ((⟨before, inside, node⟩ :: slots).flatMap Slot.source) := by
      simp only [List.flatMap_cons, Slot.source, Slot.action, byteLength_append]
      omega
    rw [parseFrom_of_cut (ho.cutPattern_eq (by decide)), hc.cutPattern_eq (by decide)]
    simp only [hread, Except.bind]
    rw [ih, hplace]
    cases parseFrom (position + byteLength ((⟨before, inside, node⟩ :: slots).flatMap Slot.source))
        rest <;>
      simp [Except.map, Slot.nodes]

/-- The parser stops at the first braces that open no action. -/
theorem Stuck.parseFrom_eq {s before : List Char} {cause : Nat → TemplateError}
    (h : Stuck s before cause) (position : Nat) :
    parseFrom position s = .error (cause (position + byteLength before)) := by
  cases h with
  | unterminated ho hc =>
    rw [parseFrom_of_cut (ho.cutPattern_eq (by decide)), (cutPattern_eq_none_iff (by decide)).2 hc]
  | malformed ho hc ha hn =>
    rw [parseFrom_of_cut (ho.cutPattern_eq (by decide)), hc.cutPattern_eq (by decide)]
    simp only [readAction_eq_error_iff.2 ⟨_, ha, hn, rfl⟩, Except.bind]

/-- Every text is scanned to a rest without opening braces, or to braces that open no action. -/
theorem exists_scanned (s : List Char) : ∃ slots rest, Scanned s slots rest ∧
    (¬ opening <:+: rest ∨ ∃ before cause, Stuck rest before cause) := by
  induction hlen : s.length using Nat.strongRecOn generalizing s with
  | ind n ih =>
  cases ho : cutPattern opening s with
  | none => exact ⟨[], s, .start s, .inl ((cutPattern_eq_none_iff (by decide)).1 ho)⟩
  | some p =>
    obtain ⟨before, behind⟩ := p
    obtain ⟨rfl, hleft⟩ := (cutPattern_eq_some_iff (by decide)).1 ho
    cases hc : cutPattern closing behind with
    | none =>
      have hnone := (cutPattern_eq_none_iff (by decide)).1 hc
      exact ⟨[], _, .start _, .inr ⟨_, _, .unterminated hleft hnone⟩⟩
    | some q =>
      obtain ⟨inside, after⟩ := q
      obtain ⟨rfl, hright⟩ := (cutPattern_eq_some_iff (by decide)).1 hc
      have hcore : Core inside (trimAction inside) := trimAction_eq_iff.1 rfl
      by_cases hn : ∃ node, Denotes (trimAction inside) node
      · obtain ⟨node, hnode⟩ := hn
        have hshort : after.length < n := by
          rw [← hlen]
          simp only [List.length_append, opening, List.length_cons, List.length_nil]
          omega
        obtain ⟨slots, rest, hs, hend⟩ := ih after.length hshort after rfl
        exact ⟨_, rest, .slot hleft hright hcore hnode hs, hend⟩
      · have hnot : ∀ node, ¬ Denotes (trimAction inside) node := fun node h => hn ⟨node, h⟩
        exact ⟨[], _, .start _, .inr ⟨_, _, .malformed hleft hright hcore hnot⟩⟩

/-! ### What a text is parsed to -/

/-- A template is put together from slots and the text behind the last of them. -/
structure Decomposes (s : List Char) (slots : List Slot) (rest : List Char) : Prop where
  scanned : Scanned s slots rest
  plain : ¬ opening <:+: rest

/-- The parts of slots and of the text behind the last of them. -/
def nodesOf (slots : List Slot) (rest : List Char) : List Node :=
  slots.flatMap Slot.nodes ++ textNodes rest

/-- The parts of the first slot stand in front of the others. -/
theorem nodesOf_cons (slot : Slot) (slots : List Slot) (rest : List Char) :
    nodesOf (slot :: slots) rest = textNodes slot.before ++ slot.node :: nodesOf slots rest := by
  simp [nodesOf, Slot.nodes]

/-- The first braces of a text that open no action, behind slots that are in order: the error has its cause
and, in bytes, the place at which these braces open. -/
inductive Offends (s : List Char) : TemplateError → Prop where
  | at {slots : List Slot} {rest before : List Char} {cause : Nat → TemplateError}
      (hs : Scanned s slots rest) (h : Stuck rest before cause) :
      Offends s (cause (byteLength (slots.flatMap Slot.source ++ before)))

/-- A text of slots that are in order is parsed to their parts. -/
theorem Decomposes.parse_eq {source : String} {slots : List Slot} {rest : List Char}
    (h : Decomposes source.toList slots rest) : parse source = .ok ⟨nodesOf slots rest⟩ := by
  have hrest := (cutPattern_eq_none_iff (by decide)).2 h.plain
  rw [parse, h.scanned.parseFrom_eq, parseFrom_of_text hrest]
  rfl

/-- A text with braces out of order fails with their error. -/
theorem Offends.parse_eq {source : String} {e : TemplateError} (h : Offends source.toList e) :
    parse source = .error e := by
  obtain ⟨hs, hstuck⟩ := h
  rw [parse, hs.parseFrom_eq, hstuck.parseFrom_eq, byteLength_append, Nat.zero_add]
  rfl

/-- Every text is made of slots, or has braces that are out of order. -/
theorem decomposes_or_offends (s : List Char) :
    (∃ slots rest, Decomposes s slots rest) ∨ ∃ e, Offends s e := by
  obtain ⟨slots, rest, hs, hplain | ⟨before, cause, hstuck⟩⟩ := exists_scanned s
  · exact .inl ⟨slots, rest, hs, hplain⟩
  · exact .inr ⟨_, .at hs hstuck⟩

/-- Parsing fails exactly with the error of the first braces that are out of order. -/
theorem parse_eq_error_iff {source : String} {e : TemplateError} :
    parse source = .error e ↔ Offends source.toList e := by
  refine ⟨fun h => ?_, Offends.parse_eq⟩
  rcases decomposes_or_offends source.toList with ⟨slots, rest, hd⟩ | ⟨e', he⟩
  · rw [hd.parse_eq] at h
    cases h
  · rw [he.parse_eq, Except.error.injEq] at h
    exact h ▸ he

/-- Parsing succeeds exactly on texts of slots, with the parts of these. -/
theorem parse_eq_ok_iff_decomposes {source : String} {t : Template} :
    parse source = .ok t ↔
      ∃ slots rest, Decomposes source.toList slots rest ∧ t.nodes = nodesOf slots rest := by
  constructor
  · intro h
    rcases decomposes_or_offends source.toList with ⟨slots, rest, hd⟩ | ⟨e, he⟩
    · rw [hd.parse_eq, Except.ok.injEq] at h
      exact ⟨slots, rest, hd, by rw [← h]⟩
    · rw [he.parse_eq] at h
      cases h
  · rintro ⟨slots, rest, hd, ht⟩
    rw [hd.parse_eq, ← ht]

/-! ### The parts of a template -/

/-- A part that is text. -/
def Node.IsText (node : Node) : Prop := ∃ markup, node = .text markup

/-- Actions denote no text. -/
theorem Denotes.not_isText {action : List Char} {node : Node} (h : Denotes action node) :
    ¬ node.IsText := by
  rintro ⟨markup, rfl⟩
  cases h

/-- Parts with each action as it is written, in order, and text as it is. -/
def restored : List Node → List (List Char) → List Char
  | [], _ => []
  | .text markup :: nodes, actions => markup ++ restored nodes actions
  | _ :: nodes, action :: actions => action ++ restored nodes actions
  | _ :: nodes, [] => restored nodes []

/-- Text in front of parts is restored as it is. -/
theorem restored_textNodes (s : List Char) (nodes : List Node) (actions : List (List Char)) :
    restored (textNodes s ++ nodes) actions = s ++ restored nodes actions := by
  cases s with
  | nil => rfl
  | cons c rest => rfl

/-- An action in front of parts is restored as it was written. -/
theorem restored_cons_of_denotes {action : List Char} {node : Node} (h : Denotes action node)
    (nodes : List Node) (written : List Char) (actions : List (List Char)) :
    restored (node :: nodes) (written :: actions) = written ++ restored nodes actions := by
  cases h <;> rfl

/-- With its actions in place a template is the text that it was parsed from. -/
theorem Scanned.restored_eq {s rest : List Char} {slots : List Slot} (h : Scanned s slots rest) :
    restored (nodesOf slots rest) (slots.map Slot.action) = s := by
  induction h with
  | start s =>
    have hnodes : nodesOf [] s = textNodes s ++ [] := (List.append_nil _).symm
    rw [hnodes, List.map_nil, restored_textNodes]
    exact List.append_nil s
  | @slot before inside action after rest node slots _ _ _ hn _ ih =>
    rw [nodesOf_cons, List.map_cons, restored_textNodes, restored_cons_of_denotes hn, ih]
    simp only [Slot.action, List.append_assoc]

/-- The text between slots is one part, if there is any. -/
theorem text_mem_textNodes {s markup : List Char} (h : Node.text markup ∈ textNodes s) :
    markup = s ∧ s ≠ [] := by
  unfold textNodes at h
  split at h
  · cases h
  · rename_i hs
    rw [List.mem_singleton, Node.text.injEq] at h
    exact ⟨h, by simpa using hs⟩

/-- Texts of a template are not empty, and no braces open in them. -/
theorem Decomposes.text_of_mem {s rest markup : List Char} {slots : List Slot}
    (h : Decomposes s slots rest) (hm : Node.text markup ∈ nodesOf slots rest) :
    markup ≠ [] ∧ ¬ opening <:+: markup := by
  obtain ⟨hs, hplain⟩ := h
  induction hs with
  | start s =>
    have hs : Node.text markup ∈ textNodes s := hm
    obtain ⟨rfl, hne⟩ := text_mem_textNodes hs
    exact ⟨hne, hplain⟩
  | @slot before inside action after rest node slots ho _ _ hn _ ih =>
    rw [nodesOf_cons, List.mem_append, List.mem_cons] at hm
    rcases hm with hm | rfl | hm
    · obtain ⟨rfl, hne⟩ := text_mem_textNodes hm
      exact ⟨hne, ho.not_infix (by decide)⟩
    · exact absurd ⟨markup, rfl⟩ hn.not_isText
    · exact ih hm hplain

/-- Beside a text stands an action. -/
theorem Scanned.isChain_nodesOf {s rest : List Char} {slots : List Slot} (h : Scanned s slots rest) :
    (nodesOf slots rest).IsChain fun a b => ¬ (a.IsText ∧ b.IsText) := by
  induction h with
  | start s =>
    unfold nodesOf textNodes
    split <;> simp
  | @slot before inside action after rest node slots _ _ _ hn _ ih =>
    have hbehind : (node :: nodesOf slots rest).IsChain fun a b => ¬ (a.IsText ∧ b.IsText) :=
      List.isChain_cons.2 ⟨fun _ _ hb => hn.not_isText hb.1, ih⟩
    rw [nodesOf_cons]
    unfold textNodes
    split
    · exact hbehind
    · refine List.isChain_cons.2 ⟨fun b hb hboth => ?_, hbehind⟩
      obtain rfl : node = b := Option.some.inj hb
      exact hn.not_isText hboth.2

/-- What a text is parsed to. It is a template exactly if it can be scanned to its end: each of the first
opening braces is closed by the first closing braces behind it, and what stands between, trimmed, is a dot,
names behind dots, or a name. Then the parts are the slots of the scan and the text between them, which is
never empty, opens no braces and stands beside actions only; with the actions in their places again they
are the text. Otherwise the error is that of the first braces that open no action, with what is wrong with
them and the number of bytes before them. -/
theorem parse_by_grammar (source : String) :
    (∀ t, parse source = .ok t ↔
      ∃ slots rest, Decomposes source.toList slots rest ∧ t.nodes = nodesOf slots rest) ∧
    (∀ slots rest, Decomposes source.toList slots rest →
      restored (nodesOf slots rest) (slots.map Slot.action) = source.toList ∧
      (∀ markup, Node.text markup ∈ nodesOf slots rest → markup ≠ [] ∧ ¬ opening <:+: markup) ∧
      (nodesOf slots rest).IsChain fun a b => ¬ (a.IsText ∧ b.IsText)) ∧
    (∀ e, parse source = .error e ↔ Offends source.toList e) :=
  ⟨fun _ => parse_eq_ok_iff_decomposes,
    fun _ _ h => ⟨h.scanned.restored_eq, fun _ => h.text_of_mem, h.scanned.isChain_nodesOf⟩,
    fun _ => parse_eq_error_iff⟩

/-- A position counts bytes, and the action in an error has lost its blanks and dashes. -/
example : parse "é\x7b\x7b- 1 \x7d\x7d" = .error (.malformed "1" 2) := by cbv

end Template

end Palisade
