import Palisade.Proofs.Markup.ByteScan

/-!
# Scans of bytes stop between characters

On the bytes of a text the loops over bytes stop only between two characters, since what they look for are
ASCII characters, and the copy in small letters has the same places. So no check of the scan by offsets
fails. Each part of the scan is compared with the scan of the characters at a place where a text is still to
be read: values, attributes, start tags, raw text, comments and declarations end at the same place, or there
is the same error.
-/
namespace Palisade

open Palisade.Text Palisade.Markup

/-- The outcome of a scan of characters as that of a scan by offsets, where `f` translates the result. -/
def Halt.relay {α β : Type} (f : α → β) : Except MarkupError α → Except Halt β
  | .ok x => .ok (f x)
  | .error e => .error (.fault e)

/-! ### Classes of characters -/

/-- Blanks of markup are told by their bytes. -/
theorem uniform_isMarkupBlank : Uniform isMarkupBlank :=
  ((((uniform_beq (by decide)).or (uniform_beq (by decide))).or (uniform_beq (by decide))).or
    (uniform_beq (by decide))).or (uniform_beq (by decide))

namespace StartTag

/-- So are the characters that end a name. -/
theorem uniform_endsName : Uniform endsName :=
  (uniform_isMarkupBlank.or (uniform_beq (by decide))).or (uniform_beq (by decide))

/-- So are fillers. -/
theorem uniform_isFiller : Uniform isFiller := uniform_isMarkupBlank.or (uniform_beq (by decide))

/-- So are the characters of a name. -/
theorem uniform_isNameChar : Uniform isNameChar :=
  uniform_endsName.not.and (uniform_beq (by decide)).not

/-- So are the characters of a value without quotation marks. -/
theorem uniform_isBareChar : Uniform isBareChar :=
  uniform_isMarkupBlank.not.and (uniform_beq (by decide)).not

end StartTag

namespace MarkupBytes

/-! ### Places -/

/-- At an offset a text is still to be read. -/
def Reads (m : MarkupBytes) (offset : Nat) (rest : List Char) : Prop :=
  ∃ front, m = ofText (front ++ rest) ∧ offset = byteLength front

/-- The text in small letters has the bytes of the characters in small letters. -/
theorem lower_ofText (s : List Char) : (ofText s).lower = encode (s.map Char.toLower) :=
  lowerBytes_encode s

/-- The bytes of the middle of a text stand in the middle of its bytes. -/
theorem cut_encode (front mid rest : List Char) :
    ((encode (front ++ (mid ++ rest))).take (byteLength front + byteLength mid)).drop (byteLength front) =
      encode mid := by
  rw [List.drop_take, Nat.add_sub_cancel_left, drop_encode, encode_append, byteLength, List.take_left]

/-- From the start on everything is read. -/
theorem reads_ofText (s : List Char) : (ofText s).Reads 0 s := ⟨[], rfl, rfl⟩

namespace Reads

variable {m : MarkupBytes} {offset : Nat} {c : Char} {p : Char → Bool} {mid rest : List Char}

/-- Behind a part of what is read, the rest is read. -/
theorem advance (h : m.Reads offset (mid ++ rest)) : m.Reads (offset + byteLength mid) rest := by
  obtain ⟨front, rfl, rfl⟩ := h
  exact ⟨front ++ mid, by rw [List.append_assoc], (byteLength_append _ _).symm⟩

/-- The offset and what is still to be read make up all bytes. -/
theorem add_byteLength (h : m.Reads offset rest) : offset + byteLength rest = m.html.length := by
  obtain ⟨front, rfl, rfl⟩ := h
  rw [← byteLength_append]
  rfl

/-- Where something is read a character begins. -/
theorem isBoundary (h : m.Reads offset rest) : m.isBoundary offset = true := by
  obtain ⟨front, rfl, rfl⟩ := h
  rw [MarkupBytes.isBoundary, Bool.and_eq_true]
  refine ⟨isBoundary_byteLength front rest, ?_⟩
  rw [lower_ofText, List.map_append, ← byteLength_map_toLower front]
  exact isBoundary_byteLength _ _

/-- Between two places a part of the bytes can be cut out. -/
theorem slice_html (h : m.Reads offset (mid ++ rest)) :
    m.slice m.html offset (offset + byteLength mid) = .ok (encode mid) := by
  rw [slice, if_pos ⟨Nat.le_add_right _ _, h.isBoundary, h.advance.isBoundary⟩]
  obtain ⟨front, rfl, rfl⟩ := h
  exact congrArg Except.ok (cut_encode front mid rest)

/-- The same part of the copy is the part in small letters. -/
theorem slice_lower (h : m.Reads offset (mid ++ rest)) :
    m.slice m.lower offset (offset + byteLength mid) = .ok (encode (mid.map Char.toLower)) := by
  rw [slice, if_pos ⟨Nat.le_add_right _ _, h.isBoundary, h.advance.isBoundary⟩]
  obtain ⟨front, rfl, rfl⟩ := h
  rw [lower_ofText, List.map_append, List.map_append, ← byteLength_map_toLower front,
    ← byteLength_map_toLower mid, cut_encode]

/-- A slice from where something is read holds its bytes. -/
theorem sliceFrom_html (h : m.Reads offset rest) : m.sliceFrom m.html offset = .ok (encode rest) := by
  rw [sliceFrom, ← h.add_byteLength]
  rw [← List.append_nil rest] at h
  exact h.slice_html

/-- A slice of the text in small letters holds what is read, in small letters. -/
theorem sliceFrom_lower (h : m.Reads offset rest) :
    m.sliceFrom m.lower offset = .ok (encode (rest.map Char.toLower)) := by
  have hlength : m.lower.length = m.html.length := by
    obtain ⟨front, rfl, rfl⟩ := h
    exact List.length_map _
  rw [sliceFrom, hlength, ← h.add_byteLength]
  rw [← List.append_nil rest] at h
  exact h.slice_lower

/-- Going on over the bytes of a class leads to the next place. -/
theorem skip (hp : Uniform p) (h : m.Reads offset rest) :
    skip p m.html offset = offset + byteLength (rest.takeWhile p) := by
  obtain ⟨front, rfl, rfl⟩ := h
  rw [← byteLength_append]
  exact hp.skip_encode front rest

/-- There the rest of the text is to be read. -/
theorem dropWhile (h : m.Reads offset rest) :
    m.Reads (offset + byteLength (rest.takeWhile p)) (rest.dropWhile p) := by
  rw [← List.takeWhile_append_dropWhile (p := p) (l := rest)] at h
  exact h.advance

/-- Behind an ASCII character the rest is to be read. -/
theorem behind (h : m.Reads offset (c :: rest)) (hc : c.toNat < 0x80) : m.Reads (offset + 1) rest := by
  have hone : byteLength [c] = 1 := byteLength_ascii hc []
  rw [← hone]
  exact h.advance

/-- Where nothing is left there is no byte. -/
theorem byteAt?_nil (h : m.Reads offset []) : byteAt? m.html offset = none := by
  obtain ⟨front, rfl, rfl⟩ := h
  exact byteAt?_encode front []

/-- At a place is a byte in the same classes as the character. -/
theorem byteAt?_cons (h : m.Reads offset (c :: rest)) :
    ∃ d, byteAt? m.html offset = some d ∧ ∀ p, Uniform p → p d = p c := by
  obtain ⟨front, rfl, rfl⟩ := h
  obtain ⟨d, hd, h⟩ := head?_encode_cons c rest
  exact ⟨d, (byteAt?_encode front (c :: rest)).trans hd, h⟩

/-- Before a place behind at least one character is a byte in the same classes as that character. -/
theorem byteBefore (h : m.Reads offset (mid ++ rest)) (hne : mid ≠ []) :
    ∃ d, m.byteBefore (offset + byteLength mid) = .ok d ∧ (d == '/') = (mid.getLast? == some '/') := by
  obtain ⟨init, c, rfl⟩ := mid.eq_nil_or_concat'.resolve_left hne
  obtain ⟨front, rfl, rfl⟩ := h
  obtain ⟨d, hd, hclass⟩ := byteAt?_encode_pred (front ++ init) c rest
  simp only [List.append_assoc] at hd
  have hpos : 0 < byteLength (front ++ (init ++ [c])) := by
    rw [byteLength_append, byteLength_append]
    have hc := byteLength_cons_pos c []
    omega
  refine ⟨d, ?_, ?_⟩
  · rw [← byteLength_append, MarkupBytes.byteBefore, if_pos hpos, ofText, List.append_assoc, hd]
  · rw [List.getLast?_concat, hclass _ (uniform_beq (by decide))]
    rfl

end Reads

/-! ### Start tags -/

variable {m : MarkupBytes} {offset start : Nat} {s rest : List Char}

/-- A value ends where the scan of the characters ends it. -/
theorem value_eq (h : m.Reads offset s) :
    m.value start offset =
      Halt.relay (fun found => offset + byteLength found.1) (StartTag.scanValue start offset s) := by
  have hblanks : m.Reads (offset + byteLength (s.takeWhile isMarkupBlank)) (s.dropWhile isMarkupBlank) :=
    h.dropWhile
  rw [value, h.skip uniform_isMarkupBlank, StartTag.scanValue]
  cases hs : s.dropWhile isMarkupBlank with
  | nil =>
    rw [hs] at hblanks
    rw [hblanks.byteAt?_nil]
    rfl
  | cons c r =>
    rw [hs] at hblanks
    obtain ⟨d, hd, hclass⟩ := hblanks.byteAt?_cons
    rw [hd]
    by_cases hquote : c = '\"' ∨ c = '\''
    · have hc : c.toNat < 0x80 := by rcases hquote with rfl | rfl <;> decide
      have hdc : d = c := (eq_iff_of_uniform hclass hc).2 rfl
      subst hdc
      simp only
      rw [if_pos hquote, if_pos hquote, (hblanks.behind hc).sliceFrom_html, Halt.ok_bind, find?_byteOf hc]
      cases cutAt d r with
      | none => rfl
      | some found =>
        simp only [Option.map_some, Halt.relay, byteLength_append, byteLength_ascii hc, byteLength_nil]
        congr 1
        omega
    · have hbare : ¬ (d = '\"' ∨ d = '\'') := by
        rwa [eq_iff_of_uniform hclass (by decide), eq_iff_of_uniform hclass (by decide)]
      simp only
      rw [if_neg hquote, if_neg hbare, hblanks.skip StartTag.uniform_isBareChar]
      simp only [Halt.relay, byteLength_append]
      congr 1
      omega

/-- An attribute's name in small letters. -/
def nameBytes (s : List Char) : Bytes := encode ((s.takeWhile StartTag.isNameChar).map Char.toLower)

/-- An attribute of the loop is an attribute of the scan, with its name and the place behind it. -/
theorem attributeAt_eq (h : m.Reads offset s) :
    m.attributeAt start offset =
      Halt.relay (fun found => .named (nameBytes s) (offset + byteLength found.1))
        (StartTag.scanAttribute start offset s) := by
  have hname : m.Reads (offset + byteLength (s.takeWhile StartTag.isNameChar))
      (s.dropWhile StartTag.isNameChar) := h.dropWhile
  have hblanks := hname.dropWhile (p := isMarkupBlank)
  have hslice := h
  rw [← List.takeWhile_append_dropWhile (p := StartTag.isNameChar) (l := s)] at hslice
  rw [attributeAt, h.skip StartTag.uniform_isNameChar, hslice.slice_lower, Halt.ok_bind,
    hname.skip uniform_isMarkupBlank, StartTag.scanAttribute]
  simp only
  generalize (s.dropWhile StartTag.isNameChar).dropWhile isMarkupBlank = r at hblanks
  cases r with
  | nil =>
    rw [hblanks.byteAt?_nil, if_neg (by simp)]
    simp only [Halt.relay, byteLength_append, Nat.add_assoc]
    rfl
  | cons c r =>
    obtain ⟨d, hd, hclass⟩ := hblanks.byteAt?_cons
    rw [hd]
    by_cases hc : c = '='
    · subst hc
      have hd : d = '=' := (eq_iff_of_uniform hclass (by decide)).2 rfl
      rw [if_pos (congrArg some hd), value_eq (hblanks.behind (by decide))]
      simp only [byteLength_append, ← Nat.add_assoc]
      cases StartTag.scanValue start _ r with
      | error e => rfl
      | ok found =>
        simp only [Halt.relay, byteLength_append, byteLength_ascii (c := '=') (by decide), Halt.ok_bind]
        congr 2
        omega
    · have hd : d ≠ '=' := mt (eq_iff_of_uniform hclass (by decide)).1 hc
      rw [if_neg (mt Option.some.inj hd)]
      split
      · rename_i heq
        exact absurd (List.cons.inj heq).1 hc
      · simp only [Halt.relay, byteLength_append, Nat.add_assoc]
        rfl

/-- Where nothing but fillers is left the tag does not end. -/
theorem round_of_nil (h : m.Reads offset s) (hs : s.dropWhile StartTag.isFiller = []) :
    m.round start offset = .error (.fault (.unterminatedTag start)) := by
  have hfiller := h.dropWhile (p := StartTag.isFiller)
  rw [hs] at hfiller
  rw [round, h.skip StartTag.uniform_isFiller]
  simp only [hfiller.byteAt?_nil]

/-- A round that begins behind the bracket of its tag finds the byte before the closing bracket. -/
theorem round_of_bracket {before r : List Char} (h : m.Reads start (before ++ s)) (hne : before ≠ [])
    (hs : s.dropWhile StartTag.isFiller = '>' :: r) :
    m.round start (start + byteLength before) =
      .ok (.closed (start + byteLength (before ++ s.takeWhile StartTag.isFiller) + 1)
        ((before ++ s.takeWhile StartTag.isFiller).getLast? == some '/')) := by
  have hfiller := h.advance.dropWhile (p := StartTag.isFiller)
  rw [hs] at hfiller
  obtain ⟨d, hd, hclass⟩ := hfiller.byteAt?_cons
  have hbracket : d = '>' := (eq_iff_of_uniform hclass (by decide)).2 rfl
  have hbytes : m.Reads start ((before ++ s.takeWhile StartTag.isFiller) ++ '>' :: r) := by
    rwa [List.append_assoc, ← hs, List.takeWhile_append_dropWhile]
  obtain ⟨b, hb, hslash⟩ := hbytes.byteBefore (by simp [hne])
  rw [← hslash]
  rw [byteLength_append, ← Nat.add_assoc] at hb ⊢
  rw [round, h.advance.skip StartTag.uniform_isFiller]
  simp only [hd]
  rw [if_pos hbracket, hb]
  rfl

/-- Behind fillers a round reads the attribute that stands there. -/
theorem round_of_attribute {c : Char} {r : List Char} (h : m.Reads offset s)
    (hs : s.dropWhile StartTag.isFiller = c :: r) (hc : c ≠ '>') :
    m.round start offset =
      Halt.relay
        (fun found => .named (nameBytes (c :: r))
          (offset + byteLength (s.takeWhile StartTag.isFiller) + byteLength found.1))
        (StartTag.scanAttribute start (offset + byteLength (s.takeWhile StartTag.isFiller)) (c :: r)) := by
  have hfiller := h.dropWhile (p := StartTag.isFiller)
  rw [hs] at hfiller
  obtain ⟨d, hd, hclass⟩ := hfiller.byteAt?_cons
  have hbracket : d ≠ '>' := mt (eq_iff_of_uniform hclass (by decide)).1 hc
  rw [round, h.skip StartTag.uniform_isFiller]
  simp only [hd]
  rw [if_neg hbracket, attributeAt_eq hfiller]

/-- The name that the loop reads is the one that the scan reads. -/
theorem nameBytes_eq (s : List Char) :
    nameBytes s = utf8 (Text.lower (String.ofList (s.takeWhile StartTag.isNameChar))) := by
  rw [nameBytes, utf8, toList_lower, String.toList_ofList]

/-- Behind an attribute the loop goes on; `before` is what the tag holds up to the attribute. -/
theorem attributes_of_attribute {c : Char} {before r taken after : List Char}
    (h : m.Reads start (before ++ s)) (hs : s.dropWhile StartTag.isFiller = c :: r) (hc : c ≠ '>')
    (ha : StartTag.scanAttribute start
      (start + byteLength before + byteLength (s.takeWhile StartTag.isFiller)) (c :: r) = .ok (taken, after)) :
    let here := start + byteLength before + byteLength (s.takeWhile StartTag.isFiller) + byteLength taken
    here = start + byteLength (before ++ (s.takeWhile StartTag.isFiller ++ taken)) ∧
      m.Reads start ((before ++ (s.takeWhile StartTag.isFiller ++ taken)) ++ after) ∧
      m.attributes start (start + byteLength before) =
        (m.attributes start here).map fun rest =>
          { rest with names := nameBytes (c :: r) :: rest.names } := by
  have hround : m.round start _ = _ := round_of_attribute h.advance hs hc
  rw [ha] at hround
  refine ⟨?_, ?_, attributes_of_named hround⟩
  · simp only [byteLength_append, Nat.add_assoc]
  · rwa [List.append_assoc, List.append_assoc, ← StartTag.scanAttribute_eq ha, ← hs,
      List.takeWhile_append_dropWhile]

/-- The loop finds what the scan of the characters finds; `before` is what the tag holds up to here. The
induction is on the rounds; each begins with more of the tag behind it. -/
theorem attributes_eq {before : List Char} {position : Nat} (h : m.Reads start (before ++ s))
    (hne : before ≠ []) (hp : position = start + byteLength before) :
    m.attributes start position =
      Halt.relay (fun found => ⟨start + byteLength (before ++ found.inside), found.attributes.map utf8,
          (before ++ found.inside).dropLast.getLast? == some '/'⟩)
        (StartTag.scanAttributes start position s) := by
  fun_induction StartTag.scanAttributes start position s generalizing before with
  | case1 =>
    rename_i hs
    subst hp
    exact attributes_of_error (round_of_nil h.advance hs)
  | case2 =>
    rename_i s filler r hs
    subst hp
    rw [attributes_of_closed (round_of_bracket h hne hs)]
    simp only [Halt.relay, ← List.append_assoc, List.dropLast_concat, List.map_nil]
    congr 2
    rw [byteLength_append _ ['>'], Nat.add_assoc]
    rfl
  | case3 =>
    rename_i s filler c r hs hg here e ha
    subst hp
    apply attributes_of_error
    rw [round_of_attribute h.advance hs hg]
    exact congrArg (Halt.relay _) ha
  | case4 =>
    rename_i s filler c r hs hg here taken after ha e hrest ih
    subst hp
    obtain ⟨hplace, hreads, hloop⟩ := attributes_of_attribute h hs hg ha
    rw [hloop, ih hreads (by simp [hne]) hplace, hrest]
    rfl
  | case5 =>
    rename_i s filler c r hs hg here taken after ha name rest hrest ih
    subst hp
    obtain ⟨hplace, hreads, hloop⟩ := attributes_of_attribute h hs hg ha
    rw [hloop, ih hreads (by simp [hne]) hplace, hrest]
    simp only [Halt.relay, Except.map, List.append_assoc, List.map_cons, nameBytes_eq, name, filler]

/-- A start tag by its offsets, if its bracket stands at `start`. -/
def Tag.ofStartTag (start : Nat) (t : StartTag) : Tag where
  name := utf8 t.name
  nameEnd := start + byteLength t.opening
  inside := ⟨start + byteLength t.source, t.attributes.map utf8, t.selfClosing⟩

/-- A start tag has the parts that the scan of the characters finds. -/
theorem tag_eq {r : List Char} (h : m.Reads start ('<' :: r)) :
    m.tag start =
      Halt.relay (fun found => Tag.ofStartTag start found.1) (StartTag.scan start ('<' :: r)) := by
  have hname := h.behind (by decide)
  have hskip := hname.skip StartTag.uniform_endsName.not
  have hslice := hname
  have hfront : m.Reads start
      (('<' :: r.takeWhile fun c => !StartTag.endsName c) ++ r.dropWhile fun c => !StartTag.endsName c) := by
    rwa [List.cons_append, List.takeWhile_append_dropWhile]
  have hplace : start + 1 + byteLength (r.takeWhile fun c => !StartTag.endsName c) =
      start + byteLength ('<' :: r.takeWhile fun c => !StartTag.endsName c) := by
    rw [byteLength_ascii (by decide)]
    omega
  rw [← List.takeWhile_append_dropWhile (p := fun c => !StartTag.endsName c) (l := r)] at hslice
  rw [tag, hskip, hslice.slice_lower, Halt.ok_bind, hplace, attributes_eq hfront (List.cons_ne_nil _ _) rfl,
    StartTag.scan]
  simp only [List.take_succ_cons, List.take_zero, List.drop_succ_cons, List.drop_zero, List.cons_append,
    List.nil_append]
  cases StartTag.scanAttributes start _ _ with
  | error e => rfl
  | ok found =>
    simp only [Halt.relay, Halt.ok_bind, Tag.ofStartTag, StartTag.name, StartTag.source,
      StartTag.selfClosing, List.drop_succ_cons, List.drop_zero, utf8, toList_lower, String.toList_ofList]
    rfl

/-! ### What a bracket begins -/

/-- The marks that end raw text are ASCII. -/
theorem isAscii_of_mem_rawElements {name : String} (h : name ∈ rawElements) :
    IsAscii ("</".toList ++ name.toList) := by
  simp only [rawElements, List.mem_cons, List.not_mem_nil, or_false] at h
  rcases h with rfl | rfl | rfl | rfl <;> decide

/-- The end tag is found in small letters where it is found in any letters. -/
theorem bytesBefore_closing (name : String) (s : List Char) :
    bytesBefore ("</".toList ++ name.toList) (s.map Char.toLower) =
      (cutClosing name s).map fun found => byteLength found.1 := by
  induction s with
  | nil => rfl
  | cons c rest ih =>
    have hc : (encodeChar c.toLower).length = (encodeChar c).length := by
      rw [← lowerBytes_encodeChar, lowerBytes, List.length_map]
    rw [List.map_cons, cutClosing]
    by_cases hcloses : closes name (c :: rest) = true
    · rw [if_pos hcloses, bytesBefore_eq_zero (List.isPrefixOf_iff_prefix.1 hcloses)]
      rfl
    · rw [if_neg hcloses, bytesBefore_cons (mt List.isPrefixOf_iff_prefix.2 hcloses), ih, Option.map_map,
        Option.map_map, hc]
      congr 1
      funext found
      exact (Nat.add_comm _ _).trans (byteLength_cons c found.1).symm

/-- Different texts have different bytes. -/
theorem utf8_injective : Function.Injective utf8 :=
  fun _ _ h => String.toList_injective (encode_injective h)

/-- Texts are told apart by their bytes. -/
theorem utf8_beq (a b : String) : (utf8 a == utf8 b) = (a == b) := by
  rw [Bool.eq_iff_iff, beq_iff_eq, beq_iff_eq, utf8_injective.eq_iff]

/-- Finding a name among elements is asking whether it is one of them. -/
theorem find?_beq (name : String) (elements : List String) :
    elements.find? (name == ·) = if elements.contains name then some name else none := by
  induction elements with
  | nil => rfl
  | cons element rest ih =>
    rw [List.find?_cons, List.contains_cons, ih]
    cases h : name == element with
    | true => rw [beq_iff_eq.1 h]; rfl
    | false => rw [Bool.false_or]

/-- Raw text is passed up to the end tag at which the scan of the characters cuts it off. -/
theorem passRawText_eq {t : StartTag} {after : List Char} (h : m.Reads start (t.source ++ after)) :
    m.passRawText start (Tag.ofStartTag start t) =
      Halt.relay (fun found => start + byteLength (t.source ++ found.1)) (rawText start t after) := by
  rw [passRawText, Tag.ofStartTag, rawText]
  simp only [utf8_beq]
  cases t.selfClosing with
  | true =>
    rw [List.find?_eq_none.2 (by simp)]
    simp only [Bool.not_true, Bool.false_and, if_neg Bool.false_ne_true, Halt.relay, List.append_nil]
    rfl
  | false =>
    simp only [Bool.not_false, Bool.true_and, find?_beq]
    by_cases hraw : rawElements.contains t.name = true
    · have hascii := isAscii_of_mem_rawElements (List.contains_iff_mem.1 hraw)
      have hbytes : utf8 "</" ++ utf8 t.name = encode ("</".toList ++ t.name.toList) :=
        (encode_append _ _).symm
      simp only [if_pos hraw]
      rw [h.advance.sliceFrom_lower, Halt.ok_bind, hbytes, find?_encode hascii (by simp),
        bytesBefore_closing]
      cases cutClosing t.name after with
      | none => rfl
      | some found =>
        simp only [Option.map_some, Halt.relay, byteLength_append, Nat.add_assoc]
        rfl
    · simp only [if_neg hraw, Halt.relay, List.append_nil]
      rfl

/-- A comment ends behind the first mark that closes it. -/
theorem comment_eq {r : List Char} (h : m.Reads start ("<!--".toList ++ r)) :
    m.comment start =
      match cutPattern "-->".toList r with
      | some found => .ok (start + byteLength ("<!--".toList ++ found.1 ++ "-->".toList))
      | none => .error (.fault (.unterminatedComment start)) := by
  have hend : IsAscii "-->".toList := by decide
  have hfour : byteLength "<!--".toList = 4 := by decide
  have hthree : byteLength "-->".toList = 3 := by decide
  rw [comment, ← hfour, h.advance.sliceFrom_html, Halt.ok_bind, utf8, find?_encode hend (by decide),
    bytesBefore]
  cases cutPattern "-->".toList r with
  | none => rfl
  | some found =>
    simp only [Option.map_some, byteLength_append, hthree, Nat.add_assoc]
    rfl

/-- A declaration or an end tag ends behind the first closing bracket. -/
theorem declaration_eq {r : List Char} (h : m.Reads start ('<' :: r)) :
    m.declaration start =
      match cutAt '>' r with
      | some found => .ok (start + byteLength ('<' :: found.1 ++ ['>']))
      | none => .error (.fault (.unterminatedTag start)) := by
  have hbyte : utf8 ">" = [byteOf '>'] := by decide
  rw [declaration, h.sliceFrom_html, Halt.ok_bind, hbyte, find?_byteOf (by decide), cutAt,
    if_neg (by decide)]
  cases cutAt '>' r with
  | none => rfl
  | some found =>
    simp only [Option.map_some, List.cons_append, byteLength_append, byteLength_ascii (c := '<') (by decide),
      byteLength_ascii (c := '>') (by decide), byteLength_nil, Nat.add_assoc]
    rfl

end MarkupBytes

end Palisade
