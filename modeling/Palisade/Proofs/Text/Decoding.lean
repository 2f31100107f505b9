import Palisade.Text.Utf8

/-!
# What strict decoding accepts

A text has one encoding only. The main statement says that strict decoding accepts just the encodings of
texts, so that nothing is lost between the bytes and the text: whoever encodes a text that was decoded
has the bytes that arrived.
-/
namespace Palisade.Text

/-- A valid code point is that of its character. -/
theorem toNat_ofNat_of_valid {n : Nat} (h : n.isValidChar) : (Char.ofNat n).toNat = n := by
  rw [Char.ofNat, dif_pos h]
  rfl

/-- A byte is known by its number. -/
theorem ofNat_eq_of_eq {n : Nat} {b : UInt8} (h : n = b.toNat) : UInt8.ofNat n = b := by
  rw [h, UInt8.ofNat_toNat]

/-- The bytes that continue a character are a range. -/
theorem isContinuation_iff {b : UInt8} :
    isContinuation b = true ↔ 0x80 ≤ b.toNat ∧ b.toNat ≤ 0xBF := by
  rw [isContinuation, Bool.and_eq_true, decide_eq_true_eq, decide_eq_true_eq]

/-- A second byte continues a character, and it is high enough behind the least leading bytes and low
enough behind those of the surrogates and of the last code point. -/
theorem bounds_of_isSecond {a b : UInt8} (h : isSecond a b = true) :
    0x80 ≤ b.toNat ∧ b.toNat ≤ 0xBF ∧ (a.toNat = 0xE0 → 0xA0 ≤ b.toNat) ∧
      (a.toNat = 0xED → b.toNat ≤ 0x9F) ∧ (a.toNat = 0xF0 → 0x90 ≤ b.toNat) ∧
      (a.toNat = 0xF4 → b.toNat ≤ 0x8F) := by
  simp only [isSecond, Bool.and_eq_true, decide_eq_true_eq, beq_iff_eq] at h
  obtain ⟨hlow, hhigh⟩ := h
  split at hlow <;> split at hhigh <;> (try split at hlow) <;> (try split at hhigh) <;> omega

/-! ### The bytes of a character that was read -/

section

variable {a b c d : UInt8}

/-- A byte of ASCII is the encoding of its character. -/
theorem encodeChar_ofNat_one (ha : a.toNat < 0x80) : encodeChar (Char.ofNat a.toNat) = [a] := by
  have hn := toNat_ofNat_of_valid (n := a.toNat) (.inl (by omega))
  unfold encodeChar
  simp only [hn]
  rw [if_pos ha, UInt8.ofNat_toNat]

/-- Two bytes that are read as a character are its encoding. -/
theorem encodeChar_ofNat_two (ha : 0xC2 ≤ a.toNat ∧ a.toNat ≤ 0xDF) (hb : isContinuation b = true) :
    encodeChar (Char.ofNat ((a.toNat - 0xC0) * 64 + (b.toNat - 0x80))) = [a, b] := by
  rw [isContinuation_iff] at hb
  generalize hm : (a.toNat - 0xC0) * 64 + (b.toNat - 0x80) = n
  have hn := toNat_ofNat_of_valid (n := n) (.inl (by omega))
  unfold encodeChar
  simp only [hn]
  rw [if_neg (by omega), if_pos (by omega), ofNat_eq_of_eq (b := a) (by omega),
    ofNat_eq_of_eq (b := b) (by omega)]

/-- Three bytes that are read as a character are its encoding. -/
theorem encodeChar_ofNat_three (ha : 0xE0 ≤ a.toNat ∧ a.toNat ≤ 0xEF) (hb : isSecond a b = true)
    (hc : isContinuation c = true) :
    encodeChar (Char.ofNat ((a.toNat - 0xE0) * 4096 + (b.toNat - 0x80) * 64 + (c.toNat - 0x80))) =
      [a, b, c] := by
  obtain ⟨hlow, hhigh, hleast, hsurrogate, -, -⟩ := bounds_of_isSecond hb
  rw [isContinuation_iff] at hc
  generalize hm : (a.toNat - 0xE0) * 4096 + (b.toNat - 0x80) * 64 + (c.toNat - 0x80) = n
  have hvalid : n.isValidChar := by
    unfold Nat.isValidChar
    omega
  have hn := toNat_ofNat_of_valid hvalid
  unfold encodeChar
  simp only [hn]
  rw [if_neg (by omega), if_neg (by omega), if_pos (by omega), ofNat_eq_of_eq (b := a) (by omega),
    ofNat_eq_of_eq (b := b) (by omega), ofNat_eq_of_eq (b := c) (by omega)]

/-- Four bytes that are read as a character are its encoding. -/
theorem encodeChar_ofNat_four (ha : 0xF0 ≤ a.toNat ∧ a.toNat ≤ 0xF4) (hb : isSecond a b = true)
    (hc : isContinuation c = true) (hd : isContinuation d = true) :
    encodeChar (Char.ofNat ((a.toNat - 0xF0) * 262144 + (b.toNat - 0x80) * 4096 +
      (c.toNat - 0x80) * 64 + (d.toNat - 0x80))) = [a, b, c, d] := by
  obtain ⟨hlow, hhigh, -, -, hleast, hlast⟩ := bounds_of_isSecond hb
  rw [isContinuation_iff] at hc hd
  generalize hm : (a.toNat - 0xF0) * 262144 + (b.toNat - 0x80) * 4096 + (c.toNat - 0x80) * 64 +
    (d.toNat - 0x80) = n
  have hvalid : n.isValidChar := by
    unfold Nat.isValidChar
    omega
  have hn := toNat_ofNat_of_valid hvalid
  unfold encodeChar
  simp only [hn]
  rw [if_neg (by omega), if_neg (by omega), if_neg (by omega), ofNat_eq_of_eq (b := a) (by omega),
    ofNat_eq_of_eq (b := b) (by omega), ofNat_eq_of_eq (b := c) (by omega),
    ofNat_eq_of_eq (b := d) (by omega)]

end

/-- A character that is read at the front stands there with its bytes. -/
theorem eq_of_front_char {s rest : Bytes} {c : Char} (h : front s = .char c rest) :
    s = encodeChar c ++ rest := by
  revert h
  fun_cases front s <;> intro h <;> simp only [Front.char.injEq, reduceCtorEq] at h <;>
    obtain ⟨rfl, rfl⟩ := h
  case case2 ha => rw [encodeChar_ofNat_one ha, List.singleton_append]
  case case4 ha _ _ hb => rw [encodeChar_ofNat_two ha hb, List.cons_append, List.singleton_append]
  case case9 ha _ hb _ _ hc =>
    rw [Bool.not_eq_true', Bool.not_eq_false] at hb
    rw [encodeChar_ofNat_three ha hb hc]
    rfl
  case case16 ha _ hb _ hc _ _ hd =>
    rw [Bool.not_eq_true', Bool.not_eq_false] at hb hc
    rw [encodeChar_ofNat_four ha hb hc hd]
    rfl

/-- Only empty bytes have no character in front. -/
theorem eq_nil_of_front_finished {s : Bytes} (h : front s = .finished) : s = [] := by
  revert h
  fun_cases front s <;> intro h <;> first | rfl | cases h

/-- Strict decoding accepts the encodings of texts and nothing else. -/
theorem decode?_eq_some_iff {s : Bytes} {t : List Char} : decode? s = some t ↔ s = encode t := by
  constructor
  · intro h
    fun_induction decode? s generalizing t with
    | case1 s hs =>
      obtain rfl := Option.some.inj h
      rw [eq_nil_of_front_finished hs, encode_nil]
    | case2 s c rest hs ih =>
      obtain ⟨others, ho, rfl⟩ := Option.map_eq_some_iff.1 h
      rw [eq_of_front_char hs, ih ho, encode_cons]
    | case3 => cases h
  · rintro rfl
    exact decode?_encode t

/-- Bytes are read as a text exactly if they are its encoding. -/
theorem ofUtf8?_eq_some_iff {s : Bytes} {t : String} : ofUtf8? s = some t ↔ s = utf8 t := by
  rw [ofUtf8?, Option.map_eq_some_iff, utf8]
  constructor
  · rintro ⟨text, h, rfl⟩
    rw [String.toList_ofList, ← decode?_eq_some_iff, h]
  · rintro rfl
    exact ⟨t.toList, decode?_encode _, String.ofList_toList⟩

/-- A character of an ASCII code has its byte among those of the text. -/
theorem mem_encode_of_mem {c : Char} {text : List Char} (h : c ∈ text) (hc : c.toNat < 0x80) :
    UInt8.ofNat c.toNat ∈ encode text := by
  refine List.mem_flatMap.2 ⟨c, h, ?_⟩
  rw [encodeChar, if_pos hc]
  exact List.mem_singleton_self _

end Palisade.Text
