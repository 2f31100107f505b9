import Mathlib.Data.List.Basic
import Palisade.Proofs.Text.Decoding
import Palisade.Text.Ascii
import Palisade.Text.Split

/-!
# Places in a text as offsets of bytes

A text is scanned either by its characters or by its bytes; then a place is the number of bytes before it,
and many numbers are no place at all, as they lie inside of a character. What is looked for in markup are
ASCII characters, so that both scans find the same. The main statements say so: a scan of bytes that
begins between two characters and goes on while the bytes are in a class, or up to a pattern, ends between
two characters, namely where the scan of the characters ends. Letters are made small without moving any
place.
-/
namespace Palisade.Text

/-- Whether a character begins at an offset, or the bytes end there. -/
def isBoundary (s : Bytes) (offset : Nat) : Bool :=
  offset == 0 || match s[offset]? with
    | some b => !isContinuation b
    | none => offset == s.length

/-- A byte as the character with its number. Bytes of ASCII characters give these. -/
def charOf (b : UInt8) : Char := Char.ofNat b.toNat

/-- The byte of an ASCII character. -/
def byteOf (c : Char) : UInt8 := UInt8.ofNat c.toNat

/-- The byte at an offset, if there is one. -/
def byteAt? (s : Bytes) (offset : Nat) : Option Char := s[offset]?.map charOf

/-- The offset behind the bytes of a class that stand at an offset. -/
def skip (p : Char → Bool) (s : Bytes) (offset : Nat) : Nat :=
  if h : offset < s.length then
    if p (charOf s[offset]) then skip p s (offset + 1) else offset
  else offset
termination_by s.length - offset

/-- How many bytes stand before the first occurrence of a pattern. -/
def find? (pattern s : Bytes) : Option Nat := (cutPattern pattern s).map (·.1.length)

/-- The bytes of a text whose ASCII letters are made small. -/
def lowerBytes (s : Bytes) : Bytes := s.map fun b => byteOf (charOf b).toLower

/-! ### The bytes of one character -/

variable {c d : Char} {b : UInt8}

/-- An ASCII character has one byte. -/
theorem encodeChar_of_ascii (hc : c.toNat < 0x80) : encodeChar c = [byteOf c] := by
  rw [encodeChar, if_pos hc, byteOf]

/-- The byte of an ASCII character has its number. -/
theorem toNat_byteOf (hc : c.toNat < 0x80) : (byteOf c).toNat = c.toNat := by
  rw [byteOf, UInt8.toNat_ofNat', Nat.mod_eq_of_lt (by omega)]

/-- An ASCII character comes back from its byte. -/
theorem charOf_byteOf (hc : c.toNat < 0x80) : charOf (byteOf c) = c := by
  rw [charOf, toNat_byteOf hc, Char.ofNat_toNat]

/-- A byte is the number of the character that it is taken for. -/
theorem toNat_charOf (b : UInt8) : (charOf b).toNat = b.toNat := by
  have hb : b.toNat < 256 := b.toNat_lt
  exact toNat_ofNat_of_valid (.inl (by omega))

/-- A byte comes back from its character. -/
theorem byteOf_charOf (b : UInt8) : byteOf (charOf b) = b := by
  rw [byteOf, toNat_charOf, UInt8.ofNat_toNat]

/-- The bytes of a character above ASCII are above ASCII. -/
theorem above_of_mem_encodeChar (hc : 0x80 ≤ c.toNat) (hb : b ∈ encodeChar c) : 0x80 ≤ b.toNat := by
  apply Classical.byContradiction
  intro hn
  have hne : c.toNat ≠ b.toNat := by omega
  apply ofNat_not_mem_encodeChar (Nat.lt_of_not_le hn) hne
  rwa [UInt8.ofNat_toNat]

/-- A character begins with a byte that continues none. -/
theorem exists_encodeChar (c : Char) :
    ∃ b rest, encodeChar c = b :: rest ∧ isContinuation b = false := by
  have hv : c.toNat < 0x110000 := by
    rcases c.valid with hv | hv <;> simp only [Char.toNat] <;> omega
  have lead {n : Nat} (hn : n < 0x80 ∨ 0xC0 ≤ n) (hl : n < 256) :
      isContinuation (UInt8.ofNat n) = false := by
    have ht : (UInt8.ofNat n).toNat = n := by simp; omega
    simp [isContinuation, ht]
    omega
  unfold encodeChar
  simp only
  split
  · exact ⟨_, _, rfl, lead (by omega) (by omega)⟩
  split
  · exact ⟨_, _, rfl, lead (by omega) (by omega)⟩
  split
  · exact ⟨_, _, rfl, lead (by omega) (by omega)⟩
  · exact ⟨_, _, rfl, lead (by omega) (by omega)⟩

/-- No text takes no bytes. -/
theorem byteLength_nil : byteLength [] = 0 := rfl

/-- A text takes the bytes of its characters. -/
theorem byteLength_cons (c : Char) (s : List Char) :
    byteLength (c :: s) = (encodeChar c).length + byteLength s := by
  simp [byteLength]

/-- A text that is not empty takes a byte at least. -/
theorem byteLength_cons_pos (c : Char) (s : List Char) : 0 < byteLength (c :: s) := by
  obtain ⟨b, others, hc, -⟩ := exists_encodeChar c
  rw [byteLength_cons, hc, List.length_cons]
  omega

/-- An ASCII character takes one byte. -/
theorem byteLength_ascii (hc : c.toNat < 0x80) (s : List Char) :
    byteLength (c :: s) = byteLength s + 1 := by
  rw [byteLength_cons, encodeChar_of_ascii hc, List.length_singleton, Nat.add_comm]

/-- Without the bytes of what stands in front, the rest is left. -/
theorem drop_encode (front rest : List Char) :
    (encode (front ++ rest)).drop (byteLength front) = encode rest := by
  rw [encode_append, byteLength, List.drop_left]

/-- Between two characters is a boundary. -/
theorem isBoundary_byteLength (front rest : List Char) :
    isBoundary (encode (front ++ rest)) (byteLength front) = true := by
  have hat : (encode (front ++ rest))[byteLength front]? = (encode rest).head? := by
    rw [← drop_encode front rest, List.head?_drop]
  rw [isBoundary, Bool.or_eq_true, hat]
  right
  cases rest with
  | nil => simp [byteLength]
  | cons c rest =>
    obtain ⟨b, others, hc, hb⟩ := exists_encodeChar c
    simp [hc, hb]

/-! ### Bytes of a class -/

/-- A class that all characters above ASCII are in, or none. -/
def Uniform (p : Char → Bool) : Prop := ∃ all, ∀ c : Char, 0x80 ≤ c.toNat → p c = all

variable {p q : Char → Bool}

/-- One ASCII character is such a class. -/
theorem uniform_beq (hc : c.toNat < 0x80) : Uniform (· == c) := by
  refine ⟨false, fun x hx => ?_⟩
  rw [beq_eq_false_iff_ne]
  rintro rfl
  omega

/-- The other characters are such a class again. -/
theorem Uniform.not (hp : Uniform p) : Uniform fun c => !p c := by
  obtain ⟨all, h⟩ := hp
  exact ⟨!all, fun x hx => congrArg _ (h x hx)⟩

/-- Two such classes are one. -/
theorem Uniform.or (hp : Uniform p) (hq : Uniform q) : Uniform fun c => p c || q c := by
  obtain ⟨all, h⟩ := hp
  obtain ⟨all', h'⟩ := hq
  exact ⟨all || all', fun x hx => congrArg₂ Bool.or (h x hx) (h' x hx)⟩

/-- What is in two such classes is one. -/
theorem Uniform.and (hp : Uniform p) (hq : Uniform q) : Uniform fun c => p c && q c := by
  obtain ⟨all, h⟩ := hp
  obtain ⟨all', h'⟩ := hq
  exact ⟨all && all', fun x hx => congrArg₂ Bool.and (h x hx) (h' x hx)⟩

/-- Letters are ASCII. -/
theorem toNat_lt_of_isAlpha (h : c.isAlpha = true) : c.toNat < 0x80 := by
  change (c.isUpper || c.isLower) = true at h
  rcases Bool.or_eq_true_iff.1 h with hu | hl
  · have hu : c.val ≥ 'A'.val ∧ c.val ≤ 'Z'.val := of_decide_eq_true hu
    exact Nat.lt_of_le_of_lt hu.2 (by decide)
  · have hl : c.val ≤ 'z'.val := of_decide_eq_true (Bool.and_eq_true_iff.1 hl).2
    exact Nat.lt_of_le_of_lt hl (by decide)

/-- The letters are such a class. -/
theorem uniform_isAlpha : Uniform Char.isAlpha :=
  ⟨false, fun _ hx => eq_false_of_ne_true fun h => Nat.not_lt.2 hx (toNat_lt_of_isAlpha h)⟩

/-- The bytes of a character are in a class together with the character. -/
theorem Uniform.eq_of_mem (hp : Uniform p) (hb : b ∈ encodeChar c) : p (charOf b) = p c := by
  by_cases hc : c.toNat < 0x80
  · rw [encodeChar_of_ascii hc, List.mem_singleton] at hb
    rw [hb, charOf_byteOf hc]
  · obtain ⟨all, h⟩ := hp
    have hc : 0x80 ≤ c.toNat := Nat.le_of_not_lt hc
    have hb : 0x80 ≤ (charOf b).toNat := (toNat_charOf b).symm ▸ above_of_mem_encodeChar hc hb
    rw [h c hc, h (charOf b) hb]

/-- The bytes of the class in front are those of its characters in front. -/
theorem Uniform.takeWhile_encode (hp : Uniform p) (s : List Char) :
    (encode s).takeWhile (p ∘ charOf) = encode (s.takeWhile p) := by
  induction s with
  | nil => rfl
  | cons c rest ih =>
    cases hc : p c with
    | true =>
      have hall : ∀ b ∈ encodeChar c, (p ∘ charOf) b = true := by
        intro b hb
        exact (hp.eq_of_mem hb).trans hc
      rw [encode_cons, List.takeWhile_append_of_pos hall, ih, List.takeWhile_cons_of_pos hc, encode_cons]
    | false =>
      obtain ⟨b, others, he, -⟩ := exists_encodeChar c
      have hb : (p ∘ charOf) b = false := (hp.eq_of_mem (he ▸ List.mem_cons_self)).trans hc
      rw [List.takeWhile_cons_of_neg (by simp [hc]), encode_cons, he, List.cons_append,
        List.takeWhile_cons_of_neg (ne_true_of_eq_false hb), encode_nil]

/-- To skip is to go past the bytes of a class. -/
theorem skip_eq (p : Char → Bool) (s : Bytes) (offset : Nat) :
    skip p s offset = offset + ((s.drop offset).takeWhile (p ∘ charOf)).length := by
  fun_induction skip p s offset with
  | case1 offset h hp ih =>
    have hb : (p ∘ charOf) s[offset] = true := hp
    rw [ih, List.drop_eq_getElem_cons h, List.takeWhile_cons_of_pos hb, List.length_cons]
    omega
  | case2 offset h hp =>
    have hb : ¬ (p ∘ charOf) s[offset] = true := hp
    rw [List.drop_eq_getElem_cons h, List.takeWhile_cons_of_neg hb, List.length_nil, Nat.add_zero]
  | case3 offset h =>
    rw [List.drop_eq_nil_of_le (Nat.le_of_not_lt h), List.takeWhile_nil, List.length_nil, Nat.add_zero]

/-- Going on over the bytes of a class is going on over its characters. -/
theorem Uniform.skip_encode (hp : Uniform p) (front rest : List Char) :
    skip p (encode (front ++ rest)) (byteLength front) = byteLength (front ++ rest.takeWhile p) := by
  rw [skip_eq, drop_encode, hp.takeWhile_encode, byteLength_append, byteLength, byteLength]

/-- To skip is not to go back. -/
theorem le_skip (p : Char → Bool) (s : Bytes) (offset : Nat) : offset ≤ skip p s offset := by
  rw [skip_eq]
  exact Nat.le_add_right _ _

/-- Where there is a byte the text has not ended. -/
theorem lt_of_byteAt? {s : Bytes} {offset : Nat} (h : byteAt? s offset = some c) :
    offset < s.length := by
  obtain ⟨b, hb, -⟩ := Option.map_eq_some_iff.1 h
  exact (List.getElem?_eq_some_iff.1 hb).1

/-- A byte of the class is passed. -/
theorem lt_skip {s : Bytes} {offset : Nat} (h : byteAt? s offset = some c) (hc : p c = true) :
    offset < skip p s offset := by
  obtain ⟨b, hb, rfl⟩ := Option.map_eq_some_iff.1 h
  obtain ⟨hl, rfl⟩ := List.getElem?_eq_some_iff.1 hb
  rw [skip, dif_pos hl, if_pos hc]
  exact Nat.lt_of_succ_le (le_skip p s (offset + 1))

/-- A byte that is not in the class stops. -/
theorem skip_of_byteAt? {s : Bytes} {offset : Nat} (h : byteAt? s offset = some c) (hc : p c = false) :
    skip p s offset = offset := by
  obtain ⟨b, hb, rfl⟩ := Option.map_eq_some_iff.1 h
  obtain ⟨hl, rfl⟩ := List.getElem?_eq_some_iff.1 hb
  rw [skip, dif_pos hl, if_neg (by simp [hc])]

/-- What stands behind the bytes of a class is not in it. -/
theorem byteAt?_skip {s : Bytes} {offset : Nat} (h : byteAt? s (skip p s offset) = some c) :
    p c = false := by
  fun_induction skip p s offset with
  | case1 offset hl hp ih => exact ih h
  | case2 offset hl hp =>
    rw [byteAt?, List.getElem?_eq_getElem hl] at h
    rw [← Option.some.inj h]
    simpa using hp
  | case3 offset hl => exact absurd (lt_of_byteAt? h) hl

/-! ### The character at an offset -/

/-- The byte at a boundary is the first of the rest. -/
theorem byteAt?_encode (front rest : List Char) :
    byteAt? (encode (front ++ rest)) (byteLength front) = (encode rest).head?.map charOf := by
  rw [byteAt?, ← drop_encode front rest, List.head?_drop]

/-- Where a character begins is a byte, which is in the same classes. -/
theorem head?_encode_cons (c : Char) (rest : List Char) :
    ∃ d, (encode (c :: rest)).head?.map charOf = some d ∧ ∀ p, Uniform p → p d = p c := by
  obtain ⟨b, others, hc, -⟩ := exists_encodeChar c
  exact ⟨charOf b, by rw [encode_cons, hc]; rfl, fun p hp => hp.eq_of_mem (hc ▸ List.mem_cons_self)⟩

/-- In particular it is an ASCII character together with the character. -/
theorem eq_iff_of_uniform {e : Char} (h : ∀ p, Uniform p → p d = p c) (he : e.toNat < 0x80) :
    d = e ↔ c = e := by
  have hb := h _ (uniform_beq he)
  rwa [Bool.eq_iff_iff, beq_iff_eq, beq_iff_eq] at hb

/-- Before a place is a byte in the same classes as the character that ends there. -/
theorem byteAt?_encode_pred (front : List Char) (c : Char) (rest : List Char) :
    ∃ d, byteAt? (encode (front ++ ([c] ++ rest))) (byteLength (front ++ [c]) - 1) = some d ∧
      ∀ p, Uniform p → p d = p c := by
  have hne : encodeChar c ≠ [] := by
    obtain ⟨b, others, hc, -⟩ := exists_encodeChar c
    simp [hc]
  obtain ⟨others, b, hc⟩ := (encodeChar c).eq_nil_or_concat.resolve_left hne
  have hbytes : encode (front ++ ([c] ++ rest)) = (encode front ++ others) ++ b :: encode rest := by
    simp [hc]
  have hplace : byteLength (front ++ [c]) - 1 = (encode front ++ others).length := by
    simp [byteLength, hc]
  refine ⟨charOf b, ?_, fun p hp => hp.eq_of_mem (hc ▸ by simp)⟩
  rw [byteAt?, hbytes, hplace, List.getElem?_append_right (Nat.le_refl _), Nat.sub_self]
  rfl

/-! ### Patterns -/

/-- A text of ASCII characters. -/
def IsAscii (s : List Char) : Prop := ∀ c ∈ s, c.toNat < 0x80

/-- Whether all characters are ASCII can be computed. -/
instance (s : List Char) : Decidable (IsAscii s) :=
  decidable_of_iff ((s.all fun c => decide (c.toNat < 0x80)) = true) (by simp [IsAscii])

variable {t : List Char}

/-- ASCII characters are told apart by their bytes. -/
theorem byteOf_inj (hc : c.toNat < 0x80) (hd : d.toNat < 0x80) : byteOf c = byteOf d ↔ c = d := by
  constructor
  · intro h
    rw [← charOf_byteOf hc, h, charOf_byteOf hd]
  · rintro rfl
    rfl

/-- A byte of a character above ASCII is that of no ASCII character. -/
theorem byteOf_not_mem_encodeChar (hc : c.toNat < 0x80) (hd : 0x80 ≤ d.toNat) :
    byteOf c ∉ encodeChar d := by
  intro hm
  have hb := above_of_mem_encodeChar hd hm
  rw [toNat_byteOf hc] at hb
  omega

/-- ASCII characters stand at the front of the bytes of a text if they stand at the front of the text. -/
theorem prefix_encode_iff (ht : IsAscii t) (s : List Char) : encode t <+: encode s ↔ t <+: s := by
  induction t generalizing s with
  | nil => simp
  | cons x others ih =>
    obtain ⟨hx, hothers⟩ := List.forall_mem_cons.1 ht
    rw [encode_cons, encodeChar_of_ascii hx, List.singleton_append]
    cases s with
    | nil => simp
    | cons c rest =>
      rw [List.cons_prefix_cons, ← ih hothers]
      by_cases hc : c.toNat < 0x80
      · rw [encode_cons, encodeChar_of_ascii hc, List.singleton_append, List.cons_prefix_cons,
          byteOf_inj hx hc]
      · have hc : 0x80 ≤ c.toNat := Nat.le_of_not_lt hc
        obtain ⟨b, others, he, -⟩ := exists_encodeChar c
        have hb : byteOf x ≠ b := by
          rintro rfl
          exact byteOf_not_mem_encodeChar hx hc (he ▸ List.mem_cons_self)
        have hxc : x ≠ c := by
          rintro rfl
          omega
        rw [encode_cons, he, List.cons_append, List.cons_prefix_cons]
        simp [hb, hxc]

/-- One text begins with another exactly if its bytes do. -/
theorem isPrefixOf_encode (ht : IsAscii t) (s : List Char) :
    (encode t).isPrefixOf (encode s) = t.isPrefixOf s := by
  rw [Bool.eq_iff_iff, List.isPrefixOf_iff_prefix, List.isPrefixOf_iff_prefix, prefix_encode_iff ht]

/-- A pattern in front is found at once. -/
theorem find?_eq_zero {pattern : Bytes} {x : UInt8} {s : Bytes} (h : pattern <+: x :: s) :
    find? pattern (x :: s) = some 0 := by
  rw [find?, cutPattern, if_pos (List.isPrefixOf_iff_prefix.2 h)]
  rfl

/-- A pattern that is not at the front is found behind the first byte. -/
theorem find?_cons {pattern : Bytes} {x : UInt8} {s : Bytes} (h : ¬ pattern <+: x :: s) :
    find? pattern (x :: s) = (find? pattern s).map (· + 1) := by
  rw [find?, cutPattern, if_neg (mt List.isPrefixOf_iff_prefix.1 h), find?, Option.map_map,
    Option.map_map]
  rfl

/-- A pattern is found behind what does not hold its first byte. -/
theorem find?_append {mark : UInt8} {front : Bytes} (h : mark ∉ front) (pattern s : Bytes) :
    find? (mark :: pattern) (front ++ s) = (find? (mark :: pattern) s).map (· + front.length) := by
  induction front with
  | nil => simp
  | cons x rest ih =>
    rw [List.mem_cons, not_or] at h
    have hx : ¬ mark :: pattern <+: x :: (rest ++ s) := fun hp => h.1 (List.cons_prefix_cons.1 hp).1
    rw [List.cons_append, find?_cons hx, ih h.2, Option.map_map]
    rfl

/-- How many bytes stand before the first occurrence of a pattern in a text. -/
def bytesBefore (pattern s : List Char) : Option Nat :=
  (cutPattern pattern s).map fun found => byteLength found.1

/-- No bytes stand before a pattern that is in front. -/
theorem bytesBefore_eq_zero {rest : List Char} (h : t <+: c :: rest) :
    bytesBefore t (c :: rest) = some 0 := by
  rw [bytesBefore, cutPattern, if_pos (List.isPrefixOf_iff_prefix.2 h)]
  rfl

/-- Before a pattern that is farther on stand the bytes of the first character and the others. -/
theorem bytesBefore_cons {rest : List Char} (h : ¬ t <+: c :: rest) :
    bytesBefore t (c :: rest) = (bytesBefore t rest).map (· + (encodeChar c).length) := by
  rw [bytesBefore, cutPattern, if_neg (mt List.isPrefixOf_iff_prefix.1 h), bytesBefore, Option.map_map,
    Option.map_map]
  congr 1
  funext found
  exact (byteLength_cons c found.1).trans (Nat.add_comm _ _)

/-- A pattern of ASCII characters is found in the bytes of a text where it is found in the text. -/
theorem find?_encode (ht : IsAscii t) (hne : t ≠ []) (s : List Char) :
    find? (encode t) (encode s) = bytesBefore t s := by
  obtain ⟨x, others, rfl⟩ := List.exists_cons_of_ne_nil hne
  have hx : x.toNat < 0x80 := ht x List.mem_cons_self
  have hbytes : encode (x :: others) = byteOf x :: encode others := by
    rw [encode_cons, encodeChar_of_ascii hx, List.singleton_append]
  induction s with
  | nil => simp [find?, bytesBefore, cutPattern, hbytes]
  | cons c rest ih =>
    have hfront := prefix_encode_iff ht (c :: rest)
    by_cases hp : x :: others <+: c :: rest
    · obtain ⟨b, more, hc, -⟩ := exists_encodeChar c
      rw [encode_cons c, hc, List.cons_append] at hfront ⊢
      rw [find?_eq_zero (hfront.2 hp), bytesBefore_eq_zero hp]
    · rw [bytesBefore_cons hp, ← ih]
      by_cases hc : c.toNat < 0x80
      · rw [encode_cons c, encodeChar_of_ascii hc, List.singleton_append] at hfront ⊢
        rw [find?_cons (mt hfront.1 hp)]
        rfl
      · rw [encode_cons c, hbytes,
          find?_append (byteOf_not_mem_encodeChar hx (Nat.le_of_not_lt hc))]

/-- The first occurrence of a character is that of the pattern that it makes up. -/
theorem cutAt_eq_cutPattern (mark : Char) (s : List Char) : cutAt mark s = cutPattern [mark] s := by
  induction s with
  | nil => rfl
  | cons c rest ih =>
    have hfront : [mark].isPrefixOf (c :: rest) = (c == mark) := by
      rw [List.isPrefixOf, List.isPrefixOf, Bool.and_true, Bool.beq_comm]
    rw [cutAt, cutPattern, ih, hfront]
    rfl

/-- An ASCII character is found in bytes where it stands in the text. -/
theorem find?_byteOf (hc : c.toNat < 0x80) (s : List Char) :
    find? [byteOf c] (encode s) = (cutAt c s).map fun found => byteLength found.1 := by
  have ht : IsAscii [c] := by simpa [IsAscii] using hc
  have hbytes : encode [c] = [byteOf c] := by
    rw [encode_cons, encodeChar_of_ascii hc, encode_nil, List.append_nil]
  rw [cutAt_eq_cutPattern, ← hbytes, find?_encode ht (List.cons_ne_nil _ _), bytesBefore]

/-! ### Small letters -/

/-- Above ASCII there is no lower case. -/
theorem toLower_of_above (hc : 0x80 ≤ c.toNat) : c.toLower = c := by
  unfold Char.toLower
  split
  · rename_i hu
    have hhigh : c.toNat ≤ 90 := hu.2
    omega
  · rfl

/-- The lower case of ASCII is ASCII. -/
theorem toNat_toLower_lt (hc : c.toNat < 0x80) : c.toLower.toNat < 0x80 := by
  unfold Char.toLower
  split
  · rename_i hu
    have hhigh : c.val.toNat ≤ 90 := hu.2
    have h32 : (32 : UInt32).toNat = 32 := rfl
    have hsum : (c.val + 32).toNat = c.val.toNat + 32 := by
      rw [UInt32.toNat_add, h32, Nat.mod_eq_of_lt (by omega)]
    change (c.val + 32).toNat < 0x80
    omega
  · exact hc

/-- Making letters small changes the bytes of a character as it changes the character. -/
theorem lowerBytes_encodeChar (c : Char) : lowerBytes (encodeChar c) = encodeChar c.toLower := by
  by_cases hc : c.toNat < 0x80
  · rw [encodeChar_of_ascii hc, encodeChar_of_ascii (toNat_toLower_lt hc), lowerBytes, List.map_singleton,
      charOf_byteOf hc]
  · have hc : 0x80 ≤ c.toNat := Nat.le_of_not_lt hc
    have hself : ∀ b ∈ encodeChar c, byteOf (charOf b).toLower = b := by
      intro b hb
      have hb : 0x80 ≤ (charOf b).toNat := (toNat_charOf b).symm ▸ above_of_mem_encodeChar hc hb
      rw [toLower_of_above hb, byteOf_charOf]
    rw [toLower_of_above hc, lowerBytes, List.map_congr_left hself, List.map_id']

/-- Bytes are made lower case as the text is. -/
theorem lowerBytes_encode (s : List Char) : lowerBytes (encode s) = encode (s.map Char.toLower) := by
  induction s with
  | nil => rfl
  | cons c rest ih =>
    rw [encode_cons, List.map_cons, encode_cons, ← lowerBytes_encodeChar, ← ih, lowerBytes, lowerBytes,
      lowerBytes, List.map_append]

/-- Small letters stand where the others stood. -/
theorem byteLength_map_toLower (s : List Char) : byteLength (s.map Char.toLower) = byteLength s := by
  rw [byteLength, ← lowerBytes_encode, lowerBytes, List.length_map, byteLength]

end Palisade.Text
