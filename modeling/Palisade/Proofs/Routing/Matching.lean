import Mathlib.Data.List.Forall2
import Palisade.Proofs.Text.Pieces
import Palisade.Routing.Pattern

/-!
# What patterns match

A pattern is read from a text, and so it is said in terms of the two texts which paths it matches and what
it captures from them. A pattern that ends in a slash and a star matches what begins with the rest of it; a
pattern with a colon matches segment by segment, and if its names are different then what it captures is
just what turns it into the path; any other pattern matches itself. The main statement puts the three
together. Which of several patterns is asked first is not a matter of patterns.
-/
namespace Palisade

open Palisade.Text

/-! ### Slashes -/

namespace Pattern

variable {s : List Char}

/-- A slash behind a text that ends in none is taken away, unless it is all there is. -/
theorem trimSlash_append (hne : s ≠ []) : trimSlash (s ++ ['/']) = s := by
  have hlone : s ++ ['/'] ≠ ['/'] := by simpa using hne
  rw [trimSlash, if_pos ⟨hlone, List.getLast?_concat⟩, List.dropLast_concat]

/-- Without a slash at its end a text is trimmed to itself. -/
theorem trimSlash_of_not_slash (h : s.getLast? ≠ some '/') : trimSlash s = s :=
  if_neg fun hs => h hs.2

/-- The segments are the same with and without the slash that does not count. -/
theorem splitPath_trimSlash (s : List Char) : splitPath (trimSlash s) = splitPath s := by
  unfold trimSlash
  split
  · rename_i hs
    have hlast := List.dropLast_append_getLast? '/' hs.2
    have hsplit : splitPath (s.dropLast ++ ['/']) = splitPath s.dropLast := by
      simp [splitPath, pieces_append_cons, pieces]
    rw [← hsplit, hlast]
  · rfl

/-- A text is cut before an ending exactly if it ends so. -/
theorem beforeEnd?_eq_some_iff {ending start : List Char} :
    beforeEnd? ending s = some start ↔ s = start ++ ending := by
  unfold beforeEnd?
  constructor
  · intro h
    split at h
    · rename_i hs
      obtain ⟨front, rfl⟩ := List.isSuffixOf_iff_suffix.1 hs
      simpa using h
    · cases h
  · rintro rfl
    simp

/-! ### How patterns are read -/

/-- A pattern that ends in the mark is one below a path. -/
theorem read_below {pattern : String} {start : List Char}
    (h : trimSlash pattern.toList = start ++ belowMark) :
    read pattern = .below (String.ofList start) := by
  simp only [read, beforeEnd?_eq_some_iff.2 h]

/-- A pattern without the mark that has a colon is one of segments. -/
theorem read_segments {pattern : String}
    (h : ∀ start, trimSlash pattern.toList ≠ start ++ belowMark)
    (hc : ':' ∈ trimSlash pattern.toList) :
    read pattern = .segments ((splitPath pattern.toList).map readSegment) := by
  have hend : beforeEnd? belowMark (trimSlash pattern.toList) = none :=
    Option.eq_none_iff_forall_ne_some.2 fun start hs => h start (beforeEnd?_eq_some_iff.1 hs)
  have hcolon : (trimSlash pattern.toList).contains ':' = true := List.contains_iff_mem.2 hc
  simp only [read, hend, hcolon, if_true, splitPath_trimSlash]

/-- A pattern without mark and colon is exact. -/
theorem read_exact {pattern : String}
    (h : ∀ start, trimSlash pattern.toList ≠ start ++ belowMark)
    (hc : ':' ∉ trimSlash pattern.toList) :
    read pattern = .exact (String.ofList (trimSlash pattern.toList)) := by
  have hend : beforeEnd? belowMark (trimSlash pattern.toList) = none :=
    Option.eq_none_iff_forall_ne_some.2 fun start hs => h start (beforeEnd?_eq_some_iff.1 hs)
  have hcolon : (trimSlash pattern.toList).contains ':' = false := by simpa using hc
  simp only [read, hend, hcolon, Bool.false_eq_true, if_false]

/-! ### Everything below a path -/

/-- What is captured below a path is what stands behind it: nothing, or a slash and more. -/
theorem matches?_below {start : List Char} {path : String} {c : Captures} :
    (below (String.ofList start)).matches? path = some c ↔
      ∃ rest, trimSlash path.toList = start ++ rest ∧ (rest = [] ∨ rest.head? = some '/') ∧
        c = ⟨[(belowName, String.ofList rest)]⟩ := by
  simp only [matches?, String.toList_ofList]
  cases ha : afterStart? start (trimSlash path.toList) with
  | none =>
    have hn : ∀ rest, trimSlash path.toList ≠ start ++ rest := by
      intro rest he
      rw [afterStart?_eq_some_iff.2 he] at ha
      cases ha
    simp [hn]
  | some after =>
    rw [afterStart?_eq_some_iff.1 ha]
    simp only [List.append_cancel_left_eq]
    constructor
    · intro h
      refine ⟨after, rfl, ?_⟩
      split at h
      · rename_i he
        obtain rfl := Option.some.inj he
        exact ⟨.inl rfl, (Option.some.inj h).symm⟩
      · rename_i rest he
        obtain rfl := Option.some.inj he
        exact ⟨.inr rfl, (Option.some.inj h).symm⟩
      · cases h
    · rintro ⟨rest, rfl, hslash, rfl⟩
      match after, hslash with
      | [], _ => rfl
      | x :: others, .inr hx =>
        obtain rfl := Option.some.inj hx
        rfl

/-! ### Segments -/

/-- The name under which a segment of a pattern captures, if it does. -/
def captureName? : List Char → Option String
  | ':' :: name => some (String.ofList name)
  | _ => none

/-- The names under which a pattern captures, in order. -/
def captureNames (pattern : String) : List String :=
  (splitPath pattern.toList).filterMap captureName?

/-- What a segment of a pattern becomes when there are values for the names. -/
def filled (values : String → String) (part : List Char) : List Char :=
  match captureName? part with
  | some name => (values name).toList
  | none => part

/-- A pattern with values in place of its captures. -/
def fill (values : String → String) (pattern : String) : String :=
  String.ofList (List.intercalate ['/'] ((pieces '/' pattern.toList).map (filled values)))

/-- A segment of a path stands at a segment of a pattern: any, or the one that is written there. -/
def Fits (part segment : List Char) : Prop := captureName? part = none → part = segment

/-- What is captured from segments of a path. -/
def captured (parts segments : List (List Char)) : List (String × String) :=
  (parts.zip segments).filterMap fun p => (captureName? p.1).map fun name => (name, String.ofList p.2)

/-- A segment that captures gives an entry for its name. -/
theorem captured_cons_of_capture {part segment : List Char} {name : String} (others rest : List (List Char))
    (h : captureName? part = some name) : captured (part :: others) (segment :: rest) =
      (name, String.ofList segment) :: captured others rest := by
  simp [captured, h]

/-- A segment without a capture gives no entry. -/
theorem captured_cons_of_fixed {part segment : List Char} (others rest : List (List Char))
    (h : captureName? part = none) :
    captured (part :: others) (segment :: rest) = captured others rest := by
  simp [captured, h]

/-- A segment that captures is read as a capture. -/
theorem readSegment_of_capture {part : List Char} {name : String} (h : captureName? part = some name) :
    readSegment part = .capture name := by
  unfold captureName? at h
  split at h
  · obtain rfl := Option.some.inj h
    rfl
  · cases h

/-- Another segment is read as its own text. -/
theorem readSegment_of_fixed {part : List Char} (h : captureName? part = none) :
    readSegment part = .fixed (String.ofList part) := by
  unfold captureName? at h
  split at h
  · cases h
  · rename_i hs
    unfold readSegment
    split
    · exact absurd rfl (hs _)
    · rfl

/-- Segments match exactly if each of them stands at its place and there are as many as there are
places. -/
theorem exists_matchSegments_iff {parts segments : List (List Char)} {done : Captures} :
    (∃ c, matchSegments (parts.map readSegment) segments done = some c) ↔
      List.Forall₂ Fits parts segments := by
  induction parts generalizing segments done with
  | nil => cases segments <;> simp [matchSegments]
  | cons part others ih =>
    cases segments with
    | nil =>
      rw [List.map_cons]
      cases readSegment part <;> simp [matchSegments]
    | cons segment rest =>
      rw [List.map_cons, List.forall₂_cons]
      cases hp : captureName? part with
      | some name =>
        have hfits : Fits part segment := fun hn => by simp [hp] at hn
        rw [readSegment_of_capture hp, matchSegments, ih, and_iff_right hfits]
      | none =>
        have hfits : Fits part segment ↔ part = segment := ⟨fun h => h hp, fun h _ => h⟩
        rw [readSegment_of_fixed hp, matchSegments, String.toList_ofList, hfits]
        split
        · rename_i he
          rw [ih, and_iff_right he]
        · rename_i he
          simp [he]

/-- A new name gives an entry at the end. -/
theorem put_of_not_mem {name value : String} {entries : List (String × String)}
    (h : name ∉ entries.map Prod.fst) : Captures.put name value entries = entries ++ [(name, value)] := by
  induction entries with
  | nil => rfl
  | cons e rest ih =>
    rw [List.map_cons, List.mem_cons, not_or] at h
    rw [Captures.put, if_neg (Ne.symm h.1), ih h.2, List.cons_append]

/-- With different names, what is captured is what stands at the places of the names, in order. -/
theorem entries_matchSegments {parts segments : List (List Char)} {done c : Captures}
    (h : matchSegments (parts.map readSegment) segments done = some c)
    (hd : (done.entries.map Prod.fst ++ parts.filterMap captureName?).Nodup) :
    c.entries = done.entries ++ captured parts segments := by
  induction parts generalizing segments done with
  | nil =>
    cases segments with
    | nil =>
      obtain rfl := Option.some.inj h
      exact (List.append_nil _).symm
    | cons segment rest => cases h
  | cons part others ih =>
    cases segments with
    | nil =>
      rw [List.map_cons] at h
      cases hr : readSegment part <;> simp [hr, matchSegments] at h
    | cons segment rest =>
      rw [List.map_cons] at h
      cases hp : captureName? part with
      | some name =>
        rw [readSegment_of_capture hp, matchSegments] at h
        rw [List.filterMap_cons_some hp] at hd
        have hnew : name ∉ done.entries.map Prod.fst := by
          intro hm
          exact (List.nodup_append.1 hd).2.2 name hm name List.mem_cons_self rfl
        have hentries : (done.insert name (String.ofList segment)).entries =
            done.entries ++ [(name, String.ofList segment)] := put_of_not_mem hnew
        have hd' : ((done.insert name (String.ofList segment)).entries.map Prod.fst ++
            others.filterMap captureName?).Nodup := by
          rw [hentries]
          simpa using hd
        rw [ih h hd', hentries, captured_cons_of_capture _ _ hp, List.append_assoc,
          List.singleton_append]
      | none =>
        rw [readSegment_of_fixed hp, matchSegments] at h
        rw [List.filterMap_cons_none hp] at hd
        split at h
        · rw [ih h hd, captured_cons_of_fixed _ _ hp]
        · cases h

/-! ### There and back -/

/-- With different names each value is found under its name. -/
theorem lookup_of_mem {entries : List (String × String)} (hd : (entries.map Prod.fst).Nodup)
    {entry : String × String} (h : entry ∈ entries) : entries.lookup entry.1 = some entry.2 := by
  obtain ⟨earlier, later, rfl⟩ := List.append_of_mem h
  rw [List.map_append, List.map_cons, List.nodup_append] at hd
  refine List.lookup_eq_some_iff.2 ⟨earlier, later, rfl, fun other ho => ?_⟩
  have hne : other.1 ≠ entry.1 := hd.2.2 _ (List.mem_map_of_mem ho) _ List.mem_cons_self
  simpa using Ne.symm hne

variable {parts segments : List (List Char)}

/-- What is captured has the names of the pattern. -/
theorem names_captured (h : List.Forall₂ Fits parts segments) :
    (captured parts segments).map Prod.fst = parts.filterMap captureName? := by
  induction h with
  | nil => rfl
  | @cons part segment others rest _ _ ih =>
    cases hp : captureName? part with
    | some name =>
      rw [captured_cons_of_capture _ _ hp, List.map_cons, ih, List.filterMap_cons_some hp]
    | none => rw [captured_cons_of_fixed _ _ hp, ih, List.filterMap_cons_none hp]

/-- What is captured turns the segments of the pattern into those of the path. -/
theorem map_filled_captured {look : String → Option String} (h : List.Forall₂ Fits parts segments)
    (hlook : ∀ entry ∈ captured parts segments, look entry.1 = some entry.2) :
    parts.map (filled fun name => (look name).getD "") = segments := by
  induction h with
  | nil => rfl
  | @cons part segment others rest hfits _ ih =>
    rw [List.map_cons]
    cases hp : captureName? part with
    | some name =>
      rw [captured_cons_of_capture _ _ hp, List.forall_mem_cons] at hlook
      simp [ih hlook.2, filled, hp, hlook.1]
    | none =>
      rw [captured_cons_of_fixed _ _ hp] at hlook
      rw [ih hlook, filled, hp, hfits hp]

/-- A filled pattern fits the pattern. -/
theorem fits_filled (values : String → String) (parts : List (List Char)) :
    List.Forall₂ Fits parts (parts.map (filled values)) := by
  rw [List.forall₂_map_right_iff, List.forall₂_same]
  intro part _ hp
  rw [filled, hp]

/-- What is captured from a pattern with values in place of its captures are these values. -/
theorem captured_filled (values : String → String) (parts : List (List Char)) :
    captured parts (parts.map (filled values)) =
      (parts.filterMap captureName?).map fun name => (name, values name) := by
  induction parts with
  | nil => rfl
  | cons part others ih =>
    rw [List.map_cons]
    cases hp : captureName? part with
    | some name =>
      rw [captured_cons_of_capture _ _ hp, ih, List.filterMap_cons_some hp, List.map_cons]
      simp [filled, hp]
    | none => rw [captured_cons_of_fixed _ _ hp, ih, List.filterMap_cons_none hp]

/-- Values without slashes stand between the slashes of the pattern, and none of them is lost if none is
empty. -/
theorem splitPath_fill {values : String → String} {pattern : String}
    (h : ∀ name ∈ captureNames pattern, values name ≠ "" ∧ '/' ∉ (values name).toList) :
    splitPath (fill values pattern).toList = (splitPath pattern.toList).map (filled values) := by
  have hvalue : ∀ part ∈ pieces '/' pattern.toList, ∀ name, captureName? part = some name →
      values name ≠ "" ∧ '/' ∉ (values name).toList := by
    intro part hm name hp
    have hne : part ≠ [] := by
      rintro rfl
      cases hp
    refine h name (List.mem_filterMap.2 ⟨part, List.mem_filter.2 ⟨hm, ?_⟩, hp⟩)
    simpa using hne
  have hslash : ∀ segment ∈ (pieces '/' pattern.toList).map (filled values), '/' ∉ segment := by
    intro segment hs
    obtain ⟨part, hm, rfl⟩ := List.mem_map.1 hs
    cases hp : captureName? part with
    | some name => simpa [filled, hp] using (hvalue part hm name hp).2
    | none => simpa [filled, hp] using not_mem_of_mem_pieces hm
  have hempty : ∀ part ∈ pieces '/' pattern.toList, (filled values part).isEmpty = part.isEmpty := by
    intro part hm
    cases hp : captureName? part with
    | some name =>
      have hne : part ≠ [] := by
        rintro rfl
        cases hp
      have hv : (values name).toList ≠ [] := by simpa using (hvalue part hm name hp).1
      rw [filled, hp, List.isEmpty_eq_false_iff.2 hne, List.isEmpty_eq_false_iff.2 hv]
    | none => rw [filled, hp]
  rw [splitPath, fill, String.toList_ofList,
    pieces_intercalate (by simpa using pieces_ne_nil '/' pattern.toList) hslash, List.filter_map,
    splitPath]
  congr 1
  exact List.filter_congr fun part hm => by simp [hempty part hm]

/-! ### Which paths match, and what is captured -/

variable {pattern path : String} {c : Captures}

section

variable {start : List Char} (h : trimSlash pattern.toList = start ++ belowMark)

include h

/-- A pattern below a path matches the path, and the path with a slash and anything behind it. -/
theorem exists_matches?_below_iff : (∃ c, (read pattern).matches? path = some c) ↔
    trimSlash path.toList = start ∨ ∃ rest, trimSlash path.toList = start ++ '/' :: rest := by
  rw [read_below h]
  simp only [matches?_below]
  constructor
  · rintro ⟨c, rest, hp, hslash, -⟩
    match rest, hslash with
    | [], _ => exact .inl (by simpa using hp)
    | x :: others, .inr hx =>
      obtain rfl := Option.some.inj hx
      exact .inr ⟨others, hp⟩
  · rintro (hp | ⟨rest, hp⟩)
    · exact ⟨_, [], by simpa using hp, .inl rfl, rfl⟩
    · exact ⟨_, '/' :: rest, hp, .inr rfl, rfl⟩

/-- What is captured below a path is the rest of the path, whole. -/
theorem captures_below (hm : (read pattern).matches? path = some c) :
    ∃ rest, c = ⟨[(belowName, rest)]⟩ ∧ start ++ rest.toList = trimSlash path.toList := by
  rw [read_below h] at hm
  obtain ⟨rest, hp, -, rfl⟩ := matches?_below.1 hm
  exact ⟨String.ofList rest, rfl, by rw [String.toList_ofList, hp]⟩

end

section

variable (h : ∀ start, trimSlash pattern.toList ≠ start ++ belowMark)

include h

/-- A pattern with a colon matches segment by segment. -/
theorem matches?_segments (hc : ':' ∈ trimSlash pattern.toList) (path : String) :
    (read pattern).matches? path =
      matchSegments ((splitPath pattern.toList).map readSegment) (splitPath path.toList) .empty := by
  rw [read_segments h hc, matches?, splitPath_trimSlash]

/-- A pattern with a colon matches a path exactly if there are as many segments, and each fits. -/
theorem exists_matches?_segments_iff (hc : ':' ∈ trimSlash pattern.toList) :
    (∃ c, (read pattern).matches? path = some c) ↔
      List.Forall₂ Fits (splitPath pattern.toList) (splitPath path.toList) := by
  rw [matches?_segments h hc, exists_matchSegments_iff]

/-- What is captured has the names of the pattern, and with it the pattern becomes the path. -/
theorem captures_segments (hc : ':' ∈ trimSlash pattern.toList) (hd : (captureNames pattern).Nodup)
    (hm : (read pattern).matches? path = some c) :
    c.entries.map Prod.fst = captureNames pattern ∧
      (splitPath pattern.toList).map (filled fun name => (c.get? name).getD "") =
        splitPath path.toList := by
  have hfits := (exists_matches?_segments_iff h hc).1 ⟨c, hm⟩
  rw [matches?_segments h hc] at hm
  have hentries : c.entries = captured (splitPath pattern.toList) (splitPath path.toList) :=
    entries_matchSegments hm hd
  have hnames : c.entries.map Prod.fst = captureNames pattern := by
    rw [hentries]
    exact names_captured hfits
  refine ⟨hnames, map_filled_captured hfits fun entry he => ?_⟩
  exact lookup_of_mem (hnames ▸ hd) (hentries ▸ he)

/-- A pattern with values in place of its captures gives the values back. -/
theorem matches?_fill (hc : ':' ∈ trimSlash pattern.toList) (hd : (captureNames pattern).Nodup)
    {values : String → String}
    (hv : ∀ name ∈ captureNames pattern, values name ≠ "" ∧ '/' ∉ (values name).toList) :
    (read pattern).matches? (fill values pattern) =
      some ⟨(captureNames pattern).map fun name => (name, values name)⟩ := by
  have hfits := fits_filled values (splitPath pattern.toList)
  obtain ⟨c, hm⟩ : ∃ c, matchSegments ((splitPath pattern.toList).map readSegment)
      ((splitPath pattern.toList).map (filled values)) .empty = some c :=
    exists_matchSegments_iff.2 hfits
  have hentries : c.entries = (captureNames pattern).map fun name => (name, values name) :=
    (entries_matchSegments hm hd).trans (captured_filled values _)
  rw [matches?_segments h hc, splitPath_fill hv, hm, ← hentries]

/-- A pattern without a colon matches its own text, a slash at the end aside, and captures nothing. -/
theorem matches?_exact (hc : ':' ∉ trimSlash pattern.toList) : (read pattern).matches? path =
    if trimSlash path.toList = trimSlash pattern.toList then some .empty else none := by
  rw [read_exact h hc, matches?, String.toList_ofList]
  exact if_congr eq_comm rfl rfl

end

/-- A slash behind a text that does not end in one is taken away. -/
theorem trimSlash_slash {text : String} (hne : text ≠ "") (hl : text.toList.getLast? ≠ some '/') :
    trimSlash (text ++ "/").toList = trimSlash text.toList := by
  have hs : text.toList ≠ [] := by simpa using hne
  rw [String.toList_append, trimSlash_of_not_slash hl]
  exact trimSlash_append hs

/-- What a pattern matches and captures, by the texts of the pattern and the path, both without the slash
that does not count. If the pattern ends in a slash and a star, the path is what stands before them, or
that and a slash and more, and the rest is captured. If there is a colon in the pattern, the segments
stand at the segments of the pattern; with different names what is captured turns the pattern into the
path, and the pattern with values in place of its captures gives these values back. Otherwise the path is
the pattern. A slash behind a path or a pattern that does not end in one changes nothing. -/
theorem matches?_as_written (pattern path : String) :
    let shape := trimSlash pattern.toList
    let place := trimSlash path.toList
    let matched := (read pattern).matches? path
    (∀ start, shape = start ++ belowMark →
      ((∃ c, matched = some c) ↔ place = start ∨ ∃ rest, place = start ++ '/' :: rest) ∧
      ∀ c, matched = some c → ∃ rest, c = ⟨[(belowName, rest)]⟩ ∧ start ++ rest.toList = place) ∧
    ((∀ start, shape ≠ start ++ belowMark) → ':' ∈ shape →
      ((∃ c, matched = some c) ↔
        List.Forall₂ Fits (splitPath pattern.toList) (splitPath path.toList)) ∧
      ((captureNames pattern).Nodup →
        (∀ c, matched = some c →
          c.entries.map Prod.fst = captureNames pattern ∧
          (splitPath pattern.toList).map (filled fun name => (c.get? name).getD "") =
            splitPath path.toList) ∧
        ∀ values : String → String,
          (∀ name ∈ captureNames pattern, values name ≠ "" ∧ '/' ∉ (values name).toList) →
          (read pattern).matches? (fill values pattern) =
            some ⟨(captureNames pattern).map fun name => (name, values name)⟩)) ∧
    ((∀ start, shape ≠ start ++ belowMark) → ':' ∉ shape →
      matched = if place = shape then some .empty else none) ∧
    (path ≠ "" → path.toList.getLast? ≠ some '/' →
      (read pattern).matches? (path ++ "/") = matched) ∧
    (pattern ≠ "" → pattern.toList.getLast? ≠ some '/' → read (pattern ++ "/") = read pattern) := by
  refine ⟨fun start h => ⟨exists_matches?_below_iff h, fun c => captures_below h⟩,
    fun h hc => ⟨exists_matches?_segments_iff h hc, fun hd => ⟨?captures, ?fill⟩⟩,
    fun h hc => matches?_exact h hc, fun hne hl => ?path, fun hne hl => ?pattern⟩
  case captures => exact fun c hm => captures_segments h hc hd hm
  case fill => exact fun values hv => matches?_fill h hc hd hv
  case path => simp only [matches?, trimSlash_slash hne hl]
  case pattern => simp only [read, trimSlash_slash hne hl]

/-- Where a name is repeated the last segment counts, and the first is lost. -/
example : (read "/:x/to/:x").matches? "/a//to/b/" = some ⟨[("x", "b")]⟩ := by decide +kernel

end Pattern

end Palisade
