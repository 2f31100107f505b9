import Palisade.Proofs.Routing.Lookup
import Palisade.Proofs.Routing.Matching
import Palisade.Service.Basic

/-!
# Patterns of the same paths

A service is not built if a route repeats the host, the method and the pattern of another, and patterns are
compared as they were read. That is nearly a comparison of the paths that they match: two patterns which
match the same paths are the same, or both have captures and differ in the names of these alone. So the
routes that are built and never chosen because an equivalent one stands before them are those with other
names for the same captures. Routes that are shadowed by others which match more are not looked at.
-/
namespace Palisade

open Palisade.Text

/-- Segments that match the same: two captures, under whatever names, or one text. -/
inductive Segment.Alike : Segment → Segment → Prop where
  | capture (name other : String) : Alike (.capture name) (.capture other)
  | fixed (text : String) : Alike (.fixed text) (.fixed text)

namespace Pattern

/-- A pattern matches a path, whatever it captures from it. -/
def Accepts (p : Pattern) (path : String) : Prop := ∃ captures, p.matches? path = some captures

/-- Patterns that match the same paths. -/
def SamePaths (p q : Pattern) : Prop := ∀ path, p.Accepts path ↔ q.Accepts path

/-- Patterns with captures that are different, but only in the names of these. -/
inductive Renamed : Pattern → Pattern → Prop where
  | segments {parts others : List Segment} (h : List.Forall₂ Segment.Alike parts others)
      (hne : parts ≠ others) : Renamed (.segments parts) (.segments others)

/-- A renamed pattern is another pattern. -/
theorem Renamed.ne {p q : Pattern} (h : Renamed p q) : p ≠ q := by
  cases h with
  | segments _ hne => exact fun he => hne (segments.inj he)

/-! ### Patterns that differ in names -/

/-- Whether segments match does not depend on the names of captures, nor on what was captured before. -/
theorem exists_matchSegments_congr {parts others : List Segment}
    (h : List.Forall₂ Segment.Alike parts others) (segments : List (List Char)) (done done' : Captures) :
    (∃ c, matchSegments parts segments done = some c) ↔
      ∃ c, matchSegments others segments done' = some c := by
  induction h generalizing segments done done' with
  | nil => cases segments <;> simp [matchSegments]
  | cons ha _ ih =>
    cases segments with
    | nil => cases ha <;> simp [matchSegments]
    | cons segment rest =>
      cases ha with
      | capture name other => exact ih rest _ _
      | fixed text =>
        simp only [matchSegments]
        split
        · exact ih rest done done'
        · simp

/-- Names of captures make no difference to what is matched. -/
theorem Renamed.samePaths {p q : Pattern} (h : Renamed p q) : SamePaths p q := by
  cases h with
  | segments h _ => exact fun path => exists_matchSegments_congr h (splitPath (trimSlash path.toList)) _ _

/-! ### The paths of a pattern -/

/-- Every text is a path without the slash that does not count. -/
theorem exists_trimSlash_eq (place : List Char) : ∃ path : String, trimSlash path.toList = place := by
  by_cases hne : place = []
  · exact ⟨"", hne ▸ rfl⟩
  · refine ⟨String.ofList (place ++ ['/']), ?_⟩
    rw [String.toList_ofList, trimSlash_append hne]

/-- An exact pattern accepts its own text, with or without the slash that does not count. -/
theorem accepts_exact {text path : String} :
    (exact text).Accepts path ↔ trimSlash path.toList = text.toList := by
  simp [Accepts, matches?, eq_comm]

/-- The pattern below a path accepts the path itself and what follows it behind a slash. -/
theorem accepts_below {start path : String} : (below start).Accepts path ↔
    ∃ rest, trimSlash path.toList = start.toList ++ rest ∧ (rest = [] ∨ rest.head? = some '/') := by
  have h (c : Captures) := @matches?_below start.toList path c
  rw [String.ofList_toList] at h
  simp [Accepts, h]

/-- A pattern of segments accepts the paths whose segments fit its own, one by one. -/
theorem accepts_segments {parts : List (List Char)} {path : String} :
    (segments (parts.map readSegment)).Accepts path ↔ List.Forall₂ Fits parts (splitPath path.toList) := by
  rw [Accepts, matches?, splitPath_trimSlash, exists_matchSegments_iff]

/-- Segments of paths: none is empty or has a slash in it. -/
def Segmented (segments : List (List Char)) : Prop := ∀ s ∈ segments, s ≠ [] ∧ '/' ∉ s

/-- The segments of every path are such segments. -/
theorem segmented_splitPath (s : List Char) : Segmented (splitPath s) := by
  intro piece hp
  obtain ⟨hp, hne⟩ := List.mem_filter.1 hp
  exact ⟨by simpa using hne, not_mem_of_mem_pieces hp⟩

/-- Such segments are those of a path. -/
theorem Segmented.exists_path {segments : List (List Char)} (h : Segmented segments) :
    ∃ path : String, splitPath path.toList = segments := by
  by_cases hne : segments = []
  · exact ⟨"", hne ▸ rfl⟩
  · refine ⟨String.ofList (List.intercalate ['/'] segments), ?_⟩
    rw [String.toList_ofList, splitPath, pieces_intercalate hne fun s hs => (h s hs).2,
      List.filter_eq_self]
    exact fun s hs => by simpa using (h s hs).1

/-- Any value will do for captures that is a segment of a path. -/
theorem Segmented.map_filled {parts : List (List Char)} (h : Segmented parts) {value : String}
    (hv : value ≠ "" ∧ '/' ∉ value.toList) : Segmented (parts.map (filled fun _ => value)) := by
  intro segment hs
  obtain ⟨part, hp, rfl⟩ := List.mem_map.1 hs
  cases hc : captureName? part with
  | some name => simpa [filled, hc] using hv
  | none => simpa [filled, hc] using h part hp

/-- The pattern of segments matches a path that has a value in place of its captures. -/
theorem Segmented.exists_accepted {parts : List (List Char)} (h : Segmented parts) {value : String}
    (hv : value ≠ "" ∧ '/' ∉ value.toList) :
    ∃ path : String, splitPath path.toList = parts.map (filled fun _ => value) ∧
      (segments (parts.map readSegment)).Accepts path := by
  obtain ⟨path, hpath⟩ := (h.map_filled hv).exists_path
  refine ⟨path, hpath, ?_⟩
  rw [accepts_segments, hpath]
  exact fits_filled _ parts

/-- The path itself is among those below it. -/
theorem exists_accepted_below (start : String) :
    ∃ path : String, trimSlash path.toList = start.toList ∧ (below start).Accepts path := by
  obtain ⟨path, hpath⟩ := exists_trimSlash_eq start.toList
  exact ⟨path, hpath, accepts_below.2 ⟨[], by rw [hpath, List.append_nil], .inl rfl⟩⟩

/-! ### Three kinds of patterns -/

/-- What patterns are when they are read. -/
theorem read_cases (pattern : String) :
    (∃ text, read pattern = exact text) ∨
    (∃ parts, Segmented parts ∧ read pattern = segments (parts.map readSegment)) ∨
    ∃ start, read pattern = below start := by
  by_cases h : ∃ start, trimSlash pattern.toList = start ++ belowMark
  · obtain ⟨start, h⟩ := h
    exact .inr (.inr ⟨_, read_below h⟩)
  · have hn := not_exists.1 h
    by_cases hc : ':' ∈ trimSlash pattern.toList
    · exact .inr (.inl ⟨_, segmented_splitPath _, read_segments hn hc⟩)
    · exact .inl ⟨_, read_exact hn hc⟩

/-- Not more than one path is matched, with and without the slash that does not count. -/
def OnePlace (p : Pattern) : Prop :=
  ∀ path other, p.Accepts path → p.Accepts other → trimSlash path.toList = trimSlash other.toList

/-- All paths that are matched have as many segments as the others. -/
def OneLength (p : Pattern) : Prop :=
  ∀ path other, p.Accepts path → p.Accepts other →
    (splitPath path.toList).length = (splitPath other.toList).length

/-- Paths that are the same but for a slash have as many segments. -/
theorem OnePlace.oneLength {p : Pattern} (h : OnePlace p) : OneLength p := by
  intro path other hp ho
  rw [← splitPath_trimSlash, h path other hp ho, splitPath_trimSlash]

/-- An exact pattern accepts one path. -/
theorem onePlace_exact (text : String) : OnePlace (exact text) := fun _ _ hp ho =>
  (accepts_exact.1 hp).trans (accepts_exact.1 ho).symm

/-- A pattern of segments accepts paths with as many segments as it has. -/
theorem oneLength_segments (parts : List (List Char)) :
    OneLength (segments (parts.map readSegment)) := fun _ _ hp ho =>
  (accepts_segments.1 hp).length_eq.symm.trans (accepts_segments.1 ho).length_eq

/-- There may be a slash more in front of segments. -/
theorem not_onePlace_segments {parts : List (List Char)} (hp : Segmented parts) :
    ¬ OnePlace (segments (parts.map readSegment)) := by
  intro h
  have hvalue : "x" ≠ "" ∧ '/' ∉ "x".toList := by decide
  obtain ⟨path, -, haccepts⟩ := hp.exists_accepted hvalue
  obtain ⟨other, hother⟩ := exists_trimSlash_eq ('/' :: trimSlash path.toList)
  have hsame : splitPath other.toList = splitPath path.toList := by
    rw [← splitPath_trimSlash other.toList, hother, ← splitPath_trimSlash path.toList]
    simp [splitPath, pieces]
  have haccepts' : (segments (parts.map readSegment)).Accepts other := by
    rwa [accepts_segments, hsame, ← accepts_segments]
  have hlength := congrArg List.length (h path other haccepts haccepts')
  simp [hother] at hlength

/-- Below a path there are paths with a segment more. -/
theorem not_oneLength_below (start : String) : ¬ OneLength (below start) := by
  intro h
  obtain ⟨path, hpath, haccepts⟩ := exists_accepted_below start
  obtain ⟨other, hother⟩ := exists_trimSlash_eq (start.toList ++ "/x".toList)
  have haccepts' : (below start).Accepts other := accepts_below.2 ⟨_, hother, .inr rfl⟩
  have hlength := h path other haccepts haccepts'
  have hmore : splitPath (start.toList ++ "/x".toList) = splitPath start.toList ++ ["x".toList] := by
    simp [splitPath, pieces_append_cons, pieces]
  rw [← splitPath_trimSlash path.toList, hpath, ← splitPath_trimSlash other.toList, hother, hmore] at hlength
  simp at hlength

/-! ### Patterns of the same paths are nearly the same -/

section

variable {p q : Pattern}

/-- To match the same paths is symmetric. -/
theorem SamePaths.symm (h : SamePaths p q) : SamePaths q p := fun path => (h path).symm

/-- Whether there is one path depends on the paths alone. -/
theorem SamePaths.onePlace (h : SamePaths p q) (hp : OnePlace p) : OnePlace q := fun path other ha ho =>
  hp path other ((h path).2 ha) ((h other).2 ho)

/-- Whether the paths have one length depends on the paths alone. -/
theorem SamePaths.oneLength (h : SamePaths p q) (hp : OneLength p) : OneLength q := fun path other ha ho =>
  hp path other ((h path).2 ha) ((h other).2 ho)

end

/-- Exact patterns of the same paths have the same text. -/
theorem eq_of_samePaths_exact {text other : String} (h : SamePaths (exact text) (exact other)) :
    text = other := by
  obtain ⟨path, hpath⟩ := exists_trimSlash_eq text.toList
  have hother := accepts_exact.1 ((h path).1 (accepts_exact.2 hpath))
  exact String.toList_inj.1 (hpath.symm.trans hother)

/-- What is below a path begins with it. -/
theorem prefix_of_samePaths_below {start other : String} (h : SamePaths (below start) (below other)) :
    other.toList <+: start.toList := by
  obtain ⟨path, hpath, haccepts⟩ := exists_accepted_below start
  obtain ⟨rest, hrest, -⟩ := accepts_below.1 ((h path).1 haccepts)
  exact ⟨rest, hrest.symm.trans hpath⟩

/-- Patterns below paths that match the same have the same start. -/
theorem eq_of_samePaths_below {start other : String} (h : SamePaths (below start) (below other)) :
    start = other :=
  String.toList_inj.1 ((prefix_of_samePaths_below h.symm).eq_of_length_le
    (prefix_of_samePaths_below h).length_le)

/-- Whatever stands in place of the captures of the first pattern, the second one matches it. -/
theorem fits_of_samePaths {parts others : List (List Char)} (hp : Segmented parts)
    (h : SamePaths (segments (parts.map readSegment)) (segments (others.map readSegment)))
    {value : String} (hv : value ≠ "" ∧ '/' ∉ value.toList) :
    List.Forall₂ (fun part other => Fits other (filled (fun _ => value) part)) parts others := by
  obtain ⟨path, hpath, haccepts⟩ := hp.exists_accepted hv
  have hother := accepts_segments.1 ((h path).1 haccepts)
  rw [hpath, List.forall₂_map_right_iff] at hother
  exact hother.flip

/-- Where a value is captured in one of two segments and all values pass, so it is in the other. -/
theorem alike_of_fits {part other : List Char}
    (h : ∀ value ∈ ["x", "y"], Fits other (filled (fun _ => value) part) ∧
      Fits part (filled (fun _ => value) other)) :
    Segment.Alike (readSegment part) (readSegment other) := by
  obtain ⟨⟨hx, hx'⟩, ⟨hy, hy'⟩⟩ : _ ∧ _ := by simpa using h
  cases hp : captureName? part with
  | some name =>
    cases ho : captureName? other with
    | some name' =>
      rw [readSegment_of_capture hp, readSegment_of_capture ho]
      exact .capture name name'
    | none =>
      have hboth := (hx ho).symm.trans (hy ho)
      simp [filled, hp] at hboth
  | none =>
    cases ho : captureName? other with
    | some name =>
      have hboth := (hx' hp).symm.trans (hy' hp)
      simp [filled, ho] at hboth
    | none =>
      have he : other = part := by simpa [filled, hp] using hx ho
      rw [he, readSegment_of_fixed hp]
      exact .fixed _

/-- Patterns of segments that match the same paths differ in no more than names. -/
theorem alike_of_samePaths {parts others : List (List Char)} (hp : Segmented parts)
    (ho : Segmented others)
    (h : SamePaths (segments (parts.map readSegment)) (segments (others.map readSegment))) :
    List.Forall₂ Segment.Alike (parts.map readSegment) (others.map readSegment) := by
  have hproper : ∀ value ∈ ["x", "y"], value ≠ "" ∧ '/' ∉ value.toList := by decide
  have hfits : ∀ value ∈ ["x", "y"], ∀ part other, (part, other) ∈ parts.zip others →
      Fits other (filled (fun _ => value) part) ∧ Fits part (filled (fun _ => value) other) := by
    intro value hv part other hm
    have hforth := (List.forall₂_iff_zip.1 (fits_of_samePaths hp h (hproper value hv))).2 hm
    have hback := (List.forall₂_iff_zip.1 (fits_of_samePaths ho h.symm (hproper value hv)).flip).2 hm
    exact ⟨hforth, hback⟩
  have hlength := (fits_of_samePaths hp h (hproper "x" (by decide))).length_eq
  rw [List.forall₂_map_left_iff, List.forall₂_map_right_iff]
  exact List.forall₂_iff_zip.2 ⟨hlength, fun hm => alike_of_fits fun value hv => hfits value hv _ _ hm⟩

/-- Patterns that match the same paths are the same or differ in the names of captures. The second
pattern has as many paths as the first, which leaves the three cases of one kind. -/
theorem eq_or_renamed_of_samePaths {pattern other : String}
    (h : SamePaths (read pattern) (read other)) :
    read pattern = read other ∨ Renamed (read pattern) (read other) := by
  rcases read_cases pattern with ⟨text, hp⟩ | ⟨parts, hparts, hp⟩ | ⟨start, hp⟩ <;>
  rcases read_cases other with ⟨text', ho⟩ | ⟨parts', hparts', ho⟩ | ⟨start', ho⟩ <;>
  rw [hp, ho] at h ⊢
  · exact .inl (congrArg exact (eq_of_samePaths_exact h))
  · exact absurd (h.onePlace (onePlace_exact text)) (not_onePlace_segments hparts')
  · exact absurd (h.oneLength (onePlace_exact text).oneLength) (not_oneLength_below start')
  · exact absurd (h.symm.onePlace (onePlace_exact text')) (not_onePlace_segments hparts)
  · by_cases he : parts.map readSegment = parts'.map readSegment
    · exact .inl (congrArg segments he)
    · exact .inr (.segments (alike_of_samePaths hparts hparts' h) he)
  · exact absurd (h.oneLength (oneLength_segments parts)) (not_oneLength_below start')
  · exact absurd (h.symm.oneLength (onePlace_exact text').oneLength) (not_oneLength_below start)
  · exact absurd (h.symm.oneLength (oneLength_segments parts')) (not_oneLength_below start)
  · exact .inl (congrArg below (eq_of_samePaths_below h))

end Pattern

namespace Route

variable {r s : Route} {routes : List Route}

/-- A route as it is registered: its host and its pattern are read from its text. -/
def Registered (r : Route) : Prop := r = ofText r.source r.method r.handler r.configs

/-- Routes for one host and one method that match the same paths. -/
def Equivalent (r s : Route) : Prop :=
  r.host = s.host ∧ r.method = s.method ∧ r.pattern.SamePaths s.pattern

/-- A registered route has a pattern that was read from some text. -/
theorem Registered.exists_read (h : Registered r) : ∃ pattern, r.pattern = Pattern.read pattern :=
  ⟨_, congrArg pattern h⟩

/-- Routes are told apart unless they are equivalent and have the same names for what they capture. -/
theorem key_ne_iff (hr : Registered r) (hs : Registered s) :
    r.key ≠ s.key ↔ (Equivalent r s → r.pattern.Renamed s.pattern) := by
  constructor
  · rintro hne ⟨hhost, hmethod, hpaths⟩
    obtain ⟨pattern, hp⟩ := hr.exists_read
    obtain ⟨other, ho⟩ := hs.exists_read
    rw [hp, ho] at hpaths ⊢
    refine (Pattern.eq_or_renamed_of_samePaths hpaths).resolve_left fun he => hne ?_
    rw [key, key, hhost, hmethod, hp, ho, he]
  · intro himp he
    obtain ⟨hhost, hpattern, hmethod⟩ : r.host = s.host ∧ r.pattern = s.pattern ∧ r.method = s.method := by
      simpa [key] using he
    have hequivalent : Equivalent r s := ⟨hhost, hmethod, fun path => by rw [hpattern]⟩
    exact (himp hequivalent).ne hpattern

/-- No duplicate is reported exactly if equivalent routes differ in the names of their captures. -/
theorem duplicate?_eq_none_iff_renamed (h : ∀ r ∈ routes, Registered r) :
    duplicate? routes = none ↔
      routes.Pairwise fun r s => Equivalent r s → r.pattern.Renamed s.pattern := by
  rw [duplicate?_eq_none_iff, List.Nodup, List.pairwise_map]
  exact List.Pairwise.iff_of_mem fun hr hs => key_ne_iff (h _ hr) (h _ hs)

/-- Of two equivalent routes one counts for a request if the other does. -/
theorem Equivalent.counts {host path : String} (h : Equivalent r s) (hs : Counts routes host path s) :
    Counts routes host path r := by
  have hserves : ∀ bound, s.Serves bound path → r.Serves bound path :=
    fun bound hserves => ⟨h.1.trans hserves.1, (h.2.2 path).2 hserves.2⟩
  exact hs.imp (hserves _) (And.imp_left (hserves _))

/-- In a list of different routes, what stands before a route stands in front of it wherever it is found. -/
theorem mem_of_sublist {earlier later : List Route} (hd : (earlier ++ s :: later).Nodup)
    (h : [r, s].Sublist (earlier ++ s :: later)) : r ∈ earlier := by
  induction earlier with
  | nil =>
    have hnot : s ∉ later := (List.nodup_cons.1 hd).1
    cases h with
    | cons _ h => exact absurd (h.subset (by simp)) hnot
    | cons_cons _ h => exact absurd (h.subset List.mem_cons_self) hnot
  | cons first rest ih =>
    cases h with
    | cons _ h => exact List.mem_cons_of_mem _ (ih (List.nodup_cons.1 hd).2 h)
    | cons_cons _ h => exact List.mem_cons_self

/-- An equivalent route that stands behind another is never chosen. -/
theorem lookup_ne_of_equivalent {request : Request} {captures : Captures}
    (hd : (routes.map key).Nodup) (hrs : [r, s].Sublist routes) (h : Equivalent r s) :
    Target.lookup routes request ≠ .route s captures := by
  intro hl
  obtain ⟨-, earlier, later, rfl, hcounts, hmethod, hearlier⟩ :=
    (Target.lookup_eq_route_iff routes request s captures).1 hl
  have hroutes : (earlier ++ s :: later).Nodup :=
    List.Pairwise.of_map key (fun _ _ hne he => hne (congrArg key he)) hd
  have hr : r ∈ earlier := mem_of_sublist hroutes hrs
  exact hearlier r hr (h.counts hcounts) (h.2.1.trans hmethod)

end Route

namespace Service

variable {renderer : Renderer} {interceptors : List Interceptor} {routes : List Route} {s : Service}

/-- A service is built exactly if no two of its routes are the same. -/
theorem exists_build_iff :
    (∃ s, build renderer interceptors routes = .ok s) ↔ Route.duplicate? routes = none := by
  unfold build
  split
  · rename_i r hr
    simp [hr]
  · rename_i hn
    simp [hn]

/-- A built service has the routes that it was built from. -/
theorem routes_of_build (h : build renderer interceptors routes = .ok s) : s.routes = routes := by
  unfold build at h
  split at h
  · cases h
  · rw [← Except.ok.inj h]

/-- A service is built from routes exactly if those of them which match the same paths, for one host and one
method, have different names for what they capture and differ in nothing else; and patterns that do so
match the same paths. Of equivalent routes only the first is ever chosen. So all others are dead, and those
that are built have their captures under other names. -/
theorem equivalent_routes_are_renamed (renderer : Renderer) (interceptors : List Interceptor)
    (routes : List Route) (h : ∀ r ∈ routes, Route.Registered r) :
    ((∃ s, build renderer interceptors routes = .ok s) ↔
      routes.Pairwise fun r s => Route.Equivalent r s → r.pattern.Renamed s.pattern) ∧
    (∀ p q : Pattern, p.Renamed q → p.SamePaths q) ∧
    ∀ s, build renderer interceptors routes = .ok s →
      s.routes.Pairwise fun earlier later => Route.Equivalent earlier later →
        ∀ request captures, Target.lookup s.routes request ≠ .route later captures := by
  refine ⟨?built, fun p q => Pattern.Renamed.samePaths, fun s hs => ?dead⟩
  case built => rw [exists_build_iff, Route.duplicate?_eq_none_iff_renamed h]
  case dead =>
    have hd : (s.routes.map Route.key).Nodup := Route.duplicate?_eq_none_iff.1 s.distinct
    exact List.pairwise_iff_forall_sublist.2 fun hrs he _ _ => Route.lookup_ne_of_equivalent hd hrs he

end Service

namespace Users

/-- A route for one user, and the name under which the user is captured. -/
def route (name : String) : Route :=
  .ofText ("/users/:" ++ name) .get (fun ctx => (.error .notFound, ctx)) .empty

/-- Two routes that differ in the names of their captures. -/
def routes : List Route := [route "id", route "name"]

/-- Both routes were registered. -/
theorem registered : ∀ r ∈ routes, Route.Registered r := by
  intro r hr
  rcases List.mem_pair.1 hr with rfl | rfl <;> rfl

/-- The names of the captures are all that differs. -/
theorem renamed : (route "id").pattern.Renamed (route "name").pattern := by
  have hid : (route "id").pattern = .segments [.fixed "users", .capture "id"] := by decide +kernel
  have hname : (route "name").pattern = .segments [.fixed "users", .capture "name"] := by
    decide +kernel
  rw [hid, hname]
  exact .segments (.cons (.fixed _) (.cons (.capture _ _) .nil)) (by decide)

/-- The routes have one method, one host and the same paths. -/
theorem equivalent : Route.Equivalent (route "id") (route "name") :=
  ⟨by decide +kernel, rfl, renamed.samePaths⟩

/-- The service is built, and the route with the other name is dead. -/
theorem second_is_dead : (∀ r ∈ routes, Route.Registered r) ∧
    ∃ s, Service.build render [] routes = .ok s ∧
      ∀ request captures, Target.lookup s.routes request ≠ .route (route "name") captures := by
  obtain ⟨hbuilt, -, hdead⟩ := Service.equivalent_routes_are_renamed render [] routes registered
  obtain ⟨s, hs⟩ := hbuilt.2 (List.pairwise_pair.2 fun _ => renamed)
  have hroutes : s.routes = [route "id", route "name"] := Service.routes_of_build hs
  have hpair := hdead s hs
  rw [hroutes, List.pairwise_pair, ← hroutes] at hpair
  exact ⟨registered, s, hs, hpair equivalent⟩

/-- A service is built though two of its routes are equivalent. -/
theorem built_with_equivalent : (∃ s, Service.build render [] routes = .ok s) ∧
    ¬ routes.Pairwise fun r s => ¬ Route.Equivalent r s := by
  refine ⟨Service.exists_build_iff.2 ?_, fun h => List.pairwise_pair.1 h equivalent⟩
  exact (Route.duplicate?_eq_none_iff_renamed registered).2 (List.pairwise_pair.2 fun _ => renamed)

end Users

end Palisade
