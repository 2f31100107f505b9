import Palisade.Routing.Route

/-!
# Where requests go

Which route a request is given is settled by its host, its path and its method, in this order. The main
statement characterizes each outcome by what is registered, with no reference to the order in which the
search goes about it, and says which routes have no part in it.
-/
namespace Palisade

open Palisade.Text

namespace Host

/-- A Host header names a host: in small letters, and without its last colon and the digits behind it, of
which there may be none. What is behind the last colon belongs to the host if it is not digits alone. -/
inductive Names (header : String) : String → Prop where
  | port {name digits : List Char} (h : header.toList = name ++ ':' :: digits)
      (hd : ∀ c ∈ digits, c.isDigit = true) : Names header (lower (String.ofList name))
  | noPort (h : ∀ name digits : List Char, header.toList = name ++ ':' :: digits →
      ∃ c ∈ digits, c.isDigit = false) : Names header (lower header)

variable {header host : String}

/-- A colon and digits at the end are a port, and dropped. -/
theorem withoutPort_append {name digits : List Char} (hd : ∀ c ∈ digits, c.isDigit = true) :
    withoutPort (name ++ ':' :: digits) = name := by
  have hm : ':' ∉ digits := fun hm => absurd (hd _ hm) (by decide)
  rw [withoutPort, cutAtLast_append name hm]
  exact if_pos (List.all_eq_true.2 hd)

/-- Nothing is dropped where no colon with digits ends the text. -/
theorem withoutPort_of_not_digits {s : List Char} (h : ∀ name digits : List Char,
    s = name ++ ':' :: digits → ∃ c ∈ digits, c.isDigit = false) : withoutPort s = s := by
  rw [withoutPort]
  cases hc : cutAtLast ':' s with
  | none => rfl
  | some p =>
    obtain ⟨name, digits⟩ := p
    obtain ⟨c, hm, hn⟩ := h name digits (cutAtLast_eq_some hc).1
    refine if_neg fun ha => ?_
    rw [List.all_eq_true.1 ha c hm] at hn
    cases hn

/-- The normal form of a header is a host that it names. -/
theorem names_normalize (header : String) : Names header (normalize header) := by
  by_cases h : ∃ name digits : List Char,
      header.toList = name ++ ':' :: digits ∧ ∀ c ∈ digits, c.isDigit = true
  · obtain ⟨name, digits, hs, hd⟩ := h
    rw [normalize, hs, withoutPort_append hd]
    exact .port hs hd
  · have hnot : ∀ name digits : List Char, header.toList = name ++ ':' :: digits →
        ∃ c ∈ digits, c.isDigit = false := by
      intro name digits hs
      refine Classical.byContradiction fun hn => h ⟨name, digits, hs, fun c hm => ?_⟩
      exact Bool.of_not_eq_false fun hf => hn ⟨c, hm, hf⟩
    rw [normalize, withoutPort_of_not_digits hnot, String.ofList_toList]
    exact .noPort hnot

/-- A Host header names one host. -/
theorem names_iff : Names header host ↔ host = normalize header := by
  constructor
  · intro h
    cases h with
    | port hs hd => rw [normalize, hs, withoutPort_append hd]
    | noPort hnot => rw [normalize, withoutPort_of_not_digits hnot, String.ofList_toList]
  · rintro rfl
    exact names_normalize header

end Host

namespace Route

variable {r : Route} {routes : List Route} {host path : String} {method : Method}

/-- A route is bound to a host, or to none, and its pattern matches a path. -/
def Serves (r : Route) (bound : Option String) (path : String) : Prop :=
  r.host = bound ∧ ∃ captures, r.pattern.matches? path = some captures

/-- A route counts for a host and a path: it is bound to the host and matches the path; or it is bound to
none and matches the path, and no route does that is bound to the host. -/
def Counts (routes : List Route) (host path : String) (r : Route) : Prop :=
  r.Serves (some host) path ∨
    r.Serves none path ∧ ∀ other ∈ routes, ¬ other.Serves (some host) path

/-- Where a route of the host matches, only routes of the host count. -/
theorem counts_iff_of_serves (hs : ∃ r ∈ routes, r.Serves (some host) path) :
    Counts routes host path r ↔ r.Serves (some host) path := by
  obtain ⟨other, hm, ho⟩ := hs
  exact ⟨fun hc => hc.elim id fun hn => absurd ho (hn.2 other hm), .inl⟩

/-- Where no route of the host matches, the routes without a host count. -/
theorem counts_iff_of_not_serves (hs : ∀ r ∈ routes, ¬ r.Serves (some host) path)
    (hr : r ∈ routes) : Counts routes host path r ↔ r.Serves none path :=
  ⟨fun hc => hc.elim (fun h => absurd h (hs r hr)) And.left, fun h => .inr ⟨h, hs⟩⟩

/-- The first route for a method among those that count for a host and a path. -/
def IsFirst (counts : Route → Prop) (method : Method) (routes : List Route) (r : Route) : Prop :=
  ∃ earlier later, routes = earlier ++ r :: later ∧ counts r ∧ r.method = method ∧
    ∀ other ∈ earlier, counts other → other.method ≠ method

/-- Among no routes there is no first. -/
theorem not_isFirst_nil (counts : Route → Prop) (method : Method) (r : Route) :
    ¬ IsFirst counts method [] r := by
  rintro ⟨earlier, later, h, -⟩
  simp at h

/-- A route that counts and has the method is the first if it stands in front. -/
theorem isFirst_cons_of_first {counts : Route → Prop} (hc : counts r) (hm : r.method = method)
    (routes : List Route) (s : Route) : IsFirst counts method (r :: routes) s ↔ s = r := by
  constructor
  · rintro ⟨earlier, later, h, -, -, hearlier⟩
    cases earlier with
    | nil => exact (List.cons.inj h).1.symm
    | cons other earlier =>
      obtain rfl := (List.cons.inj h).1
      exact absurd hm (hearlier r List.mem_cons_self hc)
  · rintro rfl
    exact ⟨[], routes, rfl, hc, hm, by simp⟩

/-- A route in front that does not count, or has another method, changes nothing. -/
theorem isFirst_cons_of_not_first {counts : Route → Prop} (h : counts r → r.method ≠ method)
    (routes : List Route) (s : Route) :
    IsFirst counts method (r :: routes) s ↔ IsFirst counts method routes s := by
  constructor
  · rintro ⟨earlier, later, he, hc, hm, hearlier⟩
    cases earlier with
    | nil =>
      obtain rfl := (List.cons.inj he).1
      exact absurd hm (h hc)
    | cons other earlier =>
      exact ⟨earlier, later, (List.cons.inj he).2, hc, hm, fun o ho =>
        hearlier o (List.mem_cons_of_mem _ ho)⟩
  · rintro ⟨earlier, later, rfl, hc, hm, hearlier⟩
    refine ⟨r :: earlier, later, rfl, hc, hm, fun o ho => ?_⟩
    rcases List.mem_cons.1 ho with rfl | ho
    · exact h
    · exact hearlier o ho

/-- Which route is the first depends on what counts among the routes alone. -/
theorem isFirst_congr {counts counts' : Route → Prop}
    (h : ∀ r ∈ routes, counts r ↔ counts' r) :
    IsFirst counts method routes r ↔ IsFirst counts' method routes r := by
  refine exists_congr fun earlier => exists_congr fun later => and_congr_right fun hs => ?_
  subst hs
  have hr := h r (by simp)
  have hother : ∀ other ∈ earlier, counts other ↔ counts' other :=
    fun other hm => h other (List.mem_append_left _ hm)
  rw [hr]
  refine and_congr_right' (and_congr_right' (forall₂_congr fun other hm => ?_))
  rw [hother other hm]

end Route

namespace Target

variable {r : Route} {routes others : List Route} {bound : Option String} {path : String}
  {request : Request} {method : Method} {captures : Captures}

/-! ### Routes that are bound alike -/

/-- A route of the host that matches is a candidate. -/
theorem candidates_cons_of_serves (hb : r.host = bound)
    (hp : r.pattern.matches? path = some captures) :
    candidates (r :: routes) bound path = (r, captures) :: candidates routes bound path := by
  simp [candidates, hb, hp]

/-- Another route is not. -/
theorem candidates_cons_of_not_serves (h : ¬ r.Serves bound path) :
    candidates (r :: routes) bound path = candidates routes bound path := by
  by_cases hb : r.host = bound
  · have hp : r.pattern.matches? path = none :=
      Option.eq_none_iff_forall_ne_some.2 fun captures hc => h ⟨hb, captures, hc⟩
    simp [candidates, hb, hp]
  · simp [candidates, hb]

/-- There are no candidates exactly if no route of the host matches. -/
theorem isEmpty_candidates :
    (candidates routes bound path).isEmpty = true ↔ ∀ r ∈ routes, ¬ r.Serves bound path := by
  induction routes with
  | nil => simp [candidates]
  | cons r rest ih =>
    by_cases h : r.Serves bound path
    · obtain ⟨hb, captures, hp⟩ := h
      simp [candidates_cons_of_serves hb hp, Route.Serves, hb, hp]
    · simp [candidates_cons_of_not_serves h, ih, h]

/-- With one route that matches there are candidates. -/
theorem isEmpty_candidates_of_exists (h : ∃ r ∈ routes, r.Serves bound path) :
    (candidates routes bound path).isEmpty = false := by
  obtain ⟨r, hm, hr⟩ := h
  exact Bool.of_not_eq_true fun he => isEmpty_candidates.1 he r hm hr

/-- Among candidates one is chosen, or the method is refused; none of this is a missing path. -/
theorem choose_ne_notFound (found : List (Route × Captures)) :
    choose found method ≠ .notFound := by
  rw [choose]
  split <;> simp

/-- The choice goes through the candidates in their order. -/
theorem choose_cons (r : Route) (captures : Captures) (found : List (Route × Captures))
    (method : Method) :
    choose ((r, captures) :: found) method =
      if r.method = method then .route r captures else choose found method := by
  by_cases h : r.method = method <;> simp [choose, h]

/-- Among the routes that are bound alike, the first for the method is chosen. -/
theorem choose_candidates_eq_route_iff :
    choose (candidates routes bound path) method = .route r captures ↔
      r.pattern.matches? path = some captures ∧
        Route.IsFirst (·.Serves bound path) method routes r := by
  induction routes with
  | nil => simp [candidates, choose, Route.not_isFirst_nil]
  | cons s rest ih =>
    by_cases hs : s.Serves bound path
    · obtain ⟨hb, found, hp⟩ := hs
      rw [candidates_cons_of_serves hb hp, choose_cons]
      by_cases hm : s.method = method
      · rw [if_pos hm, Route.isFirst_cons_of_first ⟨hb, found, hp⟩ hm]
        constructor
        · intro h
          cases h
          exact ⟨hp, rfl⟩
        · rintro ⟨hc, rfl⟩
          rw [Option.some.inj (hp.symm.trans hc)]
      · rw [if_neg hm, Route.isFirst_cons_of_not_first fun _ => hm, ih]
    · rw [candidates_cons_of_not_serves hs, ih,
        Route.isFirst_cons_of_not_first fun h => absurd h hs]

/-- The method is not allowed if no route that is bound alike is for it. -/
theorem choose_candidates_eq_methodNotAllowed_iff :
    choose (candidates routes bound path) method = .methodNotAllowed ↔
      ∀ r ∈ routes, r.Serves bound path → r.method ≠ method := by
  induction routes with
  | nil => simp [candidates, choose]
  | cons s rest ih =>
    rw [List.forall_mem_cons]
    by_cases hs : s.Serves bound path
    · obtain ⟨hb, found, hp⟩ := hs
      rw [candidates_cons_of_serves hb hp, choose_cons]
      by_cases hm : s.method = method
      · simp [hm, Route.Serves, hb, hp]
      · simp [hm, ih]
    · simp [candidates_cons_of_not_serves hs, ih, hs]

/-! ### The host and the rest -/

/-- Where the host has routes for the path, one of them is chosen. -/
theorem lookup_of_serves
    (hs : ∃ r ∈ routes, r.Serves (some (Host.normalize request.host)) request.path) :
    lookup routes request =
      choose (candidates routes (some (Host.normalize request.host)) request.path)
        request.method := by
  simp [lookup, isEmpty_candidates_of_exists hs]

/-- Where the host has no routes for the path, one that is bound to none is chosen. -/
theorem lookup_of_not_serves
    (hs : ∀ r ∈ routes, ¬ r.Serves (some (Host.normalize request.host)) request.path)
    (hn : ∃ r ∈ routes, r.Serves none request.path) :
    lookup routes request = choose (candidates routes none request.path) request.method := by
  simp [lookup, isEmpty_candidates.2 hs, isEmpty_candidates_of_exists hn]

/-- Nothing is found if no route matches, neither of the host nor of none. -/
theorem lookup_eq_notFound
    (hs : ∀ r ∈ routes, ¬ r.Serves (some (Host.normalize request.host)) request.path)
    (hn : ∀ r ∈ routes, ¬ r.Serves none request.path) : lookup routes request = .notFound := by
  simp [lookup, isEmpty_candidates.2 hs, isEmpty_candidates.2 hn]

/-- What counts is bound alike: to the host or to none. Only if nothing counts is nothing found. -/
theorem lookup_cases (routes : List Route) (request : Request) :
    let counts := Route.Counts routes (Host.normalize request.host) request.path
    (∃ bound, (∃ r ∈ routes, r.Serves bound request.path) ∧
      (∀ r ∈ routes, counts r ↔ r.Serves bound request.path) ∧
      lookup routes request = choose (candidates routes bound request.path) request.method) ∨
    (∀ r ∈ routes, ¬ counts r) ∧ lookup routes request = .notFound := by
  intro counts
  by_cases hs : ∃ r ∈ routes, r.Serves (some (Host.normalize request.host)) request.path
  · exact .inl ⟨_, hs, fun r _ => Route.counts_iff_of_serves hs, lookup_of_serves hs⟩
  · have hnot : ∀ r ∈ routes, ¬ r.Serves (some (Host.normalize request.host)) request.path :=
      fun r hm hr => hs ⟨r, hm, hr⟩
    have hcounts : ∀ r ∈ routes, counts r ↔ r.Serves none request.path :=
      fun r hm => Route.counts_iff_of_not_serves hnot hm
    by_cases hn : ∃ r ∈ routes, r.Serves none request.path
    · exact .inl ⟨none, hn, hcounts, lookup_of_not_serves hnot hn⟩
    · have hnone : ∀ r ∈ routes, ¬ r.Serves none request.path := fun r hm hr => hn ⟨r, hm, hr⟩
      exact .inr ⟨fun r hm hc => hnone r hm ((hcounts r hm).1 hc), lookup_eq_notFound hnot hnone⟩

section

variable (routes : List Route) (request : Request)

/-- Nothing is found exactly if no route counts for the request. -/
theorem lookup_eq_notFound_iff : lookup routes request = .notFound ↔
    ∀ r ∈ routes, ¬ Route.Counts routes (Host.normalize request.host) request.path r := by
  rcases lookup_cases routes request with ⟨bound, ⟨r, hm, hr⟩, hcounts, hl⟩ | ⟨hnone, hl⟩
  · rw [hl]
    exact ⟨fun h => absurd h (choose_ne_notFound _), fun h => absurd ((hcounts r hm).2 hr) (h r hm)⟩
  · exact ⟨fun _ => hnone, fun _ => hl⟩

/-- A route is found exactly if it is the first that counts and has the method, and its captures are
those of its own match. -/
theorem lookup_eq_route_iff (r : Route) (captures : Captures) :
    lookup routes request = .route r captures ↔
      r.pattern.matches? request.path = some captures ∧
        Route.IsFirst (Route.Counts routes (Host.normalize request.host) request.path)
          request.method routes r := by
  rcases lookup_cases routes request with ⟨bound, -, hcounts, hl⟩ | ⟨hnone, hl⟩
  · rw [hl, choose_candidates_eq_route_iff, Route.isFirst_congr hcounts]
  · rw [hl]
    refine ⟨nofun, ?_⟩
    rintro ⟨-, earlier, later, rfl, hc, -⟩
    exact absurd hc (hnone r (by simp))

/-- The method is refused exactly if some route counts for the request, but none with the method. -/
theorem lookup_eq_methodNotAllowed_iff : lookup routes request = .methodNotAllowed ↔
    (∃ r ∈ routes, Route.Counts routes (Host.normalize request.host) request.path r) ∧
      ∀ r ∈ routes, Route.Counts routes (Host.normalize request.host) request.path r →
        r.method ≠ request.method := by
  rcases lookup_cases routes request with ⟨bound, ⟨s, hs, hserves⟩, hcounts, hl⟩ | ⟨hnone, hl⟩
  · rw [hl, choose_candidates_eq_methodNotAllowed_iff]
    constructor
    · intro h
      exact ⟨⟨s, hs, (hcounts s hs).2 hserves⟩, fun r hm hc => h r hm ((hcounts r hm).1 hc)⟩
    · rintro ⟨-, h⟩ r hm hr
      exact h r hm ((hcounts r hm).2 hr)
  · rw [hl]
    refine ⟨nofun, ?_⟩
    rintro ⟨⟨r, hm, hc⟩, -⟩
    exact absurd hc (hnone r hm)

end

/-- Routes that are bound otherwise have no part in the search among those bound alike. -/
theorem candidates_congr
    (h : others.filter (·.host == bound) = routes.filter (·.host == bound)) (path : String) :
    candidates others bound path = candidates routes bound path := by
  rw [candidates, h, candidates]

/-- Two tables send a request to the same target if they have the same routes of its host in the same
order, and the same routes that are bound to none; these may even differ if a route of the host matches
the path. -/
theorem lookup_congr
    (hhost : others.filter (·.host == some (Host.normalize request.host)) =
      routes.filter (·.host == some (Host.normalize request.host)))
    (hnone : (∃ r ∈ routes, r.Serves (some (Host.normalize request.host)) request.path) ∨
      others.filter (·.host == none) = routes.filter (·.host == none)) :
    lookup others request = lookup routes request := by
  have hcandidates := candidates_congr hhost request.path
  rcases hnone with hs | hnone
  · simp [lookup, hcandidates, isEmpty_candidates_of_exists hs]
  · rw [lookup, hcandidates, candidates_congr hnone, ← lookup]

/-- Where a request goes, for every table of routes. Nothing is found exactly if no route counts for the
host that the Host header names and for the path. Otherwise the first of those that count which is for
the method is taken, with what its pattern captures, and the method is not allowed if none of them is.
So routes of other hosts, and how they are mixed with the rest, make no difference; and where a route of
the host matches the path, neither do those that are bound to none. -/
theorem lookup_first_counting (routes : List Route) (request : Request) :
    let host := Host.normalize request.host
    let counts := Route.Counts routes host request.path
    (∀ other, Host.Names request.host other ↔ other = host) ∧
    (lookup routes request = .notFound ↔ ∀ r ∈ routes, ¬ counts r) ∧
    (∀ r captures, lookup routes request = .route r captures ↔
      r.pattern.matches? request.path = some captures ∧
        Route.IsFirst counts request.method routes r) ∧
    (lookup routes request = .methodNotAllowed ↔
      (∃ r ∈ routes, counts r) ∧ ∀ r ∈ routes, counts r → r.method ≠ request.method) ∧
    ∀ others : List Route,
      others.filter (·.host == some host) = routes.filter (·.host == some host) →
      (∃ r ∈ routes, r.Serves (some host) request.path) ∨
        others.filter (·.host == none) = routes.filter (·.host == none) →
      lookup others request = lookup routes request :=
  ⟨fun _ => Host.names_iff, lookup_eq_notFound_iff routes request,
    lookup_eq_route_iff routes request, lookup_eq_methodNotAllowed_iff routes request,
    fun _ => lookup_congr⟩

end Target

end Palisade
