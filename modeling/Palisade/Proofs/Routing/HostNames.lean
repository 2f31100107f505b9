import Palisade.Proofs.Routing.Lookup

/-!
# Routes of the host that is asked for

A route may be written for a host, and a request names one in its Host header. The two are read differently:
what stands before the path of a route is taken as it is, in small letters, and from the header a port is
taken away. So a request that names the very host of a route comes to it unless the host was written with a
port, or with an end that looks like one. Which of several routes the request is given is not said here.
-/
namespace Palisade

open Palisade.Text

/-- Digits are neither made of letters nor made to be letters. -/
theorem Text.isDigit_toLower (c : Char) : c.toLower.isDigit = c.isDigit := by
  rw [Bool.eq_iff_iff]
  constructor
  · intro h
    have hlow : c.toLower.toNat < 97 := Nat.lt_of_le_of_lt (Char.isDigit_iff_toNat.1 h).2 (by decide)
    rwa [← eq_of_toLower_eq rfl hlow] at h
  · intro h
    have hc : c.toLower = c := by
      have hle : c.toNat ≤ '9'.toNat := (Char.isDigit_iff_toNat.1 h).2
      refine dif_neg fun hu => ?_
      have hge : 'A'.toNat ≤ c.toNat := hu.1
      exact absurd (Nat.le_trans hge hle) (by decide)
    rwa [hc]

namespace Host

/-- A host is written with a port: it ends in a colon and digits, of which there may be none. -/
def HasPort (host : List Char) : Prop :=
  ∃ name digits, host = name ++ ':' :: digits ∧ ∀ c ∈ digits, c.isDigit = true

variable {host : List Char}

/-- The case of letters has nothing to do with a port. -/
theorem hasPort_map_toLower : HasPort (host.map Char.toLower) ↔ HasPort host := by
  constructor
  · rintro ⟨name, digits, he, hd⟩
    obtain ⟨name', rest, rfl, rfl, hrest⟩ := List.map_eq_append_iff.1 he
    obtain ⟨c, digits', rfl, hc, rfl⟩ := List.map_eq_cons_iff.1 hrest
    obtain rfl := eq_of_toLower_eq hc (by decide)
    refine ⟨name', digits', rfl, fun d hm => ?_⟩
    rw [← isDigit_toLower]
    exact hd _ (List.mem_map_of_mem hm)
  · rintro ⟨name, digits, rfl, hd⟩
    refine ⟨name.map Char.toLower, digits.map Char.toLower, by simp, fun d hm => ?_⟩
    obtain ⟨c, hc, rfl⟩ := List.mem_map.1 hm
    rw [isDigit_toLower]
    exact hd c hc

/-- Only from a host with a port is something taken away. -/
theorem withoutPort_eq_iff : withoutPort host = host ↔ ¬ HasPort host := by
  constructor
  · rintro h ⟨name, digits, rfl, hd⟩
    rw [withoutPort_append hd] at h
    simpa using congrArg List.length h
  · intro h
    refine withoutPort_of_not_digits fun name digits hs => ?_
    refine Classical.byContradiction fun hn => h ⟨name, digits, hs, fun c hm => ?_⟩
    exact Bool.of_not_eq_false fun hf => hn ⟨c, hm, hf⟩

/-- Read from a header, a host stays as it is written exactly if it is written without a port. -/
theorem normalize_eq_lower_iff (header : String) :
    normalize header = lower header ↔ ¬ HasPort header.toList := by
  constructor
  · rintro h ⟨name, digits, hs, hd⟩
    rw [normalize, hs, withoutPort_append hd] at h
    have hlength := congrArg (·.toList.length) h
    simp [toList_lower, hs] at hlength
  · intro h
    rw [normalize, withoutPort_eq_iff.2 h, String.ofList_toList]

/-- Hosts that are alike but for case both have a port or both have none. -/
theorem hasPort_iff_of_alike {header other : String} (h : alike header other = true) :
    HasPort header.toList ↔ HasPort other.toList := by
  have hlower := congrArg String.toList ((alike_iff _ _).1 h)
  rw [toList_lower, toList_lower] at hlower
  rw [← hasPort_map_toLower, hlower, hasPort_map_toLower]

/-- What stands before the first slash of a route is its host. -/
theorem split_append {host : String} (hne : host ≠ "") (hslash : '/' ∉ host.toList) (path : String) :
    split (host ++ "/" ++ path) = (some (lower host), "/" ++ path) := by
  have hcut : cutAt '/' (host ++ "/" ++ path).toList = some (host.toList, path.toList) := by
    rw [String.toList_append, String.toList_append, List.append_assoc]
    exact cutAt_append hslash path.toList
  have hpath : String.ofList ('/' :: path.toList) = "/" ++ path := by
    rw [← String.toList_inj, String.toList_ofList, String.toList_append]
    rfl
  obtain ⟨c, rest, hc⟩ := List.exists_cons_of_ne_nil (mt String.toList_eq_nil_iff.1 hne)
  rw [hc] at hcut
  simp only [split, hcut]
  rw [← hc, String.ofList_toList, hpath]

end Host

namespace Target

/-- The candidates are the routes of a host that match the path, with what they capture. -/
theorem mem_candidates_iff {r : Route} {captures : Captures} {routes : List Route}
    {bound : Option String} {path : String} :
    (r, captures) ∈ candidates routes bound path ↔
      r ∈ routes ∧ r.host = bound ∧ r.pattern.matches? path = some captures := by
  simp only [candidates, List.mem_filterMap, List.mem_filter, beq_iff_eq, Option.map_eq_some_iff,
    Prod.mk.injEq]
  constructor
  · rintro ⟨s, ⟨hm, hb⟩, c, hc, rfl, rfl⟩
    exact ⟨hm, hb, hc⟩
  · rintro ⟨hm, hb, hc⟩
    exact ⟨r, ⟨hm, hb⟩, captures, hc, rfl, rfl⟩

end Target

namespace Route

/-- A route that is read from a text has the host and the path that the text is cut into. -/
theorem ofText_of_split {source : String} {host : Option String} {path : String}
    (h : Host.split source = (host, path)) (method : Method) (handler : Handler) (configs : Configs) :
    (ofText source method handler configs).host = host ∧
      (ofText source method handler configs).pattern = Pattern.read path := by
  simp only [ofText, h, and_self]

/-- A route that is written for a host is bound to it in small letters. Let a request name this very host,
in letters of either size. The host that is read from its header is the one of the route exactly if the
host is not written with a port; and then the route is among those of the host which are looked at for the
path exactly if its pattern matches, and otherwise it never is. -/
theorem looked_at_iff_without_port {host : String} (hne : host ≠ "") (hslash : '/' ∉ host.toList)
    (path : String) (method : Method) (handler : Handler) (configs : Configs) :
    let r := ofText (host ++ "/" ++ path) method handler configs
    (r.host = some (lower host) ∧ r.pattern = Pattern.read ("/" ++ path)) ∧
    ∀ request : Request, alike request.host host = true →
      (r.host = some (Host.normalize request.host) ↔ ¬ Host.HasPort host.toList) ∧
      ∀ routes captures, r ∈ routes →
        ((r, captures) ∈
            Target.candidates routes (some (Host.normalize request.host)) request.path ↔
          ¬ Host.HasPort host.toList ∧ r.pattern.matches? request.path = some captures) := by
  intro r
  have hsplit := ofText_of_split (Host.split_append hne hslash path) method handler configs
  have hhost : r.host = some (lower host) := hsplit.1
  refine ⟨hsplit, fun request ha => ?_⟩
  have hsame : r.host = some (Host.normalize request.host) ↔ ¬ Host.HasPort host.toList := by
    rw [hhost, Option.some_inj, ← (alike_iff _ _).1 ha, eq_comm, Host.normalize_eq_lower_iff,
      Host.hasPort_iff_of_alike ha]
  refine ⟨hsame, fun routes captures hm => ?_⟩
  rw [Target.mem_candidates_iff, hsame, and_iff_right hm]

end Route

namespace Addressed

/-- A request for a path at a host. -/
def request (host path : String) : Request := ⟨.get, path, none, 1, ⟨[⟨"Host", host⟩]⟩, [], false⟩

/-- A handler that answers with an error. -/
def handler : Handler := fun ctx => (.error .notFound, ctx)

/-- Letters of either size name the host, and the route is looked at. -/
theorem looked_at : "Example.com" ≠ "" ∧ '/' ∉ "Example.com".toList ∧
    let r := Route.ofText "Example.com/a/:id" .get handler .empty
    (r, ⟨[("id", "1")]⟩) ∈
      Target.candidates [r] (some (Host.normalize (request "EXAMPLE.com" "/a/1").host)) "/a/1" := by
  have hne : "Example.com" ≠ "" := by decide
  have hslash : '/' ∉ "Example.com".toList := by decide
  have hport : ¬ Host.HasPort "Example.com".toList := by
    rw [← Host.withoutPort_eq_iff]
    decide
  have hroute := Route.looked_at_iff_without_port hne hslash "a/:id" .get handler .empty
  obtain ⟨-, hcandidate⟩ := hroute.2 (request "EXAMPLE.com" "/a/1") (by decide +kernel)
  exact ⟨hne, hslash, (hcandidate _ _ List.mem_cons_self).2 ⟨hport, by decide +kernel⟩⟩

/-- A host that is written with a port is another host than the one that requests to it name. -/
theorem not_looked_at :
    let r := Route.ofText "example.com:8080/a" .get handler .empty
    r.host = some "example.com:8080" ∧ (∃ captures, r.pattern.matches? "/a" = some captures) ∧
      r.host ≠ some (Host.normalize (request "example.com:8080" "/a").host) ∧
      Target.candidates [r] (some (Host.normalize (request "example.com:8080" "/a").host)) "/a" = [] :=
  ⟨by decide +kernel, ⟨.empty, by decide +kernel⟩, by decide +kernel, by decide +kernel⟩

end Addressed

end Palisade
