import Palisade.Proofs.Text.Leftmost
import Palisade.Security.CrossOrigin

/-!
# Requests of the own origin

Requests of the own origin pass without a look at the list of allowed origins. What counts as the own
origin is decided by the Host header: the authority of the origin must be that of the header, but for
the case of its letters. The scheme is no part of the comparison. Encryption may end at a proxy, so that
a page came with encryption and its requests arrive without; what an encrypted connection does with the
origin of a page that came without encryption is not stated here.
-/
namespace Palisade.CrossOrigin

open Palisade.Text

/-! ### Schemes and authorities -/

/-- An origin consists of a scheme and an authority, with the first mark between them. -/
structure Parts (origin scheme authority : String) : Prop where
  eq : origin.toList = scheme.toList ++ (schemeMark ++ authority.toList)
  first : Leftmost schemeMark.isPrefixOf scheme.toList (schemeMark ++ authority.toList)

/-- An origin is cut at its first mark. -/
theorem parts_iff {origin scheme authority : String} :
    Parts origin scheme authority ↔
      cutPattern schemeMark origin.toList = some (scheme.toList, authority.toList) := by
  rw [cutPattern_eq_some_iff (by decide)]
  exact ⟨fun h => ⟨h.eq, h.first⟩, fun h => ⟨h.1, h.2⟩⟩

/-- A scheme without a colon is the scheme of an origin that begins with it. -/
theorem parts_append {scheme : String} (hs : ':' ∉ scheme.toList) (authority : String) :
    Parts (scheme ++ "://" ++ authority) scheme authority := by
  have hmark : schemeMark = ':' :: "//".toList := by decide
  rw [parts_iff, String.toList_append, String.toList_append, List.append_assoc, hmark]
  exact cutPattern_append hs _ _

/-- The authority of an origin is that of a Host header that names one. -/
def NamesHost (origin host : String) : Prop :=
  host ≠ "" ∧ ∃ scheme authority, Parts origin scheme authority ∧ alike authority host = true

/-- The check of the own origin compares the authority with the host. -/
theorem isSameOrigin_iff {origin host : String} :
    isSameOrigin origin host = true ↔ NamesHost origin host := by
  have hempty : (!host.toList.isEmpty) = true ↔ host ≠ "" := by simp
  unfold isSameOrigin NamesHost
  rw [Bool.and_eq_true, hempty]
  refine and_congr_right fun _ => ?_
  constructor
  · intro h
    split at h
    · rename_i scheme authority hc
      refine ⟨String.ofList scheme, String.ofList authority, parts_iff.2 ?_, h⟩
      rw [hc, String.toList_ofList, String.toList_ofList]
    · cases h
  · rintro ⟨scheme, authority, hp, ha⟩
    rw [parts_iff.1 hp]
    simpa using ha

/-- The own origin of a request, as the connection and the Host header have it. -/
def IsOwn (origin : String) (r : Request) : Prop :=
  ∃ authority, origin = (if r.tls then "https" else "http") ++ "://" ++ authority ∧
    alike authority r.host = true

/-- The own origin has the authority of the Host header. -/
theorem IsOwn.namesHost {origin : String} {r : Request} (h : IsOwn origin r) (hh : r.host ≠ "") :
    NamesHost origin r.host := by
  obtain ⟨authority, rfl, ha⟩ := h
  refine ⟨hh, _, authority, parts_append ?_ authority, ha⟩
  cases r.tls <;> decide

/-! ### The interceptor -/

section

variable (c : CrossOrigin) (configs : Configs) {ctx : Context} {origin : String}

/-- A request of the own origin is passed on as it is. -/
theorem before_of_own (h : ctx.request.headers.get? "origin" = some origin)
    (hs : isSameOrigin origin ctx.request.host = true) :
    c.interceptor.before configs ctx = (.pass, ctx) := by
  simp only [interceptor, h, hs, if_true]

/-- A request of another origin is answered as such. -/
theorem before_of_foreign (h : ctx.request.headers.get? "origin" = some origin)
    (hs : isSameOrigin origin ctx.request.host = false) :
    c.interceptor.before configs ctx = c.foreign origin ctx := by
  simp only [interceptor, h, hs, Bool.false_eq_true, if_false]

/-- An origin that is not listed is refused. -/
theorem foreign_of_unlisted (h : origin ∉ c.origins) (ctx : Context) :
    c.foreign origin ctx = Refusal.answer ⟨.forbidden, .warn, "CORS request from disallowed origin",
      [("origin", origin)]⟩ ctx := by
  simp [foreign, h]

/-- What passes is of a listed origin or names the host. -/
theorem listed_or_namesHost {after : Context} (h : ctx.request.headers.get? "origin" = some origin)
    (hp : c.interceptor.before configs ctx = (.pass, after)) :
    origin ∈ c.origins ∨ NamesHost origin ctx.request.host := by
  cases hs : isSameOrigin origin ctx.request.host with
  | true => exact .inr (isSameOrigin_iff.1 hs)
  | false =>
    refine .inl (by_contra fun hn => ?_)
    rw [before_of_foreign c configs h hs, foreign_of_unlisted c hn] at hp
    cases hp

end

/-- The interceptor passes the request on whichever origins are listed. -/
def PassesUnlisted (c : CrossOrigin) (configs : Configs) (ctx : Context) : Prop :=
  ∀ origins, ∃ after, ({ c with origins } : CrossOrigin).interceptor.before configs ctx = (.pass, after)

/-- A request that passes without a look at the list has an origin with the authority of its Host header,
which is not empty; so no other origin passes unless it is listed. For origins of the web there is no
other condition, unless the connection is encrypted and the origin is not: those with this authority
pass, and nothing is changed for them. -/
theorem unlisted_passes_by_authority (c : CrossOrigin) (configs : Configs) (ctx : Context)
    {origin : String} (h : ctx.request.headers.get? "origin" = some origin) :
    (c.PassesUnlisted configs ctx → NamesHost origin ctx.request.host) ∧
    (∀ after, c.interceptor.before configs ctx = (.pass, after) →
      origin ∈ c.origins ∨ NamesHost origin ctx.request.host) ∧
    ∀ scheme authority, Parts origin scheme authority →
      (scheme = "https" ∨ scheme = "http" ∧ ctx.request.tls = false) →
      ctx.request.host ≠ "" → alike authority ctx.request.host = true →
      ∀ origins, ({ c with origins } : CrossOrigin).interceptor.before configs ctx = (.pass, ctx) := by
  refine ⟨fun hu => ?_, fun after => c.listed_or_namesHost configs h, ?_⟩
  · obtain ⟨after, hp⟩ := hu []
    exact (listed_or_namesHost _ configs h hp).resolve_left List.not_mem_nil
  · intro scheme authority hparts _ hh ha origins
    exact before_of_own _ configs h (isSameOrigin_iff.2 ⟨hh, scheme, authority, hparts, ha⟩)

/-! A page that a proxy serves with encryption, while its requests arrive without. -/

namespace Proxied

/-- A gate that lists another origin. -/
def crossOrigin : CrossOrigin :=
  ⟨["https://app.example.com"], [.get, .head, .post], [markHeader], [], false, 5⟩

/-- Headers with an origin that names the host, with encryption. -/
def headers : Headers := ⟨[⟨"Host", "api.example.com"⟩, ⟨"Origin", "https://api.example.com"⟩]⟩

/-- The request, which came without encryption. -/
def request : Request := ⟨.post, "/api", none, 1, headers, [], false⟩

/-- The request when it has been received. -/
def ctx : Context := .ofRequest request .empty ⟨0, fun _ => 0, 0, []⟩

/-- The request names its origin. -/
theorem get?_origin : request.headers.get? "origin" = some "https://api.example.com" := by decide

/-- The request passes without a look at the list. -/
theorem passes_without_list :
    crossOrigin.interceptor.before .empty ctx = (.pass, ctx) ∧
      NamesHost "https://api.example.com" request.host := by
  have hparts : Parts "https://api.example.com" "https" "api.example.com" :=
    parts_iff.2 (by decide)
  obtain ⟨hnames, -, hpass⟩ := unlisted_passes_by_authority crossOrigin .empty ctx get?_origin
  have hall := hpass "https" "api.example.com" hparts (.inl rfl) (by decide) (by decide)
  exact ⟨hall crossOrigin.origins, hnames fun origins => ⟨ctx, hall origins⟩⟩

/-- Its origin is not the one that the connection would tell. -/
theorem passes_with_other_scheme :
    request.headers.get? "origin" = some "https://api.example.com" ∧
      crossOrigin.PassesUnlisted .empty ctx ∧ ¬ IsOwn "https://api.example.com" request := by
  refine ⟨get?_origin, fun origins => ⟨ctx, ?_⟩, ?_⟩
  · exact before_of_own _ .empty get?_origin (by decide)
  · rintro ⟨authority, he, -⟩
    have hl := congrArg (fun s : String => s.toList[4]?) he
    simp [request] at hl

end Proxied

end Palisade.CrossOrigin
