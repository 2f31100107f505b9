import Palisade.Proofs.Http.SentBack
import Palisade.Proofs.Security.Admission
import Palisade.Proofs.Token.Message

/-!
# Forms that are filled and come back

Whoever gets a page with a form gets a cookie and a token with it. The main statement says that they are
let in with the form: the token survives the form and the cookie survives the client, whatever the key,
the host and the random bytes are, as long as the clocks agree by a minute and the form is sent within a
day.
-/
namespace Palisade

open Palisade.Text

/-! ### Characters of tokens -/

/-- A mark that is not in the alphabet is in no encoding. -/
theorem Base64.not_mem_encode {a : Alphabet} {mark : Char} (h : ∀ n : Fin 64, a.char n ≠ mark)
    (s : Bytes) : mark ∉ encode a s := by
  intro hm
  obtain ⟨n, hn, he⟩ := exists_of_mem_encode hm
  exact h ⟨n, hn⟩ he.symm

namespace Token

/-- A mark that is no letter of the alphabet of names, no colon and no digit is in no token. -/
theorem not_mem_issue {mark : Char} (hb : ∀ n : Fin 64, Base64.urlSafe.char n ≠ mark)
    (hc : mark ≠ ':') (hd : ∀ d : Fin 10, digitChar d ≠ mark) (key : TokenKey)
    (user action : String) (millis : Nat) : mark ∉ (issue key user action millis).toList := by
  unfold issue
  rw [String.toList_ofList, List.mem_append, List.mem_append, List.mem_singleton, not_or, not_or]
  exact ⟨⟨Base64.not_mem_encode hb _, hc⟩, not_mem_decimal hd millis⟩

/-- Tokens have no character with a meaning of its own in forms. -/
theorem plain_issue (key : TokenKey) (user action : String) (millis : Nat) :
    Request.Plain (issue key user action millis) :=
  ⟨not_mem_issue (by decide) (by decide) (by decide) key user action millis,
    not_mem_issue (by decide) (by decide) (by decide) key user action millis,
    not_mem_issue (by decide) (by decide) (by decide) key user action millis⟩

/-- Clocks that differ by a minute at most, and a day that is not over. -/
theorem timely_of_le {issued now : Nat} (hi : issued ≤ largest64) (hskew : issued ≤ now + 60000)
    (hday : now < issued + 86400000) (hnow : now < largest64) : Timely issued now := by
  unfold Timely sumWithin clockSkew validity
  omega

end Token

/-- Times are of 64 bits. -/
theorem World.millis_le (w : World) : w.millis ≤ largest64 := Nat.min_le_right _ _

namespace FormForgery

variable {key : TokenKey} {configs : Configs}

/-! ### Issuing -/

/-- Whom a request comes from, and the context in which that is known: the cookie says it, or a new cookie
is queued. -/
inductive Known (ctx : Context) : String → Context → Prop where
  | kept {value : String} (h : ctx.request.cookie? cookieName = some value) : Known ctx value ctx
  | new {value : String} {cookie : Cookie} (h : ctx.request.cookie? cookieName = none)
      (hc : Cookie.new cookieName value = .ok cookie) :
      Known ctx value ({ ctx with world := (ctx.world.draw cookieBytes).2 }.addCookie cookie)

/-- Random bytes are always the value of a cookie. -/
theorem exists_cookie (bytes : Bytes) :
    ∃ cookie, Cookie.new cookieName (cookieValueOf bytes) = .ok cookie := by
  have hv : ∀ x ∈ (cookieValueOf bytes).toList, Cookie.isValueChar x = true := by
    intro x hx
    rw [cookieValueOf, String.toList_ofList] at hx
    obtain ⟨n, hn, rfl⟩ := Base64.exists_of_mem_encode hx
    have hall : ∀ n : Fin 64, Cookie.isValueChar (Base64.urlSafe.char n) = true := by decide
    exact hall ⟨n, hn⟩
  have hn : cookieName.toList.all Cookie.isNameChar = true := by decide
  exact ⟨_, Cookie.new_eq_ok_iff.2 ⟨by decide, List.all_eq_true.1 hn, hv, rfl⟩⟩

/-- Every client becomes known, whatever is drawn. -/
theorem exists_known (ctx : Context) :
    ∃ value next, client ctx = .ok (value, next) ∧ Known ctx value next := by
  unfold client
  cases hc : ctx.request.cookie? cookieName with
  | some value => exact ⟨value, ctx, rfl, .kept hc⟩
  | none =>
    obtain ⟨cookie, hn⟩ := exists_cookie (ctx.world.draw cookieBytes).1
    refine ⟨cookieValueOf (ctx.world.draw cookieBytes).1, _, ?_, .new hc hn⟩
    simp only [newClient, hn]

/-- A token is always issued: for the client, for the host that the request names, at the present time. -/
theorem exists_issue (key : TokenKey) (ctx : Context) :
    ∃ value next, Known ctx value next ∧ issue key ctx = (.pass, next.keep .token
      (Token.issue key value (action ctx.request) ctx.world.millis)) := by
  obtain ⟨value, next, hc, hk⟩ := exists_known ctx
  refine ⟨value, next, hk, ?_⟩
  simp only [issue, hc]
  cases hk <;> rfl

/-- A token that is kept is found. -/
theorem token?_keep (ctx : Context) (token : String) :
    (ctx.keep .token token).token? = some token := by
  simp [Context.token?, Context.keep]

/-- Requests whose method only reads are issued a token without a check. -/
theorem before_of_safe (key : TokenKey) (configs : Configs) {ctx : Context}
    (hm : ctx.request.method ∈ [.get, .head, .options]) :
    (interceptor key).before configs ctx = issue key ctx := by
  have hs : ctx.request.method.isStateChanging = false := by
    rw [Bool.eq_false_iff, ne_eq, Method.isStateChanging_iff, not_not]
    exact hm
  simp only [interceptor, needsToken, hs, Bool.false_and, Bool.false_eq_true, if_false]

/-- A request that is passed on was issued a token. -/
theorem issue_of_pass {ctx left : Context}
    (h : (interceptor key).before configs ctx = (.pass, left)) : issue key ctx = (.pass, left) := by
  rcases before_cases key configs ctx with ⟨refusal, -, hb⟩ | hb
  · rw [hb] at h
    cases h
  · rwa [hb] at h

/-- An admitted request is passed on. -/
theorem passes_of_admitted {ctx : Context} (h : Admitted key ctx.request ctx.world.millis)
    (configs : Configs) : ∃ after, (interceptor key).before configs ctx = (.pass, after) := by
  obtain ⟨value, next, -, hi⟩ := exists_issue key ctx
  rcases before_cases key configs ctx with ⟨refusal, hc, -⟩ | hb
  · rw [check_eq_ok_iff.2 h] at hc
    cases hc
  · exact ⟨_, hb.trans hi⟩

/-! ### Sending back -/

/-- The cookies of a second request. If the first request had the cookie then they are those of the first
request, and else what a client sends of the cookie that the first response sets. -/
inductive Returned (first left : Context) (second : Request) : Prop where
  | kept {value : String} (h : first.request.cookie? cookieName = some value)
      (hs : second.headers.getAll "cookie" = first.request.headers.getAll "cookie")
  | new {cookie : Cookie} (h : first.request.cookie? cookieName = none)
      (hq : cookie ∈ left.headers.cookies) (hn : cookie.name = cookieName)
      (hs : second.headers.getAll "cookie" = [cookie.pair])

/-- Of the queued cookies the one that was queued last has its name alone. -/
theorem eq_of_mem_addCookie {h : ResponseHeaders} {cookie other : Cookie}
    (hm : other ∈ (h.addCookie cookie).cookies) (hn : other.name = cookie.name) : other = cookie := by
  rcases List.mem_append.1 hm with hm | hm
  · have hne := (List.mem_filter.1 hm).2
    simp [hn] at hne
  · exact List.mem_singleton.1 hm

/-- A client that sends back its cookie is known as the one that it was. -/
theorem Returned.cookie?_eq {first left next : Context} {second : Request} {value : String}
    (h : Returned first left second) (hk : Known first value next) (hl : left.headers = next.headers) :
    second.cookie? cookieName = some value := by
  cases hk with
  | kept hc =>
    cases h with
    | kept h hs =>
      have he : second.cookies = first.request.cookies := by
        unfold Request.cookies
        rw [hs]
      rw [← hc, Request.cookie?, Request.cookie?, he]
    | new h hq hn hs =>
      rw [hc] at h
      cases h
  | new hc hcookie =>
    cases h with
    | kept h hs =>
      rw [hc] at h
      cases h
    | new h hq hn hs =>
      rw [hl] at hq
      have hname := (Cookie.new_eq_ok_iff.1 hcookie).2.2.2
      obtain rfl := eq_of_mem_addCookie hq (by rw [hn, hname])
      exact Cookie.cookie?_of_pair hcookie hs

/-- A token that was issued comes back. If a request is passed on and has been issued a token, then every
later request for the same host, with the cookie that the client has from then on and with the token in a
form, written as it is or in percent codes, is passed on as well: on every route, unless the second clock
is more than a minute behind the first, a day ahead of it, or at the end of time. -/
theorem submission_passes {configs' : Configs} {first left second : Context} {token : String}
    (issued : (interceptor key).before configs first = (.pass, left))
    (kept : left.token? = some token)
    (host : Host.normalize second.request.host = Host.normalize first.request.host)
    (returned : Returned first left second.request)
    (carried : second.request.Carries Markup.tokenField token)
    (skew : first.world.millis ≤ second.world.millis + 60000)
    (day : second.world.millis < first.world.millis + 86400000)
    (time : second.world.millis < largest64) :
    ∃ after, (interceptor key).before configs' second = (.pass, after) := by
  obtain ⟨value, next, hk, hi⟩ := exists_issue key first
  have hpass := issue_of_pass issued
  rw [hi] at hpass
  cases hpass
  rw [token?_keep, Option.some.injEq] at kept
  subst kept
  have hcookie := returned.cookie?_eq hk rfl
  obtain ⟨form, hform, htoken⟩ := carried.exists_form ⟨by decide, by decide, by decide⟩ (by decide)
    (Token.plain_issue key value (action first.request) first.world.millis)
  have htimely : Token.Timely first.world.millis second.world.millis :=
    Token.timely_of_le first.world.millis_le skew day time
  have hcheck := (Token.check_issue_eq_ok_iff key value (action first.request) value
    (Host.normalize second.request.host) second.world.millis first.world.millis_le).2
    ⟨htimely, by rw [host, action]⟩
  exact passes_of_admitted ⟨value, form, _, hcookie, hform, htoken, hcheck⟩ configs'

namespace RoundTrip

/-- A client without a cookie asks for a page. -/
def first : Context :=
  .ofRequest ⟨.get, "/", none, 1, ⟨[⟨"Host", "h"⟩]⟩, [], true⟩ .empty ⟨1000, fun _ => 7, 0, []⟩

/-- The headers of the form that it sends later, with a cookie line. -/
def headers (line : String) : Headers :=
  ⟨[⟨"Host", "H:443"⟩, ⟨"Cookie", line⟩, ⟨"Content-Type", Request.formType⟩]⟩

/-- The form that it sends. -/
def second (line : String) (body : Bytes) : Context :=
  .ofRequest ⟨.post, "/", none, 1, headers line, body, true⟩ .empty ⟨2000, fun _ => 7, 0, []⟩

/-- The headers have a host, a type and a line of cookies. -/
theorem get?_headers (line : String) :
    (headers line).get? "host" = some "H:443" ∧
      (headers line).get? "content-type" = some Request.formType ∧
      (headers line).getAll "cookie" = [line] := by
  have hh : alike "Host" "host" = true := by decide
  have ht : alike "Host" "content-type" = false ∧ alike "Cookie" "content-type" = false ∧
      alike "Content-Type" "content-type" = true := by decide
  have hc : alike "Host" "cookie" = false ∧ alike "Cookie" "cookie" = true ∧
      alike "Content-Type" "cookie" = false := by decide
  simp [headers, Headers.get?, Headers.getAll, Field.named, hh, ht, hc]

/-- The body of the form: a token whose colon is in percent codes, and another field. -/
def body (signed : List Char) : Bytes :=
  encode ("xsrf-token=".toList ++ (signed ++ "%3A".toList ++ decimal 1000) ++ "&a=1".toList)

/-- What the page was given as its token is in the form. -/
theorem carries_body (line : String) (signed : List Char) :
    (second line (body signed)).request.Carries Markup.tokenField
      (String.ofList (signed ++ [':'] ++ decimal 1000)) := by
  have hcolon : Percent.Codes (encodeChar ':') "%3A".toList :=
    @Percent.Codes.cons '3' 'A' 3 10 [] [] (by decide) (by decide) .nil
  have hspelled : Urlencoded.Spells (signed ++ [':'] ++ decimal 1000)
      (signed ++ "%3A".toList ++ decimal 1000) :=
    ((Urlencoded.Spells.self signed).append (.coded hcolon .nil)).append (.self (decimal 1000))
  refine ⟨?_, [], "xsrf-token".toList, signed ++ "%3A".toList ++ decimal 1000, ["a=1".toList], ?_,
    by decide, by simp, .self _, ?_⟩
  · change alike (Request.mediaType (((headers line).get? "content-type").getD "")) _ = _
    rw [(get?_headers line).2.1]
    decide
  · change body signed = _
    rw [body, List.nil_append, List.intercalate_cons_cons, List.intercalate_singleton]
    simp
  · rw [String.toList_ofList]
    exact hspelled

/-- The form goes to the host of the page. -/
theorem normalize_second (line : String) (body : Bytes) :
    Host.normalize (second line body).request.host = Host.normalize first.request.host := by
  change Host.normalize (((headers line).get? "host").getD "") = Host.normalize "h"
  rw [(get?_headers line).1]
  decide

/-- The token of the page lets the client in. -/
theorem passes_with_coded_colon :
    ∃ left cookie signed after, (interceptor ⟨[1]⟩).before .empty first = (.pass, left) ∧
      left.token? = some (String.ofList (signed ++ [':'] ++ decimal 1000)) ∧
      cookie ∈ left.headers.cookies ∧
      (interceptor ⟨[1]⟩).before .empty (second cookie.pair (body signed)) = (.pass, after) := by
  have hnone : first.request.cookie? cookieName = none := by decide
  have hsafe := before_of_safe ⟨[1]⟩ .empty (show first.request.method ∈ _ by decide)
  obtain ⟨value, next, hk, hi⟩ := exists_issue ⟨[1]⟩ first
  have hpass := hsafe.trans hi
  cases hk with
  | kept h =>
    rw [hnone] at h
    cases h
  | @new cookie h hc =>
    obtain ⟨signed, hsigned⟩ : ∃ signed, Token.issue ⟨[1]⟩ value (action first.request)
        first.world.millis = String.ofList (signed ++ [':'] ++ decimal 1000) := ⟨_, rfl⟩
    rw [hsigned] at hpass
    have hname : cookie.name = cookieName := by
      rw [(Cookie.new_eq_ok_iff.1 hc).2.2.2]
    have hq : cookie ∈ (first.headers.addCookie cookie).cookies :=
      List.mem_append_right _ List.mem_cons_self
    have hline := (get?_headers cookie.pair).2.2
    have hmillis : (second cookie.pair (body signed)).world.millis = 2000 := rfl
    obtain ⟨after, hafter⟩ := submission_passes hpass (token?_keep _ _)
      (normalize_second cookie.pair (body signed)) (.new h hq hname hline)
      (carries_body cookie.pair signed) (by rw [hmillis]; decide) (by rw [hmillis]; decide)
      (by rw [hmillis]; decide)
    exact ⟨_, cookie, signed, after, hpass, token?_keep _ _, hq, hafter⟩

end RoundTrip

end FormForgery

end Palisade
