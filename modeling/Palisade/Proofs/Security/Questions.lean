import Palisade.Proofs.Security.Gate
import Palisade.Proofs.Text.Pieces
import Palisade.Settings.Basic

/-!
# Questions and the requests they are about

A browser asks beforehand whether it may use a method, and then sends a request of this method. The
question names the method in a header, and the request has it in its first line; the one is compared with
the names of what is allowed, the other is read as a method and compared with the methods. The main
statement says that the two agree for a request with the mark, whatever the settings are, and that the
answer names the method. Requests without the mark are not covered, and neither are questions for other
headers.
-/
namespace Palisade

open Palisade.Text ResponseHeaders

/-! ### Capitals -/

namespace Text

/-- What is no letter is a capital only if it was written so. -/
theorem eq_of_toUpper_eq {c d : Char} (h : c.toUpper = d) (hd : d.toNat < 65) : c = d := by
  unfold Char.toUpper at h
  split at h
  · rename_i hl
    have hlow : 97 ≤ c.val.toNat := hl.1
    have hhigh : c.val.toNat ≤ 122 := hl.2
    subst h
    have hsum : (c.val + ('A'.val - 'a'.val)).toNat < 65 := hd
    rw [UInt32.toNat_add, show ('A'.val - 'a'.val).toNat = 4294967264 from rfl] at hsum
    omega
  · exact h

/-- Capital letters do not break a line. -/
theorem breaksLine_upper {s : String} (h : breaksLine s = false) : breaksLine (upper s) = false := by
  rw [breaksLine_eq_false_iff] at h ⊢
  intro c hc
  rw [upper, String.toList_ofList] at hc
  obtain ⟨d, hd, rfl⟩ := List.mem_map.1 hc
  obtain ⟨hreturn, hfeed, hnul⟩ := h d hd
  exact ⟨fun he => hreturn (eq_of_toUpper_eq he (by decide)),
    fun he => hfeed (eq_of_toUpper_eq he (by decide)), fun he => hnul (eq_of_toUpper_eq he (by decide))⟩

end Text

/-! ### Gates of settings -/

namespace CrossOrigin

variable {c : CrossOrigin}

/-- Methods that are allowed are added to those that are there, and nothing else changes. -/
theorem foldl_allowMethod (c : CrossOrigin) (ms : List Method) :
    ∃ methods, ms.foldl allowMethod c = { c with methods } ∧
      ∀ m, m ∈ methods ↔ m ∈ c.methods ∨ m ∈ ms := by
  induction ms generalizing c with
  | nil => exact ⟨c.methods, rfl, fun m => by simp⟩
  | cons first rest ih =>
    obtain ⟨methods, he, hm⟩ := ih (c.allowMethod first)
    have hallow : ∃ allowed, c.allowMethod first = { c with methods := allowed } ∧
        ∀ m, m ∈ allowed ↔ m ∈ c.methods ∨ m = first := by
      unfold allowMethod
      split
      · rename_i hc
        refine ⟨c.methods, rfl, fun m => ⟨.inl, ?_⟩⟩
        rintro (h | rfl)
        · exact h
        · simpa using hc
      · exact ⟨_, rfl, fun m => by simp⟩
    obtain ⟨allowed, hc, ha⟩ := hallow
    rw [hc] at he hm
    refine ⟨methods, by rw [List.foldl_cons, hc, he], fun m => ?_⟩
    rw [hm, ha, List.mem_cons, or_assoc]

end CrossOrigin

namespace Settings.Origins

variable {o : Settings.Origins} {c : CrossOrigin}

/-- The gate of settings: the listed origins, the three simple methods and those with the capitals of a
configured text as their name, the mark and the configured headers. -/
theorem crossOrigin_cases (h : o.crossOrigin = .ok c) :
    c.origins = o.allowedOrigins ∧ c.headers = CrossOrigin.markHeader :: o.allowedHeaders ∧
      c.exposed = o.exposedHeaders ∧
      ∀ m, m ∈ c.methods ↔
        m ∈ [Method.get, .head, .post] ∨ ∃ text ∈ o.allowedMethods, Method.ofName (upper text) = m := by
  unfold crossOrigin CrossOrigin.ofOrigins at h
  split at h
  · cases h
  rename_i base hbase
  split at hbase
  · cases hbase
  cases hbase
  obtain ⟨methods, he, hm⟩ := CrossOrigin.foldl_allowMethod
    ⟨o.allowedOrigins, [.get, .head, .post], [CrossOrigin.markHeader], [], false, 5⟩
    (o.allowedMethods.map fun text => Method.ofName (upper text))
  simp only [he, Except.ok.injEq] at h
  subst h
  refine ⟨rfl, rfl, rfl, fun m => ?_⟩
  rw [hm, List.mem_map]

/-- A method is among those of the gate if its name is, for each of them is the one that is read from its
name. -/
theorem exists_named_iff (h : o.crossOrigin = .ok c) {method : String} :
    (∃ m ∈ c.methods, m.name = method) ↔ Method.ofName method ∈ c.methods := by
  obtain ⟨-, -, -, hmethods⟩ := crossOrigin_cases h
  have hread : ∀ m ∈ c.methods, Method.ofName m.name = m := by
    intro m hm
    rcases (hmethods m).1 hm with hs | ⟨text, -, rfl⟩
    · have hsimple : ∀ m ∈ [Method.get, .head, .post], Method.ofName m.name = m := by decide
      exact hsimple m hs
    · rw [Method.name_ofName]
  constructor
  · rintro ⟨m, hm, rfl⟩
    rwa [hread m hm]
  · exact fun hm => ⟨_, hm, Method.name_ofName method⟩

/-- Which methods the gate allows, by their names. -/
theorem ofName_mem_methods_iff (h : o.crossOrigin = .ok c) {method : String} :
    Method.ofName method ∈ c.methods ↔
      method ∈ ["GET", "HEAD", "POST"] ∨ ∃ text ∈ o.allowedMethods, upper text = method := by
  obtain ⟨-, -, -, hmethods⟩ := crossOrigin_cases h
  have hsimple : ∀ {name : String} {m : Method}, Method.ofName name = m →
      (Method.ofName method = m ↔ method = name) := by
    rintro name m rfl
    exact ⟨fun he => Method.ofName_injective he, fun he => by rw [he]⟩
  have hget : Method.ofName "GET" = .get := by decide
  have hhead : Method.ofName "HEAD" = .head := by decide
  have hpost : Method.ofName "POST" = .post := by decide
  rw [hmethods]
  simp only [List.mem_cons, List.not_mem_nil, or_false, hsimple hget, hsimple hhead, hsimple hpost]
  refine or_congr_right (exists_congr fun text => and_congr_right fun _ => ?_)
  exact ⟨fun he => Method.ofName_injective he, fun he => by rw [he]⟩

/-- Settings whose texts keep their lines give a gate that can write its headers for origins that do. -/
theorem clean_of_keepsLines (h : o.crossOrigin = .ok c)
    (hl : ∀ text ∈ o.allowedMethods ++ o.allowedHeaders ++ o.exposedHeaders, breaksLine text = false)
    {origin : String} (ho : breaksLine origin = false) :
    ({ c with origins := [origin] } : CrossOrigin).Clean := by
  obtain ⟨-, hheaders, hexposed, hmethods⟩ := crossOrigin_cases h
  rw [List.forall_mem_append, List.forall_mem_append] at hl
  refine ⟨List.forall_mem_singleton.2 ho, ?_, ?_, ?_⟩
  · intro m hm
    rcases (hmethods m).1 hm with hs | ⟨text, ht, rfl⟩
    · have hsimple : ∀ m ∈ [Method.get, .head, .post], breaksLine m.name = false := by decide
      exact hsimple m hs
    · rw [Method.name_ofName]
      exact breaksLine_upper (hl.1.1 text ht)
  · rw [hheaders, List.forall_mem_cons]
    exact ⟨by decide, hl.1.2⟩
  · rw [hexposed]
    exact hl.2

end Settings.Origins

/-! ### Writes that are made -/

/-- A header that was set has the value alone, if no other write of the list is about it. -/
theorem HeaderWrite.values_of_set {h h' : ResponseHeaders} {ws : List HeaderWrite}
    {name value : String} (hd : ws.Pairwise fun w v => alike w.name v.name = false)
    (hm : .set name value ∈ ws) (hp : performAll h ws = (h', none)) : h'.values name = [value] := by
  obtain ⟨front, back, rfl⟩ := List.append_of_mem hm
  obtain ⟨mid, -, hrest⟩ := performAll_append hp
  have hback : ∀ w ∈ back, alike w.name name = false := by
    intro w hw
    rw [alike_comm]
    exact (List.pairwise_cons.1 (List.pairwise_append.1 hd).2.1).1 w hw
  rw [performAll, perform] at hrest
  rcases orKeep_cases mid (mid.set name value) with ⟨set, hset, hkeep⟩ | ⟨e, -, hkeep⟩
  · rw [hkeep] at hrest
    have hwritten : performAll set back = (h', none) := hrest
    have hsame := sameAt_performAll set back fun w hw => .inl (hback w hw)
    rw [hwritten] at hsame
    obtain ⟨-, -, -, rfl⟩ := write_eq_ok_iff.1 hset
    exact (congrArg (List.map Field.value) hsame.fieldsOf_eq).trans
      (mid.headers.getAll_set_self value (alike_refl name))
  · rw [hkeep] at hrest
    cases hrest

namespace CrossOrigin

variable {c : CrossOrigin} {origin method : String} {ctx : Context}

/-- For an origin that breaks its line nothing is allowed. -/
theorem afterWrites_of_breaksLine (hb : breaksLine origin = true) {ws : List HeaderWrite}
    (hw : ∃ rest, ws = .own originHeader [origin] :: rest)
    (hd : ws.Pairwise fun w v => alike w.name v.name = false) (onward : Flow) :
    ∃ after, Interceptor.afterWrites name onward (ctx.perform ws) =
      (.reject .internalServerError, after) := by
  obtain ⟨rest, rfl⟩ := hw
  have hother : ∀ w ∈ rest, alike w.name originHeader = false := by
    intro w hm
    rw [alike_comm]
    exact (List.pairwise_cons.1 hd).1 w hm
  rcases HeaderWrite.performAll_own ctx.headers [origin] hother with ⟨hline, -⟩ | ⟨hrefused, -⟩
  · simp [hb] at hline
  · cases hp : HeaderWrite.performAll ctx.headers (.own originHeader [origin] :: rest) with
    | mk written error? =>
      rw [hp] at hrefused
      rw [Context.perform_eq hp]
      cases error? with
      | none => exact absurd rfl hrefused
      | some e => exact ⟨_, rfl⟩

/-! ### Questions -/

/-- A question of a foreign origin about a method, and about no other header than the mark. -/
structure Question (r : Request) (origin method : String) : Prop where
  sender : r.headers.get? "origin" = some origin
  foreign : isSameOrigin origin r.host = false
  asks : Asks r method
  headers : ∀ name, AsksFor r name → alike markHeader name = true

/-- A request of a foreign origin with a method and the mark, which is no question. -/
structure Sent (r : Request) (origin method : String) : Prop where
  sender : r.headers.get? "origin" = some origin
  foreign : isSameOrigin origin r.host = false
  method : r.method = .ofName method
  marked : Marked r
  direct : r.headers.get? "access-control-request-method" = none

/-- The header that tells which methods are allowed. -/
def methodsHeader : String := "Access-Control-Allow-Methods"

/-- A question of a listed origin is answered with yes exactly if the origin keeps its line and a method of
the name is allowed. The answer then has the names of all methods that are. -/
theorem before_of_question (hl : origin ∈ c.origins)
    (hc : breaksLine origin = false → ({ c with origins := [origin] } : CrossOrigin).Clean)
    (hh : markHeader ∈ c.headers) (hu : Unclaimed ctx.headers)
    (hq : Question ctx.request origin method) (configs : Configs) :
    ((breaksLine origin = false ∧ ∃ m ∈ c.methods, m.name = method) ∧ ∃ after,
      c.interceptor.before configs ctx = (.respond .noContent, after) ∧
      after.headers.values methodsHeader = [String.intercalate ", " (c.methods.map Method.name)]) ∨
    ¬ (breaksLine origin = false ∧ ∃ m ∈ c.methods, m.name = method) ∧ ∃ status after,
      c.interceptor.before configs ctx = (.respond (.error status), after) ∧
      status ∈ [Status.forbidden, .internalServerError] := by
  have hlisted : (!c.origins.contains origin) = false := by simp [hl]
  have hasks := preflight?_eq_some_iff.2 hq.asks
  have hheaders : ∀ name, AsksFor ctx.request name → ∃ h ∈ c.headers, alike h name = true :=
    fun name ha => ⟨markHeader, hh, hq.headers name ha⟩
  rw [before_of_foreign c configs hq.sender hq.foreign]
  cases hr : c.preflightRefusal? origin method (requestedHeaders ctx.request) with
  | some refusal =>
    have hforeign : c.foreign origin ctx = refusal.answer ctx := by
      simp only [foreign, hlisted, hasks, hr, Bool.false_eq_true, if_false]
    have hno : ¬ ∃ m ∈ c.methods, m.name = method := by
      intro hm
      rw [preflightRefusal?_eq_none_iff.2 ⟨hm, hheaders⟩] at hr
      cases hr
    refine .inr ⟨fun h => hno h.2, refusal.status, _, hforeign, ?_⟩
    rw [status_of_preflightRefusal? hr]
    exact List.mem_cons_self
  | none =>
    have hforeign : c.foreign origin ctx = Interceptor.afterWrites name (.respond .noContent)
        (ctx.perform (c.preflightWrites origin (requestedHeaders ctx.request))) := by
      simp only [foreign, hlisted, hasks, hr, Bool.false_eq_true, if_false]
    rw [hforeign]
    have hm := (preflightRefusal?_eq_none_iff.1 hr).method
    have hd := distinct_preflightWrites c origin (requestedHeaders ctx.request)
    cases hb : breaksLine origin with
    | true =>
      obtain ⟨after, ha⟩ : ∃ after, Interceptor.afterWrites name (.respond .noContent)
          (ctx.perform (c.preflightWrites origin (requestedHeaders ctx.request))) =
            (.reject .internalServerError, after) := afterWrites_of_breaksLine hb ⟨_, rfl⟩ hd _
      exact .inr ⟨by simp, _, after, ha, by decide⟩
    | false =>
      have hlines : ∀ name ∈ requestedHeaders ctx.request, breaksLine name = false := by
        intro name hn
        rw [← breaksLine_eq_of_alike (hq.headers name (mem_requestedHeaders_iff.1 hn))]
        decide
      have hsound : ∀ w ∈ c.preflightWrites origin (requestedHeaders ctx.request), w.Sound :=
        sound_preflightWrites (hc hb) (List.mem_singleton_self origin) hlines
      obtain ⟨written, hp⟩ := HeaderWrite.performAll_sound hsound hd fun w hw =>
        hu w.name (free_preflightWrites hw).2
      have hset : .set methodsHeader (String.intercalate ", " (c.methods.map Method.name)) ∈
          c.preflightWrites origin (requestedHeaders ctx.request) := by
        simp [preflightWrites, methodsHeader]
      refine .inl ⟨⟨rfl, hm⟩, { ctx with headers := written }, ?_, HeaderWrite.values_of_set hd hset hp⟩
      rw [Context.perform_eq hp, Interceptor.afterWrites]

/-- A request with the mark, of a listed origin, is passed on exactly if the origin keeps its line and the
method is allowed. -/
theorem pass_iff_of_sent (hl : origin ∈ c.origins)
    (hc : breaksLine origin = false → ({ c with origins := [origin] } : CrossOrigin).Clean)
    (hu : Unclaimed ctx.headers) (hs : Sent ctx.request origin method) (configs : Configs) :
    (∃ after, c.interceptor.before configs ctx = (.pass, after)) ↔
      breaksLine origin = false ∧ Method.ofName method ∈ c.methods := by
  have hnone : preflight? ctx.request = none := by
    unfold preflight?
    split
    · exact hs.direct
    · rfl
  have hlisted : (!c.origins.contains origin) = false := by simp [hl]
  have hsub := allowWrites_sublist c origin []
  have hd := (distinct_preflightWrites c origin []).sublist hsub
  rw [before_of_foreign c configs hs.sender hs.foreign]
  rcases @refusal?_cases c origin ctx.request with
    ⟨hr, hm, -⟩ | ⟨refusal, hr, ⟨-, hm⟩ | ⟨-, -, -, hk⟩⟩
  · have hforeign : c.foreign origin ctx =
        Interceptor.afterWrites name .pass (ctx.perform (c.allowWrites origin)) := by
      simp only [foreign, hlisted, hnone, hr, Bool.false_eq_true, if_false]
    rw [hs.method] at hm
    rw [hforeign]
    cases hb : breaksLine origin with
    | true =>
      obtain ⟨after, ha⟩ : ∃ after, Interceptor.afterWrites name .pass
          (ctx.perform (c.allowWrites origin)) = (.reject .internalServerError, after) :=
        afterWrites_of_breaksLine hb ⟨_, rfl⟩ hd .pass
      simp [ha, Flow.reject]
    | false =>
      have hsound := sound_preflightWrites (hc hb) (List.mem_singleton_self origin)
        (List.forall_mem_nil _)
      obtain ⟨after, ha⟩ := afterWrites_of_unclaimed (fun w hw => hsound w (hsub.subset hw)) hd
        (fun w hw => (free_allowWrites hw).2) hu .pass
      simp [ha, hm]
  · have hforeign : c.foreign origin ctx = refusal.answer ctx := by
      simp only [foreign, hlisted, hnone, hr, Bool.false_eq_true, if_false]
    rw [hs.method] at hm
    simp [hforeign, Refusal.answer, Flow.reject, hm]
  · exact absurd hs.marked hk

/-! ### Lists of methods -/

/-- No blank is a character of tokens. -/
theorem isBlank_of_isTokenChar {x : Char} (h : isTokenChar x = true) : isBlank x = false := by
  have hblanks : ∀ n ∈ [9, 10, 11, 12, 13, 0x20, 0x85, 0xA0, 0x1680, 0x2000, 0x2001, 0x2002, 0x2003,
      0x2004, 0x2005, 0x2006, 0x2007, 0x2008, 0x2009, 0x200A, 0x2028, 0x2029, 0x202F, 0x205F, 0x3000],
      isTokenChar (Char.ofNat n) = false := by decide
  by_contra hb
  rw [Bool.not_eq_false] at hb
  simp only [isBlank, Bool.or_eq_true, Bool.and_eq_true, decide_eq_true_eq, beq_iff_eq] at hb
  have hnone := hblanks x.toNat (by simp only [List.mem_cons, List.not_mem_nil, or_false]; omega)
  rw [Char.ofNat_toNat, h] at hnone
  cases hnone

/-- A token that is one of some texts is found, without the blanks around it, between the commas of the
list that is written of them. -/
theorem exists_item_of_mem {names : List String} (hm : method ∈ names) (ht : isToken method = true) :
    ∃ item ∈ pieces ',' (String.intercalate ", " names).toList, trimBlanks item = method.toList := by
  have hcomma : ',' ∉ method.toList := Client.not_mem_of_isToken ht (by decide)
  have hself : trimBlanks method.toList = method.toList := by
    refine trimBoth_eq_self fun x hx => isBlank_of_isTokenChar ?_
    exact List.all_eq_true.1 (Bool.and_eq_true_iff.1 ht).2 x hx
  obtain ⟨first, others, rfl⟩ := List.exists_cons_of_ne_nil (List.ne_nil_of_mem hm)
  have hseparator : ", ".toList = ',' :: [' '] := rfl
  rw [String.toList_intercalate, hseparator, List.map_cons, pieces_intercalate_flatMap]
  rcases List.mem_cons.1 hm with rfl | hm
  · refine ⟨method.toList, List.mem_append_left _ ?_, hself⟩
    rw [pieces_of_not_mem hcomma]
    exact List.mem_singleton_self _
  · have hpiece : ',' ∉ [' '] ++ method.toList := by simp [hcomma]
    refine ⟨' ' :: method.toList, List.mem_append_right _ ?_, ?_⟩
    · refine List.mem_flatMap.2 ⟨method.toList, List.mem_map_of_mem hm, ?_⟩
      rw [pieces_of_not_mem hpiece]
      exact List.mem_singleton_self _
    · exact (trimBoth_cons (by decide) _).trans hself

/-! ### The agreement -/

/-- For every gate that settings give, every listed origin and every method: a question about the method
is answered with yes exactly if the request with the mark is passed on, and the answer lists the method.
For an origin that keeps its line this is so exactly if the method is simple or the capitals of a
configured text. -/
theorem yes_iff_passed {o : Settings.Origins} {c : CrossOrigin} (h : o.crossOrigin = .ok c)
    (hl : ∀ text ∈ o.allowedMethods ++ o.allowedHeaders ++ o.exposedHeaders, breaksLine text = false)
    (ho : origin ∈ o.allowedOrigins) (ht : isToken method = true) {asking sending : Context}
    (hu : Unclaimed asking.headers) (hu' : Unclaimed sending.headers)
    (hq : Question asking.request origin method) (hs : Sent sending.request origin method)
    (configs configs' : Configs) :
    ((∃ response after, c.interceptor.before configs asking = (.respond response, after) ∧
        response.status.code = 204) ↔
      ∃ after, c.interceptor.before configs' sending = (.pass, after)) ∧
    (∀ response after, c.interceptor.before configs asking = (.respond response, after) →
      response.status.code = 204 → ∃ value, after.headers.values methodsHeader = [value] ∧
        ∃ item ∈ pieces ',' value.toList, trimBlanks item = method.toList) ∧
    (breaksLine origin = false →
      ((∃ after, c.interceptor.before configs' sending = (.pass, after)) ↔
        method ∈ ["GET", "HEAD", "POST"] ∨ ∃ text ∈ o.allowedMethods, upper text = method)) := by
  obtain ⟨horigins, hheaders, -, -⟩ := Settings.Origins.crossOrigin_cases h
  have hlisted : origin ∈ c.origins := horigins ▸ ho
  have hmark : markHeader ∈ c.headers := by
    rw [hheaders]
    exact List.mem_cons_self
  have hclean : breaksLine origin = false → ({ c with origins := [origin] } : CrossOrigin).Clean :=
    Settings.Origins.clean_of_keepsLines h hl
  have hnamed : (∃ m ∈ c.methods, m.name = method) ↔ Method.ofName method ∈ c.methods :=
    Settings.Origins.exists_named_iff h
  have hpass := pass_iff_of_sent hlisted hclean hu' hs configs'
  rw [← hnamed] at hpass
  have hanswer := before_of_question hlisted hclean hmark hu hq configs
  have hyes : ∀ response after, c.interceptor.before configs asking = (.respond response, after) →
      response.status.code = 204 → (breaksLine origin = false ∧ ∃ m ∈ c.methods, m.name = method) ∧
        after.headers.values methodsHeader = [String.intercalate ", " (c.methods.map Method.name)] := by
    intro response after hr hcode
    rcases hanswer with ⟨hyes, after', hb, hvalues⟩ | ⟨-, status, after', hb, hstatus⟩
    · rw [hb] at hr
      cases hr
      exact ⟨hyes, hvalues⟩
    · rw [hb] at hr
      cases hr
      have hnone : ∀ status ∈ [Status.forbidden, .internalServerError], status.code ≠ 204 := by decide
      exact absurd hcode (hnone status hstatus)
  refine ⟨?_, fun response after hr hcode => ?_, fun hb => ?_⟩
  · rw [hpass]
    constructor
    · rintro ⟨response, after, hr, hcode⟩
      exact (hyes response after hr hcode).1
    · intro h
      rcases hanswer with ⟨-, after, hb, -⟩ | ⟨hno, -⟩
      · exact ⟨_, after, hb, by decide⟩
      · exact absurd h hno
  · obtain ⟨⟨-, m, hm, hname⟩, hvalues⟩ := hyes response after hr hcode
    exact ⟨_, hvalues, exists_item_of_mem (List.mem_map.2 ⟨m, hm, hname⟩) ht⟩
  · rw [hpass, hnamed, Settings.Origins.ofName_mem_methods_iff h]
    exact and_iff_right hb

/-! A method that is not standard, configured in small letters. -/

namespace Asking

/-- Settings with an origin and a method. -/
def settings : Settings.Origins where
  allowedOrigins := ["https://app.example.com"]
  allowedMethods := ["put", "purge"]
  allowedHeaders := ["X-Trace"]
  exposedHeaders := ["ETag"]

/-- The gate of these settings. -/
def gate : CrossOrigin :=
  ⟨["https://app.example.com"], [.get, .head, .post, .put, .custom "PURGE"], ["X-Cors", "X-Trace"],
    ["ETag"], false, 5⟩

/-- The question whether the method may be used. -/
def asking : Request where
  method := .options
  path := "/cache"
  query := none
  minor := 1
  headers := ⟨[⟨"Host", "api.example.com"⟩, ⟨"Origin", "https://app.example.com"⟩,
    ⟨"Access-Control-Request-Method", "PURGE"⟩, ⟨"Access-Control-Request-Headers", "x-CORS"⟩]⟩
  body := []
  tls := true

/-- The request with the method, and with the mark. -/
def sending : Request where
  method := .custom "PURGE"
  path := "/cache"
  query := none
  minor := 1
  headers := ⟨[⟨"Host", "api.example.com"⟩, ⟨"Origin", "https://app.example.com"⟩, ⟨"x-cors", "1"⟩]⟩
  body := []
  tls := true

/-- A world in which nothing has been drawn or recorded. -/
def world : World := ⟨0, fun _ => 0, 0, []⟩

/-- The question is one about the method. -/
theorem question : Question asking "https://app.example.com" "PURGE" where
  sender := by decide
  foreign := by decide
  asks := ⟨by decide, by decide⟩
  headers := by
    intro name h
    have hall : ∀ name ∈ requestedHeaders asking, alike markHeader name = true := by decide
    exact hall name (mem_requestedHeaders_iff.2 h)

/-- The request is one with the method. -/
theorem sent : Sent sending "https://app.example.com" "PURGE" where
  sender := by decide
  foreign := by decide
  method := by decide
  marked := by
    rw [Marked]
    decide
  direct := by decide

/-- The question is answered with yes, and the request is passed on. -/
theorem purge_is_allowed :
    settings.crossOrigin = .ok gate ∧
    (∃ response after,
      gate.interceptor.before .empty (.ofRequest asking .empty world) = (.respond response, after) ∧
        response.status.code = 204) ∧
    ∃ after, gate.interceptor.before .empty (.ofRequest sending .empty world) = (.pass, after) := by
  have hgate : settings.crossOrigin = .ok gate := by decide
  have hfresh : ∀ r : Request, Unclaimed (Context.ofRequest r .empty world).headers := fun _ _ _ => rfl
  obtain ⟨hiff, -, hpass⟩ := yes_iff_passed hgate (by decide) (by decide) (by decide)
    (hfresh asking) (hfresh sending) question sent .empty .empty
  have hsent := (hpass (by decide)).2 (.inr ⟨"purge", by decide, by decide⟩)
  exact ⟨hgate, hiff.2 hsent, hsent⟩

end Asking

end CrossOrigin

end Palisade
