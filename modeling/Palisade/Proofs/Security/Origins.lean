import Palisade.Address.Ipv6
import Palisade.Proofs.Text.Leftmost
import Palisade.Proofs.Text.Numerals
import Palisade.Proofs.Text.Pieces
import Palisade.Security.CrossOrigin

/-!
# Origins that are listed

The origins that may read responses are checked when they are listed, and the first that is refused is the
error. The check looks at the scheme and whether anything without a slash stands behind it. Origins of the
web are more than that: a host, which is a registered name or an address in brackets, and a port or none.
The main statement says for which lists the outcome is the same. How origins are compared with those of
requests is not said here.
-/
namespace Palisade

open Palisade.Text

/-! ### The characters of addresses -/

/-- Digits of base 16, in either case. -/
def Base16.IsDigit (c : Char) : Prop := ∃ d, Base16.value? c = some d

/-- Digits of base 16 are letters or digits. -/
theorem Base16.IsDigit.isAlphanum {c : Char} (h : IsDigit c) : c.isAlphanum = true := by
  obtain ⟨d, hd⟩ := h
  unfold value? at hd
  split at hd
  case isFalse => cases hd
  rename_i hc
  have hall : ∀ n : Fin 128, (Percent.hexValue? (UInt8.ofNat n)).isSome = true →
      (Char.ofNat n).isAlphanum = true := by decide
  have hn := hall ⟨c.toNat, hc⟩ (by simp [hd])
  rwa [Char.ofNat_toNat] at hn

/-- Where all elements are mapped, each of them is. -/
theorem Text.exists_of_mapM_eq_some {α β : Type} {f : α → Option β} {xs : List α} {ys : List β}
    (h : xs.mapM f = some ys) : ∀ x ∈ xs, ∃ y, f x = some y := by
  induction xs generalizing ys with
  | nil => exact List.forall_mem_nil _
  | cons x rest ih =>
    rw [List.mapM_cons] at h
    obtain ⟨y, hy, h⟩ := Option.bind_eq_some_iff.1 h
    obtain ⟨others, hothers, -⟩ := Option.bind_eq_some_iff.1 h
    exact List.forall_mem_cons.2 ⟨⟨y, hy⟩, ih hothers⟩

namespace Ipv4

/-- A number is read from digits of base 16. -/
theorem isDigit_of_valueFrom {base start n : Nat} {s : List Char}
    (h : valueFrom base start s = some n) : ∀ c ∈ s, Base16.IsDigit c := by
  induction s generalizing start with
  | nil => exact List.forall_mem_nil _
  | cons c rest ih =>
    obtain ⟨d, hd, h⟩ := Option.bind_eq_some_iff.1 h
    obtain ⟨-, hrest⟩ := Option.ite_none_right_eq_some.1 h
    exact List.forall_mem_cons.2 ⟨⟨d, hd⟩, ih hrest⟩

/-- An address of four bytes in its strict form is written with digits and dots. -/
theorem chars_of_readStrict? {s : List Char} {bytes : List Nat} (h : readStrict? s = some bytes) :
    ∀ c ∈ s, c.isDigit = true ∨ c = '.' := by
  obtain ⟨h, -⟩ := Option.filter_eq_some_iff.1 h
  intro c hc
  rcases eq_or_mem_piece '.' hc with rfl | ⟨piece, hp, hm⟩
  · exact .inr rfl
  · obtain ⟨n, hn⟩ := exists_of_mapM_eq_some h piece hp
    have hdigits := (Option.filter_eq_some_iff.1 (Option.filter_eq_some_iff.1 hn).1).1
    exact .inl ((readDigits?_eq_some_iff.1 hdigits).2.1 c hm)

end Ipv4

namespace Ipv6

/-- What numeric addresses of eight groups are written with. -/
def IsAddressChar (c : Char) : Prop := c.isAlphanum = true ∨ c = '.' ∨ c = ':'

/-- A group is written with such characters. -/
theorem chars_of_readGroup? {s : List Char} {n : Nat} (h : readGroup? s = some n) :
    ∀ c ∈ s, IsAddressChar c := by
  obtain ⟨-, h⟩ := Option.ite_none_right_eq_some.1 h
  obtain ⟨-, h⟩ := Option.ite_none_left_eq_some.1 h
  exact fun c hc => .inl (Ipv4.isDigit_of_valueFrom h c hc).isAlphanum

/-- The last groups are written with such characters. -/
theorem chars_of_readLast? {parts : List (List Char)} {groups : List Nat}
    (h : readLast? parts = some groups) : ∀ s ∈ parts, ∀ c ∈ s, IsAddressChar c := by
  fun_induction readLast? parts generalizing groups with
  | case1 => exact List.forall_mem_nil _
  | case2 last group hg => exact List.forall_mem_singleton.2 (chars_of_readGroup? hg)
  | case3 last a b c d hb =>
    refine List.forall_mem_singleton.2 fun x hx => ?_
    rcases Ipv4.chars_of_readStrict? hb x hx with hd | rfl
    · exact .inl (by simp [Char.isAlphanum, hd])
    · exact .inr (.inl rfl)
  | case4 => cases h
  | case5 piece rest _ ih =>
    obtain ⟨group, hg, h⟩ := Option.bind_eq_some_iff.1 h
    obtain ⟨others, hothers, -⟩ := Option.bind_eq_some_iff.1 h
    exact List.forall_mem_cons.2 ⟨chars_of_readGroup? hg, ih hothers⟩

/-- A text of groups is written with such characters if its groups are. -/
theorem chars_of_groupPieces {s : List Char}
    (h : ∀ piece ∈ groupPieces s, ∀ c ∈ piece, IsAddressChar c) : ∀ c ∈ s, IsAddressChar c := by
  intro c hc
  have hpieces : groupPieces s = pieces ':' s := if_neg (by simpa using List.ne_nil_of_mem hc)
  rw [hpieces] at h
  rcases eq_or_mem_piece ':' hc with rfl | ⟨piece, hp, hm⟩
  · exact .inr (.inr rfl)
  · exact h piece hp c hm

/-- An address of eight groups is written with digits, dots and colons. -/
theorem chars_of_read? {s : List Char} {groups : List Nat} (h : read? s = some groups) :
    ∀ c ∈ s, IsAddressChar c := by
  unfold read? at h
  split at h
  · exact chars_of_groupPieces (chars_of_readLast? (Option.filter_eq_some_iff.1 h).1)
  · rename_i front back hc
    obtain ⟨before, hbefore, h⟩ := Option.bind_eq_some_iff.1 h
    obtain ⟨after, hafter, -⟩ := Option.bind_eq_some_iff.1 h
    have hfront : ∀ piece ∈ groupPieces front, ∀ c ∈ piece, IsAddressChar c := fun piece hp => by
      obtain ⟨n, hn⟩ := exists_of_mapM_eq_some hbefore piece hp
      exact chars_of_readGroup? hn
    rw [cutPattern_eq_some hc, List.forall_mem_append, List.forall_mem_append]
    exact ⟨⟨chars_of_groupPieces hfront, by simp [IsAddressChar]⟩,
      chars_of_groupPieces (chars_of_readLast? hafter)⟩

end Ipv6

namespace CrossOrigin

/-! ### Origins as they are written -/

/-- The schemes of the web. -/
def webSchemes : List (List Char) := ["http".toList, "https".toList]

/-- Characters that stand for themselves in a host: letters, digits and signs, but no star. -/
def isHostChar (c : Char) : Bool := c.isAlphanum || "-._~!$&'()+,;=".toList.contains c

/-- Registered names: characters that stand for themselves, and bytes by their codes. -/
inductive RegisteredName : List Char → Prop where
  | nil : RegisteredName []
  | char {c : Char} {rest : List Char} (hc : isHostChar c = true) (hr : RegisteredName rest) :
      RegisteredName (c :: rest)
  | code {high low : Char} {rest : List Char} (hh : Base16.IsDigit high) (hl : Base16.IsDigit low)
      (hr : RegisteredName rest) : RegisteredName ('%' :: high :: low :: rest)

/-- Addresses in brackets: eight groups, or an address of a later version, which is named in front. -/
inductive AddressLiteral : List Char → Prop where
  | groups {address : List Char} {groups : List Nat} (h : Ipv6.read? address = some groups) :
      AddressLiteral ('[' :: (address ++ [']']))
  | future {mark : Char} {version address : List Char} (hm : mark = 'v' ∨ mark = 'V')
      (hv : version ≠ [] ∧ ∀ c ∈ version, Base16.IsDigit c)
      (ha : address ≠ [] ∧ ∀ c ∈ address, isHostChar c = true ∨ c = ':') :
      AddressLiteral ('[' :: mark :: (version ++ '.' :: (address ++ [']'])))

/-- The host of an origin: a registered name that is not empty, or an address in brackets. -/
def Host (host : List Char) : Prop := host ≠ [] ∧ RegisteredName host ∨ AddressLiteral host

/-- What names the port of an origin: nothing, or a colon and a decimal number. -/
def Port (port : List Char) : Prop :=
  port = [] ∨ ∃ digits, port = ':' :: digits ∧ digits ≠ [] ∧ ∀ c ∈ digits, c.isDigit = true

/-- An origin of the web as it is written: a scheme, a host, and a port or none. -/
def Written (origin : String) : Prop :=
  ∃ scheme ∈ webSchemes, ∃ host port, Host host ∧ Port port ∧
    origin.toList = scheme ++ (schemeMark ++ (host ++ port))

/-- What is taken for an origin: a scheme of the web, and behind it something without a slash. -/
def Taken (origin : String) : Prop :=
  ∃ scheme ∈ webSchemes, ∃ authority, authority ≠ [] ∧ '/' ∉ authority ∧
    origin.toList = scheme ++ (schemeMark ++ authority)

/-- The characters of the authority of an origin. -/
def isAuthorityChar (c : Char) : Bool := isHostChar c || "%:[]".toList.contains c

/-- Characters of hosts may stand in an authority. -/
theorem isAuthorityChar_of_isHostChar {c : Char} (h : isHostChar c = true) :
    isAuthorityChar c = true := by
  rw [isAuthorityChar, h, Bool.true_or]

/-- Letters and digits may stand in an authority. -/
theorem isAuthorityChar_of_isAlphanum {c : Char} (h : c.isAlphanum = true) :
    isAuthorityChar c = true :=
  isAuthorityChar_of_isHostChar (by rw [isHostChar, h, Bool.true_or])

/-- Registered names are written with such characters. -/
theorem RegisteredName.chars {host : List Char} (h : RegisteredName host) :
    ∀ c ∈ host, isAuthorityChar c = true := by
  induction h with
  | nil => exact List.forall_mem_nil _
  | char hc _ ih => exact List.forall_mem_cons.2 ⟨isAuthorityChar_of_isHostChar hc, ih⟩
  | code hh hl _ ih =>
    rw [List.forall_mem_cons, List.forall_mem_cons, List.forall_mem_cons]
    exact ⟨by decide, isAuthorityChar_of_isAlphanum hh.isAlphanum,
      isAuthorityChar_of_isAlphanum hl.isAlphanum, ih⟩

/-- Addresses in brackets are written with such characters. -/
theorem AddressLiteral.chars {host : List Char} (h : AddressLiteral host) :
    ∀ c ∈ host, isAuthorityChar c = true := by
  have hend : ∀ c ∈ [']'], isAuthorityChar c = true := List.forall_mem_singleton.2 (by decide)
  cases h with
  | groups h =>
    refine List.forall_mem_cons.2 ⟨by decide, List.forall_mem_append.2 ⟨fun c hc => ?_, hend⟩⟩
    rcases Ipv6.chars_of_read? h c hc with ha | rfl | rfl
    · exact isAuthorityChar_of_isAlphanum ha
    · decide
    · decide
  | @future mark version address hm hv ha =>
    have hmark : isAuthorityChar mark = true := by rcases hm with rfl | rfl <;> decide
    have hversion : ∀ c ∈ version, isAuthorityChar c = true :=
      fun c hc => isAuthorityChar_of_isAlphanum (hv.2 c hc).isAlphanum
    have haddress : ∀ c ∈ address, isAuthorityChar c = true := fun c hc => by
      rcases ha.2 c hc with hchar | rfl
      · exact isAuthorityChar_of_isHostChar hchar
      · decide
    rw [List.forall_mem_cons, List.forall_mem_cons, List.forall_mem_append, List.forall_mem_cons,
      List.forall_mem_append]
    exact ⟨by decide, hmark, hversion, by decide, haddress, hend⟩

/-- Hosts are written with such characters. -/
theorem Host.chars {host : List Char} (h : Host host) : ∀ c ∈ host, isAuthorityChar c = true :=
  h.elim (fun h => h.2.chars) AddressLiteral.chars

/-- A host is not empty. -/
theorem Host.ne_nil {host : List Char} (h : Host host) : host ≠ [] := by
  rcases h with ⟨hne, -⟩ | h
  · exact hne
  · cases h <;> exact List.cons_ne_nil _ _

/-- Ports are written with such characters. -/
theorem Port.chars {port : List Char} (h : Port port) : ∀ c ∈ port, isAuthorityChar c = true := by
  rcases h with rfl | ⟨digits, rfl, -, hd⟩
  · exact List.forall_mem_nil _
  · refine List.forall_mem_cons.2 ⟨by decide, fun c hc => isAuthorityChar_of_isAlphanum ?_⟩
    rw [Char.isAlphanum, hd c hc, Bool.or_true]

/-- Origins are taken for origins. -/
theorem Written.taken {origin : String} (h : Written origin) : Taken origin := by
  obtain ⟨scheme, hs, host, port, hh, hp, he⟩ := h
  refine ⟨scheme, hs, host ++ port, ?_, fun hm => ?_, he⟩
  · exact List.append_ne_nil_of_left_ne_nil hh.ne_nil port
  · have hall := List.forall_mem_append.2 ⟨hh.chars, hp.chars⟩
    exact absurd (hall '/' hm) (by decide)

/-- The authority of an origin has no other characters than hosts and ports have. -/
theorem Written.chars {scheme authority : List Char} (hs : scheme ∈ webSchemes)
    (h : Written (String.ofList (scheme ++ (schemeMark ++ authority)))) :
    ∀ c ∈ authority, isAuthorityChar c = true := by
  obtain ⟨scheme', hs', host, port, hh, hp, he⟩ := h
  have hcut {s : List Char} (hs : s ∈ webSchemes) (t : List Char) :
      cutPattern schemeMark (s ++ (schemeMark ++ t)) = some (s, t) := by
    have hcolon : ∀ s ∈ webSchemes, ':' ∉ s := by decide
    exact cutPattern_append (hcolon s hs) "//".toList t
  rw [String.toList_ofList] at he
  have hsame := (hcut hs authority).symm.trans (he ▸ hcut hs' (host ++ port))
  obtain ⟨-, rfl⟩ := Prod.mk.inj (Option.some.inj hsame)
  exact List.forall_mem_append.2 ⟨hh.chars, hp.chars⟩

/-! ### The check -/

/-- The check takes exactly what has a scheme of the web and something without a slash behind it. -/
theorem isOrigin_iff {origin : String} : isOrigin origin = true ↔ Taken origin := by
  unfold isOrigin Taken
  constructor
  · intro h
    split at h
    · rename_i scheme authority hc
      obtain ⟨he, -⟩ := (cutPattern_eq_some_iff (by decide)).1 hc
      simp only [Bool.and_eq_true, Bool.or_eq_true, beq_iff_eq, Bool.not_eq_true',
        List.isEmpty_eq_false_iff, List.contains_eq_mem, decide_eq_false_iff_not] at h
      exact ⟨scheme, by simpa [webSchemes] using h.1.1, authority, h.1.2, h.2, he⟩
    · cases h
  · rintro ⟨scheme, hs, authority, hne, hslash, he⟩
    have hcolon : ∀ s ∈ webSchemes, ':' ∉ s := by decide
    have hcut : cutPattern schemeMark origin.toList = some (scheme, authority) := by
      rw [he]
      exact cutPattern_append (hcolon scheme hs) "//".toList authority
    have hweb : (scheme == "http".toList || scheme == "https".toList) = true := by
      rwa [Bool.or_eq_true, beq_iff_eq, beq_iff_eq, ← List.mem_pair]
    simp only [hcut, hweb, Bool.true_and]
    simp [hne, hslash]

/-- The star alone is not taken for an origin. -/
theorem Taken.ne_star {origin : String} (h : Taken origin) : origin ≠ "*" := by
  obtain ⟨scheme, hs, authority, -, -, he⟩ := h
  have hhead : ∀ s ∈ webSchemes, s.head? = some 'h' := by decide
  rintro rfl
  have hstar : "*".toList.head? = some 'h' := by
    rw [he, List.head?_append, hhead scheme hs, Option.some_or]
  exact absurd hstar (by decide)

/-- The error for what is no origin. The star is named on its own. -/
def refusalOf (origin : String) : SetupError :=
  if origin = "*" then .wildcardOrigin else .invalidOrigin origin

/-- The error tells what was refused. -/
theorem refusalOf_injective {origin other : String} (h : refusalOf origin = refusalOf other) :
    origin = other := by
  unfold refusalOf at h
  split at h <;> split at h <;> simp_all

/-- The outcome of a check that goes through a list: all origins pass and are listed, or the first that does
not pass is the error. -/
inductive Settled (passes : String → Prop) : List String → Except SetupError CrossOrigin → Prop where
  | listed {origins : List String} {c : CrossOrigin} (hc : c.origins = origins)
      (h : ∀ origin ∈ origins, passes origin) : Settled passes origins (.ok c)
  | refused {front back : List String} {origin : String} (hf : ∀ earlier ∈ front, passes earlier)
      (ho : ¬ passes origin) :
      Settled passes (front ++ origin :: back) (.error (refusalOf origin))

/-- Either all origins are taken, or the first that is not gives the error. -/
theorem checkOrigins_cases (origins : List String) :
    checkOrigins origins = .ok () ∧ (∀ origin ∈ origins, Taken origin) ∨
    ∃ front origin back, origins = front ++ origin :: back ∧ (∀ earlier ∈ front, Taken earlier) ∧
      ¬ Taken origin ∧ checkOrigins origins = .error (refusalOf origin) := by
  induction origins with
  | nil => exact .inl ⟨rfl, List.forall_mem_nil _⟩
  | cons origin rest ih =>
    by_cases ht : Taken origin
    · have hstep : checkOrigins (origin :: rest) = checkOrigins rest := by
        simp [checkOrigins, ht.ne_star, isOrigin_iff.2 ht]
      rw [hstep, List.forall_mem_cons]
      rcases ih with ⟨hok, hall⟩ | ⟨front, first, back, rfl, hf, hn, he⟩
      · exact .inl ⟨hok, ht, hall⟩
      · exact .inr ⟨origin :: front, first, back, rfl, List.forall_mem_cons.2 ⟨ht, hf⟩, hn, he⟩
    · refine .inr ⟨[], origin, rest, rfl, List.forall_mem_nil _, ht, ?_⟩
      have hnot : isOrigin origin = false := Bool.eq_false_iff.2 fun h => ht (isOrigin_iff.1 h)
      unfold checkOrigins refusalOf
      split <;> simp [hnot]

/-- The check goes by what is taken for an origin. -/
theorem settled_ofOrigins (origins : List String) : Settled Taken origins (ofOrigins origins) := by
  unfold ofOrigins
  rcases checkOrigins_cases origins with ⟨hok, hall⟩ | ⟨front, origin, back, rfl, hf, hn, he⟩
  · rw [hok]
    exact .listed rfl hall
  · rw [he]
    exact .refused hf hn

/-- A front part whose members all pass ends before the first that does not. -/
theorem prefix_of_refused {passes : String → Prop} {front others back : List String} {origin : String}
    (hf : front <+: others ++ origin :: back) (hall : ∀ earlier ∈ front, passes earlier)
    (hn : ¬ passes origin) : front <+: others := by
  obtain ⟨rest, he⟩ := hf
  rcases List.append_eq_append_iff.1 he with ⟨v, rfl, -⟩ | ⟨v, rfl, hv⟩
  · exact List.prefix_append front v
  · cases v with
    | nil => simp
    | cons x v =>
      obtain ⟨rfl, -⟩ := List.cons.inj hv
      exact absurd (hall origin (by simp)) hn

/-- A refusal names the first origin that does not pass. -/
theorem Settled.exists_refused {passes : String → Prop} {origins : List String} {e : SetupError}
    (h : Settled passes origins (.error e)) :
    ∃ front origin back, origins = front ++ origin :: back ∧ (∀ earlier ∈ front, passes earlier) ∧
      ¬ passes origin ∧ e = refusalOf origin := by
  cases h with
  | refused hf ho => exact ⟨_, _, _, rfl, hf, ho, rfl⟩

/-- Two checks, one of which passes no more than the other, have the same outcome exactly if they agree on
every member up to the first that is refused by the other. -/
theorem Settled.iff_of_imp {passes strict : String → Prop} {origins : List String}
    {outcome : Except SetupError CrossOrigin} (h : Settled passes origins outcome)
    (hi : ∀ origin, strict origin → passes origin) :
    Settled strict origins outcome ↔
      ∀ front, front <+: origins → (∀ origin ∈ front, passes origin) →
        ∀ origin ∈ front, strict origin := by
  constructor
  · intro hs front hf hall
    match outcome, h, hs with
    | .ok _, _, .listed _ hs => exact fun origin hm => hs origin (hf.subset hm)
    | .error e, h, hs =>
      obtain ⟨-, first, -, -, -, hn, hr⟩ := h.exists_refused
      obtain ⟨before, first', back, rfl, hb, -, hr'⟩ := hs.exists_refused
      obtain rfl := refusalOf_injective (hr'.symm.trans hr)
      have hfront : front <+: before := prefix_of_refused hf hall hn
      exact fun origin hm => hb origin (hfront.subset hm)
  · intro hagree
    cases h with
    | listed hc h => exact .listed hc (hagree _ List.prefix_rfl h)
    | refused hf hn =>
      exact .refused (hagree _ (List.prefix_append _ _) hf) fun hs => hn (hi _ hs)

/-- What is listed and what is refused. The check takes for an origin what has a scheme of the web and
something without a slash behind it, and the first text that has not is the error. All origins of the web
are taken; so the outcome is that of a check for origins of the web exactly if everything up to the first
text that is refused is one, and not only something with a scheme and without a slash. -/
theorem settled_as_written_iff (origins : List String) :
    Settled Taken origins (ofOrigins origins) ∧
    (∀ origin, Written origin → Taken origin) ∧
    (Settled Written origins (ofOrigins origins) ↔
      ∀ front, front <+: origins → (∀ origin ∈ front, Taken origin) →
        ∀ origin ∈ front, Written origin) :=
  ⟨settled_ofOrigins origins, fun _ => Written.taken,
    (settled_ofOrigins origins).iff_of_imp fun _ => Written.taken⟩

/-- A user in front of the host is taken for a part of the origin. -/
theorem user_is_taken :
    Taken "https://user@a.example" ∧ ¬ Written "https://user@a.example" ∧
      ¬ Settled Written ["https://user@a.example"] (ofOrigins ["https://user@a.example"]) := by
  have ht : Taken "https://user@a.example" := isOrigin_iff.1 (by decide)
  have hw : ¬ Written "https://user@a.example" := fun h => by
    have hchars : ∀ c ∈ "user@a.example".toList, isAuthorityChar c = true :=
      Written.chars (by decide : "https".toList ∈ webSchemes) h
    exact absurd (hchars '@' (by decide)) (by decide)
  refine ⟨ht, hw, fun hs => hw ?_⟩
  obtain ⟨-, -, hiff⟩ := settled_as_written_iff ["https://user@a.example"]
  exact hiff.1 hs _ List.prefix_rfl (List.forall_mem_singleton.2 ht) _ List.mem_cons_self

end CrossOrigin

end Palisade
