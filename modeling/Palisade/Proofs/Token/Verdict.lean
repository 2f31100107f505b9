import Palisade.Proofs.Text.Numerals
import Palisade.Proofs.Token.Message

/-!
# What is said of a token

A token is a text that anybody may have written. What is said of it is settled by three things: its
signature and its time, which stand before and behind its last colon, the time at which it is looked at,
and what the key makes of the user, the action and the time of the token. The main statement says which
tokens are good, and of all others which error is the first that applies, with sums of times that are not
cut off. The last millisecond of the clock is left out: there every token has expired.
-/
namespace Palisade

open Palisade.Text

/-! ### The code of signatures -/

namespace Base64

/-- A character with a number is the one that the number is written with. -/
theorem urlSafe_char_of_value? {c : Char} {n : Nat} (h : urlSafe.value? c = some n) :
    n < 64 ∧ urlSafe.char n = c := by
  have hself : Char.ofNat c.toNat = c := Char.ofNat_toNat c
  unfold Alphabet.value? at h
  split at h
  · rename_i hc
    have hlow : 65 ≤ c.toNat := (of_decide_eq_true hc).1
    have hhigh : c.toNat ≤ 90 := (of_decide_eq_true hc).2
    obtain rfl := Option.some.inj h
    refine ⟨by omega, ?_⟩
    rw [Alphabet.char, if_pos (by omega), Nat.add_sub_cancel' hlow, hself]
  split at h
  · rename_i hc
    have hboth := Bool.and_eq_true_iff.1 hc
    have hlow : 97 ≤ c.toNat := of_decide_eq_true hboth.1
    have hhigh : c.toNat ≤ 122 := of_decide_eq_true hboth.2
    obtain rfl := Option.some.inj h
    have hsum : 0x61 + (c.toNat - 0x61 + 26 - 26) = c.toNat := by omega
    refine ⟨by omega, ?_⟩
    rw [Alphabet.char, if_neg (by omega), if_pos (by omega), hsum, hself]
  split at h
  · rename_i hc
    rw [Char.isDigit_iff_toNat] at hc
    have hlow : 48 ≤ c.toNat := hc.1
    have hhigh : c.toNat ≤ 57 := hc.2
    obtain rfl := Option.some.inj h
    have hsum : 0x30 + (c.toNat - 0x30 + 52 - 52) = c.toNat := by omega
    refine ⟨by omega, ?_⟩
    rw [Alphabet.char, if_neg (by omega), if_neg (by omega), if_pos (by omega), hsum, hself]
  split at h
  · rename_i hc
    obtain rfl := Option.some.inj h
    exact ⟨by omega, hc.symm⟩
  split at h
  · rename_i hc
    obtain rfl := Option.some.inj h
    exact ⟨by omega, hc.symm⟩
  · cases h

/-- What is read is written so, and in no other way. -/
theorem encode_of_decode {s : List Char} {bytes : Bytes} (h : decode urlSafe s = some bytes) :
    encode urlSafe bytes = s := by
  have byte {n : Nat} (hn : n < 256) : (UInt8.ofNat n).toNat = n := by
    rw [UInt8.toNat_ofNat', Nat.mod_eq_of_lt hn]
  fun_induction decode urlSafe s generalizing bytes with
  | case1 =>
    cases h
    rfl
  | case2 => cases h
  | case3 p q =>
    simp only [Option.bind_eq_bind, Option.bind_eq_some_iff] at h
    obtain ⟨m, hm, n, hn, h⟩ := h
    obtain ⟨hm64, rfl⟩ := urlSafe_char_of_value? hm
    obtain ⟨hn64, rfl⟩ := urlSafe_char_of_value? hn
    split at h
    · rename_i hzero
      obtain rfl := Option.some.inj h
      have e₁ : (m * 4 + n / 16) / 4 = m := by omega
      have e₂ : (m * 4 + n / 16) % 4 * 16 = n := by omega
      rw [encode, byte (by omega), e₁, e₂]
    · cases h
  | case4 p q r =>
    simp only [Option.bind_eq_bind, Option.bind_eq_some_iff] at h
    obtain ⟨m, hm, n, hn, k, hk, h⟩ := h
    obtain ⟨hm64, rfl⟩ := urlSafe_char_of_value? hm
    obtain ⟨hn64, rfl⟩ := urlSafe_char_of_value? hn
    obtain ⟨hk64, rfl⟩ := urlSafe_char_of_value? hk
    split at h
    · rename_i hzero
      obtain rfl := Option.some.inj h
      have e₁ : (m * 4 + n / 16) / 4 = m := by omega
      have e₂ : (m * 4 + n / 16) % 4 * 16 + (n % 16 * 16 + k / 4) / 16 = n := by omega
      have e₃ : (n % 16 * 16 + k / 4) % 16 * 4 = k := by omega
      rw [encode, byte (by omega), byte (by omega), e₁, e₂, e₃]
    · cases h
  | case5 p q r s rest ih =>
    simp only [Option.bind_eq_bind, Option.bind_eq_some_iff] at h
    obtain ⟨m, hm, n, hn, k, hk, l, hl, others, ho, h⟩ := h
    obtain ⟨hm64, rfl⟩ := urlSafe_char_of_value? hm
    obtain ⟨hn64, rfl⟩ := urlSafe_char_of_value? hn
    obtain ⟨hk64, rfl⟩ := urlSafe_char_of_value? hk
    obtain ⟨hl64, rfl⟩ := urlSafe_char_of_value? hl
    obtain rfl := Option.some.inj h
    have e₁ : (m * 4 + n / 16) / 4 = m := by omega
    have e₂ : (m * 4 + n / 16) % 4 * 16 + (n % 16 * 16 + k / 4) / 16 = n := by omega
    have e₃ : (n % 16 * 16 + k / 4) % 16 * 4 + (k % 4 * 64 + l) / 64 = k := by omega
    have e₄ : (k % 4 * 64 + l) % 64 = l := by omega
    rw [encode, byte (by omega), byte (by omega), byte (by omega), e₁, e₂, e₃, e₄, ih ho]

/-- Bytes are read from exactly the text that they are written as. -/
theorem decode_eq_some_iff {s : List Char} {bytes : Bytes} :
    decode urlSafe s = some bytes ↔ s = encode urlSafe bytes := by
  constructor
  · intro h
    exact (encode_of_decode h).symm
  · rintro rfl
    exact decode_encode_urlSafe bytes

end Base64

namespace Token

variable {key : TokenKey} {token user action : String} {signed : List Char} {issued now : Nat}

/-! ### Signatures and times -/

/-- A token with a signature, as it is written, and a time: what stands before and behind its last colon. -/
def Dated (token : String) (signed : List Char) (issued : Nat) : Prop :=
  ∃ time, token.toList = signed ++ ':' :: time ∧ ':' ∉ time ∧ Numeral time issued ∧
    issued ≤ largest64

/-- A token splits into a signature and a time exactly if it is dated so. -/
theorem split?_eq_some_iff : split? token = some (signed, issued) ↔ Dated token signed issued := by
  unfold split? Dated
  constructor
  · intro h
    split at h
    · rename_i before time hcut
      obtain ⟨millis, hread, he⟩ := Option.map_eq_some_iff.1 h
      simp only [Prod.mk.injEq] at he
      obtain ⟨rfl, rfl⟩ := he
      obtain ⟨htoken, hcolon⟩ := cutAtLast_eq_some hcut
      obtain ⟨hnumeral, hle⟩ := readNat?_eq_some_iff.1 hread
      rw [String.toList_ofList] at hnumeral
      exact ⟨time, htoken, hcolon, hnumeral, hle⟩
    · cases h
  · rintro ⟨time, htoken, hcolon, hnumeral, hle⟩
    have hread : readNat? largest64 (String.ofList time) = some issued := by
      rw [readNat?_eq_some_iff, String.toList_ofList]
      exact ⟨hnumeral, hle⟩
    rw [htoken, cutAtLast_append _ hcolon]
    simp only [hread, Option.map_some]

/-- A token does not split exactly if it is not dated at all. -/
theorem split?_eq_none_iff :
    split? token = none ↔ ∀ signed issued, ¬ Dated token signed issued := by
  simp only [Option.eq_none_iff_forall_ne_some, Prod.forall, ne_eq, split?_eq_some_iff]

/-- A token that is issued has the date of its issue. -/
theorem dated_issue (key : TokenKey) (user action : String) (h : issued ≤ largest64) :
    Dated (issue key user action issued)
      (Base64.encode Base64.urlSafe (signature key user action issued)) issued :=
  split?_eq_some_iff.1 (split?_issue key user action h)

/-! ### Times -/

/-- A token that was issued at a time is neither from the future nor expired. -/
def Holds (issued now : Nat) : Prop := issued ≤ now + 60000 ∧ now < issued + 86400000

/-- A sum that is cut off is above every time of a token or below none. -/
theorem sumWithin_skew_lt_iff (h : issued ≤ largest64) :
    sumWithin now clockSkew < issued ↔ now + 60000 < issued := by
  unfold sumWithin clockSkew
  omega

/-- The end of validity, cut off or not, is passed at the same times. -/
theorem sumWithin_validity_le_iff (h : now < largest64) :
    sumWithin issued validity ≤ now ↔ issued + 86400000 ≤ now := by
  unfold sumWithin validity
  omega

/-! ### Verdicts -/

/-- What is wrong with a token, for a user and an action at a time: the first of these things. -/
inductive Refused (key : TokenKey) (token user action : String) (now : Nat) : TokenError → Prop where
  /-- It has no colon, or behind its last one no time. -/
  | undated (h : ∀ signed issued, ¬ Dated token signed issued) :
      Refused key token user action now .malformed
  | fromFuture {signed : List Char} {issued : Nat} (dated : Dated token signed issued)
      (h : now + 60000 < issued) : Refused key token user action now .fromFuture
  | expired {signed : List Char} {issued : Nat} (dated : Dated token signed issued)
      (begun : issued ≤ now + 60000) (h : issued + 86400000 ≤ now) :
      Refused key token user action now .expired
  /-- What stands for its signature is the code of no bytes. -/
  | unreadable {signed : List Char} {issued : Nat} (dated : Dated token signed issued)
      (holds : Holds issued now) (h : ∀ code, signed ≠ Base64.encode Base64.urlSafe code) :
      Refused key token user action now .malformed
  /-- It has another signature. -/
  | forged {code : Bytes} {issued : Nat}
      (dated : Dated token (Base64.encode Base64.urlSafe code) issued) (holds : Holds issued now)
      (h : code ≠ Hmac.code key.bytes (encode (message user action issued))) :
      Refused key token user action now .invalid

/-- What is said of a token that has a signature and a time. -/
theorem check_of_dated (h : Dated token signed issued) (hnow : now < largest64) :
    check key token user action now =
      if now + 60000 < issued then .error .fromFuture
      else if issued + 86400000 ≤ now then .error .expired
      else match Base64.decode Base64.urlSafe signed with
        | none => .error .malformed
        | some code =>
          if code = signature key user action issued then .ok () else .error .invalid := by
  obtain ⟨-, -, -, -, hlt⟩ := id h
  unfold check
  rw [split?_eq_some_iff.2 h]
  refine ite_congr (propext (sumWithin_skew_lt_iff hlt)) (fun _ => rfl) fun _ => ?_
  exact ite_congr (propext (sumWithin_validity_le_iff hnow)) (fun _ => rfl) fun _ => rfl

/-- A token is good, or it is refused for the first thing that is wrong with it. -/
theorem check_cases (key : TokenKey) (token user action : String) (hnow : now < largest64) :
    (check key token user action now = .ok () ∧
        ∃ issued, Dated token (Base64.encode Base64.urlSafe (signature key user action issued)) issued ∧
          Holds issued now) ∨
      ∃ e, check key token user action now = .error e ∧ Refused key token user action now e := by
  cases hs : split? token with
  | none =>
    refine .inr ⟨.malformed, ?_, .undated (split?_eq_none_iff.1 hs)⟩
    rw [check, hs]
  | some p =>
    obtain ⟨signed, issued⟩ := p
    have hd := split?_eq_some_iff.1 hs
    rw [check_of_dated hd hnow]
    by_cases hfuture : now + 60000 < issued
    · rw [if_pos hfuture]
      exact .inr ⟨_, rfl, .fromFuture hd hfuture⟩
    by_cases hpast : issued + 86400000 ≤ now
    · rw [if_neg hfuture, if_pos hpast]
      exact .inr ⟨_, rfl, .expired hd (Nat.not_lt.1 hfuture) hpast⟩
    have hh : Holds issued now := ⟨Nat.not_lt.1 hfuture, Nat.not_le.1 hpast⟩
    rw [if_neg hfuture, if_neg hpast]
    cases hb : Base64.decode Base64.urlSafe signed with
    | none =>
      refine .inr ⟨_, rfl, .unreadable hd hh fun code he => ?_⟩
      rw [Base64.decode_eq_some_iff.2 he] at hb
      cases hb
    | some code =>
      obtain rfl := Base64.decode_eq_some_iff.1 hb
      by_cases hc : code = signature key user action issued
      · subst hc
        exact .inl ⟨if_pos rfl, issued, hd, hh⟩
      · exact .inr ⟨_, if_neg hc, .forged hd hh hc⟩

/-- A token that is refused for something is not good, and is refused for nothing else. -/
theorem Refused.check_eq {e : TokenError} (h : Refused key token user action now e)
    (hnow : now < largest64) : check key token user action now = .error e := by
  cases h with
  | undated h => rw [check, split?_eq_none_iff.2 h]
  | fromFuture dated h => rw [check_of_dated dated hnow, if_pos h]
  | expired dated begun h => rw [check_of_dated dated hnow, if_neg (Nat.not_lt.2 begun), if_pos h]
  | @unreadable signed issued dated holds h =>
    have hb : Base64.decode Base64.urlSafe signed = none := by
      rw [Option.eq_none_iff_forall_ne_some]
      exact fun code hc => h code (Base64.decode_eq_some_iff.1 hc)
    rw [check_of_dated dated hnow, if_neg (Nat.not_lt.2 holds.1), if_neg (Nat.not_le.2 holds.2), hb]
  | forged dated holds h =>
    rw [check_of_dated dated hnow, if_neg (Nat.not_lt.2 holds.1), if_neg (Nat.not_le.2 holds.2),
      Base64.decode_encode_urlSafe]
    exact if_neg h

/-- What is said of any token before the last millisecond of the clock. It is good exactly if it is a
signature, a colon and a time, if this time is at most a minute from now and less than a day ago, and if
the signature is the code of what the key makes of the message; and every other token is refused for the
first thing that is wrong with it. So a token that the key has issued for the user and the action is from
the future, expired or good, by its time alone. -/
theorem verdict (key : TokenKey) (token user action : String) (hnow : now < largest64) :
    (check key token user action now = .ok () ↔
      ∃ signed issued, Dated token signed issued ∧ issued ≤ now + 60000 ∧ now < issued + 86400000 ∧
        signed = Base64.encode Base64.urlSafe
          (Hmac.code key.bytes (encode (message user action issued)))) ∧
    (∀ e, check key token user action now = .error e ↔ Refused key token user action now e) ∧
    ∀ millis ≤ largest64, check key (issue key user action millis) user action now =
      if now + 60000 < millis then .error .fromFuture
      else if millis + 86400000 ≤ now then .error .expired
      else .ok () := by
  refine ⟨⟨fun hok => ?_, ?_⟩, fun e => ⟨fun he => ?_, fun h => h.check_eq hnow⟩, ?_⟩
  · rcases check_cases key token user action hnow with ⟨-, issued, hd, hh⟩ | ⟨e, he, -⟩
    · exact ⟨_, issued, hd, hh.1, hh.2, rfl⟩
    · rw [hok] at he
      cases he
  · rintro ⟨signed, issued, hd, hskew, hday, rfl⟩
    rw [check_of_dated hd hnow, if_neg (Nat.not_lt.2 hskew), if_neg (Nat.not_le.2 hday),
      Base64.decode_encode_urlSafe]
    exact if_pos rfl
  · rcases check_cases key token user action hnow with ⟨hok, -⟩ | ⟨e', he', hr⟩
    · rw [hok] at he
      cases he
    · rw [he'] at he
      cases he
      exact hr
  · intro millis hlt
    rw [check_of_dated (dated_issue key user action hlt) hnow, Base64.decode_encode_urlSafe]
    simp only [if_true]

/-- Where sums of times no longer fit into sixty-four bits: a token of the last millisecond of the clock is
good the millisecond before, and one with a sign and a zero before its time is looked at as far as its
signature, which leaves bits over. -/
theorem verdict_near_the_end :
    let now := 18446744073709551614
    now < largest64 ∧
      check ⟨[107]⟩ (issue ⟨[107]⟩ "u" "a" largest64) "u" "a" now = .ok () ∧
      Refused ⟨[107]⟩ "AAB:+018446744073709551614" "u" "a" now .malformed := by
  intro now
  have hnow : now < largest64 := by decide +kernel
  have hdated : Dated "AAB:+018446744073709551614" ['A', 'A', 'B'] now :=
    split?_eq_some_iff.1 (by decide +kernel)
  have hunread : Base64.decode Base64.urlSafe ['A', 'A', 'B'] = none := by decide
  obtain ⟨-, -, hissued⟩ :=
    verdict ⟨[107]⟩ (issue ⟨[107]⟩ "u" "a" largest64) "u" "a" hnow
  obtain ⟨-, hrefused, -⟩ := verdict ⟨[107]⟩ "AAB:+018446744073709551614" "u" "a" hnow
  refine ⟨hnow, ?_, (hrefused .malformed).1 ?_⟩
  · rw [hissued largest64 (Nat.le_refl _), if_neg (by decide +kernel), if_neg (by decide +kernel)]
  · rw [check_of_dated hdated hnow, if_neg (by decide), if_neg (by decide), hunread]

end Token

end Palisade
