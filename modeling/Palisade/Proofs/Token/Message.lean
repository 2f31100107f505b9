import Palisade.Security.Token

/-!
# What a signature stands for

The message under a token joins a user, an action and a time with colons, and marks the colons inside
the parts. The mark is not marked itself, so a user that ends in it can pass for a colon. The main
statements say exactly which users and actions share a message, and that a token of one is good for
the other exactly then, as long as the digest does not confuse two messages. That nobody finds two
messages with one digest is not stated here: it is not true of all pairs of messages.
-/
namespace Palisade.Token

open Palisade.Text

/-! ### Parts -/

/-- A part is cleaned character by character. -/
theorem cleanPart_cons (c : Char) (s : List Char) :
    cleanPart (c :: s) = (if c = ':' then ['_', ':'] else [c]) ++ cleanPart s := rfl

/-- No part begins with a bare colon. -/
theorem cleanPart_ne_colon_cons (s t : List Char) : cleanPart s ≠ ':' :: t := by
  cases s with
  | nil => simp [cleanPart]
  | cons c s =>
    rw [cleanPart_cons]
    split
    · simp
    · rename_i hc
      simp [hc]

/-- Two parts with a colon behind them are told apart by the first character unless both are
empty. -/
theorem cleanPart_append_eq_colon_cons {s t r : List Char}
    (h : cleanPart s ++ ':' :: t = ':' :: r) : s = [] ∧ t = r := by
  cases s with
  | nil => simpa [cleanPart] using h
  | cons c s =>
    rw [cleanPart_cons] at h
    split at h
    · simp at h
    · rename_i hc
      simp [hc] at h

/-- Marking colons loses nothing. -/
theorem cleanPart_injective {s t : List Char} (h : cleanPart s = cleanPart t) : s = t := by
  induction s generalizing t with
  | nil =>
    cases t with
    | nil => rfl
    | cons d t => rw [cleanPart_cons] at h; split at h <;> simp [cleanPart] at h
  | cons c s ih =>
    cases t with
    | nil => rw [cleanPart_cons] at h; split at h <;> simp [cleanPart] at h
    | cons d t =>
      rw [cleanPart_cons, cleanPart_cons] at h
      by_cases hc : c = ':' <;> by_cases hd : d = ':'
      · simp only [hc, hd, if_true, List.append_cancel_left_eq] at h
        rw [hc, hd, ih h]
      · simp only [hc, hd, if_true, if_false, List.cons_append, List.nil_append, List.cons.injEq] at h
        exact absurd h.2.symm (cleanPart_ne_colon_cons t _)
      · simp only [hc, hd, if_true, if_false, List.cons_append, List.nil_append, List.cons.injEq] at h
        exact absurd h.2 (cleanPart_ne_colon_cons s _)
      · simp only [hc, hd, if_false, List.cons_append, List.nil_append, List.cons.injEq] at h
        rw [h.1, ih h.2]

/-- A part that holds what looks like an end of a part, a colon and a part was marked there: the
colon is one of its own, and its mark is what the shorter part ends with. -/
theorem eq_of_cleanPart_eq_append {s t r : List Char}
    (h : cleanPart s = cleanPart t ++ ':' :: cleanPart r) :
    ∃ middle, t = middle ++ ['_'] ∧ s = middle ++ ':' :: r := by
  induction t generalizing s with
  | nil => exact absurd h (cleanPart_ne_colon_cons s _)
  | cons d t ih =>
    cases s with
    | nil => rw [cleanPart_cons] at h; split at h <;> simp [cleanPart] at h
    | cons c s =>
      rw [cleanPart_cons, cleanPart_cons] at h
      by_cases hc : c = ':' <;> by_cases hd : d = ':'
      · simp only [hc, hd, if_true, List.append_assoc, List.append_cancel_left_eq] at h
        obtain ⟨m, rfl, rfl⟩ := ih h
        exact ⟨':' :: m, by simp [hd], by simp [hc]⟩
      · simp only [hc, hd, if_true, if_false, List.cons_append, List.nil_append,
          List.cons.injEq] at h
        obtain ⟨rfl, hr⟩ := cleanPart_append_eq_colon_cons h.2.symm
        exact ⟨[], by simp [← h.1], by simp [hc, cleanPart_injective hr]⟩
      · simp only [hc, hd, if_true, if_false, List.cons_append, List.nil_append,
          List.cons.injEq] at h
        exact absurd h.2 (cleanPart_ne_colon_cons s _)
      · simp only [hc, hd, if_false, List.cons_append, List.nil_append, List.cons.injEq] at h
        obtain ⟨m, rfl, rfl⟩ := ih h.2
        exact ⟨c :: m, by simp [h.1], by simp⟩

/-! ### Two parts with a colon between them -/

/-- One user and action can be read as another: the first ends in a mark, the action has a colon,
and the second user has taken up the action as far as that colon, which became a mark. -/
def Shifted (user action user' action' : List Char) : Prop :=
  ∃ start middle rest, user = start ++ ['_'] ∧ action = middle ++ ':' :: rest ∧
    user' = start ++ ':' :: middle ++ ['_'] ∧ action' = rest

/-- Users and actions that are signed alike. -/
def SignedAlike (user action user' action' : List Char) : Prop :=
  (user = user' ∧ action = action') ∨ Shifted user action user' action' ∨
    Shifted user' action' user action

/-- One character more in front of both users changes nothing. -/
theorem Shifted.cons {user action user' action' : List Char}
    (h : Shifted user action user' action') (c : Char) :
    Shifted (c :: user) action (c :: user') action' := by
  obtain ⟨start, middle, _, rfl, rfl, rfl, rfl⟩ := h
  exact ⟨c :: start, middle, _, rfl, rfl, rfl, rfl⟩

/-- Nor does it when one of the two may be the other. -/
theorem SignedAlike.cons {user action user' action' : List Char}
    (h : SignedAlike user action user' action') (c : Char) :
    SignedAlike (c :: user) action (c :: user') action' := by
  rcases h with ⟨rfl, rfl⟩ | h | h
  · exact .inl ⟨rfl, rfl⟩
  · exact .inr (.inl (h.cons c))
  · exact .inr (.inr (h.cons c))

/-- To be signed alike is symmetric. -/
theorem SignedAlike.symm {user action user' action' : List Char}
    (h : SignedAlike user action user' action') : SignedAlike user' action' user action := by
  rcases h with ⟨rfl, rfl⟩ | h | h
  · exact .inl ⟨rfl, rfl⟩
  · exact .inr (.inr h)
  · exact .inr (.inl h)

/-- A user that is a lone mark, and a user that begins with a colon. -/
theorem signedAlike_of_mark_eq {user action user' action' : List Char}
    (h : ':' :: (cleanPart user ++ ':' :: cleanPart action) =
      cleanPart user' ++ ':' :: cleanPart action') :
    SignedAlike (':' :: user) action ('_' :: user') action' := by
  obtain ⟨rfl, hr⟩ := cleanPart_append_eq_colon_cons h.symm
  obtain ⟨m, rfl, rfl⟩ := eq_of_cleanPart_eq_append hr
  exact .inr (.inr ⟨[], m, action, rfl, rfl, rfl, rfl⟩)

/-- Parts joined by a colon are equal exactly for users and actions that are signed alike. -/
theorem cleanPart_append_eq_iff {user action user' action' : List Char} :
    cleanPart user ++ ':' :: cleanPart action = cleanPart user' ++ ':' :: cleanPart action' ↔
      SignedAlike user action user' action' := by
  constructor
  · intro h
    induction user generalizing user' with
    | nil =>
      obtain ⟨rfl, hr⟩ := cleanPart_append_eq_colon_cons h.symm
      exact .inl ⟨rfl, (cleanPart_injective hr).symm⟩
    | cons c user ih =>
      cases user' with
      | nil => exact absurd (cleanPart_append_eq_colon_cons h).1 (by simp)
      | cons d user' =>
        rw [cleanPart_cons, cleanPart_cons] at h
        by_cases hc : c = ':' <;> by_cases hd : d = ':'
        · simp only [hc, hd, if_true, List.append_assoc, List.append_cancel_left_eq] at h
          rw [hc, hd]
          exact (ih h).cons ':'
        · simp only [hc, hd, if_true, if_false, List.cons_append, List.nil_append,
            List.cons.injEq] at h
          rw [hc, ← h.1]
          exact signedAlike_of_mark_eq h.2
        · simp only [hc, hd, if_true, if_false, List.cons_append, List.nil_append,
            List.cons.injEq] at h
          rw [hd, h.1]
          exact (signedAlike_of_mark_eq h.2.symm).symm
        · simp only [hc, hd, if_false, List.cons_append, List.nil_append, List.cons.injEq] at h
          rw [h.1]
          exact (ih h.2).cons d
  · have shifted : ∀ {user action user' action' : List Char}, Shifted user action user' action' →
        cleanPart user ++ ':' :: cleanPart action =
          cleanPart user' ++ ':' :: cleanPart action' := by
      rintro _ _ _ _ ⟨start, middle, rest, rfl, rfl, rfl, rfl⟩
      simp [cleanPart]
    rintro (⟨rfl, rfl⟩ | h | h)
    · rfl
    · exact shifted h
    · exact (shifted h).symm

/-! ### Messages -/

/-- The message is its two cleaned parts and the time, with colons between them. -/
theorem message_eq (user action : String) (millis : Nat) :
    message user action millis =
      (cleanPart user.toList ++ ':' :: cleanPart action.toList) ++ ':' :: decimal millis := by
  simp [message]

/-- There is no colon among digits. -/
theorem colon_not_mem_decimal (n : Nat) : ':' ∉ decimal n := not_mem_decimal (by decide) n

/-- What is signed is the same exactly for the same time and users and actions that are signed
alike. -/
theorem message_eq_iff {user action user' action' : String} {millis millis' : Nat} :
    message user action millis = message user' action' millis' ↔
      millis = millis' ∧
        SignedAlike user.toList action.toList user'.toList action'.toList := by
  constructor
  · intro h
    rw [message_eq, message_eq] at h
    have hc := congrArg (cutAtLast ':') h
    rw [cutAtLast_append _ (colon_not_mem_decimal millis),
      cutAtLast_append _ (colon_not_mem_decimal millis')] at hc
    simp only [Option.some.injEq, Prod.mk.injEq] at hc
    exact ⟨decimal_injective hc.2, cleanPart_append_eq_iff.1 hc.1⟩
  · rintro ⟨rfl, h⟩
    rw [message_eq, message_eq, cleanPart_append_eq_iff.2 h]

/-! ### Tokens -/

/-- A keyed digest does not confuse two messages. -/
def Separates (key : TokenKey) (message message' : Bytes) : Prop :=
  Hmac.code key.bytes message = Hmac.code key.bytes message' → message = message'

/-- Two signatures of one time are the same exactly for what is signed alike. -/
theorem signature_eq_iff {key : TokenKey} {user action user' action' : String} {millis : Nat}
    (h : Separates key (encode (message user action millis))
      (encode (message user' action' millis))) :
    signature key user action millis = signature key user' action' millis ↔
      SignedAlike user.toList action.toList user'.toList action'.toList := by
  constructor
  · intro hs
    exact (message_eq_iff.1 (encode_injective (h hs))).2
  · intro hs
    unfold signature
    rw [message_eq_iff.2 ⟨rfl, hs⟩]

/-- A token that is issued has its signature and its time. -/
theorem split?_issue (key : TokenKey) (user action : String) {millis : Nat}
    (h : millis ≤ largest64) :
    split? (issue key user action millis) =
      some (Base64.encode Base64.urlSafe (signature key user action millis), millis) := by
  have hr : readNat? largest64 (String.ofList (decimal millis)) = some millis :=
    readNat?_showNat h
  unfold split? issue
  rw [String.toList_ofList, List.append_assoc, List.singleton_append,
    cutAtLast_append _ (colon_not_mem_decimal millis)]
  simp [hr]

/-- Whether a token that was issued at a time is neither from the future nor expired. -/
def Timely (issued now : Nat) : Prop :=
  issued ≤ sumWithin now clockSkew ∧ now < sumWithin issued validity

/-- Whether a token is timely can be computed. -/
instance (issued now : Nat) : Decidable (Timely issued now) :=
  inferInstanceAs (Decidable (_ ∧ _))

/-- An issued token is good for a user and an action, timely, exactly if they have its signature. -/
theorem check_issue_eq_ok_iff (key : TokenKey) (user action user' action' : String)
    {millis : Nat} (now : Nat) (h : millis ≤ largest64) :
    check key (issue key user action millis) user' action' now = .ok () ↔
      Timely millis now ∧ signature key user action millis = signature key user' action' millis := by
  unfold check Timely
  rw [split?_issue key user action h]
  simp only [Base64.decode_encode_urlSafe]
  by_cases hf : sumWithin now clockSkew < millis
  · have hn : ¬ millis ≤ sumWithin now clockSkew := by omega
    simp [hf, hn]
  · by_cases he : sumWithin millis validity ≤ now
    · have hn : ¬ now < sumWithin millis validity := by omega
      simp [hf, he, hn]
    · have h₁ : millis ≤ sumWithin now clockSkew := by omega
      have h₂ : now < sumWithin millis validity := by omega
      simp only [hf, he, if_false, h₁, h₂, true_and]
      split <;> simp_all

/-- The bytes that are signed for two users, actions and times are the same exactly if the times are
and the users and actions are signed alike; and where the digest keeps the two messages apart, a token
issued for one user and action is good for the other, while it is timely, exactly if they are signed
alike. -/
theorem good_iff_signedAlike (key : TokenKey) (user action user' action' : String)
    (millis millis' now : UInt64)
    (separates : Separates key (encode (message user action millis.toNat))
      (encode (message user' action' millis.toNat))) :
    (encode (message user action millis.toNat) = encode (message user' action' millis'.toNat) ↔
      millis = millis' ∧
        SignedAlike user.toList action.toList user'.toList action'.toList) ∧
    (check key (issue key user action millis.toNat) user' action' now.toNat = .ok () ↔
      Timely millis.toNat now.toNat ∧
        SignedAlike user.toList action.toList user'.toList action'.toList) := by
  constructor
  · constructor
    · intro h
      obtain ⟨ht, hs⟩ := message_eq_iff.1 (encode_injective h)
      exact ⟨UInt64.toNat_inj.1 ht, hs⟩
    · rintro ⟨rfl, hs⟩
      rw [message_eq_iff.2 ⟨rfl, hs⟩]
  · have hb : millis.toNat ≤ largest64 := by
      have hlt := millis.toNat_lt
      have he : largest64 = 18446744073709551615 := by decide +kernel
      omega
    rw [check_issue_eq_ok_iff key user action user' action' now.toNat hb,
      signature_eq_iff separates]

/-- A token for the user `_` and the action `:` is good for the user `:_` and the empty action. -/
theorem good_for_another_user :
    let key : TokenKey := ⟨[107]⟩
    Separates key (encode (message "_" ":" 5)) (encode (message ":_" "" 5)) ∧
      check key (issue key "_" ":" 5) ":_" "" 5 = .ok () := by
  have hs : SignedAlike "_".toList ":".toList ":_".toList "".toList :=
    .inr (.inl ⟨[], [], [], rfl, rfl, rfl, rfl⟩)
  have separates : Separates ⟨[107]⟩ (encode (message "_" ":" 5)) (encode (message ":_" "" 5)) :=
    fun _ => congrArg encode (message_eq_iff.2 ⟨rfl, hs⟩)
  exact ⟨separates,
    (good_iff_signedAlike ⟨[107]⟩ "_" ":" ":_" "" 5 5 5 separates).2.2 ⟨by decide, hs⟩⟩

end Palisade.Token
