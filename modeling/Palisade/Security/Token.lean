import Palisade.Codec.Base64
import Palisade.Digest.Sha256
import Palisade.Text.Numeral
import Palisade.Text.Split
import Palisade.Text.Utf8

/-!
# Signed tokens

A token says that its holder is a user who may do an action, and when it was issued. It is a signature
over the three, under a secret key, and the time in the open. A token holds for a day; one from the
future is refused, with a minute's grace for clocks that differ.
-/
namespace Palisade

open Palisade.Text

/-- Why a token is refused. -/
inductive TokenError where
  | malformed
  | expired
  | fromFuture
  /-- The signature is another. -/
  | invalid
  deriving Repr, DecidableEq

/-- The message of an error. -/
def TokenError.message : TokenError → String
  | malformed => "malformed token"
  | expired => "token expired"
  | fromFuture => "token issued in the future"
  | invalid => "token signature does not match"

/-- A secret key that signs tokens. -/
structure TokenKey where
  /-- The bytes of the key. -/
  bytes : Bytes

namespace Token

/-- For how many milliseconds a token holds. -/
def validity : Nat := 24 * 60 * 60 * 1000

/-- By how many milliseconds clocks may differ. -/
def clockSkew : Nat := 60 * 1000

/-- A part of a message. A colon gets a mark, since colons separate the parts. -/
def cleanPart (s : List Char) : List Char :=
  s.flatMap fun c => if c = ':' then ['_', ':'] else [c]

/-- What is signed for a user, an action and a time. -/
def message (user action : String) (millis : Nat) : List Char :=
  cleanPart user.toList ++ [':'] ++ cleanPart action.toList ++ [':'] ++ decimal millis

/-- The signature for a user, an action and a time. -/
def signature (key : TokenKey) (user action : String) (millis : Nat) : Bytes :=
  Hmac.code key.bytes (encode (message user action millis))

/-- Issues a token. -/
def issue (key : TokenKey) (user action : String) (millis : Nat) : String :=
  String.ofList
    (Base64.encode Base64.urlSafe (signature key user action millis) ++ [':'] ++ decimal millis)

/-- A sum that stays within sixty-four bits. -/
def sumWithin (a b : Nat) : Nat := min (a + b) largest64

/-- The signature, as written, and the time of a token. -/
def split? (token : String) : Option (List Char × Nat) :=
  match cutAtLast ':' token.toList with
  | some (signed, time) => (readNat? largest64 (String.ofList time)).map fun millis => (signed, millis)
  | none => none

/-- Checks a token at a time. -/
def check (key : TokenKey) (token user action : String) (now : Nat) : Except TokenError Unit :=
  match split? token with
  | none => .error .malformed
  | some (signed, issued) =>
    if sumWithin now clockSkew < issued then .error .fromFuture
    else if sumWithin issued validity ≤ now then .error .expired
    else match Base64.decode Base64.urlSafe signed with
      | none => .error .malformed
      | some code =>
        if code = signature key user action issued then .ok () else .error .invalid

end Token

end Palisade
