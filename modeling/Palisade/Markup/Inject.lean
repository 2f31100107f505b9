import Palisade.Markup.Walk

/-!
# Writing nonces and tokens into markup

A script gets a nonce and a form gets a hidden field with a token. What is written stands for its value
as a placeholder, which a template fills in later. It is done piece by piece: a start tag gets
text after its name or after its closing bracket, and everything else stays as it is.
-/
namespace Palisade

namespace Markup

/-- The function that gives the nonce of the response. -/
def nonceFunction : String := "CSPNonce"

/-- The function that gives the token of the response. -/
def tokenFunction : String := "XSRFToken"

/-- The name of the hidden field that carries the token. -/
def tokenField : String := "xsrf-token"

/-- A function's placeholder. -/
def placeholder (function : String) : String := "\x7b\x7b" ++ function ++ "\x7d\x7d"

/-- What a script tag gets after its name. -/
def nonceText : List Char := (" nonce=\"" ++ placeholder nonceFunction ++ "\"").toList

/-- What stands after a form's start tag. -/
def tokenText : List Char :=
  ("<input type=\"hidden\" name=\"" ++ tokenField ++ "\" value=\"" ++ placeholder tokenFunction ++
    "\">").toList

/-- What is inserted. -/
structure Insertions where
  /-- Scripts get nonces. -/
  nonces : Bool := true
  /-- Forms get tokens. -/
  tokens : Bool := true
  deriving Repr, DecidableEq

/-- A script that has no nonce of its own needs one. -/
def needsNonce (t : StartTag) : Bool := t.name == "script" && !t.attributes.contains "nonce"

/-- A form needs a token. -/
def needsToken (t : StartTag) : Bool := t.name == "form"

/-- A start tag with what is inserted into it and after it. -/
def fillTag (w : Insertions) (t : StartTag) : List Char :=
  t.opening ++ (if w.nonces && needsNonce t then nonceText else []) ++ t.inside ++
    (if w.tokens && needsToken t then tokenText else [])

/-- A piece with what is inserted into it. -/
def Piece.filled (w : Insertions) : Piece → List Char
  | verbatim s => s
  | tag t => fillTag w t

/-- Inserts into a text of markup. -/
def inject (w : Insertions) (s : List Char) : Except MarkupError (List Char) :=
  (pieces s).map fun ps => ps.flatMap (Piece.filled w)

/-- If nothing is inserted the text stays as it is. -/
theorem inject_none {s out : List Char} (h : inject ⟨false, false⟩ s = .ok out) : out = s := by
  unfold inject at h
  cases hp : pieces s with
  | error e => simp [hp, Except.map] at h
  | ok ps =>
    simp only [hp, Except.map, Except.ok.injEq] at h
    rw [← h, ← source_walk hp]
    have : Piece.filled ⟨false, false⟩ = Piece.source := by
      funext p
      cases p <;> simp [Piece.filled, Piece.source, fillTag, StartTag.source]
    rw [this, source]

end Markup

end Palisade
