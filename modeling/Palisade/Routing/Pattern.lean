import Palisade.Routing.Captures
import Palisade.Text.Split

/-!
# Path patterns

A pattern names one path, paths of a fixed number of segments some of which are captured, or
everything below a path. One slash at the end of a pattern or of a path does not count.
-/
namespace Palisade

open Palisade.Text

/-- A segment of a pattern. -/
inductive Segment where
  /-- Matches itself. -/
  | fixed (text : String)
  /-- Matches any segment and captures it under a name. -/
  | capture (name : String)
  deriving Repr, DecidableEq

/-- A pattern of paths. -/
inductive Pattern where
  /-- One path. -/
  | exact (path : String)
  /-- As many segments as listed, one by one. -/
  | segments (parts : List Segment)
  /-- A path and everything below it. -/
  | below (path : String)
  deriving Repr, DecidableEq

namespace Pattern

/-- A path without one slash at its end; the path of the slash alone keeps it. -/
def trimSlash (path : List Char) : List Char :=
  if path ≠ ['/'] ∧ path.getLast? = some '/' then path.dropLast else path

/-- The segments of a path that are not empty. -/
def splitPath (path : List Char) : List (List Char) :=
  (pieces '/' path).filter fun s => !s.isEmpty

/-- The mark of patterns for everything below a path. -/
def belowMark : List Char := ['/', '*']

/-- What stands before a text's end, if it has that end. -/
def beforeEnd? (ending s : List Char) : Option (List Char) :=
  if ending.isSuffixOf s then some (s.take (s.length - ending.length)) else none

/-- Reads a segment: a colon marks a capture. -/
def readSegment : List Char → Segment
  | ':' :: name => .capture (String.ofList name)
  | text => .fixed (String.ofList text)

/-- Reads a pattern. -/
def read (pattern : String) : Pattern :=
  let trimmed := trimSlash pattern.toList
  match beforeEnd? belowMark trimmed with
  | some path => .below (String.ofList path)
  | none =>
    if trimmed.contains ':' then .segments ((splitPath trimmed).map readSegment)
    else .exact (String.ofList trimmed)

/-- Matches the segments of a path one by one and captures what is to be captured. -/
def matchSegments : List Segment → List (List Char) → Captures → Option Captures
  | [], [], done => some done
  | .fixed text :: parts, s :: rest, done =>
    if text.toList = s then matchSegments parts rest done else none
  | .capture name :: parts, s :: rest, done =>
    matchSegments parts rest (done.insert name (String.ofList s))
  | _, _, _ => none

/-- What a text leaves of a longer one that begins with it. -/
def afterStart? : List Char → List Char → Option (List Char)
  | [], s => some s
  | c :: start, d :: s => if c = d then afterStart? start s else none
  | _ :: _, [] => none

/-- The name under which everything below a path is captured. -/
def belowName : String := "wildcard"

/-- Matches a path and gives what is captured from it. -/
def matches? (p : Pattern) (path : String) : Option Captures :=
  let trimmed := trimSlash path.toList
  match p with
  | exact text => if text.toList = trimmed then some .empty else none
  | segments parts => matchSegments parts (splitPath trimmed) .empty
  | below start =>
    match afterStart? start.toList trimmed with
    | some [] => some (Captures.empty.insert belowName "")
    | some ('/' :: rest) => some (Captures.empty.insert belowName (String.ofList ('/' :: rest)))
    | _ => none

/-- What stands behind a start, if the text begins with it. -/
theorem afterStart?_eq_some_iff {start s rest : List Char} :
    afterStart? start s = some rest ↔ s = start ++ rest := by
  induction start generalizing s with
  | nil => simp [afterStart?]
  | cons c start ih =>
    cases s with
    | nil => simp [afterStart?]
    | cons d s =>
      by_cases h : c = d
      · subst h
        simp [afterStart?, ih]
      · simp [afterStart?, h, Ne.symm h]

end Pattern

end Palisade
