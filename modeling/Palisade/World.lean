import Palisade.Journal
import Palisade.Text.Utf8

/-!
# The world outside

Serving a request reads a clock, draws random bytes and writes a journal. The three are a value that
is handed from step to step, so that what a run draws and records can be said of it. Randomness is a
stream of bytes and a place in it: no byte is drawn twice.
-/
namespace Palisade

/-- What serving a request reads from outside and leaves there. -/
structure World where
  /-- Milliseconds since the epoch; before it the clock is negative. -/
  clock : Int
  /-- The stream of random bytes. -/
  random : Nat → UInt8
  /-- How many bytes of the stream have been drawn. -/
  drawn : Nat
  /-- The entries, in the order in which they were written. -/
  journal : List Entry

namespace World

/-- Milliseconds since the epoch as tokens count them: none before it, and no more than sixty-four
bits hold. -/
def millis (w : World) : Nat := min w.clock.toNat (Nat.pow 2 64 - 1)

/-- The next bytes of the stream. -/
def draw (w : World) (count : Nat) : Bytes × World :=
  ((List.range count).map fun i => w.random (w.drawn + i), { w with drawn := w.drawn + count })

/-- Writes an entry. -/
def write (w : World) (e : Entry) : World := { w with journal := w.journal ++ [e] }

/-- Records an event. -/
def record (w : World) (e : Event) : World := w.write (.event e)

/-- Records events. -/
def recordAll (w : World) (es : List Event) : World :=
  { w with journal := w.journal ++ es.map .event }

/-- An entry is written behind those that are there. -/
@[simp] theorem journal_write (w : World) (e : Entry) :
    (w.write e).journal = w.journal ++ [e] := rfl

/-- As many bytes are drawn as were asked for. -/
@[simp] theorem length_draw (w : World) (count : Nat) : (w.draw count).1.length = count := by
  simp [draw]

/-- Drawing goes on behind the bytes that were drawn. -/
@[simp] theorem drawn_draw (w : World) (count : Nat) :
    (w.draw count).2.drawn = w.drawn + count := rfl

end World

end Palisade
