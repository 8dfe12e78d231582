/-!
# Random words

The source of randomness is an endless sequence of 64-bit words of which some
were drawn already. All choices are made by one rule: a word modulo the number
of possibilities.
-/
namespace HitScript

structure Dice where
  /-- The words, in the order in which they are drawn. -/
  word : Nat → UInt64
  /-- How many words were drawn. -/
  drawn : Nat := 0

namespace Dice

def zeros : Dice where
  word _ := 0

/-- The words over and over; only zeros if there are none. -/
def cycle (words : List UInt64) : Dice where
  word n := (words[n % words.length]?).getD 0

/-- Words that look random, each computed from the seed and its number by two
rounds of multiplying and folding. -/
def scrambled (seed : UInt64) : Dice where
  word n :=
    let z := seed + UInt64.ofNat (n + 1) * 0x9E3779B97F4A7C15
    let z := (z ^^^ (z >>> 30)) * 0xBF58476D1CE4E5B9
    let z := (z ^^^ (z >>> 27)) * 0x94D049BB133111EB
    z ^^^ (z >>> 31)

def draw (d : Dice) : UInt64 × Dice :=
  (d.word d.drawn, { d with drawn := d.drawn + 1 })

/-- How many numbers there are from `lo` to `hi`, both included. -/
def span (lo hi : Int32) : UInt64 := (hi.toInt64 - lo.toInt64 + 1).toUInt64

/-- The number that a word stands for among those from `lo` to `hi`. -/
def pick (lo hi : Int32) (word : UInt64) : Int32 :=
  (lo.toInt64 + (word % span lo hi).toInt64).toInt32

/-- A number from `lo` to `hi`, both included. If there is no choice the answer
is `lo` and no word is drawn. -/
def between (d : Dice) (lo hi : Int32) : Int32 × Dice :=
  if hi ≤ lo then (lo, d)
  else
    let (word, d) := d.draw
    (pick lo hi word, d)

end Dice

end HitScript
