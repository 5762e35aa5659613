import QueryForecast.Numeric.Basic
import QueryForecast.Numeric.Power
import QueryForecast.Random.Generator

/-!
# Drawing samples

Numbers below a bound, random orders, and samples of indices, all drawn from a `Generator`.
`draw_lt` says that a drawn number is below its bound.
-/

namespace QueryForecast.Random

open Numeric

/-- How many bits are drawn for a number below `bound`: one word, or two for a bound beyond that. -/
def wordBits (bound : Nat) : Nat :=
  if bound < 0x100000000 then 32 else 64

/-- As many bits as `wordBits` says, the lower word first. -/
def nextBits (bound : Nat) (g : Generator) : Nat × Generator :=
  if bound < 0x100000000 then
    let (word, g) := g.next
    (word.toNat, g)
  else
    let (low, g) := g.next
    let (high, g) := g.next
    (high.toNat * 0x100000000 + low.toNat, g)

theorem nextBits_lt (bound : Nat) (g : Generator) :
    (nextBits bound g).1 < twoPow (wordBits bound) := by
  unfold nextBits wordBits
  by_cases h : bound < 0x100000000
  · rw [if_pos h, if_pos h]
    exact g.next.1.toNat_lt
  · rw [if_neg h, if_neg h]
    have hlow := g.next.1.toNat_lt
    have hhigh := g.next.2.next.1.toNat_lt
    show g.next.2.next.1.toNat * 0x100000000 + g.next.1.toNat < 0x10000000000000000
    omega

/-- A bound moved to the top of the range of its bits, less one: the low halves of products up to it
are spread evenly over the numbers below the bound. -/
def acceptanceZone (bound : Nat) : Nat :=
  bound * twoPow (wordBits bound - 1 - bound.log2) - 1

/-- The largest multiple of a bound in the range of its bits, less one: like `acceptanceZone`, with
the fewest draws rejected. -/
def widestZone (bound : Nat) : Nat :=
  twoPow (wordBits bound) - 1 - (twoPow (wordBits bound) - bound) % bound

/-- A number below `bound`. The drawn bits are accepted when the low half of their product with the
bound lies in the zone; the high half is then the number. The program draws until they are accepted:
`fuel` only makes the recursion structural, and the number given without it is of no meaning. -/
def drawWithin (zone bound : Nat) : Nat → Generator → Nat × Generator
  | 0, g => (0, g)
  | fuel + 1, g =>
    let (bits, g) := nextBits bound g
    let product := bits * bound
    if product % twoPow (wordBits bound) ≤ zone then (product / twoPow (wordBits bound), g)
    else drawWithin zone bound fuel g

/-- A number below `bound`, all of them equally likely. The zone holds at least half of the range, so
the thousand rejections in a row that would use up the fuel do not happen. -/
def draw (bound : Nat) (g : Generator) : Nat × Generator :=
  drawWithin (acceptanceZone bound) bound 1000 g

theorem drawWithin_lt {zone bound : Nat} (h : 0 < bound) (fuel : Nat) (g : Generator) :
    (drawWithin zone bound fuel g).1 < bound := by
  induction fuel generalizing g with
  | zero => exact h
  | succ fuel ih =>
    have hb := nextBits_lt bound g
    unfold drawWithin
    generalize nextBits bound g = drawn at hb
    obtain ⟨bits, g'⟩ := drawn
    dsimp only
    split
    · exact Nat.div_lt_of_lt_mul (Nat.mul_lt_mul_of_pos_right hb h)
    · exact ih g'

/-- A drawn number is below its bound. -/
theorem draw_lt {bound : Nat} (h : 0 < bound) (g : Generator) : (draw bound g).1 < bound :=
  drawWithin_lt h 1000 g

/-- Puts the elements at the positions from `last` down to 1 into random order: each is swapped with
one at or before it. -/
def shuffleFrom : Nat → Array Nat → Generator → Array Nat × Generator
  | 0, xs, g => (xs, g)
  | last + 1, xs, g =>
    let (i, g) := draw (last + 2) g
    shuffleFrom last (xs.swapIfInBounds (last + 1) i) g

/-- The numbers below `n` in random order. -/
def shuffled (n : Nat) (g : Generator) : List Nat × Generator :=
  let (xs, g) := shuffleFrom (n - 1) (Array.range n) g
  (xs.toList, g)

/-- Brings random elements to the positions from `i` on, `count` of them: each is swapped with one
at or after it. -/
def drawToFront (n : Nat) : Nat → Nat → Array Nat → Generator → Array Nat × Generator
  | 0, _, xs, g => (xs, g)
  | count + 1, i, xs, g =>
    let (offset, g) := draw (n - i) g
    drawToFront n count (i + 1) (xs.swapIfInBounds i (i + offset)) g

/-- A sample of `k` numbers below `n` by shuffling just its part of the list. -/
def sampleByShuffling (n k : Nat) (g : Generator) : List Nat × Generator :=
  let (xs, g) := drawToFront n k 0 (Array.range n) g
  (xs.toList.take k, g)

/-- Extends a sample by one number at most `j` for each `j` from `n - count` to `n - 1`: a drawn
one, or `j` itself when the drawn one is in the sample already. -/
def drawDistinct (n : Nat) : Nat → List Nat → Generator → List Nat × Generator
  | 0, chosen, g => (chosen, g)
  | count + 1, chosen, g =>
    let j := n - (count + 1)
    let (t, g) := draw (j + 1) g
    drawDistinct n count ((if chosen.contains t then j else t) :: chosen) g

/-- Draws that put a sample of `count + 1` numbers into random order. Samples are used sorted, so
only their effect on the generator counts. -/
def discardOrder : Nat → Generator → Generator
  | 0, g => g
  | count + 1, g => discardOrder count (draw (count + 2) g).2

/-- A sample of `k` numbers below `n` by one draw for each of them. Samples of fifty and more are
put into random order afterwards. -/
def sampleBySubstitution (n k : Nat) (g : Generator) : List Nat × Generator :=
  let (chosen, g) := drawDistinct n k [] g
  (chosen, if k < 50 then g else discardOrder (k - 1) g)

/-- A number below `n` that is not in the sample yet. The program draws until it has one: as in
`drawWithin`, `fuel` only makes the recursion structural. The number given without it is the least
new one. -/
def drawNew (n : Nat) (chosen : List Nat) : Nat → Generator → Nat × Generator
  | 0, g => (((List.range n).find? fun t => !chosen.contains t).getD 0, g)
  | fuel + 1, g =>
    let (t, g) := drawWithin (widestZone n) n 1000 g
    if chosen.contains t then drawNew n chosen fuel g else (t, g)

/-- Extends a sample by `count` new numbers. Of the numbers that a word can count, only a sample that is
small beside them is drawn in this way, so a thousand draws find a new one. -/
def drawApart (n : Nat) : Nat → List Nat → Generator → List Nat × Generator
  | 0, chosen, g => (chosen, g)
  | count + 1, chosen, g =>
    let (t, g) := drawNew n chosen 1000 g
    drawApart n count (t :: chosen) g

/-- Whether shuffling is the cheapest way to sample `k` of `n` numbers, by a rule in single precision:
from half a million numbers on, it can go the other way than in whole numbers. -/
def shufflingPays (n k : Nat) : Bool :=
  if k < 163 then
    11 < k && Float32.ofNat n <
      (if n < 500000 then 10.0 + 1.6 * Float32.ofNat k
        else 70.0 / 9.0 + 8.0 / 45.0 * Float32.ofNat k) * Float32.ofNat k
  else Float32.ofNat n < (if n < 500000 then 270.0 else 330.0 / 9.0) * Float32.ofNat k

/-- A sample of `k` numbers below `n`, in the way that is cheapest. Of more numbers than a word can
count, each is drawn by itself. -/
def sampleUnordered (n k : Nat) (g : Generator) : List Nat × Generator :=
  if 0xffffffff < n then drawApart n k [] g
  else if shufflingPays n k then sampleByShuffling n k g
  else if k < 163 then sampleBySubstitution n k g
  else drawApart n k [] g

/-- A sample of `k` numbers below `n` in ascending order. -/
def sample (n k : Nat) (g : Generator) : List Nat × Generator :=
  let (chosen, g) := sampleUnordered n k g
  (chosen.mergeSort (fun a b => decide (a ≤ b)), g)

/-- A `fraction` of the numbers below `n`, rounded up, at least one, in ascending order. Nothing is
drawn when that is all of them. -/
def samplePortion (n : Nat) (fraction : Float) (g : Generator) : List Nat × Generator :=
  if n = 0 then ([], g)
  else
    let k := portion n fraction 1 n
    if k = n then (List.range n, g) else sample n k g

end QueryForecast.Random
