/-!
# A 32-bit Mersenne twister

A pseudo-random generator with 624 words of state, seeded from the words of a natural number.
-/

namespace SafariScript
namespace Random

/-- The words of the state and the index of the next word to give out. -/
structure Twister where
  words : Array UInt32
  index : Nat

namespace Twister

/-- How many words the state has. -/
def size : Nat := 624

/-- How far apart the words lie that a renewal combines. -/
def offset : Nat := 397

/-- The words of a state, read with zero outside it. -/
def word (words : Array UInt32) (i : Nat) : UInt32 :=
  words.getD i 0

/-- Mix a word with the one before it, as all seeding steps do. -/
def mix (words : Array UInt32) (i : Nat) : UInt32 :=
  let w := word words (i - 1)
  w ^^^ (w >>> 30)

/-- The state that a single word seeds. -/
def ofWord (seed : UInt32) : Array UInt32 :=
  (List.range (size - 1)).foldl
    (fun words i => words.push (1812433253 * mix words (i + 1) + (i + 1).toUInt32))
    (Array.mkEmpty size |>.push seed)

/-- After the last word is set, it is copied to the front and the second word comes next. -/
def wrap (words : Array UInt32) (i : Nat) : Array UInt32 × Nat :=
  if i ≥ size then (words.setIfInBounds 0 (word words (size - 1)), 1) else (words, i)

/-- The first round of seeding adds the key's words in turn. -/
def addKey (key : Array UInt32) : Nat → Array UInt32 → Nat → Nat → Array UInt32 × Nat
  | 0, words, i, _ => (words, i)
  | count + 1, words, i, j =>
    let value := (word words i ^^^ (mix words i * 1664525)) + word key j + j.toUInt32
    let (words, i) := wrap (words.setIfInBounds i value) (i + 1)
    addKey key count words i (if j + 1 ≥ key.size then 0 else j + 1)

/-- The second round of seeding takes the index away again. -/
def settle : Nat → Array UInt32 → Nat → Array UInt32
  | 0, words, _ => words
  | count + 1, words, i =>
    let value := (word words i ^^^ (mix words i * 1566083941)) - i.toUInt32
    let (words, i) := wrap (words.setIfInBounds i value) (i + 1)
    settle count words i

/-- The state that a key of several words seeds. -/
def ofKey (key : Array UInt32) : Twister :=
  let (words, i) := addKey key (max size key.size) (ofWord 19650218) 1 0
  { words := (settle (size - 1) words i).setIfInBounds 0 0x80000000, index := size }

/-- The 32-bit words of a natural number, least significant first. -/
def keyWords : Nat → Nat → List UInt32
  | 0, _ => []
  | fuel + 1, n => n.toUInt32 :: (if n / 2 ^ 32 = 0 then [] else keyWords fuel (n / 2 ^ 32))

/-- The generator for an integer seed; its sign does not matter. -/
def ofSeed (seed : Int) : Twister :=
  ofKey (keyWords (seed.natAbs.log2 / 32 + 1) seed.natAbs).toArray

/-- The new word at an index of a renewed state. -/
def renewWord (words : Array UInt32) (i : Nat) : UInt32 :=
  let joined := (word words i &&& 0x80000000) ||| (word words ((i + 1) % size) &&& 0x7fffffff)
  let low : UInt32 := if joined &&& 1 == 0 then 0 else 0x9908b0df
  word words ((i + offset) % size) ^^^ (joined >>> 1) ^^^ low

/-- Replace all words of the state, one after the other. -/
def renew (words : Array UInt32) : Array UInt32 :=
  (List.range size).foldl (fun words i => words.setIfInBounds i (renewWord words i)) words

/-- Spread the bits of a word before it is given out. -/
def temper (w : UInt32) : UInt32 :=
  let w := w ^^^ (w >>> 11)
  let w := w ^^^ ((w <<< 7) &&& 0x9d2c5680)
  let w := w ^^^ ((w <<< 15) &&& 0xefc60000)
  w ^^^ (w >>> 18)

/-- The next 32 random bits. -/
def next (t : Twister) : UInt32 × Twister :=
  if t.index ≥ size then
    let words := renew t.words
    (temper (word words 0), { words, index := 1 })
  else (temper (word t.words t.index), { t with index := t.index + 1 })

/-- Take the highest `bits` bits of words until they are below a bound; after too many tries give zero. -/
def below (bound bits : Nat) : Nat → Twister → Nat × Twister
  | 0, t => (0, t)
  | tries + 1, t =>
    let (w, t) := t.next
    let value := (w >>> (32 - bits).toUInt32).toNat
    if value < bound then (value, t) else below bound bits tries t

/-- A random number below a bound. -/
def draw (bound : Nat) (t : Twister) : Nat × Twister :=
  t.below bound (bound.log2 + 1) (Nat.pow 2 32)

end Twister
end Random
end SafariScript
