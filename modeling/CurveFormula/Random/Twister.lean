import CurveFormula.Random.Source

/-!
# The Mersenne twister

The generator MT19937: a state of 624 words of 32 bits, renewed as a whole by one twist, and a
tempering of each word that is drawn. The seed is an integer; the words of its absolute value, least
first, are mixed into the state.
-/

namespace CurveFormula

universe u

/-- The state of the generator: its words, and how many of them have been drawn since the last
twist. -/
structure Twister where
  words : Array UInt32
  drawn : Nat

namespace Twister

/-- The number of words. -/
def size : Nat := 624

/-- The distance of the word that a twist adds to a word. -/
def shift : Nat := 397

/-- The word at an index. -/
def word (ws : Array UInt32) (i : Nat) : UInt32 :=
  ws.getD i 0

/-- A word combined with its two highest bits: the mixing step of seeding. -/
def folded (w : UInt32) : UInt32 :=
  w ^^^ (w >>> 30)

/-- The words that a single seed word gives. -/
def plainWords (seed : UInt32) : Array UInt32 :=
  (List.range (size - 1)).foldl
    (fun ws i => ws.push (1812433253 * folded (word ws i) + UInt32.ofNat (i + 1))) #[seed]

/-- The index after `i`, the first word being passed over when it starts again. The last word then
becomes the first. -/
def advance (ws : Array UInt32) (i : Nat) : Array UInt32 × Nat :=
  if size ≤ i + 1 then (ws.setIfInBounds 0 (word ws (size - 1)), 1) else (ws, i + 1)

/-- Mixes the words of a key into the state, one step for each number in the list; `j` is the place
in the key. -/
def mixKey (key : Array UInt32) (ws : Array UInt32) (i j : Nat) : Nat → Array UInt32 × Nat
  | 0 => (ws, i)
  | steps + 1 =>
    let w := (word ws i ^^^ (folded (word ws (i - 1)) * 1664525)) + word key j + UInt32.ofNat j
    let (ws, i) := advance (ws.setIfInBounds i w) i
    mixKey key ws i (if key.size ≤ j + 1 then 0 else j + 1) steps

/-- Mixes the state with itself, so many steps. -/
def mixIndex (ws : Array UInt32) (i : Nat) : Nat → Array UInt32
  | 0 => ws
  | steps + 1 =>
    let w := (word ws i ^^^ (folded (word ws (i - 1)) * 1566083941)) - UInt32.ofNat i
    let (ws, i) := advance (ws.setIfInBounds i w) i
    mixIndex ws i steps

/-- The state of a key of words. -/
def ofKey (key : Array UInt32) : Twister :=
  let (ws, i) := mixKey key (plainWords 19650218) 1 0 (max size key.size)
  ⟨(mixIndex ws i (size - 1)).setIfInBounds 0 0x80000000, size⟩

/-- The words of 32 bits of a number, least first; nought has one word. -/
def keyOf (n : Nat) : List UInt32 :=
  if n < Nat.pow 2 32 then [UInt32.ofNat n] else UInt32.ofNat n :: keyOf (n / Nat.pow 2 32)
termination_by n
decreasing_by
  simp only [Nat.pow_eq] at *
  omega

/-- The state of a seed. -/
def ofSeed (seed : Int) : Twister :=
  ofKey (keyOf seed.natAbs).toArray

/-- The words after a twist. -/
def twist (ws : Array UInt32) : Array UInt32 :=
  (List.range size).foldl
    (fun ws i =>
      let y := (word ws i &&& 0x80000000) ||| (word ws ((i + 1) % size) &&& 0x7fffffff)
      let odd : UInt32 := if y &&& 1 = 1 then 0x9908b0df else 0
      ws.setIfInBounds i (word ws ((i + shift) % size) ^^^ (y >>> 1) ^^^ odd))
    ws

/-- The tempering of a word that is drawn. -/
def temper (y : UInt32) : UInt32 :=
  let y := y ^^^ (y >>> 11)
  let y := y ^^^ ((y <<< 7) &&& 0x9d2c5680)
  let y := y ^^^ ((y <<< 15) &&& 0xefc60000)
  y ^^^ (y >>> 18)

/-- The next word. -/
def next (t : Twister) : UInt32 × Twister :=
  if t.drawn < size then (temper (word t.words t.drawn), ⟨t.words, t.drawn + 1⟩)
  else
    let ws := twist t.words
    (temper (word ws 0), ⟨ws, 1⟩)

/-- So many random bits as a number: whole words from the least on, the last one cut to its high
bits. -/
def bits (k : Nat) (t : Twister) : Nat × Twister :=
  let (w, t') := t.next
  if k ≤ 32 then (w.toNat / Nat.pow 2 (32 - k), t')
  else
    let (high, t'') := bits (k - 32) t'
    (w.toNat + Nat.pow 2 32 * high, t'')
termination_by k
decreasing_by omega

/-- The first of several draws of random bits that is below a bound. After so many draws without
one, which does not happen, nought is given. -/
def belowFrom (n : Nat) (h : 0 < n) (k : Nat) : Nat → Twister → Fin n × Twister
  | 0, t => (⟨0, h⟩, t)
  | tries + 1, t =>
    let (r, t) := t.bits k
    if hr : r < n then (⟨r, hr⟩, t) else belowFrom n h k tries t

/-- The most draws for one number. At least every second draw is below the bound. -/
def tries : Nat := 10000

/-- A number below a bound. -/
def below (n : Nat) (h : 0 < n) (t : Twister) : Fin n × Twister :=
  belowFrom n h (n.log2 + 1) tries t

/-- A number below `2 ^ 53`, from the high bits of two words. -/
def fraction (t : Twister) : Nat × Twister :=
  let (a, t) := t.next
  let (b, t) := t.next
  (a.toNat / Nat.pow 2 5 * Nat.pow 2 26 + b.toNat / Nat.pow 2 6, t)

/-- Draws from the generator. `along a b n d` is the value `n / d` of the way from `a` to `b`. -/
def source {α : Type u} (along : α → α → Nat → Nat → α) : Source α Twister where
  below := below
  between := fun a b t =>
    let (n, t) := t.fraction
    (along a b n (Nat.pow 2 53), t)

end Twister

end CurveFormula
