/-!
# Random numbers

A generator of 64-bit numbers with a counter as its state.  A number is the counter times a
scrambled copy of itself, with the upper half of the 128 bits folded onto the lower.

`Random.below` makes a number below a bound out of the upper half of a product.  It is uniform,
because it draws again for the few numbers that would make some results more likely.
-/

namespace ChannelMachine

/-- A random generator. -/
structure Random where
  /-- The counter. -/
  state : UInt64
deriving DecidableEq, Repr, Inhabited

namespace Random

/-- The step of the counter.  It is odd, so the counter takes all values. -/
def stride : UInt64 := 0x2d358dccaa6c78a5

/-- What scrambles the copy of the counter. -/
def scramble : UInt64 := 0x8bb84b93962eacc9

/-- How many numbers a word has. -/
def wordCount : Nat := 0x10000000000000000

/-- The next number. -/
def next (g : Random) : UInt64 × Random :=
  let s := g.state + stride
  let product := s.toNat * (s ^^^ scramble).toNat
  (UInt64.ofNat product ^^^ UInt64.ofNat (product / wordCount), ⟨s⟩)

/-- Draws until the lower half of the product with `bound` reaches the threshold, at most `n`
times more; gives the upper half. -/
def redraw (bound threshold : Nat) : Nat → Nat → Random → Nat × Random
  | 0, r, g => (r * bound / wordCount, g)
  | n + 1, r, g =>
      if r * bound % wordCount < threshold then
        redraw bound threshold n g.next.1.toNat g.next.2
      else (r * bound / wordCount, g)

/-- The counter takes each of its values within so many draws, so no more are needed. -/
def mostDraws : Nat := wordCount

/-- A number below a positive bound. -/
def below (g : Random) (bound : Nat) : Nat × Random :=
  redraw bound ((wordCount - bound) % bound) mostDraws g.next.1.toNat g.next.2

/-- A number from `low` to `high`. -/
def between (g : Random) (low high : Nat) : Nat × Random :=
  let offset := g.below (high - low + 1)
  (low + offset.1, offset.2)

/-! ## Bounds -/

/-- The upper half of the product of a word with a bound is below the bound. -/
theorem upperHalf_lt {r bound : Nat} (hr : r < wordCount) (hb : 0 < bound) :
    r * bound / wordCount < bound := by
  rw [Nat.div_lt_iff_lt_mul (by decide), Nat.mul_comm bound]
  exact Nat.mul_lt_mul_of_pos_right hr hb

theorem redraw_lt {bound : Nat} (hb : 0 < bound) (threshold : Nat) :
    ∀ (n r : Nat) (g : Random), r < wordCount → (redraw bound threshold n r g).1 < bound
  | 0, _, _, hr => upperHalf_lt hr hb
  | n + 1, r, g, hr => by
      rw [redraw]
      by_cases h : r * bound % wordCount < threshold
      · rw [if_pos h]
        exact redraw_lt hb threshold n _ _ (UInt64.toNat_lt _)
      · rw [if_neg h]
        exact upperHalf_lt hr hb

theorem below_lt (g : Random) {bound : Nat} (hb : 0 < bound) : (g.below bound).1 < bound :=
  redraw_lt hb _ _ _ _ (UInt64.toNat_lt _)

theorem between_fst (g : Random) (low high : Nat) :
    (g.between low high).1 = low + (g.below (high - low + 1)).1 := rfl

theorem le_between (g : Random) (low high : Nat) : low ≤ (g.between low high).1 := by
  simp only [between_fst, Nat.le_add_right]

theorem between_le (g : Random) {low high : Nat} (h : low ≤ high) :
    (g.between low high).1 ≤ high := by
  have hlt : (g.below (high - low + 1)).1 < high - low + 1 := g.below_lt (Nat.succ_pos _)
  rw [between_fst]
  omega

end Random

/-! ## Tests -/

example : (Random.mk 7).next.1 = 14266376187910451857 := by decide +kernel
/-- Two numbers from eight to fifteen. -/
example : (Random.mk 7).between 8 15 = (14, (Random.mk 7).next.2) := by decide +kernel
example : ((Random.mk 7).next.2.between 8 15).1 = 9 := by decide +kernel
/-- A draw from a single number takes a number from the generator all the same. -/
example : (Random.mk 7).between 1 1 = (1, (Random.mk 7).next.2) := by decide +kernel

end ChannelMachine
