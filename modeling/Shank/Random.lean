/-
# Random numbers

What a program draws comes from a tape of natural numbers, read from one place
to the next. Nothing is assumed of the tape, so what holds of a run holds of it
whatever generator stands behind the draws. Programs are run on the tape of the
generator SplitMix64.
-/

namespace Shank

/-- The finalizer of SplitMix64. -/
def splitMix (n : UInt64) : UInt64 :=
  let n := (n ^^^ (n >>> 30)) * 0xbf58476d1ce4e5b9
  let n := (n ^^^ (n >>> 27)) * 0x94d049bb133111eb
  n ^^^ (n >>> 31)

/-- The tape of a seed. A number has 128 bits, so that a range of 64-bit
integers is covered evenly. -/
def seededTape (seed : UInt64) (k : Nat) : Nat :=
  let word (i : Nat) := splitMix (seed + UInt64.ofNat (i + 1) * 0x9e3779b97f4a7c15)
  (word (2 * k)).toNat * Nat.pow 2 64 + (word (2 * k + 1)).toNat

/-- A source of random numbers: a tape, and how many of its numbers are taken. -/
structure Random where
  tape : Nat → Nat := seededTape 0
  taken : Nat := 0

namespace Random

/-- The source that a seed stands for. -/
def ofSeed (seed : Nat) : Random where
  tape := seededTape (UInt64.ofNat seed)

/-- A number from `low` to `high`; from an empty range it is `low`. -/
def between (r : Random) (low high : Int) : Int × Random :=
  (low + (r.tape r.taken : Int) % (max (high - low) 0 + 1), { r with taken := r.taken + 1 })

end Random
end Shank
