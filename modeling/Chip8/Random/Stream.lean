import Chip8.Random.ChaCha

/-!
# Random bytes

A `RandomStream` is a key and a position in the sequence of 32-bit words of the key's ChaCha blocks.
Each draw takes the next word and keeps its low byte, so what a stream yields is fixed by its key:
draw number `k` is `RandomStream.byteAt key k`.

A 64-bit seed is stretched to a key by eight steps of a linear congruential generator, each giving
one word.
-/
namespace Chip8

/-- Where the next random byte comes from. -/
structure RandomStream where
  key : ChaCha.Key
  position : Nat
  deriving DecidableEq, Repr

namespace RandomStream

/-- The next state of the seed generator. -/
def seedStep (s : UInt64) : UInt64 := s * 6364136223846793005 + 11634580027462260723

/-- The word that a state of the seed generator gives: some middle bits, rotated right by the value of
the top five bits. -/
def seedWord (s : UInt64) : UInt32 :=
  let mixed := (((s >>> 18) ^^^ s) >>> 27).toUInt32
  let turn := (s >>> 59).toUInt32
  (mixed >>> turn) ||| (mixed <<< ((32 - turn) % 32))

/-- The key words of a seed. -/
def seedWords : Nat → UInt64 → List UInt32
  | 0, _ => []
  | n + 1, s => seedWord (seedStep s) :: seedWords n (seedStep s)

theorem length_seedWords (n : Nat) (s : UInt64) : (seedWords n s).length = n := by
  induction n generalizing s with
  | zero => rfl
  | succ n ih => simp [seedWords, ih]

/-- The key of a seed. -/
def keyOfSeed (seed : UInt64) : ChaCha.Key := ⟨(seedWords 8 seed).toArray, by simp [length_seedWords]⟩

/-- The stream of a key, from its beginning. -/
def ofKey (key : ChaCha.Key) : RandomStream := ⟨key, 0⟩

/-- The stream of a seed, from its beginning. -/
def ofSeed (seed : UInt64) : RandomStream := ofKey (keyOfSeed seed)

instance : Inhabited RandomStream := ⟨ofSeed 0⟩

/-- Word number `k` of the stream of a key. -/
def wordAt (key : ChaCha.Key) (k : Nat) : UInt32 :=
  (ChaCha.block key (k / 16)).get (ChaCha.position k)

/-- Draw number `k` from the stream of a key. -/
def byteAt (key : ChaCha.Key) (k : Nat) : UInt8 := (wordAt key k).toUInt8

/-- The next byte. -/
def next (r : RandomStream) : UInt8 := byteAt r.key r.position

/-- The stream after one draw. -/
def advance (r : RandomStream) : RandomStream := ⟨r.key, r.position + 1⟩

end RandomStream

end Chip8
