/-!
# The ChaCha block function

ChaCha turns a key and a block counter into a block of sixteen 32-bit words. The starting state is
four constant words, the eight words of the key, the counter (low word first) and two zero words;
it is mixed by `rounds / 2` double rounds, each four column and four diagonal quarter rounds, and
then added word by word to itself as it was before the mixing.
-/
namespace Chip8.ChaCha

/-- The words of a key. -/
abbrev Key := Vector UInt32 8

/-- The words of a state or of a block. -/
abbrev Block := Vector UInt32 16

/-- Rotation to the left by `n` bits, for `n` between 1 and 31. -/
def rotateLeft (x n : UInt32) : UInt32 := (x <<< n) ||| (x >>> (32 - n))

/-- Mixes four words of a state. -/
def mixWords (s : Block) (a b c d : Fin 16) : Block :=
  let s := s.set a (s[a] + s[b])
  let s := s.set d (rotateLeft (s[d] ^^^ s[a]) 16)
  let s := s.set c (s[c] + s[d])
  let s := s.set b (rotateLeft (s[b] ^^^ s[c]) 12)
  let s := s.set a (s[a] + s[b])
  let s := s.set d (rotateLeft (s[d] ^^^ s[a]) 8)
  let s := s.set c (s[c] + s[d])
  s.set b (rotateLeft (s[b] ^^^ s[c]) 7)

/-- A position in a state, counted around. -/
def position (n : Nat) : Fin 16 := ⟨n % 16, Nat.mod_lt n (by decide)⟩

/-- Mixes the words at four positions. -/
def quarterRound (s : Block) (a b c d : Nat) : Block :=
  mixWords s (position a) (position b) (position c) (position d)

/-- Mixes the four columns, then the four diagonals. -/
def doubleRound (s : Block) : Block :=
  let s := quarterRound s 0 4 8 12
  let s := quarterRound s 1 5 9 13
  let s := quarterRound s 2 6 10 14
  let s := quarterRound s 3 7 11 15
  let s := quarterRound s 0 5 10 15
  let s := quarterRound s 1 6 11 12
  let s := quarterRound s 2 7 8 13
  quarterRound s 3 4 9 14

/-- `n` double rounds. -/
def mix : Nat → Block → Block
  | 0, s => s
  | n + 1, s => mix n (doubleRound s)

/-- The state that block number `counter` starts from; the counter wraps at 64 bits. -/
def start (key : Key) (counter : Nat) : Block :=
  Vector.mk #[0x61707865, 0x3320646e, 0x79622d32, 0x6b206574,
    key[0], key[1], key[2], key[3], key[4], key[5], key[6], key[7],
    UInt32.ofNat counter, UInt32.ofNat (counter / 0x100000000), 0, 0] rfl

/-- Block number `counter` of the stream of a key, with twelve rounds. -/
def block (key : Key) (counter : Nat) : Block :=
  let s := start key counter
  Vector.zipWith (· + ·) (mix 6 s) s

end Chip8.ChaCha
