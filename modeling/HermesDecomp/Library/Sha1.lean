import HermesDecomp.Library.Bytes

/-!
# SHA-1

The hash function of twenty bytes, on 32-bit words kept as numbers. It makes
statements about images with a footer runnable; nothing is proved of it but the
length of its result.
-/

namespace HermesDecomp.Sha1Hash

/-- Rotate a 32-bit word left. -/
def rotateLeft (count word : Nat) : Nat := (word <<< count) % 2 ^ 32 ||| word >>> (32 - count)

/-- A word as four bytes, high byte first. -/
def wordBytes (word : Nat) : Bytes := (Bytes.leBytes 4 word).reverse

/-- The words of a byte string, high byte first; a partial last word is dropped. -/
def words : Bytes → List Nat
  | a :: b :: c :: d :: rest => Bytes.leNat [d, c, b, a] :: words rest
  | _ => []

/-- A message with its end mark, zeros up to a whole block and its length in bits. -/
def padded (message : Bytes) : Bytes :=
  message ++ [0x80] ++ List.replicate ((119 - message.length % 64) % 64) 0 ++
    (Bytes.leBytes 8 (message.length * 8)).reverse

/-- Extend the message schedule, newest word first. -/
def extend : (count : Nat) → List Nat → List Nat
  | 0, schedule => schedule
  | count + 1, schedule =>
      let next := rotateLeft 1 (schedule.getD 2 0 ^^^ schedule.getD 7 0 ^^^ schedule.getD 13 0 ^^^
        schedule.getD 15 0)
      extend count (next :: schedule)

/-- The five chaining words. -/
structure State where
  a : Nat
  b : Nat
  c : Nat
  d : Nat
  e : Nat

/-- The initial chaining words. -/
def initial : State := ⟨0x67452301, 0xEFCDAB89, 0x98BADCFE, 0x10325476, 0xC3D2E1F0⟩

/-- The complement of a 32-bit word. -/
def complement (word : Nat) : Nat := 2 ^ 32 - 1 - word

/-- The mixing function and the constant of a round. -/
def mix (t : Nat) (s : State) : Nat × Nat :=
  if t < 20 then (s.b &&& s.c ||| complement s.b &&& s.d, 0x5A827999)
  else if t < 40 then (s.b ^^^ s.c ^^^ s.d, 0x6ED9EBA1)
  else if t < 60 then (s.b &&& s.c ||| s.b &&& s.d ||| s.c &&& s.d, 0x8F1BBCDC)
  else (s.b ^^^ s.c ^^^ s.d, 0xCA62C1D6)

/-- The rounds from the `t`-th one on, one for each word of the schedule. -/
def rounds : (t : Nat) → List Nat → State → State
  | _, [], s => s
  | t, word :: rest, s =>
      let (f, k) := mix t s
      let next := (rotateLeft 5 s.a + f + s.e + k + word) % 2 ^ 32
      rounds (t + 1) rest ⟨next, s.a, rotateLeft 30 s.b, s.c, s.d⟩

/-- Absorb one block of sixteen words. -/
def absorb (s : State) (block : List Nat) : State :=
  let r := rounds 0 (extend 64 block.reverse).reverse s
  ⟨(s.a + r.a) % 2 ^ 32, (s.b + r.b) % 2 ^ 32, (s.c + r.c) % 2 ^ 32, (s.d + r.d) % 2 ^ 32,
    (s.e + r.e) % 2 ^ 32⟩

/-- Absorb block after block; the fuel counts them. -/
def absorbAll : (fuel : Nat) → List Nat → State → State
  | 0, _, s => s
  | _ + 1, [], s => s
  | fuel + 1, word :: rest, s =>
      absorbAll fuel ((word :: rest).drop 16) (absorb s ((word :: rest).take 16))

/-- The twenty bytes of a state. -/
def State.bytes (s : State) : Bytes :=
  wordBytes s.a ++ wordBytes s.b ++ wordBytes s.c ++ wordBytes s.d ++ wordBytes s.e

/-- The hash of a message. -/
def hash (message : Bytes) : { bytes : Bytes // bytes.length = 20 } :=
  ⟨(absorbAll (message.length / 64 + 2) (words (padded message)) initial).bytes,
    by simp [State.bytes, wordBytes]⟩

/-- The hash of `abc`. -/
example : (hash [97, 98, 99]).val =
    [0xA9, 0x99, 0x3E, 0x36, 0x47, 0x06, 0x81, 0x6A, 0xBA, 0x3E, 0x25, 0x71, 0x78, 0x50, 0xC2, 0x6C,
      0x9C, 0xD0, 0xD8, 0x9D] := by
  decide +kernel

end HermesDecomp.Sha1Hash
