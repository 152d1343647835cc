/-!
# MD5

The MD5 digest of a byte sequence: the bytes are padded to whole blocks of 64, and each block is
stirred into a state of four words by 64 steps. This is no protection against anyone who wants two
texts of one digest; here it only tells contents apart.
-/

namespace MenuPages.Md5

/-- The four words of the state. -/
structure State where
  a : UInt32
  b : UInt32
  c : UInt32
  d : UInt32
  deriving DecidableEq, Repr

/-- The state before the first block. -/
def State.start : State := ⟨0x67452301, 0xefcdab89, 0x98badcfe, 0x10325476⟩

/-- The constant of each step: the sine of its number, counted from 1, as a fraction of `2 ^ 32`. -/
def sines : List UInt32 :=
  [0xd76aa478, 0xe8c7b756, 0x242070db, 0xc1bdceee, 0xf57c0faf, 0x4787c62a,
    0xa8304613, 0xfd469501, 0x698098d8, 0x8b44f7af, 0xffff5bb1, 0x895cd7be,
    0x6b901122, 0xfd987193, 0xa679438e, 0x49b40821, 0xf61e2562, 0xc040b340,
    0x265e5a51, 0xe9b6c7aa, 0xd62f105d, 0x02441453, 0xd8a1e681, 0xe7d3fbc8,
    0x21e1cde6, 0xc33707d6, 0xf4d50d87, 0x455a14ed, 0xa9e3e905, 0xfcefa3f8,
    0x676f02d9, 0x8d2a4c8a, 0xfffa3942, 0x8771f681, 0x6d9d6122, 0xfde5380c,
    0xa4beea44, 0x4bdecfa9, 0xf6bb4b60, 0xbebfbc70, 0x289b7ec6, 0xeaa127fa,
    0xd4ef3085, 0x04881d05, 0xd9d4d039, 0xe6db99e5, 0x1fa27cf8, 0xc4ac5665,
    0xf4292244, 0x432aff97, 0xab9423a7, 0xfc93a039, 0x655b59c3, 0x8f0ccc92,
    0xffeff47d, 0x85845dd1, 0x6fa87e4f, 0xfe2ce6e0, 0xa3014314, 0x4e0811a1,
    0xf7537e82, 0xbd3af235, 0x2ad7d2bb, 0xeb86d391]

/-- By how many bits each step turns: four amounts in each of four rounds, over and over. -/
def turns : List (List UInt32) :=
  [[7, 12, 17, 22], [5, 9, 14, 20], [4, 11, 16, 23], [6, 10, 15, 21]]

def turnOf (i : Nat) : UInt32 := ((turns[i / 16]?.getD [])[i % 4]?).getD 0

/-- A word turned to the left. -/
def turnLeft (x n : UInt32) : UInt32 := (x <<< n) ||| (x >>> (32 - n))

/-- How a step mixes three words of the state. -/
def mixed (i : Nat) (b c d : UInt32) : UInt32 :=
  match i / 16 with
  | 0 => (b &&& c) ||| (~~~b &&& d)
  | 1 => (d &&& b) ||| (~~~d &&& c)
  | 2 => b ^^^ c ^^^ d
  | _ => c ^^^ (b ||| ~~~d)

/-- Which word of the block a step takes. -/
def wordOf (i : Nat) : Nat :=
  match i / 16 with
  | 0 => i
  | 1 => (5 * i + 1) % 16
  | 2 => (3 * i + 5) % 16
  | _ => 7 * i % 16

/-- One step. -/
def step (words : List UInt32) (s : State) (i : Nat) : State :=
  let sum := s.a + mixed i s.b s.c s.d + sines[i]?.getD 0 + words[wordOf i]?.getD 0
  ⟨s.d, s.b + turnLeft sum (turnOf i), s.b, s.c⟩

/-- Words of four bytes each, the low byte first. -/
def wordsOf : List UInt8 → List UInt32
  | p :: q :: r :: s :: bytes =>
    (p.toUInt32 ||| (q.toUInt32 <<< 8) ||| (r.toUInt32 <<< 16) ||| (s.toUInt32 <<< 24)) ::
      wordsOf bytes
  | _ => []

/-- The state after one block. -/
def absorb (s : State) (block : List UInt8) : State :=
  let t := (List.range 64).foldl (step (wordsOf block)) s
  ⟨s.a + t.a, s.b + t.b, s.c + t.c, s.d + t.d⟩

/-- The state after all blocks. -/
def absorbAll (s : State) (bytes : List UInt8) : State :=
  if bytes.length < 64 then s else absorbAll (absorb s (bytes.take 64)) (bytes.drop 64)
termination_by bytes.length
decreasing_by simp only [List.length_drop]; omega

/-- The bytes of a number, the low byte first. -/
def littleEndian (size n : Nat) : List UInt8 :=
  (List.range size).map fun i => UInt8.ofNat (n >>> (8 * i))

/-- Bytes with an end mark, zeros and their length in bits behind them, in whole blocks. -/
def padded (bytes : List UInt8) : List UInt8 :=
  bytes ++ 0x80 :: List.replicate ((119 - bytes.length % 64) % 64) 0 ++
    littleEndian 8 (8 * bytes.length)

/-- The sixteen bytes of the digest. -/
def digest (bytes : List UInt8) : List UInt8 :=
  let s := absorbAll State.start (padded bytes)
  [s.a, s.b, s.c, s.d].flatMap fun word => littleEndian 4 word.toNat

end MenuPages.Md5
