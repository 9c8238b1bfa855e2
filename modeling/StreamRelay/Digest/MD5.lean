/-
  StreamRelay/Digest/MD5.lean
  ===========================
  **MD5 signatures, of a whole message and of one that comes in blocks of any size.**

  The message is padded to whole 64-byte blocks and each block is mixed into a chain of four words.
  `md5` says this of a whole message. `Absorber` keeps the chain, the bytes that do not fill a block
  yet, and the length, and gives the same signature however the message is cut.
-/
import StreamRelay.Bytes

namespace StreamRelay.Digest

/-! ### Signatures -/

structure Signature where
  bytes : Bytes
  length_eq : bytes.length = 16
deriving DecidableEq, Repr

def Signature.ofBytes? (bytes : Bytes) : Option Signature :=
  if h : bytes.length = 16 then some ⟨bytes, h⟩ else none

def Signature.text (s : Signature) : String := String.ofList (s.bytes.flatMap hexDigits)

/-! ### Words and constants -/

/-- The words of a run of bytes, four bytes to a word, lowest byte first. -/
def words : Bytes → List UInt32
  | b0 :: b1 :: b2 :: b3 :: rest =>
    (b0.toUInt32 ||| b1.toUInt32 <<< 8 ||| b2.toUInt32 <<< 16 ||| b3.toUInt32 <<< 24) :: words rest
  | _ => []

def wordBytes (w : UInt32) : Bytes :=
  [w.toUInt8, (w >>> 8).toUInt8, (w >>> 16).toUInt8, (w >>> 24).toUInt8]

def rotateLeft (w n : UInt32) : UInt32 := w <<< n ||| w >>> (32 - n)

/-- The constant of each step: the first 32 bits of the fraction of the sine of the step's number,
    without sign. -/
def sines : Array UInt32 :=
  #[0xd76aa478, 0xe8c7b756, 0x242070db, 0xc1bdceee, 0xf57c0faf, 0x4787c62a, 0xa8304613, 0xfd469501,
   0x698098d8, 0x8b44f7af, 0xffff5bb1, 0x895cd7be, 0x6b901122, 0xfd987193, 0xa679438e, 0x49b40821,
   0xf61e2562, 0xc040b340, 0x265e5a51, 0xe9b6c7aa, 0xd62f105d, 0x02441453, 0xd8a1e681, 0xe7d3fbc8,
   0x21e1cde6, 0xc33707d6, 0xf4d50d87, 0x455a14ed, 0xa9e3e905, 0xfcefa3f8, 0x676f02d9, 0x8d2a4c8a,
   0xfffa3942, 0x8771f681, 0x6d9d6122, 0xfde5380c, 0xa4beea44, 0x4bdecfa9, 0xf6bb4b60, 0xbebfbc70,
   0x289b7ec6, 0xeaa127fa, 0xd4ef3085, 0x04881d05, 0xd9d4d039, 0xe6db99e5, 0x1fa27cf8, 0xc4ac5665,
   0xf4292244, 0x432aff97, 0xab9423a7, 0xfc93a039, 0x655b59c3, 0x8f0ccc92, 0xffeff47d, 0x85845dd1,
   0x6fa87e4f, 0xfe2ce6e0, 0xa3014314, 0x4e0811a1, 0xf7537e82, 0xbd3af235, 0x2ad7d2bb, 0xeb86d391]

/-- The rotations of each round of sixteen steps; a round uses its four in turn. -/
def rotations : Array UInt32 :=
  #[7, 12, 17, 22, 5, 9, 14, 20, 4, 11, 16, 23, 6, 10, 15, 21]

/-! ### Mixing one block -/

/-- The four words that the blocks are mixed into. -/
structure Chain where
  a : UInt32
  b : UInt32
  c : UInt32
  d : UInt32
deriving DecidableEq, Repr

def Chain.initial : Chain := ⟨0x67452301, 0xefcdab89, 0x98badcfe, 0x10325476⟩

/-- The function of a round on the last three words of the chain. -/
def Chain.blend (x : Chain) (round : Nat) : UInt32 :=
  if round = 0 then x.b &&& x.c ||| ~~~x.b &&& x.d
  else if round = 1 then x.d &&& x.b ||| ~~~x.d &&& x.c
  else if round = 2 then x.b ^^^ x.c ^^^ x.d
  else x.c ^^^ (x.b ||| ~~~x.d)

def wordOfStep (i : Nat) : Nat :=
  if i < 16 then i
  else if i < 32 then (5 * i + 1) % 16
  else if i < 48 then (3 * i + 5) % 16
  else 7 * i % 16

/-- One of the 64 steps: blend, add the word and the constant, rotate, and turn the chain by one
    word. -/
def Chain.step (block : Array UInt32) (x : Chain) (i : Nat) : Chain :=
  let sum := x.a + x.blend (i / 16) + sines.getD i 0 + block.getD (wordOfStep i) 0
  ⟨x.d, x.b + rotateLeft sum (rotations.getD (4 * (i / 16) + i % 4) 0), x.b, x.c⟩

def steps : List Nat := List.range 64

def Chain.compress (x : Chain) (block : Bytes) : Chain :=
  let y := steps.foldl (Chain.step (words block).toArray) x
  ⟨x.a + y.a, x.b + y.b, x.c + y.c, x.d + y.d⟩

def Chain.signature (x : Chain) : Signature :=
  ⟨wordBytes x.a ++ wordBytes x.b ++ wordBytes x.c ++ wordBytes x.d, rfl⟩

/-! ### Whole messages -/

def blockSize : Nat := 64

/-- The bytes that a number below 2⁶⁴ is written with, lowest first; a larger number keeps its low
    64 bits. -/
def lengthBytes (n : Nat) : Bytes := (List.range 8).map fun i => (n / Nat.pow 256 i).toUInt8

/-- What follows a message of `length` bytes: one set bit, zeros, and the length in bits, up to a
    whole block. -/
def padding (length : Nat) : Bytes :=
  0x80 :: List.replicate ((119 - length % blockSize) % blockSize) 0 ++ lengthBytes (8 * length)

/-- A run that holds a whole block is longer than what follows that block. -/
theorem length_drop_blockSize_lt {bytes : Bytes} (h : ¬(bytes.take blockSize).length < blockSize) :
    (bytes.drop blockSize).length < bytes.length := by
  rw [List.length_take] at h
  rw [List.length_drop]
  unfold blockSize at *
  omega

/-- Cut a run into whole blocks; bytes that fill no block are left out. -/
def blocks (bytes : Bytes) : List Bytes :=
  if _ : (bytes.take blockSize).length < blockSize then []
  else bytes.take blockSize :: blocks (bytes.drop blockSize)
termination_by bytes.length
decreasing_by exact length_drop_blockSize_lt ‹_›

/-- **The MD5 signature of a message**: every block of the padded message is mixed in, in order. -/
def md5 (message : Bytes) : Signature :=
  ((blocks (message ++ padding message.length)).foldl Chain.compress .initial).signature

/-! ### Messages that come in parts -/

/-- A message in the course of being absorbed: the chain over its whole blocks, the bytes after
    them, its length. -/
structure Absorber where
  chain : Chain
  tail : Bytes
  length : Nat
deriving DecidableEq, Repr

def Absorber.empty : Absorber := ⟨.initial, [], 0⟩

/-- Mix the whole blocks of a run into the chain, and keep the bytes after them. -/
def mixBlocks (chain : Chain) (bytes : Bytes) : Chain × Bytes :=
  if _ : (bytes.take blockSize).length < blockSize then (chain, bytes)
  else mixBlocks (chain.compress (bytes.take blockSize)) (bytes.drop blockSize)
termination_by bytes.length
decreasing_by exact length_drop_blockSize_lt ‹_›

def Absorber.absorb (m : Absorber) (bytes : Bytes) : Absorber :=
  let (chain, tail) := mixBlocks m.chain (m.tail ++ bytes)
  ⟨chain, tail, m.length + bytes.length⟩

def Absorber.signature (m : Absorber) : Signature :=
  (mixBlocks m.chain (m.tail ++ padding m.length)).1.signature

end StreamRelay.Digest
