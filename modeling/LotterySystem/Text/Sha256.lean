import Mathlib.Data.List.Basic

/-!
# SHA-256

The hash function of `crypto/sha256` on lists of bytes, and its hexadecimal
form. Nothing is proved about it: the development only needs that it is a
function of its input, and assumes where it has to that two given inputs do
not collide.
-/

namespace LotterySystem.Text.Sha256

def rotr (x n : UInt32) : UInt32 := (x >>> n) ||| (x <<< (32 - n))

/-- The round constants. -/
def k : List UInt32 :=
  [0x428a2f98, 0x71374491, 0xb5c0fbcf, 0xe9b5dba5, 0x3956c25b, 0x59f111f1, 0x923f82a4, 0xab1c5ed5,
    0xd807aa98, 0x12835b01, 0x243185be, 0x550c7dc3, 0x72be5d74, 0x80deb1fe, 0x9bdc06a7, 0xc19bf174,
    0xe49b69c1, 0xefbe4786, 0x0fc19dc6, 0x240ca1cc, 0x2de92c6f, 0x4a7484aa, 0x5cb0a9dc, 0x76f988da,
    0x983e5152, 0xa831c66d, 0xb00327c8, 0xbf597fc7, 0xc6e00bf3, 0xd5a79147, 0x06ca6351, 0x14292967,
    0x27b70a85, 0x2e1b2138, 0x4d2c6dfc, 0x53380d13, 0x650a7354, 0x766a0abb, 0x81c2c92e, 0x92722c85,
    0xa2bfe8a1, 0xa81a664b, 0xc24b8b70, 0xc76c51a3, 0xd192e819, 0xd6990624, 0xf40e3585, 0x106aa070,
    0x19a4c116, 0x1e376c08, 0x2748774c, 0x34b0bcb5, 0x391c0cb3, 0x4ed8aa4a, 0x5b9cca4f, 0x682e6ff3,
    0x748f82ee, 0x78a5636f, 0x84c87814, 0x8cc70208, 0x90befffa, 0xa4506ceb, 0xbef9a3f7, 0xc67178f2]

/-- The eight words of the state. -/
structure State where
  a : UInt32
  b : UInt32
  c : UInt32
  d : UInt32
  e : UInt32
  f : UInt32
  g : UInt32
  h : UInt32

def initial : State :=
  ⟨0x6a09e667, 0xbb67ae85, 0x3c6ef372, 0xa54ff53a, 0x510e527f, 0x9b05688c, 0x1f83d9ab, 0x5be0cd19⟩

/-- Append the length and fill up to whole blocks. -/
def pad (bytes : List UInt8) : List UInt8 :=
  let zeros := (119 - bytes.length % 64) % 64
  let bits := 8 * bytes.length
  bytes ++ (0x80 : UInt8) :: (List.replicate zeros (0 : UInt8) ++
    (List.range 8).map fun i => UInt8.ofNat (bits >>> (8 * (7 - i))))

def word (bytes : List UInt8) : UInt32 :=
  bytes.foldl (fun w b => (w <<< 8) ||| b.toUInt32) 0

/-- The words of one block, big-endian. -/
def blockWords (block : List UInt8) : List UInt32 :=
  (List.range 16).map fun i => word ((block.drop (4 * i)).take 4)

/-- Extend the schedule, kept newest word first, by `n` words. -/
def extend : Nat → List UInt32 → List UInt32
  | 0, w => w
  | n + 1, w =>
      let w2 := w.getD 1 0
      let w15 := w.getD 14 0
      let s0 := rotr w15 7 ^^^ rotr w15 18 ^^^ (w15 >>> 3)
      let s1 := rotr w2 17 ^^^ rotr w2 19 ^^^ (w2 >>> 10)
      extend n ((w.getD 15 0 + s0 + w.getD 6 0 + s1) :: w)

def schedule (block : List UInt8) : List UInt32 :=
  (extend 48 (blockWords block).reverse).reverse

def round (s : State) (kw : UInt32 × UInt32) : State :=
  let s1 := rotr s.e 6 ^^^ rotr s.e 11 ^^^ rotr s.e 25
  let ch := (s.e &&& s.f) ^^^ ((~~~s.e) &&& s.g)
  let t1 := s.h + s1 + ch + kw.1 + kw.2
  let s0 := rotr s.a 2 ^^^ rotr s.a 13 ^^^ rotr s.a 22
  let maj := (s.a &&& s.b) ^^^ (s.a &&& s.c) ^^^ (s.b &&& s.c)
  ⟨t1 + (s0 + maj), s.a, s.b, s.c, s.d + t1, s.e, s.f, s.g⟩

/-- Mix one block of 64 bytes into the state. -/
def compress (s : State) (block : List UInt8) : State :=
  let r := (k.zip (schedule block)).foldl round s
  ⟨s.a + r.a, s.b + r.b, s.c + r.c, s.d + r.d, s.e + r.e, s.f + r.f, s.g + r.g, s.h + r.h⟩

/-- Mix `n` blocks into the state. -/
def blocks : Nat → List UInt8 → State → State
  | 0, _, s => s
  | n + 1, bytes, s => blocks n (bytes.drop 64) (compress s (bytes.take 64))

/-- `sha256.Sum256`, as its eight words. -/
def sum256 (bytes : List UInt8) : List UInt32 :=
  let padded := pad bytes
  let s := blocks (padded.length / 64) padded initial
  [s.a, s.b, s.c, s.d, s.e, s.f, s.g, s.h]

/-- `hex.EncodeToString` of one word. -/
def hexWord (w : UInt32) : List Char :=
  (List.range 8).map fun i => Nat.digitChar ((w.toNat >>> (4 * (7 - i))) % 16)

/-- The hexadecimal digest of a text in its UTF-8 encoding. -/
def hexDigest (text : List Char) : String :=
  String.ofList ((sum256 (text.flatMap String.utf8EncodeChar)).flatMap hexWord)

example : hexDigest ['a', 'b', 'c'] =
    "ba7816bf8f01cfea414140de5dae2223b00361a396177a9cb410ff61f20015ad" := by decide +kernel

end LotterySystem.Text.Sha256
