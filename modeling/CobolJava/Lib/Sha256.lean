/-
**SHA-256.**

The hash function of `hashlib.sha256`, on lists of bytes, as the standard defines it: the message is
padded to whole blocks of 64 bytes, each block is expanded into a schedule of 64 words and folded
into the state of eight words.  Nothing in this development depends on which words come out: the
results that need the absence of collisions say so in a hypothesis about the texts they hash.

Main definitions:

* `Sha256.pad`, `Sha256.schedule`, `Sha256.compress` — the three stages;
* `Sha256.hexdigest` — `hashlib.sha256(data).hexdigest()`.

Main results:

* `Sha256.hexdigest_length` — the digest is 64 hexadecimal digits.
-/

import Mathlib.Data.Nat.Notation

set_option autoImplicit false

namespace Sha256

/-! ### Padding -/

/-- The eight bytes of a length, most significant first. -/
def lengthBytes (n : ℕ) : List UInt8 :=
  (List.range 8).map fun i => UInt8.ofNat (n >>> (8 * (7 - i)))

/-- The message with the bit `1`, zeros up to a whole number of blocks, and its length in bits. -/
def pad (msg : List UInt8) : List UInt8 :=
  msg ++ (128 : UInt8) :: (List.replicate ((119 - msg.length % 64) % 64) 0 ++
    lengthBytes (8 * msg.length))

/-- The big-endian words of a list of bytes. -/
def words : List UInt8 → List UInt32
  | a :: b :: c :: d :: rest =>
      (a.toUInt32 <<< 24 ||| b.toUInt32 <<< 16 ||| c.toUInt32 <<< 8 ||| d.toUInt32) :: words rest
  | _ => []

/-! ### The schedule -/

def rotr (x : UInt32) (n : UInt32) : UInt32 := (x >>> n) ||| (x <<< (32 - n))

def smallSigma0 (x : UInt32) : UInt32 := rotr x 7 ^^^ rotr x 18 ^^^ (x >>> 3)

def smallSigma1 (x : UInt32) : UInt32 := rotr x 17 ^^^ rotr x 19 ^^^ (x >>> 10)

/-- The schedule extended by `n` words; the words so far are held latest first. -/
def extend : ℕ → List UInt32 → List UInt32
  | 0, ws => ws
  | n + 1, ws =>
      extend n ((smallSigma1 (ws.getD 1 0) + ws.getD 6 0 + smallSigma0 (ws.getD 14 0) +
        ws.getD 15 0) :: ws)

/-- The 64 words of the schedule of a block of 16 words. -/
def schedule (block : List UInt32) : List UInt32 := (extend 48 block.reverse).reverse

/-! ### The compression function -/

def roundConstants : List UInt32 :=
  [0x428a2f98, 0x71374491, 0xb5c0fbcf, 0xe9b5dba5, 0x3956c25b, 0x59f111f1, 0x923f82a4, 0xab1c5ed5,
    0xd807aa98, 0x12835b01, 0x243185be, 0x550c7dc3, 0x72be5d74, 0x80deb1fe, 0x9bdc06a7, 0xc19bf174,
    0xe49b69c1, 0xefbe4786, 0x0fc19dc6, 0x240ca1cc, 0x2de92c6f, 0x4a7484aa, 0x5cb0a9dc, 0x76f988da,
    0x983e5152, 0xa831c66d, 0xb00327c8, 0xbf597fc7, 0xc6e00bf3, 0xd5a79147, 0x06ca6351, 0x14292967,
    0x27b70a85, 0x2e1b2138, 0x4d2c6dfc, 0x53380d13, 0x650a7354, 0x766a0abb, 0x81c2c92e, 0x92722c85,
    0xa2bfe8a1, 0xa81a664b, 0xc24b8b70, 0xc76c51a3, 0xd192e819, 0xd6990624, 0xf40e3585, 0x106aa070,
    0x19a4c116, 0x1e376c08, 0x2748774c, 0x34b0bcb5, 0x391c0cb3, 0x4ed8aa4a, 0x5b9cca4f, 0x682e6ff3,
    0x748f82ee, 0x78a5636f, 0x84c87814, 0x8cc70208, 0x90befffa, 0xa4506ceb, 0xbef9a3f7, 0xc67178f2]

/-- The eight words of the state. -/
structure State where
  a : UInt32
  b : UInt32
  c : UInt32
  d : UInt32
  e : UInt32
  f : UInt32
  g : UInt32
  h : UInt32

def State.init : State :=
  ⟨0x6a09e667, 0xbb67ae85, 0x3c6ef372, 0xa54ff53a, 0x510e527f, 0x9b05688c, 0x1f83d9ab, 0x5be0cd19⟩

def State.round (s : State) (kw : UInt32 × UInt32) : State :=
  let t1 := s.h + (rotr s.e 6 ^^^ rotr s.e 11 ^^^ rotr s.e 25) +
    ((s.e &&& s.f) ^^^ (~~~s.e &&& s.g)) + kw.1 + kw.2
  let t2 := (rotr s.a 2 ^^^ rotr s.a 13 ^^^ rotr s.a 22) +
    ((s.a &&& s.b) ^^^ (s.a &&& s.c) ^^^ (s.b &&& s.c))
  ⟨t1 + t2, s.a, s.b, s.c, s.d + t1, s.e, s.f, s.g⟩

def compress (s : State) (block : List UInt32) : State :=
  let r := (roundConstants.zip (schedule block)).foldl State.round s
  ⟨s.a + r.a, s.b + r.b, s.c + r.c, s.d + r.d, s.e + r.e, s.f + r.f, s.g + r.g, s.h + r.h⟩

/-- The state after `n` blocks of 16 words. -/
def run : ℕ → State → List UInt32 → State
  | 0, s, _ => s
  | n + 1, s, ws => run n (compress s (ws.take 16)) (ws.drop 16)

/-! ### The digest -/

/-- The eight hexadecimal digits of a word. -/
def hexWord (w : UInt32) : List Char :=
  (List.range 8).map fun i => Nat.digitChar ((w.toNat >>> (4 * (7 - i))) % 16)

@[simp] theorem hexWord_length (w : UInt32) : (hexWord w).length = 8 := by simp [hexWord]

/-- The words of a state, in order. -/
def State.toList (s : State) : List UInt32 := [s.a, s.b, s.c, s.d, s.e, s.f, s.g, s.h]

/-- The digest `hashlib.sha256(data).hexdigest()`. -/
def hexdigest (data : List UInt8) : String :=
  let ws := words (pad data)
  String.ofList ((run (ws.length / 16) State.init ws).toList.flatMap hexWord)

theorem hexdigest_length (data : List UInt8) : (hexdigest data).length = 64 := by
  simp [hexdigest, State.toList]

end Sha256
