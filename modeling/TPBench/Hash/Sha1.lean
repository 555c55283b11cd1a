import TPBench.Hash.Blocks

/-!
# SHA-1

The hash function of RFC 3174, for messages of whole bytes: a message is padded to whole blocks
of 64 bytes (`pad`), and every block is compressed into a state of five words (`compress`). The
80 words of the message schedule are given by their recurrence.
-/

open BlockHash

namespace Sha1

/-- The circular left shift `S^n(X)`. -/
def rotl (n x : UInt32) : UInt32 := (x <<< n) ||| (x >>> (32 - n))

/-- The function `f(t;B,C,D)`. -/
def mix (t : ℕ) (b c d : UInt32) : UInt32 :=
  if t < 20 then (b &&& c) ||| (~~~b &&& d)
  else if t < 40 then b ^^^ c ^^^ d
  else if t < 60 then (b &&& c) ||| (b &&& d) ||| (c &&& d)
  else b ^^^ c ^^^ d

/-- The constant `K(t)`. -/
def constant (t : ℕ) : UInt32 :=
  if t < 20 then 0x5A827999
  else if t < 40 then 0x6ED9EBA1
  else if t < 60 then 0x8F1BBCDC
  else 0xCA62C1D6

/-- Five words: a state, or the variables `A` to `E`. -/
structure Words where
  a : UInt32
  b : UInt32
  c : UInt32
  d : UInt32
  e : UInt32
  deriving DecidableEq

/-- The initial state. -/
def initial : Words := ⟨0x67452301, 0xEFCDAB89, 0x98BADCFE, 0x10325476, 0xC3D2E1F0⟩

/-- Word `t` of a block, the most significant byte first. -/
def blockWord (block : List UInt8) (t : ℕ) : UInt32 :=
  ((block.getD (4 * t) 0).toUInt32 <<< 24) ||| ((block.getD (4 * t + 1) 0).toUInt32 <<< 16) |||
    ((block.getD (4 * t + 2) 0).toUInt32 <<< 8) ||| (block.getD (4 * t + 3) 0).toUInt32

/-- The message schedule `W(t)`. -/
def schedule (block : List UInt8) (t : ℕ) : UInt32 :=
  if t < 16 then blockWord block t
  else rotl 1 (schedule block (t - 3) ^^^ schedule block (t - 8) ^^^ schedule block (t - 14) ^^^
    schedule block (t - 16))

/-- Round `t` with the word `w`. -/
def round (w : ℕ → UInt32) (x : Words) (t : ℕ) : Words :=
  ⟨rotl 5 x.a + mix t x.b x.c x.d + x.e + w t + constant t, x.a, rotl 30 x.b, x.c, x.d⟩

/-- A block compressed into a state. -/
def compress (h : Words) (block : List UInt8) : Words :=
  let x := (List.range 80).foldl (round (schedule block)) h
  ⟨h.a + x.a, h.b + x.b, h.c + x.c, h.d + x.d, h.e + x.e⟩

/-- A word as four bytes, the most significant first. -/
def wordBytes (w : UInt32) : List UInt8 :=
  [(w >>> 24).toUInt8, (w >>> 16).toUInt8, (w >>> 8).toUInt8, w.toUInt8]

/-- A number as eight bytes, the most significant first. -/
def lengthBytes (n : ℕ) : List UInt8 :=
  [56, 48, 40, 32, 24, 16, 8, 0].map fun k => UInt8.ofNat (n / 2 ^ k)

/-- The number of zero bytes between the mark behind a message of `len` bytes and its length. -/
def zeros (len : ℕ) : ℕ := (119 - len % 64) % 64

/-- The padded message: a one bit, zeros, and the number of bits. -/
def pad (m : List UInt8) : List UInt8 :=
  m ++ (0x80 :: (List.replicate (zeros m.length) 0 ++ lengthBytes (8 * m.length)))

/-- The digest of a message. -/
def digest (m : List UInt8) : List UInt8 :=
  let h := (absorb compress 64 initial (pad m)).1
  wordBytes h.a ++ wordBytes h.b ++ wordBytes h.c ++ wordBytes h.d ++ wordBytes h.e

@[simp] theorem length_lengthBytes (n : ℕ) : (lengthBytes n).length = 8 := rfl

/-- The recurrence of the schedule. -/
theorem schedule_of_le {block : List UInt8} {t : ℕ} (h : 16 ≤ t) :
    schedule block t = rotl 1 (schedule block (t - 3) ^^^ schedule block (t - 8) ^^^
      schedule block (t - 14) ^^^ schedule block (t - 16)) := by
  conv_lhs => rw [schedule, if_neg (by omega)]

theorem schedule_of_lt {block : List UInt8} {t : ℕ} (h : t < 16) :
    schedule block t = blockWord block t := by
  rw [schedule, if_pos h]

end Sha1
