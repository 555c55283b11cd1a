import TPBench.Hash.Sha1
import TPBench.Raf.Types

/-!
# The SHA-1 of the Store

The IDs of records are SHA-1 digests of their fields, and the code has a SHA-1 of its own, which
takes its input in pieces: `tpb_sha1_update` hashes whole blocks and keeps what is left of a
piece in a buffer, and `tpb_sha1_final` pads the last block there.

`Absorbed ctx p` says what a context is after the pieces of `p`: its state is that behind the
whole blocks of `p`, its buffer starts with the rest, and the counter is the length. Every update
keeps it (`Absorbed.update`), so that the digest is that of RFC 3174, however the message was cut
(`sha1_of_pieces`). For a message of 2^61 bytes or more, whose number of bits the RFC does not
define, both sides take that number modulo 2^64.
-/

open CFile BlockHash

namespace TPBench

open Sha1 (Words)

/-! ### The code -/

/-- `tpb_sha1_ctx_t`. -/
structure Sha1Ctx where
  state : Words
  count : UInt64
  buf : CArr 64

/-- `memcpy` or `memset` to a position in the buffer. -/
def copyTo (buf : CArr 64) (off : ℕ) (bs : Bytes) : CArr 64 := toArr 64 (pwrite buf.toList off bs)

/-- `_sf_rotl32`. -/
def sfRotl32 (x n : UInt32) : UInt32 := (x <<< n) ||| (x >>> (32 - n))

/-- The two loops that fill `w`, up to word `i`. -/
def fillWords (block : Bytes) : ℕ → List UInt32
  | 0 => []
  | i + 1 =>
      let w := fillWords block i
      if i < 16 then
        w ++ [((block.getD (i * 4 + 0) 0).toUInt32 <<< 24) |||
          ((block.getD (i * 4 + 1) 0).toUInt32 <<< 16) |||
          ((block.getD (i * 4 + 2) 0).toUInt32 <<< 8) ||| (block.getD (i * 4 + 3) 0).toUInt32]
      else
        w ++ [sfRotl32 (w.getD (i - 3) 0 ^^^ w.getD (i - 8) 0 ^^^ w.getD (i - 14) 0 ^^^
          w.getD (i - 16) 0) 1]

/-- The function of the words `b`, `c` and `d`, and the constant, that a round uses. -/
def roundFk (i : ℕ) (x : Words) : UInt32 × UInt32 :=
  if i < 20 then ((x.b &&& x.c) ||| (~~~x.b &&& x.d), 0x5A827999)
  else if i < 40 then (x.b ^^^ x.c ^^^ x.d, 0x6ED9EBA1)
  else if i < 60 then ((x.b &&& x.c) ||| (x.b &&& x.d) ||| (x.c &&& x.d), 0x8F1BBCDC)
  else (x.b ^^^ x.c ^^^ x.d, 0xCA62C1D6)

/-- One round of `_sf_process_block`. -/
def blockRound (w : List UInt32) (x : Words) (i : ℕ) : Words :=
  ⟨sfRotl32 x.a 5 + (roundFk i x).1 + x.e + (roundFk i x).2 + w.getD i 0, x.a,
    sfRotl32 x.b 30, x.c, x.d⟩

/-- `_sf_process_block`. -/
def sfProcessBlock (state : Words) (block : Bytes) : Words :=
  let x := (List.range 80).foldl (blockRound (fillWords block 80)) state
  ⟨state.a + x.a, state.b + x.b, state.c + x.c, state.d + x.d, state.e + x.e⟩

/-- `tpb_sha1_init`. -/
def tpbSha1Init : Sha1Ctx := ⟨⟨0x67452301, 0xEFCDAB89, 0x98BADCFE, 0x10325476, 0xC3D2E1F0⟩, 0,
  zeroArr 64⟩

/-- `buf_used`. -/
def Sha1Ctx.bufUsed (ctx : Sha1Ctx) : ℕ := (ctx.count &&& 63).toNat

/-- The end of `tpb_sha1_update`: the whole blocks of what is left of the piece, and the rest
copied to the front of the buffer. -/
def updateRest (ctx : Sha1Ctx) (p : Bytes) : Sha1Ctx :=
  let (state, rest) := absorb sfProcessBlock 64 ctx.state p
  { ctx with state, buf := if rest.length > 0 then copyTo ctx.buf 0 rest else ctx.buf }

/-- `tpb_sha1_update`. -/
def tpbSha1Update (ctx : Sha1Ctx) (data : Bytes) : Sha1Ctx :=
  let count := ctx.count + UInt64.ofNat data.length
  if ctx.bufUsed > 0 then
    if data.length < 64 - ctx.bufUsed then
      { ctx with count, buf := copyTo ctx.buf ctx.bufUsed data }
    else
      let buf := copyTo ctx.buf ctx.bufUsed (data.take (64 - ctx.bufUsed))
      updateRest ⟨sfProcessBlock ctx.state buf.toList, count, buf⟩
        (data.drop (64 - ctx.bufUsed))
  else updateRest { ctx with count } data

/-- The eight bytes of `total_bits`. -/
def totalBitsBytes (totalBits : UInt64) : Bytes :=
  [(totalBits >>> 56).toUInt8, (totalBits >>> 48).toUInt8, (totalBits >>> 40).toUInt8,
    (totalBits >>> 32).toUInt8, (totalBits >>> 24).toUInt8, (totalBits >>> 16).toUInt8,
    (totalBits >>> 8).toUInt8, totalBits.toUInt8]

/-- The four bytes of a word of the digest. -/
def digestWord (w : UInt32) : Bytes :=
  [(w >>> 24).toUInt8, (w >>> 16).toUInt8, (w >>> 8).toUInt8, w.toUInt8]

/-- The last block: zeros up to the length, and the length, behind `bufUsed` bytes of the
buffer. -/
def finalBlock (ctx : Sha1Ctx) (state : Words) (buf : CArr 64) (bufUsed : ℕ) : Words :=
  sfProcessBlock state (copyTo (copyTo buf bufUsed (List.replicate (56 - bufUsed) 0)) 56
    (totalBitsBytes (ctx.count * 8))).toList

/-- The state that `tpb_sha1_final` puts out. -/
def finalState (ctx : Sha1Ctx) : Words :=
  let buf := copyTo ctx.buf ctx.bufUsed [0x80]
  let bufUsed := ctx.bufUsed + 1
  if bufUsed > 56 then
    let buf := copyTo buf bufUsed (List.replicate (64 - bufUsed) 0)
    finalBlock ctx (sfProcessBlock ctx.state buf.toList) buf 0
  else finalBlock ctx ctx.state buf bufUsed

/-- `tpb_sha1_final`. -/
def tpbSha1Final (ctx : Sha1Ctx) : Id20 :=
  let s := finalState ctx
  toArr 20 (digestWord s.a ++ digestWord s.b ++ digestWord s.c ++ digestWord s.d ++
    digestWord s.e)

/-- What the system answers to the calls that read a file: whether it can be opened, what the
calls of `fread` return, and what `ferror` says. -/
structure FileReads where
  fopen : Bool
  freads : List Bytes
  ferror : Bool

/-- The loop of `tpb_raf_hash_file`, which ends at the first call that returns nothing. -/
def hashReads (ctx : Sha1Ctx) : List Bytes → Sha1Ctx
  | [] => ctx
  | buf :: freads => if buf.length > 0 then hashReads (tpbSha1Update ctx buf) freads else ctx

/-- `tpb_raf_hash_file`. -/
def tpbRafHashFile (file : FileReads) : Except Err Id20 :=
  if !file.fopen then .error (.code .rafL1 .fileIoFail)
  else if file.ferror then .error (.code .rafL1 .fileIoFail)
  else .ok (tpbSha1Final (hashReads tpbSha1Init file.freads))

/-! ### One block -/

/-- The code's words are those of the schedule. -/
theorem fillWords_eq (block : Bytes) (n : ℕ) :
    fillWords block n = (List.range n).map (Sha1.schedule block) := by
  induction n with
  | zero => rfl
  | succ n ih =>
      have hget (k : ℕ) (hk : k < n) :
          ((List.range n).map (Sha1.schedule block)).getD k 0 = Sha1.schedule block k := by
        rw [List.getD_eq_getElem?_getD, List.getElem?_map, List.getElem?_range hk]
        rfl
      rw [fillWords, ih, List.range_succ, List.map_append, List.map_singleton]
      split_ifs with hn
      · rw [Sha1.schedule_of_lt hn, Sha1.blockWord, Nat.mul_comm n 4]
        rfl
      · rw [hget (n - 3) (by omega), hget (n - 8) (by omega), hget (n - 14) (by omega),
          hget (n - 16) (by omega), Sha1.schedule_of_le (Nat.le_of_not_lt hn)]
        rfl

/-- The function and the constant of a round. -/
theorem roundFk_eq (i : ℕ) (x : Words) :
    roundFk i x = (Sha1.mix i x.b x.c x.d, Sha1.constant i) := by
  rw [roundFk, Sha1.mix, Sha1.constant]
  split_ifs <;> rfl

/-- A round of the code adds the same five words. -/
theorem blockRound_eq (block : Bytes) (x : Words) {i : ℕ} (hi : i < 80) :
    blockRound (fillWords block 80) x i = Sha1.round (Sha1.schedule block) x i := by
  have hw : (fillWords block 80).getD i 0 = Sha1.schedule block i := by
    rw [fillWords_eq, List.getD_eq_getElem?_getD, List.getElem?_map, List.getElem?_range hi]
    rfl
  have hsum (f e k w r : UInt32) : r + f + e + k + w = r + f + e + w + k := by
    rw [UInt32.add_assoc, UInt32.add_comm k w, ← UInt32.add_assoc]
  rw [blockRound, Sha1.round, hw, roundFk_eq, hsum]
  rfl

/-- **`_sf_process_block` compresses a block.** -/
theorem sfProcessBlock_eq : sfProcessBlock = Sha1.compress := by
  funext state block
  have hfold : (List.range 80).foldl (blockRound (fillWords block 80)) state =
      (List.range 80).foldl (Sha1.round (Sha1.schedule block)) state :=
    List.foldl_ext _ _ _ fun x i hi => blockRound_eq block x (List.mem_range.mp hi)
  rw [sfProcessBlock, hfold, Sha1.compress]

/-! ### The buffer -/

/-- A copy inside the buffer leaves what is in front of it. -/
theorem take_copyTo (buf : CArr 64) (off : ℕ) (bs : Bytes) (h : off + bs.length ≤ 64) :
    (copyTo buf off bs).toList.take (off + bs.length) = buf.toList.take off ++ bs := by
  have hbuf : off + bs.length ≤ buf.toList.length := by
    rwa [List.Vector.toList_length]
  have hlen : (buf.toList.take off ++ bs).length = off + bs.length := by
    rw [List.length_append, List.length_take]
    omega
  rw [copyTo, toList_toArr (by rw [length_pwrite hbuf, List.Vector.toList_length]),
    pwrite_of_le hbuf, ← List.append_assoc, List.take_left' hlen]

/-- What a copy up to the end makes of the buffer. -/
theorem toList_copyTo (buf : CArr 64) {off : ℕ} {bs : Bytes} (h : off + bs.length = 64) :
    (copyTo buf off bs).toList = buf.toList.take off ++ bs := by
  rw [← take_copyTo buf off bs h.le, h, List.take_of_length_le (by rw [List.Vector.toList_length])]

/-! ### The pieces -/

/-- What a context is after the bytes of `p`. -/
structure Absorbed (ctx : Sha1Ctx) (p : Bytes) : Prop where
  count : ctx.count = UInt64.ofNat p.length
  state : ctx.state = (absorb Sha1.compress 64 Sha1.initial p).1
  rest : ctx.buf.toList.take (p.length % 64) = (absorb Sha1.compress 64 Sha1.initial p).2

/-- The bytes in use are the rest of the length. -/
theorem bufUsed_of_count {ctx : Sha1Ctx} {n : ℕ} (h : ctx.count = UInt64.ofNat n) :
    ctx.bufUsed = n % 64 := by
  have hmod : (ctx.count &&& 63).toNat = ctx.count.toNat % 64 := by
    rw [UInt64.toNat_and]
    exact Nat.and_two_pow_sub_one_eq_mod _ 6
  rw [Sha1Ctx.bufUsed, hmod, h, UInt64.toNat_ofNat', Nat.mod_mod_of_dvd _ (by decide)]

/-- The new context, before anything is hashed. -/
theorem Absorbed.init : Absorbed tpbSha1Init [] := by
  have h : absorb Sha1.compress 64 Sha1.initial [] = (Sha1.initial, []) :=
    absorb_of_lt (by decide)
  constructor
  · rfl
  · rw [h]
    rfl
  · rw [h]
    rfl

/-- The end of an update, with the state behind whole blocks of what was hashed. -/
theorem absorbed_updateRest {ctx : Sha1Ctx} {p q : Bytes}
    (hcount : ctx.count = UInt64.ofNat p.length)
    (h : absorb Sha1.compress 64 Sha1.initial p = absorb Sha1.compress 64 ctx.state q) :
    Absorbed (updateRest ctx q) p := by
  have hlen : (absorb Sha1.compress 64 ctx.state q).2.length = p.length % 64 := by
    rw [← h, length_absorb (by omega)]
  rw [updateRest, sfProcessBlock_eq]
  constructor
  · exact hcount
  · rw [h]
  · rw [h, ← hlen]
    change (if _ then _ else _ : CArr 64).toList.take _ = _
    split_ifs with hpos
    · have htake := take_copyTo ctx.buf 0 (absorb Sha1.compress 64 ctx.state q).2 (by omega)
      rwa [Nat.zero_add, List.take_zero, List.nil_append] at htake
    · rw [List.eq_nil_of_length_eq_zero (Nat.eq_zero_of_not_pos hpos)]
      rfl

/-- **One update**: the bytes of a piece are absorbed. -/
theorem Absorbed.update {ctx : Sha1Ctx} {p : Bytes} (h : Absorbed ctx p) (data : Bytes) :
    Absorbed (tpbSha1Update ctx data) (p ++ data) := by
  have hcount : ctx.count + UInt64.ofNat data.length = UInt64.ofNat (p ++ data).length := by
    rw [h.count, List.length_append, UInt64.ofNat_add]
  have hlen : (absorb Sha1.compress 64 Sha1.initial p).2.length = p.length % 64 :=
    length_absorb (by omega) _ _
  have hlt : p.length % 64 < 64 := Nat.mod_lt _ (by omega)
  have happend := absorb_append (f := Sha1.compress) (n := 64) (by omega) Sha1.initial p data
  rw [← h.state, ← h.rest] at happend
  rw [tpbSha1Update, bufUsed_of_count h.count]
  split_ifs with hused hshort
  · -- the piece stays in the buffer
    have hrest : (ctx.buf.toList.take (p.length % 64) ++ data).length =
        p.length % 64 + data.length := by
      rw [h.rest, List.length_append, hlen]
    have hfit : p.length % 64 + data.length ≤ 64 := by omega
    have hone : absorb Sha1.compress 64 ctx.state
        (ctx.buf.toList.take (p.length % 64) ++ data) = (ctx.state, _) :=
      absorb_of_lt (by rw [hrest]; omega)
    rw [hone] at happend
    constructor
    · exact hcount
    · rw [happend]
    · have hmod : (p ++ data).length % 64 = p.length % 64 + data.length := by
        rw [List.length_append]
        omega
      rw [happend, hmod]
      exact take_copyTo ctx.buf _ _ hfit
  · -- the piece fills the buffer, which is hashed
    have hfull : p.length % 64 + (data.take (64 - p.length % 64)).length = 64 := by
      rw [List.length_take]
      omega
    refine absorbed_updateRest hcount ?_
    rw [happend, sfProcessBlock_eq, toList_copyTo ctx.buf hfull]
    conv_lhs => rw [← List.take_append_drop (64 - p.length % 64) data, ← List.append_assoc]
    exact absorb_block (by omega) (by rw [List.length_append, h.rest, hlen]; exact hfull)
  · -- the buffer is empty
    refine absorbed_updateRest hcount ?_
    rw [happend, Nat.eq_zero_of_not_pos hused]
    rfl

/-- The pieces of a message, one after the other. -/
theorem absorbed_foldl {ctx : Sha1Ctx} {p : Bytes} (h : Absorbed ctx p) (pieces : List Bytes) :
    Absorbed (pieces.foldl tpbSha1Update ctx) (p ++ pieces.flatten) := by
  induction pieces generalizing ctx p with
  | nil => rwa [List.flatten_nil, List.append_nil]
  | cons data pieces ih =>
      rw [List.foldl_cons, List.flatten_cons, ← List.append_assoc]
      exact ih (h.update data)

/-! ### The digest -/

/-- A byte of the 64-bit counter of bits. -/
theorem toUInt8_shift (n : ℕ) (k : UInt64) (hk : k.toNat ≤ 56) :
    ((UInt64.ofNat n * 8) >>> k).toUInt8 = UInt8.ofNat (8 * n / 2 ^ k.toNat) := by
  have hpow : 2 ^ k.toNat * 2 ^ (64 - k.toNat) = 2 ^ 64 := by
    rw [← pow_add]
    congr 1
    omega
  have hmul : UInt64.ofNat n * 8 = UInt64.ofNat (8 * n) := by
    rw [Nat.mul_comm, UInt64.ofNat_mul]
    rfl
  have hdvd : 2 ^ 8 ∣ 2 ^ (64 - k.toNat) := pow_dvd_pow 2 (by omega)
  have hdiv : 8 * n % 2 ^ 64 / 2 ^ k.toNat = 8 * n / 2 ^ k.toNat % 2 ^ (64 - k.toNat) := by
    rw [← hpow, Nat.mod_mul_right_div_self]
  apply UInt8.toNat.inj
  rw [UInt64.toNat_toUInt8, UInt64.toNat_shiftRight, hmul, UInt64.toNat_ofNat',
    Nat.mod_eq_of_lt (by omega : k.toNat < 64), Nat.shiftRight_eq_div_pow, hdiv,
    Nat.mod_mod_of_dvd _ hdvd, UInt8.toNat_ofNat']

/-- The eight bytes that end the last block. -/
theorem totalBitsBytes_eq (n : ℕ) :
    totalBitsBytes (UInt64.ofNat n * 8) = Sha1.lengthBytes (8 * n) := by
  have h0 : (UInt64.ofNat n * 8).toUInt8 = UInt8.ofNat (8 * n / 2 ^ 0) := by
    have h := toUInt8_shift n 0 (by decide)
    rwa [UInt64.shiftRight_zero] at h
  rw [totalBitsBytes, toUInt8_shift n 56 (by decide), toUInt8_shift n 48 (by decide),
    toUInt8_shift n 40 (by decide), toUInt8_shift n 32 (by decide),
    toUInt8_shift n 24 (by decide), toUInt8_shift n 16 (by decide),
    toUInt8_shift n 8 (by decide), h0]
  rfl

/-- The last block is what is in use of the buffer, zeros, and the length. -/
theorem finalBlock_eq {ctx : Sha1Ctx} {n : ℕ} (hcount : ctx.count = UInt64.ofNat n)
    (state : Words) (buf : CArr 64) {bufUsed : ℕ} (h : bufUsed ≤ 56) :
    finalBlock ctx state buf bufUsed = Sha1.compress state (buf.toList.take bufUsed ++
      List.replicate (56 - bufUsed) 0 ++ Sha1.lengthBytes (8 * n)) := by
  have hzeros := take_copyTo buf bufUsed (List.replicate (56 - bufUsed) 0)
    (by rw [List.length_replicate]; omega)
  rw [List.length_replicate, Nat.add_sub_cancel' h] at hzeros
  rw [finalBlock, hcount, totalBitsBytes_eq, toList_copyTo _ (by rw [Sha1.length_lengthBytes]),
    hzeros, sfProcessBlock_eq]

/-- **The state that is put out** is that behind the padded message. -/
theorem Absorbed.finalState {ctx : Sha1Ctx} {p : Bytes} (h : Absorbed ctx p) :
    finalState ctx = (absorb Sha1.compress 64 Sha1.initial (Sha1.pad p)).1 := by
  have hlt : p.length % 64 < 64 := Nat.mod_lt _ (by omega)
  have hbuf : ctx.buf.toList.length = 64 := ctx.buf.toList_length
  have hmark := take_copyTo ctx.buf (p.length % 64) [0x80] hlt
  rw [List.length_singleton] at hmark
  have hpad := absorb_append (f := Sha1.compress) (n := 64) (by omega) Sha1.initial p
    (0x80 :: (List.replicate (Sha1.zeros p.length) 0 ++ Sha1.lengthBytes (8 * p.length)))
  rw [← h.state, ← h.rest] at hpad
  rw [Sha1.pad, hpad, TPBench.finalState, bufUsed_of_count h.count]
  split_ifs with hlong
  · -- the length goes into a block of its own
    have hfull : p.length % 64 + 1 + (List.replicate (64 - (p.length % 64 + 1)) (0 : UInt8)).length
        = 64 := by
      rw [List.length_replicate]
      omega
    have hzeros : Sha1.zeros p.length = 64 - (p.length % 64 + 1) + 56 := by
      rw [Sha1.zeros]
      omega
    rw [finalBlock_eq h.count _ _ (Nat.zero_le _), toList_copyTo _ hfull, hmark, hzeros,
      List.replicate_add, sfProcessBlock_eq]
    have hmsg : ctx.buf.toList.take (p.length % 64) ++ 0x80 ::
          (List.replicate (64 - (p.length % 64 + 1)) 0 ++ List.replicate 56 0 ++
            Sha1.lengthBytes (8 * p.length)) =
        (ctx.buf.toList.take (p.length % 64) ++ [0x80] ++
            List.replicate (64 - (p.length % 64 + 1)) 0) ++
          ((List.replicate 56 0 ++ Sha1.lengthBytes (8 * p.length)) ++ []) := by
      simp only [List.append_assoc, List.append_nil, List.cons_append, List.nil_append]
    have hfirst : (ctx.buf.toList.take (p.length % 64) ++ [0x80] ++
        List.replicate (64 - (p.length % 64 + 1)) 0).length = 64 := by
      rw [List.length_append, List.length_append, List.length_take, hbuf, List.length_singleton]
      omega
    rw [hmsg, absorb_block (by omega) hfirst,
      absorb_block (by omega) (by rw [List.length_append, List.length_replicate]; rfl),
      absorb_of_lt (by decide)]
    rfl
  · -- the mark and the length share a block
    have hzeros : Sha1.zeros p.length = 56 - (p.length % 64 + 1) := by
      rw [Sha1.zeros]
      omega
    have hmsg : ctx.buf.toList.take (p.length % 64) ++ 0x80 ::
          (List.replicate (56 - (p.length % 64 + 1)) 0 ++ Sha1.lengthBytes (8 * p.length)) =
        (ctx.buf.toList.take (p.length % 64) ++ [0x80] ++
            List.replicate (56 - (p.length % 64 + 1)) 0 ++ Sha1.lengthBytes (8 * p.length)) ++
          [] := by
      simp only [List.append_assoc, List.append_nil, List.cons_append, List.nil_append]
    have hblock : (ctx.buf.toList.take (p.length % 64) ++ [0x80] ++
        List.replicate (56 - (p.length % 64 + 1)) 0 ++
          Sha1.lengthBytes (8 * p.length)).length = 64 := by
      rw [List.length_append, List.length_append, List.length_append, List.length_take, hbuf,
        List.length_singleton, List.length_replicate, Sha1.length_lengthBytes]
      omega
    rw [finalBlock_eq h.count _ _ (Nat.le_of_not_lt hlong), hmark, hzeros, hmsg,
      absorb_block (by omega) hblock, absorb_of_lt (by decide)]

/-- What is put out is the digest. -/
theorem Absorbed.final {ctx : Sha1Ctx} {p : Bytes} (h : Absorbed ctx p) :
    (tpbSha1Final ctx).toList = Sha1.digest p := by
  have hfinal : tpbSha1Final ctx = toArr 20 (Sha1.digest p) := by
    rw [tpbSha1Final, h.finalState]
    rfl
  rw [hfinal]
  exact toList_toArr rfl

/-- The loop over a file hashes what is read up to the first empty answer. -/
theorem hashReads_eq (ctx : Sha1Ctx) (freads : List Bytes) :
    hashReads ctx freads = (freads.takeWhile (· ≠ [])).foldl tpbSha1Update ctx := by
  induction freads generalizing ctx with
  | nil => rfl
  | cons buf freads ih =>
      cases buf with
      | nil => rfl
      | cons x buf => exact ih _

/-- The digest of a message, however it is cut into pieces, and of a file, however it is read. -/
theorem sha1_of_pieces :
    (∀ pieces : List Bytes, (tpbSha1Final (pieces.foldl tpbSha1Update tpbSha1Init)).toList =
        Sha1.digest pieces.flatten) ∧
      ∀ freads : List Bytes, tpbRafHashFile ⟨true, freads, false⟩ =
        .ok (toArr 20 (Sha1.digest (freads.takeWhile (· ≠ [])).flatten)) := by
  have hpieces (pieces : List Bytes) :
      (tpbSha1Final (pieces.foldl tpbSha1Update tpbSha1Init)).toList =
        Sha1.digest pieces.flatten :=
    (absorbed_foldl Absorbed.init pieces).final
  refine ⟨hpieces, fun freads => ?_⟩
  rw [← hpieces, toArr_toList, ← hashReads_eq]
  rfl

end TPBench
