import Mathlib.Data.UInt
import Mathlib.Data.Vector.Basic
import Mathlib.Tactic.Ring

/-!
# Byte Strings, Little-Endian Words and In-Place Overwrites

A binary file is a list of bytes. This module fixes the three views the rest of the
development takes of such a list:

* **words** — `u32`, `u64` and `i32` are the little-endian images of the C integer
  types, `getU32`, `getU64` and `getI32` read them back (`getU32_u32` and friends);
* **arrays** — `CArr n` is a C array of exactly `n` bytes, so a field of the wrong
  width cannot be built; `toArr` is the conversion a reader performs on a buffer,
  `cstr` the string a buffer holds, `snprintfS` the field a string is printed into;
* **positions** — `pread f off k` is the block of `k` bytes at offset `off`, and
  `pwrite f off bs` overwrites the bytes there, extending the file when it ends
  before the block does and zero-filling any gap.

The positional operations come with the rules that move them through a
concatenation: an access that starts behind the left part moves to the right part
(`pread_append_right`, `pwrite_append_right`), an access that ends inside the left
part stays there (`pread_append_left`, `pwrite_append_left`). A file layout is a
concatenation of fields, so these four rules locate every fixed offset.
-/

namespace CFile

/-- A byte string: the content of a file or of a buffer. -/
abbrev Bytes := List UInt8

instance lawfulBEqBytes : LawfulBEq Bytes := inferInstance

/-! ### Little-endian words -/

/-- The `k` low bytes of `n`, least significant first. -/
def leBytes : ℕ → ℕ → Bytes
  | 0, _ => []
  | k + 1, n => UInt8.ofNat n :: leBytes k (n / 256)

/-- The number a little-endian byte string denotes. -/
def leNat : Bytes → ℕ
  | [] => 0
  | b :: bs => b.toNat + 256 * leNat bs

@[simp] theorem length_leBytes (k n : ℕ) : (leBytes k n).length = k := by
  induction k generalizing n with
  | zero => rfl
  | succ k ih => simp [leBytes, ih]

/-- Reading back `k` little-endian bytes loses exactly what does not fit in them. -/
theorem leNat_leBytes (k n : ℕ) : leNat (leBytes k n) = n % 256 ^ k := by
  induction k generalizing n with
  | zero => simp [leBytes, leNat, Nat.mod_one]
  | succ k ih =>
      have hb : (UInt8.ofNat n).toNat = n % 256 := UInt8.toNat_ofNat'
      rw [leBytes, leNat, ih, hb, pow_succ', Nat.mod_mul]

/-- The on-disk image of a `uint32_t`. -/
def u32 (v : UInt32) : Bytes := leBytes 4 v.toNat

/-- The on-disk image of a `uint64_t`. -/
def u64 (v : UInt64) : Bytes := leBytes 8 v.toNat

/-- The on-disk image of an `int32_t`. -/
def i32 (v : Int32) : Bytes := u32 v.toUInt32

/-- The `uint32_t` held by four bytes. -/
def getU32 (bs : Bytes) : UInt32 := UInt32.ofNat (leNat bs)

/-- The `uint64_t` held by eight bytes. -/
def getU64 (bs : Bytes) : UInt64 := UInt64.ofNat (leNat bs)

/-- The `int32_t` held by four bytes. -/
def getI32 (bs : Bytes) : Int32 := (getU32 bs).toInt32

@[simp] theorem length_u32 (v : UInt32) : (u32 v).length = 4 := length_leBytes _ _

@[simp] theorem length_u64 (v : UInt64) : (u64 v).length = 8 := length_leBytes _ _

@[simp] theorem length_i32 (v : Int32) : (i32 v).length = 4 := length_leBytes _ _

@[simp] theorem getU32_u32 (v : UInt32) : getU32 (u32 v) = v := by
  simp [getU32, u32, leNat_leBytes]

@[simp] theorem getU64_u64 (v : UInt64) : getU64 (u64 v) = v := by
  simp [getU64, u64, leNat_leBytes]

@[simp] theorem getI32_i32 (v : Int32) : getI32 (i32 v) = v := by
  simp [getI32, i32]

/-- A byte string has the number of its bytes. -/
theorem leNat_lt (bs : Bytes) : leNat bs < 256 ^ bs.length := by
  induction bs with
  | nil => simp [leNat]
  | cons b bs ih =>
      have hb := b.toNat_lt
      rw [leNat, List.length_cons, pow_succ']
      omega

/-- The bytes of the number a byte string denotes are the byte string. -/
theorem leBytes_leNat (bs : Bytes) : leBytes bs.length (leNat bs) = bs := by
  induction bs with
  | nil => rfl
  | cons b bs ih =>
      have hb := b.toNat_lt
      have hlow : UInt8.ofNat (b.toNat + 256 * leNat bs) = b := by
        apply UInt8.toNat_inj.mp
        rw [UInt8.toNat_ofNat']
        omega
      have hhigh : (b.toNat + 256 * leNat bs) / 256 = leNat bs := by omega
      rw [List.length_cons, leNat, leBytes, hlow, hhigh, ih]

theorem u32_getU32 {bs : Bytes} (h : bs.length = 4) : u32 (getU32 bs) = bs := by
  have hlt : leNat bs < 2 ^ 32 := by
    have hbound := leNat_lt bs
    rw [h] at hbound
    exact hbound
  have hnat : (UInt32.ofNat (leNat bs)).toNat = leNat bs := by
    rw [UInt32.toNat_ofNat']
    exact Nat.mod_eq_of_lt hlt
  have hbytes := leBytes_leNat bs
  rw [u32, getU32, hnat]
  rwa [h] at hbytes

theorem i32_getI32 {bs : Bytes} (h : bs.length = 4) : i32 (getI32 bs) = bs := by
  rw [i32, getI32]
  exact u32_getU32 h

/-! ### Fixed-size arrays -/

/-- The `n` slots of an array after the elements `xs` were stored into it from the
start: whatever does not fit is dropped, untouched slots keep the value `d`. -/
def fillVec {α : Type} (d : α) (n : ℕ) (xs : List α) : List.Vector α n :=
  ⟨xs.take n ++ List.replicate (n - xs.length) d, by
    simp only [List.length_append, List.length_take, List.length_replicate]
    omega⟩

theorem toList_fillVec {α : Type} (d : α) (n : ℕ) (xs : List α) :
    (fillVec d n xs).toList = xs.take n ++ List.replicate (n - xs.length) d := rfl

/-- Storing as many elements as there are slots stores exactly these. -/
@[simp] theorem fillVec_toList {α : Type} (d : α) {n : ℕ} (v : List.Vector α n) :
    fillVec d n v.toList = v := by
  apply List.Vector.toList_injective
  rw [toList_fillVec, v.toList_length]
  simp

/-- A C array of exactly `n` bytes. -/
abbrev CArr (n : ℕ) := List.Vector UInt8 n

/-- The zeroed array `memset` leaves. -/
def zeroArr (n : ℕ) : CArr n := List.Vector.replicate n 0

/-- The array of `n` bytes a buffer fills: cut to `n` bytes, the rest zero. -/
def toArr (n : ℕ) (bs : Bytes) : CArr n := fillVec 0 n bs

/-- A buffer of the right length is the array. -/
theorem toList_toArr {n : ℕ} {bs : Bytes} (h : bs.length = n) : (toArr n bs).toList = bs := by
  subst h
  simp [toArr, toList_fillVec]

@[simp] theorem toArr_toList {n : ℕ} (v : CArr n) : toArr n v.toList = v :=
  fillVec_toList 0 v

/-! ### Strings -/

/-- The C string a buffer holds: its bytes up to the first NUL. -/
def cstr (bs : Bytes) : Bytes := bs.takeWhile (· ≠ 0)

/-- `snprintf(buf, n, "%s", s)` into a zeroed buffer of `n` bytes: the string is cut to
`n - 1` bytes, so the buffer always holds a terminator. -/
def snprintfS (n : ℕ) (s : Bytes) : CArr n := toArr n ((cstr s).take (n - 1))

/-! ### Positional access -/

/-- The block of `k` bytes at offset `off`, shorter when the file ends before. -/
def pread (f : Bytes) (off k : ℕ) : Bytes := (f.drop off).take k

/-- Overwrite the bytes at offset `off` with `bs`. A file that ends before `off` is
first filled with zeros, a file that ends inside the block grows. -/
def pwrite (f : Bytes) (off : ℕ) (bs : Bytes) : Bytes :=
  f.take off ++ List.replicate (off - f.length) 0 ++ bs ++ f.drop (off + bs.length)

theorem pread_append_left {a b : Bytes} {off k : ℕ} (h : off + k ≤ a.length) :
    pread (a ++ b) off k = pread a off k := by
  have hoff : off ≤ a.length := by omega
  have hk : k ≤ (a.drop off).length := by
    rw [List.length_drop]
    omega
  simp only [pread]
  rw [List.drop_append_of_le_length hoff, List.take_append_of_le_length hk]

theorem pread_append_right {a b : Bytes} {off k : ℕ} (h : a.length ≤ off) :
    pread (a ++ b) off k = pread b (off - a.length) k := by
  simp only [pread]
  rw [List.drop_append, List.drop_eq_nil_of_le h, List.nil_append]

/-- The block at the start of a concatenation is its left part. -/
theorem pread_append_self {a b : Bytes} {k : ℕ} (h : a.length = k) :
    pread (a ++ b) 0 k = a := by
  subst h
  simp [pread]

theorem pread_self {a : Bytes} {k : ℕ} (h : a.length = k) : pread a 0 k = a := by
  subst h
  simp [pread]

theorem pwrite_append_left {a b bs : Bytes} {off : ℕ} (h : off + bs.length ≤ a.length) :
    pwrite (a ++ b) off bs = pwrite a off bs ++ b := by
  have hoff : off ≤ a.length := by omega
  have hpad : off - (a ++ b).length = off - a.length := by
    rw [List.length_append]
    omega
  simp only [pwrite]
  rw [List.take_append_of_le_length hoff, List.drop_append_of_le_length h, hpad]
  simp only [List.append_assoc]

theorem pwrite_append_right {a b bs : Bytes} {off : ℕ} (h : a.length ≤ off) :
    pwrite (a ++ b) off bs = a ++ pwrite b (off - a.length) bs := by
  have hpad : off - (a ++ b).length = off - a.length - b.length := by
    rw [List.length_append]
    omega
  have hdrop : off + bs.length - a.length = off - a.length + bs.length := by omega
  simp only [pwrite]
  rw [List.take_append, List.take_of_length_le h, List.drop_append,
    List.drop_eq_nil_of_le (by omega), hpad, hdrop]
  simp only [List.append_assoc, List.nil_append]

/-- Overwriting the left part of a concatenation replaces it. -/
theorem pwrite_append_self {a b bs : Bytes} (h : bs.length = a.length) :
    pwrite (a ++ b) 0 bs = bs ++ b := by
  simp [pwrite, h]

/-- A block at least as long as what is left of the file replaces all of it. -/
theorem pwrite_of_length_le {b bs : Bytes} (h : b.length ≤ bs.length) :
    pwrite b 0 bs = bs := by
  simp [pwrite, List.drop_eq_nil_of_le h]

/-- Writing at the end of a file appends. -/
theorem pwrite_end {a : Bytes} {off : ℕ} (h : a.length = off) (bs : Bytes) :
    pwrite a off bs = a ++ bs := by
  subst h
  simp [pwrite]

/-- Writing `x` and then the old tail behind a position inserts `x` there. -/
theorem pwrite_insert (a b x : Bytes) :
    pwrite (pwrite (a ++ b) a.length x) (a.length + x.length) b = a ++ (x ++ b) := by
  have hx : pwrite b 0 x = x ++ b.drop x.length := by simp [pwrite]
  rw [pwrite_append_right le_rfl, Nat.sub_self, hx, pwrite_append_right (by omega),
    Nat.add_sub_cancel_left, pwrite_append_right le_rfl, Nat.sub_self,
    pwrite_of_length_le (by simp)]

/-- An overwrite inside the file, with the file cut around the block. -/
theorem pwrite_of_le {f bs : Bytes} {off : ℕ} (h : off + bs.length ≤ f.length) :
    pwrite f off bs = f.take off ++ (bs ++ f.drop (off + bs.length)) := by
  have hpad : off - f.length = 0 := by omega
  simp [pwrite, hpad]

/-- The file cut around a block. -/
theorem take_pread_drop (f : Bytes) (off k : ℕ) :
    f.take off ++ (pread f off k ++ f.drop (off + k)) = f := by
  rw [pread, ← List.drop_drop, List.take_append_drop, List.take_append_drop]

/-- A second overwrite of a block replaces the first. -/
theorem pwrite_pwrite {f bs cs : Bytes} {off : ℕ} (h : off + bs.length ≤ f.length)
    (hlen : cs.length = bs.length) : pwrite (pwrite f off bs) off cs = pwrite f off cs := by
  have hoff : (f.take off).length = off := List.length_take_of_le (by omega)
  have hcs : pwrite f off cs = f.take off ++ (cs ++ f.drop (off + cs.length)) :=
    pwrite_of_le (by omega)
  rw [hcs, pwrite_of_le h, pwrite_append_right (by omega), hoff, Nat.sub_self,
    pwrite_append_self hlen, hlen]

/-- An overwrite changes nothing exactly when the block is there already. -/
theorem pwrite_eq_self_iff {f bs : Bytes} {off : ℕ} (h : off + bs.length ≤ f.length) :
    pwrite f off bs = f ↔ pread f off bs.length = bs := by
  have hblock : (pread f off bs.length).length = bs.length := by
    rw [pread, List.length_take, List.length_drop]
    omega
  rw [pwrite_of_le h]
  constructor
  · intro heq
    have hcut := heq.trans (take_pread_drop f off bs.length).symm
    exact (List.append_inj_left (List.append_cancel_left hcut) hblock.symm).symm
  · intro heq
    conv_rhs => rw [← take_pread_drop f off bs.length, heq]

/-- An overwrite inside the file keeps its length. -/
theorem length_pwrite {f bs : Bytes} {off : ℕ} (h : off + bs.length ≤ f.length) :
    (pwrite f off bs).length = f.length := by
  simp only [pwrite, List.length_append, List.length_take, List.length_replicate,
    List.length_drop]
  omega

end CFile
