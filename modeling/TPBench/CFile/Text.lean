import Mathlib.Data.List.TakeWhile
import TPBench.CFile.Bytes

/-!
# Texts, Numbers and Pointers into a Buffer

The names in a record are texts with a number in them, written with `snprintf` and read
back with `atoi`, and the strings of a payload are reached through pointers into it. A
function here that follows a pointer or scans an array returns `none` where C leaves the
buffer, which is where the behaviour of the program is undefined.
-/

namespace CFile

/-! ### Numbers -/

/-- The bytes of a text. -/
def ascii (cs : List Char) : Bytes := cs.map fun c => UInt8.ofNat c.toNat

/-- `%d` of a number that is not negative. -/
def formatD (n : ℕ) : Bytes := ascii (Nat.toDigits 10 n)

/-- `%0nu`: the digits of a number, with zeros in front up to a length. -/
def padded (n m : ℕ) : Bytes := List.replicate (n - (formatD m).length) 48 ++ formatD m

/-- `%d` of an `int`. -/
def formatInt (i : ℤ) : Bytes := if i < 0 then 45 :: formatD i.natAbs else formatD i.natAbs

/-- `isspace` in the C locale. -/
def isspace (b : UInt8) : Bool := b = 32 ∨ 9 ≤ b ∧ b ≤ 13

/-- `isdigit`. -/
def isdigit (b : UInt8) : Bool := 48 ≤ b ∧ b ≤ 57

/-- `isalpha` in the C locale. -/
def isalpha (b : UInt8) : Bool := 65 ≤ b ∧ b ≤ 90 ∨ 97 ≤ b ∧ b ≤ 122

/-- `isalnum` in the C locale. -/
def isalnum (b : UInt8) : Bool := isalpha b ∨ isdigit b

/-- A blank or a tabulator. -/
def isBlank (b : UInt8) : Bool := b = 32 ∨ b = 9

/-- The number a sequence of digits stands for. -/
def digitsNat (bs : Bytes) : ℕ := bs.foldl (fun n b => 10 * n + (b.toNat - 48)) 0

/-- The sign in front of a number, as a factor, and what follows it. -/
def splitSign : Bytes → ℤ × Bytes
  | 45 :: bs => (-1, bs)
  | 43 :: bs => (1, bs)
  | bs => (1, bs)

/-- `atoi` on the text at the front of an array. The array may end in the digits, and the
number may not be an `int`. -/
def atoi (bs : Bytes) : Option ℤ :=
  let s := splitSign (bs.dropWhile isspace)
  let digits := s.2.takeWhile isdigit
  let i := s.1 * digitsNat digits
  if digits.length < s.2.length ∧ -2147483648 ≤ i ∧ i ≤ 2147483647 then some i else none

theorem toNat_of_mem_toDigits {n : ℕ} {c : Char} (h : c ∈ Nat.toDigits 10 n) :
    48 ≤ c.toNat ∧ c.toNat ≤ 57 := by
  have hdigit := Nat.isDigit_of_mem_toDigits (by omega) (by omega) h
  simp only [Char.isDigit, ge_iff_le, Bool.and_eq_true, decide_eq_true_eq,
    UInt32.le_iff_toNat_le] at hdigit
  exact hdigit

/-- A printed number consists of digits. -/
theorem isdigit_of_mem_formatD {n : ℕ} {b : UInt8} (h : b ∈ formatD n) : isdigit b = true := by
  obtain ⟨c, hc, rfl⟩ := List.mem_map.mp h
  obtain ⟨hlo, hhi⟩ := toNat_of_mem_toDigits hc
  simp only [isdigit, Bool.decide_and, Bool.and_eq_true, decide_eq_true_eq,
    UInt8.le_iff_toNat_le, UInt8.toNat_ofNat', UInt8.reduceToNat]
  omega

/-- The digits of a printed number stand for the number. -/
theorem digitsNat_formatD (n : ℕ) : digitsNat (formatD n) = n := by
  have hfold : ∀ (cs : List Char) (k : ℕ), (∀ c ∈ cs, 48 ≤ c.toNat ∧ c.toNat ≤ 57) →
      (ascii cs).foldl (fun n b => 10 * n + (b.toNat - 48)) k = Nat.ofDigitChars 10 cs k := by
    intro cs
    induction cs with
    | nil => simp [ascii]
    | cons c cs ih =>
        intro k hcs
        obtain ⟨hlo, hhi⟩ := hcs c (by simp)
        have hbyte : (UInt8.ofNat c.toNat).toNat = c.toNat := by
          rw [UInt8.toNat_ofNat']
          omega
        have htail := ih (10 * k + (c.toNat - 48)) fun d hd => hcs d (by simp [hd])
        rw [Nat.ofDigitChars_cons]
        simpa [ascii, hbyte] using htail
  rw [digitsNat, formatD, hfold, Nat.ofDigitChars_ten_toDigits]
  intro c hc
  exact toNat_of_mem_toDigits hc

/-- A printed number determines the number. -/
theorem formatD_injective : Function.Injective formatD :=
  Function.LeftInverse.injective digitsNat_formatD

theorem formatD_ne_nil (n : ℕ) : formatD n ≠ [] := by
  simp [formatD, ascii]

/-- An `int` has at most ten digits. -/
theorem length_formatD_le {n : ℕ} (hn : n ≤ 2147483647) : (formatD n).length ≤ 10 := by
  rw [formatD, ascii, List.length_map]
  exact (Nat.length_toDigits_le_iff (by omega) (by omega)).mpr (by omega)

theorem formatInt_natCast (n : ℕ) : formatInt n = formatD n := by
  rw [formatInt, if_neg (by omega), Int.natAbs_natCast]

/-- Without a sign, the number is not negative. -/
theorem splitSign_of_isdigit {b : UInt8} (hb : isdigit b = true) (bs : Bytes) :
    splitSign (b :: bs) = (1, b :: bs) := by
  unfold splitSign
  split
  · rename_i heq
    obtain rfl := (List.cons.inj heq).1
    cases hb
  · rename_i heq
    obtain rfl := (List.cons.inj heq).1
    cases hb
  · rfl

theorem not_isspace_of_isdigit {b : UInt8} (hb : isdigit b = true) : isspace b = false := by
  simp only [isdigit, Bool.decide_and, Bool.and_eq_true, decide_eq_true_eq,
    UInt8.le_iff_toNat_le, UInt8.reduceToNat] at hb
  simp only [isspace, decide_eq_false_iff_not, not_or, not_and, UInt8.le_iff_toNat_le,
    ← UInt8.toNat_inj, UInt8.reduceToNat]
  omega

/-- A number that was printed reads back, whatever follows it. -/
theorem atoi_formatD {n : ℕ} (hn : n ≤ 2147483647) {b : UInt8} (hb : isdigit b = false)
    (bs : Bytes) : atoi (formatD n ++ b :: bs) = some (n : ℤ) := by
  obtain ⟨d, ds, hds⟩ := List.exists_cons_of_ne_nil (formatD_ne_nil n)
  have hall : ∀ c ∈ formatD n, isdigit c = true := fun c => isdigit_of_mem_formatD
  have hd : isdigit d = true := hall d (by simp [hds])
  have hspace : (formatD n ++ b :: bs).dropWhile isspace = formatD n ++ b :: bs := by
    rw [hds, List.cons_append, List.dropWhile_cons_of_neg]
    rw [not_isspace_of_isdigit hd]
    decide
  have hsign : splitSign (formatD n ++ b :: bs) = (1, formatD n ++ b :: bs) := by
    rw [hds, List.cons_append, splitSign_of_isdigit hd]
  have hdigits : (formatD n ++ b :: bs).takeWhile isdigit = formatD n := by
    rw [List.takeWhile_append_of_pos hall, List.takeWhile_cons_of_neg (by simp [hb]),
      List.append_nil]
  simp only [atoi, hspace, hsign, hdigits, digitsNat_formatD, one_mul, List.length_append,
    List.length_cons]
  rw [if_pos (by omega)]

/-! ### Pointers -/

/-- The string a pointer to position `pos` of a buffer points to. -/
def strAt (buf : Bytes) (pos : ℕ) : Option Bytes :=
  if 0 ∈ buf.drop pos then some (cstr (buf.drop pos)) else none

/-- The `uint32_t` a pointer to position `pos` of a buffer points to. -/
def u32At (buf : Bytes) (pos : ℕ) : Option UInt32 :=
  if pos + 4 ≤ buf.length then some (getU32 (pread buf pos 4)) else none

/-- A string in front of its terminator. -/
theorem cstr_append_zero {s : Bytes} (hs : 0 ∉ s) (bs : Bytes) : cstr (s ++ 0 :: bs) = s := by
  have hne : ∀ b ∈ s, decide (b ≠ 0) = true := by
    intro b hb
    rw [decide_eq_true_eq]
    rintro rfl
    exact hs hb
  rw [cstr, List.takeWhile_append_of_pos hne, List.takeWhile_cons_of_neg (by decide),
    List.append_nil]

theorem strAt_append {s : Bytes} (hs : 0 ∉ s) (a b : Bytes) :
    strAt (a ++ (s ++ 0 :: b)) a.length = some s := by
  rw [strAt, List.drop_left, if_pos (by simp), cstr_append_zero hs]

theorem u32At_append (a b : Bytes) (v : UInt32) :
    u32At (a ++ (u32 v ++ b)) a.length = some v := by
  have hfits : a.length + 4 ≤ (a ++ (u32 v ++ b)).length := by
    simp only [List.length_append, length_u32]
    omega
  rw [u32At, if_pos hfits, pread_append_right le_rfl, Nat.sub_self,
    pread_append_self (length_u32 v), getU32_u32]

/-- A string has no terminator inside. -/
theorem cstr_of_not_mem {s : Bytes} (hs : 0 ∉ s) : cstr s = s := by
  rw [cstr, List.takeWhile_eq_self_iff]
  intro b hb
  rw [decide_eq_true_eq]
  rintro rfl
  exact hs hb

/-- A buffer that is large enough holds the string that is printed into it. -/
theorem toList_snprintfS {n : ℕ} {s : Bytes} (hs : 0 ∉ s) (hlen : s.length < n) :
    (snprintfS n s).toList = s ++ 0 :: List.replicate (n - s.length - 1) 0 := by
  obtain ⟨k, hk⟩ : ∃ k, n - s.length = k + 1 := ⟨n - s.length - 1, by omega⟩
  rw [snprintfS, cstr_of_not_mem hs, List.take_of_length_le (by omega), toArr, toList_fillVec,
    List.take_of_length_le (by omega), hk, List.replicate_succ, Nat.add_sub_cancel]

theorem cstr_snprintfS {n : ℕ} {s : Bytes} (hs : 0 ∉ s) (hlen : s.length < n) :
    cstr (snprintfS n s).toList = s := by
  rw [toList_snprintfS hs hlen, cstr_append_zero hs]

/-- There is no terminator in a string. -/
theorem not_zero_mem_cstr (s : Bytes) : 0 ∉ cstr s := by
  intro h
  have hne := List.mem_takeWhile_imp h
  simp at hne

/-- A string that does not fit a buffer is cut. -/
theorem cstr_snprintfS_take {n : ℕ} (hn : 0 < n) (s : Bytes) :
    cstr (snprintfS n s).toList = (cstr s).take (n - 1) := by
  have hzero : (0 : UInt8) ∉ (cstr s).take (n - 1) := fun h =>
    not_zero_mem_cstr s (List.mem_of_mem_take h)
  have hcut : snprintfS n s = snprintfS n ((cstr s).take (n - 1)) := by
    rw [snprintfS, snprintfS, cstr_of_not_mem hzero, List.take_take, Nat.min_self]
  rw [hcut]
  exact cstr_snprintfS hzero (by rw [List.length_take]; omega)

/-- A string that was printed into a buffer fits a buffer of this size. -/
theorem snprintfS_snprintfS {n : ℕ} (hn : 0 < n) (s : Bytes) :
    snprintfS n (snprintfS n s).toList = snprintfS n s := by
  rw [snprintfS, cstr_snprintfS_take hn, List.take_take, Nat.min_self]
  rfl

end CFile
