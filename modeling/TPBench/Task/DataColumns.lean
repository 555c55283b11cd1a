import TPBench.Task.Columns
import TPBench.Task.Ridmap

/-!
# Columns of the Data File

What a column of the data file should hold depends on the kind of its header: numbers,
characters, strings, or links to tasks. A header whose data has the size that its dimensions and
its kind ask for has a column with a cell for each element, except that a string is one element
in its innermost dimension (`cellCount`).

The writer knows the size of fewer types than there are, takes an element of a string for one byte,
and prints the decimals of six types (`sfElemSize`, `sfFormatElem`). This decides which columns are
right.

## Main results

* `stringCells_iff`: the cells of a string of two or more dimensions are right only where there is
  next to nothing in it.
* `columnRight_iff`: a column is right if and only if `ColumnSound` holds of its header.
-/

open CFile

namespace TPBench

/-! ### Kinds of headers -/

/-- The integer types with their sizes, and whether they are signed. -/
def intType (dt : UInt32) : Option (ℕ × Bool) :=
  if dt = 0x0137 then some (1, true)
  else if dt = 0x013b then some (1, false)
  else if dt = 0x0201 ∨ dt = 0x0238 then some (2, true)
  else if dt = 0x0202 ∨ dt = 0x023c then some (2, false)
  else if dt = tpbIntT ∨ dt = tpbInt32T then some (4, true)
  else if dt = tpbUnsignedT ∨ dt = tpbUint32T then some (4, false)
  else if dt = 0x0807 ∨ dt = 0x0809 ∨ dt = tpbInt64T then some (8, true)
  else if dt = 0x0808 ∨ dt = 0x0819 ∨ dt = tpbUint64T then some (8, false)
  else none

/-- The kind of a column. -/
inductive ColumnKind
  | link
  | int (size : ℕ) (signed : Bool)
  | char
  | string
  deriving DecidableEq

/-- The kind of a header: the link is known by its name and its tag, the others by their types. -/
def columnKind (h : MetaHeader) : Option ColumnKind :=
  if sfIsTaskidLink h then some .link
  else if sfHdrDtype h = tpbStringT then some .string
  else if sfHdrDtype h = tpbCharT ∨ sfHdrDtype h = 0x0102 ∨ sfHdrDtype h = 0x0118 then some .char
  else (intType (sfHdrDtype h)).map fun p => .int p.1 p.2

/-- The bytes of an element. -/
def ColumnKind.size : ColumnKind → ℕ
  | link => 20
  | int size _ => size
  | char => 1
  | string => 1

/-- The product of the dimensions of a header, which is one without dimensions. -/
def elemCount (h : MetaHeader) : ℕ :=
  ((h.dimsizes.toList.take h.ndim.toNat).map UInt64.toNat).prod

/-- The data of a header has the size of its elements. -/
structure SizedHeader (h : MetaHeader) (kind : ColumnKind) : Prop where
  kind_eq : columnKind h = some kind
  ndim_le : h.ndim.toNat ≤ ndimMax
  size_eq : elemCount h * kind.size = h.dataSize.toNat

/-- The cells of a column: one for each element, but one for the whole of a string of one dimension,
and one for each place in the outer dimensions of a string of more. -/
def cellCount (h : MetaHeader) : ColumnKind → ℕ
  | .string => if h.ndim.toNat ≤ 1 then 1 else elemCount h / h.dim0.toNat
  | _ => elemCount h

/-- The decimals of an integer. -/
def decimalText (signed : Bool) (bs : Bytes) : Bytes :=
  if signed then formatInt ((leNat bs : ℤ).bmod (2 ^ (8 * bs.length))) else formatD (leNat bs)

/-- The cell in row `r` of a column whose data begins at `off`. Nothing is asked of the text of
characters and of strings of one dimension. -/
def CellIs (data : Bytes) (off : ℕ) (h : MetaHeader) (r : ℕ) (c : CsvCell) : ColumnKind → Prop
  | .link => c = .ofBuf (hexBytes (pread data (off + 20 * r) 20))
  | .int size signed => c = .ofBuf (decimalText signed (pread data (off + size * r) size))
  | .char => True
  | .string =>
      h.ndim.toNat ≤ 1 ∨ c = .ofBuf (pread data (off + h.dim0.toNat * r) h.dim0.toNat)

/-- The column of a header is right in a table of `n` rows: it is not longer, has its cells in their
rows, and empty ones below. -/
structure ColumnRight (data : Bytes) (off : ℕ) (h : MetaHeader) (kind : ColumnKind) (n : ℕ) :
    Prop where
  rows : ∃ nr ≤ n, sfColumnRows h (sfElemSize h) = .ok nr
  cells : ∀ r < n, ∃ c, columnCells none data r off h 0 = .ok [c] ∧
    if r < cellCount h kind then CellIs data off h r c kind else c = .ofBuf []

/-- What makes the column of a header right in a table of `n` rows. -/
def ColumnSound (data : Bytes) (off : ℕ) (h : MetaHeader) (n : ℕ) : ColumnKind → Prop
  | .link => ¬(sfHdrDtype h = tpbStringT ∧ h.ndim.toNat ≤ 1 ∧ 1 < elemCount h)
  | .int _ _ =>
      sfHdrDtype h ∈ [tpbIntT, tpbInt32T, tpbUint32T, tpbInt64T, tpbUint64T] ∨
        sfHdrDtype h = tpbUnsignedT ∧ ∀ r < elemCount h,
          leNat (pread data (off + r) 4) = leNat (pread data (off + 4 * r) 4)
  | .char => True
  | .string =>
      if h.ndim.toNat ≤ 1 then 0 ∈ data.drop off
      else
        h.dim0.toNat = 1 ∧ (∀ r < elemCount h, data[off + r]? ≠ some 0 →
          data[off + r + 1]? = some 0) ∨
        2 ≤ h.dim0.toNat ∧ (∀ r, 1 ≤ r → r < elemCount h → data[off + r]? = some 0) ∧
          elemCount h ≤ n

/-! ### Strings -/

section Strings

variable {s : Bytes}

theorem cstr_drop_zero {r : ℕ} (h : s[r]? = some 0) : cstr (s.drop r) = [] := by
  obtain ⟨hlt, hget⟩ := List.getElem?_eq_some_iff.mp h
  rw [List.drop_eq_getElem_cons hlt, hget]
  rfl

theorem cstr_drop_cons {r : ℕ} {b : UInt8} (h : s[r]? = some b) (hb : b ≠ 0) :
    cstr (s.drop r) = b :: cstr (s.drop (r + 1)) := by
  obtain ⟨hlt, hget⟩ := List.getElem?_eq_some_iff.mp h
  rw [List.drop_eq_getElem_cons hlt, hget, cstr, List.takeWhile_cons_of_pos (by simpa using hb)]
  rfl

/-- A text that is empty starts with its terminator. -/
theorem zero_of_cstr_nil {r : ℕ} (hr : r < s.length) (h : cstr (s.drop r) = []) :
    s[r]? = some 0 := by
  by_contra hne
  have hget : s[r]? = some s[r] := List.getElem?_eq_getElem hr
  have hb : s[r] ≠ 0 := fun hzero => hne (hget.trans (by rw [hzero]))
  rw [cstr_drop_cons hget hb] at h
  cases h

theorem mem_drop_of_getElem? {r : ℕ} {b : UInt8} (h : s[r]? = some b) {k : ℕ} (hk : k ≤ r) :
    b ∈ s.drop k := by
  obtain ⟨hlt, rfl⟩ := List.getElem?_eq_some_iff.mp h
  refine List.mem_iff_getElem?.mpr ⟨r - k, ?_⟩
  rw [List.getElem?_drop, show k + (r - k) = r by omega]
  exact List.getElem?_eq_getElem hlt

/-- A place of one byte is that byte. -/
theorem take_one_drop {r : ℕ} (hr : r < s.length) : (s.drop r).take 1 = [s[r]] := by
  rw [List.drop_eq_getElem_cons hr, List.take_succ_cons, List.take_zero]

/-- A place that starts with a terminator has no text. -/
theorem cstr_take_zero {r d : ℕ} (hd : 1 ≤ d) (h : s[r]? = some 0) :
    cstr ((s.drop r).take d) = [] := by
  obtain ⟨hlt, hget⟩ := List.getElem?_eq_some_iff.mp h
  obtain ⟨e, rfl⟩ := Nat.exists_eq_succ_of_ne_zero (show d ≠ 0 by omega)
  rw [List.drop_eq_getElem_cons hlt, hget, List.take_succ_cons]
  rfl

/-- The text of a place of two bytes or more whose second byte is a terminator is that of the
string from there on. -/
theorem cstr_take_second {d : ℕ} (hd : 2 ≤ d) (hone : s[1]? = some 0) :
    cstr (s.take d) = cstr s := by
  obtain ⟨hlen, hget⟩ := List.getElem?_eq_some_iff.mp hone
  obtain ⟨e, rfl⟩ := Nat.exists_eq_add_of_le' hd
  rcases s with - | ⟨a, - | ⟨b, s⟩⟩
  · cases hone
  · cases hone
  · obtain rfl : b = 0 := hget
    rw [List.take_succ_cons, List.take_succ_cons, cstr, cstr]
    by_cases ha : a = 0
    · rw [ha]
      rfl
    · have hkeep : ∀ l : Bytes, (a :: l).takeWhile (· ≠ 0) = a :: l.takeWhile (· ≠ 0) :=
        fun l => List.takeWhile_cons_of_pos (by simpa using ha)
      rw [hkeep, hkeep]
      rfl

/-- The first byte of a text that is cut to nothing is its terminator. -/
theorem zero_of_take_nil {r : ℕ} (hr : r < s.length) (h : (cstr (s.drop r)).take 4095 = []) :
    s[r]? = some 0 := by
  rcases List.take_eq_nil_iff.mp h with h | h
  · cases h
  · exact zero_of_cstr_nil hr h

/-- Where the cells of places of two bytes or more are right, nothing is behind the first byte. -/
theorem zeros_of_cells {d m : ℕ} (hd : 2 ≤ d) (hs : d * m ≤ s.length)
    (hcells : ∀ r < d * m, (cstr (s.drop r)).take 4095 =
      if r < m then cstr ((s.drop (d * r)).take d) else []) {r : ℕ} (hr : 1 ≤ r)
    (hlt : r < d * m) : s[r]? = some 0 := by
  -- from the end of the string to its front
  induction hk : d * m - r using Nat.strong_induction_on generalizing r with
  | _ k ih =>
      refine zero_of_take_nil (by omega) ?_
      rw [hcells r hlt]
      split_ifs with hrm
      · have hmore : r + r ≤ d * r := by
          rw [← Nat.two_mul]
          exact Nat.mul_le_mul_right r hd
        have hless : d * r < d * m := Nat.mul_lt_mul_of_pos_left hrm (by omega)
        exact cstr_take_zero (by omega) (ih _ (by omega) (by omega) hless rfl)
      · rfl

/-- Where the cells of places of one byte are right, a terminator is behind every character. -/
theorem single_of_cells {m : ℕ} (hs : m ≤ s.length)
    (hcells : ∀ r < m, 0 ∈ s.drop r ∧ (cstr (s.drop r)).take 4095 = cstr ((s.drop r).take 1))
    {r : ℕ} (hr : r < m) (hne : s[r]? ≠ some 0) : s[r + 1]? = some 0 := by
  obtain ⟨hmem, htext⟩ := hcells r hr
  have hget : s[r]? = some s[r] := List.getElem?_eq_getElem (by omega)
  have hb : s[r] ≠ 0 := fun hzero => hne (hget.trans (by rw [hzero]))
  have hone : cstr [s[r]] = [s[r]] := by
    rw [cstr, List.takeWhile_cons_of_pos (by simpa using hb), List.takeWhile_nil]
  rw [take_one_drop (by omega), hone, cstr_drop_cons hget hb, List.take_succ_cons] at htext
  have hrest : 0 ∈ s.drop (r + 1) := by
    rw [List.drop_eq_getElem_cons (by omega)] at hmem
    exact (List.mem_cons.mp hmem).resolve_left fun h => hb h.symm
  have hlt : r + 1 < s.length := by
    by_contra hge
    rw [List.drop_eq_nil_of_le (by omega)] at hrest
    cases hrest
  rcases List.take_eq_nil_iff.mp (List.cons.inj htext).2 with h | h
  · cases h
  · exact zero_of_cstr_nil hlt h

/-- The cell of a place of one byte is right where a terminator is behind its character. -/
theorem cell_of_single {r : ℕ} (hr : r < s.length) (hsingle : s[r]? ≠ some 0 → s[r + 1]? = some 0) :
    0 ∈ s.drop r ∧ (cstr (s.drop r)).take 4095 = cstr ((s.drop r).take 1) := by
  have hget : s[r]? = some s[r] := List.getElem?_eq_getElem hr
  rw [take_one_drop hr]
  by_cases hb : s[r] = 0
  · have hzero : s[r]? = some 0 := hget.trans (by rw [hb])
    refine ⟨mem_drop_of_getElem? hzero le_rfl, ?_⟩
    rw [cstr_drop_zero hzero, hb]
    rfl
  · have hnext := hsingle fun h => hb (Option.some.inj (hget.symm.trans h))
    refine ⟨mem_drop_of_getElem? hnext (by omega), ?_⟩
    rw [cstr_drop_cons hget hb, cstr_drop_zero hnext, cstr,
      List.takeWhile_cons_of_pos (by simpa using hb)]
    rfl

/-- The cells of places of two bytes or more are right where nothing is behind the first byte. -/
theorem cell_of_zeros {d m r : ℕ} (hd : 2 ≤ d) (hm : 1 ≤ m) (hs : d * m ≤ s.length)
    (hzero : ∀ r, 1 ≤ r → r < d * m → s[r]? = some 0) (hr : r < d * m) :
    0 ∈ s.drop r ∧ (cstr (s.drop r)).take 4095 =
      if r < m then cstr ((s.drop (d * r)).take d) else [] := by
  have htwo : 2 ≤ d * m := hd.trans (Nat.le_mul_of_pos_right d (by omega))
  rcases Nat.eq_zero_or_pos r with rfl | hpos
  · have hone := hzero 1 le_rfl (by omega)
    refine ⟨mem_drop_of_getElem? hone (by omega), ?_⟩
    have hget : s[0]? = some s[0] := List.getElem?_eq_getElem (by omega)
    rw [if_pos (by omega), Nat.mul_zero, List.drop_zero, cstr_take_second hd hone]
    by_cases hb : s[0] = 0
    · have hnil := cstr_drop_zero (hget.trans (by rw [hb]))
      rw [List.drop_zero] at hnil
      rw [hnil]
      rfl
    · have hcons := cstr_drop_cons hget hb
      rw [cstr_drop_zero hone, List.drop_zero] at hcons
      rw [hcons]
      rfl
  · have hbyte := hzero r hpos hr
    refine ⟨mem_drop_of_getElem? hbyte le_rfl, ?_⟩
    rw [cstr_drop_zero hbyte]
    split_ifs with hrm
    · have hless : d * r < d * m := Nat.mul_lt_mul_of_pos_left hrm (by omega)
      rw [cstr_take_zero (by omega) (hzero (d * r) (Nat.mul_pos (by omega) hpos) hless)]
      rfl
    · rfl

/-- **The cells of a string of `m` places with `d` bytes each**, read from every byte on, are those
of the places if and only if the string has next to nothing in it: single characters, or only one in
front of everything. -/
theorem stringCells_iff {d m n : ℕ} (hd : 1 ≤ d) (hm : 1 ≤ m) (hs : d * m ≤ s.length)
    (hmn : m ≤ n) :
    (d * m ≤ n ∧ ∀ r < d * m, 0 ∈ s.drop r ∧ (cstr (s.drop r)).take 4095 =
      if r < m then cstr ((s.drop (d * r)).take d) else []) ↔
    d = 1 ∧ (∀ r < d * m, s[r]? ≠ some 0 → s[r + 1]? = some 0) ∨
      2 ≤ d ∧ (∀ r, 1 ≤ r → r < d * m → s[r]? = some 0) ∧ d * m ≤ n := by
  have hone : ∀ {r : ℕ}, r < m →
      (if r < m then cstr ((s.drop (1 * r)).take 1) else []) = cstr ((s.drop r).take 1) := by
    intro r hr
    rw [if_pos hr, Nat.one_mul]
  constructor
  · rintro ⟨hfit, hcells⟩
    rcases Nat.lt_or_ge 1 d with hd2 | hd1
    · exact .inr ⟨hd2, fun r hr hlt => zeros_of_cells hd2 hs (fun r hr => (hcells r hr).2) hr hlt,
        hfit⟩
    · obtain rfl : d = 1 := by omega
      rw [Nat.one_mul] at hs hcells ⊢
      refine .inl ⟨rfl, fun r hr hne => single_of_cells hs (fun r hr => ?_) hr hne⟩
      rw [← hone hr]
      exact hcells r hr
  · rintro (⟨rfl, hsingle⟩ | ⟨hd2, hzero, hfit⟩)
    · rw [Nat.one_mul] at hs hsingle ⊢
      refine ⟨hmn, fun r hr => ?_⟩
      rw [hone hr]
      exact cell_of_single (by omega) (hsingle r hr)
    · exact ⟨hfit, fun r hr => cell_of_zeros hd2 hm hs hzero hr⟩

end Strings

/-! ### Sizes -/

section Sizes

variable {h : MetaHeader} {kind : ColumnKind}

/-- The loop over dimensions whose product does not overflow computes it. -/
theorem dimProduct_eq {ds : List UInt64} {total : UInt64} (hpos : 0 < total.toNat)
    (hprod : 0 < (ds.map UInt64.toNat).prod)
    (hlt : total.toNat * (ds.map UInt64.toNat).prod < 2 ^ 64) :
    ∃ t, dimProduct ds total = .ok t ∧
      t.toNat = total.toNat * (ds.map UInt64.toNat).prod := by
  induction ds generalizing total with
  | nil => exact ⟨total, rfl, by simp⟩
  | cons d ds ih =>
      rw [List.map_cons, List.prod_cons] at hprod hlt
      have hd : 0 < d.toNat := Nat.pos_of_mul_pos_right hprod
      have htail : 0 < (ds.map UInt64.toNat).prod := Nat.pos_of_mul_pos_left hprod
      have hne : d ≠ 0 := by
        rintro rfl
        exact absurd hd (lt_irrefl 0)
      rw [← Nat.mul_assoc] at hlt
      have hstep : total.toNat * d.toNat < 2 ^ 64 :=
        (Nat.le_mul_of_pos_right _ htail).trans_lt hlt
      have hfits : ¬ total > 0xFFFFFFFFFFFFFFFF / d := by
        rw [gt_iff_lt, UInt64.lt_iff_toNat_lt, UInt64.toNat_div, Nat.not_lt,
          Nat.le_div_iff_mul_le hd]
        simp only [UInt64.reduceToNat]
        omega
      have hmul : (total * d).toNat = total.toNat * d.toNat := by
        rw [UInt64.toNat_mul, Nat.mod_eq_of_lt hstep]
      rw [dimProduct, if_neg hne, if_neg hfits]
      obtain ⟨t, ht, hval⟩ := @ih (total * d) (by rw [hmul]; exact Nat.mul_pos hpos hd) htail
        (by rwa [hmul])
      exact ⟨t, ht, by rw [hval, hmul, List.map_cons, List.prod_cons, Nat.mul_assoc]⟩

theorem elemCount_eq_one (hzero : h.ndim = 0) : elemCount h = 1 := by
  rw [elemCount, hzero]
  rfl

theorem SizedHeader.elemCount_pos (hh : SizedHeader h kind) (hd : h.dataSize ≠ 0) :
    0 < elemCount h := by
  have hpos : 0 < h.dataSize.toNat := by
    rw [Nat.pos_iff_ne_zero]
    exact fun hzero => hd (UInt64.toNat_inj.mp hzero)
  rw [← hh.size_eq] at hpos
  exact Nat.pos_of_mul_pos_right hpos

theorem ColumnKind.size_pos_of (hk : columnKind h = some kind) : 0 < kind.size := by
  rw [columnKind] at hk
  split_ifs at hk
  · cases hk
    exact Nat.succ_pos _
  · cases hk
    exact Nat.one_pos
  · cases hk
    exact Nat.one_pos
  · obtain ⟨⟨size, signed⟩, htype, rfl⟩ := Option.map_eq_some_iff.mp hk
    rw [intType] at htype
    split_ifs at htype
    all_goals
      cases htype
      exact Nat.succ_pos _

/-- The rows the program gives a column. -/
def codeRows (h : MetaHeader) : ℕ :=
  if sfHdrDtype h = tpbStringT ∧ h.ndim ≤ 1 then 1 else elemCount h

/-- A column has a row for each element when the program's elements are not too large. -/
theorem SizedHeader.sfColumnRows_eq (hh : SizedHeader h kind) (hd : h.dataSize ≠ 0)
    (hpos : 0 < sfElemSize h) (hesz : h.ndim = 0 ∨ sfElemSize h ≤ kind.size) :
    sfColumnRows h (sfElemSize h) = .ok (codeRows h) := by
  rw [sfColumnRows, codeRows]
  by_cases hstring : sfHdrDtype h = tpbStringT ∧ h.ndim ≤ 1
  · rw [if_pos hstring, if_pos hstring]
  rw [if_neg hstring, if_neg hstring]
  by_cases hzero : h.ndim = 0
  · rw [if_pos hzero, elemCount_eq_one hzero]
  rw [if_neg hzero]
  have hcount := hh.elemCount_pos hd
  have hkind := ColumnKind.size_pos_of hh.kind_eq
  have hlt := h.dataSize.toNat_lt
  have hle : elemCount h ≤ h.dataSize.toNat := by
    rw [← hh.size_eq]
    exact Nat.le_mul_of_pos_right _ hkind
  obtain ⟨t, ht, hval⟩ := @dimProduct_eq (h.dimsizes.toList.take h.ndim.toNat) 1
    Nat.one_pos hcount (by rw [UInt64.toNat_one, Nat.one_mul]; exact hle.trans_lt hlt)
  rw [UInt64.toNat_one, Nat.one_mul] at hval
  have hdiv : ¬ t.toNat > h.dataSize.toNat / sfElemSize h := by
    rw [hval, gt_iff_lt, Nat.not_lt, Nat.le_div_iff_mul_le hpos, ← hh.size_eq]
    exact Nat.mul_le_mul_left _ (hesz.resolve_left hzero)
  rw [ht]
  refine congrArg Except.ok ?_
  dsimp only
  rw [if_neg fun hguard => hdiv hguard.2.2, hval]
  rfl

end Sizes

/-! ### Elements of each kind -/

/-- The types of which the program writes something else than the bytes. -/
def shownTypes : List UInt32 :=
  [tpbCharT, tpbFloatT, tpbDoubleT, tpbUint32T, tpbUnsignedT, tpbInt32T, tpbIntT, tpbUint64T,
    tpbInt64T, tpbStringT]

/-- The integer types: those that are written in decimal, and others of which only the bytes
are. -/
theorem intType_cases {dt : UInt32} {size : ℕ} {signed : Bool}
    (hint : intType dt = some (size, signed)) :
    ((dt = tpbIntT ∨ dt = tpbInt32T) ∧ size = 4 ∧ signed = true) ∨
      (dt = tpbUint32T ∧ size = 4 ∧ signed = false) ∨
      (dt = tpbUnsignedT ∧ size = 4 ∧ signed = false) ∨
      (dt = tpbInt64T ∧ size = 8 ∧ signed = true) ∨
      (dt = tpbUint64T ∧ size = 8 ∧ signed = false) ∨
      (dt ∉ shownTypes ∧ 1 ≤ size ∧
        (tpbDtypeElemSize dt = none ∨ tpbDtypeElemSize dt = some size)) := by
  rw [intType] at hint
  split_ifs at hint with h1 h2 h3 h4 h5 h6 h7 h8
  all_goals cases hint
  · subst h1
    decide
  · subst h2
    decide
  · rcases h3 with rfl | rfl <;> decide
  · rcases h4 with rfl | rfl <;> decide
  · exact .inl ⟨h5, rfl, rfl⟩
  · rcases h6 with rfl | rfl <;> decide
  · rcases h7 with rfl | rfl | rfl <;> decide
  · rcases h8 with rfl | rfl | rfl <;> decide

section Formats

variable {h : MetaHeader} {data : Bytes} {pos esz : ℕ}

theorem sfFormatElem_link (hlink : sfIsTaskidLink h = true) :
    sfFormatElem h data pos esz = (bytesAt data pos 20).map fun b => .ofBuf (hexBytes b) := by
  simp [sfFormatElem, hlink]

theorem sfFormatElem_string (hlink : sfIsTaskidLink h = false)
    (hdt : sfHdrDtype h = tpbStringT) :
    sfFormatElem h data pos esz = match strAt data pos with
      | none => .error .undefined
      | some s => .ok (.ofBuf (s.take (cellBuf - 1))) := by
  cases hstr : strAt data pos with
  | none | some text =>
      simp [sfFormatElem, hlink, hdt, hstr, tpbStringT, tpbCharT, tpbFloatT, tpbDoubleT, tpbUint32T,
        tpbUnsignedT, tpbInt32T, tpbIntT, tpbUint64T, tpbInt64T]

theorem sfFormatElem_hex (hlink : sfIsTaskidLink h = false)
    (hdt : sfHdrDtype h ∉ shownTypes) :
    sfFormatElem h data pos esz =
      (bytesAt data pos (min esz 2046)).map fun b => .ofBuf ([48, 120] ++ hexBytes b) := by
  simp only [shownTypes, List.mem_cons, List.not_mem_nil, or_false, not_or] at hdt
  simp [sfFormatElem, hlink, hdt]

theorem decimalText_signed {bs : Bytes} (hlen : bs.length = 4) :
    decimalText true bs = formatInt (getI32 bs).toInt := by
  have hval : (getI32 bs).toInt = (leNat bs : ℤ).bmod (2 ^ 32) := BitVec.toInt_ofNat _
  rw [decimalText, if_pos rfl, hlen, hval]

theorem decimalText_signed64 {bs : Bytes} (hlen : bs.length = 8) :
    decimalText true bs = formatInt (getU64 bs).toInt64.toInt := by
  have hval : (getU64 bs).toInt64.toInt = (leNat bs : ℤ).bmod (2 ^ 64) := BitVec.toInt_ofNat _
  rw [decimalText, if_pos rfl, hlen, hval]

theorem decimalText_unsigned {bs : Bytes} (hlen : bs.length = 4) :
    decimalText false bs = formatD (getU32 bs).toNat := by
  have hlt : leNat bs < 2 ^ 32 := by
    have hbound := leNat_lt bs
    rw [hlen] at hbound
    omega
  rw [decimalText, if_neg (by simp), getU32, UInt32.toNat_ofNat', Nat.mod_eq_of_lt hlt]

theorem decimalText_unsigned64 {bs : Bytes} (hlen : bs.length = 8) :
    decimalText false bs = formatD (getU64 bs).toNat := by
  have hlt : leNat bs < 2 ^ 64 := by
    have hbound := leNat_lt bs
    rw [hlen] at hbound
    omega
  rw [decimalText, if_neg (by simp), getU64, UInt64.toNat_ofNat', Nat.mod_eq_of_lt hlt]

/-- The types that are written in decimal, with what is read for them. -/
theorem sfFormatElem_decimal (hlink : sfIsTaskidLink h = false) {size : ℕ} {signed : Bool}
    (hint : intType (sfHdrDtype h) = some (size, signed)) (hdt : sfHdrDtype h ∈ shownTypes)
    (hfit : pos + size ≤ data.length) :
    sfFormatElem h data pos esz = .ok (.ofBuf (decimalText signed (pread data pos size))) := by
  have hlen : (pread data pos size).length = size := by
    rw [pread, List.length_take, List.length_drop]
    omega
  rcases intType_cases hint with ⟨hi, rfl, rfl⟩ | ⟨hi, rfl, rfl⟩ | ⟨hi, rfl, rfl⟩ | ⟨hi, rfl, rfl⟩ |
    ⟨hi, rfl, rfl⟩ | ⟨hne, -⟩
  · rw [decimalText_signed hlen]
    rcases hi with hi | hi <;>
      simp [sfFormatElem, hlink, hi, bytesAt_ok hfit, tpbCharT, tpbFloatT, tpbDoubleT, tpbUint32T,
        tpbUnsignedT, tpbInt32T, tpbIntT, Except.map]
  · rw [decimalText_unsigned hlen]
    simp [sfFormatElem, hlink, hi, bytesAt_ok hfit, tpbCharT, tpbFloatT, tpbDoubleT, tpbUint32T,
      Except.map]
  · rw [decimalText_unsigned hlen]
    simp [sfFormatElem, hlink, hi, bytesAt_ok hfit, tpbCharT, tpbFloatT, tpbDoubleT, tpbUint32T,
      tpbUnsignedT, Except.map]
  · rw [decimalText_signed64 hlen]
    simp [sfFormatElem, hlink, hi, bytesAt_ok hfit, tpbCharT, tpbFloatT, tpbDoubleT, tpbUint32T,
      tpbUnsignedT, tpbInt32T, tpbIntT, tpbUint64T, tpbInt64T, Except.map]
  · rw [decimalText_unsigned64 hlen]
    simp [sfFormatElem, hlink, hi, bytesAt_ok hfit, tpbCharT, tpbFloatT, tpbDoubleT, tpbUint32T,
      tpbUnsignedT, tpbInt32T, tpbIntT, tpbUint64T, Except.map]
  · exact absurd hdt hne

end Formats

/-! ### The size of an element -/

section Columns

variable {h : MetaHeader} {kind : ColumnKind} {data : Bytes} {off n : ℕ}

/-- The type of a header that is not a link has the size of its kind, if the program knows it. -/
theorem tpbDtypeElemSize_of_kind (hlink : sfIsTaskidLink h = false)
    (hk : columnKind h = some kind) :
    tpbDtypeElemSize (sfHdrDtype h) = none ∨
      tpbDtypeElemSize (sfHdrDtype h) = some kind.size := by
  rw [columnKind, hlink, if_neg (by simp)] at hk
  split_ifs at hk with hstring hchar
  · cases hk
    rw [hstring]
    exact .inl rfl
  · cases hk
    rcases hchar with hdt | hdt | hdt
    · rw [hdt]
      exact .inr rfl
    · rw [hdt]
      exact .inl rfl
    · rw [hdt]
      exact .inl rfl
  · obtain ⟨⟨size, signed⟩, hint, rfl⟩ := Option.map_eq_some_iff.mp hk
    rcases intType_cases hint with ⟨hi | hi, rfl, -⟩ | ⟨hi, rfl, -⟩ | ⟨hi, rfl, -⟩ |
      ⟨hi, rfl, -⟩ | ⟨hi, rfl, -⟩ | ⟨-, -, hsize⟩
    · rw [hi]
      exact .inr rfl
    · rw [hi]
      exact .inr rfl
    · rw [hi]
      exact .inr rfl
    · rw [hi]
      exact .inl rfl
    · rw [hi]
      exact .inr rfl
    · rw [hi]
      exact .inr rfl
    · exact hsize

/-- What the program takes for the size of an element. -/
theorem SizedHeader.sfElemSize_cases (hh : SizedHeader h kind) (hd : h.dataSize ≠ 0) :
    sfElemSize h = kind.size ∨ (h.ndim = 0 ∧ sfElemSize h = h.dataSize.toNat) ∨
      (h.ndim ≠ 0 ∧ sfElemSize h = 1) := by
  cases hlink : sfIsTaskidLink h with
  | true =>
      have hkind := hh.kind_eq
      rw [columnKind, if_pos hlink] at hkind
      cases hkind
      exact .inl (by rw [sfElemSize, if_pos hlink]; rfl)
  | false =>
      rcases tpbDtypeElemSize_of_kind hlink hh.kind_eq with hsize | hsize
      · have hpos : h.dataSize > 0 := by
          rw [gt_iff_lt, UInt64.lt_iff_toNat_lt, UInt64.toNat_zero, Nat.pos_iff_ne_zero]
          exact fun hzero => hd (UInt64.toNat_inj.mp hzero)
        refine .inr ?_
        rw [sfElemSize, hlink, if_neg (by simp), hsize]
        dsimp only
        by_cases hzero : h.ndim = 0
        · exact .inl ⟨hzero, if_pos ⟨hpos, hzero⟩⟩
        · exact .inr ⟨hzero, if_neg fun hboth => hzero hboth.2⟩
      · exact .inl (sfElemSize_eq hlink rfl hsize)

theorem SizedHeader.sfElemSize_fits (hh : SizedHeader h kind) (hd : h.dataSize ≠ 0) {r : ℕ}
    (hr : r < elemCount h) : r * sfElemSize h + sfElemSize h ≤ h.dataSize.toNat := by
  have hkind := ColumnKind.size_pos_of hh.kind_eq
  have hmul : (r + 1) * kind.size ≤ h.dataSize.toNat := by
    rw [← hh.size_eq]
    exact Nat.mul_le_mul_right _ hr
  rw [← Nat.succ_mul]
  rcases hh.sfElemSize_cases hd with hsize | ⟨hzero, hsize⟩ | ⟨-, hsize⟩
  · rwa [hsize]
  · rw [elemCount_eq_one hzero] at hr
    obtain rfl : r = 0 := by omega
    rw [hsize, Nat.succ_mul, Nat.zero_mul, Nat.zero_add]
  · rw [hsize, Nat.mul_one]
    exact (Nat.le_mul_of_pos_right _ hkind).trans hmul

theorem SizedHeader.sfColumnRows_codeRows (hh : SizedHeader h kind) (hd : h.dataSize ≠ 0) :
    sfColumnRows h (sfElemSize h) = .ok (codeRows h) := by
  have hkind := ColumnKind.size_pos_of hh.kind_eq
  have hcount := hh.elemCount_pos hd
  have hfits := hh.sfElemSize_fits hd hcount
  refine hh.sfColumnRows_eq hd ?_ ?_
  · rcases hh.sfElemSize_cases hd with hsize | ⟨-, hsize⟩ | ⟨-, hsize⟩
    · omega
    · rw [hsize, Nat.pos_iff_ne_zero]
      exact fun hzero => hd (UInt64.toNat_inj.mp hzero)
    · omega
  · rcases hh.sfElemSize_cases hd with hsize | ⟨hzero, -⟩ | ⟨-, hsize⟩
    · exact .inr hsize.le
    · exact .inl hzero
    · exact .inr (by omega)

/-! ### The rows of a column -/

theorem columnCells_eq (hrows : sfColumnRows h (sfElemSize h) = .ok n) (r : ℕ) :
    columnCells none data r off h 0 =
      if r < n then (sfFormatElem h data (off + r * sfElemSize h) (sfElemSize h)).map ([·])
      else .ok [.ofBuf []] := by
  have hfree : envAt none 0 = none := rfl
  rw [columnCells, hfree]
  simp only [hrows]

/-- A column with no fewer rows than it should have. -/
theorem SizedHeader.columnRight_iff_rows (hh : SizedHeader h kind) (hd : h.dataSize ≠ 0)
    (hle : cellCount h kind ≤ codeRows h) :
    ColumnRight data off h kind n ↔ codeRows h ≤ n ∧ ∀ r < codeRows h, ∃ c,
      sfFormatElem h data (off + r * sfElemSize h) (sfElemSize h) = .ok c ∧
        if r < cellCount h kind then CellIs data off h r c kind else c = .ofBuf [] := by
  have hrows := hh.sfColumnRows_codeRows hd
  constructor
  · rintro ⟨⟨nr, hnr, hok⟩, hcells⟩
    obtain rfl : codeRows h = nr := Except.ok.inj (hrows.symm.trans hok)
    refine ⟨hnr, fun r hr => ?_⟩
    obtain ⟨c, hc, hcell⟩ := hcells r (by omega)
    rw [columnCells_eq hrows, if_pos hr] at hc
    refine ⟨c, ?_, hcell⟩
    rcases hformat : sfFormatElem h data (off + r * sfElemSize h) (sfElemSize h) with e | c'
    · rw [hformat] at hc
      cases hc
    · rw [hformat] at hc
      cases hc
      rfl
  · rintro ⟨hnr, hcells⟩
    refine ⟨⟨_, hnr, hrows⟩, fun r hr => ?_⟩
    rw [columnCells_eq hrows]
    by_cases hlt : r < codeRows h
    · obtain ⟨c, hc, hcell⟩ := hcells r hlt
      exact ⟨c, by rw [if_pos hlt, hc]; rfl, hcell⟩
    · exact ⟨_, if_neg hlt, by rw [if_neg (by omega)]⟩

end Columns

/-! ### The columns of each kind -/

section Kinds

variable {h : MetaHeader} {kind : ColumnKind} {data : Bytes} {off n : ℕ}

theorem cstr_hexBytes (bs : Bytes) : cstr (hexBytes bs) = hexBytes bs := by
  refine cstr_of_not_mem fun hmem => ?_
  obtain ⟨d, hd, hzero⟩ := exists_of_mem_hexBytes hmem
  exact (hexLower_class hd).2.1 hzero.symm

theorem CsvCell.ofBuf_inj {a b : Bytes} : CsvCell.ofBuf a = CsvCell.ofBuf b ↔ cstr a = cstr b := by
  rw [CsvCell.ofBuf, CsvCell.ofBuf, CsvCell.text.injEq]

/-- What a header of each kind is. -/
theorem columnKind_eq (hk : columnKind h = some kind) : match kind with
    | .link => sfIsTaskidLink h = true
    | .int size signed =>
        sfIsTaskidLink h = false ∧ sfHdrDtype h ≠ tpbStringT ∧
          intType (sfHdrDtype h) = some (size, signed)
    | .char =>
        sfIsTaskidLink h = false ∧ sfHdrDtype h ≠ tpbStringT ∧
          (sfHdrDtype h = tpbCharT ∨ sfHdrDtype h = 0x0102 ∨ sfHdrDtype h = 0x0118)
    | .string => sfIsTaskidLink h = false ∧ sfHdrDtype h = tpbStringT := by
  rw [columnKind] at hk
  split_ifs at hk with hlink hstring hchar
  · cases hk
    exact hlink
  · cases hk
    exact ⟨Bool.eq_false_iff.mpr hlink, hstring⟩
  · cases hk
    exact ⟨Bool.eq_false_iff.mpr hlink, hstring, hchar⟩
  · obtain ⟨p, hint, rfl⟩ := Option.map_eq_some_iff.mp hk
    exact ⟨Bool.eq_false_iff.mpr hlink, hstring, hint⟩

theorem codeRows_eq (hdt : ¬(sfHdrDtype h = tpbStringT ∧ h.ndim ≤ 1)) :
    codeRows h = elemCount h := if_neg hdt

theorem codeRows_of_link (hpos : 0 < elemCount h)
    (hsound : ¬(sfHdrDtype h = tpbStringT ∧ h.ndim.toNat ≤ 1 ∧ 1 < elemCount h)) :
    codeRows h = elemCount h := by
  rw [codeRows]
  split_ifs with hstring
  · have hndim : h.ndim.toNat ≤ 1 := UInt32.le_iff_toNat_le.mp hstring.2
    have hle : ¬ 1 < elemCount h := fun hlt => hsound ⟨hstring.1, hndim, hlt⟩
    omega
  · rfl

/-- **The column of a link** is right unless its type is that of a string. -/
theorem columnRight_link_iff (hh : SizedHeader h .link) (hd : h.dataSize ≠ 0)
    (hoff : off + h.dataSize.toNat ≤ data.length) (hn : elemCount h ≤ n) :
    ColumnRight data off h .link n ↔ ColumnSound data off h n .link := by
  have hlink : sfIsTaskidLink h = true := columnKind_eq hh.kind_eq
  have hsize : sfElemSize h = 20 := if_pos hlink
  have hpos := hh.elemCount_pos hd
  have hone : (1 : UInt32).toNat = 1 := rfl
  by_cases hbad : sfHdrDtype h = tpbStringT ∧ h.ndim.toNat ≤ 1 ∧ 1 < elemCount h
  · refine iff_of_false ?_ fun hsound => hsound hbad
    rintro ⟨-, hcells⟩
    have hndim : h.ndim ≤ 1 := by
      rw [UInt32.le_iff_toNat_le, hone]
      exact hbad.2.1
    have hrows : sfColumnRows h (sfElemSize h) = .ok 1 := if_pos ⟨hbad.1, hndim⟩
    obtain ⟨c, hc, hcell⟩ := hcells 1 (by omega)
    rw [columnCells_eq hrows, if_neg (lt_irrefl 1)] at hc
    cases hc
    rw [if_pos (show 1 < cellCount h .link from hbad.2.2)] at hcell
    have htext := CsvCell.ofBuf_inj.mp hcell
    have hlen := hh.sfElemSize_fits hd hbad.2.2
    rw [hsize] at hlen
    have hread : (pread data (off + 20 * 1) 20).length = 20 := by
      rw [pread, List.length_take, List.length_drop]
      omega
    have := congrArg List.length htext
    rw [cstr_hexBytes, length_hexBytes, hread] at this
    exact absurd this (by simp [cstr])
  · refine iff_of_true ?_ hbad
    have hcount := codeRows_of_link hpos hbad
    rw [hh.columnRight_iff_rows hd hcount.ge, hcount]
    refine ⟨hn, fun r hr => ?_⟩
    have hlen := hh.sfElemSize_fits hd hr
    rw [hsize] at hlen ⊢
    rw [sfFormatElem_link hlink, bytesAt_ok (by omega)]
    refine ⟨_, rfl, ?_⟩
    rw [if_pos (show r < cellCount h .link from hr), Nat.mul_comm r 20]
    rfl

/-- A column of characters is right. -/
theorem columnRight_char (hh : SizedHeader h .char) (hd : h.dataSize ≠ 0)
    (hoff : off + h.dataSize.toNat ≤ data.length) (hn : elemCount h ≤ n) :
    ColumnRight data off h .char n := by
  obtain ⟨hl, hstring, hchar⟩ := columnKind_eq hh.kind_eq
  have hcount := codeRows_eq fun hboth => hstring hboth.1
  rw [hh.columnRight_iff_rows hd hcount.ge, hcount]
  refine ⟨hn, fun r hr => ?_⟩
  have hlen := hh.sfElemSize_fits hd hr
  have hread : bytesAt data (off + r * sfElemSize h) (min (sfElemSize h) 2046) =
      .ok (pread data (off + r * sfElemSize h) (min (sfElemSize h) 2046)) :=
    bytesAt_ok (by omega)
  have hcell : ∃ c, sfFormatElem h data (off + r * sfElemSize h) (sfElemSize h) = .ok c := by
    rcases hchar with hdt | hdt | hdt
    · unfold sfFormatElem
      dsimp only
      rw [hl, hdt, if_neg (by simp)]
      by_cases hcomma : tpbCharT = tpbCharT ∧ sfElemSize h = 1 ∧
          pread data (off + r * sfElemSize h) 1 = [44]
      · exact ⟨_, if_pos hcomma⟩
      · rw [if_neg hcomma, hread]
        exact ⟨_, rfl⟩
    · rw [sfFormatElem_hex hl (by rw [hdt]; decide), hread]
      exact ⟨_, rfl⟩
    · rw [sfFormatElem_hex hl (by rw [hdt]; decide), hread]
      exact ⟨_, rfl⟩
  obtain ⟨c, hc⟩ := hcell
  exact ⟨c, hc, by rw [if_pos (show r < cellCount h .char from hr)]; trivial⟩

/-- The cell of a string holds the text up to its terminator, or what there is room for. -/
theorem sfFormatElem_string_ok {pos esz : ℕ} {c : CsvCell} (hl : sfIsTaskidLink h = false)
    (hstring : sfHdrDtype h = tpbStringT) :
    sfFormatElem h data pos esz = .ok c ↔
      0 ∈ data.drop pos ∧ c = .ofBuf ((cstr (data.drop pos)).take 4095) := by
  rw [sfFormatElem_string hl hstring, strAt]
  split_ifs with hmem
  · simp only [cellBuf, Except.ok.injEq, hmem, true_and]
    exact eq_comm
  · simp [hmem]

/-- The column of a string of one dimension is right if the string is closed. -/
theorem columnRight_text_iff (hh : SizedHeader h .string) (hd : h.dataSize ≠ 0)
    (hndim : h.ndim.toNat ≤ 1) (hn : cellCount h .string ≤ n) :
    ColumnRight data off h .string n ↔ 0 ∈ data.drop off := by
  obtain ⟨hl, hstring⟩ := columnKind_eq hh.kind_eq
  have hrows : codeRows h = 1 := if_pos ⟨hstring, UInt32.le_iff_toNat_le.mpr hndim⟩
  have hcount : cellCount h .string = 1 := if_pos hndim
  rw [hh.columnRight_iff_rows hd (by omega), hrows]
  rw [hcount] at hn
  constructor
  · rintro ⟨-, hcells⟩
    obtain ⟨c, hc, -⟩ := hcells 0 Nat.one_pos
    rw [sfFormatElem_string_ok hl hstring, Nat.zero_mul, Nat.add_zero] at hc
    exact hc.1
  · intro hmem
    refine ⟨hn, fun r hr => ?_⟩
    obtain rfl : r = 0 := by omega
    refine ⟨_, (sfFormatElem_string_ok hl hstring).mpr
      ⟨by rwa [Nat.zero_mul, Nat.add_zero], rfl⟩, ?_⟩
    rw [if_pos (by omega)]
    exact .inl hndim

/-- The innermost dimension divides the number of elements. -/
theorem dim0_dvd_elemCount (hndim : h.ndim.toNat ≠ 0) : h.dim0.toNat ∣ elemCount h := by
  obtain ⟨k, hk⟩ := Nat.exists_eq_succ_of_ne_zero hndim
  have hlist : h.dimsizes.toList = h.dim0 :: h.dimsizes.tail.toList := by
    rw [MetaHeader.dim0, List.Vector.get_zero, ← List.Vector.toList_cons,
      List.Vector.cons_head_tail]
  rw [elemCount, hk, hlist, List.take_succ_cons, List.map_cons, List.prod_cons]
  exact Nat.dvd_mul_right _ _

/-- Each byte of a string of more dimensions is taken for an element. -/
theorem SizedHeader.sfElemSize_string (hh : SizedHeader h .string) (hd : h.dataSize ≠ 0)
    (hndim : ¬ h.ndim.toNat ≤ 1) : sfElemSize h = 1 := by
  rcases hh.sfElemSize_cases hd with heq | ⟨hzero, -⟩ | ⟨-, heq⟩
  · exact heq
  · rw [hzero] at hndim
    exact absurd (Nat.zero_le 1) hndim
  · exact heq

/-- The column of a string of more dimensions is right only with next to nothing in it. -/
theorem columnRight_texts_iff (hh : SizedHeader h .string) (hd : h.dataSize ≠ 0)
    (hoff : off + h.dataSize.toNat ≤ data.length) (hndim : ¬ h.ndim.toNat ≤ 1)
    (hn : cellCount h .string ≤ n) :
    ColumnRight data off h .string n ↔ ColumnSound data off h n .string := by
  obtain ⟨hl, hstring⟩ := columnKind_eq hh.kind_eq
  have hpos := hh.elemCount_pos hd
  have hsize : elemCount h = h.dataSize.toNat := by
    have := hh.size_eq
    rwa [show ColumnKind.string.size = 1 from rfl, Nat.mul_one] at this
  have hrows := codeRows_eq fun hboth : sfHdrDtype h = tpbStringT ∧ h.ndim ≤ 1 =>
    hndim (UInt32.le_iff_toNat_le.mp hboth.2)
  obtain ⟨m, hm⟩ := dim0_dvd_elemCount (h := h) (by omega)
  have hd1 : 1 ≤ h.dim0.toNat := by
    rw [hm] at hpos
    exact Nat.pos_of_mul_pos_right hpos
  have hm1 : 1 ≤ m := by
    rw [hm] at hpos
    exact Nat.pos_of_mul_pos_left hpos
  have hcount : cellCount h .string = m := by
    rw [cellCount, if_neg hndim, hm, Nat.mul_div_cancel_left _ hd1]
  rw [hcount] at hn
  have hlen : h.dim0.toNat * m ≤ (data.drop off).length := by
    rw [List.length_drop, ← hm, hsize]
    omega
  rw [hh.columnRight_iff_rows hd (by rw [hcount, hrows, hm]; exact Nat.le_mul_of_pos_left _ hd1),
    ColumnSound, if_neg hndim, hrows, hcount, hm]
  have hbyte : ∀ r, (data.drop off)[r]? = data[off + r]? := fun r => List.getElem?_drop
  have hiff := stringCells_iff hd1 hm1 hlen hn
  simp only [hbyte, ← Nat.add_assoc, List.drop_drop] at hiff
  rw [← hiff]
  refine and_congr_right fun _ => forall₂_congr fun r hr => ?_
  have htake : cstr ((cstr (data.drop (off + r))).take 4095) =
      (cstr (data.drop (off + r))).take 4095 :=
    cstr_of_not_mem fun hmem => not_zero_mem_cstr _ (List.mem_of_mem_take hmem)
  rw [hh.sfElemSize_string hd hndim, Nat.mul_one]
  constructor
  · rintro ⟨c, hc, hcell⟩
    obtain ⟨hmem, rfl⟩ := (sfFormatElem_string_ok hl hstring).mp hc
    refine ⟨hmem, ?_⟩
    split_ifs at hcell ⊢ with hrm
    · have htext := CsvCell.ofBuf_inj.mp (hcell.resolve_left hndim)
      rwa [htake] at htext
    · have htext := CsvCell.ofBuf_inj.mp hcell
      rwa [htake] at htext
  · rintro ⟨hmem, htext⟩
    refine ⟨_, (sfFormatElem_string_ok hl hstring).mpr ⟨hmem, rfl⟩, ?_⟩
    split_ifs at htext ⊢ with hrm
    · exact .inr (CsvCell.ofBuf_inj.mpr (htake.trans htext))
    · exact CsvCell.ofBuf_inj.mpr (htake.trans htext)

/-- **The column of a string** of one dimension is right if the string is closed, and that of
more dimensions only with next to nothing in it. -/
theorem columnRight_string_iff (hh : SizedHeader h .string) (hd : h.dataSize ≠ 0)
    (hoff : off + h.dataSize.toNat ≤ data.length) (hn : cellCount h .string ≤ n) :
    ColumnRight data off h .string n ↔ ColumnSound data off h n .string := by
  by_cases hndim : h.ndim.toNat ≤ 1
  · rw [columnRight_text_iff hh hd hndim hn, ColumnSound, if_pos hndim]
  · exact columnRight_texts_iff hh hd hoff hndim hn

/-- The decimals of a number are digits, and a sign. -/
theorem not_mem_decimalText {b : UInt8} (hdigit : isdigit b = false) (hsign : b ≠ 45)
    (signed : Bool) (bs : Bytes) : b ∉ decimalText signed bs := by
  have hdigits : ∀ m, b ∉ formatD m := by
    intro m hmem
    have := isdigit_of_mem_formatD hmem
    rw [hdigit] at this
    cases this
  rw [decimalText]
  split_ifs
  · rw [formatInt]
    split_ifs
    · simp [hdigits, hsign]
    · exact hdigits _
  · exact hdigits _

/-- A number is read back from the text of its cell. -/
theorem cstr_decimalText (signed : Bool) (bs : Bytes) :
    cstr (decimalText signed bs) = decimalText signed bs :=
  cstr_of_not_mem (not_mem_decimalText rfl (by simp) signed bs)

section Int

variable {size : ℕ} {signed : Bool}

theorem SizedHeader.int_fits (hh : SizedHeader h (.int size signed)) {r : ℕ}
    (hr : r < elemCount h) : r * size + size ≤ h.dataSize.toNat := by
  rw [← Nat.succ_mul, ← hh.size_eq]
  exact Nat.mul_le_mul_right _ hr

/-- The column of an integer type that the program shows, and of which it knows the size, is
right. -/
theorem columnRight_int_whole (hh : SizedHeader h (.int size signed)) (hd : h.dataSize ≠ 0)
    (hoff : off + h.dataSize.toNat ≤ data.length) (hn : elemCount h ≤ n)
    (hshown : sfHdrDtype h ∈ shownTypes) (hsize : tpbDtypeElemSize (sfHdrDtype h) = some size) :
    ColumnRight data off h (.int size signed) n := by
  obtain ⟨hl, hstring, hint⟩ := columnKind_eq hh.kind_eq
  have hcount := codeRows_eq fun hboth => hstring hboth.1
  rw [hh.columnRight_iff_rows hd hcount.ge, hcount]
  refine ⟨hn, fun r hr => ?_⟩
  have hfit := hh.int_fits hr
  rw [sfElemSize_eq hl rfl hsize, sfFormatElem_decimal hl hint hshown (by omega)]
  refine ⟨_, rfl, ?_⟩
  rw [if_pos (show r < cellCount h (.int size signed) from hr), Nat.mul_comm r size]
  rfl

/-- The elements of the unsigned type are read from every byte on. -/
theorem unsigned_place (hl : sfIsTaskidLink h = false) (hi : sfHdrDtype h = tpbUnsignedT) {r : ℕ}
    (hr : r < elemCount h) : off + r * sfElemSize h = off + r := by
  by_cases hzero : h.ndim = 0
  · rw [elemCount_eq_one hzero] at hr
    obtain rfl : r = 0 := by omega
    rw [Nat.zero_mul]
  · have hnone : tpbDtypeElemSize tpbUnsignedT = none := rfl
    have hsize : sfElemSize h = 1 := by
      rw [sfElemSize, hl, if_neg (by simp), hi, hnone]
      exact if_neg fun hboth => hzero hboth.2
    rw [hsize, Nat.mul_one]

/-- The column of the unsigned type is right where the bytes at every place happen to be those of
the element. -/
theorem columnRight_unsigned_iff (hh : SizedHeader h (.int 4 false)) (hd : h.dataSize ≠ 0)
    (hoff : off + h.dataSize.toNat ≤ data.length) (hn : elemCount h ≤ n)
    (hi : sfHdrDtype h = tpbUnsignedT) :
    ColumnRight data off h (.int 4 false) n ↔ ∀ r < elemCount h,
      leNat (pread data (off + r) 4) = leNat (pread data (off + 4 * r) 4) := by
  obtain ⟨hl, hstring, hint⟩ := columnKind_eq hh.kind_eq
  have hcount := codeRows_eq fun hboth => hstring hboth.1
  rw [hh.columnRight_iff_rows hd hcount.ge, hcount]
  have hformat : ∀ r < elemCount h,
      sfFormatElem h data (off + r * sfElemSize h) (sfElemSize h) =
        .ok (.ofBuf (decimalText false (pread data (off + r) 4))) := by
    intro r hr
    have hfit := hh.int_fits hr
    rw [unsigned_place hl hi hr, sfFormatElem_decimal hl hint (by simp [hi, shownTypes])
      (by omega)]
  have hcell : ∀ r, CsvCell.ofBuf (decimalText false (pread data (off + r) 4)) =
      .ofBuf (decimalText false (pread data (off + 4 * r) 4)) ↔
        leNat (pread data (off + r) 4) = leNat (pread data (off + 4 * r) 4) := by
    intro r
    rw [CsvCell.ofBuf_inj, cstr_decimalText, cstr_decimalText]
    exact formatD_injective.eq_iff
  constructor
  · rintro ⟨-, hcells⟩ r hr
    obtain ⟨c, hc, hright⟩ := hcells r hr
    rw [hformat r hr] at hc
    cases hc
    rw [if_pos (show r < cellCount h (.int 4 false) from hr)] at hright
    exact (hcell r).mp hright
  · intro hsame
    refine ⟨hn, fun r hr => ⟨_, hformat r hr, ?_⟩⟩
    rw [if_pos (show r < cellCount h (.int 4 false) from hr)]
    exact (hcell r).mpr (hsame r hr)

/-- The column of an integer type that the program does not show is wrong: its first cell begins
as a hexadecimal number. -/
theorem not_columnRight_hex (hh : SizedHeader h (.int size signed)) (hd : h.dataSize ≠ 0)
    (hne : sfHdrDtype h ∉ shownTypes) : ¬ ColumnRight data off h (.int size signed) n := by
  obtain ⟨hl, hstring, -⟩ := columnKind_eq hh.kind_eq
  have hpos := hh.elemCount_pos hd
  have hcount := codeRows_eq fun hboth => hstring hboth.1
  rw [hh.columnRight_iff_rows hd hcount.ge, hcount]
  rintro ⟨-, hcells⟩
  obtain ⟨c, hc, hright⟩ := hcells 0 hpos
  rw [if_pos (show 0 < cellCount h (.int size signed) from hpos)] at hright
  rw [sfFormatElem_hex hl hne] at hc
  obtain ⟨b, hb⟩ : ∃ b, c = .ofBuf ([48, 120] ++ hexBytes b) := by
    rcases hread : bytesAt data (off + 0 * sfElemSize h) (min (sfElemSize h) 2046) with e | b
    · rw [hread] at hc
      cases hc
    · rw [hread] at hc
      cases hc
      exact ⟨b, rfl⟩
  have htext := CsvCell.ofBuf_inj.mp (hb.symm.trans hright)
  rw [cstr_decimalText] at htext
  have hletter : (120 : UInt8) ∈ cstr ([48, 120] ++ hexBytes b) := by simp [cstr]
  rw [htext] at hletter
  exact not_mem_decimalText rfl (by simp) signed _ hletter

/-- **The column of integers** is right for the five types that the writer reads whole, and for
the unsigned one where it happens to be. -/
theorem columnRight_int_iff (hh : SizedHeader h (.int size signed))
    (hd : h.dataSize ≠ 0) (hoff : off + h.dataSize.toNat ≤ data.length) (hn : elemCount h ≤ n) :
    ColumnRight data off h (.int size signed) n ↔ ColumnSound data off h n (.int size signed) := by
  obtain ⟨hl, hstring, hint⟩ := columnKind_eq hh.kind_eq
  have hwhole := fun hshown hsize => columnRight_int_whole (n := n) hh hd hoff hn hshown hsize
  rcases intType_cases hint with ⟨hi, rfl, rfl⟩ | ⟨hi, rfl, rfl⟩ | ⟨hi, rfl, rfl⟩ | ⟨hi, rfl, rfl⟩ |
    ⟨hi, rfl, rfl⟩ | ⟨hne, -, -⟩
  · rcases hi with hi | hi
    · exact iff_of_true (hwhole (by simp [hi, shownTypes]) (by rw [hi]; rfl)) (.inl (by simp [hi]))
    · exact iff_of_true (hwhole (by simp [hi, shownTypes]) (by rw [hi]; rfl)) (.inl (by simp [hi]))
  · exact iff_of_true (hwhole (by simp [hi, shownTypes]) (by rw [hi]; rfl)) (.inl (by simp [hi]))
  · have hnot : sfHdrDtype h ∉ [tpbIntT, tpbInt32T, tpbUint32T, tpbInt64T, tpbUint64T] := by
      rw [hi]
      decide
    rw [columnRight_unsigned_iff hh hd hoff hn hi, ColumnSound]
    exact ⟨fun hsame => .inr ⟨hi, hsame⟩, fun hsound => (hsound.resolve_left hnot).2⟩
  · exact iff_of_true (hwhole (by simp [hi, shownTypes]) (by rw [hi]; rfl)) (.inl (by simp [hi]))
  · exact iff_of_true (hwhole (by simp [hi, shownTypes]) (by rw [hi]; rfl)) (.inl (by simp [hi]))
  · refine iff_of_false (not_columnRight_hex hh hd hne) ?_
    rintro (hin | ⟨hu, -⟩)
    · simp only [List.mem_cons, List.not_mem_nil, or_false] at hin
      refine hne ?_
      rcases hin with hi | hi | hi | hi | hi <;> simp [hi, shownTypes]
    · exact hne (by simp [hu, shownTypes])

end Int

/-- A column that is sound is not too short. -/
theorem cellCount_le_codeRows (hh : SizedHeader h kind) (hd : h.dataSize ≠ 0)
    (hsound : ColumnSound data off h n kind) : cellCount h kind ≤ codeRows h := by
  have hkind := columnKind_eq hh.kind_eq
  cases kind with
  | link => exact (codeRows_of_link (hh.elemCount_pos hd) hsound).ge
  | int size signed => exact (codeRows_eq fun hboth => hkind.2.1 hboth.1).ge
  | char => exact (codeRows_eq fun hboth => hkind.2.1 hboth.1).ge
  | string =>
      rw [cellCount, codeRows]
      split_ifs with hndim hstring hstring
      · exact le_rfl
      · exact absurd ⟨hkind.2, UInt32.le_iff_toNat_le.mpr hndim⟩ hstring
      · exact absurd (UInt32.le_iff_toNat_le.mp hstring.2) hndim
      · exact Nat.div_le_self _ _

/-- **A column of the data file.** For every header whose data has the size that its dimensions
and its kind ask for, and every place in the payload: its column is right if and only if
`ColumnSound` holds. -/
theorem columnRight_iff (hh : SizedHeader h kind) (hd : h.dataSize ≠ 0)
    (hoff : off + h.dataSize.toNat ≤ data.length) (hn : cellCount h kind ≤ n) :
    ColumnRight data off h kind n ↔ ColumnSound data off h n kind := by
  cases kind with
  | link => exact columnRight_link_iff hh hd hoff hn
  | int size signed => exact columnRight_int_iff hh hd hoff hn
  | char => exact iff_of_true (columnRight_char hh hd hoff hn) trivial
  | string => exact columnRight_string_iff hh hd hoff hn

end Kinds

end TPBench
