import TPBench.Raf.RecordIO

/-!
# The Span of a Header

The payload of a record holds the data of its headers one after the other, and
`tpb_raf_header_data_ptr` finds the data of one header by adding up the sizes in front of it.
The sizes come from the file, and the sum is one of 64-bit numbers, which is checked against
the size of the payload once, at the end.

`SpanExact` is what the function is for: it succeeds exactly when the data lie in the payload,
and then returns their place. A sum that has wrapped can pass the check, and then it is the
place of other data; `headerDataPtr_exact_iff` says that this is the only way to miss it.
-/

open CFile

namespace TPBench

/-- `tpb_raf_header_data_ptr`: where the data of header `idx` starts, and its size. A
pointer is represented by the bytes behind it. -/
def tpbRafHeaderDataPtr (headers : List MetaHeader) (data : Option Bytes) (datasize : UInt64)
    (idx : ℕ) : Except Err (Option Bytes × UInt64) :=
  match headers[idx]? with
  | none => .error (.code .rafMisc .listNotFound)
  | some h =>
      let off := ((headers.take idx).map MetaHeader.dataSize).sum
      if off > datasize ∨ h.dataSize > datasize - off then
        .error (.code .rafMisc .fileIoFail)
      else if data = none ∧ (off > 0 ∨ h.dataSize > 0) then
        .error (.code .rafMisc .nullptrArg)
      else .ok (data.map (·.drop off.toNat), h.dataSize)

/-! ### The exact span -/

/-- The function succeeds for a header exactly when its data lie in the payload by the exact
sum of the sizes, and then returns the place of the data by this sum. -/
structure SpanExact (hs : List MetaHeader) (data : Bytes) (datasize : UInt64) (idx : ℕ) :
    Prop where
  succeeds : (∃ r, tpbRafHeaderDataPtr hs (some data) datasize idx = .ok r) ↔
    idx < hs.length ∧ claimed (hs.take (idx + 1)) ≤ datasize.toNat
  span : ∀ p n, tpbRafHeaderDataPtr hs (some data) datasize idx = .ok (p, n) →
    p = some (data.drop (claimed (hs.take idx))) ∧
      claimed (hs.take idx) + n.toNat = claimed (hs.take (idx + 1))

/-- The sum of the sizes in front of a header does not wrap, or what is left of it does not
pass the check. -/
def NoWrap (hs : List MetaHeader) (datasize : UInt64) (idx : ℕ) : Prop :=
  ∀ h, hs[idx]? = some h → claimed (hs.take idx) < 2 ^ 64 ∨
    datasize.toNat < claimed (hs.take idx) % 2 ^ 64 + h.dataSize.toNat

section Spans

variable {hs : List MetaHeader} {data : Bytes} {datasize : UInt64} {idx : ℕ} {h : MetaHeader}

/-- The sum of 64-bit sizes is what is left of the exact sum. -/
theorem toNat_sum_dataSize_mod (hs : List MetaHeader) :
    (hs.map MetaHeader.dataSize).sum.toNat = claimed hs % 2 ^ 64 := by
  induction hs with
  | nil => rfl
  | cons h hs ih =>
      rw [List.map_cons, List.sum_cons, UInt64.toNat_add, ih, claimed_cons]
      omega

/-- The exact sum with one more header. -/
theorem claimed_take_succ (hidx : hs[idx]? = some h) :
    claimed (hs.take (idx + 1)) = claimed (hs.take idx) + h.dataSize.toNat := by
  rw [List.take_add_one, hidx, Option.toList_some, claimed_append, claimed_cons]
  rfl

/-- The function in exact numbers. -/
theorem headerDataPtr_eq_ok (hidx : hs[idx]? = some h) (r : Option Bytes × UInt64) :
    tpbRafHeaderDataPtr hs (some data) datasize idx = .ok r ↔
      claimed (hs.take idx) % 2 ^ 64 + h.dataSize.toNat ≤ datasize.toNat ∧
        r = (some (data.drop (claimed (hs.take idx) % 2 ^ 64)), h.dataSize) := by
  have hoff := toNat_sum_dataSize_mod (hs.take idx)
  set off := ((hs.take idx).map MetaHeader.dataSize).sum with hsum
  have hcheck : (off > datasize ∨ h.dataSize > datasize - off) ↔
      ¬off.toNat + h.dataSize.toNat ≤ datasize.toNat := by
    rw [gt_iff_lt, gt_iff_lt, UInt64.lt_iff_toNat_lt]
    by_cases hlt : datasize.toNat < off.toNat
    · refine ⟨fun _ => by omega, fun _ => .inl hlt⟩
    · rw [UInt64.lt_iff_toNat_lt, UInt64.toNat_sub_of_le _ _ (by
        rw [UInt64.le_iff_toNat_le]; omega)]
      omega
  rw [tpbRafHeaderDataPtr, hidx]
  simp only [← hsum, reduceCtorEq, false_and, if_false, Option.map_some, ← hoff]
  by_cases hfits : off.toNat + h.dataSize.toNat ≤ datasize.toNat
  · rw [if_neg fun hc => hcheck.mp hc hfits, Except.ok.injEq]
    exact ⟨fun hr => ⟨hfits, hr.symm⟩, fun hr => hr.2.symm⟩
  · rw [if_pos (hcheck.mpr hfits)]
    exact ⟨fun hr => (by cases hr), fun hr => absurd hr.1 hfits⟩

/-- No header, no data. -/
theorem headerDataPtr_of_length_le (hidx : hs.length ≤ idx) :
    tpbRafHeaderDataPtr hs (some data) datasize idx = .error (.code .rafMisc .listNotFound) := by
  rw [tpbRafHeaderDataPtr, List.getElem?_eq_none hidx]

/-- Where there is no header the span is exact: nothing is found. -/
theorem spanExact_of_length_le (hidx : hs.length ≤ idx) : SpanExact hs data datasize idx := by
  have hnone := @headerDataPtr_of_length_le hs data datasize idx hidx
  refine ⟨?_, ?_⟩
  · rw [hnone]
    exact ⟨fun ⟨r, hr⟩ => (by cases hr), fun hr => absurd hr.1 (by omega)⟩
  · intro p n hr
    rw [hnone] at hr
    cases hr

/-- A span is exact where the sum does not wrap. -/
theorem NoWrap.spanExact (hidx : hs[idx]? = some h) (hwrap : NoWrap hs datasize idx) :
    SpanExact hs data datasize idx := by
  have hlt : idx < hs.length := (List.getElem?_eq_some_iff.mp hidx).1
  have hsucc := claimed_take_succ hidx
  have hdata := datasize.toNat_lt
  have hcheck : claimed (hs.take idx) % 2 ^ 64 + h.dataSize.toNat ≤ datasize.toNat ↔
      claimed (hs.take idx) + h.dataSize.toNat ≤ datasize.toNat := by
    rcases hwrap h hidx with hsmall | hlarge
    · rw [Nat.mod_eq_of_lt hsmall]
    · have hle := Nat.mod_le (claimed (hs.take idx)) (2 ^ 64)
      omega
  refine ⟨?_, ?_⟩
  · rw [hsucc]
    constructor
    · rintro ⟨r, hr⟩
      exact ⟨hlt, hcheck.mp ((headerDataPtr_eq_ok hidx r).mp hr).1⟩
    · rintro ⟨-, hfits⟩
      exact ⟨_, (headerDataPtr_eq_ok hidx _).mpr ⟨hcheck.mpr hfits, rfl⟩⟩
  · intro p n hr
    obtain ⟨hfits, heq⟩ := (headerDataPtr_eq_ok hidx (p, n)).mp hr
    have hexact := hcheck.mp hfits
    rw [Nat.mod_eq_of_lt (by omega)] at heq
    cases heq
    exact ⟨rfl, hsucc.symm⟩

/-- Where a span is exact the sum does not wrap. -/
theorem SpanExact.noWrap (hexact : SpanExact hs data datasize idx) : NoWrap hs datasize idx := by
  intro h hidx
  by_contra hwrap
  rw [not_or, Nat.not_lt, Nat.not_lt] at hwrap
  have hok := (@headerDataPtr_eq_ok hs data datasize idx h hidx _).mpr ⟨hwrap.2, rfl⟩
  have hfits := (hexact.succeeds.mp ⟨_, hok⟩).2
  rw [claimed_take_succ hidx] at hfits
  have hdata := datasize.toNat_lt
  omega

theorem exists_header_of_ok {r : Option Bytes × UInt64}
    (hr : tpbRafHeaderDataPtr hs (some data) datasize idx = .ok r) : ∃ h, hs[idx]? = some h := by
  rcases hk : hs[idx]? with - | h
  · rw [headerDataPtr_of_length_le (List.getElem?_eq_none_iff.mp hk)] at hr
    cases hr
  · exact ⟨h, rfl⟩

/-- What stands in front of header `j`: what stands in front of header `i`, header `i` itself,
and the headers between them. -/
theorem claimed_take_later {i j : ℕ} {a : MetaHeader} (ha : hs[i]? = some a) (hij : i < j) :
    ∃ k, claimed (hs.take j) = claimed (hs.take i) + a.dataSize.toNat + k ∧
      (j = i + 1 → k = 0) := by
  have hsplit : hs.take j = hs.take (i + 1) ++ (hs.take j).drop (i + 1) := by
    conv_lhs => rw [← List.take_append_drop (i + 1) (hs.take j), List.take_take,
      min_eq_left hij]
  refine ⟨claimed ((hs.take j).drop (i + 1)), ?_, ?_⟩
  · conv_lhs => rw [hsplit, claimed_append, claimed_take_succ ha]
  · rintro rfl
    rw [List.drop_eq_nil_of_le (List.length_take_le _ _)]
    rfl

/-- **The spans are exact where the sum does not wrap into the payload**, and only there. The
span of a later header then starts behind that of an earlier one, and directly behind it when
it is the next one. -/
theorem headerDataPtr_exact_iff (hs : List MetaHeader) (data : Bytes) (datasize : UInt64) :
    (∀ idx, SpanExact hs data datasize idx ↔ NoWrap hs datasize idx) ∧
    ∀ i j p n q m, i < j → NoWrap hs datasize j →
      tpbRafHeaderDataPtr hs (some data) datasize i = .ok (some p, n) →
      tpbRafHeaderDataPtr hs (some data) datasize j = .ok (some q, m) →
      ∃ k, q = p.drop (n.toNat + k) ∧ (j = i + 1 → k = 0) := by
  refine ⟨fun idx => ⟨SpanExact.noWrap, fun hwrap => ?_⟩, ?_⟩
  · rcases hidx : hs[idx]? with - | h
    · exact spanExact_of_length_le (List.getElem?_eq_none_iff.mp hidx)
    · exact hwrap.spanExact hidx
  · intro i j p n q m hij hwrap hi hj
    obtain ⟨a, ha⟩ := exists_header_of_ok hi
    obtain ⟨b, hb⟩ := exists_header_of_ok hj
    obtain ⟨-, hpn⟩ := (headerDataPtr_eq_ok ha _).mp hi
    obtain ⟨hfits, hqm⟩ := (headerDataPtr_eq_ok hb _).mp hj
    have hdata := datasize.toNat_lt
    have hjsmall : claimed (hs.take j) < 2 ^ 64 := (hwrap b hb).resolve_right (by omega)
    obtain ⟨k, hk, hnext⟩ := claimed_take_later ha hij
    rw [Nat.mod_eq_of_lt hjsmall] at hqm
    rw [Nat.mod_eq_of_lt (by omega)] at hpn
    cases hpn
    cases hqm
    refine ⟨k, ?_, hnext⟩
    rw [List.drop_drop, hk, Nat.add_assoc]

end Spans

/-- A header of this size. -/
def sizedHeader (size : UInt64) : MetaHeader := { MetaHeader.zero with dataSize := size }

/-- Two headers that claim 2⁶³ bytes each, and one that claims four. The payload has four bytes,
and the function finds all of them for the third header. -/
theorem headerDataPtr_wraps :
    ∃ hs data datasize idx, tpbRafHeaderDataPtr hs (some data) datasize idx = .ok (some data, 4) ∧
      ¬claimed (hs.take (idx + 1)) ≤ datasize.toNat ∧ ¬SpanExact hs data datasize idx := by
  have hok : tpbRafHeaderDataPtr [sizedHeader 0x8000000000000000, sizedHeader 0x8000000000000000,
      sizedHeader 4] (some [1, 2, 3, 4]) 4 2 = .ok (some [1, 2, 3, 4], 4) := rfl
  have hsum : ¬claimed ([sizedHeader 0x8000000000000000, sizedHeader 0x8000000000000000,
      sizedHeader 4].take (2 + 1)) ≤ (4 : UInt64).toNat := by decide
  exact ⟨_, _, _, _, hok, hsum, fun h => hsum (h.succeeds.mp ⟨_, hok⟩).2⟩

end TPBench
