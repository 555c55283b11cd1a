import TPBench.Calendar
import TPBench.CFile.Text
import TPBench.Raf.Types

/-!
# Times of Tasks

A record keeps the time it was made at as 64 bits, in which the fields of a date and a time of day
stand side by side (`strftime.c`), with the offset of a time zone in steps of 15 minutes above
them. A filter of `task ls` gives a time as text, with `Z`, with an offset or in the local zone,
and is compared in UTC (`tpbcli-task-time.c`).

The text is read field by field, counted in seconds, shifted by the offset, and taken apart again by
`gmtime_r`. What `gmtime_r`, `localtime_r` and `mktime` return is a parameter (`TimeLib`).

## Main results

* `bitsToDatetime_of_datetimeToBits`, `datetimeBits_lt_iff`: the packed fields are read back, and in
  UTC the order of the bits is the order in time.
* `sfCivilToEpochUtc_eq`: the day count of the source is the one of the calendar.
* `taskTimes_spec`: which texts a filter accepts, with which bits, and that a printed time is read
  back.
-/

open CFile Calendar

namespace TPBench

/-! ### Packed times -/

/-- `tpb_datetime_t`. -/
structure TpbDatetime where
  year : ℕ
  month : ℕ
  day : ℕ
  hour : ℕ
  min : ℕ
  sec : ℕ
  deriving DecidableEq, Repr

/-- The moment of a packed time. -/
def TpbDatetime.moment (dt : TpbDatetime) : Moment :=
  ⟨⟨dt.year, dt.month, dt.day⟩, dt.hour, dt.min, dt.sec⟩

/-- The increment of a time zone offset: the division truncates, and the result is clamped. -/
def tzIncrement (tzBiasMin : ℤ) : ℤ := max (-128) (min 127 (tzBiasMin.tdiv 15))

/-- `tpb_ts_datetime_to_bits`. -/
def tpbTsDatetimeToBits (dt : TpbDatetime) (tzBiasMin : ℤ) : Except Err UInt64 :=
  if dt.year < 1970 ∨ 2225 < dt.year then .error (.code .misc .illegalCall)
  else
    .ok ((0 : UInt64) ||| UInt64.ofNat (dt.sec &&& 0x3F) <<< 0 |||
      UInt64.ofNat (dt.min &&& 0x3F) <<< 6 ||| UInt64.ofNat (dt.hour &&& 0x1F) <<< 12 |||
      UInt64.ofNat (dt.day &&& 0x1F) <<< 17 |||
      UInt64.ofNat (dt.month &&& 0xF) <<< 22 |||
      UInt64.ofNat ((dt.year - 1970) &&& 0xFF) <<< 26 |||
      UInt64.ofNat (tzIncrement tzBiasMin % 256).toNat <<< 34)

/-- A field of packed bits. -/
def bitsField (bits mask bit : UInt64) : ℕ := ((bits &&& (mask <<< bit)) >>> bit).toNat

/-- `tpb_ts_bits_to_datetime`: the time, and the offset of the time zone in minutes. -/
def tpbTsBitsToDatetime (bits : UInt64) : TpbDatetime × ℤ :=
  let tzInc : ℤ := bitsField bits 0xFF 34
  (⟨bitsField bits 0xFF 26 + 1970, bitsField bits 0xF 22, bitsField bits 0x1F 17,
      bitsField bits 0x1F 12, bitsField bits 0x3F 6, bitsField bits 0x3F 0⟩,
    (if tzInc ≤ 127 then tzInc else tzInc - 256) * 15)

/-- `tpb_ts_bits_to_isoutc`. The text always fits its buffer of 32 bytes. -/
def tpbTsBitsToIsoutc (bits : UInt64) : Bytes :=
  let dt := (tpbTsBitsToDatetime bits).1
  padded 4 dt.year ++ 45 :: padded 2 dt.month ++ 45 :: padded 2 dt.day ++ 84 :: padded 2 dt.hour ++
    58 :: padded 2 dt.min ++ 58 :: padded 2 dt.sec ++ [90]

/-- A packed time is in the calendar and in the years that have bits. -/
structure TpbDatetime.Valid (dt : TpbDatetime) : Prop where
  moment : dt.moment.Valid
  year_le : 1970 ≤ dt.year
  le_year : dt.year ≤ 2225

section Bits

/-- A field stands above what is there already. -/
theorem toNat_or_shift {b k : UInt64} {x w p n : ℕ} (hb : b.toNat = p) (hp : p < 2 ^ n)
    (hk : k.toNat = n) (hw : n + w ≤ 63) (hx : x < 2 ^ w) :
    (b ||| UInt64.ofNat x <<< k).toNat = p + x * 2 ^ n := by
  have hn : n < 64 := by omega
  have hle : 2 ^ n * 2 ^ w ≤ 2 ^ 64 := by
    rw [← Nat.pow_add]
    exact Nat.pow_le_pow_right (by omega) (by omega)
  have hlt : x * 2 ^ n < 2 ^ 64 := by
    refine Nat.lt_of_lt_of_le ?_ hle
    rw [Nat.mul_comm]
    exact Nat.mul_lt_mul_of_pos_left hx (Nat.two_pow_pos _)
  have hx64 : x < 2 ^ 64 :=
    Nat.lt_of_le_of_lt (Nat.le_mul_of_pos_right x (Nat.two_pow_pos _)) hlt
  rw [UInt64.toNat_or, UInt64.toNat_shiftLeft, UInt64.toNat_ofNat_of_lt' hx64, hk,
    Nat.mod_eq_of_lt hn, Nat.shiftLeft_eq, Nat.mod_eq_of_lt hlt, hb, Nat.or_comm, Nat.mul_comm,
    ← Nat.two_pow_add_eq_or_of_lt hp, Nat.add_comm]

/-- A field is read by division. -/
theorem bitsField_eq (bits : UInt64) {mask bit : UInt64} {n : ℕ} (w : ℕ)
    (hbit : bit.toNat % 64 = n) (hmask : (mask <<< bit).toNat = (2 ^ w - 1) * 2 ^ n) :
    bitsField bits mask bit = bits.toNat / 2 ^ n % 2 ^ w := by
  rw [bitsField, UInt64.toNat_shiftRight, UInt64.toNat_and, hmask, hbit,
    Nat.shiftRight_and_distrib, Nat.shiftRight_eq_div_pow, Nat.shiftRight_eq_div_pow,
    Nat.mul_div_cancel _ (Nat.two_pow_pos _), Nat.and_two_pow_sub_one_eq_mod]

/-- The number the fields of a packed time make, below the time zone. -/
def TpbDatetime.packed (dt : TpbDatetime) : ℕ :=
  dt.sec + 64 * (dt.min + 64 * (dt.hour + 32 * (dt.day + 32 * (dt.month + 16 * (dt.year - 1970)))))

theorem TpbDatetime.packed_eq (dt : TpbDatetime) : dt.packed =
    dt.sec + 64 * (dt.min + 64 * (dt.hour + 32 * (dt.day + 32 * (dt.month + 16 *
      (dt.year - 1970))))) := rfl

/-- The bounds of the fields. -/
theorem TpbDatetime.Valid.bounds {dt : TpbDatetime} (hdt : dt.Valid) :
    dt.sec < 2 ^ 6 ∧ dt.min < 2 ^ 6 ∧ dt.hour < 2 ^ 5 ∧ dt.day < 2 ^ 5 ∧ dt.month < 2 ^ 4 ∧
      dt.year - 1970 < 2 ^ 8 := by
  obtain ⟨⟨⟨hm, hm', hd, hd'⟩, hh, hmin, hs⟩, hy, hy'⟩ := hdt
  simp only [TpbDatetime.moment] at hm' hd' hh hmin hs
  have hlast : monthDays dt.year dt.month ≤ 31 := by
    rw [monthDays]
    split_ifs
    all_goals omega
  omega

/-- **The bits of a packed time** are its fields beside one another. -/
theorem toNat_datetimeBits {dt : TpbDatetime} (hdt : dt.Valid) {z : ℤ} :
    ∃ bits, tpbTsDatetimeToBits dt z = .ok bits ∧
      bits.toNat = dt.packed + (tzIncrement z % 256).toNat * 17179869184 := by
  obtain ⟨hs, hmin, hh, hd, hm, hy⟩ := hdt.bounds
  have hyear : ¬(dt.year < 1970 ∨ 2225 < dt.year) := by
    have := hdt.year_le
    have := hdt.le_year
    omega
  have htz : (tzIncrement z % 256).toNat < 2 ^ 8 := by omega
  refine ⟨_, if_neg hyear, ?_⟩
  have h0 : dt.sec &&& 0x3F = dt.sec := by
    rw [Nat.and_two_pow_sub_one_eq_mod dt.sec 6, Nat.mod_eq_of_lt hs]
  have h1 : dt.min &&& 0x3F = dt.min := by
    rw [Nat.and_two_pow_sub_one_eq_mod dt.min 6, Nat.mod_eq_of_lt hmin]
  have h2 : dt.hour &&& 0x1F = dt.hour := by
    rw [Nat.and_two_pow_sub_one_eq_mod dt.hour 5, Nat.mod_eq_of_lt hh]
  have h3 : dt.day &&& 0x1F = dt.day := by
    rw [Nat.and_two_pow_sub_one_eq_mod dt.day 5, Nat.mod_eq_of_lt hd]
  have h4 : dt.month &&& 0xF = dt.month := by
    rw [Nat.and_two_pow_sub_one_eq_mod dt.month 4, Nat.mod_eq_of_lt hm]
  have h5 : (dt.year - 1970) &&& 0xFF = dt.year - 1970 := by
    rw [Nat.and_two_pow_sub_one_eq_mod (dt.year - 1970) 8, Nat.mod_eq_of_lt hy]
  simp only [h0, h1, h2, h3, h4, h5]
  have t0 : ((0 : UInt64) ||| UInt64.ofNat dt.sec <<< 0).toNat = dt.sec := by
    rw [toNat_or_shift (b := 0) (p := 0) (n := 0) rfl Nat.one_pos rfl (by omega) hs, Nat.pow_zero,
      Nat.mul_one, Nat.zero_add]
  have t1 : (_ ||| UInt64.ofNat dt.min <<< 6).toNat = _ + dt.min * 64 :=
    toNat_or_shift (n := 6) t0 (by omega) rfl (by omega) hmin
  have t2 : (_ ||| UInt64.ofNat dt.hour <<< 12).toNat = _ + dt.hour * 4096 :=
    toNat_or_shift (n := 12) t1 (by omega) rfl (by omega) hh
  have t3 : (_ ||| UInt64.ofNat dt.day <<< 17).toNat = _ + dt.day * 131072 :=
    toNat_or_shift (n := 17) t2 (by omega) rfl (by omega) hd
  have t4 : (_ ||| UInt64.ofNat dt.month <<< 22).toNat = _ + dt.month * 4194304 :=
    toNat_or_shift (n := 22) t3 (by omega) rfl (by omega) hm
  have t5 : (_ ||| UInt64.ofNat (dt.year - 1970) <<< 26).toNat = _ + (dt.year - 1970) * 67108864 :=
    toNat_or_shift (n := 26) t4 (by omega) rfl (by omega) hy
  have t6 : (_ ||| UInt64.ofNat (tzIncrement z % 256).toNat <<< 34).toNat =
      _ + (tzIncrement z % 256).toNat * 17179869184 :=
    toNat_or_shift (n := 34) t5 (by omega) rfl (by omega) htz
  rw [t6]
  simp only [TpbDatetime.packed_eq]
  omega

/-- Fields beside one another are read back by division. -/
theorem fields_of_packed {n s mi h d mo y z : ℕ} (hs : s < 64) (hmi : mi < 64) (hh : h < 32)
    (hd : d < 32) (hmo : mo < 16) (hy : y < 256) (hz : z < 256)
    (hn : n = s + 64 * (mi + 64 * (h + 32 * (d + 32 * (mo + 16 * y)))) + z * 17179869184) :
    n / 17179869184 % 256 = z ∧ n / 67108864 % 256 = y ∧ n / 4194304 % 16 = mo ∧
      n / 131072 % 32 = d ∧ n / 4096 % 32 = h ∧ n / 64 % 64 = mi ∧ n / 1 % 64 = s := by
  refine ⟨?_, ?_, ?_, ?_, ?_, ?_, ?_⟩
  all_goals omega

/-- What is read from packed bits. -/
theorem tpbTsBitsToDatetime_eq {bits : UInt64} {s mi h d mo y z : ℕ} (hs : s < 64) (hmi : mi < 64)
    (hh : h < 32) (hd : d < 32) (hmo : mo < 16) (hy : y < 256) (hz : z < 256)
    (hbits : bits.toNat =
      s + 64 * (mi + 64 * (h + 32 * (d + 32 * (mo + 16 * y)))) + z * 17179869184) :
    tpbTsBitsToDatetime bits =
      (⟨y + 1970, mo, d, h, mi, s⟩, (if z ≤ 127 then (z : ℤ) else z - 256) * 15) := by
  have f34 : bitsField bits 0xFF 34 = bits.toNat / 17179869184 % 256 :=
    bitsField_eq (n := 34) bits 8 rfl rfl
  have f26 : bitsField bits 0xFF 26 = bits.toNat / 67108864 % 256 :=
    bitsField_eq (n := 26) bits 8 rfl rfl
  have f22 : bitsField bits 0xF 22 = bits.toNat / 4194304 % 16 :=
    bitsField_eq (n := 22) bits 4 rfl rfl
  have f17 : bitsField bits 0x1F 17 = bits.toNat / 131072 % 32 :=
    bitsField_eq (n := 17) bits 5 rfl rfl
  have f12 : bitsField bits 0x1F 12 = bits.toNat / 4096 % 32 :=
    bitsField_eq (n := 12) bits 5 rfl rfl
  have f6 : bitsField bits 0x3F 6 = bits.toNat / 64 % 64 := bitsField_eq (n := 6) bits 6 rfl rfl
  have f0 : bitsField bits 0x3F 0 = bits.toNat / 1 % 64 := bitsField_eq (n := 0) bits 6 rfl rfl
  obtain ⟨h34, h26, h22, h17, h12, h6, h0⟩ := fields_of_packed hs hmi hh hd hmo hy hz hbits
  rw [h34] at f34
  rw [h26] at f26
  rw [h22] at f22
  rw [h17] at f17
  rw [h12] at f12
  rw [h6] at f6
  rw [h0] at f0
  simp only [tpbTsBitsToDatetime, f34, f26, f22, f17, f12, f6, f0, Nat.cast_le_ofNat]

/-- **The packed fields are read back**, with every offset that has a step. -/
theorem bitsToDatetime_of_datetimeToBits {dt : TpbDatetime} (hdt : dt.Valid) {q : ℤ}
    (hlo : -128 ≤ q) (hhi : q ≤ 127) :
    ∃ bits, tpbTsDatetimeToBits dt (15 * q) = .ok bits ∧
      tpbTsBitsToDatetime bits = (dt, 15 * q) := by
  obtain ⟨bits, hbits, hnat⟩ := toNat_datetimeBits hdt (z := 15 * q)
  obtain ⟨hs, hmin, hh, hd, hm, hy⟩ := hdt.bounds
  have hinc : tzIncrement (15 * q) = q := by
    rw [tzIncrement, Int.mul_tdiv_cancel_left q (by omega)]
    omega
  have hyear : dt.year - 1970 + 1970 = dt.year := Nat.sub_add_cancel hdt.year_le
  refine ⟨bits, hbits, ?_⟩
  rw [hinc, TpbDatetime.packed_eq] at hnat
  rw [tpbTsBitsToDatetime_eq hs hmin hh hd hm hy (by omega) hnat, hyear]
  refine Prod.ext rfl ?_
  · dsimp only
    split_ifs
    · omega
    · omega

end Bits

/-- The order of packed fields is the order of the moments. -/
theorem packed_lt_iff {dt du : TpbDatetime} (hdt : dt.Valid) (hdu : du.Valid) :
    dt.packed < du.packed ↔ dt.moment.Before du.moment := by
  obtain ⟨hs, hmin, hh, hd, hm, hy⟩ := hdt.bounds
  obtain ⟨hs', hmin', hh', hd', hm', hy'⟩ := hdu.bounds
  have hle := hdt.year_le
  have hle' := hdu.year_le
  simp only [TpbDatetime.packed_eq, TpbDatetime.moment, Moment.Before]
  omega

/-- **With no time zone, the order of bits is the order in time.** -/
theorem datetimeBits_lt_iff {dt du : TpbDatetime} (hdt : dt.Valid) (hdu : du.Valid)
    {b c : UInt64} (hb : tpbTsDatetimeToBits dt 0 = .ok b)
    (hc : tpbTsDatetimeToBits du 0 = .ok c) : b < c ↔ dt.moment.epoch < du.moment.epoch := by
  obtain ⟨b', hb', hnat⟩ := toNat_datetimeBits hdt (z := 0)
  obtain ⟨c', hc', hnat'⟩ := toNat_datetimeBits hdu (z := 0)
  obtain rfl := Except.ok.inj (hb.symm.trans hb')
  obtain rfl := Except.ok.inj (hc.symm.trans hc')
  have hzero : (tzIncrement 0 % 256).toNat = 0 := rfl
  rw [UInt64.lt_iff_toNat_lt, hnat, hnat', hzero, Moment.epoch_lt_iff hdt.moment hdu.moment,
    ← packed_lt_iff hdt hdu]
  omega

/-! ### Civil times -/

/-- `_sf_parse_int_span`, the loop: `n` digits, behind the value `v`. -/
def sfParseIntSpan : Bytes → ℕ → ℕ → Option ℕ
  | _, 0, v => some v
  | [], _ + 1, _ => none
  | c :: s, n + 1, v =>
      if !isdigit c then none
      else if (2147483647 - (c.toNat - 48)) / 10 < v then none
      else sfParseIntSpan s n (v * 10 + (c.toNat - 48))

/-- `_sf_days_in_month`. -/
def sfDaysInMonth (year month : ℤ) : ℤ :=
  if month < 1 ∨ 12 < month then 0
  else if month = 2 ∧ (year.tmod 4 = 0 ∧ year.tmod 100 ≠ 0 ∨ year.tmod 400 = 0) then 29
  else [31, 28, 31, 30, 31, 30, 31, 31, 30, 31, 30, 31].getD (month - 1).toNat 0

/-- The time that `_sf_validate_civil` returns 0 for. -/
def SfValidateCivil (year month day hour min sec : ℤ) : Prop :=
  ¬(year < 1970 ∨ 2225 < year) ∧
    ¬(month < 1 ∨ 12 < month ∨ day < 1 ∨ hour < 0 ∨ 23 < hour ∨ min < 0 ∨ 59 < min ∨ sec < 0 ∨
      59 < sec) ∧
    ¬sfDaysInMonth year month < day

instance (year month day hour min sec : ℤ) :
    Decidable (SfValidateCivil year month day hour min sec) :=
  inferInstanceAs (Decidable (_ ∧ _ ∧ _))

/-- `_sf_civil_to_epoch_utc`. -/
def sfCivilToEpochUtc (year month day hour min sec : ℤ) : Except Err ℤ :=
  if ¬SfValidateCivil year month day hour min sec then .error (.code .cliMisc .cliFail)
  else
    let y := if month ≤ 2 then year - 1 else year
    let m := if month ≤ 2 then month + 9 else month - 3
    let era := (if 0 ≤ y then y else y - 399).tdiv 400
    let yoe := y - era * 400
    let doy := (153 * m + 2).tdiv 5 + day - 1
    let doe := yoe * 365 + yoe.tdiv 4 - yoe.tdiv 100 + doy
    let days := era * 146097 + doe - 719468
    let secs := days * 86400 + hour * 3600 + min * 60 + sec
    if secs < 0 ∧ 0 < secs then .error (.code .cliMisc .cliFail) else .ok secs

/-- `_sf_parse_offset_suffix`, the hours: one digit or two, and what follows them. -/
def offsetHour (p : Bytes) : Option (ℕ × Bytes) :=
  if !p.head?.any isdigit then none
  else if p.tail.head?.any isdigit then
    (sfParseIntSpan p 2 0).map fun hour => (hour, p.drop 2)
  else (sfParseIntSpan p 1 0).map fun hour => (hour, p.drop 1)

/-- `_sf_parse_offset_suffix`, the minutes behind the hours, and what follows them. -/
def offsetMin (p : Bytes) : Option (ℕ × Bytes) :=
  if p.head? = some 58 then
    (sfParseIntSpan p.tail 2 0).map fun min => (min, p.tail.drop 2)
  else if p.head?.any isdigit && p.tail.head?.any isdigit then
    (sfParseIntSpan p 2 0).map fun min => (min, p.drop 2)
  else if p ≠ [] then none
  else some (0, p)

/-- `_sf_parse_offset_suffix`, behind the sign: the offset in minutes, and what follows it. -/
def offsetMinutes (p : Bytes) : Option (ℕ × Bytes) :=
  (offsetHour p).bind fun (hour, p) =>
    if 18 < hour then none
    else (offsetMin p).bind fun (min, p) =>
      if 59 < min then none else some (hour * 60 + min, p)

/-- `_sf_parse_offset_suffix`: the offset in minutes, and what follows it. -/
def sfParseOffsetSuffix : Bytes → Option (ℤ × Bytes)
  | 43 :: p => (offsetMinutes p).map fun (minutes, rest) => ((minutes : ℤ), rest)
  | 45 :: p => (offsetMinutes p).map fun (minutes, rest) => (-(minutes : ℤ), rest)
  | _ => none

/-! ### Filters -/

/-- `struct tm`. -/
structure Tm where
  tmYear : ℤ
  tmMon : ℤ
  tmMday : ℤ
  tmHour : ℤ
  tmMin : ℤ
  tmSec : ℤ
  deriving DecidableEq

/-- The functions of the C library: `gmtime_r` and `localtime_r`, which can fail, and `mktime` with
the `errno` and the normalized time that it leaves. -/
structure TimeLib where
  gmtime : ℤ → Option Tm
  localtime : ℤ → Option Tm
  mktime : Tm → ℤ × ℕ × Tm

/-- The digits of the date and the time of day. -/
def civilFields (text : Bytes) : Option TpbDatetime :=
  (sfParseIntSpan text 4 0).bind fun year =>
  (sfParseIntSpan (text.drop 5) 2 0).bind fun month =>
  (sfParseIntSpan (text.drop 8) 2 0).bind fun day =>
  (sfParseIntSpan (text.drop 11) 2 0).bind fun hour =>
  (sfParseIntSpan (text.drop 14) 2 0).bind fun min =>
  (sfParseIntSpan (text.drop 17) 2 0).map fun sec => ⟨year, month, day, hour, min, sec⟩

/-- The suffix of a text: no suffix, or an offset in minutes. -/
def timeZoneSuffix (p : Bytes) : Option (Option ℤ) :=
  if p = [] then some none
  else if p = [90] then some (some 0)
  else match sfParseOffsetSuffix p with
    | some (bias, []) => some (some bias)
    | _ => none

/-- A local time, by `mktime`; what `mktime` made of it has to be read back. -/
def localEpoch (L : TimeLib) (c : TpbDatetime) : Except Err ℤ :=
  let (epoch, errno, wall) :=
    L.mktime ⟨c.year - 1900, c.month - 1, c.day, c.hour, c.min, c.sec⟩
  if epoch = -1 ∧ errno ≠ 0 then .error (.code .cliMisc .cliFail)
  else match L.localtime epoch with
    | none => .error (.code .cliMisc .cliFail)
    | some roundtrip =>
        if roundtrip ≠ wall then .error (.code .cliMisc .cliFail) else .ok epoch

/-- The fields of a time, in the types of `tpb_datetime_t`. -/
def datetimeOfTm (gmt : Tm) : TpbDatetime :=
  ⟨((gmt.tmYear + 1900) % 65536).toNat, ((gmt.tmMon + 1) % 256).toNat, (gmt.tmMday % 256).toNat,
    (gmt.tmHour % 256).toNat, (gmt.tmMin % 256).toNat, (gmt.tmSec % 256).toNat⟩

/-- A moment as bits in UTC, which have to be read back. -/
def encodeUtc (L : TimeLib) (epoch : ℤ) : Except Err UInt64 :=
  match L.gmtime epoch with
  | none => .error (.code .cliMisc .cliFail)
  | some gmt =>
      let dt := datetimeOfTm gmt
      match tpbTsDatetimeToBits dt 0 with
      | .error e => .error (e.propagated .cliMisc)
      | .ok bits =>
          match sfCivilToEpochUtc dt.year dt.month dt.day dt.hour dt.min dt.sec with
          | .error e => .error (e.propagated .cliMisc)
          | .ok check => if check ≠ epoch then .error (.code .cliMisc .cliFail) else .ok bits

/-- `tpbcli_task_time_parse_filter`. -/
def tpbcliTaskTimeParseFilter (L : TimeLib) (text : Bytes) : Except Err UInt64 :=
  if text.length < 19 then .error (.code .cliMisc .cliFail)
  else if text[4]? ≠ some 45 ∨ text[7]? ≠ some 45 ∨ text[10]? ≠ some 84 ∨ text[13]? ≠ some 58 ∨
      text[16]? ≠ some 58 then .error (.code .cliMisc .cliFail)
  else match civilFields text with
    | none => .error (.code .cliMisc .cliFail)
    | some c =>
        if ¬SfValidateCivil c.year c.month c.day c.hour c.min c.sec then
          .error (.code .cliMisc .cliFail)
        else match timeZoneSuffix (text.drop 19) with
          | none => .error (.code .cliMisc .cliFail)
          | some none => (localEpoch L c).bind (encodeUtc L)
          | some (some bias) =>
              match sfCivilToEpochUtc c.year c.month c.day c.hour c.min c.sec with
              | .error e => .error (e.propagated .cliMisc)
              | .ok epoch => encodeUtc L (epoch - bias * 60)

/-- `tpbcli_task_time_format_utc`: what it leaves in a buffer of `outlen` bytes. -/
def tpbcliTaskTimeFormatUtc (bits : UInt64) (outlen : ℕ) : Except Err Bytes :=
  if outlen = 0 then .error (.code .cliMisc .nullptrArg)
  else .ok ((tpbTsBitsToIsoutc bits).take (outlen - 1))

/-! ### Reading digits -/

/-- A text of `n` digits with the value `v`. -/
structure Digits (n : ℕ) (t : Bytes) (v : ℕ) : Prop where
  length : t.length = n
  digits : ∀ c ∈ t, isdigit c = true
  value : digitsNat t = v

/-- A digit is at most nine. -/
theorem digit_le {c : UInt8} (hc : isdigit c = true) : c.toNat - 48 ≤ 9 := by
  simp only [isdigit, Bool.decide_and, Bool.and_eq_true, decide_eq_true_eq,
    UInt8.le_iff_toNat_le, UInt8.reduceToNat] at hc
  omega

/-- Digits are read in front of any text, as long as the value is small. -/
theorem parseIntSpan_iff {s : Bytes} {n v r : ℕ} (hsmall : (v + 1) * 10 ^ n ≤ 10 ^ 9) :
    sfParseIntSpan s n v = some r ↔
      ∃ t rest, s = t ++ rest ∧ t.length = n ∧ (∀ c ∈ t, isdigit c = true) ∧
        t.foldl (fun n b => 10 * n + (b.toNat - 48)) v = r := by
  induction n generalizing s v with
  | zero =>
      rw [sfParseIntSpan, Option.some.injEq]
      constructor
      · rintro rfl
        exact ⟨[], s, rfl, rfl, by simp, rfl⟩
      · rintro ⟨t, rest, -, ht, -, hv⟩
        rw [List.length_eq_zero_iff] at ht
        subst ht
        exact hv
  | succ n ih =>
      rcases s with _ | ⟨c, s⟩
      · rw [sfParseIntSpan]
        refine iff_of_false nofun ?_
        rintro ⟨t, rest, hs, ht, -⟩
        obtain rfl := (List.nil_eq_append_iff.mp hs).1
        cases ht
      · rw [sfParseIntSpan]
        by_cases hc : isdigit c = true
        · have hdigit := digit_le hc
          have hpow : 10 ^ (n + 1) = 10 ^ n * 10 := pow_succ 10 n
          have hpos : 0 < 10 ^ n := Nat.pow_pos (by omega)
          have hv : v + 1 ≤ 10 ^ 8 := by
            rw [hpow, ← Nat.mul_assoc] at hsmall
            have hle := Nat.le_mul_of_pos_right (v + 1) hpos
            omega
          have hnext : (v * 10 + (c.toNat - 48) + 1) * 10 ^ n ≤ 10 ^ 9 := by
            refine le_trans (Nat.mul_le_mul_right _ (show _ ≤ (v + 1) * 10 by omega)) ?_
            rw [Nat.mul_assoc, Nat.mul_comm 10, ← hpow]
            exact hsmall
          have hcheck : ¬(2147483647 - (c.toNat - 48)) / 10 < v := by omega
          simp only [hc, Bool.not_true, Bool.false_eq_true, ↓reduceIte, hcheck]
          rw [ih hnext]
          constructor
          · rintro ⟨t, rest, rfl, ht, hall, hr⟩
            refine ⟨c :: t, rest, rfl, by rw [List.length_cons, ht], ?_, ?_⟩
            · exact List.forall_mem_cons.mpr ⟨hc, hall⟩
            · rw [List.foldl_cons, Nat.mul_comm 10]
              exact hr
          · rintro ⟨t, rest, hs, ht, hall, hr⟩
            obtain ⟨d, t, rfl⟩ := List.exists_cons_of_length_eq_add_one ht
            obtain ⟨rfl, rfl⟩ := List.cons.inj hs
            refine ⟨t, rest, rfl, Nat.succ.inj ht,
              fun b hb => hall b (List.mem_cons_of_mem _ hb), ?_⟩
            rw [List.foldl_cons, Nat.mul_comm 10] at hr
            exact hr
        · simp only [hc, Bool.not_false, ↓reduceIte]
          refine iff_of_false nofun ?_
          rintro ⟨t, rest, hs, ht, hall, -⟩
          obtain ⟨d, t, rfl⟩ := List.exists_cons_of_length_eq_add_one ht
          obtain ⟨rfl, -⟩ := List.cons.inj hs
          exact hc (hall c List.mem_cons_self)

/-- **Reading digits**: the text starts with them. -/
theorem sfParseIntSpan_iff {s : Bytes} {n r : ℕ} (hn : n ≤ 9) :
    sfParseIntSpan s n 0 = some r ↔ ∃ t rest, s = t ++ rest ∧ Digits n t r := by
  have hsmall : (0 + 1) * 10 ^ n ≤ 10 ^ 9 := by
    rw [Nat.zero_add, Nat.one_mul]
    exact Nat.pow_le_pow_right (by omega) hn
  rw [parseIntSpan_iff hsmall]
  constructor
  · rintro ⟨t, rest, hs, hlen, hall, hr⟩
    exact ⟨t, rest, hs, hlen, hall, hr⟩
  · rintro ⟨t, rest, hs, hlen, hall, hr⟩
    exact ⟨t, rest, hs, hlen, hall, hr⟩

/-! ### Counting seconds -/

/-- The days of a month are those of the calendar. -/
theorem sfDaysInMonth_eq (year : ℕ) {month : ℕ} (hm : 1 ≤ month) (hm' : month ≤ 12) :
    sfDaysInMonth year month = monthDays year month := by
  have hmod : ∀ n : ℤ, (year : ℤ).tmod n = year % n := fun n =>
    Int.tmod_eq_emod_of_nonneg (by omega)
  have hleap : ∀ y : ℤ, (y % 4 = 0 ∧ y % 100 ≠ 0 ∨ y % 400 = 0) ↔ IsLeap y := fun _ => Iff.rfl
  rw [sfDaysInMonth, if_neg (by omega)]
  simp only [hmod, hleap]
  by_cases h : IsLeap year
  · interval_cases month <;> simp [monthDays, h]
  · interval_cases month <;> simp [monthDays, h]

/-- What `_sf_validate_civil` lets pass is in the calendar and has bits. -/
theorem sfValidateCivil_iff {dt : TpbDatetime} :
    SfValidateCivil dt.year dt.month dt.day dt.hour dt.min dt.sec ↔ dt.Valid := by
  constructor
  · rintro ⟨hyear, hfields, hday⟩
    have hm : 1 ≤ dt.month := by omega
    have hm' : dt.month ≤ 12 := by omega
    rw [sfDaysInMonth_eq dt.year hm hm'] at hday
    refine ⟨⟨⟨hm, hm', ?_, ?_⟩, ?_, ?_, ?_⟩, ?_, ?_⟩
    · change 1 ≤ dt.day
      omega
    · change dt.day ≤ monthDays dt.year dt.month
      omega
    · change dt.hour < 24
      omega
    · change dt.min < 60
      omega
    · change dt.sec < 60
      omega
    · omega
    · omega
  · rintro ⟨⟨⟨hm, hm', hd, hd'⟩, hh, hmin, hs⟩, hy, hy'⟩
    simp only [TpbDatetime.moment] at hm hm' hd hd' hh hmin hs
    refine ⟨by omega, by omega, ?_⟩
    rw [sfDaysInMonth_eq dt.year hm hm']
    omega

/-- The day count of the source, in years that start in March. -/
theorem days_eq {year y m : ℤ} {month day : ℕ} (hm : 1 ≤ month) (hm' : month ≤ 12)
    (hmarch : month ≤ 2 ∧ y = year - 1 ∧ m = month + 9 ∨ 2 < month ∧ y = year ∧ m = month - 3) :
    y / 400 * 146097 + ((y - y / 400 * 400) * 365 + (y - y / 400 * 400) / 4 -
        (y - y / 400 * 400) / 100 + ((153 * m + 2) / 5 + day - 1)) - 719468 =
      Date.number ⟨year, month, day⟩ := by
  rw [Date.number, yearStart, monthStart]
  -- the leap day is in front of March
  have hleap : (year / 4 - year / 100 + year / 400 : ℤ) =
      (year - 1) / 4 - (year - 1) / 100 + (year - 1) / 400 + if IsLeap year then 1 else 0 := by
    split_ifs with hleap
    · rw [IsLeap] at hleap
      omega
    · rw [IsLeap] at hleap
      omega
  have hcentury : (y - y / 400 * 400) / 4 - (y - y / 400 * 400) / 100 =
      y / 4 - y / 100 - y / 400 * 96 := by
    omega
  rcases hmarch with ⟨hle, rfl, rfl⟩ | ⟨hlt, rfl, rfl⟩
  · interval_cases month
    · simp
      omega
    · simp
      omega
  · by_cases hl : IsLeap y
    · rw [if_pos hl] at hleap
      interval_cases month <;> simp [hl] <;> omega
    · rw [if_neg hl] at hleap
      interval_cases month <;> simp [hl] <;> omega

/-- **The count of the source** is the one of the calendar. -/
theorem sfCivilToEpochUtc_eq {dt : TpbDatetime} (hdt : dt.Valid) :
    sfCivilToEpochUtc dt.year dt.month dt.day dt.hour dt.min dt.sec = .ok dt.moment.epoch := by
  have hm : 1 ≤ dt.month := hdt.moment.date.month_pos
  have hm' : dt.month ≤ 12 := hdt.moment.date.month_le
  have hyear := hdt.year_le
  rw [sfCivilToEpochUtc, if_neg (not_not.mpr (sfValidateCivil_iff.mpr hdt))]
  dsimp only
  generalize hy : (if (dt.month : ℤ) ≤ 2 then (dt.year : ℤ) - 1 else dt.year) = y
  generalize hmm : (if (dt.month : ℤ) ≤ 2 then (dt.month : ℤ) + 9 else dt.month - 3) = m
  have hmarch : dt.month ≤ 2 ∧ y = (dt.year : ℤ) - 1 ∧ m = dt.month + 9 ∨
      2 < dt.month ∧ y = dt.year ∧ m = dt.month - 3 := by
    rw [← hy, ← hmm]
    split_ifs
    · left
      omega
    · right
      omega
  have hpos : 0 ≤ y := by omega
  have hdays := @days_eq dt.year y m dt.month dt.day hm hm' hmarch
  rw [if_pos hpos, Int.tdiv_eq_ediv_of_nonneg hpos,
    Int.tdiv_eq_ediv_of_nonneg (show 0 ≤ y - y / 400 * 400 by omega),
    Int.tdiv_eq_ediv_of_nonneg (show 0 ≤ y - y / 400 * 400 by omega),
    Int.tdiv_eq_ediv_of_nonneg (show 0 ≤ 153 * m + 2 by omega),
    hdays, if_neg (by omega)]
  rfl

/-! ### Encoding -/

/-- The time of a moment, as `gmtime_r` returns it. -/
def tmOf (t : Moment) : Tm :=
  ⟨t.date.year - 1900, (t.date.month : ℤ) - 1, t.date.day, t.hour, t.min, t.sec⟩

/-- `gmtime_r` inverts the count of seconds, in years with four digits. -/
def TimeLib.GmtimeInverts (L : TimeLib) : Prop :=
  ∀ t : Moment, t.Valid → 1900 ≤ t.date.year → t.date.year ≤ 9999 →
    L.gmtime t.epoch = some (tmOf t)

/-- The seconds of a packed time, and a day around them. -/
theorem TpbDatetime.Valid.epoch_bounds {dt : TpbDatetime} (hdt : dt.Valid) :
    0 ≤ dt.moment.epoch ∧ dt.moment.epoch < 93502 * 86400 := by
  obtain ⟨⟨hdate, hh, hmin, hs⟩, hy, hy'⟩ := hdt
  have hlo := hdate.le_number
  have hhi := hdate.number_lt
  have hmono : yearStart 1970 ≤ yearStart dt.moment.date.year :=
    yearStart_mono (by simp only [TpbDatetime.moment]; omega)
  have hmono' : yearStart (dt.moment.date.year + 1) ≤ yearStart 2226 :=
    yearStart_mono (by simp only [TpbDatetime.moment]; omega)
  have hstart : yearStart 1970 = 0 := rfl
  have hend : yearStart 2226 = 93502 := rfl
  rw [Moment.epoch]
  omega

/-- A moment close to the packed times is in a year with four digits. -/
theorem year_of_epoch {t : Moment} (ht : t.Valid) (hlo : -100000 ≤ t.epoch)
    (hhi : t.epoch ≤ 93502 * 86400 + 100000) : 1900 ≤ t.date.year ∧ t.date.year ≤ 9999 := by
  obtain ⟨hdate, hh, hmin, hs⟩ := ht
  have hle := hdate.le_number
  have hlt := hdate.number_lt
  rw [Moment.epoch] at hlo hhi
  refine ⟨?_, ?_⟩
  · by_contra hyear
    have hmono : yearStart (t.date.year + 1) ≤ yearStart 1900 := yearStart_mono (by omega)
    have hstart : yearStart 1900 = -25567 := rfl
    omega
  · by_contra hyear
    have hmono : yearStart 9999 ≤ yearStart t.date.year := yearStart_mono (by omega)
    have hstart : yearStart 9999 = 2932532 := rfl
    omega

/-- The moment of the fields determines them. -/
theorem moment_injective {dt du : TpbDatetime} (h : dt.moment = du.moment) : dt = du := by
  obtain ⟨y, m, d, hh, mi, s⟩ := dt
  obtain ⟨y', m', d', hh', mi', s'⟩ := du
  simp only [TpbDatetime.moment, Moment.mk.injEq, Date.mk.injEq, Nat.cast_inj] at h
  obtain ⟨⟨rfl, rfl, rfl⟩, rfl, rfl, rfl⟩ := h
  rfl

/-- The fields of a moment keep it, in years with four digits. -/
theorem moment_datetimeOfTm {t : Moment} (ht : t.Valid) (hy : 1900 ≤ t.date.year)
    (hy' : t.date.year ≤ 9999) : (datetimeOfTm (tmOf t)).moment = t := by
  obtain ⟨⟨hm, hm', hd, hd'⟩, hh, hmin, hs⟩ := ht
  have hlast : monthDays t.date.year t.date.month ≤ 31 := by
    rw [monthDays]
    split_ifs
    all_goals omega
  obtain ⟨⟨y, m, d⟩, hh', mi, s⟩ := t
  simp only at hm hm' hd hd' hh hmin hs hy hy' hlast
  simp only [datetimeOfTm, tmOf, TpbDatetime.moment, Moment.mk.injEq, Date.mk.injEq]
  omega

/-- **Encoding**: a moment close to the packed times gives the bits of its fields, if its year has
bits. -/
theorem encodeUtc_iff {L : TimeLib} (hL : L.GmtimeInverts) {n : ℤ} {bits : UInt64}
    (hlo : -100000 ≤ n) (hhi : n ≤ 93502 * 86400 + 100000) :
    encodeUtc L n = .ok bits ↔
      ∃ dt : TpbDatetime, dt.Valid ∧ dt.moment.epoch = n ∧ tpbTsDatetimeToBits dt 0 = .ok bits := by
  obtain ⟨hvalid, hepoch⟩ := Moment.ofEpoch_spec n
  obtain ⟨hyear, hyear'⟩ := year_of_epoch hvalid (by omega) (by omega)
  have hgmt := hL _ hvalid hyear hyear'
  have hmoment := moment_datetimeOfTm hvalid hyear hyear'
  rw [hepoch] at hgmt
  rw [encodeUtc, hgmt]
  dsimp only
  generalize datetimeOfTm (tmOf (Moment.ofEpoch n)) = dt at hmoment
  rw [← hmoment] at hvalid hepoch
  -- no other fields belong to this moment
  have honly : ∀ {du : TpbDatetime}, du.Valid → du.moment.epoch = n → du = dt := fun hdu hn =>
    moment_injective (Moment.epoch_injective hdu.moment hvalid (hn.trans hepoch.symm))
  by_cases hin : 1970 ≤ dt.year ∧ dt.year ≤ 2225
  · have hdt : dt.Valid := ⟨hvalid, hin.1, hin.2⟩
    obtain ⟨b, hb, -⟩ := toNat_datetimeBits hdt (z := 0)
    simp only [hb, sfCivilToEpochUtc_eq hdt, hepoch, ne_eq, not_true_eq_false, ↓reduceIte]
    constructor
    · intro h
      exact ⟨dt, hdt, hepoch, hb.trans h⟩
    · rintro ⟨du, hdu, hn, hbits⟩
      rw [honly hdu hn, hb] at hbits
      exact hbits
  · have hbits : tpbTsDatetimeToBits dt 0 = .error (.code .misc .illegalCall) := if_pos (by omega)
    simp only [hbits]
    refine iff_of_false nofun ?_
    rintro ⟨du, hdu, hn, -⟩
    exact hin (honly hdu hn ▸ ⟨hdu.year_le, hdu.le_year⟩)

/-! ### Texts -/

/-- A date and a time of day, `YYYY-MM-DDTHH:MM:SS`, in front of a suffix. -/
def CivilText (dt : TpbDatetime) (suffix text : Bytes) : Prop :=
  ∃ y mo d h mi s, Digits 4 y dt.year ∧ Digits 2 mo dt.month ∧ Digits 2 d dt.day ∧
    Digits 2 h dt.hour ∧ Digits 2 mi dt.min ∧ Digits 2 s dt.sec ∧
    text = y ++ 45 :: (mo ++ 45 :: (d ++ 84 :: (h ++ 58 :: (mi ++ 58 :: (s ++ suffix)))))

/-- The text of an offset behind its sign, in minutes: `H`, `HH`, `H:MM`, `HH:MM` or `HHMM`. -/
inductive OffsetText : Bytes → ℕ → Prop
  | hour {t : Bytes} {hour : ℕ} (ht : Digits 1 t hour ∨ Digits 2 t hour) (hle : hour ≤ 18) :
      OffsetText t (hour * 60)
  | colon {t u : Bytes} {hour min : ℕ} (ht : Digits 1 t hour ∨ Digits 2 t hour) (hle : hour ≤ 18)
      (hu : Digits 2 u min) (hmin : min ≤ 59) : OffsetText (t ++ 58 :: u) (hour * 60 + min)
  | plain {t u : Bytes} {hour min : ℕ} (ht : Digits 2 t hour) (hle : hour ≤ 18)
      (hu : Digits 2 u min) (hmin : min ≤ 59) : OffsetText (t ++ u) (hour * 60 + min)

/-- The suffix of a text with its offset in minutes. -/
inductive SuffixText : Bytes → ℤ → Prop
  | utc : SuffixText [90] 0
  | east {t : Bytes} {n : ℕ} (h : OffsetText t n) : SuffixText (43 :: t) n
  | west {t : Bytes} {n : ℕ} (h : OffsetText t n) : SuffixText (45 :: t) (-n)

/-- A number and the character behind it. -/
theorem span_then {text : Bytes} {k n v : ℕ} {sep : UInt8} (hn : n ≤ 9)
    (hspan : sfParseIntSpan (text.drop k) n 0 = some v) (hsep : text[k + n]? = some sep) :
    ∃ t, Digits n t v ∧ text.drop k = t ++ sep :: text.drop (k + n + 1) := by
  obtain ⟨t, rest, htext, ht⟩ := (sfParseIntSpan_iff hn).mp hspan
  refine ⟨t, ht, ?_⟩
  have hrest : rest = text.drop (k + n) := by
    rw [← List.drop_drop, htext, ← ht.length, List.drop_left]
  obtain ⟨hlt, hget⟩ := List.getElem?_eq_some_iff.mp hsep
  rw [htext, hrest, List.drop_eq_getElem_cons hlt, hget]

/-- What is behind the character behind a number. -/
theorem drop_then {text t rest : Bytes} {sep : UInt8} {k n v : ℕ} (ht : Digits n t v)
    (htext : text.drop k = t ++ sep :: rest) :
    text.drop (k + n + 1) = rest ∧ text[k + n]? = some sep := by
  obtain rfl := ht.length
  constructor
  · rw [← List.drop_drop, ← List.drop_drop, htext, List.drop_left, List.drop_one, List.tail_cons]
  · rw [← List.getElem?_drop, htext, List.getElem?_append_right le_rfl, Nat.sub_self]
    rfl

theorem sfParseIntSpan_digits {t rest : Bytes} {n v : ℕ} (hn : n ≤ 9) (ht : Digits n t v) :
    sfParseIntSpan (t ++ rest) n 0 = some v :=
  (sfParseIntSpan_iff hn).mpr ⟨t, rest, rfl, ht⟩

/-- **The date and the time of day** are read from a text of their form. -/
theorem civilFields_iff {text : Bytes} {dt : TpbDatetime} :
    (¬text.length < 19 ∧ ¬(text[4]? ≠ some 45 ∨ text[7]? ≠ some 45 ∨ text[10]? ≠ some 84 ∨
        text[13]? ≠ some 58 ∨ text[16]? ≠ some 58) ∧ civilFields text = some dt) ↔
      CivilText dt (text.drop 19) text := by
  constructor
  · rintro ⟨hlen, hseps, hfields⟩
    simp only [not_or, not_not] at hseps
    obtain ⟨h4, h7, h10, h13, h16⟩ := hseps
    simp only [civilFields, Option.bind_eq_some_iff, Option.map_eq_some_iff] at hfields
    obtain ⟨year, hyear, month, hmonth, day, hday, hour, hhour, min, hmin, sec, hsec, rfl⟩ :=
      hfields
    obtain ⟨y, hy, ht₁⟩ := span_then (k := 0) (by omega) hyear h4
    obtain ⟨mo, hmo, ht₂⟩ := span_then (k := 5) (by omega) hmonth h7
    obtain ⟨d, hd, ht₃⟩ := span_then (k := 8) (by omega) hday h10
    obtain ⟨h, hh, ht₄⟩ := span_then (k := 11) (by omega) hhour h13
    obtain ⟨mi, hmi, ht₅⟩ := span_then (k := 14) (by omega) hmin h16
    obtain ⟨s, rest, ht₆, hs⟩ := (sfParseIntSpan_iff (by omega)).mp hsec
    have hrest : rest = text.drop 19 := by
      have hdrop := congrArg (List.drop 2) ht₆
      rw [List.drop_drop, ← hs.length, List.drop_left] at hdrop
      rw [← hdrop, hs.length]
    refine ⟨y, mo, d, h, mi, s, hy, hmo, hd, hh, hmi, hs, ?_⟩
    rw [← hrest, ← ht₆, ← ht₅, ← ht₄, ← ht₃, ← ht₂]
    exact ht₁
  · rintro ⟨y, mo, d, h, mi, s, hy, hmo, hd, hh, hmi, hs, htext⟩
    obtain ⟨d5, g4⟩ := drop_then (k := 0) hy htext
    obtain ⟨d8, g7⟩ := drop_then hmo d5
    obtain ⟨d11, g10⟩ := drop_then hd d8
    obtain ⟨d14, g13⟩ := drop_then hh d11
    obtain ⟨d17, g16⟩ := drop_then hmi d14
    have hlen : (text.drop 17).length = (s ++ text.drop 19).length := congrArg List.length d17
    rw [List.length_append, List.length_drop, List.length_drop, hs.length] at hlen
    have r0 : sfParseIntSpan text 4 0 = some dt.year := by
      rw [htext]
      exact sfParseIntSpan_digits (by omega) hy
    have r5 : sfParseIntSpan (text.drop 5) 2 0 = some dt.month := by
      rw [d5]
      exact sfParseIntSpan_digits (by omega) hmo
    have r8 : sfParseIntSpan (text.drop 8) 2 0 = some dt.day := by
      rw [d8]
      exact sfParseIntSpan_digits (by omega) hd
    have r11 : sfParseIntSpan (text.drop 11) 2 0 = some dt.hour := by
      rw [d11]
      exact sfParseIntSpan_digits (by omega) hh
    have r14 : sfParseIntSpan (text.drop 14) 2 0 = some dt.min := by
      rw [d14]
      exact sfParseIntSpan_digits (by omega) hmi
    have r17 : sfParseIntSpan (text.drop 17) 2 0 = some dt.sec := by
      rw [d17]
      exact sfParseIntSpan_digits (by omega) hs
    refine ⟨by omega, ?_, ?_⟩
    · rintro (h | h | h | h | h)
      · exact h g4
      · exact h g7
      · exact h g10
      · exact h g13
      · exact h g16
    · rw [civilFields, r0, r5, r8, r11, r14, r17]
      rfl

/-- A text starts with a digit. -/
theorem Digits.head?_any {t rest : Bytes} {n v : ℕ} (ht : Digits (n + 1) t v) :
    (t ++ rest).head?.any isdigit = true := by
  obtain ⟨c, t, rfl⟩ := List.exists_cons_of_length_eq_add_one ht.length
  exact ht.digits c List.mem_cons_self

theorem Digits.tail {t rest : Bytes} {v : ℕ} (ht : Digits 2 t v) :
    (t ++ rest).tail.head?.any isdigit = true := by
  obtain ⟨c, t, rfl⟩ := List.exists_cons_of_length_eq_add_one ht.length
  obtain ⟨d, t, rfl⟩ := List.exists_cons_of_length_eq_add_one (Nat.succ.inj ht.length)
  exact ht.digits d (List.mem_cons_of_mem _ List.mem_cons_self)

theorem Digits.drop {t rest : Bytes} {n v : ℕ} (ht : Digits n t v) :
    (t ++ rest).drop n = rest := by
  rw [← ht.length, List.drop_left]

/-- A number of one digit or two in front of a text. -/
theorem offsetHour_iff {p r : Bytes} {hour : ℕ} :
    offsetHour p = some (hour, r) ↔ ∃ t, p = t ++ r ∧
      (Digits 2 t hour ∨ Digits 1 t hour ∧ r.head?.any isdigit = false) := by
  constructor
  · intro h
    rw [offsetHour] at h
    split_ifs at h with hdigit htwo
    · obtain ⟨v, hv, heq⟩ := Option.map_eq_some_iff.mp h
      obtain ⟨rfl, rfl⟩ := Prod.mk.inj heq
      obtain ⟨t, rest, rfl, ht⟩ := (sfParseIntSpan_iff (by omega)).mp hv
      rw [ht.drop]
      exact ⟨t, rfl, .inl ht⟩
    · obtain ⟨v, hv, heq⟩ := Option.map_eq_some_iff.mp h
      obtain ⟨rfl, rfl⟩ := Prod.mk.inj heq
      obtain ⟨t, rest, rfl, ht⟩ := (sfParseIntSpan_iff (by omega)).mp hv
      have htail : (t ++ rest).tail = rest := by
        rw [← List.drop_one, ht.drop]
      rw [htail] at htwo
      rw [ht.drop]
      exact ⟨t, rfl, .inr ⟨ht, Bool.eq_false_iff.mpr htwo⟩⟩
  · rintro ⟨t, rfl, ht | ⟨ht, hno⟩⟩
    · simp only [offsetHour, ht.head?_any, ht.tail, sfParseIntSpan_digits (by omega : 2 ≤ 9) ht,
        ht.drop, Bool.not_true, Bool.false_eq_true, ↓reduceIte, Option.map_some]
    · have htail : (t ++ r).tail = r := by
        rw [← List.drop_one, ht.drop]
      simp only [offsetHour, ht.head?_any, htail, hno, sfParseIntSpan_digits (by omega : 1 ≤ 9) ht,
        ht.drop, Bool.not_true, Bool.false_eq_true, ↓reduceIte, Option.map_some]

/-- Two digits that are a whole text. -/
theorem parseTwo_iff {p : Bytes} {min : ℕ} :
    (sfParseIntSpan p 2 0).map (fun min => (min, p.drop 2)) = some (min, []) ↔
      Digits 2 p min := by
  constructor
  · intro h
    obtain ⟨v, hv, heq⟩ := Option.map_eq_some_iff.mp h
    obtain ⟨rfl, hrest⟩ := Prod.mk.inj heq
    obtain ⟨t, rest, rfl, ht⟩ := (sfParseIntSpan_iff (by omega)).mp hv
    rw [ht.drop] at hrest
    rw [hrest, List.append_nil]
    exact ht
  · intro h
    have hv := @sfParseIntSpan_digits p [] 2 min (by omega) h
    have hrest := @Digits.drop p [] 2 min h
    rw [List.append_nil] at hv hrest
    rw [hv, hrest]
    rfl

/-- The minutes of an offset, where nothing follows them. -/
theorem offsetMin_iff {p : Bytes} {min : ℕ} :
    offsetMin p = some (min, []) ↔
      p = [] ∧ min = 0 ∨ ∃ u, Digits 2 u min ∧ (p = 58 :: u ∨ p = u) := by
  rcases p with _ | ⟨c, p⟩
  · have hnone : ∀ u, ¬(Digits 2 u min ∧ (([] : Bytes) = 58 :: u ∨ [] = u)) := by
      rintro u ⟨hu, h | rfl⟩
      · cases h
      · cases hu.length
    simp only [hnone, exists_false, or_false, true_and]
    constructor
    · intro h
      exact (congrArg Prod.fst (Option.some.inj h)).symm
    · rintro rfl
      rfl
  · rw [offsetMin]
    by_cases hcolon : c = 58
    · subst hcolon
      rw [List.head?_cons, if_pos rfl, List.tail_cons, parseTwo_iff]
      constructor
      · intro hu
        exact .inr ⟨p, hu, .inl rfl⟩
      · rintro (⟨h, -⟩ | ⟨u, hu, h | rfl⟩)
        · cases h
        · exact (List.cons.inj h).2 ▸ hu
        · cases hu.digits 58 List.mem_cons_self
    · have hhead : ¬(c :: p).head? = some 58 := fun h => hcolon (Option.some.inj h)
      rw [if_neg hhead]
      split_ifs with hdigits hne
      · rw [parseTwo_iff]
        constructor
        · intro hu
          exact .inr ⟨_, hu, .inr rfl⟩
        · rintro (⟨h, -⟩ | ⟨u, hu, h | rfl⟩)
          · cases h
          · exact absurd (List.cons.inj h).1 hcolon
          · exact hu
      · refine iff_of_false nofun ?_
        rintro (⟨h, -⟩ | ⟨u, hu, h | rfl⟩)
        · cases h
        · exact hcolon (List.cons.inj h).1
        · have hhead := @Digits.head?_any _ [] _ _ hu
          have htail := @Digits.tail _ [] _ hu
          rw [List.append_nil] at hhead htail
          rw [hhead, htail] at hdigits
          exact hdigits rfl
      · exact absurd (List.cons_ne_nil _ _) hne

/-- **Offsets** are read from texts of their form. -/
theorem offsetMinutes_iff {p : Bytes} {n : ℕ} :
    offsetMinutes p = some (n, []) ↔ OffsetText p n := by
  have hread : offsetMinutes p = some (n, []) ↔ ∃ hour r min, offsetHour p = some (hour, r) ∧
      hour ≤ 18 ∧ offsetMin r = some (min, []) ∧ min ≤ 59 ∧ hour * 60 + min = n := by
    rw [offsetMinutes, Option.bind_eq_some_iff]
    constructor
    · rintro ⟨⟨hour, r⟩, hhour, h⟩
      dsimp only at h
      split_ifs at h with hle
      obtain ⟨⟨min, r'⟩, hmin, h⟩ := Option.bind_eq_some_iff.mp h
      dsimp only at h
      split_ifs at h with hle'
      obtain ⟨rfl, rfl⟩ := Prod.mk.inj (Option.some.inj h)
      exact ⟨hour, r, min, hhour, by omega, hmin, by omega, rfl⟩
    · rintro ⟨hour, r, min, hhour, hle, hmin, hle', rfl⟩
      refine ⟨(hour, r), hhour, ?_⟩
      dsimp only
      rw [if_neg (by omega), hmin, Option.bind_some, if_neg (by omega)]
  rw [hread]
  constructor
  · rintro ⟨hour, r, min, hhour, hle, hmin, hle', rfl⟩
    obtain ⟨t, rfl, ht⟩ := offsetHour_iff.mp hhour
    rcases offsetMin_iff.mp hmin with ⟨rfl, rfl⟩ | ⟨u, hu, rfl | rfl⟩
    · rw [List.append_nil, Nat.add_zero]
      exact .hour (ht.elim .inr fun h => .inl h.1) hle
    · exact .colon (ht.elim .inr fun h => .inl h.1) hle hu hle'
    · rcases ht with ht | ⟨-, hno⟩
      · exact .plain ht hle hu hle'
      · obtain ⟨c, u, rfl⟩ := List.exists_cons_of_length_eq_add_one hu.length
        have hc := hu.digits c List.mem_cons_self
        rw [List.head?_cons, Option.any_some, hc] at hno
        cases hno
  · rintro h
    cases h with
    | @hour t hour ht hle =>
        refine ⟨hour, [], 0, offsetHour_iff.mpr ⟨p, (List.append_nil p).symm, ?_⟩, hle,
          offsetMin_iff.mpr (.inl ⟨rfl, rfl⟩), by omega, Nat.add_zero _⟩
        exact ht.symm.imp_right fun h => ⟨h, rfl⟩
    | @colon t u hour min ht hle hu hmin =>
        refine ⟨hour, 58 :: u, min, offsetHour_iff.mpr ⟨t, rfl, ?_⟩, hle,
          offsetMin_iff.mpr (.inr ⟨u, hu, .inl rfl⟩), hmin, rfl⟩
        exact ht.symm.imp_right fun h => ⟨h, rfl⟩
    | @plain t u hour min ht hle hu hmin =>
        exact ⟨hour, u, min, offsetHour_iff.mpr ⟨t, rfl, .inl ht⟩, hle,
          offsetMin_iff.mpr (.inr ⟨u, hu, .inr rfl⟩), hmin, rfl⟩

/-- **Suffixes** are read from texts of their form. -/
theorem timeZoneSuffix_iff {p : Bytes} {bias : ℤ} :
    timeZoneSuffix p = some (some bias) ↔ SuffixText p bias := by
  constructor
  · intro h
    rw [timeZoneSuffix] at h
    split_ifs at h with hnil hz
    · cases h
    · cases h
      subst hz
      exact .utc
    · split at h
      · rename_i b hoffset
        cases h
        unfold sfParseOffsetSuffix at hoffset
        split at hoffset
        · obtain ⟨⟨n, r⟩, hn, heq⟩ := Option.map_eq_some_iff.mp hoffset
          obtain ⟨rfl, rfl⟩ := Prod.mk.inj heq
          exact .east (offsetMinutes_iff.mp hn)
        · obtain ⟨⟨n, r⟩, hn, heq⟩ := Option.map_eq_some_iff.mp hoffset
          obtain ⟨rfl, rfl⟩ := Prod.mk.inj heq
          exact .west (offsetMinutes_iff.mp hn)
        · cases hoffset
      · cases h
  · intro h
    cases h with
    | utc => rfl
    | east h | west h =>
        rw [timeZoneSuffix, if_neg (List.cons_ne_nil _ _), if_neg (by simp), sfParseOffsetSuffix,
          offsetMinutes_iff.mpr h]
        rfl

/-! ### Parsing filters -/

/-- The offset of a suffix is less than a day. -/
theorem SuffixText.bounds {p : Bytes} {bias : ℤ} (h : SuffixText p bias) :
    -1139 ≤ bias ∧ bias ≤ 1139 := by
  have hoffset : ∀ {t : Bytes} {n : ℕ}, OffsetText t n → n ≤ 1139 := by
    intro t n h
    cases h <;> omega
  cases h with
  | utc => omega
  | east h =>
      have := hoffset h
      omega
  | west h =>
      have := hoffset h
      omega

/-- A text that is accepted has the form of a time, in the calendar. -/
theorem form_of_parseFilter {L : TimeLib} {text : Bytes} {bits : UInt64}
    (h : tpbcliTaskTimeParseFilter L text = .ok bits) :
    ∃ dt, CivilText dt (text.drop 19) text ∧ dt.Valid ∧
      (text.drop 19 = [] ∨ ∃ bias, SuffixText (text.drop 19) bias ∧
        encodeUtc L (dt.moment.epoch - bias * 60) = .ok bits) := by
  rw [tpbcliTaskTimeParseFilter] at h
  split_ifs at h with hshort hseps
  rcases hfields : civilFields text with _ | dt
  · rw [hfields] at h
    cases h
  · simp only [hfields] at h
    have hcivil := civilFields_iff.mp ⟨hshort, hseps, hfields⟩
    by_cases hdt : dt.Valid
    · rw [if_neg (not_not.mpr (sfValidateCivil_iff.mpr hdt))] at h
      refine ⟨dt, hcivil, hdt, ?_⟩
      rcases hsuffix : timeZoneSuffix (text.drop 19) with _ | _ | bias
      · rw [hsuffix] at h
        cases h
      · -- only a text without suffix is local
        left
        rw [timeZoneSuffix] at hsuffix
        split_ifs at hsuffix with hnil
        · exact hnil
        · cases hsuffix
        · split at hsuffix
          · cases hsuffix
          · cases hsuffix
      · simp only [hsuffix, sfCivilToEpochUtc_eq hdt] at h
        exact .inr ⟨bias, timeZoneSuffix_iff.mp hsuffix, h⟩
    · rw [if_pos (fun hv => hdt (sfValidateCivil_iff.mp hv))] at h
      cases h

/-- **What a filter accepts**: a text with a suffix is accepted if and only if it has the form of
one, its date and time are in the calendar and have bits, and so has the moment the offset leads to.
The bits are those of this moment. -/
theorem tpbcliTaskTimeParseFilter_iff {L : TimeLib} (hL : L.GmtimeInverts) {text : Bytes}
    (hlen : text.length ≠ 19) {bits : UInt64} :
    tpbcliTaskTimeParseFilter L text = .ok bits ↔
      ∃ dt bias, CivilText dt (text.drop 19) text ∧ SuffixText (text.drop 19) bias ∧ dt.Valid ∧
        ∃ du : TpbDatetime, du.Valid ∧ du.moment.epoch = dt.moment.epoch - bias * 60 ∧
          tpbTsDatetimeToBits du 0 = .ok bits := by
  have hencode : ∀ {dt : TpbDatetime} {bias : ℤ}, dt.Valid → SuffixText (text.drop 19) bias →
      (encodeUtc L (dt.moment.epoch - bias * 60) = .ok bits ↔ ∃ du : TpbDatetime, du.Valid ∧
        du.moment.epoch = dt.moment.epoch - bias * 60 ∧ tpbTsDatetimeToBits du 0 = .ok bits) := by
    intro dt bias hdt hsuffix
    obtain ⟨hlo, hhi⟩ := hsuffix.bounds
    obtain ⟨hpos, hlt⟩ := hdt.epoch_bounds
    exact encodeUtc_iff hL (by omega) (by omega)
  constructor
  · intro h
    obtain ⟨dt, hcivil, hdt, hnil | ⟨bias, hsuffix, hbits⟩⟩ := form_of_parseFilter h
    · have hle := List.drop_eq_nil_iff.mp hnil
      have hshort := (civilFields_iff.mpr hcivil).1
      omega
    · exact ⟨dt, bias, hcivil, hsuffix, hdt, (hencode hdt hsuffix).mp hbits⟩
  · rintro ⟨dt, bias, hcivil, hsuffix, hdt, hmoment⟩
    obtain ⟨hshort, hseps, hfields⟩ := civilFields_iff.mpr hcivil
    rw [tpbcliTaskTimeParseFilter, if_neg hshort, if_neg hseps]
    simp only [hfields, timeZoneSuffix_iff.mpr hsuffix, sfCivilToEpochUtc_eq hdt]
    rw [if_neg (not_not.mpr (sfValidateCivil_iff.mpr hdt))]
    exact (hencode hdt hsuffix).mpr hmoment

/-- The characters of a time: digits, and the signs between them. -/
def IsTimeChar (b : UInt8) : Prop := isdigit b = true ∨ b ∈ [43, 45, 58, 84, 90]

theorem Digits.chars {n v : ℕ} {t : Bytes} (ht : Digits n t v) : ∀ b ∈ t, IsTimeChar b :=
  fun b hb => .inl (ht.digits b hb)

/-- An offset has at most five characters. -/
theorem OffsetText.chars {t : Bytes} {n : ℕ} (h : OffsetText t n) :
    t.length ≤ 5 ∧ ∀ b ∈ t, IsTimeChar b := by
  have hhour : ∀ {t : Bytes} {hour : ℕ}, Digits 1 t hour ∨ Digits 2 t hour →
      t.length ≤ 2 ∧ ∀ b ∈ t, IsTimeChar b := by
    rintro t hour (ht | ht)
    · exact ⟨by rw [ht.length]; omega, ht.chars⟩
    · exact ⟨by rw [ht.length], ht.chars⟩
  cases h with
  | hour ht hle => exact ⟨(hhour ht).1.trans (by omega), (hhour ht).2⟩
  | @colon t u hour min ht hle hu hmin =>
      obtain ⟨hlen, hchars⟩ := hhour ht
      refine ⟨by rw [List.length_append, List.length_cons, hu.length]; omega, ?_⟩
      refine List.forall_mem_append.mpr ⟨hchars, List.forall_mem_cons.mpr ⟨?_, hu.chars⟩⟩
      exact .inr (by simp)
  | @plain t u hour min ht hle hu hmin =>
      refine ⟨by rw [List.length_append, ht.length, hu.length]; omega, ?_⟩
      exact List.forall_mem_append.mpr ⟨ht.chars, hu.chars⟩

/-- A text that is accepted has at most 25 characters, digits and the signs between them. -/
theorem chars_of_parseFilter {L : TimeLib} {text : Bytes} {bits : UInt64}
    (h : tpbcliTaskTimeParseFilter L text = .ok bits) :
    text.length ≤ 25 ∧ ∀ b ∈ text, IsTimeChar b := by
  obtain ⟨dt, ⟨y, mo, d, hh, mi, s, hy, hmo, hd, hhh, hmi, hs, htext⟩, -, hsuffix⟩ :=
    form_of_parseFilter h
  have htail : (text.drop 19).length ≤ 6 ∧ ∀ b ∈ text.drop 19, IsTimeChar b := by
    rcases hsuffix with hnil | ⟨bias, hsuffix, -⟩
    · rw [hnil]
      exact ⟨Nat.zero_le _, by simp⟩
    · generalize text.drop 19 = suffix at hsuffix
      cases hsuffix with
      | utc => exact ⟨by simp, by simp [IsTimeChar]⟩
      | east h | west h =>
          exact ⟨Nat.succ_le_succ h.chars.1,
            List.forall_mem_cons.mpr ⟨.inr (by simp), h.chars.2⟩⟩
  generalize text.drop 19 = suffix at htail htext
  subst htext
  obtain ⟨hlen, hchars⟩ := htail
  constructor
  · simp only [List.length_append, List.length_cons, hy.length, hmo.length, hd.length, hhh.length,
      hmi.length, hs.length]
    omega
  · have hsep : ∀ b ∈ ([45, 84, 58] : Bytes), IsTimeChar b := by
      intro b hb
      refine .inr ?_
      simp only [List.mem_cons, List.not_mem_nil, or_false] at hb
      rcases hb with rfl | rfl | rfl <;> simp
    simp only [List.forall_mem_append, List.forall_mem_cons]
    exact ⟨hy.chars, hsep 45 (by simp), hmo.chars, hsep 45 (by simp), hd.chars, hsep 84 (by simp),
      hhh.chars, hsep 58 (by simp), hmi.chars, hsep 58 (by simp), hs.chars, hchars⟩

/-- The digits of a number with zeros in front. -/
theorem digits_padded {n v : ℕ} (hn : 0 < n) (hv : v < 10 ^ n) : Digits n (padded n v) v := by
  have hle : (formatD v).length ≤ n := by
    rw [formatD, ascii, List.length_map]
    exact (Nat.length_toDigits_le_iff (by omega) hn).mpr hv
  refine ⟨?_, ?_, ?_⟩
  · rw [padded, List.length_append, List.length_replicate]
    omega
  · intro c hc
    rcases List.mem_append.mp hc with hc | hc
    · rw [List.eq_of_mem_replicate hc]
      rfl
    · exact isdigit_of_mem_formatD hc
  · have hzero : ∀ k, (List.replicate k (48 : UInt8)).foldl
        (fun n b => 10 * n + (b.toNat - 48)) 0 = 0 := by
      intro k
      induction k with
      | zero => rfl
      | succ k ih => exact ih
    rw [digitsNat, padded, List.foldl_append, hzero]
    exact digitsNat_formatD v

/-- **A printed time is read back.** -/
theorem parseFilter_formatUtc {L : TimeLib} (hL : L.GmtimeInverts) {dt : TpbDatetime}
    (hdt : dt.Valid) {bits : UInt64} (hbits : tpbTsDatetimeToBits dt 0 = .ok bits) {outlen : ℕ}
    (hfit : 21 ≤ outlen) :
    ∃ text, tpbcliTaskTimeFormatUtc bits outlen = .ok text ∧
      tpbcliTaskTimeParseFilter L text = .ok bits := by
  obtain ⟨b, hb, hread⟩ := bitsToDatetime_of_datetimeToBits hdt (q := 0) (by omega) (by omega)
  rw [Int.mul_zero] at hb hread
  obtain rfl := Except.ok.inj (hb.symm.trans hbits)
  obtain ⟨hs, hmin, hh, hd, hm, -⟩ := hdt.bounds
  have hyear := hdt.le_year
  have y := digits_padded (n := 4) (v := dt.year) (by omega) (by omega)
  have mo := digits_padded (n := 2) (v := dt.month) (by omega) (by omega)
  have d := digits_padded (n := 2) (v := dt.day) (by omega) (by omega)
  have h := digits_padded (n := 2) (v := dt.hour) (by omega) (by omega)
  have mi := digits_padded (n := 2) (v := dt.min) (by omega) (by omega)
  have s := digits_padded (n := 2) (v := dt.sec) (by omega) (by omega)
  have htext : tpbTsBitsToIsoutc b = padded 4 dt.year ++ 45 :: (padded 2 dt.month ++
      45 :: (padded 2 dt.day ++ 84 :: (padded 2 dt.hour ++ 58 :: (padded 2 dt.min ++
        58 :: (padded 2 dt.sec ++ [90]))))) := by
    rw [tpbTsBitsToIsoutc, hread]
    simp only [List.append_assoc, List.cons_append]
  have hlen : (tpbTsBitsToIsoutc b).length = 20 := by
    rw [htext]
    simp only [List.length_append, List.length_cons, List.length_nil, y.length, mo.length,
      d.length, h.length, mi.length, s.length]
  have hdrop : (tpbTsBitsToIsoutc b).drop 19 = [90] := by
    have hcut : tpbTsBitsToIsoutc b = (padded 4 dt.year ++ 45 :: (padded 2 dt.month ++
        45 :: (padded 2 dt.day ++ 84 :: (padded 2 dt.hour ++ 58 :: (padded 2 dt.min ++
          58 :: padded 2 dt.sec))))) ++ [90] := by
      rw [htext]
      simp only [List.append_assoc, List.cons_append]
    rw [hcut]
    refine List.drop_left' ?_
    simp only [List.length_append, List.length_cons, y.length, mo.length, d.length, h.length,
      mi.length, s.length]
  refine ⟨tpbTsBitsToIsoutc b, ?_, ?_⟩
  · rw [tpbcliTaskTimeFormatUtc, if_neg (by omega), List.take_of_length_le (by omega)]
  · refine (tpbcliTaskTimeParseFilter_iff hL (by omega)).mpr ⟨dt, 0, ?_, ?_, hdt, dt, hdt, ?_, hb⟩
    · rw [hdrop]
      exact ⟨_, _, _, _, _, _, y, mo, d, h, mi, s, htext⟩
    · rw [hdrop]
      exact .utc
    · omega

/-- **Times of tasks.** Bits are read back with their time zone, bits in UTC are in the order of
time, a text with a suffix is accepted exactly where its form, its date and the moment that it means
allow it and has the bits of this moment, and printed bits in UTC are read back. -/
theorem taskTimes_spec {L : TimeLib} (hL : L.GmtimeInverts) :
    (∀ (dt : TpbDatetime) (q : ℤ), dt.Valid → -128 ≤ q → q ≤ 127 →
      ∃ bits, tpbTsDatetimeToBits dt (15 * q) = .ok bits ∧
        tpbTsBitsToDatetime bits = (dt, 15 * q)) ∧
    (∀ (dt du : TpbDatetime) (b c : UInt64), dt.Valid → du.Valid →
      tpbTsDatetimeToBits dt 0 = .ok b → tpbTsDatetimeToBits du 0 = .ok c →
        (b < c ↔ dt.moment.epoch < du.moment.epoch)) ∧
    (∀ (text : Bytes) (bits : UInt64), text.length ≠ 19 →
      (tpbcliTaskTimeParseFilter L text = .ok bits ↔
        ∃ dt bias, CivilText dt (text.drop 19) text ∧ SuffixText (text.drop 19) bias ∧ dt.Valid ∧
          ∃ du : TpbDatetime, du.Valid ∧ du.moment.epoch = dt.moment.epoch - bias * 60 ∧
            tpbTsDatetimeToBits du 0 = .ok bits)) ∧
    (∀ (dt : TpbDatetime) (bits : UInt64) (outlen : ℕ), dt.Valid →
      tpbTsDatetimeToBits dt 0 = .ok bits → 21 ≤ outlen →
        ∃ text, tpbcliTaskTimeFormatUtc bits outlen = .ok text ∧
          tpbcliTaskTimeParseFilter L text = .ok bits) := by
  refine ⟨?_, ?_, ?_, ?_⟩
  · intro dt q hdt hlo hhi
    exact bitsToDatetime_of_datetimeToBits hdt hlo hhi
  · intro dt du b c hdt hdu hb hc
    exact datetimeBits_lt_iff hdt hdu hb hc
  · intro text bits hlen
    exact tpbcliTaskTimeParseFilter_iff hL hlen
  · intro dt bits outlen hdt hbits hfit
    exact parseFilter_formatUtc hL hdt hbits hfit

/-- The C library of a machine in UTC. -/
def utcLib : TimeLib where
  gmtime n := some (tmOf (Moment.ofEpoch n))
  localtime n := some (tmOf (Moment.ofEpoch n))
  mktime t :=
    let m : Moment := ⟨⟨t.tmYear + 1900, (t.tmMon + 1).toNat, t.tmMday.toNat⟩, t.tmHour.toNat,
      t.tmMin.toNat, t.tmSec.toNat⟩
    (m.epoch, 0, tmOf (Moment.ofEpoch m.epoch))

theorem utcLib_gmtimeInverts : utcLib.GmtimeInverts := by
  intro t ht _ _
  obtain ⟨hvalid, hepoch⟩ := Moment.ofEpoch_spec t.epoch
  change some (tmOf (Moment.ofEpoch t.epoch)) = _
  rw [Moment.epoch_injective hvalid ht hepoch]

/-- An hour past the start of 1970, an hour east of UTC. -/
theorem offset_subtracted :
    tpbcliTaskTimeParseFilter utcLib (ascii "1970-01-01T01:00:00+01:00".toList) = .ok 4325376 := by
  obtain ⟨-, -, hparse, -⟩ := taskTimes_spec utcLib_gmtimeInverts
  have hvalid : ∀ h < 24, TpbDatetime.Valid ⟨1970, 1, 1, h, 0, 0⟩ := fun h hh =>
    ⟨⟨⟨le_rfl, Nat.succ_pos _, le_rfl, monthDays_pos _ _⟩, hh, Nat.succ_pos _, Nat.succ_pos _⟩,
      le_rfl, show 1970 ≤ 2225 by omega⟩
  refine (hparse _ _ (by simp [ascii])).mpr ⟨⟨1970, 1, 1, 1, 0, 0⟩, (60 : ℕ), ?_, .east ?_,
    hvalid 1 (by omega), ⟨1970, 1, 1, 0, 0, 0⟩, hvalid 0 (by omega), ?_, rfl⟩
  · exact ⟨[49, 57, 55, 48], [48, 49], [48, 49], [48, 49], [48, 48], [48, 48],
      ⟨rfl, by simp [isdigit], rfl⟩, ⟨rfl, by simp [isdigit], rfl⟩, ⟨rfl, by simp [isdigit], rfl⟩,
      ⟨rfl, by simp [isdigit], rfl⟩, ⟨rfl, by simp [isdigit], rfl⟩, ⟨rfl, by simp [isdigit], rfl⟩,
      rfl⟩
  · exact @OffsetText.colon [48, 49] [48, 48] 1 0 (.inr ⟨rfl, by simp [isdigit], rfl⟩) (by omega)
      ⟨rfl, by simp [isdigit], rfl⟩ (by omega)
  · simp only [TpbDatetime.moment, Moment.epoch]
    omega

/-- The last hour of 1969, two hours west of UTC, is refused: its moment has bits, but its year has
none. -/
theorem year_before_offset_refused :
    ∃ L dt bias text, L.GmtimeInverts ∧ CivilText dt (text.drop 19) text ∧
      SuffixText (text.drop 19) bias ∧ dt.moment.Valid ∧
      (∃ du : TpbDatetime, du.Valid ∧ du.moment.epoch = dt.moment.epoch - bias * 60) ∧
      ∀ bits, tpbcliTaskTimeParseFilter L text ≠ .ok bits := by
  have hcivil : CivilText ⟨1969, 12, 31, 23, 0, 0⟩
      ((ascii "1969-12-31T23:00:00-02:00".toList).drop 19)
      (ascii "1969-12-31T23:00:00-02:00".toList) :=
    ⟨[49, 57, 54, 57], [49, 50], [51, 49], [50, 51], [48, 48], [48, 48],
      ⟨rfl, by simp [isdigit], rfl⟩, ⟨rfl, by simp [isdigit], rfl⟩, ⟨rfl, by simp [isdigit], rfl⟩,
      ⟨rfl, by simp [isdigit], rfl⟩, ⟨rfl, by simp [isdigit], rfl⟩, ⟨rfl, by simp [isdigit], rfl⟩,
      rfl⟩
  refine ⟨utcLib, ⟨1969, 12, 31, 23, 0, 0⟩, -(120 : ℕ), ascii "1969-12-31T23:00:00-02:00".toList,
    utcLib_gmtimeInverts, hcivil, .west ?_, ?_, ⟨⟨1970, 1, 1, 1, 0, 0⟩, ?_, ?_⟩, ?_⟩
  · exact @OffsetText.colon [48, 50] [48, 48] 2 0 (.inr ⟨rfl, by simp [isdigit], rfl⟩) (by omega)
      ⟨rfl, by simp [isdigit], rfl⟩ (by omega)
  · exact ⟨⟨by simp [TpbDatetime.moment], le_rfl, by simp [TpbDatetime.moment], le_rfl⟩,
      by simp [TpbDatetime.moment], Nat.succ_pos _, Nat.succ_pos _⟩
  · exact ⟨⟨⟨le_rfl, Nat.succ_pos _, le_rfl, monthDays_pos _ _⟩, by simp [TpbDatetime.moment],
      Nat.succ_pos _, Nat.succ_pos _⟩, le_rfl, show 1970 ≤ 2225 by omega⟩
  · have hfirst : Date.number ⟨((1970 : ℕ) : ℤ), 1, 1⟩ = 0 := rfl
    have hlast : Date.number ⟨((1969 : ℕ) : ℤ), 12, 31⟩ = -1 := rfl
    simp only [TpbDatetime.moment, Moment.epoch, hfirst, hlast]
    omega
  · intro bits hparse
    obtain ⟨dt, bias, hcivil', -, hdt, -⟩ :=
      (tpbcliTaskTimeParseFilter_iff utcLib_gmtimeInverts (by simp [ascii])).mp hparse
    have hsame := (civilFields_iff.mpr hcivil).2.2.symm.trans (civilFields_iff.mpr hcivil').2.2
    have hyear := hdt.year_le
    rw [← Option.some.inj hsame] at hyear
    exact absurd hyear (show ¬1970 ≤ 1969 by omega)

end TPBench
