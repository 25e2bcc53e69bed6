import Logline.Outcome
import Logline.Proofs.Text.Digits
import Logline.Proofs.Time.Calendar
import Logline.Time.Rfc3339
/-!
Reading written timestamps.  The parts of a written timestamp are read one
after the other, each in front of any rest, and put together to the timestamp
that was written (`read?_render`).  The text has room for whole minutes of the
offset and for years of four digits, and a leap second is written as the second
60.
-/
namespace Logline

/-- The timestamp is one that RFC 3339 has a text for: its offset is in whole
minutes and less than a day, its local year has four digits, and it is a leap
second only after the second 59. -/
structure Timestamp.Writable (t : Timestamp) : Prop where
  minutes : t.offset % 60 = 0
  offset : t.offset.natAbs < 86400
  year : 0 ≤ t.date.year ∧ t.date.year ≤ 9999
  nanos : t.nanos < 2_000_000_000
  leap : 1_000_000_000 ≤ t.nanos → t.secondOfDay % 60 = 59

namespace Timestamp

theorem secondOfDay_lt (t : Timestamp) : t.secondOfDay < 86400 := by
  have hlt := Int.emod_lt_of_pos t.localSeconds
    (show (0 : Int) < secondsPerDay by decide)
  have hnonneg := Int.emod_nonneg t.localSeconds
    (show (secondsPerDay : Int) ≠ 0 by decide)
  rw [secondOfDay]
  simp only [secondsPerDay] at hlt hnonneg ⊢
  omega

/-- The instant from the local day and the clock. -/
theorem seconds_eq (t : Timestamp) :
    t.date.toDays * secondsPerDay +
      (t.hour * 3600 + t.minute * 60 + t.secondOfDay % 60 : Nat) - t.offset =
      t.seconds := by
  have hday : t.date.toDays = t.day := Date.toDays_ofDays t.day
  have hclock : t.hour * 3600 + t.minute * 60 + t.secondOfDay % 60 =
      t.secondOfDay := by
    rw [hour, minute]
    omega
  have hnonneg := Int.emod_nonneg t.localSeconds
    (show (secondsPerDay : Int) ≠ 0 by decide)
  have hsum := Int.mul_ediv_add_emod t.localSeconds secondsPerDay
  rw [hday, hclock, secondOfDay, Int.toNat_of_nonneg hnonneg, day,
    Int.mul_comm, hsum, localSeconds]
  omega

end Timestamp

namespace Rfc3339

theorem require_of_true {fault : Fault} {condition : Bool}
    (h : condition = true) :
    require fault condition = .ok () :=
  if_pos h

/-! ### Digits -/

theorem digit_digitChar {n : Nat} (hn : n < 10) (rest : Text) :
    digit (Nat.digitChar n :: rest) = .ok (n, rest) := by
  have hdigit : (Nat.digitChar n).isDigit = true := by
    rw [Nat.isDigit_digitChar]
    exact decide_eq_true hn
  have hvalue : (Nat.digitChar n).toNat - '0'.toNat = n :=
    Nat.toNat_digitChar_sub_48_of_lt_ten hn
  rw [digit, if_pos hdigit, hvalue]

theorem twoDigits_zeroPadded {n : Nat} (hn : n < 100) (rest : Text) :
    twoDigits (Text.zeroPadded 2 n ++ rest) = .ok (n, rest) := by
  have hsum : 10 * (n / 10) + n % 10 = n := Nat.div_add_mod n 10
  rw [Text.zeroPadded_two hn, List.cons_append, List.cons_append,
    List.nil_append, twoDigits, digit_digitChar (by omega), Except.ok_bind]
  dsimp only
  rw [digit_digitChar (by omega), Except.ok_bind, hsum]
  rfl

theorem offsetDigits_zeroPadded {n : Nat} (hn : n < 100) (rest : Text) :
    offsetDigits (Text.zeroPadded 2 n ++ rest) = .ok (n, rest) := by
  have hsize := Text.length_le_size (Text.zeroPadded 2 n ++ rest)
  rw [List.length_append, Text.length_zeroPadded (by decide) hn] at hsize
  rw [offsetDigits, if_neg (by omega), twoDigits_zeroPadded hn]

theorem oneOf_head (c : Char) (allowed rest : Text) :
    oneOf (c :: allowed) (c :: rest) = .ok rest := by
  rw [oneOf, if_pos (by simp)]

/-! ### Parts -/

theorem date_append {d : Date} (hvalid : d.isValid = true) {year : Nat}
    (hyear : d.year = year) (hlt : year < 10000) (rest : Text) :
    date (Text.zeroPadded 4 year ++ '-' :: (Text.zeroPadded 2 d.month ++ '-' ::
      (Text.zeroPadded 2 d.day ++ rest))) = .ok (d, rest) := by
  have hlast : d.month ≤ 12 ∧ d.day ≤ 31 := by
    simp only [Date.isValid, Bool.and_eq_true, decide_eq_true_eq] at hvalid
    have hmonth : Date.daysInMonth d.year d.month ≤ 31 := by
      rw [Date.daysInMonth]
      split_ifs <;> decide
    omega
  have hsum : 100 * (year / 100) + year % 100 = year := Nat.div_add_mod year 100
  rw [date, Text.zeroPadded_four, List.append_assoc,
    twoDigits_zeroPadded (by omega), Except.ok_bind]
  dsimp only
  rw [twoDigits_zeroPadded (by omega), Except.ok_bind]
  dsimp only
  rw [oneOf_head, Except.ok_bind, twoDigits_zeroPadded (by omega),
    Except.ok_bind]
  dsimp only
  rw [oneOf_head, Except.ok_bind, twoDigits_zeroPadded (by omega),
    Except.ok_bind]
  dsimp only
  rw [hsum, ← hyear, require_of_true hvalid, Except.ok_bind]
  rfl

theorem clock_append {hour minute second : Nat} (hhour : hour < 100)
    (hminute : minute < 100) (hsecond : second < 100) (rest : Text) :
    clock (Text.zeroPadded 2 hour ++ ':' :: (Text.zeroPadded 2 minute ++ ':' ::
      (Text.zeroPadded 2 second ++ rest))) =
        .ok ((hour, minute, second), rest) := by
  rw [clock, twoDigits_zeroPadded hhour, Except.ok_bind]
  dsimp only
  rw [oneOf_head, Except.ok_bind, twoDigits_zeroPadded hminute, Except.ok_bind]
  dsimp only
  rw [oneOf_head, Except.ok_bind, twoDigits_zeroPadded hsecond, Except.ok_bind]
  rfl

/-- The text does not go on with a fraction. -/
def EndsFraction (rest : Text) : Prop :=
  ∃ c more, rest = c :: more ∧ c.isDigit = false ∧ c ≠ '.'

theorem nanos_point {width n : Nat} (hwidth : 0 < width) (hn : n < 10 ^ width)
    (hnine : width ≤ 9) {rest : Text} (hrest : EndsFraction rest) :
    nanos ('.' :: (Text.zeroPadded width n ++ rest)) =
      .ok (n * 10 ^ (9 - width), rest) := by
  obtain ⟨c, more, rfl, hc, -⟩ := hrest
  have hdigits : ∀ d ∈ Text.zeroPadded width n, d.isDigit = true :=
    fun _ => Text.isDigit_of_mem_zeroPadded
  have hlength := Text.length_zeroPadded hwidth hn
  have htake : (Text.zeroPadded width n ++ c :: more).takeWhile Char.isDigit =
      Text.zeroPadded width n := by
    rw [List.takeWhile_append_of_pos hdigits,
      List.takeWhile_cons_of_neg (by simp [hc]), List.append_nil]
  have hdrop : (Text.zeroPadded width n ++ c :: more).dropWhile Char.isDigit =
      c :: more := by
    rw [List.dropWhile_append_of_pos hdigits,
      List.dropWhile_cons_of_neg (by simp [hc])]
  have hnonempty : (Text.zeroPadded width n).isEmpty = false := by
    cases hpadded : Text.zeroPadded width n with
    | nil =>
        rw [hpadded, List.length_nil] at hlength
        omega
    | cons => rfl
  have hkept : (Text.zeroPadded width n).take 9 = Text.zeroPadded width n :=
    List.take_of_length_le (by omega)
  rw [nanos]
  simp only [htake, hdrop, hnonempty, hkept, hlength,
    Text.digitsValue_zeroPadded, Bool.false_eq_true, if_false]
  rfl

theorem nanos_fraction (t : Timestamp) {rest : Text}
    (hrest : EndsFraction rest) :
    nanos (t.fraction ++ rest) = .ok (t.subsecond, rest) := by
  have hlt : t.subsecond < 1_000_000_000 := Nat.mod_lt _ (by decide)
  rw [Timestamp.fraction]
  generalize t.subsecond = n at hlt ⊢
  split_ifs with hzero hmillis hmicros
  · obtain ⟨c, more, rfl, -, hpoint⟩ := hrest
    rw [List.nil_append, nanos.eq_2, hzero]
    exact fun _ hcons => hpoint (List.cons.inj hcons).1
  · rw [List.cons_append, nanos_point (by decide) (by omega) (by decide) hrest]
    have hvalue : n / 1_000_000 * 10 ^ (9 - 3) = n := by omega
    rw [hvalue]
  · rw [List.cons_append, nanos_point (by decide) (by omega) (by decide) hrest]
    have hvalue : n / 1_000 * 10 ^ (9 - 6) = n := by omega
    rw [hvalue]
  · rw [List.cons_append, nanos_point (by decide) (by omega) (by decide) hrest]
    have hvalue : n * 10 ^ (9 - 9) = n := by omega
    rw [hvalue]

/-- An offset as it is written. -/
def zone (o : Int) : Text :=
  if o = 0 then ['Z'] else Offset.toMinutes [':'] o

theorem endsFraction_zone (o : Int) : EndsFraction (zone o) := by
  rw [zone]
  split_ifs
  · exact ⟨'Z', [], rfl, by decide, by decide⟩
  · refine ⟨Offset.sign o, _, rfl, ?_, ?_⟩ <;> rw [Offset.sign] <;>
      split_ifs <;> decide

theorem offset_signed {hours minutes : Nat} (hhours : hours < 24)
    (hminutes : minutes < 60) {sign : Char} (hsign : sign = '+' ∨ sign = '-') :
    offset
      (sign :: (Text.zeroPadded 2 hours ++ ':' :: Text.zeroPadded 2 minutes)) =
      .ok (if sign = '+' then (hours * 3600 + minutes * 60 : Nat)
        else -((hours * 3600 + minutes * 60 : Nat) : Int), []) := by
  have hzulu : ¬ (sign = 'Z' ∨ sign = 'z') := by
    rcases hsign with rfl | rfl <;> decide
  have hallowed : sign = '+' ∨ sign = '-' ∨ sign = '−' :=
    hsign.elim .inl fun h => .inr (.inl h)
  have hlast := offsetDigits_zeroPadded (n := minutes) (by omega) []
  rw [List.append_nil] at hlast
  rw [offset, if_neg hzulu, if_pos hallowed, offsetDigits_zeroPadded (by omega),
    Except.ok_bind]
  dsimp only
  rw [oneOf_head, Except.ok_bind, hlast, Except.ok_bind]
  dsimp only
  rw [require_of_true (decide_eq_true hminutes), Except.ok_bind]
  rfl

theorem offset_zone {o : Int} (hminutes : o % 60 = 0)
    (hday : o.natAbs < 86400) :
    offset (zone o) = .ok (o, []) := by
  rw [zone]
  split_ifs with hzero
  · rw [hzero]
    rfl
  · obtain ⟨minutes, hrounded, hexact⟩ : ∃ minutes,
        (o.natAbs + 30) / 60 = minutes ∧ o.natAbs = minutes * 60 :=
      ⟨_, rfl, by omega⟩
    have htext : Offset.toMinutes [':'] o = Offset.sign o ::
        (Text.zeroPadded 2 (minutes / 60) ++
          ':' :: Text.zeroPadded 2 (minutes % 60)) := by
      rw [Offset.toMinutes, hrounded, Offset.two, Offset.two]
      simp
    have hsign : Offset.sign o = '+' ∨ Offset.sign o = '-' := by
      rw [Offset.sign]
      split_ifs
      · exact .inr rfl
      · exact .inl rfl
    have hseconds : minutes / 60 * 3600 + minutes % 60 * 60 = o.natAbs := by
      omega
    have hvalue : (if Offset.sign o = '+' then (o.natAbs : Int)
        else -o.natAbs) = o := by
      rw [Offset.sign]
      by_cases hneg : o < 0
      · rw [if_pos hneg, if_neg (by decide)]
        omega
      · rw [if_neg hneg, if_pos rfl]
        omega
    rw [htext, offset_signed (by omega) (by omega) hsign, hseconds, hvalue]

/-! ### Timestamps -/

/-- The text of a timestamp, bracketed the way it is read. -/
theorem render_eq {t : Timestamp}
    (hyear : 0 ≤ t.date.year ∧ t.date.year ≤ 9999) :
    render t = Text.zeroPadded 4 t.date.year.toNat ++
      '-' :: (Text.zeroPadded 2 t.date.month ++
      '-' :: (Text.zeroPadded 2 t.date.day ++
        'T' :: (Text.zeroPadded 2 t.hour ++ ':' ::
        (Text.zeroPadded 2 t.minute ++ ':' :: (Text.zeroPadded 2 t.second ++
          (t.fraction ++ zone t.offset)))))) := by
  have hyearText : Padding.year .zeros t.date.year =
      Text.zeroPadded 4 t.date.year.toNat := by
    rw [Padding.year, if_pos hyear]
    rfl
  rw [render, hyearText, zone]
  simp only [Offset.two, List.append_assoc, List.cons_append]

theorem size_render {t : Timestamp}
    (hyear : 0 ≤ t.date.year ∧ t.date.year ≤ 9999) :
    19 ≤ Text.size (render t) := by
  have hsize := Text.length_le_size (render t)
  have hfour := Text.le_length_zeroPadded 4 t.date.year.toNat
  have htwo := Text.le_length_zeroPadded 2
  have hmonth := htwo t.date.month
  have hday := htwo t.date.day
  have hhour := htwo t.hour
  have hminute := htwo t.minute
  have hsecond := htwo t.second
  rw [render_eq hyear] at hsize ⊢
  refine Nat.le_trans ?_ hsize
  simp only [List.length_append, List.length_cons]
  omega

/-- The second and the nanoseconds, after a leap second has been told from the
others. -/
theorem second_cases {t : Timestamp} (h : t.Writable) :
    (t.second = t.secondOfDay % 60 ∧ t.second ≠ 60 ∧ t.subsecond = t.nanos) ∨
      (t.second = 60 ∧ t.secondOfDay % 60 = 59 ∧
        t.subsecond + 1_000_000_000 = t.nanos) := by
  have hnanos := h.nanos
  have hleap := h.leap
  rw [Timestamp.second, Timestamp.subsecond]
  by_cases hlt : t.nanos < 1_000_000_000
  · left
    omega
  · right
    omega

/-- A timestamp is read from its text. -/
theorem read?_render {t : Timestamp} (h : t.Writable) :
    read? (render t) = .ok t := by
  have hsecondOfDay := t.secondOfDay_lt
  have hyear : t.date.year = (t.date.year.toNat : Nat) :=
    (Int.toNat_of_nonneg h.year.1).symm
  have hlt : t.date.year.toNat < 10000 := by
    have hlast := h.year.2
    omega
  have hhour : t.hour < 24 := by
    rw [Timestamp.hour]
    omega
  have hminute : t.minute < 60 := by
    rw [Timestamp.minute]
    omega
  have hsecond : t.second ≤ 60 := by
    rcases second_cases h with ⟨hsame, -, -⟩ | ⟨hsixty, -, -⟩ <;> omega
  have hvalid : t.date.isValid = true := Date.isValid_ofDays t.day
  rw [read?, require_of_true (decide_eq_true (size_render h.year)),
    Except.ok_bind, render_eq h.year, date_append hvalid hyear hlt,
    Except.ok_bind]
  dsimp only
  rw [oneOf_head, Except.ok_bind, clock_append (by omega) (by omega) (by omega),
    Except.ok_bind]
  dsimp only
  rw [nanos_fraction t (endsFraction_zone _), Except.ok_bind]
  dsimp only
  rw [require_of_true (by simp [hhour, hminute, hsecond]), Except.ok_bind,
    offset_zone h.minutes h.offset, Except.ok_bind]
  dsimp only
  rw [require_of_true (List.isEmpty_nil), Except.ok_bind,
    require_of_true (decide_eq_true h.offset), Except.ok_bind]
  have hseconds := t.seconds_eq
  rcases second_cases h with ⟨hsame, hne, hnanos⟩ | ⟨hsixty, hlast, hnanos⟩
  · simp only [beq_eq_false_iff_ne.mpr hne, Bool.false_eq_true, if_false]
    rw [hsame, hseconds, hnanos]
    rfl
  · rw [hlast] at hseconds
    simp only [hsixty, beq_self_eq_true, if_true]
    rw [hseconds, hnanos]
    rfl

end Rfc3339

end Logline
