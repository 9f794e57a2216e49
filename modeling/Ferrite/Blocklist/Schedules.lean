import Ferrite.Blocklist.Profiles
import Ferrite.Core.AddrText
import Ferrite.Lib.Chunks

/-!
# When a schedule is on

The windows of `core/src/schedule.rs`, from their texts to the minutes of the week they cover.
Their times are read with the integer parser of the standard library, which takes a plus sign.

* `parseTime_eq_some_iff` — what is taken for a time;
* `isActive_iff` — a schedule is on exactly at the minutes its windows cover, past midnight and
  past the end of the week;
* `normalize_normalize`, `isActive_normalize` — a normal form is its own, and covers the same
  minutes;
* `schedules_kept_iff` — so schedules do what they say exactly where no time has a plus sign;
* `plus_sign_accepted` — one that has.
-/

namespace Ferrite.Blocklist

/-! ## Normal forms -/

/-- The key of a day in the calendar order of `normalize`: `u32::MAX` where it is none. -/
def dayKey (day : Text) : ℕ := (dayIndex day).getD (2 ^ 32 - 1)

/-- A day as `normalize` spells it. -/
def dayForm (day : Text) : Text := day.trim.toAsciiLowercase

/-- `ScheduleWindow::normalize`. -/
def ScheduleWindow.normalize (w : ScheduleWindow) : ScheduleWindow :=
  let days := (w.days.map dayForm).filter (· ≠ [])
  { days := (days.mergeSort fun a b => decide (dayKey a ≤ dayKey b)).destutter (· ≠ ·)
    fromTime := w.fromTime.trim
    toTime := w.toTime.trim }

/-! ## What windows say -/

/-- The value of some digits. -/
def digitsValue (ds : Text) : ℕ := Nat.ofDigitChars 10 ds 0

/-- The minute of a day; 24:00 is the end of it. -/
def TimeOfDay (hour minute total : ℕ) : Prop :=
  (hour < 24 ∧ minute < 60 ∨ hour = 24 ∧ minute = 0) ∧ total = hour * 60 + minute

/-- One or two characters for the hour, two for the minute, with a colon between them: the
signs, then digits, and together they are a time of day. -/
def Clock (hourSign minuteSign t : Text) (total : ℕ) : Prop :=
  ∃ h m : Text, t = (hourSign ++ h) ++ ':' :: (minuteSign ++ m) ∧ h ≠ [] ∧ m ≠ [] ∧
    (hourSign ++ h).length ≤ 2 ∧ (minuteSign ++ m).length = 2 ∧
    (∀ c ∈ h ++ m, c.isDigit = true) ∧ TimeOfDay (digitsValue h) (digitsValue m) total

/-- The text is a time: one or two digits, a colon and two digits. -/
def Names (t : Text) (total : ℕ) : Prop := Clock [] [] t total

/-- It is one, but for plus signs in front of the digits. -/
def NamesSigned (t : Text) (total : ℕ) : Prop :=
  ∃ hs ms, (hs = [] ∨ hs = ['+']) ∧ (ms = [] ∨ ms = ['+']) ∧ Clock hs ms t total

/-- The window is in order: its times are, with 24:00 only as an end, and its days are days. -/
structure WindowOk (names : Text → ℕ → Prop) (w : ScheduleWindow) : Prop where
  start : ∃ s, names w.fromTime s ∧ s < minutesPerDay
  stop : ∃ e, names w.toTime e
  days : ∀ d ∈ w.days, d ∈ Blocklist.days

/-- How long a window is. -/
def windowLength (start stop : ℕ) : ℕ :=
  if start < stop then stop - start else stop + minutesPerDay - start

/-- Around the week the window covers the minute: it starts on one of its days, every day if it
names none. -/
def CoversMinute (w : ScheduleWindow) (minute : ℕ) : Prop :=
  ∃ start stop, NamesSigned w.fromTime start ∧ NamesSigned w.toTime stop ∧
    ∃ day name, days[day]? = some name ∧ (w.days = [] ∨ name ∈ w.days) ∧
      ∃ k < windowLength start stop, (day * minutesPerDay + start + k) % minutesPerWeek = minute

/-! ## Times -/

theorem isDigit_of_decDigit {c : Char} (h : (decDigit c).isSome = true) : c.isDigit = true := by
  unfold decDigit at h
  split at h
  · next hdigit => exact Char.isDigit_iff_toNat.2 hdigit
  · cases h

/-- What `parse::<u8>` takes: digits, after a plus sign or not. -/
theorem parseU8_eq_some_iff {s : Text} {v : ℕ} : parseU8 s = some v ↔
    ∃ sign ds, (sign = [] ∨ sign = ['+']) ∧ s = sign ++ ds ∧ ds ≠ [] ∧
      (∀ c ∈ ds, c.isDigit = true) ∧ digitsValue ds < 256 ∧ v = digitsValue ds := by
  have hread : ∀ ds : Text, (readU8 10 decDigit ds).map UInt8.toNat = some v ↔
      (∀ c ∈ ds, c.isDigit = true) ∧ digitsValue ds < 256 ∧ v = digitsValue ds := by
    intro ds
    rw [Option.map_eq_some_iff]
    constructor
    · rintro ⟨b, hb, rfl⟩
      obtain ⟨hall, hvalue⟩ := (readU8_eq_some_iff (by omega)).1 hb
      have hdigits : ∀ c ∈ ds, c.isDigit = true := fun c hc => isDigit_of_decDigit (hall c hc)
      have hvalue : digitsValue ds = b.toNat := (Reader.foldl_decDigit hdigits).symm.trans hvalue
      exact ⟨hdigits, hvalue ▸ b.toNat_lt, hvalue.symm⟩
    · rintro ⟨hdigits, hlt, rfl⟩
      have hall : ∀ c ∈ ds, (decDigit c).isSome = true := by
        intro c hc
        rw [Reader.decDigit_of_isDigit (hdigits c hc)]
        rfl
      have hback := UInt8.toNat_ofNat_of_lt' hlt
      exact ⟨_, (readU8_eq_some_iff (by omega)).2
        ⟨hall, (Reader.foldl_decDigit hdigits).trans hback.symm⟩, hback⟩
  unfold parseU8
  by_cases hplus : s.head? = some '+'
  · obtain ⟨ds, rfl⟩ := List.head?_eq_some_iff.1 hplus
    rw [if_pos hplus]
    dsimp only [List.tail_cons]
    constructor
    · intro h
      split at h
      · cases h
      · next hne => exact ⟨['+'], ds, Or.inr rfl, rfl, hne, (hread ds).1 h⟩
    · rintro ⟨sign, ds', hsign, hs, hne, hdigits, hlt, rfl⟩
      rcases hsign with rfl | rfl
      · -- a plus sign is no digit
        have hds : '+' :: ds = ds' := hs
        have hbad := hdigits '+' (hds ▸ List.mem_cons_self ..)
        cases hbad
      · obtain rfl : ds = ds' := (List.cons.inj hs).2
        rw [if_neg hne]
        exact (hread ds).2 ⟨hdigits, hlt, rfl⟩
  · rw [if_neg hplus]
    dsimp only
    constructor
    · intro h
      split at h
      · cases h
      · next hne => exact ⟨[], s, Or.inl rfl, rfl, hne, (hread s).1 h⟩
    · rintro ⟨sign, ds, hsign, rfl, hne, hdigits, hlt, rfl⟩
      rcases hsign with rfl | rfl
      · rw [List.nil_append, if_neg hne]
        exact (hread ds).2 ⟨hdigits, hlt, rfl⟩
      · exact absurd rfl hplus

/-- Digits and signs are ASCII. -/
theorem byteLen_signed {sign ds : Text} (hsign : sign = [] ∨ sign = ['+'])
    (hdigits : ∀ c ∈ ds, c.isDigit = true) : Text.byteLen (sign ++ ds) = (sign ++ ds).length := by
  refine Text.byteLen_of_ascii fun c hc => ?_
  rcases List.mem_append.1 hc with hc | hc
  · rcases hsign with rfl | rfl
    · cases hc
    · rw [List.mem_singleton.1 hc]
      decide
  · have hle : c.toNat ≤ '9'.toNat := (Char.isDigit_iff_toNat.1 (hdigits c hc)).2
    exact Nat.lt_of_le_of_lt hle (by decide)

/-- A colon is neither a digit nor a sign. -/
theorem colon_notMem_signed {sign ds : Text} (hsign : sign = [] ∨ sign = ['+'])
    (hdigits : ∀ c ∈ ds, c.isDigit = true) : ':' ∉ sign ++ ds := by
  intro hc
  rcases List.mem_append.1 hc with hc | hc
  · rcases hsign with rfl | rfl
    · cases hc
    · exact absurd (List.mem_singleton.1 hc) (by decide)
  · exact absurd (hdigits ':' hc) (by decide)

/-- **What is taken for a time.** -/
theorem parseTime_eq_some_iff {t : Text} {total : ℕ} :
    parseTime t = some total ↔ NamesSigned t total := by
  constructor
  · intro h
    obtain ⟨⟨h', m'⟩, hsplit, hfields⟩ := Option.bind_eq_some_iff.1 h
    obtain ⟨rfl, -⟩ := Text.splitOnce_eq_some_iff.1 hsplit
    dsimp only at hfields
    split at hfields
    · cases hfields
    next hlen =>
    obtain ⟨hour, hhour, hfields⟩ := Option.bind_eq_some_iff.1 hfields
    obtain ⟨minute, hminute, htime⟩ := Option.bind_eq_some_iff.1 hfields
    obtain ⟨hs, hds, hsign, rfl, hhne, hhd, -, rfl⟩ := parseU8_eq_some_iff.1 hhour
    obtain ⟨ms, mds, msign, rfl, hmne, hmd, -, rfl⟩ := parseU8_eq_some_iff.1 hminute
    rw [byteLen_signed hsign hhd, byteLen_signed msign hmd] at hlen
    refine ⟨hs, ms, hsign, msign, hds, mds, rfl, hhne, hmne, by omega, by omega, ?_, ?_⟩
    · intro c hc
      rcases List.mem_append.1 hc with hc | hc
      · exact hhd c hc
      · exact hmd c hc
    · split at htime
      · next heq =>
        obtain rfl := Option.some.inj htime
        exact ⟨Or.inr heq, by rw [heq.1, heq.2]; rfl⟩
      · split at htime
        · next hle =>
          obtain rfl := Option.some.inj htime
          exact ⟨Or.inl (by omega), rfl⟩
        · cases htime
  · rintro ⟨hs, ms, hsign, msign, hds, mds, rfl, hhne, hmne, hhlen, hmlen, hdigits, htime, rfl⟩
    have hhd : ∀ c ∈ hds, c.isDigit = true := fun c hc => hdigits c (List.mem_append_left _ hc)
    have hmd : ∀ c ∈ mds, c.isDigit = true := fun c hc => hdigits c (List.mem_append_right _ hc)
    have hhour : parseU8 (hs ++ hds) = some (digitsValue hds) :=
      parseU8_eq_some_iff.2 ⟨hs, hds, hsign, rfl, hhne, hhd, by omega, rfl⟩
    have hminute : parseU8 (ms ++ mds) = some (digitsValue mds) :=
      parseU8_eq_some_iff.2 ⟨ms, mds, msign, rfl, hmne, hmd, by omega, rfl⟩
    have hshape : ¬ (hs ++ hds = [] ∨ 2 < (hs ++ hds).length ∨ (ms ++ mds).length ≠ 2) := by
      rintro (hnil | hlong | hlen)
      · exact hhne (List.append_eq_nil_iff.1 hnil).2
      · omega
      · exact hlen hmlen
    unfold parseTime
    rw [Text.splitOnce_append (colon_notMem_signed hsign hhd), Option.bind_eq_bind,
      Option.bind_some]
    dsimp only
    rw [byteLen_signed hsign hhd, byteLen_signed msign hmd, if_neg hshape, hhour, hminute,
      Option.bind_eq_bind, Option.bind_some, Option.bind_some]
    rcases htime with ⟨hh, hm⟩ | ⟨hh, hm⟩
    · rw [if_neg (by omega), if_pos (by omega)]
    · rw [if_pos ⟨hh, hm⟩, hh, hm]
      rfl

theorem parseTime_le {t : Text} {total : ℕ} (h : parseTime t = some total) :
    total ≤ minutesPerDay := by
  obtain ⟨hs, ms, -, -, hds, mds, -, -, -, -, -, -, htime, rfl⟩ := parseTime_eq_some_iff.1 h
  unfold minutesPerDay
  omega

/-! ## Windows -/

theorem dayIndex_eq_some_iff {day : Text} {i : ℕ} : dayIndex day = some i ↔ days[i]? = some day := by
  have hnodup : days.Nodup := by decide
  unfold dayIndex
  constructor
  · intro h
    obtain ⟨hi, hday, -⟩ := List.findIdx?_eq_some_iff_getElem.1 h
    rw [List.getElem?_eq_getElem hi]
    exact congrArg some (eq_of_beq hday)
  · intro h
    obtain ⟨hi, hday⟩ := List.getElem?_eq_some_iff.1 h
    have hsome : (days.findIdx? (· == day)).isSome = true := by
      rw [List.findIdx?_isSome, List.any_eq_true]
      exact ⟨day, hday ▸ List.getElem_mem hi, beq_self_eq_true day⟩
    obtain ⟨j, hj⟩ := Option.isSome_iff_exists.1 hsome
    obtain ⟨hj', hday', -⟩ := List.findIdx?_eq_some_iff_getElem.1 hj
    have hsame : days[j]? = days[i]? := by
      rw [h, List.getElem?_eq_getElem hj']
      exact congrArg some (eq_of_beq hday')
    rw [hj, (List.getElem?_inj hj' hnodup).1 hsame]

/-- The days a window starts on, by their place in the week. -/
def DayIndices (w : ScheduleWindow) (indices : List ℕ) : Prop :=
  if w.days = [] then indices = List.range 7
  else List.Forall₂ (fun d i => days[i]? = some d) w.days indices

/-- **What is compiled from a window.** -/
theorem spans_eq_ok_iff {w : ScheduleWindow} {rows : List (ℕ × ℕ)} : w.spans = .ok rows ↔
    ∃ start stop indices, parseTime w.fromTime = some start ∧ start < minutesPerDay ∧
      parseTime w.toTime = some stop ∧ DayIndices w indices ∧
      rows = indices.map fun d => (d * minutesPerDay + start, windowLength start stop) := by
  have hindices : ∀ {indices : List ℕ}, (if w.days = [] then Except.ok (List.range 7)
      else w.days.mapM fun d =>
        (dayIndex d).elim (.error ("'".toList ++ d ++ "' is not a day (mon…sun)".toList)) .ok) =
      .ok indices ↔ DayIndices w indices := by
    intro indices
    unfold DayIndices
    split
    · exact ⟨fun h => (Except.ok.inj h).symm, fun h => congrArg Except.ok h.symm⟩
    · rw [mapM_eq_ok_iff]
      have hday : ∀ d i, (dayIndex d).elim
          (.error ("'".toList ++ d ++ "' is not a day (mon…sun)".toList)) .ok =
          (.ok i : Except Text ℕ) ↔ days[i]? = some d := by
        intro d i
        rw [← dayIndex_eq_some_iff]
        cases dayIndex d with
        | none => exact ⟨nofun, nofun⟩
        | some j => exact ⟨fun h => congrArg some (Except.ok.inj h), fun h =>
            congrArg Except.ok (Option.some.inj h)⟩
      simp only [hday]
  unfold ScheduleWindow.spans
  cases hfrom : (parseTime w.fromTime).filter (· < minutesPerDay) with
  | none =>
    constructor
    · nofun
    · rintro ⟨start, stop, indices, hstart, hlt, -⟩
      rw [hstart, Option.filter_some, if_pos (decide_eq_true hlt)] at hfrom
      cases hfrom
  | some start =>
    obtain ⟨hstart, hlt⟩ := Option.filter_eq_some_iff.1 hfrom
    have hlt := of_decide_eq_true hlt
    dsimp only
    cases hto : parseTime w.toTime with
    | none =>
      constructor
      · nofun
      · rintro ⟨start', stop, indices, -, -, hstop, -⟩
        cases hstop
    | some stop =>
      have hlen : (if start < stop then stop - start
          else if stop < start then minutesPerDay - start + stop else minutesPerDay) =
          windowLength start stop := by
        unfold windowLength
        split_ifs <;> omega
      dsimp only
      rw [hlen, map_eq_ok_iff]
      constructor
      · rintro ⟨indices, h, rfl⟩
        exact ⟨start, stop, indices, hstart, hlt, rfl, hindices.1 h, rfl⟩
      · rintro ⟨start', stop', indices, hstart', -, hstop', h, rfl⟩
        rw [hstart] at hstart'
        cases hstart'
        cases hstop'
        exact ⟨indices, hindices.2 h, rfl⟩

theorem mem_dayIndices {w : ScheduleWindow} {indices : List ℕ} (h : DayIndices w indices) {i : ℕ} :
    i ∈ indices ↔ ∃ name, days[i]? = some name ∧ (w.days = [] ∨ name ∈ w.days) := by
  unfold DayIndices at h
  split at h
  · next hnil =>
    have hlen : days.length = 7 := by decide
    rw [h, List.mem_range, ← hlen]
    constructor
    · intro hi
      exact ⟨days[i], List.getElem?_eq_getElem hi, Or.inl hnil⟩
    · rintro ⟨name, hname, -⟩
      exact (List.getElem?_eq_some_iff.1 hname).1
  · next hne =>
    constructor
    · intro hi
      obtain ⟨d, hd, hday⟩ := forall₂_mem_right h hi
      exact ⟨d, hday, Or.inr hd⟩
    · rintro ⟨name, hname, hd⟩
      obtain ⟨j, hj, hday⟩ := forall₂_mem_left h (hd.resolve_left hne)
      have hi := dayIndex_eq_some_iff.2 hname
      rw [dayIndex_eq_some_iff.2 hday] at hi
      exact Option.some.inj hi ▸ hj

/-- A window starts on some day. -/
theorem dayIndices_ne_nil {w : ScheduleWindow} {indices : List ℕ} (h : DayIndices w indices) :
    indices ≠ [] := by
  unfold DayIndices at h
  split at h
  · rw [h]
    decide
  · next hne =>
    rintro rfl
    exact hne (List.forall₂_nil_right_iff.1 h)

/-- There is a list of days exactly if all of them are days. -/
theorem exists_dayIndices_iff {w : ScheduleWindow} :
    (∃ indices, DayIndices w indices) ↔ ∀ d ∈ w.days, d ∈ days := by
  unfold DayIndices
  split
  · next hnil =>
    refine ⟨fun _ d hd => ?_, fun _ => ⟨_, rfl⟩⟩
    rw [hnil] at hd
    cases hd
  · constructor
    · rintro ⟨indices, h⟩ d hd
      obtain ⟨i, -, hday⟩ := forall₂_mem_left h hd
      exact List.mem_of_getElem? hday
    · intro h
      refine exists_forall₂ fun d hd => ?_
      obtain ⟨i, hi⟩ := List.mem_iff_getElem?.1 (h d hd)
      exact ⟨i, hi⟩

/-- A span around the week. -/
theorem in_span_iff {minute start len : ℕ} (hminute : minute < minutesPerWeek)
    (hstart : start < minutesPerWeek) (hlen : len ≤ minutesPerDay) :
    (minute + minutesPerWeek - start) % minutesPerWeek < len ↔
      ∃ k < len, (start + k) % minutesPerWeek = minute := by
  unfold minutesPerWeek minutesPerDay at *
  constructor
  · intro h
    exact ⟨_, h, by omega⟩
  · rintro ⟨k, hk, rfl⟩
    omega

/-- **The spans of a window cover the minutes that it covers.** -/
theorem coversMinute_iff {w : ScheduleWindow} {rows : List (ℕ × ℕ)} (h : w.spans = .ok rows)
    {minute : ℕ} (hminute : minute < minutesPerWeek) :
    (∃ row ∈ rows, (minute + minutesPerWeek - row.1) % minutesPerWeek < row.2) ↔
      CoversMinute w minute := by
  obtain ⟨start, stop, indices, hstart, hlt, hstop, hindices, rfl⟩ := spans_eq_ok_iff.1 h
  have hspan : ∀ {day name}, days[day]? = some name →
      ((minute + minutesPerWeek - (day * minutesPerDay + start)) % minutesPerWeek <
        windowLength start stop ↔ ∃ k < windowLength start stop,
          (day * minutesPerDay + start + k) % minutesPerWeek = minute) := by
    intro day name hday
    have hseven : day < days.length := (List.getElem?_eq_some_iff.1 hday).1
    have hlen : days.length = 7 := by decide
    have hstop' := parseTime_le hstop
    refine in_span_iff hminute ?_ ?_
    · unfold minutesPerWeek minutesPerDay at *
      omega
    · unfold windowLength
      split <;> omega
  constructor
  · rintro ⟨row, hrow, hin⟩
    obtain ⟨day, hday, rfl⟩ := List.mem_map.1 hrow
    obtain ⟨name, hname, hd⟩ := (mem_dayIndices hindices).1 hday
    exact ⟨start, stop, parseTime_eq_some_iff.1 hstart, parseTime_eq_some_iff.1 hstop, day, name,
      hname, hd, (hspan hname).1 hin⟩
  · rintro ⟨start', stop', hstart', hstop', day, name, hname, hd, hin⟩
    rw [← parseTime_eq_some_iff] at hstart' hstop'
    obtain rfl : start = start' := Option.some.inj (hstart.symm.trans hstart')
    obtain rfl : stop = stop' := Option.some.inj (hstop.symm.trans hstop')
    refine ⟨_, List.mem_map.2 ⟨day, (mem_dayIndices hindices).2 ⟨name, hname, hd⟩, rfl⟩, ?_⟩
    exact (hspan hname).2 hin

/-! ## Schedules -/

/-- What is compiled from the windows. -/
theorem compile_eq_ok_iff {windows : List ScheduleWindow} {s : Schedule} :
    Schedule.compile windows = .ok s ↔
      ∃ rows, List.Forall₂ (fun (w : ScheduleWindow) r => w.spans = .ok r) windows rows ∧
        s = ⟨rows.flatten⟩ := by
  have hwindow : ∀ (p : ScheduleWindow × ℕ) (r : List (ℕ × ℕ)), (p.1.spans.mapError fun e =>
      "time window ".toList ++ decimal (p.2 + 1) ++ ": ".toList ++ e) = .ok r ↔
      p.1.spans = .ok r := by
    intro p r
    cases p.1.spans with
    | error e => exact ⟨nofun, nofun⟩
    | ok rows => exact Iff.rfl
  unfold Schedule.compile
  rw [map_eq_ok_iff]
  refine exists_congr fun rows => and_congr ?_ eq_comm
  rw [mapM_eq_ok_iff]
  simp only [hwindow]
  conv_rhs => rw [← List.zipIdx_map_fst 0 windows]
  exact (List.forall₂_map_left_iff
    (R := fun (w : ScheduleWindow) r => w.spans = .ok r) (f := Prod.fst)).symm

/-- **When windows are taken.** -/
theorem exists_compile_iff {windows : List ScheduleWindow} :
    (∃ s, Schedule.compile windows = .ok s) ↔ ∀ w ∈ windows, WindowOk NamesSigned w := by
  have hwindow : ∀ w : ScheduleWindow, (∃ rows, w.spans = .ok rows) ↔ WindowOk NamesSigned w := by
    intro w
    constructor
    · rintro ⟨rows, h⟩
      obtain ⟨start, stop, indices, hstart, hlt, hstop, hindices, -⟩ := spans_eq_ok_iff.1 h
      exact ⟨⟨start, parseTime_eq_some_iff.1 hstart, hlt⟩, ⟨stop, parseTime_eq_some_iff.1 hstop⟩,
        exists_dayIndices_iff.1 ⟨indices, hindices⟩⟩
    · rintro ⟨⟨start, hstart, hlt⟩, ⟨stop, hstop⟩, hdays⟩
      obtain ⟨indices, hindices⟩ := exists_dayIndices_iff.2 hdays
      exact ⟨_, spans_eq_ok_iff.2 ⟨start, stop, indices, parseTime_eq_some_iff.2 hstart, hlt,
        parseTime_eq_some_iff.2 hstop, hindices, rfl⟩⟩
  constructor
  · rintro ⟨s, h⟩ w hw
    obtain ⟨rows, hrows, -⟩ := compile_eq_ok_iff.1 h
    obtain ⟨r, -, hr⟩ := forall₂_mem_left hrows hw
    exact (hwindow w).1 ⟨r, hr⟩
  · intro h
    obtain ⟨rows, hrows⟩ := exists_forall₂ fun w hw => (hwindow w).2 (h w hw)
    exact ⟨_, compile_eq_ok_iff.2 ⟨rows, hrows, rfl⟩⟩

/-- **A schedule is on exactly when its windows say.** -/
theorem isActive_iff {windows : List ScheduleWindow} {s : Schedule}
    (h : Schedule.compile windows = .ok s) {minute : ℕ} (hminute : minute < minutesPerWeek) :
    s.isActive minute = true ↔ windows = [] ∨ ∃ w ∈ windows, CoversMinute w minute := by
  obtain ⟨rows, hrows, rfl⟩ := compile_eq_ok_iff.1 h
  have hempty : rows.flatten = [] ↔ windows = [] := by
    constructor
    · intro hflat
      cases hrows with
      | nil => rfl
      | cons hr _ =>
        obtain ⟨start, stop, indices, -, -, -, hindices, rfl⟩ := spans_eq_ok_iff.1 hr
        have hnil := (List.append_eq_nil_iff.1 (List.flatten_cons ▸ hflat)).1
        exact absurd (List.map_eq_nil_iff.1 hnil) (dayIndices_ne_nil hindices)
    · rintro rfl
      rw [List.forall₂_nil_left_iff.1 hrows]
      rfl
  unfold Schedule.isActive
  rw [Bool.or_eq_true, List.isEmpty_iff, hempty, List.any_eq_true]
  refine or_congr_right ?_
  constructor
  · rintro ⟨row, hrow, hin⟩
    obtain ⟨r, hr, hrow⟩ := List.mem_flatten.1 hrow
    obtain ⟨w, hw, hspans⟩ := forall₂_mem_right hrows hr
    exact ⟨w, hw, (coversMinute_iff hspans hminute).1 ⟨row, hrow, of_decide_eq_true hin⟩⟩
  · rintro ⟨w, hw, hcovers⟩
    obtain ⟨r, hr, hspans⟩ := forall₂_mem_left hrows hw
    obtain ⟨row, hrow, hin⟩ := (coversMinute_iff hspans hminute).2 hcovers
    exact ⟨row, List.mem_flatten.2 ⟨r, hr, hrow⟩, decide_eq_true hin⟩

/-! ## Normal forms are kept -/

theorem dayForm_dayForm (d : Text) : dayForm (dayForm d) = dayForm d := by
  unfold dayForm
  rw [Text.trim_toAsciiLowercase, Text.trim_trim, Text.toAsciiLowercase_toAsciiLowercase]

/-- The days of a normal form, out of order. -/
theorem mem_normalize_days {w : ScheduleWindow} {d : Text} :
    d ∈ w.normalize.days ↔ d ≠ [] ∧ ∃ d' ∈ w.days, dayForm d' = d := by
  have hdedup : ∀ l : List Text, d ∈ l.destutter (· ≠ ·) ↔ d ∈ l := by
    intro l
    constructor
    · exact fun h => (List.destutter_sublist _ l).subset h
    · intro h
      obtain ⟨d', hd', heq⟩ := Chunks.exists_mem_destutter id h
      exact (show d' = d from heq) ▸ hd'
  unfold ScheduleWindow.normalize
  dsimp only
  rw [hdedup, List.mem_mergeSort, List.mem_filter, List.mem_map, and_comm]
  exact and_congr_left' decide_eq_true_iff

/-- They are in the order of the calendar. -/
theorem pairwise_normalize_days (w : ScheduleWindow) :
    w.normalize.days.Pairwise fun a b => decide (dayKey a ≤ dayKey b) = true := by
  refine List.Pairwise.sublist (List.destutter_sublist _ _) (List.pairwise_mergeSort ?_ ?_ _)
  · intro a b c hab hbc
    exact decide_eq_true ((of_decide_eq_true hab).trans (of_decide_eq_true hbc))
  · intro a b
    simpa using le_total (dayKey a) (dayKey b)

/-- **A normal form is its own.** -/
theorem normalize_normalize (w : ScheduleWindow) : w.normalize.normalize = w.normalize := by
  have hforms : w.normalize.days.map dayForm = w.normalize.days := by
    refine (List.map_congr_left fun d hd => ?_).trans (List.map_id _)
    obtain ⟨-, d', -, rfl⟩ := mem_normalize_days.1 hd
    exact dayForm_dayForm d'
  have hne : w.normalize.days.filter (· ≠ []) = w.normalize.days := by
    refine List.filter_eq_self.2 fun d hd => ?_
    exact decide_eq_true (mem_normalize_days.1 hd).1
  have hdays : w.normalize.normalize.days = w.normalize.days := by
    show (((w.normalize.days.map dayForm).filter (· ≠ [])).mergeSort
      fun a b => decide (dayKey a ≤ dayKey b)).destutter (· ≠ ·) = w.normalize.days
    rw [hforms, hne, List.mergeSort_of_pairwise (pairwise_normalize_days w)]
    exact List.destutter_idem _ _
  have hfrom : w.normalize.normalize.fromTime = w.normalize.fromTime := Text.trim_trim _
  have hto : w.normalize.normalize.toTime = w.normalize.toTime := Text.trim_trim _
  calc w.normalize.normalize
      = ⟨w.normalize.normalize.days, w.normalize.normalize.fromTime,
          w.normalize.normalize.toTime⟩ := rfl
    _ = ⟨w.normalize.days, w.normalize.fromTime, w.normalize.toTime⟩ := by rw [hdays, hfrom, hto]
    _ = w.normalize := rfl

/-- A time has no blanks. -/
theorem trim_of_namesSigned {t : Text} {total : ℕ} (h : NamesSigned t total) : t.trim = t := by
  obtain ⟨hs, ms, hsign, msign, hds, mds, rfl, -, -, -, -, hdigits, -⟩ := h
  have hsigns : ∀ sign : Text, sign = [] ∨ sign = ['+'] → ∀ c ∈ sign, c = '+' := by
    rintro sign (rfl | rfl) c hc
    · cases hc
    · exact List.mem_singleton.1 hc
  have hplain : ∀ c : Char, 43 ≤ c.toNat ∧ c.toNat ≤ 58 → isWhitespace c = false := by
    intro c hc
    rw [← Bool.not_eq_true]
    intro h
    simp only [isWhitespace, Bool.or_eq_true, Bool.and_eq_true, decide_eq_true_eq,
      beq_iff_eq] at h
    omega
  have hdigit : ∀ c ∈ hds ++ mds, isWhitespace c = false := by
    intro c hc
    obtain ⟨hlo, hhi⟩ := Char.isDigit_iff_toNat.1 (hdigits c hc)
    have hlo' : 48 ≤ c.toNat := hlo
    have hhi' : c.toNat ≤ 57 := hhi
    exact hplain c (by omega)
  refine Text.trim_of_forall fun c hc => ?_
  simp only [List.mem_append, List.mem_cons] at hc
  rcases hc with (hc | hc) | rfl | hc | hc
  · rw [hsigns hs hsign c hc]
    decide
  · exact hdigit c (List.mem_append_left _ hc)
  · decide
  · rw [hsigns ms msign c hc]
    decide
  · exact hdigit c (List.mem_append_right _ hc)

/-- Of a window that is taken only the order of its days is changed. -/
structure SameWindow (w w' : ScheduleWindow) : Prop where
  fromTime : w'.fromTime = w.fromTime
  toTime : w'.toTime = w.toTime
  days : ∀ d, d ∈ w'.days ↔ d ∈ w.days

theorem normalize_of_windowOk {w : ScheduleWindow} (h : WindowOk NamesSigned w) :
    SameWindow w w.normalize := by
  obtain ⟨⟨start, hstart, -⟩, ⟨stop, hstop⟩, hdays⟩ := h
  refine ⟨trim_of_namesSigned hstart, trim_of_namesSigned hstop, fun d => ?_⟩
  have hform : ∀ d ∈ days, dayForm d = d ∧ d ≠ [] := by decide
  rw [mem_normalize_days]
  constructor
  · rintro ⟨-, d', hd', rfl⟩
    rw [(hform d' (hdays d' hd')).1]
    exact hd'
  · intro hd
    exact ⟨(hform d (hdays d hd)).2, d, hd, (hform d (hdays d hd)).1⟩

theorem SameWindow.windowOk {w w' : ScheduleWindow} (h : SameWindow w w')
    (hok : WindowOk NamesSigned w) : WindowOk NamesSigned w' := by
  obtain ⟨hstart, hstop, hdays⟩ := hok
  exact ⟨h.fromTime ▸ hstart, h.toTime ▸ hstop, fun d hd => hdays d ((h.days d).1 hd)⟩

theorem SameWindow.coversMinute_iff {w w' : ScheduleWindow} (h : SameWindow w w') (minute : ℕ) :
    CoversMinute w' minute ↔ CoversMinute w minute := by
  have hnil : w'.days = [] ↔ w.days = [] := by
    simp only [List.eq_nil_iff_forall_not_mem, h.days]
  unfold CoversMinute
  rw [h.fromTime, h.toTime]
  simp only [hnil, h.days]

/-- **A normal form covers the minutes that the window does.** -/
theorem isActive_normalize {w : ScheduleWindow} {s : Schedule}
    (h : Schedule.compile [w] = .ok s) :
    ∃ s', Schedule.compile [w.normalize] = .ok s' ∧
      ∀ minute < minutesPerWeek, s'.isActive minute = s.isActive minute := by
  have hok : WindowOk NamesSigned w := exists_compile_iff.1 ⟨s, h⟩ w (List.mem_singleton.2 rfl)
  have hsame := normalize_of_windowOk hok
  have hbuilt : ∃ s', Schedule.compile [w.normalize] = .ok s' := by
    refine exists_compile_iff.2 fun w' hw' => ?_
    rw [List.mem_singleton.1 hw']
    exact hsame.windowOk hok
  obtain ⟨s', h'⟩ := hbuilt
  refine ⟨s', h', fun minute hminute => ?_⟩
  rw [Bool.eq_iff_iff, isActive_iff h' hminute, isActive_iff h hminute]
  simp only [List.cons_ne_nil, false_or, List.mem_singleton, exists_eq_left]
  exact hsame.coversMinute_iff minute

/-! ## Schedules do what they say -/

/-- What schedules are said to do: windows are taken exactly if their times are times and their
days are days, a schedule is on exactly when they cover the minute, and a normal form is its own
and says the same. -/
structure SchedulesKept (windows : List ScheduleWindow) : Prop where
  taken : (∃ s, Schedule.compile windows = .ok s) ↔ ∀ w ∈ windows, WindowOk Names w
  active : ∀ s, Schedule.compile windows = .ok s → ∀ minute < minutesPerWeek,
    (s.isActive minute = true ↔ windows = [] ∨ ∃ w ∈ windows, CoversMinute w minute)
  normal : ∀ w ∈ windows, w.normalize.normalize = w.normalize ∧
    ∀ s, Schedule.compile [w] = .ok s → ∃ s', Schedule.compile [w.normalize] = .ok s' ∧
      ∀ minute < minutesPerWeek, s'.isActive minute = s.isActive minute

/-- The window has no plus sign in its times. -/
def Unsigned (w : ScheduleWindow) : Prop := '+' ∉ w.fromTime ∧ '+' ∉ w.toTime

instance (w : ScheduleWindow) : Decidable (Unsigned w) := inferInstanceAs (Decidable (_ ∧ _))

theorem names_iff {t : Text} {total : ℕ} : Names t total ↔ NamesSigned t total ∧ '+' ∉ t := by
  constructor
  · intro h
    refine ⟨⟨[], [], Or.inl rfl, Or.inl rfl, h⟩, ?_⟩
    obtain ⟨hds, mds, rfl, -, -, -, -, hdigits, -⟩ := h
    have hno : '+' ∉ hds ++ mds := fun hc => absurd (hdigits '+' hc) (by decide)
    simpa using hno
  · rintro ⟨⟨hs, ms, hsign, msign, hclock⟩, hplus⟩
    obtain rfl : hs = [] := by
      refine hsign.resolve_right ?_
      rintro rfl
      obtain ⟨hds, mds, rfl, -⟩ := hclock
      exact hplus (List.mem_cons_self ..)
    obtain rfl : ms = [] := by
      refine msign.resolve_right ?_
      rintro rfl
      obtain ⟨hds, mds, rfl, -⟩ := hclock
      exact hplus (by simp)
    exact hclock

/-- **Schedules do what they say exactly where no time has a plus sign.** -/
theorem schedules_kept_iff (windows : List ScheduleWindow) : SchedulesKept windows ↔
    ((∀ w ∈ windows, WindowOk NamesSigned w) → ∀ w ∈ windows, Unsigned w) := by
  have hwindow : ∀ w, WindowOk Names w ↔ WindowOk NamesSigned w ∧ Unsigned w := by
    intro w
    constructor
    · rintro ⟨⟨start, hstart, hlt⟩, ⟨stop, hstop⟩, hdays⟩
      obtain ⟨hstart, hfrom⟩ := names_iff.1 hstart
      obtain ⟨hstop, hto⟩ := names_iff.1 hstop
      exact ⟨⟨⟨start, hstart, hlt⟩, ⟨stop, hstop⟩, hdays⟩, hfrom, hto⟩
    · rintro ⟨⟨⟨start, hstart, hlt⟩, ⟨stop, hstop⟩, hdays⟩, hfrom, hto⟩
      exact ⟨⟨start, names_iff.2 ⟨hstart, hfrom⟩, hlt⟩, ⟨stop, names_iff.2 ⟨hstop, hto⟩⟩, hdays⟩
  constructor
  · intro h hok w hw
    exact ((hwindow w).1 (h.taken.1 (exists_compile_iff.2 hok) w hw)).2
  · intro h
    refine ⟨?_, fun s hs minute hminute => isActive_iff hs hminute, fun w _ =>
      ⟨normalize_normalize w, fun s hs => isActive_normalize hs⟩⟩
    rw [exists_compile_iff]
    constructor
    · intro hok w hw
      exact (hwindow w).2 ⟨hok w hw, h hok w hw⟩
    · intro hok w hw
      exact ((hwindow w).1 (hok w hw)).1

/-- Five in the morning, with a plus sign. -/
def plusSign : List ScheduleWindow := [⟨[], "+5:00".toList, "07:00".toList⟩]

/-- The window is taken, and its start is no time. -/
theorem plus_sign_accepted : (∃ s, Schedule.compile plusSign = .ok s) ∧
    ¬ SchedulesKept plusSign := by
  have htaken : ∃ s, Schedule.compile plusSign = .ok s := by
    refine exists_compile_iff.2 fun w hw => ?_
    obtain rfl := List.mem_singleton.1 hw
    have hfrom : parseTime "+5:00".toList = some 300 := by decide +kernel
    have hto : parseTime "07:00".toList = some 420 := by decide +kernel
    exact ⟨⟨300, parseTime_eq_some_iff.1 hfrom, by decide⟩, ⟨420, parseTime_eq_some_iff.1 hto⟩, nofun⟩
  refine ⟨htaken, fun h => ?_⟩
  obtain ⟨start, hstart, -⟩ := (h.taken.1 htaken _ (List.mem_singleton.2 rfl)).start
  exact absurd (names_iff.1 hstart).2 (by decide +kernel)

end Ferrite.Blocklist
