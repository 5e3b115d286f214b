import Mathlib.Data.List.Perm.Basic
import Mathlib.Tactic.Common
import Openlia.Client.WallTime

/-! # Which wall-clock times are resolved

With one change of the offset within 36 hours, the samples hold the offset before and the one
after. A year of other than four digits is rendered to a text that is not read again, so that one
such sample spoils the local times around it.
-/

namespace Openlia.Client.WallTime

open Lib Lib.Calendar

/-! ## Years -/

theorem yearOf_mono {n n' : Int} (h : n ≤ n') : yearOf n ≤ yearOf n' := by
  by_contra hlt
  have hmono := yearStart_mono (show yearOf n' + 1 ≤ yearOf n by omega)
  have hle := (yearOf_spec n).1
  have hgt := (yearOf_spec n').2
  omega

theorem numericYear_pad {year : Int} (h : 1000 ≤ year) (h' : year ≤ 9999) :
    numericYear year = pad4 year.toNat := by
  have hpos : 0 < year := by omega
  rw [numericYear, if_pos hpos]
  have hlow : 1000 ≤ year.toNat := by omega
  have hhigh : year.toNat ≤ 9999 := by omega
  generalize year.toNat = n at hlow hhigh
  rw [Nat.toDigits_of_base_le (by decide) (show 10 ≤ n by omega),
    Nat.toDigits_of_base_le (by decide) (show 10 ≤ n / 10 by omega),
    Nat.toDigits_of_base_le (by decide) (show 10 ≤ n / 10 / 10 by omega),
    Nat.toDigits_of_lt_base (show n / 10 / 10 / 10 < 10 by omega)]
  have hthousands : n / 10 / 10 / 10 = n / 100 / 10 % 10 := by omega
  have hhundreds : n / 10 / 10 % 10 = n / 100 % 10 := by omega
  have htens : n / 10 % 10 = n % 100 / 10 % 10 := by omega
  have hones : n % 10 = n % 100 % 10 := by omega
  rw [hthousands, hhundreds, htens, hones]
  rfl

theorem numericYear_length {year : Int} (h : -1 ≤ year) (hlen : (numericYear year).length = 4) :
    1000 ≤ year ∧ year ≤ 9999 := by
  unfold numericYear at hlen
  have hfour := (Nat.length_toDigits_le_iff (b := 10) (k := 4) (by decide) (by decide)).mp hlen.le
  have hthree := (Nat.length_toDigits_le_iff (b := 10) (k := 3)
    (n := (if 0 < year then year else 1 - year).toNat) (by decide) (by decide)).not.mp (by omega)
  split at hfour <;> split at hthree <;> omega

/-! ## A year of four digits is read as it was rendered -/

def Zone.FourDigits (zone : Zone) (t : Int) : Prop :=
  1000 ≤ (zone.localDate t).year ∧ (zone.localDate t).year ≤ 9999

/-- What a clock shows, from the first year on. -/
def Zone.shown (zone : Zone) (t : Int) : Fields :=
  let m := (zone.localMinute t % 1440).toNat
  ⟨(zone.localDate t).year.toNat, (zone.localDate t).month, (zone.localDate t).day, m / 60, m % 60⟩

section Rendered

variable {zone : Zone} {t : Int}

theorem rendered_eq (h : zone.FourDigits t) : rendered zone t = (zone.shown t).text := by
  simp only [rendered, dateInZone, timeInZone, numericYear_pad h.1 h.2, Fields.text, Zone.shown,
    List.append_assoc, List.cons_append]

theorem localDate_valid (zone : Zone) (t : Int) : (zone.localDate t).Valid :=
  (civilDate_spec _).1

theorem shown_date (h : 0 ≤ (zone.localDate t).year) : (zone.shown t).date = zone.localDate t := by
  simp only [Fields.date, Zone.shown, Int.toNat_of_nonneg h]

/-- A date and a time that there are. -/
structure Fields.Valid (f : Fields) : Prop where
  year : f.year < 10000
  date : f.date.Valid
  hour : f.hour < 24
  minute : f.minute < 60

theorem Fields.Valid.fits {f : Fields} (h : f.Valid) : f.Fits := by
  obtain ⟨hyear, ⟨_, hmonth, _, hday⟩, hhour, hminute⟩ := h
  have hle := hday.trans (monthDays_le _ _)
  simp only [Fields.date] at hmonth hle
  simp only [Fields.Fits]
  omega

theorem shown_valid (h : zone.FourDigits t) : (zone.shown t).Valid := by
  have hdate := shown_date (t := t) (show 0 ≤ (zone.localDate t).year by have := h.1; omega)
  have hyear := h.2
  constructor
  · simp only [Zone.shown]
    omega
  · rw [hdate]
    exact localDate_valid zone t
  · simp only [Zone.shown]
    omega
  · simp only [Zone.shown]
    omega

theorem shown_utc (h : zone.FourDigits t) : (zone.shown t).utc = zone.localMinute t * minute := by
  have hdate := shown_date (t := t) (show 0 ≤ (zone.localDate t).year by have := h.1; omega)
  have hnumber : (zone.localDate t).number = zone.localMinute t / 1440 := (civilDate_spec _).2
  rw [Fields.utc, hdate, hnumber]
  congr 1
  simp only [Zone.shown]
  omega

theorem dateParse_text {f : Fields} (h : f.Valid) : dateParse f.text = some f.utc := by
  have hle := h.date.2.2.2.trans (monthDays_le _ _)
  have hread : 1 ≤ f.month ∧ f.month ≤ 12 ∧ 1 ≤ f.day ∧ f.day ≤ 31 ∧
      (f.hour < 24 ∧ f.minute < 60 ∨ f.hour = 24 ∧ f.minute = 0) :=
    ⟨h.date.1, h.date.2.1, h.date.2.2.1, hle, .inl ⟨h.hour, h.minute⟩⟩
  simp only [dateParse, fields_text h.fits, Option.bind_eq_bind, Option.bind_some, if_pos hread]

theorem dateParse_rendered (h : zone.FourDigits t) :
    dateParse (rendered zone t) = some (zone.localMinute t * minute) := by
  rw [rendered_eq h, dateParse_text (shown_valid h), shown_utc h]

/-- Four digits are needed. -/
theorem fourDigits_of_fields (h : -1 ≤ (zone.localDate t).year) {f : Fields}
    (hread : fields (rendered zone t) = some f) : zone.FourDigits t := by
  apply numericYear_length h
  have hlen := fields_length hread
  simp only [rendered, dateInZone, timeInZone, pad2, List.length_append, List.length_cons,
    List.length_nil] at hlen
  omega

theorem fourDigits_of_dateParse (h : -1 ≤ (zone.localDate t).year) {n : Int}
    (hread : dateParse (rendered zone t) = some n) : zone.FourDigits t := by
  cases hfields : fields (rendered zone t) with
  | none => simp [dateParse, hfields] at hread
  | some f => exact fourDigits_of_fields h hfields

end Rendered

/-! ## Local times -/

theorem utc_dvd (f : Fields) : minute ∣ f.utc := Dvd.intro_left _ rfl

theorem civilDate_utc {f : Fields} (h : f.Valid) : civilDate (f.utc / minute / 1440) = f.date := by
  have hhour := h.hour
  have hminute := h.minute
  rw [← civilDate_number h.date, Fields.utc, Int.mul_ediv_cancel _ (by decide : minute ≠ 0)]
  congr 1
  omega

theorem utc_inj {f g : Fields} (hf : f.Valid) (hg : g.Valid) (h : f.utc = g.utc) : f = g := by
  have hdate : f.date = g.date := by
    rw [← civilDate_utc hf, ← civilDate_utc hg, h]
  have hfh := hf.hour
  have hfm := hf.minute
  have hgh := hg.hour
  have hgm := hg.minute
  rw [Fields.utc, Fields.utc, hdate] at h
  have hminutes := Int.eq_of_mul_eq_mul_right (by decide : minute ≠ 0) h
  obtain ⟨year, month, day, hour, minute⟩ := f
  obtain ⟨year', month', day', hour', minute'⟩ := g
  simp only [Fields.date, CivilDate.mk.injEq, Int.natCast_inj] at hdate
  simp only [Fields.mk.injEq]
  dsimp only at *
  omega

/-- A text that names a minute of a day that there is. -/
def Written (text : Text) (wall : Int) : Prop :=
  ∃ f : Fields, f.Valid ∧ f.text = text ∧ f.utc = wall

/-- A whole minute at which a clock shows the local time. -/
def RendersTo (zone : Zone) (wall t : Int) : Prop := minute ∣ t ∧ zone.localMinute t * minute = wall

def OnlyAt (zone : Zone) (wall t : Int) : Prop := ∀ t', RendersTo zone wall t' ↔ t' = t

/-- The offset changes once at most within 36 hours. -/
def OneTransition (zone : Zone) (wall : Int) : Prop :=
  ∃ change before after, ∀ t, wall - 36 * hour ≤ t → t ≤ wall + 36 * hour →
    zone.offset t = if t < change then before else after

section Samples

variable {zone : Zone} {text : Text} {wall t : Int}

theorem localMinute_mul (h : minute ∣ t) : zone.localMinute t * minute = t + zone.offset t :=
  Int.ediv_mul_cancel (Int.dvd_add h (zone.wholeMinutes t))

theorem rendersTo_iff (hwall : minute ∣ wall) :
    RendersTo zone wall t ↔ t = wall - zone.offset t := by
  constructor
  · rintro ⟨hdvd, heq⟩
    rw [localMinute_mul hdvd] at heq
    omega
  · intro h
    have hdvd : minute ∣ t := by
      rw [h]
      exact Int.dvd_sub hwall (zone.wholeMinutes t)
    refine ⟨hdvd, ?_⟩
    rw [localMinute_mul hdvd]
    omega

theorem sample_dvd (hwall : minute ∣ wall) (hours : Int) : minute ∣ wall + hours * hour :=
  Int.dvd_add hwall (Dvd.dvd.mul_left (by decide) hours)

theorem sampleOffset_eq (hwall : minute ∣ wall) {hours : Int}
    (h : zone.FourDigits (wall + hours * hour)) :
    sampleOffset zone wall hours = some (zone.offset (wall + hours * hour)) := by
  rw [sampleOffset, dateParse_rendered h, localMinute_mul (sample_dvd hwall hours)]
  simp only [Option.map_some, Option.some.injEq]
  omega

theorem year_lower (hwritten : Written text wall) (ht : wall - 36 * hour ≤ t) :
    -1 ≤ (zone.localDate t).year := by
  obtain ⟨f, hf, _, rfl⟩ := hwritten
  show -1 ≤ yearOf (zone.localMinute t / 1440)
  have hstart : yearStart 0 ≤ f.date.number := by
    have := yearStart_mono (show 0 ≤ f.date.year from Int.natCast_nonneg _)
    have := hf.date.2.2.1
    unfold CivilDate.number
    omega
  have hlower := zone.lower t
  have hle : yearStart 0 - 4 ≤ zone.localMinute t / 1440 := by
    unfold Zone.localMinute
    unfold Fields.utc minute hour at *
    omega
  have hstep : yearStart (-1) ≤ yearStart 0 - 4 := by decide
  have hyear : yearOf (yearStart (-1)) = -1 := by decide
  rw [← hyear]
  exact yearOf_mono (by omega)

theorem fourDigits_iff (h : -1 ≤ (zone.localDate t).year) :
    zone.FourDigits t ↔ ∃ n, dateParse (rendered zone t) = some n := by
  constructor
  · intro hfour
    exact ⟨_, dateParse_rendered hfour⟩
  · rintro ⟨n, hn⟩
    exact fourDigits_of_dateParse h hn

/-- The year of the local time lies between those of the first sample and the last. -/
theorem written_fourDigits {f : Fields} (hf : f.Valid)
    (hfirst : zone.FourDigits (f.utc + -36 * hour)) (hlast : zone.FourDigits (f.utc + 36 * hour)) :
    1000 ≤ f.year ∧ f.year ≤ 9999 := by
  have hyear : yearOf (f.utc / minute / 1440) = f.year := congrArg CivilDate.year (civilDate_utc hf)
  have hupper := zone.upper (f.utc + -36 * hour)
  have hlower := zone.lower (f.utc + 36 * hour)
  have hbefore := yearOf_mono (show
    zone.localMinute (f.utc + -36 * hour) / 1440 ≤ f.utc / minute / 1440 by
      unfold Zone.localMinute
      unfold minute hour at *
      omega)
  have hafter := yearOf_mono (show
    f.utc / minute / 1440 ≤ zone.localMinute (f.utc + 36 * hour) / 1440 by
      unfold Zone.localMinute
      unfold minute hour at *
      omega)
  have h : 1000 ≤ yearOf (zone.localMinute (f.utc + -36 * hour) / 1440) := hfirst.1
  have h' : yearOf (zone.localMinute (f.utc + 36 * hour) / 1440) ≤ 9999 := hlast.2
  omega

theorem rendered_text_iff {f : Fields} (hf : f.Valid) (hyear : 1000 ≤ f.year)
    (ht : -1 ≤ (zone.localDate t).year) :
    rendered zone t = f.text ↔ zone.localMinute t * minute = f.utc := by
  constructor
  · intro h
    have hfour : zone.FourDigits t := fourDigits_of_fields ht (h ▸ fields_text hf.fits)
    have hread := dateParse_rendered hfour
    rw [h, dateParse_text hf] at hread
    exact (Option.some.inj hread).symm
  · intro h
    have hdate : zone.localDate t = f.date := by
      rw [← civilDate_utc hf, ← h, Int.mul_ediv_cancel _ (by decide)]
      rfl
    have hfour : zone.FourDigits t := by
      have hlt := hf.year
      unfold Zone.FourDigits
      rw [hdate]
      simp only [Fields.date]
      omega
    rw [rendered_eq hfour, utc_inj (shown_valid hfour) hf ((shown_utc hfour).trans h)]

/-- The offset before the change is that of the first sample, the one after it that of the last. -/
theorem offset_sampled (hone : OneTransition zone wall) (ht : wall - 24 * hour < t)
    (ht' : t < wall + 24 * hour) :
    ∃ hours ∈ sampleHours, zone.offset (wall + hours * hour) = zone.offset t := by
  obtain ⟨change, before, after, hoffset⟩ := hone
  have hat := hoffset t (by unfold hour at *; omega) (by unfold hour at *; omega)
  by_cases hlt : t < change
  · refine ⟨-36, by decide, ?_⟩
    rw [hat, if_pos hlt, hoffset _ (by unfold hour; omega) (by unfold hour; omega),
      if_pos (by unfold hour at *; omega)]
  · refine ⟨36, by decide, ?_⟩
    rw [hat, if_neg hlt, hoffset _ (by unfold hour; omega) (by unfold hour; omega),
      if_neg (by unfold hour at *; omega)]

/-! ## Candidates -/

theorem candidates_nodup (offsets : List (Option Int)) (h : offsets.Nodup) :
    (candidates zone text wall offsets.reduceOption).Nodup := by
  apply List.Nodup.filter
  apply List.Nodup.map
  · intro a b hab
    have hab : wall - a = wall - b := hab
    omega
  · apply List.Nodup.filterMap _ h
    intro a a' b hb hb'
    exact hb.trans hb'.symm

theorem mem_offsets (hwall : minute ∣ wall)
    (hsamples : ∀ hours ∈ sampleHours, zone.FourDigits (wall + hours * hour)) {o : Int} :
    o ∈ ((sampleHours.map (sampleOffset zone wall)).dedup).reduceOption ↔
      ∃ hours ∈ sampleHours, zone.offset (wall + hours * hour) = o := by
  rw [List.reduceOption_mem_iff, List.mem_dedup, List.mem_map]
  constructor
  · rintro ⟨hours, hmem, h⟩
    rw [sampleOffset_eq hwall (hsamples hours hmem)] at h
    exact ⟨hours, hmem, Option.some.inj h⟩
  · rintro ⟨hours, hmem, h⟩
    refine ⟨hours, hmem, ?_⟩
    rw [sampleOffset_eq hwall (hsamples hours hmem), h]

theorem mem_candidates {f : Fields} (hf : f.Valid) (hone : OneTransition zone f.utc)
    (hsamples : ∀ hours ∈ sampleHours, zone.FourDigits (f.utc + hours * hour)) :
    t ∈ candidates zone f.text f.utc
        ((sampleHours.map (sampleOffset zone f.utc)).dedup).reduceOption ↔
      RendersTo zone f.utc t := by
  have hyear := written_fourDigits hf (hsamples (-36) (by decide)) (hsamples 36 (by decide))
  have hnear : ∀ o, -(24 * hour) < o → o < 24 * hour →
      -1 ≤ (zone.localDate (f.utc - o)).year := by
    intro o ho ho'
    apply year_lower ⟨f, hf, rfl, rfl⟩
    unfold hour at *
    omega
  rw [candidates, List.mem_filter, decide_eq_true_iff, List.mem_map]
  constructor
  · rintro ⟨⟨o, ho, rfl⟩, hrendered⟩
    rw [mem_offsets (utc_dvd f) hsamples] at ho
    obtain ⟨hours, _, rfl⟩ := ho
    refine ⟨Int.dvd_sub (utc_dvd f) (zone.wholeMinutes _), ?_⟩
    rwa [← rendered_text_iff hf hyear.1 (hnear _ (zone.lower _) (zone.upper _))]
  · intro h
    have heq := (rendersTo_iff (utc_dvd f)).mp h
    have hlower := zone.lower t
    have hupper := zone.upper t
    constructor
    · refine ⟨zone.offset t, ?_, heq.symm⟩
      rw [mem_offsets (utc_dvd f) hsamples]
      exact offset_sampled hone (by omega) (by omega)
    · rw [rendered_text_iff hf hyear.1 (heq ▸ hnear _ (zone.lower _) (zone.upper _))]
      exact h.2

theorem eq_singleton_iff {l : List Int} (h : l.Nodup) : l = [t] ↔ ∀ t', t' ∈ l ↔ t' = t := by
  constructor
  · rintro rfl t'
    exact List.mem_singleton
  · intro hmem
    rw [← List.perm_singleton]
    apply (List.perm_ext_iff_of_nodup h (List.nodup_singleton t)).mpr
    intro t'
    rw [hmem, List.mem_singleton]

theorem resolve_sampled {f : Fields} (hf : f.Valid) (hone : OneTransition zone f.utc)
    (hsamples : ∀ hours ∈ sampleHours, zone.FourDigits (f.utc + hours * hour)) :
    resolve zone f.text f.utc = .ok t ↔ OnlyAt zone f.utc t := by
  have hnone : none ∉ (sampleHours.map (sampleOffset zone f.utc)).dedup := by
    rw [List.mem_dedup, List.mem_map]
    rintro ⟨hours, hmem, h⟩
    rw [sampleOffset_eq (utc_dvd f) (hsamples hours hmem)] at h
    contradiction
  have hnodup : (candidates zone f.text f.utc
      ((sampleHours.map (sampleOffset zone f.utc)).dedup).reduceOption).Nodup :=
    candidates_nodup _ (List.nodup_dedup _)
  have honly : OnlyAt zone f.utc t ↔ candidates zone f.text f.utc
      ((sampleHours.map (sampleOffset zone f.utc)).dedup).reduceOption = [t] := by
    rw [eq_singleton_iff hnodup]
    exact forall_congr' fun t' => by rw [mem_candidates hf hone hsamples]
  rw [honly, resolve, if_neg hnone]
  split
  · rename_i hnil
    simp [hnil]
  · rename_i t' hsingle
    simp [hsingle]
  · rename_i hne
    constructor
    · intro h
      contradiction
    · intro h
      exact absurd h (hne t)

theorem sampleHours_ge : ∀ hours ∈ sampleHours, -36 ≤ hours := by
  decide

/-- One sample that is not read is enough to throw. -/
theorem resolve_unread {f : Fields} (hf : f.Valid) {hours : Int} (hmem : hours ∈ sampleHours)
    (hout : ¬ zone.FourDigits (f.utc + hours * hour)) :
    resolve zone f.text f.utc = .error .rangeError := by
  have hlower : -1 ≤ (zone.localDate (f.utc + hours * hour)).year := by
    apply year_lower ⟨f, hf, rfl, rfl⟩
    have hge := sampleHours_ge hours hmem
    unfold hour
    omega
  have hunread : sampleOffset zone f.utc hours = none := by
    rw [sampleOffset, Option.map_eq_none_iff, Option.eq_none_iff_forall_ne_some]
    exact not_exists.mp ((fourDigits_iff hlower).not.mp hout)
  have hnone : none ∈ (sampleHours.map (sampleOffset zone f.utc)).dedup := by
    rw [List.mem_dedup, List.mem_map]
    exact ⟨hours, hmem, hunread⟩
  rw [resolve, if_pos hnone]

end Samples

/-! ## What is accepted -/

def Fields.midnight (f : Fields) : Fields := { f with hour := 0, minute := 0 }

theorem midnight_text (f : Fields) : f.text.take 10 ++ "T00:00".toList = f.midnight.text := by
  simp [Fields.text, Fields.midnight, pad4, pad2]

theorem daysBefore_add_31 : ∀ leap : Bool, ∀ month < 13, 1 ≤ month →
    daysBefore leap month + 31 ≤ if leap then 366 else 365 := by
  decide +kernel

theorem number_year {f : Fields} (hone : 1 ≤ f.month) (htwelve : f.month ≤ 12) (hday : 1 ≤ f.day)
    (hlast : f.day ≤ 31) : (civilDate f.date.number).year = f.year := by
  have h := daysBefore_add_31 (leap f.date.year) f.month (by omega) hone
  apply yearOf_eq
  · simp only [CivilDate.number, Fields.date]
    omega
  · rw [yearStart_succ]
    simp only [CivilDate.number, Fields.date, yearDays] at *
    cases hleap : leap f.year
    · simp only [hleap, Bool.false_eq_true, if_false] at *
      omega
    · simp only [hleap, if_true] at *
      omega

theorem Fields.Fits.midnight {f : Fields} (h : f.Fits) : f.midnight.Fits := by
  simp only [Fields.Fits, Fields.midnight] at *
  omega

theorem take_inj {f g : Fields} (hf : f.Fits) (hg : g.Fits) (h : f.text.take 10 = g.text.take 10) :
    f.date = g.date := by
  have htext : f.midnight.text = g.midnight.text := by rw [← midnight_text, ← midnight_text, h]
  have hfields := fields_text hf.midnight
  rw [htext, fields_text hg.midnight] at hfields
  exact (congrArg Fields.date (Option.some.inj hfields)).symm

/-- The date that `toISOString` writes. -/
def isoFields (c : CivilDate) : Fields := ⟨c.year.toNat, c.month, c.day, 0, 0⟩

theorem isoDate_midnight (f : Fields) :
    isoDate f.midnight.utc = (isoFields (civilDate f.date.number)).text.take 10 := by
  have hutc : f.midnight.utc / (24 * hour) = f.date.number := by
    have hdate : f.midnight.date = f.date := rfl
    rw [Fields.utc, hdate]
    simp only [Fields.midnight, minute, hour]
    omega
  rw [isoDate, hutc]
  rfl

theorem isoFields_fits {f : Fields} (hyear : (civilDate f.date.number).year = f.year)
    (hf : f.Fits) : (isoFields (civilDate f.date.number)).Fits := by
  have hvalid := (civilDate_spec f.date.number).1
  have hle := hvalid.2.2.2.trans (monthDays_le _ _)
  have hmonth := hvalid.2.1
  simp only [Fields.Fits, isoFields, hyear] at *
  omega

theorem validDate_iff {f : Fields} (hf : f.Fits) :
    validDate (f.text.take 10) = true ↔ f.date.Valid := by
  have hread : validDate (f.text.take 10) = true ↔
      (1 ≤ f.month ∧ f.month ≤ 12 ∧ 1 ≤ f.day ∧ f.day ≤ 31) ∧
        (isoFields (civilDate f.date.number)).text.take 10 = f.text.take 10 := by
    rw [validDate, midnight_text, dateParse, fields_text hf.midnight, ← isoDate_midnight]
    simp only [Option.bind_eq_bind, Option.bind_some]
    split
    · rename_i h
      simp only [Option.any_some, decide_eq_true_eq]
      exact ⟨fun heq => ⟨⟨h.1, h.2.1, h.2.2.1, h.2.2.2.1⟩, heq⟩, fun heq => heq.2⟩
    · rename_i h
      simp only [Option.any_none, Bool.false_eq_true, false_iff]
      intro ⟨hdate, _⟩
      apply h
      simp only [Fields.midnight]
      omega
  rw [hread]
  constructor
  · intro ⟨⟨hone, htwelve, hday, hlast⟩, htake⟩
    have hyear := number_year hone htwelve hday hlast
    have hdate := take_inj (isoFields_fits hyear hf) hf htake
    have hvalid := (civilDate_spec f.date.number).1
    have hback : (isoFields (civilDate f.date.number)).date = civilDate f.date.number := by
      have hcast : ((civilDate f.date.number).year.toNat : Int) = (civilDate f.date.number).year :=
        Int.toNat_of_nonneg (hyear ▸ Int.natCast_nonneg _)
      simp only [isoFields, Fields.date] at *
      rw [hcast]
    rwa [← hdate, hback]
  · intro h
    refine ⟨⟨h.1, h.2.1, h.2.2.1, h.2.2.2.trans (monthDays_le _ _)⟩, ?_⟩
    rw [civilDate_number h]
    rfl

theorem text_unique {text : Text} {wall wall' : Int} (h : Written text wall)
    (h' : Written text wall') : wall = wall' := by
  obtain ⟨f, hf, rfl, rfl⟩ := h
  obtain ⟨g, hg, heq, rfl⟩ := h'
  have hfields := fields_text hg.fits
  rw [heq, fields_text hf.fits] at hfields
  rw [Option.some.inj hfields]

/-- Either both texts are accepted or the call throws. -/
theorem wallTimeToInstant_cases (zones : Text → Option Zone) (text timezone : Text) :
    (∃ (zone : Zone) (f : Fields), zones timezone = some zone ∧ f.Valid ∧ f.text = text ∧
      wallTimeToInstant zones text timezone = resolve zone f.text f.utc) ∨
    ((zones timezone = none ∨ ∀ wall, ¬ Written text wall) ∧
      wallTimeToInstant zones text timezone = .error .invalid) := by
  unfold wallTimeToInstant
  split
  · rename_i zone f hzone hfields
    obtain ⟨rfl, hfits⟩ := text_of_fields hfields
    split
    · rename_i hrejected
      right
      refine ⟨.inr ?_, rfl⟩
      rintro wall ⟨g, hg, htext, -⟩
      have hgf := fields_text hg.fits
      rw [htext, hfields] at hgf
      cases hgf
      rw [← Bool.not_eq_true, validDate_iff hfits] at hrejected
      have hhour := hg.hour
      have hminute := hg.minute
      rcases hrejected with h | h | h
      · exact h hg.date
      · omega
      · omega
    · rename_i haccepted
      rw [not_or, not_or, Bool.not_eq_false, validDate_iff hfits] at haccepted
      have hf : f.Valid := ⟨hfits.1, haccepted.1, by omega, by omega⟩
      left
      refine ⟨zone, f, hzone, hf, rfl, ?_⟩
      rw [dateParse_text hf]
  · rename_i h
    right
    refine ⟨?_, rfl⟩
    cases hzone : zones timezone with
    | none => exact .inl rfl
    | some zone =>
        right
        rintro wall ⟨f, hf, rfl, -⟩
        exact h zone f hzone (fields_text hf.fits)

/-! ## The result -/

/-- A local minute with one change of the offset around it at most is resolved if and only if it
occurs once, and to that instant; what is malformed throws. -/
def ResolvesExactly (zones : Text → Option Zone) (text timezone : Text) : Prop :=
  (zones timezone = none ∨ (∀ wall, ¬ Written text wall) →
    ∃ e, wallTimeToInstant zones text timezone = .error e) ∧
  ∀ zone wall, zones timezone = some zone → Written text wall → OneTransition zone wall →
    ∀ t, wallTimeToInstant zones text timezone = .ok t ↔ OnlyAt zone wall t

/-- Where the local minute occurs once, the samples fall in years of four digits. -/
def SamplesRead (zones : Text → Option Zone) (text timezone : Text) : Prop :=
  ∀ zone wall t, zones timezone = some zone → Written text wall → OneTransition zone wall →
    OnlyAt zone wall t → ∀ hours ∈ sampleHours, zone.FourDigits (wall + hours * hour)

theorem resolvesExactly_iff (zones : Text → Option Zone) (text timezone : Text) :
    ResolvesExactly zones text timezone ↔ SamplesRead zones text timezone := by
  rcases wallTimeToInstant_cases zones text timezone with
    ⟨zone, f, hzone, hf, rfl, hresult⟩ | ⟨hrejected, hresult⟩
  · have hwritten : Written f.text f.utc := ⟨f, hf, rfl, rfl⟩
    constructor
    · intro ⟨_, h⟩ zone' wall t hzone' hwall hone honly hours hmem
      cases hzone.symm.trans hzone'
      cases text_unique hwritten hwall
      have hok := (h zone f.utc hzone hwritten hone t).mpr honly
      by_contra hout
      rw [hresult, resolve_unread hf hmem hout] at hok
      contradiction
    · intro h
      constructor
      · rintro (hnone | hnot)
        · rw [hzone] at hnone
          contradiction
        · exact absurd hwritten (hnot f.utc)
      · intro zone' wall hzone' hwall hone t
        cases hzone.symm.trans hzone'
        cases text_unique hwritten hwall
        rw [hresult]
        by_cases hsamples : ∀ hours ∈ sampleHours, zone.FourDigits (f.utc + hours * hour)
        · exact resolve_sampled hf hone hsamples
        · constructor
          · intro hok
            push Not at hsamples
            obtain ⟨hours, hmem, hout⟩ := hsamples
            rw [resolve_unread hf hmem hout] at hok
            contradiction
          · intro honly
            exact absurd (h zone f.utc t hzone hwritten hone honly) hsamples
  · constructor
    · intro _ zone wall t hzone hwall
      rcases hrejected with hnone | hnot
      · rw [hzone] at hnone
        contradiction
      · exact absurd hwall (hnot wall)
    · intro _
      refine ⟨fun _ => ⟨_, hresult⟩, ?_⟩
      intro zone wall hzone hwall
      rcases hrejected with hnone | hnot
      · rw [hzone] at hnone
        contradiction
      · exact absurd hwall (hnot wall)

/-! ## The last day of 9999 -/

def utcZone : Zone where
  offset _ := 0
  wholeMinutes _ := Int.dvd_zero _
  lower _ := by decide
  upper _ := by decide

def lastDay : Fields := ⟨9999, 12, 31, 0, 0⟩

theorem lastDay_throws :
    ¬ ResolvesExactly (fun name => if name = "UTC".toList then some utcZone else none)
      "9999-12-31T00:00".toList "UTC".toList := by
  intro ⟨_, h⟩
  have hwritten : Written "9999-12-31T00:00".toList lastDay.utc :=
    ⟨lastDay, ⟨by decide, by decide, by decide, by decide⟩, by decide, rfl⟩
  have hone : OneTransition utcZone lastDay.utc := ⟨0, 0, 0, fun t _ _ => (ite_self _).symm⟩
  have honly : OnlyAt utcZone lastDay.utc lastDay.utc := by
    intro t
    rw [rendersTo_iff (utc_dvd lastDay)]
    show t = lastDay.utc - 0 ↔ t = lastDay.utc
    rw [sub_zero]
  have hok := (h utcZone lastDay.utc (if_pos rfl) hwritten hone lastDay.utc).mpr honly
  revert hok
  decide +kernel

end Openlia.Client.WallTime
