import Mathlib

/-!
Moments as the `time` package of Go keeps them: an `int64` number of seconds since
year 1 and a number of nanoseconds. The operations are those of `time.Unix`,
`Time.Unix`, `Time.Add` and `Time.Truncate`, wrap-arounds and saturation included.
What a moment means is its distance from year 1 in nanoseconds; each operation is
exact on that value as long as its result can be kept.
-/
namespace Arks.Instants

/-! ### 64-bit integers -/

/-- An integer as an `int64` keeps it. -/
def int64 (n : Int) : Int := n.bmod (2 ^ 64)

/-- The integers an `int64` keeps as they are. -/
def Fits (n : Int) : Prop := -2 ^ 63 ≤ n ∧ n < 2 ^ 63

theorem int64_of_fits {n : Int} (fits : Fits n) : int64 n = n := by
  obtain ⟨low,high⟩ := fits
  unfold int64
  rw [Int.bmod_eq_of_le_mul_two] <;> omega

theorem int64_fits (n : Int) : Fits (int64 n) := by
  have low := Int.le_bmod (x := n) (m := 2 ^ 64) (by decide)
  have high := Int.bmod_lt (x := n) (m := 2 ^ 64) (by decide)
  unfold Fits int64
  omega

/-! ### Moments and their value -/

/-- `time.Second`: a second in nanoseconds. -/
def second : Int := 1000000000

/-- `unixToInternal`: the Unix epoch in seconds since year 1. -/
def unixToInternal : Int := 62135596800

/-- A `time.Time` without a monotonic reading. -/
structure Time where
  sec : Int
  nsec : Int
  secFits : Fits sec
  nsecFits : 0 ≤ nsec ∧ nsec < second

namespace Time

/-- Nanoseconds since year 1. -/
def value (t : Time) : Int := t.sec * second + t.nsec

private theorem sec_eq (t : Time) : t.sec = t.value / second := by
  have := t.nsecFits
  unfold value second at *
  omega

/-- `time.Unix(sec, 0)`. -/
def ofUnix (sec : Int) : Time := ⟨int64 (sec + unixToInternal),0,int64_fits _,by decide⟩

/-- `Time.Unix`. -/
def unix (t : Time) : Int := int64 (t.sec - unixToInternal)

/-! ### Adding a duration -/

/-- `addSec`: a sum that does not fit becomes the last second, or the first but one. -/
def addSec (sec d : Int) : Int :=
  if decide (int64 (sec + d) > sec) = decide (d > 0) then int64 (sec + d)
  else if d > 0 then 2 ^ 63 - 1 else -(2 ^ 63 - 1)

private theorem addSec_fits (sec d : Int) : Fits (addSec sec d) := by
  unfold addSec
  split_ifs
  · exact int64_fits _
  · exact ⟨by decide,by decide⟩
  · exact ⟨by decide,by decide⟩

private theorem addSec_eq {sec d : Int} (fits : Fits (sec + d)) : addSec sec d = sec + d := by
  unfold addSec
  rw [int64_of_fits fits]
  exact if_pos (decide_eq_decide.mpr (by omega))

/-- The carry between the nanoseconds and the seconds of a sum. -/
def carry (dsec nsec : Int) : Int × Int :=
  if nsec ≥ second then (dsec + 1,nsec - second) else if nsec < 0 then (dsec - 1,nsec + second) else (dsec,nsec)

private theorem carry_value (dsec nsec : Int) : (carry dsec nsec).1 * second + (carry dsec nsec).2 = dsec * second + nsec := by
  unfold carry
  split_ifs <;> unfold second <;> omega

private theorem carry_range {dsec nsec : Int} (low : -second < nsec) (high : nsec < 2 * second) :
    0 ≤ (carry dsec nsec).2 ∧ (carry dsec nsec).2 < second := by
  unfold carry
  split_ifs <;> unfold second at * <;> omega

theorem add_range (t : Time) (d : Int) : -second < t.nsec + d.tmod second ∧ t.nsec + d.tmod second < 2 * second := by
  have range := t.nsecFits
  have low := Int.lt_tmod_of_pos d (show 0 < second by decide)
  have high := Int.tmod_lt_of_pos d (show 0 < second by decide)
  omega

/-- `Time.Add`. -/
def add (t : Time) (d : Int) : Time where
  sec := addSec t.sec (carry (d.tdiv second) (t.nsec + d.tmod second)).1
  nsec := (carry (d.tdiv second) (t.nsec + d.tmod second)).2
  secFits := addSec_fits _ _
  nsecFits := carry_range (add_range t d).1 (add_range t d).2

/-- Adding a duration is exact when the seconds of the sum fit. -/
theorem add_value {t : Time} {d : Int} (fits : Fits ((t.value + d) / second)) :
    (t.add d).value = t.value + d := by
  have carried := carry_value (d.tdiv second) (t.nsec + d.tmod second)
  have range := (t.add d).nsecFits
  have division := Int.mul_tdiv_add_tmod d second
  simp only [value,add] at fits range ⊢
  generalize carry (d.tdiv second) (t.nsec + d.tmod second) = parts at carried range ⊢
  have sum : (t.sec + parts.1) * second + parts.2 = t.sec * second + t.nsec + d := by
    unfold second at *
    omega
  have whole : (t.sec * second + t.nsec + d) / second = t.sec + parts.1 := by
    unfold second at *
    omega
  rw [addSec_eq (whole ▸ fits),sum]

/-! ### Truncation -/

/-- The seconds and nanoseconds between year 1 and the moment, as `div` computes them. -/
def distance (t : Time) : Int × Int :=
  if t.sec < 0 then
    if -t.nsec < 0 then (int64 (int64 (-t.sec) - 1),-t.nsec + second) else (int64 (-t.sec),-t.nsec)
  else (t.sec,t.nsec)

/-- The remainder of the distance, in the three cases of `div`; the last stands for
    its division of a 128-bit number. -/
def rest (sec nsec d : Int) : Int :=
  if d < second ∧ second.tmod (d + d) = 0 then nsec.tmod d
  else if d.tmod second = 0 then int64 (int64 (sec.tmod (d.tdiv second) * second) + nsec)
  else (sec % 2 ^ 64 * second + nsec) % d

/-- The remainder that `div` returns. -/
def remainder (t : Time) (d : Int) : Int :=
  let r := rest t.distance.1 t.distance.2 d
  if t.sec < 0 ∧ r ≠ 0 then int64 (d - r) else r

/-- `Time.Truncate`. -/
def truncate (t : Time) (d : Int) : Time := if d ≤ 0 then t else t.add (int64 (-t.remainder d))

section
variable {sec nsec d : Int}

/-- A part of a second: the whole seconds leave no remainder. -/
theorem rest_part (low : 0 ≤ nsec) (divides : second.tmod (d + d) = 0) :
    nsec.tmod d = (sec * second + nsec) % d := by
  have twice : d + d ∣ second := Int.dvd_of_tmod_eq_zero divides
  have whole : d ∣ second := Int.dvd_trans ⟨2,by omega⟩ twice
  have seconds : sec * second % d = 0 := Int.emod_eq_zero_of_dvd (Int.dvd_mul_of_dvd_right whole)
  rw [Int.tmod_eq_emod_of_nonneg low,Int.add_emod,seconds,Int.zero_add,Int.emod_emod]

/-- Whole seconds: the nanoseconds stay. -/
theorem rest_whole (positive : 0 < d) (high : d < 2 ^ 63) (secLow : 0 ≤ sec) (range : 0 ≤ nsec ∧ nsec < second)
    (whole : d.tmod second = 0) :
    int64 (int64 (sec.tmod (d.tdiv second) * second) + nsec) = (sec * second + nsec) % d := by
  obtain ⟨count,rfl⟩ := Int.dvd_of_tmod_eq_zero whole
  have counted : 0 < count := by
    unfold second at positive
    omega
  have nonneg := Int.emod_nonneg sec (ne_of_gt counted)
  have below := Int.emod_lt_of_pos sec counted
  have division : sec * second + nsec = sec % count * second + nsec + second * count * (sec / count) := by
    have parts := Int.emod_add_mul_ediv sec count
    rw [Int.mul_assoc,Int.mul_comm second (count * _),Int.add_right_comm,← Int.add_mul,parts]
  rw [Int.mul_tdiv_cancel_left _ (by decide),Int.tmod_eq_emod_of_nonneg secLow,division,
    Int.add_mul_emod_self_left]
  generalize sec % count = r at nonneg below ⊢
  unfold second at *
  have product : Fits (r * 1000000000) := ⟨by omega,by omega⟩
  have sum : Fits (r * 1000000000 + nsec) := ⟨by omega,by omega⟩
  rw [int64_of_fits product,int64_of_fits sum,Int.emod_eq_of_lt (by omega) (by omega)]

/-- In each of its cases `div` returns the remainder of the value. -/
theorem rest_eq (positive : 0 < d) (high : d < 2 ^ 63) (secLow : 0 ≤ sec) (secHigh : sec < 2 ^ 63)
    (range : 0 ≤ nsec ∧ nsec < second) : rest sec nsec d = (sec * second + nsec) % d := by
  unfold rest
  split_ifs with part whole
  · exact rest_part range.1 part.2
  · exact rest_whole positive high secLow range whole
  · rw [Int.emod_eq_of_lt secLow (by omega)]

end

private theorem remainder_eq {t : Time} {d : Int} (since : 0 ≤ t.sec) (positive : 0 < d) (high : d < 2 ^ 63) :
    t.remainder d = t.value % d := by
  have after : ¬ t.sec < 0 := by omega
  simp only [remainder,distance,after,if_false,false_and]
  exact rest_eq positive high since t.secFits.2 t.nsecFits

theorem value_nonneg {t : Time} (since : 0 ≤ t.sec) : 0 ≤ t.value := by
  have range := t.nsecFits
  unfold value second
  omega

theorem rounded_nonneg {v d : Int} (nonneg : 0 ≤ v) (positive : 0 < d) : 0 ≤ v - v % d := by
  have quotient : v - v % d = d * (v / d) := by
    have := Int.emod_add_mul_ediv v d
    omega
  rw [quotient]
  exact Int.mul_nonneg (le_of_lt positive) (Int.ediv_nonneg nonneg (le_of_lt positive))

/-- From year 1 on, truncation rounds the value down to a multiple of the duration. -/
theorem truncate_value {t : Time} {d : Int} (since : 0 ≤ t.sec) (high : d < 2 ^ 63) :
    (t.truncate d).value = if d ≤ 0 then t.value else t.value - t.value % d := by
  unfold truncate
  split_ifs with long
  · rfl
  · have positive : 0 < d := by omega
    have nonneg := Int.emod_nonneg t.value (ne_of_gt positive)
    have below := Int.emod_lt_of_pos t.value positive
    have rounded := rounded_nonneg (value_nonneg since) positive
    -- the rounded second lies between year 1 and the second rounded
    have kept : Fits ((t.value + -(t.value % d)) / second) := by
      have range := t.nsecFits
      have fits := t.secFits
      unfold Fits value second at *
      omega
    rw [remainder_eq since positive high,int64_of_fits ⟨by omega,by omega⟩,add_value kept,Int.sub_eq_add_neg]

/-! ### Unix time -/

/-- A second of Unix time that `time.Time` can keep, from year 1 on. -/
def Kept (now : Int) : Prop := 0 ≤ now + unixToInternal ∧ now + unixToInternal < 2 ^ 63

theorem ofUnix_sec {now : Int} (kept : Kept now) : (ofUnix now).sec = now + unixToInternal := by
  obtain ⟨low,high⟩ := kept
  exact int64_of_fits ⟨by omega,high⟩

private theorem ofUnix_value {now : Int} (kept : Kept now) : (ofUnix now).value = (now + unixToInternal) * second := by
  unfold value
  rw [ofUnix_sec kept]
  exact Int.add_zero _

private theorem unix_eq {t : Time} (since : 0 ≤ t.value) : t.unix = t.value / second - unixToInternal := by
  have fits := t.secFits
  have range := t.nsecFits
  rw [← sec_eq]
  refine int64_of_fits ?_
  unfold Fits value second unixToInternal at *
  omega

/-- Truncating a second of Unix time: the nanoseconds since year 1 are rounded down. -/
theorem unix_truncate {now d : Int} (kept : Kept now) (high : d < 2 ^ 63) :
    ((ofUnix now).truncate d).unix =
      (if d ≤ 0 then (now + unixToInternal) * second
        else (now + unixToInternal) * second - (now + unixToInternal) * second % d) / second - unixToInternal := by
  have since : 0 ≤ (ofUnix now).sec := ofUnix_sec kept ▸ kept.1
  have truncated := truncate_value since high
  have valued := value_nonneg since
  rw [ofUnix_value kept] at truncated valued
  rw [← truncated]
  refine unix_eq ?_
  rw [truncated]
  split_ifs with long
  · exact valued
  · exact rounded_nonneg valued (by omega)

end Time
end Arks.Instants
