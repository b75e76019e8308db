import Arks.Counters

/-!
The windows of the limiter on the clock that `getWindowStart` really reads. It turns
a Unix second into a `time.Time`, and a `time.Time` counts in an `int64` from year 1:
seconds up to `2^63 - unixToInternal` can be kept, and on them the computed start is
the one the other modules count with. There the windows partition time.
-/
namespace Arks.Boundaries
open Floors Counters
open Instants (int64_fits)
open Instants.Time (ofUnix Kept unix_truncate)

/-- `getWindowStart`, in the arithmetic of `time.Time`. -/
def getWindowStart (now : Int) (rule : LimitRuleConfig) : Int := ((ofUnix now).truncate (windowSize rule)).unix

/-- `rule.Period * UnitToSeconds(rule.Unit)`, an `int64` product. -/
def windowSeconds (rule : LimitRuleConfig) : Int := int64 (rule.period * unitToSeconds rule.unit)

/-- What a Unix clock shows: a second since the epoch that a `time.Time` can keep. -/
def Shown (now : Int) : Prop := 0 ≤ now ∧ now + unixToInternal < 2 ^ 63

theorem Shown.kept {now : Int} (shown : Shown now) : Kept now := by
  obtain ⟨low,high⟩ := shown
  refine ⟨?_,high⟩
  unfold Instants.unixToInternal
  omega

private theorem windowSize_lt (rule : LimitRuleConfig) : windowSize rule < 2 ^ 63 := (int64_fits _).2

/-- On every second that can be kept, for any rule, the computed start is the one of
    exact arithmetic. -/
theorem getWindowStart_exact {now : Int} (kept : Kept now) (rule : LimitRuleConfig) :
    getWindowStart now rule = Counters.getWindowStart now rule := by
  have shifted : (now + unixToInternal) * second = now * second + unixToInternal * second := Int.add_mul ..
  have computed := unix_truncate kept (windowSize_lt rule)
  change getWindowStart now rule = (if windowSize rule ≤ 0 then (now + unixToInternal) * second
    else (now + unixToInternal) * second - (now + unixToInternal) * second % windowSize rule) / second - unixToInternal at computed
  rw [computed,shifted]
  unfold Counters.getWindowStart Counters.truncate Counters.unix
  split_ifs with long
  · unfold second unixToInternal
    omega
  · generalize (now * second + unixToInternal * second) % windowSize rule = r
    unfold second unixToInternal
    omega

/-- The seconds at which a window of the rule begins. -/
def boundaries (rule : LimitRuleConfig) : Set Int := {b | ∃ now, Shown now ∧ getWindowStart now rule = b}

variable {rule : LimitRuleConfig} {now now' : Int}

/-- The windows of a rule with a positive size whose duration does not overflow. -/
theorem lasts_windowSeconds (positive : 0 < windowSeconds rule) (fits : windowSeconds rule * second < 2 ^ 63) :
    Lasts rule (windowSeconds rule) := by
  have nonneg : 0 ≤ windowSeconds rule * second := Int.mul_nonneg (le_of_lt positive) (by decide)
  exact ⟨positive,int64_of_fits ⟨le_trans (by decide) nonneg,fits⟩⟩

theorem getWindowStart_shown (lasts : Lasts rule (windowSeconds rule)) :
    FloorOn (aligned unixToInternal (windowSeconds rule)) {now | Shown now} (getWindowStart · rule) :=
  (getWindowStart_floor lasts).congr (Set.subset_univ _) (fun _ shown => getWindowStart_exact shown.kept rule)

/-- A rule of the limiter counts by the minute or by the day. -/
theorem newLimitConfig_seconds {name : String} (known : newLimitConfig.getRule name = some rule) :
    windowSeconds rule = 60 ∨ windowSeconds rule = 86400 := by
  simp only [newLimitConfig,LimitConfig.getRule,LimitConfig.addRule,LimitConfig.empty] at known
  split_ifs at known with isTpd isTpm isRpd isRpm
  · cases known; exact .inr (by decide)
  · cases known; exact .inl (by decide)
  · cases known; exact .inr (by decide)
  · cases known; exact .inl (by decide)

/-- Year 1 began at midnight, so the windows of a limiter's rule lie on whole minutes
    or days of Unix time. -/
theorem windowSeconds_dvd_start (shown : Shown now) (size : windowSeconds rule = 60 ∨ windowSeconds rule = 86400) :
    windowSeconds rule ∣ getWindowStart now rule := by
  have positive : 0 < windowSeconds rule := by omega
  have fits : windowSeconds rule * second < 2 ^ 63 := by
    unfold second
    omega
  have midnight : windowSeconds rule ∣ unixToInternal := by
    rcases size with minute | day
    · rw [minute]
      decide
    · rw [day]
      decide
  have start := (getWindowStart_shown (lasts_windowSeconds positive fits)).mem shown
  exact (mem_aligned_of_dvd midnight).mp start

/-- On every second a Unix clock can show, windows partition time: the clock lies in
    its window, starts do not go back, two seconds share a window exactly when none
    begins between them, and the windows of the limiter's rules begin at whole
    minutes or UTC days. -/
theorem windows_partition_time (rule : LimitRuleConfig) {now now' : Int} (shown : Shown now) (shown' : Shown now') :
    (0 < windowSeconds rule → windowSeconds rule * second < 2 ^ 63 →
      (getWindowStart now rule ≤ now ∧ now < getWindowStart now rule + windowSeconds rule) ∧
      (now ≤ now' → getWindowStart now rule ≤ getWindowStart now' rule) ∧
      (getWindowStart now rule = getWindowStart now' rule ↔ ∀ b ∈ boundaries rule, b ∉ Set.uIoc now now')) ∧
    (∀ name, newLimitConfig.getRule name = some rule →
      (windowSeconds rule = 60 ∨ windowSeconds rule = 86400) ∧ windowSeconds rule ∣ getWindowStart now rule) := by
  refine ⟨?_,?_⟩
  · intro positive fits
    have lasts := lasts_windowSeconds positive fits
    have floor := getWindowStart_shown lasts
    have inside : now < getWindowStart now rule + windowSeconds rule := by
      rw [getWindowStart_exact shown.kept]
      exact lt_getWindowStart_add lasts now
    exact ⟨⟨floor.le shown,inside⟩,floor.monotoneOn shown shown',floor.image.eq_iff shown shown'⟩
  · intro name known
    have size := newLimitConfig_seconds known
    exact ⟨size,windowSeconds_dvd_start shown size⟩

/-- The rule of requests per minute. -/
def rpm : LimitRuleConfig := ⟨"rpm",.request,1,.minute⟩

/-- The minute rule at the epoch and at the last second that can be kept. -/
theorem windows_partition_time_rpm :
    Shown 0 ∧ Shown 9223371974719179007 ∧ 0 < windowSeconds rpm ∧ windowSeconds rpm * second < 2 ^ 63 ∧
      newLimitConfig.getRule "rpm" = some rpm ∧
      9223371974719179007 < getWindowStart 9223371974719179007 rpm + 60 ∧
      getWindowStart 0 rpm ≤ getWindowStart 9223371974719179007 rpm ∧
      60 ∣ getWindowStart 9223371974719179007 rpm := by
  have first : Shown 0 := ⟨by decide,by decide⟩
  have last : Shown 9223371974719179007 := ⟨by decide,by decide⟩
  have partition := windows_partition_time rpm last last
  have between := windows_partition_time rpm first last
  have positive : 0 < windowSeconds rpm := by decide
  have fits : windowSeconds rpm * second < 2 ^ 63 := by decide
  exact ⟨first,last,positive,fits,rfl,(partition.1 positive fits).1.2,(between.1 positive fits).2.1 (by decide),
    (partition.2 "rpm" rfl).2⟩

/-- Past the last second that can be kept, `time.Unix` wraps around to before year 1:
    a window may then start after the clock, and off the minute. -/
theorem window_starts_late :
    newLimitConfig.getRule "rpm" = some rpm ∧ windowSeconds rpm = 60 ∧ windowSeconds rpm * second < 2 ^ 63 ∧
      (9223371974719179008 : Int) < 2 ^ 63 ∧
      getWindowStart 9223371974719179008 rpm = 9223371974719179009 ∧
      getWindowStart (2 ^ 63 - 1) rpm = 9223372036854775756 ∧ ¬ (60 : Int) ∣ 9223372036854775756 := by
  refine ⟨rfl,?_,?_,?_,?_,?_,?_⟩ <;> decide

end Arks.Boundaries
