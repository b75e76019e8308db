import Arks.Effects

/-!
The counters of one limit, a key for each time window. While a window lasts, Redis
holds exactly what was counted in it. An expiry is set for a whole window from the
moment of an increment, no key is counted under before its window has begun, and so
no key is gone before its window ends.
-/
namespace Arks.Windows
open Programs Counters Effects

/-- What Redis holds under the keys of windows of `s` seconds. -/
structure Kept (key : Int → String) (s : Int) (w : World) : Prop where
  begun : ∀ start cell, w.redis (key start) = some cell → start * second ≤ w.clock
  lasting : ∀ start cell, w.redis (key start) = some cell → ∀ x ∈ cell.expireAt, (start + s) * second ≤ x
  current : ∀ start, w.clock < (start + s) * second →
    ((w.redis (key start)).map Cell.value).getD 0 = charged (key start) w.increments

/-- What may be done to the keys: an increment once the window has begun, an expiry
    after a whole window. -/
def Proper (key : Int → String) (s clock : Int) : Op → Prop
  | .incrBy k _ => ∀ start, k = key start → start * second ≤ clock
  | .expire k seconds => ∀ start, k = key start → s ≤ seconds
  | .set k _ => ∀ start, k ≠ key start
  | _ => True

theorem put_same {w : World} {k : String} {cell : Option Cell} : (w.put k cell).redis k = cell := if_pos rfl

theorem put_other {w : World} {k k' : String} {cell : Option Cell} (other : k' ≠ k) :
    (w.put k cell).redis k' = w.redis k' := if_neg other

variable {key : Int → String} {s : Int} {w w' : World}

/-- A key is there as long as its window lasts. -/
theorem cell_current (kept : Kept key s w) {start : Int} (lasts : w.clock < (start + s) * second) :
    w.cell (key start) = w.redis (key start) := by
  unfold World.cell
  cases found : w.redis (key start) with
  | none => rfl
  | some cell =>
    have live : cell.live w.clock = true := by
      unfold Cell.live
      cases expires : cell.expireAt with
      | none => rfl
      | some x =>
        have := kept.lasting start cell found x expires
        exact decide_eq_true (by omega)
    simp [Option.filter,live]

theorem value_current (kept : Kept key s w) {start : Int} (lasts : w.clock < (start + s) * second) :
    w.value (key start) = charged (key start) w.increments := by
  unfold World.value
  rw [cell_current kept lasts]
  exact kept.current start lasts

/-- A move that leaves the keys alone; time may pass. -/
theorem kept_aside (kept : Kept key s w) (redis : ∀ start, w'.redis (key start) = w.redis (key start))
    (increments : ∀ start, charged (key start) w'.increments = charged (key start) w.increments)
    (clock : w.clock ≤ w'.clock) : Kept key s w' := by
  refine ⟨?_,?_,?_⟩
  · intro start cell found
    rw [redis] at found
    exact (kept.begun start cell found).trans clock
  · intro start cell found
    rw [redis] at found
    exact kept.lasting start cell found
  · intro start lasts
    rw [redis,increments]
    exact kept.current start (lt_of_le_of_lt clock lasts)

/-- An increment in a window that has begun. -/
theorem kept_counted (kept : Kept key s w) (distinct : Function.Injective key) {start : Int} (n : Int)
    (begun : start * second ≤ w.clock) :
    Kept key s { w.put (key start) (some ⟨w.value (key start) + n,(w.cell (key start)).bind Cell.expireAt⟩) with
      increments := (key start,n) :: w.increments } := by
  refine ⟨?_,?_,?_⟩
  · intro other cell found
    by_cases same : other = start
    · rw [same]
      exact begun
    · exact kept.begun other cell ((put_other (fun keys => same (distinct keys))).symm.trans found)
  · intro other cell found
    by_cases same : other = start
    · subst same
      cases put_same.symm.trans found
      intro x expires
      obtain ⟨old,stored,kept'⟩ := Option.bind_eq_some_iff.mp expires
      exact kept.lasting other old (Option.eq_some_of_filter_eq_some stored) x kept'
    · exact kept.lasting other cell ((put_other (fun keys => same (distinct keys))).symm.trans found)
  · intro other lasts
    by_cases same : other = start
    · subst same
      have value := value_current kept lasts
      change (((w.put (key other) _).redis (key other)).map Cell.value).getD 0 = _
      rw [put_same,charged,if_pos rfl,value]
      simp only [Option.map_some,Option.getD_some]
      omega
    · have apart : key other ≠ key start := fun keys => same (distinct keys)
      change (((w.put (key start) _).redis (key other)).map Cell.value).getD 0 = _
      rw [put_other apart,charged,if_neg (Ne.symm apart),Int.zero_add]
      exact kept.current other lasts

/-- An expiry after a whole window or more. -/
theorem kept_expire (kept : Kept key s w) (distinct : Function.Injective key) {start seconds : Int} {cell : Cell}
    (stored : w.cell (key start) = some cell) (long : s ≤ seconds) :
    Kept key s (w.put (key start) (some ⟨cell.value,some (w.clock + seconds * second)⟩)) := by
  have found := Option.eq_some_of_filter_eq_some stored
  have begun := kept.begun start cell found
  refine ⟨?_,?_,?_⟩
  · intro other c found'
    by_cases same : other = start
    · rw [same]
      exact begun
    · exact kept.begun other c ((put_other (fun keys => same (distinct keys))).symm.trans found')
  · intro other c found'
    by_cases same : other = start
    · subst same
      cases put_same.symm.trans found'
      intro x expires
      cases expires
      -- the key is of a window that has begun, so a whole window from now reaches its end
      have : s * second ≤ seconds * second := Int.mul_le_mul_of_nonneg_right long (by decide)
      rw [Int.add_mul]
      omega
    · exact kept.lasting other c ((put_other (fun keys => same (distinct keys))).symm.trans found')
  · intro other lasts
    by_cases same : other = start
    · subst same
      have value := kept.current other lasts
      rw [found] at value
      rw [put_same]
      exact value
    · rw [put_other (fun keys => same (distinct keys))]
      exact kept.current other lasts

/-- Every proper operation keeps the counters. -/
theorem kept_acts {fails : Op → Prop} (kept : Kept key s w) (distinct : Function.Injective key) (positive : 0 < s) {op : Op}
    {r : Reply op} (proper : Proper key s w.clock op) (act : Acts fails w op r w') (heard : Heard op r) : Kept key s w' := by
  cases redis : op.isRedis with
  | false =>
    obtain ⟨cells,log,clock⟩ := acts_aside act redis
    exact kept_aside kept (fun _ => by rw [cells]) (fun _ => by rw [log]) clock.ge
  | true =>
    obtain ⟨rfl,rfl⟩ := acts_heard act heard redis
    cases op with
    | get k =>
      simp only [perform]
      split <;> exact kept
    | ttl k => exact kept
    | set k value => exact kept_aside kept (fun start => put_other (Ne.symm (proper start))) (fun _ => rfl) (le_refl _)
    | incrBy k n =>
      simp only [perform]
      split
      · by_cases mine : ∃ start, k = key start
        · obtain ⟨start,rfl⟩ := mine
          exact kept_counted kept distinct n (proper start rfl)
        · have other : ∀ start, key start ≠ k := fun start same => mine ⟨start,same.symm⟩
          exact kept_aside kept (fun start => put_other (other start))
            (fun start => by simp [charged,Ne.symm (other start)]) (le_refl _)
      · exact kept
    | expire k seconds =>
      simp only [perform]
      cases stored : w.cell k with
      | none => exact kept
      | some cell =>
        by_cases mine : ∃ start, k = key start
        · obtain ⟨start,rfl⟩ := mine
          have long := proper start rfl
          simp only [show ¬ seconds ≤ 0 by omega,if_false]
          exact kept_expire kept distinct stored long
        · have other : ∀ start, key start ≠ k := fun start same => mine ⟨start,same.symm⟩
          exact kept_aside kept (fun start => put_other (other start)) (fun _ => rfl) (le_refl _)
    | _ => cases redis

theorem kept_passes (kept : Kept key s w) (passed : Passes w w') : Kept key s w' := by
  cases passed with
  | tick later => exact kept_aside kept (fun _ => rfl) (fun _ => rfl) later
  | tokens _ | endpoints _ | quotaSpec _ _ | newQuota _ _ =>
    exact kept_aside kept (fun _ => rfl) (fun _ => rfl) (le_refl _)

end Arks.Windows
