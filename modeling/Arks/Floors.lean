import Mathlib.Order.Interval.Set.UnorderedInterval
import Mathlib.Algebra.Order.Group.Unbundled.Int

/-!
Rounding down to boundaries. A function that takes each point to the last boundary
that is not after it is monotone, and it takes two points to one boundary exactly
when no boundary lies between them; nothing else about the boundaries is needed.
On the integers the boundaries that repeat every `s` from an origin are reached by
subtracting the remainder.
-/
namespace Arks.Floors

variable {α : Type*} [LinearOrder α] {boundaries domain smaller : Set α} {f g : α → α} {x y : α}

/-- On the domain, `f` takes each point to the last boundary that is not after it. -/
def FloorOn (boundaries domain : Set α) (f : α → α) : Prop :=
  ∀ x ∈ domain, IsGreatest {b ∈ boundaries | b ≤ x} (f x)

theorem FloorOn.mem (floor : FloorOn boundaries domain f) (inside : x ∈ domain) : f x ∈ boundaries :=
  (floor x inside).1.1

theorem FloorOn.le (floor : FloorOn boundaries domain f) (inside : x ∈ domain) : f x ≤ x :=
  (floor x inside).1.2

theorem FloorOn.greatest (floor : FloorOn boundaries domain f) (inside : x ∈ domain) {b : α}
    (boundary : b ∈ boundaries) (before : b ≤ x) : b ≤ f x :=
  (floor x inside).2 ⟨boundary,before⟩

theorem FloorOn.monotoneOn (floor : FloorOn boundaries domain f) : MonotoneOn f domain := by
  intro x xInside y yInside le
  exact floor.greatest yInside (floor.mem xInside) ((floor.le xInside).trans le)

private theorem floor_eq_of_le (floor : FloorOn boundaries domain f) (xInside : x ∈ domain)
    (yInside : y ∈ domain) (le : x ≤ y) : f x = f y ↔ ∀ b ∈ boundaries, b ∉ Set.Ioc x y := by
  constructor
  · intro same b boundary between
    have late : b ≤ f x := same ▸ floor.greatest yInside boundary between.2
    exact absurd (late.trans (floor.le xInside)) (not_le_of_gt between.1)
  · intro none
    refine le_antisymm (floor.monotoneOn xInside yInside le) ?_
    -- the boundary below `y` is not after `x`, so it is below `f x` too
    have early : f y ≤ x := by
      by_contra after
      exact none (f y) (floor.mem yInside) ⟨lt_of_not_ge after,floor.le yInside⟩
    exact floor.greatest xInside (floor.mem yInside) early

/-- Two points have the same floor exactly when no boundary separates them. -/
theorem FloorOn.eq_iff (floor : FloorOn boundaries domain f) (xInside : x ∈ domain) (yInside : y ∈ domain) :
    f x = f y ↔ ∀ b ∈ boundaries, b ∉ Set.uIoc x y := by
  rcases le_total x y with le | le
  · rw [Set.uIoc_of_le le]
    exact floor_eq_of_le floor xInside yInside le
  · rw [Set.uIoc_of_ge le,eq_comm]
    exact floor_eq_of_le floor yInside xInside le

/-- Only the boundaries that are reached matter. -/
theorem FloorOn.image (floor : FloorOn boundaries domain f) : FloorOn (Set.image f domain) domain f := by
  intro x inside
  refine ⟨⟨⟨x,inside,rfl⟩,floor.le inside⟩,?_⟩
  rintro _ ⟨⟨t,tInside,rfl⟩,before⟩
  exact floor.greatest inside (floor.mem tInside) before

/-- A function that agrees with a floor on part of its domain is a floor there. -/
theorem FloorOn.congr (floor : FloorOn boundaries domain f) (sub : smaller ⊆ domain)
    (agree : ∀ x ∈ smaller, g x = f x) : FloorOn boundaries smaller g := by
  intro x inside
  rw [agree x inside]
  exact floor x (sub inside)

/-! ### Boundaries at regular intervals -/

/-- The integers at a whole number of intervals `s` from `-origin`. -/
def aligned (origin s : ℤ) : Set ℤ := {b | s ∣ b + origin}

theorem mem_aligned_of_dvd {origin s b : ℤ} (whole : s ∣ origin) : b ∈ aligned origin s ↔ s ∣ b :=
  Int.dvd_add_left whole

theorem floorOn_aligned (origin : ℤ) {s : ℤ} (positive : 0 < s) :
    FloorOn (aligned origin s) Set.univ (fun x => x - (x + origin) % s) := by
  intro x _
  refine ⟨⟨?_,?_⟩,?_⟩
  · have shifted : x - (x + origin) % s + origin = x + origin - (x + origin) % s := by omega
    show s ∣ x - (x + origin) % s + origin
    rw [shifted]
    exact Int.dvd_self_sub_emod
  · exact Int.sub_le_self x (Int.emod_nonneg (x + origin) (ne_of_gt positive))
  · rintro b ⟨⟨count,exact⟩,before⟩
    -- `count` intervals fit below `x`, and the quotient is the most that do
    have fits : count ≤ (x + origin) / s := by
      rw [Int.le_ediv_iff_mul_le positive,Int.mul_comm]
      omega
    have scaled := Int.mul_le_mul_of_nonneg_left fits (le_of_lt positive)
    have division := Int.emod_add_mul_ediv (x + origin) s
    show b ≤ x - (x + origin) % s
    omega

end Arks.Floors
