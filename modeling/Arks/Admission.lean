import Mathlib.Data.Finset.Card
import Mathlib.Logic.Relation

/-!
Check first, count later. Parties look at a counter, and those that find it at most at a
threshold add to it at a later moment, whatever it has become by then. The counter belongs
to one window of time; a party may look at the counter of an earlier window and still add to
this one. `total_le` bounds the overshoot by the parties that were under way when the
counter crossed the threshold. Of the events, which are of any type, `opens` tells those by
which a party sets out, and `adds` those by which it adds.
-/
namespace Arks.Admission

variable {E ι : Type}

/-- How far a party has come: it has set out in a window, has read a value there,
    is to add in a window, or has added. -/
inductive Stage
  | idle
  | opened (w : Int)
  | read (w v : Int)
  | charging (w : Int)
  | charged
deriving DecidableEq

/-- The counter of one window, with its first value, the threshold up to which
    parties are admitted and the largest amount that one of them adds. -/
structure Counter (E ι : Type) where
  window : Int
  base : Int
  threshold : Int
  largest : Int
  opens : E → ι → Prop
  adds : E → Option (ι × Int)

/-- The events so far are kept with the newest first. -/
structure State (E ι : Type) where
  now : Int
  stage : ι → Stage
  trace : List E

variable (C : Counter E ι)

/-- The sum of what was added. -/
def Counter.total : List E → Int
  | [] => 0
  | e :: earlier => ((C.adds e).elim 0 Prod.snd) + Counter.total earlier

section Steps
variable [DecidableEq ι]

inductive Step : State E ι → State E ι → Prop
  | pass {s : State E ι} {t : Int} : s.now ≤ t → Step s { s with now := t }
  | other {s : State E ι} {e : E} : C.adds e = none → Step s { s with trace := e :: s.trace }
  | opens {s : State E ι} {i : ι} {e : E} : s.stage i = .idle → C.opens e i → C.adds e = none →
      Step s { s with stage := Function.update s.stage i (.opened s.now),trace := e :: s.trace }
  /-- The value is right as long as the window lasts. -/
  | reads {s : State E ι} {i : ι} {w v : Int} : s.stage i = .opened w →
      (w = C.window → s.now = C.window → v = C.base + C.total s.trace) →
      Step s { s with stage := Function.update s.stage i (.read w v) }
  | aims {s : State E ι} {i : ι} {w v : Int} : s.stage i = .read w v → v ≤ C.threshold →
      (w ≠ C.window → C.base ≤ C.threshold) →
      Step s { s with stage := Function.update s.stage i (.charging s.now) }
  | adds {s : State E ι} {i : ι} {e : E} {x : Int} : s.stage i = .charging C.window → C.adds e = some (i,x) → 0 ≤ x →
      x ≤ C.largest → Step s { s with stage := Function.update s.stage i .charged,trace := e :: s.trace }
  | elsewhere {s : State E ι} {i : ι} {e : E} {w : Int} : s.stage i = .charging w → C.adds e = none →
      Step s { s with stage := Function.update s.stage i .charged,trace := e :: s.trace }

/-- Everything that can happen after nobody has set out yet. -/
def Reachable (s : State E ι) : Prop := ∃ now, Relation.ReflTransGen (Step C) ⟨now,fun _ => .idle,[]⟩ s

end Steps

/-! ### The invariant -/

/-- Party `i` set out when what had happened was as `P` says. -/
def Opened (trace : List E) (i : ι) (P : List E → Prop) : Prop :=
  ∃ later e earlier, trace = later ++ e :: earlier ∧ C.opens e i ∧ C.adds e = none ∧ P earlier

/-- What a stage says about the moment the party set out. -/
def Fits (now : Int) (trace : List E) (i : ι) : Stage → Prop
  | .idle => True
  | .opened w => w ≤ now ∧ Opened C trace i (fun earlier => w < C.window → C.total earlier = 0)
  | .read w v => w ≤ now ∧ Opened C trace i (fun earlier => (w < C.window → C.total earlier = 0) ∧
      (w = C.window → now = C.window → C.base + C.total earlier ≤ v))
  | .charging w => w ≤ now ∧ (w = C.window → Opened C trace i (fun earlier => C.base + C.total earlier ≤ C.threshold))
  | .charged => True

structure Sound (s : State E ι) : Prop where
  early : s.now < C.window → C.total s.trace = 0
  sizes : ∀ e ∈ s.trace, ∀ i x, C.adds e = some (i,x) → 0 ≤ x ∧ x ≤ C.largest
  stages : ∀ i, Fits C s.now s.trace i (s.stage i)
  admitted : ∀ e ∈ s.trace, ∀ i x, C.adds e = some (i,x) → s.stage i = .charged ∧
    Opened C s.trace i (fun earlier => C.base + C.total earlier ≤ C.threshold)
  once : ((s.trace.filterMap C.adds).map Prod.fst).Nodup

variable {C}

theorem total_append (later earlier : List E) : C.total (later ++ earlier) = C.total later + C.total earlier := by
  induction later with
  | nil => simp [Counter.total]
  | cons e later ih => simp only [List.cons_append,Counter.total,ih]; omega

variable {trace : List E} {i : ι}

theorem total_nonneg (sizes : ∀ e ∈ trace, ∀ i x, C.adds e = some (i,x) → 0 ≤ x ∧ x ≤ C.largest) :
    0 ≤ C.total trace := by
  induction trace with
  | nil => exact le_refl 0
  | cons e trace ih =>
    have rest := ih (fun x member => sizes x (.tail _ member))
    cases adds : C.adds e with
    | none => simpa [Counter.total,adds] using rest
    | some added =>
      have := (sizes e (.head _) added.1 added.2 adds).1
      simp only [Counter.total,adds,Option.elim_some]
      omega

theorem total_mono {later earlier : List E}
    (sizes : ∀ e ∈ later ++ earlier, ∀ i x, C.adds e = some (i,x) → 0 ≤ x ∧ x ≤ C.largest) :
    C.total earlier ≤ C.total (later ++ earlier) := by
  have := total_nonneg (fun e member => sizes e (List.mem_append_left earlier member))
  rw [total_append]
  omega

theorem opened_imp {P Q : List E → Prop} (opened : Opened C trace i P)
    (weaker : ∀ later e earlier, trace = later ++ e :: earlier → P earlier → Q earlier) : Opened C trace i Q := by
  obtain ⟨later,e,earlier,split,opens,silent,holds⟩ := opened
  exact ⟨later,e,earlier,split,opens,silent,weaker later e earlier split holds⟩

theorem opened_cons {P : List E → Prop} (e : E) (opened : Opened C trace i P) : Opened C (e :: trace) i P := by
  obtain ⟨later,o,earlier,rfl,opens,silent,holds⟩ := opened
  exact ⟨e :: later,o,earlier,rfl,opens,silent,holds⟩

theorem fits_cons {now : Int} {stage : Stage} (e : E) (fits : Fits C now trace i stage) :
    Fits C now (e :: trace) i stage := by
  cases stage with
  | idle => trivial
  | opened | read => exact ⟨fits.1,opened_cons e fits.2⟩
  | charging w => exact ⟨fits.1,fun here => opened_cons e (fits.2 here)⟩
  | charged => trivial

private theorem fits_pass {now t : Int} {stage : Stage} (later : now ≤ t)
    (fits : Fits C now trace i stage) : Fits C t trace i stage := by
  cases stage with
  | idle => trivial
  | opened w => exact ⟨fits.1.trans later,fits.2⟩
  | read w v =>
    refine ⟨fits.1.trans later,opened_imp fits.2 ?_⟩
    rintro _ _ earlier _ ⟨before,during⟩
    refine ⟨before,fun here still => during here ?_⟩
    have := fits.1
    omega
  | charging w => exact ⟨fits.1.trans later,fits.2⟩
  | charged => trivial

section Preservation
variable {s s' : State E ι}

/-- A party moves to a stage that fits, and nothing is added. -/
theorem sound_moved [DecidableEq ι] (sound : Sound C s) {stage : Stage} (unfinished : s.stage i ≠ .charged)
    (fits : Fits C s.now s.trace i stage) : Sound C { s with stage := Function.update s.stage i stage } := by
  refine ⟨sound.early,sound.sizes,fun j => ?_,fun e member j x adds => ?_,sound.once⟩
  · by_cases same : j = i
    · subst same
      simpa using fits
    · simpa [Function.update_of_ne same] using sound.stages j
  · obtain ⟨finished,opened⟩ := sound.admitted e member j x adds
    have other : j ≠ i := fun same => unfinished (same ▸ finished)
    exact ⟨by simpa [Function.update_of_ne other] using finished,opened⟩

/-- An event that adds nothing. -/
theorem sound_event (sound : Sound C s) {e : E} (silent : C.adds e = none) : Sound C { s with trace := e :: s.trace } := by
  have kept : C.total (e :: s.trace) = C.total s.trace := by simp [Counter.total,silent]
  refine ⟨fun early => kept.trans (sound.early early),?_,fun i => fits_cons e (sound.stages i),?_,?_⟩
  · intro a member i x adds
    rcases List.mem_cons.mp member with rfl | member
    · rw [silent] at adds
      cases adds
    · exact sound.sizes a member i x adds
  · intro a member i x adds
    rcases List.mem_cons.mp member with rfl | member
    · rw [silent] at adds
      cases adds
    · obtain ⟨finished,opened⟩ := sound.admitted a member i x adds
      exact ⟨finished,opened_cons e opened⟩
  · simpa [List.filterMap_cons,silent] using sound.once

variable [DecidableEq ι]

private theorem sound_added (sound : Sound C s) {e : E} {x : Int} (charging : s.stage i = .charging C.window)
    (adds : C.adds e = some (i,x)) (low : 0 ≤ x) (high : x ≤ C.largest) :
    Sound C { s with stage := Function.update s.stage i .charged,trace := e :: s.trace } := by
  have mine := sound.stages i
  rw [charging] at mine
  obtain ⟨begun,opened⟩ := mine
  refine ⟨fun early => absurd early (not_lt.mpr begun),?_,?_,?_,?_⟩
  · intro a member j y added
    rcases List.mem_cons.mp member with rfl | member
    · rw [adds] at added
      cases added
      exact ⟨low,high⟩
    · exact sound.sizes a member j y added
  · intro j
    by_cases same : j = i
    · subst same
      simp [Fits]
    · simpa [Function.update_of_ne same] using fits_cons e (sound.stages j)
  · intro a member j y added
    rcases List.mem_cons.mp member with rfl | member
    · rw [adds] at added
      cases added
      exact ⟨by simp,opened_cons a (opened rfl)⟩
    · obtain ⟨finished,opened'⟩ := sound.admitted a member j y added
      refine ⟨?_,opened_cons e opened'⟩
      by_cases same : j = i
      · simp [same]
      · simpa [Function.update_of_ne same] using finished
  · simp only [List.filterMap_cons,adds,List.map_cons,List.nodup_cons]
    refine ⟨?_,sound.once⟩
    -- who has added is charged, and party `i` was still to charge
    simp only [List.mem_map,List.mem_filterMap,not_exists,not_and]
    rintro ⟨j,y⟩ ⟨a,member,added⟩ rfl
    have finished := (sound.admitted a member _ _ added).1
    rw [charging] at finished
    cases finished

private theorem step_sound (sound : Sound C s) (step : Step C s s') : Sound C s' := by
  cases step with
  | @pass t later =>
    refine ⟨fun early => sound.early (lt_of_le_of_lt later early),sound.sizes,fun i => fits_pass later (sound.stages i),
      sound.admitted,sound.once⟩
  | other silent => exact sound_event sound silent
  | @opens i e idle opens silent =>
    refine sound_moved (sound_event sound silent) (by simp [idle]) ?_
    exact ⟨le_refl _,[],e,s.trace,rfl,opens,silent,fun early => sound.early early⟩
  | @reads i w v opened value =>
    have mine := sound.stages i
    rw [opened] at mine
    refine sound_moved sound (by simp [opened]) ⟨mine.1,opened_imp mine.2 ?_⟩
    intro later e earlier split before
    refine ⟨before,fun here still => ?_⟩
    have grown : C.total earlier ≤ C.total s.trace := by
      have sizes := sound.sizes
      rw [split,← List.singleton_append,← List.append_assoc] at sizes ⊢
      exact total_mono sizes
    rw [value here still]
    omega
  | @aims i w v read low aside =>
    have mine := sound.stages i
    rw [read] at mine
    refine sound_moved sound (by simp [read]) ⟨le_refl _,fun here => opened_imp mine.2 ?_⟩
    rintro _ _ earlier _ ⟨before,during⟩
    have := mine.1
    by_cases same : w = C.window
    · exact (during same here).trans low
    · have := aside same
      have := before (by omega)
      omega
  | adds charging adds low high => exact sound_added sound charging adds low high
  | elsewhere charging silent => exact sound_moved (sound_event sound silent) (by simp [charging]) trivial

theorem reachable_sound (reachable : Reachable C s) : Sound C s := by
  obtain ⟨now,run⟩ := reachable
  induction run with
  | refl => exact ⟨fun _ => rfl,by simp,fun _ => trivial,by simp,by simp⟩
  | tail _ step ih => exact step_sound ih step

theorem reachable_step (reachable : Reachable C s) (step : Step C s s') : Reachable C s' := by
  obtain ⟨now,run⟩ := reachable
  exact ⟨now,run.tail step⟩

end Preservation

/-! ### The overshoot -/

/-- Party `i` has set out and is still to add, at the moment between the two parts of a trace. -/
def InFlight (opens adds : E → ι → Prop) (later earlier : List E) (i : ι) : Prop :=
  (∃ e ∈ earlier, opens e i) ∧ ∃ e ∈ later, adds e i

/-- At no moment of the trace are more than `k` parties in flight. -/
def AtMost (opens adds : E → ι → Prop) (k : Nat) (trace : List E) : Prop :=
  ∀ later earlier, trace = later ++ earlier → ∀ S : Finset ι, (∀ i ∈ S, InFlight opens adds later earlier i) → S.card ≤ k

theorem atMost_mono {opens adds adds' : E → ι → Prop} (fewer : ∀ e i, adds' e i → adds e i) {k : Nat}
    (few : AtMost opens adds k trace) : AtMost opens adds' k trace := by
  intro later earlier split S flying
  refine few later earlier split S (fun i member => ?_)
  obtain ⟨opened,e,inside,added⟩ := flying i member
  exact ⟨opened,e,inside,fewer e i added⟩

/-- For a trace of which little is written down: who sets out, and who adds. -/
theorem atMost_of_codes [Fintype ι] [DecidableEq ι] {opens adds : E → ι → Prop} {k : Nat}
    (code : E → Option (ι × Bool)) (opened : ∀ e i, opens e i → code e = some (i,false))
    (added : ∀ e i, adds e i → code e = some (i,true)) {codes : List (ι × Bool)} (same : trace.filterMap code = codes)
    (few : ∀ n ≤ codes.length,
      (Finset.univ.filter (fun i => (i,false) ∈ codes.drop n ∧ (i,true) ∈ codes.take n)).card ≤ k) : AtMost opens adds k trace := by
  intro later earlier split S flying
  have parts : later.filterMap code ++ earlier.filterMap code = codes := by rw [← List.filterMap_append,← split,same]
  refine le_trans (Finset.card_le_card (fun i member => ?_)) (few (later.filterMap code).length (by rw [← parts]; simp))
  obtain ⟨⟨e,inside,sets⟩,e',inside',adds⟩ := flying i member
  rw [← parts,List.drop_left,List.take_left,Finset.mem_filter]
  exact ⟨Finset.mem_univ i,List.mem_filterMap.mpr ⟨e,inside,opened e i sets⟩,List.mem_filterMap.mpr ⟨e',inside',added e' i adds⟩⟩

/-- The event is one by which party `i` adds to the counter. -/
def Counter.adder (C : Counter E ι) (e : E) (i : ι) : Prop := ∃ x, C.adds e = some (i,x)

/-- Either the sum stays below a bound or some event takes it across. -/
theorem crossing (bound : Int) (trace : List E) : C.total trace ≤ bound ∨ bound < 0 ∨
    ∃ later e earlier, trace = later ++ e :: earlier ∧ C.total earlier ≤ bound ∧ bound < C.total (e :: earlier) := by
  induction trace with
  | nil =>
    by_cases low : bound < 0
    · exact .inr (.inl low)
    · exact .inl (not_lt.mp low)
  | cons e trace ih =>
    rcases ih with below | low | ⟨later,a,earlier,rfl,below,above⟩
    · by_cases still : C.total (e :: trace) ≤ bound
      · exact .inl still
      · exact .inr (.inr ⟨[],e,trace,rfl,below,not_le.mp still⟩)
    · exact .inr (.inl low)
    · exact .inr (.inr ⟨e :: later,a,earlier,rfl,below,above⟩)

/-- What a part of a trace adds, by the number of those who add. -/
theorem total_le_adders (sizes : ∀ e ∈ trace, ∀ i x, C.adds e = some (i,x) → 0 ≤ x ∧ x ≤ C.largest) :
    C.total trace ≤ ((trace.filterMap C.adds).map Prod.fst).length * C.largest := by
  induction trace with
  | nil => simp [Counter.total]
  | cons e trace ih =>
    have rest := ih (fun x member => sizes x (.tail _ member))
    cases adds : C.adds e with
    | none => simpa [Counter.total,adds,List.filterMap_cons] using rest
    | some added =>
      have high := (sizes e (.head _) added.1 added.2 adds).2
      simp only [Counter.total,adds,Option.elim_some,List.filterMap_cons,List.map_cons,List.length_cons,Int.natCast_succ,
        Int.add_mul,Int.one_mul]
      omega

variable {s : State E ι}

/-- Whoever adds from the crossing on had set out before it. -/
theorem adders_in_flight (sound : Sound C s) {bound : Int} (admits : C.threshold ≤ C.base + bound) {later earlier : List E}
    {e : E} (split : s.trace = later ++ e :: earlier) (above : bound < C.total (e :: earlier)) {x : Int} {a : E}
    (member : a ∈ later ++ [e]) (adds : C.adds a = some (i,x)) (crosses : C.adds e ≠ none) :
    InFlight C.opens C.adder (later ++ [e]) earlier i := by
  refine ⟨?_,a,member,x,adds⟩
  have present : a ∈ s.trace := by
    rw [split]
    simp only [List.mem_append,List.mem_cons,List.not_mem_nil,or_false] at member ⊢
    tauto
  obtain ⟨_,later',o,earlier',split',opens,silent,low⟩ := sound.admitted a present i x adds
  rw [split] at split'
  rcases List.append_eq_append_iff.mp split' with ⟨middle,_,right⟩ | ⟨middle,_,right⟩
  · -- the party set out before the crossing, or at it
    cases middle with
    | nil =>
      obtain ⟨rfl,_⟩ := List.cons_eq_cons.mp right
      exact absurd silent crosses
    | cons b middle =>
      obtain ⟨_,rest⟩ := List.cons_eq_cons.mp right
      exact ⟨o,by rw [rest]; simp,opens⟩
  · -- it set out after the crossing: it would have found the counter too high
    cases middle with
    | nil =>
      obtain ⟨rfl,_⟩ := List.cons_eq_cons.mp right
      exact absurd silent crosses
    | cons b middle =>
      obtain ⟨_,rest⟩ := List.cons_eq_cons.mp right
      have grown : C.total (e :: earlier) ≤ C.total earlier' := by
        rw [rest]
        refine total_mono (fun y inside => sound.sizes y ?_)
        rw [split,split']
        exact List.mem_append_right _ (.tail _ (rest ▸ inside))
      omega

/-- With at most `k` parties in flight, the counter overshoots by what `k` of them add. -/
theorem total_le [DecidableEq ι] (sound : Sound C s) {k : Nat} (few : AtMost C.opens C.adder k s.trace)
    (largest : 0 ≤ C.largest) :
    C.base + C.total s.trace ≤ max C.base C.threshold + k * C.largest := by
  have slack : 0 ≤ (k : Int) * C.largest := Int.mul_nonneg (Int.natCast_nonneg k) largest
  rcases crossing (C := C) (max C.base C.threshold - C.base) s.trace with below | low | ⟨later,e,earlier,split,below,above⟩
  · omega
  · omega
  have crosses : C.adds e ≠ none := by
    intro silent
    simp only [Counter.total,silent,Option.elim_none] at above
    omega
  have whole : s.trace = (later ++ [e]) ++ earlier := by simpa using split
  have sizes : ∀ a ∈ later ++ [e], ∀ i x, C.adds a = some (i,x) → 0 ≤ x ∧ x ≤ C.largest :=
    fun a member => sound.sizes a (by rw [whole]; exact List.mem_append_left _ member)
  have distinct : (((later ++ [e]).filterMap C.adds).map Prod.fst).Nodup := by
    have once := sound.once
    rw [whole,List.filterMap_append,List.map_append] at once
    exact once.of_append_left
  have few' : (((later ++ [e]).filterMap C.adds).map Prod.fst).length ≤ k := by
    rw [← List.toFinset_card_of_nodup distinct]
    refine few _ _ whole _ (fun i listed => ?_)
    simp only [List.mem_toFinset,List.mem_map,List.mem_filterMap] at listed
    obtain ⟨⟨j,x⟩,⟨a,member,adds⟩,rfl⟩ := listed
    exact adders_in_flight sound (by omega) split above member adds crosses
  have added := total_le_adders sizes
  have capped : ((((later ++ [e]).filterMap C.adds).map Prod.fst).length : Int) * C.largest ≤ k * C.largest :=
    Int.mul_le_mul_of_nonneg_right (by exact_mod_cast few') largest
  rw [whole,total_append]
  omega

/-- When the threshold is below the first value, nobody is admitted. -/
theorem total_zero (sound : Sound C s) (closed : C.threshold < C.base) : C.total s.trace = 0 := by
  have nobody : ∀ e ∈ s.trace, C.adds e = none := by
    intro e member
    by_contra adds
    obtain ⟨⟨i,x⟩,adds⟩ := Option.ne_none_iff_exists'.mp adds
    obtain ⟨_,later,o,earlier,split,_,_,low⟩ := sound.admitted e member i x adds
    have := total_nonneg (fun a inside => sound.sizes a (by
      rw [split]
      exact List.mem_append_right _ (.tail _ inside)) : ∀ a ∈ earlier, _)
    omega
  generalize s.trace = trace at nobody
  induction trace with
  | nil => rfl
  | cons e trace ih =>
    simp only [Counter.total,nobody e List.mem_cons_self,Option.elim_none,Int.zero_add]
    exact ih (fun a member => nobody a (.tail _ member))

end Arks.Admission
