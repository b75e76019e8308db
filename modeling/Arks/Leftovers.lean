import Arks.Responses

/-!
What a session leaves behind in the maps of the process. The pieces of a response that
is not streamed are dropped with the last of them. The time that the response took is
dropped when one and the same message ends the stream and completes the response, and
it is stored again by any message that comes after.
-/
namespace Arks.Leftovers
open Programs Gateway Interfaces Exchanges Responses
open Effects (Bytes)

/-- What holds of the newest of the elements that pass a test. -/
def Newest {α : Type} (test : α → Prop) (Q : α → List α → Prop) (xs : List α) : Prop :=
  ∀ newer x older, xs = newer ++ x :: older → (∀ y ∈ newer, ¬ test y) → test x → Q x older

section Newest
variable {α : Type} {test : α → Prop} {Q : α → List α → Prop} {x : α} {xs : List α}

theorem newest_nil : Newest test Q [] := by
  intro newer y older split
  simp at split

theorem newest_here (passes : test x) : Newest test Q (x :: xs) ↔ Q x xs := by
  constructor
  · exact fun newest => newest [] x xs rfl (by simp) passes
  · intro holds newer y older split fails _
    cases newer with
    | nil =>
      cases split
      exact holds
    | cons z newer =>
      cases split
      exact absurd passes (fails x (by simp))

theorem newest_skip (fails : ¬ test x) : Newest test Q (x :: xs) ↔ Newest test Q xs := by
  constructor
  · intro newest newer y older split later
    refine newest (x :: newer) y older (by rw [split]; rfl) ?_
    intro z member
    rcases List.mem_cons.mp member with rfl | member
    · exact fails
    · exact later z member
  · intro newest newer y older split later passes
    cases newer with
    | nil =>
      cases split
      exact absurd passes fails
    | cons z newer =>
      cases split
      exact newest newer y older rfl (fun z member => later z (by simp [member])) passes

end Newest

/-- The session has cleared up. The last piece that it handled ended the stream and completed the
    response, which no earlier one had, and so did the last one that was not streamed end it. -/
structure Tidy (codec : Codec) (turns : List Turn) : Prop where
  completed : Newest (fun turn => turn.piece.isSome = true) (fun turn older =>
    (∃ body, turn.piece = some (body,true)) ∧ turn.vars.completed = false ∧ (readTurn codec turn older).completes = true) turns
  ended : Newest (fun turn => turn.piece.isSome = true ∧ turn.vars.stream = false)
    (fun turn _ => ∃ body, turn.piece = some (body,true)) turns

section Turns
variable {codec : Codec} (turns : List Turn)

theorem timed_iff : timed codec turns = false ↔ Newest (fun turn => turn.piece.isSome = true) (fun turn older =>
    (∃ body, turn.piece = some (body,true)) ∧ turn.vars.completed = false ∧
    (readTurn codec turn older).completes = true) turns := by
  induction turns with
  | nil => exact iff_of_true rfl newest_nil
  | cons turn older ih =>
    cases piece : turn.piece with
    | none => rw [newest_skip (by simp [piece]),← ih,timed,piece]
    | some handled =>
      obtain ⟨body,endOfStream⟩ := handled
      rw [newest_here (by simp [piece]),timed,piece]
      simp only [Bool.not_eq_false',Bool.and_eq_true,Bool.not_eq_true',Option.some.injEq,Prod.mk.injEq]
      constructor
      · rintro ⟨⟨first,completes⟩,ends⟩
        exact ⟨⟨body,rfl,ends⟩,first,completes⟩
      · rintro ⟨⟨_,_,ends⟩,first,completes⟩
        exact ⟨⟨first,completes⟩,ends⟩

theorem buffered_iff : buffered turns = none ↔ Newest (fun turn => turn.piece.isSome = true ∧ turn.vars.stream = false)
    (fun turn _ => ∃ body, turn.piece = some (body,true)) turns := by
  induction turns with
  | nil => exact iff_of_true rfl newest_nil
  | cons turn older ih =>
    cases piece : turn.piece with
    | none => rw [newest_skip (by simp [piece]),← ih,buffered,piece]
    | some handled =>
      obtain ⟨body,endOfStream⟩ := handled
      cases streams : turn.vars.stream with
      | true =>
        rw [newest_skip (by simp [streams]),← ih,buffered,piece]
        simp [bufferAfter,streams]
      | false =>
        rw [newest_here (by simp [piece,streams]),buffered,piece]
        cases endOfStream <;> simp [bufferAfter,streams]

end Turns

/-- When a session has returned, its entries are gone exactly when it has cleared up. Whatever it
    does before that, it touches no entry of another request. -/
theorem entries_gone_iff {ι : Type} [DecidableEq ι] (h : Host ι) (c d : Config Op Reply ι (Shared ι) Local)
    (opening : h.Opening c) (run : Reach h.system (fun _ => True) c d) (i : ι) :
    (∀ vars, d.prog i = .ret (.returned vars) →
      (d.shared.entries (h.requestID i) = ⟨none,none⟩ ↔ Tidy h.codec (d.shared.turns i))) ∧
    ∀ op next r s, d.prog i = .call op next → h.system.act i op d.shared r s →
      ∀ id, id ≠ h.requestID i → s.entries id = d.shared.entries id := by
  obtain ⟨own,rests⟩ := sessions_alone opening run i
  constructor
  · intro vars over_
    have goes : Goes h i ⟨⟨none,none⟩,[]⟩ .initial (viewOf h i d.shared) vars := rests _ over_
    have buffer : (d.shared.entries (h.requestID i)).buffer = buffered (d.shared.turns i) := goes_buffer goes
    have timing : (d.shared.entries (h.requestID i)).timing.isSome = timed h.codec (d.shared.turns i) := (goes_told goes).2
    constructor
    · intro gone
      rw [gone] at buffer timing
      exact ⟨(timed_iff _).mp timing.symm,(buffered_iff _).mp buffer.symm⟩
    · intro tidy
      rw [(buffered_iff _).mpr tidy.ended] at buffer
      rw [(timed_iff _).mpr tidy.completed,Option.isSome_eq_false_iff,Option.isNone_iff_eq_none] at timing
      cases entry : d.shared.entries (h.requestID i)
      rw [entry] at buffer timing
      cases buffer
      cases timing
      rfl
  · intro op next r s issues acted id other
    refine acted.2.1 id (fun touched => other ?_)
    exact own op next issues id touched

/-- A response that comes as a whole leaves nothing behind. -/
theorem entries_gone_whole : ((chatted false [([7],true)]).2.entries "request").buffer = none ∧
    Tidy solo.codec ((chatted false [([7],true)]).2.turns ()) := by
  obtain ⟨prog,run,over_⟩ := chatted_reach false [([7],true)]
  have returned : ∃ vars, (chatted false [([7],true)]).1 = .returned vars := ⟨_,rfl⟩
  obtain ⟨vars,returned⟩ := returned
  have gone : (chatted false [([7],true)]).2.entries "request" = ⟨none,none⟩ := rfl
  refine ⟨by rw [gone],?_⟩
  exact ((entries_gone_iff solo soloOpening _ soloOpening_opening run ()).1 vars (over_.trans (congrArg _ returned))).mp gone

/-- A response that is broken off leaves its pieces behind, and a stream whose usage comes before
    its last message leaves its time behind. -/
theorem entries_left :
    (∃ prog vars, Reach solo.system (fun _ => True) soloOpening ⟨(chatted false [([7],false)]).2,prog⟩ ∧
      prog () = .ret (.returned vars) ∧ ((chatted false [([7],false)]).2.entries "request").buffer = some [7]) ∧
    ∃ prog vars, Reach solo.system (fun _ => True) soloOpening ⟨(chatted true [([7],false),([],true)]).2,prog⟩ ∧
      prog () = .ret (.returned vars) ∧ ((chatted true [([7],false),([],true)]).2.entries "request").timing ≠ none := by
  obtain ⟨prog,run,over_⟩ := chatted_reach false [([7],false)]
  obtain ⟨prog',run',over'⟩ := chatted_reach true [([7],false),([],true)]
  exact ⟨⟨prog,_,run,over_,rfl⟩,prog',_,run',over',by decide +kernel⟩

end Arks.Leftovers
