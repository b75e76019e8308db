import Mathlib

/-!
Reading fields back from a text in which they stand one after the other: a
field that does not contain the separator after it is determined by the text,
and so is the rest.
-/
namespace Arks.Texts

/-- The character does not occur in the text. -/
def Lacks (c : Char) (s : String) : Prop := c ∉ s.toList

instance (c : Char) (s : String) : Decidable (Lacks c s) := inferInstanceAs (Decidable (c ∉ s.toList))

theorem sep_inj {α : Type} {x : α} {a a' b b' : List α} (free : x ∉ a) (free' : x ∉ a')
    (same : a ++ x :: b = a' ++ x :: b') : a = a' ∧ b = b' := by
  induction a generalizing a' with
  | nil =>
    cases a' with
    | nil => simpa using same
    | cons y rest =>
      simp only [List.nil_append,List.cons_append,List.cons.injEq] at same
      exact absurd (same.1 ▸ (.head _)) free'
  | cons y rest ih =>
    cases a' with
    | nil =>
      simp only [List.nil_append,List.cons_append,List.cons.injEq] at same
      exact absurd (same.1 ▸ (.head _)) free
    | cons z rest' =>
      simp only [List.cons_append,List.cons.injEq] at same
      obtain ⟨rfl,same⟩ := same
      obtain ⟨rfl,rfl⟩ := ih (fun m => free (.tail _ m))
        (fun m => free' (.tail _ m)) same
      exact ⟨rfl,rfl⟩

/-- The last separator splits a text when none follows it. -/
theorem last_sep_inj {α : Type} {x : α} {a a' b b' : List α} (free : x ∉ b) (free' : x ∉ b')
    (same : a ++ x :: b = a' ++ x :: b') : a = a' ∧ b = b' := by
  have reversed : b.reverse ++ x :: a.reverse = b'.reverse ++ x :: a'.reverse := by
    simpa using congrArg List.reverse same
  obtain ⟨ends,starts⟩ := sep_inj (by simpa using free) (by simpa using free') reversed
  exact ⟨List.reverse_injective starts,List.reverse_injective ends⟩

/-- A field followed by a label and an equals sign is determined by the text
    when neither the field nor the label contains the sign. -/
theorem field_inj {label : List Char} {a a' b b' : List Char} (plain : '=' ∉ label) (free : '=' ∉ a)
    (free' : '=' ∉ a') (same : a ++ (label ++ '=' :: b) = a' ++ (label ++ '=' :: b')) : a = a' ∧ b = b' := by
  rw [← List.append_assoc,← List.append_assoc] at same
  obtain ⟨heads,tails⟩ := sep_inj (by simp [free,plain]) (by simp [free',plain]) same
  exact ⟨List.append_cancel_right heads,tails⟩

theorem toString_int_inj {a b : Int} (same : toString a = toString b) : a = b := Int.repr_inj.mp same

/-- A decimal number ends in a digit. -/
theorem last_digit (n : Int) : ∃ front d, (toString n).toList = front ++ [d] ∧ d.isDigit = true := by
  have natural : ∀ m : Nat, ∃ front d, (Nat.repr m).toList = front ++ [d] ∧ d.isDigit = true := by
    intro m
    refine ⟨_,_,(Nat.toList_repr (n := m)).trans (List.dropLast_append_getLast Nat.toDigits_ne_nil).symm,?_⟩
    exact Nat.isDigit_of_mem_toDigits (b := 10) (by decide) (by decide) (List.getLast_mem Nat.toDigits_ne_nil)
  cases n with
  | ofNat m => exact natural m
  | negSucc m =>
    obtain ⟨front,d,spelled,digit⟩ := natural (m + 1)
    exact ⟨'-' :: front,d,by simp [toString,Int.repr,spelled],digit⟩

/-- A decimal number has no other characters than digits and its sign. -/
theorem digits_lack {ch : Char} (n : Int) (sign : ch ≠ '-') (digit : ch.isDigit = false) : ch ∉ (toString n).toList := by
  have natural : ∀ m : Nat, ch ∉ (Nat.repr m).toList := by
    intro m member
    rw [Nat.toList_repr] at member
    rw [Nat.isDigit_of_mem_toDigits (b := 10) (by decide) (by decide) member] at digit
    cases digit
  cases n with
  | ofNat m => exact natural m
  | negSucc m => simpa [toString,Int.repr,sign] using natural (m + 1)

/-- A text without the separator occurs on one side of it. -/
theorem infix_sep {α : Type} {x : α} {part a b : List α} (free : x ∉ part) :
    part <:+: a ++ x :: b ↔ part <:+: a ∨ part <:+: b := by
  constructor
  · rintro ⟨before,after,spelled⟩
    rcases List.append_eq_append_iff.mp spelled with ⟨rest,split,_⟩ | ⟨rest,split,tail⟩
    · exact .inl ⟨before,rest,split.symm⟩
    · cases rest with
      | nil => exact .inl ⟨before,[],by simpa using split⟩
      | cons y rest =>
        obtain ⟨rfl,rfl⟩ := List.cons.inj tail
        -- the separator is not in the part, so it stands in front of it
        rcases List.append_eq_append_iff.mp split with ⟨more,_,inside⟩ | ⟨more,_,inside⟩
        · exact absurd (inside ▸ by simp) free
        · cases more with
          | nil => exact absurd (List.nil_append part ▸ inside ▸ (.head _)) free
          | cons z more =>
            obtain ⟨rfl,rfl⟩ := List.cons.inj inside
            exact .inr ⟨more,after,rfl⟩
  · rintro (left | right)
    · exact left.trans (List.prefix_append _ _).isInfix
    · exact right.trans ((List.suffix_cons _ _).trans (List.suffix_append _ _)).isInfix

/-- A text spelled by a code in which no word begins another is spelled in one way. -/
theorem spelling_injective {α β : Type} {code : α → List β} (spelled : ∀ a, code a ≠ [])
    (free : ∀ a b, code a <+: code b → a = b) : Function.Injective (fun l : List α => l.flatMap code) := by
  intro l
  induction l with
  | nil =>
    intro l' same
    cases l' with
    | nil => rfl
    | cons b l' => simp [spelled b] at same
  | cons a l ih =>
    intro l' same
    cases l' with
    | nil => simp [spelled a] at same
    | cons b l' =>
      simp only [List.flatMap_cons] at same
      have both : code a <+: code b ++ l'.flatMap code := same ▸ List.prefix_append _ _
      obtain rfl : a = b := by
        rcases List.prefix_or_prefix_of_prefix both (List.prefix_append _ _) with shorter | longer
        · exact free a b shorter
        · exact (free b a longer).symm
      rw [ih (List.append_cancel_left same)]

end Arks.Texts
