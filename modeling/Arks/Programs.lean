import Mathlib.Logic.Function.Basic
import Mathlib.Logic.Relation

/-!
Programs over an effect signature, and what can be said of their runs. A program returns a
value, or issues one operation and continues with the reply. `Within` speaks of every run
under a relation of possible answers, and `Follows` of every run against a protocol, an
automaton that reads the program's own operations and replies. `Guar` speaks of runs over a
shared state that others change between any two operations. `reach_guar` and `reach_follows`
carry this to every state that a system of such programs reaches.
-/
namespace Arks.Programs

/-- Programs that issue operations of `Op`, each answered by a `Reply`. -/
inductive Prog (Op : Type) (Reply : Op → Type) (α : Type) : Type
  | ret (value : α)
  | call (op : Op) (next : Reply op → Prog Op Reply α)

variable {Op : Type} {Reply : Op → Type} {α β γ : Type}

namespace Prog

def bind : Prog Op Reply α → (α → Prog Op Reply β) → Prog Op Reply β
  | ret value, f => f value
  | call op next, f => call op (fun r => bind (next r) f)

instance : Monad (Prog Op Reply) where
  pure := ret
  bind := bind

/-- Issue one operation and return its reply. -/
def issue (op : Op) : Prog Op Reply (Reply op) := call op ret

@[simp] theorem pure_eq (value : α) : (pure value : Prog Op Reply α) = ret value := rfl
@[simp] theorem ret_bind (value : α) (f : α → Prog Op Reply β) : (ret value >>= f) = f value := rfl
@[simp] theorem call_bind (op : Op) (next : Reply op → Prog Op Reply α) (f : α → Prog Op Reply β) :
    (call op next >>= f) = call op (fun r => next r >>= f) := rfl
@[simp] theorem issue_bind (op : Op) (f : Reply op → Prog Op Reply β) :
    (issue op >>= f) = call op f := rfl

theorem bind_assoc (p : Prog Op Reply α) (f : α → Prog Op Reply β) (g : β → Prog Op Reply γ) :
    (p >>= f >>= g) = p >>= fun a => f a >>= g := by
  induction p with
  | ret value => rfl
  | call op next ih => simp only [call_bind,ih]

theorem bind_ret (p : Prog Op Reply α) : (p >>= ret) = p := by
  induction p with
  | ret value => rfl
  | call op next ih => simp only [call_bind,ih]

instance : LawfulMonad (Prog Op Reply) :=
  LawfulMonad.mk' _ (fun p => bind_ret p) (fun _ _ => rfl) (fun p f g => bind_assoc p f g)

end Prog
open Prog

section Answers
variable (answers : (op : Op) → Reply op → Prop)

/-- `p` can return `value` when every operation gets a possible answer. -/
inductive Returns : Prog Op Reply α → α → Prop
  | ret (value : α) : Returns (.ret value) value
  | call {op : Op} {next : Reply op → Prog Op Reply α} {r : Reply op} {value : α} :
      answers op r → Returns (next r) value → Returns (.call op next) value

/-- Every run of `p` under the possible answers issues only operations in `P`
    and returns a value in `Q`. -/
def Within (P : Op → Prop) (Q : α → Prop) : Prog Op Reply α → Prop
  | .ret value => Q value
  | .call op next => P op ∧ ∀ r, answers op r → Within P Q (next r)

variable {answers} {P P' : Op → Prop} {Q Q' : α → Prop}

@[simp] theorem within_ret {value : α} : Within answers P Q (.ret value) ↔ Q value := Iff.rfl
@[simp] theorem within_call {op : Op} {next : Reply op → Prog Op Reply α} :
    Within answers P Q (.call op next) ↔ P op ∧ ∀ r, answers op r → Within answers P Q (next r) := Iff.rfl

variable {p : Prog Op Reply α}

theorem within_bind {f : α → Prog Op Reply β} {R : β → Prop}
    (first : Within answers P Q p) (rest : ∀ a, Q a → Within answers P R (f a)) :
    Within answers P R (p >>= f) := by
  induction p with
  | ret value => exact rest value first
  | call op next ih => exact ⟨first.1,fun r possible => ih r (first.2 r possible)⟩

theorem within_mono (holds : Within answers P Q p) (ops : ∀ op, P op → P' op)
    (values : ∀ a, Q a → Q' a) : Within answers P' Q' p := by
  induction p with
  | ret value => exact values value holds
  | call op next ih => exact ⟨ops op holds.1,fun r possible => ih r (holds.2 r possible)⟩

theorem within_and (first : Within answers P Q p) (second : Within answers P' Q' p) :
    Within answers (fun op => P op ∧ P' op) (fun a => Q a ∧ Q' a) p := by
  induction p with
  | ret value => exact ⟨first,second⟩
  | call op next ih => exact ⟨⟨first.1,second.1⟩,fun r possible => ih r (first.2 r possible) (second.2 r possible)⟩

theorem returns_within {value : α} (holds : Within answers P Q p) (run : Returns answers p value) : Q value := by
  induction run with
  | ret value => exact holds
  | call possible _ ih => exact ih (holds.2 _ possible)

theorem within_trivial : Within answers (fun _ => True) (fun _ => True) p := by
  induction p with
  | ret value => trivial
  | call op next ih => exact ⟨trivial,fun r _ => ih r⟩

/-- Whatever is answered, `p` issues only operations in `P` and returns a value in `Q`. -/
abbrev Issues (P : Op → Prop) (Q : α → Prop) (p : Prog Op Reply α) : Prop := Within (fun _ _ => True) P Q p

/-- What holds whatever is answered holds under the possible answers. -/
theorem within_any (holds : Issues P Q p) : Within answers P Q p := by
  induction p with
  | ret value => exact holds
  | call op next ih => exact ⟨holds.1,fun r _ => ih r (holds.2 r trivial)⟩

theorem within_imp {S : Prop} (always : Within answers P (fun _ => True) p)
    (given : S → Within answers P Q p) : Within answers P (fun a => S → Q a) p := by
  by_cases holds : S
  · exact within_mono (given holds) (fun _ ok => ok) (fun _ ok _ => ok)
  · exact within_mono always (fun _ ok => ok) (fun _ _ given => absurd given holds)

/-- A program returns when every operation has a possible answer. -/
theorem returns_exists (answered : ∀ op, ∃ r, answers op r) (p : Prog Op Reply α) : ∃ value, Returns answers p value := by
  induction p with
  | ret value => exact ⟨value,.ret value⟩
  | call op next ih =>
    obtain ⟨r,possible⟩ := answered op
    obtain ⟨value,run⟩ := ih r
    exact ⟨value,.call possible run⟩

@[simp] theorem returns_ret {value other : α} : Returns answers (.ret value) other ↔ other = value := by
  constructor
  · intro run; cases run; rfl
  · rintro rfl; exact .ret _
@[simp] theorem returns_call {op : Op} {next : Reply op → Prog Op Reply α} {value : α} :
    Returns answers (.call op next) value ↔ ∃ r, answers op r ∧ Returns answers (next r) value := by
  constructor
  · intro run
    cases run with
    | call possible rest => exact ⟨_,possible,rest⟩
  · rintro ⟨r,possible,rest⟩; exact .call possible rest

theorem returns_bind {f : α → Prog Op Reply β} {b : β} :
    Returns answers (p >>= f) b ↔ ∃ a, Returns answers p a ∧ Returns answers (f a) b := by
  induction p with
  | ret value =>
    constructor
    · intro run; exact ⟨value,.ret value,run⟩
    · rintro ⟨a,first,run⟩
      cases first
      exact run
  | call op next ih =>
    constructor
    · intro run
      cases run with
      | call possible rest =>
        obtain ⟨a,first,second⟩ := (ih _).mp rest
        exact ⟨a,.call possible first,second⟩
    · rintro ⟨a,first,second⟩
      cases first with
      | call possible rest => exact .call possible ((ih _).mpr ⟨a,rest,second⟩)

section Surely
variable (answers P) in
/-- Every run of `p` under the possible answers issues an operation in `P`. -/
def Surely : Prog Op Reply α → Prop
  | .ret _ => False
  | .call op next => P op ∨ ∀ r, answers op r → Surely (next r)

theorem surely_bind {p : Prog Op Reply α} {f : α → Prog Op Reply β} (sure : Surely answers P p) : Surely answers P (p >>= f) := by
  induction p with
  | ret value => exact sure.elim
  | call op next ih => exact sure.imp id (fun rest r possible => ih r (rest r possible))

/-- What only makes a value of the result is sure of nothing. -/
theorem surely_map {p : Prog Op Reply α} {f : α → Prog Op Reply β} (values : ∀ a, ∃ b, f a = .ret b)
    (sure : Surely answers P (p >>= f)) : Surely answers P p := by
  induction p with
  | ret value =>
    obtain ⟨b,ends⟩ := values value
    have wrong : Surely answers P (f value) := sure
    rw [ends] at wrong
    exact wrong
  | call op next ih => exact sure.imp id (fun rest r possible => ih r (rest r possible))

/-- One run without such an operation is enough. -/
theorem not_surely {answer : (op : Op) → Reply op} (possible : ∀ op, answers op (answer op)) {p : Prog Op Reply α}
    (without : Within (fun op r => r = answer op) (fun op => ¬ P op) (fun _ => True) p) : ¬ Surely answers P p := by
  induction p with
  | ret value => exact id
  | call op next ih =>
    rintro (here | later)
    · exact without.1 here
    · exact ih _ (without.2 _ rfl) (later _ (possible op))

end Surely

end Answers

/-- A protocol: what may be issued in each of its states, and how an operation
    with its reply moves it. -/
structure Protocol (Op : Type) (Reply : Op → Type) (A : Type) where
  allowed : A → Op → Prop
  observe : A → (op : Op) → Reply op → A

section Protocols
variable {A : Type} (answers : (op : Op) → Reply op → Prop) (protocol : Protocol Op Reply A)

/-- From the protocol state `a`, every run of `p` issues only what the protocol
    allows and returns a value for which `Q` holds in the state it ends in. -/
def Follows (Q : A → α → Prop) : Prog Op Reply α → A → Prop
  | .ret value, a => Q a value
  | .call op next, a => protocol.allowed a op ∧
      ∀ r, answers op r → Follows Q (next r) (protocol.observe a op r)

variable {answers protocol} {Q Q' : A → α → Prop} {a : A}

@[simp] theorem follows_ret {value : α} : Follows answers protocol Q (.ret value) a ↔ Q a value := Iff.rfl
@[simp] theorem follows_call {op : Op} {next : Reply op → Prog Op Reply α} :
    Follows answers protocol Q (.call op next) a ↔ protocol.allowed a op ∧
      ∀ r, answers op r → Follows answers protocol Q (next r) (protocol.observe a op r) := Iff.rfl

variable {p : Prog Op Reply α} {P : Op → Prop} {R : α → Prop}

theorem follows_bind {f : α → Prog Op Reply β} {R : A → β → Prop}
    (first : Follows answers protocol Q p a) (rest : ∀ b v, Q b v → Follows answers protocol R (f v) b) :
    Follows answers protocol R (p >>= f) a := by
  induction p generalizing a with
  | ret value => exact rest a value first
  | call op next ih => exact ⟨first.1,fun r possible => ih r (first.2 r possible)⟩

theorem follows_mono (holds : Follows answers protocol Q p a)
    (values : ∀ b v, Q b v → Q' b v) : Follows answers protocol Q' p a := by
  induction p generalizing a with
  | ret value => exact values a value holds
  | call op next ih => exact ⟨holds.1,fun r possible => ih r (holds.2 r possible)⟩

/-- Operations that the protocol allows and does not see leave its state alone. -/
theorem follows_of_within (unseen : ∀ op, P op → protocol.allowed a op ∧ ∀ r, answers op r → protocol.observe a op r = a)
    (within : Within answers P R p) : Follows answers protocol (fun b v => b = a ∧ R v) p a := by
  induction p with
  | ret value => exact ⟨rfl,within⟩
  | call op next ih =>
    refine ⟨(unseen op within.1).1,fun r possible => ?_⟩
    rw [(unseen op within.1).2 r possible]
    exact ih r (within.2 r possible)

/-- Allowed in every state, and leaving every state as it is. -/
def Protocol.Unseen (protocol : Protocol Op Reply A) (op : Op) : Prop :=
  ∀ a, protocol.allowed a op ∧ ∀ r, protocol.observe a op r = a

theorem follows_unseen (within : Within answers protocol.Unseen R p) :
    Follows answers protocol (fun b v => b = a ∧ R v) p a :=
  follows_of_within (fun _ unseen => ⟨(unseen a).1,fun r _ => (unseen a).2 r⟩) within

/-- Operations that are allowed in every state, wherever they lead. -/
theorem follows_of_allowed (allowed : ∀ b op, P op → protocol.allowed b op) (within : Within answers P R p) :
    Follows answers protocol (fun _ v => R v) p a := by
  induction p generalizing a with
  | ret value => exact within
  | call op next ih => exact ⟨allowed a op within.1,fun r possible => ih r (within.2 r possible)⟩

/-- A protocol that allows the same in all its states only speaks of the operations. -/
theorem within_of_follows (allowed : ∀ b op, protocol.allowed b op → P op) (values : ∀ b v, Q b v → R v)
    (follows : Follows answers protocol Q p a) : Within answers P R p := by
  induction p generalizing a with
  | ret value => exact values a value follows
  | call op next ih => exact ⟨allowed a op follows.1,fun r possible => ih r (follows.2 r possible)⟩

end Protocols

section Runs

/-- A call with its reply. -/
abbrev Call (Op : Type) (Reply : Op → Type) := Σ op : Op, Reply op

/-- A run of a program: the calls it makes, in order, and the value it returns. -/
inductive Runs : Prog Op Reply α → List (Call Op Reply) → α → Prop
  | ret {value : α} : Runs (.ret value) [] value
  | call {op : Op} {next : Reply op → Prog Op Reply α} {r : Reply op} {calls : List (Call Op Reply)} {value : α} :
      Runs (next r) calls value → Runs (.call op next) (⟨op,r⟩ :: calls) value

variable {calls : List (Call Op Reply)}

@[simp] theorem runs_ret {value v : α} : Runs (.ret value : Prog Op Reply α) calls v ↔ calls = [] ∧ v = value := by
  constructor
  · intro run
    cases run
    exact ⟨rfl,rfl⟩
  · rintro ⟨rfl,rfl⟩
    exact .ret

theorem runs_call {op : Op} {next : Reply op → Prog Op Reply α} {v : α} :
    Runs (.call op next) calls v ↔ ∃ r rest, calls = ⟨op,r⟩ :: rest ∧ Runs (next r) rest v := by
  constructor
  · intro run
    cases run with
    | call rest => exact ⟨_,_,rfl,rest⟩
  · rintro ⟨r,rest,rfl,run⟩
    exact .call run

variable {p : Prog Op Reply α} {Q : α → Prop}

theorem runs_bind {f : α → Prog Op Reply β} {v : β} :
    Runs (p >>= f) calls v ↔ ∃ a first rest, calls = first ++ rest ∧ Runs p first a ∧ Runs (f a) rest v := by
  induction p generalizing calls with
  | ret value =>
    constructor
    · intro run
      exact ⟨value,[],calls,rfl,.ret,run⟩
    · rintro ⟨a,first,rest,rfl,run,later⟩
      cases run
      exact later
  | call op next ih =>
    constructor
    · intro run
      cases run with
      | call rest =>
        obtain ⟨a,first,later,rfl,run,after⟩ := (ih _).mp rest
        exact ⟨a,⟨op,_⟩ :: first,later,rfl,.call run,after⟩
    · rintro ⟨a,first,rest,rfl,run,after⟩
      cases run with
      | call run => exact .call ((ih _).mpr ⟨a,_,rest,rfl,run,after⟩)

/-- What a program only issues under such answers is all that its runs with them issue. -/
theorem runs_within_answers {answers : (op : Op) → Reply op → Prop} {P : Op → Prop} {v : α}
    (within : Within answers P Q p) (run : Runs p calls v) (answered : ∀ call ∈ calls, answers call.1 call.2) :
    (∀ call ∈ calls, P call.1) ∧ Q v := by
  induction run with
  | ret => exact ⟨by simp,within⟩
  | @call op next r calls value _ ih =>
    obtain ⟨ops,value⟩ := ih (within.2 r (answered ⟨op,r⟩ (by simp))) (fun call is => answered call (by simp [is]))
    exact ⟨by simpa using ⟨within.1,ops⟩,value⟩

theorem runs_within {P : Op → Prop} {v : α} (within : Issues P Q p) (run : Runs p calls v) : (∀ call ∈ calls, P call.1) ∧ Q v :=
  runs_within_answers within run (fun _ _ => trivial)

/-- What every run returns, the program returns under any answers. -/
theorem within_of_runs (all : ∀ calls v, Runs p calls v → Q v) : Issues (fun _ => True) Q p := by
  induction p with
  | ret value => exact all [] value .ret
  | call op next ih => exact ⟨trivial,fun r _ => ih r (fun calls v run => all (⟨op,r⟩ :: calls) v (.call run))⟩

/-- What every run under the possible answers returns, the program returns under them. -/
theorem within_of_answered {answers : (op : Op) → Reply op → Prop}
    (all : ∀ calls v, Runs p calls v → (∀ call ∈ calls, answers call.1 call.2) → Q v) :
    Within answers (fun _ => True) Q p := by
  induction p with
  | ret value => exact all [] value .ret (fun _ is => by cases is)
  | call op next ih =>
    refine ⟨trivial,fun r possible => ih r (fun calls v run answered => all (⟨op,r⟩ :: calls) v (.call run) ?_)⟩
    intro call is
    rcases List.mem_cons.mp is with rfl | later
    · exact possible
    · exact answered call later

/-- The run in which every operation gets the reply of `answer`. -/
def replay (answer : (op : Op) → Reply op) : Prog Op Reply α → List (Call Op Reply) × α
  | .ret value => ([],value)
  | .call op next => (⟨op,answer op⟩ :: (replay answer (next (answer op))).1,(replay answer (next (answer op))).2)

theorem runs_replay (answer : (op : Op) → Reply op) (p : Prog Op Reply α) :
    Runs p (replay answer p).1 (replay answer p).2 := by
  induction p with
  | ret value => exact .ret
  | call op next ih => exact .call (ih _)

/-- The replies decide the run. -/
theorem runs_answered {answer : (op : Op) → Reply op} {v : α} (run : Runs p calls v)
    (answered : ∀ call ∈ calls, call.2 = answer call.1) : calls = (replay answer p).1 := by
  induction run with
  | ret => rfl
  | @call op next r calls value _ ih =>
    have same : r = answer op := answered ⟨op,r⟩ (by simp)
    rw [ih (fun call is => answered call (by simp [is])),same]
    rfl

end Runs

section Interpretations
variable {Op' : Type} {Reply' : Op' → Type}

/-- The program over another signature that carries out each operation by a program of its own. -/
def Prog.interpret (impl : (op : Op) → Prog Op' Reply' (Reply op)) : Prog Op Reply α → Prog Op' Reply' α
  | .ret value => .ret value
  | .call op next => impl op >>= fun r => interpret impl (next r)

variable {impl : (op : Op) → Prog Op' Reply' (Reply op)}

@[simp] theorem interpret_ret (value : α) : Prog.interpret impl (.ret value) = .ret value := rfl

end Interpretations

section Shared
variable {σ : Type}

/-- Run a program against a state, each operation by `perform`. -/
def exec (perform : (op : Op) → σ → Reply op × σ) : Prog Op Reply α → σ → α × σ
  | .ret value, s => (value,s)
  | .call op next, s => exec perform (next (perform op s).1) (perform op s).2

variable {perform : (op : Op) → σ → Reply op × σ} {p : Prog Op Reply α} {f : α → Prog Op Reply β} {s t : σ}

@[simp] theorem exec_ret {value : α} :
    exec perform (.ret value) s = (value,s) := rfl
@[simp] theorem exec_call {perform : (op : Op) → σ → Reply op × σ} {op : Op} {next : Reply op → Prog Op Reply α} :
    exec perform (.call op next) s = exec perform (next (perform op s).1) (perform op s).2 := rfl

theorem exec_bind : exec perform (p >>= f) s = exec perform (f (exec perform p s).1) (exec perform p s).2 := by
  induction p generalizing s with
  | ret value => rfl
  | call op next ih => simp only [call_bind,exec_call,ih]

/-- Operations that leave the state alone only compute a value. -/
theorem exec_of_within {answers : (op : Op) → Reply op → Prop} {P : Op → Prop} {Q : α → Prop} (within : Within answers P Q p)
    (answered : ∀ op, answers op (perform op s).1) (silent : ∀ op, P op → (perform op s).2 = s) :
    Q (exec perform p s).1 ∧ (exec perform p s).2 = s := by
  induction p with
  | ret value => exact ⟨within,rfl⟩
  | call op next ih =>
    rw [exec_call,silent op within.1]
    exact ih _ (within.2 _ (answered op))

variable (act : (op : Op) → σ → Reply op → σ → Prop)

/-- `p`, run alone from `s`, returns `value` and leaves `s'`. -/
inductive Alone : Prog Op Reply α → σ → α → σ → Prop
  | ret (value : α) (s : σ) : Alone (.ret value) s value s
  | call {op : Op} {next : Reply op → Prog Op Reply α} {s s' s'' : σ} {r : Reply op} {value : α} :
      act op s r s' → Alone (next r) s' value s'' → Alone (.call op next) s value s''

variable (rely : σ → σ → Prop)

/-- From `s`, while other parties move the state by `rely` between any two of
    its operations, `p` issues an operation only where `G` allows it and returns
    a value for which `Q` holds then and stays true. -/
def Guar (G : Op → σ → Prop) (Q : α → σ → Prop) : Prog Op Reply α → σ → Prop
  | .ret value, s => ∀ s', rely s s' → Q value s'
  | .call op next, s => ∀ s', rely s s' → G op s' ∧ ∀ r s'', act op s' r s'' → Guar G Q (next r) s''

variable {act rely} {G G' : Op → σ → Prop} {Q Q' : α → σ → Prop}

theorem guar_stable (trans : ∀ a b c, rely a b → rely b c → rely a c) {s' : σ}
    (holds : Guar act rely G Q p s) (moved : rely s s') : Guar act rely G Q p s' := by
  cases p with
  | ret | call => intro t further; exact holds t (trans _ _ _ moved further)

theorem guar_bind (refl : ∀ s, rely s s) {R : β → σ → Prop}
    (first : Guar act rely G Q p s) (rest : ∀ a s', Q a s' → Guar act rely G R (f a) s') :
    Guar act rely G R (p >>= f) s := by
  induction p generalizing s with
  | ret value => exact rest value s (first s (refl s))
  | call op next ih =>
    intro s' moved
    obtain ⟨allowed,continues⟩ := first s' moved
    exact ⟨allowed,fun r s'' step => ih r (continues r s'' step)⟩

theorem guar_mono (holds : Guar act rely G Q p s)
    (ops : ∀ op s, G op s → G' op s) (values : ∀ a s, Q a s → Q' a s) : Guar act rely G' Q' p s := by
  induction p generalizing s with
  | ret value => intro s' moved; exact values _ _ (holds s' moved)
  | call op next ih =>
    intro s' moved
    obtain ⟨allowed,continues⟩ := holds s' moved
    exact ⟨ops _ _ allowed,fun r s'' step => ih r (continues r s'' step)⟩

/-- A fact `I` that interference and every allowed operation keep turns what
    `Within` says of a program into what `Guar` says of it. -/
theorem guar_of_within {answers : (op : Op) → Reply op → Prop} {P : Op → Prop} {R : α → Prop} {I : σ → Prop}
    (stable : ∀ s s', I s → rely s s' → I s')
    (keeps : ∀ op s r s', I s → P op → act op s r s' → I s')
    (answered : ∀ op s r s', I s → act op s r s' → answers op r)
    (allowed : ∀ op s, I s → P op → G op s) (ends : ∀ a s, I s → R a → Q a s)
    (within : Within answers P R p) (holds : I s) : Guar act rely G Q p s := by
  induction p generalizing s with
  | ret value => intro s' moved; exact ends _ _ (stable _ _ holds moved) within
  | call op next ih =>
    intro s' moved
    have now := stable _ _ holds moved
    exact ⟨allowed _ _ now within.1,fun r s'' step =>
      ih r (within.2 r (answered _ _ _ _ now step)) (keeps _ _ _ _ now within.1 step)⟩

@[simp] theorem alone_ret {value other : α} : Alone act (.ret value) s other t ↔ other = value ∧ t = s := by
  constructor
  · intro run; cases run; exact ⟨rfl,rfl⟩
  · rintro ⟨rfl,rfl⟩; exact .ret _ _

@[simp] theorem alone_call {op : Op} {next : Reply op → Prog Op Reply α} {value : α} :
    Alone act (.call op next) s value t ↔ ∃ r u, act op s r u ∧ Alone act (next r) u value t := by
  constructor
  · intro run
    cases run with
    | call step rest => exact ⟨_,_,step,rest⟩
  · rintro ⟨r,u,step,rest⟩; exact .call step rest

theorem alone_bind {b : β} : Alone act (p >>= f) s b t ↔ ∃ a u, Alone act p s a u ∧ Alone act (f a) u b t := by
  induction p generalizing s with
  | ret value =>
    constructor
    · intro run; exact ⟨value,s,.ret value s,run⟩
    · rintro ⟨a,u,first,run⟩
      cases first
      exact run
  | call op next ih =>
    constructor
    · intro run
      cases run with
      | call step rest =>
        obtain ⟨a,u,first,second⟩ := (ih _).mp rest
        exact ⟨a,u,.call step first,second⟩
    · rintro ⟨a,u,first,second⟩
      cases first with
      | call step rest => exact .call step ((ih _).mpr ⟨a,u,rest,second⟩)

variable (act) in
/-- A list of calls acts on a state, one after the other. -/
inductive Plays : List (Call Op Reply) → σ → σ → Prop
  | nil {s : σ} : Plays [] s s
  | cons {op : Op} {r : Reply op} {calls : List (Call Op Reply)} {s u t : σ} :
      act op s r u → Plays calls u t → Plays (⟨op,r⟩ :: calls) s t

@[simp] theorem plays_nil : Plays act [] s t ↔ t = s :=
  ⟨fun played => by cases played; rfl,fun same => same ▸ .nil⟩

@[simp] theorem plays_cons {op : Op} {r : Reply op} {calls : List (Call Op Reply)} :
    Plays act (⟨op,r⟩ :: calls) s t ↔ ∃ u, act op s r u ∧ Plays act calls u t := by
  constructor
  · intro played
    cases played with
    | cons step rest => exact ⟨_,step,rest⟩
  · rintro ⟨u,step,rest⟩
    exact .cons step rest

theorem plays_append {first rest : List (Call Op Reply)} :
    Plays act (first ++ rest) s t ↔ ∃ u, Plays act first s u ∧ Plays act rest u t := by
  induction first generalizing s with
  | nil => simp
  | cons call first ih =>
    obtain ⟨op,r⟩ := call
    simp only [List.cons_append,plays_cons,ih]
    constructor
    · rintro ⟨u,step,v,played,later⟩
      exact ⟨v,⟨u,step,played⟩,later⟩
    · rintro ⟨v,⟨u,step,played⟩,later⟩
      exact ⟨u,step,v,played,later⟩

/-- What no call of the list changes is the same behind it. -/
theorem plays_keep {f : σ → β} {calls : List (Call Op Reply)}
    (keeps : ∀ call ∈ calls, ∀ s t, act call.1 s call.2 t → f t = f s) (played : Plays act calls s t) : f t = f s := by
  induction played with
  | nil => rfl
  | cons step _ ih =>
    have here := keeps ⟨_,_⟩ (.head _) _ _ step
    exact (ih (fun call is => keeps call (by simp [is]))).trans here

/-- The calls of a program that is run against a state. -/
def calls (perform : (op : Op) → σ → Reply op × σ) : Prog Op Reply α → σ → List (Call Op Reply)
  | .ret _, _ => []
  | .call op next, s => ⟨op,(perform op s).1⟩ :: calls perform (next (perform op s).1) (perform op s).2

theorem exec_runs (perform : (op : Op) → σ → Reply op × σ) (p : Prog Op Reply α) (s : σ) :
    Runs p (calls perform p s) (exec perform p s).1 := by
  induction p generalizing s with
  | ret value => exact .ret
  | call op next ih => exact .call (ih _ _)

theorem exec_plays (acts : ∀ op s, act op s (perform op s).1 (perform op s).2)
    (p : Prog Op Reply α) (s : σ) : Plays act (calls perform p s) s (exec perform p s).2 := by
  induction p generalizing s with
  | ret value => exact .nil
  | call op next ih => exact .cons (acts op s) (ih _ _)

end Shared

section Systems
variable {ι σ ℓ : Type} [DecidableEq ι]

/-- The shared state and what each party still has to run; a party at rest has
    returned its local state. -/
structure Config (Op : Type) (Reply : Op → Type) (ι σ ℓ : Type) where
  shared : σ
  prog : ι → Prog Op Reply ℓ

/-- What the parties of a system can do: how an operation of a party acts on the
    shared state, what happens to the state by itself, and which programs a
    party at rest can take up. -/
structure System (Op : Type) (Reply : Op → Type) (ι σ ℓ : Type) where
  act : ι → (op : Op) → σ → Reply op → σ → Prop
  env : σ → σ → Prop
  start : ι → ℓ → Prog Op Reply ℓ → Prop

variable (sys : System Op Reply ι σ ℓ)

inductive Step : Config Op Reply ι σ ℓ → Config Op Reply ι σ ℓ → Prop
  | act {c : Config Op Reply ι σ ℓ} {i : ι} {op : Op} {next : Reply op → Prog Op Reply ℓ} {r : Reply op} {s : σ} :
      c.prog i = .call op next → sys.act i op c.shared r s →
      Step c ⟨s,Function.update c.prog i (next r)⟩
  | start {c : Config Op Reply ι σ ℓ} {i : ι} {l : ℓ} {p : Prog Op Reply ℓ} :
      c.prog i = .ret l → sys.start i l p → Step c ⟨c.shared,Function.update c.prog i p⟩
  | env {c : Config Op Reply ι σ ℓ} {s : σ} : sys.env c.shared s → Step c ⟨s,c.prog⟩

/-- The states reached from `c` by runs all of whose states are `legal`. -/
inductive Reach (legal : Config Op Reply ι σ ℓ → Prop) (c : Config Op Reply ι σ ℓ) : Config Op Reply ι σ ℓ → Prop
  | refl : legal c → Reach legal c c
  | step {d e : Config Op Reply ι σ ℓ} : Reach legal c d → Step sys d e → legal e → Reach legal c e

variable {sys} {legal : Config Op Reply ι σ ℓ → Prop} {c d : Config Op Reply ι σ ℓ}

theorem reach_legal (run : Reach sys legal c d) : legal d := by
  cases run with
  | refl ok => exact ok
  | step _ _ ok => exact ok

theorem reach_trans {e : Config Op Reply ι σ ℓ} (first : Reach sys legal c d) (second : Reach sys legal d e) :
    Reach sys legal c e := by
  induction second with
  | refl _ => exact first
  | step _ move ok ih => exact .step ih move ok

/-- A property of the first state that every step between legal states keeps
    holds in every state reached. -/
theorem reach_invariant {I : Config Op Reply ι σ ℓ → Prop} (first : I c)
    (keeps : ∀ d e, legal d → I d → Step sys d e → legal e → I e) (run : Reach sys legal c d) : I d := by
  induction run with
  | refl _ => exact first
  | step before move ok ih => exact keeps _ _ (reach_legal before) ih move ok

/-- Simulation: when a second system answers every step of the first by steps of its own, it answers every run. -/
theorem reach_simulated {σ' ι' : Type} [DecidableEq ι'] {sys' : System Op Reply ι' σ' ℓ} {legal' : Config Op Reply ι' σ' ℓ → Prop}
    {S : Config Op Reply ι σ ℓ → Config Op Reply ι' σ' ℓ → Prop} {c' : Config Op Reply ι' σ' ℓ} (ok : legal' c') (first : S c c')
    (steps : ∀ d d' e, S d d' → Step sys d e → ∃ e', Reach sys' legal' d' e' ∧ S e e') (run : Reach sys legal c d) :
    ∃ d', Reach sys' legal' c' d' ∧ S d d' := by
  induction run with
  | refl _ => exact ⟨c',.refl ok,first⟩
  | step _ move _ ih =>
    obtain ⟨d',before,related⟩ := ih
    obtain ⟨e',after,related⟩ := steps _ _ _ related move
    exact ⟨e',reach_trans before after,related⟩

/-- A system that allows more has the same runs and others. -/
theorem reach_more {sys' : System Op Reply ι σ ℓ} (act : ∀ i op s r s', sys.act i op s r s' → sys'.act i op s r s')
    (env : ∀ s s', sys.env s s' → sys'.env s s') (start : ∀ i l p, sys.start i l p → sys'.start i l p)
    (run : Reach sys legal c d) : Reach sys' legal c d := by
  induction run with
  | refl ok => exact .refl ok
  | step _ move ok ih =>
    refine .step ih ?_ ok
    cases move with
    | act at_i step => exact .act at_i (act _ _ _ _ _ step)
    | start at_i begins => exact .start at_i (start _ _ _ begins)
    | env moved => exact .env (env _ _ moved)

variable {G : ι → Op → σ → Prop} {I : σ → Prop} {perform : (op : Op) → σ → Reply op × σ} {s : σ}

/-- Rely and guarantee: when each party's program is guaranteed from the first
    state, when what each may issue stays inside what the others rely on, and
    when a party at rest only takes up guaranteed programs, every party is
    guaranteed in every state reached, and the state has moved as they rely on. -/
theorem reach_guar {rely : σ → σ → Prop} {Q : ι → ℓ → σ → Prop}
    (refl : ∀ s, rely s s) (trans : ∀ a b c, rely a b → rely b c → rely a c)
    (env : ∀ d e, legal d → legal e → sys.env d.shared e.shared → rely d.shared e.shared)
    (act : ∀ i op d e r, legal d → legal e → G i op d.shared → sys.act i op d.shared r e.shared → rely d.shared e.shared)
    (start : ∀ i l p s, Q i l s → sys.start i l p → Guar (sys.act i) rely (G i) (Q i) p s)
    (first : ∀ i, Guar (sys.act i) rely (G i) (Q i) (c.prog i) c.shared) (run : Reach sys legal c d) :
    (∀ i, Guar (sys.act i) rely (G i) (Q i) (d.prog i) d.shared) ∧ rely c.shared d.shared := by
  refine reach_invariant (I := fun d => (∀ i, Guar (sys.act i) rely (G i) (Q i) (d.prog i) d.shared) ∧
    rely c.shared d.shared) ⟨first,refl _⟩ ?_ run
  rintro d e ok ⟨holds,moved⟩ move ok'
  cases move with
  | @act i op next r s at_i step =>
    have mine := holds i
    rw [at_i] at mine
    obtain ⟨allowed,continues⟩ := mine _ (refl _)
    have further := act i op d _ r ok ok' allowed step
    refine ⟨fun j => ?_,trans _ _ _ moved further⟩
    by_cases same : j = i
    · subst same
      simpa using continues r s step
    · simp only [Function.update_of_ne same]
      exact guar_stable trans (holds j) further
  | @start i l p at_i begins =>
    refine ⟨fun j => ?_,moved⟩
    by_cases same : j = i
    · subst same
      have mine := holds j
      rw [at_i] at mine
      simpa using start j l p _ (mine _ (refl _)) begins
    · simpa only [Function.update_of_ne same] using holds j
  | env step =>
    have further := env d _ ok ok' step
    exact ⟨fun j => guar_stable trans (holds j) further,trans _ _ _ moved further⟩

/-- Rely and guarantee with an invariant of the shared state, where each party relies on
    the others in its own way: what a party may issue keeps the invariant and stays
    inside what each other party relies on. What is said of the rest of a program may
    rest on the legality of the states in which it goes on. -/
theorem reach_complies {R : ι → σ → σ → Prop} {C : ι → Prog Op Reply ℓ → σ → Prop}
    (stable : ∀ i p s s', C i p s → R i s s' → C i p s')
    (env : ∀ s s', I s → sys.env s s' → I s' ∧ ∀ i, R i s s')
    (act : ∀ i op s r s', I s → G i op s → sys.act i op s r s' → I s' ∧ ∀ j, j ≠ i → R j s s')
    (next : ∀ (d : Config Op Reply ι σ ℓ) (i : ι) op k, legal d → I d.shared → d.prog i = .call op k →
      C i (.call op k) d.shared → G i op d.shared ∧ ∀ r s', sys.act i op d.shared r s' → C i (k r) s')
    (start : ∀ i l p s, I s → C i (.ret l) s → sys.start i l p → C i p s)
    (holds : I c.shared) (first : ∀ i, C i (c.prog i) c.shared) (run : Reach sys legal c d) :
    I d.shared ∧ ∀ i, C i (d.prog i) d.shared := by
  refine reach_invariant (I := fun d => I d.shared ∧ ∀ i, C i (d.prog i) d.shared) ⟨holds,first⟩ ?_ run
  rintro d e ok ⟨holds,each⟩ move _
  cases move with
  | @act i op k r s at_i step =>
    have mine := each i
    rw [at_i] at mine
    obtain ⟨allowed,continues⟩ := next d i op k ok holds at_i mine
    obtain ⟨kept,moved⟩ := act i op d.shared r s holds allowed step
    refine ⟨kept,fun j => ?_⟩
    by_cases same : j = i
    · subst same
      simpa using continues r s step
    · simp only [Function.update_of_ne same]
      exact stable j _ _ _ (each j) (moved j same)
  | @start i l p at_i begins =>
    refine ⟨holds,fun j => ?_⟩
    by_cases same : j = i
    · subst same
      have mine := each j
      rw [at_i] at mine
      simpa using start j l p _ holds mine begins
    · simpa only [Function.update_of_ne same] using each j
  | env step =>
    obtain ⟨kept,moved⟩ := env d.shared _ holds step
    exact ⟨kept,fun j => stable j _ _ _ (each j) (moved j)⟩

@[inherit_doc reach_complies]
theorem reach_assured {R : ι → σ → σ → Prop} {Q : ι → ℓ → σ → Prop}
    (refl : ∀ i s, R i s s) (trans : ∀ i a b c, R i a b → R i b c → R i a c)
    (env : ∀ s s', I s → sys.env s s' → I s' ∧ ∀ i, R i s s')
    (act : ∀ i op s r s', I s → G i op s → sys.act i op s r s' → I s' ∧ ∀ j, j ≠ i → R j s s')
    (start : ∀ i l p s, I s → Q i l s → sys.start i l p → Guar (sys.act i) (R i) (G i) (Q i) p s)
    (holds : I c.shared) (first : ∀ i, Guar (sys.act i) (R i) (G i) (Q i) (c.prog i) c.shared) (run : Reach sys legal c d) :
    I d.shared ∧ ∀ i, Guar (sys.act i) (R i) (G i) (Q i) (d.prog i) d.shared :=
  reach_complies (C := fun i p s => Guar (sys.act i) (R i) (G i) (Q i) p s)
    (fun i _ _ _ holds moved => guar_stable (trans i) holds moved) env act
    (fun _ i _ _ _ _ _ holds => holds _ (refl i _))
    (fun i l p s kept holds begins => start i l p s kept (holds _ (refl i _)) begins) holds first run

/-- Programs that stay within `P`: a fact that others keep and every call within `P` keeps holds in
    every state reached, and so do the answers that follow from it. -/
theorem reach_within {answers : (op : Op) → Reply op → Prop} {P : ι → Op → Prop} (env : ∀ s s', I s → sys.env s s' → I s')
    (act : ∀ i op s r s', I s → P i op → sys.act i op s r s' → I s' ∧ answers op r)
    (start : ∀ i l p, sys.start i l p → Within answers (P i) (fun _ => True) p)
    (holds : I c.shared) (first : ∀ i, Within answers (P i) (fun _ => True) (c.prog i))
    (run : Reach sys legal c d) : I d.shared := by
  refine (reach_complies (I := I) (R := fun _ _ _ => True) (G := fun i op _ => P i op)
    (C := fun i p _ => Within answers (P i) (fun _ => True) p) (fun _ _ _ _ within _ => within)
    (fun s s' kept moved => ⟨env s s' kept moved,fun _ => trivial⟩)
    (fun i op s r s' kept ok step => ⟨(act i op s r s' kept ok step).1,fun _ _ => trivial⟩) ?_
    (fun i l p _ _ _ begins => start i l p begins) holds first run).1
  intro d i op next _ kept _ within
  exact ⟨within.1,fun r s' step => within.2 r (act i op d.shared r s' kept within.1 step).2⟩

/-- Parties that each work on a view of the shared state that is theirs alone: what holds
    of the program of each when it runs alone on its view holds in every interleaving. -/
theorem reach_views {τ : Type} (view : ι → σ → τ) (viewAct : ι → (op : Op) → τ → Reply op → τ → Prop) (own : ι → Op → Prop)
    (Q : ι → ℓ → τ → Prop) (env : ∀ s s', sys.env s s' → ∀ i, view i s' = view i s)
    (act : ∀ i op s r s', own i op → sys.act i op s r s' →
      viewAct i op (view i s) r (view i s') ∧ ∀ j, j ≠ i → view j s' = view j s)
    (start : ∀ i l p t, Q i l t → sys.start i l p → Issues (own i) (fun _ => True) p ∧
      ∀ v t', Alone (viewAct i) p t v t' → Q i v t')
    (first : ∀ i, ∃ l, c.prog i = .ret l ∧ Q i l (view i c.shared)) (run : Reach sys legal c d) (i : ι) :
    Issues (own i) (fun _ => True) (d.prog i) ∧
      ∀ v t', Alone (viewAct i) (d.prog i) (view i d.shared) v t' → Q i v t' := by
  refine (reach_complies (I := fun _ => True) (R := fun i s s' => view i s' = view i s) (G := fun i op _ => own i op)
    (C := fun i p s => Issues (own i) (fun _ => True) p ∧
      ∀ v t', Alone (viewAct i) p (view i s) v t' → Q i v t')
    ?_ ?_ ?_ ?_ ?_ trivial ?_ run).2 i
  · rintro i p s s' ⟨within,ends⟩ same
    exact ⟨within,by rw [same]; exact ends⟩
  · exact fun s s' _ moved => ⟨trivial,env s s' moved⟩
  · exact fun i op s r s' _ mine acted => ⟨trivial,(act i op s r s' mine acted).2⟩
  · rintro d i op k _ _ _ ⟨⟨mine,later⟩,ends⟩
    refine ⟨mine,fun r s' acted => ⟨later r trivial,fun v t' rest => ?_⟩⟩
    exact ends v t' (.call (act i op _ r s' mine acted).1 rest)
  · rintro i l p s _ ⟨_,ends⟩ begins
    exact start i l p _ (ends l _ (.ret ..)) begins
  · intro i
    obtain ⟨l,resting,holds⟩ := first i
    rw [resting]
    refine ⟨trivial,fun v t' run => ?_⟩
    obtain ⟨rfl,rfl⟩ := alone_ret.mp run
    exact holds

/-- What is left of a program and the state pass a test all along the run that `perform` gives. -/
def always {α : Type} (perform : (op : Op) → σ → Reply op × σ) (test : Prog Op Reply α → σ → Bool) : Prog Op Reply α → σ → Bool
  | .ret value, s => test (.ret value) s
  | .call op next, s => test (.call op next) s && always perform test (next (perform op s).1) (perform op s).2

theorem always_first {α : Type} {test : Prog Op Reply α → σ → Bool} {p : Prog Op Reply α}
    (passes : always perform test p s = true) : test p s = true := by
  cases p with
  | ret value => exact passes
  | call op next => exact (Bool.and_eq_true_iff.mp passes).1

theorem always_true {α : Type} (p : Prog Op Reply α) (s : σ) : always perform (fun _ _ => true) p s = true := by
  induction p generalizing s with
  | ret value => rfl
  | call op next ih => exact Bool.and_eq_true_iff.mpr ⟨rfl,ih _ _⟩

theorem exec_plays_of {α : Type} {act : (op : Op) → σ → Reply op → σ → Prop} {test : Prog Op Reply α → σ → Bool}
    (acts : ∀ op next s, test (.call op next) s = true → act op s (perform op s).1 (perform op s).2) {p : Prog Op Reply α}
    (passes : always perform test p s = true) : Plays act (Programs.calls perform p s) s (exec perform p s).2 := by
  induction p generalizing s with
  | ret value => exact .nil
  | call op next ih =>
    obtain ⟨here,later⟩ := Bool.and_eq_true_iff.mp passes
    exact .cons (acts op next s here) (ih _ later)

theorem exec_keeps {α β : Type} {f : σ → β} {test : Prog Op Reply α → σ → Bool}
    (keeps : ∀ op next s, test (.call op next) s = true → f (perform op s).2 = f s) {p : Prog Op Reply α}
    (passes : always perform test p s = true) : f (exec perform p s).2 = f s :=
  have played : Plays (fun _ s _ t => f t = f s) _ s _ := exec_plays_of keeps passes
  plays_keep (fun _ _ _ _ same => same) played

/-- A party runs to its end while the others stand still. -/
theorem reach_exec {i : ι} {test : Prog Op Reply ℓ → σ → Bool}
    (acts : ∀ op next s, test (.call op next) s = true → sys.act i op s (perform op s).1 (perform op s).2) {prog : ι → Prog Op Reply ℓ}
    (ok : ∀ p s', test p s' = true → legal ⟨s',Function.update prog i p⟩) (run : Reach sys legal c ⟨s,prog⟩)
    (passes : always perform test (prog i) s = true) :
    Reach sys legal c ⟨(exec perform (prog i) s).2,Function.update prog i (.ret (exec perform (prog i) s).1)⟩ := by
  generalize at_i : prog i = p at passes
  induction p generalizing s prog with
  | ret value =>
    have same : Function.update prog i (.ret value) = prog := by rw [← at_i,Function.update_eq_self]
    rw [exec_ret,same]
    exact run
  | call op next ih =>
    obtain ⟨here,later⟩ := Bool.and_eq_true_iff.mp passes
    have further := ih _ (by simpa only [Function.update_idem] using ok)
      (.step run (.act at_i (acts op next s here)) (ok _ _ (always_first later))) (Function.update_self ..) later
    rw [Function.update_idem] at further
    exact further

/-- A run from `c` leads to `s`, and every party rests there. -/
def Settles (sys : System Op Reply ι σ ℓ) (legal : Config Op Reply ι σ ℓ → Prop) (c : Config Op Reply ι σ ℓ) (s : σ) : Prop :=
  ∃ prog, (∀ i, ∃ l, prog i = .ret l) ∧ Reach sys legal c ⟨s,prog⟩

theorem settles_env {s' : σ} (settles : Settles sys legal c s) (moved : sys.env s s')
    (ok : ∀ prog : ι → Prog Op Reply ℓ, (∀ i, ∃ l, prog i = .ret l) → legal ⟨s',prog⟩) : Settles sys legal c s' := by
  obtain ⟨prog,resting,run⟩ := settles
  exact ⟨prog,resting,.step run (.env moved) (ok prog resting)⟩

theorem settles_exec {i : ι} {test : Prog Op Reply ℓ → σ → Bool} {p : Prog Op Reply ℓ}
    (settles : Settles sys legal c s) (acts : ∀ op s, sys.act i op s (perform op s).1 (perform op s).2)
    (begins : ∀ l, sys.start i l p)
    (ok : ∀ (prog : ι → Prog Op Reply ℓ) p s', (∀ j, ∃ l, prog j = .ret l) → test p s' = true →
      legal ⟨s',Function.update prog i p⟩)
    (passes : always perform test p s = true) : Settles sys legal c (exec perform p s).2 := by
  obtain ⟨prog,resting,run⟩ := settles
  obtain ⟨l,at_rest⟩ := resting i
  have ended := reach_exec (fun op _ s _ => acts op s) (fun p' s' tested => by simpa using ok prog p' s' resting tested)
    (.step run (.start at_rest (begins l)) (ok prog p s resting (always_first passes))) (by simpa using passes)
  rw [Function.update_self,Function.update_idem] at ended
  refine ⟨_,fun j => ?_,ended⟩
  by_cases same : j = i
  · subst same
    exact ⟨_,Function.update_self ..⟩
  · obtain ⟨l,still⟩ := resting j
    exact ⟨l,(Function.update_of_ne same ..).trans still⟩

/-- An operation that a party issued, with the reply it got. -/
structure Event (Op : Type) (Reply : Op → Type) (ι : Type) where
  who : ι
  op : Op
  reply : Reply op

/-- A shared state with the events so far, the newest first. -/
structure Traced (Op : Type) (Reply : Op → Type) (ι σ : Type) where
  state : σ
  trace : List (Event Op Reply ι)

/-- The system that also keeps its trace. -/
def System.traced (sys : System Op Reply ι σ ℓ) : System Op Reply ι (Traced Op Reply ι σ) ℓ where
  act i op s r s' := sys.act i op s.state r s'.state ∧ s'.trace = ⟨i,op,r⟩ :: s.trace
  env s s' := sys.env s.state s'.state ∧ s'.trace = s.trace
  start := sys.start

/-- The same configuration without its trace. -/
def Config.untraced (c : Config Op Reply ι (Traced Op Reply ι σ) ℓ) : Config Op Reply ι σ ℓ := ⟨c.shared.state,c.prog⟩

variable {legal : Config Op Reply ι (Traced Op Reply ι σ) ℓ → Prop} {c d : Config Op Reply ι (Traced Op Reply ι σ) ℓ}

theorem reach_untraced {legal' : Config Op Reply ι σ ℓ → Prop} (weaker : ∀ d, legal d → legal' d.untraced)
    (run : Reach sys.traced legal c d) : Reach sys legal' c.untraced d.untraced := by
  induction run with
  | refl ok => exact .refl (weaker _ ok)
  | step _ move ok ih =>
    refine .step ih ?_ (weaker _ ok)
    cases move with
    | act at_i step => exact .act at_i step.1
    | start at_i begins => exact .start at_i begins
    | env moved => exact .env moved.1

/-- What holds of the state and the trace together: each operation keeps it with its event put in
    front, and so do the moves of the environment. -/
theorem reach_traced {I : Traced Op Reply ι σ → Prop} (first : I c.shared)
    (act : ∀ (d : Config Op Reply ι (Traced Op Reply ι σ) ℓ) i op next r s, Reach sys.traced legal c d → I d.shared →
      d.prog i = .call op next → sys.act i op d.shared.state r s →
      legal ⟨⟨s,⟨i,op,r⟩ :: d.shared.trace⟩,Function.update d.prog i (next r)⟩ → I ⟨s,⟨i,op,r⟩ :: d.shared.trace⟩)
    (env : ∀ (d : Config Op Reply ι (Traced Op Reply ι σ) ℓ) s, I d.shared → sys.env d.shared.state s →
      I ⟨s,d.shared.trace⟩)
    (run : Reach sys.traced legal c d) : I d.shared := by
  induction run with
  | refl _ => exact first
  | @step d e before move ok holds =>
    cases move with
    | @act i op next r shared at_i step =>
      obtain ⟨acted,traced⟩ := step
      obtain ⟨state,trace⟩ := shared
      cases traced
      exact act d i op next r state before holds at_i acted ok
    | start => exact holds
    | @env shared moved =>
      obtain ⟨passed,same⟩ := moved
      obtain ⟨state,trace⟩ := shared
      cases same
      exact env d state holds passed

/-- Where the protocol stands for party `i` after a trace. -/
def observed {A : Type} (protocol : Protocol Op Reply A) (a : A) (i : ι) : List (Event Op Reply ι) → A
  | [] => a
  | e :: earlier => if e.who = i then protocol.observe (observed protocol a i earlier) e.op e.reply
      else observed protocol a i earlier

/-- An event moves the protocol for the party it belongs to. -/
theorem observed_cons {A : Type} (protocol : Protocol Op Reply A) (a : A) (e : Event Op Reply ι)
    (trace : List (Event Op Reply ι)) :
    (fun i => observed protocol a i (e :: trace)) = Function.update (fun i => observed protocol a i trace) e.who
      (protocol.observe (observed protocol a e.who trace) e.op e.reply) := by
  funext i
  by_cases same : i = e.who
  · subst same
    simp [observed]
  · simp [observed,Function.update_of_ne same,Ne.symm same]

/-- When each party's program follows the protocol from the first state, and a
    party at rest only takes up programs that follow it, every party follows it
    in every state reached. -/
theorem reach_follows {A : Type} {protocol : Protocol Op Reply A}
    {answers : (op : Op) → Reply op → Prop} {Q : ι → A → ℓ → Prop} {a : A}
    (answered : ∀ i op d e r, legal d → legal e → sys.act i op d.shared.state r e.shared.state →
      e.shared.trace = ⟨i,op,r⟩ :: d.shared.trace → answers op r)
    (start : ∀ i b l p, Q i b l → sys.start i l p → Follows answers protocol (Q i) p b)
    (empty : c.shared.trace = [])
    (first : ∀ i, Follows answers protocol (Q i) (c.prog i) a) (run : Reach sys.traced legal c d) :
    ∀ i, Follows answers protocol (Q i) (d.prog i) (observed protocol a i d.shared.trace) := by
  refine reach_invariant (I := fun d => ∀ i, Follows answers protocol (Q i) (d.prog i)
    (observed protocol a i d.shared.trace)) (fun i => by simpa [empty,observed] using first i) ?_ run
  intro d e ok holds move ok' j
  cases move with
  | @act i op next r s at_i step =>
    obtain ⟨acted,traced⟩ := step
    have mine := holds i
    rw [at_i] at mine
    have possible := answered i op d _ r ok ok' acted traced
    simp only [traced,observed]
    by_cases same : j = i
    · subst same
      simpa using mine.2 r possible
    · simp only [Function.update_of_ne same,if_neg (Ne.symm same)]
      exact holds j
  | @start i l p at_i begins =>
    by_cases same : j = i
    · subst same
      have mine := holds j
      rw [at_i] at mine
      simpa using start j _ l p mine begins
    · simpa only [Function.update_of_ne same] using holds j
  | env moved =>
    obtain ⟨_,untouched⟩ := moved
    simpa only [untouched] using holds j

end Systems
end Arks.Programs
