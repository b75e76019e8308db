import Arks.Families
import Arks.ReplicaCounts

/-!
Deletions come to their end. A user deletes an application, and the API server keeps it as
long as it carries the finalizer of its controller. However many passes over it fail, and
wherever they fail, it is still there for the next one. A pass that returns without an error
has removed all children, and the application is gone unless others have finalizers on it;
and a pass in which no call fails is such a one.
-/
namespace Arks.Deletions
open Programs Programs.Prog Api Kube Controllers Workloads Applications
open Passes Finalizers Families
open ReplicaCounts (plays_kind removeChildren_plays refused_same passOver host)

/-! ### An accepted update -/

section Updates
variable {index : Index} {c c' : Cluster} {k : Kind} {ns name : String}
  {stored sent o : Object k} {n : Nat}

private theorem deleted_stays : Deleted (updated n k stored sent) ↔ Deleted stored := by
  cases k <;> simp [Deleted,meta?,updated,settled]

/-- An update that is accepted writes the object, or lets it go. -/
theorem update_stores (present : c.objects k ns name = some stored) (here : key k sent = (ns,name))
    (served : Fallible index (.update k sent) c (.ok o) c') :
    o = updated (c.revision + 1) k stored sent ∧
      (∀ found, c'.objects k ns name = some found → found = o ∧ released k o = false) := by
  have known : c.stored k sent = some stored := by rw [Cluster.stored,here,present]
  cases handles_cases (serves_ok (fallible_serves served)) with
  | updated is _ stays =>
    cases is.symm.trans known
    refine ⟨rfl,fun found there => ⟨?_,stays⟩⟩
    rw [Cluster.put_objects,key_updated,here,if_pos ⟨rfl,rfl⟩] at there
    exact (Option.some.inj there).symm
  | released is _ gone =>
    cases is.symm.trans known
    refine ⟨rfl,fun found there => ?_⟩
    rw [here,Cluster.remove_objects,if_pos ⟨rfl,rfl⟩] at there
    cases there

/-- What is not released, though deleted, has a finalizer. -/
theorem unreleased_carries (deleted : Deleted o) (stays : released k o = false) : ∃ f, Carries f o := by
  obtain ⟨m,is,gone⟩ := deleted
  rw [released,Option.mem_def.mp is,Option.any_some,gone,Bool.true_and] at stays
  obtain ⟨f,rest,has⟩ := List.exists_cons_of_ne_nil (fun empty => by simp [empty] at stays : m.finalizers ≠ [])
  exact ⟨f,m,is,by simp [has]⟩

end Updates

/-! ### A pass -/

section Passes
variable {index : Index} {c c' : Cluster} {k : Kind} (r : Reconciler k) {ns name : String}
  {app : Object k} {calls : List KubeCall} {outcome : Outcome}

/-- The application is deleted, and its controller has still to see to it. -/
def Waiting (k : Kind) (c : Cluster) (ns name : String) : Prop :=
  ∃ app, c.objects k ns name = some app ∧ Deleted app ∧ Carries arksApplicationControllerFinalizer app

/-- The children are gone, and only others may keep the application. -/
structure Finished (k : Kind) (c : Cluster) (ns name : String) : Prop where
  children : ∀ ref ∈ family ⟨k,ns,name⟩, objectAt c ref = none
  application : ∀ app, c.objects k ns name = some app →
    ¬ Carries arksApplicationControllerFinalizer app ∧ ∃ f, Carries f app

/-- What the controller sends when the children are gone. -/
abbrev unguarded (app : Object k) : Object k :=
  r.withMeta app (removeFinalizer (r.meta_ app) arksApplicationControllerFinalizer)

/-- The runs of `remove` over a deleted application. -/
inductive Removed (app : Object k) : List KubeCall → Outcome → Prop
  | kept {calls : List KubeCall} {text text' : String} :
      Runs (Reconciler.removeChildren (r.meta_ app).namespace_ (r.children app)) calls (.error text') →
      Removed app calls (.failed text)
  | refused {calls : List KubeCall} {e : ApiErr} {text : String} :
      Runs (Reconciler.removeChildren (r.meta_ app).namespace_ (r.children app)) calls (.ok ()) →
      Removed app (calls ++ [⟨.update k (unguarded r app),.error e⟩]) (.failed text)
  | done {calls : List KubeCall} {o : Object k} :
      Runs (Reconciler.removeChildren (r.meta_ app).namespace_ (r.children app)) calls (.ok ()) →
      Removed app (calls ++ [⟨.update k (unguarded r app),.ok o⟩]) (.done .empty)

variable {r}

theorem deleted_meta (orderly : Orderly r) : Deleted app ↔ (r.meta_ app).deletionTimestamp.isSome := by
  simp [Deleted,orderly.described]

theorem remove_runs (orderly : Orderly r) (deleted : Deleted app) (run : Runs (r.remove app) calls outcome) :
    Removed r app calls outcome := by
  unfold Reconciler.remove at run
  rw [if_neg (by simpa using Option.isSome_iff_ne_none.mp ((deleted_meta orderly).mp deleted))] at run
  obtain ⟨cleared,first,rest,rfl,clears,later⟩ := runs_bind.mp run
  cases cleared with
  | error =>
    obtain ⟨rfl,rfl⟩ := runs_ret.mp later
    rw [List.append_nil]
    exact .kept clears
  | ok =>
    obtain ⟨written,last,rfl,ends⟩ := runs_call.mp later
    cases written with
    | error =>
      obtain ⟨rfl,rfl⟩ := runs_ret.mp ends
      exact .refused clears
    | ok =>
      obtain ⟨rfl,rfl⟩ := runs_ret.mp ends
      exact .done clears

/-- The finalizer is off. -/
theorem unguarded_uncarried (orderly : Orderly r) : ¬ Carries arksApplicationControllerFinalizer (unguarded r app) := by
  simp [Carries,orderly.described,removeFinalizer]

theorem unguarded_key (orderly : Orderly r) : key k (unguarded r app) = key k app := by
  rw [orderly.keyed,orderly.keyed,r.meta_withMeta]
  rfl

/-- The update is from the version that was read. -/
theorem unguarded_current (orderly : Orderly r) : Current k app (unguarded r app) := by
  rw [Current,orderly.described,orderly.described,r.meta_withMeta]
  rfl

/-- Removing the children leaves the application as it is. -/
theorem removeChildren_kept (orderly : Orderly r) {result : Except String Unit} (present : c.objects k ns name = some app)
    (run : Runs (Reconciler.removeChildren (r.meta_ app).namespace_ (r.children app)) calls result)
    (played : Plays (Fallible index) calls c c') : c'.objects k ns name = some app := by
  refine (plays_kind (runs_within (removeChildren_within (P := fun op => kindOf op ≠ k) _ _ ?_) run).1 played).trans present
  intro child is same
  exact orderly.tame.own (same ▸ orderly.tame.children app child is)

/-- After an update that is accepted the children are still gone, and the finalizer is off. -/
theorem unguarded_finished (orderly : Orderly r) {o : Object k} (present : c.objects k ns name = some app) (deleted : Deleted app)
    (absent : ∀ child ∈ r.children app, c.objects child.1 (r.meta_ app).namespace_ child.2.1 = none)
    (served : Fallible index (.update k (unguarded r app)) c (.ok o) c') : Finished k c' ns name := by
  have here : key k app = (ns,name) := c.keyed present
  obtain ⟨rfl,left⟩ := update_stores present ((unguarded_key orderly).trans here) served
  refine ⟨fun ref is => ?_,fun found there => ?_⟩
  · rw [← refOf_eq here,← orderly.children app] at is
    obtain ⟨child,member,rfl⟩ := List.mem_map.mp is
    have aside : ¬ Touches child.1 (r.meta_ app).namespace_ child.2.1 (.update k (unguarded r app)) :=
      fun touches => orderly.tame.own (touches.1 ▸ orderly.tame.children app child member)
    exact (fallible_frame served aside).trans (absent child member)
  · obtain ⟨rfl,stays⟩ := left found there
    refine ⟨fun carries => unguarded_uncarried orderly (carries_updated.mp carries),?_⟩
    exact unreleased_carries (deleted_stays.mpr deleted) stays

/-- `remove` fails and leaves the application as it is, or it is done. -/
theorem remove_plays (orderly : Orderly r) (present : c.objects k ns name = some app) (deleted : Deleted app)
    (removed : Removed r app calls outcome) (played : Plays (Fallible index) calls c c') :
    ((∃ text, outcome = .failed text) ∧ c'.objects k ns name = some app) ∨ (outcome = .done .empty ∧ Finished k c' ns name) := by
  cases removed with
  | kept clears => exact .inl ⟨⟨_,rfl⟩,removeChildren_kept orderly present clears played⟩
  | refused clears =>
    obtain ⟨c₁,before,after⟩ := plays_append.mp played
    obtain ⟨c₂,served,behind⟩ := plays_cons.mp after
    cases plays_nil.mp behind
    rw [refused_same served]
    exact .inl ⟨⟨_,rfl⟩,removeChildren_kept orderly present clears before⟩
  | done clears =>
    obtain ⟨c₁,before,after⟩ := plays_append.mp played
    obtain ⟨c₂,served,behind⟩ := plays_cons.mp after
    cases plays_nil.mp behind
    have kept := removeChildren_kept orderly present clears before
    exact .inr ⟨rfl,unguarded_finished orderly kept deleted (removeChildren_plays clears before).2 served⟩

variable (index r) in
/-- A pass over the application, where calls may fail. -/
def Pass (ns name : String) (c : Cluster) (outcome : Outcome) (c' : Cluster) : Prop :=
  ∃ calls, Runs (r.reconcileRequest ns name) calls outcome ∧ Plays (Fallible index) calls c c'

/-- A pass over a deleted application fails and leaves it for the next one, or is done with it. -/
theorem pass_ends (orderly : Orderly r) (waiting : Waiting k c ns name) (pass : Pass index r ns name c outcome c') :
    ((∃ text, outcome = .failed text) ∧ Waiting k c' ns name) ∨ (outcome = .done .empty ∧ Finished k c' ns name) := by
  obtain ⟨app,present,deleted,carries⟩ := waiting
  obtain ⟨calls,run,played⟩ := pass
  have gone := (deleted_meta orderly).mp deleted
  have first : ∀ {reply rest}, Plays (Fallible index) (⟨.get k ns name,reply⟩ :: rest) c c' →
      (∀ o, reply = .ok o → o = app) ∧ (∀ message, reply ≠ .error (.notFound message)) ∧ Plays (Fallible index) rest c c' := by
    intro reply rest played
    obtain ⟨c₁,got,behind⟩ := plays_cons.mp played
    obtain ⟨rfl,found,absent⟩ := fallible_get got
    refine ⟨fun o is => Option.some.inj ((found o is).symm.trans present),fun message is => ?_,behind⟩
    cases (absent message is).symm.trans present
  cases request_runs run with
  | gone message => exact absurd rfl ((first played).2.1 message)
  | unread =>
    cases plays_nil.mp (first played).2.2
    exact .inl ⟨⟨_,rfl⟩,app,present,deleted,carries⟩
  | removed _ removes =>
    obtain ⟨same,_,played⟩ := first played
    obtain rfl := same _ rfl
    rcases remove_plays orderly present deleted (remove_runs orderly deleted removes) played with ⟨fails,kept⟩ | finished
    · exact .inl ⟨fails,_,kept,deleted,carries⟩
    · exact .inr finished
  | panicked alive | unwritten _ _ alive | failed alive | done alive =>
    obtain rfl := (first played).1 _ rfl
    rw [alive] at gone
    cases gone

variable (index r) in
/-- Passes that fail, and what others do who leave the application alone. -/
inductive Tries (ns name : String) (c : Cluster) : Cluster → Prop
  | none : Tries ns name c c
  | pass {c₁ c₂ : Cluster} {text : String} : Tries ns name c c₁ → Pass index r ns name c₁ (.failed text) c₂ → Tries ns name c c₂
  | others {c₁ c₂ : Cluster} : Tries ns name c c₁ → c₂.objects k ns name = c₁.objects k ns name → Tries ns name c c₂

/-! #### A pass in which no call fails -/

/-- The API server carries the call out. -/
abbrev CarriesOut (index : Index) (op : KubeOp) (c : Cluster) (reply : KubeReply op)
    (c' : Cluster) : Prop := Handles index c op reply c'

theorem plays_fallible (played : Plays (CarriesOut index) calls c c') : Plays (Fallible index) calls c c' := by
  induction played with
  | nil => exact .nil
  | cons step _ ih => exact .cons (.handled step) ih

private theorem removeChildren_handled {children : List (Kind × String × String)} {result : Except String Unit}
    (run : Runs (Reconciler.removeChildren ns children) calls result) (played : Plays (CarriesOut index) calls c c') :
    result = .ok () := by
  induction children generalizing c calls with
  | nil => exact (runs_ret.mp run).2
  | cons child children ih =>
    obtain ⟨removed,rest,rfl,later⟩ := runs_call.mp run
    obtain ⟨c₁,deleted,behind⟩ := plays_cons.mp played
    cases handles_cases deleted with
    | refused refused =>
      cases refused
      exact ih later behind
    | deleted => exact ih later behind

private theorem remove_handled (orderly : Orderly r) (present : c.objects k ns name = some app)
    (removed : Removed r app calls outcome) (played : Plays (CarriesOut index) calls c c') : ∀ text, outcome ≠ .failed text := by
  cases removed with
  | kept clears => cases removeChildren_handled clears played
  | refused clears =>
    obtain ⟨c₁,before,after⟩ := plays_append.mp played
    obtain ⟨c₂,served,_⟩ := plays_cons.mp after
    have kept := removeChildren_kept orderly present clears (plays_fallible before)
    have stored : c₁.stored k (unguarded r app) = some app := by
      rw [Cluster.stored,unguarded_key orderly,c.keyed present]
      exact kept
    -- the API server knows the application in the version that was read
    cases handles_cases served with
    | refused refused =>
      cases refused with
      | unknown _ absent => cases absent.symm.trans stored
      | outdated _ is stale =>
        cases is.symm.trans stored
        exact absurd (unguarded_current orderly) stale
  | done => exact fun text wrong => by cases wrong

/-- A pass over a deleted application in which no call fails is done with it. -/
theorem pass_handled (orderly : Orderly r) (waiting : Waiting k c ns name) (run : Runs (r.reconcileRequest ns name) calls outcome)
    (played : Plays (CarriesOut index) calls c c') : outcome = .done .empty ∧ Finished k c' ns name := by
  rcases pass_ends orderly waiting ⟨calls,run,plays_fallible played⟩ with ⟨⟨text,rfl⟩,_⟩ | done
  · obtain ⟨app,present,deleted,_⟩ := waiting
    have gone := (deleted_meta orderly).mp deleted
    have first : ∀ {reply rest}, Plays (CarriesOut index) (⟨.get k ns name,reply⟩ :: rest) c c' →
        reply = .ok app ∧ Plays (CarriesOut index) rest c c' := by
      intro reply rest played
      obtain ⟨c₁,got,behind⟩ := plays_cons.mp played
      obtain ⟨rfl,found⟩ := got
      rw [present] at found
      exact ⟨found,behind⟩
    cases request_runs run with
    | unread => cases (first played).1
    | removed _ removes =>
      cases (first played).1
      exact absurd rfl (remove_handled orderly present (remove_runs orderly deleted removes) (first played).2 text)
    | unwritten _ _ alive | failed alive =>
      cases (first played).1
      rw [alive] at gone
      cases gone
  · exact done

/-! #### Several passes -/

private theorem tries_waiting (orderly : Orderly r) (waiting : Waiting k c ns name) (tries : Tries index r ns name c c') :
    Waiting k c' ns name := by
  induction tries with
  | none => exact waiting
  | pass _ pass ih =>
    rcases pass_ends orderly ih pass with ⟨_,still⟩ | ⟨wrong,_⟩
    · exact still
    · cases wrong
  | others _ same ih =>
    obtain ⟨app,present,rest⟩ := ih
    exact ⟨app,same.trans present,rest⟩

variable (index r) in
/-- A deletion comes to its end: from when the application is deleted, as long as passes over it fail it waits for the next
    one. That fails and leaves it waiting, or returns without an error and leaves nothing to do; and it returns
    without an error when no call fails. -/
def Completes : Prop := ∀ ns name c c₁, Waiting k c ns name → Tries index r ns name c c₁ →
  Waiting k c₁ ns name ∧
  (∀ outcome c₂, Pass index r ns name c₁ outcome c₂ →
    ((∃ text, outcome = .failed text) ∧ Waiting k c₂ ns name) ∨ (outcome = .done .empty ∧ Finished k c₂ ns name)) ∧
  ∀ calls outcome c₂, Runs (r.reconcileRequest ns name) calls outcome → Plays (CarriesOut index) calls c₁ c₂ →
    outcome = .done .empty ∧ Finished k c₂ ns name

theorem completes (orderly : Orderly r) : Completes index r := by
  intro ns name c c₁ waiting tries
  have still := tries_waiting orderly waiting tries
  exact ⟨still,fun _ _ pass => pass_ends orderly still pass,fun _ _ _ run played => pass_handled orderly still run played⟩

end Passes

/-- The deletions of both kinds of applications come to their end. -/
theorem deletions_complete (p : Platform) (index : Index) :
    Completes index (arksApplicationReconciler p) ∧ Completes index (arksDisaggregatedApplicationReconciler p) :=
  ⟨completes (orderly_plain p),completes (orderly_disaggregated p)⟩

/-- `llm` is deleted, with its service there. -/
def deletedLlm : Cluster :=
  (Cluster.empty.put .application { llmPlain ⟨none,[]⟩ with deletionTimestamp := some 0 }).put .service
    (applicationService (llmPlain ⟨none,[]⟩))

/-- The first pass cannot delete the leader worker set. -/
def llmFailed : Cluster := (passOver (arksApplicationReconciler host) (fun op => kindOf op = .lws) deletedLlm).2

theorem passOver_pass {index : Index} {k : Kind} {r : Reconciler k} {fails : KubeOp → Bool}
    {c : Cluster} {outcome : Outcome} (ends : (passOver r fails c).1 = outcome) :
    Pass index r "team-a" "llm" c outcome (passOver r fails c).2 :=
  ⟨_,ends ▸ exec_runs _ _ _,exec_plays (respond_fallible fails) _ _⟩

/-- The second pass is done with it. -/
theorem deletions_complete_llm : ∃ c,
    Pass (fun _ _ => []) (arksApplicationReconciler host) "team-a" "llm" llmFailed (.done .empty) c ∧
    Finished .application c "team-a" "llm" := by
  have waiting : Waiting .application deletedLlm "team-a" "llm" :=
    ⟨{ llmPlain ⟨none,[]⟩ with deletionTimestamp := some 0 },by decide,⟨_,rfl,rfl⟩,_,rfl,by decide⟩
  have tries : Tries (fun _ _ => []) (arksApplicationReconciler host) "team-a" "llm" deletedLlm llmFailed :=
    .pass .none (passOver_pass rfl)
  have pass : Pass (fun _ _ => []) (arksApplicationReconciler host) "team-a" "llm" llmFailed (.done .empty)
      (passOver (arksApplicationReconciler host) (fun _ => false) llmFailed).2 := passOver_pass (by decide +kernel)
  rcases ((deletions_complete host (fun _ _ => [])).1 _ _ _ _ waiting tries).2.1 _ _ pass with ⟨⟨_,wrong⟩,_⟩ | ⟨_,finished⟩
  · cases wrong
  · exact ⟨_,pass,finished⟩

end Arks.Deletions
