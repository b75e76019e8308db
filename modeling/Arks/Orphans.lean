import Arks.Families

/-!
No child of an application is orphaned. Both reconcilers keep to the finalizer protocol:
the finalizer is put on in an earlier pass than the first child is created, and it is
taken off by a pass that read a deleted version of the application, after every child
was deleted or found missing. An update with an old version is refused.
-/
namespace Arks.Orphans
open Programs Programs.Prog Api Kube Controllers Workloads Applications
open Passes Finalizers Families

/-! ### The protocol -/

/-- Services, leader worker sets and deployments are the children of the guarded applications. -/
def guards : Guards where
  finalizer := finalizerOf
  child := Child
  family := family
  custom k f guard := by cases k <;> trivial
  apart k child := by rcases child with rfl | rfl | rfl <;> rfl

private theorem tends_works {i : Ref} {op : KubeOp} (guarded : (finalizerOf i.kind).isSome) (tends : Tends i op) :
    Works guards i op := by
  cases op with
  | get => exact ⟨fun _ _ => .get _ _ _,by simp⟩
  | create k o => exact ⟨fun w has => .create o tends.1 (fun child => ⟨tends.2 child,has⟩),by simp⟩
  | update k o =>
    refine ⟨fun w _ => .adjust o tends,fun o' f issued guard => ?_⟩
    cases issued
    rw [show finalizerOf i.kind = none from tends] at guarded
    cases guarded
  | list | updateStatus | patch | delete => cases tends

/-! ### Passes -/

/-- The applications are read from a cache. -/
def lags (k : Kind) : Prop := k = .application ∨ k = .disaggregated

/-- What is read of models and of the children does not matter. -/
def guesses (op : KubeOp) : Prop := ∃ k ns name, op = .get k ns name ∧ ¬ lags k

section Passes
variable {index : Index} {k : Kind} {r : Reconciler k} {app : Object k} {w w' : World} {i : Ref}

/-- The children are removed one after the other. -/
theorem removeChildren_guar {ns : String} {known : Nat} (children : List (Kind × String × String)) {gone : Ref → Prop}
    (members : ∀ child ∈ children, guards.child child.1) (leaving : Leaving guards w i known gone) :
    Guar (Acts index lags guesses i) (Relies guards i) (fun op w => Allowed guards w i op)
      (fun result w => Kept guards w ∧ (result = .ok () → Leaving guards w i known
        (fun ref => gone ref ∨ ref ∈ children.map (fun child => ⟨child.1,ns,child.2.1⟩))))
      (Reconciler.removeChildren ns children) w := by
  induction children generalizing w gone with
  | nil =>
    intro w' moved
    have still := leaving_relies leaving moved
    exact ⟨still.kept,fun _ => ⟨still.kept,still.guard,still.spent,fun ref child is => still.none_left ref child
      (by simpa using is)⟩⟩
  | cons child children ih =>
    obtain ⟨kind,name,what⟩ := child
    intro w₁ moved
    have still := leaving_relies leaving moved
    have allowed : Allowed guards w₁ i (.delete kind ns name) :=
      .delete kind ns name (guards.apart kind (members (kind,name,what) (.head _)))
    refine ⟨allowed,fun reply w₂ acts => ?_⟩
    have later := leaving_acts still allowed acts rfl
    have rest : (reply = .ok () ∨ ∃ message, reply = .error (.notFound message)) →
        Guar (Acts index lags guesses i) (Relies guards i) (fun op w => Allowed guards w i op)
          (fun result w => Kept guards w ∧ (result = .ok () → Leaving guards w i known
            (fun ref => gone ref ∨ ref ∈ ((kind,name,what) :: children).map (fun child => ⟨child.1,ns,child.2.1⟩))))
          (Reconciler.removeChildren ns children) w₂ := by
      intro reported
      have fewer : Leaving guards w₂ i known (fun ref => gone ref ∨ ref = ⟨kind,ns,name⟩) := by
        refine ⟨later.kept,later.guard,later.spent,fun ref child is => ?_⟩
        rcases is with is | rfl
        · exact later.none_left ref child is
        · exact acts_deleted (by simp [guesses]) acts reported
      refine guar_mono (ih (fun child is => members child (.tail _ is)) fewer) (fun _ _ ok => ok) ?_
      rintro result w ⟨kept,ends⟩
      refine ⟨kept,fun ok => ?_⟩
      obtain ⟨kept,guard,spent,none_left⟩ := ends ok
      exact ⟨kept,guard,spent,fun ref child is => none_left ref child (by simpa [or_assoc] using is)⟩
    have stops : ∀ text : String, Guar (Acts index lags guesses i) (Relies guards i) (fun op w => Allowed guards w i op)
        (fun result w => Kept guards w ∧ (result = .ok () → Leaving guards w i known
          (fun ref => gone ref ∨ ref ∈ ((kind,name,what) :: children).map (fun child => ⟨child.1,ns,child.2.1⟩))))
        (pure (.error text) : KubeAction (Except String Unit)) w₂ :=
      fun text w' moved => ⟨moved.kept later.kept,fun wrong => by cases wrong⟩
    rcases reply with (message | message | message) | _
    · exact rest (.inr ⟨message,rfl⟩)
    · exact stops _
    · exact stops _
    · exact rest (.inl rfl)

theorem carries_iff (orderly : Orderly r) :
    Carries arksApplicationControllerFinalizer app ↔ arksApplicationControllerFinalizer ∈ (r.meta_ app).finalizers := by
  simp [Carries,orderly.described]

theorem deleted_iff (orderly : Orderly r) : Deleted app ↔ (r.meta_ app).deletionTimestamp.isSome := by
  simp [Deleted,orderly.described]

theorem lags_of (orderly : Orderly r) : lags k := by
  have guarded := orderly.guarded
  cases k <;> first | exact .inl rfl | exact .inr rfl | cases guarded

private theorem remove_complies (orderly : Orderly r) (kept : Kept guards w) (seen : w.seen (refOf k app) = some app)
    (deleted : (r.meta_ app).deletionTimestamp.isSome) : Complies index lags guesses guards (refOf k app) (r.remove app) w := by
  have leaving : Leaving guards w (refOf k app) (version app) (fun _ => False) :=
    ⟨kept,by rw [show guards.finalizer (refOf k app).kind = _ from orderly.guarded]; rfl,
      spent_read kept seen orderly.guarded ((deleted_iff orderly).mpr deleted),fun _ _ wrong => wrong.elim⟩
  have members : ∀ child ∈ r.children app, guards.child child.1 := by
    intro child is
    have member : (⟨child.1,(r.meta_ app).namespace_,child.2.1⟩ : Ref) ∈ family (refOf k app) := by
      rw [← orderly.children app]
      exact List.mem_map_of_mem is
    exact family_child member
  rw [Reconciler.remove,if_neg (by simpa using Option.isSome_iff_ne_none.mp deleted)]
  refine guar_bind (relies_refl _) (removeChildren_guar (r.children app) members leaving) (fun result w' holds => ?_)
  obtain ⟨kept',ends⟩ := holds
  cases result with
  | error text => exact complies_ret kept'
  | ok =>
    intro w'' moved
    have left := leaving_relies (ends rfl) moved
    have number : version (r.withMeta app (removeFinalizer (r.meta_ app) arksApplicationControllerFinalizer)) = version app := by
      simp [version,orderly.described,removeFinalizer]
    have home : refOf k (r.withMeta app (removeFinalizer (r.meta_ app) arksApplicationControllerFinalizer)) = refOf k app := by
      rw [refOf,orderly.keyed,r.meta_withMeta,refOf,orderly.keyed]
      rfl
    rw [← number] at left
    have allowed := leaving_parts left (fun ref member => .inr (by rw [orderly.children app]; exact member)) home
    refine ⟨allowed,fun reply w₃ acts => ?_⟩
    have kept₃ := acts_kept acts left.kept allowed
    cases reply <;> exact complies_ret kept₃

private theorem reconcile_complies (orderly : Orderly r) (kept : Kept guards w) (seen : w.seen (refOf k app) = some app)
    (alive : (r.meta_ app).deletionTimestamp = none) : Complies index lags guesses guards (refOf k app) (r.reconcile app) w := by
  unfold Reconciler.reconcile
  split
  · exact complies_ret kept
  split
  · exact complies_ret kept
  split
  · -- the finalizer is asked for, whatever the API server has by then
    refine complies_mild ?_ kept
    have home : refOf k (finalizing r app) = refOf k app := by
      rw [refOf,orderly.keyed,finalizing,r.meta_withMeta,refOf,orderly.keyed]
      unfold addFinalizer
      split <;> rfl
    have carries : Carries arksApplicationControllerFinalizer (finalizing r app) := by
      rw [carries_iff orderly,finalizing,r.meta_withMeta]
      unfold addFinalizer
      split
      · rename_i has
        exact (hasFinalizer_iff ..).mp has
      · simp
    refine ⟨fun w => .keep _ home orderly.guarded carries,fun reply _ => ?_⟩
    cases reply <;> trivial
  · rename_i carried
    have carries : Carries arksApplicationControllerFinalizer app := (carries_iff orderly).mpr (by simpa using carried)
    have guarded : Guarded guards w (refOf k app) := guarded_read kept seen orderly.guarded carries
      (fun deleted => by simpa [alive] using (deleted_iff orderly).mp deleted)
    refine complies_works ?_ kept guarded
    cases checked : r.precheck (r.initialized app) with
    | stop => trivial
    | next app₁ =>
      have place : refOf k app₁ = refOf k app := refOf_meta orderly
        ((Readiness.precheck_meta checked).trans (by simp [Reconciler.initialized]))
      rw [← place]
      have guard : (finalizerOf (refOf k app₁).kind).isSome := by
        rw [show finalizerOf (refOf k app₁).kind = _ from orderly.guarded]
        rfl
      exact within_mono (serve_tends orderly) (fun _ tends => tends_works guard tends) (fun _ _ => trivial)

/-- A pass over any application keeps to the protocol. -/
theorem pass_complies (orderly : Orderly r) (ns name : String) (kept : Kept guards w) :
    Complies index lags guesses guards ⟨k,ns,name⟩ (r.reconcileRequest ns name) w := by
  simp only [Reconciler.reconcileRequest,Controllers.reconcileRequest,issue_bind]
  intro w₁ moved
  have kept₁ := moved.kept kept
  refine ⟨.get k ns name,fun read w₂ acts => ?_⟩
  obtain ⟨rfl,found,_⟩ := acts_cached (lags_of orderly) (by simp [guesses,lags_of orderly]) acts
  rcases read with (_ | _ | _) | app
  · exact complies_ret kept₁
  · exact complies_ret kept₁
  · exact complies_ret kept₁
  · have seen := found app rfl
    have place : refOf k app = ⟨k,ns,name⟩ := w₂.keyed (Watched.seen_mem seen)
    clear acts found
    -- the type of the reply still mentions the key
    change Object k at app
    obtain ⟨rfl,rfl⟩ : (key k app).1 = ns ∧ (key k app).2 = name := by simpa [refOf] using place
    simp only
    split
    · rename_i deleted
      exact remove_complies orderly kept₁ seen deleted
    · rename_i alive
      refine guar_bind (relies_refl _) (reconcile_complies orderly kept₁ seen (by simpa using alive)) ?_
      rintro ⟨after,ended⟩ w' kept'
      cases ended with
      | panicked => exact complies_ret kept'
      | done | failed =>
        refine complies_mild ⟨fun w => .status after,fun reply _ => ?_⟩ kept'
        cases reply <;> trivial

end Passes

/-! ### Runs -/

/-- The passes over an application. -/
inductive Pass (p : Platform) : Ref → KubeAction Outcome → Prop
  | plain (ns name : String) : Pass p ⟨.application,ns,name⟩ ((arksApplicationReconciler p).reconcileRequest ns name)
  | disaggregated (ns name : String) :
      Pass p ⟨.disaggregated,ns,name⟩ ((arksDisaggregatedApplicationReconciler p).reconcileRequest ns name)

/-- The controllers of both kinds, behind their caches. -/
def applications (p : Platform) (index : Index) :
    System KubeOp KubeReply Ref World Outcome :=
  system index lags guesses guards (Pass p)

/-- In whatever order the passes, the caches and the users take their steps, and whichever calls
    fail, a child that was created for an application is there only while the application is
    there with its finalizer. -/
theorem no_orphans (p : Platform) (index : Index) (c d : Config KubeOp KubeReply Ref World Outcome)
    (initial : c.shared = World.fresh) (resting : ∀ i, ∃ outcome, c.prog i = .ret outcome)
    (run : Reach (applications p index) (fun _ => True) c d) (app child : Ref)
    (kind : child.kind = .service ∨ child.kind = .lws ∨ child.kind = .deployment) (owned : d.shared.Owned app child) :
    ∃ o, objectAt d.shared.server app = some o ∧ Carries arksApplicationControllerFinalizer o := by
  have kept : Kept guards d.shared := by
    refine reach_kept ?_ initial resting run
    intro i pass w begins kept
    cases begins with
    | plain ns name => exact pass_complies (orderly_plain p) ns name kept
    | disaggregated ns name => exact pass_complies (orderly_disaggregated p) ns name kept
  obtain ⟨o,f,stored,guard,carries⟩ := kept.safe app child kind owned
  have same : f = arksApplicationControllerFinalizer := by
    obtain ⟨k,ns,name⟩ := app
    cases k <;> cases guard <;> rfl
  exact ⟨o,stored,same ▸ carries⟩

/-- A user asks for the application `llm`. -/
def asked : World :=
  (World.fresh.write .application { llmPlain ⟨none,[]⟩ with finalizers := [] }).catchUp (fun _ => true)

/-- The replies to a pass over `llm`, with the model `chat` at hand. -/
def perform (op : KubeOp) (w : World) : KubeReply op × World :=
  w.perform (fun k => k = .application ∨ k = .disaggregated)
    (fun
      | .get .model _ _ => some (.ok claimedModel)
      | _ => none)
    ⟨.application,"team-a","llm"⟩ op

def pass : KubeAction Outcome := (arksApplicationReconciler ⟨fun _ => "",id⟩).reconcileRequest "team-a" "llm"

def passed (w : World) : World := (exec perform pass w).2

theorem passed_settles {c : Config KubeOp KubeReply Ref World Outcome} {w : World}
    (settles : Settles (applications ⟨fun _ => "",id⟩ (fun _ _ => [])) (fun _ => True) c w) :
    Settles (applications ⟨fun _ => "",id⟩ (fun _ _ => [])) (fun _ => True) c (passed w) := by
  refine settles_exec settles (World.perform_acts (fun k => by simp [lags]) ?_) (fun _ => .plain "team-a" "llm")
    (fun _ _ _ _ _ => trivial) (always_true _ _)
  intro op guess
  split at guess
  · exact ⟨_,_,_,rfl,by simp [lags]⟩
  · cases guess

theorem caught_settles {c : Config KubeOp KubeReply Ref World Outcome} {w : World}
    (settles : Settles (applications ⟨fun _ => "",id⟩ (fun _ _ => [])) (fun _ => True) c w) :
    Settles (applications ⟨fun _ => "",id⟩ (fun _ _ => [])) (fun _ => True) c (w.catchUp (fun _ => true)) :=
  settles_env settles (World.catchUp_changes _ _) (fun _ _ => trivial)

/-- The first pass puts the finalizer on, and the second one creates the leader worker set. -/
theorem no_orphans_llm :
    (passed ((passed asked).catchUp (fun _ => true))).Owned ⟨.application,"team-a","llm"⟩ ⟨.lws,"team-a","llm"⟩ ∧
      ∃ o, objectAt (passed ((passed asked).catchUp (fun _ => true))).server ⟨.application,"team-a","llm"⟩ = some o ∧
        Carries arksApplicationControllerFinalizer o := by
  have owned : (passed ((passed asked).catchUp (fun _ => true))).Owned ⟨.application,"team-a","llm"⟩ ⟨.lws,"team-a","llm"⟩ :=
    ⟨by decide +kernel,by decide +kernel⟩
  refine ⟨owned,?_⟩
  have first : Settles (applications ⟨fun _ => "",id⟩ (fun _ _ => [])) (fun _ => True)
      ⟨World.fresh,fun _ => .ret (.done .empty)⟩ asked :=
    caught_settles (settles_env ⟨_,fun _ => ⟨_,rfl⟩,.refl trivial⟩
      (World.write_creates (by decide) rfl rfl (by simp [Deleted,meta?,llmPlain,llmMeta])) (fun _ _ => trivial))
  obtain ⟨prog,_,run⟩ := passed_settles (caught_settles (passed_settles first))
  exact no_orphans _ _ _ ⟨_,prog⟩ rfl (fun _ => ⟨_,rfl⟩) run _ ⟨.lws,"team-a","llm"⟩ (.inr (.inl rfl)) owned

end Arks.Orphans
