import Arks.Finalizers
import Arks.Readiness

/-!
The objects that the reconcilers of the applications touch. Each application has a
family of children, which have their names from its own. Whatever a pass looks up,
creates or deletes of the kinds of the children is in the family of its application.
-/
namespace Arks.Families
open Programs Programs.Prog Api Kube Controllers Workloads Applications
open Passes Finalizers

/-! ### The family of an application -/

/-- The children of an application, by its kind. -/
def family : Ref → List Ref
  | ⟨.application,ns,name⟩ => [⟨.service,ns,"arks-application-" ++ name⟩,⟨.lws,ns,name⟩]
  | ⟨.disaggregated,ns,name⟩ =>
    [⟨.service,ns,"arks-application-" ++ name⟩,⟨.lws,ns,name ++ "-prefill"⟩,⟨.lws,ns,name ++ "-decode"⟩,
      ⟨.deployment,ns,name ++ "-router"⟩]
  | _ => []

def finalizerOf : Kind → Option String
  | .application | .disaggregated => some arksApplicationControllerFinalizer
  | _ => none

/-- The kinds of the children. -/
def Child (k : Kind) : Prop := k = .service ∨ k = .lws ∨ k = .deployment

theorem family_child {i ref : Ref} (member : ref ∈ family i) : Child ref.kind := by
  obtain ⟨kind,ns,name⟩ := i
  cases kind <;> simp only [family,List.mem_cons,List.not_mem_nil,or_false] at member
  · rcases member with rfl | rfl
    · exact .inl rfl
    · exact .inr (.inl rfl)
  · rcases member with rfl | rfl | rfl | rfl
    · exact .inl rfl
    · exact .inr (.inl rfl)
    · exact .inr (.inl rfl)
    · exact .inr (.inr rfl)

/-- The calls by which a reconciler sees to the children of `i`. -/
def Tends (i : Ref) : KubeOp → Prop
  | .get k ns name => Child k → ⟨k,ns,name⟩ ∈ family i
  | .create k o => finalizerOf k = none ∧ (Child k → refOf k o ∈ family i)
  | .update k _ => finalizerOf k = none
  | _ => False

section Plain
variable {p : Platform} {app : ArksApplication} {model : ArksModel}

theorem lws_member : ⟨.lws,app.namespace_,app.name⟩ ∈ family (refOf .application app) := .tail _ (.head _)

private theorem startApplication_tends :
    Issues (Tends (refOf .application app)) (fun _ => True) (startApplication p app model) := by
  refine within_bind (ensure_within (fun _ => lws_member) (fun lws generated => ⟨rfl,fun _ => ?_⟩)) (fun lws _ => ?_)
  · rw [refOf_eq (Readiness.generateLws_key generated)]
    exact lws_member
  · cases goes : applicationFields.afterWorkload app "" "LWS" lws with
    | stop => trivial
    | next app₁ =>
      obtain ⟨_,rfl⟩ := Readiness.afterWorkload_next goes
      refine within_bind (ensure_within (fun _ => .head _) (fun o generated => ⟨rfl,fun _ => ?_⟩)) (fun _ _ => trivial)
      cases generated
      exact .head _

private theorem syncApplication_tends :
    Issues (Tends (refOf .application app)) (fun _ => True) (syncApplication app) := by
  simp only [syncApplication,issue_bind,within_call]
  refine ⟨fun _ => lws_member,fun r _ => ?_⟩
  rcases r with (_ | _ | _) | _ <;> trivial

end Plain

section Disaggregated
open Workloads.Disaggregated (Role generateRouterDeployment)
open Applications.Disaggregated
variable {p : Platform} {app : ArksDisaggregatedApplication} {model : ArksModel}

/-- The calls of a stage tend to the children, and the stage keeps the metadata. -/
def Stage (app : ArksDisaggregatedApplication) (stage : KubeAction (Flow ArksDisaggregatedApplication)) : Prop :=
  Issues (Tends (refOf .disaggregated app)) (fun flow => flow.object.toObjectMeta = app.toObjectMeta) stage

theorem keeps_meta {flow : Flow ArksDisaggregatedApplication} (keeps : Keeps fields app flow) :
    flow.object.toObjectMeta = app.toObjectMeta := by
  cases flow <;> exact keeps.2

theorem stage_of {P : KubeOp → Prop} {stage : KubeAction (Flow ArksDisaggregatedApplication)}
    (tends : Issues (Tends (refOf .disaggregated app)) (fun _ => True) stage)
    (keeps : Issues P (Keeps fields app) stage) : Stage app stage :=
  within_mono (within_and tends keeps) (fun _ is => is.1) (fun _ is => keeps_meta is.2)

theorem workload_member (role : Role) : ⟨.lws,app.namespace_,lwsName role app⟩ ∈ family (refOf .disaggregated app) := by
  cases role with
  | prefill => exact .tail _ (.head _)
  | decode => exact .tail _ (.tail _ (.head _))

theorem router_member : ⟨.deployment,app.namespace_,routerName app⟩ ∈ family (refOf .disaggregated app) :=
  .tail _ (.tail _ (.tail _ (.head _)))

theorem startWorkload_stage (role : Role) : Stage app (startWorkload p role app model) := by
  refine stage_of (within_bind (ensure_within (fun _ => workload_member role) (fun lws generated => ⟨rfl,fun _ => ?_⟩))
    (fun _ _ => trivial))
    (startWorkload_within p app model role)
  obtain ⟨made,built,named⟩ := generated_bind.mp generated
  cases generated_pure.mp named
  have place : key .lws { made with name := lwsName role app } = (app.namespace_.val,lwsName role app) := by
    rw [key,Readiness.generateDisaggregatedLws_namespace built]
  rw [refOf_eq place]
  exact workload_member role

private theorem startRouter_stage : Stage app (startRouter p app) := by
  refine stage_of (within_bind (ensure_within (fun _ => router_member) ?_) (fun _ _ => trivial)) (startRouter_within p app)
  have permits : Issues (Tends (refOf .disaggregated app)) (fun _ => True)
    (generateRouterDeployment p app) := by
    have other : ∀ {k : Kind}, rbacKind k → ¬ Child k := by
      rintro k rbac (rfl | rfl | rfl) <;> cases rbac
    refine generateRouterDeployment_within p app (fun k _ _ rbac child => absurd child (other rbac))
      (fun k o rbac => ⟨?_,fun child => absurd child (other rbac)⟩)
    cases k <;> first | rfl | cases rbac
  have named :=
    within_of_runs (fun _ made (run : Runs (generateRouterDeployment p app) _ made) deploy (same : made = .object deploy) =>
    Readiness.generateRouterDeployment_namespace (same ▸ run))
  refine within_bind (within_mono (within_and permits named) (fun _ is => is.1) (fun _ is => is.2))
    (fun made has o generated => ⟨rfl,fun _ => ?_⟩)
  obtain ⟨deploy,built,same⟩ := generated_bind.mp generated
  cases generated_pure.mp same
  have place : key .deployment { deploy with name := routerName app } = (app.namespace_.val,routerName app) := by
    rw [key,has deploy built]
  rw [refOf_eq place]
  exact router_member

private theorem startService_stage : Stage app (startService app) := by
  refine stage_of (within_bind (ensure_within (fun _ => .head _) (fun o generated => ⟨rfl,fun _ => ?_⟩)) (fun _ _ => trivial))
    (startService_within app)
  cases generated
  exact .head _

theorem stage_mono {app₁ : ArksDisaggregatedApplication} {stage : KubeAction (Flow ArksDisaggregatedApplication)}
    (same : app₁.toObjectMeta = app.toObjectMeta) (holds : Stage app₁ stage) : Stage app stage := by
  have place : refOf .disaggregated app₁ = refOf .disaggregated app := by rw [refOf,key,same]; rfl
  rw [Stage,place,same] at holds
  exact holds

private theorem start_stage : Stage app (start p app model) := by
  refine within_bind (stage_mono (sized_meta app) (startWorkload_stage .prefill)) (fun flow same₁ => ?_)
  cases flow with
  | stop => exact same₁
  | next app₁ =>
    refine within_bind (stage_mono same₁ (startWorkload_stage .decode)) (fun flow same₂ => ?_)
    cases flow with
    | stop => exact same₂
    | next app₂ =>
      refine within_bind (stage_mono same₂ startRouter_stage) (fun flow same₃ => ?_)
      cases flow with
      | stop => exact same₃
      | next app₃ => exact stage_mono same₃ startService_stage

theorem syncWorkload_stage (role : Role) : Stage app (syncWorkload role app) := by
  simp only [Stage,syncWorkload,issue_bind,within_call]
  refine ⟨fun _ => workload_member role,fun r _ => ?_⟩
  have recorded : ∀ status, (Role.record status app role).toObjectMeta = app.toObjectMeta := by cases role <;> exact fun _ => rfl
  rcases r with (_ | _ | _) | lws
  · exact rfl
  · exact rfl
  · exact rfl
  simp only
  split
  · exact ⟨rfl,fun _ _ => recorded lws.status⟩
  · exact recorded lws.status

private theorem sync_tends : Issues (Tends (refOf .disaggregated app)) (fun _ => True) (sync app) := by
  refine within_bind (syncWorkload_stage .prefill) (fun flow same₁ => ?_)
  cases flow with
  | stop => trivial
  | next app₁ =>
    refine within_bind (stage_mono same₁ (syncWorkload_stage .decode)) (fun flow same₂ => ?_)
    cases flow with
    | stop => trivial
    | next app₂ =>
      have place : refOf .disaggregated app₂ = refOf .disaggregated app := by
        rw [refOf,key,show app₂.toObjectMeta = app.toObjectMeta from same₂]
        rfl
      simp only [syncRouter,issue_bind,within_call]
      refine ⟨fun _ => place ▸ router_member,fun r _ => ?_⟩
      rcases r with (_ | _ | _) | _ <;> try trivial
      simp only
      split
      · refine ⟨rfl,fun r _ => ?_⟩
        cases r <;> trivial
      · trivial

end Disaggregated

/-! ### The skeleton keeps to the protocol -/

/-- A reconciler that sees to the family of its object. -/
structure Orderly {k : Kind} (r : Reconciler k) : Prop where
  tame : Tame r
  guarded : finalizerOf k = some arksApplicationControllerFinalizer
  described : ∀ app, meta? k app = some (r.meta_ app)
  keyed : ∀ app, key k app = ((r.meta_ app).namespace_.val,(r.meta_ app).name.val)
  start : ∀ app model, Issues (Tends (refOf k app)) (fun _ => True) (r.start app model)
  sync : ∀ app, Issues (Tends (refOf k app)) (fun _ => True) (r.sync app)
  children : ∀ app, (r.children app).map (fun child => (⟨child.1,(r.meta_ app).namespace_,child.2.1⟩ : Ref)) = family
    (refOf k app)

theorem orderly_plain (p : Platform) : Orderly (arksApplicationReconciler p) where
  tame := tame_plain p
  guarded := rfl
  described _ := rfl
  keyed _ := rfl
  start _ _ := startApplication_tends
  sync _ := syncApplication_tends
  children _ := rfl

theorem orderly_disaggregated (p : Platform) : Orderly (arksDisaggregatedApplicationReconciler p) where
  tame := tame_disaggregated p
  guarded := rfl
  described _ := rfl
  keyed _ := rfl
  start _ _ := within_mono start_stage (fun _ is => is) (fun _ _ => trivial)
  sync _ := sync_tends
  children _ := rfl

section Skeleton
variable {k : Kind} {r : Reconciler k} {app app' : Object k}

theorem refOf_meta (orderly : Orderly r) (same : r.meta_ app' = r.meta_ app) : refOf k app' = refOf k app := by
  rw [refOf,orderly.keyed,same,refOf,orderly.keyed]

theorem serve_tends (orderly : Orderly r) : Issues (Tends (refOf k app)) (fun _ => True) (r.serve app) := by
  simp only [Reconciler.serve,issue_bind,within_call]
  refine ⟨fun child => (by rcases child with wrong | wrong | wrong <;> cases wrong),fun read _ => ?_⟩
  rcases read with (_ | _ | _) | model <;> try trivial
  simp only
  cases waits : r.waitModel app model with
  | stop => trivial
  | next app₁ =>
    have place := refOf_meta orderly (Readiness.waitModel_meta waits)
    have announces : Issues (Tends (refOf k app)) (fun _ => True) (r.announce app₁ model) := by
      unfold Reconciler.announce
      split
      · trivial
      · have creating : refOf k (r.revise app₁ (Progress.setPhase · .creating)) = refOf k app₁ :=
          refOf_meta orderly (r.meta_revise ..)
        rw [← place,← creating]
        refine within_bind (orderly.start _ model) (fun flow _ => ?_)
        cases flow <;> trivial
    have kept : Issues (fun _ => True) (fun flow => r.meta_ flow.object = r.meta_ app₁)
      (r.announce app₁ model) :=
      within_of_runs (fun _ _ run => announce_meta orderly.tame run)
    refine within_bind (within_mono (within_and announces kept) (fun _ is => is.1) (fun _ is => is.2)) (fun flow same => ?_)
    cases flow with
    | stop => trivial
    | next app₂ =>
      rw [← place,← refOf_meta orderly same]
      exact orderly.sync app₂

end Skeleton

end Arks.Families
