import Arks.Families

/-!
The names of the children of two applications. What the passes over an application look
up, create or delete of services, leader worker sets and deployments is its family. Two
applications of one kind have disjoint families. Across the kinds, a service is shared
when the names are the same, and a leader worker set when the name of the one is that of
the other with the suffix of a role.
-/
namespace Arks.ChildNames
open Programs Programs.Prog Api Kube Controllers Workloads Applications
open Passes Finalizers
open Families

/-! ### What a pass touches -/

/-- The object that a call looks up, creates or deletes. -/
def touched : KubeOp → Option Ref
  | .get k ns name | .delete k ns name => some ⟨k,ns,name⟩
  | .create k o => some (refOf k o)
  | _ => none

/-- The children that the passes over the versions of an application look up, create or delete. -/
def Touches {k : Kind} (r : Reconciler k) (app : Object k) : Set Ref :=
  { ref | Child ref.kind ∧ ∃ version : Object k, refOf k version = refOf k app ∧
    ∃ calls, ((∃ result, Runs (r.reconcile version) calls result) ∨ ∃ outcome, Runs (r.remove version) calls outcome) ∧
      ∃ call ∈ calls, touched call.1 = some ref }

/-- A call that touches no child but those of `i`. -/
def Inside (i : Ref) (op : KubeOp) : Prop := ∀ ref, touched op = some ref → Child ref.kind → ref ∈ family i

section Reconcilers
variable {k : Kind} {r : Reconciler k} {app : Object k} {i : Ref} {op : KubeOp} {calls : List KubeCall}

private theorem tends_inside (tends : Tends i op) : Inside i op := by
  intro ref same child
  cases op with
  | get => cases same; exact tends child
  | create => cases same; exact tends.2 child
  | update => cases same
  | list | updateStatus | patch | delete => cases tends

theorem inside_update {o : Object k} : Inside i (.update k o) := fun _ same => by cases same

private theorem reconcile_inside (orderly : Orderly r) :
    Issues (Inside (refOf k app)) (fun _ => True) (r.reconcile app) := by
  unfold Reconciler.reconcile
  split
  · trivial
  split
  · trivial
  split
  · refine ⟨inside_update,fun reply _ => ?_⟩
    cases reply <;> trivial
  · cases checks : r.precheck (r.initialized app) with
    | stop => trivial
    | next app₁ =>
      have same : r.meta_ app₁ = r.meta_ app := by rw [Readiness.precheck_meta checks]; simp [Reconciler.initialized]
      rw [← refOf_meta orderly same]
      exact within_mono (serve_tends orderly) (fun _ is => tends_inside is) (fun _ is => is)

private theorem remove_inside (orderly : Orderly r) :
    Issues (Inside (refOf k app)) (fun _ => True) (r.remove app) := by
  unfold Reconciler.remove
  split
  · trivial
  · refine within_bind (removeChildren_within _ _ ?_) (fun removed _ => ?_)
    · rintro child is ref same _
      cases same
      rw [← orderly.children app]
      exact List.mem_map_of_mem is
    · cases removed with
      | error => trivial
      | ok =>
        refine ⟨inside_update,fun reply _ => ?_⟩
        cases reply <;> trivial

/-- A removal that finds no child has asked for each of them. -/
theorem removeChildren_asks (ns : String) (children : List (Kind × String × String)) :
    ∃ calls, Runs (Reconciler.removeChildren ns children) calls (.ok ()) ∧
      ∀ child ∈ children, ∃ call ∈ calls, call.1 = .delete child.1 ns child.2.1 := by
  induction children with
  | nil => exact ⟨[],.ret,by simp⟩
  | cons child children ih =>
    obtain ⟨calls,run,each⟩ := ih
    refine ⟨⟨.delete child.1 ns child.2.1,.ok ()⟩ :: calls,.call run,?_⟩
    intro other is
    rcases List.mem_cons.mp is with rfl | is
    · exact ⟨_,.head _,rfl⟩
    · obtain ⟨call,within,deletes⟩ := each other is
      exact ⟨call,.tail _ within,deletes⟩

/-- Exactly the family is touched: a pass keeps inside it, and a removal asks for all of it. -/
theorem touches_family (orderly : Orderly r) : Touches r app = { ref | ref ∈ family (refOf k app) } := by
  ext ref
  constructor
  · rintro ⟨child,version,same,calls,run,call,is,touches⟩
    show ref ∈ family (refOf k app)
    rw [← same]
    rcases run with ⟨_,run⟩ | ⟨_,run⟩
    · exact (runs_within (reconcile_inside orderly) run).1 call is ref touches child
    · exact (runs_within (remove_inside orderly) run).1 call is ref touches child
  · intro member
    have member : ref ∈ family (refOf k app) := member
    let version := r.withMeta app { r.meta_ app with deletionTimestamp := some 0 }
    have described : r.meta_ version = { r.meta_ app with deletionTimestamp := some 0 } := r.meta_withMeta ..
    have same : refOf k version = refOf k app := by rw [refOf,orderly.keyed,described,refOf,orderly.keyed]
    have own : ref ∈ (r.children version).map (fun child => (⟨child.1,(r.meta_ version).namespace_,child.2.1⟩ : Ref)) := by
      rw [orderly.children,same]
      exact member
    obtain ⟨child,listed,rfl⟩ := List.mem_map.mp own
    obtain ⟨calls,asks,each⟩ := removeChildren_asks (r.meta_ version).namespace_ (r.children version)
    obtain ⟨call,is,deletes⟩ := each child listed
    have removes : ∃ rest outcome, Runs (r.remove version) (calls ++ rest) outcome := by
      unfold Reconciler.remove
      rw [described,if_neg (by simp),← described]
      refine ⟨_,_,runs_bind.mpr ⟨_,_,_,rfl,asks,runs_call.mpr ⟨.ok version,[],rfl,.ret⟩⟩⟩
    obtain ⟨rest,outcome,run⟩ := removes
    exact ⟨family_child (same.symm ▸ member),version,same,_,.inr ⟨outcome,run⟩,call,List.mem_append_left _ is,
      by rw [deletes]; rfl⟩

end Reconcilers

/-! ### Two applications -/

/-- The application as the API server knows it. -/
def place : Application → Ref
  | .plain app => refOf .application app
  | .disaggregated app => refOf .disaggregated app

/-- What the reconciler of an application touches of the children. -/
def children (p : Platform) : Application → Set Ref
  | .plain app => Touches (arksApplicationReconciler p) app
  | .disaggregated app => Touches (arksDisaggregatedApplicationReconciler p) app

theorem children_family (p : Platform) (a : Application) : children p a = { ref | ref ∈ family (place a) } := by
  cases a with
  | plain => exact touches_family (orderly_plain p)
  | disaggregated => exact touches_family (orderly_disaggregated p)

/-- An application and a disaggregated one of its name, or whose workload for a role has its name. -/
def Clash : Ref → Ref → Prop
  | ⟨.application,_,x⟩,⟨.disaggregated,_,y⟩ | ⟨.disaggregated,_,y⟩,⟨.application,_,x⟩ =>
    x = y ∨ x = y ++ "-prefill" ∨ x = y ++ "-decode"
  | _,_ => False

theorem roles_differ {x y : String} : x ++ "-prefill" ≠ y ++ "-decode" := by
  intro same
  have last := congrArg (fun s : String => s.toList.getLast?) same
  simp at last

section Pairs
variable {ns x y : String}

private theorem plain_disjoint (different : x ≠ y) {ref : Ref} (member : ref ∈ family ⟨.application,ns,x⟩) :
    ref ∉ family ⟨.application,ns,y⟩ := by
  simp only [family,List.mem_cons,List.not_mem_nil,or_false] at member ⊢
  rcases member with rfl | rfl <;> simp [different]

private theorem disaggregated_disjoint (different : x ≠ y) {ref : Ref} (member : ref ∈ family ⟨.disaggregated,ns,x⟩) :
    ref ∉ family ⟨.disaggregated,ns,y⟩ := by
  simp only [family,List.mem_cons,List.not_mem_nil,or_false] at member ⊢
  rcases member with rfl | rfl | rfl | rfl <;> simp [different,roles_differ,roles_differ.symm]

/-- The kinds share the service of one name, or the workload of a role. -/
theorem mixed_disjoint : (∀ ref ∈ family ⟨.application,ns,x⟩, ref ∉ family ⟨.disaggregated,ns,y⟩) ↔
    ¬ (x = y ∨ x = y ++ "-prefill" ∨ x = y ++ "-decode") := by
  simp [family]

/-- The families of different applications of a namespace are disjoint, unless their names clash. -/
theorem families_disjoint {k k' : Kind} (applies : k = .application ∨ k = .disaggregated)
    (applies' : k' = .application ∨ k' = .disaggregated) (different : k = k' → x ≠ y) :
    (∀ ref ∈ family ⟨k,ns,x⟩, ref ∉ family ⟨k',ns,y⟩) ↔ ¬ Clash ⟨k,ns,x⟩ ⟨k',ns,y⟩ := by
  rcases applies with rfl | rfl <;> rcases applies' with rfl | rfl
  · exact iff_of_true (fun _ => plain_disjoint (different rfl)) (fun clash => clash)
  · exact mixed_disjoint
  · have swap : (∀ ref ∈ family ⟨.disaggregated,ns,x⟩, ref ∉ family ⟨.application,ns,y⟩) ↔
        ∀ ref ∈ family ⟨.application,ns,y⟩, ref ∉ family ⟨.disaggregated,ns,x⟩ :=
      ⟨fun apart ref is other => apart ref other is,fun apart ref is other => apart ref other is⟩
    exact swap.trans mixed_disjoint
  · exact iff_of_true (fun _ => disaggregated_disjoint (different rfl)) (fun clash => clash)

end Pairs

theorem place_eq (a : Application) : ∃ k, (k = .application ∨ k = .disaggregated) ∧ place a = ⟨k,a.namespace_,a.name⟩ := by
  cases a with
  | plain => exact ⟨_,.inl rfl,rfl⟩
  | disaggregated => exact ⟨_,.inr rfl,rfl⟩

/-- The children of different applications of a namespace are disjoint exactly when their names do not clash. -/
theorem children_disjoint_iff (p : Platform) (a b : Application) (neighbours : a.namespace_ = b.namespace_)
    (different : place a ≠ place b) : Disjoint (children p a) (children p b) ↔ ¬ Clash (place a) (place b) := by
  obtain ⟨k,applies,here⟩ := place_eq a
  obtain ⟨k',applies',there⟩ := place_eq b
  rw [children_family,children_family,Set.disjoint_left]
  rw [here,there,neighbours] at different ⊢
  refine families_disjoint applies applies' ?_
  rintro rfl same
  exact different (by rw [same])

/-- The application `llm-prefill`. -/
def llmPrefill : ArksApplication := { llmPlain ⟨none,[]⟩ with name := ⟨"llm-prefill",by decide,by decide⟩ }

theorem children_disjoint_llm :
    Disjoint (children ⟨fun _ => "",id⟩ (.plain (llmPlain ⟨none,[]⟩))) (children ⟨fun _ => "",id⟩ (.plain llmPrefill)) :=
  (children_disjoint_iff ⟨fun _ => "",id⟩ (.plain (llmPlain ⟨none,[]⟩)) (.plain llmPrefill) rfl (by decide)).mpr
    (fun clash => clash)

/-- It has the leader worker set of the disaggregated application `llm`. -/
theorem shared_workload :
    ¬ Disjoint (children ⟨fun _ => "",id⟩ (.plain llmPrefill))
      (children ⟨fun _ => "",id⟩ (.disaggregated (llmDisaggregated ⟨none,[]⟩))) := by
  rw [children_family,children_family,Set.disjoint_left]
  intro apart
  exact apart (a := ⟨.lws,"team-a","llm-prefill"⟩) (.tail _ (.head _)) (.tail _ (.head _))

end Arks.ChildNames
