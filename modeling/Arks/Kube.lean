import Arks.Api
import Arks.Programs

/-!
The Kubernetes API as the controllers use it. A controller is a program that issues API
calls on objects of several kinds; `Handles` says what the API server answers and keeps, and
`Serves` lets calls fail on top of that. A list by a field is answered from an index, with
the objects for which the registered index function yields the selected value, in any order.
A custom resource carries the revision of its last write, and an update that does not know
it is refused.
-/
namespace Arks.Kube
open Programs Api

/-- An error of the API, told apart as `apierrors` does. -/
inductive ApiErr
  | notFound (message : String)
  | alreadyExists (message : String)
  | other (message : String)
deriving DecidableEq,Repr

def ApiErr.text : ApiErr → String
  | .notFound message => message
  | .alreadyExists message => message
  | .other message => message

/-- A text as `%q` writes it, exact for printable characters. -/
def quote (text : String) : String :=
  "\"" ++ String.ofList (text.toList.flatMap (fun c => if c = '"' ∨ c = '\\' then ['\\',c] else [c])) ++ "\""

/-! ### Objects and calls -/

/-- The kinds of objects that the controllers read or write. -/
inductive Kind
  | application | disaggregated | model | endpoint
  | httpRoute | service | lws | deployment | pod | pvc | role | serviceAccount | roleBinding
deriving DecidableEq,Repr

abbrev Object : Kind → Type
  | .application => ArksApplication
  | .disaggregated => ArksDisaggregatedApplication
  | .model => ArksModel
  | .endpoint => ArksEndpoint
  | .httpRoute => HTTPRoute
  | .service => Service
  | .lws => LeaderWorkerSet
  | .deployment => Deployment
  | .pod => Pod
  | .pvc => PersistentVolumeClaim
  | .role | .serviceAccount | .roleBinding => RouterRBAC

/-- The namespace and the name of an object. -/
def key : (k : Kind) → Object k → String × String
  | .application,o => (o.namespace_,o.name)
  | .disaggregated,o => (o.namespace_,o.name)
  | .model,o => (o.namespace_,o.name)
  | .endpoint,o => (o.namespace_,o.name)
  | .httpRoute,o => (o.namespace_,o.name)
  | .service,o => (o.namespace_,o.name)
  | .lws,o => (o.namespace_,o.name)
  | .deployment,o => (o.namespace_,o.name)
  | .pod,o => (o.namespace_,o.name)
  | .pvc,o => (o.namespace_,o.name)
  | .role,o | .serviceAccount,o | .roleBinding,o => (o.namespace_,o.name)

/-- The API calls. A list selects by the field that is indexed for its kind. -/
inductive KubeOp
  | get (k : Kind) (namespace_ name : String)
  | list (k : Kind) (namespace_ selected : String)
  | create (k : Kind) (object : Object k)
  | update (k : Kind) (object : Object k)
  | updateStatus (k : Kind) (object : Object k)
  | patch (k : Kind) (object : Object k)
  | delete (k : Kind) (namespace_ name : String)

/-- What a call returns when it succeeds; an update returns the object that was stored. -/
abbrev Answer : KubeOp → Type
  | .get k _ _ => Object k
  | .list k _ _ => List (Object k)
  | .update k _ => Object k
  | _ => Unit

abbrev KubeReply (op : KubeOp) : Type := Except ApiErr (Answer op)

/-- The programs of the controllers. -/
abbrev KubeAction := Prog KubeOp KubeReply

abbrev KubeCall := Call KubeOp KubeReply

/-- Issue one call. -/
abbrev request (op : KubeOp) : KubeAction (KubeReply op) := Prog.issue op

/-! ### The API server -/

/-- The objects in the API server: finitely many, each under its own namespace and name. -/
structure Cluster where
  revision : Nat
  objects : (k : Kind) → String → String → Option (Object k)
  keyed : ∀ {k ns name o}, objects k ns name = some o → key k o = (ns,name)
  finite : ∀ k, { o : Object k | ∃ ns name, objects k ns name = some o }.Finite

namespace Cluster

/-- No objects at all. -/
def empty : Cluster where
  revision := 0
  objects _ _ _ := none
  keyed present := by cases present
  finite k := by simp

variable (c : Cluster) (k : Kind)

/-- The object that is stored under the key of `o`. -/
def stored (o : Object k) : Option (Object k) := c.objects k (key k o).1 (key k o).2

/-- Replace what is stored under a key. -/
def write (namespace_ name : String) (o : Option (Object k)) (own : ∀ x ∈ o, key k x = (namespace_,name)) : Cluster where
  revision := c.revision + 1
  objects := Function.update c.objects k (fun ns n => if ns = namespace_ ∧ n = name then o else c.objects k ns n)
  keyed {k' ns n o'} present := by
    by_cases same : k' = k
    · subst same
      rw [Function.update_self] at present
      split at present
      · rename_i here
        rw [here.1,here.2]
        exact own o' present
      · exact c.keyed present
    · rw [Function.update_of_ne same] at present
      exact c.keyed present
  finite k' := by
    by_cases same : k' = k
    · subst same
      refine ((c.finite k').union (Option.toFinset o).finite_toSet).subset ?_
      rintro o' ⟨ns,n,present⟩
      rw [Function.update_self] at present
      split at present
      · exact .inr (by simpa using present)
      · exact .inl ⟨ns,n,present⟩
    · rw [Function.update_of_ne same]
      exact c.finite k'

/-- Store an object under its key. -/
def put (o : Object k) : Cluster := c.write k (key k o).1 (key k o).2 (some o) (fun x is => by cases is; rfl)

/-- Remove an object. -/
def remove (namespace_ name : String) : Cluster := c.write k namespace_ name none (fun x is => by cases is)

variable {c k}

theorem put_objects (o : Object k) (ns name : String) :
    (c.put k o).objects k ns name = if ns = (key k o).1 ∧ name = (key k o).2 then some o else c.objects k ns name :=
  congrFun (congrFun (Function.update_self k _ c.objects) ns) name

@[simp] theorem put_stored (o : Object k) : (c.put k o).objects k (key k o).1 (key k o).2 = some o := by
  rw [put_objects,if_pos ⟨rfl,rfl⟩]

theorem put_other {j : Kind} (o : Object k) (other : j ≠ k) : (c.put k o).objects j = c.objects j :=
  Function.update_of_ne other _ _

theorem remove_objects (namespace_ name ns n : String) :
    (c.remove k namespace_ name).objects k ns n = if ns = namespace_ ∧ n = name then none else c.objects k ns n :=
  congrFun (congrFun (Function.update_self k _ c.objects) ns) n

theorem remove_other {j : Kind} (ns name : String) (other : j ≠ k) : (c.remove k ns name).objects j = c.objects j :=
  Function.update_of_ne other _ _

end Cluster

/-- The schema's default for `matchConfigs`; the client leaves an empty list out. -/
def defaulted (spec : ArksEndpointSpec) : ArksEndpointSpec :=
  match spec.matchConfigs with
  | none | some [] => { spec with matchConfigs := some [⟨some ⟨some .pathPrefix,some "/"⟩,[],[],none⟩] }
  | some _ => spec

/-- The metadata of a custom resource. -/
def meta? : (k : Kind) → Object k → Option ObjectMeta
  | .application,o => some o.toObjectMeta
  | .disaggregated,o => some o.toObjectMeta
  | .model,o => some o.toObjectMeta
  | .endpoint,o => some o.toObjectMeta
  | _,_ => none

/-- The metadata that a write leaves: identity and deletion stay as they are. -/
def settled (revision : Nat) (stored sent : ObjectMeta) : ObjectMeta :=
  { sent with uid := stored.uid,deletionTimestamp := stored.deletionTimestamp,resourceVersion := revision }

/-- The object that an update leaves: it does not touch the status. -/
def updated (revision : Nat) : (k : Kind) → Object k → Object k → Object k
  | .application,stored,sent =>
    { sent with toObjectMeta := settled revision stored.toObjectMeta sent.toObjectMeta,status := stored.status }
  | .disaggregated,stored,sent =>
    { sent with toObjectMeta := settled revision stored.toObjectMeta sent.toObjectMeta,status := stored.status }
  | .model,stored,sent =>
    { sent with toObjectMeta := settled revision stored.toObjectMeta sent.toObjectMeta,status := stored.status }
  | .endpoint,stored,sent =>
    { toObjectMeta := settled revision stored.toObjectMeta sent.toObjectMeta
      spec := defaulted sent.spec
      routes := stored.routes }
  | .lws,stored,sent => { sent with status := stored.status }
  | .deployment,stored,sent => { sent with status := stored.status }
  | _,_,sent => sent

/-- The object that an update of the status leaves: it touches nothing else. -/
def statusUpdated (revision : Nat) : (k : Kind) → Object k → Object k → Object k
  | .application,stored,sent => { stored with resourceVersion := revision,status := sent.status }
  | .disaggregated,stored,sent => { stored with resourceVersion := revision,status := sent.status }
  | .model,stored,sent => { stored with resourceVersion := revision,status := sent.status }
  | .endpoint,stored,sent => { stored with resourceVersion := revision,routes := sent.routes }
  | _,stored,_ => stored

/-- A deleted custom resource is gone with its last finalizer. -/
def released (k : Kind) (o : Object k) : Bool :=
  (meta? k o).any (fun m => m.deletionTimestamp.isSome && m.finalizers.isEmpty)

/-- The writer knows the last write of the object. -/
def Current (k : Kind) (stored sent : Object k) : Prop :=
  (meta? k stored).map ObjectMeta.resourceVersion = (meta? k sent).map ObjectMeta.resourceVersion

instance (k : Kind) (stored sent : Object k) : Decidable (Current k stored sent) := by unfold Current; infer_instance

@[simp] theorem key_updated (revision : Nat) (k : Kind) (stored sent : Object k) :
    key k (updated revision k stored sent) = key k sent := by
  cases k <;> rfl

@[simp] theorem key_statusUpdated (revision : Nat) (k : Kind) (stored sent : Object k) :
    key k (statusUpdated revision k stored sent) = key k stored := by
  cases k <;> rfl

/-- The reply to a read of one object. -/
def Found {α : Type} (stored : Option α) (r : Except ApiErr α) : Prop :=
  match stored with
  | some object => r = .ok object
  | none => ∃ message, r = .error (.notFound message)

theorem found_ok {α : Type} {stored : Option α} {object : α} : Found stored (.ok object) ↔ stored = some object := by
  cases stored <;> simp [Found,eq_comm]

/-- The values under which the manager's cache lists an object. -/
abbrev Index := (k : Kind) → Object k → List String

section Handles
variable (index : Index) (c : Cluster)

/-- A list by the index: the objects of the namespace with the selected value, each once. -/
def Listed (k : Kind) (namespace_ selected : String) (items : List (Object k)) : Prop :=
  items.Nodup ∧ ∀ o, o ∈ items ↔ c.stored k o = some o ∧ (key k o).1 = namespace_ ∧ selected ∈ index k o

/-- What the API answers and keeps when the call is carried out. -/
def Handles : (op : KubeOp) → KubeReply op → Cluster → Prop
  | .get k ns name,r,c' => c' = c ∧ Found (c.objects k ns name) r
  | .list k ns selected,r,c' => c' = c ∧ ∃ items, r = .ok items ∧ Listed index c k ns selected items
  | .create k o,r,c' =>
    match c.stored k o with
    | some _ => c' = c ∧ ∃ message, r = .error (.alreadyExists message)
    | none => r = .ok () ∧ c' = c.put k o
  | .update k o,r,c' =>
    match c.stored k o with
    | none => c' = c ∧ ∃ message, r = .error (.notFound message)
    | some stored =>
      if Current k stored o then
        r = .ok (updated (c.revision + 1) k stored o) ∧
          c' = if released k (updated (c.revision + 1) k stored o) then c.remove k (key k o).1 (key k o).2
            else c.put k (updated (c.revision + 1) k stored o)
      else c' = c ∧ ∃ message, r = .error (.other message)
  | .updateStatus k o,r,c' =>
    match c.stored k o with
    | none => c' = c ∧ ∃ message, r = .error (.notFound message)
    | some stored =>
      if Current k stored o then r = .ok () ∧ c' = c.put k (statusUpdated (c.revision + 1) k stored o)
      else c' = c ∧ ∃ message, r = .error (.other message)
  | .patch k o,r,c' =>
    match c.stored k o with
    | none => c' = c ∧ ∃ message, r = .error (.notFound message)
    | some stored => r = .ok () ∧ c' = c.put k (updated (c.revision + 1) k stored o)
  | .delete k ns name,r,c' =>
    match c.objects k ns name with
    | none => c' = c ∧ ∃ message, r = .error (.notFound message)
    | some _ => r = .ok () ∧ c' = c.remove k ns name

/-- The writes that are not carried out, with their errors. -/
inductive Refused : KubeOp → ApiErr → Prop
  | present {k : Kind} {o stored : Object k} (message : String) : c.stored k o = some stored →
      Refused (.create k o) (.alreadyExists message)
  | unknown {k : Kind} {o : Object k} (message : String) : c.stored k o = none → Refused (.update k o) (.notFound message)
  | outdated {k : Kind} {o stored : Object k} (message : String) : c.stored k o = some stored → ¬ Current k stored o →
      Refused (.update k o) (.other message)
  | unknownStatus {k : Kind} {o : Object k} (message : String) : c.stored k o = none →
      Refused (.updateStatus k o) (.notFound message)
  | outdatedStatus {k : Kind} {o stored : Object k} (message : String) : c.stored k o = some stored →
      ¬ Current k stored o → Refused (.updateStatus k o) (.other message)
  | unpatched {k : Kind} {o : Object k} (message : String) : c.stored k o = none → Refused (.patch k o) (.notFound message)
  | absent {k : Kind} {ns name : String} (message : String) : c.objects k ns name = none →
      Refused (.delete k ns name) (.notFound message)

/-- All that a call can do when it is carried out. -/
inductive Handled : (op : KubeOp) → KubeReply op → Cluster → Prop
  | got {k : Kind} {ns name : String} {r : KubeReply (.get k ns name)} : Found (c.objects k ns name) r →
      Handled (.get k ns name) r c
  | listed {k : Kind} {ns selected : String} {items : List (Object k)} : Listed index c k ns selected items →
      Handled (.list k ns selected) (.ok items) c
  | refused {op : KubeOp} {e : ApiErr} : Refused c op e → Handled op (.error e) c
  | created {k : Kind} {o : Object k} : c.stored k o = none → Handled (.create k o) (.ok ()) (c.put k o)
  | updated {k : Kind} {o stored : Object k} : c.stored k o = some stored → Current k stored o →
      released k (updated (c.revision + 1) k stored o) = false →
      Handled (.update k o) (.ok (updated (c.revision + 1) k stored o)) (c.put k (updated (c.revision + 1) k stored o))
  | released {k : Kind} {o stored : Object k} : c.stored k o = some stored → Current k stored o →
      released k (updated (c.revision + 1) k stored o) = true →
      Handled (.update k o) (.ok (updated (c.revision + 1) k stored o)) (c.remove k (key k o).1 (key k o).2)
  | statusUpdated {k : Kind} {o stored : Object k} : c.stored k o = some stored → Current k stored o →
      Handled (.updateStatus k o) (.ok ()) (c.put k (statusUpdated (c.revision + 1) k stored o))
  | patched {k : Kind} {o stored : Object k} : c.stored k o = some stored →
      Handled (.patch k o) (.ok ()) (c.put k (updated (c.revision + 1) k stored o))
  | deleted {k : Kind} {ns name : String} {stored : Object k} : c.objects k ns name = some stored →
      Handled (.delete k ns name) (.ok ()) (c.remove k ns name)

variable {index c} in
/-- The rule by which the other proofs speak of a call: they need not look at the replies again. -/
theorem handles_cases {op : KubeOp} {r : KubeReply op} {c' : Cluster} (handles : Handles index c op r c') :
    Handled index c op r c' := by
  cases op with
  | get k ns name =>
    obtain ⟨rfl,found⟩ := handles
    exact .got found
  | list k ns selected =>
    obtain ⟨rfl,items,rfl,listed⟩ := handles
    exact .listed listed
  | create k o =>
    simp only [Handles] at handles
    split at handles
    · obtain ⟨rfl,message,rfl⟩ := handles
      exact .refused (.present message ‹_›)
    · obtain ⟨rfl,rfl⟩ := handles
      exact .created ‹_›
  | update k o =>
    simp only [Handles] at handles
    split at handles
    · obtain ⟨rfl,message,rfl⟩ := handles
      exact .refused (.unknown message ‹_›)
    · rename_i stored present
      split at handles
      · obtain ⟨rfl,rfl⟩ := handles
        split
        · exact .released present ‹_› ‹_›
        · exact .updated present ‹_› (Bool.eq_false_of_not_eq_true ‹_›)
      · obtain ⟨rfl,message,rfl⟩ := handles
        exact .refused (.outdated message present ‹_›)
  | updateStatus k o =>
    simp only [Handles] at handles
    split at handles
    · obtain ⟨rfl,message,rfl⟩ := handles
      exact .refused (.unknownStatus message ‹_›)
    · rename_i stored present
      split at handles
      · obtain ⟨rfl,rfl⟩ := handles
        exact .statusUpdated present ‹_›
      · obtain ⟨rfl,message,rfl⟩ := handles
        exact .refused (.outdatedStatus message present ‹_›)
  | patch k o =>
    simp only [Handles] at handles
    split at handles
    · obtain ⟨rfl,message,rfl⟩ := handles
      exact .refused (.unpatched message ‹_›)
    · obtain ⟨rfl,rfl⟩ := handles
      exact .patched ‹_›
  | delete k ns name =>
    simp only [Handles] at handles
    split at handles
    · obtain ⟨rfl,message,rfl⟩ := handles
      exact .refused (.absent message ‹_›)
    · obtain ⟨rfl,rfl⟩ := handles
      exact .deleted ‹_›

end Handles

/-- A call where those in `fails` may fail, with any error and before they take effect. -/
inductive Serves (index : Index) (fails : KubeOp → Prop) :
    (op : KubeOp) → Cluster → KubeReply op → Cluster → Prop
  | handled {op : KubeOp} {c c' : Cluster} {r : KubeReply op} : Handles index c op r c' → Serves index fails op c r c'
  | failed {op : KubeOp} {c : Cluster} {e : ApiErr} : fails op → Serves index fails op c (.error e) c

/-- What a list selects can be listed. -/
theorem exists_listed (index : Index) (c : Cluster) (k : Kind)
    (ns selected : String) : ∃ items, Listed index c k ns selected items := by
  have finite : { o : Object k | c.stored k o = some o ∧ (key k o).1 = ns ∧ selected ∈ index k o }.Finite :=
    (c.finite k).subset (fun o is => ⟨_,_,is.1⟩)
  exact ⟨finite.toFinset.toList,finite.toFinset.nodup_toList,fun o => by simp⟩

section Serves
variable {index : Index} {fails : KubeOp → Prop} {c c' : Cluster} {k : Kind}

/-- A call that succeeded was carried out. -/
theorem serves_ok {op : KubeOp} {a : Answer op} (served : Serves index fails op c (.ok a) c') :
    Handles index c op (.ok a) c' := by
  cases served with
  | handled done => exact done

/-- A read leaves the cluster alone, and what it finds is stored. -/
theorem serves_get {ns name : String} {r : KubeReply (.get k ns name)} (served : Serves index fails (.get k ns name) c r c') :
    c' = c ∧ ∀ o, r = .ok o → c.objects k ns name = some o := by
  cases served with
  | handled done => exact ⟨done.1,fun o same => found_ok.mp (same ▸ done.2)⟩
  | failed => exact ⟨rfl,fun _ wrong => by cases wrong⟩

/-- A list leaves the cluster alone. -/
theorem serves_list {ns selected : String} {r : KubeReply (.list k ns selected)}
    (served : Serves index fails (.list k ns selected) c r c') :
    c' = c ∧ ∀ items, r = .ok items → Listed index c k ns selected items := by
  cases served with
  | handled done =>
    obtain ⟨same,items,rfl,listed⟩ := done
    exact ⟨same,fun _ same => by cases same; exact listed⟩
  | failed => exact ⟨rfl,fun _ wrong => by cases wrong⟩

theorem serves_create {o : Object k} (served : Serves index fails (.create k o) c (.ok ()) c') : c' = c.put k o := by
  cases handles_cases (serves_ok served) with
  | created => rfl

theorem serves_patch {o : Object k} (served : Serves index fails (.patch k o) c (.ok ()) c') :
    ∃ stored, c' = c.put k (updated (c.revision + 1) k stored o) := by
  cases handles_cases (serves_ok served) with
  | patched => exact ⟨_,rfl⟩

theorem serves_updateStatus {o : Object k} (served : Serves index fails (.updateStatus k o) c (.ok ()) c') :
    ∃ stored, c.stored k o = some stored ∧ Current k stored o ∧
      c' = c.put k (statusUpdated (c.revision + 1) k stored o) := by
  cases handles_cases (serves_ok served) with
  | statusUpdated present current => exact ⟨_,present,current,rfl⟩

end Serves

/-! ### What a call leaves alone -/

/-- The call may write the object under a key. -/
def Touches (k : Kind) (namespace_ name : String) : KubeOp → Prop
  | .create k' o | .update k' o | .updateStatus k' o | .patch k' o => k' = k ∧ key k' o = (namespace_,name)
  | .delete k' ns n => k' = k ∧ (ns,n) = (namespace_,name)
  | .get _ _ _ | .list _ _ _ => False

namespace Cluster
variable {c : Cluster} {k j : Kind} {ns name : String}

theorem put_aside {o : Object j} (aside : ¬ (j = k ∧ key j o = (ns,name))) :
    (c.put j o).objects k ns name = c.objects k ns name := by
  by_cases same : j = k
  · subst same
    rw [put_objects,if_neg]
    rintro ⟨rfl,rfl⟩
    exact aside ⟨rfl,rfl⟩
  · rw [put_other o (Ne.symm same)]

theorem remove_aside {ns' name' : String} (aside : ¬ (j = k ∧ (ns',name') = (ns,name))) :
    (c.remove j ns' name').objects k ns name = c.objects k ns name := by
  by_cases same : j = k
  · subst same
    rw [remove_objects,if_neg]
    rintro ⟨rfl,rfl⟩
    exact aside ⟨rfl,rfl⟩
  · rw [remove_other _ _ (Ne.symm same)]

end Cluster

section Frame
variable {index : Index} {c c' : Cluster} {k : Kind} {ns name : String}

private theorem handles_frame {op : KubeOp} {r : KubeReply op} (handled : Handles index c op r c')
    (aside : ¬ Touches k ns name op) :
    c'.objects k ns name = c.objects k ns name := by
  cases handles_cases handled with
  | got | listed | refused => rfl
  | created => exact Cluster.put_aside aside
  | updated | patched => exact Cluster.put_aside (by rw [key_updated]; exact aside)
  | released | deleted => exact Cluster.remove_aside aside
  | statusUpdated present => exact Cluster.put_aside (by rw [key_statusUpdated,c.keyed present]; exact aside)

/-- What a delete leaves under its key, whether it finds the object or not. -/
theorem handles_delete {r : KubeReply (.delete k ns name)} (handled : Handles index c (.delete k ns name) r c') :
    c'.objects k ns name = none := by
  cases handles_cases handled with
  | refused refused =>
    cases refused with
    | absent _ absent => exact absent
  | deleted => rw [Cluster.remove_objects,if_pos ⟨rfl,rfl⟩]

/-- A call that is carried out, or fails before it takes effect with an error that says nothing of the object. -/
inductive Fallible (index : Index) : (op : KubeOp) → Cluster → KubeReply op → Cluster → Prop
  | handled {op : KubeOp} {c c' : Cluster} {r : KubeReply op} : Handles index c op r c' → Fallible index op c r c'
  | failed {op : KubeOp} {c : Cluster} (message : String) : Fallible index op c (.error (.other message)) c

theorem fallible_serves {op : KubeOp} {r : KubeReply op} (served : Fallible index op c r c') :
    Serves index (fun _ => True) op c r c' := by
  cases served with
  | handled done => exact .handled done
  | failed => exact .failed trivial

theorem fallible_frame {op : KubeOp} {r : KubeReply op} (served : Fallible index op c r c') (aside : ¬ Touches k ns name op) :
    c'.objects k ns name = c.objects k ns name := by
  cases served with
  | handled done => exact handles_frame done aside
  | failed => rfl

theorem fallible_get {r : KubeReply (.get k ns name)} (served : Fallible index (.get k ns name) c r c') :
    c' = c ∧ (∀ o, r = .ok o → c.objects k ns name = some o) ∧
      ∀ message, r = .error (.notFound message) → c.objects k ns name = none := by
  cases served with
  | handled done =>
    refine ⟨done.1,fun o same => found_ok.mp (same ▸ done.2),?_⟩
    rintro message rfl
    have found := done.2
    cases stored : c.objects k ns name with
    | none => rfl
    | some o =>
      rw [stored] at found
      cases found
  | failed => exact ⟨rfl,by simp,by simp⟩

/-- An API server that carries out every call but the lists. -/
def carryOut : (op : KubeOp) → Cluster → KubeReply op × Cluster
  | .get k ns name,c =>
    match c.objects k ns name with
    | some o => (.ok o,c)
    | none => (.error (.notFound "not found"),c)
  | .list _ _ _,c => (.error (.other "etcdserver: request timed out"),c)
  | .create k o,c =>
    match c.stored k o with
    | some _ => (.error (.alreadyExists "already exists"),c)
    | none => (.ok (),c.put k o)
  | .update k o,c =>
    match c.stored k o with
    | none => (.error (.notFound "not found"),c)
    | some stored =>
      if Current k stored o then
        (.ok (updated (c.revision + 1) k stored o),
          if released k (updated (c.revision + 1) k stored o) then c.remove k (key k o).1 (key k o).2
          else c.put k (updated (c.revision + 1) k stored o))
      else (.error (.other "the object has been modified"),c)
  | .updateStatus k o,c =>
    match c.stored k o with
    | none => (.error (.notFound "not found"),c)
    | some stored =>
      if Current k stored o then (.ok (),c.put k (statusUpdated (c.revision + 1) k stored o))
      else (.error (.other "the object has been modified"),c)
  | .patch k o,c =>
    match c.stored k o with
    | none => (.error (.notFound "not found"),c)
    | some stored => (.ok (),c.put k (updated (c.revision + 1) k stored o))
  | .delete k ns name,c =>
    match c.objects k ns name with
    | none => (.error (.notFound "not found"),c)
    | some _ => (.ok (),c.remove k ns name)

/-- The same server, when the calls in `fails` fail. -/
def respond (fails : KubeOp → Bool) (op : KubeOp) (c : Cluster) : KubeReply op × Cluster :=
  if fails op then (.error (.other "etcdserver: request timed out"),c) else carryOut op c

theorem carryOut_handles (op : KubeOp) (c : Cluster) (single : ∀ k ns selected, op ≠ .list k ns selected) :
    Handles index c op (carryOut op c).1 (carryOut op c).2 := by
  cases op with
  | list k ns selected => exact absurd rfl (single k ns selected)
  | get k ns name => cases found : c.objects k ns name <;> simp [Handles,Found,carryOut,found]
  | create k o | patch k o => cases found : c.stored k o <;> simp [Handles,carryOut,found]
  | update k o | updateStatus k o =>
    cases found : c.stored k o with
    | none => simp [Handles,carryOut,found]
    | some stored => by_cases current : Current k stored o <;> simp [Handles,carryOut,found,current]
  | delete k ns name => cases found : c.objects k ns name <;> simp [Handles,carryOut,found]

private theorem carryOut_fallible (op : KubeOp) (c : Cluster) : Fallible index op c (carryOut op c).1 (carryOut op c).2 := by
  cases op with
  | list => exact .failed _
  | get | create | update | updateStatus | patch | delete => exact .handled (carryOut_handles _ c (by simp))

theorem respond_fallible (fails : KubeOp → Bool) (op : KubeOp) (c : Cluster) :
    Fallible index op c (respond fails op c).1 (respond fails op c).2 := by
  unfold respond
  split
  · exact .failed _
  · exact carryOut_fallible op c

end Frame
end Arks.Kube
