import Arks.Kube

/-!
What the controllers have in common: how a pass ends, finalizers, conditions, and
the ladder that looks a child up and creates it when it is not there.
-/
namespace Arks.Controllers
open Programs Programs.Prog Api Kube

/-- `ctrl.Result`; the delay is in seconds. -/
structure Result where
  requeue : Bool
  requeueAfter : Int
deriving DecidableEq,Repr

def Result.empty : Result := ⟨false,0⟩

/-- How a pass ends. An error comes with an empty result, and a nil dereference ends the pass. -/
inductive Outcome
  | done (result : Result)
  | failed (message : String)
  | panicked
deriving DecidableEq,Repr

/-- A step of a pass: it goes on with an object, or the pass ends. -/
inductive Flow (α : Type)
  | next (object : α)
  | stop (object : α) (outcome : Outcome)

def Flow.object {α : Type} : Flow α → α
  | .next object => object
  | .stop object _ => object

/-! ### Finalizers -/

def hasFinalizer (object : ObjectMeta) (finalizer : String) : Bool := object.finalizers.any (fun f => f = finalizer)

def removeFinalizer (object : ObjectMeta) (finalizer : String) : ObjectMeta :=
  { object with finalizers := object.finalizers.filter (fun f => f ≠ finalizer) }

def addFinalizer (object : ObjectMeta) (finalizer : String) : ObjectMeta :=
  if hasFinalizer object finalizer then object else { object with finalizers := object.finalizers ++ [finalizer] }

@[simp] theorem hasFinalizer_iff (object : ObjectMeta) (finalizer : String) :
    hasFinalizer object finalizer = true ↔ finalizer ∈ object.finalizers := by
  simp [hasFinalizer]

/-! ### Conditions -/

section Conditions
variable {T : Type} [DecidableEq T]

/-- The loop of `checkApplicationCondition` and of `checkModelCondition`. -/
def checkCondition (conditions : List (Condition T)) (type : T) : Bool :=
  match conditions with
  | [] => false
  | condition :: conditions =>
    if condition.type = type then decide (condition.status = .isTrue) else checkCondition conditions type

/-- The loop of `updateApplicationCondition` and of `updateModelCondition`. -/
def updateCondition (conditions : List (Condition T)) (type : T) (status : ConditionStatus) (reason message : String) :
    List (Condition T) :=
  match conditions with
  | [] => [⟨type,status,reason,message⟩]
  | condition :: conditions =>
    if condition.type = type then { condition with status := status,reason := reason,message := message } :: conditions
    else condition :: updateCondition conditions type status reason message

variable (conditions : List (Condition T)) (status : ConditionStatus) (reason message : String)

@[simp] theorem check_update_same (type : T) :
    checkCondition (updateCondition conditions type status reason message) type = decide (status = .isTrue) := by
  induction conditions with
  | nil => simp [updateCondition,checkCondition]
  | cons condition conditions ih =>
    by_cases here : condition.type = type <;> simp [updateCondition,checkCondition,here,ih]

theorem check_update_other {type other : T} (differ : other ≠ type) :
    checkCondition (updateCondition conditions type status reason message) other = checkCondition conditions other := by
  induction conditions with
  | nil => simp [updateCondition,checkCondition,Ne.symm differ]
  | cons condition conditions ih =>
    by_cases here : condition.type = type
    · simp [updateCondition,checkCondition,here,Ne.symm differ]
    · simp [updateCondition,checkCondition,here,ih]

end Conditions

/-! ### Children -/

/-- What a generator returns. -/
inductive Generated (α : Type)
  | object (a : α)
  | failed (message : String)
  | panicked

instance : Monad Generated where
  pure := .object
  bind x f := match x with
    | .object a => f a
    | .failed message => .failed message
    | .panicked => .panicked

@[simp] theorem generated_pure {α : Type} {a b : α} : (pure a : Generated α) = .object b ↔ a = b :=
  ⟨fun same => by cases same; rfl,fun same => by rw [same]; rfl⟩

@[simp] theorem generated_bind {α β : Type} {x : Generated α} {f : α → Generated β} {b : β} :
    x >>= f = .object b ↔ ∃ a, x = .object a ∧ f a = .object b := by
  cases x with
  | object a => exact ⟨fun same => ⟨a,rfl,same⟩,fun ⟨_,is,same⟩ => by cases is; exact same⟩
  | failed | panicked => exact ⟨fun wrong => (by cases wrong),fun ⟨_,wrong,_⟩ => by cases wrong⟩

/-- How the ladder for a child ends; it says whether it had to generate the child. -/
inductive Ensured
  | present (generated : Bool)
  | panicked
  | generateFailed (message : String)
  | createFailed (e : ApiErr)
  | checkFailed (e : ApiErr)

/-- Look a child up, and create it when it is not there. -/
def ensure (k : Kind) (namespace_ name : String) (generate : KubeAction (Generated (Object k))) : KubeAction Ensured := do
  match ← request (.get k namespace_ name) with
  | .ok _ => pure (.present false)
  | .error (.notFound _) =>
    match ← generate with
    | .panicked => pure .panicked
    | .failed message => pure (.generateFailed message)
    | .object object =>
      match ← request (.create k object) with
      | .ok _ => pure (.present true)
      | .error (.alreadyExists _) => pure (.present true)
      | .error e => pure (.createFailed e)
  | .error e => pure (.checkFailed e)

theorem ensure_within {answers : (op : KubeOp) → KubeReply op → Prop} {P : KubeOp → Prop} {k : Kind} {namespace_ name : String}
    {generate : KubeAction (Generated (Object k))} (get : P (.get k namespace_ name))
    (generated : Within answers P (fun g => ∀ o, g = .object o → P (.create k o)) generate) :
    Within answers P (fun _ => True) (ensure k namespace_ name generate) := by
  simp only [ensure,issue_bind,within_call]
  refine ⟨get,fun found _ => ?_⟩
  rcases found with (message | message | message) | o
  · refine within_bind generated (fun g create => ?_)
    cases g with
    | object o =>
      simp only [within_call]
      refine ⟨create o rfl,fun created _ => ?_⟩
      rcases created with (message | message | message) | _ <;> trivial
    | failed | panicked => trivial
  all_goals trivial

/-! ### The pass over a request -/

/-- `Reconcile` of the models and of both kinds of applications. Two of them drop the
    result of a successful pass, which `finish` says. -/
def reconcileRequest (k : Kind) (meta_ : Object k → ObjectMeta) (subject : String) (finish : Result → Result)
    (remove : Object k → KubeAction Outcome) (reconcile : Object k → KubeAction (Object k × Outcome))
    (namespace_ name : String) : KubeAction Outcome := do
  match ← request (.get k namespace_ name) with
  | .error (.notFound _) => pure (.done .empty)
  | .error e => pure (.failed e.text)
  | .ok object =>
    if (meta_ object).deletionTimestamp.isSome then remove object
    else do
      match ← reconcile object with
      | (_,.panicked) => pure .panicked
      | (object,outcome) =>
        match ← request (.updateStatus k object) with
        | .error e => pure (.failed ("failed to update status for " ++ subject ++ (meta_ object).namespace_.val ++ "/" ++
            (meta_ object).name.val ++ " (" ++ (meta_ object).uid ++ "): " ++ quote e.text))
        | .ok _ =>
          match outcome with
          | .done result => pure (.done (finish result))
          | outcome => pure outcome

/-- What `Reconcile` calls: what removing and reconciling the object that it reads call, and the update of the status. -/
theorem request_within {answers : (op : KubeOp) → KubeReply op → Prop} {P : KubeOp → Prop} {k : Kind}
    {meta_ : Object k → ObjectMeta} {subject : String} {finish : Result → Result} {remove : Object k → KubeAction Outcome}
    {reconcile : Object k → KubeAction (Object k × Outcome)} {namespace_ name : String} (get : P (.get k namespace_ name))
    (removes : ∀ object, answers (.get k namespace_ name) (.ok object) → Within answers P (fun _ => True) (remove object))
    (reconciles : ∀ object, answers (.get k namespace_ name) (.ok object) →
      Within answers P (fun result => P (.updateStatus k result.1)) (reconcile object)) :
    Within answers P (fun _ => True) (reconcileRequest k meta_ subject finish remove reconcile namespace_ name) := by
  simp only [reconcileRequest,issue_bind,within_call]
  refine ⟨get,fun read told => ?_⟩
  rcases read with (_ | _ | _) | object <;> try trivial
  simp only
  split
  · exact removes object told
  · refine within_bind (reconciles object told) (fun result status => ?_)
    obtain ⟨after,outcome⟩ := result
    have writes : ∀ rest : KubeReply (.updateStatus k after) → KubeAction Outcome, (∀ r, ∃ o, rest r = pure o) →
        Within answers P (fun _ => True) (request (.updateStatus k after) >>= rest) := by
      refine fun rest ends => ⟨status,fun r _ => ?_⟩
      obtain ⟨o,same⟩ := ends r
      show Within answers P (fun _ => True) (rest r)
      rw [same]
      trivial
    cases outcome with
    | panicked => trivial
    | done | failed => exact writes _ (fun r => by cases r <;> exact ⟨_,rfl⟩)

end Arks.Controllers
