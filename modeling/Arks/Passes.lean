import Arks.Applications

/-!
How a pass of a reconciler can go. A run of a program lists its calls with their
replies, whatever the API server answers; here the runs of the ladder for a
child, of the skeleton of the applications and of `Reconcile` are laid out exit by
exit, so that what is said of a pass is said of each of its exits.
-/
namespace Arks.Passes
open Programs Programs.Prog Api Kube Controllers Workloads Applications

/-- The kind of object that a call is about. -/
def kindOf : KubeOp → Kind
  | .get k _ _ | .list k _ _ | .create k _ | .update k _ | .updateStatus k _ | .patch k _ | .delete k _ _ => k

/-- A read that found nothing. -/
def lacking : KubeCall → Bool
  | ⟨.get _ _ _,.error (.notFound _)⟩ => true
  | _ => false

/-! ### The ladder of a child -/

/-- The runs of `ensure`, by what it found. -/
inductive Ladder (k : Kind) (namespace_ name : String) (generate : KubeAction (Generated (Object k))) :
    List KubeCall → Ensured → Prop
  | found (o : Object k) : Ladder k namespace_ name generate [⟨.get k namespace_ name,.ok o⟩] (.present false)
  | unread {e : ApiErr} : (∀ message, e ≠ .notFound message) →
      Ladder k namespace_ name generate [⟨.get k namespace_ name,.error e⟩] (.checkFailed e)
  | panicked (message : String) {calls : List KubeCall} : Runs generate calls .panicked →
      Ladder k namespace_ name generate (⟨.get k namespace_ name,.error (.notFound message)⟩ :: calls) .panicked
  | ungenerated (message : String) {calls : List KubeCall} {text : String} : Runs generate calls (.failed text) →
      Ladder k namespace_ name generate (⟨.get k namespace_ name,.error (.notFound message)⟩ :: calls) (.generateFailed text)
  | created (message : String) {calls : List KubeCall} {o : Object k} : Runs generate calls (.object o) →
      Ladder k namespace_ name generate
        (⟨.get k namespace_ name,.error (.notFound message)⟩ :: (calls ++ [⟨.create k o,.ok ()⟩])) (.present true)
  | existed (message text : String) {calls : List KubeCall} {o : Object k} : Runs generate calls (.object o) →
      Ladder k namespace_ name generate
        (⟨.get k namespace_ name,.error (.notFound message)⟩ :: (calls ++ [⟨.create k o,.error (.alreadyExists text)⟩]))
        (.present true)
  | uncreated (message : String) {calls : List KubeCall} {o : Object k} {e : ApiErr} : Runs generate calls (.object o) →
      (∀ text, e ≠ .alreadyExists text) →
      Ladder k namespace_ name generate
        (⟨.get k namespace_ name,.error (.notFound message)⟩ :: (calls ++ [⟨.create k o,.error e⟩])) (.createFailed e)

theorem ensure_runs {k : Kind} {namespace_ name : String} {generate : KubeAction (Generated (Object k))}
    {calls : List KubeCall} {ensured : Ensured} (run : Runs (ensure k namespace_ name generate) calls ensured) :
    Ladder k namespace_ name generate calls ensured := by
  simp only [ensure,issue_bind,runs_call] at run
  obtain ⟨r,calls,rfl,run⟩ := run
  rcases r with (message | message | message) | o
  · obtain ⟨g,first,rest,rfl,generated,later⟩ := runs_bind.mp run
    cases g with
    | object o =>
      simp only [runs_call] at later
      obtain ⟨r,last,rfl,later⟩ := later
      rcases r with (text | text | text) | _ <;> obtain ⟨rfl,rfl⟩ := runs_ret.mp later
      · exact .uncreated message generated (by simp)
      · exact .existed message text generated
      · exact .uncreated message generated (by simp)
      · exact .created message generated
    | failed text =>
      obtain ⟨rfl,rfl⟩ := runs_ret.mp later
      simpa using .ungenerated message generated
    | panicked =>
      obtain ⟨rfl,rfl⟩ := runs_ret.mp later
      simpa using .panicked message generated
  · obtain ⟨rfl,rfl⟩ := runs_ret.mp run
    exact .unread (by simp)
  · obtain ⟨rfl,rfl⟩ := runs_ret.mp run
    exact .unread (by simp)
  · obtain ⟨rfl,rfl⟩ := runs_ret.mp run
    exact .found o

/-- A child is in place for a pass: a read found it, or a create of it was accepted
    or refused because it exists. -/
def InPlace (k : Kind) (namespace_ name : String) (calls : List KubeCall) : Prop :=
  (∃ o, ⟨.get k namespace_ name,.ok o⟩ ∈ calls) ∨
    ∃ o, key k o = (namespace_,name) ∧
      (⟨.create k o,.ok ()⟩ ∈ calls ∨ ∃ text, ⟨.create k o,.error (.alreadyExists text)⟩ ∈ calls)

theorem inPlace_mono {k : Kind} {namespace_ name : String} {calls more : List KubeCall}
    (all : ∀ call ∈ calls, call ∈ more) (placed : InPlace k namespace_ name calls) : InPlace k namespace_ name more := by
  rcases placed with ⟨o,found⟩ | ⟨o,named,created | ⟨text,existed⟩⟩
  · exact .inl ⟨o,all _ found⟩
  · exact .inr ⟨o,named,.inl (all _ created)⟩
  · exact .inr ⟨o,named,.inr ⟨text,all _ existed⟩⟩

/-- A ladder that goes on leaves the child in place. -/
theorem ladder_present {k : Kind} {namespace_ name : String} {generate : KubeAction (Generated (Object k))}
    {calls : List KubeCall} {b : Bool} (named : ∀ calls o, Runs generate calls (.object o) → key k o = (namespace_,name))
    (ladder : Ladder k namespace_ name generate calls (.present b)) : InPlace k namespace_ name calls := by
  cases ladder with
  | found o => exact .inl ⟨o,by simp⟩
  | created _ generated => exact .inr ⟨_,named _ _ generated,.inl (by simp)⟩
  | existed _ text generated => exact .inr ⟨_,named _ _ generated,.inr ⟨text,by simp⟩⟩

/-- The ladder of a child whose generator neither fails nor calls. -/
theorem ladder_given {k : Kind} {namespace_ name : String} {o : Object k} {calls : List KubeCall} {ensured : Ensured}
    (ladder : Ladder k namespace_ name (pure (.object o)) calls ensured) (named : key k o = (namespace_,name)) :
    (∃ b, ensured = .present b ∧ InPlace k namespace_ name calls) ∨
      (∃ e message, ensured = .createFailed e ∧
        calls = [⟨.get k namespace_ name,.error (.notFound message)⟩,⟨.create k o,.error e⟩]) ∨
      ∃ e, ensured = .checkFailed e ∧ (∀ message, e ≠ .notFound message) ∧ calls = [⟨.get k namespace_ name,.error e⟩] := by
  have given : ∀ {calls : List KubeCall} {g : Generated (Object k)},
      Runs (pure (.object o) : KubeAction (Generated (Object k))) calls g → calls = [] ∧ g = .object o := runs_ret.mp
  cases ladder with
  | found o' => exact .inl ⟨_,rfl,.inl ⟨o',by simp⟩⟩
  | unread other => exact .inr (.inr ⟨_,rfl,other,rfl⟩)
  | panicked _ generated => cases (given generated).2
  | ungenerated _ generated => cases (given generated).2
  | created _ generated =>
    obtain ⟨rfl,same⟩ := given generated
    cases same
    exact .inl ⟨_,rfl,.inr ⟨o,named,.inl (by simp)⟩⟩
  | existed _ text generated =>
    obtain ⟨rfl,same⟩ := given generated
    cases same
    exact .inl ⟨_,rfl,.inr ⟨o,named,.inr ⟨text,by simp⟩⟩⟩
  | uncreated message generated =>
    obtain ⟨rfl,same⟩ := given generated
    cases same
    exact .inr (.inl ⟨_,message,rfl,rfl⟩)

/-! ### The skeleton of the applications -/

variable {outcome : Outcome}

section Skeleton
variable {k : Kind} (r : Reconciler k)

/-- The runs of `serve`. -/
inductive Served (app : Object k) : List KubeCall → Object k × Outcome → Prop
  | missing (message : String) : Served app
      [⟨.get .model (r.meta_ app).namespace_ (r.modelName app),.error (.notFound message)⟩]
      (r.revise app (Progress.fail · .loaded "ModelNotExist" "The referenced model doesn't exist"),.done .empty)
  | unread {e : ApiErr} : (∀ message, e ≠ .notFound message) → Served app
      [⟨.get .model (r.meta_ app).namespace_ (r.modelName app),.error e⟩] (app,.failed e.text)
  | waiting {model : ArksModel} {app' : Object k} {outcome : Outcome} : r.waitModel app model = .stop app' outcome →
      Served app [⟨.get .model (r.meta_ app).namespace_ (r.modelName app),.ok model⟩] (app',outcome)
  | stopped {model : ArksModel} {app₁ app₂ : Object k} {outcome : Outcome} {calls : List KubeCall} :
      r.waitModel app model = .next app₁ → Runs (r.announce app₁ model) calls (.stop app₂ outcome) →
      Served app (⟨.get .model (r.meta_ app).namespace_ (r.modelName app),.ok model⟩ :: calls) (app₂,outcome)
  | synced {model : ArksModel} {app₁ app₂ : Object k} {calls rest : List KubeCall} {result : Object k × Outcome} :
      r.waitModel app model = .next app₁ → Runs (r.announce app₁ model) calls (.next app₂) → Runs (r.sync app₂) rest result →
      Served app (⟨.get .model (r.meta_ app).namespace_ (r.modelName app),.ok model⟩ :: (calls ++ rest)) result

variable {app app' : Object k} {model : ArksModel} {flow : Flow (Object k)} {result : Object k × Outcome}

private theorem serve_runs {calls : List KubeCall} (run : Runs (r.serve app) calls result) : Served r app calls result := by
  simp only [Reconciler.serve,issue_bind,runs_call] at run
  obtain ⟨read,calls,rfl,run⟩ := run
  rcases read with (message | message | message) | model
  · obtain ⟨rfl,rfl⟩ := runs_ret.mp run
    exact .missing message
  · obtain ⟨rfl,rfl⟩ := runs_ret.mp run
    exact .unread (by simp)
  · obtain ⟨rfl,rfl⟩ := runs_ret.mp run
    exact .unread (by simp)
  · simp only at run
    cases waits : r.waitModel app model with
    | stop app' outcome =>
      rw [waits] at run
      obtain ⟨rfl,rfl⟩ := runs_ret.mp run
      exact .waiting waits
    | next app₁ =>
      rw [waits] at run
      obtain ⟨flow,first,rest,rfl,announced,later⟩ := runs_bind.mp run
      cases flow with
      | stop app₂ outcome =>
        obtain ⟨rfl,rfl⟩ := runs_ret.mp later
        simpa using .stopped waits announced
      | next app₂ => exact .synced waits announced later

/-- The runs of `announce`. -/
inductive Announced (app : Object k) (model : ArksModel) : List KubeCall → Flow (Object k) → Prop
  | already : Progress.check (r.progress app) .ready = true → Announced app model [] (.next app)
  | stopped {app' : Object k} {outcome : Outcome} {calls : List KubeCall} : Progress.check (r.progress app) .ready = false →
      Runs (r.start (r.revise app (Progress.setPhase · .creating)) model) calls (.stop app' outcome) →
      Announced app model calls (.stop app' outcome)
  | started {app' : Object k} {calls : List KubeCall} : Progress.check (r.progress app) .ready = false →
      Runs (r.start (r.revise app (Progress.setPhase · .creating)) model) calls (.next app') →
      Announced app model calls (.next (r.revise app' (fun s => Progress.update (Progress.setPhase s .running) .ready .isTrue
        "Running" "The LLM service is running")))

theorem announce_runs {calls : List KubeCall}
    (run : Runs (r.announce app model) calls flow) : Announced r app model calls flow := by
  unfold Reconciler.announce at run
  split at run
  · obtain ⟨rfl,rfl⟩ := runs_ret.mp run
    exact .already ‹_›
  · rename_i unready
    have not_ready : Progress.check (r.progress app) .ready = false := by simpa using unready
    obtain ⟨first,during,rest,rfl,started,later⟩ := runs_bind.mp run
    cases first with
    | stop app' outcome =>
      obtain ⟨rfl,rfl⟩ := runs_ret.mp later
      simpa using .stopped not_ready started
    | next app' =>
      obtain ⟨rfl,rfl⟩ := runs_ret.mp later
      simpa using .started not_ready started

/-- The object with which a pass asks for the finalizer. -/
def finalizing (app : Object k) : Object k :=
  r.withMeta (r.initialized app) (addFinalizer (r.meta_ app) arksApplicationControllerFinalizer)

/-- The runs of `reconcile`. -/
inductive Reconciled (app : Object k) : List KubeCall → Object k × Outcome → Prop
  | deleting : (r.meta_ app).deletionTimestamp.isSome → Reconciled app [] (app,.done ⟨true,0⟩)
  | failed : (r.progress app).phase = some .failed → Reconciled app [] (app,.done .empty)
  | unfinalized (e : ApiErr) : (r.progress app).phase ≠ some .failed →
      arksApplicationControllerFinalizer ∉ (r.meta_ app).finalizers →
      Reconciled app [⟨.update k (finalizing r app),.error e⟩]
        (finalizing r app,.failed ("failed to add application finalizer: " ++ quote e.text))
  | finalized (stored : Object k) : (r.progress app).phase ≠ some .failed →
      arksApplicationControllerFinalizer ∉ (r.meta_ app).finalizers →
      Reconciled app [⟨.update k (finalizing r app),.ok stored⟩] (stored,.done ⟨true,0⟩)
  | refused {app' : Object k} {outcome : Outcome} : (r.progress app).phase ≠ some .failed →
      arksApplicationControllerFinalizer ∈ (r.meta_ app).finalizers →
      r.precheck (r.initialized app) = .stop app' outcome → Reconciled app [] (app',outcome)
  | served {app₁ : Object k} {calls : List KubeCall} {result : Object k × Outcome} :
      (r.progress app).phase ≠ some .failed → arksApplicationControllerFinalizer ∈ (r.meta_ app).finalizers →
      r.precheck (r.initialized app) = .next app₁ → Served r app₁ calls result → Reconciled app calls result

theorem reconcile_runs {calls : List KubeCall} (run : Runs (r.reconcile app) calls result) : Reconciled r app calls result := by
  unfold Reconciler.reconcile at run
  split at run
  · obtain ⟨rfl,rfl⟩ := runs_ret.mp run
    exact .deleting ‹_›
  split at run
  · obtain ⟨rfl,rfl⟩ := runs_ret.mp run
    exact .failed ‹_›
  split at run
  · rename_i lacking
    have lacks : arksApplicationControllerFinalizer ∉ (r.meta_ app).finalizers := by
      rw [← hasFinalizer_iff,Bool.not_eq_true]
      simpa using lacking
    simp only [issue_bind,runs_call] at run
    obtain ⟨written,calls,rfl,run⟩ := run
    cases written with
    | error e =>
      obtain ⟨rfl,rfl⟩ := runs_ret.mp run
      exact .unfinalized e ‹_› lacks
    | ok stored =>
      obtain ⟨rfl,rfl⟩ := runs_ret.mp run
      exact .finalized stored ‹_› lacks
  · rename_i carried
    have carries : arksApplicationControllerFinalizer ∈ (r.meta_ app).finalizers := by simpa using carried
    cases checked : r.precheck (r.initialized app) with
    | stop app' outcome =>
      rw [checked] at run
      obtain ⟨rfl,rfl⟩ := runs_ret.mp run
      exact .refused ‹_› carries checked
    | next app₁ =>
      rw [checked] at run
      exact .served ‹_› carries checked (serve_runs r run)

/-! ### What the stages do to the status -/

theorem precheck_stop (stops : r.precheck app = .stop app' outcome) :
    Progress.check (r.progress app) .precheck = false ∧ outcome = .done .empty ∧
      ∃ reason message, app' = r.revise app (Progress.fail · .precheck reason message) := by
  unfold Reconciler.precheck at stops
  split at stops
  · cases stops
  · rename_i unchecked
    split at stops
    · cases stops
      exact ⟨by simpa using unchecked,rfl,_,_,rfl⟩
    · cases stops

theorem precheck_next (goes : r.precheck app = .next app') :
    (Progress.check (r.progress app) .precheck = true ∧ app' = app) ∨
      (Progress.check (r.progress app) .precheck = false ∧ r.checks app = none ∧
        app' = r.revise app (fun s => Progress.update (Progress.setPhase s .checking) .precheck .isTrue "PrecheckPass"
          "The application passed the pre-checking")) := by
  unfold Reconciler.precheck at goes
  split at goes
  · cases goes
    exact .inl ⟨‹_›,rfl⟩
  · rename_i unchecked
    split at goes
    · cases goes
    · cases goes
      exact .inr ⟨by simpa using unchecked,‹_›,rfl⟩

theorem waitModel_stop (stops : r.waitModel app model = .stop app' outcome) :
    Progress.check (r.progress app) .loaded = false ∧
      ((model.status.phase = some .failed ∧ outcome = .done .empty ∧
          app' = r.revise app (Progress.fail · .loaded "ModelLoadFailed" "Failed to load the referenced model")) ∨
        (model.status.phase ≠ some .failed ∧ model.status.phase ≠ some .ready ∧ outcome = .done ⟨false,3⟩ ∧
          app' = r.revise app (Progress.setPhase · .loading))) := by
  unfold Reconciler.waitModel at stops
  split at stops
  · cases stops
  · rename_i unloaded
    refine ⟨by simpa using unloaded,?_⟩
    split at stops
    · cases stops
      exact .inl ⟨‹_›,rfl,rfl⟩
    · cases stops
    · cases stops
      exact .inr ⟨‹_›,‹_›,rfl,rfl⟩

theorem waitModel_next (goes : r.waitModel app model = .next app') :
    (Progress.check (r.progress app) .loaded = true ∧ app' = app) ∨
      (Progress.check (r.progress app) .loaded = false ∧ model.status.phase = some .ready ∧
        app' = r.revise app (fun s => Progress.update (Progress.setPhase s .loading) .loaded .isTrue "ModelLoadSucceeded"
          "The referenced model is loaded")) := by
  unfold Reconciler.waitModel at goes
  split at goes
  · cases goes
    exact .inl ⟨‹_›,rfl⟩
  · rename_i unloaded
    split at goes
    · cases goes
    · cases goes
      exact .inr ⟨by simpa using unloaded,‹_›,rfl⟩
    · cases goes

/-- The checks before the model is read touch no other condition than theirs. -/
theorem precheck_check {type : ArksApplicationConditionType} (other : type ≠ .precheck)
    (goes : r.precheck app = flow) : Progress.check (r.progress flow.object) type = Progress.check (r.progress app) type := by
  cases flow with
  | next app' => rcases precheck_next r goes with ⟨_,rfl⟩ | ⟨_,_,rfl⟩ <;> simp [Flow.object,other]
  | stop app' outcome =>
    obtain ⟨_,_,_,_,rfl⟩ := precheck_stop r goes
    simp [Flow.object,other]

theorem waitModel_check {type : ArksApplicationConditionType} (other : type ≠ .loaded) (goes : r.waitModel app model = flow) :
    Progress.check (r.progress flow.object) type = Progress.check (r.progress app) type := by
  cases flow with
  | next app' => rcases waitModel_next r goes with ⟨_,rfl⟩ | ⟨_,_,rfl⟩ <;> simp [Flow.object,other]
  | stop app' outcome => rcases waitModel_stop r goes with ⟨_,⟨_,_,rfl⟩ | ⟨_,_,_,rfl⟩⟩ <;> simp [Flow.object,other]

end Skeleton

/-- What seeing to the children leaves of the status when it ends the pass. -/
inductive Halted (s : ApplicationProgress) : ApplicationProgress → Prop
  | kept : Halted s s
  | ungenerated (reason message : String) : Halted s (Progress.fail s .precheck reason message)
  | uncreated (reason message : String) : Halted s (Progress.update s .ready .isFalse reason message)

theorem halted_ready {s s' : ApplicationProgress} (halted : Halted s s') (unready : Progress.check s .ready = false) :
    Progress.check s' .ready = false := by
  cases halted <;> simp [unready]

/-- Seeing to the children keeps the application and its status, or ends the pass. -/
def Keeps {k : Kind} (r : Fields k) (app : Object k) : Flow (Object k) → Prop
  | .next app' => r.progress app' = r.progress app ∧ r.meta_ app' = r.meta_ app
  | .stop app' _ => Halted (r.progress app) (r.progress app') ∧ r.meta_ app' = r.meta_ app

theorem afterWorkload_keeps {k : Kind} (r : Fields k) (app : Object k) (what noun : String) (ensured : Ensured) :
    Keeps r app (r.afterWorkload app what noun ensured) := by
  cases ensured with
  | present => exact ⟨rfl,rfl⟩
  | panicked => exact ⟨.kept,rfl⟩
  | generateFailed text => exact ⟨by rw [r.progress_revise]; exact .ungenerated _ _,r.meta_revise ..⟩
  | createFailed e => exact ⟨by rw [r.progress_revise]; exact .uncreated _ _,r.meta_revise ..⟩
  | checkFailed e => exact ⟨.kept,rfl⟩

theorem keeps_next {k : Kind} {r : Fields k} {app app' : Object k} {flow : Flow (Object k)}
    (same : r.progress app' = r.progress app ∧ r.meta_ app' = r.meta_ app) (keeps : Keeps r app' flow) : Keeps r app flow := by
  cases flow with
  | next app'' => exact ⟨keeps.1.trans same.1,keeps.2.trans same.2⟩
  | stop app'' outcome => exact ⟨same.1 ▸ keeps.1,keeps.2.trans same.2⟩

section Plain
variable (p : Platform) (app : ArksApplication) (model : ArksModel)

theorem startApplication_within :
    Issues (fun op => kindOf op = .lws ∨ kindOf op = .service) (Keeps applicationFields app)
      (startApplication p app model) := by
  refine within_bind (ensure_within (.inl rfl) (fun _ _ => .inl rfl)) (fun lws _ => ?_)
  have keeps := afterWorkload_keeps applicationFields app "" "LWS" lws
  cases goes : applicationFields.afterWorkload app "" "LWS" lws with
  | stop app' outcome =>
    rw [goes] at keeps
    exact keeps
  | next app' =>
    rw [goes] at keeps
    refine within_bind (ensure_within (.inr rfl) (fun _ _ => .inr rfl)) (fun service _ => keeps_next keeps ?_)
    cases service with
    | createFailed | checkFailed => exact ⟨.kept,rfl⟩
    | present | panicked | generateFailed => exact ⟨rfl,rfl⟩

/-- The leader worker set comes first. -/
theorem startApplication_runs {calls : List KubeCall} {flow : Flow ArksApplication}
    (run : Runs (startApplication p app model) calls flow) :
    ∃ lws first rest, calls = first ++ rest ∧
      Ladder .lws app.namespace_ app.name (pure (generateLws p app model)) first lws ∧
      ∀ call ∈ rest, kindOf call.1 = .service := by
  obtain ⟨lws,first,rest,rfl,ensured,later⟩ := runs_bind.mp run
  refine ⟨lws,first,rest,rfl,ensure_runs ensured,?_⟩
  cases goes : applicationFields.afterWorkload app "" "LWS" lws with
  | stop app₁ outcome =>
    rw [goes] at later
    obtain ⟨rfl,_⟩ := runs_ret.mp later
    simp
  | next app₁ =>
    rw [goes] at later
    have kinds : Issues (fun op => kindOf op = .service) (fun _ => True)
        (ensure .service app₁.namespace_ (generateApplicationServiceName app₁)
          (pure (.object (applicationService app₁)))) := ensure_within rfl (fun _ _ => rfl)
    obtain ⟨service,second,last,rfl,ensured,ended⟩ := runs_bind.mp later
    obtain ⟨rfl,_⟩ := runs_ret.mp ended
    exact fun call is => (runs_within kinds ensured).1 call (by simpa using is)

end Plain

section Disaggregated
open Workloads.Disaggregated (Role applyRouterRBAC createRBAC generateRouterDeployment)
open Applications.Disaggregated
variable (p : Platform) (app : ArksDisaggregatedApplication) (model : ArksModel) (role : Role)

private theorem settle_kept : fields.progress (settle role app) = fields.progress app ∧ fields.meta_
    (settle role app) = fields.meta_ app := by
  cases role <;> exact ⟨rfl,rfl⟩

private theorem sized_kept : fields.progress (sized app) = fields.progress app ∧ fields.meta_ (sized app) = fields.meta_ app := by
  unfold sized
  split <;> exact ⟨rfl,rfl⟩

theorem startWorkload_within :
    Issues (fun op => kindOf op = .lws) (Keeps fields app) (startWorkload p role app model) := by
  refine within_bind (ensure_within rfl (fun _ _ => rfl)) (fun lws _ => ?_)
  cases lws with
  | present b =>
    cases b with
    | true => exact settle_kept app role
    | false => exact ⟨rfl,rfl⟩
  | panicked | generateFailed | createFailed | checkFailed => exact afterWorkload_keeps fields app _ _ _

/-- The kinds of the router: its deployment and its permissions. -/
def routerKind : Kind → Prop
  | .deployment | .role | .serviceAccount | .roleBinding => True
  | _ => False

/-- The kinds of the router's permissions. -/
def rbacKind : Kind → Prop
  | .role | .serviceAccount | .roleBinding => True
  | _ => False

theorem rbacKind_router {k : Kind} (kind : rbacKind k) : routerKind k := by
  cases k <;> first | exact kind | cases kind

theorem createRBAC_within {P : KubeOp → Prop} {k : Kind} {object : Object k} {text : String} (create : P (.create k object)) :
    Issues P (fun _ => True) (createRBAC k object text) := by
  simp only [createRBAC,issue_bind,within_call]
  refine ⟨create,fun r _ => ?_⟩
  rcases r with (_ | _ | _) | _ <;> trivial

/-- The router's permissions are looked up and created. -/
theorem generateRouterDeployment_within {P : KubeOp → Prop} (get : ∀ k ns name, rbacKind k → P (.get k ns name))
    (create : ∀ k o, rbacKind k → P (.create k o)) :
    Issues P (fun _ => True) (generateRouterDeployment p app) := by
  unfold generateRouterDeployment
  split
  · have rbac : Issues P (fun _ => True) (applyRouterRBAC app) := by
      simp only [applyRouterRBAC,issue_bind,within_call]
      refine ⟨get _ _ _ trivial,fun r _ => ?_⟩
      rcases r with (_ | _ | _) | _
      · refine within_bind (createRBAC_within (create .role _ trivial)) (fun made _ => ?_)
        cases made with
        | error => trivial
        | ok =>
          refine within_bind (createRBAC_within (create .serviceAccount _ trivial)) (fun made _ => ?_)
          cases made with
          | error => trivial
          | ok =>
            refine within_bind (createRBAC_within (create .roleBinding _ trivial)) (fun made _ => ?_)
            cases made <;> trivial
      all_goals trivial
    refine within_bind rbac (fun made _ => ?_)
    cases made <;> trivial
  · trivial

theorem startRouter_within :
    Issues (fun op => routerKind (kindOf op)) (Keeps fields app) (startRouter p app) := by
  refine within_bind (ensure_within trivial ?_) (fun deploy _ => afterWorkload_keeps fields app _ _ _)
  exact within_bind (generateRouterDeployment_within p app (fun _ _ _ is => rbacKind_router is)
    (fun _ _ is => rbacKind_router is))
    (fun _ _ => fun _ _ => trivial)

theorem startService_within :
    Issues (fun op => kindOf op = .service) (Keeps fields app) (startService app) := by
  refine within_bind (ensure_within rfl (fun _ _ => rfl)) (fun service _ => ?_)
  cases service with
  | createFailed => exact ⟨.kept,rfl⟩
  | present | panicked | generateFailed | checkFailed => exact ⟨rfl,rfl⟩

/-- The kinds of the children of a disaggregated application and of their permissions. -/
def childKind (k : Kind) : Prop := k = .lws ∨ routerKind k ∨ k = .service

section Stages
variable {p app model} {answers : (op : KubeOp) → KubeReply op → Prop} {P : KubeOp → Prop}
  {Q : Flow ArksDisaggregatedApplication → Prop}

/-- The stages of `start`: each goes on from where the last one led. -/
theorem start_stages (begun : Q (.next (sized app)))
    (workload : ∀ role app, Q (.next app) → Within answers P Q (startWorkload p role app model))
    (router : ∀ app, Q (.next app) → Within answers P Q (startRouter p app))
    (service : ∀ app, Q (.next app) → Within answers P Q (startService app)) : Within answers P Q (start p app model) := by
  refine within_bind (workload .prefill _ begun) (fun flow prefill => ?_)
  cases flow with
  | stop => exact prefill
  | next app₁ =>
    refine within_bind (workload .decode app₁ prefill) (fun flow decode => ?_)
    cases flow with
    | stop => exact decode
    | next app₂ =>
      refine within_bind (router app₂ decode) (fun flow routed => ?_)
      cases flow with
      | stop => exact routed
      | next app₃ => exact service app₃ routed

/-- The stages of `sync`. -/
theorem sync_stages {R : ArksDisaggregatedApplication × Outcome → Prop} (begun : Q (.next app))
    (ended : ∀ app outcome, Q (.stop app outcome) → R (app,outcome))
    (workload : ∀ role app, Q (.next app) → Within answers P Q (syncWorkload role app))
    (router : ∀ app, Q (.next app) → Within answers P R (syncRouter app)) : Within answers P R (sync app) := by
  refine within_bind (workload .prefill _ begun) (fun flow prefill => ?_)
  cases flow with
  | stop => exact ended _ _ prefill
  | next app₁ =>
    refine within_bind (workload .decode app₁ prefill) (fun flow decode => ?_)
    cases flow with
    | stop => exact ended _ _ decode
    | next app₂ => exact router app₂ decode

end Stages

theorem start_within :
    Issues (fun op => childKind (kindOf op)) (Keeps fields app) (start p app model) :=
  start_stages (sized_kept app)
    (fun role app kept => within_mono (startWorkload_within p app model role) (fun _ is => .inl is) (fun _ => keeps_next kept))
    (fun app kept => within_mono (startRouter_within p app) (fun _ is => .inr (.inl is)) (fun _ => keeps_next kept))
    (fun app kept => within_mono (startService_within app) (fun _ is => .inr (.inr is)) (fun _ => keeps_next kept))

/-- The runs of `syncWorkload`. -/
inductive WorkloadSynced : List KubeCall → Flow ArksDisaggregatedApplication → Prop
  | gone (message : String) : WorkloadSynced [⟨.get .lws app.namespace_ (lwsName role app),.error (.notFound message)⟩]
      (.next (missing app (role.text ++ " LWS")))
  | unread {e : ApiErr} (text : String) : (∀ message, e ≠ .notFound message) →
      WorkloadSynced [⟨.get .lws app.namespace_ (lwsName role app),.error e⟩] (.stop app (.failed text))
  | settled {lws : LeaderWorkerSet} : lws.replicas = workloadReplicas (role.workload app) →
      WorkloadSynced [⟨.get .lws app.namespace_ (lwsName role app),.ok lws⟩] (.next (Role.record lws.status app role))
  | adjusted {lws : LeaderWorkerSet}
      (written : KubeReply (.update .lws { lws with replicas := workloadReplicas (role.workload app) })) :
      lws.replicas ≠ workloadReplicas (role.workload app) →
      WorkloadSynced [⟨.get .lws app.namespace_ (lwsName role app),.ok lws⟩,
        ⟨.update .lws { lws with replicas := workloadReplicas (role.workload app) },written⟩]
        (.next (Role.record lws.status app role))

variable {app role} in
theorem syncWorkload_runs {calls : List KubeCall} {flow : Flow ArksDisaggregatedApplication}
    (run : Runs (syncWorkload role app) calls flow) : WorkloadSynced app role calls flow := by
  simp only [syncWorkload,issue_bind,runs_call] at run
  obtain ⟨read,rest,rfl,later⟩ := run
  rcases read with (message | message | message) | lws
  · obtain ⟨rfl,rfl⟩ := runs_ret.mp later
    exact .gone message
  · obtain ⟨rfl,rfl⟩ := runs_ret.mp later
    exact .unread _ (by simp)
  · obtain ⟨rfl,rfl⟩ := runs_ret.mp later
    exact .unread _ (by simp)
  · have same : role.workload (Role.record lws.status app role) = role.workload app := by cases role <;> rfl
    simp only [same] at later
    split at later
    · rename_i differs
      obtain ⟨written,rest,rfl,last⟩ := runs_call.mp later
      obtain ⟨rfl,rfl⟩ := runs_ret.mp last
      cases role with
      | prefill => exact @WorkloadSynced.adjusted app .prefill lws written (Ne.symm differs)
      | decode => exact @WorkloadSynced.adjusted app .decode lws written (Ne.symm differs)
    · rename_i settled
      obtain ⟨rfl,rfl⟩ := runs_ret.mp later
      exact .settled (not_not.mp settled).symm

/-- The application with the state of its router. -/
def recordRouter (status : ArksComponentStatus) : ArksDisaggregatedApplication :=
  { app with status := { app.status with router := status } }

/-- The runs of `syncRouter`. -/
inductive RouterSynced : List KubeCall → ArksDisaggregatedApplication × Outcome → Prop
  | gone (message : String) : RouterSynced [⟨.get .deployment app.namespace_ (routerName app),.error (.notFound message)⟩]
      (missing app "router deployment",.done .empty)
  | unread {e : ApiErr} (text : String) : (∀ message, e ≠ .notFound message) →
      RouterSynced [⟨.get .deployment app.namespace_ (routerName app),.error e⟩] (app,.failed text)
  | settled {deployment : Deployment} : (∀ n ∈ deployment.replicas, n = enforcedRouterReplicas app) →
      RouterSynced [⟨.get .deployment app.namespace_ (routerName app),.ok deployment⟩]
        (recordRouter app deployment.status,.done .empty)
  | adjusted {deployment : Deployment} (stored : Deployment) {n : Int} : deployment.replicas = some n →
      n ≠ enforcedRouterReplicas app →
      RouterSynced [⟨.get .deployment app.namespace_ (routerName app),.ok deployment⟩,
        ⟨.update .deployment { deployment with replicas := some (enforcedRouterReplicas app) },.ok stored⟩]
        (recordRouter app deployment.status,.done .empty)
  | unadjusted {deployment : Deployment} (e : ApiErr) (text : String) {n : Int} : deployment.replicas = some n →
      n ≠ enforcedRouterReplicas app →
      RouterSynced [⟨.get .deployment app.namespace_ (routerName app),.ok deployment⟩,
        ⟨.update .deployment { deployment with replicas := some (enforcedRouterReplicas app) },.error e⟩]
        (recordRouter app deployment.status,.failed text)

variable {app} in
theorem syncRouter_runs {calls : List KubeCall} {result : ArksDisaggregatedApplication × Outcome}
    (run : Runs (syncRouter app) calls result) : RouterSynced app calls result := by
  simp only [syncRouter,issue_bind,runs_call] at run
  obtain ⟨read,rest,rfl,later⟩ := run
  rcases read with (message | message | message) | deployment
  · obtain ⟨rfl,rfl⟩ := runs_ret.mp later
    exact .gone message
  · obtain ⟨rfl,rfl⟩ := runs_ret.mp later
    exact .unread _ (by simp)
  · obtain ⟨rfl,rfl⟩ := runs_ret.mp later
    exact .unread _ (by simp)
  · simp only at later
    split at later
    · rename_i differs
      obtain ⟨n,same⟩ := Option.isSome_iff_exists.mp differs.1
      have other : n ≠ enforcedRouterReplicas app := fun is => differs.2 (by rw [same,is]; rfl)
      obtain ⟨written,rest,rfl,last⟩ := runs_call.mp later
      cases written with
      | error e =>
        obtain ⟨rfl,rfl⟩ := runs_ret.mp last
        exact .unadjusted e _ same other
      | ok stored =>
        obtain ⟨rfl,rfl⟩ := runs_ret.mp last
        exact .adjusted stored same other
    · rename_i settled
      obtain ⟨rfl,rfl⟩ := runs_ret.mp later
      refine .settled (fun n is => ?_)
      by_contra other
      exact settled ⟨by rw [Option.mem_def.mp is]; rfl,
        by rw [Option.mem_def.mp is]; exact fun same => other (Option.some.inj same)⟩

/-- The runs of `sync`: the roles one after the other, then the router. -/
theorem sync_runs {app : ArksDisaggregatedApplication} {calls : List KubeCall} {result : ArksDisaggregatedApplication × Outcome}
    (run : Runs (sync app) calls result) :
    (∃ app₁, WorkloadSynced app .prefill calls (.stop app₁ result.2) ∧ result.1 = app₁) ∨
      (∃ app₁ app₂ first second, calls = first ++ second ∧ WorkloadSynced app .prefill first (.next app₁) ∧
        WorkloadSynced app₁ .decode second (.stop app₂ result.2) ∧ result.1 = app₂) ∨
      ∃ app₁ app₂ first second last, calls = first ++ (second ++ last) ∧ WorkloadSynced app .prefill first (.next app₁) ∧
        WorkloadSynced app₁ .decode second (.next app₂) ∧ RouterSynced app₂ last result := by
  obtain ⟨prefill,first,rest,rfl,run₁,later⟩ := runs_bind.mp run
  cases prefill with
  | stop app₁ outcome =>
    obtain ⟨rfl,rfl⟩ := runs_ret.mp later
    exact .inl ⟨app₁,by simpa using syncWorkload_runs run₁,rfl⟩
  | next app₁ =>
    obtain ⟨decode,second,rest,rfl,run₂,later⟩ := runs_bind.mp later
    cases decode with
    | stop app₂ outcome =>
      obtain ⟨rfl,rfl⟩ := runs_ret.mp later
      exact .inr (.inl ⟨app₁,app₂,first,second,by simp,syncWorkload_runs run₁,syncWorkload_runs run₂,rfl⟩)
    | next app₂ =>
      exact .inr (.inr ⟨app₁,app₂,first,second,rest,rfl,syncWorkload_runs run₁,syncWorkload_runs run₂,syncRouter_runs later⟩)

end Disaggregated

/-! ### What the reconcilers call -/

theorem syncApplication_within (app : ArksApplication) :
    Issues (fun op => kindOf op = .lws) (fun _ => True) (syncApplication app) := by
  simp only [syncApplication,issue_bind,within_call]
  refine ⟨rfl,fun r _ => ?_⟩
  rcases r with (_ | _ | _) | _ <;> trivial

section Disaggregated
open Applications.Disaggregated

theorem syncWorkload_within (role : Workloads.Disaggregated.Role) (app : ArksDisaggregatedApplication) :
    Issues (fun op => kindOf op = .lws) (fun _ => True) (syncWorkload role app) := by
  simp only [syncWorkload,issue_bind,within_call]
  refine ⟨rfl,fun r _ => ?_⟩
  rcases r with (_ | _ | _) | _ <;> try trivial
  simp only
  split
  · exact ⟨rfl,fun _ _ => trivial⟩
  · trivial

theorem syncRouter_within (app : ArksDisaggregatedApplication) :
    Issues (fun op => kindOf op = .deployment) (fun _ => True) (syncRouter app) := by
  simp only [syncRouter,issue_bind,within_call]
  refine ⟨rfl,fun r _ => ?_⟩
  rcases r with (_ | _ | _) | _ <;> try trivial
  simp only
  split
  · refine ⟨rfl,fun r _ => ?_⟩
    cases r <;> trivial
  · trivial

private theorem sync_within (app : ArksDisaggregatedApplication) :
    Issues (fun op => childKind (kindOf op)) (fun _ => True) (sync app) :=
  sync_stages (Q := fun _ => True) trivial (fun _ _ _ => trivial)
    (fun role app _ => within_mono (syncWorkload_within role app) (fun _ is => .inl is) (fun _ _ => trivial))
    (fun app _ => within_mono (syncRouter_within app) (fun op is => .inr (.inl (by rw [is]; trivial))) (fun _ _ => trivial))

end Disaggregated

/-- A reconciler that touches its own object only in the skeleton: seeing to the
    children, copying their state and removing them are about other kinds. -/
structure Tame {k : Kind} (r : Reconciler k) : Prop where
  start : ∀ app model, Issues (fun op => childKind (kindOf op)) (Keeps r.toFields app) (r.start app model)
  sync : ∀ app, Issues (fun op => childKind (kindOf op)) (fun _ => True) (r.sync app)
  children : ∀ app, ∀ child ∈ r.children app, childKind child.1
  own : ¬ childKind k
  model : k ≠ .model

theorem tame_plain (p : Platform) : Tame (arksApplicationReconciler p) where
  start app model := within_mono (startApplication_within p app model) (fun _ is => is.imp id .inr) (fun _ keeps => keeps)
  sync app := within_mono (syncApplication_within app) (fun _ is => .inl is) (fun _ _ => trivial)
  children app := by simp [arksApplicationReconciler,childKind]
  own := by simp [childKind,routerKind]
  model := by simp

theorem tame_disaggregated (p : Platform) : Tame (arksDisaggregatedApplicationReconciler p) where
  start app model := start_within p app model
  sync app := sync_within app
  children app := by simp [arksDisaggregatedApplicationReconciler,childKind,routerKind]
  own := by simp [childKind,routerKind]
  model := by simp

theorem removeChildren_within {P : KubeOp → Prop} (namespace_ : String) : ∀ children : List (Kind × String × String),
    (∀ child ∈ children, P (.delete child.1 namespace_ child.2.1)) →
    Issues P (fun _ => True) (Reconciler.removeChildren namespace_ children)
  | [],_ => trivial
  | (k,name,what) :: children,each => by
    have rest := removeChildren_within namespace_ children (fun child is => each child (by simp [is]))
    refine ⟨each (k,name,what) (by simp),fun removed _ => ?_⟩
    rcases removed with (_ | _ | _) | _
    · exact rest
    · trivial
    · trivial
    · exact rest

theorem remove_within {k : Kind} {r : Reconciler k} {app : Object k} {P : KubeOp → Prop}
    (children : ∀ child ∈ r.children app, P (.delete child.1 (r.meta_ app).namespace_ child.2.1))
    (update : P (.update k (r.withMeta app (removeFinalizer (r.meta_ app) arksApplicationControllerFinalizer)))) :
    Issues P (fun _ => True) (r.remove app) := by
  unfold Reconciler.remove
  split
  · trivial
  refine within_bind (removeChildren_within _ _ children) (fun removed _ => ?_)
  cases removed with
  | error => trivial
  | ok => exact ⟨update,fun reply _ => by cases reply <;> trivial⟩

section Tame
variable {k : Kind} {r : Reconciler k} (tame : Tame r)
include tame

variable {app : Object k} {calls : List KubeCall}

theorem announce_kinds {model : ArksModel} {flow : Flow (Object k)}
    (run : Runs (r.announce app model) calls flow) : ∀ call ∈ calls, childKind (kindOf call.1) := by
  cases announce_runs r run with
  | already => simp
  | stopped _ starts => exact (runs_within (tame.start _ model) starts).1
  | started _ starts => exact (runs_within (tame.start _ model) starts).1

theorem announce_meta {model : ArksModel} {flow : Flow (Object k)}
    (run : Runs (r.announce app model) calls flow) : r.meta_ flow.object = r.meta_ app := by
  cases announce_runs r run with
  | already => rfl
  | stopped _ starts => exact (runs_within (tame.start _ model) starts).2.2.trans (r.meta_revise ..)
  | started _ starts =>
    have kept := (runs_within (tame.start _ model) starts).2.2.trans (r.meta_revise ..)
    simpa [Flow.object] using kept

/-- What `serve` calls: the model and the children. -/
theorem served_kinds (served : Served r app calls result) :
    ∀ call ∈ calls, kindOf call.1 = .model ∨ childKind (kindOf call.1) := by
  cases served with
  | missing | unread | waiting => simp [kindOf]
  | stopped _ announces =>
    intro call is
    rcases List.mem_cons.mp is with rfl | is
    · exact .inl rfl
    · exact .inr (announce_kinds tame announces call is)
  | synced _ announces synced =>
    intro call is
    rcases List.mem_cons.mp is with rfl | is
    · exact .inl rfl
    · rcases List.mem_append.mp is with is | is
      · exact .inr (announce_kinds tame announces call is)
      · exact .inr ((runs_within (tame.sync _) synced).1 call is)

/-- What `reconcile` calls: updates of its own object, the model and the children. -/
theorem reconcile_calls (run : Runs (r.reconcile app) calls result) :
    ∀ call ∈ calls, (∃ o, call.1 = .update k o) ∨ kindOf call.1 = .model ∨ childKind (kindOf call.1) := by
  cases reconcile_runs r run with
  | deleting | failed | refused | unfinalized | finalized => simp
  | served _ _ _ served => exact fun call is => .inr (served_kinds tame served call is)

/-- What `remove` calls: the children, and one update of its own object. -/
theorem remove_calls (run : Runs (r.remove app) calls outcome) :
    ∀ call ∈ calls, (∃ o, call.1 = .update k o) ∨ childKind (kindOf call.1) :=
  (runs_within (remove_within (P := fun op => (∃ o, op = .update k o) ∨ childKind (kindOf op))
    (fun child is => .inr (tame.children app child is)) (.inl ⟨_,rfl⟩)) run).1

end Tame

/-! ### What a pass calls, from what it calls in its stages -/

section Stages
variable {k : Kind} {answers : (op : KubeOp) → KubeReply op → Prop} {P : KubeOp → Prop}

/-- What a reconciler calls in its stages when it goes on with objects in `A`, and leaves such a status as is in `B`. -/
structure Stays (r : Reconciler k) (answers : (op : KubeOp) → KubeReply op → Prop) (P : KubeOp → Prop) (A B : Object k → Prop) :
    Prop where
  rests : ∀ app, A app → B app
  revised : ∀ app f, A app → A (r.revise app f)
  defaulted : ∀ app, A app → A (r.defaulted app)
  added : ∀ app finalizer, A app → A (r.withMeta app (addFinalizer (r.meta_ app) finalizer))
  removed : ∀ app finalizer, A app → A (r.withMeta app (removeFinalizer (r.meta_ app) finalizer))
  read : ∀ app, A app → P (.get .model (r.meta_ app).namespace_ (r.modelName app))
  update : ∀ app, A app → P (.update k app)
  updated : ∀ app stored, A app → answers (.update k app) (.ok stored) → B stored
  status : ∀ app, B app → P (.updateStatus k app)
  start : ∀ app model, A app → Within answers P (fun flow => A flow.object) (r.start app model)
  sync : ∀ app, A app → Within answers P (fun result => B result.1) (r.sync app)
  children : ∀ app, A app → ∀ child ∈ r.children app, P (.delete child.1 (r.meta_ app).namespace_ child.2.1)

variable {r : Reconciler k} {A B : Object k → Prop} {app : Object k} {model : ArksModel}

private theorem waitModel_stays (stays : Stays r answers P A B) (goes : A app) : A (r.waitModel app model).object := by
  cases waits : r.waitModel app model with
  | stop app' outcome =>
    dsimp only [Flow.object]
    obtain ⟨_,⟨_,_,rfl⟩ | ⟨_,_,_,rfl⟩⟩ := waitModel_stop r waits <;> exact stays.revised app _ goes
  | next app' =>
    dsimp only [Flow.object]
    rcases waitModel_next r waits with ⟨_,rfl⟩ | ⟨_,_,rfl⟩
    · exact goes
    · exact stays.revised app _ goes

private theorem precheck_stays (stays : Stays r answers P A B) (goes : A app) : A (r.precheck app).object := by
  cases checks : r.precheck app with
  | stop app' outcome =>
    dsimp only [Flow.object]
    obtain ⟨_,_,_,_,rfl⟩ := precheck_stop r checks
    exact stays.revised app _ goes
  | next app' =>
    dsimp only [Flow.object]
    rcases precheck_next r checks with ⟨_,rfl⟩ | ⟨_,_,rfl⟩
    · exact goes
    · exact stays.revised app _ goes

private theorem announce_stays (stays : Stays r answers P A B) (goes : A app) :
    Within answers P (fun flow => A flow.object) (r.announce app model) := by
  unfold Reconciler.announce
  split
  · exact goes
  · refine within_bind (stays.start _ model (stays.revised app _ goes)) (fun flow kept => ?_)
    cases flow with
    | stop => exact kept
    | next app' =>
      simp only [pure_eq,within_ret,Flow.object]
      exact stays.revised app' _ kept

private theorem serve_stays (stays : Stays r answers P A B) (goes : A app) :
    Within answers P (fun result => B result.1) (r.serve app) := by
  simp only [Reconciler.serve,issue_bind,within_call]
  refine ⟨stays.read app goes,fun read _ => ?_⟩
  rcases read with (_ | _ | _) | model
  · simp only [pure_eq,within_ret]
    exact stays.rests _ (stays.revised app _ goes)
  · exact stays.rests app goes
  · exact stays.rests app goes
  have kept : A (r.waitModel app model).object := waitModel_stays stays goes
  simp only
  cases waits : r.waitModel app model with
  | stop app' => exact stays.rests app' (by rwa [waits] at kept)
  | next app₁ =>
    refine within_bind (announce_stays stays (by rwa [waits] at kept)) (fun flow kept => ?_)
    cases flow with
    | stop app₂ => exact stays.rests app₂ kept
    | next app₂ => exact stays.sync app₂ kept

theorem reconcile_stays (stays : Stays r answers P A B) (goes : A app) :
    Within answers P (fun result => P (.updateStatus k result.1)) (r.reconcile app) := by
  have unchanged : P (.updateStatus k app) := stays.status app (stays.rests app goes)
  have initialized : A (r.initialized app) := stays.defaulted _ (stays.revised app _ goes)
  unfold Reconciler.reconcile
  split
  · exact unchanged
  split
  · exact unchanged
  split
  · have sent : A (finalizing r app) := by
      have added := stays.added _ arksApplicationControllerFinalizer initialized
      rwa [Reconciler.initialized,r.meta_defaulted,r.meta_revise] at added
    refine ⟨stays.update _ sent,fun reply told => ?_⟩
    cases reply with
    | error => exact stays.status _ (stays.rests _ sent)
    | ok stored => exact stays.status stored (stays.updated _ stored sent told)
  · have kept := precheck_stays stays initialized
    cases checks : r.precheck (r.initialized app) with
    | stop app' => exact stays.status app' (stays.rests app' (by rwa [checks] at kept))
    | next app' =>
      exact within_mono (serve_stays stays (by rwa [checks] at kept)) (fun _ is => is) (fun result is => stays.status _ is)

theorem remove_stays (stays : Stays r answers P A B) (goes : A app) : Within answers P (fun _ => True) (r.remove app) :=
  within_any (remove_within (stays.children app goes) (stays.update _ (stays.removed app _ goes)))

/-- What the pass over a request calls. -/
theorem request_stays (stays : Stays r answers P A B) {namespace_ name : String} (get : P (.get k namespace_ name))
    (read : ∀ app, answers (.get k namespace_ name) (.ok app) → A app) :
    Within answers P (fun _ => True) (r.reconcileRequest namespace_ name) :=
  request_within get (fun app told => remove_stays stays (read app told)) (fun app told => reconcile_stays stays (read app told))

end Stages

/-! ### `Reconcile` -/

section Request
variable {k : Kind} {meta_ : Object k → ObjectMeta} {subject : String} {finish : Result → Result}
  {remove : Object k → KubeAction Outcome} {reconcile : Object k → KubeAction (Object k × Outcome)} {namespace_ name : String}

variable (meta_ finish remove reconcile namespace_ name) in
/-- The runs of `Reconcile`. -/
inductive Requested : List KubeCall → Outcome → Prop
  | gone (message : String) : Requested [⟨.get k namespace_ name,.error (.notFound message)⟩] (.done .empty)
  | unread {e : ApiErr} : (∀ message, e ≠ .notFound message) →
      Requested [⟨.get k namespace_ name,.error e⟩] (.failed e.text)
  | removed {object : Object k} {calls : List KubeCall} {outcome : Outcome} : (meta_ object).deletionTimestamp.isSome →
      Runs (remove object) calls outcome → Requested (⟨.get k namespace_ name,.ok object⟩ :: calls) outcome
  | panicked {object after : Object k} {calls : List KubeCall} : (meta_ object).deletionTimestamp = none →
      Runs (reconcile object) calls (after,.panicked) → Requested (⟨.get k namespace_ name,.ok object⟩ :: calls) .panicked
  | unwritten {object after : Object k} {calls : List KubeCall} {outcome : Outcome} (e : ApiErr) (text : String) :
      (meta_ object).deletionTimestamp = none → Runs (reconcile object) calls (after,outcome) → outcome ≠ .panicked →
      Requested (⟨.get k namespace_ name,.ok object⟩ :: (calls ++ [⟨.updateStatus k after,.error e⟩])) (.failed text)
  | failed {object after : Object k} {calls : List KubeCall} {text : String} : (meta_ object).deletionTimestamp = none →
      Runs (reconcile object) calls (after,.failed text) →
      Requested (⟨.get k namespace_ name,.ok object⟩ :: (calls ++ [⟨.updateStatus k after,.ok ()⟩])) (.failed text)
  | done {object after : Object k} {calls : List KubeCall} {result : Result} : (meta_ object).deletionTimestamp = none →
      Runs (reconcile object) calls (after,.done result) →
      Requested (⟨.get k namespace_ name,.ok object⟩ :: (calls ++ [⟨.updateStatus k after,.ok ()⟩])) (.done (finish result))

theorem request_runs {calls : List KubeCall}
    (run : Runs (Controllers.reconcileRequest k meta_ subject finish remove reconcile namespace_ name) calls outcome) :
    Requested meta_ finish remove reconcile namespace_ name calls outcome := by
  simp only [Controllers.reconcileRequest,issue_bind,runs_call] at run
  obtain ⟨read,calls,rfl,run⟩ := run
  rcases read with (message | message | message) | object
  · obtain ⟨rfl,rfl⟩ := runs_ret.mp run
    exact .gone message
  · obtain ⟨rfl,rfl⟩ := runs_ret.mp run
    exact .unread (by simp)
  · obtain ⟨rfl,rfl⟩ := runs_ret.mp run
    exact .unread (by simp)
  · simp only at run
    split at run
    · exact .removed ‹_› run
    · rename_i present
      have alive : (meta_ object).deletionTimestamp = none := by simpa using present
      obtain ⟨⟨after,ended⟩,first,rest,rfl,reconciled,later⟩ := runs_bind.mp run
      cases ended with
      | panicked =>
        obtain ⟨rfl,rfl⟩ := runs_ret.mp later
        simpa using .panicked alive reconciled
      | done result =>
        simp only [runs_call] at later
        obtain ⟨written,last,rfl,later⟩ := later
        cases written with
        | error e =>
          obtain ⟨rfl,rfl⟩ := runs_ret.mp later
          exact .unwritten e _ alive reconciled (by simp)
        | ok _ =>
          obtain ⟨rfl,rfl⟩ := runs_ret.mp later
          exact .done alive reconciled
      | failed text =>
        simp only [runs_call] at later
        obtain ⟨written,last,rfl,later⟩ := later
        cases written with
        | error e =>
          obtain ⟨rfl,rfl⟩ := runs_ret.mp later
          exact .unwritten e _ alive reconciled (by simp)
        | ok _ =>
          obtain ⟨rfl,rfl⟩ := runs_ret.mp later
          exact .failed alive reconciled

/-- What follows the read of an object: its removal, or its reconciliation with a write of the status behind it. -/
theorem request_inner {object : Object k} {calls : List KubeCall}
    (run : Runs (Controllers.reconcileRequest k meta_ subject finish remove reconcile namespace_ name)
      (⟨.get k namespace_ name,.ok object⟩ :: calls) outcome) :
    ((meta_ object).deletionTimestamp.isSome ∧ Runs (remove object) calls outcome) ∨
      ∃ after ended inner behind, calls = inner ++ behind ∧ Runs (reconcile object) inner (after,ended) ∧
        (behind = [] ∨ ∃ reply, behind = [⟨.updateStatus k after,reply⟩]) := by
  generalize whole : (⟨.get k namespace_ name,.ok object⟩ :: calls : List KubeCall) = list at run
  cases request_runs run with
  | gone | unread => cases whole
  | removed deleted removed =>
    obtain ⟨same,rfl⟩ := List.cons.inj whole
    cases same
    exact .inl ⟨deleted,removed⟩
  | panicked _ reconciled =>
    obtain ⟨same,rfl⟩ := List.cons.inj whole
    cases same
    exact .inr ⟨_,_,_,[],by simp,reconciled,.inl rfl⟩
  | unwritten _ _ _ reconciled | failed _ reconciled | done _ reconciled =>
    obtain ⟨same,rfl⟩ := List.cons.inj whole
    cases same
    exact .inr ⟨_,_,_,_,rfl,reconciled,.inr ⟨_,rfl⟩⟩

end Request

/-! ### Samples -/

/-- The metadata of an application `llm` that carries the finalizer. -/
def llmMeta : ObjectMeta :=
  ⟨.teamA,.llm,"1",1,[arksApplicationControllerFinalizer],none⟩

/-- A status with the given phase and conditions. -/
def progressOf (phase : ArksApplicationPhase) (precheck loaded ready : ConditionStatus) : ApplicationProgress :=
  ⟨some phase,[⟨.precheck,precheck,"",""⟩,⟨.loaded,loaded,"",""⟩,⟨.ready,ready,"",""⟩]⟩

/-- An application `llm` of either kind that serves the model `chat`. -/
def llmPlain (progress : ApplicationProgress) : ArksApplication where
  toObjectMeta := llmMeta
  spec := { (default : ArksApplicationSpec) with replicas := 1,runtime := "vllm",model := "chat" }
  status := { (default : ArksApplicationStatus) with toApplicationProgress := progress }

@[inherit_doc llmPlain]
def llmDisaggregated (progress : ApplicationProgress) : ArksDisaggregatedApplication where
  toObjectMeta := llmMeta
  spec := { (default : ArksDisaggregatedApplicationSpec) with runtime := "sglang",model := "chat" }
  status := { (default : ArksDisaggregatedApplicationStatus) with toApplicationProgress := progress }

/-- The model `chat` in a phase. -/
def chatModel (phase : ArksModelPhase) : ArksModel where
  toObjectMeta := { llmMeta with name := .chat,finalizers := [] }
  spec := default
  status := ⟨some phase,[]⟩

/-- The model `chat` on the claim `chat`. -/
def claimedModel : ArksModel :=
  { chatModel .ready with spec := { (chatModel .ready).spec with storage := some ⟨some ⟨"chat",""⟩,""⟩ } }

def lwsNamed (name : String) (replicas : Int) : LeaderWorkerSet :=
  ⟨llmMeta.namespace_,name,[],replicas,1,default,default,default⟩

def deploymentNamed (name : String) (replicas : Option Int) : Deployment :=
  ⟨llmMeta.namespace_,name,[],replicas,[],default,default⟩

end Arks.Passes
