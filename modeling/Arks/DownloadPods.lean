import Arks.Models

/-!
The volume of the pod that downloads a model. The reconciler keeps the name of the
claim in a variable that it only sets in the pass that sees to the storage. A pod
that is created in that pass mounts the model's claim; one that is created in a later
pass mounts a claim without a name.
-/
namespace Arks.DownloadPods
open Programs Programs.Prog Api Kube Controllers Workloads Passes Models

/-! ### The pods of a pass -/

/-- The container of the pod mounts the claim. -/
def Mounts (pod : Pod) (claimName : String) : Prop :=
  ∃ volume ∈ pod.template.volumes, volume.source = .persistentVolumeClaim claimName ∧
    ∃ mount ∈ pod.template.volumeMounts, mount.name = volume.name

theorem workerPod_mounts {p : Platform} {model : ArksModel} {hub : ArksModelSourceHuggingFace} {path claimName claim : String} :
    Mounts (workerPod p model hub path claimName) claim ↔ claimName = claim := by
  simp [Mounts,workerPod]

/-- The storage of the model is a claim. -/
def HasClaim (model : ArksModel) (pvc : ArksModelStoragePVC) : Prop :=
  ∃ storage, model.spec.storage = some storage ∧ storage.pvc = some pvc

theorem storagePvcName_ne (model : ArksModel) (pvc : ArksModelStoragePVC) : storagePvcName model pvc ≠ "" := by
  unfold storagePvcName
  split
  · exact model.name.nonempty
  · assumption

variable {reply : Except ApiErr Unit} {result : ArksModel × Outcome}

section Pass
variable {p : Platform} {model : ArksModel} {pvc : ArksModelStoragePVC} {calls : List KubeCall}

variable {claimName : String} {flow : Flow ArksModel}

/-- The name of the claim is known only to the pass that sees to it. -/
theorem prepared_next {model₁ : ArksModel} (claim : HasClaim model pvc)
    (prepared : Prepared model calls (.next (model₁,claimName))) :
    (checkModelCondition model .storageCreated = true ∧ claimName = "") ∨
      (checkModelCondition model .storageCreated = false ∧ claimName = storagePvcName model pvc ∧
        InPlace .pvc model.namespace_ (storagePvcName model pvc) calls) := by
  obtain ⟨storage,stored,given⟩ := claim
  generalize goes : (Flow.next (model₁,claimName) : Flow (ArksModel × String)) = flow at prepared
  cases prepared with
  | unspecified | claimless => cases goes
  | already _ _ created =>
    cases goes
    exact .inl ⟨created,rfl⟩
  | ensured stored' given' uncreated ladder =>
    cases stored.symm.trans stored'
    cases given.symm.trans given'
    rcases ladder_given ladder rfl with ⟨b,rfl,placed⟩ | ⟨e,_,rfl,_⟩ | ⟨e,rfl,_⟩
    · cases goes
      exact .inr ⟨uncreated,rfl,placed⟩
    · cases goes
    · cases goes

theorem prepared_kinds {flow : Flow (ArksModel × String)} (prepared : Prepared model calls flow) :
    ∀ call ∈ calls, kindOf call.1 = .pvc := by
  cases prepared with
  | unspecified | claimless | already => simp
  | ensured _ _ _ ladder =>
    rcases ladder with _ | _ | ⟨_,generated⟩ | ⟨_,generated⟩ | ⟨_,generated⟩ | ⟨_,_,generated⟩ | ⟨_,generated,_⟩
    · simp [kindOf]
    · simp [kindOf]
    all_goals
      cases (runs_ret.mp generated).1
      simp [kindOf]

theorem loaded_kinds (loaded : Loaded p model claimName calls flow) : ∀ call ∈ calls, kindOf call.1 = .pod := by
  cases loaded <;> simp [kindOf]

/-- A pod is created with the name of the claim as it is known. -/
theorem loaded_pods (loaded : Loaded p model claimName calls flow) {pod : Pod}
    (is : (⟨.create .pod pod,reply⟩ : KubeCall) ∈ calls) :
    ∃ model₁ hub path, pod = workerPod p model₁ hub path claimName := by
  cases loaded with
  | already | stored | sourceless | observed | unread => simp at is
  | created =>
    rcases List.mem_cons.mp is with same | is
    · cases same
    · cases List.mem_singleton.mp is
      exact ⟨_,_,_,rfl⟩

/-- The pods that a pass creates. -/
theorem provided_pods (claim : HasClaim model pvc) (provided : Provided p model calls result)
    {pod : Pod} (is : (⟨.create .pod pod,reply⟩ : KubeCall) ∈ calls) :
    (Mounts pod (storagePvcName model pvc) ↔ checkModelCondition model .storageCreated = false) ∧
      (checkModelCondition model .storageCreated = false → InPlace .pvc model.namespace_ (storagePvcName model pvc) calls) := by
  have goes : ∀ {first rest : List KubeCall} {model₁ : ArksModel} {claimName : String} {flow : Flow ArksModel},
      Prepared model first (.next (model₁,claimName)) → Loaded p model₁ claimName rest flow →
      (⟨.create .pod pod,reply⟩ : KubeCall) ∈ first ++ rest →
      (Mounts pod (storagePvcName model pvc) ↔ checkModelCondition model .storageCreated = false) ∧
        (checkModelCondition model .storageCreated = false →
          InPlace .pvc model.namespace_ (storagePvcName model pvc) (first ++ rest)) := by
    intro first rest model₁ claimName flow prepared loaded is
    have is := (List.mem_append.mp is).resolve_left (fun wrong => by cases prepared_kinds prepared _ wrong)
    obtain ⟨_,_,_,rfl⟩ := loaded_pods loaded is
    rw [workerPod_mounts]
    rcases prepared_next claim prepared with ⟨created,rfl⟩ | ⟨uncreated,rfl,placed⟩
    · refine ⟨iff_of_false (Ne.symm (storagePvcName_ne model pvc)) (by simp [created]),fun wrong => ?_⟩
      simp [created] at wrong
    · exact ⟨iff_of_true rfl uncreated,fun _ => inPlace_mono (by simp; tauto) placed⟩
  cases provided with
  | unprepared prepared => cases prepared_kinds prepared _ is
  | stopped prepared loaded => exact goes prepared loaded is
  | announced prepared loaded => exact goes prepared loaded is

/-! The condition StorageCreated turns true only when the claim is in place. -/

theorem prepared_created {flow : Flow (ArksModel × String)} (claim : HasClaim model pvc) (prepared : Prepared model calls flow)
    (created : checkModelCondition flow.object.1 .storageCreated = true) :
    checkModelCondition model .storageCreated = true ∨ InPlace .pvc model.namespace_ (storagePvcName model pvc) calls := by
  obtain ⟨storage,stored,given⟩ := claim
  cases prepared with
  | unspecified | already => exact .inl created
  | claimless => simp [Flow.object] at created
  | ensured stored' given' uncreated ladder =>
    cases stored.symm.trans stored'
    cases given.symm.trans given'
    rcases ladder_given ladder rfl with ⟨b,rfl,placed⟩ | ⟨e,_,rfl,_⟩ | ⟨e,rfl,_⟩
    · exact .inr placed
    · simp [Flow.object,afterStorage] at created
    · exact .inl created

theorem loaded_created (loaded : Loaded p model claimName calls flow) :
    checkModelCondition flow.object .storageCreated = checkModelCondition model .storageCreated := by
  cases loaded with
  | already | sourceless | unread => rfl
  | stored => simp [Flow.object]
  | observed worker =>
    unfold observeWorker
    split <;> simp [Flow.object]
  | created _ reply =>
    unfold afterWorker
    split <;> simp [Flow.object]

private theorem announceModel_created : checkModelCondition
    (announceModel model) .storageCreated = checkModelCondition model .storageCreated := by
  unfold announceModel
  split <;> simp

private theorem provided_created (claim : HasClaim model pvc) (provided : Provided p model calls result)
    (created : checkModelCondition result.1 .storageCreated = true) :
    checkModelCondition model .storageCreated = true ∨ InPlace .pvc model.namespace_ (storagePvcName model pvc) calls := by
  cases provided with
  | unprepared prepared => exact prepared_created claim prepared created
  | stopped prepared loaded =>
    refine (prepared_created claim prepared ?_).imp id (inPlace_mono (by simp; tauto))
    exact (loaded_created loaded).symm.trans created
  | announced prepared loaded =>
    refine (prepared_created claim prepared ?_).imp id (inPlace_mono (by simp; tauto))
    exact (loaded_created loaded).symm.trans (announceModel_created.symm.trans created)

end Pass

/-! ### Runs of passes -/

/-- A pass: the model that it read, and the calls that followed. -/
structure Pass where
  model : ArksModel
  calls : List KubeCall

/-- The status that a call writes. -/
def statusOf : KubeCall → Option ArksModelStatus
  | ⟨.updateStatus .model o,.ok _⟩ => some o.status
  | _ => none

/-- The status that was written last. -/
def written (calls : List KubeCall) : Option ArksModelStatus := (calls.filterMap statusOf).getLast?

theorem written_accepted {calls : List KubeCall} {status : ArksModelStatus} (is : written calls = some status) :
    ∃ o, ⟨.updateStatus .model o,.ok ()⟩ ∈ calls ∧ o.status = status := by
  obtain ⟨call,there,wrote⟩ := List.mem_filterMap.mp (List.mem_of_getLast? is)
  unfold statusOf at wrote
  split at wrote
  · cases wrote
    exact ⟨_,there,rfl⟩
  · cases wrote

/-- What the pass after reads: the same model, with the status that was written last. -/
structure Follows (pass : Pass) (model : ArksModel) : Prop where
  spec : model.spec = pass.model.spec
  namespace_ : model.namespace_ = pass.model.namespace_
  name : model.name = pass.model.name
  status : model.status = (written pass.calls).getD pass.model.status

/-- `Reconcile` read the model and made the calls. An accepted update returns the status that was read. -/
def IsPass (p : Platform) (pass : Pass) : Prop :=
  (∃ namespace_ name outcome, Runs (reconcileRequest p namespace_ name)
    (⟨.get .model namespace_ name,.ok pass.model⟩ :: pass.calls) outcome) ∧
    ∀ sent stored : ArksModel, ⟨.update .model sent,.ok stored⟩ ∈ pass.calls → stored.status = pass.model.status

/-- The passes over a model from its creation on, the last one first, and the model after them. -/
inductive Run (p : Platform) : List Pass → ArksModel → Prop
  | new {model : ArksModel} : model.status = ⟨none,[]⟩ → Run p [] model
  | pass {history : List Pass} {pass : Pass} {model : ArksModel} : Run p history pass.model → IsPass p pass →
      Follows pass model → Run p (pass :: history) model

section Run
variable {p : Platform} {pass : Pass} {history : List Pass} {model : ArksModel} {pvc : ArksModelStoragePVC}

theorem remove_kinds {calls : List KubeCall} {outcome : Outcome} (run : Runs (remove model) calls outcome) :
    ∀ call ∈ calls, (∃ namespace_ name, call.1 = .delete .pod namespace_ name) ∨ ∃ o, call.1 = .update .model o := by
  have released : ∀ {calls outcome}, Runs (release model) calls outcome → ∀ call ∈ calls, ∃ o, call.1 = .update .model o := by
    intro calls outcome run
    obtain ⟨written,last,rfl,ended⟩ := runs_call.mp run
    cases written <;> obtain ⟨rfl,_⟩ := runs_ret.mp ended <;> simp
  unfold remove at run
  split at run
  · obtain ⟨rfl,_⟩ := runs_ret.mp run
    simp
  split at run
  · exact fun call is => .inr (released run call is)
  · obtain ⟨removed,rest,rfl,later⟩ := runs_call.mp run
    intro call is
    rcases List.mem_cons.mp is with rfl | behind
    · exact .inl ⟨_,_,rfl⟩
    · rcases removed with (_ | _ | _) | _
      · exact .inr (released later call behind)
      · rw [(runs_ret.mp later).1] at behind
        cases behind
      · rw [(runs_ret.mp later).1] at behind
        cases behind
      · exact .inr (released later call behind)

theorem provided_kinds {calls : List KubeCall} (provided : Provided p model calls result) :
    ∀ call ∈ calls, kindOf call.1 = .pvc ∨ kindOf call.1 = .pod := by
  have both : ∀ {first rest : List KubeCall}, (∀ call ∈ first, kindOf call.1 = .pvc) → (∀ call ∈ rest, kindOf call.1 = .pod) →
      ∀ call ∈ first ++ rest, kindOf call.1 = .pvc ∨ kindOf call.1 = .pod :=
    fun first rest call is => (List.mem_append.mp is).imp (first call) (rest call)
  cases provided with
  | unprepared prepared => exact fun call is => .inl (prepared_kinds prepared call is)
  | stopped prepared loaded => exact both (prepared_kinds prepared) (loaded_kinds loaded)
  | announced prepared loaded => exact both (prepared_kinds prepared) (loaded_kinds loaded)

/-- What `reconcile` calls: updates of the model, the claim and the pod. -/
theorem reconcile_kinds {calls : List KubeCall} (run : Runs (reconcile p model) calls result) :
    ∀ call ∈ calls, (∃ o, call.1 = .update .model o) ∨ kindOf call.1 = .pvc ∨ kindOf call.1 = .pod := by
  cases reconcile_runs run with
  | deleting | settled | unfinalized | finalized => simp
  | provided _ _ provided => exact fun call is => .inr (provided_kinds provided call is)

/-- The status that a pass writes is the one that `reconcile` returns. -/
theorem pass_writes (is_pass : IsPass p pass) {o : ArksModel} (written : ⟨.updateStatus .model o,.ok ()⟩ ∈ pass.calls) :
    ∃ ended inner behind, pass.calls = inner ++ behind ∧ Runs (reconcile p pass.model) inner (o,ended) := by
  obtain ⟨⟨namespace_,name,outcome,run⟩,_⟩ := is_pass
  rcases request_inner run with ⟨_,removed⟩ | ⟨after,ended,inner,behind,split,run,writes⟩
  · rcases remove_kinds removed _ written with ⟨_,_,wrong⟩ | ⟨_,wrong⟩ <;> cases wrong
  · have not_inner : (⟨.updateStatus .model o,.ok ()⟩ : KubeCall) ∉ inner := by
      intro is
      rcases reconcile_kinds run _ is with ⟨_,wrong⟩ | wrong | wrong <;> cases wrong
    have same : o = after := by
      rw [split] at written
      have is := (List.mem_append.mp written).resolve_left not_inner
      rcases writes with rfl | ⟨reply,rfl⟩
      · cases is
      · cases List.mem_singleton.mp is
        rfl
    exact ⟨ended,inner,behind,split,same ▸ run⟩

/-- The status that a pass writes says that the storage is there only if it was, or if the pass saw to it. -/
theorem pass_created (is_pass : IsPass p pass) (claim : HasClaim pass.model pvc) {o : ArksModel}
    (written : ⟨.updateStatus .model o,.ok ()⟩ ∈ pass.calls) (created : checkModelCondition o .storageCreated = true) :
    checkModelCondition pass.model .storageCreated = true ∨
      InPlace .pvc pass.model.namespace_ (storagePvcName pass.model pvc) pass.calls := by
  obtain ⟨ended,inner,behind,split,run⟩ := pass_writes is_pass written
  rw [split]
  have found : checkModelCondition pass.model .storageCreated = true ∨
      InPlace .pvc pass.model.namespace_ (storagePvcName pass.model pvc) inner := by
    generalize result : (o,ended) = result' at run
    cases reconcile_runs run with
    | deleting | settled | unfinalized => cases result; exact .inl created
    | finalized stored =>
      cases result
      have kept := is_pass.2 (finalizing pass.model) o (by simp [split])
      exact .inl (by simpa [checkModelCondition,kept] using created)
    | provided _ _ provided =>
      cases result
      have kept : HasClaim (initializeModelCondition pass.model) pvc := by simpa [HasClaim] using claim
      have found := provided_created kept provided created
      simpa [storagePvcName] using found
  exact found.imp id (inPlace_mono (by simp; tauto))

private theorem pass_pods (is_pass : IsPass p pass) (claim : HasClaim pass.model pvc) {pod : Pod}
    (is : (⟨.create .pod pod,reply⟩ : KubeCall) ∈ pass.calls) :
    (Mounts pod (storagePvcName pass.model pvc) ↔ checkModelCondition pass.model .storageCreated = false) ∧
      (checkModelCondition pass.model .storageCreated = false →
        InPlace .pvc pass.model.namespace_ (storagePvcName pass.model pvc) pass.calls) := by
  obtain ⟨⟨namespace_,name,outcome,run⟩,_⟩ := is_pass
  rcases request_inner run with ⟨_,removed⟩ | ⟨after,ended,inner,behind,split,run,writes⟩
  · rcases remove_kinds removed _ is with ⟨_,_,wrong⟩ | ⟨_,wrong⟩ <;> cases wrong
  · rw [split] at is ⊢
    have is := (List.mem_append.mp is).resolve_right (fun wrong => by
      rcases writes with rfl | ⟨reply,rfl⟩
      · cases wrong
      · cases List.mem_singleton.mp wrong)
    cases reconcile_runs run with
    | deleting | settled => cases is
    | unfinalized | finalized => cases List.mem_singleton.mp is
    | provided _ _ provided =>
      have kept : HasClaim (initializeModelCondition pass.model) pvc := by simpa [HasClaim] using claim
      obtain ⟨mounts,placed⟩ := provided_pods kept provided is
      simp only [storagePvcName,initialize_meta,check_initialized] at mounts placed ⊢
      exact ⟨mounts,fun uncreated => inPlace_mono (by simp; tauto) (placed uncreated)⟩

/-- The passes over a model are about one specification. -/
theorem run_split {later earlier : List Pass} (run : Run p (later ++ pass :: earlier) model) :
    Run p earlier pass.model ∧ IsPass p pass ∧ model.spec = pass.model.spec ∧ model.namespace_ = pass.model.namespace_ ∧
      model.name = pass.model.name := by
  induction later generalizing model with
  | nil =>
    cases run with
    | pass run is_pass follows => exact ⟨run,is_pass,follows.spec,follows.namespace_,follows.name⟩
  | cons last later ih =>
    cases run with
    | pass run _ follows =>
      obtain ⟨run,is_pass,spec,ns,name⟩ := ih run
      exact ⟨run,is_pass,follows.spec.trans spec,follows.namespace_.trans ns,follows.name.trans name⟩

/-- In every run, a storage that is said to be there was found or created by a pass. -/
theorem run_created (run : Run p history model) (claim : HasClaim model pvc)
    (created : checkModelCondition model .storageCreated = true) :
    ∃ pass ∈ history, InPlace .pvc model.namespace_ (storagePvcName model pvc) pass.calls := by
  induction run with
  | new fresh => simp [checkModelCondition,fresh,checkCondition] at created
  | @pass history pass model run is_pass follows ih =>
    have claim' : HasClaim pass.model pvc := by simpa only [HasClaim,follows.spec] using claim
    have name : storagePvcName model pvc = storagePvcName pass.model pvc := by simp only [storagePvcName,follows.name]
    have before : checkModelCondition pass.model .storageCreated = true ∨
        InPlace .pvc pass.model.namespace_ (storagePvcName pass.model pvc) pass.calls := by
      have status := follows.status
      cases writes : written pass.calls with
      | some s =>
        obtain ⟨o,accepted,rfl⟩ := written_accepted writes
        refine pass_created is_pass claim' accepted ?_
        simpa [checkModelCondition,status,writes] using created
      | none => exact .inl (by simpa [checkModelCondition,status,writes] using created)
    rw [follows.namespace_,name]
    rcases before with created | placed
    · obtain ⟨earlier,is,placed⟩ := ih claim' created
      exact ⟨earlier,by simp [is],placed⟩
    · exact ⟨pass,by simp,placed⟩

/-- Every pod that was requested mounts the claim, which this pass or an earlier one had found or created. -/
def AllMount (model : ArksModel) (pvc : ArksModelStoragePVC) (history : List Pass) : Prop :=
  ∀ later pass earlier, history = later ++ pass :: earlier → ∀ (pod : Pod) (reply : Except ApiErr Unit),
    ⟨.create .pod pod,reply⟩ ∈ pass.calls → Mounts pod (storagePvcName model pvc) ∧
      ∃ pass' ∈ pass :: earlier, InPlace .pvc model.namespace_ (storagePvcName model pvc) pass'.calls

/-- No pod was requested by a pass that began with the storage in place. -/
def AllTimely (history : List Pass) : Prop :=
  ∀ pass ∈ history, (∃ (pod : Pod) (reply : Except ApiErr Unit), ⟨.create .pod pod,reply⟩ ∈ pass.calls) →
    checkModelCondition pass.model .storageCreated = false

/-- In every run the pods mount the model's claim if and only if each is requested in the pass that sees to the storage. -/
theorem download_pods_mount_iff (run : Run p history model) (claim : HasClaim model pvc) :
    AllMount model pvc history ↔ AllTimely history := by
  have pods : ∀ {later pass earlier}, history = later ++ pass :: earlier → ∀ {pod : Pod} {reply : Except ApiErr Unit},
      ⟨.create .pod pod,reply⟩ ∈ pass.calls →
      (Mounts pod (storagePvcName model pvc) ↔ checkModelCondition pass.model .storageCreated = false) ∧
        ∃ pass' ∈ pass :: earlier, InPlace .pvc model.namespace_ (storagePvcName model pvc) pass'.calls := by
    rintro later pass earlier rfl pod reply is
    obtain ⟨before,is_pass,spec,ns,name⟩ := run_split run
    have claim' : HasClaim pass.model pvc := by simpa only [HasClaim,spec] using claim
    have named : storagePvcName model pvc = storagePvcName pass.model pvc := by simp only [storagePvcName,name]
    obtain ⟨mounts,placed⟩ := pass_pods is_pass claim' is
    rw [ns,named]
    refine ⟨mounts,?_⟩
    cases created : checkModelCondition pass.model .storageCreated with
    | false => exact ⟨pass,by simp,placed created⟩
    | true =>
      obtain ⟨pass',is,placed⟩ := run_created before claim' created
      exact ⟨pass',by simp [is],placed⟩
  constructor
  · rintro mount pass is ⟨pod,reply,requested⟩
    obtain ⟨later,earlier,split⟩ := List.append_of_mem is
    exact (pods split requested).1.mp (mount later pass earlier split pod reply requested).1
  · intro timely later pass earlier split pod reply requested
    obtain ⟨mounts,placed⟩ := pods split requested
    exact ⟨mounts.mpr (timely pass (by simp [split]) ⟨pod,reply,requested⟩),placed⟩

end Run

/-! ### The model `chat` -/

/-- The first pass creates the claim; `read` is the reply to the read of the pod. -/
def firstReplies (read : Except ApiErr Pod) : (op : KubeOp) → KubeReply op
  | .get .model _ _ => .ok (hubModel none ⟨none,[]⟩)
  | .get .pod _ _ => read
  | .get .pvc _ _ => .error (.notFound "persistentvolumeclaims \"chat\" not found")
  | .create _ _ | .updateStatus _ _ => .ok ()
  | _ => .error (.other "")

/-- The pass of `Reconcile` over a version of `chat`. -/
def chatPass (model : ArksModel) (answer : (op : KubeOp) → KubeReply op) : Pass :=
  ⟨model,(replay answer (reconcileRequest ⟨fun _ => "",id⟩ "team-a" "chat")).1.tail⟩

/-- The version of `chat` after a pass. -/
def chatAfter (pass : Pass) : ArksModel := hubModel none ((written pass.calls).getD pass.model.status)

/-- A pass that reads no status back. -/
theorem chatPass_run {history : List Pass} {status : ArksModelStatus} {answer : (op : KubeOp) → KubeReply op}
    (run : Run ⟨fun _ => "",id⟩ history (hubModel none status))
    (read : answer (.get .model "team-a" "chat") = .ok (hubModel none status))
    (plain : (chatPass (hubModel none status) answer).calls.all (fun call => kindOf call.1 ≠ .model ∨
      statusOf call ≠ none) = true) :
    Run ⟨fun _ => "",id⟩ (chatPass (hubModel none status) answer :: history)
    (chatAfter (chatPass (hubModel none status) answer)) := by
  have replayed := runs_replay answer (reconcileRequest ⟨fun _ => "",id⟩ "team-a" "chat")
  have first : (replay answer (reconcileRequest ⟨fun _ => "",id⟩ "team-a" "chat")).1 =
      ⟨.get .model "team-a" "chat",.ok (hubModel none status)⟩ :: (chatPass (hubModel none status) answer).calls := by
    rw [← read]
    rfl
  rw [first] at replayed
  refine .pass run ⟨⟨"team-a","chat",_,replayed⟩,fun sent stored is => ?_⟩ ⟨rfl,rfl,rfl,rfl⟩
  have other := List.all_eq_true.mp plain _ is
  simp [kindOf,statusOf] at other

/-- The pass finds no pod and creates it. -/
def goodPass : Pass :=
  chatPass (hubModel none ⟨none,[]⟩) (firstReplies (.error (.notFound "pods \"arks-worker-chat\" not found")))

private theorem goodPass_run : Run ⟨fun _ => "",id⟩ [goodPass] (chatAfter goodPass) :=
  chatPass_run (.new rfl) rfl (by decide)

/-- The first pass creates the claim and the pod. -/
theorem goodPass_mounts : (∃ pod reply, (⟨.create .pod pod,reply⟩ : KubeCall) ∈ goodPass.calls) ∧
    AllMount (chatAfter goodPass) ⟨"",""⟩ [goodPass] := by
  refine ⟨⟨_,_,.tail _ (.tail _ (.tail _ (.head _)))⟩,
    (download_pods_mount_iff goodPass_run ⟨_,rfl,rfl⟩).mpr (fun pass is _ => ?_)⟩
  cases List.mem_singleton.mp is
  rfl

/-- The pass creates the claim and then fails to read the pod. -/
def brokenPass : Pass := chatPass (hubModel none ⟨none,[]⟩) (firstReplies (.error (.other "etcdserver: request timed out")))

/-- The pass after: the pod is not there. -/
def laterReplies : (op : KubeOp) → KubeReply op
  | .get .model _ _ => .ok (chatAfter brokenPass)
  | .get .pod _ _ => .error (.notFound "pods \"arks-worker-chat\" not found")
  | .create _ _ | .updateStatus _ _ => .ok ()
  | _ => .error (.other "")

def laterPass : Pass := chatPass (chatAfter brokenPass) laterReplies

theorem laterPass_run : Run ⟨fun _ => "",id⟩ [laterPass,brokenPass] (chatAfter laterPass) :=
  chatPass_run (chatPass_run (.new rfl) rfl (by decide)) rfl (by decide)

/-- After a pass that stops between the claim and the pod, the pod is created without the claim. -/
theorem later_pod_unmounted :
    Run ⟨fun _ => "",id⟩ [laterPass,brokenPass] (chatAfter laterPass) ∧ HasClaim (chatAfter laterPass) ⟨"",""⟩ ∧
      ¬ AllMount (chatAfter laterPass) ⟨"",""⟩ [laterPass,brokenPass] := by
  refine ⟨laterPass_run,⟨_,rfl,rfl⟩,fun mount => ?_⟩
  have requested : ⟨.create .pod (workerPod ⟨fun _ => "",id⟩ (chatAfter brokenPass)
    ⟨none⟩ "/models/models/team-a/chat" ""),.ok ()⟩ ∈
      laterPass.calls := .tail _ (.head _)
  have wrong := (mount [] laterPass [brokenPass] rfl _ _ requested).1
  rw [workerPod_mounts] at wrong
  exact absurd wrong (by decide)

end Arks.DownloadPods
