import Arks.DownloadPods

/-!
What a Ready model has been through. The phase is set at the end of a pass, which goes
on from the storage to the loading and from there to the end. A source that names no
registry falls through the loading: such a model is Ready and was never loaded.
-/
namespace Arks.Loading
open Programs Programs.Prog Api Kube Controllers Workloads Passes Models DownloadPods

/-- The specification names a source on Hugging Face. -/
def Registered (spec : ArksModelSpec) : Prop := ∃ source hub, spec.source = some source ∧ source.huggingface = some hub

/-- A source without a registry, and a claim to store the model. -/
def Bare (spec : ArksModelSpec) : Prop :=
  spec.source = some ⟨none⟩ ∧ ∃ storage pvc, spec.storage = some storage ∧ storage.pvc = some pvc

/-- The pod was seen to have succeeded. -/
def Succeeded (namespace_ podName : String) (calls : List KubeCall) : Prop :=
  ∃ worker : Pod, ⟨.get .pod namespace_ podName,.ok worker⟩ ∈ calls ∧ worker.phase = .succeeded

/-- The worker pod of the model was seen to have succeeded. -/
def Observes (model : ArksModel) (calls : List KubeCall) : Prop := Succeeded model.namespace_ (generateWorkerPodName model) calls

/-- A status that says Ready has all its conditions, and one that says loaded is right. -/
structure Sound (fetched : Prop) (model : ArksModel) : Prop where
  ready : model.status.phase = some .ready → ∀ type, checkModelCondition model type = true
  loaded : checkModelCondition model .modelLoaded = true → fetched

/-! ### One pass -/

section Pass
variable {p : Platform} {model : ArksModel} {calls : List KubeCall} {fetched fetched' : Prop}

theorem initialize_phase : (initializeModelCondition model).status.phase = model.status.phase := by
  unfold initializeModelCondition
  split <;> rfl

theorem sound_unready (unready : model.status.phase ≠ some .ready)
    (loaded : checkModelCondition model .modelLoaded = true → fetched) :
    Sound fetched model := ⟨fun ready => absurd ready unready,loaded⟩

/-- What the storage stage leaves of the model. -/
theorem prepared_leaves {flow : Flow (ArksModel × String)} (prepared : Prepared model calls flow)
    (unready : model.status.phase ≠ some .ready) :
    flow.object.1.status.phase ≠ some .ready ∧ flow.object.1.spec = model.spec ∧
      flow.object.1.toObjectMeta = model.toObjectMeta ∧
      checkModelCondition flow.object.1 .modelLoaded = checkModelCondition model .modelLoaded := by
  cases prepared with
  | unspecified | already => exact ⟨unready,rfl,rfl,rfl⟩
  | claimless => exact ⟨by simp [Flow.object,updateModelCondition,setPhase],rfl,rfl,by simp [Flow.object]⟩
  | @ensured _ pvc _ ensured =>
    cases ensured <;>
      exact ⟨by simp [Flow.object,afterStorage,updateModelCondition,setPhase],rfl,rfl,by simp [Flow.object,afterStorage]⟩

private theorem prepared_goes {model₁ : ArksModel} {claimName : String}
    (prepared : Prepared model calls (.next (model₁,claimName))) :
    (∃ pvc, HasClaim model pvc) ∧ checkModelCondition model₁ .storageCreated = true := by
  generalize goes : (Flow.next (model₁,claimName) : Flow (ArksModel × String)) = flow at prepared
  cases prepared with
  | unspecified | claimless => cases goes
  | already stored given created =>
    cases goes
    exact ⟨⟨_,_,stored,given⟩,created⟩
  | @ensured _ pvc _ ensured stored given =>
    refine ⟨⟨pvc,_,stored,given⟩,?_⟩
    cases ensured with
    | present | panicked | generateFailed =>
      cases goes
      simp
    | createFailed | checkFailed => cases goes

/-- What the loading stage leaves: a model that is loaded was so before, has no registry or was observed. -/
theorem loaded_leaves {claimName : String} {flow : Flow ArksModel} (loaded : Loaded p model claimName calls flow)
    (unready : model.status.phase ≠ some .ready) :
    flow.object.status.phase ≠ some .ready ∧
      (checkModelCondition flow.object .modelLoaded = true →
        checkModelCondition model .modelLoaded = true ∨ ¬ Registered model.spec ∨ Observes model calls) := by
  cases loaded with
  | already | sourceless | unread => exact ⟨unready,.inl⟩
  | stored _ none =>
    refine ⟨unready,fun _ => .inr (.inl ?_)⟩
    rintro ⟨_,_,some,_⟩
    rw [none] at some
    cases some
  | observed worker =>
    unfold observeWorker
    split
    · exact ⟨by simp [Flow.object,updateModelCondition,setPhase],by simp [Flow.object]⟩
    · rename_i succeeded
      exact ⟨unready,fun _ => .inr (.inr ⟨worker,List.mem_singleton_self _,succeeded⟩)⟩
    · exact ⟨unready,.inl⟩
  | created _ reply =>
    unfold afterWorker
    split <;> exact ⟨by simp [Flow.object,updateModelCondition,setPhase],by simp [Flow.object]⟩

private theorem loaded_goes {claimName : String} {model₁ : ArksModel} (loaded : Loaded p model claimName calls (.next model₁)) :
    model.spec.source = some ⟨none⟩ ∨ checkModelCondition model₁ .modelLoaded = true := by
  generalize goes : (Flow.next model₁ : Flow ArksModel) = flow at loaded
  cases loaded with
  | already done =>
    cases goes
    exact .inr done
  | stored =>
    cases goes
    exact .inr (by simp)
  | @sourceless source _ some none =>
    obtain ⟨hub⟩ := source
    cases none
    exact .inl some
  | observed worker =>
    unfold observeWorker at goes
    split at goes
    · cases goes
    · cases goes
      exact .inr (by simp)
    · cases goes
  | created _ reply =>
    unfold afterWorker at goes
    split at goes <;> cases goes
  | unread => cases goes

theorem observes_mono {model' : ArksModel} {calls' : List KubeCall} (same : model'.toObjectMeta = model.toObjectMeta)
    (more : ∀ call ∈ calls', call ∈ calls) (observes : Observes model' calls') : Observes model calls := by
  simp only [Observes,generateWorkerPodName_eq,same] at observes
  obtain ⟨worker,is,succeeded⟩ := observes
  exact ⟨worker,more _ is,succeeded⟩

theorem provided_sound {result : ArksModel × Outcome} (provided : Provided p model calls result) (clothed : ¬ Bare model.spec)
    (unready : model.status.phase ≠ some .ready) (sound : Sound fetched model) (still : fetched → fetched')
    (unnamed : ¬ Registered model.spec → fetched') (seen : Observes model calls → fetched') : Sound fetched' result.1 := by
  cases provided with
  | unprepared prepared =>
    obtain ⟨unready,_,_,loaded⟩ := prepared_leaves prepared unready
    exact sound_unready unready (fun is => still (sound.loaded (loaded ▸ is)))
  | @stopped first rest model₁ _ _ _ prepared loads =>
    obtain ⟨unready,spec,same,loaded⟩ := prepared_leaves prepared unready
    obtain ⟨unready,later⟩ := loaded_leaves loads unready
    refine sound_unready unready (fun is => ?_)
    rcases later is with before | none | observed
    · exact still (sound.loaded (loaded ▸ before))
    · exact unnamed (spec ▸ none)
    · exact seen (observes_mono same (by simp; tauto) observed)
  | @announced first rest model₁ model₂ _ prepared loads =>
    obtain ⟨unready,spec,same,loaded⟩ := prepared_leaves prepared unready
    obtain ⟨⟨pvc,storage,stored,given⟩,created⟩ := prepared_goes prepared
    obtain ⟨unready,later⟩ := loaded_leaves loads unready
    have loaded₂ : checkModelCondition model₂ .modelLoaded = true :=
      (loaded_goes loads).resolve_left (fun bare => clothed ⟨spec ▸ bare,storage,pvc,stored,given⟩)
    have created₂ : checkModelCondition model₂ .storageCreated = true := (loaded_created loads).trans created
    have truth : fetched' := by
      rcases later loaded₂ with before | none | observed
      · exact still (sound.loaded (loaded ▸ before))
      · exact unnamed (spec ▸ none)
      · exact seen (observes_mono same (by simp; tauto) observed)
    simp only [announceModel]
    split
    · exact sound_unready unready (fun _ => truth)
    · refine ⟨fun _ type => ?_,fun _ => truth⟩
      cases type <;> simp [loaded₂,created₂]

end Pass

/-! ### Runs with edits -/

/-- The passes over a model, the last one first, while the user puts in specifications out of `admits`. What a
    pass reads may be old: the status is that of a new model or one that some earlier pass wrote. -/
inductive EditedRun (p : Platform) (namespace_ name : KubeName) (admits : ArksModelSpec → Prop) : List Pass → Prop
  | new : EditedRun p namespace_ name admits []
  | pass {history : List Pass} {pass : Pass} : EditedRun p namespace_ name admits history → IsPass p pass →
      pass.model.namespace_ = namespace_ → pass.model.name = name → admits pass.model.spec →
      (pass.model.status = ⟨none,[]⟩ ∨ ∃ earlier ∈ history, written earlier.calls = some pass.model.status) →
      EditedRun p namespace_ name admits (pass :: history)

/-- If every pass read a source on Hugging Face, one of them saw the worker pod succeed. -/
def Fetched (history : List Pass) : Prop :=
  (∀ pass ∈ history, Registered pass.model.spec) → ∃ pass ∈ history, Observes pass.model pass.calls

/-- Whenever a status with the phase Ready is written, its conditions are all true and the model was loaded. -/
def ReadyLoaded (history : List Pass) : Prop :=
  ∀ later pass earlier, history = later ++ pass :: earlier → ∀ o : ArksModel, ⟨.updateStatus .model o,.ok ()⟩ ∈ pass.calls →
    o.status.phase = some .ready → (∀ type, checkModelCondition o type = true) ∧ Fetched (pass :: earlier)

section Run
variable {p : Platform} {namespace_ name : KubeName} {admits : ArksModelSpec → Prop} {history : List Pass} {pass : Pass}

theorem fetched_cons (fetched : Fetched history) : Fetched (pass :: history) := by
  intro all
  obtain ⟨earlier,is,observes⟩ := fetched (fun earlier is => all earlier (.tail _ is))
  exact ⟨earlier,.tail _ is,observes⟩

private theorem fetched_append {later : List Pass} (fetched : Fetched history) : Fetched (later ++ history) := by
  induction later with
  | nil => exact fetched
  | cons pass later ih => exact fetched_cons ih

theorem sound_mono {fetched fetched' : Prop} {model : ArksModel} (still : fetched → fetched') (sound : Sound fetched model) :
    Sound fetched' model := ⟨sound.ready,fun loaded => still (sound.loaded loaded)⟩

theorem sound_congr {fetched : Prop} {model model' : ArksModel} (same : model'.status = model.status)
    (sound : Sound fetched model) :
    Sound fetched model' := by
  refine ⟨fun ready type => ?_,fun loaded => sound.loaded ?_⟩
  · simpa only [checkModelCondition,same] using sound.ready (same ▸ ready) type
  · simpa only [checkModelCondition,same] using loaded

/-- A pass that reads a sound status writes a sound one. -/
theorem pass_sound (is_pass : IsPass p pass) (clothed : ¬ Bare pass.model.spec) (sound : Sound (Fetched history) pass.model)
    {o : ArksModel} (written : ⟨.updateStatus .model o,.ok ()⟩ ∈ pass.calls) : Sound (Fetched (pass :: history)) o := by
  obtain ⟨ended,inner,behind,split,run⟩ := pass_writes is_pass written
  have before : Sound (Fetched (pass :: history)) pass.model := sound_mono fetched_cons sound
  generalize result : (o,ended) = result' at run
  cases reconcile_runs run with
  | deleting | settled => cases result; exact before
  | unfinalized =>
    cases result
    exact sound_congr (show (finalizing pass.model).status = pass.model.status from rfl) before
  | finalized stored =>
    cases result
    exact sound_congr (is_pass.2 (finalizing pass.model) o (by simp [split])) before
  | provided unsettled _ provided =>
    cases result
    have unready : (initializeModelCondition pass.model).status.phase ≠ some .ready := by
      rw [initialize_phase]
      exact fun ready => unsettled (.inl ready)
    have initialized : Sound (Fetched history) (initializeModelCondition pass.model) :=
      sound_unready unready (fun loaded => sound.loaded (by simpa using loaded))
    refine provided_sound provided (by simpa using clothed) unready initialized fetched_cons ?_ ?_
    · intro unregistered all
      exact absurd (all pass (.head _)) (by simpa using unregistered)
    · intro observes _
      exact ⟨pass,.head _,observes_mono (by simp) (by simp [split]; tauto) observes⟩

/-- Every status that was written is sound. -/
theorem run_sound (run : EditedRun p namespace_ name admits history) (clothed : ∀ spec, admits spec → ¬ Bare spec) :
    ∀ later pass earlier, history = later ++ pass :: earlier → ∀ o : ArksModel, ⟨.updateStatus .model o,.ok ()⟩ ∈ pass.calls →
      Sound (Fetched (pass :: earlier)) o := by
  induction run with
  | new =>
    intro later pass earlier split
    simp at split
  | @pass history pass run is_pass _ _ admitted reads ih =>
    have read : Sound (Fetched history) pass.model := by
      rcases reads with fresh | ⟨earlier,is,wrote⟩
      · exact sound_unready (by simp [fresh]) (by simp [checkModelCondition,fresh,checkCondition])
      · obtain ⟨o,accepted,same⟩ := written_accepted wrote
        obtain ⟨before,after,rfl⟩ := List.append_of_mem is
        exact sound_congr same.symm (sound_mono fetched_append (ih before earlier after rfl o accepted))
    intro later pass' earlier split o accepted
    cases later with
    | nil =>
      obtain ⟨rfl,rfl⟩ := List.cons.inj split
      exact pass_sound is_pass (clothed _ admitted) read accepted
    | cons first later =>
      obtain ⟨_,rfl⟩ := List.cons.inj split
      exact ih later pass' earlier rfl o accepted

end Run

/-! ### A source without a registry -/

section BareSource
variable (namespace_ name : KubeName) (spec : ArksModelSpec)

/-- The model as its first pass over the storage reads it. -/
def newModel : ArksModel where
  namespace_ := namespace_
  name := name
  uid := "1"
  resourceVersion := 1
  finalizers := [arksModelControllerFinalizer]
  deletionTimestamp := none
  spec := spec
  status := ⟨none,[]⟩

/-- The claim is found, and the status is written. -/
def claimFound (pvc : ArksModelStoragePVC) : (op : KubeOp) → KubeReply op
  | .get .model _ _ => .ok (newModel namespace_ name spec)
  | .get .pvc _ _ => .ok (storagePvc (newModel namespace_ name spec) pvc)
  | .updateStatus _ _ => .ok ()
  | _ => .error (.other "")

/-- What is written at the end of the pass. -/
def announcedModel (pvc : ArksModelStoragePVC) : ArksModel :=
  announceModel (updateModelCondition (setPhase (initializeModelCondition (newModel namespace_ name spec)) .storageCreating)
    .storageCreated .isTrue "CreateSucceeded" ("Create model storage successfully(" ++ pvc.name ++ ")"))

private theorem bare_replay (p : Platform) {storage : ArksModelStorage} {pvc : ArksModelStoragePVC}
    (bare : spec.source = some ⟨none⟩)
    (stored : spec.storage = some storage) (given : storage.pvc = some pvc) :
    (replay (claimFound namespace_ name spec pvc) (reconcileRequest p namespace_ name)).1 =
      [⟨.get .model namespace_ name,.ok (newModel namespace_ name spec)⟩,
        ⟨.get .pvc namespace_ (storagePvcName (newModel namespace_ name spec) pvc),
          .ok (storagePvc (newModel namespace_ name spec) pvc)⟩,
        ⟨.updateStatus .model (announcedModel namespace_ name spec pvc),.ok ()⟩] := by
  -- with the fields of the specification at hand the replay is an evaluation
  obtain ⟨text,source,_,instanceSpec⟩ := spec
  obtain ⟨_,subPath⟩ := storage
  cases bare
  cases stored
  cases given
  rfl

/-- The pass over a model with a bare source. -/
def barePass (pvc : ArksModelStoragePVC) : Pass :=
  ⟨newModel namespace_ name spec,
    [⟨.get .pvc namespace_ (storagePvcName (newModel namespace_ name spec) pvc),.ok
      (storagePvc (newModel namespace_ name spec) pvc)⟩,
    ⟨.updateStatus .model (announcedModel namespace_ name spec pvc),.ok ()⟩]⟩

variable {namespace_ name spec} {pvc : ArksModelStoragePVC}

theorem barePass_run {p : Platform} {admits : ArksModelSpec → Prop} {storage : ArksModelStorage} (admitted : admits spec)
    (bare : spec.source = some ⟨none⟩) (stored : spec.storage = some storage) (given : storage.pvc = some pvc) :
    EditedRun p namespace_ name admits [barePass namespace_ name spec pvc] := by
  have replayed := runs_replay (claimFound namespace_ name spec pvc) (reconcileRequest p namespace_ name)
  rw [bare_replay namespace_ name spec p bare stored given] at replayed
  exact .pass .new ⟨⟨namespace_,name,_,replayed⟩,by simp [barePass]⟩ rfl rfl admitted (.inl rfl)

theorem announcedModel_unloaded : (announcedModel namespace_ name spec pvc).status.phase = some .ready ∧
    checkModelCondition (announcedModel namespace_ name spec pvc) .modelLoaded = false := ⟨rfl,rfl⟩

/-- The pass announces a model that was not loaded. -/
theorem barePass_unloaded : ¬ ReadyLoaded [barePass namespace_ name spec pvc] := by
  intro holds
  have all := (holds [] (barePass namespace_ name spec pvc) [] rfl _ (.tail _ (.head _)) announcedModel_unloaded.1).1 .modelLoaded
  rw [announcedModel_unloaded.2] at all
  cases all

end BareSource

/-- Whatever specifications the users put in, in all runs every model that is announced is loaded, if and only if none
    of them has a claim and a source without a registry. -/
theorem ready_loaded_iff (p : Platform) (namespace_ name : KubeName) (admits : ArksModelSpec → Prop) :
    (∀ history, EditedRun p namespace_ name admits history → ReadyLoaded history) ↔ ∀ spec, admits spec → ¬ Bare spec := by
  constructor
  · rintro all spec admitted ⟨bare,storage,pvc,stored,given⟩
    exact barePass_unloaded (all _ (barePass_run admitted bare stored given))
  · intro clothed history run later pass earlier split o accepted ready
    have sound := run_sound run clothed later pass earlier split o accepted
    exact ⟨sound.ready ready,sound.loaded (sound.ready ready .modelLoaded)⟩

/-- A model `chat` with a claim and an empty source. -/
def bareSpec : ArksModelSpec := { (default : ArksModelSpec) with source := some ⟨none⟩,storage := some ⟨some ⟨"chat",""⟩,""⟩ }

/-- The model is announced in its first pass, and the condition ModelLoaded is not true. -/
theorem bare_chat_unloaded :
    ∃ history, EditedRun ⟨fun _ => "",id⟩ llmMeta.namespace_ llmMeta.name (· = bareSpec) history ∧ ¬ ReadyLoaded history :=
  ⟨[barePass llmMeta.namespace_ llmMeta.name bareSpec ⟨"chat",""⟩],barePass_run rfl rfl rfl rfl,barePass_unloaded⟩

end Arks.Loading
