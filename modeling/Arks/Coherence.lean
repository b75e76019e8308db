import Arks.Readiness

/-!
The phase and the conditions of an application agree with each other. Every exit of
a pass that starts from a coherent status is looked at: the status it leaves is
coherent unless the application was ready and its model is not found any more, or,
for an `ArksApplication`, its leader worker set is found to be gone.
-/
namespace Arks.Coherence
open Programs Programs.Prog Api Kube Controllers Workloads Applications Passes
  Readiness

/-- Ready comes with Loaded and Precheck, Running is Ready, and Failed is not Ready. -/
structure Coherent (s : ApplicationProgress) : Prop where
  ready : Progress.check s .ready = true → Progress.check s .loaded = true ∧ Progress.check s .precheck = true
  running : s.phase = some .running ↔ Progress.check s .ready = true
  failed : s.phase = some .failed → Progress.check s .ready = false

/-! ### The stages of a pass -/

section Stages
variable {s s' : ApplicationProgress}

/-- A status that is not ready is coherent unless its phase is Running. -/
theorem coherent_unready (unready : Progress.check s .ready = false) (phase : s.phase ≠ some .running) : Coherent s where
  ready := by simp [unready]
  running := by simp [unready,phase]
  failed _ := unready

theorem coherent_ready (ready : Progress.check s .ready = true) (phase : s.phase = some .running)
    (loaded : Progress.check s .loaded = true) (precheck : Progress.check s .precheck = true) : Coherent s where
  ready _ := ⟨loaded,precheck⟩
  running := by simp [ready,phase]
  failed := by simp [phase]

private theorem coherent_initialized (coherent : Coherent s) : Coherent (Progress.initialize_ s) := by
  cases ready : Progress.check s .ready with
  | true =>
    have phase := coherent.running.mpr ready
    exact coherent_ready (by simpa using ready) (by simp [phase]) (by simpa using (coherent.ready ready).1)
      (by simpa using (coherent.ready ready).2)
  | false =>
    refine coherent_unready (by simpa using ready) ?_
    cases phase : s.phase with
    | none => simp [phase]
    | some phase' =>
      have other : s.phase ≠ some .running := fun same => by simp [coherent.running.mp same] at ready
      simpa [phase] using other

private theorem coherent_halted (halted : Halted s s') (unready : Progress.check s .ready = false)
    (phase : s.phase ≠ some .running) :
    Coherent s' := by
  cases halted with
  | kept => exact coherent_unready unready phase
  | ungenerated => exact coherent_unready (by simp [unready]) (by simp)
  | uncreated => exact coherent_unready (by simp) phase

theorem unready_of_unchecked (coherent : Coherent s) (unchecked : Progress.check s .precheck = false) :
    Progress.check s .ready = false := by
  by_contra ready
  simp [(coherent.ready (by simpa using ready)).2] at unchecked

theorem unready_of_unloaded (coherent : Coherent s) (unloaded : Progress.check s .loaded = false) :
    Progress.check s .ready = false := by
  by_contra ready
  simp [(coherent.ready (by simpa using ready)).1] at unloaded

variable {k : Kind} {r : Reconciler k} {app app' : Object k} {model : ArksModel} {outcome : Outcome}

private theorem coherent_precheck_stop (coherent : Coherent (r.progress app)) (stops : r.precheck app = .stop app' outcome) :
    Coherent (r.progress app') := by
  obtain ⟨unchecked,_,_,_,rfl⟩ := precheck_stop r stops
  have unready := unready_of_unchecked coherent unchecked
  exact coherent_unready (by simp [unready]) (by simp)

private theorem coherent_precheck_next (coherent : Coherent (r.progress app)) (goes : r.precheck app = .next app') :
    Coherent (r.progress app') ∧ Progress.check (r.progress app') .precheck = true := by
  rcases precheck_next r goes with ⟨checked,rfl⟩ | ⟨unchecked,_,rfl⟩
  · exact ⟨coherent,checked⟩
  · have unready := unready_of_unchecked coherent unchecked
    exact ⟨coherent_unready (by simp [unready]) (by simp),by simp⟩

private theorem coherent_waitModel_stop (coherent : Coherent (r.progress app))
    (stops : r.waitModel app model = .stop app' outcome) :
    Coherent (r.progress app') := by
  obtain ⟨unloaded,ends⟩ := waitModel_stop r stops
  have unready := unready_of_unloaded coherent unloaded
  rcases ends with ⟨_,_,rfl⟩ | ⟨_,_,_,rfl⟩ <;> exact coherent_unready (by simp [unready]) (by simp)

private theorem coherent_waitModel_next (coherent : Coherent (r.progress app))
    (precheck : Progress.check (r.progress app) .precheck = true)
    (goes : r.waitModel app model = .next app') :
    Coherent (r.progress app') ∧ Progress.check (r.progress app') .precheck = true ∧
      Progress.check (r.progress app') .loaded = true := by
  rcases waitModel_next r goes with ⟨loaded,rfl⟩ | ⟨unloaded,_,rfl⟩
  · exact ⟨coherent,precheck,loaded⟩
  · have unready := unready_of_unloaded coherent unloaded
    exact ⟨coherent_unready (by simp [unready]) (by simp),by simp [precheck],by simp⟩

end Stages

/-! ### The exits of a pass -/

/-- A read of a model that found none. -/
def Modelless (calls : List KubeCall) : Prop :=
  ∃ namespace_ name message, (⟨.get .model namespace_ name,.error (.notFound message)⟩ : KubeCall) ∈ calls

theorem not_modelless {calls : List KubeCall} (others : ∀ call ∈ calls, kindOf call.1 ≠ .model ∨ lacking call = false) :
    ¬ Modelless calls := by
  rintro ⟨_,_,_,is⟩
  rcases others _ is with wrong | wrong
  · exact wrong rfl
  · cases wrong

section Exits
variable {k : Kind} {r : Reconciler k}

variable (r) in
/-- A pass from a coherent status, by how far it gets. -/
inductive Ending (app : Object k) : List KubeCall → Object k × Outcome → Prop
  | early {calls : List KubeCall} {after : Object k} {outcome : Outcome} : Coherent (r.progress after) →
      (∀ call ∈ calls, kindOf call.1 = k ∨ kindOf call.1 = .model) →
      (Progress.check (r.progress app) .ready = true → ¬ Modelless calls) → Ending app calls (after,outcome)
  | orphaned {calls : List KubeCall} {after : Object k} {outcome : Outcome} :
      Progress.check (r.progress app) .ready = true → Modelless calls → ¬ Coherent (r.progress after) →
      Ending app calls (after,outcome)
  | halted {app₁ after : Object k} {model : ArksModel} {outcome : Outcome} {call : KubeCall} {during : List KubeCall} :
      Progress.check (r.progress app) .ready = false → kindOf call.1 = .model → r.meta_ app₁ = r.meta_ app →
      Coherent (r.progress after) → Runs (r.start app₁ model) during (.stop after outcome) →
      Ending app (call :: during) (after,outcome)
  | resynced {app₁ : Object k} {call : KubeCall} {rest : List KubeCall} {result : Object k × Outcome} :
      Progress.check (r.progress app) .ready = true → kindOf call.1 = .model → lacking call = false →
      r.meta_ app₁ = r.meta_ app → Coherent (r.progress app₁) → Runs (r.sync app₁) rest result →
      Ending app (call :: rest) result
  | launched {app₁ app₂ : Object k} {model : ArksModel} {call : KubeCall} {during rest : List KubeCall}
      {result : Object k × Outcome} :
      Progress.check (r.progress app) .ready = false → kindOf call.1 = .model → r.meta_ app₁ = r.meta_ app →
      r.meta_ app₂ = r.meta_ app → Runs (r.start app₁ model) during (.next app₂) →
      Coherent (r.progress (announced r.toFields app₂)) → Runs (r.sync (announced r.toFields app₂)) rest result →
      Ending app (call :: (during ++ rest)) result

private theorem serve_ending (tame : Tame r) {app app₀ : Object k} {calls : List KubeCall} {result : Object k × Outcome}
    (same : Progress.check (r.progress app₀) .ready = Progress.check (r.progress app) .ready)
    (meta_ : r.meta_ app₀ = r.meta_ app) (coherent : Coherent (r.progress app₀))
    (precheck : Progress.check (r.progress app₀) .precheck = true) (served : Served r app₀ calls result) :
    Ending r app calls result := by
  cases served with
  | missing message =>
    cases ready : Progress.check (r.progress app₀) .ready with
    | true =>
      refine .orphaned (same ▸ ready) ⟨_,_,message,List.mem_singleton_self _⟩ (fun wrong => ?_)
      have unready := wrong.failed (by simp)
      simp [ready] at unready
    | false =>
      refine .early (coherent_unready (by simp [ready]) (by simp)) (by simp [kindOf]) (fun wrong => ?_)
      simp [← same,ready] at wrong
  | @unread e other =>
    refine .early coherent (by simp [kindOf]) (fun _ => not_modelless ?_)
    cases e with
    | notFound message => exact absurd rfl (other message)
    | alreadyExists | other => simp [lacking]
  | waiting waits =>
    exact .early (coherent_waitModel_stop coherent waits) (by simp [kindOf]) (fun _ => not_modelless (by simp [lacking]))
  | stopped waits announces =>
    have kept := (waitModel_check r (by decide) waits).trans same
    have place := (waitModel_meta waits).trans meta_
    cases announce_runs r announces with
    | stopped unready starts =>
      have keeps := (runs_within (tame.start _ _) starts).2
      refine .halted (kept.symm.trans unready) rfl (by simpa using place) ?_ starts
      exact coherent_halted keeps.1 (by simpa using unready) (by simp)
  | @synced model app₁ app₂ _ _ _ waits announces synced =>
    have kept := (waitModel_check r (by decide) waits).trans same
    have place := (waitModel_meta waits).trans meta_
    obtain ⟨coherent,precheck,loaded⟩ := coherent_waitModel_next coherent precheck waits
    cases announce_runs r announces with
    | already ready => exact .resynced (kept.symm.trans ready) rfl rfl place coherent synced
    | started unready starts =>
      obtain ⟨same,meta_⟩ := (runs_within (tame.start _ _) starts).2
      refine .launched (kept.symm.trans unready) rfl (by simpa using place) (meta_.trans (by simpa using place)) starts ?_ synced
      exact coherent_ready (by simp [announced]) (by simp [announced]) (by simp [announced,same,loaded])
        (by simp [announced,same,precheck])

theorem ending (tame : Tame r) {app : Object k} {calls : List KubeCall} {result : Object k × Outcome}
    (run : Runs (r.reconcile app) calls result) (coherent : Coherent (r.progress app))
    (told : ∀ sent stored, ⟨.update k sent,.ok stored⟩ ∈ calls → Coherent (r.progress stored)) : Ending r app calls result := by
  have initialized : Coherent (r.progress (r.initialized app)) := by
    simpa [Reconciler.initialized] using coherent_initialized coherent
  cases reconcile_runs r run with
  | deleting | failed => exact .early coherent (by simp) (fun _ => not_modelless (by simp))
  | unfinalized =>
    exact .early (by simpa [finalizing] using initialized) (by simp [kindOf])
      (fun _ => not_modelless (by simp [kindOf,tame.model]))
  | finalized stored =>
    have kept := told (finalizing r app) stored (by simp)
    exact .early kept (by simp [kindOf]) (fun _ => not_modelless (by simp [kindOf,tame.model]))
  | refused _ _ checked =>
    exact .early (coherent_precheck_stop initialized checked) (by simp) (fun _ => not_modelless (by simp))
  | served _ _ checked served =>
    obtain ⟨coherent,precheck⟩ := coherent_precheck_next initialized checked
    exact serve_ending tame ((precheck_check r (by decide) checked).trans (by simp [Reconciler.initialized]))
      ((precheck_meta checked).trans (by simp [Reconciler.initialized])) coherent precheck served

end Exits

/-! ### `ArksApplication` -/

section Plain
variable {p : Platform} {app app' after : ArksApplication} {model : ArksModel} {calls : List KubeCall} {outcome : Outcome}
  {flow : Flow ArksApplication}

/-- A read of a leader worker set that found none. -/
def unfound (namespace_ name message : String) : KubeCall := ⟨.get .lws namespace_ name,.error (.notFound message)⟩

/-- The leader worker set is not found although the application is ready, or although it
    was in place earlier in the pass. -/
def Lost (app : ArksApplication) (calls : List KubeCall) : Prop :=
  ∃ earlier message, earlier ++ [unfound app.namespace_ app.name message] <+: calls ∧
    (Progress.check app.status.toApplicationProgress .ready = true ∨ InPlace .lws app.namespace_ app.name earlier)

theorem not_lost (found : ∀ call ∈ calls, kindOf call.1 ≠ .lws ∨ lacking call = false) : ¬ Lost app calls := by
  rintro ⟨earlier,message,gone,_⟩
  rcases found (unfound app.namespace_ app.name message) (gone.subset (by simp)) with wrong | wrong
  · exact wrong rfl
  · cases wrong

theorem not_inPlace {k : Kind} {namespace_ name : String} (others : ∀ call ∈ calls, kindOf call.1 ≠ k) :
    ¬ InPlace k namespace_ name calls := by
  intro placed
  obtain ⟨call,is,about,_⟩ := inPlace_kind placed
  exact others call is about

/-- Only the first read of a pass that sees to the children comes before the leader worker set is in place. -/
theorem not_lost_first {call first : KubeCall} (unready : Progress.check app.status.toApplicationProgress .ready = false)
    (kind : kindOf call.1 = .model) (found : ∀ call ∈ calls, kindOf call.1 ≠ .lws ∨ lacking call = false) :
    ¬ Lost app (call :: first :: calls) := by
  rintro ⟨earlier,message,gone,placed⟩
  have placed := placed.resolve_left (by simp [unready])
  match earlier,gone,placed with
  | [],_,placed => exact not_inPlace (by simp) placed
  | [call'],gone,placed =>
    obtain ⟨rfl,_⟩ := List.cons_prefix_cons.mp gone
    exact not_inPlace (by simp [kind]) placed
  | _ :: _ :: earlier,gone,_ =>
    have rest := (List.cons_prefix_cons.mp (List.cons_prefix_cons.mp gone).2).2
    rcases found (unfound app.namespace_ app.name message) (rest.subset (by simp)) with wrong | wrong
    · exact wrong rfl
    · cases wrong

/-- Seeing to the children reads the leader worker set first and only once. -/
theorem startApplication_first (run : Runs (startApplication p app model) calls flow) :
    ∃ first rest, calls = first :: rest ∧ ∀ call ∈ rest, kindOf call.1 ≠ .lws ∨ lacking call = false := by
  have given : ∀ {calls : List KubeCall} {g : Generated LeaderWorkerSet},
      Runs (pure (generateLws p app model) : KubeAction (Generated LeaderWorkerSet)) calls g → calls = [] :=
    fun run => (runs_ret.mp run).1
  obtain ⟨lws,first,rest,rfl,ladder,services⟩ := startApplication_runs p app model run
  have behind : ∀ call ∈ rest, kindOf call.1 ≠ .lws := fun call is => by rw [services call is]; simp
  cases ladder with
  | found | unread => exact ⟨_,rest,rfl,fun call is => .inl (behind call is)⟩
  | panicked _ generated | ungenerated _ generated =>
    cases given generated
    exact ⟨_,rest,rfl,fun call is => .inl (behind call is)⟩
  | created _ generated | existed _ _ generated | uncreated _ generated _ =>
    cases given generated
    refine ⟨_,_ :: rest,rfl,fun call is => ?_⟩
    rcases List.mem_cons.mp is with rfl | is
    · exact .inr rfl
    · exact .inl (behind call is)

/-- The runs of `syncApplication`. -/
theorem syncApplication_runs (run : Runs (syncApplication app) calls (after,outcome)) :
    (∃ message, calls = [unfound app.namespace_ app.name message] ∧
        after.status.phase = some .running ∧ Progress.check after.status.toApplicationProgress .ready = false) ∨
      ∃ call : KubeCall, calls = [call] ∧ lacking call = false ∧
        after.status.toApplicationProgress = app.status.toApplicationProgress := by
  simp only [syncApplication,issue_bind,runs_call] at run
  obtain ⟨read,rest,rfl,later⟩ := run
  rcases read with (message | message | message) | lws
  · obtain ⟨rfl,same⟩ := runs_ret.mp later
    cases same
    have revised := applicationFields.progress_revise app (fun s => Progress.update (Progress.setPhase s .running) .ready .isFalse
      "UnderlyingNotExit" "The underlying LWS doesn't exist")
    exact .inl ⟨message,rfl,rfl,(congrArg (Progress.check · .ready) revised).trans (by simp)⟩
  · obtain ⟨rfl,same⟩ := runs_ret.mp later
    cases same
    exact .inr ⟨_,rfl,rfl,rfl⟩
  · obtain ⟨rfl,same⟩ := runs_ret.mp later
    cases same
    exact .inr ⟨_,rfl,rfl,rfl⟩
  · obtain ⟨rfl,same⟩ := runs_ret.mp later
    cases same
    exact .inr ⟨_,rfl,rfl,rfl⟩

theorem not_coherent_running {s : ApplicationProgress} (phase : s.phase = some .running)
    (unready : Progress.check s .ready = false) : ¬ Coherent s := by
  intro coherent
  simp [coherent.running.mp phase] at unready

theorem plain_coherent_iff (ending : Ending (arksApplicationReconciler p) app calls (after,outcome)) :
    Coherent after.status.toApplicationProgress ↔
      ¬ (Progress.check app.status.toApplicationProgress .ready = true ∧ Modelless calls) ∧ ¬ Lost app calls := by
  cases ending with
  | early coherent kinds found =>
    refine iff_of_true coherent ⟨fun wrong => found wrong.1 wrong.2,not_lost fun call is => .inl ?_⟩
    rcases kinds call is with kind | kind <;> rw [kind] <;> simp
  | orphaned ready modelless incoherent => exact iff_of_false incoherent (fun right => right.1 ⟨ready,modelless⟩)
  | @halted app₁ _ model _ call during unready kind _ coherent starts =>
    have unready : Progress.check app.status.toApplicationProgress .ready = false := unready
    obtain ⟨first,rest,rfl,found⟩ := startApplication_first starts
    exact iff_of_true coherent ⟨fun wrong => by simp [unready] at wrong,not_lost_first unready kind found⟩
  | @resynced app₁ call rest _ ready kind found meta_ coherent synced =>
    have same : app₁.toObjectMeta = app.toObjectMeta := meta_
    have ready : Progress.check app.status.toApplicationProgress .ready = true := ready
    rcases syncApplication_runs synced with ⟨message,rfl,phase,unready⟩ | ⟨last,rfl,there,kept⟩
    · refine iff_of_false (not_coherent_running phase unready) (fun right => right.2 ⟨[call],message,?_,.inl ready⟩)
      rw [same]
      exact List.prefix_refl _
    · refine iff_of_true (kept ▸ coherent) ⟨fun wrong => not_modelless ?_ wrong.2,not_lost ?_⟩
      · simp [found,there]
      · simp [found,there]
  | @launched app₁ app₂ model call during rest _ unready kind meta₁ meta₂ starts coherent synced =>
    have same₁ : app₁.toObjectMeta = app.toObjectMeta := meta₁
    have same₂ : (announced applicationFields app₂).toObjectMeta = app.toObjectMeta := meta₂
    have unready : Progress.check app.status.toApplicationProgress .ready = false := unready
    have synced : Runs (syncApplication (announced applicationFields app₂)) rest (after,outcome) := synced
    rcases syncApplication_runs synced with ⟨message,rfl,phase,taken⟩ | ⟨last,rfl,there,kept⟩
    · refine iff_of_false (not_coherent_running phase taken) (fun right => right.2 ⟨call :: during,message,?_,.inr ?_⟩)
      · rw [same₂]
        exact List.prefix_refl _
      · have placed := (startApplication_next starts).1
        rw [same₁] at placed
        exact inPlace_mono (by simp; tauto) placed
    · obtain ⟨first,rest,rfl,found⟩ := startApplication_first starts
      refine iff_of_true (kept ▸ coherent) ⟨fun wrong => by simp [unready] at wrong,?_⟩
      have behind : ∀ call ∈ rest ++ [last], kindOf call.1 ≠ .lws ∨ lacking call = false := by
        intro call is
        rcases List.mem_append.mp is with is | is
        · exact found call is
        · rw [List.mem_singleton.mp is]
          exact .inr there
      exact not_lost_first unready kind behind

end Plain

/-! ### `ArksDisaggregatedApplication` -/

section Disaggregated
open Applications.Disaggregated
variable {p : Platform} {app after : ArksDisaggregatedApplication} {calls : List KubeCall} {outcome : Outcome}
  {flow : Flow ArksDisaggregatedApplication}

theorem coherent_missing (child : String) : Coherent (fields.progress (missing app child)) :=
  coherent_unready (by simp [missing]) (by simp [missing])

theorem coherent_workloadSynced {role : Workloads.Disaggregated.Role} (coherent : Coherent (fields.progress app))
    (synced : WorkloadSynced app role calls flow) : Coherent (fields.progress flow.object) := by
  have recorded : ∀ status, fields.progress (Role.record status app role) = fields.progress app := by
    intro _
    cases role <;> rfl
  cases synced with
  | gone => exact coherent_missing _
  | unread => exact coherent
  | settled | adjusted =>
    rw [Flow.object,recorded]
    exact coherent

private theorem coherent_routerSynced (coherent : Coherent (fields.progress app))
    (synced : RouterSynced app calls (after,outcome)) :
    Coherent (fields.progress after) := by
  cases synced with
  | gone => exact coherent_missing _
  | unread | settled | adjusted | unadjusted => exact coherent

theorem coherent_sync (coherent : Coherent (fields.progress app)) (run : Runs (sync app) calls (after,outcome)) :
    Coherent (fields.progress after) := by
  rcases sync_runs run with ⟨app₁,prefill,rfl⟩ | ⟨app₁,app₂,first,second,rfl,prefill,decode,rfl⟩ |
    ⟨app₁,app₂,first,second,last,rfl,prefill,decode,router⟩
  · exact coherent_workloadSynced coherent prefill
  · exact coherent_workloadSynced (coherent_workloadSynced coherent prefill) decode
  · exact coherent_routerSynced (coherent_workloadSynced (coherent_workloadSynced coherent prefill) decode) router

/-- The children are not models. -/
theorem childKind_model {k : Kind} (child : childKind k) : k ≠ .model := by
  rintro rfl
  simp [childKind,routerKind] at child

theorem disaggregated_coherent_iff (ending : Ending (arksDisaggregatedApplicationReconciler p) app calls (after,outcome)) :
    Coherent (fields.progress after) ↔ ¬ (Progress.check (fields.progress app) .ready = true ∧ Modelless calls) := by
  cases ending with
  | early coherent _ found => exact iff_of_true coherent (fun wrong => found wrong.1 wrong.2)
  | orphaned ready modelless incoherent => exact iff_of_false incoherent (fun right => right ⟨ready,modelless⟩)
  | halted unready _ _ coherent =>
    have unready : Progress.check (fields.progress app) .ready = false := unready
    exact iff_of_true coherent (fun wrong => by simp [unready] at wrong)
  | @resynced app₁ call rest _ _ _ found _ coherent synced =>
    have kinds := (runs_within ((tame_disaggregated p).sync _) synced).1
    refine iff_of_true (coherent_sync coherent synced) (fun wrong => not_modelless ?_ wrong.2)
    intro call' is
    rcases List.mem_cons.mp is with rfl | is
    · exact .inr found
    · exact .inl (childKind_model (kinds call' is))
  | launched unready _ _ _ _ coherent synced =>
    have unready : Progress.check (fields.progress app) .ready = false := unready
    exact iff_of_true (coherent_sync coherent synced) (fun wrong => by simp [unready] at wrong)

end Disaggregated

/-! ### Every status that is written -/

section Written
variable {k : Kind} {r : Reconciler k}

/-- A pass of `Reconcile` that read `app`, was accepted `o` as the status and made `calls` in between. -/
def Writes (r : Reconciler k) (app : Object k) (calls : List KubeCall) (o : Object k) : Prop :=
  ∃ namespace_ name outcome, Runs (r.reconcileRequest namespace_ name)
    (⟨.get k namespace_ name,.ok app⟩ :: (calls ++ [⟨.updateStatus k o,.ok ()⟩])) outcome

/-- What is written is what `reconcile` left. -/
theorem writes_reconcile (tame : Tame r) {app o : Object k} {calls : List KubeCall} (writes : Writes r app calls o) :
    ∃ outcome, Runs (r.reconcile app) calls (o,outcome) := by
  obtain ⟨namespace_,name,outcome,run⟩ := writes
  have last : ∀ {calls' : List KubeCall}, calls ++ [⟨.updateStatus k o,.ok ()⟩] = calls' →
      (∀ call ∈ calls', (∃ o, call.1 = .update k o) ∨ kindOf call.1 = .model ∨ childKind (kindOf call.1)) → False := by
    rintro _ rfl kinds
    rcases kinds ⟨.updateStatus k o,.ok ()⟩ (by simp) with ⟨_,wrong⟩ | wrong | wrong
    · cases wrong
    · exact tame.model wrong
    · exact tame.own wrong
  generalize whole : (⟨.get k namespace_ name,.ok app⟩ :: (calls ++ [⟨.updateStatus k o,.ok ()⟩]) : List KubeCall) = list at run
  cases request_runs run with
  | gone | unread => cases whole
  | removed _ removed =>
    have rest := (List.cons.inj whole).2
    exact (last rest (fun call is => (remove_calls tame removed call is).imp id .inr)).elim
  | panicked _ reconciled =>
    have rest := (List.cons.inj whole).2
    exact (last rest (reconcile_calls tame reconciled)).elim
  | unwritten =>
    obtain ⟨_,wrong⟩ := List.append_inj' (List.cons.inj whole).2 rfl
    cases wrong
  | failed _ reconciled =>
    obtain ⟨rfl,same⟩ := List.append_inj' (List.cons.inj whole).2 rfl
    cases same
    cases (List.cons.inj whole).1
    exact ⟨_,reconciled⟩
  | done _ reconciled =>
    obtain ⟨rfl,same⟩ := List.append_inj' (List.cons.inj whole).2 rfl
    cases same
    cases (List.cons.inj whole).1
    exact ⟨_,reconciled⟩

/-- The statuses that are ever written: a pass starts from one of them, or from none, whatever
    has become of the rest of the object, and the API returns them with an accepted update.
    `Allowed` says which passes there are. -/
inductive Written (r : Reconciler k) (Allowed : Object k → List KubeCall → Prop) : ApplicationProgress → Prop
  | unset : Written r Allowed ⟨none,[]⟩
  | pass {app o : Object k} {calls : List KubeCall} : Writes r app calls o → Written r Allowed (r.progress app) →
      (∀ sent stored, ⟨.update k sent,.ok stored⟩ ∈ calls → Written r Allowed (r.progress stored)) → Allowed app calls →
      Written r Allowed (r.progress o)

private theorem coherent_unset : Coherent ⟨none,[]⟩ := coherent_unready rfl (by simp)

theorem written_coherent (tame : Tame r) {Allowed : Object k → List KubeCall → Prop}
    (keeps : ∀ app calls o outcome, Ending r app calls (o,outcome) → Allowed app calls → Coherent (r.progress o))
    {s : ApplicationProgress} (written : Written r Allowed s) : Coherent s := by
  induction written with
  | unset => exact coherent_unset
  | pass writes _ _ allowed coherent told =>
    obtain ⟨outcome,run⟩ := writes_reconcile tame writes
    exact keeps _ _ _ outcome (ending tame run coherent told) allowed

/-- What a pass of `reconcile` leaves is written, unless it panics. -/
theorem writes_of_runs {app o : Object k} {calls : List KubeCall} {outcome : Outcome}
    (alive : (r.meta_ app).deletionTimestamp = none) (run : Runs (r.reconcile app) calls (o,outcome))
    (ends : outcome ≠ .panicked) : Writes r app calls o := by
  cases outcome with
  | panicked => exact absurd rfl ends
  | done result =>
    refine ⟨"","",.done (r.finish result),?_⟩
    simp only [Reconciler.reconcileRequest,Controllers.reconcileRequest,issue_bind]
    refine .call ?_
    simp only [alive,Option.isSome_none,Bool.false_eq_true,if_false]
    exact runs_bind.mpr ⟨_,_,_,rfl,run,.call .ret⟩
  | failed text =>
    refine ⟨"","",.failed text,?_⟩
    simp only [Reconciler.reconcileRequest,Controllers.reconcileRequest,issue_bind]
    refine .call ?_
    simp only [alive,Option.isSome_none,Bool.false_eq_true,if_false]
    exact runs_bind.mpr ⟨_,_,_,rfl,run,.call .ret⟩

end Written

/-- The leader worker set and the model of an `ArksApplication` stay once it is ready. -/
def PlainStays (app : ArksApplication) (calls : List KubeCall) : Prop :=
  ¬ (Progress.check app.status.toApplicationProgress .ready = true ∧ Modelless calls) ∧ ¬ Lost app calls

/-- The model of a disaggregated application stays once it is ready. -/
def DisaggregatedStays (app : ArksDisaggregatedApplication) (calls : List KubeCall) : Prop :=
  ¬ (Progress.check app.status.toApplicationProgress .ready = true ∧ Modelless calls)

/-- A pass that starts from a coherent status writes a coherent one if and only if what a ready
    application rests on is still there, and in every run of such passes every status is coherent. -/
theorem written_status_coherent (p : Platform) :
    (∀ (app o : ArksApplication) (calls : List KubeCall), Writes (arksApplicationReconciler p) app calls o →
      Coherent app.status.toApplicationProgress →
      (∀ sent stored : ArksApplication, ⟨.update .application sent,.ok stored⟩ ∈ calls →
        Coherent stored.status.toApplicationProgress) →
      (Coherent o.status.toApplicationProgress ↔ PlainStays app calls)) ∧
    (∀ s, Written (arksApplicationReconciler p) PlainStays s → Coherent s) ∧
    (∀ (app o : ArksDisaggregatedApplication) (calls : List KubeCall),
      Writes (arksDisaggregatedApplicationReconciler p) app calls o → Coherent app.status.toApplicationProgress →
      (∀ sent stored : ArksDisaggregatedApplication,
        ⟨.update .disaggregated sent,.ok stored⟩ ∈ calls → Coherent stored.status.toApplicationProgress) →
      (Coherent o.status.toApplicationProgress ↔ DisaggregatedStays app calls)) ∧
    ∀ s, Written (arksDisaggregatedApplicationReconciler p) DisaggregatedStays s → Coherent s := by
  refine ⟨fun app o calls writes coherent told => ?_,fun s written => ?_,fun app o calls writes coherent told => ?_,
    fun s written => ?_⟩
  · obtain ⟨outcome,run⟩ := writes_reconcile (tame_plain p) writes
    exact plain_coherent_iff (ending (tame_plain p) run coherent told)
  · exact written_coherent (tame_plain p) (fun _ _ _ _ ending stays => (plain_coherent_iff ending).mpr stays) written
  · obtain ⟨outcome,run⟩ := writes_reconcile (tame_disaggregated p) writes
    exact disaggregated_coherent_iff (ending (tame_disaggregated p) run coherent told)
  · exact written_coherent (tame_disaggregated p)
      (fun _ _ _ _ ending stays => (disaggregated_coherent_iff ending).mpr stays) written

/-! The model `chat` is deleted, or the leader worker set is, after the application was announced. -/

/-- Everything is there. -/
def allThere : (op : KubeOp) → KubeReply op
  | .get .model _ _ => .ok (chatModel .ready)
  | .get .lws _ name => .ok (lwsNamed name 1)
  | .get .service _ name => .ok ⟨llmMeta.namespace_,name,[],[],[]⟩
  | _ => .error (.other "")

/-- The model is gone. -/
def modelGone : (op : KubeOp) → KubeReply op
  | .get .model _ _ => .error (.notFound "arksmodels.arks.ai \"chat\" not found")
  | op => allThere op

/-- The leader worker set is gone. -/
def lwsGone : (op : KubeOp) → KubeReply op
  | .get .lws _ _ => .error (.notFound "leaderworkersets \"llm\" not found")
  | op => allThere op

/-- A pass over `llm` with the given replies. -/
def passOver (answer : (op : KubeOp) → KubeReply op)
    (progress : ApplicationProgress) : List KubeCall × ArksApplication × Outcome :=
  replay answer ((arksApplicationReconciler ⟨fun _ => "",id⟩).reconcile (llmPlain progress))

/-- The status of `llm` once it is announced. -/
def announcedStatus : ApplicationProgress := (passOver allThere ⟨none,[]⟩).2.1.status.toApplicationProgress

theorem passOver_written (answer : (op : KubeOp) → KubeReply op) {progress : ApplicationProgress}
    (written : Written (arksApplicationReconciler ⟨fun _ => "",id⟩) (fun _ _ => True) progress)
    (ends : (passOver answer progress).2.2 ≠ .panicked)
    (reads : (passOver answer progress).1.all (fun call => kindOf call.1 ≠ .application) = true) :
    Written (arksApplicationReconciler ⟨fun _ => "",id⟩) (fun _ _ => True)
      (passOver answer progress).2.1.status.toApplicationProgress := by
  refine .pass (writes_of_runs rfl (runs_replay answer _) ends) written (fun sent stored is => ?_) trivial
  exact absurd (List.all_eq_true.mp reads _ is) (by simp [kindOf])

/-- Both ways to lose a ready application: Failed with Ready, and Running without it. -/
theorem ready_application_lost :
    (∃ s, Written (arksApplicationReconciler ⟨fun _ => "",id⟩) (fun _ _ => True) s ∧
      s.phase = some .failed ∧ Progress.check s .ready = true ∧ ¬ Coherent s) ∧
    ∃ s, Written (arksApplicationReconciler ⟨fun _ => "",id⟩) (fun _ _ => True) s ∧
      s.phase = some .running ∧ Progress.check s .ready = false ∧ ¬ Coherent s := by
  have announced : Written (arksApplicationReconciler ⟨fun _ => "",id⟩) (fun _ _ => True) announcedStatus :=
    passOver_written allThere .unset (by decide) (by decide)
  refine ⟨⟨_,passOver_written modelGone announced (by decide) (by decide),by decide,by decide,fun wrong => ?_⟩,
    ⟨_,passOver_written lwsGone announced (by decide) (by decide),by decide,by decide,?_⟩⟩
  · exact absurd (wrong.failed (by decide)) (by decide)
  · exact not_coherent_running (by decide) (by decide)

end Arks.Coherence
