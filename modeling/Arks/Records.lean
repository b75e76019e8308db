import Arks.Versions

/-!
What the versions of objects stand for. A fact about an object may rest on what has
happened: on other objects that have been there, or on something outside the API server. The
parties write only what follows from the answers they got, and these speak of versions,
which no cache and no later write takes back. So what every party sees to in its own calls
holds of all versions of all objects, in whatever order the parties take their steps, and
whichever calls fail or lose their answers.
-/
namespace Arks.Records
open Programs Programs.Prog Api Kube Finalizers Versions

/-- The API server with all versions of its objects, and what has happened beside it. -/
structure World (D : Type) where
  archive : Archive
  beside : D

/-! ### What replies tell -/

/-- What the reply to a call tells for good. -/
def Tells (a : Archive) : (op : KubeOp) → KubeReply op → Prop
  | .get k ns name,.ok v => some v ∈ a.past ⟨k,ns,name⟩
  | .create k o,.ok _ => some o ∈ a.past (refOf k o)
  | .create k o,.error (.alreadyExists _) => ∃ other, some other ∈ a.past (refOf k o)
  | .update k sent,.ok v => ∃ n stored, some stored ∈ a.past (refOf k sent) ∧ v = updated n k stored sent
  | _,_ => True

section Telling
variable {index : Index} {a a' : Archive} {op : KubeOp} {r : KubeReply op}

private theorem tells_grows (grows : ∀ ref o, o ∈ a.past ref → o ∈ a'.past ref) (tells : Tells a op r) : Tells a' op r := by
  cases op with
  | get =>
    cases r with
    | error => trivial
    | ok => exact grows _ _ tells
  | create =>
    rcases r with (_ | _ | _) | _
    · trivial
    · obtain ⟨other,is⟩ := tells
      exact ⟨other,grows _ _ is⟩
    · trivial
    · exact grows _ _ tells
  | update =>
    cases r with
    | error => trivial
    | ok =>
      obtain ⟨n,stored,is,same⟩ := tells
      exact ⟨n,stored,grows _ _ is,same⟩
  | list | updateStatus | patch | delete => trivial

private theorem recorded_grows (recorded : Recorded a a') (ref : Ref) (o : Option ref.Object) (is : o ∈ a.past ref) :
    o ∈ a'.past ref := by
  rcases recorded ref with same | same
  · rwa [same]
  · rw [same]
    exact .tail _ is

private theorem handles_tells (handled : Handles index a.server op r a'.server) (recorded : Recorded a a') : Tells a' op r := by
  obtain ⟨c',after⟩ : ∃ c', a'.server = c' := ⟨_,rfl⟩
  have new : ∀ ref, objectAt c' ref ∈ a'.past ref := fun ref => after ▸ current_mem a' ref
  have old : ∀ ref, objectAt a.server ref ∈ a'.past ref := fun ref => recorded_grows recorded ref _ (current_mem a ref)
  rw [after] at handled
  cases handles_cases handled with
  | @got k ns name r found =>
    cases r with
    | error => trivial
    | ok v =>
      have there := old ⟨k,ns,name⟩
      rwa [show objectAt a.server ⟨k,ns,name⟩ = some v from found_ok.mp found] at there
  | @created k o =>
    have there := new (refOf k o)
    rwa [put_at rfl] at there
  | @updated k o stored present | @released k o stored present =>
    have there := old (refOf k o)
    rw [show objectAt a.server (refOf k o) = some stored from present] at there
    exact ⟨_,stored,there,rfl⟩
  | listed | statusUpdated | patched | deleted => trivial
  | refused refused =>
    cases refused with
    | @present k o stored _ present =>
      have there := old (refOf k o)
      rw [show objectAt a.server (refOf k o) = some stored from present] at there
      exact ⟨stored,there⟩
    | unknown | outdated | unknownStatus | outdatedStatus | unpatched | absent => trivial

private theorem acts_tells (acts : Acts index op a r a') : Tells a' op r := by
  cases acts with
  | @cached k ns name _ r old is found =>
    cases r with
    | error => trivial
    | ok v => rwa [found_ok.mp found] at is
  | failed | unheard => cases op <;> trivial
  | served handled recorded => exact handles_tells handled recorded

end Telling

/-! ### What is written -/

section Writing
variable (Good : (k : Kind) → Object k → Prop)

/-- All versions of all objects are good. -/
def Holds (a : Archive) : Prop := ∀ ref o, some o ∈ a.past ref → Good ref.kind o

/-- A call that leaves good objects. -/
def Writes : KubeOp → Prop
  | .get _ _ _ | .list _ _ _ | .delete _ _ _ => True
  | .create k o => Good k o
  | .update k sent | .patch k sent => ∀ n stored, key k stored = key k sent → Good k stored → Good k (updated n k stored sent)
  | .updateStatus k sent =>
    ∀ n stored, key k stored = key k sent → Good k stored → Good k (statusUpdated n k stored sent)

variable {Good} {index : Index} {a a' : Archive} {op : KubeOp} {r : KubeReply op}

theorem handles_good {c c' : Cluster} (good : ∀ ref o, objectAt c ref = some o → Good ref.kind o) (writes : Writes Good op)
    (handled : Handles index c op r c') : ∀ ref o, objectAt c' ref = some o → Good ref.kind o := by
  have put : ∀ {k : Kind} {o : Object k}, Good k o → ∀ ref o', objectAt (c.put k o) ref = some o' → Good ref.kind o' := by
    intro k o fine ref o' is
    by_cases here : ref = refOf k o
    · subst here
      rw [put_at rfl] at is
      cases is
      exact fine
    · rw [put_at_other here] at is
      exact good ref o' is
  have gone : ∀ {k : Kind} {ns name : String} ref o', objectAt (c.remove k ns name) ref = some o' → Good ref.kind o' := by
    intro k ns name ref o' is
    by_cases here : ref = ⟨k,ns,name⟩
    · subst here
      rw [remove_at] at is
      cases is
    · rw [remove_at_other here] at is
      exact good ref o' is
  have stored_good : ∀ {k : Kind} {o stored : Object k}, c.stored k o = some stored → key k stored = key k o ∧ Good k stored :=
    fun {k o stored} present => ⟨c.keyed present,good (refOf k o) stored present⟩
  cases handles_cases handled with
  | got | listed | refused => exact good
  | created => exact put writes
  | updated present => exact put (writes _ _ (stored_good present).1 (stored_good present).2)
  | statusUpdated present => exact put (writes _ _ (stored_good present).1 (stored_good present).2)
  | patched present => exact put (writes _ _ (stored_good present).1 (stored_good present).2)
  | released | deleted => exact gone

theorem recorded_good (recorded : Recorded a a') (holds : Holds Good a)
    (good : ∀ ref o, objectAt a'.server ref = some o → Good ref.kind o) : Holds Good a' := by
  intro ref o is
  rcases recorded ref with same | same
  · exact holds ref o (same ▸ is)
  · rw [same] at is
    rcases List.mem_cons.mp is with new | old
    · exact good ref o new.symm
    · exact holds ref o old

private theorem acts_good (holds : Holds Good a) (writes : Writes Good op) (acts : Acts index op a r a') : Holds Good a' := by
  have current : ∀ ref o, objectAt a.server ref = some o → Good ref.kind o := fun ref o is => holds ref o (is ▸ current_mem a ref)
  cases acts with
  | cached | failed => exact holds
  | unheard _ handled recorded => exact recorded_good recorded holds (handles_good current writes handled)
  | served handled recorded => exact recorded_good recorded holds (handles_good current writes handled)

end Writing

/-! ### Runs -/

section Runs
variable {D ι ℓ : Type} [DecidableEq ι] (le : D → D → Prop) (Good : World D → (k : Kind) → Object k → Prop)

/-- Versions stay, and what has happened beside the API server has happened. -/
structure Grows (w w' : World D) : Prop where
  past : ∀ ref o, o ∈ w.archive.past ref → o ∈ w'.archive.past ref
  beside : le w.beside w'.beside

/-- From now on the program writes what its answers allow. -/
def Careful (p : KubeAction ℓ) (w : World D) : Prop :=
  ∀ w', Grows le w w' → Holds (Good w') w'.archive → Within (Tells w'.archive) (Writes (Good w')) (fun _ => True) p

/-- The parties over one API server, in a world of which they only see the objects. -/
def system (index : Index) (env : World D → World D → Prop) (pass : ι → KubeAction ℓ → Prop) :
    System KubeOp KubeReply ι (World D) ℓ where
  act _ op w r w' := Acts index op w.archive r w'.archive ∧ w'.beside = w.beside
  env := env
  start i _ p := pass i p

variable {le Good} {index : Index} {env : World D → World D → Prop}
  {pass : ι → KubeAction ℓ → Prop} {w w' w'' : World D}

theorem grows_trans (trans : ∀ a b c, le a b → le b c → le a c) (first : Grows le w w') (second : Grows le w' w'') :
    Grows le w w'' :=
  ⟨fun ref o is => second.past ref o (first.past ref o is),trans _ _ _ first.beside second.beside⟩

theorem acts_grows (refl : ∀ a, le a a) {op : KubeOp} {r : KubeReply op} (acts : Acts index op w.archive r w'.archive)
    (same : w'.beside = w.beside) : Grows le w w' :=
  ⟨fun _ _ is => acts_past acts is,same ▸ refl _⟩

variable (le) in
/-- Parties that write what their answers allow: all versions of all objects are good in every state reached. -/
theorem reach_holds {legal : Config KubeOp KubeReply ι (World D) ℓ → Prop} {c d : Config KubeOp KubeReply ι (World D) ℓ}
    (refl : ∀ a, le a a) (trans : ∀ a b c, le a b → le b c → le a c)
    (stable : ∀ w w' k o, Grows le w w' → Good w k o → Good w' k o)
    (others : ∀ w w', Holds (Good w) w.archive → env w w' → Grows le w w' ∧ Holds (Good w') w'.archive)
    (passes : ∀ i p, pass i p → ∀ w, Holds (Good w) w.archive → Within (Tells w.archive) (Writes (Good w)) (fun _ => True) p)
    (holds : Holds (Good c.shared) c.shared.archive) (resting : ∀ i, ∃ l, c.prog i = .ret l)
    (run : Reach (system index env pass) legal c d) : Holds (Good d.shared) d.shared.archive := by
  refine (reach_complies (I := fun w => Holds (Good w) w.archive) (R := fun _ => Grows le)
    (G := fun _ op w => Writes (Good w) op) (C := fun _ => Careful le Good) ?_ ?_ ?_ ?_ ?_ holds ?_ run).1
  · intro i p w w' careful grows w'' later good
    exact careful w'' (grows_trans trans grows later) good
  · exact fun w w' good moved => ⟨(others w w' good moved).2,fun _ => (others w w' good moved).1⟩
  · rintro i op w r w' good writes ⟨acts,same⟩
    have grows : Grows le w w' := acts_grows refl acts same
    exact ⟨fun ref o is => stable _ _ _ _ grows (acts_good good writes acts ref o is),fun _ _ => grows⟩
  · intro d i op next _ good _ careful
    have now : Grows le d.shared d.shared := ⟨fun _ _ is => is,refl _⟩
    refine ⟨(careful d.shared now good).1,?_⟩
    rintro r w' ⟨acts,same⟩ w'' later good'
    have told : Tells w''.archive op r := tells_grows later.past (acts_tells acts)
    exact (careful w'' (grows_trans trans (acts_grows refl acts same) later) good').2 r told
  · intro i l p w _ _ starts w' _ good
    exact passes i p starts w' good
  · intro i w' _ _
    obtain ⟨l,rest⟩ := resting i
    rw [rest]
    trivial

/-! ### A world that answers -/

/-- A call is carried out. -/
def World.perform (op : KubeOp) (w : World D) : KubeReply op × World D :=
  ((w.archive.perform op).1,⟨(w.archive.perform op).2,w.beside⟩)

private theorem exec_archive {α : Type} (p : KubeAction α) (w : World D) :
    exec World.perform p w = ((exec Archive.perform p w.archive).1,⟨(exec Archive.perform p w.archive).2,w.beside⟩) := by
  induction p generalizing w with
  | ret => rfl
  | call op next ih => exact ih _ _

/-- A pass to its end. -/
theorem settles_pass {c : Config KubeOp KubeReply ι (World D) ℓ} {i : ι} {p : KubeAction ℓ}
    (settles : Settles (system index env pass) (fun _ => True) c w) (is : pass i p) :
    Settles (system index env pass) (fun _ => True) c ⟨(exec Archive.perform p w.archive).2,w.beside⟩ := by
  have acts : ∀ op w, (system index env pass).act i op w (w.perform op).1 (w.perform op).2 :=
    fun op w => ⟨Archive.perform_acts op w.archive,rfl⟩
  have moved := settles_exec settles acts (fun _ => is) (fun _ _ _ _ _ => trivial) (always_true _ _)
  rwa [exec_archive] at moved

end Runs

end Arks.Records
