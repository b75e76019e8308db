import Arks.Finalizers

/-!
Optimistic concurrency. Any number of parties read the objects of an API server, each
through caches that may be as old as they like, and write them back. A write that does not
know the last version is refused, so one that is accepted replaces the version it was
computed from. A relation between the version that a pass was shown and what it sends
therefore holds between successive versions of the object, in whatever order the parties
take their steps, and whichever calls fail or lose their answers.
-/
namespace Arks.Versions
open Programs Programs.Prog Api Kube Finalizers

/-! ### The rest of a pass -/

section Rest
variable {Op : Type} {Reply : Op → Type} {α : Type} {pass p : Prog Op Reply α} {made : List (Call Op Reply)}

/-- What is left of a pass after some of its calls. -/
def Left (pass : Prog Op Reply α) (made : List (Call Op Reply)) (p : Prog Op Reply α) : Prop :=
  ∀ rest value, Runs p rest value → Runs pass (made ++ rest) value

private theorem left_first : Left p [] p := fun _ _ run => run

private theorem left_next {op : Op} {next : Reply op → Prog Op Reply α} (left : Left pass made (.call op next)) (r : Reply op) :
    Left pass (made ++ [⟨op,r⟩]) (next r) := by
  intro rest value run
  rw [List.append_assoc]
  exact left _ _ (.call run)

/-- Some run of every program. -/
theorem runs_exists (answered : ∀ op, Nonempty (Reply op)) (p : Prog Op Reply α) : ∃ calls value, Runs p calls value := by
  induction p with
  | ret value => exact ⟨[],value,.ret⟩
  | call op next step =>
    obtain ⟨r⟩ := answered op
    obtain ⟨calls,value,run⟩ := step r
    exact ⟨_,value,.call run⟩

/-- A call that is next in a pass belongs to some run of it. -/
theorem left_call (answered : ∀ op, Nonempty (Reply op)) {op : Op} {next : Reply op → Prog Op Reply α}
    (left : Left pass made (.call op next)) (r : Reply op) : ∃ rest value, Runs pass (made ++ ⟨op,r⟩ :: rest) value := by
  obtain ⟨rest,value,run⟩ := runs_exists answered (next r)
  exact ⟨rest,value,left _ _ (.call run)⟩

end Rest

/-- Calls with their replies, in order. -/
abbrev Calls := List (Call KubeOp KubeReply)

/-! ### The versions of the objects -/

/-- The API server with all versions of its objects, the newest first. -/
structure Archive where
  server : Cluster
  past : (ref : Ref) → List (Option ref.Object)
  current : ∀ ref, (past ref).head? = some (objectAt server ref)
  keyed : ∀ {ref : Ref} {o : ref.Object}, some o ∈ past ref → refOf ref.kind o = ref

/-- An object that is written gets a new version. -/
def Recorded (a a' : Archive) : Prop :=
  ∀ ref, a'.past ref = a.past ref ∨ a'.past ref = objectAt a'.server ref :: a.past ref

/-- A call. Objects are read in any version they have had, every call may fail before it takes
    effect, and the answer to one that is carried out may be lost. -/
inductive Acts (index : Index) : (op : KubeOp) → Archive → KubeReply op → Archive → Prop
  | cached {k : Kind} {ns name : String} {a : Archive} {r : KubeReply (.get k ns name)} (old : Option (Object k)) :
      old ∈ a.past ⟨k,ns,name⟩ → Found old r → Acts index (.get k ns name) a r a
  | failed {op : KubeOp} {a : Archive} (message : String) : Acts index op a (.error (.other message)) a
  | unheard {op : KubeOp} {a a' : Archive} {r : KubeReply op} (message : String) : Handles index a.server op r a'.server →
      Recorded a a' → Acts index op a (.error (.other message)) a'
  | served {op : KubeOp} {a a' : Archive} {r : KubeReply op} : Handles index a.server op r a'.server → Recorded a a' →
      Acts index op a r a'

/-! ### What the parties send -/

section Sending
variable (T : (k : Kind) → Object k → Object k → Prop)

/-- The versions that a list of calls has shown: those that were read, and those that an update returned. -/
def Shown (calls : Calls) (k : Kind) (v : Object k) : Prop :=
  (∃ ns name, ⟨.get k ns name,.ok v⟩ ∈ calls) ∨ ∃ sent, ⟨.update k sent,.ok v⟩ ∈ calls

/-- What is sent of a custom resource is derived from a version that was shown. -/
def Derived (calls : Calls) {k : Kind} (sent : Object k) (written : Nat → Object k → Object k) : Prop :=
  ∃ v, Shown calls k v ∧ key k sent = key k v ∧ version sent = version v ∧ ∀ n, T k v (written n v)

/-- The calls that a party may make after those it has made. -/
def Permitted (calls : Calls) : KubeOp → Prop
  | .get _ _ _ | .list _ _ _ => True
  | .update k sent => Custom k → Derived T calls sent (fun n v => updated n k v sent)
  | .updateStatus k sent => Custom k → Derived T calls sent (fun n v => statusUpdated n k v sent)
  | .create k _ | .patch k _ | .delete k _ _ => ¬ Custom k

/-- In every run of the program each call is permitted after those before it. -/
def Obeys {ℓ : Type} (p : KubeAction ℓ) : Prop :=
  ∀ calls value, Runs p calls value → ∀ first op r rest, calls = first ++ ⟨op,r⟩ :: rest → Permitted T first op

/-- What users and others do to a custom resource. -/
abbrev Edits := (ref : Ref) → Option ref.Object → Option ref.Object → Prop

variable (U : Edits)

/-- How a custom resource gets from one version to the next; only users delete it. -/
inductive Succeeds (ref : Ref) : Option ref.Object → Option ref.Object → Prop
  | again (old : Option ref.Object) : Succeeds ref old old
  | user {old new : Option ref.Object} : U ref old new → Succeeds ref old new
  | written {v o : ref.Object} : T ref.kind v o → (Deleted o → Deleted v) → Succeeds ref (some v) (some o)
  | released {v o : ref.Object} : T ref.kind v o → Deleted v → Succeeds ref (some v) none

/-- A version that is announced again, or a new one. -/
structure Renews (a a' : Archive) (ref : Ref) (new : Option ref.Object) : Prop where
  succeeds : Succeeds T U ref (objectAt a.server ref) new
  numbered : new = objectAt a.server ref ∨ ∀ o ∈ new, a.server.revision < version o ∧ version o ≤ a'.server.revision

/-- A step of the archive. -/
structure Advances (a a' : Archive) : Prop where
  revision : a.server.revision ≤ a'.server.revision
  versions : ∀ ref, Custom ref.kind →
    a'.past ref = a.past ref ∨ ∃ new, a'.past ref = new :: a.past ref ∧ Renews T U a a' ref new

/-- What users and others do: an edit gives the object a new version. -/
structure Changes (a a' : Archive) : Prop where
  revision : a.server.revision ≤ a'.server.revision
  versions : ∀ ref, Custom ref.kind → a'.past ref = a.past ref ∨ ∃ new, a'.past ref = new :: a.past ref ∧
    U ref (objectAt a.server ref) new ∧ ∀ o ∈ new, a.server.revision < version o ∧ version o ≤ a'.server.revision

/-- Each version is told by its number. -/
structure Numbered (a : Archive) : Prop where
  bounded : ∀ ref, Custom ref.kind → ∀ o, some o ∈ a.past ref → version o ≤ a.server.revision
  unique : ∀ ref, Custom ref.kind → ∀ o o', some o ∈ a.past ref → some o' ∈ a.past ref → version o = version o' → o = o'

/-- A custom resource was not there at first, and each version succeeds the one before it. -/
structure History (a : Archive) : Prop where
  first : ∀ ref, Custom ref.kind → (a.past ref).getLast? = some none
  chain : ∀ ref, Custom ref.kind → (a.past ref).IsChain (fun new old => Succeeds T U ref old new)

/-- No other version of the object has or will have the number of this one. -/
structure Knows (a : Archive) (k : Kind) (v : Object k) : Prop where
  bounded : version v ≤ a.server.revision
  unique : ∀ ns name, key k v = (ns,name) → ∀ o : Object k, some o ∈ a.past ⟨k,ns,name⟩ → version o = version v → o = v

/-- All that was shown of custom resources is known. -/
def KnowsAll (a : Archive) (calls : Calls) : Prop := ∀ k v, Custom k → Shown calls k v → Knows a k v

end Sending

section Steps
variable {T : (k : Kind) → Object k → Object k → Prop} {U : Edits} {index : Index}
  {a a' : Archive} {calls : Calls} {op : KubeOp} {r : KubeReply op} {k : Kind}

theorem current_mem (a : Archive) (ref : Ref) : objectAt a.server ref ∈ a.past ref := List.mem_of_head? (a.current ref)

theorem past_key {ns name : String} {v : Object k} (is : some v ∈ a.past ⟨k,ns,name⟩) : key k v = (ns,name) := by
  have same := @Archive.keyed a ⟨k,ns,name⟩ v is
  simp only [refOf,Ref.mk.injEq,true_and] at same
  exact Prod.ext same.1 same.2

private theorem advances_refl (a : Archive) : Advances T U a a := ⟨le_rfl,fun _ _ => .inl rfl⟩

private theorem changes_advances (changes : Changes U a a') : Advances T U a a' := by
  refine ⟨changes.revision,fun ref custom => (changes.versions ref custom).imp id ?_⟩
  rintro ⟨new,same,edit,fresh⟩
  exact ⟨new,same,.user edit,.inr fresh⟩

/-! ### What a step keeps -/

theorem advances_mem (advances : Advances T U a a') (ref : Ref) (custom : Custom ref.kind) {o : ref.Object}
    (is : some o ∈ a'.past ref) :
    some o ∈ a.past ref ∨
      (a.server.revision < version o ∧ version o ≤ a'.server.revision ∧ a'.past ref = some o :: a.past ref) := by
  rcases advances.versions ref custom with same | ⟨new,same,renews⟩
  · exact .inl (same ▸ is)
  rw [same] at is
  rcases List.mem_cons.mp is with rfl | old
  · rcases renews.numbered with again | fresh
    · exact .inl (again ▸ current_mem a ref)
    · exact .inr ⟨(fresh o rfl).1,(fresh o rfl).2,same⟩
  · exact .inl old

theorem advances_numbered (advances : Advances T U a a') (numbered : Numbered a) : Numbered a' where
  bounded ref custom o is := by
    rcases advances_mem advances ref custom is with old | ⟨_,bound,_⟩
    · exact (numbered.bounded ref custom o old).trans advances.revision
    · exact bound
  unique ref custom o o' is is' same := by
    rcases advances_mem advances ref custom is with old | ⟨fresh,_,here⟩
    · rcases advances_mem advances ref custom is' with old' | ⟨fresh,_,_⟩
      · exact numbered.unique ref custom o o' old old' same
      · have := numbered.bounded ref custom o old
        omega
    · rw [here] at is'
      rcases List.mem_cons.mp is' with new | old'
      · exact (Option.some.inj new).symm
      · have := numbered.bounded ref custom o' old'
        omega

theorem advances_history (advances : Advances T U a a') (history : History T U a) : History T U a' where
  first ref custom := by
    rcases advances.versions ref custom with same | ⟨new,same,_⟩
    · rw [same,history.first ref custom]
    · rw [same,List.getLast?_cons,history.first ref custom,Option.getD_some]
  chain ref custom := by
    rcases advances.versions ref custom with same | ⟨new,same,renews⟩
    · rw [same]
      exact history.chain ref custom
    · rw [same,List.isChain_cons]
      refine ⟨fun old first => ?_,history.chain ref custom⟩
      rw [a.current ref] at first
      cases first
      exact renews.succeeds

theorem advances_knows (advances : Advances T U a a') (custom : Custom k) {v : Object k} (knows : Knows a k v) :
    Knows a' k v where
  bounded := knows.bounded.trans advances.revision
  unique ns name place o is same := by
    rcases advances_mem advances ⟨k,ns,name⟩ custom is with old | ⟨fresh,_,_⟩
    · exact knows.unique ns name place o old same
    · have := knows.bounded
      omega

/-! ### What a call does -/

/-- A write that is accepted replaces the version it was derived from. -/
theorem derived_stored {sent stored : Object k} {written : Nat → Object k → Object k} (derived : Derived T calls sent written)
    (custom : Custom k) (known : KnowsAll a calls) (present : a.server.stored k sent = some stored)
    (current : Current k stored sent) : ∀ n, T k stored (written n stored) := by
  obtain ⟨v,shown,place,same,moves⟩ := derived
  unfold Cluster.stored at present
  rw [place] at present
  have is : some stored ∈ a.past ⟨k,(key k v).1,(key k v).2⟩ := present ▸ current_mem a ⟨k,(key k v).1,(key k v).2⟩
  have told := (known k v custom shown).unique _ _ rfl stored is ((version_current current).trans same)
  exact told ▸ moves

section Deletion
variable {stored sent o : Object k} {n : Nat}

theorem deleted_updated : Deleted (updated n k stored sent) → Deleted stored := by
  cases k <;> simp [Deleted,meta?,updated,settled]

private theorem deleted_statusUpdated : Deleted (statusUpdated n k stored sent) → Deleted stored := by
  cases k <;> simp [Deleted,meta?,statusUpdated]

private theorem released_deleted (gone : released k o = true) : Deleted o := by
  unfold released at gone
  cases is : meta? k o with
  | none =>
    rw [is] at gone
    cases gone
  | some m =>
    rw [is,Option.any_some,Bool.and_eq_true] at gone
    exact ⟨m,is,gone.1⟩

end Deletion

/-- A write that is accepted gives the object a new version. -/
theorem renews_written (ref : Ref) {v o : ref.Object} (old : objectAt a.server ref = some v)
    (new : objectAt a'.server ref = some o)
    (moves : T ref.kind v o) (kept : Deleted o → Deleted v) (number : version o = a.server.revision + 1)
    (revision : a'.server.revision = a.server.revision + 1) : Renews T U a a' ref (objectAt a'.server ref) where
  succeeds := by
    rw [old,new]
    exact .written moves kept
  numbered := by
    refine .inr (fun o' is => ?_)
    rw [new] at is
    cases is
    omega

/-- A write that is accepted may also let the object go. -/
theorem renews_released (ref : Ref) {v o : ref.Object} (old : objectAt a.server ref = some v)
    (new : objectAt a'.server ref = none)
    (moves : T ref.kind v o) (kept : Deleted v) : Renews T U a a' ref (objectAt a'.server ref) where
  succeeds := by
    rw [old,new]
    exact .released moves kept
  numbered := by
    refine .inr (fun o' is => ?_)
    rw [new] at is
    cases is

/-- A permitted call that is carried out moves the archive on. -/
theorem handles_advances (permitted : Permitted T calls op) (known : KnowsAll a calls)
    (handled : Handles index a.server op r a'.server) (recorded : Recorded a a') : Advances T U a a' := by
  refine ⟨handles_revision handled,fun ref custom => (recorded ref).imp id (fun same => ⟨_,same,?_⟩)⟩
  have again : objectAt a'.server ref = objectAt a.server ref → Renews T U a a' ref (objectAt a'.server ref) :=
    fun kept => ⟨kept ▸ .again _,.inl kept⟩
  have aside : ∀ {k : Kind} {ns name : String}, ¬ Custom k → ref ≠ ⟨k,ns,name⟩ := by
    rintro k ns name other rfl
    exact other custom
  obtain ⟨c',after⟩ : ∃ c', a'.server = c' := ⟨_,rfl⟩
  rw [after] at handled
  cases handles_cases handled with
  | got | listed | refused => exact again (by rw [after])
  | created | patched => exact again (by rw [after]; exact put_at_other (aside permitted))
  | deleted => exact again (by rw [after]; exact remove_at_other (aside permitted))
  | @statusUpdated k o stored present current =>
    have place : key k (statusUpdated (a.server.revision + 1) k stored o) = key k o := by
      rw [key_statusUpdated,a.server.keyed present]
    by_cases here : ref = refOf k o
    · subst here
      have moves := derived_stored (permitted custom) custom known present current (a.server.revision + 1)
      exact renews_written (refOf k o) present (by rw [after]; exact put_at place) moves deleted_statusUpdated
        (version_statusUpdated custom) (by rw [after]; rfl)
    · exact again (by rw [after]; exact put_at_other (by rwa [refOf,place]))
  | @updated k o stored present current stays =>
    by_cases here : ref = refOf k o
    · subst here
      have moves := derived_stored (permitted custom) custom known present current (a.server.revision + 1)
      exact renews_written (refOf k o) present (by rw [after]; exact put_at (key_updated ..)) moves deleted_updated
        (version_updated custom) (by rw [after]; rfl)
    · exact again (by rw [after]; exact put_at_other (by rwa [refOf,key_updated]))
  | @released k o stored present current gone =>
    by_cases here : ref = refOf k o
    · subst here
      have gone' : objectAt a'.server (refOf k o) = none := by
        rw [after]
        exact remove_at _ _
      have moves := derived_stored (permitted custom) custom known present current (a.server.revision + 1)
      exact renews_released (refOf k o) present gone' moves (deleted_updated (released_deleted gone))
    · exact again (by rw [after]; exact remove_at_other here)

theorem acts_advances (permitted : Permitted T calls op) (known : KnowsAll a calls) (acts : Acts index op a r a') :
    Advances T U a a' := by
  cases acts with
  | cached | failed => exact advances_refl a
  | unheard _ handled recorded => exact handles_advances permitted known handled recorded
  | served handled recorded => exact handles_advances permitted known handled recorded

/-! ### What a call shows -/

/-- What is read of an object is one of its versions. -/
theorem read_version {ns name : String} {r : KubeReply (.get k ns name)} (acts : Acts index (.get k ns name) a r a') :
    ∀ v, r = .ok v → some v ∈ a.past ⟨k,ns,name⟩ := by
  cases acts with
  | cached old is found =>
    rintro v rfl
    exact found_ok.mp found ▸ is
  | failed | unheard =>
    rintro v wrong
    cases wrong
  | served handled =>
    rintro v rfl
    exact found_ok.mp handled.2 ▸ current_mem a ⟨k,ns,name⟩

/-- A call forgets no version. -/
theorem acts_past (acts : Acts index op a r a') {ref : Ref} {o : Option ref.Object} (is : o ∈ a.past ref) : o ∈ a'.past ref := by
  have grows : Recorded a a' → o ∈ a'.past ref := by
    intro recorded
    rcases recorded ref with same | same
    · rwa [same]
    · rw [same]
      exact .tail _ is
  cases acts with
  | cached | failed => exact is
  | unheard _ _ recorded => exact grows recorded
  | served _ recorded => exact grows recorded

/-- What an update returns is the version that it has written, which may have let the object go. -/
theorem update_version {sent : Object k} {r : KubeReply (.update k sent)} (acts : Acts index (.update k sent) a r a') :
    ∀ v, r = .ok v → a'.server.revision = a.server.revision + 1 ∧ (∃ stored, v = updated (a.server.revision + 1) k stored sent) ∧
      ∀ o, a'.server.stored k sent = some o → o = v := by
  cases acts with
  | failed | unheard =>
    rintro v wrong
    cases wrong
  | served handled =>
    rintro v rfl
    obtain ⟨c',after⟩ : ∃ c', a'.server = c' := ⟨_,rfl⟩
    obtain ⟨reply,told⟩ : ∃ reply : KubeReply (.update k sent), (.ok v : KubeReply (.update k sent)) = reply := ⟨_,rfl⟩
    rw [after,told] at handled
    rw [after]
    cases handles_cases handled with
    | refused => cases told
    | @updated _ _ stored =>
      cases told
      refine ⟨rfl,⟨stored,rfl⟩,fun o is => ?_⟩
      have new := put_at (c := a.server) (key_updated (a.server.revision + 1) k stored sent)
      exact Option.some.inj (is.symm.trans new)
    | @released _ _ stored =>
      cases told
      refine ⟨rfl,⟨stored,rfl⟩,fun o is => ?_⟩
      have absent := remove_at (c := a.server) (k := k) (key k sent).1 (key k sent).2
      cases is.symm.trans absent

private theorem knows_of_mem (numbered : Numbered a) {ns name : String} (custom : Custom k) {v : Object k}
    (is : some v ∈ a.past ⟨k,ns,name⟩) : Knows a k v := by
  refine ⟨numbered.bounded ⟨k,ns,name⟩ custom v is,fun ns' name' place o is' same => ?_⟩
  have here : refOf k v = ⟨k,ns,name⟩ := @Archive.keyed a ⟨k,ns,name⟩ v is
  rw [refOf_eq place] at here
  cases here
  exact numbered.unique ⟨k,ns,name⟩ custom o v is' is same

/-- A party knows what its next call shows, and still knows what it knew. -/
theorem acts_known (numbered : Numbered a) (permitted : Permitted T calls op) (known : KnowsAll a calls)
    (acts : Acts index op a r a') : KnowsAll a' (calls ++ [⟨op,r⟩]) := by
  have advances : Advances T (fun _ _ _ => False) a a' := acts_advances permitted known acts
  intro k v custom shown
  have still : Shown calls k v → Knows a' k v := fun before => advances_knows advances custom (known k v custom before)
  rcases shown with ⟨ns,name,is⟩ | ⟨sent,is⟩
  · rcases List.mem_append.mp is with before | here
    · exact still (.inl ⟨ns,name,before⟩)
    · cases List.mem_singleton.mp here
      exact advances_knows advances custom (knows_of_mem numbered custom (read_version acts v rfl))
  · rcases List.mem_append.mp is with before | here
    · exact still (.inr ⟨sent,before⟩)
    · cases List.mem_singleton.mp here
      obtain ⟨revision,⟨stored,rfl⟩,unique⟩ := update_version acts v rfl
      refine ⟨by rw [version_updated custom,revision],fun ns name place o is same => ?_⟩
      rw [key_updated] at place
      rw [version_updated custom] at same
      rcases advances_mem advances ⟨k,ns,name⟩ custom is with old | ⟨_,_,new⟩
      · have := numbered.bounded ⟨k,ns,name⟩ custom o old
        omega
      · have here := a'.current ⟨k,ns,name⟩
        rw [new] at here
        refine unique o ?_
        rw [Cluster.stored,place]
        exact (Option.some.inj here).symm

/-! ### What follows for the versions -/

section Lives
variable {ref : Ref} {past : List (Option ref.Object)}

/-- What new objects have and every move keeps holds of all versions. -/
theorem chain_all {Good : ref.Object → Prop} (chain : past.IsChain (fun new old => Succeeds T U ref old new))
    (first : past.getLast? = some none) (edits : ∀ old o, U ref old (some o) → (∀ v ∈ old, Good v) → Good o)
    (writes : ∀ v o, T ref.kind v o → Good v → Good o) : ∀ o, some o ∈ past → Good o := by
  induction past with
  | nil => cases first
  | cons new past ih =>
    cases past with
    | nil =>
      cases first
      intro o is
      simp at is
    | cons old past =>
      obtain ⟨moved,chain⟩ := List.isChain_cons_cons.mp chain
      have before := ih chain (by simpa [List.getLast?_cons] using first)
      intro o is
      rcases List.mem_cons.mp is with rfl | is
      · cases moved with
        | again => exact before o (by simp)
        | user edit => exact edits old o edit (fun v same => before v (by simp [Option.mem_def.mp same]))
        | @written v _ moves => exact writes v o moves (before v (by simp))
      · exact before o is

/-- The versions from one on. -/
theorem chain_from {later : List (Option ref.Object)}
    (chain : (later ++ past).IsChain (fun new old => Succeeds T U ref old new)) :
    past.IsChain (fun new old => Succeeds T U ref old new) := (List.isChain_append.mp chain).2.1

/-- What every move between two versions of one life of an object has, two versions of it have that are further apart. -/
theorem chain_later {P : ref.Object → ref.Object → Prop} {new old : ref.Object} {between earlier : List (Option ref.Object)}
    (refl : ∀ v, P v v) (trans : ∀ v o o', P v o → P o o' → P v o')
    (moves : ∀ v o, some v ∈ between ++ some old :: earlier → T ref.kind v o ∨ U ref (some v) (some o) → P v o)
    (chain : (some new :: (between ++ some old :: earlier)).IsChain (fun new old => Succeeds T U ref old new))
    (alive : none ∉ between) : P old new := by
  have single : ∀ v o, some v ∈ between ++ some old :: earlier → Succeeds T U ref (some v) (some o) → P v o := by
    intro v o is moved
    cases moved with
    | again => exact refl v
    | user edit => exact moves v o is (.inr edit)
    | written move => exact moves v o is (.inl move)
  clear moves
  induction between generalizing new with
  | nil => exact single old new (by simp) (List.isChain_cons_cons.mp chain).1
  | cons version between ih =>
    obtain ⟨moved,chain⟩ := List.isChain_cons_cons.mp chain
    cases version with
    | none => simp at alive
    | some middle =>
      have before := ih chain (by simpa using alive) (fun v o is => single v o (.tail _ is))
      exact trans old middle new before (single middle new (by simp) moved)

/-- One life of a custom resource: what new objects have and every move keeps, and what the moves that keep it make of
    a version, holds between any two versions of it. -/
theorem history_later (ref : Ref) (Good : ref.Object → Prop) (P : ref.Object → ref.Object → Prop) (history : History T U a)
    (custom : Custom ref.kind) (refl : ∀ v, P v v) (trans : ∀ v o o', P v o → P o o' → P v o')
    (creates : ∀ o, U ref none (some o) → Good o) (edits : ∀ v o, U ref (some v) (some o) → Good v → Good o ∧ P v o)
    (writes : ∀ v o, T ref.kind v o → Good v → Good o ∧ P v o) {later between earlier : List (Option ref.Object)}
    {new old : ref.Object} (versions : a.past ref = later ++ some new :: (between ++ some old :: earlier))
    (alive : none ∉ between) : P old new := by
  have good : ∀ v, some v ∈ a.past ref → Good v := by
    refine chain_all (history.chain ref custom) (history.first ref custom) ?_
      (fun v o moves before => (writes v o moves before).1)
    rintro (_ | v) o edit before
    · exact creates o edit
    · exact (edits v o edit (before v rfl)).1
  have chain := history.chain ref custom
  rw [versions] at chain good
  refine chain_later refl trans ?_ (chain_from chain) alive
  intro v o is moves
  have before := good v (List.mem_append_right _ (.tail _ is))
  rcases moves with moves | edit
  · exact (writes v o moves before).2
  · exact (edits v o edit before).2

end Lives

end Steps

/-! ### Runs -/

section Runs
variable {ι ℓ : Type} [DecidableEq ι] {T : (k : Kind) → Object k → Object k → Prop} {U : Edits}
  {index : Index}

/-- The parties over one API server: each runs its passes one after the other. -/
def system (index : Index) (U : Edits) (pass : ι → KubeAction ℓ → Prop) :
    System KubeOp KubeReply ι Archive ℓ where
  act _ := Acts index
  env := Changes U
  start i _ p := pass i p

/-- The archive of a cluster from now on. -/
def Archive.since (c : Cluster) : Archive where
  server := c
  past ref := [objectAt c ref]
  current _ := rfl
  keyed {ref o} is := by
    rw [refOf,c.keyed (List.mem_singleton.mp is).symm]

private theorem since_numbered {c : Cluster}
    (bounded : ∀ ref, Custom ref.kind → ∀ o, objectAt c ref = some o → version o ≤ c.revision) :
    Numbered (.since c) where
  bounded ref custom o is := bounded ref custom o (List.mem_singleton.mp is).symm
  unique _ _ _ _ is is' _ := Option.some.inj ((List.mem_singleton.mp is).trans (List.mem_singleton.mp is').symm)

/-- Nothing is there yet. -/
def Archive.fresh : Archive := .since .empty

private theorem fresh_numbered : Numbered Archive.fresh := since_numbered (fun _ _ _ is => by cases is)

private theorem fresh_history : History T U Archive.fresh := ⟨fun _ _ => rfl,fun _ _ => List.isChain_singleton _⟩

theorem answered (op : KubeOp) : Nonempty (KubeReply op) := ⟨.error (.other "")⟩

variable (T) in
/-- What is left of a pass that obeys, of which the calls so far are known. -/
def Begun (p : KubeAction ℓ) (a : Archive) : Prop := ∃ pass calls, Obeys T pass ∧ Left pass calls p ∧ KnowsAll a calls

private theorem unshown {a : Archive} : KnowsAll a [] := by
  rintro k v _ (⟨_,_,is⟩ | ⟨_,is⟩) <;> cases is

theorem begun_first {p : KubeAction ℓ} {a : Archive} (obeys : Obeys T p) : Begun T p a := ⟨p,[],obeys,left_first,unshown⟩

private theorem begun_next {op : KubeOp} {next : KubeReply op → KubeAction ℓ} {a : Archive} (begun : Begun T (.call op next) a)
    (numbered : Numbered a) :
    (∃ calls, Permitted T calls op ∧ KnowsAll a calls) ∧ ∀ r a', Acts index op a r a' → Begun T (next r) a' := by
  obtain ⟨pass,calls,obeys,left,known⟩ := begun
  have permitted : Permitted T calls op := by
    obtain ⟨r⟩ := answered op
    obtain ⟨later,value,run⟩ := left_call answered left r
    exact obeys _ value run calls op r later rfl
  refine ⟨⟨calls,permitted,known⟩,fun r a' acts => ⟨pass,calls ++ [⟨op,r⟩],obeys,left_next left r,?_⟩⟩
  exact acts_known numbered permitted known acts

/-- Parties that obey: in every state reached, the versions of an object succeed one another. -/
theorem reach_history {pass : ι → KubeAction ℓ → Prop} {legal : Config KubeOp KubeReply ι Archive ℓ → Prop}
    {c d : Config KubeOp KubeReply ι Archive ℓ} (passes : ∀ i p, pass i p → Obeys T p) (initial : c.shared = Archive.fresh)
    (resting : ∀ i, ∃ l, c.prog i = .ret l) (run : Reach (system index U pass) legal c d) : History T U d.shared := by
  refine (reach_complies (I := fun a => Numbered a ∧ History T U a) (R := fun _ => Advances T U)
    (G := fun _ op a => ∃ calls, Permitted T calls op ∧ KnowsAll a calls) (C := fun _ => Begun T)
    ?_ ?_ ?_ ?_ ?_ ?_ ?_ run).1.2
  · rintro i p a a' ⟨pass,calls,obeys,rest,known⟩ advances
    exact ⟨pass,calls,obeys,rest,fun k v custom shown => advances_knows advances custom (known k v custom shown)⟩
  · rintro a a' ⟨numbered,history⟩ changes
    have advances : Advances T U a a' := changes_advances changes
    exact ⟨⟨advances_numbered advances numbered,advances_history advances history⟩,fun _ => advances⟩
  · rintro i op a r a' ⟨numbered,history⟩ ⟨calls,permitted,known⟩ acts
    have advances : Advances T U a a' := acts_advances permitted known acts
    exact ⟨⟨advances_numbered advances numbered,advances_history advances history⟩,fun _ _ => advances⟩
  · intro d i op next _ holds _ begun
    exact begun_next begun holds.1
  · intro i l p a _ _ starts
    exact begun_first (passes i p starts)
  · rw [initial]
    exact ⟨fresh_numbered,fresh_history⟩
  · intro i
    obtain ⟨l,rest⟩ := resting i
    rw [rest]
    refine begun_first (fun calls value run first op r later split => ?_)
    rw [(runs_ret.mp run).1] at split
    simp at split

end Runs

/-! ### An archive that answers -/

section Answers
variable {index : Index} {U : Edits}

/-- The server moves on, and what was written is archived. -/
def Archive.moves (a : Archive) (c : Cluster) (written : Option Ref)
    (aside : ∀ ref, written ≠ some ref → objectAt c ref = objectAt a.server ref) : Archive where
  server := c
  past ref := if written = some ref then objectAt c ref :: a.past ref else a.past ref
  current ref := by
    split
    · rfl
    · rename_i other
      rw [a.current,aside ref other]
  keyed {ref o} is := by
    split at is
    · rcases List.mem_cons.mp is with new | old
      · rw [refOf,c.keyed new.symm]
      · exact a.keyed old
    · exact a.keyed is

/-- A call is carried out. -/
def Archive.perform (op : KubeOp) (a : Archive) : KubeReply op × Archive :=
  match op with
  | .list _ _ _ => (.error (.other "etcdserver: request timed out"),a)
  | op => ((carryOut op a.server).1,a.moves (carryOut op a.server).2 (target op) (fun _ => carryOut_aside))

private theorem moves_recorded (a : Archive) (c : Cluster) (written : Option Ref)
    (aside : ∀ ref, written ≠ some ref → objectAt c ref = objectAt a.server ref) : Recorded a (a.moves c written aside) := by
  intro ref
  by_cases here : written = some ref
  · exact .inr (if_pos here)
  · exact .inl (if_neg here)

theorem Archive.perform_acts (op : KubeOp) (a : Archive) : Acts index op a (a.perform op).1 (a.perform op).2 := by
  cases op with
  | list => exact .failed _
  | get | create | update | updateStatus | patch | delete =>
    exact .served (carryOut_handles _ a.server (by simp)) (moves_recorded a _ _ (fun _ => carryOut_aside))

/-- A user writes an object. -/
def Archive.write (a : Archive) (k : Kind) (o : Object k) : Archive :=
  a.moves (a.server.put k o) (some (refOf k o)) (fun _ other => put_at_other (fun same => other (by rw [same])))

theorem Archive.write_changes {a : Archive} {k : Kind} {o : Object k}
    (edit : U (refOf k o) (objectAt a.server (refOf k o)) (some o))
    (numbered : version o = a.server.revision + 1) : Changes U a (a.write k o) := by
  refine ⟨Nat.le_succ _,fun ref _ => ?_⟩
  by_cases here : refOf k o = ref
  · subst here
    have new : objectAt (a.server.put k o) (refOf k o) = some o := put_at rfl
    refine .inr ⟨some o,(if_pos rfl).trans (congrArg (· :: a.past (refOf k o)) new),edit,?_⟩
    rintro _ ⟨⟩
    exact ⟨(Nat.lt_succ_self _).trans_eq numbered.symm,numbered.le⟩
  · exact .inl (if_neg (by simpa using here))

end Answers

end Arks.Versions
