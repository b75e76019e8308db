import Arks.Kube

/-!
The finalizer protocol over an API server that is read through caches. Every write of an
object is a version of it; a cache holds one of the versions and only goes forward. A party
guards one object with a finalizer and creates children for it. It may create them only
while the object carries the finalizer, and may take the finalizer off only when no child is
left and the version that it knows is a deleted one. Parties that keep to this leave no
child without its object, in whatever order all take their steps.
-/
namespace Arks.Finalizers
open Programs Api Kube

/-! ### Versions of an object -/

/-- An object by its kind and key. -/
structure Ref where
  kind : Kind
  namespace_ : String
  name : String
deriving DecidableEq,Repr

def refOf (k : Kind) (o : Object k) : Ref := ⟨k,(key k o).1,(key k o).2⟩

theorem refOf_eq {k : Kind} {o : Object k} {ns name : String} (same : key k o = (ns,name)) : refOf k o = ⟨k,ns,name⟩ := by
  rw [refOf,same]

abbrev Ref.Object (ref : Ref) : Type := Kube.Object ref.kind

def objectAt (c : Cluster) (ref : Ref) : Option ref.Object := c.objects ref.kind ref.namespace_ ref.name

section Versions
variable {k : Kind} (f : String)

/-- The kinds whose objects carry metadata. -/
def Custom : Kind → Prop
  | .application | .disaggregated | .model | .endpoint => True
  | _ => False

def version (o : Object k) : Nat := ((meta? k o).map ObjectMeta.resourceVersion).getD 0

def Carries (o : Object k) : Prop := ∃ m ∈ meta? k o, f ∈ m.finalizers

def Deleted (o : Object k) : Prop := ∃ m ∈ meta? k o, m.deletionTimestamp.isSome

variable {f} {n : Nat} {stored sent o : Object k}

theorem version_updated (custom : Custom k) : version (updated n k stored sent) = n := by
  cases k <;> first | rfl | cases custom

theorem carries_updated : Carries f (updated n k stored sent) ↔ Carries f sent := by
  cases k <;> simp [Carries,meta?,updated,settled]

theorem version_statusUpdated (custom : Custom k) : version (statusUpdated n k stored sent) = n := by
  cases k <;> first | rfl | cases custom

theorem carries_statusUpdated : Carries f (statusUpdated n k stored sent) ↔ Carries f stored := by
  cases k <;> simp [Carries,meta?,statusUpdated]

theorem released_lacks (gone : released k o = true) : ¬ Carries f o := by
  rintro ⟨m,is,carries⟩
  simp only [released,Option.mem_def.mp is,Option.any_some,Bool.and_eq_true,List.isEmpty_iff] at gone
  simp [gone.2] at carries

theorem version_current (current : Current k stored sent) : version stored = version sent := by
  unfold version
  rw [current]

end Versions

/-! ### The server behind its caches -/

/-- The API server, and for each object its versions from the one in the cache on. -/
structure Watched where
  server : Cluster
  feed : (ref : Ref) → List (Option ref.Object)
  current : ∀ ref, (feed ref).getLast? = some (objectAt server ref)
  keyed : ∀ {ref : Ref} {o : ref.Object}, some o ∈ feed ref → refOf ref.kind o = ref

/-- What the cache has of an object. -/
def Watched.seen (w : Watched) (ref : Ref) : Option ref.Object := (w.feed ref).head?.join

theorem Watched.current_mem (w : Watched) (ref : Ref) : objectAt w.server ref ∈ w.feed ref :=
  List.mem_of_getLast? (w.current ref)

theorem Watched.seen_mem {w : Watched} {ref : Ref} {o : ref.Object} (seen : w.seen ref = some o) : some o ∈ w.feed ref := by
  unfold Watched.seen at seen
  cases versions : w.feed ref with
  | nil => simp [versions] at seen
  | cons first rest =>
    simp only [versions,List.head?_cons,Option.join_some] at seen
    rw [seen]
    exact .head _

/-- A world also remembers for whom a child was created. -/
structure World extends Watched where
  made : Ref → Option Ref

/-- The object is there, and was created for `i`. -/
def World.Owned (w : World) (i ref : Ref) : Prop := (objectAt w.server ref).isSome ∧ w.made ref = some i

/-- What a call has created. -/
def created : (op : KubeOp) → KubeReply op → Option Ref
  | .create k o,.ok _ => some (refOf k o)
  | _,_ => none

/-- The versions that the watch sends of a change: each object that is written gets a new one. -/
def Logged (w w' : World) : Prop :=
  ∀ ref, w'.feed ref = w.feed ref ∨ w'.feed ref = w.feed ref ++ [objectAt w'.server ref]

section Acts
variable (index : Index) (lagging : Kind → Prop) (guessed : KubeOp → Prop)

/-- A call of party `i`. Objects of the lagging kinds are read from the cache, and guessed calls
    are reads that may return anything. Every call may fail before it takes effect. -/
inductive Acts (i : Ref) : (op : KubeOp) → World → KubeReply op → World → Prop
  | cached {k : Kind} {ns name : String} {w : World} {r : KubeReply (.get k ns name)} :
      lagging k → Found (w.seen ⟨k,ns,name⟩) r → Acts i (.get k ns name) w r w
  | guessed {op : KubeOp} {w : World} (r : KubeReply op) : guessed op → Acts i op w r w
  | failed {op : KubeOp} {w : World} (message : String) : Acts i op w (.error (.other message)) w
  | served {op : KubeOp} {w w' : World} {r : KubeReply op} : (∀ k ns name, op = .get k ns name → ¬ lagging k) →
      Handles index w.server op r w'.server → Logged w w' →
      w'.made = (fun ref => if created op r = some ref then some i else w.made ref) → Acts i op w r w'

end Acts

/-- The finalizers of the guarded kinds, the kinds of the children, and the children of an object. -/
structure Guards where
  finalizer : Kind → Option String
  child : Kind → Prop
  family : Ref → List Ref
  custom : ∀ k f, finalizer k = some f → Custom k
  apart : ∀ k, child k → finalizer k = none

/-- What caches, users and others do. Nobody else takes the finalizer of a guarded object off, and
    nobody else creates a child for it. -/
inductive Changes (g : Guards) : World → World → Prop
  | caught {w w' : World} : w'.server = w.server → (∀ ref, w'.feed ref <:+ w.feed ref) → w'.made = w.made → Changes g w w'
  | created {w w' : World} {k : Kind} {o : Object k} : (g.finalizer k).isSome → w.server.stored k o = none →
      version o = w.server.revision + 1 → ¬ Deleted o → w'.server = w.server.put k o → Logged w w' → w'.made = w.made →
      Changes g w w'
  | changed {w w' : World} {k : Kind} {o o' : Object k} {f : String} : g.finalizer k = some f → w.server.stored k o' = some o →
      version o' = w.server.revision + 1 → (Deleted o → Deleted o') → (Carries f o → Carries f o') →
      w'.server = (if released k o' then w.server.remove k (key k o').1 (key k o').2 else w.server.put k o') →
      Logged w w' → w'.made = w.made → Changes g w w'
  | others {w w' : World} : (∀ k, (g.finalizer k).isSome → w'.server.objects k = w.server.objects k) →
      w.server.revision ≤ w'.server.revision → Logged w w' → (∀ i ref, w'.Owned i ref → w.Owned i ref) → Changes g w w'

/-! ### The protocol -/

section Protocol
variable (g : Guards)

/-- The guarded object is there with its finalizer. -/
def Guarded (w : World) (i : Ref) : Prop :=
  ∃ o f, objectAt w.server i = some o ∧ g.finalizer i.kind = some f ∧ Carries f o

/-- What a party knows once it has read a deleted version: everything in its cache is that version or a later one. -/
def Spent (w : World) (i : Ref) (known : Nat) : Prop :=
  known ≤ w.server.revision ∧ ∀ o, some o ∈ w.feed i → known ≤ version o ∧ (version o = known → Deleted o)

/-- The calls that the protocol allows party `i`. -/
inductive Allowed (w : World) (i : Ref) : KubeOp → Prop
  | get (k : Kind) (ns name : String) : Allowed w i (.get k ns name)
  | list (k : Kind) (ns selected : String) : Allowed w i (.list k ns selected)
  | create {k : Kind} (o : Object k) : g.finalizer k = none → (g.child k → refOf k o ∈ g.family i ∧ Guarded g w i) →
      Allowed w i (.create k o)
  | adjust {k : Kind} (o : Object k) : g.finalizer k = none → Allowed w i (.update k o)
  | keep {k : Kind} (o : Object k) {f : String} : refOf k o = i → g.finalizer k = some f → Carries f o → Allowed w i (.update k o)
  | part {k : Kind} (o : Object k) : refOf k o = i → (∀ ref, g.child ref.kind → ¬ w.Owned i ref) → Spent w i (version o) →
      Allowed w i (.update k o)
  | status {k : Kind} (o : Object k) : Allowed w i (.updateStatus k o)
  | patch {k : Kind} (o : Object k) : g.finalizer k = none → Allowed w i (.patch k o)
  | delete (k : Kind) (ns name : String) : g.finalizer k = none → Allowed w i (.delete k ns name)

/-- What holds of the guarded objects in every state. -/
structure Kept (w : World) : Prop where
  behind : ∀ i f, g.finalizer i.kind = some f → ∀ o, some o ∈ w.feed i → version o ≤ w.server.revision
  sorted : ∀ i f, g.finalizer i.kind = some f → (w.feed i).Pairwise (fun a b => ∀ o ∈ a, ∀ o' ∈ b,
    version o ≤ version o' ∧ (version o = version o' → o' = o))
  held : ∀ i f, g.finalizer i.kind = some f → ∀ o, some o ∈ w.feed i → Carries f o → ¬ Deleted o → Guarded g w i
  safe : ∀ i ref, g.child ref.kind → w.Owned i ref → Guarded g w i
  homed : ∀ i ref, g.child ref.kind → w.Owned i ref → ref ∈ g.family i

/-- What a party relies on while others take steps. -/
structure Relies (i : Ref) (w w' : World) : Prop where
  kept : Kept g w → Kept g w'
  guarded : Guarded g w i → Guarded g w' i
  owned : ∀ ref, g.child ref.kind → w'.Owned i ref → w.Owned i ref
  revision : w.server.revision ≤ w'.server.revision
  fresh : ∀ f, g.finalizer i.kind = some f → ∀ o, some o ∈ w'.feed i → some o ∈ w.feed i ∨ w.server.revision < version o

variable {g} {index : Index} {lagging : Kind → Prop} {guessed : KubeOp → Prop} {w w' : World}
  {i j : Ref}

theorem handles_revision {c c' : Cluster} {op : KubeOp} {r : KubeReply op} (handled : Handles index c op r c') :
    c.revision ≤ c'.revision := by
  cases handles_cases handled with
  | got | listed | refused => exact le_refl _
  | created | updated | released | statusUpdated | patched | deleted => exact Nat.le_succ _

section Server
variable {c : Cluster} {k : Kind} {ref : Ref}

theorem put_at {o o' : Object k} (same : key k o' = key k o) : objectAt (c.put k o') (refOf k o) = some o' := by
  have stored := Cluster.put_stored (c := c) o'
  rw [same] at stored
  exact stored

theorem put_at_other {o : Object k} (other : ref ≠ refOf k o) : objectAt (c.put k o) ref = objectAt c ref := by
  refine Cluster.put_aside ?_
  rintro ⟨rfl,same⟩
  exact other (by rw [refOf,same])

theorem remove_at (ns name : String) : objectAt (c.remove k ns name) ⟨k,ns,name⟩ = none := by
  rw [objectAt,Cluster.remove_objects,if_pos ⟨rfl,rfl⟩]

theorem remove_at_other {ns name : String} (other : ref ≠ ⟨k,ns,name⟩) :
    objectAt (c.remove k ns name) ref = objectAt c ref := by
  refine Cluster.remove_aside ?_
  rintro ⟨rfl,same⟩
  cases same
  exact other rfl

end Server

/-- What an allowed call does to a guarded object: its status is written, or its party updates it. -/
inductive Effect (c c' : Cluster) (i ref : Ref) (op : KubeOp) : Prop
  | same : objectAt c' ref = objectAt c ref → Effect c c' i ref op
  | status {stored : ref.Object} (sent : ref.Object) : objectAt c ref = some stored → c'.revision = c.revision + 1 →
      objectAt c' ref = some (statusUpdated (c.revision + 1) ref.kind stored sent) → Effect c c' i ref op
  | update {stored sent : ref.Object} : op = .update ref.kind sent → ref = i → objectAt c ref = some stored →
      Current ref.kind stored sent → c'.revision = c.revision + 1 →
      objectAt c' ref = (if released ref.kind (updated (c.revision + 1) ref.kind stored sent) then none
        else some (updated (c.revision + 1) ref.kind stored sent)) → Effect c c' i ref op

private theorem allowed_effect {op : KubeOp} {r : KubeReply op} {c' : Cluster} {ref : Ref} {f : String}
    (allowed : Allowed g w i op)
    (handled : Handles index w.server op r c') (guarded : g.finalizer ref.kind = some f) : Effect w.server c' i ref op := by
  have aside : ∀ {k : Kind} {ns name : String}, g.finalizer k = none → ref ≠ ⟨k,ns,name⟩ := by
    rintro k ns name free rfl
    rw [free] at guarded
    cases guarded
  have own : ∀ {k : Kind} {o : Object k}, op = .update k o → ref = refOf k o → refOf k o = i := by
    rintro k o rfl rfl
    cases allowed with
    | adjust _ free => exact absurd rfl (aside free)
    | keep _ home => exact home
    | part _ home => exact home
  cases handles_cases handled with
  | got | listed | refused => exact .same rfl
  | created =>
    cases allowed with
    | create _ free => exact .same (put_at_other (aside free))
  | patched =>
    cases allowed with
    | patch _ free => exact .same (put_at_other (aside free))
  | deleted =>
    cases allowed with
    | delete _ _ _ free => exact .same (remove_at_other (aside free))
  | @statusUpdated k o stored present =>
    have place : key k (statusUpdated (w.server.revision + 1) k stored o) = key k o := by
      rw [key_statusUpdated,w.server.keyed present]
    by_cases here : ref = refOf k o
    · subst here
      exact .status o present rfl (put_at place)
    · exact .same (put_at_other (by rwa [refOf,place]))
  | @updated k o stored present current stays =>
    by_cases here : ref = refOf k o
    · subst here
      have kept : ¬ released k (updated (w.server.revision + 1) k stored o) = true := by simp [stays]
      exact .update rfl (own rfl rfl) present current rfl ((put_at (key_updated ..)).trans (if_neg kept).symm)
    · exact .same (put_at_other (by rwa [refOf,key_updated]))
  | @released k o stored present current gone =>
    by_cases here : ref = refOf k o
    · subst here
      exact .update rfl (own rfl rfl) present current rfl ((remove_at _ _).trans (if_pos gone).symm)
    · exact .same (remove_at_other here)

/-! ### Steps -/

/-- Every version is related to the last one. -/
theorem pairwise_last {α : Type} {R : α → α → Prop} {l : List α} {a z : α} (sorted : l.Pairwise R) (last : l.getLast? = some z)
    (is : a ∈ l) : a = z ∨ R a z := by
  obtain ⟨front,rfl⟩ := List.getLast?_eq_some_iff.mp last
  rcases List.mem_append.mp is with is | is
  · exact .inr ((List.pairwise_append.mp sorted).2.2 a is z (by simp))
  · exact .inl (by simpa using is)

/-- A guarded object stays as it is, or gets a new version. -/
def Written (w w' : World) (i : Ref) : Prop :=
  objectAt w'.server i = objectAt w.server i ∨
    ∀ o, objectAt w'.server i = some o → version o = w.server.revision + 1 ∧ w.server.revision < w'.server.revision

/-- The finalizer of a guarded object stays on, or goes when nothing depends on it. -/
def Parts (w w' : World) (i : Ref) : Prop :=
  Guarded g w i → Guarded g w' i ∨ ((∀ o, some o ∈ w.feed i → Deleted o) ∧ ∀ ref, g.child ref.kind → ¬ w.Owned i ref)

theorem logged_mem (logged : Logged w w') {o : i.Object} (is : some o ∈ w'.feed i) :
    some o ∈ w.feed i ∨ objectAt w'.server i = some o := by
  rcases logged i with same | longer
  · exact .inl (same ▸ is)
  · rw [longer,List.mem_append,List.mem_singleton] at is
    exact is.imp id Eq.symm

theorem logged_fresh (logged : Logged w w') (written : Written w w' i) {o : i.Object} (is : some o ∈ w'.feed i) :
    some o ∈ w.feed i ∨ w.server.revision < version o := by
  rcases logged_mem logged is with old | new
  · exact .inl old
  · rcases written with same | next
    · rw [same] at new
      exact .inl (new ▸ w.current_mem i)
    · exact .inr (by rw [(next o new).1]; exact Nat.lt_succ_self _)

theorem kept_logged (kept : Kept g w) (logged : Logged w w') (revision : w.server.revision ≤ w'.server.revision)
    (written : ∀ i f, g.finalizer i.kind = some f → Written w w' i) (parts : ∀ i, Parts (g := g) w w' i)
    (owned : ∀ i ref, g.child ref.kind → w'.Owned i ref → w.Owned i ref ∨ (ref ∈ g.family i ∧ Guarded g w' i)) : Kept g w' where
  behind i f guard o is := by
    rcases logged_mem logged is with old | new
    · exact (kept.behind i f guard o old).trans revision
    · rcases written i f guard with same | next
      · rw [same] at new
        exact (kept.behind i f guard o (new ▸ w.current_mem i)).trans revision
      · obtain ⟨number,later⟩ := next o new
        omega
  sorted i f guard := by
    rcases logged i with same | longer
    · rw [same]
      exact kept.sorted i f guard
    · rw [longer,List.pairwise_append]
      refine ⟨kept.sorted i f guard,List.pairwise_singleton _ _,fun a old b new o has o' has' => ?_⟩
      rw [List.mem_singleton.mp new] at has'
      rcases written i f guard with same | next
      · rw [same] at has'
        rcases pairwise_last (kept.sorted i f guard) (w.current i) old with rfl | related
        · cases has.symm.trans has'
          exact ⟨le_refl _,fun _ => rfl⟩
        · exact related o has o' has'
      · have older := kept.behind i f guard o (Option.mem_def.mp has ▸ old)
        have newer := (next o' has').1
        exact ⟨by omega,fun same => by omega⟩
  held i f guard o is carries alive := by
    rcases logged_mem logged is with old | new
    · rcases parts i (kept.held i f guard o old carries alive) with still | ⟨deleted,_⟩
      · exact still
      · exact absurd (deleted o old) alive
    · exact ⟨o,f,new,guard,carries⟩
  safe i ref child has := by
    rcases owned i ref child has with had | ⟨_,guarded⟩
    · rcases parts i (kept.safe i ref child had) with still | ⟨_,none_left⟩
      · exact still
      · exact absurd had (none_left ref child)
    · exact guarded
  homed i ref child has := by
    rcases owned i ref child has with had | ⟨member,_⟩
    · exact kept.homed i ref child had
    · exact member

/-- A cache that catches up has a part of the versions it had before it. -/
theorem kept_caught (kept : Kept g w) (server : w'.server = w.server) (feed : ∀ ref, w'.feed ref <:+ w.feed ref)
    (made : w'.made = w.made) : Kept g w' := by
  have guarded : ∀ i, Guarded g w' i ↔ Guarded g w i := fun i => by rw [Guarded,server,Guarded]
  have owned : ∀ i ref, w'.Owned i ref ↔ w.Owned i ref := fun i ref => by rw [World.Owned,server,made,World.Owned]
  constructor
  · intro i f guard o is
    rw [server]
    exact kept.behind i f guard o ((feed i).mem is)
  · exact fun i f guard => (kept.sorted i f guard).sublist (feed i).sublist
  · exact fun i f guard o is carries alive => (guarded i).mpr (kept.held i f guard o ((feed i).mem is) carries alive)
  · exact fun i ref child has => (guarded i).mpr (kept.safe i ref child ((owned i ref).mp has))
  · exact fun i ref child has => kept.homed i ref child ((owned i ref).mp has)

theorem relies_refl (i : Ref) (w : World) : Relies g i w w :=
  ⟨id,id,fun _ _ has => has,le_refl _,fun _ _ _ is => .inl is⟩

theorem relies_trans {w'' : World} (first : Relies g i w w') (second : Relies g i w' w'') : Relies g i w w'' where
  kept kept := second.kept (first.kept kept)
  guarded guarded := second.guarded (first.guarded guarded)
  owned ref child has := first.owned ref child (second.owned ref child has)
  revision := first.revision.trans second.revision
  fresh f guard o is := by
    rcases second.fresh f guard o is with is | later
    · exact first.fresh f guard o is
    · exact .inr (lt_of_le_of_lt first.revision later)

/-- What is there was there before, unless the call has created it. -/
theorem handles_present {c c' : Cluster} {op : KubeOp} {r : KubeReply op} {ref : Ref} (handled : Handles index c op r c')
    (present : (objectAt c' ref).isSome) : created op r = some ref ∨ (objectAt c ref).isSome := by
  have overwritten : ∀ {k : Kind} {o o' stored : Object k}, c.stored k o = some stored → key k o' = key k o →
      c' = c.put k o' → (objectAt c ref).isSome := by
    rintro k o o' stored here same rfl
    by_cases at_o : ref = refOf k o
    · subst at_o
      exact Option.isSome_iff_exists.mpr ⟨stored,here⟩
    · rwa [put_at_other (by rwa [refOf,same])] at present
  have removed : ∀ {k : Kind} {ns name : String}, c' = c.remove k ns name → (objectAt c ref).isSome := by
    rintro k ns name rfl
    by_cases at_key : ref = ⟨k,ns,name⟩
    · subst at_key
      rw [remove_at] at present
      cases present
    · rwa [remove_at_other at_key] at present
  cases handles_cases handled with
  | got | listed | refused => exact .inr present
  | @created k o =>
    by_cases at_o : ref = refOf k o
    · exact .inl (by rw [created,at_o])
    · exact .inr (by rwa [put_at_other at_o] at present)
  | updated here | patched here => exact .inr (overwritten here (key_updated ..) rfl)
  | statusUpdated here => exact .inr (overwritten here ((key_statusUpdated ..).trans (c.keyed here)) rfl)
  | released | deleted => exact .inr (removed rfl)

section Acting
variable {op : KubeOp} {r : KubeReply op} (acts : Acts index lagging guessed i op w r w')
include acts

theorem acts_revision : w.server.revision ≤ w'.server.revision := by
  cases acts with
  | cached | guessed | failed => exact le_refl _
  | served _ handled => exact handles_revision handled

theorem acts_logged : Logged w w' := by
  cases acts with
  | cached | guessed | failed => exact fun _ => .inl rfl
  | served _ _ logged => exact logged

/-- Only the party itself gets new children, and only by creating them. -/
theorem acts_owned {ref : Ref} (has : w'.Owned j ref) : w.Owned j ref ∨ (j = i ∧ created op r = some ref) := by
  cases acts with
  | cached | guessed | failed => exact .inl has
  | served _ handled _ made =>
    obtain ⟨present,mine⟩ := has
    replace mine : (if created op r = some ref then some i else w.made ref) = some j := by rw [← mine,made]
    by_cases new : created op r = some ref
    · rw [if_pos new] at mine
      exact .inr ⟨(Option.some.inj mine).symm,new⟩
    · rw [if_neg new] at mine
      exact .inl ⟨(handles_present handled present).resolve_left new,mine⟩

theorem acts_effect {ref : Ref} {f : String} (allowed : Allowed g w i op) (guarded : g.finalizer ref.kind = some f) :
    Effect w.server w'.server i ref op := by
  cases acts with
  | cached | guessed | failed => exact .same rfl
  | served _ handled => exact allowed_effect allowed handled guarded

theorem acts_written {f : String} (allowed : Allowed g w i op) (guarded : g.finalizer j.kind = some f) : Written w w' j := by
  have custom := g.custom _ _ guarded
  cases acts_effect acts allowed guarded with
  | same same => exact .inl same
  | status sent _ revision after =>
    refine .inr (fun o is => ?_)
    rw [after] at is
    cases is
    exact ⟨version_statusUpdated custom,by omega⟩
  | update _ _ _ _ revision after =>
    refine .inr (fun o is => ?_)
    rw [after] at is
    split at is
    · cases is
    · cases is
      exact ⟨version_updated custom,by omega⟩

/-- The finalizer of an object stays on while others act, and while its party sends objects that carry it. -/
theorem acts_guarded (allowed : Allowed g w i op)
    (carrying : j = i → ∀ o f, op = .update i.kind o → g.finalizer i.kind = some f → Carries f o)
    (guarded : Guarded g w j) : Guarded g w' j := by
  obtain ⟨o,f,present,guard,carries⟩ := guarded
  cases acts_effect acts allowed guard with
  | same same => exact ⟨o,f,same.trans present,guard,carries⟩
  | status sent before _ after =>
    rw [present] at before
    cases before
    exact ⟨_,f,after,guard,carries_statusUpdated.mpr carries⟩
  | @update stored sent issued mine before _ _ after =>
    subst mine
    have still : Carries f (updated (w.server.revision + 1) j.kind stored sent) :=
      carries_updated.mpr (carrying rfl sent f issued guard)
    rw [if_neg (fun gone => released_lacks gone still)] at after
    exact ⟨_,f,after,guard,still⟩

/-- A party that parts from its object knows its last version, and so do all the versions in its cache. -/
theorem acts_parts (kept : Kept g w) (allowed : Allowed g w i op) : Parts (g := g) w w' j := by
  intro guarded
  by_cases other : j = i
  swap
  · exact .inl (acts_guarded acts allowed (fun same => absurd same other) guarded)
  subst other
  obtain ⟨o,f,present,guard,carries⟩ := guarded
  cases acts_effect acts allowed guard with
  | same same => exact .inl ⟨o,f,same.trans present,guard,carries⟩
  | status sent before _ after =>
    rw [present] at before
    cases before
    exact .inl ⟨_,f,after,guard,carries_statusUpdated.mpr carries⟩
  | @update stored sent issued _ before current _ after =>
    subst issued
    cases allowed with
    | adjust _ free => rw [free] at guard; cases guard
    | keep _ _ guard' carries' =>
      refine .inl (acts_guarded acts (.keep sent ‹_› guard' carries') (fun _ o f issued guard => ?_) ⟨o,f,present,guard,carries⟩)
      cases issued
      cases guard'.symm.trans guard
      exact carries'
    | part _ _ none_left spent =>
      refine .inr ⟨fun o is => ?_,none_left⟩
      have least := spent.2 o is
      have last : version o ≤ version stored := by
        rcases pairwise_last (kept.sorted j f guard) (w.current j) is with same | related
        · rw [before] at same
          cases same
          exact le_refl _
        · exact (related o rfl stored before).1
      rw [version_current current] at last
      exact least.2 (le_antisymm last least.1)

private theorem created_some {ref : Ref} (new : created op r = some ref) : ∃ k o, op = .create k o ∧ refOf k o = ref := by
  cases op with
  | create k o =>
    cases r with
    | error e => cases new
    | ok => exact ⟨k,o,rfl,Option.some.inj new⟩
  | get | list | update | updateStatus | patch | delete => cases new

/-- An allowed call keeps what holds of the guarded objects. -/
theorem acts_kept (kept : Kept g w) (allowed : Allowed g w i op) : Kept g w' := by
  refine kept_logged kept (acts_logged acts) (acts_revision acts) (fun j f guard => acts_written acts allowed guard)
    (fun j => acts_parts acts kept allowed) (fun j ref child has => ?_)
  rcases acts_owned acts has with had | ⟨rfl,new⟩
  · exact .inl had
  · obtain ⟨k,o,rfl,rfl⟩ := created_some acts new
    cases allowed with
    | create _ free may =>
      obtain ⟨member,guarded⟩ := may child
      exact .inr ⟨member,acts_guarded acts (.create o free may) (fun _ _ _ wrong => by cases wrong) guarded⟩

/-- What a party does stays inside what the others rely on. -/
theorem acts_relies (kept : Kept g w) (allowed : Allowed g w i op) (other : j ≠ i) : Relies g j w w' where
  kept _ := acts_kept acts kept allowed
  guarded guarded := acts_guarded acts allowed (fun same => absurd same other) guarded
  owned _ _ has := (acts_owned acts has).resolve_right (fun mine => other mine.1)
  revision := acts_revision acts
  fresh _ guard _ is := logged_fresh (acts_logged acts) (acts_written acts allowed guard) is

end Acting

/-! ### Others -/

/-- A step that keeps the finalizers on and creates no children is one that everybody relies on. -/
theorem calm_relies (kept : Kept g w) (logged : Logged w w') (revision : w.server.revision ≤ w'.server.revision)
    (written : ∀ i f, g.finalizer i.kind = some f → Written w w' i) (guarded : ∀ i, Guarded g w i → Guarded g w' i)
    (owned : ∀ i ref, g.child ref.kind → w'.Owned i ref → w.Owned i ref) : Kept g w' ∧ ∀ i, Relies g i w w' := by
  have still : Kept g w' := kept_logged kept logged revision written (fun i has => .inl (guarded i has))
    (fun i ref child has => .inl (owned i ref child has))
  exact ⟨still,fun i => ⟨fun _ => still,guarded i,owned i,revision,fun f guard _ is => logged_fresh logged
    (written i f guard) is⟩⟩

/-- A change of one guarded object. -/
theorem change_relies {k : Kind} {o' : Object k} {f : String} (kept : Kept g w) (logged : Logged w w') (made : w'.made = w.made)
    (guard : g.finalizer k = some f) (number : version o' = w.server.revision + 1)
    (change : w'.server = w.server.put k o' ∨ (w'.server = w.server.remove k (key k o').1 (key k o').2 ∧ ¬ Carries f o'))
    (still : Guarded g w (refOf k o') → Carries f o') : Kept g w' ∧ ∀ i, Relies g i w w' := by
  have revision : w'.server.revision = w.server.revision + 1 := by rcases change with same | ⟨same,_⟩ <;> rw [same] <;> rfl
  have aside : ∀ ref, ref ≠ refOf k o' → objectAt w'.server ref = objectAt w.server ref := by
    intro ref other
    rcases change with same | ⟨same,_⟩
    · rw [same,put_at_other other]
    · rw [same]
      exact remove_at_other other
  refine calm_relies kept logged (by omega) (fun i f guard => ?_) (fun i guarded => ?_) (fun i ref child has => ?_)
  · by_cases here : i = refOf k o'
    · subst here
      refine .inr (fun o is => ?_)
      rcases change with same | ⟨same,_⟩
      · rw [same,put_at rfl] at is
        cases is
        exact ⟨number,by omega⟩
      · rw [same] at is
        cases (remove_at _ _).symm.trans is
    · exact .inl (aside i here)
  · by_cases here : i = refOf k o'
    · subst here
      have carries := still guarded
      rcases change with same | ⟨_,lacks⟩
      · exact ⟨o',f,by rw [same]; exact put_at rfl,guard,carries⟩
      · exact absurd carries lacks
    · obtain ⟨o,f,present,guard,carries⟩ := guarded
      exact ⟨o,f,(aside i here).trans present,guard,carries⟩
  · have other : ref ≠ refOf k o' := by
      rintro rfl
      cases (g.apart _ child).symm.trans guard
    rw [World.Owned,aside ref other,made] at has
    exact has

/-- What caches, users and others do stays inside what the parties rely on. -/
theorem changes_relies (kept : Kept g w) (changes : Changes g w w') : Kept g w' ∧ ∀ i, Relies g i w w' := by
  cases changes with
  | caught server feed made =>
    have still := kept_caught kept server feed made
    refine ⟨still,fun i => ⟨fun _ => still,?_,?_,by rw [server],fun _ _ _ is => .inl ((feed i).mem is)⟩⟩
    · rw [Guarded,Guarded,server]
      exact id
    · intro ref _ has
      rw [World.Owned,server,made] at has
      exact has
  | @created k o guard absent number alive server logged made =>
    obtain ⟨f,guard⟩ := Option.isSome_iff_exists.mp guard
    refine change_relies kept logged made guard number (.inl server) (fun guarded => ?_)
    obtain ⟨o',_,present,_⟩ := guarded
    cases absent.symm.trans present
  | @changed k o o' f guard stored number _ keeps server logged made =>
    refine change_relies kept logged made guard number ?_ (fun guarded => ?_)
    · split at server
      · rename_i gone
        exact .inr ⟨server,released_lacks gone⟩
      · exact .inl server
    · obtain ⟨o'',f',present,guard',carries⟩ := guarded
      cases stored.symm.trans present
      cases guard.symm.trans guard'
      exact keeps carries
  | others untouched revision logged owned =>
    have same : ∀ i f, g.finalizer i.kind = some f → objectAt w'.server i = objectAt w.server i := fun i f guard => by
      rw [objectAt,untouched i.kind (by rw [guard]; rfl)]
      rfl
    refine calm_relies kept logged revision (fun i f guard => .inl (same i f guard)) (fun i guarded => ?_)
      (fun i ref _ has => owned i ref has)
    obtain ⟨o,f,present,guard,carries⟩ := guarded
    exact ⟨o,f,(same i f guard).trans present,guard,carries⟩

/-! ### Parties -/

/-- A party that reads a version which carries the finalizer and is not deleted is guarded. -/
theorem guarded_read {f : String} {o : i.Object} (kept : Kept g w) (seen : w.seen i = some o)
    (guard : g.finalizer i.kind = some f)
    (carries : Carries f o) (alive : ¬ Deleted o) : Guarded g w i :=
  kept.held i f guard o (Watched.seen_mem seen) carries alive

theorem spent_read {f : String} {o : i.Object} (kept : Kept g w) (seen : w.seen i = some o) (guard : g.finalizer i.kind = some f)
    (deleted : Deleted o) : Spent w i (version o) := by
  refine ⟨kept.behind i f guard o (Watched.seen_mem seen),fun o' is => ?_⟩
  have sorted := kept.sorted i f guard
  unfold Watched.seen at seen
  cases versions : w.feed i with
  | nil => simp [versions] at seen
  | cons first rest =>
    rw [versions] at seen sorted is
    have first_is : first = some o := seen
    subst first_is
    rcases List.mem_cons.mp is with same | later
    · cases same
      exact ⟨le_refl _,fun _ => deleted⟩
    · obtain ⟨least,same⟩ := (List.pairwise_cons.mp sorted).1 _ later o rfl o' rfl
      exact ⟨least,fun equal => same equal.symm ▸ deleted⟩

theorem spent_later {known : Nat} (spent : Spent w i known) (revision : w.server.revision ≤ w'.server.revision)
    (fresh : ∀ o, some o ∈ w'.feed i → some o ∈ w.feed i ∨ w.server.revision < version o) : Spent w' i known := by
  refine ⟨spent.1.trans revision,fun o is => ?_⟩
  rcases fresh o is with old | later
  · exact spent.2 o old
  · have before := spent.1
    exact ⟨by omega,fun same => by omega⟩

section Programs
variable {α : Type} {p : KubeAction α}

/-- A party keeps to the protocol. -/
abbrev Complies (index : Index) (lagging : Kind → Prop) (guessed : KubeOp → Prop) (g : Guards)
    (i : Ref)
    (p : KubeAction α) (w : World) : Prop :=
  Guar (Acts index lagging guessed i) (Relies g i) (fun op w => Allowed g w i op) (fun _ w => Kept g w) p w

theorem complies_ret {value : α} (kept : Kept g w) : Complies index lagging guessed g i (pure value) w :=
  fun _ moved => moved.kept kept

/-- The calls that a party may always make. -/
theorem complies_mild (mild : Issues (fun op => ∀ w, Allowed g w i op) (fun _ => True) p) (kept : Kept g w) :
    Complies index lagging guessed g i p w :=
  guar_of_within (I := fun w => Kept g w) (fun _ _ kept moved => moved.kept kept)
    (fun _ w _ _ kept may acts => acts_kept acts kept (may w)) (fun _ _ _ _ _ _ => trivial) (fun _ w _ may => may w)
    (fun _ _ kept _ => kept) mild kept

/-- The calls that a party may make while its object carries the finalizer. -/
def Works (g : Guards) (i : Ref) (op : KubeOp) : Prop :=
  (∀ w, Guarded g w i → Allowed g w i op) ∧ ∀ o f, op = .update i.kind o → g.finalizer i.kind = some f → Carries f o

theorem complies_works (works : Issues (Works g i) (fun _ => True) p) (kept : Kept g w) (guarded : Guarded g w i) :
    Complies index lagging guessed g i p w :=
  guar_of_within (I := fun w => Kept g w ∧ Guarded g w i) (fun _ _ holds moved => ⟨moved.kept holds.1,moved.guarded holds.2⟩)
    (fun _ w _ _ holds may acts => ⟨acts_kept acts holds.1 (may.1 w holds.2),
      acts_guarded acts (may.1 w holds.2) (fun _ => may.2) holds.2⟩)
    (fun _ _ _ _ _ _ => trivial) (fun _ w holds may => may.1 w holds.2) (fun _ _ holds _ => holds.1) works ⟨kept,guarded⟩

/-- What is read of a kind that lags is what the cache has. -/
theorem acts_cached {k : Kind} {ns name : String} {reply : KubeReply (.get k ns name)} (lags : lagging k)
    (asked : ¬ guessed (.get k ns name)) (acts : Acts index lagging guessed i (.get k ns name) w reply w') :
    w' = w ∧ (∀ o, reply = .ok o → w.seen ⟨k,ns,name⟩ = some o) ∧
      ∀ message, reply = .error (.notFound message) → w.seen ⟨k,ns,name⟩ = none := by
  cases acts with
  | cached _ found =>
    refine ⟨rfl,fun o same => found_ok.mp (same ▸ found),?_⟩
    rintro message rfl
    cases seen : w.seen ⟨k,ns,name⟩ with
    | none => rfl
    | some o =>
      rw [seen] at found
      cases found
  | guessed _ guess => exact absurd guess asked
  | failed => exact ⟨rfl,by simp,by simp⟩
  | served direct => exact absurd lags (direct _ _ _ rfl)

/-- A child that is deleted or not found is gone. -/
theorem acts_deleted {kind : Kind} {ns name : String} {reply : KubeReply (.delete kind ns name)}
    (asked : ¬ guessed (.delete kind ns name)) (acts : Acts index lagging guessed i (.delete kind ns name) w reply w')
    (reported : reply = .ok () ∨ ∃ message, reply = .error (.notFound message)) : ¬ w'.Owned i ⟨kind,ns,name⟩ := by
  rintro ⟨present,_⟩
  cases acts with
  | guessed _ guess => exact asked guess
  | failed => simp at reported
  | served _ handled =>
    rw [objectAt,handles_delete handled] at present
    cases present

/-- A party that is about to part from its object: it knows a deleted version, and some of its children are gone. -/
structure Leaving (g : Guards) (w : World) (i : Ref) (known : Nat) (gone : Ref → Prop) : Prop where
  kept : Kept g w
  guard : (g.finalizer i.kind).isSome
  spent : Spent w i known
  none_left : ∀ ref, g.child ref.kind → gone ref → ¬ w.Owned i ref

variable {known : Nat} {gone : Ref → Prop}

theorem leaving_relies (leaving : Leaving g w i known gone) (moved : Relies g i w w') : Leaving g w' i known gone := by
  obtain ⟨f,guard⟩ := Option.isSome_iff_exists.mp leaving.guard
  exact ⟨moved.kept leaving.kept,leaving.guard,spent_later leaving.spent moved.revision (moved.fresh f guard),
    fun ref child is has => leaving.none_left ref child is (moved.owned ref child has)⟩

/-- A call that creates nothing. -/
theorem leaving_acts {op : KubeOp} {r : KubeReply op} (leaving : Leaving g w i known gone) (allowed : Allowed g w i op)
    (acts : Acts index lagging guessed i op w r w') (creates : created op r = none) : Leaving g w' i known gone := by
  obtain ⟨f,guard⟩ := Option.isSome_iff_exists.mp leaving.guard
  refine ⟨acts_kept acts leaving.kept allowed,leaving.guard,spent_later leaving.spent (acts_revision acts)
    (fun _ is => logged_fresh (acts_logged acts) (acts_written acts allowed guard) is),fun ref child is has => ?_⟩
  rcases acts_owned acts has with had | ⟨_,new⟩
  · exact leaving.none_left ref child is had
  · rw [creates] at new
    cases new

/-- When its whole family is gone, the party may take the finalizer off. -/
theorem leaving_parts {k : Kind} {o : Object k} (leaving : Leaving g w i (version o) gone) (all : ∀ ref ∈ g.family i, gone ref)
    (home : refOf k o = i) : Allowed g w i (.update k o) :=
  .part o home (fun ref child has => leaving.none_left ref child (all ref (leaving.kept.homed i ref child has)) has) leaving.spent

end Programs

/-! ### Runs -/

/-- The system of the parties: each runs its passes one after the other. -/
def system {ℓ : Type} (index : Index) (lagging : Kind → Prop) (guessed : KubeOp → Prop) (g : Guards)
    (pass : Ref → KubeAction ℓ → Prop) : System KubeOp KubeReply Ref World ℓ where
  act i := Acts index lagging guessed i
  env := Changes g
  start i _ p := pass i p

/-- Nothing is there yet. -/
def World.fresh : World where
  server := Cluster.empty
  feed _ := [none]
  current _ := rfl
  keyed is := by simp at is
  made _ := none

theorem fresh_kept : Kept g World.fresh where
  behind i f guard o is := by simp [World.fresh] at is
  sorted i f guard := by simp [World.fresh]
  held i f guard o is := by simp [World.fresh] at is
  safe i ref child has := by cases has.2
  homed i ref child has := by cases has.2

/-- Parties that keep to the protocol leave no child without its guarded object. -/
theorem reach_kept {ℓ : Type} {pass : Ref → KubeAction ℓ → Prop} {legal : Config KubeOp KubeReply Ref World ℓ → Prop}
    {c d : Config KubeOp KubeReply Ref World ℓ}
    (passes : ∀ i p w, pass i p → Kept g w →
      Complies index lagging guessed g i p w)
    (initial : c.shared = World.fresh) (resting : ∀ i, ∃ l, c.prog i = .ret l)
    (run : Reach (system index lagging guessed g pass) legal c d) : Kept g d.shared := by
  refine (reach_assured (I := fun w => Kept g w) (R := fun i w w' => Relies g i w w') (G := fun i op w => Allowed g w i op)
    (Q := fun _ _ w => Kept g w) relies_refl (fun _ _ _ _ => relies_trans) (fun _ _ kept moved => changes_relies kept moved)
    (fun i op w r w' kept allowed acts => ⟨acts_kept acts kept allowed,fun j other => acts_relies acts kept allowed other⟩)
    (fun i l p w kept _ begins => passes i p w begins kept) ?_ (fun i => ?_) run).1
  · rw [initial]
    exact fresh_kept
  · obtain ⟨l,at_rest⟩ := resting i
    rw [at_rest,initial]
    exact fun w' moved => moved.kept fresh_kept

end Protocol

/-! ### A world that answers -/

section Answers
variable {g : Guards} {index : Index} {lagging : Kind → Prop} {guessed : KubeOp → Prop}

/-- The object that a call may write. -/
def target : KubeOp → Option Ref
  | .get _ _ _ | .list _ _ _ => none
  | .create k o | .update k o | .updateStatus k o | .patch k o => some (refOf k o)
  | .delete k ns name => some ⟨k,ns,name⟩

theorem handles_aside {op : KubeOp} {c c' : Cluster} {r : KubeReply op} {ref : Ref} (handled : Handles index c op r c')
    (other : target op ≠ some ref) : objectAt c' ref = objectAt c ref := by
  have away : ∀ {target : Ref}, some target ≠ some ref → ref ≠ target := fun other same => other (by rw [same])
  cases handles_cases handled with
  | got | listed | refused => rfl
  | created => exact put_at_other (away other)
  | updated | patched => exact put_at_other (by rw [refOf,key_updated]; exact away other)
  | released | deleted => exact remove_at_other (away other)
  | statusUpdated present => exact put_at_other (by rw [refOf,key_statusUpdated,c.keyed present]; exact away other)

theorem carryOut_aside {op : KubeOp} {c : Cluster} {ref : Ref} (other : target op ≠ some ref) :
    objectAt (carryOut op c).2 ref = objectAt c ref := by
  cases op with
  | list => rfl
  | get | create | update | updateStatus | patch | delete =>
    exact handles_aside (@carryOut_handles (fun _ _ => []) _ c (by simp)) other

/-- The server moves on, and the watch sends what was written. -/
def Watched.moves (w : Watched) (c : Cluster) (written : Option Ref)
    (aside : ∀ ref, written ≠ some ref → objectAt c ref = objectAt w.server ref) : Watched where
  server := c
  feed ref := if written = some ref then w.feed ref ++ [objectAt c ref] else w.feed ref
  current ref := by
    split
    · simp
    · rename_i other
      rw [w.current,aside ref other]
  keyed {ref o} is := by
    split at is
    · rcases List.mem_append.mp is with old | new
      · exact w.keyed old
      · rw [List.mem_singleton,eq_comm] at new
        rw [refOf,c.keyed new]
    · exact w.keyed is

theorem logged_of {w w' : World} (written : Option Ref)
    (sent : ∀ ref, w'.feed ref = if written = some ref then w.feed ref ++ [objectAt w'.server ref] else w.feed ref) :
    Logged w w' := by
  intro ref
  rw [sent]
  split
  · exact .inr rfl
  · exact .inl rfl

/-- Party `i` makes a call. -/
def World.perform (cached : Kind → Bool) (guess : (op : KubeOp) → Option (KubeReply op)) (i : Ref) (op : KubeOp) (w : World) :
    KubeReply op × World :=
  match guess op with
  | some reply => (reply,w)
  | none =>
    match op with
    | .get k ns name =>
      if cached k then
        match w.seen ⟨k,ns,name⟩ with
        | some o => (.ok o,w)
        | none => (.error (.notFound "not found"),w)
      else ((carryOut (.get k ns name) w.server).1,w)
    | .list _ _ _ => (.error (.other "etcdserver: request timed out"),w)
    | op => ((carryOut op w.server).1,
        { w.moves (carryOut op w.server).2 (target op) (fun _ => carryOut_aside) with
          made := fun ref => if created op (carryOut op w.server).1 = some ref then some i else w.made ref })

theorem World.perform_acts {cached : Kind → Bool} {guess : (op : KubeOp) → Option (KubeReply op)} {i : Ref}
    (lags : ∀ k, cached k = true ↔ lagging k) (guesses : ∀ op, (guess op).isSome → guessed op) (op : KubeOp) (w : World) :
    Acts index lagging guessed i op w (w.perform cached guess i op).1 (w.perform cached guess i op).2 := by
  unfold World.perform
  cases guess_op : guess op with
  | some reply => exact .guessed reply (guesses op (by rw [guess_op]; rfl))
  | none =>
    cases op with
    | get k ns name =>
      by_cases lag : cached k = true
      · simp only [lag,if_true]
        cases seen : w.seen ⟨k,ns,name⟩ with
        | some | none => exact .cached ((lags k).mp lag) (by simp [seen,Found])
      · simp only [lag]
        have handled := @carryOut_handles index (.get k ns name) w.server (by simp)
        refine .served ?_ ⟨rfl,handled.2⟩ (fun _ => .inl rfl) rfl
        intro k' ns' name' same
        cases same
        exact fun lagging => lag ((lags k).mpr lagging)
    | list => exact .failed _
    | create | update | updateStatus | patch | delete =>
      exact .served (by simp) (carryOut_handles _ w.server (by simp)) (logged_of (target _) (fun _ => rfl)) rfl

theorem World.perform_aside {cached : Kind → Bool} {guess : (op : KubeOp) → Option (KubeReply op)} {i : Ref} {op : KubeOp}
    (w : World) (ref : Ref) (other : target op ≠ some ref) : objectAt (w.perform cached guess i op).2.server ref = objectAt w.server ref := by
  unfold World.perform
  cases guess op with
  | some => rfl
  | none =>
    cases op with
    | get =>
      simp only
      repeat' split
      all_goals rfl
    | list => rfl
    | create | update | updateStatus | patch | delete => exact carryOut_aside other

/-- A user writes an object. -/
def World.write (w : World) (k : Kind) (o : Object k) : World :=
  { w.moves (w.server.put k o) (some (refOf k o)) (fun _ other => put_at_other (fun same => other (by rw [same]))) with
    made := w.made }

theorem World.write_creates {w : World} {k : Kind} {o : Object k} (guarded : (g.finalizer k).isSome)
    (absent : w.server.stored k o = none) (numbered : version o = w.server.revision + 1) (alive : ¬ Deleted o) :
    Changes g w (w.write k o) :=
  .created guarded absent numbered alive rfl (logged_of (some (refOf k o)) (fun _ => rfl)) rfl

theorem World.write_changes {w : World} {k : Kind} {o o' : Object k} {f : String} (guarded : g.finalizer k = some f)
    (present : w.server.stored k o' = some o) (numbered : version o' = w.server.revision + 1) (stays : Deleted o → Deleted o')
    (keeps : Carries f o → Carries f o') (held : released k o' = false) : Changes g w (w.write k o') :=
  .changed guarded present numbered stays keeps (by rw [held]; rfl) (logged_of (some (refOf k o')) (fun _ => rfl)) rfl

/-- The caches of some objects catch up. -/
def World.catchUp (w : World) (which : Ref → Bool) : World where
  server := w.server
  feed ref := if which ref then [objectAt w.server ref] else w.feed ref
  current ref := by
    split
    · rfl
    · exact w.current ref
  keyed {ref o} is := by
    split at is
    · rw [List.mem_singleton,eq_comm] at is
      rw [refOf,w.server.keyed is]
    · exact w.keyed is
  made := w.made

theorem World.catchUp_feed (w : World) (which : Ref → Bool) (ref : Ref) : (w.catchUp which).feed ref <:+ w.feed ref := by
  simp only [World.catchUp]
  split
  · obtain ⟨before,same⟩ := List.getLast?_eq_some_iff.mp (w.current ref)
    exact ⟨before,same.symm⟩
  · exact List.suffix_refl _

theorem World.catchUp_changes (w : World) (which : Ref → Bool) : Changes g w (w.catchUp which) :=
  .caught rfl (w.catchUp_feed which) rfl

end Answers
end Arks.Finalizers
