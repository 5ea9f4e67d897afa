/-
  `OnlPackageManager.require` and `build` (tools/onlpm.py), which call each other.

  A package group has a number of packages, which are built together, and requires packages of other
  groups in front of that.  `require_law` is about groups that do not need each other in a circle: the
  calls end, and what they build is built behind what it requires.

  The repository is the list of the packages that it has, with lookups that are exact; a build of a
  group that succeeds adds the packages of the group.  The programs that are called, for submodules
  and builds, succeed or fail as `outside` says, a call at a time.  `built` is a record of the builds,
  with what the repository had when each began.  The depth of the calls is bounded by `fuel`; a call
  that would go deeper ends in `outOfFuel`.
-/
import DentOS.Lib.Acyclic
import DentOS.Lib.Forward
import DentOS.Onlpm.Repo

namespace DentOS.Onlpm

open PyText Effects

/-! ## Package groups -/

/-- A value below 'packages' in the prerequisites: a text, or a list of values. -/
inductive Nested where
  | str (t : Text)
  | list (l : List Nested)

mutual

/-- One value of `sflatten`. -/
def flattenOne : Nested → List Text
  | .str t => [t]
  | .list l => (flattenAll l).filter fun t => t ≠ []

/-- `sflatten`. -/
def flattenAll : List Nested → List Text
  | [] => []
  | i :: is => flattenOne i ++ flattenAll is

end

/-- An entry of a group's submodules. -/
structure Submodule where
  /-- The key 'root'. -/
  root : Option Text
  /-- The key 'path'. -/
  path : Option Text

/-- `OnlPackageGroup`: the identifiers of its packages, and its prerequisites. -/
structure Group where
  /-- The identifiers of its packages. -/
  packages : List Text
  /-- It is not looked at. -/
  filtered : Bool
  /-- The submodules that it needs. -/
  submodules : List Submodule
  /-- The packages that it needs. -/
  prerequisites : List Nested

/-- `prerequisite_packages`. -/
def Group.prerequisitePackages (g : Group) : List Text :=
  (flattenAll g.prerequisites).flatMap fun e => e.splitOn ','

/-- `pkg in pg`. -/
def Group.contains (g : Group) (pkg : Text) : Bool :=
  g.packages.any fun id => pkg = "all".toList || id = pkg

/-! ## The manager: `require`, and the builds that it begins -/

/-- What a build raises. -/
inductive BuildError where
  | valueError
  | packageError
  | missing (pkg : Option Text)
  | notBuilt (pkg : Text)
  | failed
  | outOfFuel
  deriving DecidableEq

/-- A build that was begun. -/
structure Built where
  /-- The group that was built. -/
  group : Group
  /-- The packages that were there then. -/
  present : List Text

/-- The state: which packages are in the repository, what has been built, and how many outside calls were
    made. -/
structure Shop where
  /-- The packages in the repository. -/
  present : List Text
  /-- What has been built. -/
  built : List Built
  /-- The number of outside calls. -/
  calls : Nat

/-- A program of the builder. -/
abbrev Build := Prog Shop BuildError

/-- The options of `require`. -/
structure Opts where
  /-- A package is built though it is there. -/
  force : Bool
  /-- A package that is missing is built. -/
  buildMissing : Bool
  /-- It is passed over. -/
  skipMissing : Bool
  /-- The architectures to look for. -/
  tryArches : List Text

/-- `require(p, build_missing=True)`. -/
def Opts.missing : Opts := ⟨false, true, false, []⟩

section

variable (outside : Nat → Bool)

/-- A call of a program outside of onlpm. -/
def callOutside : Build Unit := do
  let s ← Prog.get
  Prog.modify fun s => { s with calls := s.calls + 1 }
  Prog.check (outside s.calls) .failed

/-- One submodule. -/
def requireSubmodule (sub : Submodule) : Build Unit :=
  if sub.root.getD [] = [] then Prog.throw .packageError
  else if sub.path.getD [] = [] then Prog.throw .packageError
  else callOutside outside

/-- `pg.build(..)` and `self.opr.add_packages(products)`. -/
def makeGroup (g : Group) : Build Unit := do
  Prog.modify fun s => { s with built := s.built ++ [⟨g, s.present⟩] }
  callOutside outside
  Prog.modify fun s => { s with present := s.present ++ g.packages }

/-- `if not prereqs_only`. -/
def unlessOnly (prereqsOnly : Bool) (p : Build Unit) : Build Unit :=
  if prereqsOnly then pure () else p

/-- The body of the loop of `build`; `req` is `self.require(.., build_missing=True)`. -/
def buildGroup (req : Text → Build Unit) (prereqsOnly : Bool) (g : Group) : Build Unit := do
  unlessOnly prereqsOnly (Prog.forEach (requireSubmodule outside) g.submodules)
  Prog.forEach req g.prerequisitePackages
  unlessOnly prereqsOnly (makeGroup outside g)

/-- The groups that the loop does not skip. -/
def chosen (pkg : Option Text) (filtered : Bool) (g : Group) : Bool :=
  pkg.all g.contains && ! (filtered && g.filtered)

/-- `build`: the groups that are asked for, one after the other. -/
def build (groups : List Group) (req : Text → Build Unit) (pkg : Option Text)
    (filtered prereqsOnly : Bool) : Build Unit := do
  Prog.forEach (buildGroup outside req prereqsOnly) (groups.filter (chosen pkg filtered))
  Prog.check (groups.any (chosen pkg filtered)) (.missing pkg)

/-- `pkg in self`. -/
def known (groups : List Group) (pkg : Text) : Bool :=
  groups.any fun g => pkg = "all".toList || g.contains pkg

/-- The package itself, or with one of `try_arches`. -/
def resolve (groups : List Group) (opts : Opts) (pkg : Text) : Text :=
  if known groups pkg then pkg
  else ((opts.tryArches.map fun a => pkg ++ ':' :: a).find? (known groups)).getD pkg

/-- `pkg in self.opr`. -/
def inRepo (pkg : Text) : Build Bool := do
  let s ← Prog.get
  match idparse pkg with
  | .error _ => Prog.throw .valueError
  | .ok _ => pure (decide (pkg ∈ s.present))

/-- `force or (pkg not in self.opr and build_missing)`. -/
def mustBuild (opts : Opts) (pkg : Text) : Build Bool :=
  if opts.force then pure true
  else do
    let p ← inRepo pkg
    pure (! p && opts.buildMissing)

/-- `self.build(pkg, filtered=False)`, or `prereqs_only` where `pkg in self.opr`. -/
def buildMissing (groups : List Group) (req : Text → Build Unit) (pkg : Text) (must : Bool) :
    Build Unit :=
  if must then build outside groups req (some pkg) false false
  else do
    let p ← inRepo pkg
    if p then build outside groups req (some pkg) false true else pure ()

/-- `if pkg not in self.opr: raise ..`. -/
def checkBuilt (pkg : Text) : Build Unit := do
  let p ← inRepo pkg
  Prog.check p (.notBuilt pkg)

/-- The part of `require` behind the test that the package is known. -/
def requireKnown (groups : List Group) (req : Text → Build Unit) (opts : Opts) (pkg : Text) :
    Build Unit := do
  let must ← mustBuild opts pkg
  buildMissing outside groups req pkg must
  checkBuilt pkg

/-- `require`. -/
def require (groups : List Group) : Nat → Opts → Text → Build Unit
  | 0, _, _ => Prog.throw .outOfFuel
  | fuel + 1, opts, pkg =>
      if known groups (resolve groups opts pkg) then
        requireKnown outside groups (require groups fuel .missing) opts (resolve groups opts pkg)
      else if opts.skipMissing then pure ()
      else Prog.throw (.missing (some (resolve groups opts pkg)))

end

/-! ## What requires what: the graph of the groups -/

/-- A group that holds the first package requires the second. -/
def Needs (groups : List Group) (p q : Text) : Prop :=
  ∃ g ∈ groups, g.contains p = true ∧ q ∈ g.prerequisitePackages

/-- The group-level relation: the first group requires a package of the second. -/
def GroupNeeds (groups : List Group) (g g' : Group) : Prop :=
  g ∈ groups ∧ g' ∈ groups ∧ ∃ q ∈ g.prerequisitePackages, g'.contains q = true

/-- No group requires itself, however indirectly. -/
def Acyclic (groups : List Group) : Prop :=
  ∀ g, ¬ Relation.TransGen (GroupNeeds groups) g g

/-- The packages reached from a package are present. -/
def Closed (groups : List Group) (present : List Text) (p : Text) : Prop :=
  ∀ q, Relation.ReflTransGen (Needs groups) p q → q ∈ present

/-- The build began behind all that its group requires. -/
def Built.Ordered (groups : List Group) (b : Built) : Prop :=
  ∀ q ∈ b.group.prerequisitePackages, Closed groups b.present q

/-- Where the states of a call lead: packages stay, and what is built is built in order. -/
def Grows (groups : List Group) (s s' : Shop) : Prop :=
  s.present ⊆ s'.present ∧ ∃ new, s'.built = s.built ++ new ∧ ∀ b ∈ new, b.Ordered groups

variable {groups : List Group} {outside : Nat → Bool}

/-- A shop grows from itself. -/
theorem grows_refl (s : Shop) : Grows groups s s :=
  ⟨List.Subset.refl _, [], (List.append_nil _).symm, fun _ hb => absurd hb List.not_mem_nil⟩

/-- A shop grows in steps. -/
theorem grows_trans (s s' s'' : Shop) (h : Grows groups s s') (h' : Grows groups s' s'') :
    Grows groups s s'' := by
  obtain ⟨hsub, new, hbuilt, hnew⟩ := h
  obtain ⟨hsub', new', hbuilt', hnew'⟩ := h'
  refine ⟨List.Subset.trans hsub hsub', new ++ new', ?_, ?_⟩
  · rw [hbuilt', hbuilt, List.append_assoc]
  · intro b hb
    rcases List.mem_append.mp hb with hb | hb
    · exact hnew b hb
    · exact hnew' b hb

/-- What is closed stays closed. -/
theorem closed_grows {s s' : Shop} {p : Text} (h : Grows groups s s')
    (hclosed : Closed groups s.present p) : Closed groups s'.present p :=
  fun q hq => h.1 (hclosed q hq)

/-! ## The steps of a `require`, one by one -/

/-- A program whose runs lead forward to `post`. -/
abbrev Leads (groups : List Group) {α : Type} (pre : Shop → Prop) (p : Build α)
    (post : α → Shop → Prop) : Prop :=
  Prog.Forward (Grows groups) pre p post

/-- The rule of reading the state. -/
theorem leads_get {α : Type} {pre : Shop → Prop} {f : Shop → Build α} {post : α → Shop → Prop}
    (h : ∀ s, Leads groups (fun s' => s' = s ∧ pre s') (f s) post) :
    Leads groups pre (Prog.get >>= f) post := fun s hs => h s s ⟨rfl, hs⟩

/-- The repository is looked at. -/
theorem leads_inRepo {pre : Shop → Prop} (pkg : Text) :
    Leads groups pre (inRepo pkg) fun p s => (p = true ↔ pkg ∈ s.present) ∧ pre s := by
  refine leads_get fun s => ?_
  split
  · exact Prog.forward_throw grows_refl
  · refine Prog.forward_pure grows_refl ?_
    rintro s' ⟨rfl, hpre⟩
    exact ⟨decide_eq_true_iff, hpre⟩

/-- What neither packages nor builds change is no step back. -/
theorem leads_modify {pre : Shop → Prop} {f : Shop → Shop} (hpresent : ∀ s, (f s).present = s.present)
    (hbuilt : ∀ s, (f s).built = s.built) :
    Leads groups pre (Prog.modify f) fun _ _ => True := by
  refine Prog.forward_modify (fun s _ => ?_) fun _ _ => trivial
  refine ⟨?_, [], ?_, fun _ hb => absurd hb List.not_mem_nil⟩
  · rw [hpresent]
    exact List.Subset.refl _
  · rw [hbuilt, List.append_nil]

/-- An outside call leaves the packages. -/
theorem leads_callOutside :
    Leads groups (fun _ => True) (callOutside outside) fun _ _ => True := by
  refine leads_get fun s => ?_
  refine Prog.forward_bind grows_trans (fun _ _ => True) (leads_modify (fun _ => rfl) fun _ => rfl)
    fun _ => ?_
  exact Prog.forward_post (Prog.forward_check grows_refl) fun _ _ _ => trivial

/-- A submodule leaves the packages. -/
theorem leads_requireSubmodule (sub : Submodule) :
    Leads groups (fun _ => True) (requireSubmodule outside sub) fun _ _ => True := by
  rw [requireSubmodule]
  split
  · exact Prog.forward_throw grows_refl
  · split
    · exact Prog.forward_throw grows_refl
    · exact leads_callOutside

/-- All that the group requires is closed. -/
def Ready (groups : List Group) (g : Group) (s : Shop) : Prop :=
  ∀ q ∈ g.prerequisitePackages, Closed groups s.present q

/-- What is ready stays ready. -/
theorem ready_grows {g : Group} (s s' : Shop) (h : Grows groups s s') (hready : Ready groups g s) :
    Ready groups g s' := fun q hq => closed_grows h (hready q hq)

/-- A package, and what its groups require, are all that is reached from it. -/
theorem closed_of_ready {pkg : Text} {s : Shop} (hmem : pkg ∈ s.present)
    (hready : ∀ g ∈ groups, g.contains pkg = true → Ready groups g s) :
    Closed groups s.present pkg := by
  intro q hq
  rcases Relation.ReflTransGen.cases_head hq with rfl | ⟨r, ⟨g, hg, hcontains, hr⟩, hrest⟩
  · exact hmem
  · exact hready g hg hcontains r hr q hrest

/-- **A build that begins behind its prerequisites** is ordered. -/
theorem leads_makeGroup (g : Group) :
    Leads groups (Ready groups g) (makeGroup outside g) fun _ _ => True := by
  refine Prog.forward_bind grows_trans (fun _ _ => True)
    (Prog.forward_modify ?_ fun _ _ => trivial) fun _ => ?_
  · intro s hready
    refine ⟨List.Subset.refl _, [⟨g, s.present⟩], rfl, ?_⟩
    intro b hb
    rw [List.mem_singleton.mp hb]
    exact hready
  refine Prog.forward_bind grows_trans (fun _ _ => True) leads_callOutside fun _ =>
    Prog.forward_modify ?_ fun _ _ => trivial
  · exact fun s _ => ⟨List.subset_append_left _ _, [], (List.append_nil _).symm,
      fun _ hb => absurd hb List.not_mem_nil⟩

/-- What is done unless prerequisites only are asked for. -/
theorem leads_unlessOnly {pre : Shop → Prop} {p : Build Unit} (prereqsOnly : Bool)
    (h : Leads groups pre p fun _ _ => True) :
    Leads groups pre (unlessOnly prereqsOnly p) fun _ _ => True := by
  rw [unlessOnly]
  split
  · exact Prog.forward_pure grows_refl fun _ _ => trivial
  · exact h

section

variable {req : Text → Build Unit}
  (hreq : ∀ q, Leads groups (fun _ => True) (req q) fun _ s => Closed groups s.present q)
include hreq

/-- **One group**: its prerequisites are there, and then it is built. -/
theorem leads_buildGroup (prereqsOnly : Bool) (g : Group) :
    Leads groups (fun _ => True) (buildGroup outside req prereqsOnly g) fun _ => Ready groups g := by
  have hsubmodules : Leads groups (fun _ => True)
      (Prog.forEach (requireSubmodule outside) g.submodules) fun _ _ => True :=
    Prog.forward_post
      (Prog.forward_forEach grows_trans grows_refl (fun _ _ => True) (fun _ _ _ h => h)
        (fun _ _ _ _ h => h) fun sub _ => leads_requireSubmodule sub) fun _ _ _ => trivial
  have hprereqs : Leads groups (fun _ => True) (Prog.forEach req g.prerequisitePackages)
      fun _ => Ready groups g :=
    Prog.forward_post
      (Prog.forward_forEach grows_trans grows_refl (fun q s => Closed groups s.present q)
        (fun _ _ _ h => h) (fun q _ _ h hclosed => closed_grows h hclosed) fun q _ => hreq q) fun _ _ h => h.2
  refine Prog.forward_bind grows_trans (fun _ _ => True) (leads_unlessOnly prereqsOnly hsubmodules)
    fun _ => ?_
  refine Prog.forward_bind grows_trans (fun _ => Ready groups g) hprereqs fun _ => ?_
  exact Prog.forward_post
    (Prog.forward_keep ready_grows (leads_unlessOnly prereqsOnly (leads_makeGroup g))) fun _ _ h => h.2

/-- **A build** makes every group of the package ready. -/
theorem leads_build (pkg : Text) (prereqsOnly : Bool) :
    Leads groups (fun _ => True) (build outside groups req (some pkg) false prereqsOnly)
      fun _ s => ∀ g ∈ groups, g.contains pkg = true → Ready groups g s := by
  have hgroup : ∀ g, Leads groups (fun _ => True) (buildGroup outside req prereqsOnly g)
      fun _ => Ready groups g := leads_buildGroup hreq prereqsOnly
  refine Prog.forward_bind grows_trans
    (fun _ s => True ∧ ∀ g ∈ groups.filter (chosen (some pkg) false), Ready groups g s)
    (Prog.forward_forEach grows_trans grows_refl (Ready groups) (fun _ _ _ h => h)
      (fun _ s s' => ready_grows s s') fun g _ => hgroup g) fun _ => ?_
  refine Prog.forward_post (Prog.forward_check grows_refl) ?_
  rintro - s ⟨-, -, hall⟩ g hg hcontains
  refine hall g (List.mem_filter.mpr ⟨hg, ?_⟩)
  rw [chosen, Option.all_some, hcontains]
  rfl

/-- **The known package**: whether it has to be built or is there, what its groups require is. -/
theorem leads_requireKnown (opts : Opts) (pkg : Text) (hmissing : opts.buildMissing = true) :
    Leads groups (fun _ => True) (requireKnown outside groups req opts pkg)
      fun _ s => Closed groups s.present pkg := by
  have hbuild : ∀ prereqsOnly, Leads groups (fun _ => True)
      (build outside groups req (some pkg) false prereqsOnly)
      fun _ s => ∀ g ∈ groups, g.contains pkg = true → Ready groups g s := leads_build hreq pkg
  refine Prog.forward_bind grows_trans (fun must s => must = true ∨ pkg ∈ s.present) ?_ fun must =>
    Prog.forward_bind grows_trans
      (fun _ s => ∀ g ∈ groups, g.contains pkg = true → Ready groups g s) ?_ fun _ => ?_
  · rw [mustBuild]
    split
    · exact Prog.forward_pure grows_refl fun _ _ => Or.inl rfl
    · refine Prog.forward_bind grows_trans _ (leads_inRepo pkg) fun p =>
        Prog.forward_pure grows_refl ?_
      rintro s ⟨hp, -⟩
      rw [hmissing, Bool.and_true]
      cases p with
      | true => exact Or.inr (hp.mp rfl)
      | false => exact Or.inl rfl
  · rw [buildMissing]
    split
    · exact Prog.forward_pre (hbuild false) fun _ _ => trivial
    · next hmust =>
        refine Prog.forward_bind grows_trans _ (leads_inRepo pkg) fun p => ?_
        split
        · exact Prog.forward_pre (hbuild true) fun _ _ => trivial
        · next hp =>
            -- a package that is not to be built is there
            refine Prog.forward_pure grows_refl ?_
            rintro s ⟨hiff, hmem⟩
            rcases hmem with hmem | hmem
            · exact absurd hmem hmust
            · exact absurd (hiff.mpr hmem) hp
  · refine Prog.forward_bind grows_trans _ (leads_inRepo pkg) fun p =>
      Prog.forward_post (Prog.forward_check grows_refl) ?_
    rintro - s ⟨hp, hmem, hready⟩
    exact closed_of_ready (hmem.mp hp) hready

end

/-- The package itself, without other architectures. -/
theorem resolve_missing (pkg : Text) : resolve groups .missing pkg = pkg := by
  rw [resolve]
  split <;> rfl

/-- **`require` closes** what it is asked for, by induction on the fuel. -/
theorem leads_require (outside : Nat → Bool) : ∀ (fuel : Nat) (pkg : Text),
    Leads groups (fun _ => True) (require outside groups fuel .missing pkg)
      fun _ s => Closed groups s.present pkg
  | 0, _ => Prog.forward_throw grows_refl
  | fuel + 1, pkg => by
      rw [require, resolve_missing]
      split
      · exact leads_requireKnown (leads_require outside fuel) .missing pkg rfl
      · exact Prog.forward_throw grows_refl

/-! ## Fuel -/

/-- No run is out of fuel. -/
def Settled {α : Type} (p : Build α) : Prop := ∀ s, (p s).1 ≠ .error .outOfFuel

/-- A result is settled. -/
theorem settled_pure {α : Type} (a : α) : Settled (pure a : Build α) := fun _ h => by cases h

/-- An error but the end of the fuel is settled. -/
theorem settled_throw {α : Type} {e : BuildError} (he : e ≠ .outOfFuel) :
    Settled (Prog.throw e : Build α) := fun _ h => he (Except.error.inj h)

/-- A check that raises such an error is settled. -/
theorem settled_check {b : Bool} {e : BuildError} (he : e ≠ .outOfFuel) :
    Settled (Prog.check b e : Build Unit) := by
  cases b with
  | true => exact settled_pure ()
  | false => exact settled_throw he

/-- **Sequencing** settled programs is settled. -/
theorem settled_bind {α β : Type} {p : Build β} {f : β → Build α} (hp : Settled p)
    (hf : ∀ b, Settled (f b)) : Settled (p >>= f) := by
  intro s
  rcases hrun : p s with ⟨e | b, s₁⟩
  · rw [Prog.bind_of_error hrun]
    intro h
    refine hp s ?_
    rw [hrun]
    exact congrArg Except.error (Except.error.inj h)
  · rw [Prog.bind_of_ok hrun]
    exact hf b s₁

/-- A loop over settled programs is settled, by induction on the list. -/
theorem settled_forEach {β : Type} {body : β → Build Unit} : ∀ {bs : List β},
    (∀ b ∈ bs, Settled (body b)) → Settled (Prog.forEach body bs)
  | [], _ => settled_pure ()
  | b :: _, h => settled_bind (h b List.mem_cons_self) fun _ =>
      settled_forEach fun b' hb' => h b' (List.mem_cons_of_mem b hb')

/-- An outside call is settled. -/
theorem settled_callOutside : Settled (callOutside outside) := by
  intro s
  rw [callOutside]
  exact settled_check (by decide) _

/-- Looking at the repository is settled. -/
theorem settled_inRepo (pkg : Text) : Settled (inRepo pkg) := by
  refine settled_bind (fun _ h => by cases h) fun s => ?_
  split
  · exact settled_throw (by decide)
  · exact settled_pure _

/-- A submodule is settled. -/
theorem settled_requireSubmodule (sub : Submodule) : Settled (requireSubmodule outside sub) := by
  rw [requireSubmodule]
  split
  · exact settled_throw (by decide)
  · split
    · exact settled_throw (by decide)
    · exact settled_callOutside

/-- What is done or not is settled. -/
theorem settled_unlessOnly {p : Build Unit} (prereqsOnly : Bool) (h : Settled p) :
    Settled (unlessOnly prereqsOnly p) := by
  rw [unlessOnly]
  split
  · exact settled_pure ()
  · exact h

/-- Making a group is settled. -/
theorem settled_makeGroup (g : Group) : Settled (makeGroup outside g) :=
  settled_bind (fun _ h => by cases h) fun _ => settled_bind settled_callOutside fun _ _ h => by cases h

/-- The calls behind a package end where those for what it needs do. -/
theorem settled_build {req : Text → Build Unit} {pkg : Text}
    (hreq : ∀ q, Needs groups pkg q → Settled (req q)) (prereqsOnly : Bool) :
    Settled (build outside groups req (some pkg) false prereqsOnly) := by
  refine settled_bind (settled_forEach fun g hg => ?_) fun _ => settled_check (fun h => by cases h)
  have hcontains : g ∈ groups ∧ g.contains pkg = true := by
    obtain ⟨hmem, hchosen⟩ := List.mem_filter.mp hg
    rw [chosen, Option.all_some, Bool.and_eq_true] at hchosen
    exact ⟨hmem, hchosen.1⟩
  refine settled_bind (settled_unlessOnly _ (settled_forEach fun sub _ => settled_requireSubmodule sub))
    fun _ => settled_bind (settled_forEach fun q hq => ?_) fun _ =>
      settled_unlessOnly _ (settled_makeGroup g)
  exact hreq q ⟨g, hcontains.1, hcontains.2, hq⟩

/-- Requiring is settled where the prerequisites are. -/
theorem settled_requireKnown {req : Text → Build Unit} {pkg : Text}
    (hreq : ∀ q, Needs groups pkg q → Settled (req q)) (opts : Opts) :
    Settled (requireKnown outside groups req opts pkg) := by
  refine settled_bind ?_ fun must => settled_bind ?_ fun _ =>
    settled_bind (settled_inRepo pkg) fun _ => settled_check (fun h => by cases h)
  · rw [mustBuild]
    split
    · exact settled_pure _
    · exact settled_bind (settled_inRepo pkg) fun _ => settled_pure _
  · rw [buildMissing]
    split
    · exact settled_build hreq false
    · refine settled_bind (settled_inRepo pkg) fun p => ?_
      split
      · exact settled_build hreq true
      · exact settled_pure ()

/-! ## Calls that do the same, whatever was built before -/

/-- A loop depends on what its body does on its elements. -/
theorem forEach_congr {β : Type} {body body' : β → Build Unit} : ∀ {bs : List β},
    (∀ b ∈ bs, body b = body' b) → Prog.forEach body bs = Prog.forEach body' bs
  | [], _ => rfl
  | b :: _, h => by
      rw [Prog.forEach, Prog.forEach, h b List.mem_cons_self,
        forEach_congr fun b' hb' => h b' (List.mem_cons_of_mem b hb')]

/-- A build depends on what is required of the prerequisites. -/
theorem build_congr {req req' : Text → Build Unit} {pkg : Text}
    (hreq : ∀ q, Needs groups pkg q → req q = req' q) (prereqsOnly : Bool) :
    build outside groups req (some pkg) false prereqsOnly =
      build outside groups req' (some pkg) false prereqsOnly := by
  have hgroup : ∀ g ∈ groups.filter (chosen (some pkg) false),
      buildGroup outside req prereqsOnly g = buildGroup outside req' prereqsOnly g := by
    intro g hg
    obtain ⟨hmem, hchosen⟩ := List.mem_filter.mp hg
    rw [chosen, Option.all_some, Bool.and_eq_true] at hchosen
    rw [buildGroup, buildGroup, forEach_congr fun q hq => hreq q ⟨g, hmem, hchosen.1, hq⟩]
  rw [build, build, forEach_congr hgroup]

/-- Requiring depends on the recursive calls only through what they do. -/
theorem requireKnown_congr {req req' : Text → Build Unit} {pkg : Text}
    (hreq : ∀ q, Needs groups pkg q → req q = req' q) (opts : Opts) :
    requireKnown outside groups req opts pkg = requireKnown outside groups req' opts pkg := by
  have hmissing : ∀ must, buildMissing outside groups req pkg must =
      buildMissing outside groups req' pkg must := by
    intro must
    rw [buildMissing, buildMissing, build_congr hreq false, build_congr hreq true]
  rw [requireKnown, requireKnown]
  exact congrArg (mustBuild opts pkg >>= ·) (funext fun must => by rw [hmissing])

/-! ## Groups without circles: a rank that goes down -/

/-- What is needed, and needed by that, comes to an end. -/
theorem needs_wf (hacyclic : Acyclic groups) : WellFounded fun q p => Needs groups p q := by
  have hwf : WellFounded fun g' g => GroupNeeds groups g g' :=
    wellFounded_of_acyclic (fun _ _ hneeds => hneeds.2.1) hacyclic
  have hgroup : ∀ g ∈ groups, ∀ q ∈ g.prerequisitePackages, Acc (fun q p => Needs groups p q) q := by
    intro g
    induction g using hwf.induction with
    | _ g ih =>
        intro hg q hq
        refine ⟨q, ?_⟩
        rintro r ⟨g', hg', hcontains, hr⟩
        exact ih g' ⟨hg, hg', q, hq, hcontains⟩ hg' r hr
  refine ⟨fun p => ⟨p, ?_⟩⟩
  rintro q ⟨g, hg, -, hq⟩
  exact hgroup g hg q hq

/-- From this fuel on the call does the same, and does not run out of it. -/
def Fixed (groups : List Group) (outside : Nat → Bool) (pkg : Text) (fuel : Nat) : Prop :=
  Settled (require outside groups fuel .missing pkg) ∧
    ∀ n, fuel ≤ n → require outside groups n .missing pkg = require outside groups fuel .missing pkg

/-- More fuel does not change what is fixed. -/
theorem Fixed.mono {pkg : Text} {fuel n : Nat} (h : Fixed groups outside pkg fuel) (hn : fuel ≤ n) :
    Fixed groups outside pkg n := by
  obtain ⟨hsettled, hsame⟩ := h
  refine ⟨by rw [hsame n hn]; exact hsettled, fun m hm => ?_⟩
  rw [hsame m (Nat.le_trans hn hm), hsame n hn]

/-- Fuel for all of a list of packages. -/
theorem fixed_all : ∀ {pkgs : List Text}, (∀ q ∈ pkgs, ∃ fuel, Fixed groups outside q fuel) →
    ∃ fuel, ∀ q ∈ pkgs, Fixed groups outside q fuel
  | [], _ => ⟨0, fun _ hq => absurd hq List.not_mem_nil⟩
  | p :: pkgs, h => by
      obtain ⟨fuel, hp⟩ := h p List.mem_cons_self
      obtain ⟨fuel', hrest⟩ := fixed_all fun q hq => h q (List.mem_cons_of_mem p hq)
      refine ⟨max fuel fuel', fun q hq => ?_⟩
      rcases List.mem_cons.mp hq with rfl | hq
      · exact hp.mono (Nat.le_max_left _ _)
      · exact (hrest q hq).mono (Nat.le_max_right _ _)

/-- **Every call ends**: with enough fuel it does not run out, and more makes no difference. -/
theorem require_fixed (outside : Nat → Bool) (hacyclic : Acyclic groups) (pkg : Text) :
    ∃ fuel, Fixed groups outside pkg fuel := by
  induction pkg using (needs_wf hacyclic).induction with
  | _ pkg ih =>
      obtain ⟨fuel, hfixed⟩ : ∃ fuel, ∀ q ∈ (groups.filter (·.contains pkg)).flatMap
          Group.prerequisitePackages, Fixed groups outside q fuel := by
        refine fixed_all fun q hq => ?_
        obtain ⟨g, hg, hmem⟩ := List.mem_flatMap.mp hq
        obtain ⟨hgroups, hcontains⟩ := List.mem_filter.mp hg
        exact ih q ⟨g, hgroups, hcontains, hmem⟩
      have hneeds : ∀ q, Needs groups pkg q → Fixed groups outside q fuel := by
        rintro q ⟨g, hg, hcontains, hq⟩
        exact hfixed q (List.mem_flatMap.mpr ⟨g, List.mem_filter.mpr ⟨hg, hcontains⟩, hq⟩)
      refine ⟨fuel + 1, ?_, ?_⟩
      · rw [require, resolve_missing]
        split
        · exact settled_requireKnown (fun q hq => (hneeds q hq).1) .missing
        · exact settled_throw fun h => by cases h
      · intro n hn
        obtain ⟨m, rfl⟩ : ∃ m, n = m + 1 := ⟨n - 1, by omega⟩
        rw [require, require, resolve_missing, requireKnown_congr fun q hq => (hneeds q hq).2 m (by omega)]

/-! ## The law -/

/-- **What `require` promises** of a call: it ends; packages stay; what it builds, it builds behind
    all that the group requires; and if it returns, the package is there, with all that is reached
    from it. -/
structure RequireLaw (groups : List Group) (outside : Nat → Bool) (pkg : Text) (s : Shop)
    (r : Except BuildError Unit) (s' : Shop) : Prop where
  ends : r ≠ .error .outOfFuel ∧
    ∃ fuel, ∀ n, fuel ≤ n → require outside groups n .missing pkg s = (r, s')
  stays : s.present ⊆ s'.present
  ordered : ∃ new, s'.built = s.built ++ new ∧
    ∀ b ∈ new, (∀ q ∈ b.group.prerequisitePackages, q ∈ b.present) ∧ b.Ordered groups
  closed : r = .ok () → pkg ∈ s'.present ∧
    ∀ q, Relation.ReflTransGen (Needs groups) pkg q → q ∈ s'.present

/-- **`require` closes over the prerequisites, in order**, for groups without circles. -/
theorem require_law {groups : List Group} (hacyclic : Acyclic groups) (outside : Nat → Bool)
    (pkg : Text) (s : Shop) : ∃ r s', RequireLaw groups outside pkg s r s' := by
  obtain ⟨fuel, hsettled, hsame⟩ := require_fixed outside hacyclic pkg
  obtain ⟨⟨hstays, new, hbuilt, hnew⟩, hok⟩ := leads_require outside fuel pkg s trivial
  refine ⟨_, _, ⟨hsettled s, fuel, fun n hn => ?_⟩, hstays, ⟨new, hbuilt, fun b hb => ?_⟩, fun h => ?_⟩
  · rw [hsame n hn]
  · exact ⟨fun q hq => hnew b hb q hq q Relation.ReflTransGen.refl, hnew b hb⟩
  · have hclosed := hok () h
    exact ⟨hclosed pkg Relation.ReflTransGen.refl, hclosed⟩

/-! ## Two groups -/

/-- A library. -/
def libGroup : Group := ⟨["libfoo:amd64".toList], false, [], []⟩

/-- A program that needs it. -/
def appGroup : Group := ⟨["foo:amd64".toList], false, [], [.str "libfoo:amd64".toList]⟩

/-- The two do not go round. -/
theorem acyclic_two : Acyclic [appGroup, libGroup] := by
  -- only the first group needs anything
  have hneeds : ∀ g g', GroupNeeds [appGroup, libGroup] g g' → g = appGroup ∧ g' = libGroup := by
    rintro g g' ⟨hg, hg', q, hq, hcontains⟩
    have hlib : libGroup.prerequisitePackages = [] := rfl
    have happ : appGroup.prerequisitePackages = ["libfoo:amd64".toList] := by decide
    have hself : appGroup.contains "libfoo:amd64".toList = false := by decide
    rcases List.mem_cons.mp hg with rfl | hg
    · refine ⟨rfl, ?_⟩
      rw [happ, List.mem_singleton] at hq
      rw [hq] at hcontains
      rcases List.mem_cons.mp hg' with rfl | hg'
      · rw [hself] at hcontains
        cases hcontains
      · exact List.mem_singleton.mp hg'
    · rw [List.mem_singleton.mp hg, hlib] at hq
      exact absurd hq List.not_mem_nil
  have hne : appGroup ≠ libGroup := by
    intro h
    have hpkgs := congrArg Group.packages h
    exact absurd hpkgs (by decide)
  intro g h
  obtain ⟨b, hb, -⟩ := Relation.TransGen.head'_iff.mp h
  obtain ⟨c, -, hc⟩ := Relation.TransGen.tail'_iff.mp h
  exact hne ((hneeds g b hb).1.symm.trans (hneeds c g hc).2)

/-- An empty repository, and a package that requires another. -/
theorem require_foo : ∃ r s', RequireLaw [appGroup, libGroup] (fun _ => true) "foo:amd64".toList
    ⟨[], [], 0⟩ r s' :=
  require_law acyclic_two _ _ _

example : ((require (fun _ => true) [appGroup, libGroup] 2 .missing "foo:amd64".toList
    ⟨[], [], 0⟩).2.present) = ["libfoo:amd64".toList, "foo:amd64".toList] := by decide

end DentOS.Onlpm
