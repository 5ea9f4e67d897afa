/-
  `OnlRfsContext` (tools/onlrfs.py): dev and proc are mounted in a root file system, and resolv.conf is
  replaced, for the body of a `with`.

  `__exit__` undoes all steps of `__enter__`, and is also what `__enter__` calls when one of them fails.
  So what counts is the state that it finds, on each way to it (`Before.reached`, `atExit_eq`).  It takes
  the last mount at both directories, and the mounts of the context are the last where they were made;
  it removes resolv.conf, and puts the backup in its place if there is one (`exit_spec`).

  What is back is the backup, whatever it is.  That is the original where it was moved there; where
  it was not, and `__exit__` comes as far as to resolv.conf, the original is gone, or an old backup is in
  its place (`restores_iff`).

  Not modelled: the log.
-/
import DentOS.Lib.Effects
import DentOS.Lib.PyText

namespace DentOS.RfsContext

open PyText Effects Effects.Prog

/-! ## The root file system: two mounts, two files -/

/-- What `etc/resolv.conf` is. -/
inductive Node where
  | file (content : Text)
  | link (target : Text)
  deriving DecidableEq

/-- Whose mount it is. -/
inductive Owner where
  | other
  | context
  deriving DecidableEq

/-- The mounts at the two directories, the last in front, and the two files. -/
structure Rfs where
  /-- The mounts at `dev`. -/
  dev : List Owner
  /-- The mounts at `proc`. -/
  proc : List Owner
  /-- `etc/resolv.conf`. -/
  resolvconf : Option Node
  /-- Its backup. -/
  resolvconfb : Option Node
  deriving DecidableEq

/-- `self.rc`. -/
structure OnlRfsContext where
  rc : Bool

/-- Which commands succeed, where they can: those of `__enter__` and those of `__exit__`.  `halfway` is what a
    `cp` that fails leaves. -/
structure Env where
  /-- `mount` at `dev`. -/
  mountDev : Bool
  /-- `mount` at `proc`. -/
  mountProc : Bool
  /-- The `mv` to the backup. -/
  mvBackup : Bool
  /-- The `cp` of the host's file. -/
  cp : Bool
  /-- What is in the host's file. -/
  nameservers : Text
  /-- What a `cp` that fails leaves. -/
  halfway : Option Node
  /-- Both `umount`. -/
  umount : Bool
  /-- The `rm` of the copy. -/
  rm : Bool
  /-- The `mv` back. -/
  mvRestore : Bool

/-- A step of the context. -/
abbrev Run (α : Type) : Type := Prog Rfs Text α

/-- A body: it leaves the mounts of the context and the backup alone. -/
structure Body where
  /-- What is done inside the `with`. -/
  run : Run Unit
  /-- It leaves `dev` mounted as it is. -/
  dev : ∀ s, (run s).2.dev = s.dev
  /-- It leaves `proc` mounted as it is. -/
  proc : ∀ s, (run s).2.proc = s.proc
  /-- It leaves the backup. -/
  resolvconfb : ∀ s, (run s).2.resolvconfb = s.resolvconfb

section

variable (c : OnlRfsContext) (env : Env) (body : Body)

/-! ## Enter -/

/-- `mount --bind /dev`, into the rfs. -/
def mountDev : Run Unit := do
  check env.mountDev "Could not mount dev in rfs.".toList
  modify fun s => { s with dev := .context :: s.dev }

/-- `mount -t proc`, into the rfs. -/
def mountProc : Run Unit := do
  check env.mountProc "Could not mount proc in rfs.".toList
  modify fun s => { s with proc := .context :: s.proc }

/-- `mv`, if there is something to move. -/
def backupConf : Run Unit := fun s =>
  if s.resolvconf.isSome then
    if env.mvBackup then (.ok (), { s with resolvconf := none, resolvconfb := s.resolvconf })
    else (.error "Could not backup resolv.conf".toList, s)
  else (.ok (), s)

/-- `cp --remove-destination`. -/
def installConf : Run Unit := fun s =>
  if env.cp then (.ok (), { s with resolvconf := some (.file env.nameservers) })
  else (.error "Could install new resolv.conf".toList, { s with resolvconf := env.halfway })

/-- The `try` of `__enter__`. -/
def enterSteps : Run Unit := do
  mountDev env
  mountProc env
  if c.rc then do
    backupConf env
    installConf env
  else pure ()

/-! ## Exit -/

/-- `umount -l dev proc` goes through both, and fails if one of them is not mounted. -/
def umountBoth : Run Unit := fun s =>
  if env.umount then
    (if s.dev ≠ [] ∧ s.proc ≠ [] then .ok () else .error "Could not unmount dev and proc".toList,
      { s with dev := s.dev.tail, proc := s.proc.tail })
  else (.error "Could not unmount dev and proc".toList, s)

/-- The `resolv.conf` that was copied is removed. -/
def removeConf : Run Unit := fun s =>
  if env.rm ∧ s.resolvconf.isSome then (.ok (), { s with resolvconf := none })
  else (.error "Could not remove new resolv.conf".toList, s)

/-- `mv`, if there is a backup. -/
def restoreConf : Run Unit := fun s =>
  if s.resolvconfb.isSome then
    if env.mvRestore then (.ok (), { s with resolvconf := s.resolvconfb, resolvconfb := none })
    else (.error "Could not restore resolv.conf".toList, s)
  else (.ok (), s)

/-- `__exit__`. -/
def exit : Run Unit := do
  umountBoth env
  if c.rc then do
    removeConf env
    restoreConf env
  else pure ()

/-- `__enter__`: an exception is raised again behind `__exit__`, unless that raises one. -/
def enter : Run Unit := fun s =>
  match enterSteps c env s with
  | (.ok _, s') => (.ok (), s')
  | (.error e, s') =>
      match exit c env s' with
      | (.ok _, s'') => (.error e, s'')
      | (.error e', s'') => (.error e', s'')

/-- The `with` statement. -/
def withContext : Run Unit := fun s =>
  match enter c env s with
  | (.error e, s') => (.error e, s')
  | (.ok _, s') =>
      let r := body.run s'
      match exit c env r.2 with
      | (.ok _, s'') => (r.1, s'')
      | (.error e, s'') => (.error e, s'')

/-- The state that `__exit__` finds. -/
def atExit (s : Rfs) : Rfs :=
  match enterSteps c env s with
  | (.ok _, s') => (body.run s').2
  | (.error _, s') => s'

end

/-! ## What it is for: the file system is as it was -/

/-- The file system in front of the `with`. -/
structure Before where
  /-- The mounts at `dev`. -/
  dev : Nat
  /-- The mounts at `proc`. -/
  proc : Nat
  /-- The file. -/
  resolvconf : Option Node
  /-- Its backup. -/
  resolvconfb : Option Node

/-- The rfs in front of the context. -/
def Before.start (b : Before) : Rfs :=
  ⟨List.replicate b.dev .other, List.replicate b.proc .other, b.resolvconf, b.resolvconfb⟩

/-- **The root file system is restored**: where the undo commands that are attempted succeed, the original
    resolv.conf is back, and no mount of the context is left. -/
def Restores (c : OnlRfsContext) (env : Env) (body : Body) (b : Before) : Prop :=
  (exit c env (atExit c env body b.start)).1 = .ok () →
    (withContext c env body b.start).2.resolvconf = b.resolvconf ∧
      .context ∉ (withContext c env body b.start).2.dev ∧
      .context ∉ (withContext c env body b.start).2.proc

/-- Both mounts are made. -/
def Env.mounts (env : Env) : Bool := env.mountDev && env.mountProc

/-- The original is moved to the backup. -/
def Before.moved (b : Before) (c : OnlRfsContext) (env : Env) : Bool :=
  c.rc && env.mounts && b.resolvconf.isSome && env.mvBackup

/-- `__enter__` comes as far as to `cp`. -/
def Before.copies (b : Before) (c : OnlRfsContext) (env : Env) : Bool :=
  c.rc && env.mounts && (b.resolvconf.isNone || env.mvBackup)

/-- The body is entered. -/
def Before.enters (b : Before) (c : OnlRfsContext) (env : Env) : Bool :=
  env.mounts && (!c.rc || (b.copies c env && env.cp))

/-- The state behind `__enter__`, where it fails or not. -/
def Before.entered (b : Before) (c : OnlRfsContext) (env : Env) : Rfs where
  dev := if env.mountDev then .context :: b.start.dev else b.start.dev
  proc := if env.mounts then .context :: b.start.proc else b.start.proc
  resolvconf :=
    if b.copies c env then if env.cp then some (.file env.nameservers) else env.halfway else b.resolvconf
  resolvconfb := if b.moved c env then b.resolvconf else b.resolvconfb

/-- The state that `__exit__` finds. -/
def Before.reached (b : Before) (c : OnlRfsContext) (env : Env) (body : Body) : Rfs :=
  if b.enters c env then (body.run (b.entered c env)).2 else b.entered c env

/-- The undo commands succeed on a state: each can, and none fails. -/
structure Undoes (c : OnlRfsContext) (env : Env) (s : Rfs) : Prop where
  umount : env.umount = true
  dev : s.dev ≠ []
  proc : s.proc ≠ []
  rm : c.rc = true → env.rm = true ∧ s.resolvconf.isSome = true
  mv : c.rc = true → s.resolvconfb.isSome = true → env.mvRestore = true

/-- The original was moved to the backup, or the old backup is no different; or the context leaves
    resolv.conf alone, and so does the body. -/
def Safe (c : OnlRfsContext) (env : Env) (body : Body) (b : Before) : Prop :=
  if c.rc then b.moved c env = true ∨ b.resolvconfb = b.resolvconf
  else b.enters c env = true → (body.run (b.entered c env)).2.resolvconf = b.resolvconf

/-! ## Each undo command, and what it brings back -/

section

variable {c : OnlRfsContext} {env : Env} {body : Body} {s s' : Rfs}

/-- Both are unmounted where both are there. -/
theorem umountBoth_ok : umountBoth env s = (.ok (), s') ↔ (env.umount = true ∧ s.dev ≠ [] ∧ s.proc ≠ []) ∧
    s' = { s with dev := s.dev.tail, proc := s.proc.tail } := by
  rw [umountBoth]
  by_cases hok : env.umount = true
  · rw [if_pos hok]
    by_cases hmounted : s.dev ≠ [] ∧ s.proc ≠ []
    · rw [if_pos hmounted]
      exact ⟨fun h => ⟨⟨hok, hmounted⟩, (Prod.mk.inj h).2.symm⟩, fun h => by rw [h.2]⟩
    · rw [if_neg hmounted]
      exact iff_of_false (fun h => (by cases (Prod.mk.inj h).1)) fun h => hmounted h.1.2
  · rw [if_neg hok]
    exact iff_of_false (fun h => (by cases (Prod.mk.inj h).1)) fun h => hok h.1.1

/-- The copy is removed where it is there. -/
theorem removeConf_ok : removeConf env s = (.ok (), s') ↔
    (env.rm = true ∧ s.resolvconf.isSome = true) ∧ s' = { s with resolvconf := none } := by
  rw [removeConf]
  by_cases hok : env.rm = true ∧ s.resolvconf.isSome = true
  · rw [if_pos hok]
    exact ⟨fun h => ⟨hok, (Prod.mk.inj h).2.symm⟩, fun h => by rw [h.2]⟩
  · rw [if_neg hok]
    exact iff_of_false (fun h => (by cases (Prod.mk.inj h).1)) fun h => hok h.1

/-- Behind `rm` the backup is what is there. -/
theorem restoreConf_ok (hnone : s.resolvconf = none) : restoreConf env s = (.ok (), s') ↔
    (s.resolvconfb.isSome = true → env.mvRestore = true) ∧
      s' = { s with resolvconf := s.resolvconfb, resolvconfb := none } := by
  rw [restoreConf]
  by_cases hbackup : s.resolvconfb.isSome = true
  · rw [if_pos hbackup]
    by_cases hok : env.mvRestore = true
    · rw [if_pos hok]
      exact ⟨fun h => ⟨fun _ => hok, (Prod.mk.inj h).2.symm⟩, fun h => by rw [h.2]⟩
    · rw [if_neg hok]
      exact iff_of_false (fun h => (by cases (Prod.mk.inj h).1)) fun h => hok (h.1 hbackup)
  -- without a backup nothing is done, and nothing is there
  · have hsame : ({ s with resolvconf := s.resolvconfb, resolvconfb := none } : Rfs) = s := by
      obtain ⟨dev, proc, resolvconf, resolvconfb⟩ := s
      have hb : resolvconfb = none := Option.not_isSome_iff_eq_none.mp hbackup
      cases hnone
      subst hb
      rfl
    rw [if_neg hbackup, hsame]
    exact ⟨fun h => ⟨fun hsome => absurd hsome hbackup, (Prod.mk.inj h).2.symm⟩, fun h => by rw [h.2]⟩

/-! ## Exit -/

/-- What `__exit__` leaves. -/
def undone (c : OnlRfsContext) (s : Rfs) : Rfs where
  dev := s.dev.tail
  proc := s.proc.tail
  resolvconf := if c.rc then s.resolvconfb else s.resolvconf
  resolvconfb := if c.rc then none else s.resolvconfb

/-- **`__exit__` puts the backup in the place of resolv.conf**, whatever it is. -/
theorem exit_spec : exit c env s = (.ok (), s') ↔ Undoes c env s ∧ s' = undone c s := by
  by_cases hrc : c.rc = true
  · have hsteps : exit c env s =
        (umountBoth env >>= fun _ => removeConf env >>= fun _ => restoreConf env) s := by
      rw [exit, if_pos hrc]
    have hundone : undone c s = ⟨s.dev.tail, s.proc.tail, s.resolvconfb, none⟩ := by
      rw [undone, if_pos hrc, if_pos hrc]
    rw [hsteps, hundone]
    constructor
    · intro h
      obtain ⟨_, s₁, hs₁, h₁⟩ := bind_returns h
      obtain ⟨_, s₂, hs₂, h₂⟩ := bind_returns h₁
      obtain ⟨⟨humount, hdev, hproc⟩, rfl⟩ := umountBoth_ok.mp hs₁
      obtain ⟨hrm, rfl⟩ := removeConf_ok.mp hs₂
      obtain ⟨hmv, rfl⟩ := (restoreConf_ok rfl).mp h₂
      exact ⟨⟨humount, hdev, hproc, fun _ => hrm, fun _ => hmv⟩, rfl⟩
    · rintro ⟨h, rfl⟩
      have humount : umountBoth env s = (.ok (), { s with dev := s.dev.tail, proc := s.proc.tail }) :=
        umountBoth_ok.mpr ⟨⟨h.umount, h.dev, h.proc⟩, rfl⟩
      have hremove : removeConf env { s with dev := s.dev.tail, proc := s.proc.tail } =
          (.ok (), { s with dev := s.dev.tail, proc := s.proc.tail, resolvconf := none }) :=
        removeConf_ok.mpr ⟨h.rm hrc, rfl⟩
      have hrestore : restoreConf env { s with dev := s.dev.tail, proc := s.proc.tail, resolvconf := none } =
          (.ok (), ⟨s.dev.tail, s.proc.tail, s.resolvconfb, none⟩) :=
        (restoreConf_ok rfl).mpr ⟨h.mv hrc, rfl⟩
      exact (bind_of_ok humount).trans ((bind_of_ok hremove).trans hrestore)
  · have hsteps : exit c env s = (umountBoth env >>= fun _ => pure ()) s := by rw [exit, if_neg hrc]
    have hundone : undone c s = { s with dev := s.dev.tail, proc := s.proc.tail } := by
      rw [undone, if_neg hrc, if_neg hrc]
    rw [hsteps, hundone]
    constructor
    · intro h
      obtain ⟨_, s₁, hs₁, h₁⟩ := bind_returns h
      obtain ⟨⟨humount, hdev, hproc⟩, rfl⟩ := umountBoth_ok.mp hs₁
      cases h₁
      exact ⟨⟨humount, hdev, hproc, fun h => absurd h hrc, fun h => absurd h hrc⟩, rfl⟩
    · rintro ⟨h, rfl⟩
      exact bind_of_ok (umountBoth_ok.mpr ⟨⟨h.umount, h.dev, h.proc⟩, rfl⟩)

/-- Whatever happens, `__exit__` is what is done last. -/
theorem with_state (c : OnlRfsContext) (env : Env) (body : Body) (s : Rfs) :
    (withContext c env body s).2 = (exit c env (atExit c env body s)).2 := by
  rw [withContext, enter, atExit]
  rcases henter : enterSteps c env s with ⟨e | _, s'⟩
  · rcases hexit : exit c env s' with ⟨e' | _, s''⟩
    · simp only [hexit]
    · simp only [hexit]
  · rcases hexit : exit c env (body.run s').2 with ⟨e' | _, s''⟩
    · simp only [hexit]
    · simp only [hexit]

/-! ## Enter -/

/-- Each way out of the `try`. -/
theorem enterSteps_eq (c : OnlRfsContext) (env : Env) (b : Before) :
    (enterSteps c env b.start).2 = b.entered c env ∧
      ((enterSteps c env b.start).1 = .ok () ↔ b.enters c env = true) := by
  obtain ⟨rc⟩ := c
  obtain ⟨mountDev, mountProc, mvBackup, cp, nameservers, halfway, umount, rm, mvRestore⟩ := env
  obtain ⟨dev, proc, resolvconf, resolvconfb⟩ := b
  have herror : ∀ e : Text, (Except.error e : Except Text Unit) = .ok () ↔ false = true :=
    fun e => ⟨fun h => (by cases h), fun h => (by cases h)⟩
  have hok : (Except.ok () : Except Text Unit) = .ok () ↔ true = true := iff_of_true rfl rfl
  -- in the order of the source: the mounts, then what stands at resolv.conf, then the copy
  cases mountDev with
  | false => cases rc <;> exact ⟨rfl, herror _⟩
  | true =>
      cases mountProc with
      | false => cases rc <;> exact ⟨rfl, herror _⟩
      | true =>
          cases rc with
          | false => exact ⟨rfl, hok⟩
          | true =>
              cases resolvconf with
              | none =>
                  cases cp with
                  | false => exact ⟨rfl, herror _⟩
                  | true => exact ⟨rfl, hok⟩
              | some node =>
                  cases mvBackup with
                  | false => exact ⟨rfl, herror _⟩
                  | true =>
                      cases cp with
                      | false => exact ⟨rfl, herror _⟩
                      | true => exact ⟨rfl, hok⟩

/-- What the context has at its exit. -/
theorem atExit_eq (c : OnlRfsContext) (env : Env) (body : Body) (b : Before) :
    atExit c env body b.start = b.reached c env body := by
  obtain ⟨hstate, hiff⟩ := enterSteps_eq c env b
  rw [atExit, Before.reached]
  rcases henter : enterSteps c env b.start with ⟨e | u, s'⟩
  · rw [henter] at hstate hiff
    rw [if_neg fun h => (by cases hiff.mpr h)]
    exact hstate
  · rw [henter] at hstate hiff
    rw [if_pos (hiff.mp rfl), ← hstate]

/-! ## The original is back, exactly where it was moved or left alone -/

/-- The original is aside where it was moved. -/
theorem resolvconfb_reached (c : OnlRfsContext) (env : Env) (body : Body) (b : Before) :
    (b.reached c env body).resolvconfb = if b.moved c env then b.resolvconf else b.resolvconfb := by
  rw [Before.reached]
  split
  · exact body.resolvconfb _
  · rfl

/-- Where the context made a mount it is the last one. -/
theorem context_not_left (made : Bool) (n : Nat) :
    Owner.context ∉
      (if made then Owner.context :: List.replicate n .other else List.replicate n .other).tail := by
  have hothers : Owner.context ∉ List.replicate n Owner.other := by
    intro h
    cases (List.mem_replicate.mp h).2
  cases made with
  | false => exact fun h => hothers (List.mem_of_mem_tail h)
  | true => exact hothers

/-- The body leaves the mounts. -/
theorem mounts_reached (c : OnlRfsContext) (env : Env) (body : Body) (b : Before) :
    (b.reached c env body).dev = (b.entered c env).dev ∧
      (b.reached c env body).proc = (b.entered c env).proc := by
  rw [Before.reached]
  split
  · exact ⟨body.dev _, body.proc _⟩
  · exact ⟨rfl, rfl⟩

/-- What is back is the original, exactly where that is safe. -/
theorem undone_iff (c : OnlRfsContext) (env : Env) (body : Body) (b : Before) :
    (undone c (b.reached c env body)).resolvconf = b.resolvconf ↔ Safe c env body b := by
  rw [undone, Safe]
  by_cases hrc : c.rc = true
  · simp only [if_pos hrc, resolvconfb_reached]
    by_cases hmoved : b.moved c env = true
    · rw [if_pos hmoved]
      exact iff_of_true rfl (Or.inl hmoved)
    · rw [if_neg hmoved]
      exact (or_iff_right hmoved).symm
  · have hentered : (b.entered c env).resolvconf = b.resolvconf := by
      have hcopies : b.copies c env = false := by
        rw [Before.copies, Bool.eq_false_iff.mpr hrc]
        rfl
      rw [Before.entered, hcopies]
      rfl
    simp only [if_neg hrc, Before.reached]
    by_cases henters : b.enters c env = true
    · rw [if_pos henters]
      exact (imp_iff_right henters).symm
    · rw [if_neg henters]
      exact iff_of_true hentered fun h => absurd h henters

end

/-- **`OnlRfsContext` restores the root file system** exactly where the undo commands do not all succeed, or
    it is safe that they do. -/
theorem restores_iff (c : OnlRfsContext) (env : Env) (body : Body) (b : Before) :
    Restores c env body b ↔ (Undoes c env (b.reached c env body) → Safe c env body b) := by
  rw [Restores, atExit_eq, with_state, atExit_eq, ← undone_iff]
  have hexit : (exit c env (b.reached c env body)).1 = .ok () ↔ Undoes c env (b.reached c env body) := by
    constructor
    · intro h
      exact (exit_spec.mp (Prod.ext h rfl)).1
    · intro h
      rw [exit_spec.mpr ⟨h, rfl⟩]
  rw [hexit]
  refine forall_congr' fun h => ?_
  obtain ⟨hdev, hproc⟩ := mounts_reached c env body b
  rw [exit_spec.mpr ⟨h, rfl⟩]
  have hleft : Owner.context ∉ (undone c (b.reached c env body)).dev ∧
      Owner.context ∉ (undone c (b.reached c env body)).proc := by
    rw [undone, hdev, hproc]
    exact ⟨context_not_left _ _, context_not_left _ _⟩
  exact and_iff_left hleft

/-- Everything succeeds but the backup. -/
def noBackup : Env where
  mountDev := true
  mountProc := true
  mvBackup := false
  cp := true
  nameservers := []
  halfway := none
  umount := true
  rm := true
  mvRestore := true

/-- The original is removed. -/
theorem original_removed : ¬ ∀ (c : OnlRfsContext) (env : Env) (body : Body) (b : Before),
    Restores c env body b := by
  intro h
  have hlost := (h ⟨true⟩ noBackup ⟨pure (), fun _ => rfl, fun _ => rfl, fun _ => rfl⟩
    ⟨0, 0, some (.link "/run/resolv.conf".toList), none⟩ rfl).1
  cases hlost

end DentOS.RfsContext
