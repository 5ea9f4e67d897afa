/-
  `GrubEnv` and `ProxyGrubEnv` (onl/install/ConfUtils.py): the GRUB environment is edited by
  `grub-editenv`, at once, or by the commands that the proxy appends to installer_postinst.

  The first passes its arguments in a vector.  The second writes them into the text of a command
  line, from which the shell makes words again (`ShellWords`).  `grub-editenv` itself is a map
  update on the content of the file that its path leads to.

  The script is a list of commands, which stand in the file as the comments at `Command` say.  Where
  a line has no words in the sense of `ShellWords`, the run has no result (`none`), and nothing is said
  of it.  `mktemp` is a parameter.  Not modelled: the log, and `install`.
-/
import DentOS.Lib.ShellWords
import DentOS.Lib.Words

namespace DentOS.GrubEnv

open PyText ShellWords

/-! ## Paths, joined to a directory -/

/-- `os.path.join(a, b)`. -/
def join (a b : Text) : Text :=
  if b.head? = some '/' then b
  else if a = [] ∨ a.getLast? = some '/' then a ++ b
  else a ++ '/' :: b

/-- `p.lstrip('/')`. -/
def lstripSlash (p : Text) : Text := p.dropWhile (· = '/')

/-- The names along a path. -/
def comps (p : Text) : List Text := (p.splitOn '/').filter (· ≠ [])

/-- A place for a file: in the host's namespace, or below the root of a device. -/
inductive Place where
  | host (names : List Text)
  | part (device : Text) (names : List Text)
  deriving DecidableEq

/-! ## `grub-editenv`: the commands on one file -/

/-- What an environment file holds. -/
abbrev Content := Text → Option Text

/-- A name is set or unset. -/
def Content.put (content : Content) (name : Text) (value : Option Text) : Content :=
  fun k => if k = name then value else content k

/-- One argument of `set`, `name=value`. -/
def assign (content : Content) (arg : Text) : Option Content :=
  if '=' ∈ arg then
    some (content.put (arg.takeWhile (· ≠ '=')) (some (arg.dropWhile (· ≠ '=')).tail))
  else none

/-- `grub-editenv FILE args`, or `none` where it fails, and writes nothing. -/
def editenv (args : List Text) (content : Content) : Option Content :=
  match args with
  | [] => none
  | verb :: args =>
      if verb = "set".toList then args.foldlM assign content
      else if verb = "unset".toList then some (args.foldl (fun c name => c.put name none) content)
      else none

/-! ## The direct environment: the file of this host -/

/-- Where the GRUB boot files are: a directory inside of the chroot or outside of it, or a partition
    that is not mounted. -/
inductive Location where
  | inside (installerChroot bootDir : Text)
  | outside (bootDir : Text)
  | part (bootPart : Text)

/-- The configuration: where the boot files are, and the path of the environment. -/
structure Conf where
  /-- Where the boot files are. -/
  location : Location
  /-- The path of the environment. -/
  path : Text

/-- An attribute that is set or deleted. -/
inductive Op where
  | set (attr val : Text)
  | delete (attr : Text)

/-- The arguments behind the path: `('set', "%s=%s" % (attr, val))`, `('unset', attr)`. -/
def Op.args : Op → List Text
  | .set attr val => ["set".toList, attr ++ '=' :: val]
  | .delete attr => ["unset".toList, attr]

/-- The file that `GrubEnv` edits.  A `bootDir` inside of the chroot is a path of the chroot, and a
    partition is mounted at a directory of its own. -/
def place (conf : Conf) : Place :=
  match conf.location with
  | .inside chroot bootDir => .host (comps chroot ++ comps (join bootDir (lstripSlash conf.path)))
  | .outside bootDir => .host (comps (join bootDir (lstripSlash conf.path)))
  | .part bootPart => .part bootPart (comps (lstripSlash conf.path))

/-- `__setattr__` and `__delattr__` of `GrubEnv`. -/
def apply (content : Content) (op : Op) : Content := (editenv op.args content).getD content

/-! ## The proxy: a script that does the same under another root -/

/-- A line of the script. -/
inductive Command where
  /-- `mpt=$(mktemp -t -d)`. -/
  | mktemp
  /-- `sts=0`. -/
  | clearStatus
  /-- The text. -/
  | simple (text : Text)
  /-- The text, and ` || sts=$?` behind it. -/
  | guarded (text : Text)
  /-- `test $sts -eq 0`. -/
  | testStatus

/-- `EDITENV`. -/
def editenvName : Text := "grub-editenv".toList

/-- `"%s %s set %s=\"%s\"" % (EDITENV, p, attr, val)`. -/
def setLine (p attr val : Text) : Text :=
  editenvName ++ ' ' :: p ++ " set ".toList ++ attr ++ "=\"".toList ++ val ++ ['"']

/-- `"%s %s unset %s" % (EDITENV, p, attr)`. -/
def unsetLine (p attr : Text) : Text := editenvName ++ ' ' :: p ++ " unset ".toList ++ attr

/-- The lines around a command for a partition. -/
def onPartition (bootPart text : Text) : List Command :=
  [ .mktemp, .simple ("mount ".toList ++ bootPart ++ " $mpt".toList), .clearStatus, .guarded text,
    .simple "umount $mpt".toList, .simple "rmdir $mpt".toList, .testStatus ]

/-- `os.path.join(installer_chroot, bootDir.lstrip('/'), path.lstrip('/'))`. -/
def chrootPath (chroot bootDir path : Text) : Text :=
  join (join chroot (lstripSlash bootDir)) (lstripSlash path)

/-- `ProxyGrubEnv.__setattr__`. -/
def proxySet (conf : Conf) (attr val : Text) : List Command :=
  match conf.location with
  | .inside chroot bootDir => [.simple (setLine (chrootPath chroot bootDir conf.path) attr val)]
  | .outside bootDir => [.simple (setLine (join bootDir (lstripSlash conf.path)) attr val)]
  | .part bootPart =>
      onPartition bootPart (setLine ("${mpt}/".toList ++ lstripSlash conf.path) attr val)

/-- `ProxyGrubEnv.__delattr__`. -/
def proxyDelete (conf : Conf) (attr : Text) : List Command :=
  match conf.location with
  | .inside chroot bootDir => [.simple (unsetLine (chrootPath chroot bootDir conf.path) attr)]
  | .outside bootDir => [.simple (unsetLine (join bootDir (lstripSlash conf.path)) attr)]
  | .part bootPart =>
      onPartition bootPart (unsetLine ("$mpt".toList ++ lstripSlash conf.path) attr)

/-- `__setattr__` and `__delattr__` of the proxy. -/
def proxy (conf : Conf) : Op → List Command
  | .set attr val => proxySet conf attr val
  | .delete attr => proxyDelete conf attr

/-! ## Running the script in a shell -/

/-- The shell that runs the script: its variables, the environment files, the mounts it has made,
    the newest first, and the number of directories it has had from `mktemp`. -/
structure Sh where
  /-- The variables. -/
  env : Env
  /-- What is in each environment file. -/
  files : Place → Option Content
  /-- The mounts, the newest first. -/
  mounts : List (List Text × Text)
  /-- The number of temporary directories so far. -/
  temps : Nat

/-- The place that a path leads to. -/
def Sh.resolve (sh : Sh) (p : Text) : Place :=
  match sh.mounts.find? fun m => m.1.isPrefixOf (comps p) with
  | some (dir, device) => .part device ((comps p).drop dir.length)
  | none => .host (comps p)

/-- A variable of the shell is set. -/
def Sh.setVar (sh : Sh) (name value : Text) : Sh :=
  { sh with env := fun k => if k = name then value else sh.env k }

/-- `grub-editenv p args`: whether it succeeds, and what it leaves. -/
def Sh.edit (sh : Sh) (p : Text) (args : List Text) : Bool × Sh :=
  match (sh.files (sh.resolve p)).bind (editenv args) with
  | some content =>
      (true, { sh with
        files := fun q => if q = sh.resolve p then some content else sh.files q })
  | none => (false, sh)

/-- `grub-editenv` with its arguments. -/
def Sh.grubEditenv (sh : Sh) : List Text → Bool × Sh
  | p :: args => sh.edit p args
  | [] => (false, sh)

/-- `mount device dir`. -/
def Sh.mount (sh : Sh) : List Text → Bool × Sh
  | [device, dir] => (true, { sh with mounts := (comps dir, device) :: sh.mounts })
  | _ => (false, sh)

/-- `umount dir`. -/
def Sh.umount (sh : Sh) : List Text → Bool × Sh
  | [dir] => (true, { sh with mounts := sh.mounts.eraseP fun m => m.1 = comps dir })
  | _ => (false, sh)

/-- A command by its words.  `rmdir` is none of the environment's business. -/
def Sh.exec (sh : Sh) : List Text → Bool × Sh
  | [] => (true, sh)
  | cmd :: args =>
      if cmd = editenvName then sh.grubEditenv args
      else if cmd = "mount".toList then sh.mount args
      else if cmd = "umount".toList then sh.umount args
      else (true, sh)

section

variable (mktemp : Nat → Text)

/-- `mpt=$(mktemp -t -d)`. -/
def Sh.temp (sh : Sh) : Sh :=
  { sh.setVar "mpt".toList (mktemp sh.temps) with temps := sh.temps + 1 }

/-- One line of the script. -/
def Sh.command (sh : Sh) : Command → Option Sh
  | .mktemp => some (sh.temp mktemp)
  | .clearStatus => some (sh.setVar "sts".toList "0".toList)
  | .simple text => (words sh.env text).map fun ws => (sh.exec ws).2
  | .guarded text => (words sh.env text).map fun ws =>
      match sh.exec ws with
      | (true, sh) => sh
      | (false, sh) => sh.setVar "sts".toList "1".toList
  | .testStatus => some sh

/-- The script. -/
def Sh.script (sh : Sh) (cmds : List Command) : Option Sh := cmds.foldlM (Sh.command mktemp) sh

end

/-! ## Names along joined paths do not lead out of them -/

/-- The names along a path with a slash in it. -/
theorem comps_append (a b : Text) : comps (a ++ '/' :: b) = comps a ++ comps b := by
  rw [comps, List.splitOn_append_cons_self, List.filter_append]
  rfl

/-- Slashes in front name nothing. -/
theorem comps_lstripSlash (p : Text) : comps (lstripSlash p) = comps p := by
  induction p with
  | nil => rfl
  | cons c p ih =>
      by_cases hc : c = '/'
      · subst hc
        have hcons : comps ('/' :: p) = comps [] ++ comps p := comps_append [] p
        rw [hcons]
        exact ih
      · rw [lstripSlash, List.dropWhile_cons, if_neg (by rw [decide_eq_true_eq]; exact hc)]

/-- No slash is left in front. -/
theorem head_lstripSlash (p : Text) : (lstripSlash p).head? ≠ some '/' := by
  induction p with
  | nil => exact fun h => by cases h
  | cons c p ih =>
      by_cases hc : c = '/'
      · subst hc
        exact ih
      · rw [lstripSlash, List.dropWhile_cons, if_neg (by rw [decide_eq_true_eq]; exact hc)]
        exact fun h => hc (Option.some.inj h)

/-- The names along a joined path. -/
theorem comps_join {a b : Text} (hb : b.head? ≠ some '/') : comps (join a b) = comps a ++ comps b := by
  rw [join, if_neg hb]
  by_cases ha : a = []
  · subst ha
    rfl
  · by_cases hlast : a.getLast? = some '/'
    · rw [if_pos (Or.inr hlast)]
      obtain ⟨a', rfl⟩ := List.getLast?_eq_some_iff.mp hlast
      rw [List.append_assoc, List.singleton_append, comps_append]
      have hend : comps (a' ++ ['/']) = comps a' ++ comps [] := comps_append a' []
      rw [hend]
      exact congrArg (· ++ comps b) (List.append_nil _).symm
    · rw [if_neg (not_or.mpr ⟨ha, hlast⟩), comps_append]

/-- **The path written for a directory in the chroot** leads to the file in the chroot. -/
theorem comps_chrootPath (chroot bootDir path : Text) :
    comps (chrootPath chroot bootDir path) =
      comps chroot ++ comps (join bootDir (lstripSlash path)) := by
  rw [chrootPath, comps_join (head_lstripSlash path), comps_join (head_lstripSlash bootDir),
    comps_join (head_lstripSlash path), comps_lstripSlash bootDir, List.append_assoc]

/-- A text has the names of what ends it, and no fewer. -/
theorem length_comps_append (u p : Text) : (comps p).length ≤ (comps (u ++ p)).length := by
  induction u with
  | nil => exact Nat.le_refl _
  | cons c u ih =>
      refine Nat.le_trans ih ?_
      by_cases hc : c = '/'
      · subst hc
        have hslash : comps ('/' :: (u ++ p)) = comps [] ++ comps (u ++ p) := comps_append [] (u ++ p)
        rw [List.cons_append, hslash]
        exact Nat.le_refl _
      · obtain ⟨n, ns, hsplit, hcons⟩ := splitOn_cons '/' c (u ++ p)
        rw [List.cons_append, comps, comps, hsplit, hcons, if_neg hc, List.filter_cons, List.filter_cons]
        split
        · exact Nat.le_refl _
        · exact Nat.le_succ _

/-- A character in front of a name makes no other name. -/
theorem length_comps_cons {c d : Char} (hc : c ≠ '/') (hd : d ≠ '/') (p : Text) :
    (comps (c :: d :: p)).length = (comps (d :: p)).length := by
  obtain ⟨n, ns, -, hdsplit⟩ := splitOn_cons '/' d p
  obtain ⟨n', ns', hsplit, hcsplit⟩ := splitOn_cons '/' c (d :: p)
  rw [if_neg hd] at hdsplit
  rw [if_neg hc] at hcsplit
  rw [hdsplit] at hsplit
  cases hsplit
  rw [comps, comps, hcsplit, hdsplit]
  rfl

end DentOS.GrubEnv
