/-
  What the proxy's script leaves in the GRUB environment.

  `proxy_refines_iff` takes the words of a line apart from what they do.  A line for a directory, or
  for a mounted partition, has the words that `GrubEnv` passes when its path and its attribute are
  plain and its value is inert (`words_setLine`, `words_unsetLine`); a run of such lines is the run of
  the direct updates (`script_run`).  The other way round, a value that is not inert loses characters,
  and does not arrive in an environment whose values are inert (`set_lost`); and the line that deletes
  on a partition names another file, for want of a slash (`words_deletePath`, `delete_lost`).
-/
import DentOS.Install.GrubEnv

namespace DentOS.GrubEnv

open PyText ShellWords

/-! ## The words of the lines, as a shell takes them apart -/

/-- Between blanks, the text is the word `w`. -/
def ReadsAs (env : Env) (t w : Text) : Prop :=
  ∀ (done : List Text) (rest : Text),
    Lexer.run env ⟨false, none, done, .nothing⟩ (t ++ ' ' :: rest) =
      Lexer.run env ⟨false, none, done ++ [w], .nothing⟩ rest

variable {env : Env}

/-- A plain word reads as itself. -/
theorem readsAs_plain {t : Text} (h : PlainWord t) : ReadsAs env t t := by
  intro done rest
  rw [Lexer.run_append, Lexer.run_plain h, Option.bind_some, Lexer.run_blank]

/-- A line that begins with such a text behind `grub-editenv`. -/
theorem run_command {verb p w : Text} (hp : ReadsAs env p w) (hverb : PlainWord verb) (rest : Text) :
    Lexer.run env ⟨false, none, [], .nothing⟩
        (editenvName ++ ' ' :: p ++ (' ' :: verb ++ ' ' :: rest)) =
      Lexer.run env ⟨false, none, [editenvName, w, verb], .nothing⟩ rest := by
  rw [List.append_assoc, List.cons_append, readsAs_plain (by decide) [], List.cons_append,
    hp, readsAs_plain hverb]
  rfl

/-- The line that sets is its words with blanks in between. -/
theorem setLine_eq (p attr val : Text) : setLine p attr val =
    editenvName ++ ' ' :: p ++ (' ' :: "set".toList ++ ' ' :: (attr ++ ['='] ++ '"' :: (val ++ ['"']))) := by
  have hset : " set ".toList = ' ' :: "set".toList ++ [' '] := by decide
  have hopen : "=\"".toList = ['=', '"'] := by decide
  rw [setLine, hset, hopen]
  simp only [List.append_assoc, List.cons_append, List.nil_append]

/-- The lexer in front of the value of a set. -/
theorem run_setLine {p w attr : Text} (hp : ReadsAs env p w) (hattr : PlainWord (attr ++ ['=']))
    (val : Text) :
    Lexer.run env ⟨false, none, [], .nothing⟩ (setLine p attr val) =
      Lexer.run env ⟨true, some (attr ++ ['=']), [editenvName, w, "set".toList], .nothing⟩
        (val ++ ['"']) := by
  rw [setLine_eq, run_command hp (by decide), Lexer.run_append, Lexer.run_plain hattr,
    Option.bind_some, Lexer.run_open_quote]

/-- **The words of a set** with an inert value. -/
theorem words_setLine {p w attr val : Text} (hp : ReadsAs env p w)
    (hattr : PlainWord (attr ++ ['='])) (hval : Inert val) :
    words env (setLine p attr val) = some [editenvName, w, "set".toList, attr ++ '=' :: val] := by
  rw [words, run_setLine hp hattr, Lexer.run_inert val hval]
  show some ([editenvName, w, "set".toList] ++ [attr ++ ['='] ++ val]) = _
  rw [List.append_assoc]
  rfl

/-- The line that unsets is its words with blanks in between. -/
theorem unsetLine_eq (p attr : Text) : unsetLine p attr =
    editenvName ++ ' ' :: p ++ (' ' :: "unset".toList ++ ' ' :: attr) := by
  have hunset : " unset ".toList = ' ' :: "unset".toList ++ [' '] := by decide
  rw [unsetLine, hunset]
  simp only [List.append_assoc, List.cons_append, List.nil_append]

/-- **The words of an unset.** -/
theorem words_unsetLine {p w attr : Text} (hp : ReadsAs env p w) (hattr : PlainWord attr) :
    words env (unsetLine p attr) = some [editenvName, w, "unset".toList, attr] := by
  rw [words, unsetLine_eq, run_command hp (by decide), Lexer.run_plain hattr]
  rfl

/-- A line that ends with `$mpt`. -/
theorem words_mpt (env : Env) (ws : List Text) (hws : ∀ w ∈ ws, PlainWord w)
    (hplain : (env "mpt".toList).all plainChar = true) (hne : env "mpt".toList ≠ []) :
    words env (ws.flatMap (· ++ [' ']) ++ "$mpt".toList) = some (ws ++ [env "mpt".toList]) := by
  have hrun : ∀ (ws : List Text), (∀ w ∈ ws, PlainWord w) → ∀ (done : List Text) (rest : Text),
      Lexer.run env ⟨false, none, done, .nothing⟩ (ws.flatMap (· ++ [' ']) ++ rest) =
        Lexer.run env ⟨false, none, done ++ ws, .nothing⟩ rest := by
    intro ws
    induction ws with
    | nil =>
        intro _ done rest
        rw [List.append_nil]
        rfl
    | cons w ws ih =>
        intro hall done rest
        rw [List.flatMap_cons, List.append_assoc, List.append_assoc, List.singleton_append,
          readsAs_plain (hall w List.mem_cons_self),
          ih (fun w' hw' => hall w' (List.mem_cons_of_mem w hw')), List.append_assoc]
        rfl
  have hmpt : "$mpt".toList = '$' :: 'm' :: "pt".toList := by decide
  have hname : "mpt".toList = 'm' :: "pt".toList := by decide
  rw [hname] at hplain hne ⊢
  rw [words, hrun ws hws, List.nil_append, hmpt,
    Lexer.finish_name (by decide) (by decide) hplain hne]

/-! ## Runs of the script, command by command -/

/-- A directory for every call of `mktemp`, whose name the shell keeps. -/
def TempDirs (mktemp : Nat → Text) : Prop :=
  ∀ n, (mktemp n).all plainChar = true ∧ mktemp n ≠ []

/-- The text of the path in the line for an operation. -/
def linePath (conf : Conf) (op : Op) : Text :=
  match conf.location, op with
  | .inside chroot bootDir, _ => chrootPath chroot bootDir conf.path
  | .outside bootDir, _ => join bootDir (lstripSlash conf.path)
  | .part _, .set _ _ => "${mpt}/".toList ++ lstripSlash conf.path
  | .part _, .delete _ => "$mpt".toList ++ lstripSlash conf.path

/-- The line. -/
def lineText (conf : Conf) (op : Op) : Text :=
  match op with
  | .set attr val => setLine (linePath conf op) attr val
  | .delete attr => unsetLine (linePath conf op) attr

/-- The shell in which the line runs. -/
def lineState (mktemp : Nat → Text) (conf : Conf) (sh : Sh) : Sh :=
  match conf.location with
  | .part bootPart =>
      { (sh.temp mktemp).setVar "sts".toList "0".toList with
        mounts := (comps (mktemp sh.temps), bootPart) :: sh.mounts }
  | _ => sh

/-- A variable that was set has its value. -/
theorem setVar_self (sh : Sh) (nm value : Text) : (sh.setVar nm value).env nm = value := by
  show (if nm = nm then value else sh.env nm) = value
  rw [if_pos rfl]

/-- No other variable is touched. -/
theorem setVar_other {nm k : Text} (sh : Sh) (value : Text) (h : k ≠ nm) :
    (sh.setVar nm value).env k = sh.env k := by
  show (if k = nm then value else sh.env k) = sh.env k
  rw [if_neg h]

/-- The script has two variables. -/
theorem mpt_ne_sts : "mpt".toList ≠ "sts".toList := by decide

/-- The variables of a shell that has run nothing but such lines. -/
structure Fresh (env : Env) : Prop where
  plain : ∀ nm, (env nm).all plainChar = true
  unset : ∀ nm, nm ≠ "mpt".toList → nm ≠ "sts".toList → env nm = []

/-- Plain values keep the environment fresh. -/
theorem Fresh.setVar {sh : Sh} {nm value : Text} (h : Fresh sh.env)
    (hnm : nm = "mpt".toList ∨ nm = "sts".toList) (hvalue : value.all plainChar = true) :
    Fresh (sh.setVar nm value).env := by
  refine ⟨?_, ?_⟩
  · intro k
    by_cases hk : k = nm
    · rw [hk, setVar_self]
      exact hvalue
    · rw [setVar_other sh value hk]
      exact h.plain k
  · intro k h₁ h₂
    have hne : k ≠ nm := by
      rintro rfl
      rcases hnm with rfl | rfl
      · exact h₁ rfl
      · exact h₂ rfl
    rw [setVar_other sh value hne]
    exact h.unset k h₁ h₂

/-- `grub-editenv` changes neither the variables nor the mounts. -/
theorem edit_frame (sh : Sh) (p : Text) (args : List Text) :
    (sh.edit p args).2.env = sh.env ∧ (sh.edit p args).2.mounts = sh.mounts := by
  rw [Sh.edit]
  split <;> exact ⟨rfl, rfl⟩

/-- `grub-editenv` edits the file that its path leads to. -/
theorem exec_editenv (sh : Sh) (p : Text) (args : List Text) :
    sh.exec (editenvName :: p :: args) = sh.edit p args := by
  rw [Sh.exec, if_pos rfl, Sh.grubEditenv]

/-- `mount` adds a mount. -/
theorem exec_mount (sh : Sh) (device dir : Text) :
    sh.exec ["mount".toList, device, dir] =
      (true, { sh with mounts := (comps dir, device) :: sh.mounts }) := by
  rw [Sh.exec, if_neg (by decide), if_pos rfl, Sh.mount]

/-- `umount` takes it away. -/
theorem exec_umount (sh : Sh) (dir : Text) :
    sh.exec ["umount".toList, dir] =
      (true, { sh with mounts := sh.mounts.eraseP fun m => m.1 = comps dir }) := by
  rw [Sh.exec, if_neg (by decide), if_neg (by decide), if_pos rfl, Sh.umount]

/-- `rmdir` leaves the shell as it is. -/
theorem exec_rmdir (sh : Sh) (dir : Text) : sh.exec ["rmdir".toList, dir] = (true, sh) := by
  rw [Sh.exec, if_neg (by decide), if_neg (by decide), if_neg (by decide)]

/-- `grub-editenv` touches neither the variables nor the mounts. -/
theorem exec_editenv_frame (sh : Sh) (args : List Text) :
    (sh.exec (editenvName :: args)).2.env = sh.env ∧
      (sh.exec (editenvName :: args)).2.mounts = sh.mounts := by
  cases args with
  | nil =>
      rw [Sh.exec, if_pos rfl]
      exact ⟨rfl, rfl⟩
  | cons p args =>
      rw [exec_editenv]
      exact edit_frame sh p args

/-- `grub-editenv` changes no file but that of its path. -/
theorem edit_other {sh : Sh} {p : Text} {pl : Place} (h : sh.resolve p ≠ pl) (args : List Text) :
    (sh.edit p args).2.files pl = sh.files pl := by
  rw [Sh.edit]
  split
  · exact if_neg (Ne.symm h)
  · rfl

variable {mktemp : Nat → Text} {conf : Conf} {sh : Sh}

/-- The location is made of words that the shell keeps. -/
def PlainLocation (conf : Conf) : Prop :=
  match conf.location with
  | .inside chroot bootDir => PlainWord (chrootPath chroot bootDir conf.path)
  | .outside bootDir => PlainWord (join bootDir (lstripSlash conf.path))
  | .part bootPart => PlainWord bootPart ∧ (lstripSlash conf.path).all plainChar = true

/-- A script is its first command and the others. -/
theorem script_cons (cmd : Command) (cmds : List Command) :
    sh.script mktemp (cmd :: cmds) = (sh.command mktemp cmd).bind (Sh.script mktemp · cmds) :=
  List.foldlM_cons

/-- A script in two parts is one part behind the other. -/
theorem script_append (cmds cmds' : List Command) :
    sh.script mktemp (cmds ++ cmds') = (sh.script mktemp cmds).bind (Sh.script mktemp · cmds') :=
  List.foldlM_append

/-- A line of plain words and `$mpt`, where `mpt` is a directory that the shell keeps. -/
theorem command_mpt {dir : Text} (hplain : dir.all plainChar = true) (hne : dir ≠ [])
    (hmpt : sh.env "mpt".toList = dir) {ws : List Text} (hws : ∀ w ∈ ws, PlainWord w) :
    sh.command mktemp (.simple (ws.flatMap (· ++ [' ']) ++ "$mpt".toList)) =
      some (sh.exec (ws ++ [dir])).2 := by
  have hwords := words_mpt sh.env ws hws (by rw [hmpt]; exact hplain)
    (by rw [hmpt]; exact hne)
  rw [Sh.command, hwords, hmpt]
  rfl

/-- The lines in front of the one that edits on a partition. -/
theorem script_before (htemp : TempDirs mktemp) {bootPart : Text} (hpart : PlainWord bootPart)
    (hloc : conf.location = .part bootPart) (cmds : List Command) :
    sh.script mktemp (.mktemp :: .simple ("mount ".toList ++ bootPart ++ " $mpt".toList) ::
        .clearStatus :: cmds) = (lineState mktemp conf sh).script mktemp cmds := by
  obtain ⟨hplain, hne⟩ := htemp sh.temps
  have htext : "mount ".toList ++ bootPart ++ " $mpt".toList =
      ["mount".toList, bootPart].flatMap (· ++ [' ']) ++ "$mpt".toList := by
    have hmount : "mount ".toList = "mount".toList ++ [' '] := by decide
    have hmpt : " $mpt".toList = ' ' :: "$mpt".toList := by decide
    rw [hmount, hmpt]
    simp only [List.flatMap_cons, List.flatMap_nil, List.append_assoc, List.cons_append,
      List.nil_append, List.append_nil]
  have hws : ∀ w ∈ ["mount".toList, bootPart], PlainWord w := by
    intro w hw
    rcases List.mem_cons.mp hw with rfl | hw
    · decide
    · rw [List.mem_singleton.mp hw]
      exact hpart
  have hmpt : (sh.temp mktemp).env "mpt".toList = mktemp sh.temps :=
    setVar_self sh "mpt".toList (mktemp sh.temps)
  have hmount : (sh.temp mktemp).command mktemp
      (.simple ("mount ".toList ++ bootPart ++ " $mpt".toList)) =
      some ((sh.temp mktemp).exec ["mount".toList, bootPart, mktemp sh.temps]).2 := by
    rw [htext]
    exact command_mpt hplain hne hmpt hws
  have htemp' : sh.command mktemp .mktemp = some (sh.temp mktemp) := rfl
  rw [script_cons, htemp', Option.bind_some, script_cons, hmount, Option.bind_some, exec_mount,
    script_cons, lineState, hloc]
  rfl

/-- The lines behind it. -/
theorem script_behind {dir : Text} (hplain : dir.all plainChar = true) (hne : dir ≠ [])
    (hmpt : sh.env "mpt".toList = dir) :
    sh.script mktemp [.simple "umount $mpt".toList, .simple "rmdir $mpt".toList, .testStatus] =
      some { sh with mounts := sh.mounts.eraseP fun m => m.1 = comps dir } := by
  have htext : "umount $mpt".toList = ["umount".toList].flatMap (· ++ [' ']) ++ "$mpt".toList := by
    decide
  have htext' : "rmdir $mpt".toList = ["rmdir".toList].flatMap (· ++ [' ']) ++ "$mpt".toList := by
    decide
  have hws : ∀ w ∈ ["umount".toList], PlainWord w := by decide
  have hws' : ∀ w ∈ ["rmdir".toList], PlainWord w := by decide
  have humount : sh.command mktemp (.simple "umount $mpt".toList) =
      some (sh.exec ["umount".toList, dir]).2 := by
    rw [htext]
    exact command_mpt hplain hne hmpt hws
  have hrmdir : ∀ sh' : Sh, sh'.env "mpt".toList = dir →
      sh'.command mktemp (.simple "rmdir $mpt".toList) = some (sh'.exec ["rmdir".toList, dir]).2 := by
    intro sh' hmpt'
    rw [htext']
    exact command_mpt hplain hne hmpt' hws'
  have hrest := hrmdir { sh with mounts := sh.mounts.eraseP fun m => m.1 = comps dir } hmpt
  rw [exec_rmdir] at hrest
  rw [script_cons, humount, Option.bind_some, exec_umount, script_cons, hrest]
  rfl

/-- What a line that edits leaves for the lines behind it. -/
theorem command_guarded (mktemp : Nat → Text) {ws : List Text} {text : Text}
    (hwords : words sh.env text = some (editenvName :: ws)) :
    ∃ sh', sh.command mktemp (.guarded text) = some sh' ∧
      sh'.files = (sh.exec (editenvName :: ws)).2.files ∧ sh'.mounts = sh.mounts ∧
      sh'.env "mpt".toList = sh.env "mpt".toList ∧ (Fresh sh.env → Fresh sh'.env) := by
  obtain ⟨henv, hmounts⟩ := exec_editenv_frame sh ws
  rw [Sh.command, hwords, Option.map_some]
  rcases hexec : sh.exec (editenvName :: ws) with ⟨_ | _, sh₁⟩
  · rw [hexec] at henv hmounts
    refine ⟨_, rfl, rfl, hmounts, ?_, ?_⟩
    · rw [setVar_other _ _ mpt_ne_sts]
      exact congrFun henv _
    · intro hfresh
      exact Fresh.setVar (henv ▸ hfresh) (Or.inr rfl) (by decide)
  · rw [hexec] at henv hmounts
    exact ⟨_, rfl, rfl, hmounts, by rw [henv], fun hfresh => henv ▸ hfresh⟩

/-! ## One operation of the proxy -/

/-- The variables in which the line runs. -/
theorem lineState_mpt (sh : Sh) (htemp : TempDirs mktemp) {bootPart : Text}
    (hloc : conf.location = .part bootPart) :
    (lineState mktemp conf sh).env "mpt".toList = mktemp sh.temps ∧
      ((lineState mktemp conf sh).env "mpt".toList).all plainChar = true ∧
      (lineState mktemp conf sh).env "mpt".toList ≠ [] := by
  have hmpt : (lineState mktemp conf sh).env "mpt".toList = mktemp sh.temps := by
    rw [lineState, hloc]
    exact (setVar_other (sh.temp mktemp) "0".toList mpt_ne_sts).trans
      (setVar_self sh "mpt".toList (mktemp sh.temps))
  rw [hmpt]
  exact ⟨rfl, htemp sh.temps⟩

/-- In front of the line the environment is fresh. -/
theorem lineState_fresh (htemp : TempDirs mktemp) (h : Fresh sh.env) :
    Fresh (lineState mktemp conf sh).env := by
  rw [lineState]
  split
  · exact Fresh.setVar (Fresh.setVar h (Or.inl rfl) (htemp sh.temps).1) (Or.inr rfl) (by decide)
  · exact h

/-- **The script of one operation**: its line has no words, or they are run. -/
theorem script_proxy (htemp : TempDirs mktemp) (hplain : PlainLocation conf)
    (hmounts : sh.mounts = []) (op : Op) :
    (words (lineState mktemp conf sh).env (lineText conf op) = none →
      sh.script mktemp (proxy conf op) = none) ∧
    ∀ ws, words (lineState mktemp conf sh).env (lineText conf op) = some (editenvName :: ws) →
      ∃ sh', sh.script mktemp (proxy conf op) = some sh' ∧
        sh'.files = ((lineState mktemp conf sh).exec (editenvName :: ws)).2.files ∧
        sh'.mounts = [] ∧ (Fresh sh.env → Fresh sh'.env) := by
  -- a line for a directory stands alone
  have hsimple : ∀ text, lineState mktemp conf sh = sh → proxy conf op = [.simple text] →
      lineText conf op = text →
      (words (lineState mktemp conf sh).env (lineText conf op) = none →
        sh.script mktemp (proxy conf op) = none) ∧
      ∀ ws, words (lineState mktemp conf sh).env (lineText conf op) = some (editenvName :: ws) →
        ∃ sh', sh.script mktemp (proxy conf op) = some sh' ∧
          sh'.files = ((lineState mktemp conf sh).exec (editenvName :: ws)).2.files ∧
          sh'.mounts = [] ∧ (Fresh sh.env → Fresh sh'.env) := by
    intro text hstate hproxy htext
    rw [hstate, hproxy, htext, script_cons, Sh.command]
    refine ⟨fun hnone => by rw [hnone]; rfl, fun ws hws => ?_⟩
    obtain ⟨henv, hm⟩ := exec_editenv_frame sh ws
    rw [hws]
    exact ⟨_, rfl, rfl, hm.trans hmounts, fun hfresh => henv ▸ hfresh⟩
  rcases hloc : conf.location with ⟨chroot, bootDir⟩ | bootDir | bootPart
  · refine hsimple (lineText conf op) (by rw [lineState, hloc]) ?_ rfl
    cases op <;> simp only [proxy, proxySet, proxyDelete, lineText, linePath, hloc]
  · refine hsimple (lineText conf op) (by rw [lineState, hloc]) ?_ rfl
    cases op <;> simp only [proxy, proxySet, proxyDelete, lineText, linePath, hloc]
  · have hpart : PlainWord bootPart := by
      rw [PlainLocation, hloc] at hplain
      exact hplain.1
    have hproxy : proxy conf op = onPartition bootPart (lineText conf op) := by
      cases op <;> simp only [proxy, proxySet, proxyDelete, lineText, linePath, hloc]
    obtain ⟨htplain, htne⟩ := htemp sh.temps
    obtain ⟨hmpt, -, -⟩ := lineState_mpt sh htemp hloc
    have hone : (lineState mktemp conf sh).mounts = [(comps (mktemp sh.temps), bootPart)] := by
      rw [lineState, hloc, hmounts]
    rw [hproxy, onPartition, script_before htemp hpart hloc, script_cons]
    refine ⟨fun hnone => by rw [Sh.command, hnone]; rfl, fun ws hws => ?_⟩
    obtain ⟨sh₁, hcmd, hfiles, hm, henv, hfresh⟩ := command_guarded mktemp hws
    rw [hcmd, Option.bind_some, script_behind htplain htne (henv.trans hmpt)]
    refine ⟨_, rfl, hfiles, ?_, ?_⟩
    · show sh₁.mounts.eraseP _ = []
      rw [hm, hone, List.eraseP_cons_of_pos]
      exact decide_eq_true rfl
    · exact fun hf => hfresh (lineState_fresh htemp hf)

/-! ## Operations that are kept: the proxy does what the environment does -/

/-- The attribute of an operation is a word that the shell keeps. -/
def PlainAttr : Op → Prop
  | .set attr _ => PlainWord (attr ++ ['='])
  | .delete attr => PlainWord attr

/-- The value is inert, and a delete has no file below the root of a partition to name. -/
def Kept (conf : Conf) : Op → Prop
  | .set _ val => Inert val
  | .delete _ =>
      match conf.location with
      | .part _ => lstripSlash conf.path = []
      | _ => True

/-- In front of the line no file has been written. -/
theorem lineState_files : (lineState mktemp conf sh).files = sh.files := by
  rw [lineState]
  split <;> rfl

/-- `${mpt}/` and plain characters. -/
theorem readsAs_braces {q : Text} (hplain : (env "mpt".toList).all plainChar = true)
    (hne : env "mpt".toList ≠ []) (hq : q.all plainChar = true) :
    ReadsAs env ("${mpt}/".toList ++ q) (env "mpt".toList ++ '/' :: q) := by
  have htext : "${mpt}/".toList = '$' :: '{' :: 'm' :: "pt".toList ++ '}' :: ['/'] := by
    decide
  have hname : "mpt".toList = 'm' :: "pt".toList := by decide
  intro done rest
  rw [hname] at hplain hne ⊢
  have hslash : ('/' :: q).all plainChar = true := by
    rw [List.all_cons, hq]
    decide
  rw [htext, List.append_assoc, List.append_assoc,
    show ('}' :: ['/'] ++ (q ++ ' ' :: rest)) = '}' :: ('/' :: q ++ ' ' :: rest) from rfl,
    Lexer.run_braces (by decide) (by decide) (by decide) hplain hne, Lexer.run_append,
    Lexer.run_plain_chars _ hslash, Option.bind_some, Lexer.run_blank]

/-- `$mpt` and nothing. -/
theorem readsAs_mpt (hplain : (env "mpt".toList).all plainChar = true)
    (hne : env "mpt".toList ≠ []) : ReadsAs env "$mpt".toList (env "mpt".toList) := by
  have htext : "$mpt".toList = '$' :: 'm' :: "pt".toList := by decide
  have hname : "mpt".toList = 'm' :: "pt".toList := by decide
  intro done rest
  rw [hname] at hplain hne ⊢
  rw [htext, Lexer.run_name (by decide) (by decide) hplain hne (by decide), Lexer.run_blank]

/-- Below the directory of a mounted partition. -/
theorem resolve_mounted {dir device : Text} (hmounts : sh.mounts = [(comps dir, device)]) {p : Text}
    {names : List Text} (hp : comps p = comps dir ++ names) :
    sh.resolve p = .part device names := by
  have hprefix : (comps dir).isPrefixOf (comps dir ++ names) = true :=
    List.isPrefixOf_iff_prefix.mpr (List.prefix_append _ _)
  have hfind : [(comps dir, device)].find? (fun m => m.1.isPrefixOf (comps dir ++ names)) =
      some (comps dir, device) := List.find?_cons_of_pos hprefix
  rw [Sh.resolve, hmounts, hp, hfind]
  show Place.part device ((comps dir ++ names).drop (comps dir).length) = _
  rw [List.drop_left]

/-- Without mounts a path is the host's own. -/
theorem resolve_host (hmounts : sh.mounts = []) (p : Text) : sh.resolve p = .host (comps p) := by
  rw [Sh.resolve, hmounts]
  rfl

/-- With a partition it is mounted at the temporary directory. -/
theorem lineState_mounts (mktemp : Nat → Text) {bootPart : Text} (hloc : conf.location = .part bootPart)
    (hmounts : sh.mounts = []) :
    (lineState mktemp conf sh).mounts = [(comps (mktemp sh.temps), bootPart)] := by
  rw [lineState, hloc, hmounts]

/-- **The path of the line is the path of the environment**, for an operation that is kept. -/
theorem readsAs_linePath (sh : Sh) (htemp : TempDirs mktemp) (hplain : PlainLocation conf)
    (hmounts : sh.mounts = []) {op : Op} (hkept : Kept conf op) :
    ∃ w, ReadsAs (lineState mktemp conf sh).env (linePath conf op) w ∧
      (lineState mktemp conf sh).resolve w = place conf := by
  rcases hloc : conf.location with ⟨chroot, bootDir⟩ | bootDir | bootPart
  · have hstate : lineState mktemp conf sh = sh := by rw [lineState, hloc]
    rw [PlainLocation, hloc] at hplain
    rw [hstate]
    refine ⟨chrootPath chroot bootDir conf.path, ?_, ?_⟩
    · cases op <;> simpa only [linePath, hloc] using readsAs_plain hplain
    · rw [resolve_host hmounts, place, hloc, comps_chrootPath]
  · have hstate : lineState mktemp conf sh = sh := by rw [lineState, hloc]
    rw [PlainLocation, hloc] at hplain
    rw [hstate]
    refine ⟨join bootDir (lstripSlash conf.path), ?_, ?_⟩
    · cases op <;> simpa only [linePath, hloc] using readsAs_plain hplain
    · rw [resolve_host hmounts, place, hloc]
  · obtain ⟨hmpt, hmplain, hmne⟩ := lineState_mpt sh htemp hloc
    have hm := lineState_mounts mktemp hloc hmounts
    have hq : (lstripSlash conf.path).all plainChar = true := by
      rw [PlainLocation, hloc] at hplain
      exact hplain.2
    cases op with
    | set attr val =>
        refine ⟨(lineState mktemp conf sh).env "mpt".toList ++ '/' :: lstripSlash conf.path, ?_, ?_⟩
        · simpa only [linePath, hloc] using readsAs_braces hmplain hmne hq
        · rw [hmpt, resolve_mounted hm (comps_append _ _), place, hloc]
    | delete attr =>
        have hempty : lstripSlash conf.path = [] := by
          simpa only [Kept, hloc] using hkept
        refine ⟨(lineState mktemp conf sh).env "mpt".toList, ?_, ?_⟩
        · have hread := readsAs_mpt hmplain hmne
          simpa only [linePath, hloc, hempty, List.append_nil] using hread
        · rw [hmpt, resolve_mounted hm (List.append_nil _).symm, place, hloc, hempty]
          rfl

/-- The arguments of an operation are ones that `grub-editenv` takes. -/
theorem editenv_args (op : Op) (content : Content) :
    editenv op.args content = some (apply content op) := by
  have hsome : ∃ content', editenv op.args content = some content' := by
    cases op with
    | set attr val =>
        refine ⟨content.put ((attr ++ '=' :: val).takeWhile (· ≠ '='))
          (some ((attr ++ '=' :: val).dropWhile (· ≠ '=')).tail), ?_⟩
        rw [Op.args, editenv, if_pos rfl, List.foldlM_cons, assign,
          if_pos (List.mem_append_right attr List.mem_cons_self)]
        rfl
    | delete attr =>
        refine ⟨content.put attr none, ?_⟩
        rw [Op.args, editenv, if_neg (by decide), if_pos rfl]
        rfl
  obtain ⟨content', h⟩ := hsome
  rw [apply, h]
  rfl

/-- **One operation that is kept**: the script does what the direct update does. -/
theorem script_kept (htemp : TempDirs mktemp) (hplain : PlainLocation conf)
    (hmounts : sh.mounts = []) {op : Op} (hattr : PlainAttr op) (hkept : Kept conf op)
    {content : Content} (hfile : sh.files (place conf) = some content) :
    ∃ sh', sh.script mktemp (proxy conf op) = some sh' ∧
      sh'.files (place conf) = some (apply content op) ∧ sh'.mounts = [] ∧
      (Fresh sh.env → Fresh sh'.env) := by
  obtain ⟨w, hread, hresolve⟩ := readsAs_linePath sh htemp hplain hmounts hkept
  have hwords : words (lineState mktemp conf sh).env (lineText conf op) =
      some (editenvName :: w :: op.args) := by
    cases op with
    | set attr val => exact words_setLine hread hattr hkept
    | delete attr => exact words_unsetLine hread hattr
  obtain ⟨sh', hrun, hfiles, hm, hfresh⟩ := (script_proxy htemp hplain hmounts op).2 _ hwords
  refine ⟨sh', hrun, ?_, hm, hfresh⟩
  rw [hfiles, exec_editenv, Sh.edit, hresolve, lineState_files, hfile, Option.bind_some, editenv_args]
  exact if_pos rfl

/-- **A run of such operations.** -/
theorem script_run (htemp : TempDirs mktemp) (hplain : PlainLocation conf) :
    ∀ (ops : List Op), (∀ op ∈ ops, PlainAttr op ∧ Kept conf op) → ∀ (sh : Sh) (content : Content),
      sh.mounts = [] → sh.files (place conf) = some content →
      ∃ sh', sh.script mktemp (ops.flatMap (proxy conf)) = some sh' ∧
        sh'.files (place conf) = some (ops.foldl apply content) ∧ sh'.mounts = [] ∧
        (Fresh sh.env → Fresh sh'.env)
  | [], _, sh, content, hmounts, hfile => ⟨sh, rfl, hfile, hmounts, fun h => h⟩
  | op :: ops, hall, sh, content, hmounts, hfile => by
      obtain ⟨hattr, hkept⟩ := hall op List.mem_cons_self
      obtain ⟨sh₁, hrun, hfile₁, hm₁, hfresh₁⟩ := script_kept htemp hplain hmounts hattr hkept hfile
      obtain ⟨sh₂, hrest, hfile₂, hm₂, hfresh₂⟩ := script_run htemp hplain ops
        (fun o ho => hall o (List.mem_cons_of_mem op ho)) sh₁ _ hm₁ hfile₁
      refine ⟨sh₂, ?_, hfile₂, hm₂, fun h => hfresh₂ (hfresh₁ h)⟩
      rw [List.flatMap_cons, script_append, hrun, Option.bind_some, hrest]

/-! ## Values that are not kept: what the shell makes of their quotes -/

/-- What a set leaves under a name was there before, or is the value of one of its arguments. -/
theorem assign_foldlM {args : List Text} {content content' : Content}
    (h : args.foldlM assign content = some content') {name v : Text} (hv : content' name = some v) :
    content name = some v ∨ ∃ arg ∈ args, v <:+ arg := by
  induction args generalizing content with
  | nil =>
      cases h
      exact Or.inl hv
  | cons arg args ih =>
      rw [List.foldlM_cons] at h
      obtain ⟨content₁, hone, hrest⟩ := Option.bind_eq_some_iff.mp h
      rcases ih hrest with hfirst | ⟨arg', hmem, hsuffix⟩
      · rw [assign] at hone
        split at hone
        · cases hone
          by_cases hname : name = arg.takeWhile (· ≠ '=')
          · right
            have hval : some (arg.dropWhile (· ≠ '=')).tail = some v := by
              rw [← hfirst]
              exact (if_pos hname).symm
            cases hval
            exact ⟨arg, List.mem_cons_self,
              (List.tail_suffix _).trans (List.dropWhile_suffix _)⟩
          · left
            rw [← hfirst]
            exact (if_neg hname).symm
        · cases hone
      · exact Or.inr ⟨arg', List.mem_cons_of_mem arg hmem, hsuffix⟩

/-- Every value of the environment is inert. -/
def AllInert (content : Content) : Prop := ∀ name v, content name = some v → Inert v

/-- The value that a set gives to its name: the name ends at the first `=`. -/
theorem apply_set {attr : Text} (hattr : PlainWord (attr ++ ['='])) (content : Content)
    (val : Text) : ∃ name u : Text, u.all plainChar = true ∧
      apply content (.set attr val) = content.put name (some (u ++ val)) := by
  have hplain : attr.all plainChar = true := by
    have hall := hattr.2.1
    rw [List.all_append, Bool.and_eq_true] at hall
    exact hall.1
  have hsplit : ∀ attr : Text, attr.all plainChar = true →
      ∃ u : Text, u.all plainChar = true ∧
        ((attr ++ '=' :: val).dropWhile (· ≠ '=')).tail = u ++ val := by
    intro attr
    induction attr with
    | nil => exact fun _ => ⟨[], rfl, rfl⟩
    | cons c attr ih =>
        intro h
        rw [List.all_cons, Bool.and_eq_true] at h
        by_cases hc : c = '='
        · subst hc
          refine ⟨attr ++ ['='], ?_, ?_⟩
          · rw [List.all_append, h.2]
            decide
          · rw [List.append_assoc]
            rfl
        · obtain ⟨u, hu, heq⟩ := ih h.2
          refine ⟨u, hu, ?_⟩
          have hskip : (c :: (attr ++ '=' :: val)).dropWhile (· ≠ '=') =
              (attr ++ '=' :: val).dropWhile (· ≠ '=') :=
            List.dropWhile_cons_of_pos (decide_eq_true hc)
          rw [List.cons_append, hskip]
          exact heq
  obtain ⟨u, hu, htail⟩ := hsplit attr hplain
  refine ⟨(attr ++ '=' :: val).takeWhile (· ≠ '='), u, hu, ?_⟩
  rw [apply, Op.args, editenv, if_pos rfl, List.foldlM_cons, assign,
    if_pos (List.mem_append_right attr List.mem_cons_self), htail]
  rfl

/-- Deleting unsets. -/
theorem apply_delete (content : Content) (attr : Text) :
    apply content (.delete attr) = content.put attr none := by
  rw [apply, Op.args, editenv, if_neg (by decide), if_pos rfl]
  rfl

/-- **Operations that are kept keep the environment inert.** -/
theorem allInert_apply {content : Content} (h : AllInert content) {op : Op} (hattr : PlainAttr op)
    (hkept : Kept conf op) : AllInert (apply content op) := by
  intro name v hv
  cases op with
  | set attr val =>
      obtain ⟨name', u, hu, happly⟩ := apply_set hattr content val
      rw [happly, Content.put] at hv
      split at hv
      · cases hv
        exact (Lexer.inert_plain_append hu).mpr hkept
      · exact h name v hv
  | delete attr =>
      rw [apply_delete, Content.put] at hv
      split at hv
      · cases hv
      · exact h name v hv

/-- A run of kept operations keeps the values inert. -/
theorem allInert_run {ops : List Op} (hall : ∀ op ∈ ops, PlainAttr op ∧ Kept conf op) :
    ∀ {content : Content}, AllInert content → AllInert (ops.foldl apply content) := by
  induction ops with
  | nil => exact fun h => h
  | cons op ops ih =>
      intro content h
      obtain ⟨hattr, hkept⟩ := hall op List.mem_cons_self
      exact ih (fun o ho => hall o (List.mem_cons_of_mem op ho)) (allInert_apply h hattr hkept)

/-- The path does not depend on the value. -/
theorem linePath_set (conf : Conf) (attr val val' : Text) :
    linePath conf (.set attr val) = linePath conf (.set attr val') := by
  rcases hloc : conf.location with ⟨chroot, bootDir⟩ | bootDir | bootPart <;>
    simp only [linePath, hloc]

/-- The heat of a word is at most that of all. -/
theorem heat_le_total {w : Text} {ws : List Text} (h : w ∈ ws) :
    Lexer.heat w ≤ Lexer.total ws := by
  obtain ⟨before, after, rfl⟩ := List.append_of_mem h
  have hcons : Lexer.total (w :: after) = Lexer.heat w + Lexer.total after := List.sum_cons
  rw [Lexer.total_append, hcons]
  omega

/-- **A value that is not inert does not arrive** in an environment of inert values. -/
theorem set_lost (htemp : TempDirs mktemp) (hplain : PlainLocation conf) (hmounts : sh.mounts = [])
    (hfresh : Fresh sh.env) {attr val : Text} (hattr : PlainWord (attr ++ ['=']))
    {content : Content} (hinert : AllInert content) (hfile : sh.files (place conf) = some content)
    {sh' : Sh} (hrun : sh.script mktemp (proxy conf (.set attr val)) = some sh')
    (hafter : sh'.files (place conf) = some (apply content (.set attr val))) : Inert val := by
  have hempty : Kept conf (.set attr []) := trivial
  obtain ⟨w, hread, hresolve⟩ := readsAs_linePath sh htemp hplain hmounts hempty
  rw [linePath_set conf attr [] val] at hread
  obtain ⟨hnone, hsome⟩ := script_proxy htemp hplain hmounts (.set attr val)
  obtain ⟨name, u, hu, happly⟩ := apply_set hattr content val
  have hcold : ∀ nm, Lexer.heat ((lineState mktemp conf sh).env nm) = 0 := fun nm =>
    Lexer.heat_of_plain ((lineState_fresh htemp hfresh).plain nm)
  -- the value is inert where the environment holds it
  have hheld : ∀ content' : Content, AllInert content' →
      content' name = some (u ++ val) → Inert val := fun content' h hv =>
    (Lexer.inert_plain_append hu).mp (h name _ hv)
  have hput : content.put name (some (u ++ val)) name = some (u ++ val) := if_pos rfl
  rcases hwords : words (lineState mktemp conf sh).env (lineText conf (.set attr val)) with _ | ws
  · rw [hnone hwords] at hrun
    cases hrun
  · have hline := hwords
    rw [lineText, words, run_setLine hread hattr] at hline
    obtain ⟨s, hs, hfinish⟩ := Option.bind_eq_some_iff.mp hline
    obtain ⟨args, rfl⟩ : [editenvName, w, "set".toList] <+: ws :=
      (Lexer.done_run hs).trans (Lexer.done_finish hfinish)
    obtain ⟨sh₁, hrun₁, hfiles, -, -⟩ := hsome _ hwords
    rw [hrun] at hrun₁
    cases hrun₁
    rcases Lexer.inert_or_lost hcold hs hfinish with hval | hlost
    · exact hval
    · rw [Lexer.total_append, Lexer.heat_of_plain hattr.2.1] at hlost
      have hedit : sh'.files = ((lineState mktemp conf sh).edit w ("set".toList :: args)).2.files :=
        hfiles.trans (congrArg (·.2.files) (exec_editenv (lineState mktemp conf sh) w _))
      rw [Sh.edit, hresolve, lineState_files, hfile, Option.bind_some] at hedit
      have hset : editenv ("set".toList :: args) content = args.foldlM assign content := by
        rw [editenv, if_pos rfl]
      rw [hset] at hedit
      rcases hargs : args.foldlM assign content with _ | content'
      · rw [hargs] at hedit
        rw [hedit, lineState_files, hfile, happly] at hafter
        have hsame : content = content.put name (some (u ++ val)) := Option.some.inj hafter
        rw [← hsame] at hput
        exact hheld content hinert hput
      · rw [hargs] at hedit
        have hleft : sh'.files (place conf) = some content' := by
          rw [hedit]
          exact if_pos rfl
        rw [hafter] at hleft
        cases hleft
        rw [happly] at hargs
        rcases assign_foldlM hargs hput with hold | ⟨arg, hmem, hsuffix⟩
        · exact hheld content hinert hold
        · exfalso
          have hle : Lexer.heat (u ++ val) ≤ Lexer.heat arg := hsuffix.sublist.countP_le
          have htotal := heat_le_total hmem
          rw [Lexer.heat_append] at hle
          omega

/-! ## Deletes on a partition that has to be mounted -/

/-- The words of the line that unsets depend on its path alone. -/
theorem words_unsetLine_path (p attr : Text) : words env (unsetLine p attr) =
    (Lexer.run env ⟨false, none, [editenvName], .nothing⟩
      (p ++ ' ' :: ("unset".toList ++ ' ' :: attr))).bind (Lexer.finish env) := by
  rw [words, unsetLine_eq, List.append_assoc, List.cons_append, readsAs_plain (by decide) []]
  rfl

/-- `$mpt` runs on into a name behind it, and is then a variable that is not set. -/
theorem run_mpt_name {d : Char} {u : Text} (hd : nameChar d = true) (hu : u.all nameChar = true)
    (hunset : ∀ nm, nm ≠ "mpt".toList → nm ≠ "sts".toList → env nm = []) {c : Char}
    (hc : nameChar c = false) (t : Text) (done : List Text) :
    Lexer.run env ⟨false, none, done, .nothing⟩ ("$mpt".toList ++ d :: u ++ c :: t) =
      Lexer.run env ⟨false, none, done, .nothing⟩ (c :: t) := by
  have htext : "$mpt".toList = '$' :: 'm' :: ['p', 't'] := by decide
  have hname : "mpt".toList = 'm' :: ['p', 't'] := by decide
  have hempty : env ('m' :: ('p' :: 't' :: d :: u)) = [] := by
    refine hunset _ ?_ ?_
    · rw [hname]
      exact fun h => by cases h
    · have hsts : "sts".toList = ['s', 't', 's'] := by decide
      rw [hsts]
      exact fun h => by cases h
  have hnm : List.all ('p' :: 't' :: d :: u) nameChar = true := by
    rw [List.all_cons, List.all_cons, List.all_cons, hd, hu]
    decide
  rw [htext]
  exact Lexer.run_unset (by decide) hnm hempty hc done

/-- Where `$mpt` does not run on, the word is its value and the path. -/
theorem readsAs_mpt_path {d : Char} {q' : Text} (hd : nameChar d = false)
    (hplain : (d :: q').all plainChar = true) (hmpt : env "mpt".toList = ['/', 't']) :
    ReadsAs env ("$mpt".toList ++ d :: q') ('/' :: 't' :: d :: q') := by
  intro done rest
  have htext : "$mpt".toList = '$' :: 'm' :: ['p', 't'] := by decide
  have hname : "mpt".toList = 'm' :: ['p', 't'] := by decide
  have hval : env ('m' :: ['p', 't']) = ['/', 't'] := by rw [← hname, hmpt]
  have hrun : Lexer.run env ⟨false, none, done, .nothing⟩
      ('$' :: 'm' :: ['p', 't'] ++ d :: (q' ++ ' ' :: rest)) =
        Lexer.run env ⟨false, some (env ('m' :: ['p', 't'])), done, .nothing⟩
          (d :: (q' ++ ' ' :: rest)) :=
    Lexer.run_name (by decide) (by decide) (by rw [hval]; decide) (by rw [hval]; decide) hd done
  rw [htext]
  refine hrun.trans ?_
  rw [hval, ← List.cons_append, Lexer.run_append, Lexer.run_plain_chars _ hplain,
    Option.bind_some, Lexer.run_blank]
  rfl

/-- A name that `$mpt` runs on into, and what stands behind it. -/
theorem exists_name (q : Text) : ∃ u r, q = u ++ r ∧ u.all nameChar = true ∧
    ∀ c, r.head? = some c → nameChar c = false := by
  refine ⟨q.takeWhile nameChar, q.dropWhile nameChar, List.takeWhile_append_dropWhile.symm,
    List.all_takeWhile, fun c hc => ?_⟩
  have hfirst := List.head?_dropWhile_not nameChar q
  rwa [hc] at hfirst

/-- **What `$mpt` and a path read as**, for want of a slash: the word that the shell makes of them has
    no more names than the path, where the directory has the one name `t`. -/
theorem words_deletePath {q attr : Text} {d : Char} {q' : Text} (hq : q = d :: q') (hd : d ≠ '/')
    (hplain : q.all plainChar = true) (hattr : PlainWord attr) (hmpt : env "mpt".toList = ['/', 't'])
    (hunset : ∀ nm, nm ≠ "mpt".toList → nm ≠ "sts".toList → env nm = []) :
    words env (unsetLine ("$mpt".toList ++ q) attr) = none ∨
      ∃ w args, words env (unsetLine ("$mpt".toList ++ q) attr) = some (editenvName :: w :: args) ∧
        (comps w).length ≤ (comps q).length := by
  have hone : 1 ≤ (comps q).length := by
    obtain ⟨n, ns, -, hsplit⟩ := splitOn_cons '/' d q'
    rw [hq, comps, hsplit, if_neg hd]
    exact Nat.succ_le_succ (Nat.zero_le _)
  -- the line with a word for its path
  have hread : ∀ w, ReadsAs env ("$mpt".toList ++ q) w → (comps w).length ≤ (comps q).length →
      ∃ w args, words env (unsetLine ("$mpt".toList ++ q) attr) = some (editenvName :: w :: args) ∧
        (comps w).length ≤ (comps q).length := by
    intro w hw hle
    exact ⟨w, ["unset".toList, attr], words_unsetLine hw hattr, hle⟩
  by_cases hdname : nameChar d = true
  · -- `$mpt` runs on into the path, which names a variable that is not set
    obtain ⟨u, r, hsplit, hu, hr⟩ := exists_name q'
    have hrplain : r.all plainChar = true := by
      rw [hq, hsplit, List.all_cons, List.all_append, Bool.and_eq_true, Bool.and_eq_true] at hplain
      exact hplain.2.2
    have hpath : ∀ t : Text, "$mpt".toList ++ q ++ ' ' :: t =
        "$mpt".toList ++ d :: u ++ (r ++ ' ' :: t) := by
      intro t
      rw [hq, hsplit]
      simp only [List.append_assoc, List.cons_append]
    rcases r with _ | ⟨c, r⟩
    · -- nothing is left, and `unset` is the path
      right
      refine ⟨"unset".toList, [attr], ?_, ?_⟩
      · have hline := run_mpt_name hdname hu hunset (by decide : nameChar ' ' = false)
          ("unset".toList ++ ' ' :: attr) [editenvName]
        rw [words_unsetLine_path, hpath]
        refine (congrArg (Option.bind · (Lexer.finish env)) hline).trans ?_
        show (Lexer.run env ⟨false, none, [editenvName], .nothing⟩ ("unset".toList ++ ' ' :: attr)).bind
          (Lexer.finish env) = _
        rw [readsAs_plain (by decide), Lexer.run_plain hattr]
        rfl
      · have hunsetNames : (comps "unset".toList).length = 1 := by decide
        omega
    · have hc : nameChar c = false := hr c rfl
      by_cases hcomment : startsComment c = true
      · left
        have hline := run_mpt_name hdname hu hunset hc (r ++ ' ' :: ("unset".toList ++ ' ' :: attr))
          [editenvName]
        have hnone : Lexer.run env ⟨false, none, [editenvName], .nothing⟩
            (c :: (r ++ ' ' :: ("unset".toList ++ ' ' :: attr))) = none := by
          rw [startsComment, Bool.or_eq_true, decide_eq_true_eq, decide_eq_true_eq] at hcomment
          rcases hcomment with rfl | rfl <;> rfl
        rw [hnone] at hline
        rw [words_unsetLine_path, hpath]
        exact congrArg (Option.bind · (Lexer.finish env)) hline
      · right
        refine hread (c :: r) ?_ ?_
        · intro done rest
          have hword : PlainWord (c :: r) := by
            refine ⟨List.cons_ne_nil c r, hrplain, ?_⟩
            show decide (¬ startsComment c = true) = true
            exact decide_eq_true hcomment
          rw [hpath]
          exact (run_mpt_name hdname hu hunset hc (r ++ ' ' :: rest) done).trans
            (readsAs_plain hword done rest)
        · rw [hq, hsplit]
          exact length_comps_append (d :: u) (c :: r)
  · right
    refine hread ('/' :: 't' :: q) ?_ ?_
    · rw [hq] at hplain ⊢
      exact readsAs_mpt_path (Bool.not_eq_true _ ▸ hdname) hplain hmpt
    · have hslash : comps ('/' :: 't' :: q) = comps [] ++ comps ('t' :: q) := comps_append [] ('t' :: q)
      have hlen : (comps ('t' :: d :: q')).length = (comps (d :: q')).length :=
        length_comps_cons (by decide) hd q'
      rw [hslash, hq]
      exact Nat.le_of_eq hlen

/-- Below a partition, what is kept is a set, and every name stays. -/
theorem names_run {bootPart : Text} (hloc : conf.location = .part bootPart)
    (hpath : lstripSlash conf.path ≠ []) {ops : List Op}
    (hall : ∀ op ∈ ops, PlainAttr op ∧ Kept conf op) :
    ∀ {content : Content}, (∀ name, content name ≠ none) →
      ∀ name, ops.foldl apply content name ≠ none := by
  induction ops with
  | nil => exact fun h => h
  | cons op ops ih =>
      intro content h
      obtain ⟨hattr, hkept⟩ := hall op List.mem_cons_self
      refine ih (fun o ho => hall o (List.mem_cons_of_mem op ho)) ?_
      intro name
      cases op with
      | set attr val =>
          obtain ⟨name', u, -, happly⟩ := apply_set hattr content val
          rw [happly, Content.put]
          split
          · exact Option.some_ne_none _
          · exact h name
      | delete attr =>
          rw [Kept, hloc] at hkept
          exact absurd hkept hpath

/-- The directory that `mktemp` makes. -/
def oneDir : Nat → Text := fun _ => ['/', 't']

/-- The example's temporary directory. -/
theorem oneDir_temp : TempDirs oneDir := by
  intro n
  rw [oneDir]
  exact ⟨by decide, by decide⟩

/-- **A delete on a partition edits another file.** -/
theorem delete_lost {bootPart : Text} (hplain : PlainLocation conf)
    (hloc : conf.location = .part bootPart) (hpath : lstripSlash conf.path ≠ [])
    (hmounts : sh.mounts = []) (hfresh : Fresh sh.env) {attr : Text} (hattr : PlainWord attr)
    {sh' : Sh} (hrun : sh.script oneDir (proxy conf (.delete attr)) = some sh') :
    sh'.files (place conf) = sh.files (place conf) := by
  obtain ⟨hnone, hsome⟩ := script_proxy oneDir_temp hplain hmounts (.delete attr)
  obtain ⟨hmpt, -, -⟩ := lineState_mpt sh oneDir_temp hloc
  have hm := lineState_mounts oneDir hloc hmounts
  have hq : (lstripSlash conf.path).all plainChar = true := by
    rw [PlainLocation, hloc] at hplain
    exact hplain.2
  have hline : lineText conf (.delete attr) = unsetLine ("$mpt".toList ++ lstripSlash conf.path) attr := by
    simp only [lineText, linePath, hloc]
  rw [hline] at hnone hsome
  rcases hsplit : lstripSlash conf.path with _ | ⟨d, q'⟩
  · exact absurd hsplit hpath
  · have hd : d ≠ '/' := by
      rintro rfl
      have hhead := head_lstripSlash conf.path
      rw [hsplit] at hhead
      exact hhead rfl
    rcases words_deletePath hsplit hd hq hattr hmpt (lineState_fresh oneDir_temp hfresh).unset with
      hwords | ⟨w, args, hwords, hle⟩
    · rw [hnone hwords] at hrun
      cases hrun
    · obtain ⟨sh₁, hrun₁, hfiles, -, -⟩ := hsome _ hwords
      rw [hrun] at hrun₁
      cases hrun₁
      have hother : (lineState oneDir conf sh).resolve w ≠ place conf := by
        rw [Sh.resolve, hm, place, hloc]
        split
        · next dir device hfind =>
            intro hplace
            have hdir : dir = comps ['/', 't'] :=
              congrArg Prod.fst (List.mem_singleton.mp (List.mem_of_find?_eq_some hfind))
            have hfound := List.find?_some hfind
            have hprefix : dir <+: comps w := List.isPrefixOf_iff_prefix.mp hfound
            have hone : dir.length = 1 := by
              rw [hdir]
              decide
            have hnames := congrArg List.length (Place.part.inj hplace).2
            rw [List.length_drop] at hnames
            have hlength := hprefix.length_le
            omega
        · exact fun h => by cases h
      rw [hfiles, exec_editenv, edit_other hother, lineState_files]

/-! ## The proxy and the environment, operation by operation -/

/-- **The script refines the environment**: whatever the variables of the shell, the directories that
    `mktemp` makes and the content of the file, the lines of every beginning of the operations have a
    run, and it leaves the content that the environment has. -/
def Refines (conf : Conf) (ops : List Op) : Prop :=
  ∀ mktemp, TempDirs mktemp → ∀ (env : Env) (files : Place → Option Content) (content : Content),
    files (place conf) = some content → ∀ k, ∃ sh',
      Sh.script mktemp ⟨env, files, [], 0⟩ ((ops.take k).flatMap (proxy conf)) = some sh' ∧
        sh'.files (place conf) = some ((ops.take k).foldl apply content)

/-- **Kept operations** refine, by induction on them. -/
theorem refines_of_kept (hplain : PlainLocation conf) {ops : List Op}
    (hall : ∀ op ∈ ops, PlainAttr op ∧ Kept conf op) : Refines conf ops := by
  intro mktemp htemp env files content hfile k
  obtain ⟨sh', hrun, hafter, -, -⟩ := script_run htemp hplain (ops.take k)
    (fun op hop => hall op (List.mem_of_mem_take hop)) ⟨env, files, [], 0⟩ content rfl hfile
  exact ⟨sh', hrun, hafter⟩

/-- The last of the operations, behind some that are kept. -/
theorem kept_last (hplain : PlainLocation conf) {ops : List Op} {op : Op}
    (hall : ∀ o ∈ ops, PlainAttr o ∧ Kept conf o) (hattr : PlainAttr op)
    (hrefines : Refines conf (ops ++ [op])) : Kept conf op := by
  -- a shell without variables, and a file in which every name has the empty value
  have hcold : Fresh (fun _ => [] : Env) := ⟨fun _ => rfl, fun _ _ _ => rfl⟩
  obtain ⟨sh₁, hrun₁, hfile₁, hm₁, hfresh₁⟩ := script_run oneDir_temp hplain ops hall
    ⟨fun _ => [], fun _ => some fun _ => some [], [], 0⟩ _ rfl rfl
  obtain ⟨sh₂, hrun₂, hfile₂⟩ := hrefines oneDir oneDir_temp (fun _ => [])
    (fun _ => some fun _ => some []) _ rfl (ops ++ [op]).length
  rw [List.take_length, List.flatMap_append, script_append, hrun₁, Option.bind_some,
    List.flatMap_singleton] at hrun₂
  rw [List.take_length, List.foldl_append] at hfile₂
  cases op with
  | set attr val =>
      have hinert : AllInert (fun _ => some []) := fun _ v hv => by
        cases hv
        trivial
      exact set_lost oneDir_temp hplain hm₁ (hfresh₁ hcold) hattr (allInert_run hall hinert) hfile₁ hrun₂
        hfile₂
  | delete attr =>
      rcases hloc : conf.location with ⟨chroot, bootDir⟩ | bootDir | bootPart
      · simp only [Kept, hloc]
      · simp only [Kept, hloc]
      · by_contra hkept
        have hpath : lstripSlash conf.path ≠ [] := by simpa only [Kept, hloc] using hkept
        rw [delete_lost hplain hloc hpath hm₁ (hfresh₁ hcold) hattr hrun₂, hfile₁] at hfile₂
        have hname := congrFun (Option.some.inj hfile₂) attr
        have hgone : apply (ops.foldl apply fun _ => some []) (.delete attr) attr = none := by
          rw [apply_delete]
          exact if_pos rfl
        exact names_run hloc hpath hall (fun _ => Option.some_ne_none _) attr (hname.trans hgone)

/-- **The proxy's script and the environment agree** when the values are inert and nothing is deleted on
    a partition, and only then. -/
theorem proxy_refines_iff (conf : Conf) (ops : List Op) (hplain : PlainLocation conf)
    (hattrs : ∀ op ∈ ops, PlainAttr op) : Refines conf ops ↔ ∀ op ∈ ops, Kept conf op := by
  constructor
  · intro h
    induction ops using List.reverseRecOn with
    | nil => exact fun _ hop => absurd hop List.not_mem_nil
    | append_singleton ops op ih =>
        have hattrs' : ∀ o ∈ ops, PlainAttr o := fun o ho => hattrs o (List.mem_append_left [op] ho)
        have hbefore : Refines conf ops := by
          intro mktemp htemp env files content hfile k
          have hk := h mktemp htemp env files content hfile (min k ops.length)
          rw [List.take_append_of_le_length (Nat.min_le_right _ _)] at hk
          rwa [List.take_eq_take_min]
        have hkept := ih hattrs' hbefore
        have hlast := kept_last hplain (fun o ho => ⟨hattrs' o ho, hkept o ho⟩)
          (hattrs op (List.mem_append_right ops List.mem_cons_self)) h
        intro o ho
        rcases List.mem_append.mp ho with ho | ho
        · exact hkept o ho
        · rw [List.mem_singleton.mp ho]
          exact hlast
  · intro hkept
    exact refines_of_kept hplain fun op hop => ⟨hattrs op hop, hkept op hop⟩

/-- A directory of the chroot, and a name that is set and deleted. -/
theorem proxy_refines_boot : Refines ⟨.inside "/chroot".toList "/boot".toList, "/grub/grubenv".toList⟩
    [.set "next".toList "onie".toList, .delete "next".toList] := by
  refine (proxy_refines_iff _ _ ?_ ?_).mpr ?_
  · show PlainWord _
    decide
  · intro op hop
    rcases List.mem_cons.mp hop with rfl | hop
    · show PlainWord _
      decide
    · rw [List.mem_singleton.mp hop]
      show PlainWord _
      decide
  · intro op hop
    rcases List.mem_cons.mp hop with rfl | hop
    · have hchars : "onie".toList = ['o', 'n', 'i', 'e'] := by decide
      show Inert "onie".toList
      rw [hchars]
      simp [Inert]
    · rw [List.mem_singleton.mp hop]
      trivial

/-- A GRUB partition with the default path. -/
def partConf : Conf := ⟨.part "/dev/sda2".toList, "/grub/grubenv".toList⟩

/-- A name deleted on a partition is still there. -/
theorem proxy_delete_stays : ¬ Refines partConf [.delete "next".toList] := by
  intro h
  obtain ⟨sh', hrun, hfile⟩ := h oneDir oneDir_temp (fun _ => [])
    (fun _ => some fun _ => some "onie".toList) _ rfl 1
  have hafter : (Sh.script oneDir ⟨fun _ => [], fun _ => some fun _ => some "onie".toList, [], 0⟩
      (([.delete "next".toList].take 1).flatMap (proxy partConf))).bind
        (fun sh => (sh.files (place partConf)).bind (· "next".toList)) = some "onie".toList := by
    decide
  have hgone : ([Op.delete "next".toList].take 1).foldl apply (fun _ => some "onie".toList)
      "next".toList = none := by decide
  rw [hrun, Option.bind_some, hfile, Option.bind_some, hgone] at hafter
  cases hafter

end DentOS.GrubEnv
