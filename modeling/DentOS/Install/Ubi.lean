/-
  `ubifsinit` and `str_bootcmd` (onl/install/BaseInstall.py): the MTD device of the loader is formatted and
  attached, and gets a volume for every entry of the spec; the boot arguments name it.

  Both take the last character of the device for its number, which is the number below ten.  An
  exception of `ubifsinit`, as that of a command that fails, ends in the log, and the return code is zero
  all the same; only a size without a unit makes it one.  So zero means what it should exactly where nothing
  of this happens in front of the first size without a unit (`reports_iff`).

  Which command succeeds is a parameter, by its place in the run.  Not modelled: the log.
-/
import DentOS.Install.Gpt
import Mathlib.Algebra.GroupWithZero.Nat
import Mathlib.Data.List.Forall2

namespace DentOS.Ubi

open Effects PyText Install

/-! ## `ubifsinit`: one volume for each partition of the platform -/

/-- A command, word by word. -/
abbrev Command := List Text

/-- The commands that succeeded. -/
abbrev Run := Prog (List Command) PyError

/-- `self.check_call(cmd)`. -/
def checkCall (ok : Nat → Bool) (cmd : Command) : Run Unit := fun done =>
  if ok done.length then (.ok (), done ++ [cmd]) else (.error .calledProcessError, done)

/-- `sz, fmt`. -/
def sizeFormat (e : SpecEntry) : Except PyError (Text × Text) :=
  match e.partData with
  | .size sz => .ok (sz, "ubifs".toList)
  | .dict (some sz) format => .ok (sz, format.getD "ubifs".toList)
  | .dict none _ => .error .keyError

/-- `cnt`, or `None`. -/
def requested (e : SpecEntry) : Except PyError (Option Int) := do
  let (sz, _) ← sizeFormat e
  let cnt ← unitBytes sz
  pure (cnt.map fun (n, ub) => n * ub)

/-- `ubiformat`, of the device with this number. -/
def ubiformat (mtdNum : Text) : Command := ["ubiformat".toList, "/dev/mtd".toList ++ mtdNum]

/-- `ubiattach`, of the device with this number. -/
def ubiattach (mtdNum : Text) : Command :=
  ["ubiattach".toList, "-m".toList, mtdNum, "-d".toList, "0".toList, "/dev/ubi_ctrl".toList]

/-- `ubimkvol`, with the entry's label and so many blocks. -/
def ubimkvol (label : Text) (cnt : Int) : Command :=
  ["ubimkvol".toList, "/dev/ubi0".toList, "-N".toList, strip label, "-s".toList, strInt cnt]

/-- The loop over the spec. -/
def volumeLoop (ok : Nat → Bool) : List SpecEntry → Run Nat
  | [] => pure 0
  | e :: es => do
      let cnt ← Prog.ofExcept (requested e)
      match cnt with
      | none => pure 1
      | some cnt => do
          checkCall ok (ubimkvol e.label cnt)
          volumeLoop ok es

/-- `self.device[-1]`. -/
def mtdNum (device : Text) : Except PyError Text := (pyIndex device (-1)).map fun c => [c]

/-- The `try` of `ubifsinit`. -/
def ubifsinitTry (ok : Nat → Bool) (device : Text) (spec : List SpecEntry) : Run Nat := do
  let num ← Prog.ofExcept (mtdNum device)
  checkCall ok (ubiformat num)
  checkCall ok (ubiattach num)
  volumeLoop ok spec

/-- `ubifsinit`, with the commands that succeeded. -/
def ubifsinit (ok : Nat → Bool) (device : Text) (spec : List SpecEntry) : Nat × List Command :=
  match ubifsinitTry ok device spec [] with
  | (.ok code, done) => (code, done)
  | (.error _, done) => (0, done)

/-! ## `str_bootcmd`: the commands of the loader, joined -/

/-- The loader section of the platform configuration. -/
structure Loader where
  /-- The address that an image is loaded to. -/
  loadaddr : Int
  /-- The variables that are set. -/
  setenv : List (Text × Text)
  /-- The commands that boot the system. -/
  nosBootcmds : List Text

/-- The boot arguments with the number of an MTD device. -/
def mtdArgs (num : Text) (kv : Text × Text) : Text :=
  "setenv ".toList ++ kv.1 ++ " ".toList ++ kv.2 ++ " $\x7bplatformargs\x7d ubi.mtd=".toList ++ num ++
    " root=/dev/ram ethaddr=$ethaddr".toList

/-- The command for one item of `setenv`. -/
def setenvCmd (device : Text) (kv : Text × Text) : Except PyError Text :=
  if contains "mtdblock".toList device then (mtdNum device).map fun num => mtdArgs num kv
  else .ok ("setenv ".toList ++ kv.1 ++ " ".toList ++ kv.2)

/-- The commands around those of `setenv`. -/
def bootcmds (platform : Text) (loader : Loader) (envs : List Text) : List Text :=
  ["setenv onl_loadaddr 0x".toList ++ hexInt loader.loadaddr, "setenv onl_platform ".toList ++ platform,
    "setenv onl_itb ".toList ++ platform ++ ".itb".toList] ++ envs ++ loader.nosBootcmds

/-- `str_bootcmd`. -/
def strBootcmd (platform device : Text) (loader : Loader) : Except PyError Text := do
  let envs ← loader.setenv.mapM (setenvCmd device)
  pure ("; ".toList.intercalate (bootcmds platform loader envs))

/-! ## The volumes asked for, and the arguments that name them -/

/-- `/dev/mtdblockN`. -/
def mtdblock (n : Nat) : Text := "/dev/mtdblock".toList ++ strInt n

/-- The volume of an entry. -/
def Makes (e : SpecEntry) (cmd : Command) : Prop :=
  ∃ cnt, requested e = .ok (some cnt) ∧ cmd = ubimkvol e.label cnt

/-- The device was formatted and attached, and every entry has its volume. -/
def Made (n : Nat) (spec : List SpecEntry) (done : List Command) : Prop :=
  ∃ volumes, done = ubiformat (strInt n) :: ubiattach (strInt n) :: volumes ∧ List.Forall₂ Makes spec volumes

/-- **`ubifsinit` reports what happened** on the device it was given, and the boot arguments name it. -/
structure Reports (ok : Nat → Bool) (spec : List SpecEntry) (n : Nat) (platform : Text) (loader : Loader) :
    Prop where
  code : (ubifsinit ok (mtdblock n) spec).1 = 0 → Made n spec (ubifsinit ok (mtdblock n) spec).2
  bootargs : strBootcmd platform (mtdblock n) loader =
    .ok ("; ".toList.intercalate (bootcmds platform loader (loader.setenv.map (mtdArgs (strInt n)))))

/-- No command from the `k`th on fails and no size raises, up to the first size without a unit. -/
def Clean (ok : Nat → Bool) : Nat → List SpecEntry → Prop
  | _, [] => True
  | k, e :: es =>
      match requested e with
      | .ok none => True
      | .ok (some _) => ok k = true ∧ Clean ok (k + 1) es
      | .error _ => False

/-! ## The volumes that are made -/

section

variable {ok : Nat → Bool} {spec : List SpecEntry} {done : List Command}

/-- A command is done, and what is behind it only if it succeeded. -/
theorem checkCall_bind {α : Type} (cmd : Command) (p : Unit → Run α) (done : List Command) :
    (checkCall ok cmd >>= p) done =
      if ok done.length then p () (done ++ [cmd]) else (.error .calledProcessError, done) := by
  by_cases h : ok done.length = true
  · rw [if_pos h]
    exact Prog.bind_of_ok (if_pos h)
  · rw [if_neg h]
    exact Prog.bind_of_error (if_neg h)

/-- **A clean loop** stops with one at a size without a unit, or makes every volume. -/
theorem volumeLoop_clean (done : List Command) (h : Clean ok done.length spec) :
    ((∃ e ∈ spec, requested e = .ok none) ∧ (volumeLoop ok spec done).1 = .ok 1) ∨
      ((∀ e ∈ spec, requested e ≠ .ok none) ∧
        ∃ volumes, volumeLoop ok spec done = (.ok 0, done ++ volumes) ∧ List.Forall₂ Makes spec volumes) := by
  induction spec generalizing done with
  | nil => exact .inr ⟨nofun, [], by rw [volumeLoop, List.append_nil]; rfl, .nil⟩
  | cons e es ih =>
      rcases hcnt : requested e with _ | _ | cnt
      · rw [Clean, hcnt] at h
        exact h.elim
      · refine .inl ⟨⟨e, List.mem_cons_self, hcnt⟩, ?_⟩
        rw [volumeLoop, hcnt]
        rfl
      · rw [Clean, hcnt] at h
        have hloop : volumeLoop ok (e :: es) done = volumeLoop ok es (done ++ [ubimkvol e.label cnt]) := by
          rw [volumeLoop, hcnt]
          exact (checkCall_bind _ _ done).trans (if_pos h.1)
        have hrest : Clean ok (done ++ [ubimkvol e.label cnt]).length es := by
          rw [List.length_append]
          exact h.2
        rw [hloop]
        rcases ih _ hrest with ⟨⟨e', he', hnone⟩, hone⟩ | ⟨hunits, volumes, hzero, hmakes⟩
        · exact .inl ⟨⟨e', List.mem_cons_of_mem e he', hnone⟩, hone⟩
        · refine .inr ⟨fun e' he' => ?_, ubimkvol e.label cnt :: volumes, ?_, .cons ⟨cnt, hcnt, rfl⟩ hmakes⟩
          · rcases List.mem_cons.mp he' with rfl | he'
            · rw [hcnt]
              exact nofun
            · exact hunits e' he'
          · rw [hzero, List.append_assoc]
            rfl

/-- A loop that is not clean raises, and lacks a volume. -/
theorem volumeLoop_raises (done : List Command) (h : ¬ Clean ok done.length spec) : ∃ err volumes,
    volumeLoop ok spec done = (.error err, done ++ volumes) ∧ volumes.length < spec.length := by
  induction spec generalizing done with
  | nil => exact absurd trivial h
  | cons e es ih =>
      rcases hcnt : requested e with err | _ | cnt
      · refine ⟨err, [], ?_, Nat.succ_pos _⟩
        rw [volumeLoop, hcnt, List.append_nil]
        rfl
      · rw [Clean, hcnt] at h
        exact absurd trivial h
      · rw [Clean, hcnt] at h
        have hloop : volumeLoop ok (e :: es) done = if ok done.length then
            volumeLoop ok es (done ++ [ubimkvol e.label cnt]) else (.error .calledProcessError, done) := by
          rw [volumeLoop, hcnt]
          exact checkCall_bind _ _ done
        rw [hloop]
        by_cases hok : ok done.length = true
        · have hrest : ¬ Clean ok (done ++ [ubimkvol e.label cnt]).length es := by
            rw [List.length_append]
            exact fun hclean => h ⟨hok, hclean⟩
          obtain ⟨err, volumes, hraise, hlength⟩ := ih _ hrest
          refine ⟨err, ubimkvol e.label cnt :: volumes, ?_, Nat.succ_lt_succ hlength⟩
          rw [if_pos hok, hraise, List.append_assoc]
          rfl
        · exact ⟨_, [], by rw [if_neg hok, List.append_nil], Nat.succ_pos _⟩

end

/-! ## The number in the name of a volume -/

/-- The last digit of a number, and whether there are others. -/
theorem strInt_last (n : Nat) : ∃ front c, strInt n = front ++ [c] ∧ (front = [] ↔ n < 10) := by
  rcases Nat.lt_or_ge n 10 with hlt | hge
  · refine ⟨[], n.digitChar, ?_, iff_of_true rfl hlt⟩
    exact Nat.toDigits_of_lt_base hlt
  · refine ⟨Nat.toDigits 10 (n / 10), (n % 10).digitChar, ?_, iff_of_false Nat.toDigits_ne_nil (by omega)⟩
    exact Nat.toDigits_of_base_le (by decide) hge

/-- The number is the last letter. -/
theorem mtdNum_concat (front : Text) (c : Char) : mtdNum (front ++ [c]) = .ok [c] := by
  have hindex : (-1 : Int) + (front ++ [c]).length = (front.length : Int) := by
    rw [List.length_append, List.length_singleton]
    omega
  have hlast : (front ++ [c])[front.length]? = some c := List.getElem?_concat_length
  have hpy : pyIndex (front ++ [c]) (-1) = .ok c := by
    rw [pyIndex]
    simp only [hindex, show (-1 : Int) < 0 by decide, if_true, Int.not_lt.mpr (Int.natCast_nonneg _),
      if_false, Int.toNat_natCast, hlast]
  rw [mtdNum, hpy]
  rfl

/-- The number that is taken from the path is that of the device below ten, and else it is shorter. -/
theorem mtdNum_mtdblock (n : Nat) : ∃ num, mtdNum (mtdblock n) = .ok num ∧ (num = strInt n ↔ n < 10) ∧
    (n < 10 ∨ num.length < (strInt n).length) := by
  obtain ⟨front, c, hdigits, hfront⟩ := strInt_last n
  have hassoc : ∀ path : Text, path ++ strInt n = path ++ front ++ [c] := fun path => by
    rw [hdigits, List.append_assoc]
  have hname : mtdblock n = "/dev/mtdblock".toList ++ front ++ [c] := hassoc _
  refine ⟨[c], ?_, ?_, ?_⟩
  · rw [hname, mtdNum_concat]
  · rw [← hfront, hdigits]
    constructor
    · intro h
      have hlength := congrArg List.length h
      rw [List.length_append, List.length_singleton] at hlength
      exact List.length_eq_zero_iff.mp (by omega)
    · rintro rfl
      rfl
  · rw [← hfront, hdigits, List.length_append, List.length_singleton]
    rcases front with _ | ⟨d, front⟩
    · exact .inl rfl
    · exact .inr (Nat.lt_add_of_pos_left (Nat.succ_pos _))

/-- A text with the word in it. -/
theorem contains_append (sub t : Text) (hne : sub ≠ []) : ∀ front : Text,
    contains sub (front ++ (sub ++ t)) = true
  | [] => by
      obtain ⟨c, cs, rfl⟩ := List.exists_cons_of_ne_nil hne
      show (List.isPrefixOf (c :: cs) (c :: (cs ++ t)) || _) = true
      rw [Bool.or_eq_true]
      exact .inl (List.isPrefixOf_iff_prefix.mpr (List.prefix_append (c :: cs) t))
  | d :: front => by
      show (_ || contains sub (front ++ (sub ++ t))) = true
      rw [contains_append sub t hne front, Bool.or_true]

/-! ## The report: which volumes were asked for and could not be made -/

section

variable {ok : Nat → Bool} {spec : List SpecEntry} {n : Nat} {num : Text}

/-- `ubifsinit` from the loop on. -/
theorem ubifsinit_loop (spec : List SpecEntry) (hnum : mtdNum (mtdblock n) = .ok num) (h₀ : ok 0 = true)
    (h₁ : ok 1 = true) :
    ubifsinitTry ok (mtdblock n) spec [] = volumeLoop ok spec [ubiformat num, ubiattach num] := by
  rw [ubifsinitTry, hnum]
  refine (checkCall_bind _ _ []).trans ((if_pos h₀).trans ?_)
  exact (checkCall_bind _ _ [ubiformat num]).trans (if_pos h₁)

/-- A failure of the first two commands is the end, and it is reported as 0. -/
theorem ubifsinit_stops (spec : List SpecEntry) (hnum : mtdNum (mtdblock n) = .ok num)
    (h : ¬ (ok 0 = true ∧ ok 1 = true)) :
    ∃ done, ubifsinit ok (mtdblock n) spec = (0, done) ∧ done.length < 2 := by
  have htry : ubifsinitTry ok (mtdblock n) spec [] = if ok 0 then
      (if ok 1 then volumeLoop ok spec [ubiformat num, ubiattach num]
        else (.error .calledProcessError, [ubiformat num])) else (.error .calledProcessError, []) := by
    rw [ubifsinitTry, hnum]
    refine (checkCall_bind _ _ []).trans ?_
    rw [List.nil_append, checkCall_bind]
    rfl
  rw [ubifsinit, htry]
  by_cases h₀ : ok 0 = true
  · rw [if_pos h₀, if_neg fun h₁ => h ⟨h₀, h₁⟩]
    exact ⟨_, rfl, Nat.lt_succ_self 1⟩
  · rw [if_neg h₀]
    exact ⟨_, rfl, Nat.succ_pos 1⟩

/-- Where something raises, 0 is returned all the same, and too few commands have succeeded. -/
theorem ubifsinit_raises (hnum : mtdNum (mtdblock n) = .ok num)
    (h : ¬ (ok 0 = true ∧ ok 1 = true ∧ Clean ok 2 spec)) :
    ∃ done, ubifsinit ok (mtdblock n) spec = (0, done) ∧ done.length < 2 + spec.length := by
  by_cases hstart : ok 0 = true ∧ ok 1 = true
  · have hdirty : ¬ Clean ok [ubiformat num, ubiattach num].length spec := fun hclean =>
      h ⟨hstart.1, hstart.2, hclean⟩
    obtain ⟨err, volumes, hraise, hlength⟩ := volumeLoop_raises [ubiformat num, ubiattach num] hdirty
    refine ⟨[ubiformat num, ubiattach num] ++ volumes, ?_, ?_⟩
    · rw [ubifsinit, ubifsinit_loop spec hnum hstart.1 hstart.2, hraise]
    · rw [List.length_append, List.length_cons, List.length_singleton]
      omega
  · obtain ⟨done, hcode, hlength⟩ := ubifsinit_stops spec hnum hstart
    exact ⟨done, hcode, Nat.lt_of_lt_of_le hlength (Nat.le_add_right 2 _)⟩

/-- There are two commands, and one for each entry. -/
theorem Made.length_eq {done : List Command} (h : Made n spec done) : done.length = 2 + spec.length := by
  obtain ⟨volumes, rfl, hmakes⟩ := h
  rw [List.length_cons, List.length_cons, ← hmakes.length_eq]
  omega

/-- After a clean run the number alone decides, unless one is returned. -/
theorem code_clean (hnum : mtdNum (mtdblock n) = .ok num) (h₀ : ok 0 = true) (h₁ : ok 1 = true)
    (hclean : Clean ok 2 spec) :
    ((ubifsinit ok (mtdblock n) spec).1 = 0 → Made n spec (ubifsinit ok (mtdblock n) spec).2) ↔
      num = strInt n ∨ ∃ e ∈ spec, requested e = .ok none := by
  have hloop := ubifsinit_loop spec hnum h₀ h₁
  rcases volumeLoop_clean [ubiformat num, ubiattach num] hclean with
    ⟨hunit, hone⟩ | ⟨hunits, volumes, hzero, hmakes⟩
  · -- the code is 1
    refine iff_of_true (fun hcode => ?_) (.inr hunit)
    rw [ubifsinit, hloop] at hcode
    rcases hres : volumeLoop ok spec [ubiformat num, ubiattach num] with ⟨r, done⟩
    rw [hres] at hone hcode
    cases hone
    cases hcode
  · -- the code is 0, and every volume is there
    have hcode : ubifsinit ok (mtdblock n) spec = (0, ubiformat num :: ubiattach num :: volumes) := by
      rw [ubifsinit, hloop, hzero]
      rfl
    rw [hcode, or_iff_left fun ⟨e, he, hnone⟩ => hunits e he hnone]
    constructor
    · intro h
      obtain ⟨volumes', hdone, -⟩ := h rfl
      have hattach : ubiattach num = ubiattach (strInt n) := (List.cons.inj (List.cons.inj hdone).2).1
      simp only [ubiattach, List.cons.injEq, and_true, true_and] at hattach
      exact hattach
    · rintro rfl _
      exact ⟨volumes, rfl, hmakes⟩

/-- **The return code** is right exactly for a clean run on a device below ten, or one that returns one. -/
theorem code_iff : ((ubifsinit ok (mtdblock n) spec).1 = 0 → Made n spec (ubifsinit ok (mtdblock n) spec).2) ↔
    (ok 0 = true ∧ ok 1 = true ∧ Clean ok 2 spec) ∧ (n < 10 ∨ ∃ e ∈ spec, requested e = .ok none) := by
  obtain ⟨num, hnum, hten, -⟩ := mtdNum_mtdblock n
  by_cases hrun : ok 0 = true ∧ ok 1 = true ∧ Clean ok 2 spec
  · rw [code_clean hnum hrun.1 hrun.2.1 hrun.2.2, hten, and_iff_right hrun]
  · refine iff_of_false (fun h => ?_) fun h => hrun h.1
    obtain ⟨done, hcode, hlength⟩ := ubifsinit_raises hnum hrun
    rw [hcode] at h
    exact absurd (h rfl).length_eq (Nat.ne_of_lt hlength)

/-- The length of joined texts. -/
theorem length_intercalate (sep : Text) : ∀ ts : List Text,
    (sep.intercalate ts).length = (ts.map List.length).sum + sep.length * (ts.length - 1)
  | [] => by simp
  | [t] => by simp
  | t :: u :: ts => by
      rw [List.intercalate_cons_cons, List.length_append, List.length_append,
        length_intercalate sep (u :: ts)]
      simp only [List.map_cons, List.sum_cons, List.length_cons, Nat.add_sub_cancel, Nat.mul_succ]
      omega

/-- Every item of `setenv` has the number in it once. -/
theorem sum_length_mtdArgs (num : Text) : ∀ setenv : List (Text × Text),
    ((setenv.map (mtdArgs num)).map List.length).sum =
      ((setenv.map (mtdArgs [])).map List.length).sum + setenv.length * num.length
  | [] => by simp
  | kv :: setenv => by
      have hbetween : ∀ front back : Text,
          (front ++ num ++ back).length = (front ++ [] ++ back).length + num.length := by
        intro front back
        simp only [List.length_append, List.length_nil]
        omega
      have hitem : (mtdArgs num kv).length = (mtdArgs [] kv).length + num.length := hbetween _ _
      simp only [List.map_cons, List.sum_cons, List.length_cons, sum_length_mtdArgs num setenv, hitem,
        Nat.succ_mul]
      omega

/-- The length of the boot command grows with the number. -/
theorem length_bootcmds (platform : Text) (loader : Loader) (num : Text) :
    ("; ".toList.intercalate (bootcmds platform loader (loader.setenv.map (mtdArgs num)))).length =
      ("; ".toList.intercalate (bootcmds platform loader (loader.setenv.map (mtdArgs [])))).length +
        loader.setenv.length * num.length := by
  have hbetween : ∀ sep : Text, ∀ front back : List Text,
      (sep.intercalate (front ++ loader.setenv.map (mtdArgs num) ++ back)).length =
        (sep.intercalate (front ++ loader.setenv.map (mtdArgs []) ++ back)).length +
          loader.setenv.length * num.length := by
    intro sep front back
    rw [length_intercalate, length_intercalate]
    simp only [List.map_append, List.sum_append, List.length_append, List.length_map, sum_length_mtdArgs num]
    omega
  exact hbetween _ _ _

/-- The boot command names the last digit. -/
theorem strBootcmd_mtdblock (platform : Text) (loader : Loader) (hnum : mtdNum (mtdblock n) = .ok num) :
    strBootcmd platform (mtdblock n) loader =
      .ok ("; ".toList.intercalate (bootcmds platform loader (loader.setenv.map (mtdArgs num)))) := by
  have hpath : ∀ path front sub : Text, sub ≠ [] → path = front ++ sub →
      contains sub (path ++ strInt n) = true := by
    rintro _ front sub hne rfl
    rw [List.append_assoc]
    exact contains_append sub (strInt n) hne front
  have hmtd : contains "mtdblock".toList (mtdblock n) = true :=
    hpath "/dev/mtdblock".toList "/dev/".toList _ (by decide) (by decide)
  have hitem : setenvCmd (mtdblock n) = fun kv => .ok (mtdArgs num kv) := by
    funext kv
    rw [setenvCmd, if_pos hmtd, hnum]
    rfl
  have hitems : ∀ setenv : List (Text × Text),
      setenv.mapM (setenvCmd (mtdblock n)) = .ok (setenv.map (mtdArgs num)) := by
    intro setenv
    rw [hitem]
    exact List.mapM_pure
  rw [strBootcmd, hitems]
  rfl

/-- **The boot arguments** name the device exactly below ten, or where there are none. -/
theorem bootargs_iff (platform : Text) (loader : Loader) :
    strBootcmd platform (mtdblock n) loader =
      .ok ("; ".toList.intercalate (bootcmds platform loader (loader.setenv.map (mtdArgs (strInt n))))) ↔
    n < 10 ∨ loader.setenv = [] := by
  obtain ⟨num, hnum, hten, hshorter⟩ := mtdNum_mtdblock n
  rw [strBootcmd_mtdblock platform loader hnum]
  constructor
  · intro h
    refine hshorter.imp_right fun hlt => ?_
    -- from ten on the texts differ in length, once for every item
    have hlength := congrArg List.length (Except.ok.inj h)
    rw [length_bootcmds platform loader num, length_bootcmds platform loader (strInt n)] at hlength
    rcases hsetenv : loader.setenv with _ | ⟨kv, setenv⟩
    · rfl
    · refine absurd (Nat.add_left_cancel hlength) (Nat.ne_of_lt ?_)
      exact Nat.mul_lt_mul_of_pos_left hlt (by rw [hsetenv]; exact Nat.succ_pos _)
  · rintro (hlt | hnil)
    · rw [hten.mpr hlt]
    · rw [hnil]
      rfl

/-- **`ubifsinit` reports what happened** exactly if nothing raises in front of the first size without a unit,
and the device is below ten or nothing that is returned names it. -/
theorem reports_iff (ok : Nat → Bool) (spec : List SpecEntry) (n : Nat) (platform : Text) (loader : Loader) :
    Reports ok spec n platform loader ↔ (ok 0 = true ∧ ok 1 = true ∧ Clean ok 2 spec) ∧
      (n < 10 ∨ (loader.setenv = [] ∧ ∃ e ∈ spec, requested e = .ok none)) := by
  have hboth : Reports ok spec n platform loader ↔
      ((ubifsinit ok (mtdblock n) spec).1 = 0 → Made n spec (ubifsinit ok (mtdblock n) spec).2) ∧
        strBootcmd platform (mtdblock n) loader =
          .ok ("; ".toList.intercalate (bootcmds platform loader (loader.setenv.map (mtdArgs (strInt n))))) :=
    ⟨fun h => ⟨h.code, h.bootargs⟩, fun h => ⟨h.1, h.2⟩⟩
  rw [hboth, code_iff, bootargs_iff, and_assoc, ← or_and_left, and_comm (a := ∃ _, _)]

/-- A device that cannot be formatted is reported as one with all its volumes. -/
theorem unformatted_reported : ¬ Reports (fun _ => false) [] 0 [] ⟨0, [], []⟩ := fun h => by
  obtain ⟨volumes, hdone, -⟩ := h.code (by decide)
  exact absurd (congrArg List.length hdone) (by rw [List.length_cons]; exact (Nat.succ_ne_zero _).symm)

end

end DentOS.Ubi
