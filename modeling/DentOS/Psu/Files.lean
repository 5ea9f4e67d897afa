/-
  What the files of the drivers say.

  A file of a driver is a line of text about one thing: a register decoded, one of its bits, a string.
  `Shown` says which, apart from the functions of the driver that print it, and `Shown.text` is the
  line for a record.  Each driver has a table of its files (`shown`), and reading a file gives the line
  of its entry, for the record behind the refresh, or nothing when that record does not count
  (`Dps850.text_read`, `Ym2651y.text_read`).

  The files of ym2651y depend on more than their registers.  Which power supplies have a measured input
  is told by the model, and for one family the direction of the fan is in two bits instead of a
  string.  The way in which the output voltage is printed is decided before the record is refreshed, so
  its entry takes two records.
-/
import DentOS.Psu.Modules

namespace DentOS.Psu

open Effects Prog PyText

variable {out : Outside} {w : Nat}

/-! ## Lines: what a file can show of a record -/

/-- What a line of text is about. -/
inductive Shown where
  /-- A register with its own exponent, times a multiplier. -/
  | linear (f : Field) (multiplier : Int)
  /-- A voltage in thousandths, whose exponent is in `vout_mode`. -/
  | voltage (f : Field)
  /-- Whether a bit of a register is as given. -/
  | bit (f : Field) (i : Nat) (value : Bool)
  /-- A register from one of its bits on. -/
  | upper (f : Field) (i : Nat)
  /-- A string with a byte in front. -/
  | string (t : Str)
  | letters (bytes : List UInt8)
  | zero
  deriving DecidableEq

/-- The line. -/
def Shown.text (r : Data w) : Shown → Text
  | .linear f multiplier => printInt (linearValue (r.field f) multiplier)
  | .voltage f => printInt (voutValue ((r.field .voutMode).setWidth 8) (r.field f) 1000)
  | .bit f i value => printInt (if (r.field f).getLsbD i = value then 1 else 0)
  | .upper f i => printInt ((r.field f) >>> i).toNat
  | .string t => printStr ((r.text t).drop 1)
  | .letters bytes => printStr bytes
  | .zero => printInt 0

/-- A printed number is never empty. -/
theorem printInt_ne (n : Int) : printInt n ≠ [] := by simp [printInt]

/-- A printed string is never empty: it ends with a newline. -/
theorem printStr_ne (ptr : List UInt8) : printStr ptr ≠ [] := by simp [printStr]

/-- What stands behind a zero is not printed. -/
theorem takeWhile_zero (rest : List UInt8) : ∀ l : List UInt8,
    (l ++ 0 :: rest).takeWhile (· ≠ 0) = l.takeWhile (· ≠ 0)
  | [] => rfl
  | b :: l => by
      rw [List.cons_append, List.takeWhile_cons, List.takeWhile_cons]
      split
      · rw [takeWhile_zero rest l]
      · rfl

/-- A string is printed up to its first zero. -/
theorem printStr_zero (l rest : List UInt8) : printStr (l ++ 0 :: rest) = printStr l := by
  rw [printStr, takeWhile_zero, printStr]

/-- A file shows something of valid data. -/
theorem Shown.text_ne (r : Data w) : ∀ sh : Shown, sh.text r ≠ []
  | .linear _ _ => printInt_ne _
  | .voltage _ => printInt_ne _
  | .bit _ _ _ => printInt_ne _
  | .upper _ _ => printInt_ne _
  | .string _ => printStr_ne _
  | .letters _ => printStr_ne _
  | .zero => printInt_ne _

/-- A line depends on the registers, and on the string if it shows one. -/
theorem Shown.text_congr {r r' : Data w} (hfield : r.field = r'.field) : ∀ {sh : Shown},
    (∀ t, sh = .string t → r.text t = r'.text t) → sh.text r = sh.text r'
  | .string t, h => by rw [Shown.text, h t rfl, Shown.text]
  | .linear _ _, _ => by rw [Shown.text, hfield, Shown.text]
  | .voltage _, _ => by rw [Shown.text, hfield, Shown.text]
  | .bit _ _ _, _ => by rw [Shown.text, hfield, Shown.text]
  | .upper _ _, _ => by rw [Shown.text, hfield, Shown.text]
  | .letters _, _ => rfl
  | .zero, _ => rfl

/-- The file of a driver that prints nothing when its record does not count. -/
def fileOf (r : Data w) (sh : Shown) : Text := if !r.valid then [] else sh.text r

/-- **A file is empty exactly of data that is not valid.** -/
theorem fileOf_eq_nil {r : Data w} {sh : Shown} : fileOf r sh = [] ↔ r.valid = false := by
  rw [fileOf]
  cases r.valid with
  | false => exact ⟨fun _ => rfl, fun _ => rfl⟩
  | true => exact ⟨fun h => absurd h (sh.text_ne r), fun h => by cases h⟩

/-- A file of valid data is its text. -/
theorem fileOf_valid {r : Data w} (h : r.valid = true) (sh : Shown) : fileOf r sh = sh.text r := by
  rw [fileOf, h]
  rfl

/-! ## dps850 -/

/-- What each file of the driver shows. -/
def Dps850.shown : Dps850.Attr → Shown
  | .psuVIn => .linear .vIn 1000
  | .psuVOut => .voltage .vOut
  | .psuIIn => .linear .iIn 1000
  | .psuIOut => .linear .iOut 1000
  | .psuPIn => .linear .pIn 1000
  | .psuPOut => .linear .pOut 1000
  | .psuTemp1Input => .linear (.tempInput 0) 1000
  | .psuTemp2Input => .linear (.tempInput 1) 1000
  | .psuTemp3Input => .linear (.tempInput 2) 1000
  | .psuFan1Speed => .linear (.fanSpeed 0) 1
  | .psuMfrModel => .string .mfrModel
  | .psuMfrSerial => .string .mfrSerial

/-- Reading a file leaves what an update leaves. -/
theorem Dps850.read_state (attr : Dps850.Attr) (s : Data w) :
    (Dps850.read out attr s).2 = Dps850.update out s := by
  cases attr <;> rfl

/-- **The files of dps850.** -/
theorem Dps850.text_read (attr : Dps850.Attr) (s : Data w) :
    (Dps850.read out attr s).1 = fileOf (Dps850.update out s) (Dps850.shown attr) := by
  cases attr <;> rfl

/-! ## ym2651y -/

namespace Ym2651y

/-- The direction of the fan: two bits in one family, a string in the others. -/
def direction (r : Data w) : Shown :=
  if startsWith "PTT1600" ((r.text .mfrModel).drop 1) then
    let first := (r.text .fanDir).headD 0
    if (first >>> 3) &&& 1 = 0 ∧ (first >>> 4) &&& 1 = 1 then .letters [0x41, 0x46, 0x4f]
    else if (first >>> 3) &&& 1 = 1 ∧ (first >>> 4) &&& 1 = 0 then .letters [0x41, 0x46, 0x49]
    else .string .fanDir
  else .string .fanDir

/-- An input that is measured in some models only. -/
def input (r : Data w) (f : Field) : Shown := if byMode r then .linear f 1000 else .zero

/-- A voltage, the way of which is chosen by the chip and by the model there was `before`. -/
def voltage (chip : Chip) (before : Data w) (f : Field) : Shown :=
  if chip = .ym2401 ∨ byMode before = true then .voltage f else .linear f 1000

/-- What each file of the driver shows, where the value of some depends on the chip and on the data before
    the read. -/
def shown (chip : Chip) (attr : Attr) (before r : Data w) : Shown :=
  match attr with
  | .psuPowerOn => .bit .statusWord 6 false
  | .psuTempFault => .bit .statusWord 2 true
  | .psuPowerGood => .bit .statusWord 11 false
  | .psuFan1Fault => .upper .fanFault 7
  | .psuFanDirection => direction r
  | .psuOverTemp => .upper .overTemp 7
  | .psuVIn => input r .vIn
  | .psuIIn => input r .iIn
  | .psuPIn => input r .pIn
  | .psuVOut => voltage chip before .vOut
  | .psuIOut => .linear .iOut 1000
  | .psuPOut => .linear .pOut 1000
  | .psuTemp1Input => .linear .temp 1000
  | .psuFan1Speed => .linear (.fanSpeed 0) 1
  | .psuFan1DutyCycle => .linear (.fanDutyCycle 0) 1
  | .psuPmbusRevision => .upper .pmbusRevision 0
  | .psuMfrId => .string .mfrId
  | .psuMfrModel => .string .mfrModel
  | .psuMfrRevision => .string .mfrRevsion
  | .psuMfrSerial => .string .mfrSerial
  | .psuMfrVinMin => .linear .mfrVinMin 1000
  | .psuMfrVinMax => .linear .mfrVinMax 1000
  | .psuMfrVoutMin => voltage chip before .mfrVoutMin
  | .psuMfrVoutMax => voltage chip before .mfrVoutMax
  | .psuMfrIinMax => .linear .mfrIinMax 1000
  | .psuMfrIoutMax => .linear .mfrIoutMax 1000
  | .psuMfrPinMax => .linear .mfrPinMax 1000
  | .psuMfrPoutMax => .linear .mfrPoutMax 1000
  | .psuMfrModelOption => .string .mfrModelOpt

/-! ### The lines that are put together otherwise -/

/-- A mask of one bit is that bit. -/
theorem mask_bit (v : BitVec 16) {i : Nat} (hi : i < 16) :
    v &&& BitVec.twoPow 16 i ≠ 0 ↔ v.getLsbD i = true := by
  rw [BitVec.and_twoPow]
  cases h : v.getLsbD i with
  | false => simp
  | true =>
      refine ⟨fun _ => rfl, fun _ hzero => ?_⟩
      have hbit := congrArg (fun x : BitVec 16 => x.getLsbD i) hzero
      simp [hi] at hbit

/-- A flag that is printed upside down. -/
theorem flag_eq (v : BitVec 16) {i : Nat} (hi : i < 16) :
    (if v &&& BitVec.twoPow 16 i ≠ 0 then (0 : Int) else 1) = if v.getLsbD i = false then 1 else 0 := by
  cases h : v.getLsbD i with
  | true => rw [if_pos ((mask_bit v hi).mpr h), if_neg (by decide)]
  | false =>
      rw [if_neg, if_pos rfl]
      intro hmask
      rw [(mask_bit v hi).mp hmask] at h
      cases h

/-- The driver's masked and shifted temperature fault is bit 2. -/
theorem tempFault_eq (v : BitVec 16) :
    (((v &&& 0x4) >>> 2).toNat : Int) = if v.getLsbD 2 = true then 1 else 0 := by
  rw [show (0x4 : BitVec 16) = BitVec.twoPow 16 2 from rfl, BitVec.and_twoPow]
  cases v.getLsbD 2 with
  | false => rfl
  | true => rfl

/-- `psu_power_on` shows a bit. -/
theorem showWord_powerOn (s : Data w) :
    showWord .psuPowerOn s = fileOf s (.bit .statusWord 6 false) := by
  show (if !s.valid then [] else printInt (if s.field .statusWord &&& BitVec.twoPow 16 6 ≠ 0 then 0 else 1)) = _
  rw [flag_eq _ (by decide)]
  rfl

/-- `psu_temp_fault` shows a bit. -/
theorem showWord_tempFault (s : Data w) :
    showWord .psuTempFault s = fileOf s (.bit .statusWord 2 true) := by
  show (if !s.valid then [] else printInt ((s.field .statusWord &&& 0x4) >>> 2).toNat) = _
  rw [tempFault_eq]
  rfl

/-- `psu_power_good` shows a bit, the other way round. -/
theorem showWord_powerGood (s : Data w) :
    showWord .psuPowerGood s = fileOf s (.bit .statusWord 11 false) := by
  show (if !s.valid then [] else printInt (if s.field .statusWord &&& BitVec.twoPow 16 11 ≠ 0 then 0 else 1)) = _
  rw [flag_eq _ (by decide)]
  rfl

/-- The input of a model that has none is printed as a zero. -/
theorem input_eq (s : Data w) (f : Field) :
    (if !s.valid then [] else printInt (linearValue (if byMode s then s.field f else 0) 1000))
      = fileOf s (input s f) := by
  rw [fileOf, input]
  cases hmode : byMode s with
  | true => rfl
  | false =>
      show (if !s.valid then [] else printInt (linearValue 0 1000)) = if !s.valid then [] else printInt 0
      rw [show linearValue 0 1000 = 0 by decide]

/-- The voltage is shown by the mode of the chip it is. -/
theorem showVout_eq (chip : Chip) (b : Bool) {attr : Attr} {f : Field}
    (hmode : ∀ s : Data w, showVoutByMode attr s = fileOf s (.voltage f))
    (hlinear : ∀ s : Data w, showLinear attr s = fileOf s (.linear f 1000)) (s : Data w) :
    showVout out chip b attr s = (fileOf (update out b s) (voltage chip s f), update out b s) := by
  rw [showVout, voltage]
  by_cases hchip : chip = .ym2401
  · rw [if_pos hchip, if_pos (Or.inl hchip), hmode]
  · rw [if_neg hchip]
    cases hby : byMode s with
    | true => rw [if_pos rfl, if_pos (Or.inr rfl), hmode]
    | false =>
        rw [if_neg (by decide), if_neg (by rintro (h | h); exacts [hchip h, absurd h (by decide)]), hlinear]

/-! ### The direction of the fan -/

/-- Three letters behind the first byte of the array. -/
theorem strcpyFanDir_eq {s : Data w} (hsize : (s.text .fanDir).length = 5) (a b c : UInt8) :
    strcpyFanDir [a, b, c] s = s.setText .fanDir [(s.text .fanDir).headD 0, a, b, c, 0] := by
  obtain ⟨first, behind, htext⟩ : ∃ first behind, s.text .fanDir = first :: behind :=
    List.exists_cons_of_length_pos (by omega)
  have hbehind : behind.length = 4 := by
    rw [htext, List.length_cons] at hsize
    omega
  have h : s.copy layout .fanDir [first].length [a, b, c, 0] =
      s.setText .fanDir ([first] ++ [a, b, c, 0] ++ behind.drop [a, b, c, 0].length) :=
    copy_inside (show 1 + 4 ≤ 5 by decide) htext (show 4 ≤ behind.length by omega)
  refine h.trans ?_
  have hnone : behind.drop [a, b, c, 0].length = [] :=
    List.drop_of_length_le (show behind.length ≤ 4 by omega)
  rw [htext, hnone]
  rfl

/-- **What reading the direction does**: nothing, or it writes the letters that it prints. -/
theorem fanDirection_eq {s : Data w} (hsize : (s.text .fanDir).length = 5) :
    (direction s = .string .fanDir ∧ fanDirection s = s) ∨
      ∃ a b c, direction s = .letters [a, b, c] ∧
        fanDirection s = s.setText .fanDir [(s.text .fanDir).headD 0, a, b, c, 0] := by
  unfold direction fanDirection
  split
  · dsimp only
    split
    · exact .inr ⟨_, _, _, rfl, strcpyFanDir_eq hsize _ _ _⟩
    · split
      · exact .inr ⟨_, _, _, rfl, strcpyFanDir_eq hsize _ _ _⟩
      · exact .inl ⟨rfl, rfl⟩
  · exact .inl ⟨rfl, rfl⟩

/-- The arrays keep their sizes. -/
theorem length_fanDirection {s : Data w} (t : Str) : ((fanDirection s).text t).length = (s.text t).length := by
  unfold fanDirection
  split
  · dsimp only
    split
    · exact length_copy
    · split
      · exact length_copy
      · rfl
  · rfl

/-- The fan direction is shown as the chip has it. -/
theorem showAscii_direction {s : Data w} (hsize : (s.text .fanDir).length = 5) :
    (showAscii .psuFanDirection s).1 = fileOf s (direction s) := by
  unfold showAscii fileOf
  split
  · rfl
  · show printStr (((fanDirection s).text .fanDir).drop 1) = _
    rcases fanDirection_eq hsize with ⟨hdir, hsame⟩ | ⟨a, b, c, hdir, hset⟩
    · rw [hdir, hsame]
      rfl
    · rw [hdir, hset, text_setText]
      exact printStr_zero [a, b, c] []

/-- Reading a file leaves what an update leaves, and for the fan direction the letters it writes. -/
theorem read_state (chip : Chip) (b : Bool) (attr : Attr) (s : Data w) :
    (read out chip b attr s).2 = update out b s ∨
      (read out chip b attr s).2 = fanDirection (update out b s) := by
  have hascii : ∀ attr (s' : Data w), (showAscii attr s').2 = s' ∨ (showAscii attr s').2 = fanDirection s' := by
    intro attr s'
    unfold showAscii
    split
    · exact .inl rfl
    · cases attr
      case psuFanDirection => exact .inr rfl
      all_goals exact .inl rfl
  cases attr
  case psuVOut | psuMfrVoutMin | psuMfrVoutMax =>
    refine .inl ?_
    show (showVout out chip b _ s).2 = _
    rw [showVout_eq chip b (fun _ => rfl) fun _ => rfl]
  case psuFanDirection | psuMfrId | psuMfrModel | psuMfrModelOption | psuMfrRevision | psuMfrSerial =>
    exact hascii _ _
  all_goals exact .inl rfl

/-- **The files of ym2651y.** -/
theorem text_read (chip : Chip) (b : Bool) (attr : Attr) {s : Data w}
    (hsize : ((update out b s).text .fanDir).length = 5) :
    (read out chip b attr s).1 = fileOf (update out b s) (shown chip attr s (update out b s)) := by
  cases attr
  case psuPowerOn => exact showWord_powerOn _
  case psuTempFault => exact showWord_tempFault _
  case psuPowerGood => exact showWord_powerGood _
  case psuVIn | psuIIn | psuPIn => exact input_eq _ _
  case psuFanDirection => exact showAscii_direction hsize
  case psuVOut | psuMfrVoutMin | psuMfrVoutMax =>
    exact congrArg Prod.fst (showVout_eq chip b (fun _ => rfl) (fun _ => rfl) s)
  case psuMfrId | psuMfrModel | psuMfrModelOption | psuMfrRevision | psuMfrSerial =>
    show (showAscii _ _).1 = _
    unfold showAscii fileOf
    split <;> rfl
  all_goals exact rfl

end Ym2651y

/-! ## accton_i2c_psu -/

/-- The string of an attribute, for those that have one. -/
def AcctonI2cPsu.stringOf : AcctonI2cPsu.Attr → Option Str
  | .psuMfrId => some .mfrId
  | .psuMfrModel => some .mfrModel
  | .psuMfrRevision => some .mfrRevsion
  | .psuMfrSerial => some .mfrSerial
  | _ => none

/-- Reading a file leaves what an update leaves. -/
theorem AcctonI2cPsu.read_state (attr : AcctonI2cPsu.Attr) (s : Data w) :
    (AcctonI2cPsu.read out attr s).2 = AcctonI2cPsu.update out s := by
  cases attr <;> rfl

/-- **The strings of accton_i2c_psu** are printed from the start of their arrays. -/
theorem AcctonI2cPsu.text_read {attr : AcctonI2cPsu.Attr} {t : Str}
    (hattr : AcctonI2cPsu.stringOf attr = some t) (s : Data w) : (AcctonI2cPsu.read out attr s).1 =
      if !(AcctonI2cPsu.update out s).valid then [] else printStr ((AcctonI2cPsu.update out s).text t) := by
  cases attr
  case psuMfrId | psuMfrModel | psuMfrRevision | psuMfrSerial =>
    cases hattr
    rfl
  all_goals cases hattr

/-- Reading a file leaves what an update leaves. -/
theorem Cpr40114mxx.read_state (attr : Cpr40114mxx.Attr) (s : Data w) :
    (Cpr40114mxx.read out attr s).2 = Cpr40114mxx.update out s := by
  cases attr <;> rfl

end DentOS.Psu
