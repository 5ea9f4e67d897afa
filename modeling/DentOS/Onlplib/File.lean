/-
  Strings and integers read from files (onlplib, file.c).

  `onlp_file_vread_str` allocates as many bytes as the file has, reads the file into them and clears the
  newlines at the end.  `onlp_file_vread_int` reads into 32 bytes of the stack and hands them to `atoi`.
  No byte is set aside for a terminator.  The buffers are cleared before the read, so there is one where
  the read leaves a byte over, or where a newline at the end was cleared, or where the file has a NUL
  of its own; a file without any of these fills its buffer.

  What is left behind the strip is the bytes without their trailing newlines, and zeros
  (`stripLoop_eq`).  So the string is the one that was meant (`Terminated`, `Parsed`) exactly where
  `Closed` and `Spare` say; a NUL in the middle ends the string in front of what the strip looked at, so
  newlines in front of it stay.
-/
import Mathlib.Algebra.Group.Nat.Defs
import Mathlib.Data.List.DropRight

namespace DentOS.OnlpFile

/-- `ONLP_STATUS_E_MISSING` and `ONLP_STATUS_E_INTERNAL`. -/
def statusMissing : Int := -11
def statusInternal : Int := -13

/-! ## Files, and the functions that read them -/

/-- A file as these functions meet it: what `stat` gives as its size, whether it can be opened, and the
    bytes that `read` delivers into a buffer of a given length, none where it fails. -/
structure Source where
  /-- The size that `stat` gives, if it gives one. -/
  stSize : Option Nat
  /-- The file can be opened. -/
  opens : Bool
  /-- What is read into a buffer of some length. -/
  read : Nat → Option (List UInt8)
  /-- No more is read than there is room for. -/
  read_le : ∀ max bytes, read max = some bytes → bytes.length ≤ max

/-- `onlp_file_vsize`: the size goes through an `int`. -/
def onlpFileVsize (file : Source) : Int :=
  match file.stSize with
  | some size => Int.bmod size (2 ^ 32)
  | none => statusMissing

/-- A read into the front of a buffer. -/
def fill (data bytes : List UInt8) : List UInt8 := bytes ++ data.drop bytes.length

/-- `onlp_file_vread`: the length read and the buffer, or the failure. -/
def onlpFileVread (file : Source) (data : List UInt8) (max : Nat) : Except Int (Nat × List UInt8) :=
  if file.opens = false then .error statusMissing
  else
    let data := List.replicate max 0 ++ data.drop max
    match file.read max with
    | none => .error statusInternal
    | some bytes =>
        if bytes.length ≤ 0 then .error statusInternal else .ok (bytes.length, fill data bytes)

/-- `onlp_file_vread_all`: its code, and the buffer it hands out. -/
def onlpFileVreadAll (file : Source) : Int × Option (List UInt8) :=
  let fsize := onlpFileVsize file
  if 0 < fsize then
    match onlpFileVread file (List.replicate fsize.toNat 0) fsize.toNat with
    | .ok (rsize, contents) => (rsize, some contents)
    | .error rv => (rv, none)
  else (fsize, none)

/-- A line feed or a carriage return. -/
def isNewline (c : UInt8) : Bool := c == 10 || c == 13

/-- The loop of `onlp_file_vread_str`: `rv` and the buffer. -/
def stripLoop : Nat → List UInt8 → Nat × List UInt8
  | 0, str => (0, str)
  | rv + 1, str =>
      if isNewline (str.getD rv 0) then stripLoop rv (str.set rv 0) else (rv + 1, str)

/-- `onlp_file_vread_str`: the text without its last newlines. -/
def onlpFileVreadStr (file : Source) : Int × Option (List UInt8) :=
  match onlpFileVreadAll file with
  | (rv, some str) =>
      if 0 < rv then
        let r := stripLoop rv.toNat str
        (r.1, some r.2)
      else (rv, some str)
  | (rv, none) => (rv, none)

/-- The C string in a buffer, if it ends in there. -/
def cString (buffer : List UInt8) : Option (List UInt8) :=
  if 0 ∈ buffer then some (buffer.takeWhile (· ≠ 0)) else none

/-- `onlp_file_vread_int`: the text that `atoi` gets, none where it reads on behind the buffer. -/
def onlpFileVreadInt (file : Source) (stack : Vector UInt8 32) : Except Int (Option (List UInt8)) :=
  (onlpFileVread file stack.toList 32).map fun r => cString r.2

/-! ## What they are for: the text of the file as a C string -/

/-- The bytes up to the first NUL, without newlines at their end. -/
def text (bytes : List UInt8) : List UInt8 := (bytes.takeWhile (· ≠ 0)).rdropWhile isNewline

/-- **A string that was read**: it ends in its buffer, and is the text of what was read. -/
def Terminated (file : Source) : Prop :=
  0 ≤ (onlpFileVreadStr file).1 → ∃ bytes buffer,
    file.read (onlpFileVsize file).toNat = some bytes ∧ (onlpFileVreadStr file).2 = some buffer ∧
    cString buffer = some (text bytes)

/-- **An integer that was read**: its text ends in the 32 bytes. -/
def Parsed (file : Source) : Prop :=
  ∀ stack, onlpFileVreadInt file stack ≠ .ok none

/-- The last byte is a newline. -/
def EndsInNewline (bytes : List UInt8) : Prop := ∃ c ∈ bytes.getLast?, isNewline c = true

/-- Bytes read into a buffer of this length are closed: by a NUL with no newline in front of it, or
    by what the buffer has left, or by a newline at their end. -/
def Closed (length : Nat) (bytes : List UInt8) : Prop :=
  if 0 ∈ bytes then ¬ EndsInNewline (bytes.takeWhile (· ≠ 0))
  else bytes.length < length ∨ EndsInNewline bytes

/-- What a file has to be for its string: not empty, and closed by what it delivers. -/
def StrFits (file : Source) : Prop :=
  onlpFileVsize file ≠ 0 ∧ (0 < onlpFileVsize file → file.opens = true →
    ∀ bytes, file.read (onlpFileVsize file).toNat = some bytes → bytes ≠ [] →
      Closed (onlpFileVsize file).toNat bytes)

/-- What a file has to be for its integer: less than 32 bytes are read, or one of them is NUL. -/
def IntFits (file : Source) : Prop :=
  file.opens = true → ∀ bytes, file.read 32 = some bytes → bytes.length < 32 ∨ 0 ∈ bytes

/-! ## The read: how much of the file there is in the buffer -/

/-- What is read into a buffer of zeros. -/
theorem fill_replicate {max : Nat} {bytes : List UInt8} (h : bytes.length ≤ max) (rest : List UInt8) :
    fill (List.replicate max 0 ++ rest) bytes =
      bytes ++ List.replicate (max - bytes.length) 0 ++ rest := by
  rw [fill, List.drop_append_of_le_length (by rw [List.length_replicate]; exact h),
    List.drop_replicate, List.append_assoc]

/-- A read that succeeds, with zeros behind what was read. -/
theorem onlpFileVread_ok {file : Source} {data : List UInt8} {max : Nat} (hopens : file.opens = true)
    {bytes : List UInt8} (hread : file.read max = some bytes) (hbytes : bytes ≠ []) :
    onlpFileVread file data max =
      .ok (bytes.length, bytes ++ List.replicate (max - bytes.length) 0 ++ data.drop max) := by
  have hpos : ¬ bytes.length ≤ 0 := fun h => hbytes (List.length_eq_zero_iff.mp (Nat.le_zero.mp h))
  rw [onlpFileVread, if_neg (by rw [hopens]; decide)]
  simp only [hread, hpos, if_false, fill_replicate (file.read_le max bytes hread)]

/-- A read that succeeded has read something. -/
theorem onlpFileVread_inv {file : Source} {data : List UInt8} {max : Nat} {r : Nat × List UInt8}
    (h : onlpFileVread file data max = .ok r) :
    file.opens = true ∧ ∃ bytes, file.read max = some bytes ∧ bytes ≠ [] := by
  rw [onlpFileVread] at h
  split at h
  · cases h
  · next hopens =>
      refine ⟨Bool.not_eq_false _ ▸ hopens, ?_⟩
      dsimp only at h
      split at h
      · cases h
      · next bytes hread =>
          split at h
          · cases h
          · next hpos =>
              exact ⟨bytes, hread, fun hnil => hpos (by rw [hnil]; decide)⟩

/-- A read that fails returns less than 0. -/
theorem onlpFileVread_error {file : Source} {data : List UInt8} {max : Nat} {e : Int}
    (h : onlpFileVread file data max = .error e) : e < 0 := by
  rw [onlpFileVread] at h
  split at h
  · cases h
    decide
  · dsimp only at h
    split at h
    · cases h
      decide
    · split at h
      · cases h
        decide
      · cases h

/-! ## The strip of newlines at the end -/

/-- Bytes without their trailing newlines. -/
def stripped (bytes : List UInt8) : List UInt8 := bytes.rdropWhile isNewline

/-- What the strip takes off. -/
theorem stripped_append (bytes : List UInt8) :
    ∃ ends, bytes = stripped bytes ++ ends ∧ ∀ c ∈ ends, isNewline c = true :=
  ⟨bytes.rtakeWhile isNewline, List.rdropWhile_append_rtakeWhile.symm,
    fun _ hc => List.mem_rtakeWhile_imp hc⟩

/-- Stripping adds nothing. -/
theorem length_stripped_le (bytes : List UInt8) : (stripped bytes).length ≤ bytes.length :=
  (List.rdropWhile_prefix isNewline bytes).length_le

/-- A newline at the end is stripped. -/
theorem stripped_concat_pos (bytes : List UInt8) {c : UInt8} (hc : isNewline c = true) :
    stripped (bytes ++ [c]) = stripped bytes := List.rdropWhile_concat_pos isNewline bytes c hc

/-- Anything else at the end is not. -/
theorem stripped_concat_neg (bytes : List UInt8) {c : UInt8} (hc : ¬ isNewline c = true) :
    stripped (bytes ++ [c]) = bytes ++ [c] := List.rdropWhile_concat_neg isNewline bytes c hc

/-- The loop leaves the stripped bytes, and zeros in the place of what it took off. -/
theorem stripLoop_eq (bytes : List UInt8) : ∀ tail,
    stripLoop bytes.length (bytes ++ tail) =
      ((stripped bytes).length, stripped bytes ++
        (List.replicate (bytes.length - (stripped bytes).length) 0 ++ tail)) := by
  induction bytes using List.reverseRecOn with
  | nil => exact fun tail => rfl
  | append_singleton bytes c ih =>
      intro tail
      have hget : (bytes ++ [c] ++ tail).getD bytes.length 0 = c := by simp
      rw [List.length_append, List.length_singleton, stripLoop, hget]
      by_cases hc : isNewline c = true
      · have hset : (bytes ++ [c] ++ tail).set bytes.length 0 = bytes ++ 0 :: tail := by simp
        rw [if_pos hc, hset, ih, stripped_concat_pos bytes hc,
          Nat.sub_add_comm (length_stripped_le bytes), List.replicate_succ', List.append_assoc _ [0]]
        rfl
      · rw [if_neg hc, stripped_concat_neg bytes hc, List.length_append, List.length_singleton,
          Nat.sub_self]
        rfl

/-- A text ends in a newline when stripping makes it shorter. -/
theorem endsInNewline_iff (bytes : List UInt8) :
    EndsInNewline bytes ↔ (stripped bytes).length < bytes.length := by
  induction bytes using List.reverseRecOn with
  | nil => exact ⟨fun ⟨_, h, _⟩ => (by cases h), fun h => absurd h (Nat.lt_irrefl 0)⟩
  | append_singleton bytes c _ =>
      have hlast : EndsInNewline (bytes ++ [c]) ↔ isNewline c = true := by
        rw [EndsInNewline, List.getLast?_concat]
        exact ⟨fun ⟨_, heq, h⟩ => (by cases heq; exact h), fun h => ⟨c, rfl, h⟩⟩
      rw [hlast]
      by_cases hc : isNewline c = true
      · rw [stripped_concat_pos bytes hc, List.length_append]
        exact iff_of_true hc (Nat.lt_succ_of_le (length_stripped_le bytes))
      · rw [stripped_concat_neg bytes hc]
        exact iff_of_false hc (Nat.lt_irrefl _)

/-- What does not end in a newline is not stripped. -/
theorem stripped_eq_self_iff (bytes : List UInt8) :
    stripped bytes = bytes ↔ ¬ EndsInNewline bytes := by
  rw [endsInNewline_iff, Nat.not_lt]
  refine ⟨fun h => le_of_eq (congrArg List.length h.symm), fun h => ?_⟩
  exact (List.rdropWhile_prefix isNewline bytes).eq_of_length_le h

/-- Stripping takes away no NUL. -/
theorem zero_mem_stripped (bytes : List UInt8) : 0 ∈ stripped bytes ↔ 0 ∈ bytes := by
  obtain ⟨ends, hends, hnewlines⟩ := stripped_append bytes
  conv_rhs => rw [hends]
  rw [List.mem_append]
  refine ⟨.inl, fun h => h.elim id fun h => ?_⟩
  exact absurd (hnewlines 0 h) (by decide)

/-! ## C strings: what stands in front of the first zero -/

/-- There is no string in a buffer without a NUL. -/
theorem cString_eq_none_iff (buffer : List UInt8) : cString buffer = none ↔ 0 ∉ buffer := by
  rw [cString]
  split
  · next h => exact iff_of_false (fun heq => by cases heq) (fun hn => hn h)
  · next h => exact iff_of_true rfl h

/-- A string that ends in the front of a buffer. -/
theorem cString_of_mem {front : List UInt8} (h : 0 ∈ front) (rest : List UInt8) :
    cString (front ++ rest) = some (front.takeWhile (· ≠ 0)) := by
  have hlength : ¬ (front.takeWhile (· ≠ 0)).length = front.length := by
    intro heq
    have hall := List.takeWhile_eq_self_iff.mp ((List.takeWhile_prefix _).eq_of_length heq)
    exact of_decide_eq_true (hall 0 h) rfl
  rw [cString, if_pos (List.mem_append_left rest h), List.takeWhile_append, if_neg hlength]

/-- A string that zeros end. -/
theorem cString_of_not_mem {front : List UInt8} (h : 0 ∉ front) (n : Nat) :
    cString (front ++ List.replicate n 0) = if 0 < n then some front else none := by
  have hfront : front.takeWhile (· ≠ 0) = front :=
    List.takeWhile_eq_self_iff.mpr fun c hc => decide_eq_true fun heq => h (heq ▸ hc)
  cases n with
  | zero =>
      rw [List.replicate_zero, List.append_nil, if_neg (Nat.lt_irrefl 0), cString, if_neg h]
  | succ n =>
      have hmem : (0 : UInt8) ∈ front ++ List.replicate (n + 1) 0 :=
        List.mem_append_right front (by rw [List.replicate_succ]; exact List.mem_cons_self)
      rw [if_pos (Nat.succ_pos n), cString, if_pos hmem, List.takeWhile_append, hfront, if_pos rfl,
        List.replicate_succ, List.takeWhile_cons_of_neg (by decide), List.append_nil]

/-- The string in front of a NUL is the same behind the stripping. -/
theorem takeWhile_stripped {bytes : List UInt8} (h : 0 ∈ bytes) :
    (stripped bytes).takeWhile (· ≠ 0) = bytes.takeWhile (· ≠ 0) := by
  obtain ⟨ends, hends, -⟩ := stripped_append bytes
  have hstring := cString_of_mem ((zero_mem_stripped bytes).mpr h) ends
  rw [← hends, cString, if_pos h] at hstring
  exact (Option.some.inj hstring).symm

/-- **What the strip leaves is the text** of the bytes exactly where they are closed. -/
theorem cString_stripped_iff {length : Nat} {bytes : List UInt8} (h : bytes.length ≤ length) :
    cString (stripped bytes ++ List.replicate (length - (stripped bytes).length) 0) =
      some (text bytes) ↔ Closed length bytes := by
  rw [Closed]
  by_cases hzero : 0 ∈ bytes
  · rw [if_pos hzero, cString_of_mem ((zero_mem_stripped bytes).mpr hzero), takeWhile_stripped hzero,
      Option.some_inj, ← stripped_eq_self_iff]
    exact ⟨Eq.symm, Eq.symm⟩
  · have hall : bytes.takeWhile (· ≠ 0) = bytes :=
      List.takeWhile_eq_self_iff.mpr fun c hc => decide_eq_true fun heq => hzero (heq ▸ hc)
    have htext : text bytes = stripped bytes := by rw [text, hall, stripped]
    have hle := length_stripped_le bytes
    rw [if_neg hzero, cString_of_not_mem (fun hmem => hzero ((zero_mem_stripped bytes).mp hmem)),
      htext, endsInNewline_iff]
    by_cases hroom : 0 < length - (stripped bytes).length
    · rw [if_pos hroom]
      exact iff_of_true rfl (by omega)
    · rw [if_neg hroom]
      exact iff_of_false (fun heq => by cases heq) (by omega)

/-! ## The two functions, exactly on the files for which they terminate their text -/

/-- A string that is read: what the strip leaves of the bytes, and zeros. -/
theorem onlpFileVreadStr_read {file : Source} {bytes : List UInt8} (hsize : 0 < onlpFileVsize file)
    (hopens : file.opens = true) (hread : file.read (onlpFileVsize file).toNat = some bytes)
    (hbytes : bytes ≠ []) :
    onlpFileVreadStr file = (((stripped bytes).length : Int),
      some (stripped bytes ++
        List.replicate ((onlpFileVsize file).toNat - (stripped bytes).length) 0)) := by
  have hle := file.read_le _ _ hread
  have hstripped := length_stripped_le bytes
  have hall : onlpFileVreadAll file = ((bytes.length : Int),
      some (bytes ++ List.replicate ((onlpFileVsize file).toNat - bytes.length) 0)) := by
    rw [onlpFileVreadAll]
    simp only [hsize, if_true, onlpFileVread_ok hopens hread hbytes, List.drop_replicate, Nat.sub_self,
      List.replicate_zero, List.append_nil]
  have hpos : (0 : Int) < bytes.length := Int.natCast_pos.mpr (List.length_pos_iff.mpr hbytes)
  have hzeros : bytes.length - (stripped bytes).length + ((onlpFileVsize file).toNat - bytes.length) =
      (onlpFileVsize file).toNat - (stripped bytes).length := by omega
  simp only [onlpFileVreadStr, hall, hpos, if_true, Int.toNat_natCast, stripLoop_eq,
    List.replicate_append_replicate, hzeros]

/-- No bytes, no string. -/
theorem onlpFileVreadStr_failed {file : Source} (hsize : 0 < onlpFileVsize file)
    (h : ∀ bytes, file.opens = true → file.read (onlpFileVsize file).toNat = some bytes → bytes = []) :
    (onlpFileVreadStr file).1 < 0 := by
  cases hread : onlpFileVread file (List.replicate (onlpFileVsize file).toNat 0)
      (onlpFileVsize file).toNat with
  | ok r =>
      obtain ⟨hopens, bytes, hbytes, hne⟩ := onlpFileVread_inv hread
      exact absurd (h bytes hopens hbytes) hne
  | error e =>
      have hall : onlpFileVreadAll file = (e, none) := by
        rw [onlpFileVreadAll]
        simp only [hsize, if_true, hread]
      simp only [onlpFileVreadStr, hall]
      exact onlpFileVread_error hread

/-- A file without a size has no text. -/
theorem onlpFileVreadStr_unsized {file : Source} (hsize : ¬ 0 < onlpFileVsize file) :
    onlpFileVreadStr file = (onlpFileVsize file, none) := by
  have hall : onlpFileVreadAll file = (onlpFileVsize file, none) := by
    rw [onlpFileVreadAll]
    simp only [hsize, if_false]
  simp only [onlpFileVreadStr, hall]

/-- **The text is terminated** exactly where the file fits. -/
theorem terminated_iff (file : Source) : Terminated file ↔ StrFits file := by
  by_cases hsize : 0 < onlpFileVsize file
  · constructor
    · intro hterminated
      refine ⟨Int.ne_of_gt hsize, fun _ hopens bytes hread hbytes => ?_⟩
      have hstr := onlpFileVreadStr_read hsize hopens hread hbytes
      obtain ⟨bytes', buffer, hread', hbuffer, hstring⟩ :=
        hterminated (by rw [hstr]; exact Int.natCast_nonneg _)
      rw [hread] at hread'
      rw [hstr] at hbuffer
      cases hread'
      cases hbuffer
      exact (cString_stripped_iff (file.read_le _ _ hread)).mp hstring
    · rintro ⟨-, hclosed⟩ hsuccess
      by_cases hbytes : ∀ bytes, file.opens = true →
          file.read (onlpFileVsize file).toNat = some bytes → bytes = []
      · exact absurd hsuccess (Int.not_le.mpr (onlpFileVreadStr_failed hsize hbytes))
      · push Not at hbytes
        obtain ⟨bytes, hopens, hread, hne⟩ := hbytes
        refine ⟨bytes, _, hread, congrArg Prod.snd (onlpFileVreadStr_read hsize hopens hread hne), ?_⟩
        exact (cString_stripped_iff (file.read_le _ _ hread)).mpr (hclosed hsize hopens bytes hread hne)
  · rw [Terminated, onlpFileVreadStr_unsized hsize]
    constructor
    · refine fun hterminated => ⟨fun hzero => ?_, fun hpos => absurd hpos hsize⟩
      obtain ⟨_, _, -, hbuffer, -⟩ := hterminated (Int.le_of_eq hzero.symm)
      cases hbuffer
    · rintro ⟨hne, -⟩ hsuccess
      exact absurd (Int.lt_iff_le_and_ne.mpr ⟨hsuccess, hne.symm⟩) hsize

/-- The number is that of the string in the buffer. -/
theorem onlpFileVreadInt_read {file : Source} {bytes : List UInt8} (hopens : file.opens = true)
    (hread : file.read 32 = some bytes) (hbytes : bytes ≠ []) (stack : Vector UInt8 32) :
    onlpFileVreadInt file stack = .ok (cString (bytes ++ List.replicate (32 - bytes.length) 0)) := by
  have hdrop : stack.toList.drop 32 = [] := List.drop_eq_nil_of_le (by rw [Vector.length_toList])
  rw [onlpFileVreadInt, onlpFileVread_ok hopens hread hbytes, hdrop, List.append_nil]
  rfl

/-- **The number is parsed** exactly where the file fits. -/
theorem parsed_iff (file : Source) : Parsed file ↔ IntFits file := by
  have hnone : ∀ bytes : List UInt8, bytes.length ≤ 32 →
      (cString (bytes ++ List.replicate (32 - bytes.length) 0) = none ↔
        ¬ (bytes.length < 32 ∨ 0 ∈ bytes)) := by
    intro bytes hle
    rw [cString_eq_none_iff, List.mem_append, List.mem_replicate]
    by_cases hzero : 0 ∈ bytes
    · exact iff_of_false (fun h => h (.inl hzero)) (fun h => h (.inr hzero))
    · refine ⟨fun h hfits => h (.inr ⟨?_, rfl⟩), fun h hmem => ?_⟩
      · have hlt := hfits.resolve_right hzero
        omega
      · have hne := (hmem.resolve_left hzero).1
        exact h (.inl (by omega))
  constructor
  · intro hparsed hopens bytes hread
    by_cases hbytes : bytes = []
    · rw [hbytes]
      exact .inl (by decide)
    · have hint := onlpFileVreadInt_read hopens hread hbytes (Vector.replicate 32 0)
      by_contra hfits
      rw [(hnone bytes (file.read_le 32 bytes hread)).mpr hfits] at hint
      exact hparsed _ hint
  · intro hfits stack hint
    cases hvread : onlpFileVread file stack.toList 32 with
    | error e =>
        rw [onlpFileVreadInt, hvread] at hint
        cases hint
    | ok r =>
        obtain ⟨hopens, bytes, hread, hbytes⟩ := onlpFileVread_inv hvread
        rw [onlpFileVreadInt_read hopens hread hbytes, Except.ok.injEq,
          hnone bytes (file.read_le 32 bytes hread)] at hint
        exact hint (hfits hopens bytes hread)

/-- **Strings and integers end in their buffers** exactly where the files they are read from fit. -/
theorem texts_terminated_iff (file : Source) :
    (Terminated file ↔ StrFits file) ∧ (Parsed file ↔ IntFits file) :=
  ⟨terminated_iff file, parsed_iff file⟩

/-- A regular file: `read` delivers what there is, up to the length of the buffer. -/
def regular (content : List UInt8) : Source where
  stSize := some content.length
  opens := true
  read max := some (content.take max)
  read_le _ _ h := by
    cases h
    exact List.length_take_le _ _

/-- The file `ok`, without a newline: there is no room for a terminator. -/
theorem texts_unterminated : ¬ ∀ file, Terminated file ∧ Parsed file := by
  intro h
  have hfits := (terminated_iff (regular [111, 107])).mp (h (regular [111, 107])).1
  have hclosed := hfits.2 (by decide) rfl [111, 107] rfl (by decide)
  rcases hclosed with hlt | ⟨c, hc, hnewline⟩
  · exact absurd hlt (by decide)
  · cases hc
    exact absurd hnewline (by decide)

end DentOS.OnlpFile
