/-
  The record of a power supply driver, and what a store into one of its strings does.

  A driver keeps the registers of its power supply in a struct: numbers, and arrays for strings
  (`Data`).  The drivers take the length of a string from the power supply and do not always look
  whether the array is long enough, so a byte may land in whatever member lies beside the array.
  `Layout` is the order of the members of a struct, with the bytes between them that nothing reads,
  and `Place` what lies at one byte.  `Data.poke` stores a byte at an index of an array, which may be
  outside of it; `Data.copy` stores several, one behind the other.  What goes past the end of the struct
  changes nothing that the driver reads.

  The record of the calls made (`calls`) and the note that a byte was stored outside its array
  (`overrun`) are not in the source: they are what the results about runs speak of.  Stores that stay
  inside change their array and nothing else (`copy_inside`, `poke_inside`), and where no note was made
  all stores have stayed inside (`inside_of_poke`, `inside_of_copy`).
-/
import Mathlib.Logic.Function.Basic
import Mathlib.Data.List.Basic

namespace DentOS.Psu

/-! ## The members of a struct, and the bytes behind each array -/

/-- The numbers in the records of the four drivers. -/
inductive Field where
  | capability | voutMode | overTemp | fanFault | pmbusRevision
  | statusWord | vIn | vOut | iIn | iOut | pIn | pOut | temp | tempInput (nr : Nat)
  | fanDutyCycle (nr : Nat) | fanSpeed (nr : Nat)
  | mfrVinMin | mfrVinMax | mfrIinMax | mfrPinMax | mfrVoutMin | mfrVoutMax | mfrIoutMax | mfrPoutMax
  deriving DecidableEq

/-- The strings in the records. -/
inductive Str where
  | fanDir | mfrId | mfrModel | mfrModelOpt | mfrRevsion | mfrSerial
  deriving DecidableEq

/-- The transfers between a driver and its power supply, with what came of them. -/
inductive Call where
  | read (reg : Nat) (status : Option Nat)
  | write (reg : Nat) (value : BitVec 16) (ok : Bool)
  | block (command : Nat) (length : UInt8) (got : Option (List UInt8))
  deriving DecidableEq

/-- A member of a driver's struct. -/
inductive Member where
  | u8 (f : Field)
  | u16 (f : Field)
  | array (t : Str) (size : Nat)
  /-- A byte that is not read: the number of the chip, or one that aligns what is behind it. -/
  | unused

/-- What lies at one byte of a struct. -/
inductive Place where
  | byte (f : Field)
  | low (f : Field)
  | high (f : Field)
  | element (t : Str) (i : Nat)
  | nothing
  deriving DecidableEq

/-- The bytes of a member, a word with its low byte first. -/
def Member.places : Member → List Place
  | .u8 f => [.byte f]
  | .u16 f => [.low f, .high f]
  | .array t size => (List.range size).map (.element t)
  | .unused => [.nothing]

/-- The size of the array of a string, if the member is that. -/
def Member.sizeOf? (t : Str) : Member → Option Nat
  | .array t' size => if t' = t then some size else none
  | _ => none

/-- The members of a driver's struct in their order, behind `last_updated`. -/
structure Layout where
  /-- The members. -/
  members : List Member

/-- The size of a string's array; 0 for a string that the driver does not have. -/
def Layout.size (l : Layout) (t : Str) : Nat := (l.members.findSome? (Member.sizeOf? t)).getD 0

/-- The bytes of the structure, one behind the other. -/
def Layout.places (l : Layout) : List Place := l.members.flatMap Member.places

/-- Where the array of a string begins. -/
def Layout.start (l : Layout) (t : Str) : Nat := l.places.idxOf (.element t 0)

/-- What lies at an index of an array: the element, or what is beside the array. -/
def Layout.place (l : Layout) (t : Str) (i : Int) : Place :=
  if 0 ≤ i ∧ i < l.size t then .element t i.toNat
  else if 0 ≤ l.start t + i then (l.places[(l.start t + i).toNat]?).getD .nothing
  else .nothing

/-! ## The record -/

/-- The driver's data, the moment, and the calls made so far, the last one first. -/
structure Data (w : Nat) where
  /-- The data counts. -/
  valid : Bool
  /-- The tick of the last refresh. -/
  lastUpdated : BitVec w
  /-- The registers. -/
  field : Field → BitVec 16
  /-- The strings. -/
  text : Str → List UInt8
  /-- A byte was stored outside of its array. -/
  overrun : Bool
  /-- The number of moments that have gone by. -/
  moment : Nat
  /-- The calls, the last one first. -/
  calls : List Call

/-- The data that `kzalloc` gives a driver. -/
def Data.zero (w : Nat) (l : Layout) : Data w where
  valid := false
  lastUpdated := 0
  field := fun _ => 0
  text := fun t => List.replicate (l.size t) 0
  overrun := false
  moment := 0
  calls := []

variable {w : Nat}

/-- A field is another value. -/
def Data.setField (s : Data w) (f : Field) (v : BitVec 16) : Data w :=
  { s with field := Function.update s.field f v }

/-- A string's array, as a whole. -/
def Data.setText (s : Data w) (t : Str) (text : List UInt8) : Data w :=
  { s with text := Function.update s.text t text }

@[simp] theorem text_setText (s : Data w) (t : Str) (text : List UInt8) :
    (s.setText t text).text t = text := Function.update_self _ _ _

/-- Every other array is what it was. -/
theorem text_setText_of_ne (s : Data w) {t u : Str} (h : u ≠ t) (text : List UInt8) :
    (s.setText t text).text u = s.text u := Function.update_of_ne h _ _

/-- A byte stored at a place. -/
def Data.store (s : Data w) (b : UInt8) : Place → Data w
  | .byte f => s.setField f (b.toBitVec.setWidth 16)
  | .low f => s.setField f ((s.field f &&& 0xff00) ||| b.toBitVec.setWidth 16)
  | .high f => s.setField f ((s.field f &&& 0x00ff) ||| b.toBitVec.setWidth 16 <<< 8)
  | .element t i => s.setText t ((s.text t).set i b)
  | .nothing => s

/-- `t[i] = b`. -/
def Data.poke (l : Layout) (t : Str) (i : Int) (b : UInt8) (s : Data w) : Data w :=
  { s.store b (l.place t i) with overrun := s.overrun || ! decide (0 ≤ i ∧ i < l.size t) }

/-- `memcpy` to an array, from an index on. -/
def Data.copy (l : Layout) (t : Str) : Nat → List UInt8 → Data w → Data w
  | _, [], s => s
  | i, b :: bytes, s => (s.poke l t i b).copy l t (i + 1) bytes

/-! ## What no store touches: the clock, the calls, and the valid flag -/

variable {l : Layout} {s : Data w} {t t' : Str} {i : Int} {n : Nat} {b : UInt8} {bytes : List UInt8}

/-- Storing a byte changes the fields and the strings only. -/
theorem store_eq (s : Data w) (b : UInt8) (p : Place) : ∃ field text,
    s.store b p = { s with field := field, text := text } := by
  cases p <;> exact ⟨_, _, rfl⟩

@[simp] theorem valid_poke : (s.poke l t i b).valid = s.valid := by
  obtain ⟨field, text, h⟩ := store_eq s b (l.place t i)
  rw [Data.poke, h]

@[simp] theorem lastUpdated_poke : (s.poke l t i b).lastUpdated = s.lastUpdated := by
  obtain ⟨field, text, h⟩ := store_eq s b (l.place t i)
  rw [Data.poke, h]

@[simp] theorem moment_poke : (s.poke l t i b).moment = s.moment := by
  obtain ⟨field, text, h⟩ := store_eq s b (l.place t i)
  rw [Data.poke, h]

@[simp] theorem calls_poke : (s.poke l t i b).calls = s.calls := by
  obtain ⟨field, text, h⟩ := store_eq s b (l.place t i)
  rw [Data.poke, h]

/-- The arrays keep their sizes. -/
@[simp] theorem length_poke : ((s.poke l t i b).text t').length = (s.text t').length := by
  show ((s.store b (l.place t i)).text t').length = _
  cases l.place t i with
  | element u j =>
      show (Function.update s.text u _ t').length = _
      by_cases h : t' = u
      · subst h
        rw [Function.update_self, List.length_set]
      · rw [Function.update_of_ne h]
  | byte f => rfl
  | low f => rfl
  | high f => rfl
  | nothing => rfl

/-- What every byte that is stored keeps, all of them keep. -/
theorem copy_induct {P : Data w → Prop} (hpoke : ∀ i b s, P s → P (s.poke l t i b)) :
    ∀ (bytes : List UInt8) (n : Nat) {s : Data w}, P s → P (s.copy l t n bytes)
  | [], _, _, hs => hs
  | b :: bytes, n, _, hs => copy_induct hpoke bytes (n + 1) (hpoke n b _ hs)

@[simp] theorem valid_copy : (s.copy l t n bytes).valid = s.valid :=
  copy_induct (P := fun s' => s'.valid = s.valid) (fun _ _ _ h => valid_poke.trans h) bytes n rfl

@[simp] theorem moment_copy : (s.copy l t n bytes).moment = s.moment :=
  copy_induct (P := fun s' => s'.moment = s.moment) (fun _ _ _ h => moment_poke.trans h) bytes n rfl

@[simp] theorem calls_copy : (s.copy l t n bytes).calls = s.calls :=
  copy_induct (P := fun s' => s'.calls = s.calls) (fun _ _ _ h => calls_poke.trans h) bytes n rfl

@[simp] theorem length_copy : ((s.copy l t n bytes).text t').length = (s.text t').length :=
  copy_induct (P := fun s' => (s'.text t').length = (s.text t').length) (fun _ _ _ h => length_poke.trans h)
    bytes n rfl

/-! ## The note that a byte was stored outside its array -/

/-- A byte that is stored is noted when it is outside its array. -/
theorem overrun_poke : (s.poke l t i b).overrun = (s.overrun || ! decide (0 ≤ i ∧ i < l.size t)) := rfl

/-- A note is not taken back. -/
theorem overrun_poke_of (h : s.overrun = true) : (s.poke l t i b).overrun = true := by
  rw [overrun_poke, h, Bool.true_or]

/-- A note stays behind a copy. -/
theorem overrun_copy_of (h : s.overrun = true) : (s.copy l t n bytes).overrun = true :=
  copy_induct (P := fun s' => s'.overrun = true) (fun _ _ _ h => overrun_poke_of h) bytes n h

/-- **Where no note was made**, the byte was stored in the array. -/
theorem inside_of_poke (h : (s.poke l t i b).overrun = false) :
    s.overrun = false ∧ 0 ≤ i ∧ i < l.size t := by
  rwa [overrun_poke, Bool.or_eq_false_iff, Bool.not_eq_false', decide_eq_true_eq] at h

/-- Where nothing is noted behind a copy, nothing was before. -/
theorem overrun_of_copy (h : (s.copy l t n bytes).overrun = false) : s.overrun = false := by
  cases hs : s.overrun with
  | false => rfl
  | true =>
      rw [overrun_copy_of hs] at h
      cases h

/-- All of the bytes were. -/
theorem inside_of_copy : ∀ {bytes : List UInt8} {n : Nat} {s : Data w}, n ≤ l.size t →
    (s.copy l t n bytes).overrun = false → n + bytes.length ≤ l.size t
  | [], _, _, hn, _ => hn
  | b :: bytes, n, s, _, h => by
      obtain ⟨-, -, hlt⟩ := inside_of_poke (overrun_of_copy h)
      have hrest : (n + 1) + bytes.length ≤ l.size t := inside_of_copy (by omega) h
      rw [List.length_cons]
      omega

/-! ## Stores inside an array leave everything else -/

/-- Setting an array twice is setting it to the second text. -/
theorem setText_setText (s : Data w) (t : Str) (text text' : List UInt8) :
    (s.setText t text).setText t text' = s.setText t text' := by
  show { s with text := Function.update (Function.update s.text t text) t text' } = _
  rw [Function.update_idem]
  rfl

/-- **One byte inside.** -/
theorem poke_inside (hn : n < l.size t) : s.poke l t n b = s.setText t ((s.text t).set n b) := by
  have hin : (0 : Int) ≤ n ∧ (n : Int) < l.size t := by omega
  rw [Data.poke, Layout.place, if_pos hin, decide_eq_true hin, Bool.not_true, Bool.or_false,
    Int.toNat_natCast]
  rfl

/-- **Bytes inside**: they take the place of as many, and no other member is touched. -/
theorem copy_inside : ∀ {bytes before behind : List UInt8} {s : Data w},
    before.length + bytes.length ≤ l.size t → s.text t = before ++ behind → bytes.length ≤ behind.length →
    s.copy l t before.length bytes = s.setText t (before ++ bytes ++ behind.drop bytes.length)
  | [], before, behind, s, _, htext, _ => by
      rw [List.append_nil, List.length_nil, List.drop_zero, ← htext]
      show s = s.setText t (s.text t)
      rw [Data.setText, Function.update_eq_self]
  | b :: bytes, before, [], s, _, _, hlong => by
      rw [List.length_cons, List.length_nil] at hlong
      omega
  | b :: bytes, before, c :: behind, s, hsize, htext, hlong => by
      rw [List.length_cons] at hsize
      have hone : s.poke l t before.length b = s.setText t ((before ++ [b]) ++ behind) := by
        rw [poke_inside (by omega), htext, List.set_append_right _ _ (Nat.le_refl _), Nat.sub_self,
          List.set_cons_zero, List.append_assoc]
        rfl
      have hnext : before.length + 1 = (before ++ [b]).length := by
        rw [List.length_append, List.length_singleton]
      have hlong' : bytes.length ≤ behind.length := by simpa using hlong
      have hrest : (s.setText t ((before ++ [b]) ++ behind)).copy l t (before ++ [b]).length bytes =
          (s.setText t ((before ++ [b]) ++ behind)).setText t
            (before ++ [b] ++ bytes ++ behind.drop bytes.length) :=
        copy_inside (by rw [← hnext]; omega) (Function.update_self _ _ _) hlong'
      rw [Data.copy, hone, hnext, hrest, setText_setText, List.append_assoc before, List.singleton_append,
        List.length_cons, List.drop_succ_cons]

/-- The bytes from the start of an array on. -/
theorem copy_start (hsize : bytes.length ≤ l.size t) (htext : (s.text t).length = l.size t) :
    s.copy l t 0 bytes = s.setText t (bytes ++ (s.text t).drop bytes.length) := by
  have h : s.copy l t [].length bytes = s.setText t ([] ++ bytes ++ (s.text t).drop bytes.length) :=
    copy_inside (by rwa [List.length_nil, Nat.zero_add]) rfl (by rwa [htext])
  rwa [List.nil_append, List.length_nil] at h

/-- Where no note was made, the numbers are as before, and so are the other arrays. -/
theorem kept_of_poke (h : (s.poke l t i b).overrun = false) :
    (s.poke l t i b).field = s.field ∧ ∀ u, u ≠ t → (s.poke l t i b).text u = s.text u := by
  obtain ⟨-, hpos, hlt⟩ := inside_of_poke h
  obtain ⟨n, rfl⟩ := Int.eq_ofNat_of_zero_le hpos
  rw [poke_inside (by omega)]
  exact ⟨rfl, fun u hu => text_setText_of_ne s hu _⟩

/-- A copy inside its array leaves every field, and every other array. -/
theorem kept_of_copy : ∀ {bytes : List UInt8} {n : Nat} {s : Data w},
    (s.copy l t n bytes).overrun = false →
    (s.copy l t n bytes).field = s.field ∧ ∀ u, u ≠ t → (s.copy l t n bytes).text u = s.text u
  | [], _, _, _ => ⟨rfl, fun _ _ => rfl⟩
  | b :: bytes, n, s, h => by
      obtain ⟨hfield, htext⟩ := kept_of_poke (overrun_of_copy h)
      have hrest : ((s.poke l t n b).copy l t (n + 1) bytes).overrun = false := h
      obtain ⟨hfield', htext'⟩ := kept_of_copy hrest
      exact ⟨hfield'.trans hfield, fun u hu => (htext' u hu).trans (htext u hu)⟩

/-- The note behind a run of bytes that begins inside. -/
theorem overrun_copy : ∀ {bytes : List UInt8} {n : Nat} {s : Data w}, n ≤ l.size t →
    (s.copy l t n bytes).overrun = (s.overrun || decide (l.size t < n + bytes.length))
  | [], n, s, hn => by
      rw [List.length_nil, Nat.add_zero, decide_eq_false (by omega), Bool.or_false]
      rfl
  | b :: bytes, n, s, hn => by
      by_cases hlt : n < l.size t
      · have hin : (0 : Int) ≤ n ∧ (n : Int) < l.size t := by omega
        rw [Data.copy, overrun_copy (by omega), overrun_poke, decide_eq_true hin, Bool.not_true,
          Bool.or_false, List.length_cons, Nat.add_right_comm, Nat.add_assoc]
      · have hout : ¬ ((0 : Int) ≤ n ∧ (n : Int) < l.size t) := by omega
        have hpoke : (s.poke l t n b).overrun = true := by
          rw [overrun_poke, decide_eq_false hout, Bool.not_false, Bool.or_true]
        rw [Data.copy, overrun_copy_of hpoke, List.length_cons, decide_eq_true (by omega), Bool.or_true]

end DentOS.Psu
