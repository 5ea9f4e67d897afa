/-
  The JSON form of the ONIE data (onlplib/module/src/onie.c): `onlp_onie_show_json`, which writes the
  members of `onlp_onie_info_t` under a list of names written by hand, and `onlp_onie_read_json`,
  which looks them up by the entries of `onlplib.x`.

  cJSON, cjson_util and AIM are not part of this repository.  Their parts are parameters: the items
  of cJSON and `cJSON_CreateObject` with the `cJSON_Add…ToObject` calls (`object`), `cJSON_Print`,
  `cjson_util_parse_file`, `cjson_util_lookup_string`, and AIM's `%{mac}`.

  `sscanf` and `atoi` are the C library's.  Not modelled: the log message of a file that cannot be
  parsed, and memory that runs out.
-/
import DentOS.Lib.PyText
import DentOS.Onie.Decode
import Mathlib.Algebra.Group.Nat.Defs
import Mathlib.Data.List.Nodup
import Mathlib.Data.List.TakeWhile

namespace DentOS.Onie

open PyText

/-! ## Strings of the C library: a mac address to text and back -/

/-- The bytes of a string before its NUL. -/
def CString.text (s : CString) : List UInt8 := s.bytes.takeWhile (· ≠ 0)

/-- A text of the source as bytes. -/
def ascii (t : Text) : List UInt8 := t.map Char.toUInt8

/-- The value of a hexadecimal digit, of either case. -/
def xdigit (c : Char) : Option Nat :=
  if c.isDigit then some (c.toNat - 48)
  else if 'a' ≤ c ∧ c ≤ 'f' then some (c.toNat - 87)
  else if 'A' ≤ c ∧ c ≤ 'F' then some (c.toNat - 55)
  else none

/-- The digits at the start of a text, with the value `n` of those read already. -/
def xdigits : Nat → Text → Nat × Text
  | n, [] => (n, [])
  | n, c :: cs =>
      match xdigit c with
      | some d => xdigits (16 * n + d) cs
      | none => (n, c :: cs)

/-- The sign of `strtoul`. -/
def sign : Text → Bool × Text
  | '-' :: cs => (true, cs)
  | '+' :: cs => (false, cs)
  | cs => (false, cs)

/-- Its `0x`. -/
def skip0x : Text → Text
  | '0' :: 'x' :: cs => cs
  | '0' :: 'X' :: cs => cs
  | cs => cs

/-- One `%x` of `sscanf`, or `none` where it does not match. -/
def scanX (t : Text) : Option (UInt32 × Text) :=
  let (negative, t) := sign (t.dropWhile isSpace)
  let t := skip0x t
  match t with
  | [] => none
  | c :: _ =>
      if (xdigit c).isSome then
        let (n, rest) := xdigits 0 t
        let v := UInt32.ofNat (min n (2 ^ 64 - 1))
        some (if negative then -v else v, rest)
      else none

/-- `%x:%x:…`, with `n` conversions to go.  A conversion that is not reached leaves its zero. -/
def scanMac : Nat → Text → List UInt32
  | 0, _ => []
  | n + 1, t =>
      match scanX t with
      | none => List.replicate (n + 1) 0
      | some (v, rest) =>
          v :: match rest with
            | ':' :: rest => scanMac n rest
            | _ => List.replicate n 0

/-- `atoi(t)`. -/
def atoi (t : Text) : Int :=
  let (negative, t) := sign (t.dropWhile isSpace)
  let n : Int := (digits (t.takeWhile Char.isDigit)).getD 0
  if negative then -n else n

/-! ## The writer: an object with the fields that are there -/

/-- What a member of the written object holds. -/
inductive JsonValue where
  | null
  | number (n : Int)
  | string (s : List UInt8)
  deriving DecidableEq

/-- The string that a value is, if it is one. -/
def JsonValue.string? : JsonValue → Option (List UInt8)
  | .string s => some s
  | _ => none

/-- A string, or null for a null pointer. -/
def stringOrNull : Option CString → JsonValue
  | some s => .string s.text
  | none => .null

/-- The `_S` macro. -/
def addS (info : OnieInfo) (name : Text) (member : OnieString) : Text × JsonValue :=
  (name, stringOrNull (info.strings member))

/-- The `_N` macro. -/
def addN (name : Text) (n : Int) : Text × JsonValue := (name, .number n)

section

variable (aimMac : Block 6 → Text)

/-- The members that `onlp_onie_show_json` adds, in order. -/
def showMembers (info : OnieInfo) : List (Text × JsonValue) :=
  [ addS info "Product Name".toList .productName,
    addS info "Part Number".toList .partNumber,
    addS info "Serial Number".toList .serialNumber,
    ("MAC".toList, .string (ascii (aimMac info.mac))),
    addS info "Manufacturer".toList .manufacturer,
    addS info "Manufacture Date".toList .manufactureDate,
    addS info "Vendor".toList .vendor,
    addS info "Platform Name".toList .platformName,
    addS info "Label Revision".toList .labelRevision,
    addS info "Country Code".toList .countryCode,
    addS info "Diag Version".toList .diagVersion,
    addS info "Service Tag".toList .serviceTag,
    addS info "ONIE Version".toList .onieVersion,
    addN "Device Version".toList info.deviceVersion.toNat,
    ("CRC".toList, .string (ascii ("0x".toList ++ hexInt info.crc.toNat))) ]

variable {J : Type} (object : List (Text × JsonValue) → J) (cJSONPrint : J → List UInt8)

/-- `onlp_onie_show_json`: the text it prints. -/
def onlpOnieShowJson (info : OnieInfo) : List UInt8 :=
  cJSONPrint (object (showMembers aimMac info)) ++ ascii "\n".toList

end

/-! ## The reader looks for each field by its name -/

/-- The member of an `ONIE_TLV_ENTRY`, with its type. -/
inductive TlvMember where
  | str (member : OnieString)
  | mac
  | byteDeviceVersion
  | int16MacRange

/-- An entry of `onlplib.x`: the field, its name and its code. -/
structure TlvEntry where
  /-- The field of the struct. -/
  member : TlvMember
  /-- The name that it has in JSON. -/
  name : Text
  /-- The code of its TLV. -/
  code : Nat

/-- `onlplib.x`. -/
def onlplibX : List TlvEntry :=
  [ ⟨.str .productName, "Product Name".toList, 0x21⟩,
    ⟨.str .partNumber, "Part Number".toList, 0x22⟩,
    ⟨.str .serialNumber, "Serial Number".toList, 0x23⟩,
    ⟨.mac, "MAC".toList, 0x24⟩,
    ⟨.str .manufactureDate, "Manufacture Date".toList, 0x25⟩,
    ⟨.byteDeviceVersion, "Device Version".toList, 0x26⟩,
    ⟨.str .labelRevision, "Label Revision".toList, 0x27⟩,
    ⟨.str .platformName, "Platform Name".toList, 0x28⟩,
    ⟨.str .onieVersion, "ONIE Version".toList, 0x29⟩,
    ⟨.int16MacRange, "MAC Range".toList, 0x2A⟩,
    ⟨.str .manufacturer, "Manufacturer".toList, 0x2B⟩,
    ⟨.str .countryCode, "Country Code".toList, 0x2C⟩,
    ⟨.str .vendor, "Vendor".toList, 0x2D⟩,
    ⟨.str .diagVersion, "Diag Version".toList, 0x2E⟩,
    ⟨.str .serviceTag, "Service Tag".toList, 0x2F⟩ ]

/-- The path `"0x%x"` of a code. -/
def codePath (code : Nat) : Text := "0x".toList ++ hexInt code

/-- A C string as characters. -/
def CString.chars (s : CString) : Text := s.text.map Char.ofUInt8

section

variable {J : Type} (parseFile : List UInt8 → Except Int J) (lookupString : J → Text → Option (List UInt8))

/-- `lookup_entry__`. -/
def lookupEntry (cj : J) (name : Text) (code : Nat) : Option CString :=
  match lookupString cj (codePath code) with
  | some str => some (CString.ofValue str)
  | none => (lookupString cj name).map CString.ofValue

/-- `ONIE_TLV_ENTRY(_member, _name, _code, _type)`. -/
def readEntry (cj : J) (info : OnieInfo) (entry : TlvEntry) : OnieInfo :=
  let found := lookupEntry lookupString cj entry.name entry.code
  match entry.member with
  | .str member => { info with strings := fun k => if k = member then found else info.strings k }
  | .mac => { info with
      mac := match found with
        | some str => Block.copy 6 ((scanMac 6 str.chars).map UInt32.toUInt8)
        | none => info.mac }
  | .byteDeviceVersion => { info with
      deviceVersion := match found with
        | some v => UInt8.ofInt (atoi v.chars)
        | none => info.deviceVersion }
  | .int16MacRange => { info with
      macRange := match found with
        | some v => UInt16.ofInt (atoi v.chars)
        | none => info.macRange }

/-- `onlp_onie_read_json` on a file with the given content: its return value, and `*info`. -/
def onlpOnieReadJson (file : List UInt8) : Int × OnieInfo :=
  match parseFile file with
  | .error rv => (rv, OnieInfo.zero)
  | .ok cj => (0, onlplibX.foldl (readEntry lookupString cj) OnieInfo.zero)

end

/-! ## The text of a mac address -/

/-- Two digits of either half of a byte, in lower case. -/
def twoDigits (b : UInt8) : Text := [(b.toNat / 16).digitChar, (b.toNat % 16).digitChar]

/-- Six bytes joined with colons. -/
def macText (bytes : List UInt8) : Text := ":".toList.intercalate (bytes.map twoDigits)

/-- What `strtoul` and cJSON make of a digit. -/
theorem digitChar_reads : ∀ d < 16, xdigit d.digitChar = some d ∧ isSpace d.digitChar = false ∧
    d.digitChar ≠ '-' ∧ d.digitChar ≠ '+' ∧ d.digitChar ≠ 'x' ∧ d.digitChar ≠ 'X' ∧
    Char.ofUInt8 d.digitChar.toUInt8 = d.digitChar ∧ d.digitChar.toUInt8 ≠ 0 := by
  decide

/-- A text without a sign. -/
theorem sign_of_ne {c : Char} {t : Text} (hminus : c ≠ '-') (hplus : c ≠ '+') :
    sign (c :: t) = (false, c :: t) := by
  rw [sign]
  · intro cs he
    exact hminus (List.cons.inj he).1
  · intro cs he
    exact hplus (List.cons.inj he).1

/-- A text without `0x`. -/
theorem skip0x_of_ne {c d : Char} {t : Text} (hx : d ≠ 'x') (hX : d ≠ 'X') :
    skip0x (c :: d :: t) = c :: d :: t := by
  rw [skip0x]
  · intro cs he
    exact hx (List.cons.inj (List.cons.inj he).2).1
  · intro cs he
    exact hX (List.cons.inj (List.cons.inj he).2).1

/-- A digit is read. -/
theorem xdigits_digit {c : Char} {d : Nat} (n : Nat) (t : Text) (h : xdigit c = some d) :
    xdigits n (c :: t) = xdigits (16 * n + d) t := by
  rw [xdigits, h]

/-- The number ends at anything else. -/
theorem xdigits_stop {c : Char} (n : Nat) (t : Text) (h : xdigit c = none) :
    xdigits n (c :: t) = (n, c :: t) := by
  rw [xdigits, h]

/-- One conversion reads the two digits of a byte, up to a colon or the end. -/
theorem scanX_twoDigits (b : UInt8) {rest : Text} (hrest : rest = [] ∨ ∃ t, rest = ':' :: t) :
    scanX (twoDigits b ++ rest) = some (UInt32.ofNat b.toNat, rest) := by
  have hb := b.toNat_lt
  obtain ⟨hval, hspace, hminus, hplus, -⟩ := digitChar_reads (b.toNat / 16) (by omega)
  obtain ⟨hval', -, -, -, hx, hX, -⟩ := digitChar_reads (b.toNat % 16) (by omega)
  have hdrop : (twoDigits b ++ rest).dropWhile isSpace = twoDigits b ++ rest := by
    show List.dropWhile isSpace ((b.toNat / 16).digitChar :: _) = _
    rw [List.dropWhile_cons, hspace]
    rfl
  have hsign : sign (twoDigits b ++ rest) = (false, twoDigits b ++ rest) := sign_of_ne hminus hplus
  have hskip : skip0x (twoDigits b ++ rest) = twoDigits b ++ rest := skip0x_of_ne hx hX
  have hstop : ∀ n, xdigits n rest = (n, rest) := by
    intro n
    rcases hrest with rfl | ⟨t, rfl⟩
    · rfl
    · exact xdigits_stop n t (by decide)
  have hread : xdigits 0 (twoDigits b ++ rest) = (b.toNat, rest) := by
    show xdigits 0 ((b.toNat / 16).digitChar :: (b.toNat % 16).digitChar :: rest) = _
    rw [xdigits_digit _ _ hval, xdigits_digit _ _ hval', hstop,
      show 16 * (16 * 0 + b.toNat / 16) + b.toNat % 16 = b.toNat by omega]
  rw [scanX]
  simp only [hdrop, hsign, hskip]
  show (if (xdigit (b.toNat / 16).digitChar).isSome then _ else none) = _
  have hdigit : (xdigit (b.toNat / 16).digitChar).isSome = true := by
    rw [hval]
    rfl
  rw [if_pos hdigit, hread, show min b.toNat (2 ^ 64 - 1) = b.toNat by omega]
  rfl

/-- Two digits, a colon, and the rest. -/
theorem macText_cons (b c : UInt8) (bytes : List UInt8) :
    macText (b :: c :: bytes) = twoDigits b ++ ':' :: macText (c :: bytes) := by
  rw [macText, List.map_cons, List.map_cons, List.intercalate_cons_cons]
  rfl

/-- **`sscanf` reads back what `%{mac}` writes.** -/
theorem scanMac_macText : ∀ bytes : List UInt8,
    scanMac bytes.length (macText bytes) = bytes.map fun b => UInt32.ofNat b.toNat
  | [] => rfl
  | [b] => by
      have hone : macText [b] = twoDigits b ++ [] := by
        rw [macText, List.map_cons, List.map_nil, List.intercalate_singleton, List.append_nil]
      rw [hone, List.length_singleton, scanMac, scanX_twoDigits b (Or.inl rfl)]
      rfl
  | b :: c :: bytes => by
      rw [macText_cons, List.length_cons, scanMac,
        scanX_twoDigits b (Or.inr ⟨_, rfl⟩)]
      show _ :: scanMac (c :: bytes).length (macText (c :: bytes)) = _
      rw [scanMac_macText (c :: bytes)]
      rfl

/-- The text of a mac is made of characters other than NUL that fit in a byte. -/
theorem macText_ascii (bytes : List UInt8) :
    ∀ c ∈ macText bytes, Char.ofUInt8 c.toUInt8 = c ∧ c.toUInt8 ≠ 0 := by
  have htwo : ∀ b : UInt8, ∀ c ∈ twoDigits b, Char.ofUInt8 c.toUInt8 = c ∧ c.toUInt8 ≠ 0 := by
    intro b c hc
    have hb := b.toNat_lt
    rcases List.mem_cons.mp hc with rfl | hc
    · exact (digitChar_reads _ (by omega)).2.2.2.2.2.2
    · rcases List.mem_cons.mp hc with rfl | hc
      · exact (digitChar_reads _ (by omega)).2.2.2.2.2.2
      · exact absurd hc List.not_mem_nil
  induction bytes with
  | nil => exact fun c hc => absurd hc List.not_mem_nil
  | cons b bytes ih =>
      cases bytes with
      | nil =>
          intro c hc
          rw [macText, List.map_cons, List.map_nil, List.intercalate_singleton] at hc
          exact htwo b c hc
      | cons d bytes =>
          intro c hc
          rw [macText_cons] at hc
          rcases List.mem_append.mp hc with hc | hc
          · exact htwo b c hc
          · rcases List.mem_cons.mp hc with rfl | hc
            · decide
            · exact ih c hc

/-! ## Looking up what was written, by the names of the table -/

/-- A name as a comparison that ignores case sees it. -/
def foldCase (t : Text) : Text := t.map Char.toLower

/-- Letters, digits and blanks: neither a format directive nor a path with steps. -/
def PlainPath (t : Text) : Prop := t.all (fun c => c.isAlphanum || c == ' ') = true

instance (t : Text) : Decidable (PlainPath t) := inferInstanceAs (Decidable (_ = true))

/-- `cjson_util_lookup_string` finds the string under a name that no other member has, whether or
    not the names are compared with regard to case, and fails on a name that no member has. -/
structure LookupString {J : Type} (object : List (Text × JsonValue) → J)
    (lookupString : J → Text → Option (List UInt8)) : Prop where
  found : ∀ members name value, PlainPath name → (name, value) ∈ members →
    (∀ m ∈ members, foldCase m.1 = foldCase name → m = (name, value)) →
    lookupString (object members) name = value.string?
  missing : ∀ members path, PlainPath path → (∀ m ∈ members, foldCase m.1 ≠ foldCase path) →
    lookupString (object members) path = none

/-- The names of the members, which do not depend on the data. -/
def showNames : List Text :=
  [ "Product Name".toList, "Part Number".toList, "Serial Number".toList, "MAC".toList,
    "Manufacturer".toList, "Manufacture Date".toList, "Vendor".toList, "Platform Name".toList,
    "Label Revision".toList, "Country Code".toList, "Diag Version".toList, "Service Tag".toList,
    "ONIE Version".toList, "Device Version".toList, "CRC".toList ]

/-- The name that the writer's list and `onlplib.x` both give a string member. -/
def OnieString.name : OnieString → Text
  | productName => "Product Name".toList
  | partNumber => "Part Number".toList
  | serialNumber => "Serial Number".toList
  | manufactureDate => "Manufacture Date".toList
  | labelRevision => "Label Revision".toList
  | platformName => "Platform Name".toList
  | onieVersion => "ONIE Version".toList
  | manufacturer => "Manufacturer".toList
  | countryCode => "Country Code".toList
  | vendor => "Vendor".toList
  | serviceTag => "Service Tag".toList
  | diagVersion => "Diag Version".toList

/-- The place of a string member in the writer's list. -/
def OnieString.line : OnieString → Nat
  | productName => 0
  | partNumber => 1
  | serialNumber => 2
  | manufacturer => 4
  | manufactureDate => 5
  | vendor => 6
  | platformName => 7
  | labelRevision => 8
  | countryCode => 9
  | diagVersion => 10
  | serviceTag => 11
  | onieVersion => 12

/-- The names of the members do not depend on the info. -/
theorem showMembers_names (aimMac : Block 6 → Text) (info : OnieInfo) :
    (showMembers aimMac info).map Prod.fst = showNames := rfl

/-- A text without a NUL is the whole string. -/
theorem text_ofValue {t : List UInt8} (h : ∀ b ∈ t, b ≠ 0) : (CString.ofValue t).text = t := by
  have hall : ∀ b ∈ t, decide (b ≠ 0) = true := fun b hb => decide_eq_true (h b hb)
  show (t ++ [0]).takeWhile _ = t
  rw [List.takeWhile_append_of_pos hall]
  exact List.append_nil t

/-- No NUL is in the text of a string. -/
theorem ne_zero_of_mem_text {s : CString} {b : UInt8} (h : b ∈ s.text) : b ≠ 0 :=
  of_decide_eq_true (List.mem_takeWhile_imp (p := fun b => decide (b ≠ 0)) h)

section

variable {J : Type} {object : List (Text × JsonValue) → J}
variable {lookupString : J → Text → Option (List UInt8)} {aimMac : Block 6 → Text}

/-- The name of an entry finds the member written under it. -/
theorem lookupEntry_written (hlookup : LookupString object lookupString) (info : OnieInfo)
    {name : Text} {code : Nat} {value : JsonValue} (hmem : (name, value) ∈ showMembers aimMac info)
    (hname : PlainPath name) (hcode : PlainPath (codePath code))
    (hfree : foldCase (codePath code) ∉ showNames.map foldCase) :
    lookupEntry lookupString (object (showMembers aimMac info)) name code =
      value.string?.map CString.ofValue := by
  have hnodup : ((showMembers aimMac info).map fun m => foldCase m.1).Nodup := by
    have hmap : (showMembers aimMac info).map (fun m => foldCase m.1) = showNames.map foldCase := by
      rw [← showMembers_names aimMac info, List.map_map]
      rfl
    rw [hmap]
    decide
  have hmissing := hlookup.missing (showMembers aimMac info) (codePath code) hcode
    (fun m hm he => hfree (he ▸ List.mem_map_of_mem (List.mem_map_of_mem (f := Prod.fst) hm)))
  have hfound := hlookup.found (showMembers aimMac info) name value hname hmem
    (fun m hm he => List.inj_on_of_nodup_map hnodup hm hmem he)
  rw [lookupEntry, hmissing, hfound]

/-- An entry whose name was not written finds nothing. -/
theorem lookupEntry_absent (hlookup : LookupString object lookupString) (info : OnieInfo)
    {name : Text} {code : Nat} (hname : PlainPath name) (hcode : PlainPath (codePath code))
    (hfree : foldCase (codePath code) ∉ showNames.map foldCase)
    (habsent : foldCase name ∉ showNames.map foldCase) :
    lookupEntry lookupString (object (showMembers aimMac info)) name code = none := by
  have hmem : ∀ m ∈ showMembers aimMac info, foldCase m.1 ∈ showNames.map foldCase :=
    fun m hm => List.mem_map_of_mem (List.mem_map_of_mem (f := Prod.fst) hm)
  have hmissing := hlookup.missing (showMembers aimMac info) (codePath code) hcode
    (fun m hm he => hfree (he ▸ hmem m hm))
  have hnone := hlookup.missing (showMembers aimMac info) name hname
    (fun m hm he => habsent (he ▸ hmem m hm))
  rw [lookupEntry, hmissing, hnone]
  rfl

/-- The reader takes a string member from the name and the code of its table line. -/
theorem readEntries_strings (cj : J) (member : OnieString) :
    (onlplibX.foldl (readEntry lookupString cj) OnieInfo.zero).strings member =
      lookupEntry lookupString cj member.name member.code.toNat := by
  cases member <;> rfl

/-- The address is read from its member alone. -/
theorem readEntries_mac (cj : J) : (onlplibX.foldl (readEntry lookupString cj) OnieInfo.zero).mac =
    match lookupEntry lookupString cj "MAC".toList 0x24 with
      | some str => Block.copy 6 ((scanMac 6 str.chars).map UInt32.toUInt8)
      | none => OnieInfo.zero.mac :=
  rfl

/-- A string member is read back as its own text. -/
theorem read_string (hlookup : LookupString object lookupString) (info : OnieInfo)
    (member : OnieString) :
    (lookupEntry lookupString (object (showMembers aimMac info)) member.name
      member.code.toNat).map CString.text = (info.strings member).map CString.text := by
  have hname : ∀ member : OnieString, PlainPath member.name ∧
      PlainPath (codePath member.code.toNat) ∧
      foldCase (codePath member.code.toNat) ∉ showNames.map foldCase := by
    intro member
    cases member <;> decide
  have hmem : (member.name, stringOrNull (info.strings member)) ∈ showMembers aimMac info := by
    have hline : (showMembers aimMac info)[member.line]? = some (addS info member.name member) := by
      cases member <;> rfl
    exact List.mem_of_getElem? hline
  obtain ⟨hplain, hcode, hfree⟩ := hname member
  rw [lookupEntry_written hlookup info hmem hplain hcode hfree]
  rcases info.strings member with _ | s
  · rfl
  · show some (CString.ofValue s.text).text = some s.text
    rw [text_ofValue fun b hb => ne_zero_of_mem_text hb]

/-- A byte is a byte in 32 bits too. -/
theorem uint8_of_uint32 (b : UInt8) : (UInt32.ofNat b.toNat).toUInt8 = b := by
  have hb := b.toNat_lt
  refine UInt8.toNat_inj.mp ?_
  rw [UInt32.toNat_toUInt8, UInt32.toNat_ofNat_of_lt' (Nat.lt_trans hb (by decide))]
  exact Nat.mod_eq_of_lt hb

/-- The mac is read back. -/
theorem read_mac (hlookup : LookupString object lookupString)
    (hmac : ∀ mac, aimMac mac = macText mac.val) (info : OnieInfo) :
    (onlplibX.foldl (readEntry lookupString (object (showMembers aimMac info))) OnieInfo.zero).mac =
      info.mac := by
  have hmem : ("MAC".toList, JsonValue.string (ascii (aimMac info.mac))) ∈
      showMembers aimMac info :=
    List.mem_of_getElem? (i := 3) rfl
  have hchars : ∀ c ∈ macText info.mac.val, Char.ofUInt8 c.toUInt8 = c ∧ c.toUInt8 ≠ 0 :=
    macText_ascii _
  have htext : (CString.ofValue (ascii (aimMac info.mac))).chars = macText info.mac.val := by
    rw [hmac, CString.chars, text_ofValue, ascii, List.map_map]
    · exact (List.map_congr_left fun c hc => (hchars c hc).1).trans (List.map_id _)
    · intro b hb
      obtain ⟨c, hc, rfl⟩ := List.mem_map.mp hb
      exact (hchars c hc).2
  have hbytes : ∀ bytes : List UInt8,
      (bytes.map fun b => UInt32.ofNat b.toNat).map UInt32.toUInt8 = bytes := by
    intro bytes
    rw [List.map_map]
    exact (List.map_congr_left fun b _ => uint8_of_uint32 b).trans (List.map_id _)
  have hscan := scanMac_macText info.mac.val
  rw [info.mac.property] at hscan
  rw [readEntries_mac, lookupEntry_written hlookup info hmem (by decide)
    (by decide) (by decide)]
  show Block.copy 6 ((scanMac 6 (CString.ofValue (ascii (aimMac info.mac))).chars).map _) = info.mac
  rw [htext, hscan, hbytes]
  refine Subtype.ext ?_
  show (info.mac.val ++ List.replicate 6 0).take 6 = info.mac.val
  rw [List.take_append_of_le_length (by rw [info.mac.property]), List.take_of_length_le]
  rw [info.mac.property]

/-- A number is not a string: `Device Version` is not found. -/
theorem read_deviceVersion (hlookup : LookupString object lookupString) (info : OnieInfo) :
    (onlplibX.foldl (readEntry lookupString (object (showMembers aimMac info)))
      OnieInfo.zero).deviceVersion = 0 := by
  have hmem : addN "Device Version".toList info.deviceVersion.toNat ∈ showMembers aimMac info :=
    List.mem_of_getElem? (i := 13) rfl
  have hfound : lookupEntry lookupString (object (showMembers aimMac info))
      "Device Version".toList 0x26 =
      (addN "Device Version".toList info.deviceVersion.toNat).2.string?.map CString.ofValue :=
    lookupEntry_written hlookup info hmem (by decide) (by decide) (by decide)
  show (match lookupEntry lookupString _ "Device Version".toList 0x26 with
    | some v => UInt8.ofInt (atoi v.chars)
    | none => 0) = 0
  rw [hfound]
  rfl

/-- `MAC Range` is not written. -/
theorem read_macRange (hlookup : LookupString object lookupString) (info : OnieInfo) :
    (onlplibX.foldl (readEntry lookupString (object (showMembers aimMac info)))
      OnieInfo.zero).macRange = 0 := by
  have hfound : lookupEntry lookupString (object (showMembers aimMac info))
      "MAC Range".toList 0x2A = none :=
    lookupEntry_absent hlookup info (by decide) (by decide) (by decide)
      (by decide)
  show (match lookupEntry lookupString _ "MAC Range".toList 0x2A with
    | some v => UInt16.ofInt (atoi v.chars)
    | none => 0) = 0
  rw [hfound]

end

/-! ## The round trip: what is lost, and when nothing is -/

/-- Two records agree on what the JSON form is for. -/
structure SameData (info info' : OnieInfo) : Prop where
  strings : ∀ member,
    (info'.strings member).map CString.text = (info.strings member).map CString.text
  mac : info'.mac = info.mac
  macRange : info'.macRange = info.macRange
  deviceVersion : info'.deviceVersion = info.deviceVersion

section

variable {J : Type} (object : List (Text × JsonValue) → J) (cJSONPrint : J → List UInt8)
variable (parseFile : List UInt8 → Except Int J) (lookupString : J → Text → Option (List UInt8))
variable (aimMac : Block 6 → Text)

/-- Written with `onlp_onie_show_json` and read with `onlp_onie_read_json`, the data comes back. -/
def JsonRoundTrips (info : OnieInfo) : Prop :=
  ∃ info', onlpOnieReadJson parseFile lookupString (onlpOnieShowJson aimMac object cJSONPrint info) =
    (0, info') ∧ SameData info info'

variable {object cJSONPrint parseFile lookupString aimMac}

/-- Reading what was shown reads the members that were shown. -/
theorem read_show {info : OnieInfo}
    (hparse : parseFile (cJSONPrint (object (showMembers aimMac info)) ++ ascii "\n".toList) =
      .ok (object (showMembers aimMac info))) :
    onlpOnieReadJson parseFile lookupString (onlpOnieShowJson aimMac object cJSONPrint info) =
      (0, onlplibX.foldl (readEntry lookupString (object (showMembers aimMac info)))
        OnieInfo.zero) := by
  rw [onlpOnieReadJson, onlpOnieShowJson, hparse]

/-- **The data comes back exactly when** there is neither a mac range nor a device version in it. -/
theorem json_round_trip_iff (info : OnieInfo)
    (hparse : parseFile (cJSONPrint (object (showMembers aimMac info)) ++ ascii "\n".toList) =
      .ok (object (showMembers aimMac info)))
    (hlookup : LookupString object lookupString)
    (hmac : ∀ mac, aimMac mac = macText mac.val) :
    JsonRoundTrips object cJSONPrint parseFile lookupString aimMac info ↔
      info.macRange = 0 ∧ info.deviceVersion = 0 := by
  constructor
  · rintro ⟨info', hread, hsame⟩
    rw [read_show hparse] at hread
    obtain rfl := (Prod.mk.inj hread).2
    have hrange := hsame.macRange
    have hversion := hsame.deviceVersion
    rw [read_macRange hlookup info] at hrange
    rw [read_deviceVersion hlookup info] at hversion
    exact ⟨hrange.symm, hversion.symm⟩
  · rintro ⟨hrange, hversion⟩
    refine ⟨_, read_show hparse, ?_, read_mac hlookup hmac info, ?_, ?_⟩
    · intro member
      rw [readEntries_strings]
      exact read_string hlookup info member
    · rw [read_macRange hlookup info, hrange]
    · rw [read_deviceVersion hlookup info, hversion]

end

/-! ## Two records -/

/-- A member as `cJSON_Print` prints it, for strings in which nothing is escaped. -/
def printMember (m : Text × JsonValue) : List UInt8 :=
  ascii ("\t\"".toList ++ m.1 ++ "\":\t".toList) ++ match m.2 with
    | .null => ascii "null".toList
    | .number n => ascii (strInt n)
    | .string s => ascii "\"".toList ++ s ++ ascii "\"".toList

/-- How the example prints an object. -/
def printObject (members : List (Text × JsonValue)) : List UInt8 :=
  ascii "\x7b\n".toList ++ (ascii ",\n".toList).intercalate (members.map printMember) ++
    ascii "\n\x7d".toList

/-- A parser of the text of one object. -/
def parseObject (members : List (Text × JsonValue)) (file : List UInt8) :
    Except Int (List (Text × JsonValue)) :=
  if file = printObject members ++ ascii "\n".toList then .ok members else .error (-1)

/-- The lookup of cJSON: the first member of the name, whatever its case. -/
def lookupFirst (members : List (Text × JsonValue)) (path : Text) : Option (List UInt8) :=
  (members.find? fun m => foldCase m.1 == foldCase path).bind fun m => m.2.string?

/-- The example looks members up as cJSON does. -/
theorem lookupFirst_spec : LookupString id lookupFirst where
  found := by
    intro members name value _ hmem huniq
    rw [lookupFirst, id]
    cases hfind : members.find? fun m => foldCase m.1 == foldCase name with
    | none =>
        have hnone := List.find?_eq_none.mp hfind _ hmem
        simp at hnone
    | some m =>
        have hname : (foldCase m.1 == foldCase name) = true :=
          List.find?_some (p := fun m : Text × JsonValue => foldCase m.1 == foldCase name) hfind
        have heq : m = (name, value) :=
          huniq m (List.mem_of_find?_eq_some hfind) (beq_iff_eq.mp hname)
        rw [heq]
        rfl
  missing := by
    intro members path _ hfree
    rw [lookupFirst, id, List.find?_eq_none.mpr]
    · rfl
    · intro m hm he
      exact hfree m hm (beq_iff_eq.mp he)

/-- A switch with a product name, a serial number and a mac. -/
def sampleInfo : OnieInfo := { OnieInfo.zero with
  strings := fun member => match member with
    | .productName => some (CString.ofValue (ascii "AS4610-54".toList))
    | .serialNumber => some (CString.ofValue (ascii "00e04c".toList))
    | _ => none
  mac := ⟨[0x00, 0xe0, 0x4c, 0x12, 0x34, 0xff], rfl⟩ }

/-- The record comes back. -/
theorem sampleInfo_round_trip :
    JsonRoundTrips id printObject (parseObject (showMembers (fun mac => macText mac.val) sampleInfo))
      lookupFirst (fun mac => macText mac.val) sampleInfo := by
  refine (json_round_trip_iff sampleInfo ?_ lookupFirst_spec fun _ => rfl).mpr ⟨rfl, rfl⟩
  exact if_pos rfl

/-- The same switch with a device version. -/
def versionedInfo : OnieInfo := { sampleInfo with deviceVersion := 3 }

/-- The device version is written as a number, and read back as zero. -/
theorem versionedInfo_lost :
    ¬ JsonRoundTrips id printObject
      (parseObject (showMembers (fun mac => macText mac.val) versionedInfo)) lookupFirst
      (fun mac => macText mac.val) versionedInfo := by
  rintro ⟨info', hread, hsame⟩
  rw [read_show (if_pos rfl)] at hread
  obtain rfl := (Prod.mk.inj hread).2
  have hversion := hsame.deviceVersion
  rw [read_deviceVersion lookupFirst_spec versionedInfo] at hversion
  exact absurd hversion (by decide)

end DentOS.Onie
