/-
  The status and the header of fans, PSUs and thermal sensors (onlp, fan.c, psu.c, thermal.c).

  A driver need not have `status_get` and `hdr_get`: where it reports one as unsupported, the module
  asks the driver for all of the information and copies the field out.  The public `info_get` asks the
  driver for the same, so the two should agree (`Agrees`): the code, the field where there is one, and
  nothing written where there is none.

  Six functions do this, all in the same way (`fallbackGet`), and none of them as `info_get` does.  They
  do not look at the type of the OID, they copy the field out of a structure on the stack whether the
  driver has filled it or not, and they know nothing of the overrides.  So a failure of the driver, or an
  OID of another type, overwrites the caller's value with what was on the stack.  What is left
  (`Settled`): the OID has the type, the driver succeeds and stores the field, and no override gives
  another value (`agrees_iff`, and `fallbacks_agree_iff` for the six).
-/
import Mathlib.Logic.Nontrivial.Basic
import DentOS.Onlp.Oids

namespace DentOS.Onlp

open Snmp (Oid oidTypeGet oidIdGet)

/-- `ONLP_STATUS_E_UNSUPPORTED` and `ONLP_STATUS_E_PARAM`. -/
def statusUnsupported : Int := -10

/-! ## The structures that the functions fill -/

/-- `onlp_oid_hdr_t`, all of it. -/
structure Hdr extends OidHdr where
  description : List UInt8

/-- `onlp_fan_info_t`. -/
structure FanInfo where
  hdr : Hdr
  status : UInt32
  caps : UInt32
  rpm : Int32
  percentage : Int32
  mode : Int32
  model : List UInt8
  serial : List UInt8

/-- `onlp_psu_info_t`. -/
structure PsuInfo where
  hdr : Hdr
  model : List UInt8
  serial : List UInt8
  status : UInt32
  caps : UInt32
  mvin : Int32
  mvout : Int32
  miin : Int32
  miout : Int32
  mpin : Int32
  mpout : Int32

/-- `onlp_thermal_info_t`, with its three thresholds. -/
structure ThermalInfo where
  hdr : Hdr
  status : UInt32
  caps : UInt32
  mcelsius : Int32
  warning : Int32
  error : Int32
  shutdown : Int32

/-- A platform's functions for one kind of object.  Each takes what the caller's buffer holds, and leaves
    something in it, next to its code. -/
structure Driver (Info : Type) where
  /-- The function for the status. -/
  statusGet : Oid → UInt32 → Int × UInt32
  /-- The function for the header. -/
  hdrGet : Oid → Hdr → Int × Hdr
  /-- The function for all of it. -/
  infoGet : Oid → Info → Int × Info

/-! ## The overrides -/

/-- An object of the configuration file: the integer under a key, or the code of the failed lookup. -/
abbrev Entry := String → Except Int Int32

/-- The configuration file: the object at a path. -/
abbrev Json := String → Option Entry

/-- Integers of an entry stored one after another, each under its key. -/
def lookupInts {Info : Type} (data : Entry) (errorcheck : Bool) :
    List (String × (Int32 → Info → Info)) → Info → Int × Info
  | [], info => (0, info)
  | (key, store) :: fields, info =>
      match data key with
      | .ok v => lookupInts data errorcheck fields (store v info)
      | .error e => if errorcheck then (e, info) else lookupInts data errorcheck fields info

def statusParam : Int := -14

/-- `onlp_fani_info_from_json__`. -/
def onlpFaniInfoFromJson (data : Option Entry) (fip : FanInfo) (errorcheck : Bool) : Int × FanInfo :=
  match data with
  | none => (if errorcheck then statusParam else 0, fip)
  | some data =>
      lookupInts data errorcheck
        [("status", fun v fip => { fip with status := v.toUInt32 }),
         ("caps", fun v fip => { fip with caps := v.toUInt32 }),
         ("rpm", fun v fip => { fip with rpm := v }),
         ("percentage", fun v fip => { fip with percentage := v }),
         ("mode", fun v fip => { fip with mode := v })] fip

/-- What an entry for a thermal sensor gives: its status, and a temperature. -/
def thermalFields : List (String × (Int32 → ThermalInfo × Int32 → ThermalInfo × Int32)) :=
  [("status", fun v i => ({ i.1 with status := v.toUInt32 }, i.2)),
   ("mcelsius", fun v i => (i.1, v))]

/-- `onlp_thermali_info_from_json__`.  The temperature comes through the variable `t`, which nobody sets
    before. -/
def onlpThermaliInfoFromJson (t : Int32) (data : Option Entry) (info : ThermalInfo)
    (errorcheck : Bool) : Int × ThermalInfo :=
  match data with
  | none => (if errorcheck then statusParam else 0, info)
  | some data =>
      let r := lookupInts data errorcheck thermalFields (info, t)
      if r.1 < 0 then (r.1, r.2.1) else (0, { r.2.1 with mcelsius := r.2.2 })

/-! ## The functions -/

/-- `ONLP_OID_IS_TYPE`. -/
def oidIsType (type : UInt32) (oid : Oid) : Bool := oidTypeGet oid == type

/-- `ONLP_OID_IS_FAN`, `ONLP_OID_IS_PSU` and `ONLP_OID_IS_THERMAL`. -/
def oidIsFan (oid : Oid) : Bool := oidIsType 3 oid
def oidIsPsu (oid : Oid) : Bool := oidIsType 4 oid
def oidIsThermal (oid : Oid) : Bool := oidIsType 2 oid

/-- A public `info_get`: `revise` is what is done to what the driver has stored. -/
def infoGetLocked {Info : Type} (D : Driver Info) (isType : Oid → Bool) (revise : Info → Info)
    (oid : Oid) (info : Info) : Int × Info :=
  if isType oid = false then (statusInvalid, info)
  else
    let r := D.infoGet oid info
    if 0 ≤ r.1 then (r.1, revise r.2) else r

/-- Approximate RPM based on a 10,000 RPM maximum. -/
def approximateRpm (fip : FanInfo) : FanInfo :=
  if fip.percentage ≠ 0 ∧ fip.rpm = 0 then { fip with rpm := fip.percentage * 100 } else fip

/-- The entry of a fan in the platform's JSON. -/
def fanEntry (json : Json) (oid : Oid) : Option Entry := json s!"overrides.fan.{oidIdGet oid}"

/-- `onlp_fan_info_get`: what the driver says, revised by the JSON. -/
def onlpFanInfoGet (D : Driver FanInfo) (json : Json) (oid : Oid) : FanInfo → Int × FanInfo :=
  infoGetLocked D oidIsFan
    (fun fip => approximateRpm (onlpFaniInfoFromJson (fanEntry json oid) fip false).2) oid

/-- `onlp_psu_info_get`. -/
def onlpPsuInfoGet (D : Driver PsuInfo) (oid : Oid) : PsuInfo → Int × PsuInfo :=
  infoGetLocked D oidIsPsu id oid

/-- The entry of a thermal sensor. -/
def thermalEntry (json : Json) (oid : Oid) : Option Entry := json s!"overrides.thermal.{oidIdGet oid}"

/-- `onlp_thermal_info_get`. -/
def onlpThermalInfoGet (D : Driver ThermalInfo) (json : Json) (t : Int32) (oid : Oid) :
    ThermalInfo → Int × ThermalInfo :=
  infoGetLocked D oidIsThermal
    (fun info => (onlpThermaliInfoFromJson t (thermalEntry json oid) info false).2) oid

/-- A public `status_get` or `hdr_get`: `stack` is the structure on its stack, `out` what the caller's
    output holds. -/
def fallbackGet {Info F : Type} (get : Oid → F → Int × F) (infoGet : Oid → Info → Int × Info)
    (field : Info → F) (oid : Oid) (stack : Info) (out : F) : Int × F :=
  let r := get oid out
  if 0 ≤ r.1 then r
  else if r.1 = statusUnsupported then
    let i := infoGet oid stack
    (i.1, field i.2)
  else r

/-- `onlp_fan_status_get`, and the functions like it: the driver's, or a field of its info. -/
def onlpFanStatusGet (D : Driver FanInfo) := fallbackGet D.statusGet D.infoGet FanInfo.status
def onlpFanHdrGet (D : Driver FanInfo) := fallbackGet D.hdrGet D.infoGet FanInfo.hdr
def onlpPsuStatusGet (D : Driver PsuInfo) := fallbackGet D.statusGet D.infoGet PsuInfo.status
def onlpPsuHdrGet (D : Driver PsuInfo) := fallbackGet D.hdrGet D.infoGet PsuInfo.hdr
def onlpThermalStatusGet (D : Driver ThermalInfo) :=
  fallbackGet D.statusGet D.infoGet ThermalInfo.status
def onlpThermalHdrGet (D : Driver ThermalInfo) := fallbackGet D.hdrGet D.infoGet ThermalInfo.hdr

/-! ## What they are for: a field is the same whether it is asked for alone or with the others -/

/-- **The query of a field agrees with the query of all**, whatever the buffers hold before: the same
    code, the same field where it succeeds, and the output untouched where it fails. -/
def Agrees {Info F : Type} (infoGet : Info → Int × Info) (get : Info → F → Int × F)
    (field : Info → F) : Prop :=
  ∀ caller stack out, (get stack out).1 = (infoGet caller).1 ∧
    (0 ≤ (infoGet caller).1 → (get stack out).2 = field (infoGet caller).2) ∧
    ((infoGet caller).1 < 0 → (get stack out).2 = out)

/-- The OID has the type, and the driver succeeds and stores a value in the field, whatever the structure
    held, that is `kept` by the overrides. -/
def Settled {Info F : Type} (D : Driver Info) (isType : Oid → Bool) (field : Info → F) (oid : Oid)
    (kept : F → Prop) : Prop :=
  isType oid = true ∧ ∃ rv v, 0 ≤ rv ∧
    (∀ info, (D.infoGet oid info).1 = rv ∧ field (D.infoGet oid info).2 = v) ∧ kept v

/-- The driver reports the query as unsupported. -/
def Unsupported {F : Type} (get : F → Int × F) : Prop := ∀ out, (get out).1 = statusUnsupported

/-- An override's status, if there is one, is this. -/
def Overridden (entry : Option Entry) (status : UInt32) : Prop :=
  ∀ data ∈ entry, ∀ v, data "status" = .ok v → v.toUInt32 = status

/-! ## One field -/

section

variable {Info F : Type} {D : Driver Info} {get : Oid → F → Int × F} {field : Info → F}
  {isType : Oid → Bool} {revise : Info → Info} {oid : Oid}

/-- Where the driver does not support the call, its info is asked for. -/
theorem fallbackGet_unsupported (h : Unsupported (get oid)) (stack : Info) (out : F) :
    fallbackGet get D.infoGet field oid stack out =
      ((D.infoGet oid stack).1, field (D.infoGet oid stack).2) := by
  have hneg : ¬ 0 ≤ (get oid out).1 := by
    rw [h out]
    decide
  show (if 0 ≤ (get oid out).1 then _ else if (get oid out).1 = statusUnsupported then _ else _) = _
  rw [if_neg hneg, if_pos (h out)]

/-- An OID of the type is asked for, and revised where the driver succeeds. -/
theorem infoGetLocked_type (h : isType oid = true) (info : Info) :
    infoGetLocked D isType revise oid info =
      if 0 ≤ (D.infoGet oid info).1 then ((D.infoGet oid info).1, revise (D.infoGet oid info).2)
      else D.infoGet oid info := by
  have hne : ¬ isType oid = false := by
    rw [h]
    decide
  rw [infoGetLocked, if_neg hne]

/-- What a fallback leaves in the output does not depend on what was there, so it does not leave every
    output alone. -/
theorem fallbackGet_overwrites [Nontrivial F] (D : Driver Info) (field : Info → F)
    (h : Unsupported (get oid)) (stack : Info) :
    ∃ out, (fallbackGet get D.infoGet field oid stack out).2 ≠ out := by
  obtain ⟨out, hout⟩ := exists_ne (field (D.infoGet oid stack).2)
  refine ⟨out, ?_⟩
  rw [fallbackGet_unsupported h]
  exact hout.symm

/-- A fallback that agrees has a query that succeeds: it overwrites its output either way. -/
theorem Agrees.succeeds [Nontrivial F] (h : Unsupported (get oid))
    (hagree : Agrees (infoGetLocked D isType revise oid) (fallbackGet get D.infoGet field oid) field)
    (stack : Info) : isType oid = true ∧ 0 ≤ (D.infoGet oid stack).1 := by
  have hsuccess : ¬ (infoGetLocked D isType revise oid stack).1 < 0 := by
    intro hneg
    obtain ⟨out, hout⟩ := fallbackGet_overwrites D field h stack
    exact hout ((hagree stack stack out).2.2 hneg)
  have htype : isType oid = true := by
    by_contra htype
    rw [infoGetLocked, if_pos (Bool.eq_false_iff.mpr htype)] at hsuccess
    exact hsuccess (show statusInvalid < 0 by decide)
  refine ⟨htype, ?_⟩
  by_contra hneg
  rw [infoGetLocked_type htype, if_neg hneg] at hsuccess
  exact hneg (Int.not_lt.mp hsuccess)

/-- **A fallback agrees** exactly where it is settled. -/
theorem agrees_iff [Nonempty Info] [Nontrivial F] (h : Unsupported (get oid)) {kept : F → Prop}
    (hkept : ∀ info, field (revise info) = field info ↔ kept (field info)) :
    Agrees (infoGetLocked D isType revise oid) (fallbackGet get D.infoGet field oid) field ↔
      Settled D isType field oid kept := by
  constructor
  · intro hagree
    obtain ⟨stack⟩ := ‹Nonempty Info›
    obtain ⟨htype, hpos⟩ := hagree.succeeds h stack
    have hinfo : infoGetLocked D isType revise oid stack =
        ((D.infoGet oid stack).1, revise (D.infoGet oid stack).2) := by
      rw [infoGetLocked_type htype, if_pos hpos]
    obtain ⟨out⟩ := (inferInstance : Nonempty F)
    -- The public query on one structure against the fallback on any other.
    have hall : ∀ info, (D.infoGet oid info).1 = (D.infoGet oid stack).1 ∧
        field (D.infoGet oid info).2 = field (revise (D.infoGet oid stack).2) := by
      intro info
      have hany := hagree stack info out
      rw [fallbackGet_unsupported h, hinfo] at hany
      exact ⟨hany.1, hany.2.1 hpos⟩
    refine ⟨htype, _, _, hpos, hall, ?_⟩
    have hrevised := (hall stack).2.symm
    rw [hrevised]
    exact (hkept _).mp hrevised
  · rintro ⟨htype, rv, v, hrv, hall, hv⟩ caller stack out
    have hcode := (hall caller).1
    have hrevised : field (revise (D.infoGet oid caller).2) = v := by
      have hfield := (hall caller).2
      rw [(hkept _).mpr (by rw [hfield]; exact hv), hfield]
    rw [fallbackGet_unsupported h, infoGetLocked_type htype, if_pos (by rw [hcode]; exact hrv)]
    refine ⟨by rw [hcode, (hall stack).1], fun _ => ?_, fun hneg => ?_⟩
    · rw [(hall stack).2, hrevised]
    · rw [hcode] at hneg
      exact absurd hrv (Int.not_le.mpr hneg)

end

/-! ## What the overrides keep of the fields beside them -/

/-- Looking up other fields leaves a field as it is, by induction on the fields. -/
theorem lookupInts_keeps {Info F : Type} {data : Entry} {errorcheck : Bool} (field : Info → F) :
    ∀ {fields : List (String × (Int32 → Info → Info))},
    (∀ f ∈ fields, ∀ v info, field (f.2 v info) = field info) → ∀ info,
    field (lookupInts data errorcheck fields info).2 = field info
  | [], _, _ => rfl
  | (key, store) :: fields, h, info => by
      have hrest : ∀ info, field (lookupInts data errorcheck fields info).2 = field info :=
        lookupInts_keeps field fun f hf => h f (List.mem_cons_of_mem _ hf)
      rw [lookupInts]
      split
      · rw [hrest]
        exact h _ List.mem_cons_self _ info
      · split
        · rfl
        · exact hrest info

/-- A field that only the first store writes, and writes with what `cast` makes of the integer. -/
theorem lookupInts_first {Info F : Type} {data : Entry} {key : String} {store : Int32 → Info → Info}
    {fields : List (String × (Int32 → Info → Info))} (field : Info → F) (cast : Int32 → F)
    (hstore : ∀ v info, field (store v info) = cast v)
    (h : ∀ f ∈ fields, ∀ v info, field (f.2 v info) = field info) (info : Info) :
    field (lookupInts data false ((key, store) :: fields) info).2 = field info ↔
      ∀ v, data key = .ok v → cast v = field info := by
  rw [lookupInts]
  cases hkey : data key with
  | ok v =>
      refine (Iff.of_eq (congrArg (· = _) ((lookupInts_keeps field h _).trans (hstore v info)))).trans ?_
      exact ⟨fun heq w hw => by cases hw; exact heq, fun hall => hall v rfl⟩
  | error e =>
      exact ⟨fun _ _ hv => (by cases hv), fun _ => lookupInts_keeps field h info⟩

/-- Without an entry nothing is overridden. -/
theorem overridden_none (status : UInt32) : Overridden none status := fun _ h => by cases h

/-- With an entry the status is overridden unless it has none or the same. -/
theorem overridden_some (data : Entry) (status : UInt32) :
    Overridden (some data) status ↔ ∀ v, data "status" = .ok v → v.toUInt32 = status :=
  ⟨fun h => h data rfl, fun h _ hdata => by cases hdata; exact h⟩

/-- The JSON leaves the header of a fan. -/
theorem onlpFaniInfoFromJson_hdr (entry : Option Entry) (fip : FanInfo) :
    (onlpFaniInfoFromJson entry fip false).2.hdr = fip.hdr := by
  cases entry with
  | none => rfl
  | some data => exact lookupInts_keeps FanInfo.hdr (by simp) fip

/-- The JSON leaves the status of a fan exactly where that is not overridden. -/
theorem onlpFaniInfoFromJson_status (entry : Option Entry) (fip : FanInfo) :
    (onlpFaniInfoFromJson entry fip false).2.status = fip.status ↔ Overridden entry fip.status := by
  cases entry with
  | none => exact ⟨fun _ => overridden_none fip.status, fun _ => rfl⟩
  | some data =>
      rw [overridden_some]
      exact lookupInts_first FanInfo.status Int32.toUInt32 (fun _ _ => rfl) (by simp) fip

/-- The JSON leaves the header of a sensor. -/
theorem onlpThermaliInfoFromJson_hdr (t : Int32) (entry : Option Entry) (info : ThermalInfo) :
    (onlpThermaliInfoFromJson t entry info false).2.hdr = info.hdr := by
  cases entry with
  | none => rfl
  | some data =>
      have hkeeps : (lookupInts data false thermalFields (info, t)).2.1.hdr = info.hdr :=
        lookupInts_keeps (fun i : ThermalInfo × Int32 => i.1.hdr) (by simp [thermalFields]) (info, t)
      rw [onlpThermaliInfoFromJson]
      dsimp only
      split <;> exact hkeeps

/-- The JSON leaves the status of a sensor exactly where that is not overridden. -/
theorem onlpThermaliInfoFromJson_status (t : Int32) (entry : Option Entry) (info : ThermalInfo) :
    (onlpThermaliInfoFromJson t entry info false).2.status = info.status ↔
      Overridden entry info.status := by
  cases entry with
  | none => exact ⟨fun _ => overridden_none info.status, fun _ => rfl⟩
  | some data =>
      have hfirst : (lookupInts data false thermalFields (info, t)).2.1.status = info.status ↔
          ∀ v, data "status" = .ok v → v.toUInt32 = info.status :=
        lookupInts_first (fun i : ThermalInfo × Int32 => i.1.status) Int32.toUInt32 (fun _ _ => rfl)
          (by simp) (info, t)
      rw [overridden_some, ← hfirst, onlpThermaliInfoFromJson]
      dsimp only
      split <;> rfl

/-- The approximation leaves the header. -/
theorem approximateRpm_hdr (fip : FanInfo) : (approximateRpm fip).hdr = fip.hdr := by
  rw [approximateRpm]
  split <;> rfl

/-- The approximation leaves the status. -/
theorem approximateRpm_status (fip : FanInfo) : (approximateRpm fip).status = fip.status := by
  rw [approximateRpm]
  split <;> rfl

/-! ## The six functions, each with its condition -/

/-- An empty header with a description. -/
def describedHdr (c : UInt8) : Hdr := ⟨⟨0, 0, []⟩, [c]⟩

instance nontrivialUInt32 : Nontrivial UInt32 := ⟨0, 1, by decide⟩
instance : Nontrivial Hdr := ⟨describedHdr 0, describedHdr 1, fun h => by cases h⟩
instance : Nonempty FanInfo := ⟨describedHdr 0, 0, 0, 0, 0, 0, [], []⟩
instance : Nonempty PsuInfo := ⟨describedHdr 0, [], [], 0, 0, 0, 0, 0, 0, 0, 0⟩
instance : Nonempty ThermalInfo := ⟨describedHdr 0, 0, 0, 0, 0, 0, 0⟩

/-- **The fallbacks of fans, PSUs and thermal sensors** agree with the public `info_get` exactly where
    they are settled.  Overrides matter for the status of fans and thermal sensors only. -/
theorem fallbacks_agree_iff (fan : Driver FanInfo) (psu : Driver PsuInfo) (thermal : Driver ThermalInfo)
    (json : Json) (t : Int32) (oid : Oid) :
    (Unsupported (fan.statusGet oid) →
      (Agrees (onlpFanInfoGet fan json oid) (onlpFanStatusGet fan oid) FanInfo.status ↔
        Settled fan oidIsFan FanInfo.status oid (Overridden (fanEntry json oid)))) ∧
    (Unsupported (fan.hdrGet oid) →
      (Agrees (onlpFanInfoGet fan json oid) (onlpFanHdrGet fan oid) FanInfo.hdr ↔
        Settled fan oidIsFan FanInfo.hdr oid fun _ => True)) ∧
    (Unsupported (psu.statusGet oid) →
      (Agrees (onlpPsuInfoGet psu oid) (onlpPsuStatusGet psu oid) PsuInfo.status ↔
        Settled psu oidIsPsu PsuInfo.status oid fun _ => True)) ∧
    (Unsupported (psu.hdrGet oid) →
      (Agrees (onlpPsuInfoGet psu oid) (onlpPsuHdrGet psu oid) PsuInfo.hdr ↔
        Settled psu oidIsPsu PsuInfo.hdr oid fun _ => True)) ∧
    (Unsupported (thermal.statusGet oid) →
      (Agrees (onlpThermalInfoGet thermal json t oid) (onlpThermalStatusGet thermal oid)
          ThermalInfo.status ↔
        Settled thermal oidIsThermal ThermalInfo.status oid (Overridden (thermalEntry json oid)))) ∧
    (Unsupported (thermal.hdrGet oid) →
      (Agrees (onlpThermalInfoGet thermal json t oid) (onlpThermalHdrGet thermal oid) ThermalInfo.hdr ↔
        Settled thermal oidIsThermal ThermalInfo.hdr oid fun _ => True)) := by
  refine ⟨fun h => agrees_iff h fun fip => ?_, fun h => agrees_iff h fun fip => ?_,
    fun h => agrees_iff h fun _ => iff_of_true rfl trivial,
    fun h => agrees_iff h fun _ => iff_of_true rfl trivial,
    fun h => agrees_iff h fun info => ?_, fun h => agrees_iff h fun info => ?_⟩
  · rw [approximateRpm_status]
    exact onlpFaniInfoFromJson_status _ fip
  · rw [approximateRpm_hdr]
    exact iff_of_true (onlpFaniInfoFromJson_hdr _ fip) trivial
  · exact onlpThermaliInfoFromJson_status t _ info
  · exact iff_of_true (onlpThermaliInfoFromJson_hdr t _ info) trivial

/-- A fan driver without `status_get` and `hdr_get`, whose `info_get` has a code. -/
def infoOnly (rv : Int) : Driver FanInfo where
  statusGet _ out := (statusUnsupported, out)
  hdrGet _ out := (statusUnsupported, out)
  infoGet _ info := (rv, if 0 ≤ rv then { info with status := 1 } else info)

/-- A driver that supports nothing. -/
def noneSuch (Info : Type) : Driver Info where
  statusGet _ out := (-1, out)
  hdrGet _ out := (-1, out)
  infoGet _ info := (-1, info)

/-- A fan without an entry. -/
theorem fallbacks_agree_fan :
    Agrees (onlpFanInfoGet (infoOnly 0) (fun _ => none) 0x3000001)
      (onlpFanStatusGet (infoOnly 0) 0x3000001) FanInfo.status :=
  ((fallbacks_agree_iff (infoOnly 0) (noneSuch PsuInfo) (noneSuch ThermalInfo) (fun _ => none) 0
    0x3000001).1
    (fun _ => rfl)).mpr
    ⟨by decide, 0, 1, by decide, fun _ => ⟨rfl, rfl⟩, overridden_none 1⟩

/-- A driver that fails: what was on the stack is handed out as the status. -/
theorem fallbacks_stack : ¬ ∀ (fan : Driver FanInfo) (json : Json) (oid : Oid),
    Unsupported (fan.statusGet oid) →
    Agrees (onlpFanInfoGet fan json oid) (onlpFanStatusGet fan oid) FanInfo.status := by
  intro h
  let stack : FanInfo := ⟨describedHdr 0, 7, 0, 0, 0, 0, [], []⟩
  have hagree := h (infoOnly (-1)) (fun _ => none) 0x3000001 (fun _ => rfl) stack stack 0
  exact absurd (hagree.2.2 (by decide)) (by decide)

end DentOS.Onlp
