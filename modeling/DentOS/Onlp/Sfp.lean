/-
  Ports on their way to the SFP driver (onlp, sfp.c).

  The functions of the SFP module take the port numbers of the user.  `ONLP_SFP_PORT_VALIDATE_AND_MAP`
  refuses a port that is not in the bitmap, and asks the platform for the driver's number of one that is.
  "All port numbers will be validated before calling the SFP driver", the file says of the bitmap.

  `Guarded` is that promise for a program: the driver is called with numbers of ports in the bitmap
  only.  It splits along sequencing, so a function that begins with the macro has it (`guarded_mapped`).
  `onlp_sfp_vioctl` does not begin with it: it hands the number on as it got it.  So the promise holds of
  a function and a port unless the function is the ioctl and the number means nothing to the driver
  (`promised_iff`).

  A `return` in front of the end of a function is a program that raises what it returns.
-/
import DentOS.Lib.Effects

namespace DentOS.Sfp

open Effects Prog

/-! ## Status codes, controls -/

/-- `ONLP_STATUS_E_UNSUPPORTED` and `ONLP_STATUS_E_PARAM`. -/
def statusUnsupported : Int := -10
def statusParam : Int := -14

/-- `onlp_sfp_control_t`.  What is passed may be any `int`. -/
abbrev Control := Int

/-- The controls that the functions name. -/
def controlReset : Control := 0
def controlResetState : Control := 1
def controlRxLos : Control := 2
def controlTxFault : Control := 3
def controlTxDisable : Control := 4
def controlLpMode : Control := 6
def controlPowerOverride : Control := 7

/-- `ONLP_SFP_CONTROL_VALID`. -/
def controlValid (control : Control) : Bool := 0 ≤ control && control ≤ controlPowerOverride

/-! ## The driver: the number of a port, and the reply to a call -/

/-- A driver entry, apart from the port map. -/
inductive Call where
  | presenceBitmapGet
  | rxLosBitmapGet
  | isPresent (port : Int)
  | eepromRead (port : Int)
  | domRead (port : Int)
  | postInsert (port : Int) (info : List UInt8)
  | controlSupported (port : Int) (control : Control)
  | controlSet (port : Int) (control : Control) (value : Int)
  | controlGet (port : Int) (control : Control)
  | ioctl (port : Int) (vargs : List Int)
  | devReadb (port : Int) (devaddr addr : UInt8)
  | devWriteb (port : Int) (devaddr addr value : UInt8)
  | devReadw (port : Int) (devaddr addr : UInt8)
  | devWritew (port : Int) (devaddr addr : UInt8) (value : UInt16)
  | devRead (port : Int) (devaddr addr : UInt8) (size : Int)
  | devWrite (port : Int) (devaddr addr : UInt8) (data : List UInt8) (size : Int)
  deriving DecidableEq

/-- The port that an entry is called with. -/
def Call.port? : Call → Option Int
  | .presenceBitmapGet => none
  | .rxLosBitmapGet => none
  | .isPresent port => some port
  | .eepromRead port => some port
  | .domRead port => some port
  | .postInsert port _ => some port
  | .controlSupported port _ => some port
  | .controlSet port _ _ => some port
  | .controlGet port _ => some port
  | .ioctl port _ => some port
  | .devReadb port _ _ => some port
  | .devWriteb port _ _ _ => some port
  | .devReadw port _ _ => some port
  | .devWritew port _ _ _ => some port
  | .devRead port _ _ _ => some port
  | .devWrite port _ _ _ _ => some port

/-- What a function returns, and what it stores: a number, a buffer (none is `NULL`).  What a bitmap
    function stores is in the destination of its caller. -/
structure Reply where
  /-- What the function returns. -/
  rv : Int
  /-- The number that it stores. -/
  value : Int
  /-- The buffer that it stores. -/
  data : Option (List UInt8)

/-- A reply that stores nothing. -/
def Reply.ofRv (rv : Int) : Reply where
  rv := rv
  value := 0
  data := none

/-- A call of the driver. -/
inductive Event where
  | portMap (port : Int)
  | call (c : Call)
  deriving DecidableEq

/-- The driver: what `onlp_sfpi_port_map` returns and stores for a port, and the reply to the n-th call. -/
structure Driver where
  /-- The code for a port, and the number stored. -/
  portMap : Int → Int × Int
  /-- The reply to the n-th call. -/
  reply : Nat → Call → Reply

/-- The driver's number of a port: what the port map says, or the port itself where it fails. -/
def Driver.number (D : Driver) (port : Int) : Int :=
  if 0 ≤ (D.portMap port).1 then (D.portMap port).2 else port

/-- `sfpi_bitmap__`: `get` is `AIM_BITMAP_GET`, and `AIM_BITMAP_ITER` visits `ports`. -/
structure Bitmap where
  /-- Whether a port is in it. -/
  get : Int → Bool
  /-- The ports in the order of an iteration. -/
  ports : List Int
  /-- An iteration visits no other ports. -/
  visited : ∀ p ∈ ports, get p = true

/-- A program that calls the driver.  Its state is the calls made so far. -/
abbrev OnDriver := Prog (List Event) Int

section

variable (D : Driver) (b : Bitmap)

/-- A call of the driver: it is logged, and gets its reply. -/
def driver (c : Call) : OnDriver Reply := fun t => (.ok (D.reply t.length c), t ++ [.call c])

/-! ## The functions: each checks the port, and asks the driver -/

/-- `ONLP_SFP_PORT_VALIDATE_AND_MAP`: the driver's number. -/
def sfpPortValidateAndMap (port : Int) : OnDriver Int := do
  if b.get port = false then throw (-1)
  else do
    modify fun t => t ++ [.portMap port]
    pure (D.number port)

/-- A function that validates its port and hands it on. -/
def mapped (c : Int → Call) (port : Int) : OnDriver Reply := do
  let port ← sfpPortValidateAndMap D b port
  driver D (c port)

/-- `onlp_sfp_is_present`. -/
def onlpSfpIsPresent : Int → OnDriver Reply := mapped D b .isPresent

/-- A function that reads into a buffer of its own, and frees it where the driver fails. -/
def readPage (c : Int → Call) (port : Int) : OnDriver Reply := do
  let port ← sfpPortValidateAndMap D b port
  let r ← driver D (c port)
  pure (if r.rv < 0 then { r with data := none } else r)

/-- `onlp_sfp_eeprom_read`. -/
def onlpSfpEepromRead : Int → OnDriver Reply := readPage D b .eepromRead

/-- `onlp_sfp_dom_read`. -/
def onlpSfpDomRead : Int → OnDriver Reply := readPage D b .domRead

/-- `onlp_sfp_post_insert`. -/
def onlpSfpPostInsert (port : Int) (info : List UInt8) : OnDriver Reply :=
  mapped D b (fun port => .postInsert port info) port

/-- `onlp_sfp_control_set`. -/
def onlpSfpControlSet (port : Int) (control : Control) (value : Int) : OnDriver Reply := do
  let port ← sfpPortValidateAndMap D b port
  if controlValid control = false then throw statusParam
  else do
    let supported ← driver D (.controlSupported port control)
    if 0 ≤ supported.rv ∧ supported.value = 0 then throw statusUnsupported
    -- These are read-only.
    else if control = controlRxLos ∨ control = controlTxFault then throw statusParam
    else driver D (.controlSet port control value)

/-- `value`: the pointer is not `NULL`. -/
def onlpSfpControlGet (port : Int) (control : Control) (value : Bool) : OnDriver Reply := do
  let port ← sfpPortValidateAndMap D b port
  if controlValid control = false then throw statusParam
  else do
    let supported ← driver D (.controlSupported port control)
    if 0 ≤ supported.rv ∧ supported.value = 0 then throw statusUnsupported
    -- This is a write-only control.
    else if control = controlReset then throw statusUnsupported
    else if value then driver D (.controlGet port control)
    else throw statusParam

/-- What a call of a function returns to its caller. -/
def returned (p : OnDriver Reply) : OnDriver Reply := fun t =>
  match p t with
  | (.ok r, t') => (.ok r, t')
  | (.error e, t') => (.ok (Reply.ofRv e), t')

/-- The loop of `onlp_sfp_control_flags_get`. -/
def controlFlags (port : Int) : List Control → Nat → OnDriver Reply
  | [], flags => pure { Reply.ofRv 0 with value := flags }
  | control :: controls, flags => do
      let r ← returned (onlpSfpControlGet D b port control true)
      if 0 ≤ r.rv then
        controlFlags port controls (if r.value ≠ 0 then flags ||| 1 <<< control.toNat else flags)
      else if r.rv ≠ statusUnsupported then throw r.rv
      else controlFlags port controls flags

/-- `flags`: the pointer is not `NULL`. -/
def onlpSfpControlFlagsGet (port : Int) (flags : Bool) : OnDriver Reply :=
  if flags then
    controlFlags D b port [controlResetState, controlRxLos, controlTxDisable, controlLpMode] 0
  else throw statusParam

/-- `onlp_sfp_vioctl_locked__`, which is all of `onlp_sfp_ioctl`. -/
def onlpSfpVioctl (port : Int) (vargs : List Int) : OnDriver Reply := driver D (.ioctl port vargs)

/-- `onlp_sfp_dev_readb`, and the functions like it. -/
def onlpSfpDevReadb (port : Int) (devaddr addr : UInt8) : OnDriver Reply :=
  mapped D b (fun port => .devReadb port devaddr addr) port

def onlpSfpDevWriteb (port : Int) (devaddr addr value : UInt8) : OnDriver Reply :=
  mapped D b (fun port => .devWriteb port devaddr addr value) port

def onlpSfpDevReadw (port : Int) (devaddr addr : UInt8) : OnDriver Reply :=
  mapped D b (fun port => .devReadw port devaddr addr) port

def onlpSfpDevWritew (port : Int) (devaddr addr : UInt8) (value : UInt16) : OnDriver Reply :=
  mapped D b (fun port => .devWritew port devaddr addr value) port

def onlpSfpDevRead (port : Int) (devaddr addr : UInt8) (size : Int) : OnDriver Reply :=
  mapped D b (fun port => .devRead port devaddr addr size) port

def onlpSfpDevWrite (port : Int) (devaddr addr : UInt8) (data : List UInt8) (size : Int) :
    OnDriver Reply :=
  mapped D b (fun port => .devWrite port devaddr addr data size) port

/-- The public operations on a port. -/
inductive Op where
  | isPresent
  | eepromRead
  | domRead
  | postInsert (info : List UInt8)
  | controlSet (control : Control) (value : Int)
  | controlGet (control : Control) (value : Bool)
  | controlFlagsGet (flags : Bool)
  | ioctl (vargs : List Int)
  | devReadb (devaddr addr : UInt8)
  | devWriteb (devaddr addr value : UInt8)
  | devReadw (devaddr addr : UInt8)
  | devWritew (devaddr addr : UInt8) (value : UInt16)
  | devRead (devaddr addr : UInt8) (size : Int)
  | devWrite (devaddr addr : UInt8) (data : List UInt8) (size : Int)

/-- The function of an operation. -/
def Op.run (port : Int) : Op → OnDriver Reply
  | .isPresent => onlpSfpIsPresent D b port
  | .eepromRead => onlpSfpEepromRead D b port
  | .domRead => onlpSfpDomRead D b port
  | .postInsert info => onlpSfpPostInsert D b port info
  | .controlSet control value => onlpSfpControlSet D b port control value
  | .controlGet control value => onlpSfpControlGet D b port control value
  | .controlFlagsGet flags => onlpSfpControlFlagsGet D b port flags
  | .ioctl vargs => onlpSfpVioctl D port vargs
  | .devReadb devaddr addr => onlpSfpDevReadb D b port devaddr addr
  | .devWriteb devaddr addr value => onlpSfpDevWriteb D b port devaddr addr value
  | .devReadw devaddr addr => onlpSfpDevReadw D b port devaddr addr
  | .devWritew devaddr addr value => onlpSfpDevWritew D b port devaddr addr value
  | .devRead devaddr addr size => onlpSfpDevRead D b port devaddr addr size
  | .devWrite devaddr addr data size => onlpSfpDevWrite D b port devaddr addr data size

/-! ## The promise: the driver sees valid ports only -/

/-- The driver's number of a port in the bitmap. -/
def Known (port : Int) : Prop := ∃ q, b.get q = true ∧ D.number q = port

/-- A call that is about no port, or about one that the driver may be asked about. -/
def Event.Safe : Event → Prop
  | .portMap _ => True
  | .call c => ∀ port, c.port? = some port → Known D b port

/-- From the calls `t` on only safe ones were made. -/
def Made (t t' : List Event) : Prop := ∃ made, t' = t ++ made ∧ ∀ e ∈ made, e.Safe D b

/-- The program makes safe calls only. -/
def Guarded {α : Type} (p : OnDriver α) : Prop := ∀ t, Keeps (Made D b t) p

/-- The program fails, and calls nothing. -/
def Refused (p : OnDriver Reply) : Prop := ∀ t, ∃ e : Int, e < 0 ∧ p t = (.error e, t)

/-- **What the file's comment says**, of an operation on a port. -/
def Promised (op : Op) (port : Int) : Prop :=
  Guarded D b (op.run D b port) ∧ (b.get port = false → Refused (op.run D b port))

end

section

variable {D : Driver} {b : Bitmap} {α β : Type}

/-! ## Programs that are guarded, along their sequencing -/

/-- What calls nothing is guarded. -/
theorem guarded_pure (a : α) : Guarded D b (pure a) := fun _ => keeps_pure _ a

/-- Returning early is guarded. -/
theorem guarded_throw (e : Int) : Guarded D b (throw e : OnDriver α) := fun _ => keeps_throw _ e

/-- **Sequencing** guarded programs is guarded. -/
theorem guarded_bind {p : OnDriver α} {f : α → OnDriver β} (hp : Guarded D b p) (hf : ∀ a, Guarded D b (f a)) :
    Guarded D b (p >>= f) := fun t => keeps_bind (hp t) fun a => hf a t

/-- A choice of guarded programs is guarded. -/
theorem guarded_ite {c : Prop} [Decidable c] {p q : OnDriver α} (hp : Guarded D b p)
    (hq : Guarded D b q) : Guarded D b (if c then p else q) := fun t => keeps_ite (hp t) (hq t)

/-- One more safe call. -/
theorem Made.append {t t' : List Event} (h : Made D b t t') {e : Event} (he : e.Safe D b) :
    Made D b t (t' ++ [e]) := by
  obtain ⟨made, rfl, hmade⟩ := h
  refine ⟨made ++ [e], List.append_assoc t made [e], fun x hx => ?_⟩
  rcases List.mem_append.mp hx with hx | hx
  · exact hmade x hx
  · rw [List.mem_singleton.mp hx]
    exact he

/-- A call with a known number is guarded. -/
theorem guarded_driver {c : Call} (hc : ∀ port, c.port? = some port → Known D b port) :
    Guarded D b (driver D c) := by
  intro t s hs
  exact hs.append hc

/-- Asking for the driver's number is guarded. -/
theorem guarded_portMap (port : Int) :
    Guarded D b (modify fun t => t ++ [.portMap port]) := by
  intro t s hs
  exact hs.append trivial

/-- **The macro**: what comes behind it may call the driver with the number that it gives. -/
theorem guarded_mapped {f : Int → OnDriver α} (hf : ∀ port, Known D b port → Guarded D b (f port))
    (port : Int) : Guarded D b (sfpPortValidateAndMap D b port >>= f) := by
  cases hget : b.get port with
  | false =>
      -- The port is refused, and nothing is done behind that.
      intro t s hs
      have hrefused : sfpPortValidateAndMap D b port s = (.error (-1), s) := by
        rw [sfpPortValidateAndMap, if_pos hget]
        rfl
      rw [bind_of_error hrefused]
      exact hs
  | true =>
      intro t s hs
      have hmapped : sfpPortValidateAndMap D b port s = (.ok (D.number port), s ++ [.portMap port]) := by
        rw [sfpPortValidateAndMap, if_neg (by rw [hget]; decide)]
        rfl
      rw [bind_of_ok hmapped]
      have hknown : Known D b (D.number port) := ⟨port, hget, rfl⟩
      exact hf _ hknown t _ (hs.append trivial)

/-- A number that is known may be handed to the driver. -/
theorem guarded_handed {c : Int → Call} (hc : ∀ port, (c port).port? = some port) (port : Int)
    (hport : Known D b port) : Guarded D b (driver D (c port)) := by
  refine guarded_driver fun q hq => ?_
  rw [hc port] at hq
  cases hq
  exact hport

/-- A function that validates its port and hands it on is guarded. -/
theorem guarded_handOn {c : Int → Call} (hc : ∀ port, (c port).port? = some port) (port : Int) :
    Guarded D b (mapped D b c port) := guarded_mapped (guarded_handed hc) port

/-- A function that validates its port and reads is guarded. -/
theorem guarded_readPage {c : Int → Call} (hc : ∀ port, (c port).port? = some port) (port : Int) :
    Guarded D b (readPage D b c port) :=
  guarded_mapped (fun q hq => guarded_bind (guarded_handed hc q hq) fun _ => guarded_pure _) port

/-- `onlp_sfp_control_set` is guarded. -/
theorem guarded_controlSet (port : Int) (control : Control) (value : Int) :
    Guarded D b (onlpSfpControlSet D b port control value) := by
  refine guarded_mapped (fun q hq => guarded_ite (guarded_throw _) ?_) port
  refine guarded_bind (guarded_handed (c := fun q => .controlSupported q control) (fun _ => rfl) q hq) ?_
  intro supported
  refine guarded_ite (guarded_throw _) (guarded_ite (guarded_throw _) ?_)
  exact guarded_handed (c := fun q => .controlSet q control value) (fun _ => rfl) q hq

/-- `onlp_sfp_control_get` is guarded. -/
theorem guarded_controlGet (port : Int) (control : Control) (value : Bool) :
    Guarded D b (onlpSfpControlGet D b port control value) := by
  refine guarded_mapped (fun q hq => guarded_ite (guarded_throw _) ?_) port
  refine guarded_bind (guarded_handed (c := fun q => .controlSupported q control) (fun _ => rfl) q hq) ?_
  intro supported
  refine guarded_ite (guarded_throw _) (guarded_ite (guarded_throw _) ?_)
  refine guarded_ite ?_ (guarded_throw _)
  exact guarded_handed (c := fun q => .controlGet q control) (fun _ => rfl) q hq

/-- What is returned does not matter. -/
theorem guarded_returned {p : OnDriver Reply} (hp : Guarded D b p) : Guarded D b (returned p) := by
  intro t s hs
  have hmade := hp t s hs
  show Made D b t (returned p s).2
  rw [returned]
  rcases hrun : p s with ⟨_ | r, s'⟩
  · rw [hrun] at hmade
    exact hmade
  · rw [hrun] at hmade
    exact hmade

/-- The loop over the controls is guarded, by induction on them. -/
theorem guarded_controlFlags (port : Int) : ∀ (controls : List Control) (flags : Nat),
    Guarded D b (controlFlags D b port controls flags)
  | [], _ => guarded_pure _
  | control :: controls, flags => by
      refine guarded_bind (guarded_returned (guarded_controlGet port control true)) fun r => ?_
      refine guarded_ite (guarded_controlFlags port controls _) (guarded_ite (guarded_throw _) ?_)
      exact guarded_controlFlags port controls flags

/-- The ioctl hands its number on. -/
theorem guarded_vioctl_iff (port : Int) (vargs : List Int) :
    Guarded D b (onlpSfpVioctl D port vargs) ↔ Known D b port := by
  constructor
  · intro h
    have hmade : Made D b [] [.call (.ioctl port vargs)] := h [] [] ⟨[], rfl, fun _ he => nomatch he⟩
    obtain ⟨made, hcalls, hsafe⟩ := hmade
    have hmem : Event.call (.ioctl port vargs) ∈ made := by
      rw [← List.nil_append made, ← hcalls]
      exact List.mem_singleton.mpr rfl
    exact hsafe _ hmem port rfl
  · intro h
    exact guarded_handed (c := fun port => .ioctl port vargs) (fun _ => rfl) port h

/-! ## Ports that are refused, with nothing asked -/

/-- A function that begins with the macro refuses a port that is not in the bitmap. -/
theorem refused_mapped {port : Int} (hport : b.get port = false) (f : Int → OnDriver Reply) :
    Refused (sfpPortValidateAndMap D b port >>= f) := by
  intro t
  have hrefused : sfpPortValidateAndMap D b port t = (.error (-1), t) := by
    rw [sfpPortValidateAndMap, if_pos hport]
    rfl
  exact ⟨-1, by decide, bind_of_error hrefused⟩

/-- The flags of a port that is not in the bitmap are refused. -/
theorem refused_controlFlagsGet {port : Int} (hport : b.get port = false) (flags : Bool) :
    Refused (onlpSfpControlFlagsGet D b port flags) := by
  cases flags with
  | false => exact fun t => ⟨statusParam, by decide, rfl⟩
  | true =>
      -- The first control is refused already, and not as one that is unsupported.
      intro t
      have hrefused : sfpPortValidateAndMap D b port t = (.error (-1), t) := by
        rw [sfpPortValidateAndMap, if_pos hport]
        rfl
      have hget : onlpSfpControlGet D b port controlResetState true t = (.error (-1), t) :=
        bind_of_error hrefused
      have hreturned : returned (onlpSfpControlGet D b port controlResetState true) t =
          (.ok (Reply.ofRv (-1)), t) := by
        rw [returned, hget]
      refine ⟨-1, by decide, ?_⟩
      show controlFlags D b port (controlResetState :: _) 0 t = _
      rw [controlFlags, bind_of_ok hreturned]
      rfl

/-- The ioctl refuses nothing. -/
theorem not_refused_vioctl (port : Int) (vargs : List Int) :
    ¬ Refused (onlpSfpVioctl D port vargs) := by
  intro h
  obtain ⟨e, -, he⟩ := h []
  cases he

/-! ## The operations -/

/-- The operations that validate their port. -/
def Op.Validates : Op → Prop
  | .ioctl _ => False
  | _ => True

/-- **An operation that validates its port keeps the promise.** -/
theorem promised_of_validates {op : Op} (h : op.Validates) (port : Int) : Promised D b op port := by
  cases op with
  | isPresent => exact ⟨guarded_handOn (fun _ => rfl) port, fun hport => refused_mapped hport _⟩
  | eepromRead => exact ⟨guarded_readPage (fun _ => rfl) port, fun hport => refused_mapped hport _⟩
  | domRead => exact ⟨guarded_readPage (fun _ => rfl) port, fun hport => refused_mapped hport _⟩
  | postInsert info => exact ⟨guarded_handOn (fun _ => rfl) port, fun hport => refused_mapped hport _⟩
  | controlSet control value =>
      exact ⟨guarded_controlSet port control value, fun hport => refused_mapped hport _⟩
  | controlGet control value =>
      exact ⟨guarded_controlGet port control value, fun hport => refused_mapped hport _⟩
  | controlFlagsGet flags =>
      refine ⟨?_, fun hport => refused_controlFlagsGet hport flags⟩
      exact guarded_ite (guarded_controlFlags port _ 0) (guarded_throw _)
  | ioctl vargs => exact h.elim
  | devReadb devaddr addr =>
      exact ⟨guarded_handOn (fun _ => rfl) port, fun hport => refused_mapped hport _⟩
  | devWriteb devaddr addr value =>
      exact ⟨guarded_handOn (fun _ => rfl) port, fun hport => refused_mapped hport _⟩
  | devReadw devaddr addr =>
      exact ⟨guarded_handOn (fun _ => rfl) port, fun hport => refused_mapped hport _⟩
  | devWritew devaddr addr value =>
      exact ⟨guarded_handOn (fun _ => rfl) port, fun hport => refused_mapped hport _⟩
  | devRead devaddr addr size =>
      exact ⟨guarded_handOn (fun _ => rfl) port, fun hport => refused_mapped hport _⟩
  | devWrite devaddr addr data size =>
      exact ⟨guarded_handOn (fun _ => rfl) port, fun hport => refused_mapped hport _⟩

/-- Every operation but the ioctl validates its port. -/
theorem Op.validates_or_ioctl (op : Op) : op.Validates ∨ ∃ vargs, op = .ioctl vargs := by
  cases op with
  | ioctl vargs => exact Or.inr ⟨vargs, rfl⟩
  | _ => exact Or.inl trivial

/-- **When the promise is kept**: by every operation that validates its port; by the ioctl for a port of
    the bitmap whose number is one of the driver's as it is. -/
theorem promised_iff (D : Driver) (b : Bitmap) (op : Op) (port : Int) :
    Promised D b op port ↔ op.Validates ∨ (b.get port = true ∧ Known D b port) := by
  constructor
  · intro h
    rcases op.validates_or_ioctl with hvalid | ⟨vargs, rfl⟩
    · exact Or.inl hvalid
    · right
      refine ⟨?_, (guarded_vioctl_iff port vargs).mp h.1⟩
      cases hport : b.get port with
      | true => rfl
      | false => exact absurd (h.2 hport) (not_refused_vioctl port vargs)
  · intro h
    rcases op.validates_or_ioctl with hvalid | ⟨vargs, rfl⟩
    · exact promised_of_validates hvalid port
    · rcases h with hvalid | ⟨hport, hknown⟩
      · exact hvalid.elim
      · refine ⟨(guarded_vioctl_iff port vargs).mpr hknown, fun hnot => ?_⟩
        rw [hport] at hnot
        cases hnot

/-- A platform with the ports 1 and 2, which its driver calls 11 and 12. -/
def twoPorts : Bitmap where
  get := fun port => port = 1 || port = 2
  ports := [1, 2]
  visited := by decide

/-- A driver that adds 10 to the numbers. -/
def elevenUp : Driver where
  portMap := fun port => (0, port + 10)
  reply := fun _ _ => Reply.ofRv 0

/-- The ioctl of port 5, which is in no bitmap, reaches the driver. -/
theorem vioctl_unvalidated : ¬ ∀ op port, Promised elevenUp twoPorts op port := by
  intro h
  exact not_refused_vioctl 5 [] ((h (.ioctl []) 5).2 rfl)

end

end DentOS.Sfp
