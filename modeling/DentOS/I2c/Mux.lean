/-
  Mux channels around device operations (onlplib, i2c.c).

  A device can lie behind a chain of muxes.  Every `onlp_i2c_dev_*` operation selects the channels of
  the chain from the front, makes its transfer, and deselects them from the back; it returns at the
  first of these steps that fails.  So what is left selected is a matter of where that step is: of a
  failure in the middle nothing behind it is undone.

  `plan` are the steps of an operation, and an operation is its plan run to the first failure
  (`devOp_eq`).  `held` are the muxes left selected by a list of requests, computed by a fold, and
  `released_iff` says that this is what it means for each selected mux to have been sent its deselect.
  `released_iff_clean` puts these together.
-/
import DentOS.I2c.Bus
import DentOS.Lib.Triple

namespace DentOS.I2c

open Effects Prog

/-! ## Channels and devices -/

/-- `onlp_i2c_mux_channel_t`; the mux may be missing. -/
structure MuxChannel where
  /-- The mux, if the pointer is not null. -/
  mux : Option MuxDevice
  /-- The channel of it. -/
  channel : Int

/-- `onlp_i2c_dev_t`. -/
structure Dev where
  /-- The name of the device. -/
  name : String
  /-- The channels in the array of the struct. -/
  ichannels : List MuxChannel
  /-- The channels behind the pointer, if it is not null. -/
  pchannels : Option (List MuxChannel)
  /-- The bus it is on. -/
  bus : Int
  /-- Its address. -/
  addr : UInt8

/-- The channels that are used: those behind the pointer, or the inline ones. -/
def Dev.channels (dev : Dev) : List MuxChannel := dev.pchannels.getD dev.ichannels

section

variable (answers : Nat → Answer)

/-- `onlp_i2c_mux_select`: the first entry of the driver for the channel is written. -/
def onlpI2cMuxSelect (dev : MuxDevice) (channel : Int) : OnBus Unit :=
  match dev.driver.channels.find? fun entry => entry.1 == channel with
  | none => throw statusParam
  | some entry => fun s =>
      let (rv, s') := onlpI2cWriteb answers dev.bus dev.devaddr dev.driver.control entry.2 .none s
      (rv, { s' with trace := s'.trace ++ [.mux dev channel rv.isOk] })

/-- `onlp_i2c_mux_deselect`: the channel -1. -/
def onlpI2cMuxDeselect (dev : MuxDevice) : OnBus Unit := onlpI2cMuxSelect answers dev (-1)

/-- One pass of the loop of `onlp_i2c_mux_channels_select`. -/
def onlpI2cMuxChannelSelect (mc : MuxChannel) : OnBus Unit :=
  match mc.mux with
  | some mux => onlpI2cMuxSelect answers mux mc.channel
  | none => pure ()

/-- `onlp_i2c_mux_channel_deselect`: nothing is done without a mux. -/
def onlpI2cMuxChannelDeselect (mc : MuxChannel) : OnBus Unit :=
  match mc.mux with
  | some mux => onlpI2cMuxDeselect answers mux
  | none => pure ()

/-- `onlp_i2c_mux_channels_select`: from the first to the last. -/
def onlpI2cMuxChannelsSelect (mcs : List MuxChannel) : OnBus Unit :=
  forEach (onlpI2cMuxChannelSelect answers) mcs

/-- `onlp_i2c_mux_channels_deselect`: from the last to the first. -/
def onlpI2cMuxChannelsDeselect (mcs : List MuxChannel) : OnBus Unit :=
  forEach (onlpI2cMuxChannelDeselect answers) mcs.reverse

/-- `dev_mux_channels_select__`. -/
def devMuxChannelsSelect (dev : Dev) (flags : Flags) : OnBus Unit :=
  if flags.noMuxSelect then pure () else onlpI2cMuxChannelsSelect answers dev.channels

/-- `dev_mux_channels_deselect__`. -/
def devMuxChannelsDeselect (dev : Dev) (flags : Flags) : OnBus Unit :=
  if flags.noMuxDeselect then pure () else onlpI2cMuxChannelsDeselect answers dev.channels

/-! ## Device operations: select, transfer, deselect -/

/-- A device operation around its transfer. -/
def devOp {α : Type} (dev : Dev) (flags : Flags) (transfer : OnBus α) : OnBus α := do
  devMuxChannelsSelect answers dev flags
  let rv ← transfer
  devMuxChannelsDeselect answers dev flags
  pure rv

/-- `onlp_i2c_dev_read`, and the operations like it: each is a transfer between the muxes. -/
def onlpI2cDevRead (dev : Dev) (offset : UInt8) (size : Int) (flags : Flags) : OnBus (List UInt8) :=
  devOp answers dev flags <|
    if flags.useBlockRead then onlpI2cBlockRead answers dev.bus dev.addr offset size flags
    else onlpI2cRead answers dev.bus dev.addr offset size flags

def onlpI2cDevWrite (dev : Dev) (offset : UInt8) (data : List UInt8) (flags : Flags) : OnBus Unit :=
  devOp answers dev flags <| onlpI2cWrite answers dev.bus dev.addr offset data flags

def onlpI2cDevReadb (dev : Dev) (offset : UInt8) (flags : Flags) : OnBus Int :=
  devOp answers dev flags <| onlpI2cReadb answers dev.bus dev.addr offset flags

def onlpI2cDevWriteb (dev : Dev) (offset byte : UInt8) (flags : Flags) : OnBus Unit :=
  devOp answers dev flags <| onlpI2cWriteb answers dev.bus dev.addr offset byte flags

def onlpI2cDevReadw (dev : Dev) (offset : UInt8) (flags : Flags) : OnBus Int :=
  devOp answers dev flags <| onlpI2cReadw answers dev.bus dev.addr offset flags

def onlpI2cDevWritew (dev : Dev) (offset : UInt8) (word : UInt16) (flags : Flags) : OnBus Int :=
  devOp answers dev flags <| onlpI2cWritew answers dev.bus dev.addr offset word flags

end

/-- A call of one of the six operations. -/
inductive DevCall where
  | read (offset : UInt8) (size : Int)
  | write (offset : UInt8) (data : List UInt8)
  | readb (offset : UInt8)
  | writeb (offset byte : UInt8)
  | readw (offset : UInt8)
  | writew (offset : UInt8) (word : UInt16)

section

variable (answers : Nat → Answer) (dev : Dev) (flags : Flags)

/-- The operation of a call, its result left aside. -/
def DevCall.run : DevCall → OnBus Unit
  | read offset size => onlpI2cDevRead answers dev offset size flags >>= fun _ => pure ()
  | write offset data => onlpI2cDevWrite answers dev offset data flags
  | readb offset => onlpI2cDevReadb answers dev offset flags >>= fun _ => pure ()
  | writeb offset byte => onlpI2cDevWriteb answers dev offset byte flags
  | readw offset => onlpI2cDevReadw answers dev offset flags >>= fun _ => pure ()
  | writew offset word => onlpI2cDevWritew answers dev offset word flags >>= fun _ => pure ()

/-- The transfer of a call. -/
def DevCall.transfer : DevCall → OnBus Unit
  | read offset size =>
      (if flags.useBlockRead then onlpI2cBlockRead answers dev.bus dev.addr offset size flags
      else onlpI2cRead answers dev.bus dev.addr offset size flags) >>= fun _ => pure ()
  | write offset data => onlpI2cWrite answers dev.bus dev.addr offset data flags
  | readb offset => onlpI2cReadb answers dev.bus dev.addr offset flags >>= fun _ => pure ()
  | writeb offset byte => onlpI2cWriteb answers dev.bus dev.addr offset byte flags
  | readw offset => onlpI2cReadw answers dev.bus dev.addr offset flags >>= fun _ => pure ()
  | writew offset word =>
      onlpI2cWritew answers dev.bus dev.addr offset word flags >>= fun _ => pure ()

end

/-! ## Requests of a chain of muxes -/

/-- **Every mux that was selected has been sent its deselect value again**, whether or not that write
    came through. -/
def Released (rs : List Request) : Prop :=
  ∀ before r after, rs = before ++ r :: after → r.written = true → r.channel ≠ -1 →
    ∃ d ∈ after, d.mux = r.mux ∧ d.channel = -1

/-- The muxes left selected by one more request. -/
def hold (muxes : List MuxDevice) (r : Request) : List MuxDevice :=
  if r.channel = -1 then muxes.filter (· ≠ r.mux)
  else if r.written then r.mux :: muxes
  else muxes

/-- The muxes left selected by requests. -/
def held (rs : List Request) : List MuxDevice := rs.foldl hold []

/-- Held behind a request: what was held and is not deselected, and what is selected. -/
theorem mem_hold {m : MuxDevice} {muxes : List MuxDevice} {r : Request} :
    m ∈ hold muxes r ↔ (m ∈ muxes ∧ (r.channel = -1 → r.mux ≠ m)) ∨
      (r.written = true ∧ r.channel ≠ -1 ∧ r.mux = m) := by
  unfold hold
  by_cases hchan : r.channel = -1
  · rw [if_pos hchan, List.mem_filter, decide_eq_true_iff]
    constructor
    · rintro ⟨hm, hne⟩
      exact Or.inl ⟨hm, fun _ h => hne h.symm⟩
    · rintro (⟨hm, hne⟩ | ⟨-, hne, -⟩)
      · exact ⟨hm, fun h => hne hchan h.symm⟩
      · exact absurd hchan hne
  · rw [if_neg hchan]
    by_cases hwritten : r.written = true
    · rw [if_pos hwritten, List.mem_cons]
      constructor
      · rintro (rfl | hm)
        · exact Or.inr ⟨hwritten, hchan, rfl⟩
        · exact Or.inl ⟨hm, fun h => absurd h hchan⟩
      · rintro (⟨hm, -⟩ | ⟨-, -, rfl⟩)
        · exact Or.inr hm
        · exact Or.inl rfl
    · rw [if_neg hwritten]
      constructor
      · exact fun hm => Or.inl ⟨hm, fun h => absurd h hchan⟩
      · rintro (⟨hm, -⟩ | ⟨h, -⟩)
        · exact hm
        · exact absurd h hwritten

/-- What is held behind requests was held in front of them, or was selected by one of them, and has
    not been sent its deselect since.  Induction on the requests. -/
theorem mem_foldl_hold {m : MuxDevice} : ∀ {rs : List Request} {muxes : List MuxDevice},
    m ∈ rs.foldl hold muxes ↔
      (m ∈ muxes ∧ ∀ d ∈ rs, d.channel = -1 → d.mux ≠ m) ∨
      ∃ before r after, rs = before ++ r :: after ∧ r.written = true ∧ r.channel ≠ -1 ∧ r.mux = m ∧
        ∀ d ∈ after, d.channel = -1 → d.mux ≠ m
  | [], muxes => by
      constructor
      · exact fun hm => Or.inl ⟨hm, fun d hd => absurd hd List.not_mem_nil⟩
      · rintro (⟨hm, -⟩ | ⟨before, r, after, hrs, -⟩)
        · exact hm
        · exact absurd hrs.symm (by simp)
  | r₀ :: rs, muxes => by
      rw [List.foldl_cons, mem_foldl_hold, mem_hold]
      constructor
      · rintro (⟨⟨hm, hne⟩ | ⟨hwritten, hchan, hmux⟩, hnone⟩ | ⟨before, r, after, rfl, h⟩)
        · exact Or.inl ⟨hm, List.forall_mem_cons.mpr ⟨hne, hnone⟩⟩
        · exact Or.inr ⟨[], r₀, rs, rfl, hwritten, hchan, hmux, hnone⟩
        · exact Or.inr ⟨r₀ :: before, r, after, rfl, h⟩
      · rintro (⟨hm, hnone⟩ | ⟨before, r, after, hrs, h⟩)
        · obtain ⟨hne, hnone⟩ := List.forall_mem_cons.mp hnone
          exact Or.inl ⟨Or.inl ⟨hm, hne⟩, hnone⟩
        · cases before with
          | nil =>
              obtain ⟨rfl, rfl⟩ := List.cons.inj hrs
              obtain ⟨hwritten, hchan, hmux, hnone⟩ := h
              exact Or.inl ⟨Or.inr ⟨hwritten, hchan, hmux⟩, hnone⟩
          | cons b before =>
              obtain ⟨-, rfl⟩ := List.cons.inj hrs
              exact Or.inr ⟨before, r, after, rfl, h⟩

/-- **Nothing is held exactly when everything is released.** -/
theorem released_iff (rs : List Request) : Released rs ↔ held rs = [] := by
  unfold held
  rw [List.eq_nil_iff_forall_not_mem]
  constructor
  · intro h m hm
    rcases mem_foldl_hold.mp hm with ⟨hm, -⟩ | ⟨before, r, after, hrs, hwritten, hchan, rfl, hnone⟩
    · exact absurd hm List.not_mem_nil
    · obtain ⟨d, hd, hmux, hdchan⟩ := h before r after hrs hwritten hchan
      exact hnone d hd hdchan hmux
  · intro h before r after hrs hwritten hchan
    by_cases hd : ∃ d ∈ after, d.mux = r.mux ∧ d.channel = -1
    · exact hd
    · refine absurd (mem_foldl_hold.mpr (Or.inr ⟨before, r, after, hrs, hwritten, hchan, rfl, ?_⟩))
        (h r.mux)
      exact fun d hdmem hdchan hmux => hd ⟨d, hdmem, hmux, hdchan⟩

/-- Deselects behind other requests release the muxes they are sent to. -/
theorem mem_held_append_deselects {m : MuxDevice} {rs ds : List Request}
    (hds : ∀ d ∈ ds, d.channel = -1) :
    m ∈ held (rs ++ ds) ↔ m ∈ held rs ∧ m ∉ ds.map Request.mux := by
  unfold held
  rw [List.foldl_append, mem_foldl_hold, List.mem_map]
  constructor
  · rintro (⟨hm, hnone⟩ | ⟨before, r, after, rfl, -, hchan, -⟩)
    · exact ⟨hm, fun ⟨d, hd, hmux⟩ => hnone d hd (hds d hd) hmux⟩
    · exact absurd (hds r (List.mem_append_right _ List.mem_cons_self)) hchan
  · rintro ⟨hm, hnone⟩
    exact Or.inl ⟨hm, fun d hd _ hmux => hnone ⟨d, hd, hmux⟩⟩

/-! ## The plan of an operation: its steps in their order -/

/-- A step of an operation: a request to a mux, or the transfer. -/
inductive Step where
  | mux (dev : MuxDevice) (channel : Int)
  | transfer

/-- The muxes on the path to a device, with their channels. -/
def Dev.chain (dev : Dev) : List (MuxDevice × Int) :=
  dev.channels.filterMap fun mc => mc.mux.map fun mux => (mux, mc.channel)

/-- The steps in front of the transfer. -/
def selects (chain : List (MuxDevice × Int)) : List Step := chain.map fun mc => .mux mc.1 mc.2

/-- The steps behind it. -/
def deselects (chain : List (MuxDevice × Int)) : List Step :=
  chain.reverse.map fun mc => .mux mc.1 (-1)

/-- The steps of an operation, in their order. -/
def Dev.plan (dev : Dev) : List Step := selects dev.chain ++ .transfer :: deselects dev.chain

/-- The driver of the mux has a value for the channel. -/
def MuxDevice.knows (dev : MuxDevice) (channel : Int) : Bool :=
  (dev.driver.channels.find? fun entry => entry.1 == channel).isSome

/-- The requests that a step sends when it succeeds. -/
def Step.succeeded : Step → List Request
  | mux dev channel => [⟨dev, channel, true⟩]
  | transfer => []

/-- The requests that a step sends when it fails: none if the driver has no value to write. -/
def Step.failed : Step → List Request
  | mux dev channel => if dev.knows channel then [⟨dev, channel, false⟩] else []
  | transfer => []

/-- The requests that steps send up to the first that fails. -/
def sent (steps : List Step) : Option Nat → List Request
  | none => steps.flatMap Step.succeeded
  | some f => (steps.take f).flatMap Step.succeeded ++ (steps.drop f).head?.elim [] Step.failed

section

variable (answers : Nat → Answer) (transfer : OnBus Unit)

/-- A step: a request to a mux, or the transfer. -/
def Step.run : Step → OnBus Unit
  | mux dev channel => onlpI2cMuxSelect answers dev channel
  | Step.transfer => transfer

/-- The number of the first step that fails. -/
def firstFailure : List Step → Bus → Option Nat
  | [], _ => none
  | step :: steps, s =>
      match step.run answers transfer s with
      | (.ok _, s') => (firstFailure steps s').map (· + 1)
      | (.error _, _) => some 0

end

section

variable {answers : Nat → Answer}

/-- **No transfer sends a request.** -/
theorem quiet_transfer (dev : Dev) (flags : Flags) (call : DevCall) :
    Quiet (call.transfer answers dev flags) := by
  cases call with
  | read offset size =>
      refine quiet_bind_pure (fun rs => ?_) _
      exact keeps_ite (quiet_blockRead _ _ _ _ _ rs) (quiet_read _ _ _ _ _ rs)
  | write offset data => exact quiet_write _ _ _ _ _
  | readb offset => exact quiet_bind_pure (quiet_bind_pure (quiet_read _ _ _ _ _) _) _
  | writeb offset byte => exact quiet_write _ _ _ _ _
  | readw offset => exact quiet_bind_pure (quiet_transaction _ _ _ _) _
  | writew offset word => exact quiet_bind_pure (quiet_transaction _ _ _ _) _

/-! ## A run of steps ends behind the first that fails -/

/-- A request that can be written is sent, and says whether the write came through. -/
theorem select_known {dev : MuxDevice} {channel : Int} (h : dev.knows channel = true) (s : Bus) :
    ∃ rv s', onlpI2cMuxSelect answers dev channel s = (rv, s') ∧
      s'.requests = s.requests ++ [⟨dev, channel, rv.isOk⟩] := by
  obtain ⟨entry, hentry⟩ := Option.isSome_iff_exists.mp h
  have hquiet : Quiet (onlpI2cWriteb answers dev.bus dev.devaddr dev.driver.control entry.2 .none) :=
    quiet_write _ _ _ _ _
  have hrs := hquiet s.requests s rfl
  rcases hwrite : onlpI2cWriteb answers dev.bus dev.devaddr dev.driver.control entry.2 .none s with
    ⟨rv, s'⟩
  rw [hwrite] at hrs
  refine ⟨rv, { s' with trace := s'.trace ++ [.mux dev channel rv.isOk] }, ?_, ?_⟩
  · unfold onlpI2cMuxSelect
    rw [hentry]
    dsimp only
    rw [hwrite]
  · unfold Bus.requests at hrs ⊢
    rw [List.filterMap_append, hrs]
    rfl

/-- A channel that the driver does not have is refused, and nothing is sent. -/
theorem select_unknown {dev : MuxDevice} {channel : Int} (h : dev.knows channel = false) (s : Bus) :
    onlpI2cMuxSelect answers dev channel s = (.error statusParam, s) := by
  unfold onlpI2cMuxSelect
  rw [Option.isSome_eq_false_iff.mp h |> Option.isNone_iff_eq_none.mp]
  rfl

/-- What a step sends, and that it sends it. -/
theorem step_requests {transfer : OnBus Unit} (ht : Quiet transfer) (step : Step) (s : Bus) :
    (∃ s', step.run answers transfer s = (.ok (), s') ∧
        s'.requests = s.requests ++ step.succeeded) ∨
      ∃ e s', step.run answers transfer s = (.error e, s') ∧
        s'.requests = s.requests ++ step.failed := by
  cases step with
  | mux dev channel =>
      have hfailed : (Step.mux dev channel).failed =
          if dev.knows channel then [⟨dev, channel, false⟩] else [] := rfl
      rw [hfailed]
      cases hknows : dev.knows channel with
      | false =>
          exact Or.inr ⟨_, s, select_unknown hknows s, (List.append_nil _).symm⟩
      | true =>
          obtain ⟨rv, s', hrun, hrs⟩ := select_known hknows s
          cases rv with
          | ok _ => exact Or.inl ⟨s', hrun, hrs⟩
          | error e => exact Or.inr ⟨e, s', hrun, hrs⟩
  | transfer =>
      have hrs := ht s.requests s rfl
      rcases hrun : transfer s with ⟨e | _, s'⟩
      · rw [hrun] at hrs
        exact Or.inr ⟨e, s', hrun, hrs.trans (List.append_nil _).symm⟩
      · rw [hrun] at hrs
        exact Or.inl ⟨s', hrun, hrs.trans (List.append_nil _).symm⟩

/-- **What steps send, run up to the first that fails.** -/
theorem run_requests {transfer : OnBus Unit} (ht : Quiet transfer) : ∀ (steps : List Step) (s : Bus),
    (forEach (Step.run answers transfer) steps s).2.requests =
      s.requests ++ sent steps (firstFailure answers transfer steps s)
  | [], s => (List.append_nil _).symm
  | step :: steps, s => by
      rw [forEach, firstFailure]
      rcases step_requests ht step s with ⟨s', hrun, hrs⟩ | ⟨e, s', hrun, hrs⟩
      · rw [bind_of_ok hrun, hrun, run_requests ht steps s', hrs, List.append_assoc]
        dsimp only
        cases firstFailure answers transfer steps s' with
        | none => rfl
        | some f => exact congrArg _ (List.append_assoc _ _ _).symm
      · rw [bind_of_error hrun, hrun]
        exact hrs

/-! ## An operation is the run of its plan -/

/-- The loop that selects runs the steps in front. -/
theorem select_loop (transfer : OnBus Unit) (dev : Dev) :
    onlpI2cMuxChannelsSelect answers dev.channels =
      forEach (Step.run answers transfer) (selects dev.chain) := by
  unfold onlpI2cMuxChannelsSelect selects Dev.chain
  rw [forEach_map, forEach_filterMap]
  congr 1
  funext mc
  unfold onlpI2cMuxChannelSelect
  cases mc.mux <;> rfl

/-- The loop that deselects runs the steps behind. -/
theorem deselect_loop (transfer : OnBus Unit) (dev : Dev) :
    onlpI2cMuxChannelsDeselect answers dev.channels =
      forEach (Step.run answers transfer) (deselects dev.chain) := by
  unfold onlpI2cMuxChannelsDeselect deselects Dev.chain
  rw [← List.filterMap_reverse, forEach_map, forEach_filterMap]
  congr 1
  funext mc
  unfold onlpI2cMuxChannelDeselect
  cases mc.mux <;> rfl

/-- **An operation runs its plan**, up to the first step that fails. -/
theorem devOp_eq (transfer : OnBus Unit) (dev : Dev) {flags : Flags} (hsel : flags.noMuxSelect = false)
    (hdesel : flags.noMuxDeselect = false) :
    devOp answers dev flags transfer = forEach (Step.run answers transfer) dev.plan := by
  unfold devOp devMuxChannelsSelect devMuxChannelsDeselect Dev.plan
  rw [hsel, hdesel, forEach_append, forEach]
  show (onlpI2cMuxChannelsSelect answers dev.channels >>= fun _ => transfer >>= fun rv =>
    onlpI2cMuxChannelsDeselect answers dev.channels >>= fun _ => pure rv) = _
  rw [select_loop transfer, deselect_loop transfer]
  refine congrArg _ (funext fun _ => congrArg _ (funext fun _ => ?_))
  funext s
  rcases hd : forEach (Step.run answers transfer) (deselects dev.chain) s with ⟨_ | _, s'⟩
  · rw [bind_of_error hd]
  · rw [bind_of_ok hd]
    rfl

/-- The result of an operation left aside is the operation of a transfer whose result is. -/
theorem devOp_result {α : Type} (transfer : OnBus α) (dev : Dev) (flags : Flags) :
    (devOp answers dev flags transfer >>= fun _ => pure ()) =
      devOp answers dev flags (transfer >>= fun _ => pure ()) := by
  unfold devOp
  rw [bind_assoc]
  refine congrArg _ (funext fun _ => ?_)
  rw [bind_assoc, bind_assoc]
  refine congrArg _ (funext fun _ => ?_)
  rw [bind_assoc]
  rfl

/-- Every call is its transfer between the muxes. -/
theorem call_run_eq (call : DevCall) (dev : Dev) (flags : Flags) :
    call.run answers dev flags = devOp answers dev flags (call.transfer answers dev flags) := by
  cases call with
  | read offset size => exact devOp_result _ dev flags
  | write offset data => rfl
  | readb offset => exact devOp_result _ dev flags
  | writeb offset byte => rfl
  | readw offset => exact devOp_result _ dev flags
  | writew offset word => exact devOp_result _ dev flags

end

/-! ## What a failure leaves: the muxes that stay selected -/

/-- The muxes left selected when the channels of a chain have been selected: those of all the channels,
    but for a mux that the chain itself gives the channel -1 again. -/
def leftSelected (chain : List (MuxDevice × Int)) : List MuxDevice :=
  held (chain.map fun mc => ⟨mc.1, mc.2, true⟩)

/-- Where the first step that fails may be, if one does.  At a select, or at the transfer, no mux may
    be selected yet; at a deselect, only the mux that it is sent to, and those before it in the loop.
    (A select of the channel -1 is a deselect, and a driver without that channel has nothing to send.) -/
def Clean (dev : Dev) : Option Nat → Prop
  | none => True
  | some f =>
      if f ≤ dev.chain.length then
        ∀ m ∈ leftSelected (dev.chain.take f),
          (dev.chain.drop f).head? = some (m, -1) ∧ m.knows (-1) = true
      else
        let back := dev.chain.reverse.map Prod.fst
        let j := f - (dev.chain.length + 1)
        ∀ m ∈ leftSelected dev.chain, m ∉ back.take j →
          (back.drop j).head? = some m ∧ m.knows (-1) = true

/-- Selecting the whole chain holds what it selects. -/
theorem selects_succeeded (chain : List (MuxDevice × Int)) :
    held ((selects chain).flatMap Step.succeeded) = leftSelected chain := by
  unfold selects leftSelected
  rw [List.flatMap_map]
  exact congrArg held (List.map_eq_flatMap ..).symm

/-- The deselects of a chain, sent. -/
theorem deselects_succeeded (muxes : List MuxDevice) :
    (muxes.map fun m => Step.mux m (-1)).flatMap Step.succeeded =
      muxes.map fun m => ⟨m, -1, true⟩ := by
  rw [List.flatMap_map]
  exact (List.map_eq_flatMap ..).symm

/-- The deselects go through the muxes backwards. -/
theorem deselects_eq (chain : List (MuxDevice × Int)) :
    deselects chain = (chain.reverse.map Prod.fst).map fun m => Step.mux m (-1) := by
  rw [deselects, List.map_map]
  rfl

/-- A step that fails releases no mux but the one it deselects. -/
theorem held_failed (rs : List Request) (step : Option Step) :
    held (rs ++ step.elim [] Step.failed) = [] ↔
      ∀ m ∈ held rs, step = some (.mux m (-1)) ∧ m.knows (-1) = true := by
  -- a request that was not written adds nothing, so what matters is whether it is a deselect
  have hnone : (∀ m, step = some (.mux m (-1)) → m.knows (-1) = false) →
      held (rs ++ step.elim [] Step.failed) = held rs → (held (rs ++ step.elim [] Step.failed) = [] ↔
        ∀ m ∈ held rs, step = some (.mux m (-1)) ∧ m.knows (-1) = true) := by
    intro hstep hsame
    rw [hsame, List.eq_nil_iff_forall_not_mem]
    refine forall_congr' fun m => ⟨fun h hm => absurd hm h, fun h hm => ?_⟩
    obtain ⟨heq, hknows⟩ := h hm
    rw [hstep m heq] at hknows
    cases hknows
  have hnil : held (rs ++ []) = held rs := congrArg held (List.append_nil rs)
  cases step with
  | none => exact hnone (fun m h => by cases h) hnil
  | some step =>
      cases step with
      | transfer => exact hnone (fun m h => by cases h) hnil
      | mux dev channel =>
          have hfailed : (some (Step.mux dev channel)).elim [] Step.failed =
              if dev.knows channel then [⟨dev, channel, false⟩] else [] := rfl
          rw [hfailed] at hnone ⊢
          cases hknows : dev.knows channel with
          | false =>
              rw [hknows] at hnone
              refine hnone (fun m h => ?_) hnil
              cases h
              exact hknows
          | true =>
              rw [hknows] at hnone
              by_cases hchan : channel = -1
              · subst hchan
                rw [if_pos rfl, List.eq_nil_iff_forall_not_mem]
                refine forall_congr' fun m => ?_
                rw [mem_held_append_deselects
                  (by intro d hd; rw [List.mem_singleton.mp hd]), List.map_singleton,
                  List.mem_singleton]
                constructor
                · intro h hm
                  have hdev : m = dev := Classical.not_not.mp fun hne => h ⟨hm, hne⟩
                  rw [hdev]
                  exact ⟨rfl, hknows⟩
                · rintro h ⟨hm, hne⟩
                  obtain ⟨heq, -⟩ := h hm
                  cases heq
                  exact hne rfl
              · refine hnone (fun m h => ?_) ?_
                · cases h
                  exact absurd rfl hchan
                · unfold held
                  rw [if_pos rfl, List.foldl_append]
                  show hold _ _ = _
                  rw [hold, if_neg hchan]
                  rfl

/-- What is left selected are muxes of the chain. -/
theorem mem_of_leftSelected {m : MuxDevice} {chain : List (MuxDevice × Int)}
    (h : m ∈ leftSelected chain) : m ∈ chain.map Prod.fst := by
  rcases mem_foldl_hold.mp h with ⟨hm, -⟩ | ⟨before, r, after, hrs, -, -, rfl, -⟩
  · exact absurd hm List.not_mem_nil
  · have hr : r ∈ chain.map fun mc => (⟨mc.1, mc.2, true⟩ : Request) := by
      rw [hrs]
      exact List.mem_append_right _ List.mem_cons_self
    obtain ⟨mc, hmc, rfl⟩ := List.mem_map.mp hr
    exact List.mem_map_of_mem hmc

/-- Behind the selects of a chain, some of the deselects. -/
theorem mem_held_deselected {m : MuxDevice} (chain : List (MuxDevice × Int)) (muxes : List MuxDevice) :
    m ∈ held ((selects chain).flatMap Step.succeeded ++
        (muxes.map fun m => Step.mux m (-1)).flatMap Step.succeeded) ↔
      m ∈ leftSelected chain ∧ m ∉ muxes := by
  rw [deselects_succeeded, mem_held_append_deselects, selects_succeeded, List.map_map]
  · rw [show (Request.mux ∘ fun m => (⟨m, -1, true⟩ : Request)) = id from rfl, List.map_id]
  · intro d hd
    obtain ⟨_, -, rfl⟩ := List.mem_map.mp hd
    rfl

/-- The steps up to the transfer. -/
theorem clean_of_le {dev : Dev} {f : Nat} (hf : f ≤ dev.chain.length) :
    held (sent dev.plan (some f)) = [] ↔
      ∀ m ∈ leftSelected (dev.chain.take f),
        (dev.chain.drop f).head? = some (m, -1) ∧ m.knows (-1) = true := by
  have hlen : f ≤ (selects dev.chain).length := by rwa [selects, List.length_map]
  have htake : dev.plan.take f = selects (dev.chain.take f) := by
    rw [Dev.plan, List.take_append_of_le_length hlen, selects, ← List.map_take]
    rfl
  have hdrop : dev.plan.drop f =
      selects (dev.chain.drop f) ++ .transfer :: deselects dev.chain := by
    rw [Dev.plan, List.drop_append_of_le_length hlen, selects, ← List.map_drop]
    rfl
  rw [sent, htake, hdrop, held_failed, selects_succeeded]
  refine forall_congr' fun m => imp_congr_right fun _ => and_congr_left fun _ => ?_
  cases dev.chain.drop f with
  | nil => constructor <;> intro h <;> cases h
  | cons mc rest =>
      constructor
      · intro h
        injection h with h
        injection h with hm hc
        exact congrArg some (Prod.ext hm hc)
      · intro h
        injection h with h
        rw [h]
        rfl

/-- The deselects. -/
theorem clean_of_lt {dev : Dev} (j : Nat) :
    held (sent dev.plan (some (dev.chain.length + 1 + j))) = [] ↔
      ∀ m ∈ leftSelected dev.chain, m ∉ (dev.chain.reverse.map Prod.fst).take j →
        ((dev.chain.reverse.map Prod.fst).drop j).head? = some m ∧ m.knows (-1) = true := by
  have hplan : dev.plan = (selects dev.chain ++ [.transfer]) ++ deselects dev.chain := by
    rw [List.append_assoc]
    rfl
  have hlen : (selects dev.chain ++ [Step.transfer]).length = dev.chain.length + 1 := by
    rw [List.length_append, selects, List.length_map]
    rfl
  rw [sent, hplan, ← hlen, List.take_length_add_append, List.drop_length_add_append,
    List.flatMap_append, List.flatMap_append, deselects_eq, ← List.map_take, ← List.map_drop,
    List.head?_map, held_failed]
  show (∀ m ∈ held ((_ ++ []) ++ _), _) ↔ _
  rw [List.append_nil]
  refine forall_congr' fun m => ?_
  rw [mem_held_deselected, and_imp]
  refine imp_congr_right fun _ => imp_congr_right fun _ => and_congr_left fun _ => ?_
  cases ((dev.chain.reverse.map Prod.fst).drop j).head? with
  | none => constructor <;> intro h <;> cases h
  | some m' =>
      constructor
      · intro h
        injection h with h
        injection h with h
        rw [h]
      · intro h
        injection h with h
        rw [h]
        rfl

/-- **A device operation releases every mux that it selected exactly when** the first of its steps that
    fails, if one does, is where nothing is left selected behind it. -/
theorem released_iff_clean (answers : Nat → Answer) (call : DevCall) (dev : Dev) (flags : Flags)
    (hsel : flags.noMuxSelect = false) (hdesel : flags.noMuxDeselect = false) :
    Released (call.run answers dev flags .fresh).2.requests ↔
      Clean dev (firstFailure answers (call.transfer answers dev flags) dev.plan .fresh) := by
  rw [call_run_eq, devOp_eq _ _ hsel hdesel, run_requests (quiet_transfer dev flags call), released_iff]
  show held (sent dev.plan _) = [] ↔ _
  cases firstFailure answers (call.transfer answers dev flags) dev.plan .fresh with
  | none =>
      refine iff_of_true (List.eq_nil_iff_forall_not_mem.mpr fun m hm => ?_) trivial
      rw [sent, Dev.plan, List.flatMap_append, List.flatMap_cons, deselects_eq] at hm
      obtain ⟨hm, hnot⟩ := (mem_held_deselected _ _).mp hm
      rw [List.map_reverse, List.mem_reverse] at hnot
      exact hnot (mem_of_leftSelected hm)
  | some f =>
      rw [Clean]
      by_cases hf : f ≤ dev.chain.length
      · rw [if_pos hf]
        exact clean_of_le hf
      · obtain ⟨j, rfl⟩ : ∃ j, f = dev.chain.length + 1 + j := ⟨f - (dev.chain.length + 1), by omega⟩
        rw [if_neg hf, Nat.add_sub_cancel_left]
        exact clean_of_lt j

/-! ## Plain chains: every mux is there, and can be deselected -/

/-- A chain as devices have it: different muxes, each with a channel of its own and a driver that has a
    deselect value. -/
structure Plain (chain : List (MuxDevice × Int)) : Prop where
  different : (chain.map Prod.fst).Nodup
  channels : ∀ mc ∈ chain, mc.2 ≠ -1
  deselectable : ∀ mc ∈ chain, mc.1.knows (-1) = true

/-- In a chain without a channel -1 every mux is left selected. -/
theorem mem_leftSelected_of_plain {chain : List (MuxDevice × Int)}
    (h : ∀ mc ∈ chain, mc.2 ≠ -1) {mc : MuxDevice × Int} (hmc : mc ∈ chain) :
    mc.1 ∈ leftSelected chain := by
  obtain ⟨before, after, rfl⟩ := List.append_of_mem hmc
  refine mem_foldl_hold.mpr (Or.inr ⟨before.map fun mc => ⟨mc.1, mc.2, true⟩, ⟨mc.1, mc.2, true⟩,
    after.map fun mc => ⟨mc.1, mc.2, true⟩, ?_, rfl, h mc hmc, rfl, ?_⟩)
  · rw [List.map_append, List.map_cons]
  · intro d hd hchan
    obtain ⟨mc', hmc', rfl⟩ := List.mem_map.mp hd
    exact absurd hchan (h mc' (List.mem_append_right _ (List.mem_cons_of_mem _ hmc')))

/-- **Of a plain chain** only a failure of the first select or of the last deselect leaves nothing
    selected. -/
theorem clean_iff_of_plain {dev : Dev} (h : Plain dev.chain) (hne : dev.chain ≠ []) {f : Nat}
    (hf : f ≤ 2 * dev.chain.length) :
    Clean dev (some f) ↔ f = 0 ∨ f = 2 * dev.chain.length := by
  have hpos := List.length_pos_iff.mpr hne
  rw [Clean]
  by_cases hle : f ≤ dev.chain.length
  · rw [if_pos hle]
    constructor
    · intro hall
      by_cases hzero : f = 0
      · exact Or.inl hzero
      · -- the first mux is selected by now, and no channel of the chain is -1
        obtain ⟨mc, rest, hchain⟩ := List.exists_cons_of_ne_nil hne
        have hmc : mc ∈ dev.chain.take f := by
          obtain ⟨g, rfl⟩ : ∃ g, f = g + 1 := ⟨f - 1, by omega⟩
          rw [hchain]
          exact List.mem_cons_self
        obtain ⟨hhead, -⟩ := hall mc.1 (mem_leftSelected_of_plain
          (fun mc' hmc' => h.channels mc' (List.mem_of_mem_take hmc')) hmc)
        exact absurd rfl (h.channels (mc.1, -1)
          (List.mem_of_mem_drop (List.mem_of_mem_head? hhead)))
    · rintro (rfl | rfl)
      · exact fun m hm => absurd hm List.not_mem_nil
      · omega
  · obtain ⟨j, rfl⟩ : ∃ j, f = dev.chain.length + 1 + j := ⟨f - (dev.chain.length + 1), by omega⟩
    rw [if_neg hle, Nat.add_sub_cancel_left]
    dsimp only
    have hnodup : (dev.chain.reverse.map Prod.fst).Nodup := by
      rw [List.map_reverse]
      exact List.pairwise_reverse.mpr (h.different.imp fun hne => hne.symm)
    have hlen : (dev.chain.reverse.map Prod.fst).length = dev.chain.length := by
      rw [List.length_map, List.length_reverse]
    have hmem : ∀ m, m ∈ dev.chain.reverse.map Prod.fst → ∃ mc ∈ dev.chain, mc.1 = m := by
      intro m hm
      obtain ⟨mc, hmc, rfl⟩ := List.mem_map.mp hm
      exact ⟨mc, List.mem_reverse.mp hmc, rfl⟩
    have hsub : ∀ m ∈ leftSelected dev.chain, m ∈ dev.chain.reverse.map Prod.fst := by
      intro m hm
      rw [List.map_reverse, List.mem_reverse]
      exact mem_of_leftSelected hm
    generalize dev.chain.reverse.map Prod.fst = back at hnodup hlen hmem hsub
    have hsplit : back.take j ++ back.drop j = back := List.take_append_drop j back
    have hdrop : (back.drop j).length = dev.chain.length - j := by rw [List.length_drop, hlen]
    rcases hd : back.drop j with _ | ⟨m, _ | ⟨m', rest⟩⟩
    · rw [hd] at hdrop
      exact absurd hdrop (by simp only [List.length_nil]; omega)
    · rw [hd] at hdrop hsplit
      simp only [List.length_cons, List.length_nil] at hdrop
      refine iff_of_true (fun m' hm' hnot => ?_) (Or.inr (by omega))
      have hm := hsub m' hm'
      rw [← hsplit, List.mem_append] at hm
      obtain rfl := List.mem_singleton.mp (hm.resolve_left hnot)
      obtain ⟨mc, hmc, rfl⟩ := hmem m' (hsub m' hm')
      exact ⟨rfl, h.deselectable mc hmc⟩
    · rw [hd] at hdrop hsplit
      simp only [List.length_cons] at hdrop
      refine iff_of_false (fun hall => ?_) (by omega)
      rw [← hsplit] at hnodup hmem
      -- the mux behind the one whose deselect failed is still selected
      obtain ⟨mc, hmc, hmc'⟩ := hmem m' (by simp)
      obtain ⟨-, hback, hapart⟩ := List.nodup_append.mp hnodup
      have hnot : m' ∉ back.take j := fun hm => hapart m' hm m' (by simp) rfl
      obtain ⟨hhead, -⟩ := hall m' (hmc' ▸ mem_leftSelected_of_plain h.channels hmc) hnot
      injection hhead with hhead
      rw [hhead] at hback
      exact (List.nodup_cons.mp hback).1 List.mem_cons_self

/-! ## A transfer that fails -/

/-- `onlp_i2c_mux_driver_pca9548`, with the entries behind the initialised ones. -/
def pca9548 : MuxDriver where
  name := "PCA9548A"
  control := 0
  channels :=
    [(-1, 0x00), (0, 0x01), (1, 0x02), (2, 0x04), (3, 0x08), (4, 0x10), (5, 0x20), (6, 0x40),
      (7, 0x80)] ++ List.replicate 7 (0, 0)

/-- A mux at address 0x70. -/
def sampleMux : MuxDevice where
  name := "mux"
  bus := 1
  devaddr := 0x70
  driver := pca9548

/-- A device behind channel 0 of the mux. -/
def sampleDev : Dev where
  name := "dev"
  ichannels := ⟨some sampleMux, 0⟩ :: List.replicate 7 ⟨none, 0⟩
  pchannels := none
  bus := 1
  addr := 0x50

/-- Every call succeeds but the one with this number. -/
def failingAt (n : Nat) : Nat → Answer := fun k => ⟨if k = n then -1 else 3, []⟩

/-- The word is read, and the mux is off its channel. -/
theorem sampleDev_released :
    Released ((DevCall.readw 0).run (failingAt 11) sampleDev .none .fresh).2.requests := by
  have hnone : firstFailure (failingAt 11) ((DevCall.readw 0).transfer (failingAt 11) sampleDev .none)
      sampleDev.plan .fresh = none := by decide +kernel
  refine (released_iff_clean (failingAt 11) (.readw 0) sampleDev .none rfl rfl).mpr ?_
  rw [hnone]
  trivial

/-- The word cannot be read, and the mux stays on its channel. -/
theorem sampleDev_held :
    ¬ Released ((DevCall.readw 0).run (failingAt 10) sampleDev .none .fresh).2.requests := by
  have hrs : ((DevCall.readw 0).run (failingAt 10) sampleDev .none .fresh).2.requests =
      [⟨sampleMux, 0, true⟩] := by decide +kernel
  rw [hrs, released_iff]
  decide +kernel

end DentOS.I2c
