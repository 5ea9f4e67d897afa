/-
  Each thread alone runs its function.

  `Step` goes through the lists by cursors, element by element, and `updateTables` and
  `restructureTables` by recursion over the lists.  When the other thread stands still the two come to
  the same: from a state between two calls the steps of a thread lead to the state that its function
  leaves (`update_alone`, `restructure_alone`).  So every sequence of calls is one run of the two
  threads (`calls_reachable`).

  A loop step finds the next element in the list behind the work on this one, so what the loops need of
  a body is that it leaves what is still to come in place (`Advances`).
-/
import DentOS.Snmp.Exclusion

namespace DentOS.Snmp

open Effects Relation

section

variable {Data : Type}

/-! ## Loops over lists that do not change ahead of them -/

/-- The link behind a sensor is the first of the rest. -/
theorem linkBehind_append {p : Ptr} {todo : List Ptr} : ∀ {pre : List Ptr}, p ∉ pre →
    linkBehind p (pre ++ p :: todo) = todo.head?
  | [], _ => if_pos rfl
  | q :: pre, h => by
      have hq : q ≠ p := fun heq => h (heq ▸ List.mem_cons_self)
      show (if q = p then _ else linkBehind p (pre ++ p :: todo)) = _
      rw [if_neg hq]
      exact linkBehind_append fun hmem => h (List.mem_cons_of_mem q hmem)

/-- The sensors that a loop over a list has still to visit. -/
def Ahead (t : SensorType) (todo : List Ptr) (s : Agent Data) : Prop :=
  (s.sensors t).Nodup ∧ ∃ pre, s.sensors t = pre ++ todo

/-- Behind a sensor, the rest is ahead. -/
theorem Ahead.tail {t : SensorType} {p : Ptr} {todo : List Ptr} {s : Agent Data}
    (h : Ahead t (p :: todo) s) :
    Ahead t todo s := by
  obtain ⟨hnodup, pre, hpre⟩ := h
  refine ⟨hnodup, pre ++ [p], ?_⟩
  rw [hpre, List.append_assoc]
  rfl

/-- The work on an element leaves what is ahead, and the other lists. -/
def Advances (body : SensorType → Ptr → Run Data Unit) : Prop :=
  ∀ t p todo s s', Ahead t (p :: todo) s → body t p s = (.ok (), s') →
    Ahead t todo s' ∧ ∀ u, u ≠ t → s'.sensors u = s.sensors u

/-- Steps of a loop. -/
def LoopSteps (body : SensorType → Ptr → Run Data Unit) :
    Agent Data × Cursor → Agent Data × Cursor → Prop :=
  ReflTransGen fun x y => ∃ visited, LoopStep body x.1 x.2 visited y.1 y.2

/-- **The link of a sensor leads to the first that is still ahead.** -/
theorem linkBehind_of_ahead {t : SensorType} {p : Ptr} {todo : List Ptr} {s : Agent Data}
    (h : Ahead t (p :: todo) s) : linkBehind p (s.sensors t) = todo.head? := by
  obtain ⟨hnodup, pre, hpre⟩ := h
  rw [hpre] at hnodup ⊢
  refine linkBehind_append fun hmem => ?_
  exact (List.nodup_append.mp hnodup).2.2 p hmem p List.mem_cons_self rfl

/-- The loop over one list. -/
theorem loopSteps_list {body : SensorType → Ptr → Run Data Unit} (hbody : Advances body)
    {t : SensorType} (types : List SensorType) : ∀ {todo : List Ptr} {s s' : Agent Data},
    Ahead t todo s → Prog.forEach (body t) todo s = (.ok (), s') →
      LoopSteps body (s, ⟨t :: types, todo.head?⟩) (s', ⟨t :: types, none⟩) ∧
        ∀ u, u ≠ t → s'.sensors u = s.sensors u
  | [], s, s', _, h => by
      cases h
      exact ⟨ReflTransGen.refl, fun _ _ => rfl⟩
  | p :: todo, s, s', hahead, h => by
      obtain ⟨⟨⟩, s₁, hvisit, hrest⟩ := Prog.bind_returns h
      obtain ⟨hahead₁, hother₁⟩ := hbody t p todo s s₁ hahead hvisit
      obtain ⟨hsteps, hother⟩ := loopSteps_list hbody types hahead₁ hrest
      refine ⟨ReflTransGen.head ⟨some (t, p), ?_⟩ hsteps, fun u hu =>
        (hother u hu).trans (hother₁ u hu)⟩
      rw [← linkBehind_of_ahead hahead]
      exact .visit hvisit

/-- The loop over the lists of some types. -/
theorem loopSteps_types {body : SensorType → Ptr → Run Data Unit} (hbody : Advances body) :
    ∀ {types : List SensorType} {s s' : Agent Data}, types.Nodup →
      (∀ t ∈ types, (s.sensors t).Nodup) →
      Prog.forEach (fun t => do
        let s ← Prog.get
        Prog.forEach (body t) (s.sensors t)) types s = (.ok (), s') →
      LoopSteps body (s, s.enter types) (s', ⟨[], none⟩)
  | [], s, s', _, _, h => by
      cases h
      exact ReflTransGen.refl
  | t :: types, s, s', htypes, hnodup, h => by
      obtain ⟨ht, htypes⟩ := List.nodup_cons.mp htypes
      obtain ⟨⟨⟩, s₁, hlist, hrest⟩ := Prog.bind_returns h
      obtain ⟨hsteps, hother⟩ := loopSteps_list hbody types
        ⟨hnodup t List.mem_cons_self, [], rfl⟩ hlist
      have hnodup₁ : ∀ u ∈ types, (s₁.sensors u).Nodup := by
        intro u hu
        rw [hother u (fun heq => ht (heq ▸ hu))]
        exact hnodup u (List.mem_cons_of_mem t hu)
      have hnext := loopSteps_types hbody htypes hnodup₁ hrest
      exact hsteps.trans (ReflTransGen.head ⟨none, .nextList⟩ hnext)

/-- A body that leaves the lists. -/
theorem advances_of_sensors {body : SensorType → Ptr → Run Data Unit}
    (h : ∀ t p s s', body t p s = (.ok (), s') → s'.sensors = s.sensors) : Advances body := by
  intro t p todo s s' hahead hrun
  have hsame := h t p s s' hrun
  refine ⟨?_, fun u _ => by rw [hsame]⟩
  unfold Ahead
  rw [hsame]
  exact hahead.tail

/-- Both passes leave what is ahead. -/
theorem advances_body (phase : Phase) (sweep : Sweep Data) : Advances (phase.body sweep) :=
  advances_of_sensors fun t p s _ h => (written_of_keeps (written_body phase sweep t p s) h).sensors

/-- Removing a row leaves the lists of the sensors. -/
theorem sensors_deleteTableRow (lists : SensorType → List Ptr) (t : SensorType) (index : UInt32) :
    Prog.Keeps (fun s : Agent Data => s.sensors = lists) (deleteTableRow t index) := by
  intro s hs
  unfold deleteTableRow
  rw [Prog.get_bind_apply]
  cases s.sensorTable t with
  | none => exact hs
  | some table => exact hs

/-- Adding a row leaves the lists of the sensors. -/
theorem sensors_addTableRow (lists : SensorType → List Ptr) (t : SensorType) (p : Ptr) :
    Prog.Keeps (fun s : Agent Data => s.sensors = lists) (addTableRow t p) := by
  refine keeps_load_bind fun s ss hs _ => ?_
  rw [Prog.get_bind_apply]
  cases s.sensorTable t with
  | none => exact hs
  | some table =>
      dsimp only
      cases table.addRow ⟨ss.index, p⟩ with
      | none => exact hs
      | some table' => exact hs

/-- Freeing a sensor leaves the lists of the sensors. -/
theorem sensors_aimFree (lists : SensorType → List Ptr) (p : Ptr) :
    Prog.Keeps (fun s : Agent Data => s.sensors = lists) (aimFree p) := by
  refine keeps_load_bind fun s ss hs _ => ?_
  rw [Prog.get_bind_apply]
  have hfree : Prog.Keeps (fun s : Agent Data => s.sensors = lists)
      (if s.hasRow p then Prog.throw .freedWithRow else Prog.modify fun s => s.write p none :
        Run Data Unit) :=
    Prog.keeps_ite (Prog.keeps_throw _ _) (Prog.keeps_modify fun _ h => h)
  exact hfree s hs

/-- A program that returned, and keeps the lists. -/
theorem sensors_of_keeps {prog : Run Data Unit} {s s' : Agent Data}
    (hkeeps : ∀ lists, Prog.Keeps (fun s : Agent Data => s.sensors = lists) prog)
    (h : prog s = (.ok (), s')) : s'.sensors = s.sensors := by
  have hs := hkeeps s.sensors s rfl
  rwa [h] at hs

/-- The restructuring of a sensor removes at most the sensor. -/
theorem sensors_restructureSensor {t : SensorType} {p : Ptr} {s s' : Agent Data}
    (h : restructureSensor t p s = (.ok (), s')) :
    s'.sensors = s.sensors ∨ s'.sensors = (s.setSensors t ((s.sensors t).erase p)).sensors := by
  unfold restructureSensor at h
  obtain ⟨ss, s₀, hload, h⟩ := Prog.bind_returns h
  have hs₀ : s₀ = s := by
    unfold load at hload
    rw [Prog.get_bind_apply] at hload
    cases hp : s.heap p with
    | none =>
        rw [hp] at hload
        cases hload
    | some ss' =>
        rw [hp] at hload
        cases hload
        rfl
  rw [hs₀, Prog.get_bind_apply] at h
  split at h
  · exact Or.inl (sensors_of_keeps (fun lists => sensors_addTableRow lists t p) h)
  split at h
  · obtain ⟨⟨⟩, s₁, hdelete, h⟩ := Prog.bind_returns h
    have hs₁ := sensors_of_keeps (fun lists => sensors_deleteTableRow lists t ss.index) hdelete
    unfold listRemove at h
    rw [Prog.modify_bind_apply] at h
    have hs₂ := sensors_of_keeps (fun lists => sensors_aimFree lists p) h
    refine Or.inr (hs₂.trans ?_)
    unfold Agent.setSensors
    rw [hs₁]
  · cases h
    exact Or.inl rfl

/-- **Restructuring a sensor leaves what is ahead.** -/
theorem advances_restructureSensor :
    Advances (restructureSensor : SensorType → Ptr → Run Data Unit) := by
  intro t p todo s s' hahead hrun
  rcases sensors_restructureSensor hrun with hsame | hremoved
  · refine ⟨?_, fun u _ => by rw [hsame]⟩
    unfold Ahead
    rw [hsame]
    exact hahead.tail
  · obtain ⟨hnodup, pre, hpre⟩ := hahead
    have hself : s'.sensors t = (s.sensors t).erase p := by
      rw [hremoved]
      exact if_pos rfl
    refine ⟨⟨by rw [hself]; exact hnodup.erase p, pre, ?_⟩, fun u hu => ?_⟩
    · rw [hself, hpre]
      rw [hpre] at hnodup
      have hp : p ∉ pre := fun hmem =>
        (List.nodup_append.mp hnodup).2.2 p hmem p List.mem_cons_self rfl
      rw [List.erase_append_right _ hp, List.erase_cons_head]
    · rw [hremoved]
      exact if_neg hu

/-! ## restructure_tables__ -/

section

variable [Inhabited Data] {aim : AimList} {s : Agent Data}

/-- Steps of one of the threads. -/
theorem mainSteps_loop {pc : UpdatePc Data} {x y : Agent Data × Cursor}
    (h : LoopSteps restructureSensor x y) :
    ReflTransGen (Step aim) ⟨x.1, pc, .restructuring x.2⟩ ⟨y.1, pc, .restructuring y.2⟩ := by
  induction h with
  | refl => exact ReflTransGen.refl
  | tail _ hstep ih =>
      obtain ⟨visited, hstep⟩ := hstep
      exact ih.tail (.main (.loop hstep))

/-- The steps of a loop are steps of the system. -/
theorem updateSteps_loop {main : MainPc Data} {phase : Phase} {sweep : Sweep Data}
    {x y : Agent Data × Cursor} (h : LoopSteps (phase.body sweep) x y) :
    ReflTransGen (Step aim) ⟨x.1, .looping phase x.2, main⟩ ⟨y.1, .looping phase y.2, main⟩ := by
  induction h with
  | refl => exact ReflTransGen.refl
  | tail _ hstep ih =>
      obtain ⟨visited, hstep⟩ := hstep
      exact ih.tail (.update (.loop sweep hstep))

/-- **The main thread alone** runs `restructure_tables__`. -/
theorem restructure_alone (aim : AimList) (pc : UpdatePc Data) (h : Inv s) :
    ∃ s', restructureTables s = (.ok (), s') ∧ Inv s' ∧
      ReflTransGen (Step aim) ⟨s, pc, .idle⟩ ⟨s', pc, .idle⟩ := by
  by_cases htrigger : s.restructureTrigger = true
  · obtain ⟨⟨⟩, s₁, hrun, -⟩ := forEachSensor_restructure s (h.restructuring htrigger)
    obtain ⟨s', hall, hs'⟩ := restructureTables_triggered h htrigger
    have hloop := loopSteps_types advances_restructureSensor (by decide : sensorTypes.Nodup)
      (fun t _ => h.core.nodup t) hrun
    have hs₁ : s' = { s₁ with restructureTrigger := false } := by
      unfold restructureTables at hall
      rw [Prog.get_bind_apply, if_pos htrigger, Prog.bind_of_ok hrun] at hall
      cases hall
      rfl
    refine ⟨s', hall, hs'.inv, ?_⟩
    have hstart : Step aim ⟨s, pc, .idle⟩ ⟨s, pc, .restructuring (s.enter sensorTypes)⟩ := by
      have halarm := MainStep.alarm (s := s)
      rw [if_pos htrigger] at halarm
      exact .main halarm
    rw [hs₁]
    exact (ReflTransGen.head hstart (mainSteps_loop hloop)).tail (.main .done)
  · refine ⟨s, ?_, h, ReflTransGen.refl⟩
    unfold restructureTables
    rw [Prog.get_bind_apply, if_neg htrigger]
    rfl

/-! ## update_tables__ -/

/-- The search of `add_sensor__`. -/
theorem findSteps (aim : AimList) {t : SensorType} (new : Sensor Data) (main : MainPc Data) :
    ∀ {todo : List Ptr} {r : Option Ptr}, Ahead t todo s → (∀ p ∈ todo, ∃ ss, s.heap p = some ss) →
      findSensor new.sensorId todo s = (.ok r, s) →
      ReflTransGen (Step aim) ⟨s, .adding t new todo.head?, main⟩ ⟨s, .adding t new r, main⟩ ∧
        ∀ p, r = some p → ∃ ss, s.heap p = some ss ∧ new.sensorId = ss.sensorId
  | [], r, _, _, h => by
      cases h
      exact ⟨ReflTransGen.refl, nofun⟩
  | p :: todo, r, hahead, hlive, h => by
      obtain ⟨ss, hheap⟩ := hlive p List.mem_cons_self
      rw [findSensor, load_bind_apply hheap] at h
      by_cases hid : new.sensorId = ss.sensorId
      · rw [if_pos hid] at h
        cases h
        refine ⟨ReflTransGen.refl, fun q hq => ?_⟩
        cases hq
        exact ⟨ss, hheap, hid⟩
      · rw [if_neg hid] at h
        obtain ⟨hsteps, hfound⟩ := findSteps aim new main hahead.tail
          (fun q hq => hlive q (List.mem_cons_of_mem p hq)) h
        refine ⟨ReflTransGen.head ?_ hsteps, hfound⟩
        rw [← linkBehind_of_ahead hahead]
        exact .update (.other hheap hid)

/-- One OID of the discovery. -/
theorem collect_alone (aim : AimList) (oid : Oid) (main : MainPc Data) (h : Updating s) :
    ∃ s', collectSensors aim oid s = (.ok (), s') ∧ Updating s' ∧
      ReflTransGen (Step aim) ⟨s, .discovering, main⟩ ⟨s', .discovering, main⟩ := by
  obtain ⟨⟨⟩, s', hrun, hs'⟩ := collectSensors_spec aim oid s h
  refine ⟨s', hrun, hs', ?_⟩
  unfold collectSensors at hrun
  cases htype : oidSensorType oid with
  | none =>
      rw [htype] at hrun
      cases hrun
      exact ReflTransGen.single (.update (.skip htype))
  | some t =>
      rw [htype] at hrun
      have hlive : ∀ p ∈ s.sensors t, ∃ ss, s.heap p = some ss := fun p hp => by
        obtain ⟨ss, hheap, -⟩ := h.core.sound t p hp
        exact ⟨ss, hheap⟩
      obtain ⟨r, hfind, -, -⟩ := findSensor_spec oid hlive
      obtain ⟨hsteps, hfound⟩ := findSteps aim (newSensor oid) main
        ⟨h.core.nodup t, [], rfl⟩ hlive hfind
      have hadd : addSensor aim t (newSensor oid) s = (.ok (), s') := hrun
      unfold addSensor at hadd
      have hfind' : findSensor (newSensor oid : Sensor Data).sensorId (s.sensors t) s = (.ok r, s) :=
        hfind
      rw [Prog.get_bind_apply, Prog.bind_of_ok hfind'] at hadd
      refine (ReflTransGen.head (.update (.collect htype)) hsteps).tail ?_
      cases r with
      | some p =>
          obtain ⟨ss, hheap, hid⟩ := hfound p rfl
          exact .update (.found hheap hid hadd)
      | none => exact .update (.push hadd)

/-- The discovery as a whole is a run of the update thread's steps. -/
theorem discover_alone (aim : AimList) (main : MainPc Data) : ∀ {oids : List Oid} {s s' : Agent Data},
    Updating s → Prog.forEach (collectSensors aim) oids s = (.ok (), s') →
      ReflTransGen (Step aim) ⟨s, .discovering, main⟩ ⟨s', .discovering, main⟩
  | [], s, s', _, h => by
      cases h
      exact ReflTransGen.refl
  | oid :: oids, s, s', hs, h => by
      obtain ⟨s₁, hrun, hs₁, hsteps⟩ := collect_alone aim oid main hs
      rw [Prog.forEach, Prog.bind_of_ok hrun] at h
      exact hsteps.trans (discover_alone aim main hs₁ h)

/-- A loop of `update_tables__`, up to its end. -/
theorem loop_alone (aim : AimList) (main : MainPc Data) (phase : Phase) (sweep : Sweep Data)
    {s' : Agent Data} (h : Updating s)
    (hrun : forEachSensor (phase.body sweep) s = (.ok (), s')) :
    ReflTransGen (Step aim) ⟨s, .looping phase (s.enter sensorTypes), main⟩ ⟨s', phase.next, main⟩ := by
  have hloop := loopSteps_types (advances_body phase sweep) (by decide : sensorTypes.Nodup)
    (fun t _ => h.core.nodup t) hrun
  exact (updateSteps_loop hloop).tail (.update .loopEnd)

/-- **A whole sweep is a run of the update thread's steps**, from its time stamp to the sleep behind it. -/
theorem sweep_alone (aim : AimList) (sweep : Sweep Data) (main : MainPc Data) (h : Updating s) :
    ∃ s', sweepTables aim sweep s = (.ok (), s') ∧ Inv s' ∧
      ReflTransGen (Step aim) ⟨s, .stamp sweep.now, main⟩ ⟨s', .asleep, main⟩ := by
  let s₁ : Agent Data := { s with lastSensorUpdateTime := sweep.now }
  have h₁ : Updating s₁ :=
    ⟨⟨h.core.sound, h.core.nodup, h.core.unique, h.core.fresh, h.core.tables⟩, h.notTriggered, h.rows⟩
  obtain ⟨⟨⟩, s₂, hmark, h₂⟩ :=
    forEachSensor_spec (fun _ _ _ hp => setNextValid_spec false hp) s₁ h₁
  have hcollect : ∀ oid ∈ sweep.oids,
      Prog.Triple Updating (collectSensors aim oid : Run Data Unit) fun _ => Updating :=
    fun oid _ => collectSensors_spec aim oid
  obtain ⟨⟨⟩, s₃, hdiscover, h₃⟩ := Prog.triple_forEach_of_mem hcollect s₂ h₂
  obtain ⟨⟨⟩, s₄, hupdate, h₄⟩ :=
    forEachSensor_spec (fun _ _ _ hp => updateSensor_spec sweep hp) s₃ h₃
  refine ⟨_, ?_, h₄.swap, ?_⟩
  · unfold sweepTables
    rw [Prog.modify_bind_apply, Prog.bind_of_ok hmark, Prog.bind_of_ok hdiscover,
      Prog.bind_of_ok hupdate]
    rfl
  · have hmarking := loop_alone aim main .mark sweep h₁ hmark
    have hdiscovering := discover_alone aim main h₂ hdiscover
    have hupdating := loop_alone aim main .update sweep h₃ hupdate
    have hstart := (ReflTransGen.head (.update .stamp) hmarking).trans hdiscovering
    exact (((hstart.tail (.update .discovered)).trans hupdating).tail (.update (.swap rfl))).tail
      (.update .trigger)

/-- **The update thread alone** runs `update_tables__`. -/
theorem update_alone (aim : AimList) (sweep : Sweep Data) (main : MainPc Data) (h : Inv s) :
    ∃ s', updateTables aim sweep s = (.ok (), s') ∧ Inv s' ∧
      ReflTransGen (Step aim) ⟨s, .asleep, main⟩ ⟨s', .asleep, main⟩ := by
  have hwake : Step aim ⟨s, .asleep, main⟩ _ := .update (.wake sweep.now)
  unfold updateTables
  rw [Prog.get_bind_apply]
  by_cases htime : sweep.now - s.lastSensorUpdateTime < updatePeriod
  · rw [if_pos htime]
    exact ⟨s, rfl, h, ReflTransGen.refl⟩
  rw [if_neg htime] at hwake ⊢
  have hcheck : Step aim ⟨s, .checkTrigger sweep.now, main⟩ _ := .update .checkTrigger
  by_cases htrigger : s.restructureTrigger = true
  · rw [if_pos htrigger]
    exact ⟨s, rfl, h, ReflTransGen.refl⟩
  rw [if_neg htrigger] at hcheck ⊢
  have hrows := h.rows
  simp only [if_neg htrigger] at hrows
  obtain ⟨s', hrun, hs', hsteps⟩ := sweep_alone aim sweep main
    ⟨h.core, Bool.eq_false_iff.mpr htrigger, hrows⟩
  exact ⟨s', hrun, hs', ReflTransGen.head hwake (ReflTransGen.head hcheck hsteps)⟩

/-! ## Sequences of calls are runs of the threads -/

/-- **Every sequence of calls is a run of the two threads.** -/
theorem calls_reachable (aim : AimList) : ∀ (calls : List (Call Data)) {s : Agent Data}, Inv s →
    ∃ s', Prog.forEach (Call.run aim) calls s = (.ok (), s') ∧
      ReflTransGen (Step aim) ⟨s, .asleep, .idle⟩ ⟨s', .asleep, .idle⟩
  | [], s, _ => ⟨s, rfl, ReflTransGen.refl⟩
  | call :: calls, s, h => by
      have hcall : ∃ s₁, Call.run aim call s = (.ok (), s₁) ∧ Inv s₁ ∧
          ReflTransGen (Step aim) ⟨s, .asleep, .idle⟩ ⟨s₁, .asleep, .idle⟩ := by
        cases call with
        | update sweep => exact update_alone aim sweep .idle h
        | restructure => exact restructure_alone aim .asleep h
      obtain ⟨s₁, hrun, hs₁, hsteps⟩ := hcall
      obtain ⟨s', hrest, hsteps'⟩ := calls_reachable aim calls hs₁
      exact ⟨s', by rw [Prog.forEach, Prog.bind_of_ok hrun, hrest], hsteps.trans hsteps'⟩

end

end

end DentOS.Snmp
