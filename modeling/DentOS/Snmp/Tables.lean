/-
  The SNMP tables follow the sensor lists.

  `restructure_tables__` goes through the lists while the next buffer tells about rows, and makes the
  current buffer tell, sensor by sensor (`Restructuring`, `restructureSensor_spec`): it adds the row of
  a sensor that has become valid, and deletes the row of one that has become invalid before it frees
  the sensor.  Behind the loop the current buffer tells about all of them.

  `Inv` is what holds between two calls, and `tables_consistent` is what it says of whole runs.

  The pass over a list takes a sensor out of it where it frees one, so the induction carries the
  sensors that are pending, and not the list.  Rows of other types and of other sensors stay, which
  `rowOf_congr` and `Core.rowOf_other` say once for all cases.
-/
import DentOS.Snmp.Updating

namespace DentOS.Snmp

open Effects

section

variable {Data : Type} {s : Agent Data} {t : SensorType} {p : Ptr} {ss : Sensor Data}

/-! ## One pass of the restructuring, sensor by sensor -/

/-- No sensor is in two lists. -/
theorem Core.disjoint (h : Core s) {u : SensorType} (ht : p ∈ s.sensors t) (hu : p ∈ s.sensors u) :
    t = u := by
  obtain ⟨ss, hheap, htype, -⟩ := h.sound t p ht
  obtain ⟨ss', hheap', htype', -⟩ := h.sound u p hu
  rw [hheap] at hheap'
  cases hheap'
  rw [htype] at htype'
  injection htype'

/-- Within a list, the index tells sensors apart. -/
theorem Core.eq_of_index (h : Core s) {q : Ptr} {ss' : Sensor Data} (hp : p ∈ s.sensors t)
    (hq : q ∈ s.sensors t) (hheap : s.heap p = some ss) (hheap' : s.heap q = some ss')
    (hindex : ss.index = ss'.index) : p = q := by
  obtain ⟨ss₁, h₁, htype₁, hindex₁⟩ := h.sound t p hp
  obtain ⟨ss₂, h₂, htype₂, hindex₂⟩ := h.sound t q hq
  rw [hheap] at h₁
  rw [hheap'] at h₂
  cases h₁
  cases h₂
  exact h.unique t p q ss ss' hp hq hheap hheap'
    (oid_eq_of_sensorType htype₁ htype₂ (by rw [← hindex₁, ← hindex₂, hindex]))

/-- There is a table for every list that has sensors. -/
theorem Core.table (h : Core s) (hp : p ∈ s.sensors t) : ∃ table, s.sensorTable t = some table := by
  obtain ⟨ss, -, htype, -⟩ := h.sound t p hp
  exact Option.isSome_iff_exists.mp ((h.tables t).trans (initialTable_of_oid htype))

/-- While the tables are restructured: the next buffer tells for the sensors still to come. -/
def telling (pending : List Ptr) (s : Agent Data) (p : Ptr) : Fin 2 :=
  if p ∈ pending then s.nextInfo else s.currInfo

/-- The invariant in the middle of restructuring: pending sensors have their row by the next buffer, the
    others by the current one. -/
structure Restructuring (pending : List Ptr) (s : Agent Data) : Prop where
  core : Core s
  triggered : s.restructureTrigger = true
  rows : RowsBy (telling pending s) s

variable {pending : List Ptr} {bs bs' : Ptr → Fin 2} {r : Row}

/-- One more pending sensor does not change which buffer tells another's row. -/
theorem telling_cons_of_ne {q : Ptr} (h : q ≠ p) :
    telling (p :: pending) s q = telling pending s q := by
  unfold telling
  by_cases hq : q ∈ pending
  · rw [if_pos hq, if_pos (List.mem_cons_of_mem p hq)]
  · rw [if_neg hq, if_neg fun hmem => (List.mem_cons.mp hmem).elim h hq]

/-- The row of one sensor, and those of the others. -/
theorem rowOf_iff (hp : p ∈ s.sensors t) (hheap : s.heap p = some ss) : RowOf bs s t r ↔
    (r = ⟨ss.index, p⟩ ∧ (ss.sensorInfo (bs p)).valid = true) ∨ (r.data ≠ p ∧ RowOf bs s t r) := by
  constructor
  · rintro ⟨q, hq, ss', hheap', hvalid, hr⟩
    by_cases hqp : q = p
    · subst hqp
      rw [hheap] at hheap'
      cases hheap'
      exact Or.inl ⟨hr, hvalid⟩
    · exact Or.inr ⟨by rw [hr]; exact hqp, q, hq, ss', hheap', hvalid, hr⟩
  · rintro (⟨hr, hvalid⟩ | ⟨-, hrow⟩)
    · exact ⟨p, hp, ss, hheap, hvalid, hr⟩
    · exact hrow

/-- The row of another sensor does not depend on it. -/
theorem rowOf_congr (h : ∀ q, q ≠ p → bs q = bs' q) (hr : r.data ≠ p) :
    RowOf bs s t r ↔ RowOf bs' s t r := by
  constructor
  · rintro ⟨q, hq, ss', hheap', hvalid, rfl⟩
    exact ⟨q, hq, ss', hheap', by rw [← h q hr, hvalid], rfl⟩
  · rintro ⟨q, hq, ss', hheap', hvalid, rfl⟩
    exact ⟨q, hq, ss', hheap', by rw [h q hr, hvalid], rfl⟩

/-- A row of another list is not one of `p`. -/
theorem Core.data_ne (h : Core s) {u : SensorType} (hp : p ∈ s.sensors t) (hu : u ≠ t)
    (hrow : RowOf bs s u r) : r.data ≠ p := by
  obtain ⟨q, hq, ss', -, -, rfl⟩ := hrow
  rintro rfl
  exact hu (h.disjoint hq hp)

/-- A row of another type does not depend on the sensor. -/
theorem Core.rowOf_other (h : Core s) {u : SensorType} (hp : p ∈ s.sensors t) (hu : u ≠ t)
    (hbs : ∀ q, q ≠ p → bs q = bs' q) : RowOf bs s u r ↔ RowOf bs' s u r :=
  ⟨fun hrow => (rowOf_congr hbs (h.data_ne hp hu hrow)).mp hrow,
    fun hrow => (rowOf_congr hbs (h.data_ne hp hu hrow)).mpr hrow⟩

/-- Nothing changes: the two buffers agree. -/
theorem Restructuring.same (h : Restructuring (p :: pending) s) (hp : p ∈ s.sensors t)
    (hnew : p ∉ pending) (hheap : s.heap p = some ss)
    (hsame : (s.getNextInfo ss).valid = (s.getCurrInfo ss).valid) : Restructuring pending s where
  core := h.core
  triggered := h.triggered
  rows u table htable r := by
    rw [h.rows u table htable r]
    by_cases hu : u = t
    · subst hu
      refine ((rowOf_iff hp hheap).trans (or_congr (and_congr_right fun _ => ?_)
        (and_congr_right fun hr => rowOf_congr (fun q => telling_cons_of_ne) hr))).trans
          (rowOf_iff hp hheap).symm
      rw [show telling (p :: pending) s p = s.nextInfo from if_pos List.mem_cons_self,
        show telling pending s p = s.currInfo from if_neg hnew,
        show (ss.sensorInfo s.nextInfo).valid = (ss.sensorInfo s.currInfo).valid from hsame]
    · exact h.core.rowOf_other hp hu fun q => telling_cons_of_ne

/-- Setting a table keeps the core of the invariant. -/
theorem Core.setTable (h : Core s) (hp : p ∈ s.sensors t) (table : Tdata) :
    Core (s.setTable t table) where
  sound := h.sound
  nodup := h.nodup
  unique := h.unique
  fresh := h.fresh
  tables u := by
    by_cases hu : u = t
    · subst hu
      obtain ⟨ss, -, htype, -⟩ := h.sound u p hp
      have hself : (s.setTable u table).sensorTable u = some table := if_pos rfl
      rw [hself, initialTable_of_oid htype]
      rfl
    · have hother : (s.setTable t table).sensorTable u = s.sensorTable u := if_neg hu
      rw [hother, h.tables u]

/-- The row of a sensor that has become valid is added. -/
theorem Restructuring.addRow (h : Restructuring (p :: pending) s) (hp : p ∈ s.sensors t)
    (hnew : p ∉ pending) (hheap : s.heap p = some ss) (hprev : (s.getNextInfo ss).valid = false)
    (hnow : (s.getCurrInfo ss).valid = true) :
    ∃ s', addTableRow t p s = (.ok (), s') ∧ Restructuring pending s' ∧ s'.sensors = s.sensors := by
  obtain ⟨table, htable⟩ := h.core.table hp
  have hnext : telling (p :: pending) s p = s.nextInfo := if_pos List.mem_cons_self
  have hother : ∀ r, r ∈ table.rows → r.data ≠ p := by
    intro r hr
    rcases (rowOf_iff hp hheap).mp ((h.rows t table htable r).mp hr) with ⟨-, hvalid⟩ | ⟨hne, -⟩
    · rw [hnext] at hvalid
      exact absurd (hvalid.symm.trans hprev) (by decide)
    · exact hne
  have hfree : ∀ r ∈ table.rows, ss.index ≠ r.index := by
    intro r hr hindex
    have hne := hother r hr
    obtain ⟨q, hq, ss', hheap', -, rfl⟩ := (h.rows t table htable r).mp hr
    exact hne (h.core.eq_of_index hp hq hheap hheap' hindex).symm
  obtain ⟨table', hadd⟩ := Tdata.addRow_of_free ⟨ss.index, p⟩ hfree
  refine ⟨s.setTable t table', ?_, ⟨h.core.setTable hp table', h.triggered, ?_⟩, rfl⟩
  · unfold addTableRow
    rw [load_bind_apply hheap, Prog.get_bind_apply, htable]
    dsimp only
    rw [hadd]
    rfl
  · intro u tab htab r
    by_cases hu : u = t
    · subst hu
      have hself : (s.setTable u table').sensorTable u = some table' := if_pos rfl
      rw [hself] at htab
      cases htab
      show _ ↔ RowOf (telling pending s) s u r
      rw [Tdata.mem_addRow hadd, rowOf_iff hp hheap,
        show telling pending s p = s.currInfo from if_neg hnew]
      refine or_congr ⟨fun hr => ⟨hr, hnow⟩, fun hr => hr.1⟩ ?_
      rw [h.rows u table htable r]
      refine ⟨fun hrow => ?_, fun ⟨hr, hrow⟩ => (rowOf_congr (fun q => telling_cons_of_ne) hr).mpr hrow⟩
      have hr := hother r ((h.rows u table htable r).mpr hrow)
      exact ⟨hr, (rowOf_congr (fun q => telling_cons_of_ne) hr).mp hrow⟩
    · have hold : (s.setTable t table').sensorTable u = s.sensorTable u := if_neg hu
      rw [hold] at htab
      rw [h.rows u tab htab r]
      exact h.core.rowOf_other hp hu fun q => telling_cons_of_ne

/-! ### A sensor that is freed -/

/-- The state behind the pass that deletes a row and frees its sensor. -/
def removed (t : SensorType) (p : Ptr) (table : Tdata) (s : Agent Data) : Agent Data :=
  ((s.setTable t table).setSensors t ((s.sensors t).erase p)).write p none

/-- Behind a removal, the lists have every sensor but that one. -/
theorem Core.mem_removed (h : Core s) (hp : p ∈ s.sensors t) (table : Tdata) {u : SensorType}
    {q : Ptr} : q ∈ (removed t p table s).sensors u ↔ q ≠ p ∧ q ∈ s.sensors u := by
  by_cases hu : u = t
  · subst hu
    have hself : (removed u p table s).sensors u = (s.sensors u).erase p := if_pos rfl
    rw [hself, (h.nodup u).mem_erase_iff]
  · have hother : (removed t p table s).sensors u = s.sensors u := if_neg hu
    rw [hother]
    refine ⟨fun hq => ⟨?_, hq⟩, fun hq => hq.2⟩
    rintro rfl
    exact hu (h.disjoint hq hp)

/-- The memory of every other sensor stays. -/
theorem removed_heap_of_ne (table : Tdata) {q : Ptr} (h : q ≠ p) :
    (removed t p table s).heap q = s.heap q := if_neg h

/-- A removal keeps the core of the invariant. -/
theorem Core.removed (h : Core s) (hp : p ∈ s.sensors t) (table : Tdata) :
    Core (removed t p table s) where
  sound u q hq := by
    obtain ⟨hne, hq⟩ := (h.mem_removed hp table).mp hq
    rw [removed_heap_of_ne table hne]
    exact h.sound u q hq
  nodup u := by
    by_cases hu : u = t
    · subst hu
      have hself : (DentOS.Snmp.removed u p table s).sensors u = (s.sensors u).erase p := if_pos rfl
      rw [hself]
      exact (h.nodup u).erase p
    · have hother : (DentOS.Snmp.removed t p table s).sensors u = s.sensors u := if_neg hu
      rw [hother]
      exact h.nodup u
  unique u q q' ss ss' hq hq' hheap hheap' hid := by
    obtain ⟨hne, hq⟩ := (h.mem_removed hp table).mp hq
    obtain ⟨hne', hq'⟩ := (h.mem_removed hp table).mp hq'
    rw [removed_heap_of_ne table hne] at hheap
    rw [removed_heap_of_ne table hne'] at hheap'
    exact h.unique u q q' ss ss' hq hq' hheap hheap' hid
  fresh q hq := by
    by_cases hqp : q = p
    · exact if_pos hqp
    · rw [removed_heap_of_ne table hqp]
      exact h.fresh q hq
  tables := (h.setTable hp table).tables

/-- Behind a removal, the rows are those of the other sensors. -/
theorem Core.rowOf_removed (h : Core s) (hp : p ∈ s.sensors t) {table : Tdata} {u : SensorType} :
    RowOf bs (DentOS.Snmp.removed t p table s) u r ↔ r.data ≠ p ∧ RowOf bs s u r := by
  constructor
  · rintro ⟨q, hq, ss', hheap', hvalid, rfl⟩
    obtain ⟨hne, hq⟩ := (h.mem_removed hp table).mp hq
    rw [removed_heap_of_ne table hne] at hheap'
    exact ⟨hne, q, hq, ss', hheap', hvalid, rfl⟩
  · rintro ⟨hne, q, hq, ss', hheap', hvalid, rfl⟩
    exact ⟨q, (h.mem_removed hp table).mpr ⟨hne, hq⟩, ss',
      by rw [removed_heap_of_ne table hne, hheap'], hvalid, rfl⟩

/-- Behind the deletion of its row, no row points to the sensor. -/
theorem Restructuring.not_hasRow (h : Restructuring pending s) {table : Tdata}
    (hp : p ∈ s.sensors t) (hheap : s.heap p = some ss) (htable : s.sensorTable t = some table) :
    ((s.setTable t (table.deleteRow ss.index)).setSensors t ((s.sensors t).erase p)).hasRow p =
      false := by
  refine List.any_eq_false.mpr fun u _ hany => ?_
  obtain ⟨tab, htab, hrows⟩ := (Option.any_eq_true _ _).mp hany
  obtain ⟨r, hr, hdata⟩ := List.any_eq_true.mp hrows
  have hdata : r.data = p := beq_iff_eq.mp hdata
  by_cases hu : u = t
  · subst hu
    have hself : (s.setTable u (table.deleteRow ss.index)).sensorTable u =
      some (table.deleteRow ss.index) := if_pos rfl
    have htab : some (table.deleteRow ss.index) = some tab := hself.symm.trans htab
    cases htab
    obtain ⟨hr, hindex⟩ := (Tdata.mem_deleteRow table ss.index r).mp hr
    rcases (rowOf_iff hp hheap).mp ((h.rows u table htable r).mp hr) with ⟨rfl, -⟩ | ⟨hne, -⟩
    · exact hindex rfl
    · exact hne hdata
  · have hold : (s.setTable t (table.deleteRow ss.index)).sensorTable u = s.sensorTable u := if_neg hu
    have htab : s.sensorTable u = some tab := hold.symm.trans htab
    exact h.core.data_ne hp hu ((h.rows u tab htab r).mp hr) hdata

/-- The row of a sensor that has become invalid is deleted, and the sensor freed. -/
theorem Restructuring.remove (h : Restructuring (p :: pending) s) (hp : p ∈ s.sensors t)
    (hheap : s.heap p = some ss) :
    ∃ s', (do
        deleteTableRow t ss.index
        listRemove t p
        aimFree p : Run Data Unit) s = (.ok (), s') ∧ Restructuring pending s' ∧
      (∀ u, u ≠ t → s'.sensors u = s.sensors u) ∧ ∀ q ∈ s.sensors t, q ≠ p → q ∈ s'.sensors t := by
  obtain ⟨table, htable⟩ := h.core.table hp
  refine ⟨removed t p (table.deleteRow ss.index) s, ?_,
    ⟨h.core.removed hp _, h.triggered, ?_⟩, fun u hu => if_neg hu, fun q hq hne =>
      (h.core.mem_removed hp _).mpr ⟨hne, hq⟩⟩
  · have hdelete : deleteTableRow t ss.index s =
        (.ok (), s.setTable t (table.deleteRow ss.index)) := by
      unfold deleteTableRow
      rw [Prog.get_bind_apply, htable]
      rfl
    rw [Prog.bind_of_ok hdelete]
    unfold listRemove
    rw [Prog.modify_bind_apply]
    unfold aimFree
    let s₁ := (s.setTable t (table.deleteRow ss.index)).setSensors t ((s.sensors t).erase p)
    have hheap₁ : s₁.heap p = some ss := hheap
    refine (load_bind_apply hheap₁ _).trans ?_
    rw [Prog.get_bind_apply]
    exact (if_neg (Bool.eq_false_iff.mp (h.not_hasRow hp hheap htable)) ▸ rfl)
  · intro u tab htab r
    rw [h.core.rowOf_removed hp]
    by_cases hu : u = t
    · subst hu
      have hself : (removed u p (table.deleteRow ss.index) s).sensorTable u =
        some (table.deleteRow ss.index) := if_pos rfl
      rw [hself] at htab
      cases htab
      rw [Tdata.mem_deleteRow, h.rows u table htable r]
      constructor
      · rintro ⟨hrow, hindex⟩
        rcases (rowOf_iff hp hheap).mp hrow with ⟨rfl, -⟩ | ⟨hr, hrow⟩
        · exact absurd rfl hindex
        · exact ⟨hr, (rowOf_congr (fun q => telling_cons_of_ne) hr).mp hrow⟩
      · rintro ⟨hr, hrow⟩
        refine ⟨(rowOf_congr (fun q => telling_cons_of_ne) hr).mpr hrow, fun hindex => ?_⟩
        obtain ⟨q, hq, ss', hheap', -, rfl⟩ := hrow
        exact hr (h.core.eq_of_index hq hp hheap' hheap hindex)
    · have hold : (removed t p (table.deleteRow ss.index) s).sensorTable u = s.sensorTable u := if_neg hu
      rw [hold] at htab
      have hsame : RowOf (telling (p :: pending) s) s u r ↔ RowOf (telling pending s) s u r :=
        h.core.rowOf_other hp hu fun q => telling_cons_of_ne
      rw [h.rows u tab htab r, hsame]
      exact ⟨fun hrow => ⟨h.core.data_ne hp hu hrow, hrow⟩, fun hrow => hrow.2⟩

/-- **One pass**: the current buffer becomes the one that tells about the sensor. -/
theorem restructureSensor_spec (h : Restructuring (p :: pending) s) (hp : p ∈ s.sensors t)
    (hnew : p ∉ pending) : ∃ s', restructureSensor t p s = (.ok (), s') ∧ Restructuring pending s' ∧
      (∀ u, u ≠ t → s'.sensors u = s.sensors u) ∧ ∀ q ∈ s.sensors t, q ≠ p → q ∈ s'.sensors t := by
  obtain ⟨ss, hheap, -⟩ := h.core.sound t p hp
  unfold restructureSensor
  rw [load_bind_apply hheap, Prog.get_bind_apply]
  cases hprev : (s.getNextInfo ss).valid <;> cases hnow : (s.getCurrInfo ss).valid
  case false.true =>
    obtain ⟨s', hrun, hs', hsensors⟩ := h.addRow hp hnew hheap hprev hnow
    exact ⟨s', hrun, hs', fun u _ => by rw [hsensors], fun q hq _ => by rw [hsensors]; exact hq⟩
  case true.false => exact h.remove hp hheap
  all_goals
    exact ⟨s, rfl, h.same hp hnew hheap (by rw [hprev, hnow]), fun _ _ => rfl, fun _ hq _ => hq⟩

/-! ## restructure_tables__ -/

/-- The loop over one list; `pending` are the sensors of the lists to come. -/
theorem restructureList_spec (t : SensorType) (pending : List Ptr)
    (lists : SensorType → List Ptr) : ∀ todo : List Ptr,
    Prog.Triple
      (fun s => Restructuring (todo ++ pending) s ∧ (∀ q ∈ todo, q ∈ s.sensors t) ∧
        (todo ++ pending).Nodup ∧ ∀ u, u ≠ t → s.sensors u = lists u)
      (Prog.forEach (restructureSensor t) todo : Run Data Unit)
      fun _ s => Restructuring pending s ∧ ∀ u, u ≠ t → s.sensors u = lists u := by
  intro todo
  refine Prog.triple_post (Prog.triple_forEach (fun todo s =>
      Restructuring (todo ++ pending) s ∧ (∀ q ∈ todo, q ∈ s.sensors t) ∧ (todo ++ pending).Nodup ∧
        ∀ u, u ≠ t → s.sensors u = lists u) (fun p todo => ?_) todo)
    fun _ s h => ⟨h.1, h.2.2.2⟩
  rintro s ⟨hs, hmem, hnodup, hlists⟩
  obtain ⟨hnew, hnodup'⟩ := List.nodup_cons.mp hnodup
  obtain ⟨s', hrun, hs', hother, hkept⟩ := restructureSensor_spec hs (hmem p List.mem_cons_self) hnew
  refine ⟨(), s', hrun, hs', fun q hq => ?_, hnodup', fun u hu => (hother u hu).trans (hlists u hu)⟩
  refine hkept q (hmem q (List.mem_cons_of_mem p hq)) fun heq => hnew ?_
  rw [← heq]
  exact List.mem_append_left pending hq

/-- The sensors of some lists. -/
def sensorsOf (s : Agent Data) (types : List SensorType) : List Ptr := types.flatMap s.sensors

/-- No sensor is visited twice. -/
theorem Core.nodup_sensorsOf (h : Core s) : ∀ {types : List SensorType}, types.Nodup →
    (sensorsOf s types).Nodup
  | [], _ => List.Pairwise.nil
  | t :: types, htypes => by
      obtain ⟨ht, htypes⟩ := List.nodup_cons.mp htypes
      refine List.nodup_append.mpr ⟨h.nodup t, h.nodup_sensorsOf htypes, fun p hp q hq heq => ?_⟩
      obtain ⟨u, hu, hq⟩ := List.mem_flatMap.mp hq
      rw [← heq] at hq
      rw [h.disjoint hp hq] at ht
      exact ht hu

/-- Which sensors are visited depends on their lists only. -/
theorem sensorsOf_congr {s' : Agent Data} {types : List SensorType} (ht : t ∉ types)
    (h : ∀ u, u ≠ t → s'.sensors u = s.sensors u) : sensorsOf s' types = sensorsOf s types := by
  rw [sensorsOf, sensorsOf, List.flatMap_def, List.flatMap_def]
  refine congrArg List.flatten (List.map_congr_left fun u hu => h u ?_)
  rintro rfl
  exact ht hu

/-- The loop over all lists. -/
theorem forEachSensor_restructure : Prog.Triple
    (fun s => Restructuring (sensorsOf s sensorTypes) s) (forEachSensor restructureSensor)
    fun _ (s : Agent Data) => Restructuring [] s := by
  refine Prog.triple_pre (Prog.triple_post (Prog.triple_forEach (fun types s =>
      types.Nodup ∧ Restructuring (sensorsOf s types) s) (fun t types => ?_) sensorTypes)
    fun _ s h => h.2) fun s h => ⟨by decide, h⟩
  refine Prog.triple_get fun s ⟨hnodup, hs⟩ => ?_
  rintro s₁ rfl
  obtain ⟨ht, htypes⟩ := List.nodup_cons.mp hnodup
  obtain ⟨a, s₂, hrun, hs₂, hlists⟩ := restructureList_spec t (sensorsOf s₁ types) s₁.sensors
    (s₁.sensors t) s₁
    ⟨hs, fun _ hq => hq, hs.core.nodup_sensorsOf hnodup, fun _ _ => rfl⟩
  refine ⟨a, s₂, hrun, htypes, ?_⟩
  rw [sensorsOf_congr ht hlists]
  exact hs₂

/-- Which rows there are depends on the buffers of the sensors only. -/
theorem RowsBy.congr (h : RowsBy bs s) (hbs : ∀ t, ∀ p ∈ s.sensors t, bs p = bs' p) :
    RowsBy bs' s := by
  intro t table htable r
  rw [h t table htable r]
  constructor
  · rintro ⟨p, hp, ss, hheap, hvalid, hr⟩
    exact ⟨p, hp, ss, hheap, by rw [← hbs t p hp, hvalid], hr⟩
  · rintro ⟨p, hp, ss, hheap, hvalid, hr⟩
    exact ⟨p, hp, ss, hheap, by rw [hbs t p hp, hvalid], hr⟩

/-- Every type is in the list of types. -/
theorem mem_sensorTypes (t : SensorType) : t ∈ sensorTypes := by
  cases t <;> decide

/-- All sensors are still to come. -/
theorem Inv.restructuring (h : Inv s) (htrigger : s.restructureTrigger = true) :
    Restructuring (sensorsOf s sensorTypes) s where
  core := h.core
  triggered := htrigger
  rows := h.rows.congr fun t p hp => by
    rw [if_pos htrigger]
    exact (if_pos (List.mem_flatMap.mpr ⟨t, mem_sensorTypes t, hp⟩)).symm

/-- `restructure_tables__`, when the trigger is set. -/
theorem restructureTables_triggered (h : Inv s) (htrigger : s.restructureTrigger = true) :
    ∃ s', restructureTables s = (.ok (), s') ∧ Updating s' := by
  obtain ⟨a, s', hrun, hs'⟩ := forEachSensor_restructure s (h.restructuring htrigger)
  refine ⟨{ s' with restructureTrigger := false }, ?_,
    ⟨hs'.core.sound, hs'.core.nodup, hs'.core.unique, hs'.core.fresh, hs'.core.tables⟩, rfl, ?_⟩
  · unfold restructureTables
    rw [Prog.get_bind_apply, if_pos htrigger, Prog.bind_of_ok hrun]
    rfl
  · exact hs'.rows.congr fun _ _ _ => if_neg List.not_mem_nil

/-- In the middle of an update, the invariant holds. -/
theorem Updating.inv (h : Updating s) : Inv s where
  core := h.core
  rows := h.rows.congr fun _ _ _ => (if_neg (Bool.eq_false_iff.mp h.notTriggered)).symm

/-- **Restructuring keeps the invariant.** -/
theorem restructureTables_spec :
    Prog.Triple Inv (restructureTables : Run Data Unit) fun _ => Inv := by
  intro s hs
  by_cases htrigger : s.restructureTrigger = true
  · obtain ⟨s', hrun, hs'⟩ := restructureTables_triggered hs htrigger
    exact ⟨(), s', hrun, hs'.inv⟩
  · refine ⟨(), s, ?_, hs⟩
    unfold restructureTables
    rw [Prog.get_bind_apply, if_neg htrigger]
    rfl

/-! ## What the tables show -/

/-- The row that a sensor should have. -/
def Agent.rowOf (s : Agent Data) (p : Ptr) : Option Row :=
  match s.heap p with
  | some ss => if (s.getCurrInfo ss).valid then some ⟨oidIdGet ss.sensorId, p⟩ else none
  | none => none

/-- The `sensor_id` of an element of a list. -/
def Agent.sensorIdOf (s : Agent Data) (p : Ptr) : Option Oid := (s.heap p).map Sensor.sensorId

/-- The rows of each table are one for each sensor of the list whose current buffer is valid: indexed
    by the id of its OID, and pointing to it. -/
def TablesMatch (s : Agent Data) : Prop :=
  ∀ t, (s.rows t).Perm ((s.sensors t).filterMap s.rowOf)

/-- Nothing in a list or a table has been freed, and no list has two sensors with one `sensor_id`. -/
structure Safe (s : Agent Data) : Prop where
  sensors : ∀ t, ∀ p ∈ s.sensors t, s.heap p ≠ none
  rows : ∀ t, ∀ r ∈ s.rows t, s.heap r.data ≠ none
  ids : ∀ t, ((s.sensors t).map s.sensorIdOf).Nodup

/-- A table has a row exactly when it is the row of some sensor. -/
theorem mem_rows_iff (h : RowsBy bs s) (hcore : Core s) : r ∈ s.rows t ↔ RowOf bs s t r := by
  unfold Agent.rows
  cases htable : s.sensorTable t with
  | some table => exact h t table htable r
  | none =>
      refine ⟨fun hr => absurd hr List.not_mem_nil, fun ⟨p, hp, _⟩ => ?_⟩
      obtain ⟨table, hsome⟩ := hcore.table hp
      rw [htable] at hsome
      cases hsome

/-- The invariant makes the tables safe. -/
theorem Inv.safe (h : Inv s) : Safe s where
  sensors t p hp := by
    obtain ⟨ss, hheap, -⟩ := h.core.sound t p hp
    rw [hheap]
    nofun
  rows t r hr := by
    obtain ⟨p, hp, ss, hheap, -, rfl⟩ := (mem_rows_iff h.rows h.core).mp hr
    rw [hheap]
    nofun
  ids t := by
    refine List.pairwise_map.mpr ((h.core.nodup t).imp_of_mem fun {p q} hp hq hne heq => hne ?_)
    obtain ⟨ss, hheap, -⟩ := h.core.sound t p hp
    obtain ⟨ss', hheap', -⟩ := h.core.sound t q hq
    rw [Agent.sensorIdOf, Agent.sensorIdOf, hheap, hheap'] at heq
    injection heq with hid
    exact h.core.unique t p q ss ss' hp hq hheap hheap' hid

/-- A sensor has a row exactly when its current buffer is valid. -/
theorem rowOf_eq_some : s.rowOf p = some r ↔ ∃ ss, s.heap p = some ss ∧
    (s.getCurrInfo ss).valid = true ∧ r = ⟨oidIdGet ss.sensorId, p⟩ := by
  unfold Agent.rowOf
  cases s.heap p with
  | none => exact ⟨nofun, fun ⟨_, h, _⟩ => nomatch h⟩
  | some ss =>
      dsimp only
      split
      · rename_i hvalid
        exact ⟨fun h => ⟨ss, rfl, hvalid, (Option.some.inj h).symm⟩,
          fun ⟨ss', h, _, hr⟩ => by cases h; rw [hr]⟩
      · rename_i hvalid
        exact ⟨nofun, fun ⟨ss', h, h', _⟩ => by cases h; exact absurd h' hvalid⟩

/-- While the current buffer tells about rows, the tables match the lists. -/
theorem Updating.tablesMatch (h : Updating s) : TablesMatch s := by
  intro t
  have hrows : (s.rows t).Nodup := by
    unfold Agent.rows
    cases s.sensorTable t with
    | some table => exact table.keyed.imp fun hne heq => hne (congrArg Row.index heq)
    | none => exact List.Pairwise.nil
  have hshown : ((s.sensors t).filterMap s.rowOf).Nodup := by
    have hnodup : (s.sensors t).Pairwise (· ≠ ·) := h.core.nodup t
    refine List.Pairwise.filterMap s.rowOf (fun p q hne r hr r' hr' heq => hne ?_) hnodup
    obtain ⟨ss, -, -, rfl⟩ := rowOf_eq_some.mp hr
    obtain ⟨ss', -, -, rfl⟩ := rowOf_eq_some.mp hr'
    exact congrArg Row.data heq
  refine (List.perm_ext_iff_of_nodup hrows hshown).mpr fun r => ?_
  rw [mem_rows_iff h.rows h.core, List.mem_filterMap]
  constructor
  · rintro ⟨p, hp, ss, hheap, hvalid, rfl⟩
    obtain ⟨ss', hheap', -, hindex⟩ := h.core.sound t p hp
    rw [hheap] at hheap'
    cases hheap'
    exact ⟨p, hp, rowOf_eq_some.mpr ⟨ss, hheap, hvalid, by rw [hindex]⟩⟩
  · rintro ⟨p, hp, hr⟩
    obtain ⟨ss, hheap, hvalid, rfl⟩ := rowOf_eq_some.mp hr
    obtain ⟨ss', hheap', -, hindex⟩ := h.core.sound t p hp
    rw [hheap] at hheap'
    cases hheap'
    exact ⟨p, hp, ss, hheap, hvalid, by rw [hindex]⟩

/-! ## Runs of calls, in any order -/

/-- The calls that the agent makes: an update, or restructuring. -/
inductive Call (Data : Type) where
  | update (sweep : Sweep Data)
  | restructure

/-- What each of them does. -/
def Call.run [Inhabited Data] (aim : AimList) : Call Data → Run Data Unit
  | .update sweep => updateTables aim sweep
  | .restructure => restructureTables

/-- Calls in order, behind `init_all_tables__`. -/
def runCalls [Inhabited Data] (aim : AimList) (calls : List (Call Data)) : Run Data Unit := do
  initAllTables
  Prog.forEach (Call.run aim) calls

/-- **What the start-up leaves satisfies the invariant.** -/
theorem initAllTables_spec :
    Prog.Triple (· = Agent.static) (initAllTables : Run Data Unit) fun _ => Inv := by
  rintro s rfl
  refine ⟨(), _, rfl, ⟨nofun, fun _ => List.Pairwise.nil, nofun, fun _ _ => rfl, fun _ => rfl⟩, ?_⟩
  intro t table htable r
  have hempty : r ∉ table.rows := by
    have hinit : initialTable t = some table := htable
    cases t <;> cases hinit <;> exact List.not_mem_nil
  exact ⟨fun hr => absurd hr hempty, fun ⟨_, hp, _⟩ => absurd hp List.not_mem_nil⟩

/-- **Every run of calls keeps the invariant.** -/
theorem runCalls_spec [Inhabited Data] (aim : AimList) (calls : List (Call Data)) :
    Prog.Triple (· = Agent.static) (runCalls aim calls) fun _ => Inv := by
  refine Prog.triple_seq initAllTables_spec (Prog.triple_forEach_of_mem fun call _ => ?_)
  cases call with
  | update sweep => exact updateTables_spec aim sweep
  | restructure => exact restructureTables_spec

/-- **The tables are consistent.**  A run of calls, whatever ONLP reports, does not fault: it follows
    no pointer to a freed sensor, frees none that a row points to, and adds no row for one that is
    freed.  It leaves the lists and tables safe, and if the trigger is set then `restructure_tables__`
    makes the tables match the lists. -/
theorem tables_consistent [Inhabited Data] (aim : AimList) (calls : List (Call Data)) :
    ∃ s, runCalls aim calls Agent.static = (.ok (), s) ∧ Safe s ∧
      (s.restructureTrigger = true →
        ∃ s', restructureTables s = (.ok (), s') ∧ Safe s' ∧ TablesMatch s') := by
  obtain ⟨⟨⟩, s, hrun, hs⟩ := runCalls_spec aim calls Agent.static rfl
  refine ⟨s, hrun, hs.safe, fun htrigger => ?_⟩
  obtain ⟨s', hrestructure, hs'⟩ := restructureTables_triggered hs htrigger
  exact ⟨s', hrestructure, hs'.inv.safe, hs'.tablesMatch⟩

end

end DentOS.Snmp
