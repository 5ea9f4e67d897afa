/-
  `onlp_oid_iterate` (onlp, oids.c): a callback for the OIDs below a root, of one type or of any.

  The iteration reads the table of children of an OID, invokes the callback on each child and then
  goes on below it.  Both stand under the test of the type, so below a child of another type nothing is
  looked at: a fan of a PSU is not found by an iteration over the fans.

  `OidTree` is a platform's tree, and `Serves` says that the platform's headers are those of the tree.
  `visited` are the OIDs that the iteration comes to (`iterate_eq`), a part of the descendants of the
  type in the same order (`visited_sublist`); that it is all of them is a matter of what hangs below
  nodes of other types (`length_visited_iff`).

  The iteration is recursive over the headers, which may be anything, so it takes a bound on its depth
  and gives `none` when that is used up.
-/
import DentOS.Snmp.Sensors

namespace DentOS.Onlp

open Snmp (Oid oidTypeGet)

/-! ## Headers, with the tables of their children -/

/-- `onlp_oid_hdr_t`, with its table of children; an entry of zero is empty. -/
structure OidHdr where
  /-- The object. -/
  id : Oid
  /-- The object it belongs to. -/
  poid : Oid
  /-- The table of its children. -/
  coids : List Oid

/-- The `hdr_get` functions of a platform: a header, or a negative status. -/
structure Platform where
  sysHdrGet : Except Int OidHdr
  thermalHdrGet : Oid → Except Int OidHdr
  fanHdrGet : Oid → Except Int OidHdr
  psuHdrGet : Oid → Except Int OidHdr
  ledHdrGet : Oid → Except Int OidHdr

/-- `ONLP_STATUS_E_INVALID`. -/
def statusInvalid : Int := -12

/-- `ONLP_OID_SYS`. -/
def oidSys : Oid := 0x1000001

/-- `onlp_oid_hdr_get`.  Modules and RTCs are not implemented. -/
def onlpOidHdrGet (p : Platform) (oid : Oid) : Except Int OidHdr :=
  if oidTypeGet oid = 1 then p.sysHdrGet
  else if oidTypeGet oid = 2 then p.thermalHdrGet oid
  else if oidTypeGet oid = 3 then p.fanHdrGet oid
  else if oidTypeGet oid = 4 then p.psuHdrGet oid
  else if oidTypeGet oid = 5 then p.ledHdrGet oid
  else .error statusInvalid

/-! ## The iteration: children in order, and theirs where the type fits -/

/-- What the callback works on, and the OIDs on which it has been invoked. -/
structure Visit (σ : Type) where
  /-- What the callback has made of its cookie. -/
  cookie : σ
  /-- The OIDs so far. -/
  invocations : List Oid

/-- Before the first invocation. -/
def Visit.start {σ : Type} (cookie : σ) : Visit σ := ⟨cookie, []⟩

section

variable {σ : Type} (p : Platform) (type : UInt32) (itf : Oid → σ → Int × σ)

/-- `itf(*oidp, cookie)`. -/
def invoke (oid : Oid) (v : Visit σ) : Int × Visit σ :=
  let (rv, cookie) := itf oid v.cookie
  (rv, ⟨cookie, v.invocations ++ [oid]⟩)

/-- `type == 0 || ONLP_OID_IS_TYPE(type, oid)`. -/
def wanted (oid : Oid) : Bool := type == 0 || oidTypeGet oid == type

/-- The loop over a table, with `recurse` for the iteration below an entry. -/
def iterateTable (recurse : Oid → Visit σ → Option (Int × Visit σ)) :
    List Oid → Visit σ → Option (Int × Visit σ)
  | [], v => some (0, v)
  | oid :: coids, v =>
      if oid ≠ 0 && wanted type oid then
        let (rv, v) := invoke itf oid v
        if rv < 0 then some (rv, v)
        else
          match recurse oid v with
          | none => none
          | some (rv, v) => if rv < 0 then some (rv, v) else iterateTable recurse coids v
      else iterateTable recurse coids v

/-- `onlp_oid_iterate`. -/
def onlpOidIterate : Nat → Oid → Visit σ → Option (Int × Visit σ)
  | 0, _, _ => none
  | depth + 1, oid, v =>
      let oid := if oid = 0 then oidSys else oid
      match onlpOidHdrGet p oid with
      | .error rv => some (rv, v)
      | .ok hdr => iterateTable type itf (onlpOidIterate depth) hdr.coids v

end

/-! ## Trees that a platform can have -/

/-- OIDs with their children. -/
inductive OidTree where
  | node (oid : Oid) (children : List OidTree)

namespace OidTree

/-- The OID of a node. -/
def oid : OidTree → Oid
  | node oid _ => oid

/-- The children of a node. -/
def children : OidTree → List OidTree
  | node _ children => children

mutual

/-- The nodes below a node, each in front of those below it. -/
def descendants : OidTree → List OidTree
  | node _ children => descendantsAll children

def descendantsAll : List OidTree → List OidTree
  | [] => []
  | t :: ts => t :: (descendants t ++ descendantsAll ts)

end

mutual

/-- The headers of the platform are those of the tree: each node is there, and its table holds its
    children. -/
def Serves (p : Platform) : OidTree → Prop
  | node oid children =>
      (oid ≠ 0 ∧ ∃ hdr, onlpOidHdrGet p oid = .ok hdr ∧
        hdr.coids.filter (· ≠ 0) = children.map OidTree.oid) ∧ ServesAll p children

def ServesAll (p : Platform) : List OidTree → Prop
  | [] => True
  | t :: ts => Serves p t ∧ ServesAll p ts

end

/-- The descendants of the type, in the order of the tree. -/
def matching (type : UInt32) (t : OidTree) : List OidTree :=
  t.descendants.filter fun u => wanted type u.oid

mutual

/-- The OIDs that an iteration comes to. -/
def visited (type : UInt32) : OidTree → List Oid
  | node _ children => visitedAll type children

def visitedAll (type : UInt32) : List OidTree → List Oid
  | [] => []
  | t :: ts =>
      if wanted type t.oid then t.oid :: (visited type t ++ visitedAll type ts)
      else visitedAll type ts

end

/-- **An exhaustive iteration**: each descendant of the type once and nothing else, and each parent in
    front of its children. -/
def Exhaustive (type : UInt32) (t : OidTree) (calls : List Oid) : Prop :=
  calls.Perm ((t.matching type).map oid) ∧
    ∀ u ∈ t.descendants, ∀ w ∈ u.children, wanted type u.oid = true → wanted type w.oid = true →
      [u.oid, w.oid].Sublist calls

/-- No descendant of the type is below a descendant of another type.  (Of type 0 is everything.) -/
def NoneHidden (type : UInt32) (t : OidTree) : Prop :=
  ∀ u ∈ t.descendants, wanted type u.oid = false → ∀ w ∈ u.descendants, wanted type w.oid = false

/-! ## What is visited: a path of objects of the type -/

/-- The descendants of the type, of one tree and of the others. -/
theorem matching_cons (type : UInt32) (t : OidTree) (ts : List OidTree) :
    (descendantsAll (t :: ts)).filter (fun u => wanted type u.oid) =
      (if wanted type t.oid then [t] else []) ++ (t.matching type ++
        (descendantsAll ts).filter fun u => wanted type u.oid) := by
  rw [descendantsAll, List.filter_cons, List.filter_append]
  cases wanted type t.oid <;> rfl

mutual

/-- What is visited is a part of what there is to visit, in the same order. -/
theorem visited_sublist (type : UInt32) : ∀ t : OidTree,
    (visited type t).Sublist ((t.matching type).map oid)
  | node _ ts => visitedAll_sublist type ts

/-- What is visited in a list of trees is among its descendants of the type. -/
theorem visitedAll_sublist (type : UInt32) : ∀ ts : List OidTree,
    (visitedAll type ts).Sublist (((descendantsAll ts).filter fun u => wanted type u.oid).map oid)
  | [] => List.Sublist.slnil
  | t :: ts => by
      have ht := visited_sublist type t
      have hts := visitedAll_sublist type ts
      rw [matching_cons, List.map_append, List.map_append, visitedAll]
      cases wanted type t.oid with
      | true => exact (ht.append hts).cons_cons t.oid
      | false => exact hts.trans (List.sublist_append_right _ _)

end

/-- Nothing is wanted in a list of trees. -/
theorem filter_wanted_eq_nil {type : UInt32} {ts : List OidTree} :
    ts.filter (fun u => wanted type u.oid) = [] ↔ ∀ u ∈ ts, wanted type u.oid = false := by
  rw [List.filter_eq_nil_iff]
  exact forall_congr' fun u => imp_congr_right fun _ => Bool.eq_false_iff.symm

/-- Nothing is hidden in a list of trees when it is not in the first and not in the others. -/
theorem noneHidden_cons {type : UInt32} {t : OidTree} {ts : List OidTree} :
    (∀ u ∈ descendantsAll (t :: ts), wanted type u.oid = false →
        ∀ w ∈ u.descendants, wanted type w.oid = false) ↔
      (wanted type t.oid = false → ∀ w ∈ t.descendants, wanted type w.oid = false) ∧
        t.NoneHidden type ∧
        ∀ u ∈ descendantsAll ts, wanted type u.oid = false →
          ∀ w ∈ u.descendants, wanted type w.oid = false := by
  rw [descendantsAll, List.forall_mem_cons, List.forall_mem_append]
  rfl

mutual

/-- **Everything is visited exactly when nothing is hidden.**  Where a child is not wanted, the
    iteration passes over what is below it; so the lengths agree when that is nothing. -/
theorem length_visited_iff (type : UInt32) : ∀ t : OidTree,
    (visited type t).length = (t.matching type).length ↔ t.NoneHidden type
  | node _ ts => length_visitedAll_iff type ts

theorem length_visitedAll_iff (type : UInt32) : ∀ ts : List OidTree,
    (visitedAll type ts).length =
        ((descendantsAll ts).filter fun u => wanted type u.oid).length ↔
      ∀ u ∈ descendantsAll ts, wanted type u.oid = false →
        ∀ w ∈ u.descendants, wanted type w.oid = false
  | [] => iff_of_true rfl fun u hu => absurd hu List.not_mem_nil
  | t :: ts => by
      have ht := length_visited_iff type t
      have hts := length_visitedAll_iff type ts
      have hle := (visited_sublist type t).length_le
      have hles := (visitedAll_sublist type ts).length_le
      rw [List.length_map] at hle hles
      rw [noneHidden_cons, matching_cons, visitedAll, ← hts, ← ht]
      cases hwanted : wanted type t.oid with
      | true =>
          simp only [if_true, List.length_append, List.length_cons, List.length_nil]
          constructor
          · exact fun h => ⟨fun hf => absurd hf (by decide), by omega, by omega⟩
          · rintro ⟨-, h₁, h₂⟩
            omega
      | false =>
          simp only [Bool.false_eq_true, if_false, List.length_append, List.length_nil]
          have hnil : (∀ w ∈ t.descendants, wanted type w.oid = false) ↔
              (t.matching type).length = 0 := by
            rw [List.length_eq_zero_iff]
            exact filter_wanted_eq_nil.symm
          constructor
          · intro h
            exact ⟨fun _ => hnil.mpr (by omega), by omega, by omega⟩
          · rintro ⟨h₀, h₁, h₂⟩
            have hzero := hnil.mp (h₀ trivial)
            omega

end

/-- A tree of the list is among the descendants. -/
theorem mem_descendantsAll {u : OidTree} : ∀ {ts : List OidTree}, u ∈ ts → u ∈ descendantsAll ts
  | t :: ts, h => by
      rw [descendantsAll]
      rcases List.mem_cons.mp h with rfl | h
      · exact List.mem_cons_self
      · exact List.mem_cons_of_mem _ (List.mem_append_right _ (mem_descendantsAll h))

mutual

/-- In the order of the tree a parent is in front of its children. -/
theorem parent_sublist : ∀ (t : OidTree), ∀ u ∈ t.descendants, ∀ w ∈ u.children,
    [u, w].Sublist t.descendants
  | node _ ts => parentAll_sublist ts

/-- A parent is in front of its children. -/
theorem parentAll_sublist : ∀ (ts : List OidTree), ∀ u ∈ descendantsAll ts, ∀ w ∈ u.children,
    [u, w].Sublist (descendantsAll ts)
  | [] => fun u hu => absurd hu List.not_mem_nil
  | t :: ts => by
      intro u hu w hw
      rw [descendantsAll] at hu ⊢
      rcases List.mem_cons.mp hu with rfl | hu
      · refine List.Sublist.cons_cons u (List.singleton_sublist.mpr (List.mem_append_left _ ?_))
        cases u with
        | node oid cs => exact mem_descendantsAll hw
      · refine List.Sublist.cons _ ?_
        rcases List.mem_append.mp hu with hu | hu
        · exact (parent_sublist t u hu w hw).trans (List.sublist_append_left _ _)
        · exact (parentAll_sublist ts u hu w hw).trans (List.sublist_append_right _ _)

end

/-- The OIDs visited are exhaustive when they are all that there is to visit, and only then. -/
theorem exhaustive_visited_iff (type : UInt32) (t : OidTree) :
    t.Exhaustive type (visited type t) ↔ t.NoneHidden type := by
  rw [← length_visited_iff]
  constructor
  · rintro ⟨hperm, -⟩
    rw [hperm.length_eq, List.length_map]
  · intro hlen
    have heq : visited type t = (t.matching type).map oid :=
      (visited_sublist type t).eq_of_length (by rw [hlen, List.length_map])
    rw [heq]
    refine ⟨List.Perm.refl _, fun u hu w hw huw hww => ?_⟩
    have hsub := ((parent_sublist t u hu w hw).filter fun u => wanted type u.oid).map oid
    have hpair : [u, w].filter (fun u => wanted type u.oid) = [u, w] := by
      rw [List.filter_cons, List.filter_cons, huw, hww]
      rfl
    rwa [hpair] at hsub

end OidTree

/-! ## A run of the iteration visits exactly them, in order -/

section

open OidTree

variable {σ : Type} {p : Platform} {type : UInt32} {itf : Oid → σ → Int × σ}

/-- The callback invoked on OIDs one after another. -/
def invokeAll (itf : Oid → σ → Int × σ) (oids : List Oid) (v : Visit σ) : Visit σ :=
  oids.foldl (fun v oid => (invoke itf oid v).2) v

/-- Two lists of OIDs are visited one behind the other. -/
theorem invokeAll_append (as bs : List Oid) (v : Visit σ) :
    invokeAll itf (as ++ bs) v = invokeAll itf bs (invokeAll itf as v) := List.foldl_append

/-- The invocations are the OIDs, in order. -/
theorem invocations_invokeAll : ∀ (oids : List Oid) (v : Visit σ),
    (invokeAll itf oids v).invocations = v.invocations ++ oids
  | [], v => (List.append_nil _).symm
  | oid :: oids, v => by
      show (invokeAll itf oids _).invocations = _
      rw [invocations_invokeAll oids]
      exact List.append_assoc v.invocations [oid] oids

/-- The empty entries of a table are passed over. -/
theorem iterateTable_filter (recurse : Oid → Visit σ → Option (Int × Visit σ)) :
    ∀ (coids : List Oid) (v : Visit σ), iterateTable type itf recurse coids v =
      iterateTable type itf recurse (coids.filter (· ≠ 0)) v
  | [], v => rfl
  | oid :: coids, v => by
      by_cases hzero : oid = 0
      · rw [iterateTable, if_neg (by simp [hzero]), List.filter_cons_of_neg (by simp [hzero])]
        exact iterateTable_filter recurse coids v
      · rw [List.filter_cons_of_pos (by simp [hzero]), iterateTable, iterateTable]
        split
        · dsimp only
          split
          · rfl
          · cases recurse oid (invoke itf oid v).2 with
            | none => rfl
            | some r =>
                dsimp only
                split
                · rfl
                · exact iterateTable_filter recurse coids r.2
        · exact iterateTable_filter recurse coids v

mutual

/-- **What an iteration does**, with enough depth: it invokes the callback on the OIDs visited, one
    after another, and returns 0. -/
theorem iterate_eq (hitf : ∀ oid c, (itf oid c).1 = 0) : ∀ (t : OidTree), t.Serves p →
    ∃ bound, ∀ depth, bound ≤ depth → ∀ v : Visit σ,
      onlpOidIterate p type itf depth t.oid v = some (0, invokeAll itf (t.visited type) v)
  | node oid ts, h => by
      obtain ⟨⟨hne, hdr, hget, hcoids⟩, hts⟩ := h
      obtain ⟨bound, hbound⟩ := iterateAll_eq hitf ts hts
      refine ⟨bound + 1, fun depth hdepth v => ?_⟩
      obtain ⟨d, rfl⟩ : ∃ d, depth = d + 1 := ⟨depth - 1, by omega⟩
      rw [onlpOidIterate]
      show (match onlpOidHdrGet p (if oid = 0 then oidSys else oid) with
        | .error rv => some (rv, v)
        | .ok hdr => iterateTable type itf (onlpOidIterate p type itf d) hdr.coids v) = _
      rw [if_neg hne, hget]
      dsimp only
      rw [iterateTable_filter, hcoids]
      exact hbound d (by omega) v

/-- The iteration over a list of trees visits what is visited, by induction on the trees. -/
theorem iterateAll_eq (hitf : ∀ oid c, (itf oid c).1 = 0) : ∀ (ts : List OidTree), ServesAll p ts →
    ∃ bound, ∀ depth, bound ≤ depth → ∀ v : Visit σ,
      iterateTable type itf (onlpOidIterate p type itf depth) (ts.map OidTree.oid) v =
        some (0, invokeAll itf (visitedAll type ts) v)
  | [], _ => ⟨0, fun _ _ _ => rfl⟩
  | t :: ts, ⟨ht, hts⟩ => by
      obtain ⟨b₁, hb₁⟩ := iterate_eq hitf t ht
      obtain ⟨b₂, hb₂⟩ := iterateAll_eq hitf ts hts
      refine ⟨max b₁ b₂, fun depth hdepth v => ?_⟩
      have hne : t.oid ≠ 0 := by
        cases t with
        | node oid cs => exact ht.1.1
      rw [List.map_cons, iterateTable, visitedAll]
      cases hwanted : wanted type t.oid with
      | false =>
          rw [if_neg (by simp), if_neg (by decide)]
          exact hb₂ depth (by omega) v
      | true =>
          have hrv : (invoke itf t.oid v).1 = 0 := hitf t.oid v.cookie
          rw [if_pos (by simp [hne]), if_pos rfl]
          dsimp only
          rw [hrv, if_neg (by decide), hb₁ depth (by omega)]
          dsimp only
          rw [if_neg (by decide), hb₂ depth (by omega), ← invokeAll_append]
          rfl

end

/-- What is invoked in a run is what is visited. -/
theorem exhaustive_run_iff (hitf : ∀ oid c, (itf oid c).1 = 0) {t : OidTree} (ht : t.Serves p)
    (cookie : σ) :
    (∃ bound v, (∀ depth, bound ≤ depth →
        onlpOidIterate p type itf depth t.oid (.start cookie) = some (0, v)) ∧
      t.Exhaustive type v.invocations) ↔ t.Exhaustive type (t.visited type) := by
  obtain ⟨bound, hbound⟩ : ∃ bound, ∀ depth, bound ≤ depth → ∀ v : Visit σ,
      onlpOidIterate p type itf depth t.oid v = some (0, invokeAll itf (t.visited type) v) :=
    iterate_eq hitf t ht
  have hinv : (invokeAll itf (t.visited type) (.start cookie)).invocations = t.visited type :=
    invocations_invokeAll _ _
  constructor
  · rintro ⟨b, v, hv, hex⟩
    have h₁ := hv (max b bound) (by omega)
    rw [hbound _ (by omega)] at h₁
    injection h₁ with h₁
    rwa [← (Prod.mk.inj h₁).2, hinv] at hex
  · intro hex
    exact ⟨bound, _, fun depth hdepth => hbound depth hdepth _, by rwa [hinv]⟩

/-- **The iteration from the root is exhaustive exactly when** no descendant of the type is below a
    descendant of another type. -/
theorem iterate_exhaustive_iff (p : Platform) (t : OidTree) (ht : t.Serves p) (type : UInt32)
    (itf : Oid → σ → Int × σ) (hitf : ∀ oid c, (itf oid c).1 = 0) (cookie : σ) :
    (∃ bound v, (∀ depth, bound ≤ depth →
        onlpOidIterate p type itf depth t.oid (.start cookie) = some (0, v)) ∧
      t.Exhaustive type v.invocations) ↔ t.NoneHidden type := by
  rw [exhaustive_run_iff hitf ht cookie, exhaustive_visited_iff]

end

/-! ## A fan of a PSU -/

/-- The header of an OID with these children. -/
def sampleHdr (oid : Oid) (coids : List Oid) : OidHdr where
  id := oid
  poid := 0
  coids := coids ++ List.replicate (128 - coids.length) 0

/-- A PSU with a fan. -/
def psuPlatform : Platform where
  sysHdrGet := .ok (sampleHdr oidSys [0x4000001])
  thermalHdrGet := fun _ => .error statusInvalid
  fanHdrGet := fun oid => .ok (sampleHdr oid [])
  psuHdrGet := fun oid => .ok (sampleHdr oid [0x3000001])
  ledHdrGet := fun _ => .error statusInvalid

/-- The system, a PSU, and its fan. -/
def psuTree : OidTree := .node oidSys [.node 0x4000001 [.node 0x3000001 []]]

/-- A callback that counts. -/
def countOids (_ : Oid) (n : Nat) : Int × Nat := (0, n + 1)

/-- The platform serves the tree. -/
theorem psuTree_serves : psuTree.Serves psuPlatform :=
  ⟨⟨by decide, sampleHdr oidSys [0x4000001], rfl, by decide +kernel⟩,
    ⟨⟨by decide, sampleHdr 0x4000001 [0x3000001], rfl, by decide +kernel⟩,
      ⟨⟨by decide, sampleHdr 0x3000001 [], rfl, by decide +kernel⟩, trivial⟩, trivial⟩,
    trivial⟩

/-- No PSU is below the fan. -/
theorem psuTree_noneHidden : psuTree.NoneHidden 4 := by
  rw [← OidTree.length_visited_iff]
  decide +kernel

/-- An iteration over the PSUs comes to the one there is. -/
theorem psuTree_iterate : ∃ bound v, (∀ depth, bound ≤ depth →
      onlpOidIterate psuPlatform 4 countOids depth psuTree.oid (.start 0) = some (0, v)) ∧
    psuTree.Exhaustive 4 v.invocations :=
  (iterate_exhaustive_iff psuPlatform psuTree psuTree_serves 4 countOids (fun _ _ => rfl) 0).mpr
    psuTree_noneHidden

/-- An iteration over the fans does not come to the fan of the PSU. -/
theorem psuTree_fan_hidden : ¬ ∃ bound v, (∀ depth, bound ≤ depth →
      onlpOidIterate psuPlatform 3 countOids depth psuTree.oid (.start 0) = some (0, v)) ∧
    psuTree.Exhaustive 3 v.invocations := by
  rw [exhaustive_run_iff (fun _ _ => rfl) psuTree_serves 0]
  rintro ⟨hperm, -⟩
  exact absurd hperm.length_eq (by decide +kernel)

end DentOS.Onlp
