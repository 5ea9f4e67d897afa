/-
  Encoding a device tree and parsing it again.

  `DtItems` is what a node of a device tree holds, in the order of the struct block, with the
  `FDT_NOP`s between its items; `encode` writes the struct block tokens.  `IsFdt` says that a file is
  a flattened device tree of given root items: header, struct block, names in the strings block.

  `parse_encoded`: the parser reads such a file, and its root nodes mirror the items.  The argument is
  an induction over the items (`reads_encode`): from the token that starts them, the loop hops to the
  position behind them, and the node that is being read, or the list of root nodes, has grown by what
  mirrors them.  A node inside is the same statement for its body, between the hop of its
  `FDT_BEGIN_NODE` and that of its `FDT_END_NODE`.
-/
import DentOS.Fit.Tokens

namespace DentOS.Fit

open Outcome Relation

/-! ## Device trees: what there is to write -/

/-- Items of a node: a `FDT_NOP`, a property (its name, where in the strings block the name stands,
    its value), a node. -/
inductive DtItems where
  | nil
  | nop (rest : DtItems)
  | prop (name : Bytes) (nameoff : Nat) (value : Bytes) (rest : DtItems)
  | node (name : Bytes) (body rest : DtItems)

/-- Zeros up to the next multiple of four. -/
def pad (bs : Bytes) : Bytes := bs ++ List.replicate ((4 - bs.length % 4) % 4) 0

namespace DtItems

/-- The tokens of the items. -/
def encode : DtItems → Bytes
  | nil => []
  | nop rest => word fdtNop ++ rest.encode
  | prop _ nameoff value rest =>
      (word fdtProp ++ (word value.length ++ word nameoff)) ++ (pad value ++ rest.encode)
  | node name body rest =>
      word fdtBeginNode ++ (pad (name ++ [0x00]) ++ (body.encode ++ (word fdtEndNode ++ rest.encode)))

/-- The names of the properties. -/
def propNames : DtItems → List Bytes
  | nil => []
  | nop rest => rest.propNames
  | prop name _ _ rest => name :: rest.propNames
  | node _ _ rest => rest.propNames

/-- The names of the nodes. -/
def nodeNames : DtItems → List Bytes
  | nil => []
  | nop rest => rest.nodeNames
  | prop _ _ _ rest => rest.nodeNames
  | node name _ rest => name :: rest.nodeNames

/-- Names without NUL and distinct within a node, numbers of 32 bits, and every property name in the
    strings block, with its NUL, at its offset. -/
def WellFormed (file : Bytes) (stringPos : Nat) : DtItems → Prop
  | nil => True
  | nop rest => rest.WellFormed file stringPos
  | prop name nameoff value rest =>
      ((0x00 : UInt8) ∉ name ∧ nameoff < 2 ^ 32 ∧ value.length < 2 ^ 32 ∧
        At file (stringPos + nameoff) (name ++ [0x00]) ∧ name ∉ rest.propNames) ∧
      rest.WellFormed file stringPos
  | node name body rest =>
      ((0x00 : UInt8) ∉ name ∧ name ∉ rest.nodeNames) ∧
      body.WellFormed file stringPos ∧ rest.WellFormed file stringPos

/-- The parsed properties and nodes are those of the items: the same names in the same nesting, and
    for each property the size of its value and an offset at which the file holds the value. -/
def Mirrors (file : Bytes) :
    DtItems → List (Bytes × FdtProperty) → List (Bytes × FdtNode) → Prop
  | nil, properties, nodes => properties = [] ∧ nodes = []
  | nop rest, properties, nodes => rest.Mirrors file properties nodes
  | prop name _ value rest, properties, nodes =>
      ∃ p properties', properties = (name, p) :: properties' ∧ p.name = name ∧
        p.sz = value.length ∧ (file.drop p.offset).take p.sz = value ∧
        rest.Mirrors file properties' nodes
  | node name body rest, properties, nodes =>
      ∃ n nodes', nodes = (name, n) :: nodes' ∧ n.name = name ∧
        body.Mirrors file n.properties n.nodes ∧ rest.Mirrors file properties nodes'

end DtItems

/-! ## Device tree files: a header, and the tokens of a tree -/

/-- The ten words of the header of version 17. -/
structure FdtHeader where
  totalsize : Nat
  offDtStruct : Nat
  offDtStrings : Nat
  offMemRsvmap : Nat
  version : Nat
  lastCompVersion : Nat
  bootCpuidPhys : Nat
  sizeDtStrings : Nat
  sizeDtStruct : Nat

/-- The words in their order, the magic first. -/
def FdtHeader.words (h : FdtHeader) : List Nat :=
  [fdtMagic, h.totalsize, h.offDtStruct, h.offDtStrings, h.offMemRsvmap, h.version,
    h.lastCompVersion, h.bootCpuidPhys, h.sizeDtStrings, h.sizeDtStruct]

/-- The file is a flattened device tree: a header of 32 bit words in front of the memory reservation
    block, and at an aligned offset the tokens of well-formed root items, none of them a property,
    with `FDT_END` behind them. -/
structure IsFdt (file : Bytes) (h : FdtHeader) (roots : DtItems) : Prop where
  header : At file 0 (h.words.flatMap word)
  fits : ∀ n ∈ h.words, n < 2 ^ 32
  version : 17 ≤ h.version
  rsvmap : 40 ≤ h.offMemRsvmap
  aligned : h.offDtStruct % 4 = 0
  tokens : At file h.offDtStruct (roots.encode ++ word fdtEnd)
  wellFormed : roots.WellFormed file h.offDtStrings
  noProps : roots.propNames = []

/-! ## Lengths of what is written -/

/-- What is padded ends at a word. -/
theorem length_pad (bs : Bytes) : (pad bs).length % 4 = 0 := by
  rw [pad, List.length_append, List.length_replicate]
  omega

/-- Aligning gets to the end of the padding. -/
theorem align_pad {pos : Nat} (hpos : pos % 4 = 0) (bs : Bytes) :
    align (pos + bs.length) = pos + (pad bs).length := by
  rw [pad, List.length_append, List.length_replicate, align]
  omega

/-- A name in the file is shorter than the file. -/
theorem lt_length_of_at {file : Bytes} {pos : Nat} {name : Bytes}
    (h : At file pos (name ++ [0x00])) : name.length < file.length := by
  have hle := h.length_le
  rw [List.length_append, List.length_drop, List.length_singleton] at hle
  omega

/-- An encoded tree is a number of words. -/
theorem DtItems.length_encode (items : DtItems) : items.encode.length % 4 = 0 := by
  induction items with
  | nil => rfl
  | nop rest ih =>
      rw [encode, List.length_append, length_word]
      omega
  | prop name nameoff value rest ih =>
      have hpad := length_pad value
      simp only [encode, List.length_append, length_word]
      omega
  | node name body rest ihBody ih =>
      have hpad := length_pad (name ++ [0x00])
      simp only [encode, List.length_append, length_word] at hpad ⊢
      omega

/-! ## What the loop has read: the nodes so far, against the tree -/

/-- The properties of the node that is being read. -/
def Tokens.ownProps (s : Tokens) : List (Bytes × FdtProperty) :=
  match s.nodeStack with
  | top :: _ => top.properties
  | [] => []

/-- The node that is being read, or the list of root nodes, after more properties and nodes; the next
    token is at `pos`. -/
def Tokens.grow (s : Tokens) (properties : List (Bytes × FdtProperty))
    (nodes : List (Bytes × FdtNode)) (pos nops : Nat) : Tokens :=
  match s.nodeStack with
  | top :: rest =>
      { s with
        pos := pos
        nops := nops
        nodeStack := .mk top.name (top.properties ++ properties) (top.nodes ++ nodes) :: rest }
  | [] => { s with pos := pos, nops := nops, rootNodes := s.rootNodes ++ nodes }

/-- A name is in one of two lists. -/
theorem hasKey_append {α : Type} (d d' : List (Bytes × α)) (key : Bytes) :
    hasKey (d ++ d') key = (hasKey d key || hasKey d' key) := List.any_append

/-- A name is not another one. -/
theorem hasKey_singleton {α : Type} {name key : Bytes} (a : α) (h : key ≠ name) :
    hasKey [(name, a)] key = false := by
  simp only [hasKey, List.any_cons, List.any_nil, Bool.or_false]
  exact beq_eq_false_iff_ne.mpr (Ne.symm h)

namespace Tokens

variable (s : Tokens) (properties properties' : List (Bytes × FdtProperty))
  (nodes nodes' : List (Bytes × FdtNode)) (pos pos' nops nops' : Nat)

/-- Growing by nothing. -/
theorem grow_nil : s.grow [] [] s.pos s.nops = s := by
  obtain ⟨p, _ | ⟨⟨name, ps, ns⟩, rest⟩, roots, n⟩ := s
  · simp [grow]
  · simp [grow, FdtNode.name, FdtNode.properties, FdtNode.nodes]

/-- Growing twice. -/
theorem grow_grow : (s.grow properties nodes pos nops).grow properties' nodes' pos' nops' =
    s.grow (properties ++ properties') (nodes ++ nodes') pos' nops' := by
  obtain ⟨p, _ | ⟨top, rest⟩, roots, n⟩ := s
  · simp [grow]
  · simp [grow, FdtNode.name, FdtNode.properties, FdtNode.nodes]

/-- What a state has grown by. -/
@[simp] theorem pos_grow : (s.grow properties nodes pos nops).pos = pos := by
  unfold grow
  split <;> rfl

@[simp] theorem siblings_grow :
    (s.grow properties nodes pos nops).siblings = s.siblings ++ nodes := by
  obtain ⟨p, _ | ⟨top, rest⟩, roots, n⟩ := s <;> rfl

/-- What grows at the top has no open node if it has none. -/
theorem nodeStack_grow (h : (s.grow properties nodes pos nops).nodeStack = []) :
    s.nodeStack = [] := by
  obtain ⟨p, _ | ⟨top, rest⟩, roots, n⟩ := s
  · rfl
  · exact absurd h (List.cons_ne_nil _ _)

/-- A key that is neither among the node's own properties nor among the new ones. -/
theorem hasKey_ownProps_grow {key : Bytes} (hown : hasKey s.ownProps key = false)
    (hnew : hasKey properties key = false) :
    hasKey (s.grow properties nodes pos nops).ownProps key = false := by
  obtain ⟨p, _ | ⟨top, rest⟩, roots, n⟩ := s
  · rfl
  · show hasKey (top.properties ++ properties) key = false
    rw [hasKey_append, show hasKey top.properties key = false from hown, hnew]
    rfl

/-- A closed node is one child more. -/
theorem attach_eq_grow (node : FdtNode) :
    { s with pos := pos }.attach node = s.grow [] [(node.name, node)] pos s.nops := by
  obtain ⟨p, _ | ⟨top, rest⟩, roots, n⟩ := s
  · rfl
  · simp [attach, grow]

end Tokens

/-! ## The induction over the tree: a node is read behind any others -/

section

variable {file : Bytes} {fuel stringPos : Nat}

/-- One property token. -/
theorem hop_prop (hfuel : file.length < fuel) {s : Tokens} {name value : Bytes} {nameoff : Nat}
    (hstack : s.nodeStack ≠ []) (hpos : s.pos % 4 = 0) (hnul : (0x00 : UInt8) ∉ name)
    (hoff : nameoff < 2 ^ 32) (hvalue : value.length < 2 ^ 32)
    (hname : At file (stringPos + nameoff) (name ++ [0x00]))
    (hfresh : hasKey s.ownProps name = false)
    (hat : At file s.pos (word fdtProp ++ (word value.length ++ word nameoff))) :
    Hop file fuel stringPos s
      (s.grow [(name, ⟨name, s.pos + 12, value.length⟩)] [] (s.pos + 12 + (pad value).length)
        s.nops) := by
  obtain ⟨top, rest, hs⟩ : ∃ top rest, s.nodeStack = top :: rest := List.exists_cons_of_ne_nil hstack
  have hfresh' : hasKey top.properties name = false := by
    unfold Tokens.ownProps at hfresh
    rwa [hs] at hfresh
  have hlt : name.length < fuel := Nat.lt_trans (lt_length_of_at hname) hfuel
  have hpass := pass_prop hs hat hvalue hoff hname hnul hlt hfresh'
  rw [align_pad (by omega : (s.pos + 12) % 4 = 0)] at hpass
  rw [Hop, hpass, Tokens.grow, hs]
  dsimp only
  rw [List.append_nil]

/-- The two tokens around a node's body. -/
theorem hop_beginNode (hfuel : file.length < fuel) {s : Tokens} {name : Bytes}
    (hpos : s.pos % 4 = 0) (hnul : (0x00 : UInt8) ∉ name) (hfresh : hasKey s.siblings name = false)
    (hat : At file s.pos (word fdtBeginNode ++ (name ++ [0x00]))) :
    Hop file fuel stringPos s { s with
      pos := s.pos + 4 + (pad (name ++ [0x00])).length
      nodeStack := .mk name [] [] :: s.nodeStack } := by
  obtain ⟨htag, hname⟩ := at_append.mp hat
  rw [length_word] at hname
  have hlt : name.length < fuel := Nat.lt_trans (lt_length_of_at hname) hfuel
  have hpass : pass file fuel stringPos s = .returned _ :=
    pass_beginNode htag hname hnul hlt hfresh
  have hlen : (name ++ [(0x00 : UInt8)]).length = name.length + 1 := List.length_append
  have halign : align (s.pos + 4 + name.length + 1) =
      s.pos + 4 + (pad (name ++ [0x00])).length := by
    rw [← align_pad (by omega), hlen, Nat.add_assoc (s.pos + 4)]
  rw [Hop, hpass, halign]

/-- **The end of a node** is one hop, which hangs it into its parent. -/
theorem hop_endNode (s : Tokens) (properties : List (Bytes × FdtProperty))
    (nodes : List (Bytes × FdtNode)) (name : Bytes) (nops : Nat) {pos : Nat}
    (hat : At file pos (word fdtEndNode)) :
    Hop file fuel stringPos
      { s with pos := pos, nops := nops, nodeStack := .mk name properties nodes :: s.nodeStack }
      (s.grow [] [(name, .mk name properties nodes)] (pos + 4) nops) := by
  rw [Hop, pass_endNode rfl hat]
  have h := Tokens.attach_eq_grow { s with nops := nops } (pos + 4) (.mk name properties nodes)
  exact congrArg (fun t => Outcome.returned (Next.again t)) h

/-- What the loop must find at its position in order to read the items. -/
structure Readable (file : Bytes) (stringPos : Nat) (items : DtItems) (s : Tokens) : Prop where
  wellFormed : items.WellFormed file stringPos
  tokens : At file s.pos items.encode
  aligned : s.pos % 4 = 0
  noProps : s.nodeStack = [] → items.propNames = []
  newProps : ∀ name ∈ items.propNames, hasKey s.ownProps name = false
  newNodes : ∀ name ∈ items.nodeNames, hasKey s.siblings name = false

/-- The loop has read the items: the node that is being read has grown by what mirrors them. -/
def Reads (file : Bytes) (fuel stringPos : Nat) (items : DtItems) (s : Tokens) : Prop :=
  ∃ properties nodes nops, items.Mirrors file properties nodes ∧
    ReflTransGen (Hop file fuel stringPos) s
      (s.grow properties nodes (s.pos + items.encode.length) nops)

/-- Reading on from what has been read. -/
theorem reads_append {rest : DtItems} {s : Tokens} {properties : List (Bytes × FdtProperty)}
    {nodes : List (Bytes × FdtNode)} {pos nops : Nat}
    (hhops : ReflTransGen (Hop file fuel stringPos) s (s.grow properties nodes pos nops))
    (hrest : Reads file fuel stringPos rest (s.grow properties nodes pos nops)) :
    ∃ properties' nodes' nops', rest.Mirrors file properties' nodes' ∧
      ReflTransGen (Hop file fuel stringPos) s (s.grow (properties ++ properties')
        (nodes ++ nodes') (pos + rest.encode.length) nops') := by
  obtain ⟨properties', nodes', nops', hmirrors, hmore⟩ := hrest
  rw [s.grow_grow, s.pos_grow] at hmore
  exact ⟨properties', nodes', nops', hmirrors, hhops.trans hmore⟩

/-- **The loop reads encoded items.**  Induction over the items. -/
theorem reads_encode (hfuel : file.length < fuel) : ∀ (items : DtItems) (s : Tokens),
    Readable file stringPos items s → Reads file fuel stringPos items s := by
  intro items
  induction items with
  | nil =>
      intro s _
      refine ⟨[], [], s.nops, ⟨rfl, rfl⟩, ?_⟩
      rw [show s.pos + DtItems.nil.encode.length = s.pos from rfl, s.grow_nil]
  | nop rest ih =>
      intro s h
      obtain ⟨htag, hrest⟩ := at_append.mp h.tokens
      rw [length_word] at hrest
      have haligned := h.aligned
      have hhop : Hop file fuel stringPos s (s.grow [] [] (s.pos + 4) (s.nops + 1)) := by
        rw [Hop, pass_nop htag, ← s.grow_nil, s.grow_grow]
        obtain ⟨p, _ | ⟨top, rest⟩, roots, n⟩ := s <;> rfl
      have hread : Readable file stringPos rest (s.grow [] [] (s.pos + 4) (s.nops + 1)) := by
        refine ⟨h.wellFormed, by rw [s.pos_grow]; exact hrest, by rw [s.pos_grow]; omega,
          fun hs => h.noProps (s.nodeStack_grow _ _ _ _ hs),
          fun name hname => s.hasKey_ownProps_grow _ _ _ _ (h.newProps name hname) rfl, ?_⟩
        rw [s.siblings_grow, List.append_nil]
        exact h.newNodes
      obtain ⟨ps, ns, n, hmirrors, hhops⟩ := reads_append (ReflTransGen.single hhop) (ih _ hread)
      refine ⟨ps, ns, n, hmirrors, ?_⟩
      rwa [DtItems.encode, List.length_append, length_word, ← Nat.add_assoc]
  | prop name nameoff value rest ih =>
      intro s h
      obtain ⟨⟨hnul, hoff, hvalue, hname, hdistinct⟩, hwfRest⟩ := h.wellFormed
      obtain ⟨htag, hmore⟩ := at_append.mp h.tokens
      obtain ⟨hval, hrest⟩ := at_append.mp hmore
      have hlen : (word fdtProp ++ (word value.length ++ word nameoff)).length = 12 := by
        simp only [List.length_append, length_word]
      rw [hlen] at hval hrest
      have haligned := h.aligned
      have hpad := length_pad value
      have hstack : s.nodeStack ≠ [] := fun hs => absurd (h.noProps hs) (List.cons_ne_nil _ _)
      have hhop : Hop file fuel stringPos s _ := hop_prop hfuel hstack h.aligned hnul hoff hvalue hname
        (h.newProps name List.mem_cons_self) htag
      have hread : Readable file stringPos rest (s.grow [(name, ⟨name, s.pos + 12, value.length⟩)]
          [] (s.pos + 12 + (pad value).length) s.nops) := by
        refine ⟨hwfRest, by rw [s.pos_grow]; exact hrest, by rw [s.pos_grow]; omega,
          fun hs => absurd (s.nodeStack_grow _ _ _ _ hs) hstack, fun key hkey => ?_, ?_⟩
        · have hne : key ≠ name := fun he => hdistinct (he ▸ hkey)
          exact s.hasKey_ownProps_grow _ _ _ _ (h.newProps key (List.mem_cons_of_mem name hkey))
            (hasKey_singleton _ hne)
        · rw [s.siblings_grow, List.append_nil]
          exact h.newNodes
      obtain ⟨ps, ns, n, hmirrors, hhops⟩ := reads_append (ReflTransGen.single hhop) (ih _ hread)
      have hslice : (file.drop (s.pos + 12)).take value.length = value :=
        slice_at (at_append.mp hval).1
      refine ⟨_, ns, n, ⟨⟨name, s.pos + 12, value.length⟩, ps, rfl, rfl, rfl, hslice, hmirrors⟩, ?_⟩
      have hend : s.pos + (DtItems.prop name nameoff value rest).encode.length =
          s.pos + 12 + (pad value).length + rest.encode.length := by
        rw [DtItems.encode, List.length_append, hlen, List.length_append]
        omega
      rw [hend]
      exact hhops
  | node name body rest ihBody ih =>
      intro s h
      obtain ⟨⟨hnul, hdistinct⟩, hwfBody, hwfRest⟩ := h.wellFormed
      have htokens := h.tokens
      rw [DtItems.encode, at_append, at_append, at_append, at_append, length_word, length_word]
        at htokens
      obtain ⟨htag, hname, hbody, hend, hrest⟩ := htokens
      have haligned := h.aligned
      have hpad := length_pad (name ++ [0x00])
      have hlen := body.length_encode
      have hbegin : Hop file fuel stringPos s _ := hop_beginNode hfuel h.aligned hnul
        (h.newNodes name List.mem_cons_self)
        (at_append.mpr ⟨htag, (at_append.mp hname).1⟩)
      obtain ⟨ps, ns, n, hmirrors, hhops⟩ := ihBody
        { s with
          pos := s.pos + 4 + (pad (name ++ [0x00])).length
          nodeStack := .mk name [] [] :: s.nodeStack }
        ⟨hwfBody, hbody, by dsimp only; omega, fun hs => absurd hs (List.cons_ne_nil _ _),
          fun _ _ => rfl, fun _ _ => rfl⟩
      have hclose : Hop file fuel stringPos _ _ := hop_endNode s ps ns name n hend
      have hnode := (ReflTransGen.head hbegin hhops).tail hclose
      have hread : Readable file stringPos rest (s.grow [] [(name, .mk name ps ns)]
          (s.pos + 4 + (pad (name ++ [0x00])).length + body.encode.length + 4) n) := by
        refine ⟨hwfRest, by rw [s.pos_grow]; exact hrest, by rw [s.pos_grow]; omega,
          fun hs => h.noProps (s.nodeStack_grow _ _ _ _ hs),
          fun key hkey => s.hasKey_ownProps_grow _ _ _ _ (h.newProps key hkey) rfl,
          fun key hkey => ?_⟩
        have hne : key ≠ name := fun he => hdistinct (he ▸ hkey)
        rw [s.siblings_grow, hasKey_append, h.newNodes key (List.mem_cons_of_mem name hkey),
          hasKey_singleton _ hne]
        rfl
      obtain ⟨ps', ns', n', hmirrors', hhops'⟩ := reads_append hnode (ih _ hread)
      refine ⟨ps', _, n', ⟨.mk name ps ns, ns', rfl, rfl, hmirrors, hmirrors'⟩, ?_⟩
      have hend : s.pos + (DtItems.node name body rest).encode.length =
          s.pos + 4 + (pad (name ++ [0x00])).length + body.encode.length + 4 +
            rest.encode.length := by
        simp only [DtItems.encode, List.length_append, length_word]
        omega
      rw [hend]
      exact hhops'

/-- No properties in the tree are no properties in the parser's node. -/
theorem mirrors_noProps : ∀ {items : DtItems} {properties : List (Bytes × FdtProperty)}
    {nodes : List (Bytes × FdtNode)}, items.propNames = [] →
    items.Mirrors file properties nodes → properties = [] := by
  intro items
  induction items with
  | nil => intro _ _ _ h; exact h.1
  | nop rest ih => intro _ _ hnone h; exact ih hnone h
  | prop name nameoff value rest ih => intro _ _ hnone _; exact absurd hnone (List.cons_ne_nil _ _)
  | node name body rest ihBody ih =>
      rintro _ _ hnone ⟨n, nodes', -, -, -, hrest⟩
      exact ih hnone hrest

end

/-! ## The parser reads a file back to its tree -/

/-- The header of a device tree passes, and the loop starts at the struct block. -/
theorem parseStream_eq {file : Bytes} {h : FdtHeader} {roots : DtItems}
    (hfdt : IsFdt file h roots) (fuel : Nat) :
    parseStream file fuel =
      (tokenLoop file fuel h.offDtStrings fuel (Tokens.start h.offDtStruct) >>= fun s =>
        pure {
          fdtSize := h.totalsize
          structPos := h.offDtStruct
          stringPos := h.offDtStrings
          version := h.offMemRsvmap
          stringSize := h.bootCpuidPhys
          structSize := h.sizeDtStrings
          rootNodes := s.rootNodes
          nops := s.nops }) := by
  have hlen : (h.words.flatMap word).length = 40 := length_flatMap_word h.words
  have hread : read file 0 40 = (h.words.flatMap word, 40) := read_at hfdt.header hlen.symm
  have hunpack : unpack 10 (h.words.flatMap word) = .returned h.words :=
    unpack_words _ hfdt.fits rfl
  -- the word the parser takes for the version is the offset of the memory reservation block
  have hversion : ¬ h.offMemRsvmap < 17 := by
    have := hfdt.rsvmap
    omega
  rw [parseStream, hread]
  show unpack 10 (h.words.flatMap word) >>= _ = _
  rw [hunpack, returned_bind]
  show (if fdtMagic ≠ fdtMagic then _ else if h.offMemRsvmap < 17 then _ else _) = _
  rw [if_neg (fun hne => hne rfl), if_neg hversion]
  rfl

/-- **Parse after encode.**  Every flattened device tree of version 17 or later is parsed, whatever
    the number of passes allowed beyond the length of the file, and the root nodes mirror its
    items. -/
theorem parse_encoded {file : Bytes} {h : FdtHeader} {roots : DtItems}
    (hfdt : IsFdt file h roots) :
    ∃ p : Parser, (∀ fuel, file.length < fuel → parseStream file fuel = .returned p) ∧
      roots.Mirrors file [] p.rootNodes := by
  obtain ⟨htokens, hend⟩ := at_append.mp hfdt.tokens
  have hreads : Reads file (file.length + 1) h.offDtStrings roots (Tokens.start h.offDtStruct) :=
    reads_encode (Nat.lt_succ_self _) roots (Tokens.start h.offDtStruct)
    ⟨hfdt.wellFormed, htokens, hfdt.aligned, fun _ => hfdt.noProps, fun _ _ => rfl, fun _ _ => rfl⟩
  obtain ⟨ps, ns, n, hmirrors, hhops⟩ := hreads
  have hps : ps = [] := mirrors_noProps hfdt.noProps hmirrors
  rw [hps] at hmirrors
  refine ⟨⟨h.totalsize, h.offDtStruct, h.offDtStrings, h.offMemRsvmap, h.bootCpuidPhys,
    h.sizeDtStrings, ns, n⟩, fun fuel hfuel => ?_, hmirrors⟩
  have hmore := ReflTransGen.mono (fun _ _ => hop_mono (Nat.succ_le_of_lt hfuel)) _ _ hhops
  rw [parseStream_eq hfdt, tokenLoop_of_hops hmore (pass_end rfl hend) (by omega), returned_bind]
  rfl

/-- A root node with one property, and a `FDT_NOP` in front. -/
def sampleRoots : DtItems := .nop (.node [] (.prop [0x61] 0 [0x37, 0x32, 0x00] .nil) .nil)

/-- The header of a small tree. -/
def sampleHeader : FdtHeader where
  totalsize := 94
  offDtStruct := 56
  offDtStrings := 92
  offMemRsvmap := 40
  version := 17
  lastCompVersion := 16
  bootCpuidPhys := 0
  sizeDtStrings := 2
  sizeDtStruct := 36

/-- Header, empty memory reservation block, struct block, strings block. -/
def sampleFile : Bytes :=
  sampleHeader.words.flatMap word ++ List.replicate 16 0 ++ (sampleRoots.encode ++ word fdtEnd) ++
    [0x61, 0x00]

/-- The example is a device tree. -/
theorem sampleFile_isFdt : IsFdt sampleFile sampleHeader sampleRoots where
  header := by decide +kernel
  fits := by decide
  version := by decide
  rsvmap := by decide
  aligned := by decide
  tokens := by decide +kernel
  wellFormed := by
    refine ⟨⟨by decide, by decide⟩, ⟨⟨by decide, by decide, by decide, ?_, by decide⟩, trivial⟩,
      trivial⟩
    decide +kernel
  noProps := rfl

/-- The example is parsed into its own tree. -/
theorem sampleFile_parsed : ∃ p : Parser,
    (∀ fuel, sampleFile.length < fuel → parseStream sampleFile fuel = .returned p) ∧
      sampleRoots.Mirrors sampleFile [] p.rootNodes :=
  parse_encoded sampleFile_isFdt

end DentOS.Fit
