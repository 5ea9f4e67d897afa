/-
  The extents of the properties that the FIT parser hands out.

  The parser keeps of a property only where its value is: an offset and a length, and the length is
  that of the file.  It skips the value by a seek, which may go past the end of the file, and checks
  nothing.  What rules a bad length out is that another token has to be read behind every property
  (`lt_of_tokenLoop`): so the value ends inside the file, and before the next token.

  `handed` is the property of one pass, `tokenProps` those of a run of the loop in the order of their
  tokens.  The crux is `tokenLoop_props`, one induction on the passes that carries four facts at once:
  the tree holds exactly the properties handed out, they come behind the token the loop starts at, in
  order and apart, and they end inside the file.
-/
import DentOS.Fit.Initrd
import DentOS.Fit.Termination

namespace DentOS.Fit

open Outcome

/-! ## The properties of a tree, as a list -/

mutual

/-- The properties of a node and of the nodes inside it. -/
def FdtNode.allProps : FdtNode → List FdtProperty
  | .mk _ properties nodes => properties.map Prod.snd ++ propsOfNodes nodes

/-- All properties of a list of nodes, each node's own in front of its children's. -/
def propsOfNodes : List (Bytes × FdtNode) → List FdtProperty
  | [] => []
  | item :: rest => propsOfItem item ++ propsOfNodes rest

/-- All properties of one of them. -/
def propsOfItem : Bytes × FdtNode → List FdtProperty
  | (_, node) => node.allProps

end

/-- Every property that the parser hands out. -/
def Parser.allProps (p : Parser) : List FdtProperty := propsOfNodes p.rootNodes

/-- The properties read so far: those of the nodes that are open, and those of the root nodes. -/
def Tokens.allProps (s : Tokens) : List FdtProperty :=
  s.nodeStack.flatMap FdtNode.allProps ++ propsOfNodes s.rootNodes

/-- The bytes of the file that a property extends over. -/
def FdtProperty.Covers (q : FdtProperty) (i : Nat) : Prop := q.offset ≤ i ∧ i < q.offset + q.sz

/-- The value of `q` ends in front of that of `r`, and begins in front of it. -/
def FdtProperty.Before (q r : FdtProperty) : Prop := q.offset < r.offset ∧ q.offset + q.sz ≤ r.offset

/-- The properties of two lists, one behind the other. -/
theorem propsOfNodes_append (ns ms : List (Bytes × FdtNode)) :
    propsOfNodes (ns ++ ms) = propsOfNodes ns ++ propsOfNodes ms := by
  induction ns with
  | nil => rfl
  | cons item ns ih => rw [List.cons_append, propsOfNodes, propsOfNodes, ih, List.append_assoc]

/-- The properties of one node. -/
theorem propsOfNodes_singleton (name : Bytes) (node : FdtNode) :
    propsOfNodes [(name, node)] = node.allProps := by
  rw [propsOfNodes, propsOfNodes, propsOfItem, List.append_nil]

/-! ## What a pass hands out: properties inside the file -/

section

variable (file : Bytes) (fuel stringPos : Nat)

/-- The property of the token at the position of `s`, when it is an `FDT_PROP`. -/
def handed (s : Tokens) : List FdtProperty :=
  if words ((file.drop s.pos).take 4) = [fdtProp] then
    let w := words ((file.drop (s.pos + 4)).take 8)
    match string file fuel stringPos (w.getD 1 0) with
    | .returned name => [⟨name, s.pos + 4 + 8, w.getD 0 0⟩]
    | _ => []
  else []

/-- The properties of a run of the token loop, in the order of their tokens. -/
def tokenProps : Nat → Tokens → List FdtProperty
  | 0, _ => []
  | passes + 1, s =>
      match pass file fuel stringPos s with
      | .returned (.again s') => handed file fuel stringPos s ++ tokenProps passes s'
      | _ => []

end

section

variable {file : Bytes} {fuel stringPos : Nat}

/-- A node that ends moves below the node above it, with its properties. -/
theorem allProps_attach (s : Tokens) (node : FdtNode) :
    (s.attach node).allProps.Perm (node.allProps ++ s.allProps) := by
  unfold Tokens.attach Tokens.allProps
  refine List.perm_iff_count.mpr fun q => ?_
  cases hstack : s.nodeStack with
  | nil =>
      simp only [List.flatMap_nil, List.nil_append, propsOfNodes_append, propsOfNodes_singleton,
        List.count_append]
      omega
  | cons top rest =>
      cases top with
      | mk name properties nodes =>
          simp only [FdtNode.properties, FdtNode.nodes, List.flatMap_cons, FdtNode.allProps,
            propsOfNodes_append, propsOfNodes_singleton, List.count_append]
          omega

/-- A pass on a property: what it hands out, and where it goes on. -/
theorem again_of_prop {s s' : Tokens}
    (htag : words ((file.drop s.pos).take 4) = [fdtProp])
    (h : prop file fuel stringPos { s with pos := s.pos + 4 } = .returned (.again s')) :
    ∃ q, handed file fuel stringPos s = [q] ∧ q.offset = s.pos + 12 ∧
      q.offset + q.sz ≤ s'.pos ∧ s'.allProps.Perm (s.allProps ++ [q]) := by
  rw [prop_words] at h
  split at h
  · rename_i plen nameoff hw
    obtain ⟨name, hname, h⟩ := bind_eq_returned h
    split at h
    · rename_i top rest hstack
      split at h
      · cases h
      · injection h with h
        injection h with h
        subst h
        have hhanded : handed file fuel stringPos s = [⟨name, s.pos + 4 + 8, plen⟩] := by
          unfold handed
          rw [if_pos htag, hw]
          show (match string file fuel stringPos nameoff with
            | .returned name => [FdtProperty.mk name (s.pos + 4 + 8) plen]
            | _ => []) = _
          rw [hname]
        refine ⟨⟨name, s.pos + 4 + 8, plen⟩, hhanded, rfl, le_align _, ?_⟩
        unfold Tokens.allProps
        refine List.perm_iff_count.mpr fun q => ?_
        have hstack' : s.nodeStack = top :: rest := hstack
        cases top with
        | mk tname properties nodes =>
            simp only [hstack', FdtNode.properties, FdtNode.nodes, List.flatMap_cons,
              FdtNode.allProps, List.map_append, List.map_cons, List.map_nil, List.count_append]
            omega
    · cases h
  · cases h

/-- **What a pass that goes on does to the properties**: those of the tree are the ones it had and
    the one handed out, which begins behind the token and ends in front of the next. -/
theorem again_props {s s' : Tokens} (h : pass file fuel stringPos s = .returned (.again s')) :
    s'.allProps.Perm (s.allProps ++ handed file fuel stringPos s) ∧
      ∀ q ∈ handed file fuel stringPos s, s.pos < q.offset ∧ q.offset + q.sz ≤ s'.pos := by
  rw [pass_words] at h
  split at h
  · rename_i tag htag
    -- a token that is no property hands nothing out
    have hnone : tag ≠ fdtProp → handed file fuel stringPos s = [] := fun hne => by
      unfold handed
      rw [if_neg]
      rw [htag]
      exact fun h => hne (List.singleton_inj.mp h)
    have hquiet : tag ≠ fdtProp → s'.allProps.Perm s.allProps →
        s'.allProps.Perm (s.allProps ++ handed file fuel stringPos s) ∧
          ∀ q ∈ handed file fuel stringPos s, s.pos < q.offset ∧ q.offset + q.sz ≤ s'.pos := by
      intro hne hperm
      rw [hnone hne, List.append_nil]
      exact ⟨hperm, fun q hq => absurd hq List.not_mem_nil⟩
    unfold onTag at h
    split at h
    · rename_i hbegin
      refine hquiet (by rw [hbegin]; decide) ?_
      obtain ⟨⟨name, pos⟩, -, h⟩ := bind_eq_returned h
      dsimp only at h
      split at h
      · cases h
      · injection h with h
        injection h with h
        subst h
        exact List.Perm.refl _
    split at h
    · rename_i hprop
      rw [hprop] at htag
      obtain ⟨q, hq, hoff, hend, hperm⟩ := again_of_prop htag h
      rw [hq]
      refine ⟨hperm, fun r hr => ?_⟩
      rw [List.mem_singleton.mp hr]
      omega
    rename_i hprop
    refine hquiet hprop ?_
    split at h
    · unfold endNode at h
      split at h
      · rename_i node rest hstack
        injection h with h
        injection h with h
        subst h
        refine (allProps_attach _ node).trans ?_
        have hstack' : s.nodeStack = node :: rest := hstack
        unfold Tokens.allProps
        rw [hstack', List.flatMap_cons, List.append_assoc]
      · cases h
    split at h
    · injection h with h
      injection h with h
      subst h
      exact List.Perm.refl _
    split at h
    · split at h <;> cases h
    · cases h
  · cases h

/-- The pass that ends the loop has no node open, and leaves the root nodes. -/
theorem stop_props {s t : Tokens} (h : pass file fuel stringPos s = .returned (.stop t)) :
    s.pos + 4 ≤ file.length ∧ s.nodeStack = [] ∧ t.rootNodes = s.rootNodes := by
  rw [pass_words] at h
  split at h
  · rename_i tag htag
    have hlen := length_words ((file.drop s.pos).take 4)
    rw [htag, List.length_singleton, List.length_take, List.length_drop] at hlen
    refine ⟨by omega, ?_⟩
    unfold onTag at h
    split at h
    · obtain ⟨⟨name, pos⟩, -, h⟩ := bind_eq_returned h
      dsimp only at h
      split at h <;> cases h
    split at h
    · rw [prop_words] at h
      split at h
      · obtain ⟨name, -, h⟩ := bind_eq_returned h
        split at h
        · split at h <;> cases h
        · cases h
      · cases h
    split at h
    · unfold endNode at h
      split at h <;> cases h
    split at h
    · cases h
    split at h
    · split at h
      · rename_i hstack
        injection h with h
        injection h with h
        subst h
        exact ⟨hstack, rfl⟩
      · cases h
    · cases h
  · cases h

/-! ## The loop hands out nothing but what its passes do -/

/-- A loop that comes to its end has read another token. -/
theorem lt_of_tokenLoop : ∀ {passes : Nat} {s t : Tokens},
    tokenLoop file fuel stringPos passes s = .returned t → s.pos + 4 ≤ file.length := by
  intro passes
  cases passes with
  | zero => intro s t h; cases h
  | succ n =>
      intro s t h
      obtain ⟨next, hpass, -⟩ := bind_eq_returned h
      cases next with
      | again s' => exact (lt_of_hop hpass).1
      | stop t' => exact (stop_props hpass).1

/-- **The properties of a run of the loop.**  Induction on the passes: the property of a pass ends in
    front of the token of the next, which is in the file, and the others come behind that. -/
theorem tokenLoop_props : ∀ {passes : Nat} {s t : Tokens},
    tokenLoop file fuel stringPos passes s = .returned t →
    (propsOfNodes t.rootNodes).Perm (s.allProps ++ tokenProps file fuel stringPos passes s) ∧
      (tokenProps file fuel stringPos passes s).Pairwise FdtProperty.Before ∧
      ∀ q ∈ tokenProps file fuel stringPos passes s,
        s.pos < q.offset ∧ q.offset + q.sz ≤ file.length := by
  intro passes
  induction passes with
  | zero => intro s t h; cases h
  | succ n ih =>
      intro s t h
      obtain ⟨next, hpass, h⟩ := bind_eq_returned h
      rw [tokenProps, hpass]
      cases next with
      | stop t' =>
          obtain ⟨-, hstack, hroots⟩ := stop_props hpass
          injection h with h
          subst h
          refine ⟨?_, List.Pairwise.nil, fun q hq => absurd hq List.not_mem_nil⟩
          rw [hroots, List.append_nil, Tokens.allProps, hstack]
          exact List.Perm.refl _
      | again s' =>
          obtain ⟨hperm, hhanded⟩ := again_props hpass
          obtain ⟨hperm', hpair, hin⟩ := ih h
          have hin' := lt_of_tokenLoop h
          have hup := (lt_of_hop hpass).2
          refine ⟨?_, ?_, ?_⟩
          · refine hperm'.trans ?_
            rw [← List.append_assoc]
            exact hperm.append_right _
          · refine List.pairwise_append.mpr ⟨?_, hpair, fun q hq r hr => ?_⟩
            · unfold handed
              split
              · dsimp only
                split
                · exact List.pairwise_singleton _ _
                · exact List.Pairwise.nil
              · exact List.Pairwise.nil
            · have hq' := hhanded q hq
              have hr' := hin r hr
              unfold FdtProperty.Before
              omega
          · intro q hq
            rcases List.mem_append.mp hq with hq | hq
            · have hq' := hhanded q hq
              omega
            · have hq' := hin q hq
              omega

end

/-! ## The readers of pyfit, on a property inside the file -/

/-- `dumpNodeProperty`: what is written for a property, given itself or by its name. -/
def dumpNodeProperty (file : Bytes) (node : FdtNode) (propIsh : FdtProperty ⊕ Bytes) : Py Bytes :=
  match propIsh with
  | .inl prop => pure (read file prop.offset prop.sz).1
  | .inr name =>
      match node.properties.lookup name with
      | some prop => pure (read file prop.offset prop.sz).1
      | none => .raised (.valueError "missing property")

/-- The options of `pyfit extract`. -/
structure ExtractOptions where
  /-- `--text`: print the value as a string. -/
  text : Bool
  /-- `--numeric`: print it as a number. -/
  numeric : Bool
  /-- `--timestamp`: print it as a date. -/
  timestamp : Bool
  /-- `--hex`: print a number in base 16. -/
  hex : Bool

/-- No option at all: the value as it is. -/
def ExtractOptions.plain : ExtractOptions where
  text := false
  numeric := false
  timestamp := false
  hex := false

/-- `"%02x" % ord(c)`. -/
def hexByte (c : UInt8) : Bytes :=
  let digit := fun n => UInt8.ofNat (Nat.digitChar n).toNat
  [digit (c.toNat / 16), digit (c.toNat % 16)]

/-- `ExtractRunner._handleParsed`: the exit code, and what is written.  `ctime` is `time.ctime`. -/
def extractHandleParsed (ctime : Nat → Bytes) (file : Bytes) (o : ExtractOptions)
    (dataProp : FdtProperty) : Py (Nat × Bytes) :=
  if (o.numeric || o.timestamp) && dataProp.sz != 4 then pure (1, [])
  else
    let buf := (read file dataProp.offset dataProp.sz).1
    if o.text then
      if buf.getLast? = some 0x00 then pure (0, buf.dropLast) else pure (1, [])
    else if o.numeric then do
      let w ← unpack 1 buf
      pure (0, ascii (toString (w.getD 0 0)))
    else if o.timestamp then do
      let w ← unpack 1 buf
      pure (0, ctime (w.getD 0 0))
    else if o.hex then pure (0, buf.flatMap hexByte)
    else pure (0, buf)

/-- What a reader is given of a property whose value is `value`: a dump and a plain extraction get all
    of it, and `getNodeProperty` all but a NUL at its end.  (Of an empty value it looks at the last
    byte, which is not there.) -/
structure ReadsAs (file : Bytes) (q : FdtProperty) (value : Bytes) : Prop where
  length : value.length = q.sz
  bytes : ∀ i, i < q.sz → value[i]? = file[q.offset + i]?
  dump : ∀ node, dumpNodeProperty file node (.inl q) = .returned value
  dumpByName : ∀ node name, node.properties.lookup name = some q →
    dumpNodeProperty file node (.inr name) = .returned value
  get : ∀ node name, node.properties.lookup name = some q → q.sz ≠ 0 →
    getNodeProperty file node name =
      .returned (some (if value.getLast? = some 0x00 then value.dropLast else value))
  extract : ∀ ctime, extractHandleParsed ctime file .plain q = .returned (0, value)

/-- A property whose extent is in the file can be read. -/
theorem readsAs_of_in_file {file : Bytes} {q : FdtProperty}
    (h : q.offset + q.sz ≤ file.length) :
    ReadsAs file q ((file.drop q.offset).take q.sz) where
  length := by
    rw [List.length_take, List.length_drop]
    omega
  bytes := fun i hi => by rw [List.getElem?_take_of_lt hi, List.getElem?_drop]
  dump := fun node => rfl
  dumpByName := fun node name hlookup => by
    rw [dumpNodeProperty, hlookup]
    rfl
  get := fun node name hlookup hne => by
    have hlen : ((file.drop q.offset).take q.sz).length = q.sz := by
      rw [List.length_take, List.length_drop]
      omega
    rw [getNodeProperty, hlookup]
    dsimp only [read]
    cases hlast : ((file.drop q.offset).take q.sz).getLast? with
    | none =>
        rw [List.getLast?_eq_none_iff] at hlast
        rw [hlast, List.length_nil] at hlen
        exact absurd hlen.symm hne
    | some c =>
        show Outcome.returned (some (if c = 0x00 then _ else _)) = _
        by_cases hc : c = 0x00
        · rw [if_pos hc, hc, if_pos rfl]
        · rw [if_neg hc, if_neg (fun h => hc (Option.some.inj h))]
  extract := fun ctime => rfl

/-- The properties in the order of their tokens. -/
def Parser.tokenOrder (p : Parser) (file : Bytes) (fuel : Nat) : List FdtProperty :=
  tokenProps file fuel p.stringPos fuel (Tokens.start p.structPos)

/-- A parser that returns has run its loop to the end. -/
theorem tokenLoop_of_parsed {file : Bytes} {fuel : Nat} {p : Parser}
    (h : parseStream file fuel = .returned p) :
    ∃ t, tokenLoop file fuel p.stringPos fuel (Tokens.start p.structPos) = .returned t ∧
      p.rootNodes = t.rootNodes := by
  obtain ⟨hdr, -, h⟩ := bind_eq_returned h
  dsimp only at h
  split at h
  · cases h
  split at h
  · cases h
  obtain ⟨t, hloop, h⟩ := bind_eq_returned h
  injection h with h
  subst h
  exact ⟨t, hloop, rfl⟩

/-- **Every extent is real data.**  The properties that the parser hands out are those of the tokens,
    in whose order each value ends before the next begins; every value lies in the file behind the
    start of the struct block, no byte belongs to two of them, and it is what the readers read. -/
theorem extents_real {file : Bytes} {fuel : Nat} {p : Parser}
    (h : parseStream file fuel = .returned p) :
    p.allProps.Perm (p.tokenOrder file fuel) ∧
      (p.tokenOrder file fuel).Pairwise FdtProperty.Before ∧
      (∀ q ∈ p.allProps, p.structPos < q.offset ∧ q.offset + q.sz ≤ file.length) ∧
      (∀ q ∈ p.allProps, ∀ r ∈ p.allProps, q ≠ r → ∀ i, ¬ (q.Covers i ∧ r.Covers i)) ∧
      ∀ q ∈ p.allProps, ∃ value, ReadsAs file q value := by
  obtain ⟨t, hloop, hroots⟩ := tokenLoop_of_parsed h
  obtain ⟨hperm, hpair, hin⟩ := tokenLoop_props hloop
  have hperm' : p.allProps.Perm (p.tokenOrder file fuel) := by
    rw [Parser.allProps, hroots]
    exact hperm
  have hin' : ∀ q ∈ p.allProps, p.structPos < q.offset ∧ q.offset + q.sz ≤ file.length :=
    fun q hq => hin q (hperm'.mem_iff.mp hq)
  refine ⟨hperm', hpair, hin', fun q hq r hr hne i => ?_, fun q hq =>
    ⟨_, readsAs_of_in_file (hin' q hq).2⟩⟩
  -- one of two different properties comes first
  have hapart : ∀ {q r : FdtProperty}, q.Before r → ¬ (q.Covers i ∧ r.Covers i) := by
    intro q r hbefore hcovers
    unfold FdtProperty.Before at hbefore
    unfold FdtProperty.Covers at hcovers
    omega
  have hor := List.Pairwise.forall_of_forall_of_flip
    (R := fun q r : FdtProperty => q ≠ r → q.Before r ∨ r.Before q)
    (fun q _ hne => absurd rfl hne) (hpair.imp fun h _ => Or.inl h) (hpair.imp fun h _ => Or.inr h)
  rcases hor (hperm'.mem_iff.mp hq) (hperm'.mem_iff.mp hr) hne with hbefore | hbefore
  · exact hapart hbefore
  · exact fun hcovers => hapart hbefore hcovers.symm

/-- A root node with one property, the text "A" with its NUL. -/
def textFile : Bytes :=
  [fdtMagic, 74, 40, 72, 40, 17, 16, 0, 2, 32].flatMap word ++
    (word fdtBeginNode ++ [0, 0, 0, 0]) ++
    (word fdtProp ++ word 2 ++ word 0 ++ [0x41, 0, 0, 0]) ++
    word fdtEndNode ++ word fdtEnd ++ [0x64, 0]

/-- A property of the root node, and what `getNodeProperty` gives for it. -/
def rootProperty (file : Bytes) (fuel : Nat) (name : Bytes) : Py (FdtProperty × Option Bytes) := do
  let p ← parseStream file fuel
  match getNode p (ascii "/") with
  | none => .raised (.keyError [])
  | some node =>
      match node.properties.lookup name with
      | none => .raised (.keyError name)
      | some q => do
          let value ← getNodeProperty file node name
          pure (q, value)

/-- The property of the example's root. -/
theorem textFile_root :
    rootProperty textFile 75 [0x64] = .returned (⟨[0x64], 60, 2⟩, some [0x41]) := by decide +kernel

/-- The extents of the example are apart and inside of the file. -/
theorem textFile_extents : ∃ p, parseStream textFile 75 = .returned p ∧
    p.allProps.Perm (p.tokenOrder textFile 75) ∧
      (p.tokenOrder textFile 75).Pairwise FdtProperty.Before ∧
      (∀ q ∈ p.allProps, p.structPos < q.offset ∧ q.offset + q.sz ≤ textFile.length) ∧
      (∀ q ∈ p.allProps, ∀ r ∈ p.allProps, q ≠ r → ∀ i, ¬ (q.Covers i ∧ r.Covers i)) ∧
      ∀ q ∈ p.allProps, ∃ value, ReadsAs textFile q value := by
  obtain ⟨p, hp, -⟩ := bind_eq_returned textFile_root
  exact ⟨p, hp, extents_real hp⟩

/-- Of the two bytes of the text, `getNodeProperty` returns one. -/
theorem textFile_stripped : ¬ ∀ p, parseStream textFile 75 = .returned p →
    ∀ node, getNode p (ascii "/") = some node → ∀ q, node.properties.lookup [0x64] = some q →
      ∃ value, getNodeProperty textFile node [0x64] = .returned (some value) ∧
        value.length = q.sz := by
  intro hall
  obtain ⟨p, hp, h⟩ := bind_eq_returned textFile_root
  cases hnode : getNode p (ascii "/") with
  | none => rw [hnode] at h; cases h
  | some node =>
      rw [hnode] at h
      dsimp only at h
      cases hq : node.properties.lookup [0x64] with
      | none => rw [hq] at h; cases h
      | some q =>
          rw [hq] at h
          obtain ⟨value, hvalue, h⟩ := bind_eq_returned h
          injection h with h
          obtain ⟨rfl, rfl⟩ := Prod.mk.inj h
          obtain ⟨value', hvalue', hlen⟩ := hall p hp node hnode _ hq
          rw [hvalue] at hvalue'
          injection hvalue' with hvalue'
          injection hvalue' with hvalue'
          subst hvalue'
          cases hlen

end DentOS.Fit
