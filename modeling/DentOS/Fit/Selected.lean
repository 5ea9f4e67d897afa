/-
  The image that `Parser.getInitrdNode` is asked for, and when it finds it (onl/install/Fit.py).

  `initrdOf` is the purpose: the child of /images that the ramdisk property of the selected
  configuration names, and none where a link of that chain is missing.  The function walks the same
  chain with its eyes half open.  A profile that is missing is seen, a default that names no
  configuration is a KeyError; no configuration at all is an IndexError, and so is a property without a
  byte, whose last byte is asked for.  `Complete` is what must be there for the function to come to its
  end, and `getInitrdNode_iff` says that it is all of that.

  One clause is about a name with a slash in it: the function puts the name behind "/images/" and walks
  the path, and so comes below the child that it should have named.  `Named` says which trees this is
  of no consequence for.
-/
import DentOS.Fit.Initrd
import DentOS.Fit.RoundTrip

namespace DentOS.Fit

open Outcome PyText

/-- The order in which Python lists the keys of a dict. -/
structure KeyOrder where
  /-- The keys in the order they are listed. -/
  keys : List Bytes → List Bytes
  /-- Every key is listed once. -/
  perm : ∀ l, (keys l).Perm l

/-! ## The chain of names: configuration, image, node -/

/-- The node with no name. -/
def Parser.root (p : Parser) : Option FdtNode := p.rootNodes.lookup []

/-- A child, of a node that may be missing. -/
def child (node : Option FdtNode) (name : Bytes) : Option FdtNode :=
  node.bind fun n => n.nodes.lookup name

/-- The bytes of a property. -/
def contents (file : Bytes) (q : FdtProperty) : Bytes := (file.drop q.offset).take q.sz

/-- The bytes of a property as a string, with or without its NUL. -/
def stringValue (file : Bytes) (q : FdtProperty) : Bytes :=
  if (contents file q).getLast? = some 0x00 then (contents file q).dropLast else contents file q

section

variable (order : KeyOrder) (file : Bytes)

/-- The profile asked for, else the default, else some configuration. -/
def chosen (configurations : FdtNode) (profile : Option Bytes) : Option FdtNode :=
  match profile, configurations.properties.lookup (ascii "default") with
  | some name, _ => configurations.nodes.lookup name
  | none, some q => configurations.nodes.lookup (stringValue file q)
  | none, none =>
      (order.keys (configurations.nodes.map Prod.fst)).head?.bind fun name =>
        configurations.nodes.lookup name

/-- The configuration that is chosen. -/
def selected (p : Parser) (profile : Option Bytes) : Option FdtNode :=
  (child p.root (ascii "configurations")).bind fun cs => chosen order file cs profile

/-- **The initrd of a profile.** -/
def initrdOf (p : Parser) (profile : Option Bytes) : Option FdtNode :=
  (selected order file p profile).bind fun conf =>
    (conf.properties.lookup (ascii "ramdisk")).bind fun q =>
      child (child p.root (ascii "images")) (stringValue file q)

/-- Without a profile, the default names a configuration, or there is one. -/
def Choice (configurations : FdtNode) (profile : Option Bytes) : Prop :=
  profile = none →
    (∀ q, configurations.properties.lookup (ascii "default") = some q →
      contents file q ≠ [] ∧ configurations.nodes.lookup (stringValue file q) ≠ none) ∧
    (configurations.properties.lookup (ascii "default") = none → configurations.nodes ≠ [])

/-- A name that may be read as a path: it has no slash; or there is nothing of that name, and nothing
    at that path; or the child of that name is twin to what the path leads to. -/
def Named (images : FdtNode) (name : Bytes) : Prop :=
  (0x2F : UInt8) ∉ name ∨
    (images.nodes.lookup name = none ∧ walkNodes images.nodes (splitSlash name) = none) ∨
    ∃ n, images.nodes.lookup name = some n ∧ walkNodes images.nodes (splitSlash name) = some n

/-- What the function takes for granted. -/
structure Complete (p : Parser) (profile : Option Bytes) : Prop where
  choice : ∀ cs, child p.root (ascii "configurations") = some cs → Choice file cs profile
  /-- The ramdisk's name is not empty, and may be read as a path. -/
  ramdisk : ∀ conf q, selected order file p profile = some conf →
    conf.properties.lookup (ascii "ramdisk") = some q → contents file q ≠ [] ∧
      ∀ images, child p.root (ascii "images") = some images → Named images (stringValue file q)

end

section

variable {order : KeyOrder} {file : Bytes}

/-! ## Links of the chain: each name is looked up as a path -/

/-- A name without a slash is one element. -/
theorem splitSlash_plain : ∀ {name : Bytes}, (0x2F : UInt8) ∉ name → splitSlash name = [name]
  | [], _ => rfl
  | c :: cs, h => by
      have hc : c ≠ 0x2F := fun heq => h (heq ▸ List.mem_cons_self)
      rw [splitSlash, if_neg hc, splitSlash_plain fun hcs => h (List.mem_cons_of_mem c hcs)]

/-- A name in front of a slash is the first element. -/
theorem splitSlash_cons (rest : Bytes) : ∀ {name : Bytes}, (0x2F : UInt8) ∉ name →
    splitSlash (name ++ 0x2F :: rest) = name :: splitSlash rest
  | [], _ => rfl
  | c :: cs, h => by
      have hc : c ≠ 0x2F := fun heq => h (heq ▸ List.mem_cons_self)
      have hcs := splitSlash_cons rest fun hcs => h (List.mem_cons_of_mem c hcs)
      rw [List.cons_append, splitSlash, if_neg hc, hcs]

/-- The walk takes one step, and goes on below. -/
theorem walkNodes_cons (nodes : List (Bytes × FdtNode)) (b : Bytes) {els : List Bytes}
    (h : els ≠ []) :
    walkNodes nodes (b :: els) = (nodes.lookup b).bind fun n => walkNodes n.nodes els := by
  cases els with
  | nil => exact absurd rfl h
  | cons e es =>
      rw [walkNodes]
      · cases nodes.lookup b <;> rfl
      · exact h

/-- The configurations are a child of the root. -/
theorem getNode_configurations (p : Parser) :
    getNode p (ascii "/configurations") = child p.root (ascii "configurations") := by
  have hsplit : splitSlash (ascii "/configurations") = [[], ascii "configurations"] := by decide
  rw [getNode, if_neg (by decide), hsplit, walkNodes_cons _ _ (List.cons_ne_nil _ _)]
  rfl

/-- A path has an element at least. -/
theorem splitSlash_ne_nil : ∀ name : Bytes, splitSlash name ≠ []
  | [] => List.cons_ne_nil _ _
  | c :: cs => by
      rw [splitSlash]
      split
      · exact List.cons_ne_nil _ _
      · cases hcs : splitSlash cs with
        | nil => exact absurd hcs (splitSlash_ne_nil cs)
        | cons w ws => exact List.cons_ne_nil _ _

/-- **An image is looked up as a path** below /images. -/
theorem getNode_images (p : Parser) (name : Bytes) :
    getNode p (ascii "/images/" ++ name) =
      (child p.root (ascii "images")).bind fun images => walkNodes images.nodes (splitSlash name) := by
  have himages : ascii "/images/" ++ name = [] ++ 0x2F :: (ascii "images" ++ 0x2F :: name) := rfl
  have hsplit : splitSlash (ascii "/images/" ++ name) =
      [] :: ascii "images" :: splitSlash name := by
    rw [himages, splitSlash_cons _ List.not_mem_nil, splitSlash_cons name (by decide)]
  have hne : ascii "/images/" ++ name ≠ ascii "/" := fun heq => by
    have hlen := congrArg List.length heq
    rw [List.length_append] at hlen
    have height : (ascii "/images/").length = 8 := rfl
    have hone : (ascii "/").length = 1 := rfl
    omega
  rw [getNode, if_neg hne, hsplit, walkNodes_cons _ _ (List.cons_ne_nil _ _)]
  show (p.root.bind fun n => walkNodes n.nodes (ascii "images" :: splitSlash name)) = _
  unfold child
  rw [Option.bind_assoc]
  congr 1
  funext n
  exact walkNodes_cons _ _ (splitSlash_ne_nil name)

/-- A name may be read as a path exactly where the two lead to the same. -/
theorem named_iff {images : FdtNode} {name : Bytes} :
    Named images name ↔ walkNodes images.nodes (splitSlash name) = images.nodes.lookup name := by
  constructor
  · rintro (hplain | ⟨hnone, hwalk⟩ | ⟨n, hsome, hwalk⟩)
    · rw [splitSlash_plain hplain]
      rfl
    · rw [hnone, hwalk]
    · rw [hsome, hwalk]
  · intro heq
    cases hname : images.nodes.lookup name with
    | none => exact Or.inr (Or.inl ⟨hname, heq.trans hname⟩)
    | some n => exact Or.inr (Or.inr ⟨n, hname, heq.trans hname⟩)

/-- The function's image is the one that was meant exactly where the name may be read as a path. -/
theorem getNode_eq_child_iff {p : Parser} {name : Bytes} :
    getNode p (ascii "/images/" ++ name) = child (child p.root (ascii "images")) name ↔
      ∀ images, child p.root (ascii "images") = some images → Named images name := by
  rw [getNode_images]
  cases himages : child p.root (ascii "images") with
  | none => exact iff_of_true rfl fun _ h => nomatch h
  | some images =>
      rw [Option.bind_some]
      constructor
      · intro heq _ hsome
        rw [← Option.some.inj hsome]
        exact named_iff.mpr heq
      · exact fun hnamed => named_iff.mp (hnamed images rfl)

/-- A property that is missing has no value. -/
theorem getNodeProperty_none {node : FdtNode} {name : Bytes}
    (h : node.properties.lookup name = none) : getNodeProperty file node name = .returned none := by
  rw [getNodeProperty, h]
  rfl

/-- Of an empty value the last byte cannot be cut off. -/
theorem getNodeProperty_empty {node : FdtNode} {name : Bytes} {q : FdtProperty}
    (h : node.properties.lookup name = some q) (hempty : contents file q = []) :
    getNodeProperty file node name = .raised .indexError := by
  have hbuf : (read file q.offset q.sz).1 = [] := hempty
  simp only [getNodeProperty, h, hbuf, List.getLast?_nil]

/-- A value is returned without its last byte. -/
theorem getNodeProperty_some {node : FdtNode} {name : Bytes} {q : FdtProperty}
    (h : node.properties.lookup name = some q) (hsome : contents file q ≠ []) :
    getNodeProperty file node name = .returned (some (stringValue file q)) := by
  have hbuf : (read file q.offset q.sz).1 = contents file q := rfl
  obtain ⟨c, hc⟩ : ∃ c, (contents file q).getLast? = some c :=
    ⟨_, List.getLast?_eq_some_getLast hsome⟩
  simp only [getNodeProperty, h, hbuf, hc, stringValue, Option.some.injEq]
  rfl

/-- A child is found under its name. -/
theorem nodeAt_some {node n : FdtNode} {key : Bytes} (h : node.nodes.lookup key = some n) :
    nodeAt node key = .returned n := by
  rw [nodeAt, h]
  rfl

/-- A child that is missing is an error. -/
theorem nodeAt_none {node : FdtNode} {key : Bytes} (h : node.nodes.lookup key = none) :
    nodeAt node key = .raised (.keyError key) := by
  rw [nodeAt, h]

/-- A name in the list has a node. -/
theorem exists_key {nodes : List (Bytes × FdtNode)} {name : Bytes}
    (h : name ∈ nodes.map Prod.fst) : ∃ n, nodes.lookup name = some n := by
  obtain ⟨item, hitem, rfl⟩ := List.mem_map.mp h
  refine Option.isSome_iff_exists.mp (List.lookup_isSome_iff.mpr ⟨item, hitem, ?_⟩)
  exact beq_self_eq_true item.1

/-! ## The configuration that is selected -/

/-- Without a profile the default is chosen. -/
theorem chosen_default {cs : FdtNode} {q : FdtProperty}
    (h : cs.properties.lookup (ascii "default") = some q) :
    chosen order file cs none = cs.nodes.lookup (stringValue file q) := by
  simp only [chosen, h]

/-- Without a default the first configuration is chosen. -/
theorem chosen_first {cs : FdtNode} (h : cs.properties.lookup (ascii "default") = none) :
    chosen order file cs none =
      (order.keys (cs.nodes.map Prod.fst)).head?.bind fun name => cs.nodes.lookup name := by
  simp only [chosen, h]

/-- **With a choice to make, the function makes it.** -/
theorem configNode_of_choice {cs : FdtNode} {profile : Option Bytes} (h : Choice file cs profile) :
    configNode order.keys file cs profile = .returned (chosen order file cs profile) := by
  cases profile with
  | some name => rfl
  | none =>
      obtain ⟨hdefault, hfirst⟩ := h rfl
      rw [configNode]
      cases hq : cs.properties.lookup (ascii "default") with
      | some q =>
          obtain ⟨hvalue, hnamed⟩ := hdefault q hq
          obtain ⟨n, hn⟩ := Option.ne_none_iff_exists'.mp hnamed
          rw [getNodeProperty_some hq hvalue, returned_bind, chosen_default hq, hn]
          show (nodeAt cs (stringValue file q) >>= _) = _
          rw [nodeAt_some hn]
          rfl
      | none =>
          rw [getNodeProperty_none hq, returned_bind]
          have hkeys : order.keys (cs.nodes.map Prod.fst) ≠ [] := by
            intro hnil
            have hperm := order.perm (cs.nodes.map Prod.fst)
            rw [hnil] at hperm
            exact hfirst hq (List.map_eq_nil_iff.mp hperm.nil_eq.symm)
          obtain ⟨pf, rest, hpf⟩ := List.exists_cons_of_ne_nil hkeys
          have hmem : pf ∈ cs.nodes.map Prod.fst := by
            refine (order.perm _).mem_iff.mp ?_
            rw [hpf]
            exact List.mem_cons_self
          obtain ⟨n, hn⟩ := exists_key hmem
          rw [chosen_first hq, hpf]
          show (nodeAt cs pf >>= _) = Outcome.returned (cs.nodes.lookup pf)
          rw [nodeAt_some hn, hn]
          rfl

/-- Without one it raises. -/
theorem choice_of_configNode {cs : FdtNode} {profile : Option Bytes} {r : Option FdtNode}
    (h : configNode order.keys file cs profile = .returned r) : Choice file cs profile := by
  rintro rfl
  rw [configNode] at h
  constructor
  · intro q hq
    by_cases hvalue : contents file q = []
    · rw [getNodeProperty_empty hq hvalue] at h
      cases h
    · refine ⟨hvalue, fun hnone => ?_⟩
      rw [getNodeProperty_some hq hvalue, returned_bind] at h
      change (nodeAt cs (stringValue file q) >>= _) = _ at h
      rw [nodeAt_none hnone] at h
      cases h
  · intro hq hnil
    rw [getNodeProperty_none hq, returned_bind, hnil] at h
    have hkeys : order.keys (List.map Prod.fst ([] : List (Bytes × FdtNode))) = [] :=
      List.perm_nil.mp (order.perm [])
    dsimp only at h
    rw [hkeys] at h
    cases h

/-! ## The image that it names -/

section

variable {p : Parser} {profile : Option Bytes} {cs conf : FdtNode} {q : FdtProperty}

/-- No configuration has been chosen. -/
theorem getInitrdNode_unchosen (hcs : child p.root (ascii "configurations") = some cs)
    (h : Choice file cs profile) (hchosen : chosen order file cs profile = none) :
    getInitrdNode order.keys file p profile = .returned none := by
  rw [getInitrdNode, getNode_configurations, hcs]
  show (configNode order.keys file cs profile >>= _) = _
  rw [configNode_of_choice h, hchosen]
  rfl

/-- With a configuration, what comes of its ramdisk property comes of the function. -/
theorem getInitrdNode_noRamdisk (hcs : child p.root (ascii "configurations") = some cs)
    (h : Choice file cs profile) (hchosen : chosen order file cs profile = some conf)
    (hq : conf.properties.lookup (ascii "ramdisk") = none) :
    getInitrdNode order.keys file p profile = .returned none := by
  rw [getInitrdNode, getNode_configurations, hcs]
  show (configNode order.keys file cs profile >>= _) = _
  rw [configNode_of_choice h, hchosen]
  show (getNodeProperty file conf (ascii "ramdisk") >>= _) = _
  rw [getNodeProperty_none hq]
  rfl

/-- One has, and its ramdisk is the empty value. -/
theorem getInitrdNode_unnamed (hcs : child p.root (ascii "configurations") = some cs)
    (h : Choice file cs profile) (hchosen : chosen order file cs profile = some conf)
    (hq : conf.properties.lookup (ascii "ramdisk") = some q) (hempty : contents file q = []) :
    getInitrdNode order.keys file p profile = .raised .indexError := by
  rw [getInitrdNode, getNode_configurations, hcs]
  show (configNode order.keys file cs profile >>= _) = _
  rw [configNode_of_choice h, hchosen]
  show (getNodeProperty file conf (ascii "ramdisk") >>= _) = _
  rw [getNodeProperty_empty hq hempty]
  rfl

/-- One has, and it names the ramdisk, which is looked up from the root. -/
theorem getInitrdNode_named (hcs : child p.root (ascii "configurations") = some cs)
    (h : Choice file cs profile) (hchosen : chosen order file cs profile = some conf)
    (hq : conf.properties.lookup (ascii "ramdisk") = some q) (hname : contents file q ≠ []) :
    getInitrdNode order.keys file p profile =
      .returned (getNode p (ascii "/images/" ++ stringValue file q)) := by
  rw [getInitrdNode, getNode_configurations, hcs]
  show (configNode order.keys file cs profile >>= _) = _
  rw [configNode_of_choice h, hchosen]
  show (getNodeProperty file conf (ascii "ramdisk") >>= _) = _
  rw [getNodeProperty_some hq hname]
  rfl

/-- What was returned was behind a choice. -/
theorem choice_of_getInitrdNode {r : Option FdtNode}
    (hcs : child p.root (ascii "configurations") = some cs)
    (h : getInitrdNode order.keys file p profile = .returned r) : Choice file cs profile := by
  rw [getInitrdNode, getNode_configurations, hcs] at h
  obtain ⟨conf, hconf, -⟩ := bind_eq_returned h
  exact choice_of_configNode hconf

end

/-- **When `getInitrdNode` is right**: it returns the initrd of the profile exactly where what it takes
    for granted is there. -/
theorem getInitrdNode_iff (order : KeyOrder) (file : Bytes) (p : Parser) (profile : Option Bytes) :
    getInitrdNode order.keys file p profile = .returned (initrdOf order file p profile) ↔
      Complete order file p profile := by
  cases hcs : child p.root (ascii "configurations") with
  | none =>
      have hselected : selected order file p profile = none := by
        rw [selected, hcs]
        rfl
      constructor
      · intro _
        refine ⟨fun cs h => ?_, fun conf q h => ?_⟩
        · rw [hcs] at h
          cases h
        · rw [hselected] at h
          cases h
      · intro _
        rw [getInitrdNode, getNode_configurations, hcs, initrdOf, hselected]
        rfl
  | some cs =>
      have hselected : selected order file p profile = chosen order file cs profile := by
        rw [selected, hcs]
        rfl
      constructor
      · intro h
        have hchoice := choice_of_getInitrdNode hcs h
        refine ⟨fun cs' hcs' => ?_, fun conf q hconf hq => ?_⟩
        · rw [hcs] at hcs'
          cases hcs'
          exact hchoice
        · have hchosen := hselected.symm.trans hconf
          by_cases hname : contents file q = []
          · rw [getInitrdNode_unnamed hcs hchoice hchosen hq hname] at h
            cases h
          · rw [getInitrdNode_named hcs hchoice hchosen hq hname] at h
            injection h with h
            rw [initrdOf, hconf, Option.bind_some, hq] at h
            exact ⟨hname, getNode_eq_child_iff.mp h⟩
      · rintro ⟨hchoice, hramdisk⟩
        have hchoice := hchoice cs hcs
        rw [initrdOf, hselected]
        cases hchosen : chosen order file cs profile with
        | none => exact getInitrdNode_unchosen hcs hchoice hchosen
        | some conf =>
            rw [Option.bind_some]
            cases hq : conf.properties.lookup (ascii "ramdisk") with
            | none => exact getInitrdNode_noRamdisk hcs hchoice hchosen hq
            | some q =>
                obtain ⟨hname, hnamed⟩ := hramdisk conf q (hselected.trans hchosen) hq
                rw [Option.bind_some, getInitrdNode_named hcs hchoice hchosen hq hname,
                  getNode_eq_child_iff.mpr hnamed]

end

/-- An image without a configuration. -/
def emptyRoots : DtItems :=
  .node [] (.node (ascii "configurations") .nil .nil) .nil

/-- The header of a tree in which the ramdisk has no name. -/
def emptyHeader : FdtHeader where
  totalsize := 100
  offDtStruct := 56
  offDtStrings := 100
  offMemRsvmap := 40
  version := 17
  lastCompVersion := 16
  bootCpuidPhys := 0
  sizeDtStrings := 0
  sizeDtStruct := 44

/-- The tree. -/
def emptyFile : Bytes :=
  emptyHeader.words.flatMap word ++ List.replicate 16 0 ++ (emptyRoots.encode ++ word fdtEnd)

/-- The order in which the keys were inserted. -/
def listed : KeyOrder where
  keys := id
  perm := List.Perm.refl

/-- What the parser gives for it raises. -/
theorem getInitrdNode_raises : ∃ p, parseStream emptyFile 101 = .returned p ∧
    getInitrdNode listed.keys emptyFile p none ≠ .returned (initrdOf listed emptyFile p none) := by
  have hrun : (parseStream emptyFile 101 >>= fun p =>
      getInitrdNode listed.keys emptyFile p none >>= fun r => pure r.isSome) =
        .raised .indexError := by decide +kernel
  cases hp : parseStream emptyFile 101 with
  | returned p =>
      refine ⟨p, rfl, fun h => ?_⟩
      rw [hp, returned_bind, h] at hrun
      cases hrun
  | raised e =>
      have hparsed : (parseStream emptyFile 101 >>= fun _ => pure ()) = .returned () := by
        decide +kernel
      rw [hp] at hparsed
      cases hparsed
  | running =>
      rw [hp] at hrun
      cases hrun

end DentOS.Fit
