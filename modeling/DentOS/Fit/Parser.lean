/-
  `Parser._parseStream` (vendor-config-onl, onl/install/Fit.py): the reader of flattened device trees
  that the FIT tools are built on.

  The parser reads the header, seeks to the struct block and then takes one token after another, with
  a stack of the nodes that are open.  Names of nodes are read in place; names of properties are read
  from the strings block, to which the parser seeks and from which it comes back.

  A file is the list of its bytes; `read` at the end of the file gives the empty string, and `seek`
  may go past the end.  Two loops have no bound of their own: the token loop, and the loop of
  `_label`, which reads one byte after another.  Both take a bound on their passes here and are
  `running` when it is used up.

  Python attaches a node to the node above it when it begins; here it is attached when it ends
  (`attach`).  Nothing looks at the node above while a node inside it is open, and a tree with open
  nodes is never returned.  A dict is the list of its items in the order of their insertion.
-/
import DentOS.Lib.BigEndian
import DentOS.Lib.Outcome

namespace DentOS.Fit

/-- A Python 2 `str`. -/
abbrev Bytes := List UInt8

/-! ## The tree that the parser builds: nodes and properties -/

/-- A property: its name, and where its value is in the file. -/
structure FdtProperty where
  /-- The name of the property. -/
  name : Bytes
  /-- Where its value begins in the file. -/
  offset : Nat
  /-- The size of the value. -/
  sz : Nat
  deriving DecidableEq

/-- A node with its properties and its children, both in the order of their names' first use. -/
inductive FdtNode where
  | mk (name : Bytes) (properties : List (Bytes × FdtProperty)) (nodes : List (Bytes × FdtNode))

namespace FdtNode

/-- The parts of a node. -/
def name : FdtNode → Bytes
  | mk name _ _ => name

def properties : FdtNode → List (Bytes × FdtProperty)
  | mk _ properties _ => properties

def nodes : FdtNode → List (Bytes × FdtNode)
  | mk _ _ nodes => nodes

end FdtNode

/-- `key in dict`. -/
def hasKey {α : Type} (dict : List (Bytes × α)) (key : Bytes) : Bool :=
  dict.any fun item => item.1 == key

/-! ## Exceptions, and files that end -/

/-- What the parser raises. -/
inductive PyError where
  | structError
  | valueError (msg : String)
  | keyError (key : Bytes)
  | indexError
  | calledProcessError (code : Nat)
  deriving DecidableEq

/-- A program of the parser: it returns, it raises, or its fuel is at an end. -/
abbrev Py := Outcome PyError

/-- `fd.read(n)` at `pos`: what is there, and the position behind it. -/
def read (file : Bytes) (pos n : Nat) : Bytes × Nat :=
  let buf := (file.drop pos).take n
  (buf, pos + buf.length)

/-- Big-endian 32 bit words. -/
def words : Bytes → List Nat
  | b0 :: b1 :: b2 :: b3 :: rest => BigEndian.ofBytes [b0, b1, b2, b3] :: words rest
  | _ => []

/-- `struct.unpack(">kI", buf)`. -/
def unpack (k : Nat) (buf : Bytes) : Py (List Nat) :=
  if buf.length = 4 * k then .returned (words buf) else .raised .structError

/-! ## Names: read up to a zero, or up to the end -/

/-- `_align`: `(pos+3) & ~3`. -/
def align (pos : Nat) : Nat := (pos + 3) / 4 * 4

/-- `_label` from `pos` on, with `buf` read so far: the label, and the position behind its NUL. -/
def label (file : Bytes) : Nat → Nat → Bytes → Py (Bytes × Nat)
  | 0, _, _ => .running
  | fuel + 1, pos, buf =>
      match read file pos 1 with
      | ([], pos) => label file fuel pos buf
      | (c :: _, pos) => if c = 0x00 then .returned (buf, pos) else label file fuel pos (buf ++ [c])

/-- `_string`.  The dict of known strings is never filled, so every name is read from the file. -/
def string (file : Bytes) (fuel stringPos off : Nat) : Py Bytes := do
  let (buf, _) ← label file fuel (stringPos + off) []
  pure buf

/-! ## The token loop

  One state, and a step for each token. -/

/-- The magic number, and the tokens of the structure block. -/
def fdtMagic : Nat := 0xd00dfeed
def fdtBeginNode : Nat := 1
def fdtEndNode : Nat := 2
def fdtProp : Nat := 3
def fdtNop : Nat := 4
def fdtEnd : Nat := 9

/-- What the token loop works on.  `nodeStack` has the innermost open node first; `nops` counts the
    lines "NOP" printed. -/
structure Tokens where
  /-- Where the next token is. -/
  pos : Nat
  /-- The nodes that are open. -/
  nodeStack : List FdtNode
  /-- The nodes at the root that are closed. -/
  rootNodes : List (Bytes × FdtNode)
  /-- The number of lines printed. -/
  nops : Nat

namespace Tokens

/-- The nodes of the node that is being read, or the root nodes when none is open. -/
def siblings (s : Tokens) : List (Bytes × FdtNode) :=
  match s.nodeStack with
  | top :: _ => top.nodes
  | [] => s.rootNodes

/-- `nodeStack[-1].nodes[name] = node`, or `rootNodes[name] = node` when no node is open. -/
def attach (s : Tokens) (node : FdtNode) : Tokens :=
  match s.nodeStack with
  | top :: rest =>
      { s with
        nodeStack := .mk top.name top.properties (top.nodes ++ [(node.name, node)]) :: rest }
  | [] => { s with rootNodes := s.rootNodes ++ [(node.name, node)] }

end Tokens

/-- What one pass of the token loop leads to: another pass, or the end of the loop. -/
inductive Next where
  | again (s : Tokens)
  | stop (s : Tokens)

section

variable (file : Bytes) (fuel stringPos : Nat)

/-- `FDT_BEGIN_NODE`: a label, and a node that is open from here. -/
def beginNode (s : Tokens) : Py Next := do
  let (name, pos) ← label file fuel s.pos []
  if hasKey s.siblings name then .raised (.valueError "duplicate node")
  else pure (.again { s with pos := align pos, nodeStack := .mk name [] [] :: s.nodeStack })

/-- `FDT_PROP`: length and name, and the value behind them. -/
def prop (s : Tokens) : Py Next := do
  let (buf, pos) := read file s.pos 8
  let w ← unpack 2 buf
  let plen := w.getD 0 0
  let nameoff := w.getD 1 0
  let name ← string file fuel stringPos nameoff
  match s.nodeStack with
  | top :: rest =>
      if hasKey top.properties name then .raised (.valueError "duplicate property")
      else
        let newProp : FdtProperty := ⟨name, pos, plen⟩
        pure (.again { s with
          pos := align (pos + plen)
          nodeStack := .mk top.name (top.properties ++ [(name, newProp)]) top.nodes :: rest })
  | [] => .raised (.valueError "property with no node")

/-- `FDT_END_NODE`: the node goes to its parent. -/
def endNode (s : Tokens) : Py Next :=
  match s.nodeStack with
  | node :: rest => pure (.again ({ s with nodeStack := rest }.attach node))
  | [] => .raised (.valueError "missing begin node")

/-- The branches of the token loop, behind the word of the tag. -/
def onTag (tag : Nat) (s : Tokens) : Py Next :=
  if tag = fdtBeginNode then beginNode file fuel s
  else if tag = fdtProp then prop file fuel stringPos s
  else if tag = fdtEndNode then endNode s
  else if tag = fdtNop then pure (.again { s with nops := s.nops + 1 })
  else if tag = fdtEnd then
    if s.nodeStack = [] then pure (.stop s) else .raised (.valueError "missing end node(s)")
  else .raised (.valueError ("invalid tag " ++ toString tag))

/-- One pass of `while True`. -/
def pass (s : Tokens) : Py Next := do
  let (buf, pos) := read file s.pos 4
  let w ← unpack 1 buf
  onTag file fuel stringPos (w.getD 0 0) { s with pos := pos }

/-- The token loop. -/
def tokenLoop : Nat → Tokens → Py Tokens
  | 0, _ => .running
  | passes + 1, s => do
      match ← pass file fuel stringPos s with
      | .again s => tokenLoop passes s
      | .stop s => pure s

end

/-! ## The parser: the header, and the loop behind it -/

/-- The members `_parseStream` sets, and how often it printed "NOP". -/
structure Parser where
  /-- `totalsize` of the header. -/
  fdtSize : Nat
  /-- Where the tokens begin. -/
  structPos : Nat
  /-- Where the names begin. -/
  stringPos : Nat
  /-- The version of the format. -/
  version : Nat
  /-- The size of the names. -/
  stringSize : Nat
  /-- The size of the tokens. -/
  structSize : Nat
  /-- The nodes at the root. -/
  rootNodes : List (Bytes × FdtNode)
  /-- The number of lines "NOP" printed. -/
  nops : Nat

/-- The state in which the token loop starts. -/
def Tokens.start (structPos : Nat) : Tokens where
  pos := structPos
  nodeStack := []
  rootNodes := []
  nops := 0

/-- `_parseStream` on a file opened at its start, with `fuel` passes for each loop. -/
def parseStream (file : Bytes) (fuel : Nat) : Py Parser := do
  let (buf, _) := read file 0 40
  let hdr ← unpack 10 buf
  -- `hdr.pop(0)` one after another; the word popped as the version is the fifth
  let magic := hdr.getD 0 0
  if magic ≠ fdtMagic then .raised (.valueError "missing or invalid magic")
  else
    let version := hdr.getD 4 0
    if version < 17 then .raised (.valueError "invalid format version")
    else
      let structPos := hdr.getD 2 0
      let stringPos := hdr.getD 3 0
      let s ← tokenLoop file fuel stringPos fuel (Tokens.start structPos)
      pure {
        fdtSize := hdr.getD 1 0
        structPos := structPos
        stringPos := stringPos
        version := version
        stringSize := hdr.getD 7 0
        structSize := hdr.getD 8 0
        rootNodes := s.rootNodes
        nops := s.nops }

end DentOS.Fit
