/-
  The initrd of a FIT image: `Parser.getNode`, `getNodeProperty` and `getInitrdNode`, and the runner
  behind `pyfit offset --initrd` (onl/install/Fit.py).

  What the runner prints is the standard output of the whole program: a line "NOP" for every
  `FDT_NOP` that the parser met, and behind them the first and the last offset of the property.

  The order in which Python lists the keys of a dict is a parameter: a FIT without a default
  configuration gets the first.  The log goes to the standard error and is left out.
-/
import DentOS.Fit.Parser
import DentOS.Lib.PyText

namespace DentOS.Fit

open Outcome PyText

/-- The bytes of an ASCII string. -/
def ascii (s : String) : Bytes := s.toList.map fun c => UInt8.ofNat c.toNat

/-! ## Nodes and properties -/

/-- `path.split('/')`. -/
def splitSlash : Bytes → List Bytes
  | [] => [[]]
  | c :: cs =>
      if c = 0x2F then [] :: splitSlash cs
      else match splitSlash cs with
        | w :: ws => (c :: w) :: ws
        | [] => [[c]]

/-- The nodes along a path, each looked up in the dict of the one before. -/
def walkNodes (nodes : List (Bytes × FdtNode)) : List Bytes → Option FdtNode
  | [] => none
  | [b] => nodes.lookup b
  | b :: els =>
      match nodes.lookup b with
      | some n => walkNodes n.nodes els
      | none => none

/-- `getNode`: the root for "/", or a walk along the names. -/
def getNode (p : Parser) (path : Bytes) : Option FdtNode :=
  if path = ascii "/" then p.rootNodes.lookup []
  else walkNodes p.rootNodes (splitSlash path)

/-- `getNodeProperty`: the value without its NUL. -/
def getNodeProperty (file : Bytes) (node : FdtNode) (propName : Bytes) : Py (Option Bytes) :=
  match node.properties.lookup propName with
  | none => pure none
  | some prop =>
      let buf := (read file prop.offset prop.sz).1
      match buf.getLast? with
      | none => .raised .indexError
      | some c => pure (some (if c = 0x00 then buf.dropLast else buf))

/-- `node.nodes[key]`. -/
def nodeAt (node : FdtNode) (key : Bytes) : Py FdtNode :=
  match node.nodes.lookup key with
  | some n => pure n
  | none => .raised (.keyError key)

section

variable (dictKeys : List Bytes → List Bytes) (file : Bytes)

/-- The configuration: the profile asked for, the default, or the first. -/
def configNode (configurations : FdtNode) (profile : Option Bytes) : Py (Option FdtNode) :=
  match profile with
  | some profile => pure (configurations.nodes.lookup profile)
  | none => do
      match ← getNodeProperty file configurations (ascii "default") with
      | some pf => do
          let node ← nodeAt configurations pf
          pure (some node)
      | none =>
          match dictKeys (configurations.nodes.map Prod.fst) with
          | pf :: _ => do
              let node ← nodeAt configurations pf
              pure (some node)
          | [] => .raised .indexError

/-- `getInitrdNode`: the configuration is chosen by the profile, or by `default`, or is the first one. -/
def getInitrdNode (p : Parser) (profile : Option Bytes) : Py (Option FdtNode) :=
  match getNode p (ascii "/configurations") with
  | none => pure none
  | some configurations => do
      match ← configNode dictKeys file configurations profile with
      | none => pure none
      | some node => do
          match ← getNodeProperty file node (ascii "ramdisk") with
          | none => pure none
          | some rdName => pure (getNode p (ascii "/images/" ++ rdName))

/-- `ExtractBase.run` up to `_handleParsed`, with `initrd` set and no path: the payload property. -/
def dataProp (p : Parser) (profile property : Option Bytes) : Py (Option FdtProperty) := do
  match ← getInitrdNode dictKeys file p profile with
  | none => pure none
  | some node =>
      let named := property.bind fun n => node.properties.lookup n
      pure (named <|> node.properties.lookup (ascii "data") <|>
        node.properties.lookup (ascii "value"))

/-- `OffsetRunner._handleParsed`. -/
def printOffsets (prop : FdtProperty) : Text :=
  let start : Int := prop.offset
  let last : Int := start + prop.sz - 1
  strInt start ++ ' ' :: (strInt last ++ ['\n'])

/-- The lines that the parser printed. -/
def nopLines (nops : Nat) : Text := (List.replicate nops ['N', 'O', 'P', '\n']).flatten

/-- `OffsetRunner.run`: the exit code, and what has been printed. -/
def offsetRun (fuel : Nat) (profile property : Option Bytes) : Py (Nat × Text) := do
  let p ← parseStream file fuel
  match ← dataProp dictKeys file p profile property with
  | none => pure (1, nopLines p.nops)
  | some prop => pure (0, nopLines p.nops ++ printOffsets prop)

/-- `App.run`: an exception of the runner is logged, and the exit code is 1. -/
def pyfitOffset (fuel : Nat) (profile property : Option Bytes) : Py (Nat × Text) :=
  match offsetRun dictKeys file fuel profile property with
  | .raised _ => .returned (1, [])
  | r => r

end

end DentOS.Fit
