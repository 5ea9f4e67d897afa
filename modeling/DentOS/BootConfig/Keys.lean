/-
  `OnlBootConfig` and `OnlBootConfigNet` (onl/bootconfig/__init__.py): the keys of the boot-config
  file, how they are read and written, what the options of `onl-boot-config` do to them, and
  `validate`.

  The dictionary is an association list without repeated keys.  Python 2 promises nothing about the
  order in which `iteritems` goes through it, so that order is a parameter (`IterItems`).  netaddr is
  not part of this repository: its tests are parameters too (`Netaddr`).

  Not modelled: `--show`, which only prints.
-/
import DentOS.Lib.Lines
import Mathlib.Data.List.AList

namespace DentOS.BootConfig

open PyText

/-- `self.keys`. -/
abbrev Keys := AList fun _ : Text => Text

/-- The order in which `iteritems` visits a dictionary. -/
structure IterItems where
  items : Keys → List (Sigma fun _ : Text => Text)
  perm : ∀ keys, (items keys).Perm keys.entries

/-- The order of the dictionary itself. -/
theorem entries_perm (keys : Keys) : keys.entries.Perm keys.entries := List.Perm.refl _

/-- Two dictionaries with the same keys and values. -/
def SameKeys (d d' : Keys) : Prop := ∀ k, d.lookup k = d'.lookup k

/-! ## The file: a dictionary of keys, and how it is written

  `items` is the order in which Python lists a dictionary.  Nothing depends on it. -/

/-- `line.partition('=')`, where there is an `=`. -/
def partitionEq (line : Text) : Option (Text × Text) :=
  if '=' ∈ line then some (line.takeWhile (· ≠ '='), (line.dropWhile (· ≠ '=')).tail) else none

/-- One line of the loop in `_readf`. -/
def readLine (keys : Keys) (line : Text) : Keys :=
  match partitionEq line with
  | some (k, v) => keys.insert k (strip v)
  | none => keys

/-- `_readf` into a new object.  The lines are taken without their newlines, which `strip` would
    take off the values. -/
def readf (file : Text) : Keys := (lines file).foldl readLine ∅

/-- `"%s=%s\n" % (k, v)`. -/
def writeItem (item : Sigma fun _ : Text => Text) : Text := item.1 ++ '=' :: item.2 ++ ['\n']

/-- What `_writeh` writes. -/
def writeh (iter : IterItems) (keys : Keys) : Text := (iter.items keys).flatMap writeItem

/-! ## The options: one setter for each -/

/-- The keys of the file. -/
def netauto : Text := "NETAUTO".toList
def netip : Text := "NETIP".toList
def netmask : Text := "NETMASK".toList
def netgw : Text := "NETGW".toList
def netdns : Text := "NETDNS".toList
def netdomain : Text := "NETDOMAIN".toList
def netdev : Text := "NETDEV".toList

/-- `netauto_set('dhcp')`: the keys of a static configuration are dropped. -/
def netautoSet (keys : Keys) : Keys :=
  ((((((keys.erase netip).erase netmask).erase netgw).erase netdns).erase netdomain).insert
    netauto "dhcp".toList)

/-- The setters of the other options: `self.delete('NETAUTO')`, and the key. -/
def netSet (key value : Text) (keys : Keys) : Keys := (keys.erase netauto).insert key value

/-- `netip_set`, and so on: one key is set, and `NETAUTO` is dropped. -/
def netipSet (addr : Text) : Keys → Keys := netSet netip addr
def netmaskSet (mask : Text) : Keys → Keys := netSet netmask mask
def netgwSet (gw : Text) : Keys → Keys := netSet netgw gw
def netdnsSet (dns : Text) : Keys → Keys := netSet netdns dns
def netdomainSet (domain : Text) : Keys → Keys := netSet netdomain domain

/-- The parsed command line. -/
structure Ops where
  dhcp : Bool
  ip : Option Text
  netmask : Option Text
  gateway : Option Text
  dns : Option Text
  domain : Option Text

/-- `if ops.x: self.x_set(ops.x)`: an empty string is not true. -/
def setIf (setter : Text → Keys → Keys) : Option Text → Keys → Keys
  | some value => if value = [] then id else setter value
  | none => id

/-- `OnlBootConfigNet.__argparse_process`. -/
def argparseProcess (ops : Ops) (keys : Keys) : Keys :=
  let keys := if ops.dhcp then netautoSet keys else keys
  let keys := setIf netipSet ops.ip keys
  let keys := setIf netmaskSet ops.netmask keys
  let keys := setIf netgwSet ops.gateway keys
  let keys := setIf netdnsSet ops.dns keys
  setIf netdomainSet ops.domain keys

/-! ## Validation: what is asked of the keys before they are written -/

/-- What netaddr says of its arguments. -/
structure Netaddr where
  /-- `IPAddress(value)` does not raise. -/
  address : Text → Bool
  /-- `IPAddress(value).is_netmask()`. -/
  mask : Text → Bool
  /-- `IPAddress(gw) in IPNetwork("%s/%s" % (ip, mask))`, or `none` where it raises. -/
  inNetwork : Text → Text → Text → Option Bool

section

variable (net : Netaddr)

/-- `is_ip_address` returns its argument, so an empty string does not pass it. -/
def isIpAddress (value : Text) : Bool := net.address value && value ≠ []

/-- `is_netmask`: an address that is a mask. -/
def isNetmask (value : Text) : Bool := net.address value && net.mask value && value ≠ []

/-- The type checks of the parser, which exits where one of them fails. -/
def parses (ops : Ops) : Bool :=
  ops.ip.all (isIpAddress net) && ops.netmask.all (isNetmask net) &&
    ops.gateway.all (isIpAddress net) && ops.dns.all (isIpAddress net)

/-- `NET_REQUIRED`: an interface may be left unconfigured. -/
def netRequired : Bool := false

/-- What `validate` and the file operations raise. -/
inductive ConfigError where
  | notValid (key value : Text)
  | notConfigured (key : Text)
  | incomplete
  | notWithin (ip mask : Text)
  | netaddr
  | mount
  | io

/-- `netip = self.keys.get(key, None)`, with a missing key as the empty string: neither is true. -/
def getOr (keys : Keys) (key : Text) : Text := (keys.lookup key).getD []

/-- The test of one of the three static keys. -/
def checkKey (test : Text → Bool) (key : Text) (keys : Keys) : Except ConfigError Unit :=
  if getOr keys key ≠ [] then
    if test (getOr keys key) then .ok () else .error (.notValid key (getOr keys key))
  else if netRequired then .error (.notConfigured key)
  else .ok ()

/-- The test of the keys together. -/
def checkStatic (keys : Keys) : Except ConfigError Unit :=
  let ip := getOr keys netip
  let mask := getOr keys netmask
  let gw := getOr keys netgw
  if ip ≠ [] ∧ mask ≠ [] ∧ gw ≠ [] then
    match net.inNetwork gw ip mask with
    | some true => .ok ()
    | some false => .error (.notWithin ip mask)
    | none => .error .netaddr
  else if ip ≠ [] ∨ mask ≠ [] ∨ gw ≠ [] then .error .incomplete
  else .ok ()

/-- The test of the name server, which is never required. -/
def checkDns (keys : Keys) : Except ConfigError Unit :=
  if getOr keys netdns ≠ [] then
    if isIpAddress net (getOr keys netdns) then .ok ()
    else .error (.notValid netdns (getOr keys netdns))
  else .ok ()

/-- The part of `__validate` that raises. -/
def validateKeys (keys : Keys) : Except ConfigError Unit :=
  match keys.lookup netauto with
  | none => do
      checkKey (isIpAddress net) netip keys
      checkKey (isNetmask net) netmask keys
      checkKey (isIpAddress net) netgw keys
      checkStatic net keys
      checkDns net keys
  | some auto =>
      if auto ∉ ["dhcp".toList, "up".toList, "none".toList, []] then
        .error (.notValid netauto auto)
      else if auto = "up".toList ∧ netRequired then .error (.notConfigured netauto)
      else .ok ()

/-- `if 'NETDEV' not in self.keys: self.keys['NETDEV'] = 'ma1'`. -/
def addNetdev (keys : Keys) : Keys :=
  if keys.lookup netdev = none then keys.insert netdev "ma1".toList else keys

/-- `validate`: the keys after it, or the exception. -/
def validate (keys : Keys) : Except ConfigError Keys := do
  validateKeys net keys
  pure (addNetdev keys)

end

end DentOS.BootConfig
