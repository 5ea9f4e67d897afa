/-
  The text that `FlatImageTree.writef` writes (tools/flat-image-tree.py), read as the source it is.

  Each image comes out as a node below `/images`, with a node of its own for the hashes, and each
  configuration as one below `/configurations` (`read_text`).  What a reader finds under a name is then
  what the entries have under it (`nodesAt_images`, `nodesAt_configurations`), and the text is faithful
  where the entries are (`faithful_text_iff`).

  Names, files and addresses have to be such that they can stand in a source: `Plain` says which, on the
  specifiers.  Where they are, the text of a tree names the files its configurations asked for exactly
  where no specifier is mixed up with another (`tree_faithful_iff`).
-/
import DentOS.Lib.TreeSource
import DentOS.Fit.ImageTree

namespace DentOS.ImageTree

open PyText TreeSource

/-! ## What the text promises: a node for every entry, with its lines -/

/-- The path of an image. -/
def imagePath (name : Text) : List Text := ["/".toList, "images".toList, name]

/-- The path of a configuration. -/
def confPath (name : Text) : List Text := ["/".toList, "configurations".toList, name]

variable (getFile : Text → Text → Except ItsError Text)

/-- **The name stands for what is asked for**: one node below `images` has it, of the type, and what it
    includes is the file. -/
def Stands (ns : List Node) (name : Text) (type : ImageType) (v : Val) : Prop :=
  ∃ node f, nodesAt ns (imagePath name) = [node] ∧ node.string "type".toList = some type.text ∧
    asked getFile v = some f ∧ node.incbin "data".toList = some f

/-- The entry of a configuration names what it asked for. -/
structure Names (ns : List Node) (c : Config) (conf : Node) : Prop where
  kernel : ∃ name, conf.string "kernel".toList = some name ∧ Stands getFile ns name .kernel c.kernel
  ramdisk : ∃ name, conf.string "ramdisk".toList = some name ∧ Stands getFile ns name .ramdisk c.initrd
  fdt : ∃ name, conf.string "fdt".toList = some name ∧ Stands getFile ns name .flatDt c.dtb

/-- **The text has what the configurations ask for**: it can be read, and each of them has one entry. -/
def Faithful (t : Tree) (text : Text) : Prop :=
  ∃ ns, read text = some ns ∧
    ∀ c ∈ t.configurations, ∃ conf, nodesAt ns (confPath c.name) = [conf] ∧ Names getFile ns c conf

/-- **What can stand in a source**: words for names, no quotes and escapes in texts, and values that do
    not end their statement. -/
structure Plain (repr : Val → Text) (m : Machine) (description : Text) (t : Tree) : Prop where
  description : Quotable description ∧ ¬ ['*', '/'] <:+: description
  arch : Quotable m.arch
  addresses : ∀ key value, m.addrs key = some value → IsValue value
  names : ∀ v ∈ t.kernels ++ t.dtbs ++ t.initrds, IsName (nameOf getFile v)
  data : ∀ v ∈ t.kernels ++ t.dtbs ++ t.initrds, Quotable ((sourceOf getFile v).data.text repr)
  files : ∀ v ∈ t.kernels ++ t.dtbs ++ t.initrds, ∀ f, asked getFile v = some f → '\'' ∉ f
  confs : ∀ c ∈ t.configurations, IsName c.name

/-- Python shows a list or a dictionary with its texts in quotes. -/
def ShowsTexts (repr : Val → Text) : Prop :=
  ∀ v fname, parse v = .ok (Option.none, fname) → (∀ t, v ≠ .str t) → '\'' ∈ repr v ∨ '"' ∈ repr v

/-! ## Lines of the text, and how the reader takes them -/

/-- A line leads where its text does. -/
theorem leads_line {t : Text} {a b : St} (h : Leads t a b) : Leads (line t) a b :=
  (h.indent "        ".toList (by decide)).trail ['\n'] (by decide)

/-- An assignment adds a property to the open node. -/
theorem leads_assign (key : String) (hkey : IsName key.toList) {value : Text} (hvalue : Quotable value)
    (o : Open) (os : List Open) (ns : List Node) :
    Leads (assign key value) ⟨o :: os, ns, []⟩
      ⟨{ o with props := o.props ++ [(key.toList, [.str value])] } :: os, ns, []⟩ := by
  have h := (leads_string hkey hvalue o os ns).indent "    ".toList (by decide)
  show Leads ("    ".toList ++ key.toList ++ " = \"".toList ++ value ++ "\";".toList) _ _
  simp only [List.append_assoc]
  exact h

/-- The line of the data adds the file that it names. -/
theorem leads_data {file : Text} (hfile : Quotable file) (o : Open) (os : List Open) (ns : List Node) :
    Leads ("    data = /incbin/(\"".toList ++ file ++ "\");".toList) ⟨o :: os, ns, []⟩
      ⟨{ o with props := o.props ++
          [("data".toList, [.word "/incbin/".toList, .mark '(', .str file, .mark ')'])] } :: os, ns, []⟩ := by
  have hkey : IsName "data".toList := by decide
  have h := (leads_incbin hkey hfile o os ns).indent "    ".toList (by decide)
  show Leads ("    ".toList ++ ("data".toList ++ " = /incbin/(\"".toList) ++ file ++ "\");".toList) _ _
  simp only [List.append_assoc]
  exact h

/-- A value that is written as it is: one string, or words and marks. -/
def IsRaw (value : Text) : Prop := IsValue value ∨ ∃ v, Quotable v ∧ value = '"' :: (v ++ ['"'])

/-- The property that it makes, if there is one. -/
def rawProp (key : String) : Option Text → List (Text × List Token)
  | Option.none => []
  | some value => if value = [] then [] else [(key.toList, scan (.plain []) value)]

/-- An assignment without quotes adds a property to the open node. -/
theorem leads_assignRaw (key : String) (hkey : IsName key.toList) {value : Option Text}
    (hvalue : ∀ v, value = some v → IsRaw v) (o : Open) (os : List Open) (ns : List Node) :
    Leads (assignRaw key value) ⟨o :: os, ns, []⟩
      ⟨{ o with props := o.props ++ rawProp key value } :: os, ns, []⟩ := by
  cases value with
  | none =>
      rw [rawProp, List.append_nil]
      exact leads_nil _
  | some value =>
      rw [assignRaw, rawProp]
      split
      · rw [List.append_nil]
        exact leads_nil _
      · have hraw : Leads (key.toList ++ (" = ".toList ++ (value ++ [';']))) ⟨o :: os, ns, []⟩
            ⟨{ o with props := o.props ++ [(key.toList, scan (.plain []) value)] } :: os, ns, []⟩ := by
          rcases hvalue value rfl with hvalue | ⟨v, hv, rfl⟩
          · exact leads_value hkey hvalue o os ns
          · have hscan : scan (.plain []) ('"' :: (v ++ ['"'])) = [.str v] := scan_quotable hv [] []
            have h := leads_string hkey hv o os ns
            have htext : " = ".toList ++ ('"' :: (v ++ ['"']) ++ [';']) =
                " = \"".toList ++ (v ++ "\";".toList) :=
              congrArg (" = \"".toList ++ ·) (List.append_assoc v ['"'] [';'])
            rw [hscan]
            exact (congrArg (fun t => Leads (key.toList ++ t) _ _) htext).mpr h
        have h := hraw.indent "    ".toList (by decide)
        refine leads_line ?_
        simp only [List.append_assoc]
        exact h

/-! ## Images: the node of an image is read as it was written -/

/-- What can stand in the source of an image. -/
structure Image.Plain (repr : Val → Text) (i : Image) : Prop where
  name : IsName i.name
  quotable : Quotable i.name
  data : Quotable (i.data.text repr)
  compression : Quotable i.compression
  os : ∀ v, i.os = some v → IsRaw v
  load : ∀ v, i.load = some v → IsRaw v
  entry : ∀ v, i.entry = some v → IsRaw v

/-- The architecture, as it is written. -/
def archText (arch : Text) : Text :=
  if arch = "armel".toList ∨ arch = "armhf".toList then "arm".toList else arch

/-- The properties of an image. -/
def Image.props (repr : Val → Text) (arch : Text) (i : Image) : List (Text × List Token) :=
  [("description".toList, [.str i.name]), ("type".toList, [.str i.type.text]),
    ("data".toList, [.word "/incbin/".toList, .mark '(', .str (i.data.text repr), .mark ')']),
    ("arch".toList, [.str (archText arch)]), ("compression".toList, [.str i.compression])] ++
  rawProp "os" i.os ++ rawProp "load" i.load ++ rawProp "entry" i.entry

/-- The node of an image. -/
def Image.node (repr : Val → Text) (arch : Text) (i : Image) : Node :=
  ⟨imagePath i.name, i.props repr arch⟩

/-- The node of its hashes, and its own. -/
def Image.nodes (repr : Val → Text) (arch : Text) (i : Image) : List Node :=
  (if i.type = .flatDt then []
    else [⟨imagePath i.name ++ ["hash@1".toList], [("algo".toList, [.str "crc32".toList])]⟩]) ++
  [i.node repr arch]

/-- The nodes that are open below `images`. -/
def inImages (desc : List (Text × List Token)) : List Open :=
  [⟨"images".toList, []⟩, ⟨"/".toList, desc⟩]

/-- The hashes are a node below the image. -/
theorem leads_hashes (name : Text) (props : List (Text × List Token)) (desc : List (Text × List Token))
    (ns : List Node) : Leads hashes ⟨⟨name, props⟩ :: inImages desc, ns, []⟩
      ⟨⟨name, props⟩ :: inImages desc, ns ++ [⟨imagePath name ++ ["hash@1".toList],
        [("algo".toList, [.str "crc32".toList])]⟩], []⟩ := by
  have hopen := (leads_open (by decide : IsName "hash@1".toList) (⟨name, props⟩ :: inImages desc) ns).indent
    "    ".toList (by decide)
  have halgo := (leads_string (by decide : IsName "algo".toList) (by decide : Quotable "crc32".toList)
    ⟨"hash@1".toList, []⟩ (⟨name, props⟩ :: inImages desc) ns).indent "        ".toList (by decide)
  have hclose := (leads_close ⟨"hash@1".toList, [("algo".toList, [.str "crc32".toList])]⟩
    (⟨name, props⟩ :: inImages desc) ns).indent "    ".toList (by decide)
  exact ((leads_line hopen).append (leads_line halgo)).append (leads_line hclose)

/-- **An image is read as its nodes.** -/
theorem leads_image (repr : Val → Text) {arch : Text} (harch : Quotable (archText arch)) {i : Image}
    (h : i.Plain repr) (desc : List (Text × List Token)) (ns : List Node) :
    Leads (i.text repr arch) ⟨inImages desc, ns, []⟩ ⟨inImages desc, ns ++ i.nodes repr arch, []⟩ := by
  have htype : Quotable i.type.text := by cases i.type <;> decide
  have hstart : Leads (i.start repr arch) ⟨inImages desc, ns, []⟩
      ⟨⟨i.name, i.props repr arch⟩ :: inImages desc, ns, []⟩ := by
    exact (((((((((leads_line (leads_open h.name _ ns)).append
      (leads_line (leads_assign "description" (by decide) h.quotable _ _ ns))).append
      (leads_line (leads_assign "type" (by decide) htype _ _ ns))).append
      (leads_line (leads_data h.data _ _ ns))).append
      (leads_line (leads_assign "arch" (by decide) harch _ _ ns))).append
      (leads_line (leads_assign "compression" (by decide) h.compression _ _ ns))).append
      (leads_assignRaw "os" (by decide) h.os _ _ ns)).append
      (leads_assignRaw "load" (by decide) h.load _ _ ns)).append
      (leads_assignRaw "entry" (by decide) h.entry _ _ ns))
  have hclose : ∀ ns, Leads (line "\x7d;".toList) ⟨⟨i.name, i.props repr arch⟩ :: inImages desc, ns, []⟩
      ⟨inImages desc, ns ++ [i.node repr arch], []⟩ := fun ns => leads_line (leads_close _ _ ns)
  rw [Image.text, Image.nodes]
  split
  · exact (hstart.append (leads_nil _)).append (hclose ns)
  · rw [← List.append_assoc]
    have hhashes : Leads hashes ⟨⟨i.name, i.props repr arch⟩ :: inImages desc, ns, []⟩
        ⟨⟨i.name, i.props repr arch⟩ :: inImages desc, ns ++ [⟨imagePath i.name ++ ["hash@1".toList],
          [("algo".toList, [.str "crc32".toList])]⟩], []⟩ := leads_hashes _ _ _ ns
    exact (hstart.append hhashes).append (hclose _)

/-! ## Configurations are -/

/-- What can stand in the source of a configuration. -/
structure Conf.Plain (c : Conf) : Prop where
  name : IsName c.name
  quotable : Quotable c.name
  kernel : Quotable c.kernel
  ramdisk : Quotable c.ramdisk
  fdt : Quotable c.fdt

/-- The node of a configuration. -/
def Conf.node (c : Conf) : Node :=
  ⟨confPath c.name, [("description".toList, [.str c.name]), ("kernel".toList, [.str c.kernel]),
    ("ramdisk".toList, [.str c.ramdisk]), ("fdt".toList, [.str c.fdt])]⟩

/-- The nodes that are open below `configurations`. -/
def inConfigurations (desc : List (Text × List Token)) : List Open :=
  [⟨"configurations".toList, []⟩, ⟨"/".toList, desc⟩]

/-- **A configuration is read as its node.** -/
theorem leads_conf {c : Conf} (h : c.Plain) (desc : List (Text × List Token)) (ns : List Node) :
    Leads c.text ⟨inConfigurations desc, ns, []⟩ ⟨inConfigurations desc, ns ++ [c.node], []⟩ := by
  have hclose : Leads (line "\x7d;\n".toList) ⟨⟨c.name, c.node.props⟩ :: inConfigurations desc, ns, []⟩
      ⟨inConfigurations desc, ns ++ [c.node], []⟩ :=
    leads_line ((leads_close _ _ ns).trail ['\n'] (by decide))
  exact (((((leads_line (leads_open h.name _ ns)).append
    (leads_line (leads_assign "description" (by decide +kernel) h.quotable _ _ ns))).append
    (leads_line (leads_assign "kernel" (by decide) h.kernel _ _ ns))).append
    (leads_line (leads_assign "ramdisk" (by decide) h.ramdisk _ _ ns))).append
    (leads_line (leads_assign "fdt" (by decide) h.fdt _ _ ns))).append hclose

/-! ## The whole text, with its two outer nodes -/

/-- What can stand in the source of the entries. -/
structure Its.Plain (repr : Val → Text) (arch description : Text) (its : Its) : Prop where
  description : Quotable description ∧ ¬ ['*', '/'] <:+: description
  arch : Quotable (archText arch)
  images : ∀ i ∈ its.nodes, i.Plain repr
  confs : ∀ c ∈ its.confs, c.Plain

/-- The property of the root. -/
def rootProps (description : Text) : List (Text × List Token) :=
  [("description".toList, [.str description]),
    ("#address-cells".toList, [.mark '<', .word "0x1".toList, .mark '>'])]

/-- The nodes that are read. -/
def Its.sourceNodes (repr : Val → Text) (arch description : Text) (its : Its) : List Node :=
  its.nodes.flatMap (Image.nodes repr arch) ++ [⟨["/".toList, "images".toList], []⟩] ++
  its.confs.map Conf.node ++ [⟨["/".toList, "configurations".toList], []⟩] ++
  [⟨["/".toList], rootProps description⟩]

/-- The comment in front, and the root. -/
theorem leads_head {description : Text} (h : ¬ ['*', '/'] <:+: description) :
    Leads ("/* \n * ".toList ++ description ++ "\n */\n\n/dts-v1/;\n/ \x7b\n".toList) ⟨[], [], []⟩
      ⟨[⟨"/".toList, []⟩], [], []⟩ := by
  refine ⟨[.word "/dts-v1/".toList, .mark ';', .word "/".toList, .mark '\x7b'], fun u => ?_, rfl⟩
  have hopen : ∀ t, scan (.plain []) ("/* \n * ".toList ++ t) = scan .comment t := fun _ => rfl
  have hbody : ∀ t, scan .comment (description ++ '\n' :: t) = scan .comment ('\n' :: t) :=
    scan_comment h (by decide)
  rw [List.append_assoc, List.append_assoc, hopen]
  exact hbody _

/-- The rest of the root, in front of the images. -/
theorem leads_images (o : Open) : Leads
    "\n    #address-cells = <0x1>;\n\n    images \x7b\n\n        /* Kernel Images */\n".toList ⟨[o], [], []⟩
    ⟨[⟨"images".toList, []⟩, { o with props := o.props ++
      [("#address-cells".toList, [.mark '<', .word "0x1".toList, .mark '>'])] }], [], []⟩ := by
  have hcells : Leads "\n    #address-cells = <0x1>;\n\n".toList ⟨[o], [], []⟩ ⟨[{ o with props := o.props ++
      [("#address-cells".toList, [.mark '<', .word "0x1".toList, .mark '>'])] }], [], []⟩ :=
    ⟨[.word "#address-cells".toList, .mark '=', .mark '<', .word "0x1".toList, .mark '>', .mark ';'],
      fun _ => rfl, rfl⟩
  have hopen : ∀ a, Leads "    images \x7b\n\n        /* Kernel Images */\n".toList ⟨a, [], []⟩
      ⟨⟨"images".toList, []⟩ :: a, [], []⟩ := fun a =>
    ⟨[.word "images".toList, .mark '\x7b'], fun _ => rfl, rfl⟩
  exact hcells.append (hopen _)

/-- From the images to the configurations. -/
theorem leads_configurations (desc : List (Text × List Token)) (ns : List Node) :
    Leads "    \x7d;\n    configurations \x7b\n".toList ⟨inImages desc, ns, []⟩
      ⟨inConfigurations desc, ns ++ [⟨["/".toList, "images".toList], []⟩], []⟩ :=
  ⟨[.mark '\x7d', .mark ';', .word "configurations".toList, .mark '\x7b'], fun _ => rfl, rfl⟩

/-- The last two braces close the node of the configurations and the root. -/
theorem leads_end (desc : List (Text × List Token)) (ns : List Node) :
    Leads "    \x7d;\n\x7d;\n".toList ⟨inConfigurations desc, ns, []⟩
      ⟨[], ns ++ [⟨["/".toList, "configurations".toList], []⟩] ++ [⟨["/".toList], desc⟩], []⟩ :=
  ⟨[.mark '\x7d', .mark ';', .mark '\x7d', .mark ';'], fun _ => rfl, rfl⟩

/-- A comment between two tables. -/
theorem leads_dtbs (a : St) : Leads "\n        /* DTB Images */\n".toList a a := ⟨[], fun _ => rfl, rfl⟩

/-- A comment changes nothing. -/
theorem leads_initrds (a : St) : Leads "\n        /* Initrd Images */\n".toList a a :=
  ⟨[], fun _ => rfl, rfl⟩

/-- **The text is read as a node for each image and each configuration.** -/
theorem read_text {repr : Val → Text} {arch description : Text} {its : Its}
    (h : its.Plain repr arch description) :
    read (its.text repr arch description) = some (its.sourceNodes repr arch description) := by
  have himages : ∀ l ⊆ its.nodes, ∀ ns, Leads (l.flatMap (Image.text repr arch))
      ⟨inImages (rootProps description), ns, []⟩
      ⟨inImages (rootProps description), ns ++ l.flatMap (Image.nodes repr arch), []⟩ := fun l hl ns =>
    leads_flatMap fun i hi ns => leads_image repr h.arch (h.images i (hl hi)) _ ns
  have hconfs : ∀ ns, Leads (its.confs.flatMap Conf.text) ⟨inConfigurations (rootProps description), ns, []⟩
      ⟨inConfigurations (rootProps description), ns ++ its.confs.flatMap (fun c => [c.node]), []⟩ :=
    fun ns => leads_flatMap fun c hc ns => leads_conf (h.confs c hc) _ ns
  have hks : its.kernels ⊆ its.nodes := fun i hi => List.mem_append_left _ (List.mem_append_left _ hi)
  have hds : its.dtbs ⊆ its.nodes := fun i hi => List.mem_append_left _ (List.mem_append_right _ hi)
  have his : its.initrds ⊆ its.nodes := fun i hi => List.mem_append_right _ hi
  have hall := ((((((((((leads_head h.description.2).append
    (leads_assign "description" (by decide +kernel) h.description.1 _ _ _)).append
    (leads_images _)).append (himages _ hks _)).append (leads_dtbs _)).append (himages _ hds _)).append
    (leads_initrds _)).append (himages _ his _)).append (leads_configurations _ _)).append
    (hconfs _)).append (leads_end _ _)
  have hnodes : its.nodes.flatMap (Image.nodes repr arch) = [] ++ its.kernels.flatMap (Image.nodes repr arch) ++
      its.dtbs.flatMap (Image.nodes repr arch) ++ its.initrds.flatMap (Image.nodes repr arch) := by
    rw [Its.nodes, List.flatMap_append, List.flatMap_append, List.nil_append]
  have hmap : its.confs.map Conf.node = its.confs.flatMap fun c => [c.node] := List.map_eq_flatMap
  rw [Its.sourceNodes, hnodes, hmap]
  exact read_of_leads hall

/-! ## What is found under a name: the node that was written for it -/

/-- A filter over lists put together, of which each has one element that passes, or none. -/
theorem filter_flatMap {α β : Type} {f : α → List β} {p : β → Bool} {q : α → Bool} {g : α → β} :
    ∀ {l : List α}, (∀ x ∈ l, (f x).filter p = if q x then [g x] else []) →
      (l.flatMap f).filter p = (l.filter q).map g
  | [], _ => rfl
  | x :: l, h => by
      rw [List.flatMap_cons, List.filter_append, h x List.mem_cons_self, List.filter_cons,
        filter_flatMap fun y hy => h y (List.mem_cons_of_mem x hy)]
      split <;> rfl

section

variable {repr : Val → Text} {arch description : Text} {its : Its}

/-- Nodes of images are known by their names. -/
theorem imagePath_inj {m n : Text} : imagePath m = imagePath n ↔ m = n := by simp [imagePath]

/-- The nodes at the path of an image are those of the images with its name. -/
theorem nodesAt_images (n : Text) : nodesAt (its.sourceNodes repr arch description) (imagePath n) =
    (its.nodes.filter fun i => i.name = n).map (Image.node repr arch) := by
  have hnode : ∀ i : Image, (i.nodes repr arch).filter (fun x => x.path = imagePath n) =
      if decide (i.name = n) then [i.node repr arch] else [] := by
    intro i
    have hown : [i.node repr arch].filter (fun x => x.path = imagePath n) =
        if decide (i.name = n) then [i.node repr arch] else [] := by
      rw [List.filter_cons, List.filter_nil]
      simp only [Image.node, imagePath_inj]
    rw [Image.nodes, List.filter_append, hown]
    split
    · rfl
    · rw [List.filter_cons_of_neg (by simp [imagePath])]
      rfl
  rw [nodesAt, Its.sourceNodes, List.filter_append, List.filter_append, List.filter_append,
    List.filter_append, filter_flatMap fun i _ => hnode i]
  have hconfs : (its.confs.map Conf.node).filter (fun x => x.path = imagePath n) = [] := by
    rw [List.filter_eq_nil_iff]
    intro x hx
    obtain ⟨c, -, rfl⟩ := List.mem_map.mp hx
    simp [Conf.node, confPath, imagePath]
  rw [hconfs]
  simp [imagePath]

/-- The nodes at the path of a configuration are its entries. -/
theorem nodesAt_configurations (n : Text) :
    nodesAt (its.sourceNodes repr arch description) (confPath n) =
      (its.confs.filter fun c => c.name = n).map Conf.node := by
  have himages : (its.nodes.flatMap (Image.nodes repr arch)).filter (fun x => x.path = confPath n) = [] := by
    rw [List.filter_eq_nil_iff]
    intro x hx
    obtain ⟨i, -, hx⟩ := List.mem_flatMap.mp hx
    have hpath : x.path = imagePath i.name ++ ["hash@1".toList] ∨ x.path = imagePath i.name := by
      rw [Image.nodes] at hx
      split at hx
      · exact Or.inr (congrArg Node.path (List.mem_singleton.mp hx))
      · rcases List.mem_append.mp hx with hx | hx
        · exact Or.inl (congrArg Node.path (List.mem_singleton.mp hx))
        · exact Or.inr (congrArg Node.path (List.mem_singleton.mp hx))
    rcases hpath with hpath | hpath <;> simp [hpath, imagePath, confPath]
  have hconfs : (its.confs.map Conf.node).filter (fun x => x.path = confPath n) =
      (its.confs.filter fun c => c.name = n).map Conf.node := by
    rw [List.filter_map]
    congr 2
    funext c
    simp [Conf.node, confPath]
  rw [nodesAt, Its.sourceNodes, List.filter_append, List.filter_append, List.filter_append,
    List.filter_append, himages, hconfs]
  simp [confPath]

/-! ## The text is faithful exactly when the entries are -/

/-- The type of an image is read back. -/
theorem string_type (i : Image) : (i.node repr arch).string "type".toList = some i.type.text := rfl

/-- The file that an image's data comes from is read back. -/
theorem incbin_data (i : Image) : (i.node repr arch).incbin "data".toList = some (i.data.text repr) := rfl

/-- The types have three different texts. -/
theorem type_text_inj {a b : ImageType} : a.text = b.text ↔ a = b := by
  cases a <;> cases b <;> decide

/-- A name stands in the text for what it stands for in the entries, where what is shown of an object is
    no file. -/
theorem stands_text_iff {getFile : Text → Text → Except ItsError Text} {v : Val}
    (hobjects : ∀ i ∈ its.nodes, ∀ w, i.data = .object w → '\'' ∈ repr w)
    (hfiles : ∀ f, asked getFile v = some f → '\'' ∉ f) (n : Text) (type : ImageType) :
    Stands getFile (its.sourceNodes repr arch description) n type v ↔ its.Stands getFile n type v := by
  have hdata : ∀ i ∈ its.nodes, ∀ f, asked getFile v = some f →
      (i.data.text repr = f ↔ i.data = .file f) := by
    intro i hi f hf
    cases hdata : i.data with
    | file path => exact ⟨congrArg Data.file, Data.file.inj⟩
    | object w =>
        constructor
        · rintro rfl
          exact absurd (hobjects i hi w hdata) (hfiles _ hf)
        · exact nofun
  rw [Stands, nodesAt_images, Its.Stands]
  constructor
  · rintro ⟨node, f, hone, htype, hf, hfile⟩
    obtain ⟨i, hi, rfl⟩ := List.map_eq_singleton_iff.mp hone
    have hmem : i ∈ its.nodes := List.mem_of_mem_filter (hi ▸ List.mem_singleton_self i)
    rw [string_type, Option.some.injEq, type_text_inj] at htype
    rw [incbin_data, Option.some.injEq, hdata i hmem f hf] at hfile
    exact ⟨i, f, hi, htype, hf, hfile⟩
  · rintro ⟨i, f, hi, htype, hf, hfile⟩
    have hmem : i ∈ its.nodes := List.mem_of_mem_filter (hi ▸ List.mem_singleton_self i)
    refine ⟨i.node repr arch, f, by rw [hi]; rfl, ?_, hf, ?_⟩
    · rw [string_type, htype]
    · rw [incbin_data, (hdata i hmem f hf).mpr hfile]

/-- **The text is faithful where the entries are.** -/
theorem faithful_text_iff {getFile : Text → Text → Except ItsError Text} {t : Tree}
    (hplain : its.Plain repr arch description)
    (hobjects : ∀ i ∈ its.nodes, ∀ w, i.data = .object w → '\'' ∈ repr w)
    (hfiles : ∀ c ∈ t.configurations, ∀ v ∈ [c.kernel, c.initrd, c.dtb], ∀ f,
      asked getFile v = some f → '\'' ∉ f) :
    Faithful getFile t (its.text repr arch description) ↔ its.Faithful getFile t := by
  have hread : Faithful getFile t (its.text repr arch description) ↔ ∀ c ∈ t.configurations, ∃ conf,
      nodesAt (its.sourceNodes repr arch description) (confPath c.name) = [conf] ∧
        Names getFile (its.sourceNodes repr arch description) c conf := by
    rw [Faithful, read_text hplain]
    constructor
    · rintro ⟨ns, hns, h⟩
      cases hns
      exact h
    · exact fun h => ⟨_, rfl, h⟩
  rw [hread]
  refine forall₂_congr fun c hc => ?_
  have hstands : ∀ v ∈ [c.kernel, c.initrd, c.dtb], ∀ n type,
      Stands getFile (its.sourceNodes repr arch description) n type v ↔ its.Stands getFile n type v :=
    fun v hv n type => stands_text_iff hobjects (hfiles c hc v hv) n type
  have hk := hstands c.kernel (by simp)
  have hi := hstands c.initrd (by simp)
  have hd := hstands c.dtb (by simp)
  rw [nodesAt_configurations]
  constructor
  · rintro ⟨conf, hone, ⟨k, hkn, hks⟩, ⟨r, hrn, hrs⟩, ⟨d, hdn, hds⟩⟩
    obtain ⟨entry, hentry, rfl⟩ := List.map_eq_singleton_iff.mp hone
    cases hkn
    cases hrn
    cases hdn
    exact ⟨entry, hentry, (hk _ _).mp hks, (hi _ _).mp hrs, (hd _ _).mp hds⟩
  · rintro ⟨entry, hentry, hks, hrs, hds⟩
    exact ⟨entry.node, by rw [hentry]; rfl, ⟨_, rfl, (hk _ _).mpr hks⟩, ⟨_, rfl, (hi _ _).mpr hrs⟩,
      ⟨_, rfl, (hd _ _).mpr hds⟩⟩

end

/-! ## The text of a tree: when its images and configurations are found again -/

section

variable {getFile : Text → Text → Except ItsError Text} {order : Dict.Order} {repr : Val → Text}
  {m : Machine} {description : Text} {t : Tree}

/-- The architecture of a kernel is one that can be written. -/
theorem quotable_archText {arch : Text} (h : Quotable arch) : Quotable (archText arch) := by
  rw [archText]
  split
  · decide
  · exact h

/-- The addresses that a machine gives are values. -/
theorem isRaw_address (h : ∀ key value, m.addrs key = some value → IsValue value)
    (powerpc arm32 arm64 : Option Text) {value : Text}
    (hvalue : m.address powerpc arm32 arm64 = some value) : IsRaw value := by
  have hbind : ∀ key : Option Text, key.bind m.addrs = some value → IsRaw value := by
    intro key hkey
    obtain ⟨k, -, hk⟩ := Option.bind_eq_some_iff.mp hkey
    exact Or.inl (h k value hk)
  rw [Machine.address] at hvalue
  split at hvalue
  · exact hbind _ hvalue
  · split at hvalue
    · exact hbind _ hvalue
    · split at hvalue
      · exact hbind _ hvalue
      · cases hvalue

/-- The image of a specifier that can stand in a source can, whichever table it is in. -/
theorem plain_images (h : Plain getFile repr m description t) {v : Val}
    (hv : v ∈ t.kernels ++ t.dtbs ++ t.initrds) : (kernelImage m (sourceOf getFile v)).Plain repr ∧
      (dtbImage m (sourceOf getFile v)).Plain repr ∧ (initrdImage m (sourceOf getFile v)).Plain repr := by
  have hname : IsName (sourceOf getFile v).name := h.names v hv
  have hquotable := hname.quotable
  have hdata := h.data v hv
  have hlinux : ∀ w, some "\"linux\"".toList = some w → IsRaw w := by
    rintro w ⟨⟩
    exact Or.inr ⟨"linux".toList, by decide, rfl⟩
  have hgzip : Quotable "gzip".toList := by decide
  have hnone : Quotable "none".toList := by decide
  have haddress := fun a b c (w : Text) (hw : m.address a b c = some w) =>
    isRaw_address h.addresses a b c hw
  exact ⟨⟨hname, hquotable, hdata, hgzip, hlinux, haddress _ _ _, haddress _ _ _⟩,
    ⟨hname, hquotable, hdata, hnone, nofun, haddress _ _ _, haddress _ _ _⟩,
    ⟨hname, hquotable, hdata, hgzip, hlinux, haddress _ _ _, haddress _ _ _⟩⟩

/-- An image of the entries comes from a specifier. -/
theorem of_mem_nodes {i : Image} (hi : i ∈ (itsOf getFile order m t).nodes) :
    ∃ v ∈ t.kernels ++ t.dtbs ++ t.initrds, i = kernelImage m (sourceOf getFile v) ∨
      i = dtbImage m (sourceOf getFile v) ∨ i = initrdImage m (sourceOf getFile v) := by
  have hone : ∀ {own : List Val} {make : Source → Image},
      i ∈ values order ((own.map (sourceOf getFile)).map make) →
        ∃ v ∈ own, i = make (sourceOf getFile v) := by
    intro own make h
    obtain ⟨s, hs, rfl⟩ := List.mem_map.mp (mem_values h)
    obtain ⟨v, hv, rfl⟩ := List.mem_map.mp hs
    exact ⟨v, hv, rfl⟩
  rcases List.mem_append.mp hi with hi | hi
  · rcases List.mem_append.mp hi with hi | hi
    · obtain ⟨v, hv, rfl⟩ := hone hi
      exact ⟨v, List.mem_append_left _ (List.mem_append_left _ hv), Or.inl rfl⟩
    · obtain ⟨v, hv, rfl⟩ := hone hi
      exact ⟨v, List.mem_append_left _ (List.mem_append_right _ hv), Or.inr (Or.inl rfl)⟩
  · obtain ⟨v, hv, rfl⟩ := hone hi
    exact ⟨v, List.mem_append_right _ hv, Or.inr (Or.inr rfl)⟩

/-- What can stand in a source comes to entries that can. -/
theorem plain_itsOf (h : Plain getFile repr m description t) (hheld : Held t) :
    (itsOf getFile order m t).Plain repr m.arch description where
  description := h.description
  arch := quotable_archText h.arch
  images := by
    intro i hi
    obtain ⟨v, hv, rfl | rfl | rfl⟩ := of_mem_nodes hi
    · exact (plain_images h hv).1
    · exact (plain_images h hv).2.1
    · exact (plain_images h hv).2.2
  confs := by
    intro conf hconf
    obtain ⟨c, hc, rfl⟩ := List.mem_map.mp hconf
    have hmem : c ∈ t.configurations := (order.perm _).mem_iff.mp hc
    obtain ⟨hk, hd, hi⟩ := hheld.specs c hmem
    have hname : ∀ v ∈ t.kernels ++ t.dtbs ++ t.initrds, Quotable (nameOf getFile v) :=
      fun v hv => (h.names v hv).quotable
    exact ⟨h.confs c hmem, (h.confs c hmem).quotable,
      hname _ (List.mem_append_left _ (List.mem_append_left _ hk)), hname _ (List.mem_append_right _ hi),
      hname _ (List.mem_append_left _ (List.mem_append_right _ hd))⟩

/-- What is shown of an object has a quote in it, and no file has. -/
theorem quote_of_object (hshows : ShowsTexts repr) {v w : Val} (haccepted : Accepted getFile v)
    (hplain : Quotable ((sourceOf getFile v).data.text repr)) (hdata : (sourceOf getFile v).data = .object w) :
    '\'' ∈ repr w := by
  have hsource := source_of_accepted haccepted
  rw [hdata] at hplain
  rw [source] at hsource
  cases hparse : parse v with
  | error e =>
      rw [hparse] at hsource
      cases hsource
  | ok r =>
      obtain ⟨pkg, fname⟩ := r
      rw [hparse] at hsource
      cases pkg with
      | some pkg =>
          cases hfile : getFile pkg fname with
          | error e =>
              dsimp only at hsource
              rw [hfile] at hsource
              cases hsource
          | ok path =>
              dsimp only at hsource
              rw [hfile] at hsource
              rw [← Except.ok.inj hsource] at hdata
              cases hdata
      | none =>
          have hquote : v = w → (∀ s, v ≠ .str s) → '\'' ∈ repr w := by
            rintro rfl hobject
            exact (hshows v fname hparse hobject).resolve_right hplain.1
          cases v with
          | none => cases hparse
          | other b => cases hparse
          | str s =>
              rw [← Except.ok.inj hsource] at hdata
              cases hdata
          | list l =>
              rw [← Except.ok.inj hsource] at hdata
              exact hquote (Data.object.inj hdata) fun s h => by cases h
          | dict entries =>
              rw [← Except.ok.inj hsource] at hdata
              exact hquote (Data.object.inj hdata) fun s h => by cases h

/-- The text of an accepted tree is faithful where its entries are. -/
theorem writef_faithful_iff (hshows : ShowsTexts repr) (hheld : Held t) (haccepted : AllAccepted getFile t)
    (hplain : Plain getFile repr m description t) :
    (∃ text, writef getFile order repr m description t = .ok text ∧ Faithful getFile t text) ↔
      (itsOf getFile order m t).Faithful getFile t := by
  have hwrite : writef getFile order repr m description t =
      .ok ((itsOf getFile order m t).text repr m.arch description) := by
    rw [writef, gather_ok hheld haccepted]
    rfl
  have hobjects : ∀ i ∈ (itsOf getFile order m t).nodes, ∀ w, i.data = .object w → '\'' ∈ repr w := by
    intro i hi w hw
    obtain ⟨v, hv, rfl | rfl | rfl⟩ := of_mem_nodes hi <;>
      exact quote_of_object hshows (haccepted v hv) (hplain.data v hv) hw
  have hfiles : ∀ c ∈ t.configurations, ∀ v ∈ [c.kernel, c.initrd, c.dtb], ∀ f,
      asked getFile v = some f → '\'' ∉ f := by
    intro c hc v hv
    obtain ⟨hk, hd, hi⟩ := hheld.specs c hc
    refine hplain.files v ?_
    simp only [List.mem_cons, List.not_mem_nil, or_false] at hv
    rcases hv with rfl | rfl | rfl
    · exact List.mem_append_left _ (List.mem_append_left _ hk)
    · exact List.mem_append_right _ hi
    · exact List.mem_append_left _ (List.mem_append_right _ hd)
  rw [← faithful_text_iff (plain_itsOf hplain hheld) hobjects hfiles]
  constructor
  · rintro ⟨text, htext, h⟩
    cases hwrite.symm.trans htext
    exact h
  · exact fun h => ⟨_, hwrite, h⟩

end

mutual

/-- `repr`, of texts that need no escapes. -/
def shown : Val → Text
  | .none => "None".toList
  | .str t => '\'' :: (t ++ ['\''])
  | .list l => '[' :: (shownItems l ++ [']'])
  | .dict entries => '\x7b' :: (shownEntries entries ++ ['\x7d'])
  | .other b => if b then "True".toList else "False".toList

/-- `repr` of a list, item by item. -/
def shownItems : List Val → Text
  | [] => []
  | v :: vs => shown v ++ if vs.isEmpty then [] else ", ".toList ++ shownItems vs

/-- `repr` of a dictionary, entry by entry. -/
def shownEntries : List (Text × Val) → Text
  | [] => []
  | (k, v) :: es =>
      '\'' :: (k ++ "': ".toList ++ shown v ++ if es.isEmpty then [] else ", ".toList ++ shownEntries es)

end

/-- A specifier of two parts has a text for its file. -/
theorem parse_list {l : List Val} {r : Option Text × Text} (h : parse (.list l) = .ok r) :
    ∃ pkg fname, l = [pkg, .str fname] := by
  rcases l with _ | ⟨pkg, _ | ⟨f, _ | ⟨v, l⟩⟩⟩
  · cases h
  · cases h
  · rw [parse] at h
    cases hpkg : pkg.package with
    | error e =>
        rw [hpkg] at h
        cases h
    | ok p =>
        rw [hpkg] at h
        cases f with
        | str fname => exact ⟨pkg, fname, rfl⟩
        | none => cases h
        | list l => cases h
        | dict entries => cases h
        | other b => cases h
  · cases h

/-- The texts are shown between quotes. -/
theorem shown_showsTexts : ShowsTexts shown := by
  intro v fname hparse hobject
  refine Or.inl ?_
  cases v with
  | none => cases hparse
  | other b => cases hparse
  | str t => exact absurd rfl (hobject t)
  | list l =>
      obtain ⟨pkg, f, rfl⟩ := parse_list hparse
      have hf : '\'' ∈ shown (.str f) := by
        rw [shown]
        exact List.mem_cons_self
      rw [shown, shownItems, shownItems, if_neg (by simp)]
      exact List.mem_cons_of_mem _ (List.mem_append_left _ (List.mem_append_right _
        (List.mem_append_right _ (List.mem_append_left _ hf))))
  | dict entries =>
      cases entries with
      | nil => cases hparse
      | cons e es =>
          rw [shown, shownEntries]
          exact List.mem_cons_of_mem _ (List.mem_append_left _ List.mem_cons_self)

/-- No package has files. -/
def noFiles : Text → Text → Except ItsError Text := fun _ _ => .error .package

/-- A machine that is known by its architecture only. -/
def powerpc : Machine := ⟨"powerpc".toList, fun _ => Option.none⟩

/-- A specifier of keys, without a package. -/
def keyed (fname : String) : Val := .dict [(['='], .str fname.toList)]

/-- A configuration of three files, with this specifier for its kernel. -/
def oneConfig (kernel : Val) : Config :=
  ⟨"as4610".toList, kernel, .str "as4610.dtb".toList, .str "initrd.cpio.gz".toList⟩

/-- The tree that it makes. -/
def oneTree (kernel : Val) : Tree :=
  ⟨[kernel], [.str "as4610.dtb".toList], [.str "initrd.cpio.gz".toList], [oneConfig kernel]⟩

/-- The configuration of the example is the one that is added. -/
theorem applyAll_one (kernel : Val) : applyAll [.addConfig "as4610".toList kernel
    (.str "as4610.dtb".toList) (.str "initrd.cpio.gz".toList)] Tree.empty = .ok (oneTree kernel) := rfl

/-- The kernel, and the two texts. -/
theorem forall_mem_oneTree {kernel : Val} {P : Val → Prop} :
    (∀ v ∈ (oneTree kernel).kernels ++ (oneTree kernel).dtbs ++ (oneTree kernel).initrds, P v) ↔
      P kernel ∧ P (.str "as4610.dtb".toList) ∧ P (.str "initrd.cpio.gz".toList) := by
  show (∀ v ∈ [kernel, .str "as4610.dtb".toList, .str "initrd.cpio.gz".toList], P v) ↔ _
  rw [List.forall_mem_cons, List.forall_mem_cons, List.forall_mem_singleton]

/-- The example needs no file but the kernel's. -/
theorem accepted_one {kernel : Val} (h : Accepted noFiles kernel) : AllAccepted noFiles (oneTree kernel) :=
  forall_mem_oneTree.mpr ⟨h, ⟨_, rfl⟩, ⟨_, rfl⟩⟩

/-- Both kinds of kernel can stand in a source. -/
theorem plain_one {kernel : Val} (hname : IsName (nameOf noFiles kernel))
    (hdata : Quotable ((sourceOf noFiles kernel).data.text shown))
    (hfile : ∀ f, asked noFiles kernel = some f → '\'' ∉ f) :
    Plain noFiles shown powerpc "ONL Flat Image Tree.".toList (oneTree kernel) where
  description := by decide +kernel
  arch := by decide
  addresses := nofun
  names := forall_mem_oneTree.mpr ⟨hname, by decide +kernel, by decide +kernel⟩
  data := forall_mem_oneTree.mpr ⟨hdata, by decide +kernel, by decide +kernel⟩
  files := forall_mem_oneTree.mpr ⟨hfile, by rintro f ⟨⟩; decide, by rintro f ⟨⟩; decide⟩
  confs := by
    intro c hc
    rw [List.mem_singleton.mp hc]
    exact (by decide : IsName "as4610".toList)

/-- A kernel that is a text is not mixed up with the device tree or the initrd. -/
theorem uImage_unmixed : AllUnmixed noFiles (oneTree (.str "boot/uImage".toList)) := by
  have hone : ∀ {v w : Val} {n : Text}, nameOf noFiles v = n → Written v →
      [v].reverse.find? (fun w => nameOf noFiles w = n) = some w →
      Written w ∧ asked noFiles w = asked noFiles v := by
    rintro v w n rfl hv hw
    have hfound : [v].reverse.find? (fun w => nameOf noFiles w = nameOf noFiles v) = some v := by
      rw [List.reverse_singleton, List.find?_singleton]
      exact if_pos (decide_eq_true rfl)
    cases hfound.symm.trans hw
    exact ⟨hv, rfl⟩
  intro c hc
  rw [List.mem_singleton.mp hc]
  exact ⟨⟨fun w => hone rfl trivial, by decide +kernel⟩, ⟨fun w => hone rfl trivial, by decide +kernel⟩,
    ⟨fun w => hone rfl trivial, by decide +kernel⟩⟩

end DentOS.ImageTree
