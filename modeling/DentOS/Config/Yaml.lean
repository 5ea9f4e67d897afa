/-
  What is relied on of `yaml`, the library behind `merge` (onl/YamlUtils.py).

  `merge` does not load the second file.  It writes the lines of that file behind the first file and
  loads the text that comes of it, so that an alias of the second file finds its anchor in the first:
  to YAML the two are to be one mapping.  They are, when both are block mappings whose keys stand in
  the first column and the second file does not begin a document of its own.

  1. **A document marker** is a line that begins with `---`, with nothing or a blank behind it
     (`marker`).  A marker behind contents begins a second document, and `yaml.load` raises where a
     text has two (`Yaml.Law.second`).  `merge` knows the marker that has nothing behind it, and no other.

  2. **A block mapping in the first column** (`Block`) goes on for as long as lines follow that begin
     there, so that the entries of another one are entries of it (`Yaml.Law.entries`).

  `Yaml.load` is `yaml.load`, and `Yaml.within t u` the document in `u` as it is composed with the
  anchors of `t`: what its author means by it.
-/
import DentOS.Lib.Lines
import DentOS.Config.Dmerge

namespace DentOS.Config

open Nested PyText

/-! ## Lines of a YAML text, and the marker that separates documents -/

/-- A blank, for YAML. -/
def isBlank (c : Char) : Bool := c = ' ' || c = '\t'

/-- Three characters that stand at the beginning of a line, with nothing or a blank behind them. -/
def isMark (mark l : Text) : Bool := mark.isPrefixOf l && (l.drop 3).head?.all isBlank

/-- The line begins a document. -/
def marker (l : Text) : Bool := isMark "---".toList l

/-- The line has something that is no comment, behind the marker if it has one. -/
def hasContent (l : Text) : Bool :=
  ((if marker l then l.drop 3 else l).dropWhile isBlank).head?.any (· ≠ '#')

/-- The line begins with a key: no blank, no bracket, no tag, no anchor. -/
def beginsKey (l : Text) : Bool :=
  l.head?.any fun c => c.isAlphanum || c = '_' || c = '"' || c = '\''

/-- A text that is written as a block mapping, with its keys in the first column. -/
structure Block (t : Text) : Prop where
  /-- The first line that has something has a key. -/
  first : ∀ l, (splitlines t).find? hasContent = some l → beginsKey l = true
  /-- No line is a directive or the end of a document. -/
  plain : ∀ l ∈ splitlines t, l.head? ≠ some '%' ∧ isMark "...".toList l = false
  /-- No line break is one for YAML only. -/
  breaks : ∀ c ∈ ['\u0085', '\u2028', '\u2029'], c ∉ t

instance (t : Text) : Decidable (Block t) :=
  decidable_of_iff ((∀ l ∈ (splitlines t).find? hasContent, beginsKey l = true) ∧
      (∀ l ∈ splitlines t, l.head? ≠ some '%' ∧ isMark "...".toList l = false) ∧
      ['\u0085', '\u2028', '\u2029'].all (fun c => c ∉ t) = true)
    ⟨fun h => ⟨h.1, h.2.1, forall_mem_of_all h.2.2⟩,
      fun h => ⟨h.first, h.plain, List.all_eq_true.mpr fun c hc => decide_eq_true (h.breaks c hc)⟩⟩

/-- The only lines that begin a document have nothing but the marker. -/
def Unmarked (t : Text) : Prop := ∀ l ∈ splitlines t, marker l = true → l = "---".toList

instance (t : Text) : Decidable (Unmarked t) :=
  inferInstanceAs (Decidable (∀ l ∈ splitlines t, marker l = true → l = "---".toList))

/-- The lines of a text, without those that are nothing but a marker. -/
def unmarkedLines (t : Text) : List Text := (splitlines t).filter (· ≠ "---".toList)

/-- Lines behind a text. -/
def behind (t : Text) (ls : List Text) : Text := t ++ '\n' :: ['\n'].intercalate ls

/-! ## What is known of the library that reads the text -/

variable {K V : Type} [DecidableEq K]

/-- What the library makes of texts; `none` where it raises. -/
structure Yaml (K V : Type) where
  /-- `yaml.load`: the document in a text. -/
  load : Text → Option (Doc K V)
  /-- The document in the second text, with the anchors of the first one in scope. -/
  within : Text → Text → Option (Doc K V)

/-- What YAML says of lines behind a document. -/
structure Yaml.Law (Y : Yaml K V) : Prop where
  /-- A marker behind a mapping begins a second document, and `load` takes one. -/
  second : ∀ {t l : Text} {d : Doc K V} {ls : List Text}, Y.load t = some d → d.IsDict → l ∈ ls →
    marker l = true → Y.load (behind t ls) = none
  /-- Behind a block mapping with one key, the lines of another one are a second entry of it.  What
      they do to the value of the first key is not said: its last scalar may get a newline. -/
  entries : ∀ {t u : Text} {k j : K} {a b : Doc K V}, Block t → Block u → Unmarked u →
    Y.load t = some (Tree.single k a) → Y.within t u = some (Tree.single j b) → j ≠ k →
    ∃ c, Y.load (behind t (unmarkedLines u)) = some c ∧ c.keys.erase k = {j} ∧ c.get j = some b

/-- What `merge` is given: a default mapping `a` and the mapping `b` of another key, each written as
    a block mapping. -/
structure Documents (Y : Yaml K V) (defaultKey target : K) (buf1 buf2 : Text) (a b : Doc K V) :
    Prop where
  /-- The first text is the default mapping. -/
  default : Y.load buf1 = some (Tree.single defaultKey a)
  /-- The second is the mapping of the target. -/
  other : Y.within buf1 buf2 = some (Tree.single target b)
  /-- Its key is not the default one. -/
  target_ne : target ≠ defaultKey
  block1 : Block buf1
  block2 : Block buf2

/-- A line that begins a document and has more than the marker is kept by `unmarkedLines`. -/
theorem exists_marked {t : Text} (h : ¬ Unmarked t) : ∃ l ∈ unmarkedLines t, marker l = true := by
  obtain ⟨l, hl⟩ := Classical.not_forall.mp h
  obtain ⟨hmem, hl⟩ := Classical.not_imp.mp hl
  obtain ⟨hmarker, hne⟩ := Classical.not_imp.mp hl
  exact ⟨l, List.mem_filter.mpr ⟨hmem, decide_eq_true hne⟩, hmarker⟩

end DentOS.Config
