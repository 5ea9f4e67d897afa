/-
  One pass of the FIT parser's token loop, token by token.

  `At file pos bs` says that the file has the bytes `bs` at `pos`.  From there: what `read` and
  `unpack` give (`read_at`, `unpack_word`), that `_label` returns the bytes up to a NUL when there is
  one (`label_at`) and comes to no end when there is none (`label_running`), and what a pass does on
  each of the five tokens (`pass_beginNode`, `pass_prop`, ...).  Everything else about the parser is
  argued from these.

  A pass that comes back has made way (`lt_of_hop`): that bounds the number of passes by the length of
  the file, whatever is in it.
-/
import DentOS.Fit.Parser
import Mathlib.Algebra.Group.Nat.Defs
import Mathlib.Logic.Relation

namespace DentOS.Fit

open Outcome

/-! ## Bytes at a position of a file -/

/-- The file has the bytes `bs` at `pos`. -/
def At (file : Bytes) (pos : Nat) (bs : Bytes) : Prop := bs <+: file.drop pos

instance (file : Bytes) (pos : Nat) (bs : Bytes) : Decidable (At file pos bs) :=
  inferInstanceAs (Decidable (bs <+: file.drop pos))

/-- Two pieces in the file, one behind the other. -/
theorem at_append {file : Bytes} {pos : Nat} {as bs : Bytes} :
    At file pos (as ++ bs) ↔ At file pos as ∧ At file (pos + as.length) bs := by
  unfold At
  rw [← List.drop_drop]
  constructor
  · rintro ⟨rest, hrest⟩
    rw [List.append_assoc] at hrest
    refine ⟨⟨bs ++ rest, hrest⟩, ⟨rest, ?_⟩⟩
    rw [← hrest, List.drop_left]
  · rintro ⟨⟨rest, hrest⟩, hbs⟩
    rw [← hrest, List.drop_left] at hbs
    obtain ⟨rest', rfl⟩ := hbs
    exact ⟨rest', by rw [List.append_assoc, hrest]⟩

/-- Reading what is there. -/
theorem read_at {file : Bytes} {pos : Nat} {bs : Bytes} (h : At file pos bs) {n : Nat}
    (hn : n = bs.length) : read file pos n = (bs, pos + n) := by
  obtain ⟨rest, hrest⟩ := h
  subst hn
  simp only [read, ← hrest, List.take_left]

/-- The bytes a slice of the file holds. -/
theorem slice_at {file : Bytes} {pos : Nat} {bs : Bytes} (h : At file pos bs) :
    (file.drop pos).take bs.length = bs := by
  obtain ⟨rest, hrest⟩ := h
  rw [← hrest, List.take_left]

/-! ## Words of four bytes, the high one in front -/

/-- A 32 bit word of the struct block. -/
def word (n : Nat) : Bytes := BigEndian.toBytes 4 n

/-- A word has four bytes. -/
theorem length_word (n : Nat) : (word n).length = 4 := BigEndian.length_toBytes 4 n

/-- A word is read back. -/
theorem words_word {n : Nat} (hn : n < 2 ^ 32) (rest : Bytes) :
    words (word n ++ rest) = n :: words rest := by
  have hround : BigEndian.ofBytes (word n) = n := BigEndian.ofBytes_toBytes_of_lt (k := 4) hn
  exact congrArg (· :: words rest) hround

/-- Several words are read back. -/
theorem words_flatMap : ∀ {ns : List Nat}, (∀ n ∈ ns, n < 2 ^ 32) → words (ns.flatMap word) = ns
  | [], _ => rfl
  | n :: ns, h => by
      rw [List.flatMap_cons, words_word (h n List.mem_cons_self),
        words_flatMap fun k hk => h k (List.mem_cons_of_mem n hk)]

/-- Their bytes are four times as many. -/
theorem length_flatMap_word : ∀ ns : List Nat, (ns.flatMap word).length = 4 * ns.length
  | [] => rfl
  | n :: ns => by
      rw [List.flatMap_cons, List.length_append, length_word, length_flatMap_word ns,
        List.length_cons]
      omega

/-- `struct.unpack` of words. -/
theorem unpack_words (ns : List Nat) (h : ∀ n ∈ ns, n < 2 ^ 32) {k : Nat} (hk : k = ns.length) :
    unpack k (ns.flatMap word) = .returned ns := by
  rw [unpack, if_pos (by rw [length_flatMap_word, hk]), words_flatMap h]

/-- `struct.unpack` of one word. -/
theorem unpack_word {n : Nat} (hn : n < 2 ^ 32) : unpack 1 (word n) = .returned [n] := by
  have h := unpack_words [n] (k := 1) (by simpa using hn) rfl
  rwa [List.flatMap_singleton] at h

/-! ## Labels: a name, a zero, and what fills the word -/

section

variable (file : Bytes)

/-- Every byte of a name is read in its own pass, and the NUL in one more. -/
theorem label_at : ∀ (name : Bytes) (fuel pos : Nat) (buf : Bytes), (0x00 : UInt8) ∉ name →
    At file pos (name ++ [0x00]) → name.length < fuel →
    label file fuel pos buf = .returned (buf ++ name, pos + name.length + 1) := by
  intro name
  induction name with
  | nil =>
      intro fuel pos buf _ hat hfuel
      obtain ⟨f, rfl⟩ : ∃ f, fuel = f + 1 := ⟨fuel - 1, by omega⟩
      rw [label, read_at hat (n := 1) rfl, List.append_nil]
      rfl
  | cons c cs ih =>
      intro fuel pos buf hnul hat hfuel
      rw [List.length_cons] at hfuel
      obtain ⟨f, rfl⟩ : ∃ f, fuel = f + 1 := ⟨fuel - 1, by omega⟩
      obtain ⟨hc, hcs⟩ : At file pos [c] ∧ At file (pos + 1) (cs ++ [0x00]) :=
        at_append.mp hat
      have hne : c ≠ 0x00 := fun h => hnul (h ▸ List.mem_cons_self)
      rw [label, read_at hc (n := 1) rfl]
      show (if c = 0x00 then _ else label file f (pos + 1) (buf ++ [c])) = _
      rw [if_neg hne, ih f (pos + 1) _ (fun h => hnul (List.mem_cons_of_mem c h)) hcs (by omega),
        List.append_assoc, List.length_cons]
      show Outcome.returned (buf ++ c :: cs, pos + 1 + cs.length + 1) = _
      rw [show pos + 1 + cs.length + 1 = pos + (cs.length + 1) + 1 by omega]

/-- A NUL ahead of `pos` ends a name. -/
theorem exists_name {pos : Nat} (h : (0x00 : UInt8) ∈ file.drop pos) :
    ∃ name, (0x00 : UInt8) ∉ name ∧ At file pos (name ++ [0x00]) := by
  obtain ⟨name, rest, hsplit, hname⟩ := List.eq_append_cons_of_mem h
  exact ⟨name, hname, rest, by rw [hsplit, List.append_assoc]; rfl⟩

/-- **No NUL ahead**: `_label` reads on at the end of the file for ever. -/
theorem label_running : ∀ (fuel pos : Nat) (buf : Bytes), (0x00 : UInt8) ∉ file.drop pos →
    label file fuel pos buf = .running := by
  intro fuel
  induction fuel with
  | zero => intro pos buf _; rfl
  | succ f ih =>
      intro pos buf hnul
      rw [label, read]
      cases hdrop : file.drop pos with
      | nil => exact ih pos buf hnul
      | cons c cs =>
          have hc : c ≠ 0x00 := fun h => hnul (by rw [hdrop, h]; exact List.mem_cons_self)
          have hcs : (0x00 : UInt8) ∉ file.drop (pos + 1) := by
            rw [← List.drop_drop, hdrop]
            exact fun h => hnul (by rw [hdrop]; exact List.mem_cons_of_mem c h)
          show (if c = 0x00 then _ else label file f (pos + 1) (buf ++ [c])) = _
          rw [if_neg hc]
          exact ih (pos + 1) _ hcs

/-- More passes for a label. -/
theorem label_approx : ∀ {fuel fuel' : Nat}, fuel ≤ fuel' → ∀ (pos : Nat) (buf : Bytes),
    Approx (label file fuel pos buf) (label file fuel' pos buf) := by
  intro fuel
  induction fuel with
  | zero => intro fuel' _ pos buf; exact approx_running _
  | succ f ih =>
      intro fuel' hle pos buf
      obtain ⟨f', rfl⟩ : ∃ f', fuel' = f' + 1 := ⟨fuel' - 1, by omega⟩
      rw [label, label]
      rcases read file pos 1 with ⟨_ | ⟨c, _⟩, pos'⟩
      · exact ih (by omega) pos' buf
      · show Approx (if c = 0x00 then _ else _) (if c = 0x00 then _ else _)
        split
        · exact Approx.refl _
        · exact ih (by omega) pos' _

/-! ## The tokens, one behind the other -/

variable {file} {fuel stringPos : Nat}

/-- A pass over a tag does what the tag says. -/
theorem pass_eq {s : Tokens} {tag : Nat} (htag : tag < 2 ^ 32) (h : At file s.pos (word tag)) :
    pass file fuel stringPos s = onTag file fuel stringPos tag { s with pos := s.pos + 4 } := by
  rw [pass, read_at h (n := 4) (length_word tag).symm]
  show unpack 1 (word tag) >>= _ = _
  rw [unpack_word htag, returned_bind]
  rfl

/-- A pass opens a node. -/
theorem pass_beginNode {s : Tokens} {name : Bytes} (h : At file s.pos (word fdtBeginNode))
    (hname : At file (s.pos + 4) (name ++ [0x00])) (hnul : (0x00 : UInt8) ∉ name)
    (hfuel : name.length < fuel) (hfresh : hasKey s.siblings name = false) :
    pass file fuel stringPos s = .returned (.again { s with
      pos := align (s.pos + 4 + name.length + 1)
      nodeStack := .mk name [] [] :: s.nodeStack }) := by
  rw [pass_eq (by decide) h, onTag, if_pos rfl, beginNode,
    label_at file name fuel _ _ hnul hname hfuel, returned_bind]
  show (if hasKey s.siblings name = true then _ else _) = _
  rw [hfresh, if_neg Bool.false_ne_true]
  rfl

/-- A pass reads a property of the open node. -/
theorem pass_prop {s : Tokens} {top : FdtNode} {rest : List FdtNode} {name : Bytes}
    {plen nameoff : Nat} (hstack : s.nodeStack = top :: rest)
    (h : At file s.pos (word fdtProp ++ (word plen ++ word nameoff))) (hplen : plen < 2 ^ 32)
    (hnameoff : nameoff < 2 ^ 32) (hname : At file (stringPos + nameoff) (name ++ [0x00]))
    (hnul : (0x00 : UInt8) ∉ name) (hfuel : name.length < fuel)
    (hfresh : hasKey top.properties name = false) :
    pass file fuel stringPos s = .returned (.again { s with
      pos := align (s.pos + 12 + plen)
      nodeStack := .mk top.name (top.properties ++ [(name, ⟨name, s.pos + 12, plen⟩)]) top.nodes
        :: rest }) := by
  obtain ⟨htag, hwords⟩ := at_append.mp h
  rw [length_word] at hwords
  have hread : read file (s.pos + 4) 8 = (word plen ++ word nameoff, s.pos + 12) :=
    read_at hwords (by rw [List.length_append, length_word, length_word])
  have hunpack : unpack 2 (word plen ++ word nameoff) = .returned [plen, nameoff] := by
    have hw := unpack_words [plen, nameoff] (k := 2)
      (by intro n hn; rcases List.mem_cons.mp hn with rfl | hn
          · exact hplen
          · rw [List.mem_singleton.mp hn]; exact hnameoff) rfl
    rwa [List.flatMap_cons, List.flatMap_singleton] at hw
  have hstring : string file fuel stringPos nameoff = .returned name := by
    rw [string, label_at file name fuel _ _ hnul hname hfuel]
    rfl
  rw [pass_eq (by decide) htag, onTag, if_neg (by decide), if_pos rfl, prop,
    hread]
  show unpack 2 (word plen ++ word nameoff) >>= _ = _
  rw [hunpack, returned_bind]
  show string file fuel stringPos nameoff >>= _ = _
  rw [hstring, returned_bind]
  simp only [hstack, hfresh, Bool.false_eq_true, if_false, pure_eq]
  rfl

/-- A pass closes the node that was opened last. -/
theorem pass_endNode {s : Tokens} {node : FdtNode} {rest : List FdtNode}
    (hstack : s.nodeStack = node :: rest) (h : At file s.pos (word fdtEndNode)) :
    pass file fuel stringPos s =
      .returned (.again ({ s with pos := s.pos + 4, nodeStack := rest }.attach node)) := by
  rw [pass_eq (by decide) h, onTag, if_neg (by decide), if_neg (by decide), if_pos rfl, endNode,
    hstack]
  rfl

/-- A pass over a NOP counts it. -/
theorem pass_nop {s : Tokens} (h : At file s.pos (word fdtNop)) :
    pass file fuel stringPos s =
      .returned (.again { s with pos := s.pos + 4, nops := s.nops + 1 }) := by
  rw [pass_eq (by decide) h]
  rfl

/-- The pass at the end, with no node open. -/
theorem pass_end {s : Tokens} (hstack : s.nodeStack = []) (h : At file s.pos (word fdtEnd)) :
    pass file fuel stringPos s = .returned (.stop { s with pos := s.pos + 4 }) := by
  rw [pass_eq (by decide) h, onTag, if_neg (by decide), if_neg (by decide), if_neg (by decide),
    if_neg (by decide), if_pos rfl, if_pos hstack]
  rfl

/-! ## Hops of the token loop: from a token to the next -/

/-- One pass that goes on to another. -/
def Hop (file : Bytes) (fuel stringPos : Nat) (s s' : Tokens) : Prop :=
  pass file fuel stringPos s = .returned (.again s')

/-- Aligning goes forward. -/
theorem le_align (pos : Nat) : pos ≤ align pos := by
  unfold align
  omega

/-- `_label` moves forward. -/
theorem le_of_label : ∀ {fuel pos : Nat} {buf name : Bytes} {pos' : Nat},
    label file fuel pos buf = .returned (name, pos') → pos ≤ pos' := by
  intro fuel
  induction fuel with
  | zero => intro pos buf name pos' h; exact absurd h (by simp [label])
  | succ f ih =>
      intro pos buf name pos' h
      rw [label, read] at h
      cases hdrop : (file.drop pos).take 1 with
      | nil =>
          rw [hdrop] at h
          exact ih h
      | cons c cs =>
          rw [hdrop] at h
          dsimp only at h
          have hlen : (c :: cs).length = cs.length + 1 := List.length_cons
          by_cases hc : c = 0x00
          · rw [if_pos hc] at h
            injection h with h
            injection h with _ hpos
            omega
          · rw [if_neg hc] at h
            have := ih h
            omega

/-- A pass that gets past its tag has read four bytes. -/
theorem unpack_one {buf : Bytes} {w : List Nat} (h : unpack 1 buf = .returned w) :
    buf.length = 4 := by
  unfold unpack at h
  by_cases hlen : buf.length = 4 * 1
  · exact hlen
  · rw [if_neg hlen] at h
    exact absurd h (by simp)

/-- Every pass goes forward. -/
theorem le_of_onTag {tag : Nat} {s s' : Tokens}
    (h : onTag file fuel stringPos tag s = .returned (.again s')) : s.pos ≤ s'.pos := by
  unfold onTag at h
  split at h
  · obtain ⟨⟨name, pos⟩, hlabel, h⟩ := bind_eq_returned h
    have hle := le_of_label hlabel
    have hal := le_align pos
    dsimp only at h
    split at h
    · exact absurd h (by simp)
    · injection h with h
      injection h with h
      rw [← h]
      exact Nat.le_trans hle hal
  split at h
  · unfold prop at h
    obtain ⟨w, -, h⟩ := bind_eq_returned h
    obtain ⟨name, -, h⟩ := bind_eq_returned h
    dsimp only at h
    split at h
    · split at h
      · exact absurd h (by simp)
      · injection h with h
        injection h with h
        rw [← h]
        exact Nat.le_trans (by rw [Nat.add_assoc]; exact Nat.le_add_right _ _) (le_align _)
    · exact absurd h (by simp)
  split at h
  · unfold endNode at h
    split at h
    · injection h with h
      injection h with h
      rw [← h]
      unfold Tokens.attach
      split <;> exact Nat.le_refl _
    · exact absurd h (by simp)
  split at h
  · injection h with h
    injection h with h
    cases h
    exact Nat.le_refl _
  split at h
  · split at h
    · exact absurd h (by simp)
    · exact absurd h (by simp)
  · exact absurd h (by simp)

/-- **Every pass makes way**: it has read a tag inside the file, and goes on behind it. -/
theorem lt_of_hop {s s' : Tokens} (h : Hop file fuel stringPos s s') :
    s.pos + 4 ≤ file.length ∧ s.pos + 4 ≤ s'.pos := by
  obtain ⟨w, hw, h⟩ := bind_eq_returned h
  have hlen : ((file.drop s.pos).take 4).length = 4 := unpack_one hw
  have hle := le_of_onTag h
  rw [List.length_take, List.length_drop] at hlen
  have hpos : (read file s.pos 4).2 = s.pos + 4 := by
    rw [read, List.length_take, List.length_drop]
    omega
  have hle' : (read file s.pos 4).2 ≤ s'.pos := hle
  omega

/-- More passes for the labels in a pass. -/
theorem pass_approx {fuel' : Nat} (hle : fuel ≤ fuel') (s : Tokens) :
    Approx (pass file fuel stringPos s) (pass file fuel' stringPos s) := by
  refine approx_bind (Approx.refl _) fun w => ?_
  unfold onTag
  split
  · exact approx_bind (label_approx file hle _ _) fun _ => Approx.refl _
  split
  · unfold prop
    refine approx_bind (Approx.refl _) fun w => approx_bind ?_ fun _ => Approx.refl _
    exact approx_bind (label_approx file hle _ _) fun _ => Approx.refl _
  · exact Approx.refl _

/-- More fuel does not matter. -/
theorem hop_mono {fuel' : Nat} (hle : fuel ≤ fuel') {s s' : Tokens}
    (h : Hop file fuel stringPos s s') : Hop file fuel' stringPos s s' := by
  have happrox : Approx (pass file fuel stringPos s) (pass file fuel' stringPos s) :=
    pass_approx hle s
  rw [Hop] at h
  rw [h] at happrox
  exact (happrox.eq (by simp)).symm

/-- The loop follows the hops to the pass that ends it; a bound that covers the bytes ahead is
    enough. -/
theorem tokenLoop_of_hops {s s' t : Tokens}
    (h : Relation.ReflTransGen (Hop file fuel stringPos) s s')
    (hstop : pass file fuel stringPos s' = .returned (.stop t)) : ∀ {passes : Nat},
    file.length - s.pos < passes → tokenLoop file fuel stringPos passes s = .returned t := by
  induction h using Relation.ReflTransGen.head_induction_on with
  | refl =>
      intro passes hp
      obtain ⟨p, rfl⟩ : ∃ p, passes = p + 1 := ⟨passes - 1, by omega⟩
      rw [tokenLoop, hstop]
      rfl
  | head hhop _ ih =>
      intro passes hp
      obtain ⟨p, rfl⟩ : ∃ p, passes = p + 1 := ⟨passes - 1, by omega⟩
      obtain ⟨hin, hup⟩ := lt_of_hop hhop
      rw [tokenLoop, hhop]
      exact ih (by omega)

end

end DentOS.Fit
