/-
  Paths as texts (posixpath).

  A path is cut behind its last slash.  The slashes in front are not cut off (`prefix_dirname`), so the
  walk up with `dirname` comes to "/" from the paths that begin with exactly one slash
  (`Rooted`, `rooted_dirname`), getting shorter all the way (`length_dirname_lt`), and from no others.
-/
import DentOS.Lib.PyText
import Mathlib.Data.List.DropRight

namespace PosixPath

open PyText

/-- `os.path.join(a, b)`. -/
def join (a b : Text) : Text :=
  if ['/'].isPrefixOf b then b
  else if a = [] ∨ ['/'].isSuffixOf a then a ++ b
  else a ++ ['/'] ++ b

/-- A path up to its last slash, and with it. -/
def head (p : Text) : Text := p.rdropWhile (· ≠ '/')

/-- `os.path.dirname(p)`. -/
def dirname (p : Text) : Text :=
  if (head p).all (· = '/') then head p else (head p).rdropWhile (· = '/')

/-- `os.path.basename(p)`. -/
def basename (p : Text) : Text := p.rtakeWhile (· ≠ '/')

example : dirname "/a//b".toList = "/a".toList := by decide

example : dirname "//b".toList = "//".toList := by decide

/-! ## dirname -/

/-- The directory's text is in front of the path. -/
theorem isPrefix_dirname (p : Text) : dirname p <+: p := by
  rw [dirname]
  split
  · exact List.rdropWhile_prefix _ _
  · exact (List.rdropWhile_prefix _ _).trans (List.rdropWhile_prefix _ _)

/-- What is taken off the end of two texts. -/
theorem rdropWhile_append (q : Char → Bool) (s t : Text) :
    (s ++ t).rdropWhile q = if (t.rdropWhile q) = [] then s.rdropWhile q else s ++ t.rdropWhile q := by
  induction t using List.reverseRecOn with
  | nil => rw [List.append_nil, List.rdropWhile_nil, if_pos rfl]
  | append_singleton t c ih =>
      rw [← List.append_assoc]
      by_cases hc : q c = true
      · rw [List.rdropWhile_concat_pos _ _ _ hc, List.rdropWhile_concat_pos _ _ _ hc, ih]
      · rw [List.rdropWhile_concat_neg _ _ _ hc, List.rdropWhile_concat_neg _ _ _ hc,
          if_neg (List.append_ne_nil_of_right_ne_nil t (List.cons_ne_nil c [])), List.append_assoc]

/-- Slashes in front are in the head. -/
theorem prefix_head {s p : Text} (hs : ∀ c ∈ s, c = '/') (h : s <+: p) : s <+: head p := by
  obtain ⟨t, rfl⟩ := h
  have hself : s.rdropWhile (· ≠ '/') = s := by
    refine List.rdropWhile_eq_self_iff.mpr fun hne => ?_
    rw [hs _ (List.getLast_mem hne)]
    decide
  rw [head, rdropWhile_append, hself]
  split
  · exact List.prefix_refl s
  · exact List.prefix_append s _

/-- **The slashes in front** stay. -/
theorem prefix_dirname {s p : Text} (hs : ∀ c ∈ s, c = '/') : s <+: dirname p ↔ s <+: p := by
  refine ⟨fun h => h.trans (isPrefix_dirname p), fun h => ?_⟩
  have hhead := prefix_head hs h
  rw [dirname]
  split
  · exact hhead
  · next hall =>
      obtain ⟨t, ht⟩ := hhead
      have hne : t.rdropWhile (· = '/') ≠ [] := by
        intro hnil
        refine hall (List.all_eq_true.mpr ?_)
        rw [← ht]
        intro c hc
        rcases List.mem_append.mp hc with hc | hc
        · exact decide_eq_true (hs c hc)
        · exact List.rdropWhile_eq_nil_iff.mp hnil c hc
      rw [← ht, rdropWhile_append, if_neg hne]
      exact List.prefix_append s _

/-! ## The way up -/

/-- The path begins with exactly one slash. -/
def Rooted (p : Text) : Prop := ['/'] <+: p ∧ ¬ ['/', '/'] <+: p

/-- The directory of a rooted path is rooted, and of no other. -/
theorem rooted_dirname {p : Text} : Rooted (dirname p) ↔ Rooted p :=
  and_congr (prefix_dirname (by simp)) (not_congr (prefix_dirname (by simp)))

/-- The root is rooted. -/
theorem rooted_root : Rooted ['/'] := ⟨List.prefix_refl _, by decide⟩

/-- Behind its one slash, a path has another letter. -/
theorem Rooted.not_all {p : Text} (h : Rooted p) (hne : p ≠ ['/']) : p.all (· = '/') = false := by
  obtain ⟨⟨t, rfl⟩, htwo⟩ := h
  rcases t with _ | ⟨c, t⟩
  · exact absurd rfl hne
  · have hc : c ≠ '/' := fun heq => htwo ⟨t, by rw [heq]; rfl⟩
    rw [Bool.eq_false_iff]
    intro hall
    exact hc (of_decide_eq_true (List.all_eq_true.mp hall c (by simp)))

/-- **One step up** is shorter. -/
theorem length_dirname_lt {p : Text} (h : Rooted p) (hne : p ≠ ['/']) : (dirname p).length < p.length := by
  refine lt_of_le_of_ne (isPrefix_dirname p).length_le fun heq => ?_
  have hself : dirname p = p := (isPrefix_dirname p).eq_of_length heq
  have hall := h.not_all hne
  rw [dirname] at hself
  split at hself
  · next hhead =>
      rw [hself] at hhead
      rw [hhead] at hall
      cases hall
  · have hhead : head p = p := (List.rdropWhile_prefix _ p).eq_of_length_le
      ((congrArg List.length hself).symm.le.trans (List.rdropWhile_prefix _ (head p)).length_le)
    -- its last letter is a slash, and is not
    have hnil : p ≠ [] := h.1.ne_nil (List.cons_ne_nil _ _)
    have hslash := List.rdropWhile_eq_self_iff.mp hhead hnil
    rw [hhead] at hself
    have hother := List.rdropWhile_eq_self_iff.mp hself hnil
    rw [Bool.not_eq_true, decide_eq_false_iff_not] at hslash hother
    exact hslash hother

end PosixPath
