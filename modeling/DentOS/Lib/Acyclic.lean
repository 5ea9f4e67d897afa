/-
  Relations without circles, on finitely many elements.

  A relation that leads to the elements of a list only is well founded as soon as it has no circle
  (`wellFounded_of_acyclic`), and it has none where a rank goes down along it (`acyclic_of_rank`).  The
  elements themselves may be infinitely many.
-/
import Mathlib.Data.Fintype.EquivFin
import Mathlib.Logic.Relation

/-- **A relation without circles comes to an end**, when what it leads to is on a list. -/
theorem wellFounded_of_acyclic {α : Type} {r : α → α → Prop} {l : List α}
    (hmem : ∀ a b, r a b → b ∈ l) (hacyclic : ∀ a, ¬ Relation.TransGen r a a) :
    WellFounded fun b a => r a b := by
  have hfinite : Finite { a // a ∈ l } :=
    Finite.of_surjective (fun i : Fin l.length => ⟨l.get i, l.get_mem i⟩) (by
      rintro ⟨a, ha⟩
      obtain ⟨i, hi⟩ := List.mem_iff_get.mp ha
      exact ⟨i, Subtype.ext hi⟩)
  have hirrefl : Std.Irrefl (Relation.TransGen fun b a : { a // a ∈ l } => r a.1 b.1) := by
    refine ⟨fun a h => hacyclic a.1 ?_⟩
    have hswap := Relation.transGen_swap.mp h
    exact hswap.lift Subtype.val fun _ _ hr => hr
  have hwf := Finite.wellFounded_of_trans_of_irrefl
    (Relation.TransGen fun b a : { a // a ∈ l } => r a.1 b.1)
  have hlist : ∀ a : { a // a ∈ l }, Acc (fun b a => r a b) a.1 := by
    intro a
    induction a using hwf.induction with
    | _ a ih => exact ⟨a.1, fun b hb => ih ⟨b, hmem a.1 b hb⟩ (Relation.TransGen.single hb)⟩
  exact ⟨fun a => ⟨a, fun b hb => hlist ⟨b, hmem a b hb⟩⟩⟩

/-- A relation that leads down has no circles. -/
theorem acyclic_of_rank {α : Type} {r : α → α → Prop} (rank : α → Nat)
    (hrank : ∀ a b, r a b → rank b < rank a) (a : α) : ¬ Relation.TransGen r a a := by
  have hdown : ∀ {b}, Relation.TransGen r a b → rank b < rank a := by
    intro b h
    induction h with
    | single hab => exact hrank a _ hab
    | tail _ hbc ih => exact Nat.lt_trans (hrank _ _ hbc) ih
  exact fun h => Nat.lt_irrefl _ (hdown h)
