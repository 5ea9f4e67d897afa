/-
  Total triples for programs with effects, and loops over lists.

  `Triple pre p post` says that from every state with `pre` the program returns, without an exception,
  a result and a state with `post`.  The rules follow the syntax of a program: what it reads
  (`triple_get`), what it changes (`triple_modify`), what it calls first (`triple_bind`).

  For a loop over a list the invariant speaks of the elements that are still to come
  (`triple_forEach`): one pass takes it from `a :: as` to `as`.
-/
import DentOS.Lib.Effects

namespace Effects
namespace Prog

variable {σ ε α β : Type}

/-- From `pre` the program returns, with `post`. -/
def Triple (pre : σ → Prop) (p : Prog σ ε α) (post : α → σ → Prop) : Prop :=
  ∀ s, pre s → ∃ a s', p s = (.ok a, s') ∧ post a s'

variable {pre pre' mid : σ → Prop} {post : α → σ → Prop}

/-- A rule of consequence, in front. -/
theorem triple_pre {p : Prog σ ε α} (h : Triple pre p post) (hpre : ∀ s, pre' s → pre s) :
    Triple pre' p post := fun s hs => h s (hpre s hs)

/-- A rule of consequence, behind. -/
theorem triple_post {post' : α → σ → Prop} {p : Prog σ ε α} (h : Triple pre p post)
    (hpost : ∀ a s, post a s → post' a s) : Triple pre p post' := by
  intro s hs
  obtain ⟨a, s', hp, ha⟩ := h s hs
  exact ⟨a, s', hp, hpost a s' ha⟩

/-- The rule of a result. -/
theorem triple_pure {a : α} (h : ∀ s, pre s → post a s) :
    Triple pre (pure a : Prog σ ε α) post := fun s hs => ⟨a, s, rfl, h s hs⟩

/-- The rule of a change. -/
theorem triple_modify {g : σ → σ} {post : Unit → σ → Prop} (h : ∀ s, pre s → post () (g s)) :
    Triple pre (modify g : Prog σ ε Unit) post := fun s hs => ⟨(), g s, rfl, h s hs⟩

/-- Sequencing, with what holds in between. -/
theorem triple_bind {p : Prog σ ε β} {f : β → Prog σ ε α} {mid : β → σ → Prop}
    (hp : Triple pre p mid) (hf : ∀ b, Triple (mid b) (f b) post) : Triple pre (p >>= f) post := by
  intro s hs
  obtain ⟨b, s₁, hps, hb⟩ := hp s hs
  obtain ⟨a, s₂, hfs, ha⟩ := hf b s₁ hb
  exact ⟨a, s₂, by rw [bind_of_ok hps, hfs], ha⟩

/-- The same for a first program without a result. -/
theorem triple_seq {p : Prog σ ε Unit} {f : Unit → Prog σ ε α}
    (hp : Triple pre p fun _ => mid) (hf : Triple mid (f ()) post) : Triple pre (p >>= f) post :=
  triple_bind hp fun _ => hf

/-- A program that first reads the state. -/
theorem triple_get {f : σ → Prog σ ε α} (h : ∀ s, pre s → Triple (· = s) (f s) post) :
    Triple pre (get >>= f) post := fun s hs => h s hs s rfl

/-- The rule of a choice. -/
theorem triple_ite {c : Prop} [Decidable c] {p q : Prog σ ε α} (hp : c → Triple pre p post)
    (hq : ¬ c → Triple pre q post) : Triple pre (if c then p else q) post := by
  split
  · exact hp ‹c›
  · exact hq ‹¬ c›

/-! ## Loops: an invariant that every element keeps -/

/-- The program for each element, in order. -/
def forEach (body : β → Prog σ ε Unit) : List β → Prog σ ε Unit
  | [] => pure ()
  | a :: as => do
      body a
      forEach body as

/-- A loop over two lists. -/
theorem forEach_append (body : β → Prog σ ε Unit) (bs : List β) : ∀ as : List β,
    forEach body (as ++ bs) = forEach body as >>= fun _ => forEach body bs
  | [] => rfl
  | a :: as => by
      rw [List.cons_append, forEach, forEach, bind_assoc]
      exact congrArg _ (funext fun _ => forEach_append body bs as)

/-- A loop over the images of a list. -/
theorem forEach_map {γ : Type} (body : β → Prog σ ε Unit) (g : γ → β) : ∀ cs : List γ,
    forEach body (cs.map g) = forEach (fun c => body (g c)) cs
  | [] => rfl
  | c :: cs => by
      rw [List.map_cons, forEach, forEach]
      exact congrArg _ (funext fun _ => forEach_map body g cs)

/-- A loop over optional elements does nothing for those that are not there. -/
theorem forEach_filterMap {γ : Type} (body : β → Prog σ ε Unit) (g : γ → Option β) :
    ∀ cs : List γ, forEach body (cs.filterMap g) =
      forEach (fun c => (g c).elim (pure ()) body) cs
  | [] => rfl
  | c :: cs => by
      rw [List.filterMap_cons, forEach]
      cases g c with
      | none => exact forEach_filterMap body g cs
      | some b => exact congrArg _ (funext fun _ => forEach_filterMap body g cs)

/-- **The rule for loops.** -/
theorem triple_forEach {body : β → Prog σ ε Unit} (inv : List β → σ → Prop)
    (h : ∀ a as, Triple (inv (a :: as)) (body a) fun _ => inv as) :
    ∀ as, Triple (inv as) (forEach body as) fun _ => inv []
  | [] => triple_pure fun _ hs => hs
  | a :: as => triple_seq (h a as) (triple_forEach inv h as)

/-- A loop whose body keeps a property keeps it. -/
theorem triple_forEach_of_mem {body : β → Prog σ ε Unit} {inv : σ → Prop} : ∀ {as : List β},
    (∀ a ∈ as, Triple inv (body a) fun _ => inv) → Triple inv (forEach body as) fun _ => inv
  | [], _ => triple_pure fun _ hs => hs
  | a :: _, h => triple_seq (h a List.mem_cons_self)
      (triple_forEach_of_mem fun b hb => h b (List.mem_cons_of_mem a hb))

end Prog
end Effects
