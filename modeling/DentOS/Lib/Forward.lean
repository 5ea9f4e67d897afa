/-
  Programs whose states only move forward.

  `Forward rel pre p post` is about every run of a program, those that end in an exception included:
  from a state with `pre` each way out leads to a state that `rel` relates it to, and a result comes
  with `post`.  Where `rel` is reflexive and transitive the rule for sequencing needs nothing else
  (`forward_bind`), and a loop over a list, whose passes each reach something that later states keep,
  ends with all of it (`forward_forEach`).
-/
import DentOS.Lib.Triple

namespace Effects
namespace Prog

variable {σ ε α β : Type}

/-- Every way out of the program leads forward, and a result has `post`. -/
def Forward (rel : σ → σ → Prop) (pre : σ → Prop) (p : Prog σ ε α) (post : α → σ → Prop) : Prop :=
  ∀ s, pre s → rel s (p s).2 ∧ ∀ a, (p s).1 = .ok a → post a (p s).2

variable {rel : σ → σ → Prop} {pre pre' : σ → Prop} {post : α → σ → Prop}

/-- A rule of consequence, in front. -/
theorem forward_pre {p : Prog σ ε α} (h : Forward rel pre p post) (hpre : ∀ s, pre' s → pre s) :
    Forward rel pre' p post := fun s hs => h s (hpre s hs)

/-- A rule of consequence, behind. -/
theorem forward_post {post' : α → σ → Prop} {p : Prog σ ε α} (h : Forward rel pre p post)
    (hpost : ∀ a s, post a s → post' a s) : Forward rel pre p post' := by
  intro s hs
  obtain ⟨hrel, hok⟩ := h s hs
  exact ⟨hrel, fun a ha => hpost a _ (hok a ha)⟩

/-- What later states keep, holds at the end if it held at the start. -/
theorem forward_keep {p : Prog σ ε α} (hstable : ∀ s s', rel s s' → pre s → pre s')
    (h : Forward rel pre p post) : Forward rel pre p fun a s => post a s ∧ pre s := by
  intro s hs
  obtain ⟨hrel, hok⟩ := h s hs
  exact ⟨hrel, fun a ha => ⟨hok a ha, hstable _ _ hrel hs⟩⟩

/-- The rule of a change. -/
theorem forward_modify {g : σ → σ} {post : Unit → σ → Prop} (h : ∀ s, pre s → rel s (g s))
    (hpost : ∀ s, pre s → post () (g s)) : Forward rel pre (modify g : Prog σ ε Unit) post :=
  fun s hs => ⟨h s hs, fun _ _ => hpost s hs⟩

section

variable (hrefl : ∀ s, rel s s)
include hrefl

/-- The rule of a result. -/
theorem forward_pure {a : α} (h : ∀ s, pre s → post a s) :
    Forward rel pre (pure a : Prog σ ε α) post := by
  intro s hs
  refine ⟨hrefl s, fun b hb => ?_⟩
  cases hb
  exact h s hs

/-- A program that raises has no result to speak of. -/
theorem forward_throw {e : ε} : Forward rel pre (throw e : Prog σ ε α) post := by
  intro s _
  refine ⟨hrefl s, fun b hb => ?_⟩
  cases hb

/-- Behind a check its condition holds. -/
theorem forward_check {b : Bool} {e : ε} :
    Forward rel pre (check b e : Prog σ ε Unit) fun _ s => b = true ∧ pre s := by
  cases b with
  | true => exact forward_pure hrefl fun s hs => ⟨rfl, hs⟩
  | false => exact forward_throw hrefl

end

variable (htrans : ∀ s s' s'', rel s s' → rel s' s'' → rel s s'')
include htrans

/-- Sequencing, with what holds in between. -/
theorem forward_bind {p : Prog σ ε β} {f : β → Prog σ ε α} (mid : β → σ → Prop)
    (hp : Forward rel pre p mid) (hf : ∀ b, Forward rel (mid b) (f b) post) :
    Forward rel pre (p >>= f) post := by
  intro s hs
  obtain ⟨hrel, hmid⟩ := hp s hs
  rcases hrun : p s with ⟨_ | b, s₁⟩
  · rw [hrun] at hrel
    rw [bind_of_error hrun]
    exact ⟨hrel, fun a ha => by cases ha⟩
  · rw [hrun] at hrel hmid
    obtain ⟨hrel', hpost⟩ := hf b s₁ (hmid b rfl)
    rw [bind_of_ok hrun]
    exact ⟨htrans _ _ _ hrel hrel', hpost⟩

/-- **The rule for loops**: what a pass reaches, the others keep. -/
theorem forward_forEach (hrefl : ∀ s, rel s s) {body : β → Prog σ ε Unit} {inv : σ → Prop}
    (reached : β → σ → Prop) (hinv : ∀ s s', rel s s' → inv s → inv s')
    (hstable : ∀ b s s', rel s s' → reached b s → reached b s') : ∀ {bs : List β},
    (∀ b ∈ bs, Forward rel inv (body b) fun _ => reached b) →
    Forward rel inv (forEach body bs) fun _ s => inv s ∧ ∀ b ∈ bs, reached b s
  | [], _ => forward_pure hrefl fun _ hs => ⟨hs, fun b hb => absurd hb List.not_mem_nil⟩
  | b :: bs, h => by
      intro s hs
      obtain ⟨hrel, hone⟩ := h b List.mem_cons_self s hs
      have hrest := forward_forEach hrefl reached hinv hstable fun b' hb' => h b' (List.mem_cons_of_mem b hb')
      rw [forEach]
      rcases hrun : body b s with ⟨_ | u, s₁⟩
      · rw [hrun] at hrel
        rw [bind_of_error hrun]
        exact ⟨hrel, fun a ha => by cases ha⟩
      · rw [hrun] at hrel hone
        obtain ⟨hrel', hall⟩ := hrest s₁ (hinv s s₁ hrel hs)
        rw [bind_of_ok hrun]
        refine ⟨htrans _ _ _ hrel hrel', fun a ha => ?_⟩
        obtain ⟨hi, hbs⟩ := hall a ha
        refine ⟨hi, fun b' hb' => ?_⟩
        rcases List.mem_cons.mp hb' with rfl | hb'
        · exact hstable _ s₁ _ hrel' (hone u rfl)
        · exact hbs b' hb'

/-! ## Programs that give up -/

omit htrans in
/-- Every way out leads forward, and an exception comes with `bad`, which speaks of the state at the
start as well. -/
def Exits (rel bad : σ → σ → Prop) (p : Prog σ ε α) : Prop :=
  ∀ s, rel s (p s).2 ∧ ∀ e, (p s).1 = .error e → bad s (p s).2

omit htrans in
/-- A change does not raise. -/
theorem exits_modify {bad : σ → σ → Prop} {g : σ → σ} (h : ∀ s, rel s (g s)) :
    Exits rel bad (modify g : Prog σ ε Unit) := fun s => ⟨h s, fun e he => by cases he⟩

omit htrans in
/-- A result does not raise. -/
theorem exits_pure (hrefl : ∀ s, rel s s) {bad : σ → σ → Prop} (a : α) :
    Exits rel bad (pure a : Prog σ ε α) := fun s => ⟨hrefl s, fun e he => by cases he⟩

/-- **The rule of sequencing** for what is left by an exception. -/
theorem exits_bind {bad : σ → σ → Prop} (hbad : ∀ s s' s'', rel s s' → bad s' s'' → bad s s'')
    {p : Prog σ ε β} {f : β → Prog σ ε α} (hp : Exits rel bad p) (hf : ∀ b, Exits rel bad (f b)) :
    Exits rel bad (p >>= f) := by
  intro s
  obtain ⟨hrel, herr⟩ := hp s
  rcases hrun : p s with ⟨e | b, s₁⟩
  · rw [hrun] at hrel herr
    rw [bind_of_error hrun]
    exact ⟨hrel, fun _ _ => herr e rfl⟩
  · rw [hrun] at hrel
    obtain ⟨hrel', herr'⟩ := hf b s₁
    rw [bind_of_ok hrun]
    exact ⟨htrans _ _ _ hrel hrel', fun e he => hbad _ _ _ hrel (herr' e he)⟩

/-- The rule of a loop, by induction on its list. -/
theorem exits_forEach (hrefl : ∀ s, rel s s) {bad : σ → σ → Prop}
    (hbad : ∀ s s' s'', rel s s' → bad s' s'' → bad s s'') {body : β → Prog σ ε Unit}
    (h : ∀ b, Exits rel bad (body b)) : ∀ bs : List β, Exits rel bad (forEach body bs)
  | [] => exits_pure hrefl ()
  | b :: bs => exits_bind htrans hbad (h b) fun _ => exits_forEach hrefl hbad h bs

end Prog
end Effects
