/-
  Machines that answer events, and what their runs may be.

  A machine takes an event and gives an answer.  A specification is a relation: which answers an event may
  have, and which states may follow.  `forward` is the forward simulation between the two, for machines
  whose answers may say that they have failed (`lost`): without such an answer, a run of the machine is a run
  of the specification.
-/
import Mathlib.Logic.Basic

namespace Simulation

variable {σ τ ε α : Type _}

/-- A run of a machine: the answers, and the state behind them. -/
def run (step : ε → σ → α × σ) : List ε → σ → List α × σ
  | [], s => ([], s)
  | e :: es, s => ((step e s).1 :: (run step es (step e s).2).1, (run step es (step e s).2).2)

/-- A run that a specification allows. -/
inductive Run (spec : τ → ε → α → τ → Prop) : τ → List ε → List α → τ → Prop
  | nil (t : τ) : Run spec t [] [] t
  | cons {t t' t'' : τ} {e : ε} {es : List ε} {a : α} {as : List α} (h : spec t e a t')
      (h' : Run spec t' es as t'') : Run spec t (e :: es) (a :: as) t''

variable {step : ε → σ → α × σ} {spec : τ → ε → α → τ → Prop}

/-- **Forward simulation**, of the events that are meant. -/
theorem forward (R : σ → τ → Prop) (lost : α → Prop) {meant : ε → Prop}
    (hstep : ∀ e s t, meant e → R s t → ¬ lost (step e s).1 →
      ∃ t', spec t e (step e s).1 t' ∧ R (step e s).2 t') :
    ∀ (es : List ε) (s : σ) (t : τ), (∀ e ∈ es, meant e) → R s t → (∀ a ∈ (run step es s).1, ¬ lost a) →
      ∃ t', Run spec t es (run step es s).1 t' ∧ R (run step es s).2 t'
  | [], s, t, _, hR, _ => ⟨t, .nil t, hR⟩
  | e :: es, s, t, hmeant, hR, hnot => by
      obtain ⟨t', hspec, hR'⟩ := hstep e s t (hmeant e List.mem_cons_self) hR (hnot _ List.mem_cons_self)
      obtain ⟨t'', hrun, hR''⟩ := forward R lost hstep es _ t'
        (fun e' he' => hmeant e' (List.mem_cons_of_mem e he')) hR'
        fun a ha => hnot a (List.mem_cons_of_mem _ ha)
      exact ⟨t'', .cons hspec hrun, hR''⟩

end Simulation
