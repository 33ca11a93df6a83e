import Mathlib.Data.List.Basic

/-!
# FluxRs.Lib.Run — runs of a step function and invariants along them

A run folds a step function over a list of inputs.  `AllSteps` says that every step of a run meets a
condition on the state it starts from and the input it takes; `run_inv` is the invariant rule under
such a condition.
-/

namespace FluxRs.Lib

section Run

variable {σ α : Type*} (step : σ → α → σ)

def run (s : σ) (as : List α) : σ := as.foldl step s

@[simp] theorem run_nil (s : σ) : run step s [] = s := rfl

@[simp] theorem run_cons (s : σ) (a : α) (as : List α) :
    run step s (a :: as) = run step (step s a) as := rfl

theorem run_append (s : σ) (as bs : List α) :
    run step s (as ++ bs) = run step (run step s as) bs := List.foldl_append

/-- Each step of the run meets `C` in the state it starts from. -/
def AllSteps (C : σ → α → Prop) : σ → List α → Prop
  | _, [] => True
  | s, a :: as => C s a ∧ AllSteps C (step s a) as

def AllSteps.decidable {C : σ → α → Prop} [∀ s a, Decidable (C s a)] :
    ∀ (s : σ) (as : List α), Decidable (AllSteps step C s as)
  | _, [] => isTrue trivial
  | s, a :: as => @instDecidableAnd _ _ _ (AllSteps.decidable (step s a) as)

instance {C : σ → α → Prop} [∀ s a, Decidable (C s a)] (s : σ) (as : List α) :
    Decidable (AllSteps step C s as) := AllSteps.decidable step s as

variable {step}

theorem AllSteps.and {C D : σ → α → Prop} : ∀ {s : σ} {as : List α},
    AllSteps step C s as → AllSteps step D s as → AllSteps step (fun s a => C s a ∧ D s a) s as
  | _, [], _, _ => trivial
  | _, _ :: _, hc, hd => ⟨⟨hc.1, hd.1⟩, AllSteps.and hc.2 hd.2⟩

/-- **The invariant rule.**  What every conforming step preserves holds after every conforming run. -/
theorem run_inv {I : σ → Prop} {C : σ → α → Prop}
    (hstep : ∀ s a, I s → C s a → I (step s a)) :
    ∀ {s : σ} {as : List α}, I s → AllSteps step C s as → I (run step s as)
  | _, [], h, _ => h
  | s, a :: as, h, hc => by
    rw [run_cons]
    exact run_inv hstep (hstep s a h hc.1) hc.2

theorem AllSteps.of_mem {C : α → Prop} : ∀ {s : σ} {as : List α},
    (∀ a ∈ as, C a) → AllSteps step (fun _ a => C a) s as
  | _, [], _ => trivial
  | _, a :: _, h => ⟨h a List.mem_cons_self, AllSteps.of_mem fun b hb => h b (List.mem_cons_of_mem a hb)⟩

/-- The invariant rule where the condition is on the inputs alone. -/
theorem run_inv_of_mem {I : σ → Prop} {C : α → Prop} (hstep : ∀ s a, I s → C a → I (step s a))
    {s : σ} {as : List α} (h : I s) (hc : ∀ a ∈ as, C a) : I (run step s as) :=
  run_inv hstep h (AllSteps.of_mem hc)

end Run

/-! ### Steps that may not exist -/

section Partial

variable {σ α : Type*} (step : σ → α → Option σ)

/-- The state a run ends in, where each of its steps exists. -/
def runOption : σ → List α → Option σ
  | s, [] => some s
  | s, a :: as => (step s a).bind fun s' => runOption s' as

theorem runOption_append (s : σ) (as bs : List α) :
    runOption step s (as ++ bs) = (runOption step s as).bind fun s' => runOption step s' bs := by
  induction as generalizing s with
  | nil => rfl
  | cons a as ih =>
    show (step s a).bind _ = ((step s a).bind _).bind _
    rw [Option.bind_assoc]
    exact congrArg _ (funext fun s' => ih s')

def AllStepsOption (C : σ → α → Prop) : σ → List α → Prop
  | _, [] => True
  | s, a :: as => C s a ∧ ∀ s' ∈ step s a, AllStepsOption C s' as

def AllStepsOption.decidable {C : σ → α → Prop} [∀ s a, Decidable (C s a)] :
    ∀ (s : σ) (as : List α), Decidable (AllStepsOption step C s as)
  | _, [] => isTrue trivial
  | s, a :: as =>
    @instDecidableAnd _ _ _ <| match step s a with
      | none => isTrue fun _ h => by cases h
      | some s' => @decidable_of_iff _ (AllStepsOption step C s' as) (by simp) (AllStepsOption.decidable s' as)

instance {C : σ → α → Prop} [∀ s a, Decidable (C s a)] (s : σ) (as : List α) :
    Decidable (AllStepsOption step C s as) := AllStepsOption.decidable step s as

variable {step}

theorem allStepsOption_of_mem {C : α → Prop} : ∀ {s : σ} {as : List α},
    (∀ a ∈ as, C a) → AllStepsOption step (fun _ a => C a) s as
  | _, [], _ => trivial
  | _, a :: _, h => ⟨h a List.mem_cons_self, fun _ _ =>
      allStepsOption_of_mem fun b hb => h b (List.mem_cons_of_mem a hb)⟩

theorem AllStepsOption.mono {C D : σ → α → Prop} (h : ∀ s a, C s a → D s a) :
    ∀ {s : σ} {as : List α}, AllStepsOption step C s as → AllStepsOption step D s as
  | _, [], _ => trivial
  | s, a :: _, hc => ⟨h s a hc.1, fun s' hs' => AllStepsOption.mono h (hc.2 s' hs')⟩

/-- **The invariant rule** for runs whose steps may not exist. -/
theorem runOption_inv {I : σ → Prop} {C : σ → α → Prop}
    (hstep : ∀ s a s', I s → C s a → step s a = some s' → I s') :
    ∀ {s s' : σ} {as : List α}, I s → AllStepsOption step C s as →
      runOption step s as = some s' → I s'
  | _, _, [], h, _, heq => Option.some.inj heq ▸ h
  | s, s', a :: as, h, hc, heq => by
    obtain ⟨t, ht, hrun⟩ := Option.bind_eq_some_iff.mp heq
    exact runOption_inv hstep (hstep s a t h hc.1 ht) (hc.2 t ht) hrun

end Partial

end FluxRs.Lib
