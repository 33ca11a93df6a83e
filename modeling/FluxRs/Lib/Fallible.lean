import Mathlib.Data.List.Basic

/-!
# FluxRs.Lib.Fallible — computations that keep what they did before they failed

A computation takes a state to a result and a state; an error ends it, and the state stays as it is then.
`Ends` speaks of both ends.
-/

namespace FluxRs.Lib

def Fallible (ε σ α : Type) := σ → Except ε α × σ

namespace Fallible

variable {ε σ α β : Type}

instance : Monad (Fallible ε σ) where
  pure a := fun s => (.ok a, s)
  bind x f := fun s =>
    match x s with
    | (.ok a, s') => f a s'
    | (.error e, s') => (.error e, s')

def fail (e : ε) : Fallible ε σ α := fun s => (.error e, s)

def read (f : σ → α) : Fallible ε σ α := fun s => (.ok (f s), s)

def update (f : σ → σ) : Fallible ε σ Unit := fun s => (.ok (), f s)

/-- `Q` of the value and the state, or `E` of the state where the computation failed. -/
def Ends (x : Fallible ε σ α) (s : σ) (Q : α → σ → Prop) (E : σ → Prop) : Prop :=
  match x s with
  | (.ok a, s') => Q a s'
  | (.error _, s') => E s'

variable {s : σ} {Q : α → σ → Prop} {R : β → σ → Prop} {E : σ → Prop}

theorem ends_pure {a : α} (h : Q a s) : Ends (pure a : Fallible ε σ α) s Q E := h

theorem ends_fail {e : ε} (h : E s) : Ends (fail e : Fallible ε σ α) s Q E := h

theorem ends_update {f : σ → σ} {Q : Unit → σ → Prop} (h : Q () (f s)) : Ends (update f : Fallible ε σ Unit) s Q E := h

theorem Ends.read {f : σ → α} {k : α → Fallible ε σ β} (h : Ends (k (f s)) s R E) :
    Ends (Fallible.read f >>= k) s R E := h

theorem Ends.update {f : σ → σ} {k : Unit → Fallible ε σ β} (h : Ends (k ()) (f s) R E) :
    Ends (Fallible.update f >>= k) s R E := h

theorem bind_apply (x : Fallible ε σ α) (f : α → Fallible ε σ β) (s : σ) :
    (x >>= f) s = match x s with
      | (.ok a, s') => f a s'
      | (.error e, s') => (.error e, s') := rfl

/-- The rule of sequences. -/
theorem Ends.bind {x : Fallible ε σ α} {f : α → Fallible ε σ β} (hx : Ends x s Q E)
    (hf : ∀ a s', Q a s' → Ends (f a) s' R E) : Ends (x >>= f) s R E := by
  unfold Ends at hx ⊢
  rw [bind_apply]
  cases hxs : x s with
  | mk out s' =>
    rw [hxs] at hx
    cases out with
    | error e => exact hx
    | ok a => exact hf a s' hx

theorem Ends.mono {x : Fallible ε σ α} {Q' : α → σ → Prop} {E' : σ → Prop} (h : Ends x s Q E)
    (hQ : ∀ a s', Q a s' → Q' a s') (hE : ∀ s', E s' → E' s') : Ends x s Q' E' := by
  unfold Ends at *
  cases hxs : x s with
  | mk out s' =>
    rw [hxs] at h
    cases out with
    | error e => exact hE s' h
    | ok a => exact hQ a s' h

/-- The two ends. -/
theorem Ends.elim {x : Fallible ε σ α} (h : Ends x s Q E) :
    (∃ a s', x s = (.ok a, s') ∧ Q a s') ∨ ∃ e s', x s = (.error e, s') ∧ E s' := by
  unfold Ends at h
  cases hxs : x s with
  | mk out s' =>
    rw [hxs] at h
    cases out with
    | error e => exact .inr ⟨e, s', rfl, h⟩
    | ok a => exact .inl ⟨a, s', rfl, h⟩

/-! ### Loops -/

/-- The results of a loop's body, put together. -/
def collect (f : α → Fallible ε σ (List β)) : List α → Fallible ε σ (List β)
  | [] => pure []
  | x :: xs => do
    let part ← f x
    let rest ← collect f xs
    pure (part ++ rest)

theorem bind_of_ok {x : Fallible ε σ α} {f : α → Fallible ε σ β} {s s' : σ} {a : α} (h : x s = (.ok a, s')) :
    (x >>= f) s = f a s' := by
  rw [bind_apply, h]

theorem collect_nil (f : α → Fallible ε σ (List β)) (s : σ) : collect f [] s = (.ok [], s) := rfl

theorem collect_cons_of_ok {f : α → Fallible ε σ (List β)} {x : α} {xs : List α} {s s' s'' : σ} {part rest : List β}
    (hx : f x s = (.ok part, s')) (hxs : collect f xs s' = (.ok rest, s'')) :
    collect f (x :: xs) s = (.ok (part ++ rest), s'') := by
  rw [collect, bind_of_ok hx, bind_of_ok hxs]
  rfl

/-- A loop run for its effect. -/
def each (f : α → Fallible ε σ Unit) : List α → Fallible ε σ Unit
  | [] => pure ()
  | x :: xs => do
    f x
    each f xs

/-- The rule of collecting loops: `P` relates an element to its part of the result. -/
theorem ends_collect {f : α → Fallible ε σ (List β)} {I : σ → Prop} {P : α → List β → Prop} :
    ∀ {xs : List α} {s : σ}, I s →
      (∀ x ∈ xs, ∀ s, I s → Ends (f x) s (fun part s' => I s' ∧ P x part) E) →
      Ends (collect f xs) s
        (fun out s' => I s' ∧ (∀ x ∈ xs, ∃ part, P x part) ∧ ∀ o ∈ out, ∃ x ∈ xs, ∃ part, P x part ∧ o ∈ part) E
  | [], _, hs, _ => ends_pure ⟨hs, fun x hx => absurd hx List.not_mem_nil, fun o ho => absurd ho List.not_mem_nil⟩
  | x :: xs, _, hs, h => by
    rw [collect]
    refine Ends.bind (h x List.mem_cons_self _ hs) fun part s₁ hpart => ?_
    have hrest := ends_collect hpart.1 fun y hy => h y (List.mem_cons_of_mem x hy)
    refine Ends.bind hrest fun rest s₂ hout => ?_
    obtain ⟨hs₂, hall, hfrom⟩ := hout
    refine ends_pure ⟨hs₂, ?_, ?_⟩
    · exact List.forall_mem_cons.mpr ⟨⟨part, hpart.2⟩, hall⟩
    · intro o ho
      rcases List.mem_append.mp ho with ho | ho
      · exact ⟨x, List.mem_cons_self, part, hpart.2, ho⟩
      · obtain ⟨y, hy, hP⟩ := hfrom o ho
        exact ⟨y, List.mem_cons_of_mem x hy, hP⟩

/-- The rule of loops run for their effect. -/
theorem ends_each {f : α → Fallible ε σ Unit} {I : σ → Prop} :
    ∀ {xs : List α} {s : σ}, I s → (∀ x ∈ xs, ∀ s, I s → Ends (f x) s (fun _ s' => I s') E) →
      Ends (each f xs) s (fun _ s' => I s') E
  | [], _, hs, _ => ends_pure hs
  | x :: _, _, hs, h => by
    rw [each]
    exact Ends.bind (h x List.mem_cons_self _ hs) fun _ _ hs₁ =>
      ends_each hs₁ fun y hy => h y (List.mem_cons_of_mem x hy)

end Fallible

end FluxRs.Lib
