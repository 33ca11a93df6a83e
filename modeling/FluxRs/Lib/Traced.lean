import Mathlib.Data.List.Basic

/-!
# FluxRs.Lib.Traced — computations that may stop and that log what they touch

The value is what the computation returns, if it does; the trace is kept either way.
-/

namespace FluxRs.Lib

structure Traced (ε α : Type) where
  value : Option α
  trace : List ε

namespace Traced

variable {ε α β : Type}

def done (a : α) : Traced ε α := ⟨some a, []⟩

/-- Stop here. -/
def stop : Traced ε α := ⟨none, []⟩

def bind (x : Traced ε α) (f : α → Traced ε β) : Traced ε β :=
  match x.value with
  | none => ⟨none, x.trace⟩
  | some a => ⟨(f a).value, x.trace ++ (f a).trace⟩

instance : Monad (Traced ε) where
  pure := done
  bind := bind

/-- `if (c) return -1;` -/
def reject (c : Prop) [Decidable c] : Traced ε Unit := if c then stop else done ()

/-- Log the events and go on with a value. -/
def log (events : List ε) (a : α) : Traced ε α := ⟨some a, events⟩

/-- Every event of the trace meets `P`. -/
def All (P : ε → Prop) (x : Traced ε α) : Prop := ∀ a ∈ x.trace, P a

/-! ### Values -/

@[simp] theorem value_pure (a : α) : (pure a : Traced ε α).value = some a := rfl

@[simp] theorem value_log (events : List ε) (a : α) : (log events a).value = some a := rfl

@[simp] theorem value_stop : (stop : Traced ε α).value = none := rfl

@[simp] theorem value_bind (x : Traced ε α) (f : α → Traced ε β) :
    (x >>= f).value = x.value.bind fun a => (f a).value := by
  show (bind x f).value = _
  unfold bind
  cases x.value with
  | none => rfl
  | some a => rfl

@[simp] theorem value_reject_bind (c : Prop) [Decidable c] (f : Unit → Traced ε β) :
    (reject c >>= f).value = if c then none else (f ()).value := by
  rw [value_bind]
  unfold reject
  by_cases h : c
  · rw [if_pos h, if_pos h]
    rfl
  · rw [if_neg h, if_neg h]
    rfl

/-! ### The rules of traces -/

variable {P Q : ε → Prop}

theorem All.mono {x : Traced ε α} (h : All P x) (hPQ : ∀ a, P a → Q a) : All Q x := fun a ha => hPQ a (h a ha)

theorem all_pure (a : α) : All P (pure a : Traced ε α) := List.forall_mem_nil P

theorem all_stop : All P (stop : Traced ε α) := List.forall_mem_nil P

theorem all_log {events : List ε} (h : ∀ a ∈ events, P a) (a : α) : All P (log events a) := h

theorem All.bind {x : Traced ε α} {f : α → Traced ε β} (hx : All P x)
    (hf : ∀ a, x.value = some a → All P (f a)) : All P (x >>= f) := by
  show All P (Traced.bind x f)
  unfold Traced.bind
  cases h : x.value with
  | none => exact hx
  | some a =>
    intro b hb
    rcases List.mem_append.mp hb with hb | hb
    · exact hx b hb
    · exact hf a h b hb

/-- What follows a check is under its condition. -/
theorem all_reject {c : Prop} [Decidable c] {f : Unit → Traced ε β} (hf : ¬ c → All P (f ())) :
    All P (reject c >>= f) := by
  by_cases h : c
  · have hstop : (reject c : Traced ε Unit) = stop := if_pos h
    rw [hstop]
    exact All.bind all_stop fun a ha => by cases ha
  · have hdone : (reject c : Traced ε Unit) = done () := if_neg h
    rw [hdone]
    exact All.bind (List.forall_mem_nil P) fun _ _ => hf h

theorem all_log_bind {events : List ε} {a : α} {f : α → Traced ε β} (h : ∀ e ∈ events, P e) (hf : All P (f a)) :
    All P (log events a >>= f) := by
  refine All.bind (all_log h a) fun b hb => ?_
  obtain rfl := Option.some.inj hb
  exact hf

end Traced

end FluxRs.Lib
