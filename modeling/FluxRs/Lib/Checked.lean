import Mathlib.Algebra.Group.Nat.Defs
import Mathlib.Data.List.Basic

/-!
# FluxRs.Lib.Checked — computations that can fail or panic

An index or a slice out of range, an overflow and a failed `unwrap` end a computation without a value, and
so does an error it returns; the two are told apart.
-/

namespace FluxRs.Lib

section Except

variable {ε σ τ : Type}

theorem bind_ok {x : Except ε σ} {f : σ → Except ε τ} {t : τ} :
    (x >>= f) = .ok t ↔ ∃ s, x = .ok s ∧ f s = .ok t := by
  cases x with
  | error e =>
    constructor
    · intro h
      cases h
    · rintro ⟨s, hs, -⟩
      cases hs
  | ok s =>
    constructor
    · exact fun h => ⟨s, rfl, h⟩
    · rintro ⟨s', hs, h⟩
      obtain rfl := Except.ok.inj hs
      exact h

theorem map_ok {x : Except ε σ} {f : σ → τ} {t : τ} :
    x.map f = .ok t ↔ ∃ s, x = .ok s ∧ f s = t := by
  cases x with
  | error e =>
    constructor
    · intro h
      cases h
    · rintro ⟨s, hs, -⟩
      cases hs
  | ok s =>
    constructor
    · exact fun h => ⟨s, rfl, Except.ok.inj h⟩
    · rintro ⟨s', hs, rfl⟩
      obtain rfl := Except.ok.inj hs
      rfl

end Except

/-- How a computation ends without a value. -/
inductive Fault (ε : Type) where
  | panicked
  | error (e : ε)
  deriving DecidableEq, Repr

abbrev Checked (ε : Type) := Except (Fault ε)

namespace Checked

variable {ε α β : Type}

/-- An error that is returned. -/
def fail (e : ε) : Checked ε α := .error (.error e)

/-- `&l[a..b]`. -/
def slice (l : List α) (a b : ℕ) : Checked ε (List α) :=
  if a ≤ b ∧ b ≤ l.length then .ok ((l.take b).drop a) else .error .panicked

/-- `l[i]`. -/
def index (l : List α) (i : ℕ) : Checked ε α :=
  match l[i]? with
  | some a => .ok a
  | none => .error .panicked

/-- A sum of `usize`. -/
def addUsize (a b : ℕ) : Checked ε ℕ := if a + b < 2 ^ 64 then .ok (a + b) else .error .panicked

/-- A product of `usize`. -/
def mulUsize (a b : ℕ) : Checked ε ℕ := if a * b < 2 ^ 64 then .ok (a * b) else .error .panicked

/-- `if !c { return Err(e) }`. -/
def ensure (c : Prop) [Decidable c] (e : ε) : Checked ε Unit := if c then .ok () else fail e

/-- `ok_or`. -/
def okOr (x : Option α) (e : ε) : Checked ε α :=
  match x with
  | some a => .ok a
  | none => fail e

/-- No step of the computation panics. -/
def Safe (x : Checked ε α) : Prop := x ≠ .error .panicked

theorem slice_eq {l : List α} {a b : ℕ} (h : a ≤ b) (hb : b ≤ l.length) :
    (slice l a b : Checked ε (List α)) = .ok ((l.take b).drop a) := if_pos ⟨h, hb⟩

theorem addUsize_eq {a b : ℕ} (h : a + b < 2 ^ 64) : (addUsize a b : Checked ε ℕ) = .ok (a + b) := if_pos h

theorem mulUsize_eq {a b : ℕ} (h : a * b < 2 ^ 64) : (mulUsize a b : Checked ε ℕ) = .ok (a * b) := if_pos h

theorem index_eq {l : List α} {i : ℕ} {a : α} (h : l[i]? = some a) : (index l i : Checked ε α) = .ok a := by
  rw [index, h]

theorem ensure_ok {c : Prop} [Decidable c] {e : ε} {u : Unit} : ensure c e = .ok u ↔ c := by
  unfold ensure
  by_cases h : c
  · rw [if_pos h]
    exact ⟨fun _ => h, fun _ => rfl⟩
  · rw [if_neg h]
    constructor
    · intro hok
      cases hok
    · exact fun hc => absurd hc h

theorem okOr_ok {x : Option α} {e : ε} {a : α} : okOr x e = .ok a ↔ x = some a := by
  cases x with
  | none =>
    constructor
    · intro h
      cases h
    · intro h
      cases h
  | some b => exact ⟨fun h => congrArg some (Except.ok.inj h), fun h => congrArg Except.ok (Option.some.inj h)⟩

theorem addUsize_ok {a b n : ℕ} : (addUsize a b : Checked ε ℕ) = .ok n ↔ a + b < 2 ^ 64 ∧ a + b = n := by
  unfold addUsize
  by_cases h : a + b < 2 ^ 64
  · rw [if_pos h]
    exact ⟨fun hn => ⟨h, Except.ok.inj hn⟩, fun hn => congrArg Except.ok hn.2⟩
  · rw [if_neg h]
    constructor
    · intro hn
      cases hn
    · exact fun hn => absurd hn.1 h

theorem index_ok {l : List α} {i : ℕ} {a : α} : (index l i : Checked ε α) = .ok a ↔ l[i]? = some a := by
  constructor
  · intro h
    cases hi : l[i]? with
    | none =>
      rw [index, hi] at h
      cases h
    | some b =>
      rw [index_eq hi] at h
      exact congrArg some (Except.ok.inj h)
  · exact index_eq

theorem slice_ok {l r : List α} {a b : ℕ} :
    (slice l a b : Checked ε (List α)) = .ok r ↔ (a ≤ b ∧ b ≤ l.length) ∧ (l.take b).drop a = r := by
  unfold slice
  by_cases h : a ≤ b ∧ b ≤ l.length
  · rw [if_pos h]
    exact ⟨fun hr => ⟨h, Except.ok.inj hr⟩, fun hr => congrArg Except.ok hr.2⟩
  · rw [if_neg h]
    constructor
    · intro hr
      cases hr
    · exact fun hr => absurd hr.1 h

theorem safe_ok (a : α) : Safe (.ok a : Checked ε α) := by
  intro h
  cases h

theorem safe_fail (e : ε) : Safe (fail e : Checked ε α) := by
  intro h
  cases h

theorem safe_slice {l : List α} {a b : ℕ} (h : a ≤ b) (hb : b ≤ l.length) :
    Safe (slice l a b : Checked ε (List α)) := by
  rw [slice_eq h hb]
  exact safe_ok _

theorem Safe.map {x : Checked ε α} {f : α → β} (h : Safe x) : Safe (x.map f) := by
  cases x with
  | error fault =>
    intro hf
    exact h (congrArg Except.error (Except.error.inj hf))
  | ok a => exact safe_ok (f a)

/-- The rule of sequences. -/
theorem Safe.bind {x : Checked ε α} {f : α → Checked ε β} (hx : Safe x)
    (hf : ∀ a, x = .ok a → Safe (f a)) : Safe (x >>= f) := by
  cases x with
  | error fault =>
    intro h
    exact hx (congrArg Except.error (Except.error.inj h))
  | ok a => exact hf a rfl

/-! ### No panic, with what is known of the value -/

/-- The computation does not panic, and what it returns has the property. -/
def Meets (x : Checked ε α) (P : α → Prop) : Prop := Safe x ∧ ∀ a, x = .ok a → P a

variable {P : α → Prop} {Q : β → Prop}

theorem meets_ok {a : α} (h : P a) : Meets (.ok a : Checked ε α) P := by
  refine ⟨safe_ok a, ?_⟩
  intro b hb
  obtain rfl := Except.ok.inj hb
  exact h

theorem meets_fail (e : ε) : Meets (fail e) P := by
  refine ⟨safe_fail e, ?_⟩
  intro b hb
  cases hb

theorem meets_ensure (c : Prop) [Decidable c] (e : ε) : Meets (ensure c e) fun _ => c := by
  unfold ensure
  by_cases h : c
  · rw [if_pos h]
    exact meets_ok h
  · rw [if_neg h]
    exact meets_fail e

theorem meets_okOr (x : Option α) (e : ε) : Meets (okOr x e) fun a => x = some a := by
  cases x with
  | none => exact meets_fail e
  | some a => exact meets_ok rfl

theorem meets_index {l : List α} {i : ℕ} (h : i < l.length) :
    Meets (index l i : Checked ε α) fun a => l[i]? = some a := by
  rw [index_eq (List.getElem?_eq_getElem h)]
  exact meets_ok (List.getElem?_eq_getElem h)

theorem meets_slice {l : List α} {a b : ℕ} (h : a ≤ b) (hb : b ≤ l.length) :
    Meets (slice l a b : Checked ε (List α)) fun r => r = (l.take b).drop a := by
  rw [slice_eq h hb]
  exact meets_ok rfl

theorem meets_addUsize {a b : ℕ} (h : a + b < 2 ^ 64) : Meets (addUsize a b : Checked ε ℕ) fun n => n = a + b := by
  rw [addUsize_eq h]
  exact meets_ok rfl

theorem meets_mulUsize {a b : ℕ} (h : a * b < 2 ^ 64) : Meets (mulUsize a b : Checked ε ℕ) fun n => n = a * b := by
  rw [mulUsize_eq h]
  exact meets_ok rfl

/-- The rule of sequences. -/
theorem Meets.bind {x : Checked ε α} {f : α → Checked ε β} (hx : Meets x P) (hf : ∀ a, P a → Meets (f a) Q) :
    Meets (x >>= f) Q := by
  refine ⟨Safe.bind hx.1 fun a ha => (hf a (hx.2 a ha)).1, ?_⟩
  intro b hb
  obtain ⟨a, ha, hb⟩ := bind_ok.mp hb
  exact (hf a (hx.2 a ha)).2 b hb

/-- A check, and what follows under its condition. -/
theorem Meets.ensure {c : Prop} [Decidable c] {e : ε} {f : Unit → Checked ε β} (hf : c → Meets (f ()) Q) :
    Meets (Checked.ensure c e >>= f) Q :=
  Meets.bind (meets_ensure c e) fun _ hc => hf hc

theorem Meets.mono {x : Checked ε α} {P' : α → Prop} (hx : Meets x P) (h : ∀ a, P a → P' a) : Meets x P' :=
  ⟨hx.1, fun a ha => h a (hx.2 a ha)⟩

/-- The rule of loops that collect. -/
theorem Meets.mapM {γ : Type} {l : List γ} {f : γ → Checked ε α} (hf : ∀ c ∈ l, Meets (f c) P) :
    Meets (l.mapM f) fun r => ∀ a ∈ r, P a := by
  induction l with
  | nil =>
    rw [List.mapM_nil]
    exact meets_ok fun a ha => absurd ha List.not_mem_nil
  | cons c l ih =>
    obtain ⟨hc, hl⟩ := List.forall_mem_cons.mp hf
    rw [List.mapM_cons]
    refine Meets.bind hc fun a ha => Meets.bind (ih hl) fun r hr => meets_ok ?_
    exact List.forall_mem_cons.mpr ⟨ha, hr⟩

end Checked

end FluxRs.Lib
