import Mathlib.Data.List.Basic
import Mathlib.Data.List.TakeWhile

/-!
# FluxRs.Lib.Rewrite — one pass over a text that rewrites what a rule recognises

A cursor is a place in a text: the symbol before it and the text from it on.  A rule looks at the cursor and
either replaces a stretch of the text or leaves its first symbol; `Rule.scan` repeats this to the end of the text.
-/

namespace FluxRs.Lib.Rewrite

variable {α : Type}

/-- A place in a text. -/
@[ext]
structure Cursor (α : Type) where
  prev : Option α
  rest : List α
deriving DecidableEq

namespace Cursor

/-- Pass the symbols that satisfy `p`. -/
def skipFrom (p : α → Bool) : Option α → List α → Cursor α
  | prev, [] => ⟨prev, []⟩
  | prev, a :: as => if p a then skipFrom p (some a) as else ⟨prev, a :: as⟩

def skip (p : α → Bool) (c : Cursor α) : Cursor α := skipFrom p c.prev c.rest

/-- The symbols that `skip` passes. -/
def read (p : α → Bool) (c : Cursor α) : List α := c.rest.takeWhile p

/-- The text goes on with `r`. -/
def append (c : Cursor α) (r : List α) : Cursor α := ⟨c.prev, c.rest ++ r⟩

/-- The place `n` symbols on. -/
def advance (n : ℕ) (c : Cursor α) : Cursor α := ⟨(c.rest.take n).getLast?.or c.prev, c.rest.drop n⟩

/-- The last symbol of the text, or the one before it. -/
def last (c : Cursor α) : Option α := c.rest.getLast?.or c.prev

variable {p : α → Bool} {c : Cursor α} {prev : Option α} {l r : List α}

@[simp] theorem append_mk : (⟨prev, l⟩ : Cursor α).append r = ⟨prev, l ++ r⟩ := rfl

@[simp] theorem append_nil : c.append [] = c := by
  rw [append, List.append_nil]

@[simp] theorem last_nil : (⟨prev, []⟩ : Cursor α).last = prev := rfl

@[simp] theorem last_cons {a : α} : (⟨prev, a :: l⟩ : Cursor α).last = (⟨some a, l⟩ : Cursor α).last := by
  rw [last, last, List.getLast?_cons]
  cases l.getLast? <;> rfl

@[simp] theorem skip_nil : (⟨prev, []⟩ : Cursor α).skip p = ⟨prev, []⟩ := rfl

theorem skip_cons_of_pos {a : α} (h : p a = true) : (⟨prev, a :: l⟩ : Cursor α).skip p = skip p ⟨some a, l⟩ :=
  if_pos h

theorem skip_cons_of_neg {a : α} (h : p a = false) : (⟨prev, a :: l⟩ : Cursor α).skip p = ⟨prev, a :: l⟩ :=
  if_neg (by rw [h]; exact Bool.false_ne_true)

@[simp] theorem skip_rest (p : α → Bool) (c : Cursor α) : (c.skip p).rest = c.rest.dropWhile p := by
  obtain ⟨prev, l⟩ := c
  induction l generalizing prev with
  | nil => rfl
  | cons a as ih =>
    cases h : p a with
    | true => rw [skip_cons_of_pos h, ih, List.dropWhile_cons_of_pos h]
    | false => rw [skip_cons_of_neg h, List.dropWhile_cons_of_neg (by simp [h])]

theorem skip_le (p : α → Bool) (c : Cursor α) : (c.skip p).rest.length ≤ c.rest.length := by
  rw [skip_rest]
  exact (List.dropWhile_sublist p).length_le

/-- What is passed is the same where the text ends and where it goes on. -/
theorem skip_append (p : α → Bool) (c : Cursor α) (r : List α) : (c.append r).skip p = ((c.skip p).append r).skip p := by
  obtain ⟨prev, l⟩ := c
  induction l generalizing prev with
  | nil => rfl
  | cons a as ih =>
    cases h : p a with
    | true => rw [append_mk, List.cons_append, skip_cons_of_pos h, skip_cons_of_pos h, ← append_mk, ih]
    | false => rw [skip_cons_of_neg h]

/-- A symbol that is not passed stops the pass before the text goes on. -/
theorem skip_append_of_ne (h : (c.skip p).rest ≠ []) (r : List α) : (c.append r).skip p = (c.skip p).append r := by
  obtain ⟨prev, l⟩ := c
  induction l generalizing prev with
  | nil => exact absurd rfl h
  | cons a as ih =>
    cases ha : p a with
    | true =>
      rw [skip_cons_of_pos ha] at h ⊢
      rw [append_mk, List.cons_append, skip_cons_of_pos ha]
      exact ih _ h
    | false => rw [append_mk, List.cons_append, skip_cons_of_neg ha, skip_cons_of_neg ha, append_mk, List.cons_append]

theorem skip_of_all (h : ∀ a ∈ l, p a = true) : (⟨prev, l⟩ : Cursor α).skip p = ⟨(⟨prev, l⟩ : Cursor α).last, []⟩ := by
  induction l generalizing prev with
  | nil => rfl
  | cons a as ih =>
    rw [skip_cons_of_pos (h a List.mem_cons_self), ih fun b hb => h b (List.mem_cons_of_mem a hb), last_cons]

theorem skip_append_of_all (h : ∀ a ∈ l, p a = true) :
    (⟨prev, l ++ r⟩ : Cursor α).skip p = skip p ⟨(⟨prev, l⟩ : Cursor α).last, r⟩ := by
  rw [← append_mk, skip_append, skip_of_all h, append_mk, List.nil_append]

/-- Where everything is passed, the last symbol is the one before the cursor. -/
theorem last_skip (p : α → Bool) (c : Cursor α) : (c.skip p).last = c.last := by
  obtain ⟨prev, l⟩ := c
  induction l generalizing prev with
  | nil => rfl
  | cons a as ih =>
    cases h : p a with
    | true => rw [skip_cons_of_pos h, ih, last_cons]
    | false => rw [skip_cons_of_neg h]

/-- The last symbol is the same from a place further on. -/
theorem last_advance (n : ℕ) (c : Cursor α) : (c.advance n).last = c.last := by
  rw [last, last, advance]
  conv_rhs => rw [← List.take_append_drop n c.rest]
  rw [List.getLast?_append, Option.or_assoc]

theorem advance_append {n : ℕ} (h : n ≤ c.rest.length) (r : List α) : (c.append r).advance n = (c.advance n).append r := by
  rw [advance, append, advance, append, List.take_append_of_le_length h, List.drop_append_of_le_length h]

theorem advance_length (l r : List α) : (⟨prev, l ++ r⟩ : Cursor α).advance l.length = ⟨(⟨prev, l⟩ : Cursor α).last, r⟩ := by
  rw [advance, List.take_left, List.drop_left]
  rfl

theorem read_append_of_ne (h : (c.skip p).rest ≠ []) (r : List α) : (c.append r).read p = c.read p := by
  rw [skip_rest] at h
  rw [read, append, List.takeWhile_append, read, if_neg]
  intro hlength
  have hwhole := List.takeWhile_append_dropWhile (p := p) (l := c.rest)
  rw [(List.takeWhile_prefix p).eq_of_length hlength, List.append_right_eq_self] at hwhole
  exact h hwhole

theorem skip_stop (h : ∀ a, l.head? = some a → p a = false) : (⟨prev, l⟩ : Cursor α).skip p = ⟨prev, l⟩ := by
  cases l with
  | nil => rfl
  | cons a as => exact skip_cons_of_neg (h a rfl)

/-- Where everything is passed and the text goes on with a symbol that is not, the pass stops at it. -/
theorem skip_append_stop (h : (c.skip p).rest = []) (hr : ∀ a, r.head? = some a → p a = false) :
    (c.append r).skip p = ⟨c.last, r⟩ := by
  have hlast := last_skip p c
  cases hskip : c.skip p with
  | mk before rest =>
    rw [hskip] at h hlast
    subst h
    rw [skip_append, hskip, append_mk, List.nil_append, skip_stop hr, ← hlast, last_nil]

theorem read_append_stop (hr : ∀ a, r.head? = some a → p a = false) : (c.append r).read p = c.read p := by
  rw [read, append, List.takeWhile_append, read]
  split
  · rename_i hlength
    have hnil : r.takeWhile p = [] := by
      cases r with
      | nil => rfl
      | cons a as => exact List.takeWhile_cons_of_neg (by rw [hr a rfl]; exact Bool.false_ne_true)
    rw [hnil, List.append_nil, (List.takeWhile_prefix p).eq_of_length hlength]
  · rfl

/-- Where a text is all passed its last symbol is one that is passed. -/
theorem last_of_skip_nil (h : (c.skip p).rest = []) (hne : c.rest ≠ []) : ∃ a, c.last = some a ∧ p a = true := by
  have hwhole := List.takeWhile_append_dropWhile (p := p) (l := c.rest)
  rw [← skip_rest, h, List.append_nil] at hwhole
  refine ⟨c.rest.getLast hne, ?_, ?_⟩
  · rw [last, List.getLast?_eq_some_getLast hne]
    rfl
  · have hall : ∀ a ∈ c.rest, p a = true := by
      intro a ha
      rw [← hwhole] at ha
      exact List.mem_takeWhile_imp ha
    exact hall _ (List.getLast_mem hne)

theorem skip_suffix (p : α → Bool) (c : Cursor α) : (c.skip p).rest <:+ c.rest := by
  rw [skip_rest]
  exact List.dropWhile_suffix p

/-- The second place is further on in the text of the first. -/
def Reaches (c d : Cursor α) : Prop := d.rest <:+ c.rest ∧ d.last = c.last

theorem Reaches.trans {c d e : Cursor α} (h : c.Reaches d) (h' : d.Reaches e) : c.Reaches e :=
  ⟨h'.1.trans h.1, h'.2.trans h.2⟩

theorem reaches_skip (p : α → Bool) (c : Cursor α) : c.Reaches (c.skip p) := ⟨skip_suffix p c, last_skip p c⟩

theorem reaches_advance (n : ℕ) (c : Cursor α) : c.Reaches (c.advance n) := ⟨List.drop_suffix n c.rest, last_advance n c⟩

theorem reaches_cons {a : α} : (⟨prev, a :: l⟩ : Cursor α).Reaches ⟨some a, l⟩ := ⟨List.suffix_cons a l, last_cons.symm⟩

/-- The place between two parts of a text. -/
def behind (pre rest : List α) : Cursor α := ⟨pre.getLast?, rest⟩

@[simp] theorem behind_rest (pre rest : List α) : (behind pre rest).rest = rest := rfl

theorem behind_cons (pre : List α) (a : α) (as : List α) : (⟨some a, as⟩ : Cursor α) = behind (pre ++ [a]) as := by
  rw [behind, List.getLast?_concat]

theorem behind_last (pre rest : List α) : (⟨pre.getLast?, rest⟩ : Cursor α).last = (pre ++ rest).getLast? :=
  List.getLast?_append.symm

theorem behind_skip (p : α → Bool) (pre rest : List α) :
    (behind pre rest).skip p = behind (pre ++ rest.takeWhile p) (rest.dropWhile p) := by
  have hall : ∀ a ∈ rest.takeWhile p, p a = true := fun a ha => List.mem_takeWhile_imp ha
  have hstop : ∀ a, (rest.dropWhile p).head? = some a → p a = false := by
    intro a ha
    have hnot := List.head?_dropWhile_not p rest
    rw [ha] at hnot
    simpa using hnot
  conv_lhs => rw [← List.takeWhile_append_dropWhile (p := p) (l := rest)]
  rw [behind, skip_append_of_all hall, skip_stop hstop, behind_last, behind]

theorem behind_advance (pre mid rest : List α) :
    (behind pre (mid ++ rest)).advance mid.length = behind (pre ++ mid) rest := by
  rw [behind, advance_length, behind_last, behind]

theorem advance_succ {prev : Option α} {a : α} {as : List α} (n : ℕ) :
    (⟨prev, a :: as⟩ : Cursor α).advance (n + 1) = (⟨some a, as⟩ : Cursor α).advance n := by
  rw [advance, advance, List.take_succ_cons, List.drop_succ_cons, List.getLast?_cons]
  cases (as.take n).getLast? <;> rfl

end Cursor

/-- What a rule does at a place: nothing, or a replacement and the place after what it replaced. -/
structure Rule (α : Type) where
  rewrite : Cursor α → Option (List α × Cursor α)
  progress : ∀ {c out next}, rewrite c = some (out, next) → next.rest.length < c.rest.length

namespace Rule

variable (rule : Rule α)

/-- The rule at every place of the text; what it leaves is copied. -/
def scan (c : Cursor α) : List α :=
  match _h : rule.rewrite c with
  | some (out, next) => out ++ scan next
  | none =>
    match _hc : c.rest with
    | [] => []
    | a :: as => a :: scan ⟨some a, as⟩
termination_by c.rest.length
decreasing_by
  · exact rule.progress _h
  · rw [_hc]
    exact Nat.lt_succ_self _

variable {rule}
variable {c next : Cursor α} {out : List α}

theorem scan_of_some (h : rule.rewrite c = some (out, next)) : rule.scan c = out ++ rule.scan next := by
  rw [scan]
  split
  · rename_i h'
    rw [h] at h'
    cases h'
    rfl
  · rename_i h'
    rw [h] at h'
    cases h'

theorem scan_nil (prev : Option α) : rule.scan ⟨prev, []⟩ = [] := by
  cases h : rule.rewrite ⟨prev, []⟩ with
  | some r => exact absurd (rule.progress h) (Nat.not_lt_zero _)
  | none =>
    rw [scan]
    split
    · rename_i h'
      rw [h] at h'
      cases h'
    · rfl

theorem scan_of_none {prev : Option α} {a : α} {as : List α} (h : rule.rewrite ⟨prev, a :: as⟩ = none) :
    rule.scan ⟨prev, a :: as⟩ = a :: rule.scan ⟨some a, as⟩ := by
  rw [scan]
  split
  · rename_i h'
    rw [h] at h'
    cases h'
  · rfl

/-- **What holds at the end of a text and passes from the place after a step to the place before it holds
everywhere.** -/
theorem scan_induction (rule : Rule α) {motive : Cursor α → Prop} (nil : ∀ prev, motive ⟨prev, []⟩)
    (copy : ∀ prev a as, rule.rewrite ⟨prev, a :: as⟩ = none → motive ⟨some a, as⟩ → motive ⟨prev, a :: as⟩)
    (replace : ∀ c out next, rule.rewrite c = some (out, next) → motive next → motive c) (c : Cursor α) : motive c := by
  induction hn : c.rest.length using Nat.strongRecOn generalizing c with
  | _ n ih =>
    subst hn
    cases h : rule.rewrite c with
    | some r => exact replace c r.1 r.2 h (ih _ (rule.progress h) r.2 rfl)
    | none =>
      obtain ⟨prev, _ | ⟨a, as⟩⟩ := c
      · exact nil prev
      · exact copy prev a as h (ih _ (Nat.lt_succ_self _) ⟨some a, as⟩ rfl)

/-- A rule that keeps the number of a symbol in what it rewrites keeps it in the text. -/
theorem count_scan [DecidableEq α] {a : α} (h : ∀ place out next, rule.rewrite place = some (out, next) →
    ∃ consumed, place.rest = consumed ++ next.rest ∧ out.count a = consumed.count a) (c : Cursor α) :
    (rule.scan c).count a = c.rest.count a := by
  induction c using scan_induction rule with
  | nil prev => rw [scan_nil]
  | copy prev b as hnone ih => rw [scan_of_none hnone, List.count_cons, List.count_cons, ih]
  | replace c out next hsome ih =>
    obtain ⟨consumed, hrest, hcount⟩ := h c out next hsome
    rw [scan_of_some hsome, List.count_append, ih, hrest, List.count_append, hcount]

end Rule

end FluxRs.Lib.Rewrite
