import Mathlib.Data.List.Nodup
import FluxRs.Lib.Checked

/-!
# FluxRs.Lib.Keyed — one pass over entries with keys

A reader takes entry after entry into a record; before an entry whose key has come already the record is marked.
A record that ends unmarked has met every key once, and each of its fields says what the entry of its key says.
-/

namespace FluxRs.Lib

section Keyed

variable {ε α κ σ τ : Type} [DecidableEq κ]

/-- `seen` holds the keys so far. -/
def foldKeyed (key : α → κ) (read : α → σ → Except ε σ) (duplicate : σ → σ) : List κ → σ → List α → Except ε σ
  | _, s, [] => .ok s
  | seen, s, a :: rest => do
    let s ← read a (if key a ∈ seen then duplicate s else s)
    foldKeyed key read duplicate (key a :: seen) s rest

/-- How marks come: a record that is clean was clean before, and the entries that leave it clean are known. -/
structure Marking (read : α → σ → Except ε σ) (duplicate : σ → σ) (Clean : σ → Prop) (Known : α → Prop) : Prop where
  duplicate : ∀ s, ¬ Clean (duplicate s)
  back : ∀ a s t, read a s = .ok t → Clean t → Clean s ∧ Known a
  forth : ∀ a s, Known a → Clean s → ∃ t, read a s = .ok t ∧ Clean t

/-- A field that entries of one key set, and no other ones. -/
structure FieldOf (key : α → κ) (read : α → σ → Except ε σ) (duplicate : σ → σ) (k : κ) (field : σ → τ)
    (Sets : α → τ → τ → Prop) : Prop where
  duplicate : ∀ s, field (duplicate s) = field s
  own : ∀ a s t, key a = k → read a s = .ok t → Sets a (field s) (field t)
  other : ∀ a s t, key a ≠ k → read a s = .ok t → field t = field s

variable {key : α → κ} {read : α → σ → Except ε σ} {duplicate : σ → σ}

theorem foldKeyed_cons {seen : List κ} {s t : σ} {a : α} {rest : List α} :
    foldKeyed key read duplicate seen s (a :: rest) = .ok t ↔
      ∃ s', read a (if key a ∈ seen then duplicate s else s) = .ok s' ∧
        foldKeyed key read duplicate (key a :: seen) s' rest = .ok t := bind_ok

/-- **A pass that ends clean**: it began clean, no key came twice, and every entry is known. -/
theorem foldKeyed_clean {Clean : σ → Prop} {Known : α → Prop} (h : Marking read duplicate Clean Known) (out : List α) :
    ∀ (seen : List κ) (s : σ), (∃ t, foldKeyed key read duplicate seen s out = .ok t ∧ Clean t) ↔
      Clean s ∧ (out.map key).Nodup ∧ (∀ a ∈ out, key a ∉ seen) ∧ ∀ a ∈ out, Known a := by
  induction out with
  | nil =>
    intro seen s
    constructor
    · rintro ⟨t, ht, hclean⟩
      obtain rfl := Except.ok.inj ht
      exact ⟨hclean, List.nodup_nil, fun a ha => absurd ha List.not_mem_nil, fun a ha => absurd ha List.not_mem_nil⟩
    · exact fun hs => ⟨s, rfl, hs.1⟩
  | cons a rest ih =>
    intro seen s
    rw [List.map_cons, List.nodup_cons, List.forall_mem_cons, List.forall_mem_cons]
    constructor
    · rintro ⟨t, ht, hclean⟩
      obtain ⟨s', hs', hrest⟩ := foldKeyed_cons.mp ht
      obtain ⟨hclean', hnodup, hunseen, hknown⟩ := (ih _ s').mp ⟨t, hrest, hclean⟩
      obtain ⟨hbefore, ha⟩ := h.back _ _ _ hs' hclean'
      have hseen : key a ∉ seen := by
        intro hmem
        rw [if_pos hmem] at hbefore
        exact h.duplicate s hbefore
      rw [if_neg hseen] at hbefore
      refine ⟨hbefore, ⟨?_, hnodup⟩, ⟨hseen, ?_⟩, ha, hknown⟩
      · intro hmem
        obtain ⟨b, hb, hkey⟩ := List.mem_map.mp hmem
        exact hunseen b hb (hkey ▸ List.mem_cons_self)
      · exact fun b hb hmem => hunseen b hb (List.mem_cons_of_mem _ hmem)
    · rintro ⟨hs, ⟨hfresh, hnodup⟩, ⟨hseen, hunseen⟩, ha, hknown⟩
      obtain ⟨s', hs', hclean'⟩ := h.forth a s ha hs
      have hunseen' : ∀ b ∈ rest, key b ∉ key a :: seen := by
        intro b hb hmem
        rcases List.mem_cons.mp hmem with hkey | hmem
        · exact hfresh (List.mem_map.mpr ⟨b, hb, hkey⟩)
        · exact hunseen b hb hmem
      obtain ⟨t, ht, hclean⟩ := (ih (key a :: seen) s').mpr ⟨hclean', hnodup, hunseen', hknown⟩
      refine ⟨t, foldKeyed_cons.mpr ⟨s', ?_, ht⟩, hclean⟩
      rw [if_neg hseen, hs']

/-- What no entry changes stays. -/
theorem foldKeyed_stays {field : σ → τ} (hduplicate : ∀ s, field (duplicate s) = field s) {out : List α}
    (hread : ∀ a ∈ out, ∀ s t, read a s = .ok t → field t = field s) {seen : List κ} {s t : σ}
    (hout : foldKeyed key read duplicate seen s out = .ok t) : field t = field s := by
  induction out generalizing seen s with
  | nil =>
    obtain rfl := Except.ok.inj hout
    rfl
  | cons a rest ih =>
    obtain ⟨ha, hrest⟩ := List.forall_mem_cons.mp hread
    obtain ⟨s', hs', hout⟩ := foldKeyed_cons.mp hout
    rw [ih hrest hout, ha _ _ hs']
    split
    · exact hduplicate s
    · rfl

/-- A field whose key does not come stays. -/
theorem foldKeyed_absent {k : κ} {field : σ → τ} {Sets : α → τ → τ → Prop}
    (h : FieldOf key read duplicate k field Sets) {out : List α} {seen : List κ} {s t : σ}
    (hout : foldKeyed key read duplicate seen s out = .ok t) (habsent : ∀ a ∈ out, key a ≠ k) : field t = field s :=
  foldKeyed_stays h.duplicate (fun a ha s t => h.other a s t (habsent a ha)) hout

/-- **What a field says in the end**: what it said at first, or what the one entry of its key says. -/
theorem foldKeyed_field {k : κ} {field : σ → τ} {Sets : α → τ → τ → Prop}
    (h : FieldOf key read duplicate k field Sets) {out : List α} {seen : List κ} {s t : σ}
    (hout : foldKeyed key read duplicate seen s out = .ok t) (hnodup : (out.map key).Nodup) :
    ((∀ a ∈ out, key a ≠ k) ∧ field t = field s) ∨ ∃ a ∈ out, key a = k ∧ Sets a (field s) (field t) := by
  induction out generalizing seen s with
  | nil =>
    obtain rfl := Except.ok.inj hout
    exact Or.inl ⟨fun a ha => absurd ha List.not_mem_nil, rfl⟩
  | cons a rest ih =>
    rw [List.map_cons, List.nodup_cons] at hnodup
    obtain ⟨s', hs', hrest⟩ := foldKeyed_cons.mp hout
    have hmark : field (if key a ∈ seen then duplicate s else s) = field s := by
      split
      · exact h.duplicate s
      · rfl
    by_cases hkey : key a = k
    · have habsent : ∀ b ∈ rest, key b ≠ k := by
        intro b hb hbk
        exact hnodup.1 (List.mem_map.mpr ⟨b, hb, hbk.trans hkey.symm⟩)
      have hown := h.own _ _ _ hkey hs'
      rw [hmark, ← foldKeyed_absent h hrest habsent] at hown
      exact Or.inr ⟨a, List.mem_cons_self, hkey, hown⟩
    · have hother := (h.other _ _ _ hkey hs').trans hmark
      rcases ih hrest hnodup.2 with ⟨habsent, hfield⟩ | ⟨b, hb, hbk, hsets⟩
      · exact Or.inl ⟨List.forall_mem_cons.mpr ⟨hkey, habsent⟩, hfield.trans hother⟩
      · rw [hother] at hsets
        exact Or.inr ⟨b, List.mem_cons_of_mem _ hb, hbk, hsets⟩

/-! ### Fields that keep the value of their entry -/

variable {ν : Type} {value : α → ν} {Kept : α → Prop} {k : κ} {field : σ → Option ν}

/-- An entry that has come is what its field says. -/
theorem foldKeyed_says (h : FieldOf key read duplicate k field fun a _ v => Kept a → v = some (value a))
    {out : List α} {seen : List κ} {s t : σ} (hout : foldKeyed key read duplicate seen s out = .ok t)
    (hnodup : (out.map key).Nodup) {a : α} (ha : a ∈ out) (hkey : key a = k) (hkept : Kept a) :
    field t = some (value a) := by
  rcases foldKeyed_field h hout hnodup with ⟨habsent, -⟩ | ⟨b, hb, hbk, hsets⟩
  · exact absurd hkey (habsent a ha)
  · obtain rfl : b = a := List.inj_on_of_nodup_map hnodup hb ha (hbk.trans hkey.symm)
    exact hsets hkept

/-- A field that does not say what it said at first has its entry. -/
theorem foldKeyed_brings (h : FieldOf key read duplicate k field fun a _ v => Kept a → v = some (value a))
    {out : List α} (hkept : ∀ a ∈ out, key a = k → Kept a) {seen : List κ} {s t : σ}
    (hout : foldKeyed key read duplicate seen s out = .ok t) {v : ν} (hfirst : field s ≠ some v)
    (hlast : field t = some v) (hnodup : (out.map key).Nodup) : ∃ a ∈ out, key a = k ∧ value a = v := by
  rcases foldKeyed_field h hout hnodup with ⟨-, hstays⟩ | ⟨a, ha, hkey, hsets⟩
  · exact absurd (hstays.symm.trans hlast) hfirst
  · have hvalue := hsets (hkept a ha hkey)
    rw [hlast] at hvalue
    exact ⟨a, ha, hkey, (Option.some.inj hvalue).symm⟩

end Keyed

/-! ### Entries as pairs of a key and a value -/

section Pairs

variable {α κ ν : Type} {key : α → κ} {value : α → ν} {out : List α} {pairs : List (κ × ν)}

/-- Entries that bring every listed pair, and no other key, are the pairs in some order. -/
theorem perm_of_keyed (hnodup : (out.map key).Nodup) (hpairs : (pairs.map Prod.fst).Nodup)
    (hkeys : ∀ a ∈ out, key a ∈ pairs.map Prod.fst)
    (hall : ∀ pair ∈ pairs, ∃ a ∈ out, key a = pair.1 ∧ value a = pair.2) :
    (out.map fun a => (key a, value a)).Perm pairs := by
  have hfst : (out.map fun a => (key a, value a)).map Prod.fst = out.map key := by
    rw [List.map_map]
    rfl
  rw [List.perm_ext_iff_of_nodup (List.Nodup.of_map Prod.fst (hfst ▸ hnodup)) (List.Nodup.of_map Prod.fst hpairs)]
  rintro ⟨k, v⟩
  constructor
  · intro hmem
    obtain ⟨a, ha, heq⟩ := List.mem_map.mp hmem
    obtain ⟨rfl, rfl⟩ := Prod.mk.inj heq
    obtain ⟨pair, hpair, hkey⟩ := List.mem_map.mp (hkeys a ha)
    obtain ⟨b, hb, hbkey, hbvalue⟩ := hall pair hpair
    have hsame : b = a := List.inj_on_of_nodup_map hnodup hb ha (hbkey.trans hkey)
    rw [← hsame, hbkey, hbvalue]
    exact hpair
  · intro hmem
    obtain ⟨a, ha, hkey, hvalue⟩ := hall _ hmem
    exact List.mem_map.mpr ⟨a, ha, Prod.ext hkey hvalue⟩

theorem lookup_of_mem [DecidableEq κ] (hpairs : (pairs.map Prod.fst).Nodup) {k : κ} {v : ν} :
    pairs.lookup k = some v ↔ (k, v) ∈ pairs := by
  constructor
  · intro h
    obtain ⟨front, back, rfl, -⟩ := List.lookup_eq_some_iff.mp h
    exact List.mem_append_right _ List.mem_cons_self
  · intro h
    cases hlookup : pairs.lookup k with
    | none =>
      have hne := List.lookup_eq_none_iff.mp hlookup _ h
      exact absurd rfl (bne_iff_ne.mp hne)
    | some w =>
      obtain ⟨front, back, rfl, -⟩ := List.lookup_eq_some_iff.mp hlookup
      have hw : (k, w) ∈ front ++ (k, w) :: back := List.mem_append_right _ List.mem_cons_self
      exact congrArg (fun pair => some pair.2) (List.inj_on_of_nodup_map hpairs hw h rfl)

end Pairs

end FluxRs.Lib
