import Mathlib.Data.List.GetD
import Mathlib.Data.List.Induction
import Mathlib.Data.List.TakeWhile
import FluxRs.Lib.BinSearch

/-!
# FluxRs.Lib.Lpm — longest-prefix match: the meaning, the linear scan and the bucketed table

An entry has a prefix length, a network and a tag; an address `a` lies in it when masking `a` to that
length gives the network.  `IsLongest` states what a longest-prefix match returns.  Two programs
compute it: `scan`, one pass that keeps the longest hit, and `lpm`, a binary search in each length
bucket of a table sorted by (length, network), longest bucket first.  Addresses, networks and tags
are arbitrary; only networks are ordered.
-/

namespace FluxRs.Lib

structure Entry (N T : Type*) where
  len : ℕ
  net : N
  tag : T
  deriving DecidableEq, Inhabited

section Meaning

variable {A N T : Type*} (mask : ℕ → A → N)

/-- `a` lies in the prefix of `e`. -/
def Entry.Covers (e : Entry N T) (a : A) : Prop := mask e.len a = e.net

/-- `t` is the tag of a longest entry covering `a`, or `none` when no entry covers it. -/
def IsLongest (es : List (Entry N T)) (a : A) : Option T → Prop
  | none => ∀ e ∈ es, ¬ e.Covers mask a
  | some t => ∃ e ∈ es, e.Covers mask a ∧ e.tag = t ∧ ∀ e' ∈ es, e'.Covers mask a → e'.len ≤ e.len

/-- No two entries share length and network. -/
def DistinctKeys (es : List (Entry N T)) : Prop :=
  ∀ e ∈ es, ∀ e' ∈ es, e.len = e'.len → e.net = e'.net → e = e'

variable {mask}

/-- Covering entries of one length have one network, so distinct keys leave one candidate. -/
theorem IsLongest.unique {es : List (Entry N T)} {a : A} {t t' : Option T} (hd : DistinctKeys es)
    (h : IsLongest mask es a t) (h' : IsLongest mask es a t') : t = t' := by
  cases t with
  | none =>
    cases t' with
    | none => rfl
    | some t' =>
      obtain ⟨e, he, hc, -⟩ := h'
      exact absurd hc (h e he)
  | some t =>
    obtain ⟨e, he, hc, ht, hmax⟩ := h
    cases t' with
    | none => exact absurd hc (h' e he)
    | some t' =>
      obtain ⟨e', he', hc', ht', hmax'⟩ := h'
      have hlen : e.len = e'.len := le_antisymm (hmax' e he hc) (hmax e' he' hc')
      have hnet : e.net = e'.net := by
        rw [← show mask e.len a = e.net from hc, ← show mask e'.len a = e'.net from hc', hlen]
      rw [← ht, ← ht', hd e he e' he' hlen hnet]

theorem IsLongest.of_perm {es es' : List (Entry N T)} {a : A} {t : Option T}
    (h : IsLongest mask es a t) (hp : es.Perm es') : IsLongest mask es' a t := by
  cases t with
  | none => exact fun e he => h e (hp.mem_iff.mpr he)
  | some t =>
    obtain ⟨e, he, hc, ht, hmax⟩ := h
    exact ⟨e, hp.mem_iff.mp he, hc, ht, fun e' he' => hmax e' (hp.mem_iff.mpr he')⟩

/-- Renaming networks injectively and tags at will carries the match over. -/
theorem IsLongest.map {A' N' T' : Type*} {mask' : ℕ → A' → N'} {es : List (Entry N T)} {a : A}
    {a' : A'} {t : Option T} {g : N → N'} (τ : T → T') (hg : Function.Injective g)
    (hm : ∀ e ∈ es, mask' e.len a' = g (mask e.len a)) (h : IsLongest mask es a t) :
    IsLongest mask' (es.map fun e => ⟨e.len, g e.net, τ e.tag⟩) a' (t.map τ) := by
  have hcov : ∀ e ∈ es, Entry.Covers mask' (⟨e.len, g e.net, τ e.tag⟩ : Entry N' T') a' ↔
      e.Covers mask a := fun e he => by
    unfold Entry.Covers
    rw [hm e he]
    exact hg.eq_iff
  cases t with
  | none =>
    intro e' he' hc
    obtain ⟨e, he, rfl⟩ := List.mem_map.mp he'
    exact h e he ((hcov e he).mp hc)
  | some t =>
    obtain ⟨e, he, hc, ht, hmax⟩ := h
    refine ⟨_, List.mem_map_of_mem he, (hcov e he).mpr hc, congrArg τ ht, fun e' he' hc' => ?_⟩
    obtain ⟨e₁, he₁, rfl⟩ := List.mem_map.mp he'
    exact hmax e₁ he₁ ((hcov e₁ he₁).mp hc')

end Meaning

section Scan

variable {A N T : Type*} [DecidableEq N] (mask : ℕ → A → N)

/-- One step of the linear scan: a covering entry replaces a strictly shorter best. -/
def scanStep (a : A) (best : Option (ℕ × T)) (e : Entry N T) : Option (ℕ × T) :=
  if mask e.len a = e.net ∧ (best.all fun b => b.1 < e.len) = true then some (e.len, e.tag) else best

def scan (es : List (Entry N T)) (a : A) : Option T :=
  (es.foldl (scanStep mask a) none).map Prod.snd

variable {mask}

/-- What the fold knows after the entries `es`. -/
def BestOf (mask : ℕ → A → N) (es : List (Entry N T)) (a : A) : Option (ℕ × T) → Prop
  | none => ∀ e ∈ es, ¬ e.Covers mask a
  | some b => ∃ e ∈ es, e.Covers mask a ∧ (e.len, e.tag) = b ∧
      ∀ e' ∈ es, e'.Covers mask a → e'.len ≤ e.len

theorem scanStep_bestOf {es : List (Entry N T)} {a : A} {best : Option (ℕ × T)} (e : Entry N T)
    (h : BestOf mask es a best) : BestOf mask (es ++ [e]) a (scanStep mask a best e) := by
  unfold scanStep
  by_cases hc : e.Covers mask a
  · cases best with
    | none =>
      rw [if_pos ⟨hc, rfl⟩]
      refine ⟨e, by simp, hc, rfl, fun e' he' hc' => ?_⟩
      rcases List.mem_append.mp he' with h' | h'
      · exact absurd hc' (h e' h')
      · simp at h'; subst h'; exact le_rfl
    | some b =>
      obtain ⟨e₀, he₀, hc₀, rfl, hmax⟩ := h
      by_cases hlt : e₀.len < e.len
      · rw [if_pos ⟨hc, by simpa using hlt⟩]
        refine ⟨e, by simp, hc, rfl, fun e' he' hc' => ?_⟩
        rcases List.mem_append.mp he' with h' | h'
        · exact (hmax e' h' hc').trans hlt.le
        · simp at h'; subst h'; exact le_rfl
      · rw [if_neg (fun hh => hlt (by simpa using hh.2))]
        refine ⟨e₀, List.mem_append_left _ he₀, hc₀, rfl, fun e' he' hc' => ?_⟩
        rcases List.mem_append.mp he' with h' | h'
        · exact hmax e' h' hc'
        · simp at h'; subst h'; omega
  · rw [if_neg (fun hh => hc hh.1)]
    cases best with
    | none =>
      intro e' he'
      rcases List.mem_append.mp he' with h' | h'
      · exact h e' h'
      · simp at h'; subst h'; exact hc
    | some b =>
      obtain ⟨e₀, he₀, hc₀, hb, hmax⟩ := h
      refine ⟨e₀, List.mem_append_left _ he₀, hc₀, hb, fun e' he' hc' => ?_⟩
      rcases List.mem_append.mp he' with h' | h'
      · exact hmax e' h' hc'
      · simp at h'; subst h'; exact absurd hc' hc

theorem foldl_bestOf (es : List (Entry N T)) (a : A) :
    BestOf mask es a (es.foldl (scanStep mask a) none) := by
  induction es using List.reverseRecOn with
  | nil => simp [BestOf]
  | append_singleton es e ih =>
    rw [List.foldl_append]
    exact scanStep_bestOf e ih

/-- **The linear scan computes the longest match.** -/
theorem scan_isLongest (es : List (Entry N T)) (a : A) : IsLongest mask es a (scan mask es a) := by
  have h : BestOf mask es a (es.foldl (scanStep mask a) none) := foldl_bestOf es a
  unfold scan
  cases hb : es.foldl (scanStep mask a) none with
  | none => rw [hb] at h; exact h
  | some b =>
    rw [hb] at h
    obtain ⟨e, he, hc, rfl, hmax⟩ := h
    exact ⟨e, he, hc, rfl, hmax⟩

end Scan

/-! ### The offsets cut a table sorted by length into its length buckets -/

section Offsets

variable {N T : Type*}

/-- `for plen in ps { off[plen] = i; while (es[i].len == plen) i++ }`, `rest` being `es` from `i`. -/
def fillFrom (rest : List (Entry N T)) (i : ℕ) : List ℕ → List ℕ
  | [] => []
  | p :: ps =>
    i :: fillFrom (rest.dropWhile (fun e => e.len == p))
      (i + (rest.takeWhile (fun e => e.len == p)).length) ps

/-- The offset table of the lengths `0..=W`, closed by the number of entries. -/
def fillOff (W : ℕ) (es : List (Entry N T)) : List ℕ :=
  fillFrom es 0 (List.range' 0 (W + 1)) ++ [es.length]

theorem lt_length_takeWhile_iff {α : Type*} {f : α → ℕ} {p : ℕ} : ∀ {l : List α} {i : ℕ},
    l.Pairwise (fun a b => f a ≤ f b) →
      (i < (l.takeWhile (fun a => decide (f a < p))).length ↔ ∃ h : i < l.length, f l[i] < p)
  | [], i, _ => by simp
  | x :: xs, i, h => by
    obtain ⟨h1, h2⟩ := List.pairwise_cons.mp h
    by_cases hx : f x < p
    · rw [List.takeWhile_cons_of_pos (by simpa using hx)]
      cases i with
      | zero => simp [hx]
      | succ i =>
        simp only [List.length_cons, Nat.add_lt_add_iff_right, List.getElem_cons_succ]
        exact lt_length_takeWhile_iff h2
    · rw [List.takeWhile_cons_of_neg (by simpa using hx)]
      simp only [List.length_nil, Nat.not_lt_zero, false_iff]
      rintro ⟨hi, hlt⟩
      cases i with
      | zero => exact hx hlt
      | succ i => exact hx (lt_of_le_of_lt (h1 _ (List.getElem_mem _)) hlt)

/-- How many entries of a list sorted by length are shorter than `p`. -/
def below (es : List (Entry N T)) (p : ℕ) : ℕ :=
  (es.takeWhile (fun e => decide (e.len < p))).length

theorem takeWhile_lt_succ {p : ℕ} : ∀ {l : List (Entry N T)},
    l.Pairwise (fun a b => a.len ≤ b.len) →
      (l.takeWhile (fun e => decide (e.len < p + 1))).length =
        (l.takeWhile (fun e => decide (e.len < p))).length +
          ((l.dropWhile (fun e => decide (e.len < p))).takeWhile (fun e => e.len == p)).length ∧
      l.dropWhile (fun e => decide (e.len < p + 1)) =
        (l.dropWhile (fun e => decide (e.len < p))).dropWhile (fun e => e.len == p)
  | [], _ => by simp
  | x :: xs, h => by
    obtain ⟨h1, h2⟩ := List.pairwise_cons.mp h
    have ih := takeWhile_lt_succ (p := p) h2
    rcases Nat.lt_trichotomy x.len p with hx | hx | hx
    · have hx' : x.len < p + 1 := by omega
      simp only [List.takeWhile_cons, List.dropWhile_cons, hx, hx', decide_true, if_true,
        List.length_cons]
      exact ⟨by omega, ih.2⟩
    · -- the run of entries of length `p` starts here, so nothing after `x` is shorter
      have h0 : xs.takeWhile (fun e => decide (e.len < p)) = [] := by
        cases xs with
        | nil => rfl
        | cons y ys =>
          have hy := h1 y (by simp)
          rw [List.takeWhile_cons_of_neg (by simp; omega)]
      have h0' : xs.dropWhile (fun e => decide (e.len < p)) = xs := by
        have := List.takeWhile_append_dropWhile (p := fun e => decide (e.len < p)) (l := xs)
        rwa [h0, List.nil_append] at this
      rw [h0, h0'] at ih
      have t1 : (x :: xs).takeWhile (fun e => decide (e.len < p)) = [] :=
        List.takeWhile_cons_of_neg (by simp [hx])
      have d1 : (x :: xs).dropWhile (fun e => decide (e.len < p)) = x :: xs :=
        List.dropWhile_cons_of_neg (by simp [hx])
      rw [t1, d1, List.takeWhile_cons_of_pos (by simp [hx]), List.dropWhile_cons_of_pos (by simp [hx]),
        List.takeWhile_cons_of_pos (by simp [hx]), List.dropWhile_cons_of_pos (by simp [hx])]
      simp only [List.length_cons, List.length_nil] at ih ⊢
      exact ⟨by omega, ih.2⟩
    · have t0 : (x :: xs).takeWhile (fun e => decide (e.len < p + 1)) = [] :=
        List.takeWhile_cons_of_neg (by simp; omega)
      have d0 : (x :: xs).dropWhile (fun e => decide (e.len < p + 1)) = x :: xs :=
        List.dropWhile_cons_of_neg (by simp; omega)
      have t1 : (x :: xs).takeWhile (fun e => decide (e.len < p)) = [] :=
        List.takeWhile_cons_of_neg (by simp; omega)
      have d1 : (x :: xs).dropWhile (fun e => decide (e.len < p)) = x :: xs :=
        List.dropWhile_cons_of_neg (by simp; omega)
      rw [t0, d0, t1, d1, List.takeWhile_cons_of_neg (by simp; omega),
        List.dropWhile_cons_of_neg (by simp; omega)]
      exact ⟨rfl, rfl⟩

theorem fillFrom_getD {es : List (Entry N T)} (hs : es.Pairwise (fun a b => a.len ≤ b.len)) :
    ∀ (n p k : ℕ), k < n →
      (fillFrom (es.dropWhile (fun e => decide (e.len < p))) (below es p)
        (List.range' p n)).getD k 0 = below es (p + k)
  | 0, _, _, hk => by omega
  | n + 1, p, k, hk => by
    rw [List.range'_succ, fillFrom]
    cases k with
    | zero => simp
    | succ k =>
      obtain ⟨h1, h2⟩ := takeWhile_lt_succ (p := p) hs
      have ih := fillFrom_getD hs n (p + 1) k (by omega)
      unfold below at ih ⊢
      rw [h1, h2] at ih
      simp only [List.getD_cons_succ]
      rw [ih, show p + 1 + k = p + (k + 1) by omega]

theorem fillFrom_length (ps : List ℕ) : ∀ (rest : List (Entry N T)) (i : ℕ),
    (fillFrom rest i ps).length = ps.length := by
  induction ps with
  | nil => intro _ _; rfl
  | cons p ps ih => intro rest i; simp [fillFrom, ih]

/-- Every offset is the number of strictly shorter entries. -/
theorem fillOff_getD {es : List (Entry N T)} (hs : es.Pairwise (fun a b => a.len ≤ b.len)) {W : ℕ}
    (hW : ∀ e ∈ es, e.len ≤ W) {p : ℕ} (hp : p ≤ W + 1) : (fillOff W es).getD p 0 = below es p := by
  have hlen : (fillFrom es 0 (List.range' 0 (W + 1))).length = W + 1 := by
    rw [fillFrom_length, List.length_range']
  have hzero : es.dropWhile (fun e => decide (e.len < 0)) = es := by
    cases es with
    | nil => rfl
    | cons x xs => rw [List.dropWhile_cons_of_neg (by simp)]
  have hb0 : below es 0 = 0 := by
    cases es with
    | nil => rfl
    | cons x xs => simp [below]
  unfold fillOff
  rcases Nat.lt_or_ge p (W + 1) with h | h
  · rw [List.getD_append _ _ _ _ (by omega)]
    have := fillFrom_getD hs (W + 1) 0 p h
    rwa [hzero, hb0, Nat.zero_add] at this
  · have hpW : p = W + 1 := by omega
    subst hpW
    rw [List.getD_append_right _ _ _ _ (by omega), hlen, Nat.sub_self]
    have hall : es.takeWhile (fun e => decide (e.len < W + 1)) = es :=
      List.takeWhile_eq_self_iff.mpr fun e he => by have := hW e he; simp; omega
    unfold below
    rw [hall]
    rfl

end Offsets

section Table

variable {A N T : Type*} [LinearOrder N]

/-- The order of the table: by length, then by network. -/
def TableLt (e e' : Entry N T) : Prop := e.len < e'.len ∨ e.len = e'.len ∧ e.net < e'.net

theorem TableLt.pairwise_len {es : List (Entry N T)} (hs : es.Pairwise TableLt) :
    es.Pairwise (fun a b => a.len ≤ b.len) :=
  hs.imp fun h => by rcases h with h | h <;> omega

/-- Slot `i` is in the bucket of length `p` exactly when its entry has length `p`. -/
theorem mem_bucket_iff {es : List (Entry N T)} (hs : es.Pairwise TableLt) {p i : ℕ} :
    (below es p ≤ i ∧ i < below es (p + 1)) ↔ ∃ h : i < es.length, es[i].len = p := by
  have hl := TableLt.pairwise_len hs
  have h1 := lt_length_takeWhile_iff (f := Entry.len) (p := p) (i := i) hl
  have h2 := lt_length_takeWhile_iff (f := Entry.len) (p := p + 1) (i := i) hl
  unfold below
  constructor
  · rintro ⟨ha, hb⟩
    obtain ⟨hi, hlt⟩ := h2.mp hb
    refine ⟨hi, ?_⟩
    by_contra hne
    have : i < (es.takeWhile (fun e => decide (e.len < p))).length := h1.mpr ⟨hi, by omega⟩
    omega
  · rintro ⟨hi, heq⟩
    refine ⟨?_, h2.mpr ⟨hi, by omega⟩⟩
    by_contra hc
    obtain ⟨_, hlt⟩ := h1.mp (by omega)
    omega

variable [Inhabited (Entry N T)] (mask : ℕ → A → N)

/-- The bucket loop: the argument counts the lengths still to try, longest first. -/
def lpmFrom (es : List (Entry N T)) (off : List ℕ) (a : A) : ℕ → Option T
  | 0 => none
  | p + 1 =>
    let lo := off.getD p 0
    let hi := off.getD (p + 1) 0
    if lo = hi then lpmFrom es off a p
    else match bsearch (fun i => (es.getD i default).net) (mask p a) (hi - lo) lo hi with
      | some i => some (es.getD i default).tag
      | none => lpmFrom es off a p

def lpm (W : ℕ) (es : List (Entry N T)) (off : List ℕ) (a : A) : Option T :=
  lpmFrom mask es off a (W + 1)

theorem bucket_strictOn {es : List (Entry N T)} (hs : es.Pairwise TableLt) (p : ℕ) :
    StrictOn (fun i => (es.getD i default).net) (below es p) (below es (p + 1)) := by
  intro i j hi hij hj
  obtain ⟨hil, hip⟩ := (mem_bucket_iff hs).mp ⟨hi, by omega⟩
  obtain ⟨hjl, hjp⟩ := (mem_bucket_iff hs).mp ⟨by omega, hj⟩
  have hlt := List.pairwise_iff_getElem.mp hs i j hil hjl hij
  simp only [List.getD_eq_getElem _ _ hil, List.getD_eq_getElem _ _ hjl]
  rcases hlt with h | h
  · omega
  · exact h.2

/-- One bucket: the search succeeds exactly when an entry of that length covers the address. -/
theorem bucket_search {es : List (Entry N T)} (hs : es.Pairwise TableLt) {a : A} {p i : ℕ} :
    bsearch (fun i => (es.getD i default).net) (mask p a) (below es (p + 1) - below es p)
        (below es p) (below es (p + 1)) = some i ↔
      ∃ h : i < es.length, es[i].len = p ∧ es[i].Covers mask a := by
  rw [bsearch_eq_some_iff (bucket_strictOn hs p) le_rfl]
  constructor
  · rintro ⟨h1, h2, h3⟩
    obtain ⟨hi, hp⟩ := (mem_bucket_iff hs).mp ⟨h1, h2⟩
    rw [List.getD_eq_getElem _ _ hi] at h3
    refine ⟨hi, hp, ?_⟩
    rw [Entry.Covers, hp]
    exact h3.symm
  · rintro ⟨hi, hp, hc⟩
    obtain ⟨h1, h2⟩ := (mem_bucket_iff hs).mpr ⟨hi, hp⟩
    refine ⟨h1, h2, ?_⟩
    rw [List.getD_eq_getElem _ _ hi, ← hp]
    exact hc.symm

variable {mask}

/-- After the buckets from `p` up missed, the loop returns the longest match below `p`. -/
theorem lpmFrom_isLongest {es : List (Entry N T)} (hs : es.Pairwise TableLt) {W : ℕ}
    (hW : ∀ e ∈ es, e.len ≤ W) {a : A} : ∀ (p : ℕ), p ≤ W + 1 →
      (∀ e ∈ es, e.Covers mask a → e.len < p) →
      IsLongest mask es a (lpmFrom mask es (fillOff W es) a p)
  | 0, _, hlong => fun e he hc => by have := hlong e he hc; omega
  | p + 1, hp, hlong => by
    have hl := TableLt.pairwise_len hs
    unfold lpmFrom
    simp only [fillOff_getD hl hW (show p ≤ W + 1 by omega), fillOff_getD hl hW hp]
    have hmiss : (∀ e ∈ es, e.Covers mask a → e.len ≠ p) →
        IsLongest mask es a (lpmFrom mask es (fillOff W es) a p) := fun h =>
      lpmFrom_isLongest hs hW p (by omega) fun e he hc => by
        have h1 := hlong e he hc
        have h2 := h e he hc
        omega
    by_cases hempty : below es p = below es (p + 1)
    · rw [if_pos hempty]
      refine hmiss fun e he _ hep => ?_
      obtain ⟨i, hi, rfl⟩ := List.getElem_of_mem he
      have := (mem_bucket_iff hs).mpr ⟨hi, hep⟩
      omega
    · rw [if_neg hempty]
      cases hb : bsearch (fun i => (es.getD i default).net) (mask p a)
          (below es (p + 1) - below es p) (below es p) (below es (p + 1)) with
      | none =>
        refine hmiss fun e he hc hep => ?_
        obtain ⟨i, hi, rfl⟩ := List.getElem_of_mem he
        have := (bucket_search mask hs).mpr ⟨hi, hep, hc⟩
        rw [hb] at this
        exact absurd this (by simp)
      | some i =>
        obtain ⟨hi, hep, hc⟩ := (bucket_search mask hs).mp hb
        refine ⟨es[i], List.getElem_mem hi, hc, ?_, fun e' he' hc' => ?_⟩
        · simp [hi]
        · have := hlong e' he' hc'
          omega

/-- **The bucketed table computes the longest match.** -/
theorem lpm_isLongest {es : List (Entry N T)} (hs : es.Pairwise TableLt) {W : ℕ}
    (hW : ∀ e ∈ es, e.len ≤ W) (a : A) : IsLongest mask es a (lpm mask W es (fillOff W es) a) :=
  lpmFrom_isLongest hs hW (W + 1) le_rfl fun e he _ => Nat.lt_succ_of_le (hW e he)

end Table

end FluxRs.Lib
