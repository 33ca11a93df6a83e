import FluxRs.Logging.Logger

/-!
# FluxRs.Logging.Rotation — rotation keeps the order and overwrites nothing

The indices are taken from the largest down, so the name above an index is free when its file moves there; a
failure leaves a gap, and the next rotation finds the files that are there.
-/

namespace FluxRs.Logging

open FluxRs.Lib Fallible

/-! ### Names and lines -/

section Older

variable {f g : ℕ → List Line}

theorem older_congr {n : ℕ} (h : ∀ i, 1 ≤ i → i ≤ n → g i = f i) : older g n = older f n := by
  induction n with
  | zero => rfl
  | succ n ih =>
    rw [older, older, h (n + 1) (by omega) le_rfl, ih fun i h1 hi => h i h1 (by omega)]

theorem older_sublist (h : ∀ i, (g i).Sublist (f i)) (n : ℕ) : (older g n).Sublist (older f n) := by
  induction n with
  | zero => exact List.Sublist.refl _
  | succ n ih => exact (h (n + 1)).append ih

/-- Nothing lies beyond the largest index. -/
theorem older_beyond {m n : ℕ} (h : ∀ i, m < i → f i = []) (hmn : m ≤ n) : older f n = older f m := by
  induction n with
  | zero =>
    obtain rfl : m = 0 := by omega
    rfl
  | succ n ih =>
    rcases Nat.lt_or_eq_of_le hmn with hlt | rfl
    · rw [older, h (n + 1) hlt, List.nil_append, ih (by omega)]
    · rfl

section Move

variable {i : ℕ} (hfree : f (i + 1) = []) (hmoved : g (i + 1) = f i) (hleft : g i = [])
  (hother : ∀ j, j ≠ i → j ≠ i + 1 → g j = f j)

include hfree hmoved hleft hother

/-- A file moves up by one to a free name. -/
theorem older_move {n : ℕ} (hi : 1 ≤ i) (hn : i + 1 ≤ n) : older g n = older f n := by
  induction n with
  | zero => omega
  | succ n ih =>
    rcases Nat.lt_or_eq_of_le hn with hlt | heq
    · rw [older, older, hother (n + 1) (by omega) (by omega), ih (by omega)]
    · obtain rfl : n = i := by omega
      obtain ⟨m, rfl⟩ := Nat.exists_eq_succ_of_ne_zero (Nat.ne_of_gt hi)
      have hbelow : older g m = older f m := older_congr fun j _ hj => hother j (by omega) (by omega)
      show g (m + 1 + 1) ++ (g (m + 1) ++ older g m) = f (m + 1 + 1) ++ (f (m + 1) ++ older f m)
      rw [hmoved, hleft, hfree, hbelow, List.nil_append, List.nil_append]

theorem older_move_sublist (hi : 1 ≤ i) (n : ℕ) : (older g n).Sublist (older f n) := by
  rcases Nat.lt_or_ge i n with hlt | hge
  · rw [older_move hfree hmoved hleft hother hi hlt]
  · have hsub : ∀ j, j ≤ n → (g j).Sublist (f j) := by
      intro j hj
      by_cases hji : j = i
      · rw [hji, hleft]
        exact List.nil_sublist _
      · rw [hother j hji (by omega)]
    clear hge
    induction n with
    | zero => exact List.Sublist.refl _
    | succ n ih => exact (hsub (n + 1) le_rfl).append (ih fun j hj => hsub j (by omega))

end Move

/-- The first name was free and is taken. -/
theorem older_first {c : List Line} (hfree : f 1 = []) (htaken : g 1 = c) (hother : ∀ j, j ≠ 1 → g j = f j) {n : ℕ}
    (hn : 1 ≤ n) : older g n = older f n ++ c := by
  induction n with
  | zero => omega
  | succ n ih =>
    cases n with
    | zero =>
      show g 1 ++ [] = f 1 ++ [] ++ c
      rw [htaken, hfree, List.append_nil, List.append_nil, List.nil_append]
    | succ n => rw [older, hother (n + 2) (by omega), ih (by omega), ← List.append_assoc, ← older]

end Older

theorem getElem?_erase' (t : Std.TreeMap ℕ Contents) (i j : ℕ) :
    (t.erase i)[j]? = if i = j then none else t[j]? := by
  rw [Std.TreeMap.getElem?_erase]
  simp only [Nat.compare_eq_eq]

theorem getElem?_insert' (t : Std.TreeMap ℕ Contents) (i j : ℕ) (c : Contents) :
    (t.insert i c)[j]? = if i = j then some c else t[j]? := by
  rw [Std.TreeMap.getElem?_insert]
  simp only [Nat.compare_eq_eq]

/-! ### The order -/

/-- What every call keeps, whatever fails. -/
structure Ordered (s : World) : Prop where
  untouched : s.overwritten = []
  positive : ∀ i, i ∈ s.rotated → 1 ≤ i
  sublist : ∀ n, (s.contents n).Sublist s.appended

/-- The indices that are left: every other file has moved out of their way. -/
structure Rest (is : List ℕ) (s : World) : Prop where
  descending : is.Pairwise (· > ·)
  apart : ∀ k, k ∈ s.rotated → k ∈ is ∨ 1 < k ∧ ∀ i ∈ is, i + 1 < k

section Steps

variable {works : ℕ → Bool} {s : World} {E : World → Prop}

/-- A call and what follows it, or its failure. -/
theorem ends_attempt {α : Type} {f : Unit → Io α} {Q : α → World → Prop}
    (hf : works s.calls = true → Ends (f ()) { s with calls := s.calls + 1 } Q E)
    (hE : works s.calls = false → E { s with calls := s.calls + 1 }) : Ends (attempt works >>= f) s Q E := by
  unfold Ends at *
  rw [bind_apply]
  unfold attempt
  by_cases h : works s.calls = true
  · rw [if_pos h]
    exact hf h
  · rw [if_neg h]
    exact hE (Bool.eq_false_iff.mpr h)

theorem lines_erase (s : World) (i j : ℕ) :
    ({ s with rotated := s.rotated.erase i } : World).lines j = if i = j then [] else s.lines j := by
  unfold World.lines
  rw [getElem?_erase']
  by_cases h : i = j
  · rw [if_pos h, if_pos h]
    rfl
  · rw [if_neg h, if_neg h]

theorem lines_insert (s : World) (i j : ℕ) (c : Contents) :
    (insertRotated i c s).lines j = if i = j then c else s.lines j := by
  show ((s.rotated.insert i c)[j]?).getD [] = _
  rw [getElem?_insert']
  by_cases h : i = j
  · rw [if_pos h, if_pos h]
    rfl
  · rw [if_neg h, if_neg h]
    rfl

theorem lines_of_not_mem {i : ℕ} (h : i ∉ s.rotated) : s.lines i = [] := by
  unfold World.lines
  rw [Std.TreeMap.getElem?_eq_none h]
  rfl

/-- A file is gone. -/
theorem Ordered.erase (h : Ordered s) (i : ℕ) : Ordered { s with rotated := s.rotated.erase i } where
  untouched := h.untouched
  positive j hj := h.positive j (Std.TreeMap.mem_of_mem_erase hj)
  sublist n := by
    refine ((older_sublist ?_ n).append (List.Sublist.refl _)).trans (h.sublist n)
    intro j
    rw [lines_erase]
    by_cases hij : i = j
    · rw [if_pos hij]
      exact List.nil_sublist _
    · rw [if_neg hij]

/-- A file moves up to a name that is free. -/
theorem Ordered.move (h : Ordered s) {i : ℕ} {c : Contents} (hc : s.rotated[i]? = some c) (hfree : i + 1 ∉ s.rotated) :
    Ordered (insertRotated (i + 1) c { s with rotated := s.rotated.erase i }) := by
  have hi : 1 ≤ i := h.positive i (Std.TreeMap.mem_iff_isSome_getElem?.mpr (by rw [hc]; rfl))
  have hfree' : ¬ (s.rotated.erase i).contains (i + 1) = true := fun hmem =>
    hfree (Std.TreeMap.mem_of_mem_erase (Std.TreeMap.mem_iff_contains.mpr hmem))
  refine ⟨?_, ?_, ?_⟩
  · show (if (s.rotated.erase i).contains (i + 1) then _ else _) = _
    rw [if_neg hfree']
    exact h.untouched
  · intro j hj
    rcases Std.TreeMap.mem_insert.mp hj with heq | hmem
    · have hji : i + 1 = j := Nat.compare_eq_eq.mp heq
      omega
    · exact h.positive j (Std.TreeMap.mem_of_mem_erase hmem)
  · intro n
    refine ((older_move_sublist (i := i) (lines_of_not_mem hfree) ?_ ?_ ?_ hi n).append (List.Sublist.refl _)).trans
      (h.sublist n)
    · rw [lines_insert, if_pos rfl, World.lines, hc]
      rfl
    · rw [lines_insert, if_neg (by omega), lines_erase, if_pos rfl]
    · intro j hj hj'
      rw [lines_insert, if_neg (Ne.symm hj'), lines_erase, if_neg (Ne.symm hj)]

/-- What a call of the file system leaves alone. -/
theorem Ordered.called (h : Ordered s) : Ordered { s with calls := s.calls + 1 } :=
  ⟨h.untouched, h.positive, h.sublist⟩

theorem rest_erase {i : ℕ} {is : List ℕ} (h : Rest (i :: is) s) : Rest is { s with rotated := s.rotated.erase i } := by
  obtain ⟨-, hdesc⟩ := List.pairwise_cons.mp h.descending
  refine ⟨hdesc, ?_⟩
  intro k hk
  obtain ⟨hne, hk⟩ := Std.TreeMap.mem_erase.mp hk
  rcases h.apart k hk with hmem | ⟨h1, hapart⟩
  · rcases List.mem_cons.mp hmem with rfl | hmem
    · exact absurd (Nat.compare_eq_eq.mpr rfl) hne
    · exact .inl hmem
  · exact .inr ⟨h1, fun j hj => hapart j (List.mem_cons_of_mem i hj)⟩

theorem Rest.free {i : ℕ} {is : List ℕ} (h : Rest (i :: is) s) : i + 1 ∉ s.rotated := by
  intro hmem
  rcases h.apart (i + 1) hmem with hin | ⟨-, hapart⟩
  · rcases List.mem_cons.mp hin with heq | hin
    · omega
    · have hgt := (List.pairwise_cons.mp h.descending).1 (i + 1) hin
      omega
  · exact absurd (hapart i List.mem_cons_self) (lt_irrefl _)

theorem rest_move {i : ℕ} {is : List ℕ} {c : Contents} (h : Rest (i :: is) s) (hi : 1 ≤ i) :
    Rest is (insertRotated (i + 1) c { s with rotated := s.rotated.erase i }) := by
  obtain ⟨hgt, -⟩ := List.pairwise_cons.mp h.descending
  obtain ⟨hdesc, hapart⟩ := rest_erase h
  refine ⟨hdesc, ?_⟩
  intro k hk
  rcases Std.TreeMap.mem_insert.mp hk with heq | hmem
  · have hki : i + 1 = k := Nat.compare_eq_eq.mp heq
    refine .inr ⟨by omega, ?_⟩
    intro j hj
    have hlt := hgt j hj
    omega
  · exact hapart k hmem

theorem ends_removeRotated (h : Ordered s) (i : ℕ) :
    Ends (removeRotated works i) s (fun _ s' => Ordered s' ∧ s'.rotated = s.rotated.erase i) Ordered := by
  refine ends_attempt (fun _ => Ends.read ?_) fun _ => h.called
  cases hmem : s.rotated.contains i with
  | false => exact ends_fail h.called
  | true => exact ends_update ⟨h.called.erase i, rfl⟩

theorem ends_renameRotated (h : Ordered s) {i : ℕ} (hfree : i + 1 ∉ s.rotated) :
    Ends (renameRotated works i (i + 1)) s (fun _ s' => Ordered s' ∧ 1 ≤ i ∧
      ∃ c, s'.rotated = (s.rotated.erase i).insert (i + 1) c) Ordered := by
  refine ends_attempt (fun _ => Ends.read ?_) fun _ => h.called
  cases hc : s.rotated[i]? with
  | none => exact ends_fail h.called
  | some c =>
    have hi : 1 ≤ i := h.positive i (Std.TreeMap.mem_iff_isSome_getElem?.mpr (by rw [hc]; rfl))
    exact ends_update ⟨h.called.move hc hfree, hi, c, rfl⟩

theorem rest_congr {s' : World} {is : List ℕ} (h : Rest is s) (hs : s'.rotated = s.rotated) : Rest is s' :=
  ⟨h.descending, hs ▸ h.apart⟩

theorem ends_shiftOne (h : Ordered s) {retain i : ℕ} {is : List ℕ} (hrest : Rest (i :: is) s) :
    Ends (shiftOne works retain i) s (fun _ s' => Ordered s' ∧ Rest is s') Ordered := by
  unfold shiftOne
  by_cases hretain : retain ≤ i
  · rw [if_pos hretain]
    refine Ends.mono (ends_removeRotated h i) ?_ fun _ hs => hs
    rintro _ s' ⟨hs', hrot⟩
    exact ⟨hs', rest_congr (rest_erase hrest) hrot⟩
  · rw [if_neg hretain]
    refine Ends.mono (ends_renameRotated h hrest.free) ?_ fun _ hs => hs
    rintro _ s' ⟨hs', hi, c, hrot⟩
    exact ⟨hs', rest_congr (rest_move (c := c) hrest hi) hrot⟩

theorem ends_shift (h : Ordered s) (retain : ℕ) {is : List ℕ} (hrest : Rest is s) :
    Ends (shift works retain is) s (fun _ s' => Ordered s' ∧ Rest [] s') Ordered := by
  induction is generalizing s with
  | nil => exact ends_pure ⟨h, hrest⟩
  | cons i is ih =>
    refine Ends.bind (ends_shiftOne h hrest) ?_
    rintro _ s' ⟨hs', hrest'⟩
    exact ih hs' hrest'

theorem ends_listing (h : Ordered s) (is : List ℕ) :
    Ends (listing works is) s (fun _ s' => Ordered s' ∧ s'.rotated = s.rotated) Ordered := by
  induction is generalizing s with
  | nil => exact ends_pure ⟨h, rfl⟩
  | cons i is ih =>
    refine ends_attempt (fun _ => ends_attempt (fun _ => ?_) fun _ => h.called.called) fun _ => h.called
    exact ih h.called.called

/-- The current file takes the first name. -/
theorem contents_close {c : Contents} (hc : s.current = some c) (hfree : 1 ∉ s.rotated) {n : ℕ} (hn : 1 ≤ n) :
    (insertRotated 1 c { s with current := none }).contents n = s.contents n := by
  have hfirst := older_first (g := (insertRotated 1 c { s with current := none }).lines) (f := s.lines) (c := c)
    (lines_of_not_mem hfree) ((lines_insert _ 1 1 c).trans (if_pos rfl))
    (fun j hj => (lines_insert _ 1 j c).trans (if_neg (Ne.symm hj))) hn
  show older _ n ++ [] = older s.lines n ++ s.current.getD []
  rw [List.append_nil, hfirst, hc, Option.getD_some]

theorem Ordered.close (h : Ordered s) {c : Contents} (hc : s.current = some c) (hfree : 1 ∉ s.rotated) :
    Ordered (insertRotated 1 c { s with current := none }) := by
  refine ⟨?_, ?_, ?_⟩
  · show (if s.rotated.contains 1 then _ else _) = _
    rw [if_neg fun hmem => hfree (Std.TreeMap.mem_iff_contains.mpr hmem)]
    exact h.untouched
  · intro j hj
    rcases Std.TreeMap.mem_insert.mp hj with heq | hmem
    · exact (Nat.compare_eq_eq.mp heq).le
    · exact h.positive j hmem
  · intro n
    rcases Nat.eq_zero_or_pos n with rfl | hn
    · exact List.nil_sublist _
    · rw [contents_close hc hfree hn]
      exact h.sublist n

theorem Ordered.drop (h : Ordered s) : Ordered { s with current := none } where
  untouched := h.untouched
  positive := h.positive
  sublist n := ((List.Sublist.refl _).append (List.nil_sublist _)).trans (h.sublist n)

theorem ends_closeCurrent (h : Ordered s) (hfree : 1 ∉ s.rotated) (retain : ℕ) :
    Ends (closeCurrent works retain) s (fun _ => Ordered) Ordered := by
  unfold closeCurrent
  by_cases hretain : retain = 0
  · rw [if_pos hretain]
    refine ends_attempt (fun _ => Ends.read ?_) fun _ => h.called
    cases hc : s.current with
    | none =>
      refine ends_fail ?_
      rw [← hc]
      exact h.called
    | some c => exact ends_update h.called.drop
  · rw [if_neg hretain]
    refine ends_attempt (fun _ => Ends.read ?_) fun _ => h.called
    cases hc : s.current with
    | none =>
      refine ends_fail ?_
      rw [← hc]
      exact h.called
    | some c => exact ends_update (h.called.close hc hfree)

theorem ends_reopen (h : Ordered s) :
    Ends (reopen works) s (fun _ s' => Ordered s' ∧ s'.appended = s.appended) Ordered := by
  -- A file that is created is empty.
  have hcreated : Ordered { s with calls := s.calls + 1, current := some (s.current.getD []) } :=
    ⟨h.untouched, h.positive, h.sublist⟩
  refine ends_attempt (fun _ => Ends.update ?_) fun _ => h.called
  refine ends_attempt (fun _ => ends_update ⟨?_, rfl⟩) fun _ => hcreated.called
  exact ⟨hcreated.untouched, hcreated.positive, hcreated.sublist⟩

/-- The sorted listing of a directory. -/
theorem sorted_keys (t : Std.TreeMap ℕ Contents) :
    (t.keys.mergeSort fun a b => decide (b ≤ a)).Pairwise (· > ·) ∧
      ∀ i, i ∈ t.keys.mergeSort (fun a b => decide (b ≤ a)) ↔ i ∈ t := by
  have hperm := List.mergeSort_perm t.keys fun a b => decide (b ≤ a)
  have hsorted : (t.keys.mergeSort fun a b => decide (b ≤ a)).Pairwise fun a b => decide (b ≤ a) := by
    refine List.pairwise_mergeSort ?_ ?_ _
    · intro a b c hab hbc
      simp only [decide_eq_true_eq] at *
      omega
    · intro a b
      simp only [Bool.or_eq_true, decide_eq_true_eq]
      omega
  have hnodup : (t.keys.mergeSort fun a b => decide (b ≤ a)).Nodup := by
    rw [hperm.nodup_iff]
    refine Std.TreeMap.distinct_keys.imp ?_
    rintro a b hab rfl
    exact hab (Nat.compare_eq_eq.mpr rfl)
  refine ⟨(hsorted.and hnodup).imp ?_, fun i => hperm.mem_iff.trans Std.TreeMap.mem_keys⟩
  rintro a b ⟨hle, hne⟩
  have hle := of_decide_eq_true hle
  omega

theorem rest_keys (s : World) : Rest (s.rotated.keys.mergeSort fun a b => decide (b ≤ a)) s where
  descending := (sorted_keys s.rotated).1
  apart i hi := .inl (((sorted_keys s.rotated).2 i).mpr hi)

theorem ends_rotate (h : Ordered s) : Ends (rotate works) s (fun _ => Ordered) Ordered := by
  have hclosed : Ordered { s with file := false, lastRetain := some s.policy.retain } :=
    ⟨h.untouched, h.positive, h.sublist⟩
  refine Ends.update (ends_attempt (fun _ => ?_) fun _ => hclosed.called)
  refine ends_attempt (fun _ => Ends.read ?_) fun _ => hclosed.called.called
  refine Ends.bind (ends_listing hclosed.called.called _) ?_
  rintro _ s₁ ⟨h₁, hrot⟩
  refine Ends.read (Ends.bind (ends_shift h₁ s₁.policy.retain (rest_congr (rest_keys _) hrot)) ?_)
  rintro _ s₂ ⟨h₂, hrest⟩
  have hfree : 1 ∉ s₂.rotated := by
    intro hmem
    rcases hrest.apart 1 hmem with hin | ⟨hlt, -⟩
    · exact absurd hin List.not_mem_nil
    · exact absurd hlt (lt_irrefl 1)
  refine Ends.bind (ends_closeCurrent h₂ hfree s₁.policy.retain) fun _ s₃ h₃ => ?_
  exact Ends.mono (ends_reopen h₃) (fun _ _ hs => hs.1) fun _ hs => hs

theorem ends_ensureOpen (h : Ordered s) : Ends (ensureOpen works) s (fun _ => Ordered) Ordered := by
  refine Ends.read ?_
  by_cases hfile : s.file = true
  · rw [if_pos hfile]
    exact ends_pure h
  · rw [if_neg hfile]
    exact Ends.mono (ends_reopen h) (fun _ _ hs => hs.1) fun _ hs => hs

theorem ends_ensureRoom (h : Ordered s) : Ends (ensureRoom works) s (fun _ => Ordered) Ordered := by
  refine Ends.read ?_
  by_cases hfull : decide (s.policy.maxBytes ≤ s.bytes) = true
  · rw [if_pos hfull]
    exact ends_rotate h
  · rw [if_neg hfull]
    exact ends_pure h

theorem ends_writeAll (h : Ordered s) (line : Line) :
    Ends (writeAll works line) s (fun _ s' => Ordered { s' with appended := s'.appended ++ [line] }) Ordered := by
  unfold Ends writeAll attempt
  by_cases hworks : works s.calls = true
  · rw [if_pos hworks]
    refine ⟨h.untouched, h.positive, ?_⟩
    intro n
    show (older s.lines n ++ (s.current.map (· ++ [line])).getD []).Sublist (s.appended ++ [line])
    have hsub : (older s.lines n ++ s.current.getD []).Sublist s.appended := h.sublist n
    cases hc : s.current with
    | none =>
      rw [hc] at hsub
      exact hsub.trans (List.sublist_append_left _ _)
    | some c =>
      rw [hc] at hsub
      show (older s.lines n ++ (c ++ [line])).Sublist _
      rw [← List.append_assoc]
      exact hsub.append (List.Sublist.refl _)
  · rw [if_neg hworks]
    exact ⟨h.untouched, h.positive, h.sublist⟩

theorem ends_append (h : Ordered s) (line : Line) :
    Ends (append works line) s (fun _ s' => Ordered { s' with appended := s'.appended ++ [line] }) Ordered := by
  refine Ends.bind (ends_ensureOpen h) fun _ s₁ h₁ => Ends.bind (ends_ensureRoom h₁) fun _ s₂ h₂ => ?_
  have hopen : Ends expectOpen s₂ (fun _ s' => s' = s₂) Ordered := by
    refine Ends.read ?_
    by_cases hfile : s₂.file = true
    · rw [if_pos hfile]
      exact ends_pure rfl
    · rw [if_neg hfile]
      exact ends_fail h₂
  refine Ends.bind hopen ?_
  rintro _ s₃ rfl
  have hfound : Ordered { s₃ with found := s₃.found ++ [(size (s₃.current.getD []), s₃.policy.maxBytes)] } :=
    ⟨h₂.untouched, h₂.positive, h₂.sublist⟩
  exact Ends.update (ends_writeAll hfound line)

theorem ordered_step (h : Ordered s) (call : Call) : Ordered (step works s call) := by
  cases call with
  | configure policy => exact ⟨h.untouched, h.positive, h.sublist⟩
  | append line =>
    have hends : Ends (append works line) s _ _ := ends_append h line
    rcases hends.elim with ⟨_, s', hx, hs'⟩ | ⟨e, s', hx, hs'⟩
    · simp only [step, hx]
      exact hs'
    · simp only [step, hx]
      exact hs'

theorem ordered_opened : Ordered (opened works) := by
  have hempty : Ordered empty := by
    refine ⟨rfl, fun i hi => absurd hi Std.TreeMap.not_mem_emptyc, fun n => ?_⟩
    have hnone : older empty.lines n = [] := older_beyond (m := 0) (fun i _ => rfl) (Nat.zero_le n)
    show (older empty.lines n ++ []).Sublist []
    rw [hnone]
    exact List.Sublist.refl _
  have hends : Ends (reopen works) empty _ _ := ends_reopen hempty
  rcases hends.elim with ⟨_, s', hx, hs', -⟩ | ⟨e, s', hx, hs'⟩
  · rw [opened, hx]
    exact hs'
  · rw [opened, hx]
    exact hs'

end Steps

/-! ### Where nothing fails -/

/-- The rotated files are `1..k`, and with the current file they are a suffix of what has been appended. -/
structure Numbered (k : ℕ) (s : World) : Prop where
  keys : ∀ i, i ∈ s.rotated ↔ 1 ≤ i ∧ i ≤ k
  suffix : s.contents k <:+ s.appended

/-- A rotation on its way: the files up to `m` have still to move, the others have moved. -/
structure Shifting (retain m top : ℕ) (s : World) : Prop where
  keys : ∀ i, i ∈ s.rotated ↔ (1 ≤ i ∧ i ≤ m) ∨ (m + 2 ≤ i ∧ i ≤ top)
  above : m + 1 ≤ top
  kept : m + 1 < top → top ≤ retain
  suffix : ∀ n, top ≤ n → s.contents n <:+ s.appended

/-- A state that differs in what a rotation of the older files changes. -/
structure Same (s s' : World) : Prop where
  current : s'.current = s.current
  policy : s'.policy = s.policy
  found : s'.found = s.found
  lastRetain : s'.lastRetain = s.lastRetain
  appended : s'.appended = s.appended

theorem Same.trans {s s₁ s₂ : World} (h : Same s s₁) (h' : Same s₁ s₂) : Same s s₂ :=
  ⟨h'.current.trans h.current, h'.policy.trans h.policy, h'.found.trans h.found, h'.lastRetain.trans h.lastRetain,
    h'.appended.trans h.appended⟩

/-- The indices from `m` down to 1. -/
structure Down (is : List ℕ) (m : ℕ) : Prop where
  descending : is.Pairwise (· > ·)
  range : ∀ i, i ∈ is ↔ 1 ≤ i ∧ i ≤ m

theorem Down.nil {m : ℕ} (h : Down [] m) : m = 0 := by
  by_contra hm
  exact List.not_mem_nil ((h.range m).mpr ⟨by omega, le_rfl⟩)

theorem Down.cons {i : ℕ} {is : List ℕ} {m : ℕ} (h : Down (i :: is) m) : i = m ∧ 1 ≤ m ∧ Down is (m - 1) := by
  obtain ⟨hgt, hdesc⟩ := List.pairwise_cons.mp h.descending
  obtain ⟨hi, him⟩ := (h.range i).mp List.mem_cons_self
  have hlast : i = m := by
    rcases List.mem_cons.mp ((h.range m).mpr ⟨by omega, le_rfl⟩) with heq | hmem
    · exact heq.symm
    · have hlt := hgt m hmem
      omega
  refine ⟨hlast, by omega, hdesc, ?_⟩
  intro j
  constructor
  · intro hj
    have hlt := hgt j hj
    have hr := (h.range j).mp (List.mem_cons_of_mem i hj)
    omega
  · rintro ⟨hj, hjm⟩
    rcases List.mem_cons.mp ((h.range j).mpr ⟨hj, by omega⟩) with heq | hmem
    · omega
    · exact hmem

section Whole

variable {works : ℕ → Bool} (hworks : ∀ n, works n = true) {s : World}

include hworks

/-- A call that does not fail. -/
theorem ends_works {α : Type} {f : Unit → Io α} {Q : α → World → Prop}
    (hf : Ends (f ()) { s with calls := s.calls + 1 } Q fun _ => False) :
    Ends (attempt works >>= f) s Q fun _ => False := by
  refine ends_attempt (fun _ => hf) ?_
  rw [hworks]
  intro h
  cases h

theorem listing_works (is : List ℕ) :
    Ends (listing works is) s (fun _ s' => Same s s' ∧ s'.rotated = s.rotated) fun _ => False := by
  induction is generalizing s with
  | nil => exact ends_pure ⟨⟨rfl, rfl, rfl, rfl, rfl⟩, rfl⟩
  | cons i is ih =>
    refine ends_works hworks (ends_works hworks (Ends.mono ih ?_ fun _ h => h))
    rintro _ s' ⟨hsame, hrot⟩
    exact ⟨⟨hsame.current, hsame.policy, hsame.found, hsame.lastRetain, hsame.appended⟩, hrot⟩

omit hworks in
theorem Shifting.remove {retain m top : ℕ} (h : Shifting retain m top s) (hm : 1 ≤ m) (hretain : retain ≤ m) (n : ℕ) :
    Shifting retain (m - 1) m { s with calls := n, rotated := s.rotated.erase m } := by
  -- Nothing has been kept above an index that is dropped.
  have htop : top = m + 1 := by
    have habove := h.above
    by_contra hne
    have hkept := h.kept (by omega)
    omega
  subst htop
  refine ⟨?_, by omega, by omega, ?_⟩
  · intro i
    rw [Std.TreeMap.mem_erase, h.keys]
    have hcmp : compare m i ≠ .eq ↔ m ≠ i := not_congr Nat.compare_eq_eq
    rw [hcmp]
    omega
  · intro k hk
    refine List.IsSuffix.trans ?_ (h.suffix (m + 1) le_rfl)
    have hempty : ∀ i, m < i → s.lines i = [] := by
      intro i hi
      refine lines_of_not_mem fun hmem => ?_
      have hr := (h.keys i).mp hmem
      omega
    have hbefore : older s.lines (m + 1) = s.lines m ++ older s.lines (m - 1) := by
      rw [older_beyond hempty (Nat.le_succ m)]
      obtain ⟨m', rfl⟩ := Nat.exists_eq_succ_of_ne_zero (Nat.ne_of_gt hm)
      rfl
    have hafter : older ({ s with calls := n, rotated := s.rotated.erase m } : World).lines k =
        older s.lines (m - 1) := by
      refine (older_beyond (m := m - 1) ?_ (by omega)).trans (older_congr ?_)
      · intro i hi
        refine (lines_erase s m i).trans ?_
        by_cases him : m = i
        · exact if_pos him
        · rw [if_neg him]
          exact hempty i (by omega)
      · intro i _ hi
        exact (lines_erase s m i).trans (if_neg (by omega))
    show older _ k ++ s.current.getD [] <:+ older s.lines (m + 1) ++ s.current.getD []
    rw [hafter, hbefore, List.append_assoc]
    exact List.suffix_append _ _

omit hworks in
theorem Shifting.rename {retain m top : ℕ} (h : Shifting retain m top s) (hm : 1 ≤ m) (hretain : m < retain) (n : ℕ)
    {c : Contents} (hc : s.rotated[m]? = some c) :
    Shifting retain (m - 1) top (insertRotated (m + 1) c { s with calls := n, rotated := s.rotated.erase m }) := by
  have habove := h.above
  refine ⟨?_, by omega, ?_, ?_⟩
  · intro i
    have hmem : i ∈ (s.rotated.erase m).insert (m + 1) c ↔ m + 1 = i ∨ m ≠ i ∧ i ∈ s.rotated := by
      rw [Std.TreeMap.mem_insert, Std.TreeMap.mem_erase, Nat.compare_eq_eq]
      exact or_congr_right (and_congr_left fun _ => not_congr Nat.compare_eq_eq)
    refine hmem.trans ?_
    rw [h.keys]
    omega
  · intro _
    by_cases hkept : m + 1 < top
    · exact h.kept hkept
    · omega
  · intro k hk
    have hfree : s.lines (m + 1) = [] := by
      refine lines_of_not_mem fun hmem => ?_
      have hr := (h.keys (m + 1)).mp hmem
      omega
    have hmove : older (insertRotated (m + 1) c { s with calls := n, rotated := s.rotated.erase m }).lines k =
        older s.lines k := by
      refine older_move hfree ?_ ?_ ?_ hm (by omega)
      · rw [lines_insert, if_pos rfl, World.lines, hc]
        rfl
      · rw [lines_insert, if_neg (by omega)]
        exact (lines_erase s m m).trans (if_pos rfl)
      · intro j hj hj'
        rw [lines_insert, if_neg (Ne.symm hj')]
        exact (lines_erase s m j).trans (if_neg (Ne.symm hj))
    show older _ k ++ s.current.getD [] <:+ s.appended
    rw [hmove]
    exact h.suffix k hk

theorem shiftOne_works {retain m top : ℕ} (h : Shifting retain m top s) (hm : 1 ≤ m) :
    Ends (shiftOne works retain m) s (fun _ s' => ∃ top', Shifting retain (m - 1) top' s' ∧ Same s s')
      fun _ => False := by
  have hmem : m ∈ s.rotated := (h.keys m).mpr (.inl ⟨hm, le_rfl⟩)
  unfold shiftOne
  by_cases hretain : retain ≤ m
  · rw [if_pos hretain]
    refine ends_works hworks (Ends.read ?_)
    rw [if_pos (Std.TreeMap.mem_iff_contains.mp hmem)]
    exact ends_update ⟨m, h.remove hm hretain _, rfl, rfl, rfl, rfl, rfl⟩
  · rw [if_neg hretain]
    obtain ⟨c, hc⟩ := Option.isSome_iff_exists.mp (Std.TreeMap.mem_iff_isSome_getElem?.mp hmem)
    refine ends_works hworks (Ends.read ?_)
    simp only [hc]
    exact ends_update ⟨top, h.rename hm (by omega) _ hc, rfl, rfl, rfl, rfl, rfl⟩

theorem shift_works {retain m top : ℕ} {is : List ℕ} (his : Down is m) (h : Shifting retain m top s) :
    Ends (shift works retain is) s (fun _ s' => ∃ top', Shifting retain 0 top' s' ∧ Same s s') fun _ => False := by
  induction is generalizing s m top with
  | nil =>
    obtain rfl := his.nil
    exact ends_pure ⟨top, h, rfl, rfl, rfl, rfl, rfl⟩
  | cons i is ih =>
    obtain ⟨rfl, hi, hdown⟩ := his.cons
    refine Ends.bind (shiftOne_works hworks h hi) ?_
    rintro _ s₁ ⟨top₁, h₁, hsame₁⟩
    refine Ends.mono (ih hdown h₁) ?_ fun _ hs => hs
    rintro _ s₂ ⟨top₂, h₂, hsame₂⟩
    exact ⟨top₂, h₂, hsame₁.trans hsame₂⟩

/-- The current file is closed: it is dropped, or takes the first name. -/
theorem closeCurrent_works {retain top : ℕ} (h : Shifting retain 0 top s) {c : Contents} (hc : s.current = some c) :
    Ends (closeCurrent works retain) s (fun _ s' => (∃ k, Numbered k s' ∧ k ≤ retain) ∧
      Same { s with current := none } s') fun _ => False := by
  have habove := h.above
  have hkeys (i : ℕ) : i ∈ s.rotated ↔ 2 ≤ i ∧ i ≤ top := by
    rw [h.keys]
    omega
  unfold closeCurrent
  by_cases hretain : retain = 0
  · rw [if_pos hretain]
    refine ends_works hworks (Ends.read ?_)
    simp only [hc]
    have htop : top = 1 := by
      by_contra hne
      have hkept := h.kept (by omega)
      omega
    refine ends_update ⟨⟨0, ⟨?_, ?_⟩, Nat.zero_le _⟩, rfl, rfl, rfl, rfl, rfl⟩
    · intro i
      show i ∈ s.rotated ↔ _
      rw [hkeys]
      omega
    · exact List.nil_suffix
  · rw [if_neg hretain]
    refine ends_works hworks (Ends.read ?_)
    simp only [hc]
    have hfree : 1 ∉ s.rotated := by
      rw [hkeys]
      omega
    refine ends_update ⟨⟨top, ⟨?_, ?_⟩, ?_⟩, rfl, rfl, rfl, rfl, rfl⟩
    · intro i
      have hmem : i ∈ s.rotated.insert 1 c ↔ 1 = i ∨ i ∈ s.rotated := by
        rw [Std.TreeMap.mem_insert, Nat.compare_eq_eq]
      refine hmem.trans ?_
      rw [hkeys]
      omega
    · have hsame := contents_close hc hfree habove
      show (insertRotated 1 c { s with current := none }).contents top <:+ s.appended
      rw [hsame]
      exact h.suffix top le_rfl
    · by_cases hkept : 0 + 1 < top
      · exact h.kept hkept
      · omega

theorem reopen_works {k : ℕ} (h : Numbered k s) (hc : s.current = none) :
    Ends (reopen works) s (fun _ s' => Numbered k s' ∧ s'.file = true ∧ s'.bytes = saturate (size []) ∧
      Same { s with current := some [] } s') fun _ => False := by
  refine ends_works hworks (Ends.update (ends_works hworks (ends_update ?_)))
  have hempty : s.current.getD [] = [] := by
    rw [hc]
    rfl
  refine ⟨⟨h.keys, h.suffix⟩, rfl, ?_, congrArg some hempty, rfl, rfl, rfl, rfl⟩
  show saturate (size (s.current.getD [])) = _
  rw [hempty]

omit hworks in
theorem Numbered.shifting {k : ℕ} (h : Numbered k s) (retain : ℕ) : Shifting retain k (k + 1) s := by
  refine ⟨?_, le_rfl, fun hlt => absurd hlt (lt_irrefl _), ?_⟩
  · intro i
    rw [h.keys]
    omega
  · intro n hn
    have hempty : ∀ i, k < i → s.lines i = [] := by
      intro i hi
      refine lines_of_not_mem fun hmem => ?_
      have hr := (h.keys i).mp hmem
      omega
    show older s.lines n ++ _ <:+ _
    rw [older_beyond hempty (show k ≤ n by omega)]
    exact h.suffix

theorem rotate_works {k : ℕ} (h : Numbered k s) {c : Contents} (hc : s.current = some c) :
    Ends (rotate works) s (fun _ s' => (∃ k', Numbered k' s' ∧ k' ≤ s.policy.retain) ∧ s'.file = true ∧
      s'.bytes = saturate (size []) ∧ Same { s with current := some [], lastRetain := some s.policy.retain } s')
      fun _ => False := by
  refine Ends.update (ends_works hworks (ends_works hworks (Ends.read ?_)))
  refine Ends.bind (listing_works hworks _) ?_
  rintro _ s₁ ⟨hsame₁, hrot⟩
  have hretain : s₁.policy.retain = s.policy.retain := congrArg LogConfig.retain hsame₁.policy
  have h₁ : Numbered k s₁ := by
    refine ⟨fun i => hrot ▸ h.keys i, ?_⟩
    have hlines : s₁.lines = s.lines := by
      funext i
      show (s₁.rotated[i]?).getD [] = _
      rw [hrot]
      rfl
    show older s₁.lines k ++ s₁.current.getD [] <:+ s₁.appended
    rw [hlines, hsame₁.current, hsame₁.appended]
    exact h.suffix
  have hdown : Down (s.rotated.keys.mergeSort fun a b => decide (b ≤ a)) k :=
    ⟨(sorted_keys s.rotated).1, fun i => ((sorted_keys s.rotated).2 i).trans (h.keys i)⟩
  refine Ends.read (Ends.bind (shift_works hworks hdown (h₁.shifting s₁.policy.retain)) ?_)
  rintro _ s₂ ⟨top, h₂, hsame₂⟩
  have hc₂ : s₂.current = some c := (hsame₂.current.trans hsame₁.current).trans hc
  refine Ends.bind (closeCurrent_works hworks h₂ hc₂) ?_
  rintro _ s₃ ⟨⟨k', h₃, hk'⟩, hsame₃⟩
  refine Ends.mono (reopen_works hworks h₃ hsame₃.current) ?_ fun _ hs => hs
  rintro _ s₄ ⟨h₄, hfile, hbytes, hsame₄⟩
  refine ⟨⟨k', h₄, hretain ▸ hk'⟩, hfile, hbytes, hsame₄.current, ?_, ?_, ?_, ?_⟩
  · exact ((hsame₄.policy.trans hsame₃.policy).trans hsame₂.policy).trans hsame₁.policy
  · exact ((hsame₄.found.trans hsame₃.found).trans hsame₂.found).trans hsame₁.found
  · exact ((hsame₄.lastRetain.trans hsame₃.lastRetain).trans hsame₂.lastRetain).trans hsame₁.lastRetain
  · exact ((hsame₄.appended.trans hsame₃.appended).trans hsame₂.appended).trans hsame₁.appended

/-- What holds between the calls where nothing fails. -/
structure Tidy (s : World) : Prop where
  file : s.file = true
  current : ∃ c, s.current = some c ∧ s.bytes = saturate (size c)
  numbered : ∃ k, Numbered k s ∧ k ≤ s.lastRetain.getD 0
  found : ∀ f ∈ s.found, f.1 = 0 ∨ f.1 < f.2

/-- The file that is written to is empty or below the limit. -/
theorem ensureRoom_works (h : Tidy s) :
    Ends (ensureRoom works) s (fun _ s' => Tidy s' ∧ s'.appended = s.appended ∧
      (size (s'.current.getD []) = 0 ∨ size (s'.current.getD []) < s'.policy.maxBytes)) fun _ => False := by
  obtain ⟨c, hc, hbytes⟩ := h.current
  obtain ⟨k, hk, -⟩ := h.numbered
  refine Ends.read ?_
  by_cases hfull : decide (s.policy.maxBytes ≤ s.bytes) = true
  · rw [if_pos hfull]
    refine Ends.mono (rotate_works hworks hk hc) ?_ fun _ hs => hs
    rintro _ s' ⟨⟨k', hk', hle⟩, hfile, hbytes', hsame⟩
    refine ⟨⟨hfile, ⟨[], hsame.current, hbytes'⟩, ⟨k', hk', ?_⟩, ?_⟩, hsame.appended, .inl ?_⟩
    · rw [hsame.lastRetain]
      exact hle
    · rw [hsame.found]
      exact h.found
    · rw [hsame.current]
      rfl
  · rw [if_neg hfull]
    refine ends_pure ⟨h, rfl, .inr ?_⟩
    have hlt := s.policy.maxBytes_lt
    rw [decide_eq_true_eq, hbytes, saturate] at hfull
    rw [hc, Option.getD_some]
    omega

theorem append_works (h : Tidy s) (line : Line) :
    Ends (append works line) s (fun _ s' => Tidy { s' with appended := s'.appended ++ [line] } ∧
      s'.appended = s.appended) fun _ => False := by
  have hopen : Ends (ensureOpen works) s (fun _ s' => s' = s) fun _ => False := by
    refine Ends.read ?_
    rw [if_pos h.file]
    exact ends_pure rfl
  refine Ends.bind hopen ?_
  rintro _ s₁ rfl
  refine Ends.bind (ensureRoom_works hworks h) ?_
  rintro _ s₂ ⟨h₂, happ, hroom⟩
  have hexpect : Ends expectOpen s₂ (fun _ s' => s' = s₂) fun _ => False := by
    refine Ends.read ?_
    rw [if_pos h₂.file]
    exact ends_pure rfl
  refine Ends.bind hexpect ?_
  rintro _ s₃ rfl
  refine Ends.update ?_
  unfold Ends writeAll attempt
  rw [if_pos (hworks _)]
  obtain ⟨c, hc, hbytes⟩ := h₂.current
  obtain ⟨k, hk, hle⟩ := h₂.numbered
  refine ⟨⟨h₂.file, ⟨c ++ [line], ?_, ?_⟩, ⟨k, ⟨hk.keys, ?_⟩, hle⟩, ?_⟩, happ⟩
  · show s₃.current.map _ = _
    rw [hc]
    rfl
  · show saturate (s₃.bytes + line.length) = saturate (size (c ++ [line]))
    rw [hbytes, size, size, List.flatten_append, List.length_append, List.flatten_singleton, saturate, saturate, saturate]
    omega
  · obtain ⟨before, hbefore⟩ := hk.suffix
    show older s₃.lines k ++ (s₃.current.map _).getD [] <:+ s₃.appended ++ [line]
    rw [hc, ← hbefore]
    refine ⟨before, ?_⟩
    show before ++ (older s₃.lines k ++ (c ++ [line])) = before ++ (older s₃.lines k ++ s₃.current.getD []) ++ [line]
    rw [hc, Option.getD_some, List.append_assoc, List.append_assoc]
  · intro f hf
    rcases List.mem_append.mp hf with hf | hf
    · exact h₂.found f hf
    · rw [List.mem_singleton.mp hf]
      exact hroom

/-- The lines that a call appends. -/
def Call.lines : Call → List Line
  | .append line => [line]
  | .configure _ => []

theorem tidy_step (h : Tidy s) (call : Call) :
    Tidy (step works s call) ∧ (step works s call).appended = s.appended ++ call.lines := by
  cases call with
  | configure policy =>
    obtain ⟨k, hk, hle⟩ := h.numbered
    exact ⟨⟨h.file, h.current, ⟨k, ⟨hk.keys, hk.suffix⟩, hle⟩, h.found⟩, (List.append_nil _).symm⟩
  | append line =>
    rcases (append_works hworks h line).elim with ⟨_, s', hx, hs', happ⟩ | ⟨e, s', -, hs'⟩
    · simp only [step, hx]
      exact ⟨hs', congrArg (· ++ [line]) happ⟩
    · exact hs'.elim

theorem tidy_opened : Tidy (opened works) ∧ (opened works).appended = [] := by
  have hempty : Numbered 0 empty := by
    refine ⟨?_, List.nil_suffix⟩
    intro i
    constructor
    · exact fun hmem => absurd hmem Std.TreeMap.not_mem_emptyc
    · omega
  rcases (reopen_works hworks hempty rfl).elim with ⟨_, s', hx, hk, hfile, hbytes, hsame⟩ | ⟨e, s', -, hs'⟩
  · rw [opened, hx]
    refine ⟨⟨hfile, ⟨[], hsame.current, hbytes⟩, ⟨0, hk, Nat.zero_le _⟩, ?_⟩, hsame.appended⟩
    rw [hsame.found]
    exact fun f hf => absurd hf List.not_mem_nil
  · exact hs'.elim

theorem tidy_run (h : Tidy s) (calls : List Call) :
    Tidy (run (step works) s calls) ∧ (run (step works) s calls).appended = s.appended ++ calls.flatMap Call.lines := by
  induction calls generalizing s with
  | nil => exact ⟨h, (List.append_nil _).symm⟩
  | cons call calls ih =>
    obtain ⟨hstep, happ⟩ := tidy_step hworks h call
    obtain ⟨hrun, hlines⟩ := ih hstep
    refine ⟨hrun, ?_⟩
    rw [run_cons, hlines, happ, List.flatMap_cons, List.append_assoc]

end Whole

/-- **Rotation keeps the order and overwrites nothing**: whatever calls of the file system fail, no rename finds a
file at its target, and the files from the oldest on hold a subsequence of the lines that were appended.  Where
nothing fails they hold a suffix of all lines, the rotated files are `1..k` for a `k` within the limit of the last
rotation, and every line is written to a file that is empty or below the limit in force. -/
theorem rotation_keeps_order (works : ℕ → Bool) (calls : List Call) :
    (run (step works) (opened works) calls).overwritten = [] ∧
    (∀ n, ((run (step works) (opened works) calls).contents n).Sublist
      (run (step works) (opened works) calls).appended) ∧
    ((∀ n, works n = true) →
      (run (step works) (opened works) calls).appended = calls.flatMap Call.lines ∧
      (∃ k, (∀ i, i ∈ (run (step works) (opened works) calls).rotated ↔ 1 ≤ i ∧ i ≤ k) ∧
        (run (step works) (opened works) calls).contents k <:+ calls.flatMap Call.lines ∧
        k ≤ (run (step works) (opened works) calls).lastRetain.getD 0) ∧
      ∀ f ∈ (run (step works) (opened works) calls).found, f.1 = 0 ∨ f.1 < f.2) := by
  have hordered : Ordered (run (step works) (opened works) calls) :=
    run_inv_of_mem (I := Ordered) (C := fun _ => True) (fun _ call h _ => ordered_step h call) ordered_opened fun _ _ => trivial
  refine ⟨hordered.untouched, hordered.sublist, ?_⟩
  intro hworks
  obtain ⟨hopened, hnone⟩ := tidy_opened hworks
  obtain ⟨htidy, happ⟩ := tidy_run hworks hopened calls
  rw [hnone, List.nil_append] at happ
  obtain ⟨k, hk, hle⟩ := htidy.numbered
  exact ⟨happ, ⟨k, hk.keys, happ ▸ hk.suffix, hle⟩, htidy.found⟩

end FluxRs.Logging
