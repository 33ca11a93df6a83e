import FluxRs.Lib.Rewrite

/-!
# FluxRs.Lib.Carry — where a pass leaves a stretch of its text

A stretch is marked, and a pass copies a symbol with its mark.  Of a stretch that it replaces, what the stretch and the
replacement both begin with keeps its marks; the rest of the replacement bears one where something of the rest of the
stretch did, so that the marked symbols of the result are all that stands for the marked symbols of the text.
-/

namespace FluxRs.Lib.Rewrite

variable {α : Type}

/-! ### Marked texts -/

/-- The text without its marks. -/
def plain (t : List (α × Bool)) : List α := t.map Prod.fst

/-- The text without a mark. -/
def bare (l : List α) : List (α × Bool) := l.map fun a => (a, false)

/-- The text with a mark on every symbol. -/
def tagged (l : List α) : List (α × Bool) := l.map fun a => (a, true)

/-- The symbols that bear the mark. -/
def picked (t : List (α × Bool)) : List α := plain (t.filter Prod.snd)

@[simp] theorem plain_nil : plain ([] : List (α × Bool)) = [] := rfl

@[simp] theorem plain_cons (x : α × Bool) (t : List (α × Bool)) : plain (x :: t) = x.1 :: plain t := rfl

@[simp] theorem plain_append (t u : List (α × Bool)) : plain (t ++ u) = plain t ++ plain u := List.map_append

@[simp] theorem length_plain (t : List (α × Bool)) : (plain t).length = t.length := List.length_map _

@[simp] theorem plain_bare (l : List α) : plain (bare l) = l := by
  rw [plain, bare, List.map_map]
  exact List.map_id l

@[simp] theorem plain_tagged (l : List α) : plain (tagged l) = l := by
  rw [plain, tagged, List.map_map]
  exact List.map_id l

@[simp] theorem bare_append (l m : List α) : bare (l ++ m) = bare l ++ bare m := List.map_append

@[simp] theorem picked_nil : picked ([] : List (α × Bool)) = [] := rfl

@[simp] theorem picked_append (t u : List (α × Bool)) : picked (t ++ u) = picked t ++ picked u := by
  rw [picked, List.filter_append, plain_append, picked, picked]

theorem picked_cons (x : α × Bool) (t : List (α × Bool)) : picked (x :: t) = picked [x] ++ picked t :=
  picked_append [x] t

@[simp] theorem picked_bare (l : List α) : picked (bare l) = [] := by
  have hnone : (bare l).filter Prod.snd = [] := by
    rw [List.filter_eq_nil_iff]
    rintro x hx
    obtain ⟨a, -, rfl⟩ := List.mem_map.mp hx
    exact Bool.false_ne_true
  rw [picked, hnone, plain_nil]

@[simp] theorem picked_tagged (l : List α) : picked (tagged l) = l := by
  have hall : (tagged l).filter Prod.snd = tagged l := by
    rw [List.filter_eq_self]
    rintro x hx
    obtain ⟨a, -, rfl⟩ := List.mem_map.mp hx
    rfl
  rw [picked, hall, plain_tagged]

theorem picked_sublist_plain (t : List (α × Bool)) : (picked t).Sublist (plain t) :=
  List.filter_sublist.map _

/-- A part of a text without marks has none. -/
theorem bare_of_append {t u : List (α × Bool)} {l : List α} (h : bare l = t ++ u) :
    ∃ k m, l = k ++ m ∧ t = bare k ∧ u = bare m := by
  obtain ⟨k, m, rfl, ht, hu⟩ := List.map_eq_append_iff.mp h
  exact ⟨k, m, rfl, ht.symm, hu.symm⟩

theorem tagged_of_append {t u : List (α × Bool)} {l : List α} (h : tagged l = t ++ u) :
    ∃ k m, l = k ++ m ∧ t = tagged k ∧ u = tagged m := by
  obtain ⟨k, m, rfl, ht, hu⟩ := List.map_eq_append_iff.mp h
  exact ⟨k, m, rfl, ht.symm, hu.symm⟩

/-- A text in which nothing is picked has no mark. -/
theorem eq_bare {t : List (α × Bool)} (h : picked t = []) : t = bare (plain t) := by
  induction t with
  | nil => rfl
  | cons x t ih =>
    obtain ⟨a, m⟩ := x
    rw [picked_cons, List.append_eq_nil_iff] at h
    cases m with
    | true => cases h.1
    | false =>
      show (a, false) :: t = (a, false) :: bare (plain t)
      rw [← ih h.2]

theorem takeWhile_bare (p : α → Bool) (l : List α) :
    (bare l).takeWhile (fun x : α × Bool => p x.1) = bare (l.takeWhile p) := List.takeWhile_map.trans rfl

/-! ### Replacements -/

variable [DecidableEq α]

/-- What stands for a stretch that is not copied: it bears a mark where the stretch does somewhere. -/
def taint (t : List (α × Bool)) (out : List α) : List (α × Bool) := out.map fun b => (b, t.any Prod.snd)

/-- The replacement for a stretch: what both begin with keeps its marks. -/
def remark : List (α × Bool) → List α → List (α × Bool)
  | x :: t, b :: out => if x.1 = b then x :: remark t out else taint (x :: t) (b :: out)
  | [], out => taint [] out
  | x :: t, [] => taint (x :: t) []

omit [DecidableEq α] in
@[simp] theorem plain_taint (t : List (α × Bool)) (out : List α) : plain (taint t out) = out := by
  rw [plain, taint, List.map_map]
  exact List.map_id out

omit [DecidableEq α] in
theorem taint_bare (l out : List α) : taint (bare l) out = bare out := by
  have hnone : (bare l).any Prod.snd = false := by
    rw [List.any_eq_false]
    rintro x hx
    obtain ⟨a, -, rfl⟩ := List.mem_map.mp hx
    exact Bool.false_ne_true
  rw [taint, hnone, bare]

/-- What both begin with is copied. -/
theorem remark_append (kept t : List (α × Bool)) (out : List α) :
    remark (kept ++ t) (plain kept ++ out) = kept ++ remark t out := by
  induction kept with
  | nil => rfl
  | cons x kept ih => rw [List.cons_append, plain_cons, List.cons_append, remark, if_pos rfl, ih, List.cons_append]

theorem remark_self (t : List (α × Bool)) : remark t (plain t) = t := by
  have h := remark_append t [] []
  rw [List.append_nil, List.append_nil] at h
  rw [h, remark, taint, List.map_nil, List.append_nil]

@[simp] theorem plain_remark (t : List (α × Bool)) (out : List α) : plain (remark t out) = out := by
  induction t generalizing out with
  | nil => exact plain_taint [] out
  | cons x t ih =>
    cases out with
    | nil => rfl
    | cons b out =>
      rw [remark]
      split
      · rename_i hx
        rw [plain_cons, ih, hx]
      · exact plain_taint _ _

/-- Nothing is marked for a stretch without marks. -/
theorem remark_bare (l out : List α) : remark (bare l) out = bare out := by
  induction l generalizing out with
  | nil => exact taint_bare [] out
  | cons a l ih =>
    cases out with
    | nil => rfl
    | cons b out =>
      show remark ((a, false) :: bare l) (b :: out) = _
      rw [remark]
      split
      · rename_i ha
        rw [ih, ← ha]
        rfl
      · exact taint_bare (a :: l) (b :: out)

/-- What stands for a stretch is a part of its replacement. -/
theorem picked_remark (t : List (α × Bool)) (out : List α) : (picked (remark t out)).Sublist out := by
  have h := picked_sublist_plain (remark t out)
  rwa [plain_remark] at h

/-- Without a symbol of a kind in what is new, none of them is marked that was not. -/
theorem filter_remark {p : α → Bool} {k m : List α} (hm : ∀ a ∈ m, p a = false) {consumed : List (α × Bool)}
    (hk : k <+: plain consumed) :
    ((picked (remark consumed (k ++ m))).filter p).Sublist ((picked consumed).filter p) := by
  obtain ⟨d, hd⟩ := hk
  obtain ⟨kept, dropped, rfl, rfl, -⟩ := List.map_eq_append_iff.mp hd.symm
  have hnew : (picked (remark dropped m)).filter p = [] := by
    rw [List.filter_eq_nil_iff]
    intro a ha
    rw [hm a ((picked_remark dropped m).subset ha)]
    exact Bool.false_ne_true
  have hremark := remark_append kept dropped m
  rw [plain] at hremark
  rw [hremark, picked_append, picked_append, List.filter_append, List.filter_append, hnew, List.append_nil]
  exact List.sublist_append_left _ _

/-! ### Passes -/

namespace Rule

variable (rule : Rule α)

/-- The pass over a marked text. -/
def carry (prev : Option α) (t : List (α × Bool)) : List (α × Bool) :=
  match _h : rule.rewrite ⟨prev, plain t⟩ with
  | some (out, next) =>
    remark (t.take (t.length - next.rest.length)) out ++ carry next.prev (t.drop (t.length - next.rest.length))
  | none =>
    match t with
    | [] => []
    | x :: t => x :: carry (some x.1) t
termination_by t.length
decreasing_by
  · have hless := rule.progress _h
    simp only [length_plain] at hless
    simp only [List.length_drop]
    omega
  · exact Nat.lt_succ_self _

/-- After a replacement the rule goes on in what is left of the text. -/
def Forward : Prop := ∀ place out next, rule.rewrite place = some (out, next) → next.rest <:+ place.rest

variable {rule}
variable {prev : Option α} {t u consumed : List (α × Bool)} {out : List α} {next : Cursor α}

theorem carry_of_some (h : rule.rewrite ⟨prev, plain (consumed ++ t)⟩ = some (out, next))
    (hnext : next.rest = plain t) :
    rule.carry prev (consumed ++ t) = remark consumed out ++ rule.carry next.prev t := by
  have hlength : (consumed ++ t).length - next.rest.length = consumed.length := by
    rw [hnext, length_plain, List.length_append, Nat.add_sub_cancel]
  rw [carry]
  split
  · rename_i h'
    rw [h] at h'
    cases h'
    rw [hlength, List.take_left, List.drop_left]
  · rename_i h'
    rw [h] at h'
    cases h'

theorem carry_of_none {x : α × Bool} (h : rule.rewrite ⟨prev, plain (x :: t)⟩ = none) :
    rule.carry prev (x :: t) = x :: rule.carry (some x.1) t := by
  rw [carry]
  split
  · rename_i h'
    rw [h] at h'
    cases h'
  · rfl

theorem carry_nil (rule : Rule α) (prev : Option α) : rule.carry prev [] = [] := by
  cases h : rule.rewrite ⟨prev, plain []⟩ with
  | some r => exact absurd (rule.progress h) (Nat.not_lt_zero _)
  | none =>
    rw [carry]
    split
    · rename_i h'
      rw [h] at h'
      cases h'
    · rfl

omit [DecidableEq α] in
/-- Induction along a pass over a marked text. -/
theorem carry_induction (hrule : rule.Forward) {motive : Option α → List (α × Bool) → Prop}
    (nil : ∀ prev, motive prev [])
    (copy : ∀ prev x t, rule.rewrite ⟨prev, plain (x :: t)⟩ = none → motive (some x.1) t → motive prev (x :: t))
    (replace : ∀ prev consumed t out next, rule.rewrite ⟨prev, plain (consumed ++ t)⟩ = some (out, next) →
      next.rest = plain t → motive next.prev t → motive prev (consumed ++ t)) (prev : Option α) (t : List (α × Bool)) :
    motive prev t := by
  induction hn : t.length using Nat.strongRecOn generalizing prev t with
  | _ n ih =>
    subst hn
    cases h : rule.rewrite ⟨prev, plain t⟩ with
    | some r =>
      obtain ⟨out, next⟩ := r
      obtain ⟨front, hfront⟩ := hrule _ _ _ h
      obtain ⟨consumed, rest, rfl, rfl, hrest⟩ := List.map_eq_append_iff.mp hfront.symm
      have hless := rule.progress h
      rw [← hrest] at hless
      simp only [List.length_map, length_plain] at hless
      exact replace prev consumed rest out next h hrest.symm (ih _ hless next.prev rest rfl)
    | none =>
      cases t with
      | nil => exact nil prev
      | cons x t => exact copy prev x t h (ih _ (Nat.lt_succ_self _) (some x.1) t rfl)

/-- **The marks change nothing**: without them the pass is the rule's. -/
theorem plain_carry (hrule : rule.Forward) (prev : Option α) (t : List (α × Bool)) :
    plain (rule.carry prev t) = rule.scan ⟨prev, plain t⟩ := by
  induction prev, t using carry_induction hrule with
  | nil prev => rw [carry_nil, plain_nil, scan_nil]
  | copy prev x t h ih =>
    rw [carry_of_none h, plain_cons, ih]
    exact (scan_of_none h).symm
  | replace prev consumed t out next h hnext ih =>
    rw [carry_of_some h hnext, plain_append, plain_remark, ih, scan_of_some h, ← hnext]

/-- A rule that writes no symbol of a kind marks none of them. -/
theorem filter_carry {p : α → Bool} (hp : ∀ place out next, rule.rewrite place = some (out, next) →
      ∃ consumed, place.rest = consumed ++ next.rest ∧ (out = consumed ∨ ∀ a ∈ out, p a = false))
    (prev : Option α) (t : List (α × Bool)) :
    ((picked (rule.carry prev t)).filter p).Sublist ((picked t).filter p) := by
  have hrule : rule.Forward := fun place out next h => by
    obtain ⟨consumed, hrest, -⟩ := hp place out next h
    exact ⟨consumed, hrest.symm⟩
  induction prev, t using carry_induction hrule with
  | nil prev => rw [carry_nil]
  | copy prev x t h ih =>
    rw [carry_of_none h, picked_cons, picked_cons x t, List.filter_append, List.filter_append]
    exact ih.append_left _
  | replace prev consumed t out next h hnext ih =>
    rw [carry_of_some h hnext, picked_append, picked_append, List.filter_append, List.filter_append]
    refine List.Sublist.append ?_ ih
    obtain ⟨stretch, hstretch, hout⟩ := hp _ _ _ h
    rcases hout with rfl | hout
    · have hplain : out = plain consumed := by
        rw [hnext, plain_append] at hstretch
        exact (List.append_cancel_right hstretch).symm
      rw [hplain, remark_self]
    · exact filter_remark hout (List.nil_prefix (l := plain consumed))

/-- A text without marks stays without. -/
theorem carry_bare (hrule : rule.Forward) (prev : Option α) (l : List α) :
    rule.carry prev (bare l) = bare (rule.scan ⟨prev, l⟩) := by
  have hnone : ∀ t : List (α × Bool), picked t = [] → picked (rule.carry prev t) = [] := by
    intro t
    induction prev, t using carry_induction hrule with
    | nil prev => intro _; rw [carry_nil, picked_nil]
    | copy prev x t h ih =>
      intro hnil
      rw [picked_cons, List.append_eq_nil_iff] at hnil
      rw [carry_of_none h, picked_cons, hnil.1, ih hnil.2, List.append_nil]
    | replace prev consumed t out next h hnext ih =>
      intro hnil
      rw [picked_append, List.append_eq_nil_iff] at hnil
      rw [carry_of_some h hnext, picked_append, ih hnil.2, eq_bare hnil.1, remark_bare, picked_bare, List.append_nil]
  rw [eq_bare (hnone (bare l) (picked_bare l)), plain_carry hrule, plain_bare]

end Rule

/-! ### The run at the end of a text -/

section Trail

omit [DecidableEq α]

variable {run : α → Bool}

/-- The symbols at the end of a text that are in a run. -/
def trail (run : α → Bool) (l : List α) : List α := (l.reverse.takeWhile run).reverse

theorem trail_of_all {l : List α} (h : ∀ a ∈ l, run a = true) : trail run l = l := by
  have hall : l.reverse.takeWhile run = l.reverse :=
    List.takeWhile_eq_self_iff.mpr fun a ha => h a (List.mem_reverse.mp ha)
  rw [trail, hall, List.reverse_reverse]

/-- The run at the end of a text ends as the text does. -/
theorem getLast?_trail {l : List α} (h : trail run l ≠ []) : (trail run l).getLast? = l.getLast? := by
  rcases List.eq_nil_or_concat l with rfl | ⟨front, a, rfl⟩
  · rfl
  · rw [List.concat_eq_append] at h ⊢
    rw [trail, List.reverse_append, List.reverse_singleton, List.singleton_append] at h ⊢
    by_cases ha : run a = true
    · rw [List.takeWhile_cons_of_pos ha, List.reverse_cons, List.getLast?_concat, List.getLast?_concat]
    · rw [List.takeWhile_cons_of_neg ha] at h
      exact absurd rfl h

/-- A symbol that is in no run ends what a run may reach back to. -/
theorem trail_append_cons {a : α} (ha : run a = false) (before l : List α) :
    trail run (before ++ a :: l) = trail run l := by
  have hstop : (a :: before.reverse).takeWhile run = [] := List.takeWhile_cons_of_neg (by simp [ha])
  rw [trail, trail, List.reverse_append, List.reverse_cons, List.append_assoc, List.singleton_append,
    List.takeWhile_append]
  split
  · rename_i hlength
    rw [hstop, List.append_nil, (List.takeWhile_prefix run).eq_of_length hlength]
  · rfl

theorem trail_cons {a : α} (ha : run a = false) (l : List α) : trail run (a :: l) = trail run l :=
  trail_append_cons ha [] l

theorem trail_append_last {a : α} {l : List α} (hl : l.getLast? = some a) (ha : run a = false) (before rest : List α) :
    trail run (before ++ l ++ rest) = trail run rest := by
  obtain ⟨front, rfl⟩ := List.getLast?_eq_some_iff.mp hl
  have hassoc : before ++ (front ++ [a]) ++ rest = (before ++ front) ++ a :: rest := by simp
  rw [hassoc, trail_append_cons ha]

/-- Where a part has a symbol that is in no run, what stands before it is out of reach. -/
theorem trail_append_of_exists {l : List α} (h : ∃ a ∈ l, run a = false) (before : List α) :
    trail run (before ++ l) = trail run l := by
  obtain ⟨a, hmem, ha⟩ := h
  obtain ⟨front, rest, rfl⟩ := List.append_of_mem hmem
  rw [← List.append_assoc, trail_append_cons ha, trail_append_cons ha]

/-- A run that ends before the end of the text is out of reach. -/
theorem trail_dropWhile {l : List α} (h : ∃ a ∈ l, run a = false) : trail run (l.dropWhile run) = trail run l := by
  have hexists : ∃ a ∈ l.dropWhile run, run a = false := by
    cases hdropped : l.dropWhile run with
    | nil =>
      obtain ⟨a, ha, hno⟩ := h
      rw [List.dropWhile_eq_nil_iff.mp hdropped a ha] at hno
      cases hno
    | cons b rest =>
      have hnot := List.head?_dropWhile_not run l
      rw [hdropped] at hnot
      exact ⟨b, List.mem_cons_self, by simpa using hnot⟩
  conv_rhs => rw [← List.takeWhile_append_dropWhile (p := run) (l := l)]
  exact (trail_append_of_exists hexists _).symm

/-- A run goes on in front of symbols that are in it. -/
theorem trail_append_of_all {l : List α} (h : ∀ a ∈ l, run a = true) (before : List α) :
    trail run (before ++ l) = trail run before ++ l := by
  rw [trail, List.reverse_append, List.takeWhile_append_of_pos fun a ha => h a (List.mem_reverse.mp ha),
    List.reverse_append, List.reverse_reverse, trail]

theorem takeWhile_append_of_exists {p : α → Bool} {l : List α} (h : ∃ a ∈ l, p a = false) (rest : List α) :
    (l ++ rest).takeWhile p = l.takeWhile p := by
  rw [List.takeWhile_append, if_neg]
  intro hlength
  obtain ⟨a, hmem, ha⟩ := h
  rw [← (List.takeWhile_prefix p).eq_of_length hlength] at hmem
  rw [List.mem_takeWhile_imp hmem] at ha
  cases ha

end Trail

/-! ### Passes that mask -/

/-- A replacement that leaves the runs around it alone: it keeps the beginning of the stretch, up to a symbol that is in
no run, it has no run at its end, and the stretch ends where a run does.  Of the symbols that are loud it writes none
itself, and has few. -/
structure Hides (run loud : α → Bool) (few consumed out rest : List α) : Prop where
  kept : ∃ k m, k <+: consumed ∧ out = k ++ m ∧ (∃ a ∈ k, run a = false) ∧ ∀ a ∈ m, loud a = false
  few : (out.filter loud).Sublist few
  last : ∀ a, out.getLast? = some a → run a = false
  apart : ∀ a b, rest.head? = some a → run a = true → consumed.getLast? = some b → run b = false

section Masks

variable {run loud : α → Bool} {few : List α}

omit [DecidableEq α] in
/-- A stretch that is replaced ends before a marked run or behind it. -/
theorem Hides.boundary {consumed t : List (α × Bool)} {out : List α}
    (hides : Hides run loud few (plain consumed) out (plain t)) {before mid after : List α}
    (ht : consumed ++ t = bare before ++ (tagged mid ++ bare after)) (hrun : ∀ a ∈ mid, run a = true) :
    (∃ stretch between, consumed = bare stretch ∧ before = stretch ++ between ∧
      t = bare between ++ (tagged mid ++ bare after)) ∨ ∃ rest, t = bare rest := by
  rcases List.append_eq_append_iff.mp ht with ⟨rest, hbefore, hrest⟩ | ⟨rest, hconsumed, hrest⟩
  · obtain ⟨stretch, between, rfl, rfl, rfl⟩ := bare_of_append hbefore
    exact .inl ⟨stretch, between, rfl, rfl, hrest⟩
  · rcases List.append_eq_append_iff.mp hrest with ⟨more, -, hafter⟩ | ⟨more, hmid, rfl⟩
    · obtain ⟨k, m, -, -, rfl⟩ := bare_of_append hafter
      exact .inr ⟨m, rfl⟩
    · obtain ⟨k, m, rfl, rfl, rfl⟩ := tagged_of_append hmid
      cases m with
      | nil => exact .inr ⟨after, rfl⟩
      | cons b m =>
        rcases List.eq_nil_or_concat k with rfl | ⟨k, a, rfl⟩
        · exact .inl ⟨before, [], by rw [hconsumed]; exact List.append_nil _, (List.append_nil _).symm, rfl⟩
        · -- the stretch would end in the middle of a run
          have hlast : (plain consumed).getLast? = some a := by
            rw [hconsumed, plain_append, plain_bare, plain_tagged, List.concat_eq_append, ← List.append_assoc,
              List.getLast?_concat]
          have hb := hrun b (List.mem_append_right _ List.mem_cons_self)
          have ha := hrun a (List.mem_append_left _ (by simp))
          rw [hides.apart b a rfl hb hlast] at ha
          cases ha

/-- A pass over a marked text that copies or replaces so. -/
inductive Masks (run loud : α → Bool) (few : List α) : List (α × Bool) → List (α × Bool) → Prop
  | nil : Masks run loud few [] []
  | copy (x : α × Bool) {t u : List (α × Bool)} : Masks run loud few t u → Masks run loud few (x :: t) (x :: u)
  | replace {consumed t u : List (α × Bool)} {out : List α} : Hides run loud few (plain consumed) out (plain t) →
      Masks run loud few t u → Masks run loud few (consumed ++ t) (remark consumed out ++ u)

namespace Masks

variable {t u : List (α × Bool)}

theorem append_left (h : Masks run loud few t u) (kept : List (α × Bool)) :
    Masks run loud few (kept ++ t) (kept ++ u) := by
  induction kept with
  | nil => exact h
  | cons x kept ih => exact .copy x ih

/-- The run at the beginning of a text stays what it was, with its marks. -/
theorem takeWhile_eq (h : Masks run loud few t u) :
    u.takeWhile (fun x : α × Bool => run x.1) = t.takeWhile (fun x : α × Bool => run x.1) := by
  induction h with
  | nil => rfl
  | copy x _ ih => rw [List.takeWhile_cons, List.takeWhile_cons, ih]
  | @replace consumed t u out hides _ ih =>
    obtain ⟨k, m, ⟨d, hd⟩, rfl, ⟨a, ha, hrun⟩, -⟩ := hides.kept
    obtain ⟨kept, dropped, rfl, rfl, -⟩ := List.map_eq_append_iff.mp hd.symm
    have hexists : ∃ x ∈ kept, run x.1 = false := by
      obtain ⟨x, hx, rfl⟩ := List.mem_map.mp ha
      exact ⟨x, hx, hrun⟩
    have hremark := remark_append kept dropped m
    rw [plain] at hremark
    rw [hremark, List.append_assoc, List.append_assoc, takeWhile_append_of_exists hexists,
      takeWhile_append_of_exists hexists]

/-- No loud symbol is marked that was not. -/
theorem filter_sublist (h : Masks run loud few t u) :
    ((picked u).filter loud).Sublist ((picked t).filter loud) := by
  induction h with
  | nil => exact List.Sublist.refl _
  | @copy x t u _ ih =>
    rw [picked_cons x u, picked_cons x t, List.filter_append, List.filter_append]
    exact ih.append_left _
  | replace hides _ ih =>
    obtain ⟨k, m, hk, rfl, -, hquiet⟩ := hides.kept
    rw [picked_append, picked_append, List.filter_append, List.filter_append]
    exact (filter_remark hquiet hk).append ih

/-- A text without marks gets none. -/
theorem bare_right (h : Masks run loud few t u) {l : List α} (ht : t = bare l) : ∃ m, u = bare m := by
  induction h generalizing l with
  | nil => exact ⟨[], rfl⟩
  | @copy x t u _ ih =>
    obtain ⟨k, m, rfl, hx, rfl⟩ := bare_of_append (t := [x]) ht.symm
    obtain ⟨m, rfl⟩ := ih rfl
    exact ⟨k ++ m, by rw [bare_append, ← hx]; rfl⟩
  | replace _ _ ih =>
    obtain ⟨k, m, rfl, rfl, rfl⟩ := bare_of_append ht.symm
    obtain ⟨m, rfl⟩ := ih rfl
    exact ⟨_, by rw [remark_bare, ← bare_append]⟩

/-- A marked run at the beginning of a text comes through. -/
theorem front (h : Masks run loud few t u) {mid after : List α} (ht : t = tagged mid ++ bare after)
    (hrun : ∀ a ∈ mid, run a = true) :
    ∃ after', u = tagged mid ++ bare after' ∧ after'.takeWhile run = after.takeWhile run := by
  have htake := h.takeWhile_eq
  have hsplit : ∃ after', u = tagged mid ++ bare after' := by
    induction h generalizing mid with
    | nil =>
      obtain ⟨hmid, -⟩ := List.append_eq_nil_iff.mp ht.symm
      rw [hmid]
      exact ⟨[], rfl⟩
    | @copy x t u h ih =>
      cases mid with
      | nil => exact (Masks.copy x h).bare_right ht
      | cons a mid =>
        obtain ⟨rfl, rfl⟩ := List.cons.inj ht
        obtain ⟨after', rfl⟩ := ih rfl (fun b hb => hrun b (List.mem_cons_of_mem a hb)) h.takeWhile_eq
        exact ⟨after', rfl⟩
    | @replace consumed t u out hides h ih =>
      obtain ⟨k, m, hk, rfl, ⟨a, ha, hno⟩, -⟩ := hides.kept
      rcases List.append_eq_append_iff.mp ht with ⟨rest, hmid, -⟩ | ⟨rest, hconsumed, hafter⟩
      · -- the kept beginning leaves the run
        obtain ⟨c, _, rfl, rfl, -⟩ := tagged_of_append hmid
        rw [plain_tagged] at hk
        rw [hrun a (List.mem_append_left _ (hk.subset ha))] at hno
        cases hno
      · obtain ⟨c, r, rfl, rfl, rfl⟩ := bare_of_append hafter
        subst hconsumed
        rw [plain_append, plain_tagged, plain_bare] at hk
        obtain ⟨more, rfl⟩ : mid <+: k := by
          rcases List.prefix_or_prefix_of_prefix hk (List.prefix_append mid c) with hle | hle
          · rw [hrun a (hle.subset ha)] at hno
            cases hno
          · exact hle
        obtain ⟨after', rfl⟩ := h.bare_right rfl
        refine ⟨more ++ m ++ after', ?_⟩
        have hremark := remark_append (tagged mid) (bare c) (more ++ m)
        rw [plain_tagged] at hremark
        rw [List.append_assoc, hremark, remark_bare, List.append_assoc, ← bare_append]
  obtain ⟨after', rfl⟩ := hsplit
  refine ⟨after', rfl, ?_⟩
  have hall : ∀ x ∈ tagged mid, run x.1 = true := by
    rintro x hx
    obtain ⟨a, ha, rfl⟩ := List.mem_map.mp hx
    exact hrun a ha
  rw [ht, List.takeWhile_append_of_pos hall, List.takeWhile_append_of_pos hall, takeWhile_bare, takeWhile_bare,
    List.append_cancel_left_eq] at htake
  have hplain := congrArg plain htake
  rwa [plain_bare, plain_bare] at hplain

/-- **A marked stretch comes through in one piece, and the runs that meet it are what they were, or few loud symbols
stand for it.** -/
theorem around (h : Masks run loud few t u) {before mid after : List α}
    (ht : t = bare before ++ (tagged mid ++ bare after)) (hrun : ∀ a ∈ mid, run a = true) (hne : mid ≠ []) :
    (∃ before' after', u = bare before' ++ (tagged mid ++ bare after') ∧
      (∀ front, trail run (front ++ before') = trail run (front ++ before)) ∧
      after'.takeWhile run = after.takeWhile run) ∨ ((picked u).filter loud).Sublist few := by
  induction h generalizing before with
  | nil => exact .inr (List.nil_sublist _)
  | @copy x t u h ih =>
    cases before with
    | nil =>
      obtain ⟨after', hu, htake⟩ := (Masks.copy x h).front ht hrun
      exact .inl ⟨[], after', hu, fun _ => rfl, htake⟩
    | cons b before =>
      obtain ⟨rfl, rfl⟩ := List.cons.inj ht
      rcases ih rfl with ⟨before', after', rfl, htrail, htake⟩ | hfew
      · refine .inl ⟨b :: before', after', rfl, fun front => ?_, htake⟩
        have hb := htrail (front ++ [b])
        rwa [List.append_assoc, List.append_assoc] at hb
      · exact .inr (by rwa [picked_cons])
  | @replace consumed t u out hides h ih =>
    rcases hides.boundary ht hrun with ⟨stretch, between, rfl, rfl, hrest⟩ | ⟨rest, rfl⟩
    · rcases ih hrest with ⟨before', after', rfl, htrail, htake⟩ | hfew
      · refine .inl ⟨out ++ before', after', by rw [remark_bare, bare_append, List.append_assoc], fun front => ?_,
          htake⟩
        rw [← List.append_assoc, htrail, ← List.append_assoc]
        by_cases hbetween : ∃ b ∈ between, run b = false
        · rw [trail_append_of_exists hbetween, trail_append_of_exists hbetween]
        · -- the run reaches back to the stretch, which ends outside it
          obtain ⟨b, hb, hbrun⟩ : ∃ b, (plain t).head? = some b ∧ run b = true := by
            rw [hrest, plain_append, plain_append, plain_bare, plain_tagged]
            cases between with
            | nil =>
              obtain ⟨a, mid, rfl⟩ := List.exists_cons_of_ne_nil hne
              exact ⟨a, rfl, hrun a List.mem_cons_self⟩
            | cons b between =>
              refine ⟨b, rfl, ?_⟩
              by_contra hb
              exact hbetween ⟨b, List.mem_cons_self, by simpa using hb⟩
          obtain ⟨k, m, hstretch, rfl, ⟨c, hc, -⟩, -⟩ := hides.kept
          rw [plain_bare] at hstretch
          have hlast := List.getLast?_eq_some_getLast (List.ne_nil_of_mem (hstretch.subset hc))
          have hlast' := List.getLast?_eq_some_getLast (List.ne_nil_of_mem (List.mem_append_left m hc))
          rw [trail_append_last hlast' (hides.last _ hlast'),
            trail_append_last hlast (hides.apart b _ hb hbrun (by rwa [plain_bare]))]
      · exact .inr (by rwa [remark_bare, picked_append, picked_bare, List.nil_append])
    · -- nothing is marked behind the stretch
      obtain ⟨m, rfl⟩ := h.bare_right rfl
      rw [picked_append, picked_bare, List.append_nil]
      exact .inr (((picked_remark consumed out).filter loud).trans hides.few)

end Masks

/-- Each replacement of the rule leaves the stretch as it is or hides a part of it. -/
def Rule.Masking (rule : Rule α) (run loud : α → Bool) (few : List α) : Prop :=
  ∀ place out next, rule.rewrite place = some (out, next) →
    ∃ consumed, place.rest = consumed ++ next.rest ∧ (out = consumed ∨ Hides run loud few consumed out next.rest)

namespace Rule.Masking

variable {rule : Rule α}

omit [DecidableEq α] in
theorem forward (h : rule.Masking run loud few) : rule.Forward := by
  intro place out next hsome
  obtain ⟨consumed, hrest, -⟩ := h place out next hsome
  exact ⟨consumed, hrest.symm⟩

/-- **The pass of such a rule masks.** -/
theorem masks (h : rule.Masking run loud few) (prev : Option α) (t : List (α × Bool)) :
    Masks run loud few t (rule.carry prev t) := by
  induction prev, t using carry_induction h.forward with
  | nil prev =>
    rw [carry_nil]
    exact .nil
  | copy prev x t hnone ih =>
    rw [carry_of_none hnone]
    exact .copy x ih
  | replace prev consumed t out next hsome hnext ih =>
    rw [carry_of_some hsome hnext]
    obtain ⟨stretch, hrest, hout⟩ := h _ out next hsome
    have hstretch : stretch = plain consumed := by
      rw [hnext, plain_append] at hrest
      exact (List.append_cancel_right hrest).symm
    subst hstretch
    rcases hout with rfl | hhides
    · rw [remark_self]
      exact ih.append_left consumed
    · exact .replace (hnext ▸ hhides) ih

end Rule.Masking

end Masks

end FluxRs.Lib.Rewrite
