import FluxRs.Bugreport.Carried

/-!
# FluxRs.Bugreport.Tokens — what the scanner of the addresses makes of a run

The scanner takes a whole run of hex digits, dots and colons and masks it or copies it.  A stretch that the scanners
before it have left alone is then in the place that the mask of its run takes; a stretch that they have hidden stays
hidden, since no replacement brings a loud symbol back.
-/

namespace FluxRs.Bugreport

open FluxRs.Lib Rewrite

/-! ### IPv4 addresses -/

section Quad

/-- The parts of an IPv4 address: the first octet, and the others. -/
structure Quad (first tail : List Char) : Prop where
  first : isOctet first = true
  tail : ∃ b c d, tail = b ++ '.' :: (c ++ '.' :: d) ∧ ∀ o ∈ [b, c, d], isOctet o = true

theorem digits_of_octet {octet : List Char} (h : isOctet octet = true) :
    octet ≠ [] ∧ ∀ c ∈ octet, c.isDigit = true := by
  rw [isOctet, Bool.and_eq_true, Bool.and_eq_true, Bool.and_eq_true, List.all_eq_true] at h
  refine ⟨?_, h.1.2⟩
  rintro rfl
  exact absurd h.1.1.1 (by decide)

/-- An octet holds digits only. -/
theorem not_mem_octet {octet : List Char} (h : isOctet octet = true) {c : Char} (hc : c.isDigit = false) :
    c ∉ octet := by
  intro hmem
  rw [(digits_of_octet h).2 c hmem] at hc
  cases hc

namespace Quad

variable {first tail : List Char}

/-- The octets of an address. -/
theorem splitOn (h : Quad first tail) : ∃ b c d, (first ++ '.' :: tail).splitOn '.' = [first, b, c, d] ∧
    ∀ o ∈ [first, b, c, d], isOctet o = true := by
  obtain ⟨b, c, d, rfl, hoctets⟩ := h.tail
  have hb := hoctets b (by simp)
  have hc := hoctets c (by simp)
  have hd := hoctets d (by simp)
  refine ⟨b, c, d, ?_, ?_⟩
  · rw [List.splitOn_append_cons_self_of_not_mem (not_mem_octet h.first (by decide)),
      List.splitOn_append_cons_self_of_not_mem (not_mem_octet hb (by decide)),
      List.splitOn_append_cons_self_of_not_mem (not_mem_octet hc (by decide)),
      List.splitOn_eq_singleton (not_mem_octet hd (by decide))]
  · intro o ho
    rcases List.mem_cons.mp ho with rfl | ho
    · exact h.first
    · exact hoctets o ho

theorem inQuad (h : Quad first tail) : ∀ c ∈ tail, Bugreport.inQuad c = true := by
  obtain ⟨b, c, d, rfl, hoctets⟩ := h.tail
  have hdigit : ∀ o ∈ [b, c, d], ∀ e ∈ o, Bugreport.inQuad e = true := by
    intro o ho e he
    rw [Bugreport.inQuad, (digits_of_octet (hoctets o ho)).2 e he]
    rfl
  intro e he
  simp only [List.mem_append, List.mem_cons] at he
  rcases he with he | rfl | he | rfl | he
  · exact hdigit b (by simp) e he
  · decide
  · exact hdigit c (by simp) e he
  · decide
  · exact hdigit d (by simp) e he

theorem dot_mem (h : Quad first tail) : '.' ∈ tail := by
  obtain ⟨b, c, d, rfl, -⟩ := h.tail
  simp

theorem head (h : Quad first tail) : ∃ e rest, tail = e :: rest ∧ e.isDigit = true := by
  obtain ⟨b, c, d, rfl, hoctets⟩ := h.tail
  obtain ⟨hne, hdigits⟩ := digits_of_octet (hoctets b (by simp))
  obtain ⟨e, rest, rfl⟩ := List.exists_cons_of_ne_nil hne
  exact ⟨e, rest ++ '.' :: (c ++ '.' :: d), rfl, hdigits e List.mem_cons_self⟩

/-- `mask_ipv4` of an address, alone or with a port. -/
theorem maskIpv4 (h : Quad first tail) {port : List Char}
    (hport : port = [] ∨ ∃ digits, port = ':' :: digits ∧ digits ≠ [] ∧ ∀ c ∈ digits, c.isDigit = true) :
    Bugreport.maskIpv4 (first ++ '.' :: tail ++ port) = some (first ++ ".x.x.x".toList ++ port) := by
  obtain ⟨b, c, d, hsplit, hoctets⟩ := h.splitOn
  have hcolon : ∀ e ∈ first ++ '.' :: tail, (e != ':') = true := by
    intro e he
    simp only [List.mem_append, List.mem_cons] at he
    rw [bne_iff_ne]
    rintro rfl
    rcases he with he | he | he
    · exact not_mem_octet h.first (by decide) he
    · cases he
    · exact absurd (h.inQuad _ he) (by decide)
  have hall : [first, b, c, d].all isOctet = true := List.all_eq_true.mpr hoctets
  have hmasked : ∀ port : List Char, (if ([first, b, c, d].length = 4 && [first, b, c, d].all isOctet) = true then
      some ([first, b, c, d].headD [] ++ ".x.x.x".toList ++ port) else none) =
        some (first ++ ".x.x.x".toList ++ port) := by
    intro port
    rw [hall]
    rfl
  unfold Bugreport.maskIpv4
  dsimp only
  rw [List.dropWhile_append_of_pos hcolon, List.takeWhile_append_of_pos hcolon]
  rcases hport with rfl | ⟨digits, rfl, hne, hdigits⟩
  · rw [List.append_nil, hsplit]
    exact hmasked []
  · have hcond : (!digits.isEmpty && digits.all Char.isDigit) = true := by
      rw [Bool.and_eq_true, List.all_eq_true]
      exact ⟨by simpa using hne, hdigits⟩
    have htake : (':' :: digits).takeWhile (· != ':') = [] := rfl
    rw [htake, List.append_nil, hsplit]
    exact (if_pos hcond).trans (hmasked _)

/-- What `mask_ipv4` masks is an address, alone or with a port. -/
theorem of_maskIpv4 {token out : List Char} (h : Bugreport.maskIpv4 token = some out) :
    ∃ first tail port, token = first ++ '.' :: tail ++ port ∧ Quad first tail ∧
      (port = [] ∨ ∃ digits, port = ':' :: digits ∧ digits ≠ [] ∧ ∀ c ∈ digits, c.isDigit = true) ∧
        out = first ++ ".x.x.x".toList ++ port := by
  have hmasked : ∀ addr port : List Char, (if (addr.splitOn '.').length = 4 && (addr.splitOn '.').all isOctet then
      some ((addr.splitOn '.').headD [] ++ ".x.x.x".toList ++ port) else none) = some out →
        ∃ first tail, addr = first ++ '.' :: tail ∧ Quad first tail ∧ out = first ++ ".x.x.x".toList ++ port := by
    intro addr port hif
    have hjoin : ['.'].intercalate (addr.splitOn '.') = addr := List.intercalate_splitOn '.'
    split at hif
    · rename_i hcond
      rw [Bool.and_eq_true, decide_eq_true_iff, List.all_eq_true] at hcond
      obtain ⟨hlength, hoctets⟩ := hcond
      obtain ⟨a, b, c, d, hsplit⟩ := List.length_eq_four.mp hlength
      rw [hsplit] at hjoin hoctets hif
      refine ⟨a, b ++ '.' :: (c ++ '.' :: d), ?_, ⟨hoctets a (by simp), b, c, d, rfl, ?_⟩, (Option.some.inj hif).symm⟩
      · rw [← hjoin]
        simp [List.intercalate]
      · exact fun o ho => hoctets o (List.mem_cons_of_mem a ho)
    · cases hif
  have hsplit := List.takeWhile_append_dropWhile (p := (· != ':')) (l := token)
  unfold Bugreport.maskIpv4 at h
  dsimp only at h
  split at h
  · rename_i c digits hrest
    split at h
    · rename_i hcond
      rw [Bool.and_eq_true, List.all_eq_true] at hcond
      obtain ⟨first, tail, haddr, hquad, hout⟩ := hmasked _ _ h
      have hc : c = ':' := by
        have hnot := List.head?_dropWhile_not (· != ':') token
        rw [hrest] at hnot
        simpa using hnot
      rw [hrest, haddr, hc] at hsplit
      exact ⟨first, tail, ':' :: digits, hsplit.symm, hquad, .inr ⟨digits, rfl, by simpa using hcond.1, hcond.2⟩, hout⟩
    · cases h
  · obtain ⟨first, tail, rfl, hquad, hout⟩ := hmasked _ _ h
    exact ⟨first, tail, [], (List.append_nil _).symm, hquad, .inl rfl, hout⟩

end Quad

end Quad

/-! ### The scanner of the addresses -/

/-- What is like an IPv6 address is no IPv4 address. -/
theorem maskIpv4_of_like {token : List Char} (h : isIpv6Like token = true) : maskIpv4 token = none := by
  have hcolons : 2 ≤ token.count ':' := by
    by_contra hless
    rw [isIpv6Like, if_pos (by omega)] at h
    cases h
  have hsplit := List.takeWhile_append_dropWhile (p := (· != ':')) (l := token)
  have hfront : (token.takeWhile (· != ':')).count ':' = 0 := by
    rw [List.count_eq_zero]
    intro hmem
    have hnot := List.mem_takeWhile_imp hmem
    simp at hnot
  rw [← hsplit, List.count_append, hfront, Nat.zero_add] at hcolons
  unfold maskIpv4
  dsimp only
  cases hrest : token.dropWhile (· != ':') with
  | nil =>
    rw [hrest] at hcolons
    exact absurd hcolons (by decide)
  | cons c port =>
    rw [hrest, List.count_cons] at hcolons
    have hport : ':' ∈ port := by
      rw [← List.count_pos_iff]
      split at hcolons <;> omega
    have hdigits : ¬(!port.isEmpty && port.all Char.isDigit) = true := by
      rw [Bool.and_eq_true, List.all_eq_true]
      rintro ⟨-, hall⟩
      exact absurd (hall ':' hport) (by decide)
    exact if_neg hdigits

theorem rewrite_token {prev : Option Char} {c : Char} {cs : List Char} (hc : isAddrByte c = true) :
    lineRule.rewrite ⟨prev, c :: cs⟩ =
      some (classifyAndMask ((c :: cs).takeWhile isAddrByte), Cursor.skip isAddrByte ⟨some c, cs⟩) := by
  have hquote : c ≠ '"' := by
    rintro rfl
    exact absurd hc (by decide)
  dsimp only [lineRule]
  rw [if_neg hquote, if_pos hc]
  rfl

theorem rewrite_other {prev : Option Char} {c : Char} {cs : List Char} (hquote : c ≠ '"') (hc : isAddrByte c = false) :
    lineRule.rewrite ⟨prev, c :: cs⟩ = none := by
  dsimp only [lineRule]
  rw [if_neg hquote, if_neg (by simp [hc])]

/-- At a quote the scanner passes it, or masks a cookie of at least six digits. -/
theorem rewrite_quote (prev : Option Char) (cs : List Char) :
    lineRule.rewrite ⟨prev, '"' :: cs⟩ = some (['"'], ⟨some '"', cs⟩) ∨
      ∃ digits rest before, cs = digits ++ ':' :: rest ∧ (∀ d ∈ digits, d.isDigit = true) ∧ 6 ≤ digits.length ∧
        lineRule.rewrite ⟨prev, '"' :: cs⟩ = some ("\"[cookie-redacted]:".toList, ⟨before, rest⟩) := by
  by_cases hcookie : (6 ≤ ((⟨some '"', cs⟩ : Cursor Char).read Char.isDigit).length &&
      (Cursor.skip Char.isDigit ⟨some '"', cs⟩).rest.head? = some ':') = true
  · right
    have hrule : lineRule.rewrite ⟨prev, '"' :: cs⟩ =
        some ("\"[cookie-redacted]:".toList, (Cursor.skip Char.isDigit ⟨some '"', cs⟩).advance 1) := by
      dsimp only [lineRule]
      rw [if_pos rfl, if_pos hcookie]
    rw [Bool.and_eq_true, decide_eq_true_eq, decide_eq_true_eq] at hcookie
    obtain ⟨rest, hrest⟩ := List.head?_eq_some_iff.mp hcookie.2
    refine ⟨(⟨some '"', cs⟩ : Cursor Char).read Char.isDigit, rest, some ':', ?_, fun d hd => List.mem_takeWhile_imp hd,
      hcookie.1, ?_⟩
    · rw [← hrest]
      exact take_skip_read Char.isDigit ⟨some '"', cs⟩
    · rw [hrule, Cursor.advance, hrest]
      rfl
  · left
    dsimp only [lineRule]
    rw [if_pos rfl, if_neg hcookie]

theorem isAddrByte_of_isDigit {c : Char} (h : c.isDigit = true) : isAddrByte c = true := by
  rw [isAddrByte, isAsciiHexdigit, h]
  rfl

theorem isAddrByte_of_inQuad {c : Char} (h : inQuad c = true) : isAddrByte c = true := by
  rw [inQuad, Bool.or_eq_true, beq_iff_eq] at h
  rcases h with h | rfl
  · exact isAddrByte_of_isDigit h
  · decide

theorem plain_around (before mid after : List Char) :
    plain (bare before ++ (tagged mid ++ bare after)) = before ++ (mid ++ after) := by
  rw [plain_append, plain_append, plain_bare, plain_tagged, plain_bare]


/-- What the scanner of the addresses puts in the place of a stretch. -/
inductive Shows : List Char → List Char → Prop
  | copy (consumed : List Char) : Shows consumed consumed
  | cookie {digits : List Char} : (∀ d ∈ digits, d.isDigit = true) →
      Shows ('"' :: (digits ++ [':'])) "\"[cookie-redacted]:".toList
  | quad {token out : List Char} : maskIpv4 token = some out → Shows token out
  | mask {token out : List Char} : (∀ c ∈ token, isAddrByte c = true) →
      out ∈ ["[mac-redacted]".toList, "[v6-redacted]".toList] → Shows token out

theorem shows_classifyAndMask {token : List Char} (h : ∀ c ∈ token, isAddrByte c = true) :
    Shows token (classifyAndMask token) := by
  rw [classifyAndMask]
  split
  · rename_i masked hmasked
    exact .quad hmasked
  · split
    · exact .mask h (by decide)
    · split
      · exact .mask h (by decide)
      · exact .copy token

/-- What the scanner replaces, and by what. -/
theorem shows_of_rewrite {place next : Cursor Char} {out : List Char} (h : lineRule.rewrite place = some (out, next)) :
    ∃ consumed, place.rest = consumed ++ next.rest ∧ Shows consumed out := by
  obtain ⟨prev, _ | ⟨c, cs⟩⟩ := place
  · cases h
  by_cases hquote : c = '"'
  · subst hquote
    rcases rewrite_quote prev cs with hrule | ⟨digits, rest, before, rfl, hdigits, -, hrule⟩
    · rw [hrule] at h
      cases h
      exact ⟨['"'], rfl, .copy _⟩
    · rw [hrule] at h
      cases h
      exact ⟨'"' :: (digits ++ [':']), by simp, .cookie hdigits⟩
  · by_cases hc : isAddrByte c = true
    · rw [rewrite_token hc] at h
      cases h
      refine ⟨(c :: cs).takeWhile isAddrByte, ?_, shows_classifyAndMask fun d hd => List.mem_takeWhile_imp hd⟩
      rw [Cursor.skip_rest, ← List.dropWhile_cons_of_pos hc, List.takeWhile_append_dropWhile]
    · rw [rewrite_other hquote (by simpa using hc)] at h
      cases h

/-! ### A stretch that is gone -/

section Faded

variable {mid out : List Char} {t u : List (Char × Bool)}

/-- Of the loud symbols hardly one is marked, and none that the stretch has not. -/
structure Faded (mid : List Char) (t : List (Char × Bool)) : Prop where
  few : ((picked t).filter isLoud).Sublist [':']
  mid : ((picked t).filter isLoud).Sublist mid

theorem Faded.not_inQuad (h : Faded mid t) : ∀ a ∈ picked t, inQuad a = false := by
  intro a ha
  rw [← Bool.not_eq_true]
  intro hquad
  have hloud : isLoud a = true := by
    rw [isLoud, hquad, Bool.or_true]
  have hcolon := h.few.subset (List.mem_filter.mpr ⟨ha, hloud⟩)
  rw [List.mem_singleton] at hcolon
  subst hcolon
  exact absurd hquad (by decide)

theorem count_eq_filter {c : Char} (hc : isLoud c = true) (text : List Char) :
    text.count c = (text.filter isLoud).count c :=
  (List.count_filter hc).symm

/-- At most one colon is marked. -/
theorem Faded.colons (h : Faded mid t) : (picked t).count ':' ≤ 1 := by
  rw [count_eq_filter (by decide)]
  exact h.few.count_le ':'

/-- Of digits and dots nothing loud is marked. -/
theorem Faded.quiet (h : Faded mid t) (hmid : ∀ a ∈ mid, inQuad a = true) : ∀ a ∈ picked t, isLoud a = false := by
  intro a ha
  rw [← Bool.not_eq_true]
  intro hloud
  have hin := hmid a (h.mid.subset (List.mem_filter.mpr ⟨ha, hloud⟩))
  rw [h.not_inQuad a ha] at hin
  cases hin

/-- A stretch of loud symbols is not marked for the sake of others. -/
theorem count_remark_of_loud (hloud : ∀ c ∈ plain t, isLoud c = true) (hquiet : ∀ a ∈ picked t, inQuad a = false)
    (hout : out.count ':' ≤ 1) : (picked (remark t out)).count ':' ≤ (picked t).count ':' := by
  cases hmarks : picked t with
  | nil =>
    rw [eq_bare hmarks, remark_bare, picked_bare]
  | cons a l =>
    have ha : a ∈ picked t := hmarks ▸ List.mem_cons_self
    have hcolon : a = ':' := by
      have h := hloud a ((picked_sublist_plain t).subset ha)
      rw [isLoud, hquiet a ha, Bool.or_false, beq_iff_eq] at h
      exact h
    have hle := ((picked_remark t out).count_le ':').trans hout
    rw [hcolon, List.count_cons_self]
    omega

theorem isLoud_of_isDigit {c : Char} (h : c.isDigit = true) : isLoud c = true := by
  rw [isLoud, inQuad, h, Bool.true_or, Bool.or_true]

theorem isLoud_of_inQuad {c : Char} (h : inQuad c = true) : isLoud c = true := by
  rw [isLoud, h, Bool.or_true]

/-- A masked IPv4 address has loud symbols only, and a colon at most. -/
theorem loud_of_maskIpv4 {token : List Char} (h : maskIpv4 token = some out) :
    (∀ c ∈ token, isLoud c = true) ∧ out.count ':' ≤ 1 := by
  obtain ⟨first, tail, port, rfl, hquad, hport, rfl⟩ := Quad.of_maskIpv4 h
  have hfirst := (digits_of_octet hquad.first).2
  have hloud : ∀ c ∈ port, isLoud c = true := by
    intro c hc
    rcases hport with rfl | ⟨digits, rfl, -, hdigits⟩
    · cases hc
    · rcases List.mem_cons.mp hc with rfl | hc
      · decide
      · exact isLoud_of_isDigit (hdigits c hc)
  refine ⟨fun c hc => ?_, ?_⟩
  · simp only [List.mem_append, List.mem_cons] at hc
    rcases hc with (hc | rfl | hc) | hc
    · exact isLoud_of_isDigit (hfirst c hc)
    · decide
    · exact isLoud_of_inQuad (hquad.inQuad c hc)
    · exact hloud c hc
  · have hnone : first.count ':' = 0 := count_eq_zero_of_forall (by decide) hfirst
    have hcolons : port.count ':' ≤ 1 := by
      rcases hport with rfl | ⟨digits, rfl, -, hdigits⟩
      · decide
      · rw [List.count_cons_self, count_eq_zero_of_forall (by decide) hdigits]
    have hdots : ".x.x.x".toList.count ':' = 0 := by decide
    rw [List.count_append, List.count_append, hnone, hdots]
    omega

/-- No replacement marks a further colon. -/
theorem Shows.colons {consumed : List Char} (h : Shows consumed out) (ht : plain t = consumed)
    (hquiet : ∀ a ∈ picked t, inQuad a = false) : (picked (remark t out)).count ':' ≤ (picked t).count ':' := by
  cases h with
  | copy => rw [← ht, remark_self]
  | cookie hdigits =>
    cases t with
    | nil => cases ht
    | cons x t =>
      obtain ⟨hx, ht⟩ := List.cons.inj ht
      have hone : remark (x :: t) ('"' :: "[cookie-redacted]:".toList) = x :: remark t "[cookie-redacted]:".toList := by
        rw [remark, if_pos hx]
      show (picked (remark (x :: t) ('"' :: "[cookie-redacted]:".toList))).count ':' ≤ _
      rw [hone, picked_cons, picked_cons x t, List.count_append, List.count_append]
      refine Nat.add_le_add_left (count_remark_of_loud (fun c hc => ?_) (fun a ha => hquiet a ?_) (by decide)) _
      · rw [← plain] at ht
        rw [ht, List.mem_append, List.mem_singleton] at hc
        rcases hc with hc | rfl
        · exact isLoud_of_isDigit (hdigits c hc)
        · decide
      · rw [picked_cons]
        exact List.mem_append_right _ ha
  | quad hmasked =>
    obtain ⟨hloud, hout⟩ := loud_of_maskIpv4 hmasked
    exact count_remark_of_loud (ht ▸ hloud) hquiet hout
  | mask _ hmask =>
    have hnone : ∀ m ∈ ["[mac-redacted]".toList, "[v6-redacted]".toList], m.count ':' = 0 := by decide
    have hle := (picked_remark t out).count_le ':'
    rw [hnone _ hmask] at hle
    omega

/-- No replacement marks a dot where nothing loud was marked. -/
theorem Shows.not_dot {consumed : List Char} (h : Shows consumed out) (ht : plain t = consumed)
    (hquiet : ∀ a ∈ picked t, isLoud a = false) : '.' ∉ picked (remark t out) := by
  have hout : '.' ∉ out → '.' ∉ picked (remark t out) := fun hno hdot => hno ((picked_remark t out).subset hdot)
  cases h with
  | copy =>
    rw [← ht, remark_self]
    intro hdot
    exact absurd (hquiet _ hdot) (by decide)
  | cookie => exact hout (by decide)
  | quad hmasked =>
    have hnil : picked t = [] := by
      rw [List.eq_nil_iff_forall_not_mem]
      intro a ha
      have hloud := (loud_of_maskIpv4 hmasked).1 a (ht ▸ (picked_sublist_plain t).subset ha)
      rw [hquiet a ha] at hloud
      cases hloud
    rw [eq_bare hnil, remark_bare, picked_bare]
    exact List.not_mem_nil
  | mask _ hmask =>
    have hnone : ∀ m ∈ ["[mac-redacted]".toList, "[v6-redacted]".toList], '.' ∉ m := by decide
    exact hout (hnone _ hmask)

theorem plain_of_rewrite {prev : Option Char} {consumed : List (Char × Bool)} {next : Cursor Char}
    (h : lineRule.rewrite ⟨prev, plain (consumed ++ t)⟩ = some (out, next)) (hnext : next.rest = plain t) :
    Shows (plain consumed) out := by
  obtain ⟨stretch, hstretch, hshows⟩ := shows_of_rewrite h
  rw [hnext, plain_append] at hstretch
  rwa [List.append_cancel_right hstretch]

/-- What is gone stays gone: the scanner of the addresses marks no further colon. -/
theorem line_colons (prev : Option Char) (t : List (Char × Bool)) (h : ∀ a ∈ picked t, inQuad a = false) :
    (picked (lineRule.carry prev t)).count ':' ≤ (picked t).count ':' := by
  induction prev, t using Rule.carry_induction forward_line with
  | nil prev => rw [Rule.carry_nil]
  | copy prev x t hnone ih =>
    rw [Rule.carry_of_none hnone, picked_cons, picked_cons x t, List.count_append, List.count_append]
    refine Nat.add_le_add_left (ih fun a ha => h a ?_) _
    rw [picked_cons]
    exact List.mem_append_right _ ha
  | replace prev consumed t out next hsome hnext ih =>
    rw [Rule.carry_of_some hsome hnext, picked_append, picked_append, List.count_append, List.count_append]
    rw [picked_append] at h
    exact Nat.add_le_add ((plain_of_rewrite hsome hnext).colons rfl fun a ha => h a (List.mem_append_left _ ha))
      (ih fun a ha => h a (List.mem_append_right _ ha))

/-- Where nothing loud is marked, the scanner of the addresses marks no dot. -/
theorem line_not_dot (prev : Option Char) (t : List (Char × Bool)) (h : ∀ a ∈ picked t, isLoud a = false) :
    '.' ∉ picked (lineRule.carry prev t) := by
  induction prev, t using Rule.carry_induction forward_line with
  | nil prev => rw [Rule.carry_nil]; exact List.not_mem_nil
  | copy prev x t hnone ih =>
    rw [picked_cons] at h
    rw [Rule.carry_of_none hnone, picked_cons, List.mem_append, not_or]
    refine ⟨fun hdot => ?_, ih fun a ha => h a (List.mem_append_right _ ha)⟩
    exact absurd (h _ (List.mem_append_left _ hdot)) (by decide)
  | replace prev consumed t out next hsome hnext ih =>
    rw [picked_append] at h
    rw [Rule.carry_of_some hsome hnext, picked_append, List.mem_append, not_or]
    exact ⟨(plain_of_rewrite hsome hnext).not_dot rfl fun a ha => h a (List.mem_append_left _ ha),
      ih fun a ha => h a (List.mem_append_right _ ha)⟩

theorem domain_filter (prev : Option Char) (t : List (Char × Bool)) :
    ((picked (domainRule.carry prev t)).filter isLoud).Sublist ((picked t).filter isLoud) := by
  refine Rule.filter_carry ?_ prev t
  rintro ⟨prev, _ | ⟨c, cs⟩⟩ out next h
  · cases h
  · dsimp only [domainRule] at h
    split at h
    · rename_i hc
      cases h
      refine ⟨(c :: cs).takeWhile isDomainByte, ?_, ?_⟩
      · rw [Cursor.skip_rest, ← List.dropWhile_cons_of_pos hc, List.takeWhile_append_dropWhile]
      · split
        · exact .inr (forall_of_all (by decide))
        · exact .inl rfl
    · cases h

end Faded

/-! ### A stretch that is there -/

section Kept

variable {mid before after : List Char} {t u : List (Char × Bool)}

/-- The stretch is there in one piece, between the runs that met it. -/
def Kept (before mid after : List Char) (t : List (Char × Bool)) : Prop :=
  ∃ before' after', t = bare before' ++ (tagged mid ++ bare after') ∧
    trail isAddrByte before' = trail isAddrByte before ∧ after'.takeWhile isAddrByte = after.takeWhile isAddrByte

/-- What a pass that masks makes of the stretch. -/
theorem kept_or_faded (hrun : ∀ a ∈ mid, isAddrByte a = true) (hne : mid ≠ []) (h : Masks isAddrByte isLoud [':'] t u)
    (ht : Kept before mid after t ∨ Faded mid t) : Kept before mid after u ∨ Faded mid u := by
  rcases ht with ⟨before', after', rfl, htrail, htake⟩ | hfaded
  · rcases h.around rfl hrun hne with ⟨before'', after'', rfl, htrail', htake'⟩ | hfew
    · exact .inl ⟨before'', after'', rfl, (htrail' []).trans htrail, htake'.trans htake⟩
    · refine .inr ⟨hfew, h.filter_sublist.trans ?_⟩
      rw [picked_append, picked_append, picked_bare, picked_tagged, picked_bare, List.append_nil]
      exact List.filter_sublist
  · exact .inr ⟨h.filter_sublist.trans hfaded.few, h.filter_sublist.trans hfaded.mid⟩

/-- **The scanners before the addresses leave the stretch and the runs around it alone, or it is gone.** -/
theorem credentials_kept_or_faded (hrun : ∀ a ∈ mid, isAddrByte a = true) (hne : mid ≠ []) (before after : List Char) :
    Kept before mid after (carryCredentials (bare before ++ (tagged mid ++ bare after))) ∨
      Faded mid (carryCredentials (bare before ++ (tagged mid ++ bare after))) := by
  have huserinfo := kept_or_faded hrun hne (lawful_userinfo.masking.masks none _)
    (.inl ⟨before, after, rfl, rfl, rfl⟩ : Kept before mid after _ ∨ _)
  have hqueries := kept_or_faded hrun hne (masks_queries false _) huserinfo
  have hassignments := kept_or_faded hrun hne (lawful_assignment.masking.masks none _) hqueries
  exact kept_or_faded hrun hne (lawful_tag.masking.masks none _) hassignments

/-- What a token may have of the run before a stretch: all of it, or what a cookie leaves. -/
def Remains (front rest : List Char) : Prop :=
  rest = front ∨ ∃ digits, front = digits ++ ':' :: rest ∧ (∀ d ∈ digits, d.isDigit = true) ∧ 6 ≤ digits.length

/-- No cookie ends in the stretch. -/
def Uncut (front mid : List Char) : Prop :=
  ∀ digits rest more, front ++ (mid ++ more) = digits ++ ':' :: rest → (∀ d ∈ digits, d.isDigit = true) →
    6 ≤ digits.length → digits.length < front.length

/-- What stands for the stretch in the place of a token. -/
def shown (front mid back : List Char) : List Char :=
  picked (remark (bare front ++ (tagged mid ++ bare back)) (classifyAndMask (front ++ (mid ++ back))))

/-- A token that begins at the place of the scanner. -/
theorem line_token (prev : Option Char) (hrun : ∀ a ∈ mid, isAddrByte a = true) (hne : mid ≠ [])
    (hbefore : ∀ b ∈ before, isAddrByte b = true) :
    picked (lineRule.carry prev (bare before ++ (tagged mid ++ bare after))) =
      shown before mid (after.takeWhile isAddrByte) := by
  have hsplit : bare before ++ (tagged mid ++ bare after) =
      (bare before ++ (tagged mid ++ bare (after.takeWhile isAddrByte))) ++ bare (after.dropWhile isAddrByte) := by
    rw [List.append_assoc, List.append_assoc, ← bare_append, List.takeWhile_append_dropWhile]
  have htake : (before ++ (mid ++ after)).takeWhile isAddrByte = before ++ (mid ++ after.takeWhile isAddrByte) := by
    rw [List.takeWhile_append_of_pos hbefore, List.takeWhile_append_of_pos hrun]
  have hdrop : (before ++ (mid ++ after)).dropWhile isAddrByte = after.dropWhile isAddrByte := by
    rw [List.dropWhile_append_of_pos hbefore, List.dropWhile_append_of_pos hrun]
  obtain ⟨c, cs, hcons⟩ : ∃ c cs, before ++ (mid ++ after) = c :: cs :=
    List.exists_cons_of_ne_nil (by simp [hne])
  have hc : isAddrByte c = true := by
    by_contra hno
    rw [hcons, List.takeWhile_cons_of_neg hno] at htake
    exact hne (List.append_eq_nil_iff.mp (List.append_eq_nil_iff.mp htake.symm).2).1
  have hrule : lineRule.rewrite ⟨prev, plain ((bare before ++ (tagged mid ++ bare (after.takeWhile isAddrByte))) ++
      bare (after.dropWhile isAddrByte))⟩ =
        some (classifyAndMask (before ++ (mid ++ after.takeWhile isAddrByte)),
          Cursor.skip isAddrByte ⟨some c, cs⟩) := by
    rw [← hsplit, plain_around, ← htake, hcons]
    exact rewrite_token hc
  have hnext : (Cursor.skip isAddrByte ⟨some c, cs⟩).rest = plain (bare (after.dropWhile isAddrByte)) := by
    rw [Cursor.skip_rest, plain_bare, ← hdrop, hcons, List.dropWhile_cons_of_pos hc]
  rw [hsplit, Rule.carry_of_some hrule hnext, picked_append, Rule.carry_bare forward_line, picked_bare, List.append_nil]
  rfl

/-- The scanner passes a symbol that is in no run. -/
theorem picked_line_other (prev : Option Char) {c : Char} (cs : List Char) (t : List (Char × Bool)) (hquote : c ≠ '"')
    (hc : isAddrByte c = false) :
    picked (lineRule.carry prev (bare (c :: cs) ++ t)) = picked (lineRule.carry (some c) (bare cs ++ t)) := by
  have hnone : lineRule.rewrite ⟨prev, plain ((c, false) :: (bare cs ++ t))⟩ = none := rewrite_other hquote hc
  show picked (lineRule.carry prev ((c, false) :: (bare cs ++ t))) = _
  rw [Rule.carry_of_none hnone, picked_cons]
  rfl

/-- The scanner passes a run that ends before the stretch. -/
theorem picked_line_run (prev : Option Char) {c : Char} {cs : List Char} (t : List (Char × Bool))
    (hc : isAddrByte c = true) (hstop : ∃ b ∈ cs, isAddrByte b = false) :
    ∃ prev', picked (lineRule.carry prev (bare (c :: cs) ++ t)) =
      picked (lineRule.carry prev' (bare (cs.dropWhile isAddrByte) ++ t)) := by
  have hsplit : bare (c :: cs) ++ t = bare (c :: cs.takeWhile isAddrByte) ++ (bare (cs.dropWhile isAddrByte) ++ t) := by
    rw [← List.append_assoc, ← bare_append, List.cons_append, List.takeWhile_append_dropWhile]
  have hrule : lineRule.rewrite
      ⟨prev, plain (bare (c :: cs.takeWhile isAddrByte) ++ (bare (cs.dropWhile isAddrByte) ++ t))⟩ =
        some (classifyAndMask ((c :: (cs ++ plain t)).takeWhile isAddrByte),
          Cursor.skip isAddrByte ⟨some c, cs ++ plain t⟩) := by
    rw [← hsplit, plain_append, plain_bare]
    exact rewrite_token hc
  have hnext : (Cursor.skip isAddrByte ⟨some c, cs ++ plain t⟩).rest = plain (bare (cs.dropWhile isAddrByte) ++ t) := by
    have hne : ¬(cs.dropWhile isAddrByte).isEmpty = true := by
      rw [List.isEmpty_iff, List.dropWhile_eq_nil_iff]
      intro hall
      obtain ⟨b, hb, hno⟩ := hstop
      rw [hall b hb] at hno
      cases hno
    rw [Cursor.skip_rest, List.dropWhile_append, if_neg hne, plain_append, plain_bare]
  refine ⟨(Cursor.skip isAddrByte ⟨some c, cs ++ plain t⟩).prev, ?_⟩
  rw [hsplit, Rule.carry_of_some hrule hnext, remark_bare, picked_append, picked_bare, List.nil_append]

/-- The scanner passes a quote, or a quote and a cookie. -/
theorem picked_line_quote (prev : Option Char) (cs : List Char) (t : List (Char × Bool)) :
    picked (lineRule.carry prev (bare ('"' :: cs) ++ t)) = picked (lineRule.carry (some '"') (bare cs ++ t)) ∨
      ∃ digits rest, cs ++ plain t = digits ++ ':' :: rest ∧ (∀ d ∈ digits, d.isDigit = true) ∧ 6 ≤ digits.length ∧
        ∀ back, cs = digits ++ ':' :: back → ∃ prev', picked (lineRule.carry prev (bare ('"' :: cs) ++ t)) =
          picked (lineRule.carry prev' (bare back ++ t)) := by
  have hplain : plain (bare ('"' :: cs) ++ t) = '"' :: (cs ++ plain t) := by
    rw [plain_append, plain_bare, List.cons_append]
  rcases rewrite_quote prev (cs ++ plain t) with hrule | ⟨digits, rest, before, hsplit, hdigits, hlength, hrule⟩
  · left
    have hrule' : lineRule.rewrite ⟨prev, plain (bare ['"'] ++ (bare cs ++ t))⟩ =
        some (['"'], ⟨some '"', cs ++ plain t⟩) := by
      rw [← List.append_assoc, ← bare_append, List.singleton_append, hplain]
      exact hrule
    have hnext : cs ++ plain t = plain (bare cs ++ t) := by
      rw [plain_append, plain_bare]
    show picked (lineRule.carry prev (bare ['"'] ++ (bare cs ++ t))) = _
    rw [Rule.carry_of_some hrule' hnext, remark_bare, picked_append, picked_bare, List.nil_append]
  · refine .inr ⟨digits, rest, hsplit, hdigits, hlength, ?_⟩
    rintro back rfl
    have hrest : rest = plain (bare back ++ t) := by
      rw [List.append_assoc, List.append_cancel_left_eq, List.cons_append] at hsplit
      rw [plain_append, plain_bare]
      exact (List.cons.inj hsplit).2.symm
    have hbare : bare ('"' :: (digits ++ ':' :: back)) ++ t = bare ('"' :: (digits ++ [':'])) ++ (bare back ++ t) := by
      rw [← List.append_assoc, ← bare_append]
      simp
    have hrule' : lineRule.rewrite ⟨prev, plain (bare ('"' :: (digits ++ [':'])) ++ (bare back ++ t))⟩ =
        some ("\"[cookie-redacted]:".toList, ⟨before, rest⟩) := by
      rw [← hbare, hplain]
      exact hrule
    refine ⟨before, ?_⟩
    rw [hbare, Rule.carry_of_some hrule' hrest, remark_bare, picked_append, picked_bare, List.nil_append]

/-- A cookie that does not cut the stretch ends before it. -/
theorem cookie_before {cs digits rest : List Char} (huncut : Uncut (trail isAddrByte cs) mid)
    (hsplit : cs ++ (mid ++ after) = digits ++ ':' :: rest) (hdigits : ∀ d ∈ digits, d.isDigit = true)
    (hlength : 6 ≤ digits.length) : digits ++ [':'] <+: cs := by
  have hless : digits.length < cs.length := by
    by_contra hle
    -- the cookie would end in the stretch
    have hcs : cs <+: digits := by
      refine List.prefix_of_prefix_length_le (List.prefix_append cs (mid ++ after)) ?_ (Nat.not_lt.mp hle)
      rw [hsplit]
      exact List.prefix_append _ _
    rw [trail_of_all fun b hb => isAddrByte_of_isDigit (hdigits b (hcs.subset hb))] at huncut
    exact hle (huncut digits rest after hsplit hdigits hlength)
  refine List.prefix_of_prefix_length_le ?_ (List.prefix_append cs (mid ++ after)) ?_
  · rw [hsplit]
    exact ⟨rest, by simp⟩
  · rw [List.length_append, List.length_singleton]
    exact hless

/-- A cookie is in the run of what stands behind it. -/
theorem trail_cookie {digits back : List Char} (hdigits : ∀ d ∈ digits, d.isDigit = true)
    (hback : ∀ b ∈ back, isAddrByte b = true) :
    trail isAddrByte (digits ++ [':'] ++ back) = digits ++ [':'] ++ back := by
  refine trail_of_all fun b hb => ?_
  simp only [List.mem_append, List.mem_singleton] at hb
  rcases hb with (hb | rfl) | hb
  · exact isAddrByte_of_isDigit (hdigits b hb)
  · decide
  · exact hback b hb

/-- **What stands for the stretch is what stands for it in the place of its token.** -/
theorem line_shows (hrun : ∀ a ∈ mid, isAddrByte a = true) (hne : mid ≠ [])
    (huncut : Uncut (trail isAddrByte before) mid) (prev : Option Char) :
    ∃ rest, Remains (trail isAddrByte before) rest ∧
      picked (lineRule.carry prev (bare before ++ (tagged mid ++ bare after))) =
        shown rest mid (after.takeWhile isAddrByte) := by
  induction hn : before.length using Nat.strongRecOn generalizing before prev with
  | _ n ih =>
    subst hn
    by_cases hall : ∀ b ∈ before, isAddrByte b = true
    · rw [trail_of_all hall]
      exact ⟨before, .inl rfl, line_token prev hrun hne hall⟩
    have hexists : ∃ b ∈ before, isAddrByte b = false := by
      simpa using hall
    cases before with
    | nil => exact absurd (fun b hb => absurd hb List.not_mem_nil) hall
    | cons c cs =>
      by_cases hquote : c = '"'
      · subst hquote
        rw [trail_cons (by decide)] at huncut ⊢
        rcases picked_line_quote prev cs (tagged mid ++ bare after) with
          hpicked | ⟨digits, rest, hsplit, hdigits, hlength, hcookie⟩
        · rw [hpicked]
          exact ih _ (Nat.lt_succ_self _) huncut (some '"') rfl
        · rw [plain_append, plain_tagged, plain_bare] at hsplit
          obtain ⟨back, rfl⟩ := cookie_before huncut hsplit hdigits hlength
          obtain ⟨prev', hpicked⟩ := hcookie back (by simp)
          rw [hpicked]
          by_cases hback : ∃ b ∈ back, isAddrByte b = false
          · rw [trail_append_of_exists hback] at huncut ⊢
            refine ih _ ?_ huncut prev' rfl
            simp only [List.length_cons, List.length_append]
            omega
          · -- what is left of the run is the token
            have hrun' : ∀ b ∈ back, isAddrByte b = true := by
              simpa using hback
            rw [trail_cookie hdigits hrun']
            exact ⟨back, .inr ⟨digits, by simp, hdigits, hlength⟩, line_token prev' hrun hne hrun'⟩
      · by_cases hc : isAddrByte c = true
        · have hcs : ∃ b ∈ cs, isAddrByte b = false := by
            obtain ⟨b, hb, hno⟩ := hexists
            rcases List.mem_cons.mp hb with rfl | hb
            · rw [hc] at hno
              cases hno
            · exact ⟨b, hb, hno⟩
          obtain ⟨prev', hpicked⟩ := picked_line_run prev (tagged mid ++ bare after) hc hcs
          rw [← trail_dropWhile hexists, List.dropWhile_cons_of_pos hc] at huncut ⊢
          rw [hpicked]
          exact ih _ (Nat.lt_succ_of_le (List.dropWhile_sublist _).length_le) huncut prev' rfl
        · have hother : isAddrByte c = false := by simpa using hc
          rw [trail_cons hother] at huncut ⊢
          rw [picked_line_other prev cs _ hquote hother]
          exact ih _ (Nat.lt_succ_self _) huncut (some c) rfl

end Kept

/-! ### The whole text -/

theorem not_break_of_run {c : Char} (h : isAddrByte c = true) : c ≠ '\n' := by
  rintro rfl
  exact absurd h (by decide)

theorem splitMarked_bare (text : List Char) : splitMarked (bare text) = (splitInclusive text).map bare := by
  induction text with
  | nil => rfl
  | cons c cs ih =>
    show splitMarked ((c, false) :: bare cs) = _
    rw [splitMarked, splitInclusive, ih]
    split
    · rfl
    · cases splitInclusive cs with
      | nil => rfl
      | cons line lines => rfl

/-- The run at the beginning of a text is one of its first line. -/
theorem takeWhile_firstLine (text : List Char) :
    ((splitInclusive text).headD []).takeWhile isAddrByte = text.takeWhile isAddrByte := by
  induction text with
  | nil => rfl
  | cons c cs ih =>
    rw [splitInclusive]
    split
    · rename_i hc
      subst hc
      rfl
    · cases hlines : splitInclusive cs with
      | nil =>
        rw [hlines] at ih
        dsimp only [List.headD]
        rw [List.takeWhile_cons, List.takeWhile_cons, ← ih]
        rfl
      | cons line lines =>
        rw [hlines] at ih
        dsimp only [List.headD] at ih ⊢
        rw [List.takeWhile_cons, List.takeWhile_cons, ih]

theorem splitMarked_tagged {mid : List Char} (hrun : ∀ a ∈ mid, isAddrByte a = true) (hne : mid ≠ [])
    (post : List Char) :
    splitMarked (tagged mid ++ bare post) =
      (tagged mid ++ bare ((splitInclusive post).headD [])) :: (splitInclusive post).tail.map bare := by
  induction mid with
  | nil => exact absurd rfl hne
  | cons a mid ih =>
    have ha := not_break_of_run (hrun a List.mem_cons_self)
    show splitMarked ((a, true) :: (tagged mid ++ bare post)) = _
    rw [splitMarked, if_neg ha]
    by_cases hmid : mid = []
    · subst hmid
      have hnil : tagged [] ++ bare post = bare post := rfl
      rw [hnil, splitMarked_bare]
      cases splitInclusive post with
      | nil => rfl
      | cons line lines => rfl
    · rw [ih (fun b hb => hrun b (List.mem_cons_of_mem a hb)) hmid]
      rfl

/-- The line of a stretch, among lines without a mark. -/
theorem exists_line {mid : List Char} (hrun : ∀ a ∈ mid, isAddrByte a = true) (hne : mid ≠ []) (pre post : List Char) :
    ∃ (earlier : List (List Char)) (line : List Char) (later : List (List Char)),
      splitMarked (bare pre ++ (tagged mid ++ bare post)) =
        earlier.map bare ++ (bare line ++ (tagged mid ++ bare ((splitInclusive post).headD []))) :: later.map bare ∧
      ((earlier = [] ∧ line = pre) ∨ (earlier ≠ [] ∧ ∃ before, pre = before ++ '\n' :: line)) := by
  induction pre with
  | nil => exact ⟨[], [], _, splitMarked_tagged hrun hne post, .inl ⟨rfl, rfl⟩⟩
  | cons c pre ih =>
    obtain ⟨earlier, line, later, hlines, hpre⟩ := ih
    show ∃ (earlier : List (List Char)) (line : List Char) (later : List (List Char)),
      splitMarked ((c, false) :: (bare pre ++ (tagged mid ++ bare post))) = _ ∧ _
    rw [splitMarked, hlines]
    by_cases hc : c = '\n'
    · subst hc
      rw [if_pos rfl]
      refine ⟨['\n'] :: earlier, line, later, rfl, .inr ⟨List.cons_ne_nil _ _, ?_⟩⟩
      rcases hpre with ⟨-, rfl⟩ | ⟨-, before, rfl⟩
      · exact ⟨[], rfl⟩
      · exact ⟨'\n' :: before, rfl⟩
    · rw [if_neg hc]
      cases earlier with
      | nil =>
        rcases hpre with ⟨-, rfl⟩ | ⟨hno, -⟩
        · exact ⟨[], c :: line, later, rfl, .inl ⟨rfl, rfl⟩⟩
        · exact absurd rfl hno
      | cons first earlier =>
        rcases hpre with ⟨hno, -⟩ | ⟨-, before, rfl⟩
        · exact absurd hno (List.cons_ne_nil _ _)
        · exact ⟨(c :: first) :: earlier, line, later, rfl, .inr ⟨List.cons_ne_nil _ _, c :: before, rfl⟩⟩

section Whole

variable {mid pre post : List Char} {hid : List Char → Prop}

/-- What says of the marked symbols that they do not show the stretch. -/
structure Hiding (mid : List Char) (hid : List Char → Prop) : Prop where
  filter : ∀ {l m : List Char}, (l.filter isLoud).Sublist (m.filter isLoud) → hid m → hid l
  faded : ∀ {t : List (Char × Bool)} (prev : Option Char), Faded mid t → hid (picked (lineRule.carry prev t))

/-- One line hides what the token of the stretch hides. -/
theorem hid_one (hhid : Hiding mid hid) (hrun : ∀ a ∈ mid, isAddrByte a = true) (hne : mid ≠ [])
    {before after : List Char}
    (huncut : Uncut (trail isAddrByte before) mid)
    (h : ∀ rest, Remains (trail isAddrByte before) rest → hid (shown rest mid (after.takeWhile isAddrByte))) :
    hid (picked (carryOne (bare before ++ (tagged mid ++ bare after)))) := by
  rw [carryOne]
  refine hhid.filter (domain_filter none _) ?_
  rcases credentials_kept_or_faded hrun hne before after with ⟨before', after', hkept, htrail, htake⟩ | hfaded
  · rw [hkept]
    rw [← htrail] at huncut h
    obtain ⟨rest, hremains, hshown⟩ := @line_shows mid before' after' hrun hne huncut none
    rw [hshown, htake]
    exact h rest hremains
  · exact hhid.faded none hfaded

/-- **The report hides what the token of the stretch hides.** -/
theorem hid_standIn (hhid : Hiding mid hid) (hrun : ∀ a ∈ mid, isAddrByte a = true) (hne : mid ≠ [])
    (huncut : Uncut (trail isAddrByte pre) mid)
    (h : ∀ rest, Remains (trail isAddrByte pre) rest → hid (shown rest mid (post.takeWhile isAddrByte))) :
    hid (standIn pre mid post) := by
  obtain ⟨earlier, line, later, hlines, hpre⟩ := exists_line hrun hne pre post
  have hbare : ∀ lines : List (List Char), picked ((lines.map bare).flatMap carryOne) = [] := by
    intro lines
    induction lines with
    | nil => rfl
    | cons line lines ih =>
      rw [List.map_cons, List.flatMap_cons, picked_append, picked_carryOne_bare, ih, List.append_nil]
  have htrail : trail isAddrByte line = trail isAddrByte pre := by
    rcases hpre with ⟨-, rfl⟩ | ⟨-, before, rfl⟩
    · rfl
    · exact (trail_append_cons (by decide) before line).symm
  rw [standIn, redactMarked, hlines, List.flatMap_append, List.flatMap_cons, picked_append, picked_append, hbare, hbare,
    List.append_nil, List.nil_append]
  rw [← htrail] at huncut h
  rw [← takeWhile_firstLine] at h
  exact hid_one hhid hrun hne huncut h

end Whole

/-! ### Line breaks -/

section Breaks

/-- Neither a mask nor what it stands for has a line break. -/
theorem Shows.count_break {consumed out : List Char} (h : Shows consumed out) :
    out.count '\n' = consumed.count '\n' := by
  have hdigits : ∀ {text : List Char}, (∀ c ∈ text, c.isDigit = true) → text.count '\n' = 0 := fun h =>
    count_eq_zero_of_forall (by decide) h
  cases h with
  | copy => rfl
  | cookie h =>
    have hout : "\"[cookie-redacted]:".toList.count '\n' = 0 := by decide
    have hfew : ['"'].count '\n' = 0 ∧ [':'].count '\n' = 0 := by decide
    rw [hout, ← List.singleton_append, List.count_append, List.count_append, hdigits h, hfew.1, hfew.2]
  | quad hmasked =>
    obtain ⟨first, tail, port, rfl, hquad, hport, rfl⟩ := Quad.of_maskIpv4 hmasked
    have hmask : ".x.x.x".toList.count '\n' = 0 := by decide
    have htail : ('.' :: tail).count '\n' = 0 := by
      refine count_eq_zero_of_forall (p := inQuad) (by decide) fun c hc => ?_
      rcases List.mem_cons.mp hc with rfl | hc
      · decide
      · exact hquad.inQuad c hc
    rw [List.count_append, List.count_append, List.count_append, List.count_append, hmask, htail]
  | mask htoken hmask =>
    have hmasks : ∀ m ∈ ["[mac-redacted]".toList, "[v6-redacted]".toList], m.count '\n' = 0 := by decide
    rw [hmasks _ hmask, count_eq_zero_of_forall (by decide) htoken]

theorem count_redactLine (line : List Char) : (redactLine line).count '\n' = line.count '\n' := by
  refine Rule.count_scan (fun place out next h => ?_) ⟨none, line⟩
  obtain ⟨consumed, hrest, hshows⟩ := shows_of_rewrite h
  exact ⟨consumed, hrest, hshows.count_break⟩

theorem count_redactDomains (line : List Char) : (redactDomains line).count '\n' = line.count '\n' := by
  refine Rule.count_scan ?_ (⟨none, line⟩ : Cursor Char)
  rintro ⟨prev, _ | ⟨c, cs⟩⟩ out next h
  · cases h
  · dsimp only [domainRule] at h
    split at h
    · rename_i hc
      cases h
      refine ⟨(c :: cs).takeWhile isDomainByte, ?_, ?_⟩
      · rw [Cursor.skip_rest, ← List.dropWhile_cons_of_pos hc, List.takeWhile_append_dropWhile]
      · have hnone : ((c :: cs).takeWhile isDomainByte).count '\n' = 0 :=
          count_eq_zero_of_forall (by decide) fun d hd => List.mem_takeWhile_imp hd
        have hmask : "[domain-redacted]".toList.count '\n' = 0 := by decide
        rw [hnone]
        split
        · exact hmask
        · exact hnone
    · cases h

theorem count_redactQueries (inUrl : Bool) (line : List Char) :
    (redactQueries inUrl line).count '\n' = line.count '\n' := by
  induction inUrl, line using redactQueries.induct with
  | case1 inUrl => rw [redactQueries]
  | case2 inUrl c cs hblank ih => rw [redactQueries, if_pos hblank, List.count_cons, List.count_cons, ih]
  | case3 inUrl c cs hblank inUrl' hquery ih =>
    have hask : c = '?' := by
      rw [Bool.and_eq_true, beq_iff_eq] at hquery
      exact hquery.2
    have hnone : (cs.takeWhile fun d => !isAsciiWhitespace d).count '\n' = 0 :=
      count_eq_zero_of_forall (p := nonblank) (by decide) fun d hd => List.mem_takeWhile_imp hd
    have hmask : "?[query-redacted]".toList.count '\n' = 0 := by decide
    have hsplit := congrArg (List.count '\n')
      (List.takeWhile_append_dropWhile (p := fun d => !isAsciiWhitespace d) (l := cs))
    rw [List.count_append, hnone, Nat.zero_add] at hsplit
    rw [redactQueries, if_neg hblank]
    dsimp only
    rw [if_pos hquery, List.count_append, hmask, Nat.zero_add, ih, hsplit, hask]
    exact (List.count_cons_of_ne (by decide)).symm
  | case4 inUrl c cs hblank inUrl' hquery ih =>
    rw [redactQueries, if_neg hblank]
    dsimp only
    rw [if_neg hquery, List.count_cons, List.count_cons, ih]

theorem Lawful.count_scan {rule : Rule Char} (h : Lawful rule) (line : List Char) :
    (rule.scan ⟨none, line⟩).count '\n' = line.count '\n' := by
  refine Rule.count_scan (fun place out next hsome => ?_) ⟨none, line⟩
  obtain ⟨consumed, hrest, hcount, -⟩ := h place out next hsome
  exact ⟨consumed, hrest, hcount⟩

/-- The lines of a text are the text. -/
theorem flatten_splitInclusive (text : List Char) : (splitInclusive text).flatten = text := by
  induction text with
  | nil => rfl
  | cons c cs ih =>
    rw [splitInclusive]
    split
    · rename_i hc
      rw [List.flatten_cons, ih, List.singleton_append]
    · cases hlines : splitInclusive cs with
      | nil =>
        rw [hlines] at ih
        rw [← ih]
        rfl
      | cons line lines =>
        rw [hlines] at ih
        rw [← ih]
        rfl

/-- **A report has the line breaks of its text.** -/
theorem count_redact (text : List Char) : (redact text).count '\n' = text.count '\n' := by
  have hone : ∀ line : List Char, (redactOne line).count '\n' = line.count '\n' := by
    intro line
    rw [redactOne, count_redactDomains, count_redactLine, redactCredentials, redactTags, lawful_tag.count_scan,
      redactAssignments, lawful_assignment.count_scan, count_redactQueries, redactUserinfo, lawful_userinfo.count_scan]
  have hlines : ∀ lines : List (List Char), (lines.flatMap redactOne).count '\n' = lines.flatten.count '\n' := by
    intro lines
    induction lines with
    | nil => rfl
    | cons line lines ih => rw [List.flatMap_cons, List.flatten_cons, List.count_append, List.count_append, hone, ih]
  rw [redact, hlines, flatten_splitInclusive]

end Breaks

end FluxRs.Bugreport
