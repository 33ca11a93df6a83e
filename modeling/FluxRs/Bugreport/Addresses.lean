import FluxRs.Bugreport.Tokens
import FluxRs.Net.Text

/-!
# FluxRs.Bugreport.Addresses — what a report has in the place of an address

A text that `std::net` reads as an address lies in one run.  Where the scanner takes the run for an IPv4 address, alone
or with a port, or for something like an IPv6 address, a report has nothing of the address but its first octet.
-/

namespace FluxRs.Bugreport

open FluxRs.Lib Rewrite

/-! ### Texts that `std::net` reads -/

section Parse

open Net

variable {text rest : List Char}

theorem isDigit_of_toDigit {c : Char} (h : (toDigit 10 c).isSome = true) :
    c.isDigit = true ∧ (toDigit 10 c).getD 0 = c.toNat - '0'.toNat := by
  unfold toDigit at h ⊢
  split_ifs at h ⊢ with hdigit hlower hupper
  · refine ⟨?_, ?_⟩
    · rw [Char.isDigit, Bool.and_eq_true, decide_eq_true_eq, decide_eq_true_eq]
      exact hdigit
    · have hle : c.toNat ≤ '9'.toNat := hdigit.2
      have hlt : c.toNat - '0'.toNat < 10 := by
        have h9 : '9'.toNat = 57 := rfl
        have h0 : '0'.toNat = 48 := rfl
        omega
      rw [Option.filter_some, if_pos (by simpa using hlt), Option.getD_some]
  · rw [Option.filter_some, if_neg (by simp)] at h
    cases h
  · rw [Option.filter_some, if_neg (by simp)] at h
    cases h
  · cases h

theorem isAsciiHexdigit_of_toDigit {c : Char} (h : (toDigit 16 c).isSome = true) : isAsciiHexdigit c = true := by
  unfold toDigit at h
  rw [isAsciiHexdigit, Bool.or_eq_true, Bool.or_eq_true, Bool.and_eq_true, Bool.and_eq_true, decide_eq_true_eq,
    decide_eq_true_eq, decide_eq_true_eq, decide_eq_true_eq]
  split_ifs at h with hdigit hlower hupper
  · left
    left
    rw [Char.isDigit, Bool.and_eq_true, decide_eq_true_eq, decide_eq_true_eq]
    exact hdigit
  · left
    right
    refine ⟨hlower.1, ?_⟩
    by_contra hno
    have hlt : 'f'.toNat < c.toNat := Nat.lt_of_not_le hno
    have hf : 'f'.toNat = 102 := rfl
    have ha : 'a'.toNat = 97 := rfl
    rw [Option.filter_some, if_neg (by simp; omega)] at h
    cases h
  · right
    refine ⟨hupper.1, ?_⟩
    by_contra hno
    have hlt : 'F'.toNat < c.toNat := Nat.lt_of_not_le hno
    have hf : 'F'.toNat = 70 := rfl
    have ha : 'A'.toNat = 65 := rfl
    rw [Option.filter_some, if_neg (by simp; omega)] at h
    cases h
  · cases h

/-- What a number is read from. -/
theorem readNumber_split {radix maxDigits bound n : ℕ} {zero : Bool}
    (h : readNumber radix maxDigits bound zero text = some (n, rest)) :
    ∃ digits, text = digits ++ rest ∧ digits ≠ [] ∧ digits.length ≤ maxDigits ∧
      (∀ c ∈ digits, (toDigit radix c).isSome = true) ∧
        digits.foldl (fun acc c => acc * radix + (toDigit radix c).getD 0) 0 ≤ bound := by
  unfold readNumber at h
  dsimp only at h
  split_ifs at h with hlength hzero hbound
  rw [not_or, not_lt] at hlength
  obtain ⟨-, rfl⟩ := Prod.mk.inj (Option.some.inj h)
  refine ⟨text.takeWhile fun c => (toDigit radix c).isSome, ?_, hlength.1, hlength.2, fun c hc => ?_,
    Nat.not_lt.mp hbound⟩
  · conv_lhs => rw [← List.take_append_drop (text.takeWhile fun c => (toDigit radix c).isSome).length text]
    rw [(List.prefix_iff_eq_take.mp (List.takeWhile_prefix _)).symm]
  · have hdigit := List.mem_takeWhile_imp hc
    exact hdigit

/-- What a separator is read from. -/
theorem readChar_split {c : Char} (h : readChar c text = some rest) : text = c :: rest := by
  cases text with
  | nil => cases h
  | cons first more =>
    rw [readChar] at h
    split_ifs at h with hc
    rw [hc, Option.some.inj h]

theorem parseDecimal_eq {digits : List Char} (h : ∀ c ∈ digits, (toDigit 10 c).isSome = true) :
    parseDecimal digits = digits.foldl (fun acc c => acc * 10 + (toDigit 10 c).getD 0) 0 := by
  have hfrom : ∀ n, digits.foldl (fun n c => n * 10 + (c.toNat - '0'.toNat)) n =
      digits.foldl (fun acc c => acc * 10 + (toDigit 10 c).getD 0) n := by
    induction digits with
    | nil => exact fun _ => rfl
    | cons c cs ih =>
      intro n
      rw [List.foldl_cons, List.foldl_cons, (isDigit_of_toDigit (h c List.mem_cons_self)).2,
        ih fun d hd => h d (List.mem_cons_of_mem c hd)]
  exact hfrom 0

/-- An octet that is read is one that `mask_ipv4` accepts. -/
theorem readOctet_split {n : ℕ} (h : readNumber 10 3 255 false text = some (n, rest)) :
    ∃ octet, text = octet ++ rest ∧ isOctet octet = true := by
  obtain ⟨digits, hsplit, hne, hlength, hdigits, hbound⟩ := readNumber_split h
  refine ⟨digits, hsplit, ?_⟩
  rw [isOctet, Bool.and_eq_true, Bool.and_eq_true, Bool.and_eq_true, List.all_eq_true, decide_eq_true_eq,
    decide_eq_true_eq, parseDecimal_eq hdigits]
  exact ⟨⟨⟨by simpa using hne, hlength⟩, fun c hc => (isDigit_of_toDigit (hdigits c hc)).1⟩, hbound⟩

/-- What an IPv4 address is read from. -/
theorem readIpv4Addr_split {octets : List ℕ} (h : readIpv4Addr text = some (octets, rest)) :
    ∃ first tail, text = first ++ '.' :: (tail ++ rest) ∧ Quad first tail := by
  unfold readIpv4Addr at h
  simp only [Option.bind_eq_bind, Option.bind_eq_some_iff, Prod.exists] at h
  obtain ⟨_, text₁, ha, text₂, hdot, _, text₃, hb, text₄, hdot', _, text₅, hc, text₆, hdot'', _, text₇, hd, hend⟩ := h
  obtain ⟨-, rfl⟩ := Prod.mk.inj (Option.some.inj hend)
  obtain ⟨a, rfl, hfirst⟩ := readOctet_split ha
  obtain rfl := readChar_split hdot
  obtain ⟨b, rfl, hsecond⟩ := readOctet_split hb
  obtain rfl := readChar_split hdot'
  obtain ⟨c, rfl, hthird⟩ := readOctet_split hc
  obtain rfl := readChar_split hdot''
  obtain ⟨d, rfl, hfourth⟩ := readOctet_split hd
  refine ⟨a, b ++ '.' :: (c ++ '.' :: d), by simp, hfirst, b, c, d, rfl, ?_⟩
  simp [hsecond, hthird, hfourth]

/-- A text that is read as an IPv4 address has its parts. -/
theorem quad_of_parse {first tail : List Char} (hfirst : '.' ∉ first)
    (h : (parseIpv4Addr (first ++ '.' :: tail)).isSome = true) :
    Quad first tail := by
  rw [parseIpv4Addr, Option.isSome_map] at h
  obtain ⟨octets, hparse⟩ := Option.isSome_iff_exists.mp h
  unfold parseWith at hparse
  split at hparse
  · rename_i octets' hread
    obtain ⟨first', tail', hsplit, hquad⟩ := readIpv4Addr_split hread
    rw [List.append_nil] at hsplit
    have hfirst' : '.' ∉ first' := not_mem_octet hquad.first (by decide)
    have hparts := congrArg (List.splitOn '.') hsplit
    rw [List.splitOn_append_cons_self_of_not_mem hfirst, List.splitOn_append_cons_self_of_not_mem hfirst'] at hparts
    obtain rfl := (List.cons.inj hparts).1
    rw [List.append_cancel_left_eq] at hsplit
    rwa [(List.cons.inj hsplit).2]
  · cases hparse

theorem isAddrByte_of_isAsciiHexdigit {c : Char} (h : isAsciiHexdigit c = true) : isAddrByte c = true := by
  rw [isAddrByte, h]
  rfl

/-- What the groups are read from. -/
theorem readGroups_split {n : ℕ} {first v4 : Bool} {groups : List ℕ}
    (h : readGroups n first text = (groups, v4, rest)) :
    ∃ consumed, text = consumed ++ rest ∧ (∀ c ∈ consumed, isAddrByte c = true) ∧
      groups.length ≤ consumed.count ':' + first.toNat + v4.toNat := by
  induction n generalizing first text groups v4 rest with
  | zero =>
    rw [readGroups] at h
    cases h
    exact ⟨[], rfl, fun c hc => absurd hc List.not_mem_nil, Nat.zero_le _⟩
  | succ n ih =>
    rw [readGroups] at h
    dsimp only at h
    have hinner : ∀ {inner : List Char}, (if first = true then some text else readChar ':' text) = some inner →
        ∃ sep, text = sep ++ inner ∧ (∀ c ∈ sep, isAddrByte c = true) ∧ sep.count ':' + first.toNat = 1 := by
      intro inner hsome
      cases first with
      | true =>
        cases hsome
        exact ⟨[], rfl, fun c hc => absurd hc List.not_mem_nil, rfl⟩
      | false =>
        exact ⟨[':'], readChar_split hsome, forall_of_all (by decide), rfl⟩
    split at h
    · rename_i octets rest' hread
      cases h
      split at hread
      · obtain ⟨inner, hsome, hinnerRead⟩ := Option.bind_eq_some_iff.mp hread
        obtain ⟨sep, rfl, hsep, hcolons⟩ := hinner hsome
        obtain ⟨a, tail, rfl, hquad⟩ := readIpv4Addr_split hinnerRead
        refine ⟨sep ++ (a ++ '.' :: tail), by simp, fun c hc => ?_, ?_⟩
        · simp only [List.mem_append, List.mem_cons] at hc
          rcases hc with hc | hc | rfl | hc
          · exact hsep c hc
          · exact isAddrByte_of_isDigit ((digits_of_octet hquad.first).2 c hc)
          · decide
          · exact isAddrByte_of_inQuad (hquad.inQuad c hc)
        · rw [List.count_append]
          simp only [List.length_cons, List.length_nil, Bool.toNat_true]
          omega
      · cases hread
    · split at h
      · cases h
        exact ⟨[], rfl, fun c hc => absurd hc List.not_mem_nil, Nat.zero_le _⟩
      · rename_i group rest' hread
        obtain ⟨inner, hsome, hinnerRead⟩ := Option.bind_eq_some_iff.mp hread
        obtain ⟨sep, rfl, hsep, hcolons⟩ := hinner hsome
        obtain ⟨digits, rfl, -, -, hdigits, -⟩ := readNumber_split hinnerRead
        cases hmore : readGroups n false rest' with
        | mk groups' more =>
          obtain ⟨v4', rest''⟩ := more
          rw [hmore] at h
          cases h
          obtain ⟨consumed, rfl, hconsumed, hlength⟩ := ih hmore
          refine ⟨sep ++ (digits ++ consumed), by simp, fun c hc => ?_, ?_⟩
          · simp only [List.mem_append] at hc
            rcases hc with hc | hc | hc
            · exact hsep c hc
            · exact isAddrByte_of_isAsciiHexdigit (isAsciiHexdigit_of_toDigit (hdigits c hc))
            · exact hconsumed c hc
          · rw [List.count_append, List.count_append, List.length_cons]
            simp only [Bool.toNat_false] at hlength
            dsimp only
            omega

/-- A text that is read as an IPv6 address is one run with colons. -/
theorem run_of_parse {addr : List Char} (h : (parseIpv6Addr addr).isSome = true) :
    (∀ c ∈ addr, isAddrByte c = true) ∧ 2 ≤ addr.count ':' := by
  rw [parseIpv6Addr, Option.isSome_map] at h
  obtain ⟨groups, hparse⟩ := Option.isSome_iff_exists.mp h
  unfold parseWith at hparse
  split at hparse
  · rename_i groups' hread
    unfold readIpv6Addr at hread
    cases hhead : readGroups 8 true addr with
    | mk head more =>
      obtain ⟨headV4, rest⟩ := more
      obtain ⟨consumed, rfl, hconsumed, hlength⟩ := readGroups_split hhead
      rw [hhead] at hread
      dsimp only at hread
      split_ifs at hread with height hv4
      · cases hread
        rw [List.append_nil]
        refine ⟨hconsumed, ?_⟩
        have hone := Bool.toNat_le headV4
        simp only [Bool.toNat_true] at hlength
        omega
      · simp only [Option.bind_eq_bind, Option.bind_eq_some_iff] at hread
        obtain ⟨text₁, hcolon, text₂, hcolon', hread⟩ := hread
        cases htail : readGroups (8 - (head.length + 1)) true text₂ with
        | mk tail more =>
          obtain ⟨tailV4, rest'⟩ := more
          rw [htail] at hread
          cases hread
          obtain ⟨consumed', rfl, hconsumed', -⟩ := readGroups_split htail
          obtain rfl := readChar_split hcolon'
          obtain rfl := readChar_split hcolon
          refine ⟨fun c hc => ?_, ?_⟩
          · simp only [List.mem_append, List.mem_cons, List.append_nil] at hc
            rcases hc with hc | rfl | rfl | hc
            · exact hconsumed c hc
            · decide
            · decide
            · exact hconsumed' c hc
          · rw [List.count_append, List.count_cons_self, List.count_cons_self]
            omega
  · cases hparse

theorem toDigit_of_isDigit {radix : ℕ} (hradix : 10 ≤ radix) {c : Char} (h : c.isDigit = true) :
    (toDigit radix c).isSome = true := by
  rw [Char.isDigit, Bool.and_eq_true, decide_eq_true_eq, decide_eq_true_eq] at h
  have hle : c.toNat ≤ '9'.toNat := h.2
  have h9 : '9'.toNat = 57 := rfl
  have h0 : '0'.toNat = 48 := rfl
  have hlt : c.toNat - '0'.toNat < radix := by omega
  have hdigit : '0' ≤ c ∧ c ≤ '9' := h
  rw [toDigit, if_pos hdigit, Option.filter_some, if_pos (by simpa using hlt)]
  rfl

/-- No number is read from so many digits. -/
theorem readNumber_long {radix maxDigits bound : ℕ} {zero : Bool} (hradix : 10 ≤ radix) {digits : List Char}
    (hdigits : ∀ c ∈ digits, c.isDigit = true) (hlength : maxDigits < digits.length) :
    readNumber radix maxDigits bound zero (digits ++ rest) = none := by
  unfold readNumber
  dsimp only
  rw [if_pos]
  right
  rw [List.takeWhile_append_of_pos fun c hc => toDigit_of_isDigit hradix (hdigits c hc), List.length_append]
  omega

/-- No address begins with six digits. -/
theorem readIpv6Addr_long {digits : List Char} (hdigits : ∀ c ∈ digits, c.isDigit = true)
    (hlength : 6 ≤ digits.length) :
    readIpv6Addr (digits ++ rest) = none := by
  have hv4 : readIpv4Addr (digits ++ rest) = none := by
    rw [readIpv4Addr, readNumber_long (by decide) hdigits (by omega)]
    rfl
  have hgroups : readGroups 8 true (digits ++ rest) = ([], false, digits ++ rest) := by
    rw [readGroups]
    dsimp only
    rw [if_pos rfl, if_pos (by decide), Option.bind_some, hv4, Option.bind_some,
      readNumber_long (by decide) hdigits (by omega)]
  unfold readIpv6Addr
  rw [hgroups]
  obtain ⟨d, digits, rfl⟩ := List.exists_cons_of_ne_nil (List.ne_nil_of_length_pos (by omega) : digits ≠ [])
  have hcolon : readChar ':' (d :: digits ++ rest) = none := by
    rw [List.cons_append, readChar, if_neg]
    rintro rfl
    exact absurd (hdigits _ List.mem_cons_self) (by decide)
  dsimp only
  rw [hcolon]
  rfl

end Parse

/-! ### What the report hides -/

section Hidden

variable {pre first tail post addr : List Char}

/-- No digit stands before a dot. -/
def Broken (l : List Char) : Prop := ∀ d : Char, d.isDigit = true → ¬[d, '.'].Sublist l

theorem broken_of_not_dot {l : List Char} (h : '.' ∉ l) : Broken l := by
  intro d _ hsub
  exact h (hsub.subset (by simp))

/-- Symbols that are not loud do not matter. -/
theorem Broken.filter {l m : List Char} (hsub : (l.filter isLoud).Sublist (m.filter isLoud)) (h : Broken m) :
    Broken l := by
  intro d hd hl
  have hfilter := hl.filter isLoud
  have hall : [d, '.'].filter isLoud = [d, '.'] := by
    rw [List.filter_cons_of_pos (isLoud_of_isDigit hd)]
    rfl
  rw [hall] at hfilter
  exact h d hd (hfilter.trans (hsub.trans List.filter_sublist))

/-- Of an IPv4 address no digit and dot come back. -/
theorem hiding_broken (hmid : ∀ a ∈ tail, inQuad a = true) : Hiding tail Broken where
  filter := Broken.filter
  faded prev hfaded := broken_of_not_dot (line_not_dot prev _ (hfaded.quiet hmid))

/-- Of an IPv6 address no two colons come back. -/
theorem hiding_colons (addr : List Char) : Hiding addr fun l => l.count ':' ≤ 1 where
  filter {l m} hsub hm := by
    rw [count_eq_filter (by decide)] at hm ⊢
    exact (hsub.count_le ':').trans hm
  faded prev hfaded := (line_colons prev _ hfaded.not_inQuad).trans hfaded.colons

/-- What is like an IPv6 address is masked. -/
theorem shown_of_like {front mid back : List Char} (h : isIpv6Like (front ++ (mid ++ back)) = true) :
    ∀ c ∈ shown front mid back, isLoud c = true → c = '6' := by
  have hmasks : ∀ m ∈ ["[mac-redacted]".toList, "[v6-redacted]".toList], ∀ c ∈ m, isLoud c = true → c = '6' := by
    intro m hm
    simp only [List.mem_cons, List.not_mem_nil, or_false] at hm
    rcases hm with rfl | rfl
    · exact forall_of_all (by decide)
    · exact forall_of_all (by decide)
  have hclass : classifyAndMask (front ++ (mid ++ back)) ∈ ["[mac-redacted]".toList, "[v6-redacted]".toList] := by
    rw [classifyAndMask, maskIpv4_of_like h, if_pos h]
    dsimp only
    split
    · exact List.mem_cons_self
    · exact List.mem_cons_of_mem _ List.mem_cons_self
  intro c hc
  exact hmasks _ hclass c ((picked_remark _ _).subset hc)

/-- Alone or with a port an IPv4 address loses its last three octets. -/
theorem Quad.broken (h : Quad first tail) {port : List Char}
    (hport : port = [] ∨ ∃ digits, port = ':' :: digits ∧ digits ≠ [] ∧ ∀ c ∈ digits, c.isDigit = true) :
    Broken (shown (first ++ ['.']) tail port) := by
  have hassoc : first ++ ['.'] ++ (tail ++ port) = first ++ '.' :: tail ++ port := by simp
  have hmask : classifyAndMask (first ++ ['.'] ++ (tail ++ port)) =
      plain (bare (first ++ ['.'])) ++ ("x.x.x".toList ++ port) := by
    rw [classifyAndMask, hassoc, h.maskIpv4 hport, plain_bare]
    simp
  have hdot : '.' ∉ port := by
    rcases hport with rfl | ⟨digits, rfl, -, hdigits⟩
    · exact List.not_mem_nil
    · rw [List.mem_cons, not_or]
      exact ⟨by decide, fun hmem => absurd (hdigits _ hmem) (by decide)⟩
  have hnew : ∀ c ∈ "x.x.x".toList, c.isDigit = false := forall_of_all (by decide)
  rw [shown, hmask, remark_append, picked_append, picked_bare, List.nil_append]
  intro d hd hsub
  obtain ⟨l, m, hlm, hl, hm⟩ := List.sublist_append_iff.mp (hsub.trans (picked_remark _ _))
  cases l with
  | nil =>
    rw [List.nil_append] at hlm
    subst hlm
    exact hdot (hm.subset (by simp))
  | cons c l =>
    obtain ⟨rfl, -⟩ := List.cons.inj hlm
    rw [hnew _ (hl.subset List.mem_cons_self)] at hd
    cases hd

/-- The address is the run that it stands in, alone or with a port. -/
def StandsAlone (pre post : List Char) : Prop :=
  trail isAddrByte pre = [] ∧ (post.takeWhile isAddrByte = [] ∨
    ∃ port, post.takeWhile isAddrByte = ':' :: port ∧ port ≠ [] ∧ ∀ c ∈ port, c.isDigit = true)

/-- The run that the address stands in is like an IPv6 address, and what a cookie leaves of it too. -/
def InIpv6Run (pre addr post : List Char) : Prop :=
  ∀ rest, Remains (trail isAddrByte pre) rest → isIpv6Like (rest ++ (addr ++ post.takeWhile isAddrByte)) = true

/-- A cookie before an IPv4 address ends before it. -/
theorem Remains.of_append {front mid rest : List Char} (hmid : ':' ∉ mid) (h : Remains (front ++ mid) rest) :
    ∃ rest', Remains front rest' ∧ rest = rest' ++ mid := by
  rcases h with rfl | ⟨digits, hsplit, hdigits, hlength⟩
  · exact ⟨front, .inl rfl, rfl⟩
  · rcases List.append_eq_append_iff.mp hsplit with ⟨more, -, hmore⟩ | ⟨more, rfl, hmore⟩
    · exact absurd (hmore ▸ List.mem_append_right _ List.mem_cons_self) hmid
    · cases more with
      | nil =>
        rw [List.nil_append] at hmore
        exact absurd (hmore ▸ List.mem_cons_self) hmid
      | cons c more =>
        obtain ⟨rfl, rfl⟩ := List.cons.inj hmore
        exact ⟨more, .inr ⟨digits, rfl, hdigits, hlength⟩, rfl⟩

/-- **The last three octets of an IPv4 address are hidden.** -/
theorem broken_standIn (h : Quad first tail)
    (hplace : StandsAlone pre post ∨ InIpv6Run pre (first ++ '.' :: tail) post) :
    Broken (standIn (pre ++ (first ++ ['.'])) tail post) := by
  have hfirst : ∀ c ∈ first ++ ['.'], inQuad c = true := by
    intro c hc
    rw [List.mem_append, List.mem_singleton] at hc
    rcases hc with hc | rfl
    · rw [inQuad, (digits_of_octet h.first).2 c hc, Bool.true_or]
    · decide
  have hcolon : ':' ∉ first ++ ['.'] := fun hmem => absurd (hfirst _ hmem) (by decide)
  have hne : tail ≠ [] := List.ne_nil_of_mem h.dot_mem
  have htrail : trail isAddrByte (pre ++ (first ++ ['.'])) = trail isAddrByte pre ++ (first ++ ['.']) :=
    trail_append_of_all (fun c hc => isAddrByte_of_inQuad (hfirst c hc)) pre
  refine hid_standIn (hiding_broken h.inQuad) (fun c hc => isAddrByte_of_inQuad (h.inQuad c hc)) hne ?_
    fun rest hrest => ?_
  · rw [htrail]
    intro digits rest more hsplit hdigits _
    by_contra hle
    have hbegin : trail isAddrByte pre ++ (first ++ ['.']) <+: digits := by
      refine List.prefix_of_prefix_length_le (List.prefix_append _ (tail ++ more)) ?_ (Nat.not_lt.mp hle)
      rw [hsplit]
      exact List.prefix_append _ _
    exact absurd (hdigits '.' (hbegin.subset (by simp))) (by decide)
  · rw [htrail] at hrest
    obtain ⟨front, hfront, rfl⟩ := hrest.of_append hcolon
    rcases hplace with ⟨hpre, hport⟩ | hlike
    · rw [hpre] at hfront
      have hnil : front = [] := by
        rcases hfront with rfl | ⟨digits, hsplit, -⟩
        · rfl
        · cases (List.append_eq_nil_iff.mp hsplit.symm).2
      rw [hnil, List.nil_append]
      exact h.broken hport
    · refine broken_of_not_dot fun hdot => ?_
      have hrun : isIpv6Like (front ++ (first ++ ['.']) ++ (tail ++ post.takeWhile isAddrByte)) = true := by
        have h := hlike front hfront
        rwa [List.append_assoc, List.append_assoc, List.singleton_append, ← List.cons_append, ← List.append_assoc first]
      exact absurd (shown_of_like hrun _ hdot (by decide)) (by decide)

/-- **An IPv6 address is hidden.** -/
theorem colons_standIn (h : (Net.parseIpv6Addr addr).isSome = true) (hpre : pre.getLast?.any isAsciiHexdigit = false)
    (hplace : InIpv6Run pre addr post) : (standIn pre addr post).count ':' ≤ 1 := by
  obtain ⟨hrun, hcolons⟩ := run_of_parse h
  have hcolon : ':' ∈ addr := List.count_pos_iff.mp (by omega)
  refine hid_standIn (hiding_colons addr) hrun (List.ne_nil_of_mem hcolon) ?_ fun rest hrest => ?_
  · intro digits rest more hsplit hdigits hlength
    by_contra hle
    have hbegin : trail isAddrByte pre <+: digits := by
      refine List.prefix_of_prefix_length_le (List.prefix_append _ (addr ++ more)) ?_ (Nat.not_lt.mp hle)
      rw [hsplit]
      exact List.prefix_append _ _
    have hnil : trail isAddrByte pre = [] := by
      by_contra hne
      have hlast := List.getLast?_eq_some_getLast hne
      have hdigit := hdigits _ (hbegin.subset (List.getLast_mem hne))
      rw [← getLast?_trail hne, hlast, Option.any_some, isAsciiHexdigit, hdigit] at hpre
      cases hpre
    rw [hnil, List.nil_append] at hsplit
    rcases List.append_eq_append_iff.mp hsplit with ⟨_, rfl, -⟩ | ⟨back, rfl, -⟩
    · exact absurd (hdigits ':' (List.mem_append_left _ hcolon)) (by decide)
    · rw [Net.parseIpv6Addr, Net.parseWith, readIpv6Addr_long hdigits hlength] at h
      cases h
  · have hnone : (shown rest addr (post.takeWhile isAddrByte)).count ':' = 0 := by
      rw [List.count_eq_zero]
      intro hmem
      exact absurd (shown_of_like (hplace rest hrest) _ hmem (by decide)) (by decide)
    omega

end Hidden

/-! ### Runs that are like an IPv6 address -/

section Like

open Net

variable {pre addr post text rest : List Char}

theorem hasDoubleColon_append_left (front : List Char) (h : hasDoubleColon text = true) :
    hasDoubleColon (front ++ text) = true := by
  induction front with
  | nil => exact h
  | cons c front ih =>
    rw [List.cons_append, hasDoubleColon.eq_def]
    split
    · rfl
    · rename_i heq
      obtain ⟨-, rfl⟩ := List.cons.inj heq
      exact ih
    · rename_i heq
      cases heq

theorem hasDoubleColon_append_right (back : List Char) (h : hasDoubleColon text = true) :
    hasDoubleColon (text ++ back) = true := by
  induction text using hasDoubleColon.induct with
  | case1 more => rfl
  | case2 c more hne ih =>
    rw [hasDoubleColon] at h
    · exact hasDoubleColon_append_left [c] (ih h)
    · exact hne
  | case3 => cases h

theorem two_le_count_of_hasDoubleColon (h : hasDoubleColon text = true) : 2 ≤ text.count ':' := by
  induction text using hasDoubleColon.induct with
  | case1 more =>
    rw [List.count_cons_self, List.count_cons_self]
    omega
  | case2 c more hne ih =>
    rw [hasDoubleColon] at h
    · have hle := ih h
      rw [List.count_cons]
      omega
    · exact hne
  | case3 => cases h

/-- Two colons in a row and a hex digit are enough. -/
theorem like_of_hasDoubleColon {token : List Char} (h : hasDoubleColon token = true)
    (hdigit : token.any isAsciiHexdigit = true) :
    isIpv6Like token = true := by
  have hcolons := two_le_count_of_hasDoubleColon h
  rw [isIpv6Like, if_neg (by omega), if_pos h]
  exact hdigit

/-- **A compressed address with a hex digit is masked in every run.** -/
theorem inIpv6Run_of_hasDoubleColon (h : hasDoubleColon addr = true) (hdigit : addr.any isAsciiHexdigit = true)
    (pre post : List Char) : InIpv6Run pre addr post := by
  intro rest _
  refine like_of_hasDoubleColon (hasDoubleColon_append_left rest (hasDoubleColon_append_right _ h)) ?_
  rw [List.any_append, List.any_append, hdigit, Bool.true_or, Bool.or_true]

/-- The groups of an address in which no IPv4 address is embedded. -/
theorem readGroups_parts {n : ℕ} {first v4 : Bool} {groups : List ℕ} (hdot : '.' ∉ text)
    (h : readGroups n first text = (groups, v4, rest)) : (groups = [] ∧ rest = text) ∨
      ∃ more, text = (if first then [] else [':']) ++ (more ++ rest) ∧
        ∀ part ∈ more.splitOn ':', part.length ≤ 4 ∧ ∀ c ∈ part, isAsciiHexdigit c = true := by
  induction n generalizing first text groups v4 rest with
  | zero =>
    rw [readGroups] at h
    cases h
    exact .inl ⟨rfl, rfl⟩
  | succ n ih =>
    rw [readGroups] at h
    dsimp only at h
    have hinner : ∀ {inner : List Char}, (if first = true then some text else readChar ':' text) = some inner →
        text = (if first then [] else [':']) ++ inner := by
      intro inner hsome
      cases first with
      | true => exact Option.some.inj hsome
      | false => exact readChar_split hsome
    split at h
    · rename_i octets rest' hread
      split at hread
      · obtain ⟨inner, hsome, hinnerRead⟩ := Option.bind_eq_some_iff.mp hread
        obtain ⟨a, tail, hsplit, -⟩ := readIpv4Addr_split hinnerRead
        rw [hinner hsome, hsplit] at hdot
        exact absurd (by simp) hdot
      · cases hread
    · split at h
      · cases h
        exact .inl ⟨rfl, rfl⟩
      · rename_i group rest' hread
        obtain ⟨inner, hsome, hinnerRead⟩ := Option.bind_eq_some_iff.mp hread
        have htext := hinner hsome
        obtain ⟨digits, rfl, -, hlength, hdigits, -⟩ := readNumber_split hinnerRead
        have hhex : ∀ c ∈ digits, isAsciiHexdigit c = true := fun c hc => isAsciiHexdigit_of_toDigit (hdigits c hc)
        have hcolon : ':' ∉ digits := fun hmem => absurd (hhex _ hmem) (by decide)
        have hdot' : '.' ∉ rest' := fun hmem => hdot (htext ▸ by simp [hmem])
        right
        cases hmore : readGroups n false rest' with
        | mk groups' more =>
          obtain ⟨v4', rest''⟩ := more
          rw [hmore] at h
          cases h
          rcases ih hdot' hmore with ⟨-, rfl⟩ | ⟨more, rfl, hparts⟩
          · refine ⟨digits, htext, fun part hpart => ?_⟩
            rw [List.splitOn_eq_singleton hcolon, List.mem_singleton] at hpart
            exact hpart ▸ ⟨hlength, hhex⟩
          · refine ⟨digits ++ ':' :: more, by rw [htext]; simp, fun part hpart => ?_⟩
            rw [List.splitOn_append_cons_self_of_not_mem hcolon] at hpart
            rcases List.mem_cons.mp hpart with rfl | hpart
            · exact ⟨hlength, hhex⟩
            · exact hparts part hpart

theorem hasDoubleColon_of_gap (front back : List Char) : hasDoubleColon (front ++ ':' :: ':' :: back) = true :=
  hasDoubleColon_append_left front rfl

/-- **An address with a hex letter is masked where it is a run of its own.** -/
theorem inIpv6Run_of_letter (h : (parseIpv6Addr addr).isSome = true) (hdot : '.' ∉ addr)
    (hletter : addr.any (fun c => isAsciiHexdigit c && !c.isDigit) = true) (hpre : trail isAddrByte pre = [])
    (hpost : post.takeWhile isAddrByte = []) : InIpv6Run pre addr post := by
  intro rest hrest
  have hnil : rest = [] := by
    rw [hpre] at hrest
    rcases hrest with rfl | ⟨digits, hsplit, -⟩
    · rfl
    · cases (List.append_eq_nil_iff.mp hsplit.symm).2
  have hdigit : addr.any isAsciiHexdigit = true := by
    rw [List.any_eq_true] at hletter ⊢
    obtain ⟨c, hc, hand⟩ := hletter
    rw [Bool.and_eq_true] at hand
    exact ⟨c, hc, hand.1⟩
  rw [hnil, hpost, List.nil_append, List.append_nil]
  rw [parseIpv6Addr, Option.isSome_map] at h
  obtain ⟨groups, hparse⟩ := Option.isSome_iff_exists.mp h
  unfold parseWith at hparse
  split at hparse
  · rename_i groups' hread
    unfold readIpv6Addr at hread
    cases hhead : readGroups 8 true addr with
    | mk head more =>
      obtain ⟨headV4, rest'⟩ := more
      rw [hhead] at hread
      dsimp only at hread
      split_ifs at hread with height hv4
      · cases hread
        obtain ⟨consumed, hsplit, -, hlength⟩ := readGroups_split hhead
        rw [List.append_nil] at hsplit
        rcases readGroups_parts hdot hhead with ⟨rfl, -⟩ | ⟨more, hmore, hparts⟩
        · cases height
        · rw [if_pos rfl, List.nil_append, List.append_nil] at hmore
          have hone := Bool.toNat_le headV4
          have hcolons : 6 ≤ addr.count ':' := by
            rw [hsplit]
            simp only [Bool.toNat_true] at hlength
            omega
          have hgroups : ((addr.splitOn ':').all fun g => g.length ≤ 4 && g.all isAsciiHexdigit) = true := by
            rw [List.all_eq_true, hmore]
            intro part hpart
            obtain ⟨hlength, hhex⟩ := hparts part hpart
            rw [Bool.and_eq_true, decide_eq_true_iff, List.all_eq_true]
            exact ⟨hlength, hhex⟩
          rw [isIpv6Like, if_neg (by omega)]
          split
          · exact hdigit
          · rw [hletter, hgroups, Bool.true_and, Bool.true_and, decide_eq_true_iff]
            omega
      · simp only [Option.bind_eq_bind, Option.bind_eq_some_iff] at hread
        obtain ⟨text₁, hcolon, text₂, hcolon', -⟩ := hread
        obtain ⟨consumed, hsplit, -⟩ := readGroups_split hhead
        rw [readChar_split hcolon, readChar_split hcolon'] at hsplit
        exact like_of_hasDoubleColon (hsplit ▸ hasDoubleColon_of_gap consumed text₂) hdigit
  · cases hparse

end Like

/-! ### Addresses -/

/-- **Addresses are masked, without a cut inside a character or a lost line break**: what a report has in the place of
the last three octets of an IPv4 address that stands alone, or of an address in a run that is like an IPv6 address, does
not contain them. -/
theorem addresses_masked :
    (∀ text, scanText text = some (redact text) ∧ (redact text).count '\n' = text.count '\n') ∧
      (∀ t, plain (redactMarked t) = redact (plain t)) ∧
      (∀ pre first tail post, '.' ∉ first → (Net.parseIpv4Addr (first ++ '.' :: tail)).isSome = true →
        StandsAlone pre post ∨ InIpv6Run pre (first ++ '.' :: tail) post →
          ¬tail <:+: standIn (pre ++ (first ++ ['.'])) tail post) ∧
      (∀ pre addr post, (Net.parseIpv6Addr addr).isSome = true → pre.getLast?.any isAsciiHexdigit = false →
        InIpv6Run pre addr post → ¬addr <:+: standIn pre addr post) ∧
      (∀ addr, hasDoubleColon addr = true → addr.any isAsciiHexdigit = true → ∀ pre post, InIpv6Run pre addr post) ∧
      ∀ pre addr post, (Net.parseIpv6Addr addr).isSome = true → '.' ∉ addr →
        addr.any (fun c => isAsciiHexdigit c && !c.isDigit) = true → trail isAddrByte pre = [] →
          post.takeWhile isAddrByte = [] → InIpv6Run pre addr post := by
  refine ⟨fun text => ⟨scanText_eq text, count_redact text⟩, plain_redactMarked, ?_, ?_,
    fun addr h hdigit pre post => inIpv6Run_of_hasDoubleColon h hdigit pre post,
    fun pre addr post h hdot hletter hpre hpost => inIpv6Run_of_letter h hdot hletter hpre hpost⟩
  · intro pre first tail post hfirst h hplace hinfix
    have hquad := quad_of_parse hfirst h
    obtain ⟨b, c, d, htail, hoctets⟩ := hquad.tail
    obtain ⟨hne, hdigits⟩ := digits_of_octet (hoctets b (by simp))
    have hpair : [b.getLast hne, '.'].Sublist tail := by
      rw [htail]
      exact (List.singleton_sublist.mpr (List.getLast_mem hne)).append (List.singleton_sublist.mpr List.mem_cons_self)
    exact broken_standIn hquad hplace _ (hdigits _ (List.getLast_mem hne)) (hpair.trans hinfix.sublist)
  · intro pre addr post h hpre hplace hinfix
    have hcolons := (run_of_parse h).2
    have hfew := colons_standIn h hpre hplace
    have hle := hinfix.sublist.count_le ':'
    omega

/-- A line of a log. -/
theorem addresses_masked_peer :
    scanText "peer 203.0.113.7:443 via 2001:db8::1.\n".toList =
        some (redact "peer 203.0.113.7:443 via 2001:db8::1.\n".toList) ∧
      ¬"0.113.7".toList <:+:
        standIn ("peer ".toList ++ ("203".toList ++ ['.'])) "0.113.7".toList ":443 via 2001:db8::1.\n".toList ∧
      ¬"2001:db8::1".toList <:+: standIn "peer 203.0.113.7:443 via ".toList "2001:db8::1".toList ".\n".toList ∧
      ¬"fe80:0:0:0:0:0:0:1".toList <:+: standIn "from ".toList "fe80:0:0:0:0:0:0:1".toList ", gone\n".toList :=
  ⟨(addresses_masked.1 _).1,
    addresses_masked.2.2.1 "peer ".toList "203".toList "0.113.7".toList ":443 via 2001:db8::1.\n".toList (by decide)
      (by decide) (.inl ⟨by decide, .inr ⟨"443".toList, by decide, by decide, forall_of_all (by decide)⟩⟩),
    addresses_masked.2.2.2.1 _ _ _ (by decide) (by decide)
      (addresses_masked.2.2.2.2.1 "2001:db8::1".toList (by decide) (by decide) _ _),
    addresses_masked.2.2.2.1 _ _ _ (by decide) (by decide)
      (addresses_masked.2.2.2.2.2 "from ".toList "fe80:0:0:0:0:0:0:1".toList ", gone\n".toList (by decide) (by decide)
        (by decide) (by decide) (by decide))⟩

/-- Groups of digits alone are copied as a time is, and the mask of an empty value stands in a line of its own. -/
theorem digits_copied :
    (Net.parseIpv6Addr "1:2:3:4:5:6:7:8".toList).isSome = true ∧
      "1:2:3:4:5:6:7:8".toList <:+: standIn "peer ".toList "1:2:3:4:5:6:7:8".toList " up".toList ∧
      (Net.parseIpv6Addr "::".toList).isSome = true ∧ "::".toList <:+: standIn "on ".toList "::".toList " up".toList ∧
      (splitInclusive "token:\n".toList).length = 1 ∧ (splitInclusive (redact "token:\n".toList)).length = 2 := by
  decide +kernel

end FluxRs.Bugreport
