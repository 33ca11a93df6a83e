import FluxRs.Net.Text

/-!
# FluxRs.Net.TextRoundTrip — every address reads as the one that was printed

The readers of `std::net` on what its printers write, for both families; the prefixes follow.
-/

namespace FluxRs.Net

open FluxRs.Lib

/-! ### Numbers -/

section Number

variable {radix : ℕ}

/-- The value of a run of digits, from an accumulator. -/
def valueFrom (radix acc : ℕ) (digits : List Char) : ℕ :=
  digits.foldl (fun acc c => acc * radix + (toDigit radix c).getD 0) acc

/-- A base whose digits `char::to_digit` reads. -/
structure Base (radix : ℕ) : Prop where
  one_lt : 1 < radix
  digit : ∀ d < radix, toDigit radix d.digitChar = some d

theorem base10 : Base 10 := ⟨by decide, by decide⟩

theorem base16 : Base 16 := ⟨by decide, by decide⟩

/-- No digit of the base comes next. -/
def NoDigit (radix : ℕ) (text : List Char) : Prop := ∀ c, text.head? = some c → toDigit radix c = none

variable (hb : Base radix)

include hb

theorem Base.toDigits_digit (n : ℕ) : ∀ c ∈ Nat.toDigits radix n, (toDigit radix c).isSome = true := by
  induction n using Nat.strongRecOn with
  | _ n ih =>
    by_cases hlt : n < radix
    · rw [Nat.toDigits_of_lt_base hlt]
      intro c hc
      rw [List.mem_singleton.mp hc, hb.digit n hlt]
      rfl
    · have hle := Nat.not_lt.mp hlt
      have hpos : 0 < n := by have := hb.one_lt; omega
      rw [Nat.toDigits_of_base_le hb.one_lt hle]
      intro c hc
      rcases List.mem_append.mp hc with hc | hc
      · exact ih (n / radix) (Nat.div_lt_self hpos hb.one_lt) c hc
      · have hmod : n % radix < radix := Nat.mod_lt _ (by have := hb.one_lt; omega)
        rw [List.mem_singleton.mp hc, hb.digit _ hmod]
        rfl

theorem Base.value_toDigits (n : ℕ) : valueFrom radix 0 (Nat.toDigits radix n) = n := by
  induction n using Nat.strongRecOn with
  | _ n ih =>
    by_cases hlt : n < radix
    · rw [Nat.toDigits_of_lt_base hlt, valueFrom, List.foldl_cons, List.foldl_nil, hb.digit n hlt]
      simp
    · have hle := Nat.not_lt.mp hlt
      have hpos : 0 < n := by have := hb.one_lt; omega
      have hmod : n % radix < radix := Nat.mod_lt _ (by have := hb.one_lt; omega)
      have hrest := ih (n / radix) (Nat.div_lt_self hpos hb.one_lt)
      unfold valueFrom at hrest ⊢
      rw [Nat.toDigits_of_base_le hb.one_lt hle, List.foldl_append, hrest, List.foldl_cons, List.foldl_nil,
        hb.digit _ hmod]
      exact Nat.div_add_mod' n radix

/-- Only zero starts with a zero. -/
theorem Base.head_toDigits (n : ℕ) (h : (Nat.toDigits radix n).head? = some '0') : n = 0 := by
  induction n using Nat.strongRecOn with
  | _ n ih =>
    by_cases hlt : n < radix
    · rw [Nat.toDigits_of_lt_base hlt] at h
      exact Nat.digitChar_eq_zero.mp (Option.some.inj h)
    · have hle := Nat.not_lt.mp hlt
      have hpos : 0 < n := by have := hb.one_lt; omega
      rw [Nat.toDigits_of_base_le hb.one_lt hle, List.head?_append_of_ne_nil _ Nat.toDigits_ne_nil] at h
      have hzero := ih (n / radix) (Nat.div_lt_self hpos hb.one_lt) h
      have hone := Nat.div_pos hle (by have := hb.one_lt; omega)
      omega

theorem Base.readNumber_toDigits {n maxDigits bound : ℕ} (allowZeroPrefix : Bool) {rest : List Char}
    (hlen : (Nat.toDigits radix n).length ≤ maxDigits) (hbound : n ≤ bound) (hrest : NoDigit radix rest) :
    readNumber radix maxDigits bound allowZeroPrefix (Nat.toDigits radix n ++ rest) = some (n, rest) := by
  have htake : (Nat.toDigits radix n ++ rest).takeWhile (fun c => (toDigit radix c).isSome) =
      Nat.toDigits radix n := by
    rw [List.takeWhile_append_of_pos (hb.toDigits_digit n)]
    cases rest with
    | nil => simp
    | cons c rest =>
      have hnone := hrest c rfl
      rw [List.takeWhile_cons_of_neg (by simp [hnone]), List.append_nil]
  have hvalue : (Nat.toDigits radix n).foldl (fun acc c => acc * radix + (toDigit radix c).getD 0) 0 = n :=
    hb.value_toDigits n
  have hzero : ¬ (allowZeroPrefix = false ∧ (Nat.toDigits radix n).head? = some '0' ∧
      1 < (Nat.toDigits radix n).length) := by
    rintro ⟨-, hhead, hlong⟩
    rw [hb.head_toDigits n hhead, Nat.toDigits_zero] at hlong
    exact absurd hlong (by decide)
  unfold readNumber
  simp only [htake, hvalue]
  rw [if_neg (by simp [Nat.toDigits_ne_nil]; omega), if_neg hzero, if_neg (Nat.not_lt.mpr hbound),
    List.drop_left]

end Number

/-! ### IPv4 -/

theorem noDigit_nil (radix : ℕ) : NoDigit radix [] := by
  intro c hc
  cases hc

theorem noDigit_cons {radix : ℕ} {c : Char} (h : toDigit radix c = none) (rest : List Char) :
    NoDigit radix (c :: rest) := by
  intro d hd
  rw [← Option.some.inj hd]
  exact h

theorem readChar_self (c : Char) (text : List Char) : readChar c (c :: text) = some text := by
  rw [readChar, if_pos rfl]

theorem readNumber_octet {n : ℕ} (h : n < 256) {rest : List Char} (hrest : NoDigit 10 rest) :
    readNumber 10 3 255 false (Nat.toDigits 10 n ++ rest) = some (n, rest) := by
  refine base10.readNumber_toDigits false ?_ (Nat.le_of_lt_succ h) hrest
  exact (Nat.length_toDigits_le_iff (by decide) (by decide)).mpr (by omega)

theorem readIpv4Addr_join {a b c d : ℕ} (ha : a < 256) (hb : b < 256) (hc : c < 256) (hd : d < 256)
    {rest : List Char} (hrest : NoDigit 10 rest) :
    readIpv4Addr (joinWith '.' ([a, b, c, d].map (Nat.toDigits 10)) ++ rest) = some ([a, b, c, d], rest) := by
  have hdot : ∀ text, NoDigit 10 ('.' :: text) := noDigit_cons (by decide)
  simp only [List.map_cons, List.map_nil, joinWith, List.append_assoc, List.cons_append]
  unfold readIpv4Addr
  rw [readNumber_octet ha (hdot _)]
  simp only [Option.bind_eq_bind, Option.bind_some, readChar_self]
  rw [readNumber_octet hb (hdot _)]
  simp only [Option.bind_some, readChar_self]
  rw [readNumber_octet hc (hdot _)]
  simp only [Option.bind_some, readChar_self]
  rw [readNumber_octet hd hrest]
  rfl

/-! ### Words and their digits -/

theorem foldl_digitsOfWord {w : ℕ} (k n acc : ℕ) (x : BitVec w) :
    (digitsOfWord k n x).foldl (fun acc d => acc * 2 ^ k + d) acc = acc * 2 ^ (k * n) + x.toNat % 2 ^ (k * n) := by
  induction n generalizing acc with
  | zero => simp [digitsOfWord, Nat.mod_one]
  | succ n ih =>
    rw [digitsOfWord, List.foldl_cons, ih, BitVec.toNat_ushiftRight, Nat.shiftRight_eq_div_pow, Nat.mul_succ,
      Nat.add_mul, Nat.pow_add, Nat.mod_mul]
    ring

theorem wordOfDigits_digitsOfWord {w k n : ℕ} (h : k * n = w) (x : BitVec w) :
    wordOfDigits w (2 ^ k) (digitsOfWord k n x) = x := by
  rw [wordOfDigits, foldl_digitsOfWord, h, Nat.zero_mul, Nat.zero_add, Nat.mod_eq_of_lt x.isLt, BitVec.ofNat_toNat,
    BitVec.setWidth_eq]

theorem digitsOfWord_lt {w k n : ℕ} (x : BitVec w) : ∀ d ∈ digitsOfWord k n x, d < 2 ^ k := by
  induction n with
  | zero =>
    intro d hd
    cases hd
  | succ n ih =>
    intro d hd
    rcases List.mem_cons.mp hd with rfl | hd
    · exact Nat.mod_lt _ (Nat.two_pow_pos k)
    · exact ih d hd

theorem length_digitsOfWord {w k n : ℕ} (x : BitVec w) : (digitsOfWord k n x).length = n := by
  induction n with
  | zero => rfl
  | succ n ih => rw [digitsOfWord, List.length_cons, ih]

theorem readIpv4Addr_show (addr : Ipv4Addr) {rest : List Char} (hrest : NoDigit 10 rest) :
    readIpv4Addr (showIpv4Addr addr ++ rest) = some (digitsOfWord 8 4 addr, rest) := by
  have hlt := digitsOfWord_lt (k := 8) (n := 4) addr
  unfold showIpv4Addr
  simp only [digitsOfWord, List.forall_mem_cons] at hlt ⊢
  obtain ⟨ha, hb, hc, hd, -⟩ := hlt
  exact readIpv4Addr_join ha hb hc hd hrest

theorem parseIpv4Addr_show (addr : Ipv4Addr) : parseIpv4Addr (showIpv4Addr addr) = some addr := by
  have hread := readIpv4Addr_show addr (noDigit_nil 10)
  rw [List.append_nil] at hread
  unfold parseIpv4Addr parseWith
  rw [hread]
  exact congrArg some (wordOfDigits_digitsOfWord (k := 8) (n := 4) rfl addr)

/-! ### IPv6 groups -/

/-- Where a run of groups ends: at the end of the text, or at a gap. -/
def Stop (text : List Char) : Prop := text = [] ∨ ∃ rest, text = ':' :: ':' :: rest

theorem readNumber_none {radix maxDigits bound : ℕ} {allowZeroPrefix : Bool} {text : List Char}
    (h : NoDigit radix text) : readNumber radix maxDigits bound allowZeroPrefix text = none := by
  have htake : text.takeWhile (fun c => (toDigit radix c).isSome) = [] := by
    cases text with
    | nil => rfl
    | cons c rest => exact List.takeWhile_cons_of_neg (by simp [h c rfl])
  unfold readNumber
  simp only [htake, true_or, if_true]

theorem readIpv4Addr_none_of_noDigit {text : List Char} (h : NoDigit 10 text) : readIpv4Addr text = none := by
  unfold readIpv4Addr
  rw [readNumber_none h]
  rfl

/-- A number that no dot follows is no address. -/
theorem readIpv4Addr_none {text : List Char}
    (h : (text.dropWhile fun c => (toDigit 10 c).isSome).head? ≠ some '.') : readIpv4Addr text = none := by
  unfold readIpv4Addr
  cases hread : readNumber 10 3 255 false text with
  | none => rfl
  | some result =>
    have hrest : result.2 = text.dropWhile fun c => (toDigit 10 c).isSome := by
      unfold readNumber at hread
      simp only at hread
      split_ifs at hread
      obtain rfl := Option.some.inj hread
      have hdrop : (text.takeWhile (fun c => (toDigit 10 c).isSome) ++
          text.dropWhile fun c => (toDigit 10 c).isSome).drop
            (text.takeWhile fun c => (toDigit 10 c).isSome).length = _ := List.drop_left
      rwa [List.takeWhile_append_dropWhile] at hdrop
    have hchar : readChar '.' result.2 = none := by
      rw [hrest]
      revert h
      cases text.dropWhile fun c => (toDigit 10 c).isSome with
      | nil => exact fun _ => rfl
      | cons c rest =>
        intro h
        rw [readChar, if_neg]
        rintro rfl
        exact h rfl
    simp only [Option.bind_eq_bind, Option.bind_some, hchar, Option.bind_none]

theorem readGroups_stop {text : List Char} (h : Stop text) (n : ℕ) (first : Bool) :
    readGroups n first text = ([], false, text) := by
  have hcolon : ∀ rest, NoDigit 16 (':' :: rest) ∧ NoDigit 10 (':' :: rest) :=
    fun rest => ⟨noDigit_cons (by decide) rest, noDigit_cons (by decide) rest⟩
  cases n with
  | zero => rfl
  | succ n =>
    have hinner : ∀ inner, (if first then some text else readChar ':' text) = some inner →
        NoDigit 16 inner ∧ NoDigit 10 inner := by
      intro inner hinner
      rcases h with rfl | ⟨rest, rfl⟩
      · cases first with
        | true =>
          obtain rfl := Option.some.inj hinner
          exact ⟨noDigit_nil 16, noDigit_nil 10⟩
        | false => cases hinner
      · cases first with
        | true =>
          obtain rfl := Option.some.inj hinner
          exact hcolon _
        | false =>
          obtain rfl := Option.some.inj ((readChar_self ':' _).symm.trans hinner)
          exact hcolon rest
    unfold readGroups
    cases hin : (if first then some text else readChar ':' text) with
    | none =>
      simp only [Option.bind_none]
      split_ifs <;> rfl
    | some inner =>
      obtain ⟨h16, h10⟩ := hinner inner hin
      simp only [Option.bind_some, readIpv4Addr_none_of_noDigit h10, readNumber_none h16]
      split_ifs <;> rfl

/-- A group that ends at a colon or at the end. -/
def Ends (text : List Char) : Prop := text = [] ∨ ∃ rest, text = ':' :: rest

theorem dot_not_mem_toDigits (n : ℕ) : '.' ∉ Nat.toDigits 16 n := by
  intro hin
  exact absurd (base16.toDigits_digit n '.' hin) (by decide)

theorem readGroup {g : ℕ} (hg : g < 65536) {rest : List Char} (hrest : Ends rest) :
    readIpv4Addr (Nat.toDigits 16 g ++ rest) = none ∧
      readNumber 16 4 0xffff true (Nat.toDigits 16 g ++ rest) = some (g, rest) := by
  have hnodigit : NoDigit 16 rest := by
    rcases hrest with rfl | ⟨rest, rfl⟩
    · exact noDigit_nil 16
    · exact noDigit_cons (by decide) rest
  constructor
  · refine readIpv4Addr_none fun hhead => ?_
    -- the text after the decimal digits starts inside the group, or after it
    have hmem : '.' ∈ (Nat.toDigits 16 g ++ rest).dropWhile fun c => (toDigit 10 c).isSome :=
      List.mem_of_mem_head? hhead
    rcases hrest with rfl | ⟨rest, rfl⟩
    · rw [List.append_nil] at hmem
      exact dot_not_mem_toDigits g ((List.dropWhile_sublist _).subset hmem)
    · by_cases hall : ∀ c ∈ Nat.toDigits 16 g, (toDigit 10 c).isSome = true
      · rw [List.dropWhile_append_of_pos hall, List.dropWhile_cons_of_neg (by decide)] at hhead
        cases hhead
      · rw [List.dropWhile_append, if_neg (by simpa [List.dropWhile_eq_nil_iff] using hall)] at hhead
        rw [List.head?_append_of_ne_nil _ (by simpa [List.dropWhile_eq_nil_iff] using hall)] at hhead
        exact dot_not_mem_toDigits g ((List.dropWhile_sublist _).subset (List.mem_of_mem_head? hhead))
  · refine base16.readNumber_toDigits true ?_ (Nat.le_of_lt_succ hg) hnodigit
    exact (Nat.length_toDigits_le_iff (by decide) (by decide)).mpr (by omega)

def colonGroup (g : ℕ) : List Char := ':' :: Nat.toDigits 16 g

theorem showGroups_cons (g : ℕ) (gs : List ℕ) : showGroups (g :: gs) = Nat.toDigits 16 g ++ gs.flatMap colonGroup := by
  induction gs generalizing g with
  | nil => simp [showGroups, joinWith]
  | cons g' gs ih =>
    have hjoin : showGroups (g :: g' :: gs) = Nat.toDigits 16 g ++ ':' :: showGroups (g' :: gs) := rfl
    rw [hjoin, ih, List.flatMap_cons]
    rfl

theorem ends_colonGroups {rest : List Char} (h : Stop rest) (gs : List ℕ) : Ends (gs.flatMap colonGroup ++ rest) := by
  cases gs with
  | nil =>
    rcases h with rfl | ⟨rest, rfl⟩
    · exact .inl rfl
    · exact .inr ⟨_, rfl⟩
  | cons g gs => exact .inr ⟨_, rfl⟩

theorem readGroups_colonGroups {gs : List ℕ} (hgs : ∀ g ∈ gs, g < 65536) {rest : List Char} (hrest : Stop rest) {n : ℕ}
    (hn : gs.length ≤ n) : readGroups n false (gs.flatMap colonGroup ++ rest) = (gs, false, rest) := by
  induction gs generalizing n with
  | nil => exact readGroups_stop hrest n false
  | cons g gs ih =>
    obtain ⟨hg, hgs⟩ := List.forall_mem_cons.mp hgs
    rw [List.length_cons] at hn
    obtain ⟨n, rfl⟩ : ∃ m, n = m + 1 := ⟨n - 1, by omega⟩
    obtain ⟨h4, h16⟩ := readGroup hg (ends_colonGroups hrest gs)
    have htext : (g :: gs).flatMap colonGroup ++ rest = ':' :: (Nat.toDigits 16 g ++ (gs.flatMap colonGroup ++ rest)) := by
      rw [List.flatMap_cons, List.append_assoc]
      rfl
    rw [htext, readGroups]
    simp only [Bool.false_eq_true, if_false, readChar_self, Option.bind_some, h4, h16, ite_self,
      ih hgs (by omega : gs.length ≤ n)]

/-- The groups of a printed run are read back. -/
theorem readGroups_show {gs : List ℕ} (hgs : ∀ g ∈ gs, g < 65536) {rest : List Char} (hrest : Stop rest) {n : ℕ}
    (hn : gs.length ≤ n) : readGroups n true (showGroups gs ++ rest) = (gs, false, rest) := by
  cases gs with
  | nil => exact readGroups_stop hrest n true
  | cons g gs =>
    obtain ⟨hg, hgs⟩ := List.forall_mem_cons.mp hgs
    rw [List.length_cons] at hn
    obtain ⟨n, rfl⟩ : ∃ m, n = m + 1 := ⟨n - 1, by omega⟩
    obtain ⟨h4, h16⟩ := readGroup hg (ends_colonGroups hrest gs)
    rw [showGroups_cons, List.append_assoc, readGroups]
    simp only [if_true, Option.bind_some, h4, h16, ite_self, readGroups_colonGroups hgs hrest (by omega : gs.length ≤ n)]

/-! ### The longest run of zeros -/

/-- What the fold has found in the groups so far: the longest run, and the one it is in. -/
structure ZeroRuns (groups : List ℕ) (acc : (ℕ × ℕ) × (ℕ × ℕ)) : Prop where
  longest_le : acc.1.1 + acc.1.2 ≤ groups.length
  longest : ∀ i, acc.1.1 ≤ i → i < acc.1.1 + acc.1.2 → groups[i]? = some 0
  current_le : acc.2.2 ≠ 0 → acc.2.1 + acc.2.2 = groups.length
  current : ∀ i, acc.2.1 ≤ i → i < acc.2.1 + acc.2.2 → groups[i]? = some 0

/-- One round of the fold of `longestZeroes`. -/
def zeroStep (acc : (ℕ × ℕ) × (ℕ × ℕ)) (g : ℕ × ℕ) : (ℕ × ℕ) × (ℕ × ℕ) :=
  if g.1 = 0 then
    let current := if acc.2.2 = 0 then (g.2, 1) else (acc.2.1, acc.2.2 + 1)
    (if acc.1.2 < current.2 then current else acc.1, current)
  else (acc.1, (0, 0))

theorem longestZeroes_eq (groups : List ℕ) :
    longestZeroes groups = (groups.zipIdx.foldl zeroStep ((0, 0), (0, 0))).1 := rfl

theorem ZeroRuns.step {groups : List ℕ} {acc : (ℕ × ℕ) × (ℕ × ℕ)} (h : ZeroRuns groups acc) (g : ℕ) :
    ZeroRuns (groups ++ [g]) (zeroStep acc (g, groups.length)) := by
  obtain ⟨⟨bs, bl⟩, ⟨cs, cl⟩⟩ := acc
  obtain ⟨hle, hlongest, hcle, hcurrent⟩ := h
  simp only at hle hlongest hcle hcurrent
  have hkeep : ∀ {s l : ℕ}, s + l ≤ groups.length → (∀ i, s ≤ i → i < s + l → groups[i]? = some 0) →
      ∀ i, s ≤ i → i < s + l → (groups ++ [g])[i]? = some 0 := by
    intro s l hsl hzero i hi hil
    rw [List.getElem?_append_left (by omega)]
    exact hzero i hi hil
  unfold zeroStep
  by_cases hg : g = 0
  · subst hg
    rw [if_pos rfl]
    -- the run that the new zero ends
    have hnew : ∃ s l, (if cl = 0 then (groups.length, 1) else (cs, cl + 1)) = (s, l) ∧ s + l = groups.length + 1 ∧
        ∀ i, s ≤ i → i < s + l → (groups ++ [0])[i]? = some 0 := by
      by_cases hcl : cl = 0
      · refine ⟨groups.length, 1, if_pos hcl, rfl, fun i hi hil => ?_⟩
        obtain rfl : i = groups.length := by omega
        rw [List.getElem?_append_right (Nat.le_refl _), Nat.sub_self]
        rfl
      · have hsum := hcle hcl
        refine ⟨cs, cl + 1, if_neg hcl, by omega, fun i hi hil => ?_⟩
        by_cases hend : i = groups.length
        · rw [hend, List.getElem?_append_right (Nat.le_refl _), Nat.sub_self]
          rfl
        · rw [List.getElem?_append_left (by omega)]
          exact hcurrent i hi (by omega)
    obtain ⟨s, l, heq, hsum, hzero⟩ := hnew
    simp only [heq]
    by_cases hlt : bl < l
    · rw [if_pos hlt]
      exact ⟨by simp; omega, hzero, fun _ => by simp; omega, hzero⟩
    · rw [if_neg hlt]
      exact ⟨by simp; omega, hkeep hle hlongest, fun _ => by simp; omega, hzero⟩
  · rw [if_neg hg]
    refine ⟨by simp; omega, hkeep hle hlongest, fun hne => absurd rfl hne, fun i hi hil => ?_⟩
    simp at hil

theorem zeroRuns (groups : List ℕ) : ZeroRuns groups (groups.zipIdx.foldl zeroStep ((0, 0), (0, 0))) := by
  induction groups using List.reverseRecOn with
  | nil => exact ⟨Nat.le_refl _, fun i hi hil => by simp at hil, fun h => absurd rfl h, fun i hi hil => by simp at hil⟩
  | append_singleton groups g ih =>
    rw [List.zipIdx_append, List.foldl_append]
    simpa using ih.step g

/-- A printed gap stands for zeros. -/
theorem groups_gap {groups : List ℕ} {start len : ℕ} (h : longestZeroes groups = (start, len)) :
    start + len ≤ groups.length ∧
      groups.take start ++ List.replicate len 0 ++ groups.drop (start + len) = groups := by
  have hruns := zeroRuns groups
  rw [longestZeroes_eq] at h
  have hle := hruns.longest_le
  have hzero := hruns.longest
  rw [h] at hle hzero
  simp only at hle hzero
  refine ⟨hle, List.ext_getElem? fun i => ?_⟩
  rw [List.append_assoc]
  by_cases h1 : i < start
  · rw [List.getElem?_append_left (by simp; omega), List.getElem?_take_of_lt h1]
  · rw [List.getElem?_append_right (by simp; omega), List.length_take, Nat.min_eq_left (by omega)]
    by_cases h2 : i < start + len
    · rw [List.getElem?_append_left (by simp; omega), hzero i (by omega) h2]
      exact List.getElem?_replicate_of_lt (by omega)
    · rw [List.getElem?_append_right (by simp; omega), List.length_replicate, List.getElem?_drop]
      congr 1
      omega

/-! ### IPv6 -/

theorem readIpv6Addr_groups {groups : List ℕ} (hlt : ∀ g ∈ groups, g < 65536) (hlen : groups.length = 8) :
    readIpv6Addr (showGroups groups) = some (groups, []) := by
  have hread := readGroups_show hlt (.inl rfl) hlen.le
  rw [List.append_nil] at hread
  unfold readIpv6Addr
  simp only [hread, hlen, if_true]

theorem readIpv6Addr_gap {head tail : List ℕ} {len : ℕ} (hhead : ∀ g ∈ head, g < 65536) (htail : ∀ g ∈ tail, g < 65536)
    (hlen : head.length + len + tail.length = 8) (hgap : 1 < len) :
    readIpv6Addr (showGroups head ++ "::".toList ++ showGroups tail) = some (head ++ List.replicate len 0 ++ tail, []) := by
  have hfirst := readGroups_show hhead (n := 8) (.inr ⟨showGroups tail, rfl⟩) (by omega)
  have hsecond := readGroups_show htail (n := 8 - (head.length + 1)) (.inl rfl) (by omega)
  rw [List.append_nil] at hsecond
  have htext : showGroups head ++ "::".toList ++ showGroups tail = showGroups head ++ ':' :: ':' :: showGroups tail := by
    rw [List.append_assoc]
    rfl
  have hzeros : 8 - head.length - tail.length = len := by omega
  unfold readIpv6Addr
  rw [htext]
  simp only [hfirst, readChar_self, Option.bind_eq_bind, Option.bind_some, hsecond, hzeros, Bool.false_eq_true, if_false]
  rw [if_neg (by omega)]
  rfl

theorem readIpv6Addr_mapped (addr : Ipv4Addr) :
    readIpv6Addr ("::ffff:".toList ++ showIpv4Addr addr) =
      some ([0, 0, 0, 0, 0, 0xffff,
        (digitsOfWord 8 4 addr).getD 0 0 * 256 + (digitsOfWord 8 4 addr).getD 1 0,
        (digitsOfWord 8 4 addr).getD 2 0 * 256 + (digitsOfWord 8 4 addr).getD 3 0], []) := by
  have hstop : Stop ("::ffff:".toList ++ showIpv4Addr addr) := .inr ⟨"ffff:".toList ++ showIpv4Addr addr, rfl⟩
  have hfirst := readGroups_stop hstop 8 true
  obtain ⟨h4, h16⟩ := @readGroup 0xffff (by decide) (':' :: showIpv4Addr addr) (.inr ⟨_, rfl⟩)
  have hv4 := readIpv4Addr_show addr (noDigit_nil 10)
  rw [List.append_nil] at hv4
  have hlast : readGroups 6 false (':' :: showIpv4Addr addr) =
      ([(digitsOfWord 8 4 addr).getD 0 0 * 256 + (digitsOfWord 8 4 addr).getD 1 0,
        (digitsOfWord 8 4 addr).getD 2 0 * 256 + (digitsOfWord 8 4 addr).getD 3 0], true, []) := by
    rw [readGroups]
    simp only [Bool.false_eq_true, if_false, readChar_self, Option.bind_some, hv4]
    rfl
  have hsecond : readGroups 7 true ("ffff:".toList ++ showIpv4Addr addr) =
      ([0xffff, (digitsOfWord 8 4 addr).getD 0 0 * 256 + (digitsOfWord 8 4 addr).getD 1 0,
        (digitsOfWord 8 4 addr).getD 2 0 * 256 + (digitsOfWord 8 4 addr).getD 3 0], true, []) := by
    have htext : "ffff:".toList ++ showIpv4Addr addr = Nat.toDigits 16 0xffff ++ ':' :: showIpv4Addr addr := rfl
    rw [htext, readGroups]
    simp only [if_true, Option.bind_some, h4, h16, ite_self, hlast]
  have htext : "::ffff:".toList ++ showIpv4Addr addr = ':' :: ':' :: ("ffff:".toList ++ showIpv4Addr addr) := rfl
  unfold readIpv6Addr
  simp only [hfirst, List.length_nil]
  rw [if_neg (by decide), if_neg (by decide), htext]
  simp only [readChar_self, Option.bind_eq_bind, Option.bind_some, hsecond]
  rfl

theorem mapped_groups (addr : Ipv6Addr) :
    (digitsOfWord 8 4 (addr.setWidth 32)).getD 0 0 * 256 + (digitsOfWord 8 4 (addr.setWidth 32)).getD 1 0 =
        (digitsOfWord 16 8 addr).getD 6 0 ∧
      (digitsOfWord 8 4 (addr.setWidth 32)).getD 2 0 * 256 + (digitsOfWord 8 4 (addr.setWidth 32)).getD 3 0 =
        (digitsOfWord 16 8 addr).getD 7 0 := by
  simp only [digitsOfWord, BitVec.toNat_ushiftRight, BitVec.toNat_setWidth, Nat.shiftRight_eq_div_pow,
    List.getD_cons_zero, List.getD_cons_succ]
  omega

theorem readIpv6Addr_show (addr : Ipv6Addr) : readIpv6Addr (showIpv6Addr addr) = some (digitsOfWord 16 8 addr, []) := by
  have hlt : ∀ g ∈ digitsOfWord 16 8 addr, g < 65536 := digitsOfWord_lt addr
  have hlen : (digitsOfWord 16 8 addr).length = 8 := length_digitsOfWord addr
  obtain ⟨h6, h7⟩ := mapped_groups addr
  unfold showIpv6Addr
  generalize digitsOfWord 16 8 addr = groups at hlt hlen h6 h7 ⊢
  simp only
  by_cases hmapped : groups.take 6 = [0, 0, 0, 0, 0, 0xffff]
  · rw [if_pos hmapped, readIpv6Addr_mapped, h6, h7]
    have hlast : groups.drop 6 = [groups.getD 6 0, groups.getD 7 0] := by
      have h0 : groups[6]? = some (groups.getD 6 0) := by simp [hlen]
      have h1 : groups[7]? = some (groups.getD 7 0) := by simp [hlen]
      rw [List.drop_eq_getElem?_toList_append, h0, List.drop_eq_getElem?_toList_append, h1,
        List.drop_of_length_le (by omega)]
      rfl
    rw [← List.take_append_drop 6 groups, hlast, hmapped]
    rfl
  · rw [if_neg hmapped]
    cases hrun : longestZeroes groups with
    | mk start len =>
      obtain ⟨hle, hgap⟩ := groups_gap hrun
      simp only
      by_cases hlong : 1 < len
      · rw [if_pos hlong, readIpv6Addr_gap (fun g hg => hlt g (List.mem_of_mem_take hg))
          (fun g hg => hlt g (List.mem_of_mem_drop hg)) (by simp; omega) hlong, hgap]
      · rw [if_neg hlong, readIpv6Addr_groups hlt hlen]

theorem parseIpv6Addr_show (addr : Ipv6Addr) : parseIpv6Addr (showIpv6Addr addr) = some addr := by
  unfold parseIpv6Addr parseWith
  rw [readIpv6Addr_show]
  exact congrArg some (wordOfDigits_digitsOfWord (k := 16) (n := 8) rfl addr)

/-! ### No slash in an address -/

theorem slash_not_mem_toDigits {radix : ℕ} (hb : Base radix) (h : toDigit radix '/' = none) (n : ℕ) :
    '/' ∉ Nat.toDigits radix n := by
  intro hin
  have hdigit := hb.toDigits_digit n '/' hin
  rw [h] at hdigit
  cases hdigit

theorem not_mem_joinWith {sep c : Char} (hsep : c ≠ sep) {parts : List (List Char)} (h : ∀ part ∈ parts, c ∉ part) :
    c ∉ joinWith sep parts := by
  induction parts with
  | nil => exact List.not_mem_nil
  | cons part rest ih =>
    obtain ⟨hpart, hrest⟩ := List.forall_mem_cons.mp h
    cases rest with
    | nil => exact hpart
    | cons next rest =>
      show c ∉ part ++ sep :: joinWith sep (next :: rest)
      rw [List.mem_append, List.mem_cons]
      rintro (hin | rfl | hin)
      · exact hpart hin
      · exact hsep rfl
      · exact ih hrest hin

theorem slash_not_mem_showIpv4Addr (addr : Ipv4Addr) : '/' ∉ showIpv4Addr addr := by
  refine not_mem_joinWith (by decide) ?_
  intro part hin
  obtain ⟨n, -, rfl⟩ := List.mem_map.mp hin
  exact slash_not_mem_toDigits base10 (by decide) n

theorem slash_not_mem_showGroups (groups : List ℕ) : '/' ∉ showGroups groups := by
  refine not_mem_joinWith (by decide) ?_
  intro part hin
  obtain ⟨n, -, rfl⟩ := List.mem_map.mp hin
  exact slash_not_mem_toDigits base16 (by decide) n

theorem slash_not_mem_showIpv6Addr (addr : Ipv6Addr) : '/' ∉ showIpv6Addr addr := by
  unfold showIpv6Addr
  simp only
  split_ifs
  · rw [List.mem_append]
    rintro (hin | hin)
    · exact absurd hin (by decide)
    · exact slash_not_mem_showIpv4Addr _ hin
  · rw [List.mem_append, List.mem_append]
    rintro ((hin | hin) | hin)
    · exact slash_not_mem_showGroups _ hin
    · exact absurd hin (by decide)
    · exact slash_not_mem_showGroups _ hin
  · exact slash_not_mem_showGroups _

/-! ### Prefixes -/

theorem parseU8_of_head {text : List Char} (h : text.head? ≠ some '+') :
    parseU8 text =
      if text = [] ∨ text.any (fun c => (toDigit 10 c).isNone) then none
      else if 255 < valueFrom 10 0 text then none else some (valueFrom 10 0 text) := by
  unfold parseU8
  split
  · exact absurd rfl h
  · rfl

theorem parseU8_toDigits {n : ℕ} (h : n < 256) : parseU8 (Nat.toDigits 10 n) = some n := by
  have hnot : Nat.toDigits 10 n ≠ [] := Nat.toDigits_ne_nil
  have hdigits := base10.toDigits_digit n
  have hplus : (Nat.toDigits 10 n).head? ≠ some '+' := by
    intro hhead
    exact absurd (hdigits '+' (List.mem_of_mem_head? hhead)) (by decide)
  rw [parseU8_of_head hplus, base10.value_toDigits, if_neg, if_neg (by omega)]
  rintro (hnil | hany)
  · exact hnot hnil
  · obtain ⟨c, hc, hnone⟩ := List.any_eq_true.mp hany
    have hsome := hdigits c hc
    rw [Option.isNone_iff_eq_none] at hnone
    rw [hnone] at hsome
    cases hsome

theorem splitPrefix_show {addr : List Char} (h : '/' ∉ addr) {n : ℕ} (hn : n < 256) :
    splitPrefix (addr ++ '/' :: Nat.toDigits 10 n) = some (addr, n) := by
  have hall : ∀ c ∈ addr, decide (c ≠ '/') = true := by
    intro c hc
    refine decide_eq_true ?_
    rintro rfl
    exact h hc
  unfold splitPrefix
  rw [List.dropWhile_append_of_pos hall, List.takeWhile_append_of_pos hall, List.dropWhile_cons_of_neg (by decide),
    List.takeWhile_cons_of_neg (by decide), List.append_nil]
  simp only [parseU8_toDigits hn, Option.map_some]

section Family

variable {w : ℕ} {parseAddr : List Char → Option (BitVec w)} {showAddr : BitVec w → List Char}

/-- Where the printed address is read back, the accepted texts are the printed canonical prefixes. -/
theorem parseCidr_ok_iff (hw : w < 256) (hparse : ∀ addr, parseAddr (showAddr addr) = some addr)
    (hslash : ∀ addr, '/' ∉ showAddr addr) {text : String} {c : Cidr w} :
    parseCidr parseAddr showAddr text = .ok c ↔ text.toList = showPrefix showAddr c.addr c.prefixLen := by
  refine ⟨parseCidr_text, fun htext => ?_⟩
  have hlen := c.len_le
  unfold parseCidr
  rw [htext, showPrefix, splitPrefix_show (hslash c.addr) (by omega)]
  simp only
  rw [dif_pos hlen, hparse]
  simp only
  rw [if_neg (fun hne => hne rfl), dif_pos c.canonical]

end Family

theorem Ipv4Cidr.parse_ok_iff {text : String} {c : Ipv4Cidr} : Ipv4Cidr.parse text = .ok c ↔ text = c.show := by
  rw [Ipv4Cidr.parse, parseCidr_ok_iff (by decide) parseIpv4Addr_show slash_not_mem_showIpv4Addr, Ipv4Cidr.show]
  exact ⟨fun h => String.toList_injective (h.trans String.toList_ofList.symm), fun h => by rw [h, String.toList_ofList]⟩

theorem Ipv6Cidr.parse_ok_iff {text : String} {c : Ipv6Cidr} : Ipv6Cidr.parse text = .ok c ↔ text = c.show := by
  rw [Ipv6Cidr.parse, parseCidr_ok_iff (by decide) parseIpv6Addr_show slash_not_mem_showIpv6Addr, Ipv6Cidr.show]
  exact ⟨fun h => String.toList_injective (h.trans String.toList_ofList.symm), fun h => by rw [h, String.toList_ofList]⟩

end FluxRs.Net
