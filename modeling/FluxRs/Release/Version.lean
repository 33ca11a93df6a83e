import FluxRs.Apps.Selector
import FluxRs.Nodes.Sources

/-!
# FluxRs.Release.Version — versions, their texts and their codes

`crates/flux-core/src/version.rs`: the canonical text of a version or a release candidate, and the code that the
root managers compare.
-/

namespace FluxRs.Release

open FluxRs.Lib
open FluxRs.Apps (parseU32 parseU32_of_isDecimal)
open FluxRs.Nodes (isAsciiDigit splitOnce)

structure Version where
  major : U32
  minor : U32
  patch : U32
  releaseCandidate : Option U32
deriving DecidableEq

/-- `checked_mul`. -/
def checkedMul (a b : U32) : Option U32 := if a.toNat * b.toNat < 2 ^ 32 then some (a * b) else none

/-- `checked_add`. -/
def checkedAdd (a b : U32) : Option U32 := if a.toNat + b.toNat < 2 ^ 32 then some (a + b) else none

/-- `i32::MAX as u32`. -/
def codeMax : U32 := 0x7fffffff

namespace Version

def versionCode (v : Version) : Option U32 :=
  if 99 < v.minor ∨ 99 < v.patch ∨ v.releaseCandidate.any (fun n => decide (998 < n)) then none
  else do
    let code ← checkedMul v.major 100
    let code ← checkedAdd code v.minor
    let code ← checkedMul code 100
    let code ← checkedAdd code v.patch
    let code ← checkedMul code 1000
    let code ← checkedAdd code (v.releaseCandidate.getD 999)
    if code ≤ codeMax then some code else none

end Version

def canonicalNumber (text : List Char) : Option U32 :=
  if text = [] ∨ (1 < text.length ∧ text.head? = some '0') ∨ text.any (fun c => !isAsciiDigit c) then none
  else (parseU32 text).map (BitVec.ofNat 32)

/-- `"-rc."`. -/
def dashRc : List Char := ['-', 'r', 'c', '.']

/-- The text in front of a candidate number, and the number. -/
def splitCandidate (text : List Char) : Option (List Char × Option U32) :=
  match splitOnce dashRc text with
  | some (triple, candidate) => (canonicalNumber candidate).map fun n => (triple, some n)
  | none => some (text, none)

/-- The version of three parts; none where a part is missing, where there is a fourth, or without a code. -/
def versionOf (triple : List Char) (releaseCandidate : Option U32) : Option Version :=
  match triple.splitOn '.' with
  | [major, minor, patch] => do
    let major ← canonicalNumber major
    let minor ← canonicalNumber minor
    let patch ← canonicalNumber patch
    let version : Version := ⟨major, minor, patch, releaseCandidate⟩
    let _ ← version.versionCode
    some version
  | _ => none

def parseVersion (text : List Char) : Option Version :=
  (splitCandidate text).bind fun (triple, releaseCandidate) => versionOf triple releaseCandidate

/-! ### What a version stands for -/

namespace Version

/-- The place of a version among those of one patch number; the final release is the last. -/
def stage (v : Version) : ℕ := (v.releaseCandidate.map BitVec.toNat).getD 999

/-- The code without any bound. -/
def exactCode (v : Version) : ℕ :=
  ((v.major.toNat * 100 + v.minor.toNat) * 100 + v.patch.toNat) * 1000 + v.stage

structure Bounded (v : Version) : Prop where
  minor : v.minor.toNat ≤ 99
  patch : v.patch.toNat ≤ 99
  candidate : ∀ n, v.releaseCandidate = some n → n.toNat ≤ 998

/-- A candidate comes before candidates of a higher number and before the final release. -/
def stageBefore : Option U32 → Option U32 → Prop
  | some n, some m => n.toNat < m.toNat
  | some _, none => True
  | none, _ => False

/-- The order of releases. -/
def Precedes (v w : Version) : Prop :=
  v.major.toNat < w.major.toNat ∨ v.major = w.major ∧
    (v.minor.toNat < w.minor.toNat ∨ v.minor = w.minor ∧
      (v.patch.toNat < w.patch.toNat ∨ v.patch = w.patch ∧ stageBefore v.releaseCandidate w.releaseCandidate))

def render (v : Version) : List Char :=
  decimal v.major.toNat ++ '.' :: (decimal v.minor.toNat ++ '.' :: decimal v.patch.toNat) ++
    match v.releaseCandidate with
    | some n => dashRc ++ decimal n.toNat
    | none => []

end Version

/-! ### Codes -/

theorem checkedMul_eq_some {a b c : U32} : checkedMul a b = some c ↔ a.toNat * b.toNat = c.toNat := by
  have hc := c.isLt
  unfold checkedMul
  constructor
  · intro h
    split at h
    · rename_i hlt
      rw [← Option.some.inj h, BitVec.toNat_mul, Nat.mod_eq_of_lt hlt]
    · cases h
  · intro h
    rw [if_pos (h ▸ hc)]
    refine congrArg some (BitVec.eq_of_toNat_eq ?_)
    rw [BitVec.toNat_mul, h, Nat.mod_eq_of_lt hc]

theorem checkedAdd_eq_some {a b c : U32} : checkedAdd a b = some c ↔ a.toNat + b.toNat = c.toNat := by
  have hc := c.isLt
  unfold checkedAdd
  constructor
  · intro h
    split at h
    · rename_i hlt
      rw [← Option.some.inj h, BitVec.toNat_add, Nat.mod_eq_of_lt hlt]
    · cases h
  · intro h
    rw [if_pos (h ▸ hc)]
    refine congrArg some (BitVec.eq_of_toNat_eq ?_)
    rw [BitVec.toNat_add, h, Nat.mod_eq_of_lt hc]

namespace Version

theorem stage_toNat (v : Version) : (v.releaseCandidate.getD 999).toNat = v.stage := by
  unfold stage
  cases v.releaseCandidate <;> rfl

theorem bounded_iff (v : Version) :
    ¬ (99 < v.minor ∨ 99 < v.patch ∨ v.releaseCandidate.any (fun n => decide (998 < n)) = true) ↔ v.Bounded := by
  have hlt : ∀ {a b : U32}, ¬ a < b ↔ b.toNat ≤ a.toNat := fun {a b} => by rw [BitVec.lt_def, Nat.not_lt]
  rw [not_or, not_or, hlt, hlt]
  constructor
  · rintro ⟨hminor, hpatch, hcandidate⟩
    refine ⟨hminor, hpatch, fun n hn => ?_⟩
    rw [hn] at hcandidate
    exact hlt.mp fun h => hcandidate (decide_eq_true h)
  · rintro ⟨hminor, hpatch, hcandidate⟩
    refine ⟨hminor, hpatch, fun hany => ?_⟩
    cases hrc : v.releaseCandidate with
    | none =>
      rw [hrc] at hany
      cases hany
    | some n =>
      rw [hrc] at hany
      exact hlt.mpr (hcandidate n hrc) (of_decide_eq_true hany)

/-- **A version has a code iff its components keep their bounds and the code fits**; no step before the last one
can be too large when the last is not. -/
theorem versionCode_eq_some {v : Version} {code : U32} :
    v.versionCode = some code ↔ v.Bounded ∧ code.toNat = v.exactCode ∧ code ≤ codeMax := by
  have hcode := code.isLt
  unfold versionCode
  by_cases hbound : v.Bounded
  · rw [if_neg (v.bounded_iff.mpr hbound)]
    simp only [Option.bind_eq_bind, Option.bind_eq_some_iff, checkedMul_eq_some, checkedAdd_eq_some, stage_toNat]
    constructor
    · rintro ⟨c₁, h₁, c₂, h₂, c₃, h₃, c₄, h₄, c₅, h₅, c₆, h₆, hlast⟩
      split at hlast
      · rename_i hle
        obtain rfl := Option.some.inj hlast
        refine ⟨hbound, ?_, hle⟩
        rw [exactCode, ← h₆, ← h₅, ← h₄, ← h₃, ← h₂, ← h₁]
        rfl
      · cases hlast
    · rintro ⟨-, hexact, hle⟩
      have hword : ∀ n, n ≤ v.exactCode → ∃ word : U32, word.toNat = n := fun n hn =>
        ⟨BitVec.ofNat 32 n, by rw [BitVec.toNat_ofNat]; exact Nat.mod_eq_of_lt (by omega)⟩
      unfold exactCode at hword hexact
      obtain ⟨c₁, h₁⟩ := hword (v.major.toNat * 100) (by omega)
      obtain ⟨c₂, h₂⟩ := hword (c₁.toNat + v.minor.toNat) (by omega)
      obtain ⟨c₃, h₃⟩ := hword (c₂.toNat * 100) (by omega)
      obtain ⟨c₄, h₄⟩ := hword (c₃.toNat + v.patch.toNat) (by omega)
      obtain ⟨c₅, h₅⟩ := hword (c₄.toNat * 1000) (by omega)
      refine ⟨c₁, h₁.symm, c₂, h₂.symm, c₃, h₃.symm, c₄, h₄.symm, c₅, h₅.symm, code, by omega, if_pos hle⟩
  · rw [if_pos (not_not.mp fun h => hbound (v.bounded_iff.mp h))]
    constructor
    · intro h
      cases h
    · rintro ⟨h, -, -⟩
      exact absurd h hbound

end Version

/-! ### Texts -/

theorem canonicalNumber_eq_some {text : List Char} {n : U32} :
    canonicalNumber text = some n ↔ text = decimal n.toNat := by
  have hn := n.isLt
  unfold canonicalNumber
  constructor
  · intro h
    split at h
    · cases h
    · rename_i hcanonical
      rw [not_or, not_or] at hcanonical
      obtain ⟨hnil, hzero, hdigits⟩ := hcanonical
      have hdecimal : IsDecimal text := by
        refine ⟨hnil, fun c hc => ?_⟩
        rw [← FluxRs.Apps.isAsciiDigit_eq]
        by_contra hnot
        exact hdigits (List.any_eq_true.mpr ⟨c, hc, by rw [Bool.not_eq_true] at hnot; rw [hnot]; rfl⟩)
      rw [parseU32_of_isDecimal hdecimal] at h
      split at h
      · rename_i hlt
        rw [← Option.some.inj h]
        show text = decimal (BitVec.ofNat 32 (decimalValue text)).toNat
        rw [BitVec.toNat_ofNat, Nat.mod_eq_of_lt hlt, decimal_decimalValue hdecimal fun hlong hhead => hzero ⟨hlong, hhead⟩]
      · cases h
  · rintro rfl
    have hdecimal := isDecimal_decimal n.toNat
    rw [if_neg, parseU32_of_isDecimal hdecimal, decimalValue_decimal, if_pos hn, Option.map_some, BitVec.ofNat_toNat,
      BitVec.setWidth_eq]
    rintro (hnil | ⟨hlong, hhead⟩ | hany)
    · exact hdecimal.ne_nil hnil
    · rw [decimal_head _ hhead] at hlong
      exact absurd hlong (by decide)
    · obtain ⟨c, hc, hnot⟩ := List.any_eq_true.mp hany
      rw [FluxRs.Apps.isAsciiDigit_eq, hdecimal.digit c hc] at hnot
      cases hnot

theorem splitOn_dots {a b c : List Char} (ha : '.' ∉ a) (hb : '.' ∉ b) (hc : '.' ∉ c) :
    (a ++ '.' :: (b ++ '.' :: c)).splitOn '.' = [a, b, c] := by
  have hjoin : a ++ '.' :: (b ++ '.' :: c) = ['.'].intercalate [a, b, c] := by simp [List.intercalate]
  rw [hjoin, List.splitOn_intercalate]
  · intro part hpart
    simp only [List.mem_cons, List.not_mem_nil, or_false] at hpart
    obtain rfl | rfl | rfl := hpart <;> assumption
  · exact List.cons_ne_nil _ _

theorem of_splitOn_dots {text a b c : List Char} (h : text.splitOn '.' = [a, b, c]) :
    text = a ++ '.' :: (b ++ '.' :: c) := by
  have hjoin : ['.'].intercalate (text.splitOn '.') = text := List.intercalate_splitOn '.'
  rw [← hjoin, h]
  simp [List.intercalate]

/-- The three numbers of a version, before anything is said about a candidate. -/
def triple (v : Version) : List Char :=
  decimal v.major.toNat ++ '.' :: (decimal v.minor.toNat ++ '.' :: decimal v.patch.toNat)

theorem dash_not_mem_triple (v : Version) : '-' ∉ triple v := by
  have hnot := not_mem_decimal (c := '-') (by decide)
  simp [triple, hnot]

theorem splitOn_triple (v : Version) :
    (triple v).splitOn '.' = [decimal v.major.toNat, decimal v.minor.toNat, decimal v.patch.toNat] :=
  splitOn_dots (not_mem_decimal (by decide) _) (not_mem_decimal (by decide) _) (not_mem_decimal (by decide) _)

theorem canonicalNumber_decimal (n : U32) : canonicalNumber (decimal n.toNat) = some n := canonicalNumber_eq_some.mpr rfl

theorem versionOf_eq_some {text : List Char} {releaseCandidate : Option U32} {v : Version} :
    versionOf text releaseCandidate = some v ↔
      text = triple v ∧ v.releaseCandidate = releaseCandidate ∧ ∃ code, v.versionCode = some code := by
  unfold versionOf
  constructor
  · intro h
    split at h
    · rename_i major minor patch hsplit
      simp only [Option.bind_eq_bind, Option.bind_eq_some_iff, canonicalNumber_eq_some] at h
      obtain ⟨a, ha, b, hb, c, hc, code, hcode, hv⟩ := h
      obtain rfl := Option.some.inj hv
      refine ⟨?_, rfl, code, hcode⟩
      rw [of_splitOn_dots hsplit, ha, hb, hc]
      rfl
    · cases h
  · rintro ⟨rfl, rfl, code, hcode⟩
    rw [splitOn_triple v]
    simp only [Option.bind_eq_bind, canonicalNumber_decimal, Option.bind_some]
    show (v.versionCode.bind fun _ => some v) = some v
    rw [hcode]
    rfl

/-- A rendered version is read again, if it has a code. -/
theorem parseVersion_render {v : Version} {code : U32} (hcode : v.versionCode = some code) :
    parseVersion v.render = some v := by
  have hversion := versionOf_eq_some.mpr ⟨rfl, rfl, code, hcode⟩
  have hrender : v.render = triple v ++ (match v.releaseCandidate with
    | some n => dashRc ++ decimal n.toNat
    | none => []) := rfl
  have hsplit : splitCandidate v.render = some (triple v, v.releaseCandidate) := by
    rw [hrender]
    unfold splitCandidate
    cases v.releaseCandidate with
    | none =>
      have hdash : splitOnce dashRc (triple v) = none := FluxRs.Nodes.splitOnce_absent (dash_not_mem_triple v) _
      simp only [List.append_nil]
      rw [hdash]
    | some n =>
      have hdash : splitOnce dashRc (triple v ++ dashRc ++ decimal n.toNat) = some (triple v, decimal n.toNat) :=
        FluxRs.Nodes.splitOnce_at (dash_not_mem_triple v) _ _
      simp only
      rw [← List.append_assoc, hdash]
      simp only
      rw [canonicalNumber_decimal, Option.map_some]
  rw [parseVersion, hsplit]
  exact hversion

/-- What is read is the rendering of what it is read as. -/
theorem parseVersion_sound {text : List Char} {v : Version} (h : parseVersion text = some v) :
    text = v.render ∧ ∃ code, v.versionCode = some code := by
  obtain ⟨⟨front, releaseCandidate⟩, hsplit, hversion⟩ := Option.bind_eq_some_iff.mp h
  obtain ⟨hfront, hcandidate, hcode⟩ := versionOf_eq_some.mp hversion
  refine ⟨?_, hcode⟩
  subst hfront
  unfold splitCandidate at hsplit
  split at hsplit
  · rename_i before candidate hdash
    obtain ⟨n, hn, heq⟩ := Option.map_eq_some_iff.mp hsplit
    obtain ⟨rfl, hrc⟩ := Prod.mk.inj heq
    rw [FluxRs.Nodes.splitOnce_sound hdash, canonicalNumber_eq_some.mp hn, Version.render, hcandidate, ← hrc]
    exact List.append_assoc _ _ _
  · obtain ⟨htext, hrc⟩ := Prod.mk.inj (Option.some.inj hsplit)
    rw [htext, Version.render, hcandidate, ← hrc]
    exact (List.append_nil _).symm

/-! ### Order -/

namespace Version

theorem stage_le {v : Version} (hv : v.Bounded) : v.stage ≤ 999 := by
  unfold stage
  cases hrc : v.releaseCandidate with
  | none => exact le_rfl
  | some n => exact le_trans (hv.candidate n hrc) (by decide)

theorem stageBefore_iff {v w : Version} (hv : v.Bounded) (hw : w.Bounded) :
    stageBefore v.releaseCandidate w.releaseCandidate ↔ v.stage < w.stage := by
  have hlast := stage_le hw
  unfold stage at hlast ⊢
  cases hrc : v.releaseCandidate with
  | none => exact Iff.intro False.elim fun h => absurd h (Nat.not_lt.mpr hlast)
  | some n =>
    have hn := hv.candidate n hrc
    have hlt : n.toNat < 999 := by omega
    cases w.releaseCandidate with
    | none => exact Iff.intro (fun _ => hlt) fun _ => trivial
    | some m => exact Iff.rfl

theorem exactCode_lt_iff {v w : Version} (hv : v.Bounded) (hw : w.Bounded) : v.exactCode < w.exactCode ↔ v.Precedes w := by
  have heq : ∀ {a b : U32}, a = b ↔ a.toNat = b.toNat := fun {a b} => BitVec.toNat_inj.symm
  have hlast := stage_le hv
  have hlast' := stage_le hw
  have hminor := hv.minor
  have hminor' := hw.minor
  have hpatch := hv.patch
  have hpatch' := hw.patch
  unfold exactCode Precedes
  rw [stageBefore_iff hv hw, heq, heq, heq]
  omega

theorem exactCode_inj {v w : Version} (hv : v.Bounded) (hw : w.Bounded) (h : v.exactCode = w.exactCode) : v = w := by
  have hsplit : v.major.toNat = w.major.toNat ∧ v.minor.toNat = w.minor.toNat ∧ v.patch.toNat = w.patch.toNat ∧
      v.stage = w.stage := by
    have hlast := stage_le hv
    have hlast' := stage_le hw
    have hminor := hv.minor
    have hminor' := hw.minor
    have hpatch := hv.patch
    have hpatch' := hw.patch
    unfold exactCode at h
    omega
  obtain ⟨hmajor, hminor, hpatch, hstage⟩ := hsplit
  have hcandidate : v.releaseCandidate = w.releaseCandidate := by
    unfold stage at hstage
    cases hrc : v.releaseCandidate with
    | none =>
      cases hrc' : w.releaseCandidate with
      | none => rfl
      | some m =>
        have hm := hw.candidate m hrc'
        rw [hrc, hrc'] at hstage
        have heq : 999 = m.toNat := hstage
        omega
    | some n =>
      cases hrc' : w.releaseCandidate with
      | none =>
        have hn := hv.candidate n hrc
        rw [hrc, hrc'] at hstage
        have heq : n.toNat = 999 := hstage
        omega
      | some m =>
        rw [hrc, hrc'] at hstage
        exact congrArg some (BitVec.eq_of_toNat_eq hstage)
  obtain ⟨major, minor, patch, releaseCandidate⟩ := v
  obtain ⟨major', minor', patch', releaseCandidate'⟩ := w
  obtain rfl := BitVec.eq_of_toNat_eq hmajor
  obtain rfl := BitVec.eq_of_toNat_eq hminor
  obtain rfl := BitVec.eq_of_toNat_eq hpatch
  obtain rfl : releaseCandidate = releaseCandidate' := hcandidate
  rfl

end Version

/-- **Exactly the canonical texts of versions with a code are read**, no two of them as one version; codes fit the
signed range, lose nothing on the way, and follow the order of releases. -/
theorem parse_version_codes :
    (∀ (text : List Char) (v : Version),
      parseVersion text = some v ↔ text = v.render ∧ ∃ code, v.versionCode = some code) ∧
    (∀ text text' : List Char, (parseVersion text).isSome = true → parseVersion text = parseVersion text' → text = text') ∧
    (∀ (v : Version) (code : U32),
      v.versionCode = some code ↔ v.Bounded ∧ code.toNat = v.exactCode ∧ v.exactCode ≤ 2 ^ 31 - 1) ∧
    ∀ (v w : Version) (code code' : U32), v.versionCode = some code → w.versionCode = some code' →
      (code < code' ↔ v.Precedes w) ∧ (code = code' ↔ v = w) := by
  have hmax : ∀ code : U32, code ≤ codeMax ↔ code.toNat ≤ 2 ^ 31 - 1 := fun code => BitVec.le_def
  refine ⟨fun text v => ⟨parseVersion_sound, ?_⟩, ?_, ?_, ?_⟩
  · rintro ⟨rfl, code, hcode⟩
    exact parseVersion_render hcode
  · intro text text' hsome heq
    obtain ⟨v, hv⟩ := Option.isSome_iff_exists.mp hsome
    exact (parseVersion_sound hv).1.trans (parseVersion_sound (heq.symm.trans hv)).1.symm
  · intro v code
    rw [Version.versionCode_eq_some, hmax]
    constructor
    · rintro ⟨hbound, hcode, hle⟩
      exact ⟨hbound, hcode, hcode ▸ hle⟩
    · rintro ⟨hbound, hcode, hle⟩
      exact ⟨hbound, hcode, hcode ▸ hle⟩
  · intro v w code code' hv hw
    obtain ⟨hbound, hcode, -⟩ := Version.versionCode_eq_some.mp hv
    obtain ⟨hbound', hcode', -⟩ := Version.versionCode_eq_some.mp hw
    refine ⟨?_, ?_⟩
    · rw [BitVec.lt_def, hcode, hcode']
      exact Version.exactCode_lt_iff hbound hbound'
    · constructor
      · rintro rfl
        exact Version.exactCode_inj hbound hbound' (hcode.symm.trans hcode')
      · rintro rfl
        exact Option.some.inj (hv.symm.trans hw)

end FluxRs.Release
