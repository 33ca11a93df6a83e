import FluxRs.Kmod.Uapi

/-!
# FluxRs.Kmod.Bypass — the kernel's bypass set

`kmod/fluxrs_bypass.c`: the parser of the packed buffer (mask, sort, de-duplicate, offsets), the
per-length binary search, and the verdict `set_direct`.  Allocation outcomes and `sort()` are
parameters; a prefix array is a list whose length is the `*_n` counter beside it.
-/

namespace FluxRs.Kmod

open FluxRs.Lib FluxRs.Net
open Std (ExtTreeMap ExtTreeSet)

inductive Errno where
  | EFAULT
  | EINVAL
  | ENOSPC
  | ENOMEM
  deriving DecidableEq, Repr

/-- `sort()` of `lib/sort.c`: a permutation in the order of a comparison that is a total preorder. -/
structure Sorter where
  sort : {α : Type} → (α → α → Int) → List α → List α
  perm : ∀ {α : Type} (cmp : α → α → Int) (l : List α), (sort cmp l).Perm l
  sorted : ∀ {α : Type} (cmp : α → α → Int), (∀ a b, cmp a b ≤ 0 ∨ cmp b a ≤ 0) →
    (∀ a b c, cmp a b ≤ 0 → cmp b c ≤ 0 → cmp a c ≤ 0) →
    ∀ l : List α, (sort cmp l).Pairwise fun a b => cmp a b ≤ 0

/-- The outcomes of the allocations of one `SET_BYPASS`. -/
structure BypassAlloc where
  buf : Bool := true
  newSet : Bool := true
  v4 : Bool := true
  v6 : Bool := true
  self4 : Bool := true
  self6 : Bool := true
  deriving DecidableEq

/-- `struct fluxrs_pfx4_live`, the length in bits, the network as a number. -/
abbrev Pfx4Live := Entry U32 U8

/-- `struct fluxrs_pfx6_live`, the network as its sixteen bytes. -/
abbrev Pfx6Live := Entry (List U8) U8

/-- `struct fluxrs_set`. -/
structure FluxrsSet where
  cidrMode : U32
  v4 : List Pfx4Live
  v6 : List Pfx6Live
  v4Off : List ℕ
  v6Off : List ℕ
  self4 : List U32
  self6 : List (List U8)
  deriving DecidableEq

/-- `FLUXRS_BYPASS_RESERVED`. -/
def bypassReserved : U8 := 1

/-- `FLUXRS_BYPASS_POLICY`. -/
def bypassPolicy : U8 := 2

/-- `FLUXRS_CIDR_WHITELIST`. -/
def cidrWhitelist : U32 := 1

/-- `addr & plen4_mask(plen)`. -/
def maskV4 (plen : ℕ) (addr : U32) : U32 := addr &&& mask 32 plen

def maskV6 (plen : ℕ) (addr : List U8) : List U8 := maskOctets addr plen

/-! ### Sorting and de-duplicating -/

section Tables

variable {N : Type} [LinearOrder N]

/-- `cmp_pfx4` and `cmp_pfx6` (bytes compare as `memcmp`, lexicographically). -/
def cmpPfx (a b : Entry N U8) : Int :=
  if a.len ≠ b.len then (a.len : Int) - b.len
  else if a.net < b.net then -1
  else if b.net < a.net then 1
  else 0

/-- `cmp_u32` and `cmp_in6`. -/
def cmpKey (a b : N) : Int := if a < b then -1 else if b < a then 1 else 0

/-- `unique_pfx4` and `unique_pfx6`: of equal prefixes the last one stays. -/
def uniquePfx (l : List (Entry N U8)) : List (Entry N U8) :=
  compact (fun x => (x.len, x.net)) (fun _ next => next) l

/-- `unique_u32` and `unique_in6`. -/
def uniqueKey (l : List N) : List N := compact id (fun kept _ => kept) l

variable (srt : Sorter)

/-- `parse_v4` and `parse_v6` over the records of their array; the offsets cover lengths `0..=W`. -/
def parsePrefixes (W : ℕ) (alloc : Bool) (one : List U8 → Except Errno (Entry N U8))
    (recs : List (List U8)) : Except Errno (List (Entry N U8) × List ℕ) :=
  if recs = [] then .ok ([], fillOff W ([] : List (Entry N U8)))
  else if !alloc then .error .ENOMEM
  else match recs.mapM one with
    | .error err => .error err
    | .ok live =>
      let table := uniquePfx (srt.sort cmpPfx live)
      .ok (table, fillOff W table)

/-- `parse_self4` and `parse_self6`. -/
def parseSelf (alloc : Bool) (one : List U8 → N) (recs : List (List U8)) : Except Errno (List N) :=
  if recs = [] then .ok []
  else if !alloc then .error .ENOMEM
  else .ok (uniqueKey (srt.sort cmpKey (recs.map one)))

end Tables

/-! ### The parser -/

section Parser

variable (e : Endian) (srt : Sorter)

/-- The checks and the masking of one record of either family. -/
def parsePfx {N : Type} (W : ℕ) (plen tag : U8) (net : N) : Except Errno (Entry N U8) :=
  if W < plen.toNat then .error .EINVAL
  else if tag ≠ bypassReserved ∧ tag ≠ bypassPolicy then .error .EINVAL
  else .ok ⟨plen.toNat, net, tag⟩

def parsePfx4 (r : List U8) : Except Errno Pfx4Live :=
  parsePfx 32 (r.getD 4 0) (r.getD 5 0) (maskV4 (r.getD 4 0).toNat (e.ntohl (e.load (r.take 4))))

def parsePfx6 (r : List U8) : Except Errno Pfx6Live :=
  parsePfx 128 (r.getD 16 0) (r.getD 17 0) (maskV6 (r.getD 16 0).toNat (r.take 16))

/-- `copy_from_user` of `n` bytes of the caller's buffer. -/
def copyFromUser (arg : List U8) (n : ℕ) : Option (List U8) :=
  if n ≤ arg.length then some (arg.take n) else none

/-- `fluxrs_set_bypass` up to the pointer swap: the new set, or the errno. -/
def fluxrsSetBypass (alloc : BypassAlloc) (arg : List U8) : Except Errno FluxrsSet :=
  match copyFromUser arg 20 with
  | none => .error .EFAULT
  | some hdr =>
    let cidrMode := e.load (structAt 4 hdr 0)
    let v4Count := (e.load (structAt 4 hdr 1)).toNat
    let v6Count := (e.load (structAt 4 hdr 2)).toNat
    let self4Count := (e.load (structAt 4 hdr 3)).toNat
    let self6Count := (e.load (structAt 4 hdr 4)).toNat
    if cidrWhitelist < cidrMode then .error .EINVAL
    else if lpmMax < v4Count ∨ lpmMax < v6Count then .error .ENOSPC
    else if selfMax < self4Count ∨ selfMax < self6Count then .error .ENOSPC
    else
      let v4b := v4Count * 8
      let v6b := v6Count * 20
      let s4b := self4Count * 4
      let s6b := self6Count * 16
      if !alloc.buf then .error .ENOMEM
      else match copyFromUser arg (20 + v4b + v6b + s4b + s6b) with
        | none => .error .EFAULT
        | some buf =>
          if !alloc.newSet then .error .ENOMEM
          else do
            let (v4, v4Off) ← parsePrefixes srt 32 alloc.v4 (parsePfx4 e)
              (arrayOf 8 v4Count (buf.drop 20))
            let (v6, v6Off) ← parsePrefixes srt 128 alloc.v6 parsePfx6
              (arrayOf 20 v6Count (buf.drop (20 + v4b)))
            let self4 ← parseSelf srt alloc.self4 (fun r => e.ntohl (e.load r))
              (arrayOf 4 self4Count (buf.drop (20 + v4b + v6b)))
            let self6 ← parseSelf srt alloc.self6 id
              (arrayOf 16 self6Count (buf.drop (20 + v4b + v6b + s4b)))
            .ok ⟨cidrMode, v4, v6, v4Off, v6Off, self4, self6⟩

end Parser

/-! ### The verdict -/

section Verdict

variable (e : Endian)

/-- The bucket loop with `pfx4_find` in each bucket. -/
def lpm4 (s : FluxrsSet) (addr : U32) : Option U8 := lpm maskV4 32 s.v4 s.v4Off addr

def lpm6 (s : FluxrsSet) (addr : List U8) : Option U8 := lpm maskV6 128 s.v6 s.v6Off addr

def self4Hit (s : FluxrsSet) (addr : U32) : Bool := s.self4.any (· == addr)

def self6Hit (s : FluxrsSet) (addr : List U8) : Bool := s.self6.any (· == addr)

/-- `tag_direct`; the source passes `hit` and a tag that is `0` on a miss. -/
def tagDirect (cidrMode : U32) (hit : Option U8) : Bool :=
  let tag := hit.getD 0
  if hit.isSome && tag == bypassReserved then true
  else if cidrMode == cidrWhitelist then !hit.isSome || tag != bypassPolicy
  else hit.isSome

/-- `set_direct` on the destination address in the packet's IP header. -/
def setDirect (s : Option FluxrsSet) (dest : Dest) : Bool :=
  match s with
  | none => false
  | some s =>
    match dest with
    | .v4 daddr =>
      let a := e.ntohl (e.load (octets daddr))
      if self4Hit s a then true else tagDirect s.cidrMode (lpm4 s a)
    | .v6 daddr =>
      let d := octets daddr
      if self6Hit s d then true else tagDirect s.cidrMode (lpm6 s d)

end Verdict

end FluxRs.Kmod
