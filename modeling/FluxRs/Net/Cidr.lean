import Mathlib.Tactic
import FluxRs.Lib.Bytes
import FluxRs.Lib.Lpm

/-!
# FluxRs.Net.Cidr — canonical prefixes, LPM keys and the fixed bypass set

`crates/flux-core/src/cidr.rs` and the enumerations of `abi.rs` it uses.  An address is the word its
network-order octets spell, for `Ipv4Addr` (`w = 32`) and `Ipv6Addr` (`w = 128`) alike, so the two
families are one definition over the width.
-/

namespace FluxRs.Net

open FluxRs.Lib

abbrev Ipv4Addr := BitVec 32
abbrev Ipv6Addr := BitVec 128

/-- Value stored in the bypass LPM tries (`repr(u8)`). -/
inductive BypassTag where
  | reserved
  | policy
  deriving DecidableEq, Repr, Inhabited

def BypassTag.asU8 : BypassTag → U8
  | .reserved => 1
  | .policy => 2

/-- Direction applied to user policy entries. -/
inductive CidrMode where
  | blacklist
  | whitelist
  deriving DecidableEq, Repr, Inhabited

def CidrMode.asU32 : CidrMode → U32
  | .blacklist => 0
  | .whitelist => 1

inductive CidrError (w : ℕ) where
  | prefixTooLong (prefixLen : ℕ)
  /-- The source formats these two as `{addr}/{prefix_len}`. -/
  | hostBitsSet (addr : BitVec w) (prefixLen : ℕ)
  deriving DecidableEq, Repr

/-- A canonical prefix: the address has no bits set below `prefixLen`. -/
structure Cidr (w : ℕ) where
  addr : BitVec w
  prefixLen : ℕ
  len_le : prefixLen ≤ w
  canonical : addr &&& ~~~ mask w prefixLen = 0
  deriving DecidableEq

abbrev Ipv4Cidr := Cidr 32
abbrev Ipv6Cidr := Cidr 128

namespace Cidr

variable {w : ℕ}

/-- The derived order: address first, then length. -/
instance : Ord (Cidr w) where
  compare := compareLex (compareOn Cidr.addr) (compareOn Cidr.prefixLen)

instance transOrd : Std.TransOrd (Cidr w) :=
  inferInstanceAs (Std.TransCmp (compareLex (compareOn Cidr.addr) (compareOn Cidr.prefixLen)))

theorem eq_of_fields {c c' : Cidr w} (h : c.addr = c'.addr) (h' : c.prefixLen = c'.prefixLen) :
    c = c' := by
  cases c; cases c'
  simp only at h h'
  subst h; subst h'
  rfl

instance lawfulEqOrd : Std.LawfulEqOrd (Cidr w) where
  eq_of_compare {a b} h := by
    have h' : (compareOn Cidr.addr a b).then (compareOn Cidr.prefixLen a b) = .eq := h
    obtain ⟨h1, h2⟩ := Ordering.then_eq_eq.mp h'
    exact eq_of_fields (Std.LawfulEqOrd.eq_of_compare h1) (Std.LawfulEqOrd.eq_of_compare h2)

/-- The whole family. -/
def any (w : ℕ) : Cidr w where
  addr := 0
  prefixLen := 0
  len_le := Nat.zero_le w
  canonical := by simp

instance transOrd32 : Std.TransOrd (Cidr 32) := transOrd

instance lawfulEqOrd32 : Std.LawfulEqOrd (Cidr 32) := lawfulEqOrd

instance transOrd128 : Std.TransOrd (Cidr 128) := transOrd

instance lawfulEqOrd128 : Std.LawfulEqOrd (Cidr 128) := lawfulEqOrd

instance : Inhabited (Cidr w) := ⟨any w⟩

/-- `from_octets`: rejects a length above the width, then a non-canonical address. -/
def fromOctets (addr : BitVec w) (prefixLen : ℕ) : Except (CidrError w) (Cidr w) :=
  if h : prefixLen ≤ w then
    if hc : addr &&& ~~~ mask w prefixLen = 0 then .ok ⟨addr, prefixLen, h, hc⟩
    else .error (.hostBitsSet addr prefixLen)
  else .error (.prefixTooLong prefixLen)

theorem and_mask (c : Cidr w) : c.addr &&& mask w c.prefixLen = c.addr := by
  apply BitVec.eq_of_getLsbD_eq
  intro i hi
  have h := congrArg (fun x => BitVec.getLsbD x i) c.canonical
  simp only [BitVec.getLsbD_and, BitVec.getLsbD_not, hi, decide_true, Bool.true_and] at h ⊢
  revert h
  cases c.addr.getLsbD i <;> cases (mask w c.prefixLen).getLsbD i <;> simp

/-- `v4_in` and `v6_in`. -/
def contains (c : Cidr w) (addr : BitVec w) : Bool := addr &&& mask w c.prefixLen == c.addr

/-- `contains_prefix`: every address of `other` is in `c`. -/
def containsPrefix (c other : Cidr w) : Bool :=
  decide (c.prefixLen ≤ other.prefixLen) && (other.addr &&& mask w c.prefixLen == c.addr)

end Cidr

/-- `LpmV4Key` and `LpmV6Key`, ordered by length first. -/
structure LpmKey (w : ℕ) where
  prefixlen : U32
  addr : BitVec w
  deriving DecidableEq, Repr, Inhabited

namespace LpmKey

variable {w : ℕ}

instance : Ord (LpmKey w) where
  compare := compareLex (compareOn LpmKey.prefixlen) (compareOn LpmKey.addr)

instance transOrd : Std.TransOrd (LpmKey w) :=
  inferInstanceAs (Std.TransCmp (compareLex (compareOn LpmKey.prefixlen) (compareOn LpmKey.addr)))

instance lawfulEqOrd : Std.LawfulEqOrd (LpmKey w) where
  eq_of_compare {a b} h := by
    have h' : (compareOn LpmKey.prefixlen a b).then (compareOn LpmKey.addr a b) = .eq := h
    obtain ⟨h1, h2⟩ := Ordering.then_eq_eq.mp h'
    cases a; cases b
    exact LpmKey.mk.injEq .. ▸ ⟨Std.LawfulEqOrd.eq_of_compare h1, Std.LawfulEqOrd.eq_of_compare h2⟩

instance transOrd32 : Std.TransOrd (LpmKey 32) := transOrd

instance lawfulEqOrd32 : Std.LawfulEqOrd (LpmKey 32) := lawfulEqOrd

instance transOrd128 : Std.TransOrd (LpmKey 128) := transOrd

instance lawfulEqOrd128 : Std.LawfulEqOrd (LpmKey 128) := lawfulEqOrd

/-- `u8::try_from(key.prefixlen).unwrap_or(w).min(w)`. -/
def clampedLen (key : LpmKey w) : ℕ :=
  min (if key.prefixlen.toNat < 256 then key.prefixlen.toNat else w) w

/-- `lpm_v4_to_cidr` and `lpm_v6_to_cidr`: a key no prefix has becomes the whole family. -/
def toCidr (key : LpmKey w) : Cidr w :=
  match Cidr.fromOctets key.addr key.clampedLen with
  | .ok c => c
  | .error _ => Cidr.any w

end LpmKey

/-- `to_lpm_key`. -/
def Cidr.toLpmKey {w : ℕ} (c : Cidr w) : LpmKey w := ⟨BitVec.ofNat 32 c.prefixLen, c.addr⟩

/-- A key built from a prefix gives the prefix back. -/
theorem LpmKey.toCidr_toLpmKey {w : ℕ} (hw : w < 256) (c : Cidr w) : c.toLpmKey.toCidr = c := by
  have hlen := c.len_le
  have hclamp : c.toLpmKey.clampedLen = c.prefixLen := by
    have hmod : c.prefixLen % 4294967296 = c.prefixLen := Nat.mod_eq_of_lt (by omega)
    have hlt : c.prefixLen < 256 := by omega
    simp [LpmKey.clampedLen, Cidr.toLpmKey, hmod, hlt, hlen]
  unfold LpmKey.toCidr Cidr.fromOctets
  rw [hclamp, dif_pos hlen]
  have hcan : c.toLpmKey.addr &&& ~~~ mask w c.prefixLen = 0 := c.canonical
  rw [dif_pos hcan]
  rfl

/-! ### The fixed bypass set -/

section Fixed

/-- `LISTEN_V4_STR`, 198.51.100.1. -/
def listenV4 : Ipv4Addr := 0xc6336401

/-- `LISTEN_V6_STR`, 2001:db8:0:1::2. -/
def listenV6 : Ipv6Addr := 0x20010db8000000010000000000000002

/-- `FIXED_BYPASS_V4_PREFIXES` and the listener host route. -/
def fixedBypassV4 : List Ipv4Cidr :=
  [⟨0x00000000, 8, by decide, by decide⟩,
    ⟨0x0a000000, 8, by decide, by decide⟩,
    ⟨0x7f000000, 8, by decide, by decide⟩,
    ⟨0xa9fe0000, 16, by decide, by decide⟩,
    ⟨0xac100000, 12, by decide, by decide⟩,
    ⟨0xc0a80000, 16, by decide, by decide⟩,
    ⟨0xe0000000, 4, by decide, by decide⟩,
    ⟨0xffffffff, 32, by decide, by decide⟩,
    ⟨listenV4, 32, by decide, by decide⟩]

/-- `FIXED_BYPASS_V6_PREFIXES` and the listener host route. -/
def fixedBypassV6 : List Ipv6Cidr :=
  [⟨0, 128, by decide, by decide⟩,
    ⟨1, 128, by decide, by decide⟩,
    ⟨0xfc000000000000000000000000000000, 7, by decide, by decide⟩,
    ⟨0xfe800000000000000000000000000000, 10, by decide, by decide⟩,
    ⟨0xff000000000000000000000000000000, 8, by decide, by decide⟩,
    ⟨listenV6, 128, by decide, by decide⟩]

end Fixed

/-! ### Prefixes that nest -/

/-- 10.0.0.0/8, one of the fixed prefixes. -/
def outerPrefix : Ipv4Cidr := ⟨0x0a000000, 8, by decide, by decide⟩

/-- 10.1.0.0/16, inside it. -/
def innerPrefix : Ipv4Cidr := ⟨0x0a010000, 16, by decide, by decide⟩

/-- 2001:db8::/32. -/
def documentationPrefix : Ipv6Cidr := ⟨0x20010db8000000000000000000000000, 32, by decide, by decide⟩

end FluxRs.Net
