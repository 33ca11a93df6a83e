import Mathlib.Data.List.Basic
import Mathlib.Data.Nat.NthRoot.Defs
import Mathlib.Data.Nat.Prime.Basic
import FluxRs.Lib.Bytes

/-!
# FluxRs.Lib.Sha256 — the hash function of FIPS 180-4

The standard's text: functions, constants, message schedule, rounds, padding.  Last, what makes the iteration over
blocks sound: two messages of one hash give two different inputs of one compression.
-/

namespace FluxRs.Lib.Sha256

abbrev Word := BitVec 32

/-! ### Functions and constants -/

def ch (x y z : Word) : Word := (x &&& y) ^^^ (~~~x &&& z)

def maj (x y z : Word) : Word := (x &&& y) ^^^ (x &&& z) ^^^ (y &&& z)

def bigSigma0 (x : Word) : Word := x.rotateRight 2 ^^^ x.rotateRight 13 ^^^ x.rotateRight 22

def bigSigma1 (x : Word) : Word := x.rotateRight 6 ^^^ x.rotateRight 11 ^^^ x.rotateRight 25

def smallSigma0 (x : Word) : Word := x.rotateRight 7 ^^^ x.rotateRight 18 ^^^ x >>> 3

def smallSigma1 (x : Word) : Word := x.rotateRight 17 ^^^ x.rotateRight 19 ^^^ x >>> 10

/-- The first 32 bits of the fractional part of a root. -/
def fraction (power n : ℕ) : Word := BitVec.ofNat 32 (Nat.nthRoot power (n * 2 ^ (32 * power)))

/-- The first 64 primes. -/
def primes : List ℕ := (List.range 312).filter fun n => decide n.Prime

/-- The constants of the rounds: cube roots of the primes. -/
def constants : List Word := primes.map (fraction 3)

@[ext] structure Hash where
  a : Word
  b : Word
  c : Word
  d : Word
  e : Word
  f : Word
  g : Word
  h : Word
  deriving DecidableEq

/-- The initial hash value: square roots of the first eight primes. -/
def initial : Hash :=
  ⟨fraction 2 2, fraction 2 3, fraction 2 5, fraction 2 7, fraction 2 11, fraction 2 13, fraction 2 17, fraction 2 19⟩

/-! ### The constants, computed -/

/-- Trial division, enough below the square of 18. -/
def trial (n : ℕ) : Bool :=
  decide (2 ≤ n) && (List.range 18).all fun m => decide (m < 2) || decide (n < m * m) || n % m != 0

theorem prime_iff_trial {n : ℕ} (hn : n < 18 * 18) : n.Prime ↔ trial n = true := by
  rw [Nat.prime_def_le_sqrt]
  unfold trial
  simp only [Bool.and_eq_true, decide_eq_true_eq, List.all_eq_true, List.mem_range, Bool.or_eq_true, bne_iff_ne]
  refine and_congr_right fun _ => ?_
  constructor
  · intro h m _
    by_cases hone : m < 2
    · exact Or.inl (Or.inl hone)
    by_cases hsquare : n < m * m
    · exact Or.inl (Or.inr hsquare)
    · refine Or.inr fun hmod => h m (Nat.not_lt.mp hone) (Nat.le_sqrt.mpr (Nat.not_lt.mp hsquare)) ?_
      exact Nat.dvd_of_mod_eq_zero hmod
  · intro h m htwo hsqrt hdvd
    have hsquare := Nat.le_sqrt.mp hsqrt
    have hm : m < 18 := Nat.mul_self_lt_mul_self_iff.mp (Nat.lt_of_le_of_lt hsquare hn)
    rcases h m hm with (hone | hlt) | hmod
    · omega
    · omega
    · exact hmod (Nat.mod_eq_zero_of_dvd hdvd)

theorem primes_eq : primes = (List.range 312).filter trial := by
  refine List.filter_congr fun n hn => ?_
  rw [Bool.eq_iff_iff, decide_eq_true_eq]
  exact prime_iff_trial (Nat.lt_of_lt_of_le (List.mem_range.mp hn) (by decide))

/-! ### One block -/

/-- The message schedule of a block. -/
def schedule (message : ℕ → Word) (t : ℕ) : Word :=
  if t < 16 then message t
  else
    smallSigma1 (schedule message (t - 2)) + schedule message (t - 7) + smallSigma0 (schedule message (t - 15)) +
      schedule message (t - 16)
termination_by t

def Hash.round (s : Hash) (k w : Word) : Hash :=
  let t1 := s.h + bigSigma1 s.e + ch s.e s.f s.g + k + w
  let t2 := bigSigma0 s.a + maj s.a s.b s.c
  ⟨t1 + t2, s.a, s.b, s.c, s.d + t1, s.e, s.f, s.g⟩

def Hash.rounds (message : ℕ → Word) (s : Hash) : ℕ → Hash
  | 0 => s
  | t + 1 => (s.rounds message t).round (constants.getD t 0) (schedule message t)

def Hash.add (s t : Hash) : Hash :=
  ⟨s.a + t.a, s.b + t.b, s.c + t.c, s.d + t.d, s.e + t.e, s.f + t.f, s.g + t.g, s.h + t.h⟩

/-- The words of a block. -/
def wordOf (block : List U8) (t : ℕ) : Word :=
  ofBe (block.getD (4 * t) 0) (block.getD (4 * t + 1) 0) (block.getD (4 * t + 2) 0) (block.getD (4 * t + 3) 0)

def compress (s : Hash) (block : List U8) : Hash := s.add (s.rounds (wordOf block) 64)

/-! ### Messages -/

/-- How many zero bytes stand before the length. -/
def zeroCount (n : ℕ) : ℕ := (119 - n % 64) % 64

/-- A one bit, zeros, and the length in bits. -/
def padding (n : ℕ) : List U8 := 0x80 :: (List.replicate (zeroCount n) 0 ++ octets (BitVec.ofNat 64 (8 * n)))

def blocks (padded : List U8) : List (List U8) := arrayOf 64 (padded.length / 64) padded

def Hash.octets (s : Hash) : List U8 :=
  [s.a, s.b, s.c, s.d, s.e, s.f, s.g, s.h].flatMap FluxRs.Lib.octets

def hash (data : List U8) : List U8 := ((blocks (data ++ padding data.length)).foldl compress initial).octets

/-- The zeros are the fewest that leave room for the length at the end of a block. -/
theorem zeroCount_least (n : ℕ) : (n + 1 + zeroCount n) % 64 = 56 ∧ ∀ z < zeroCount n, (n + 1 + z) % 64 ≠ 56 := by
  unfold zeroCount
  constructor
  · omega
  · intro z hz
    omega

theorem length_padding (n : ℕ) : (padding n).length = 9 + zeroCount n := by
  rw [padding, List.length_cons, List.length_append, List.length_replicate, length_octets]
  omega

theorem length_padded (data : List U8) : (data ++ padding data.length).length % 64 = 0 := by
  rw [List.length_append, length_padding]
  have h := (zeroCount_least data.length).1
  omega

/-! ### Collisions -/

theorem Hash.octets_injective : Function.Injective Hash.octets := by
  intro s t h
  have hread : ∀ r : Hash, arrayOf 4 8 (r.octets ++ []) =
      [r.a, r.b, r.c, r.d, r.e, r.f, r.g, r.h].map FluxRs.Lib.octets := fun r =>
    arrayOf_flatMap (fun x => length_octets x) [] [r.a, r.b, r.c, r.d, r.e, r.f, r.g, r.h]
  have hwords : [s.a, s.b, s.c, s.d, s.e, s.f, s.g, s.h] = [t.a, t.b, t.c, t.d, t.e, t.f, t.g, t.h] := by
    refine List.map_injective_iff.mpr (FluxRs.Lib.octets_injective (by decide)) ?_
    rw [← hread s, ← hread t, h]
  simp only [List.cons.injEq, and_true] at hwords
  obtain ⟨ha, hb, hc, hd, he, hf, hg, hh⟩ := hwords
  ext1
  · exact ha
  · exact hb
  · exact hc
  · exact hd
  · exact he
  · exact hf
  · exact hg
  · exact hh

theorem flatten_arrayOf (size : ℕ) (buf : List U8) : ∀ n, (arrayOf size n buf).flatten = buf.take (size * n)
  | 0 => rfl
  | n + 1 => by
    have ih := flatten_arrayOf size buf n
    unfold arrayOf at ih ⊢
    rw [List.range_succ, List.map_append, List.flatten_append, ih, List.map_singleton, List.flatten_singleton,
      structAt, Nat.mul_succ, List.take_add]

/-- The blocks hold the whole message. -/
theorem flatten_blocks {padded : List U8} (h : padded.length % 64 = 0) : (blocks padded).flatten = padded := by
  rw [blocks, flatten_arrayOf, List.take_of_length_le]
  omega

theorem length_blocks (padded : List U8) : (blocks padded).length = padded.length / 64 := by
  rw [blocks, arrayOf, List.length_map, List.length_range]

section Chain

variable {σ β : Type} {f : σ → β → σ}

/-- What a fold passes to its steps. -/
def chain (f : σ → β → σ) (s : σ) : List β → List (σ × β)
  | [] => []
  | x :: l => (s, x) :: chain f (f s x) l

theorem snd_mem_of_mem_chain {p : σ × β} : ∀ {l : List β} {s : σ}, p ∈ chain f s l → p.2 ∈ l
  | x :: l, s, h => by
    rcases List.mem_cons.mp h with rfl | h
    · exact List.mem_cons_self
    · exact List.mem_cons_of_mem _ (snd_mem_of_mem_chain h)

/-- The last step of a fold gets the result of the others. -/
theorem last_mem_chain (front : List β) (x : β) : ∀ s : σ, (front.foldl f s, x) ∈ chain f s (front ++ [x]) := by
  induction front with
  | nil => exact fun s => List.mem_singleton_self _
  | cons y front ih => exact fun s => List.mem_cons_of_mem _ (ih (f s y))

/-- Two folds of one length that end alike, and do not start alike, pass two different inputs of one result. -/
theorem foldl_collision : ∀ {l l' : List β} {s s' : σ}, l.length = l'.length → (s, l) ≠ (s', l') →
    l.foldl f s = l'.foldl f s' → ∃ p ∈ chain f s l, ∃ q ∈ chain f s' l', p ≠ q ∧ f p.1 p.2 = f q.1 q.2
  | [], [], s, s', _, hne, heq => absurd (congrArg (·, []) heq) hne
  | x :: l, x' :: l', s, s', hlength, hne, heq => by
    by_cases hstate : (f s x, l) = (f s' x', l')
    · obtain ⟨hsame, rfl⟩ := Prod.mk.inj hstate
      refine ⟨(s, x), List.mem_cons_self, (s', x'), List.mem_cons_self, fun hpair => hne ?_, hsame⟩
      obtain ⟨rfl, rfl⟩ := Prod.mk.inj hpair
      rfl
    · obtain ⟨p, hp, q, hq, hpq⟩ := foldl_collision (Nat.succ.inj hlength) hstate heq
      exact ⟨p, List.mem_cons_of_mem _ hp, q, List.mem_cons_of_mem _ hq, hpq⟩

end Chain

/-- The last block of a padded message ends with its length. -/
theorem last_block (data : List U8) :
    ∃ front block, blocks (data ++ padding data.length) = front ++ [block] ∧
      block.drop 56 = FluxRs.Lib.octets (BitVec.ofNat 64 (8 * data.length)) := by
  have hmod := length_padded data
  have hlen : (data ++ padding data.length).length = data.length + 9 + zeroCount data.length := by
    rw [List.length_append, length_padding]
    omega
  obtain ⟨n, hn⟩ : ∃ n, (data ++ padding data.length).length = 64 * (n + 1) :=
    ⟨(data ++ padding data.length).length / 64 - 1, by omega⟩
  refine ⟨(List.range n).map (structAt 64 (data ++ padding data.length)), structAt 64 (data ++ padding data.length) n,
    ?_, ?_⟩
  · have hdiv : (data ++ padding data.length).length / 64 = n + 1 := by omega
    rw [blocks, hdiv, arrayOf, List.range_succ, List.map_append, List.map_singleton]
  · have htail : (data ++ padding data.length).drop (64 * n + 56) =
        FluxRs.Lib.octets (BitVec.ofNat 64 (8 * data.length)) := by
      have hsplit : data ++ padding data.length =
          (data ++ 0x80 :: List.replicate (zeroCount data.length) 0) ++
            FluxRs.Lib.octets (BitVec.ofNat 64 (8 * data.length)) := by
        rw [padding, List.append_assoc, List.cons_append]
      have hfront : (data ++ 0x80 :: List.replicate (zeroCount data.length) (0 : U8)).length = 64 * n + 56 := by
        rw [List.length_append, List.length_cons, List.length_replicate]
        omega
      rw [hsplit, ← hfront, List.drop_left]
    rw [structAt, List.drop_take, List.drop_drop, htail, List.take_of_length_le]
    rw [length_octets]

/-- What the compression gets while a message is hashed: the values chained so far, and the blocks. -/
def inputs (data : List U8) : List (Hash × List U8) := chain compress initial (blocks (data ++ padding data.length))

theorem length_block {data : List U8} {input : Hash × List U8} (h : input ∈ inputs data) : input.2.length = 64 := by
  have hmod := length_padded data
  obtain ⟨i, hi, hblock⟩ := List.mem_map.mp (snd_mem_of_mem_chain h)
  rw [← hblock, structAt, List.length_take, List.length_drop]
  have hin := List.mem_range.mp hi
  omega

/-- The hashes of two messages pass two different inputs, with blocks of 64 bytes, to the compression, which maps them
to one value. -/
def Collide (data data' : List U8) : Prop :=
  ∃ input ∈ inputs data, ∃ input' ∈ inputs data', input.2.length = 64 ∧ input'.2.length = 64 ∧ input ≠ input' ∧
    compress input.1 input.2 = compress input'.1 input'.2

/-- **Two messages of one hash collide on the way.**  Both are shorter than the length field can tell. -/
theorem collide_of_hash_eq {data data' : List U8} (hdata : data.length < 2 ^ 61) (hdata' : data'.length < 2 ^ 61)
    (hne : data ≠ data') (heq : hash data = hash data') : Collide data data' := by
  have hfold : (blocks (data ++ padding data.length)).foldl compress initial =
      (blocks (data' ++ padding data'.length)).foldl compress initial := Hash.octets_injective heq
  suffices h : ∃ p ∈ inputs data, ∃ q ∈ inputs data', p ≠ q ∧ compress p.1 p.2 = compress q.1 q.2 by
    obtain ⟨p, hp, q, hq, hpq⟩ := h
    exact ⟨p, hp, q, hq, length_block hp, length_block hq, hpq⟩
  by_cases hlength : data.length = data'.length
  · refine foldl_collision ?_ (fun hpair => hne ?_) hfold
    · rw [length_blocks, length_blocks, List.length_append, List.length_append, hlength]
    · have hblocks := congrArg List.flatten (Prod.mk.inj hpair).2
      rw [flatten_blocks (length_padded data), flatten_blocks (length_padded data')] at hblocks
      exact (List.append_inj hblocks hlength).1
  · -- the last blocks carry different lengths
    obtain ⟨front, block, hlast, hdrop⟩ := last_block data
    obtain ⟨front', block', hlast', hdrop'⟩ := last_block data'
    rw [hlast, hlast', List.foldl_append, List.foldl_append] at hfold
    have hin : (front.foldl compress initial, block) ∈ inputs data := by
      rw [inputs, hlast]
      exact last_mem_chain front block initial
    have hin' : (front'.foldl compress initial, block') ∈ inputs data' := by
      rw [inputs, hlast']
      exact last_mem_chain front' block' initial
    refine ⟨_, hin, _, hin', fun hpair => hlength ?_, hfold⟩
    rw [(Prod.mk.inj hpair).2, hdrop'] at hdrop
    have hbits := congrArg BitVec.toNat (FluxRs.Lib.octets_injective (by decide) hdrop)
    rw [BitVec.toNat_ofNat, BitVec.toNat_ofNat] at hbits
    omega

end FluxRs.Lib.Sha256
