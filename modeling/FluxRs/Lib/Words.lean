import FluxRs.Lib.Bytes

/-!
# FluxRs.Lib.Words — numbers as the bytes of a word, in the order of one host

A word of `k` bytes holds a number modulo `256 ^ k`; what is stored is loaded back.
-/

namespace FluxRs.Lib

/-- Little endian, cut to `k` bytes. -/
def leBytes : ℕ → ℕ → List U8
  | 0, _ => []
  | k + 1, n => BitVec.ofNat 8 n :: leBytes k (n / 256)

def ofLe : List U8 → ℕ
  | [] => 0
  | b :: bs => b.toNat + 256 * ofLe bs

@[simp] theorem length_leBytes (k n : ℕ) : (leBytes k n).length = k := by
  induction k generalizing n with
  | zero => rfl
  | succ k ih => rw [leBytes, List.length_cons, ih]

theorem ofLe_leBytes (k n : ℕ) : ofLe (leBytes k n) = n % 256 ^ k := by
  induction k generalizing n with
  | zero => rw [leBytes, ofLe, pow_zero, Nat.mod_one]
  | succ k ih =>
    have hpow : 256 ^ (k + 1) = 256 * 256 ^ k := pow_succ' 256 k
    rw [leBytes, ofLe, ih, BitVec.toNat_ofNat, hpow, Nat.mod_mul]

theorem ofLe_lt (bs : List U8) : ofLe bs < 256 ^ bs.length := by
  induction bs with
  | nil => exact Nat.one_pos
  | cons b bs ih =>
    have hb := b.isLt
    rw [ofLe, List.length_cons, pow_succ']
    omega

theorem leBytes_ofLe (bs : List U8) : leBytes bs.length (ofLe bs) = bs := by
  induction bs with
  | nil => rfl
  | cons b bs ih =>
    have hb := b.isLt
    have hrest : ofLe (b :: bs) / 256 = ofLe bs := by
      rw [ofLe]
      omega
    have hfirst : BitVec.ofNat 8 (ofLe (b :: bs)) = b := by
      apply BitVec.eq_of_toNat_eq
      rw [ofLe, BitVec.toNat_ofNat]
      omega
    rw [List.length_cons, leBytes, hrest, hfirst, ih]

/-! ### Fields one after the other -/

/-- Numbers with their widths in bytes. -/
def record (fields : List (ℕ × ℕ)) : List U8 := fields.flatMap fun field => leBytes field.1 field.2

/-- Reads fields of given widths, and leaves what stands behind them. -/
def parseRecord : List ℕ → List U8 → Option (List ℕ × List U8)
  | [], bytes => some ([], bytes)
  | k :: widths, bytes =>
    if k ≤ bytes.length then
      (parseRecord widths (bytes.drop k)).map fun rest => (ofLe (bytes.take k) :: rest.1, rest.2)
    else none

theorem length_record (fields : List (ℕ × ℕ)) : (record fields).length = (fields.map Prod.fst).sum := by
  unfold record
  rw [List.length_flatMap]
  refine congrArg List.sum (List.map_congr_left ?_)
  intro field _
  exact length_leBytes field.1 field.2

/-- **Fields that are read give the numbers that were written**, cut to their widths. -/
theorem parseRecord_record (fields : List (ℕ × ℕ)) (more : List U8) :
    parseRecord (fields.map Prod.fst) (record fields ++ more) =
      some (fields.map fun field => field.2 % 256 ^ field.1, more) := by
  induction fields with
  | nil => rfl
  | cons field fields ih =>
    obtain ⟨k, n⟩ := field
    have hbytes : record ((k, n) :: fields) ++ more = leBytes k n ++ (record fields ++ more) := by
      rw [record, List.flatMap_cons, List.append_assoc]
      rfl
    have hlen : k ≤ (leBytes k n ++ (record fields ++ more)).length := by
      rw [List.length_append, length_leBytes]
      omega
    rw [hbytes, List.map_cons, List.map_cons, parseRecord, if_pos hlen, List.drop_left' (length_leBytes k n), ih,
      List.take_left' (length_leBytes k n), ofLe_leBytes]
    rfl

namespace Endian

/-- The `k` bytes of a word. -/
def bytes (e : Endian) (k n : ℕ) : List U8 :=
  match e with
  | .little => leBytes k n
  | .big => (leBytes k n).reverse

/-- The number that a word spells. -/
def nat (e : Endian) (bs : List U8) : ℕ :=
  match e with
  | .little => ofLe bs
  | .big => ofLe bs.reverse

variable (e : Endian)

@[simp] theorem length_bytes (k n : ℕ) : (e.bytes k n).length = k := by
  cases e with
  | little => exact length_leBytes k n
  | big => rw [bytes, List.length_reverse, length_leBytes]

theorem nat_bytes (k n : ℕ) : e.nat (e.bytes k n) = n % 256 ^ k := by
  cases e with
  | little => exact ofLe_leBytes k n
  | big => rw [bytes, nat, List.reverse_reverse, ofLe_leBytes]

theorem nat_bytes_of_lt {k n : ℕ} (h : n < 256 ^ k) : e.nat (e.bytes k n) = n := by
  rw [nat_bytes, Nat.mod_eq_of_lt h]

theorem bytes_nat (bs : List U8) : e.bytes bs.length (e.nat bs) = bs := by
  cases e with
  | little => exact leBytes_ofLe bs
  | big =>
    have h := leBytes_ofLe bs.reverse
    rw [List.length_reverse] at h
    rw [bytes, nat, h, List.reverse_reverse]

theorem nat_lt (bs : List U8) : e.nat bs < 256 ^ bs.length := by
  cases e with
  | little => exact ofLe_lt bs
  | big =>
    have h := ofLe_lt bs.reverse
    rwa [List.length_reverse] at h

/-- The bytes of a fixed-width word. -/
def ofWord {w : ℕ} (x : BitVec w) : List U8 := e.bytes (w / 8) x.toNat

def word (w : ℕ) (bs : List U8) : BitVec w := BitVec.ofNat w (e.nat bs)

@[simp] theorem length_ofWord {w : ℕ} (x : BitVec w) : (e.ofWord x).length = w / 8 := e.length_bytes _ _

theorem take_ofWord16 (x : U16) (l : List U8) : (e.ofWord x ++ l).take 2 = e.ofWord x :=
  List.take_left' (e.length_ofWord x)

theorem take_ofWord32 (x : U32) (l : List U8) : (e.ofWord x ++ l).take 4 = e.ofWord x :=
  List.take_left' (e.length_ofWord x)

theorem word_ofWord {k : ℕ} (x : BitVec (8 * k)) : e.word (8 * k) (e.ofWord x) = x := by
  have hlt : x.toNat < 256 ^ (8 * k / 8) := by
    have hpow : 256 ^ k = 2 ^ (8 * k) := (pow_mul 2 8 k).symm
    rw [Nat.mul_div_cancel_left k (by omega), hpow]
    exact x.isLt
  rw [word, ofWord, e.nat_bytes_of_lt hlt, BitVec.ofNat_toNat, BitVec.setWidth_eq]

theorem ofWord_word {k : ℕ} {bs : List U8} (h : bs.length = k) : e.ofWord (e.word (8 * k) bs) = bs := by
  have hlt : e.nat bs < 2 ^ (8 * k) := by
    have hpow : 256 ^ k = 2 ^ (8 * k) := (pow_mul 2 8 k).symm
    rw [← hpow, ← h]
    exact e.nat_lt bs
  rw [ofWord, word, BitVec.toNat_ofNat, Nat.mod_eq_of_lt hlt, Nat.mul_div_cancel_left k (by omega), ← h, e.bytes_nat]

theorem word16_ofWord (x : U16) : e.word 16 (e.ofWord x) = x := word_ofWord (k := 2) e x

theorem word32_ofWord (x : U32) : e.word 32 (e.ofWord x) = x := word_ofWord (k := 4) e x

end Endian

end FluxRs.Lib
