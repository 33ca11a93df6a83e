import FluxRs.Lib.Sha256
import FluxRs.Nodes.Assemble

/-!
# FluxRs.Nodes.Digest — the identity of a remote source

`crates/flux-core/src/sha256.rs` with its loops in place, and the identity that `RemoteSource::parse` makes of a URL.
-/

namespace FluxRs.Nodes

open FluxRs.Lib

/-! ### The loops of `digest` -/

/-- `K`. -/
def roundConstants : List U32 := [
  0x428a2f98, 0x71374491, 0xb5c0fbcf, 0xe9b5dba5, 0x3956c25b, 0x59f111f1, 0x923f82a4, 0xab1c5ed5,
  0xd807aa98, 0x12835b01, 0x243185be, 0x550c7dc3, 0x72be5d74, 0x80deb1fe, 0x9bdc06a7, 0xc19bf174,
  0xe49b69c1, 0xefbe4786, 0x0fc19dc6, 0x240ca1cc, 0x2de92c6f, 0x4a7484aa, 0x5cb0a9dc, 0x76f988da,
  0x983e5152, 0xa831c66d, 0xb00327c8, 0xbf597fc7, 0xc6e00bf3, 0xd5a79147, 0x06ca6351, 0x14292967,
  0x27b70a85, 0x2e1b2138, 0x4d2c6dfc, 0x53380d13, 0x650a7354, 0x766a0abb, 0x81c2c92e, 0x92722c85,
  0xa2bfe8a1, 0xa81a664b, 0xc24b8b70, 0xc76c51a3, 0xd192e819, 0xd6990624, 0xf40e3585, 0x106aa070,
  0x19a4c116, 0x1e376c08, 0x2748774c, 0x34b0bcb5, 0x391c0cb3, 0x4ed8aa4a, 0x5b9cca4f, 0x682e6ff3,
  0x748f82ee, 0x78a5636f, 0x84c87814, 0x8cc70208, 0x90befffa, 0xa4506ceb, 0xbef9a3f7, 0xc67178f2]

/-- `H0`. -/
def initialState : Sha256.Hash :=
  ⟨0x6a09e667, 0xbb67ae85, 0x3c6ef372, 0xa54ff53a, 0x510e527f, 0x9b05688c, 0x1f83d9ab, 0x5be0cd19⟩

/-- `while padded.len() % 64 != 56`. -/
def padZeros (padded : List U8) : List U8 :=
  if padded.length % 64 = 56 then padded else padZeros (padded ++ [0])
termination_by (120 - padded.length % 64) % 64
decreasing_by
  rw [List.length_append, List.length_singleton]
  omega

def padMessage (data : List U8) : List U8 :=
  padZeros (data ++ [0x80]) ++ octets (BitVec.ofNat 64 data.length * 8#64)

/-- `u32::from_be_bytes` of the four bytes of a chunk. -/
def fromBeBytes (word : List U8) : U32 := ofBe (word.getD 0 0) (word.getD 1 0) (word.getD 2 0) (word.getD 3 0)

/-- The sixteen words of the block, over what `w` held. -/
def loadWords (w : List U32) (block : List U8) : List U32 :=
  (List.range 16).foldl (fun w i => w.set i (fromBeBytes (structAt 4 block i))) w

def extendWord (w : List U32) (i : ℕ) : U32 :=
  let s0 := (w.getD (i - 15) 0).rotateRight 7 ^^^ (w.getD (i - 15) 0).rotateRight 18 ^^^ w.getD (i - 15) 0 >>> 3
  let s1 := (w.getD (i - 2) 0).rotateRight 17 ^^^ (w.getD (i - 2) 0).rotateRight 19 ^^^ w.getD (i - 2) 0 >>> 10
  w.getD (i - 16) 0 + s0 + w.getD (i - 7) 0 + s1

/-- `for i in 16..64`. -/
def extendWords (w : List U32) : List U32 := (List.range 48).foldl (fun w j => w.set (16 + j) (extendWord w (16 + j))) w

def roundStep (w : List U32) (s : Sha256.Hash) (i : ℕ) : Sha256.Hash :=
  let s1 := s.e.rotateRight 6 ^^^ s.e.rotateRight 11 ^^^ s.e.rotateRight 25
  let ch := (s.e &&& s.f) ^^^ (~~~s.e &&& s.g)
  let t1 := s.h + s1 + ch + roundConstants.getD i 0 + w.getD i 0
  let s0 := s.a.rotateRight 2 ^^^ s.a.rotateRight 13 ^^^ s.a.rotateRight 22
  let maj := (s.a &&& s.b) ^^^ (s.a &&& s.c) ^^^ (s.b &&& s.c)
  let t2 := s0 + maj
  ⟨t1 + t2, s.a, s.b, s.c, s.d + t1, s.e, s.f, s.g⟩

/-- One turn of the loop over blocks: the chaining value and the array `w`, which keeps its words for the next one. -/
def blockStep (state : Sha256.Hash × List U32) (block : List U8) : Sha256.Hash × List U32 :=
  let w := extendWords (loadWords state.2 block)
  (state.1.add ((List.range 64).foldl (roundStep w) state.1), w)

def digest (data : List U8) : List U8 :=
  let padded := padMessage data
  ((arrayOf 64 (padded.length / 64) padded).foldl blockStep (initialState, List.replicate 64 0)).1.octets

/-! ### What the loops compute -/

theorem roundConstants_eq : roundConstants = Sha256.constants := by
  rw [Sha256.constants, Sha256.primes_eq]
  decide +kernel

theorem initialState_eq : initialState = Sha256.initial := by decide +kernel

theorem padZeros_eq (padded : List U8) :
    padZeros padded = padded ++ List.replicate ((120 - padded.length % 64) % 64) 0 := by
  induction padded using padZeros.induct with
  | case1 padded hfull =>
    rw [padZeros, if_pos hfull, hfull]
    exact (List.append_nil padded).symm
  | case2 padded hshort ih =>
    rw [padZeros, if_neg hshort, ih, List.append_assoc, List.length_append, List.length_singleton]
    have hone : (120 - padded.length % 64) % 64 = (120 - (padded.length + 1) % 64) % 64 + 1 := by omega
    rw [hone, List.replicate_succ]
    rfl

theorem padMessage_eq (data : List U8) : padMessage data = data ++ Sha256.padding data.length := by
  have hzeros : (120 - (data.length + 1) % 64) % 64 = Sha256.zeroCount data.length := by
    unfold Sha256.zeroCount
    omega
  have hbits : BitVec.ofNat 64 data.length * 8#64 = BitVec.ofNat 64 (8 * data.length) := by
    rw [Nat.mul_comm, BitVec.ofNat_mul]
  rw [padMessage, padZeros_eq, List.length_append, List.length_singleton, hzeros, hbits, Sha256.padding,
    List.append_assoc, List.append_assoc]
  rfl

theorem fromBeBytes_structAt (block : List U8) (t : ℕ) : fromBeBytes (structAt 4 block t) = Sha256.wordOf block t := by
  have hbyte : ∀ k < 4, (structAt 4 block t).getD k 0 = block.getD (4 * t + k) 0 := by
    intro k hk
    rw [structAt, List.getD_eq_getElem?_getD, List.getElem?_take_of_lt hk, List.getElem?_drop,
      List.getD_eq_getElem?_getD]
  rw [fromBeBytes, Sha256.wordOf, hbyte 0 (by omega), hbyte 1 (by omega), hbyte 2 (by omega), hbyte 3 (by omega)]
  rfl

theorem getD_set {w : List U32} {i : ℕ} (h : i < w.length) (x : U32) (t : ℕ) :
    (w.set i x).getD t 0 = if t = i then x else w.getD t 0 := by
  by_cases ht : t = i
  · rw [if_pos ht, ht, List.getD_eq_getElem?_getD, List.getElem?_set_self h]
    rfl
  · rw [if_neg ht, List.getD_eq_getElem?_getD, List.getElem?_set_ne (Ne.symm ht), List.getD_eq_getElem?_getD]

/-- A loop that writes the words from `start` on, each from those before it: it leaves the values `value`, where one
turn computes the next of them from an array that holds the earlier ones. -/
theorem fill_spec {step : List U32 → ℕ → U32} {value : ℕ → U32} {start : ℕ} {w : List U32}
    (hstep : ∀ (w : List U32) (j : ℕ), (∀ t < start + j, w.getD t 0 = value t) → step w (start + j) = value (start + j))
    (hbefore : ∀ t < start, w.getD t 0 = value t) (n : ℕ) (hroom : start + n ≤ w.length) :
    ((List.range n).foldl (fun w j => w.set (start + j) (step w (start + j))) w).length = w.length ∧
      ∀ t < start + n,
        ((List.range n).foldl (fun w j => w.set (start + j) (step w (start + j))) w).getD t 0 = value t := by
  induction n with
  | zero => exact ⟨rfl, hbefore⟩
  | succ n ih =>
    obtain ⟨hlength, hvalues⟩ := ih (by omega)
    rw [List.range_succ, List.foldl_append, List.foldl_cons, List.foldl_nil]
    refine ⟨by rw [List.length_set, hlength], fun t ht => ?_⟩
    rw [getD_set (by omega)]
    by_cases hlast : t = start + n
    · rw [if_pos hlast, hlast]
      exact hstep _ n hvalues
    · rw [if_neg hlast]
      exact hvalues t (by omega)

theorem loadWords_spec {w : List U32} (h : w.length = 64) (block : List U8) :
    (loadWords w block).length = 64 ∧ ∀ t < 16, (loadWords w block).getD t 0 = Sha256.wordOf block t := by
  have hfill := @fill_spec (fun _ i => fromBeBytes (structAt 4 block i)) (Sha256.wordOf block) 0 w
    (fun _ j _ => fromBeBytes_structAt block (0 + j)) (fun t ht => absurd ht (Nat.not_lt_zero t)) 16 (by omega)
  simp only [Nat.zero_add] at hfill
  exact ⟨hfill.1.trans h, hfill.2⟩

/-- **The array holds the message schedule**, whatever the block before left in it. -/
theorem extendWords_spec {w : List U32} (h : w.length = 64) (block : List U8) :
    (extendWords (loadWords w block)).length = 64 ∧
      ∀ t < 64, (extendWords (loadWords w block)).getD t 0 = Sha256.schedule (Sha256.wordOf block) t := by
  obtain ⟨hlength, hwords⟩ := loadWords_spec h block
  have hfill := @fill_spec extendWord (Sha256.schedule (Sha256.wordOf block)) 16 (loadWords w block)
    (fun w j hbefore => ?_) (fun t ht => ?_) 48 (by omega)
  · exact ⟨hfill.1.trans hlength, hfill.2⟩
  · rw [extendWord, Sha256.schedule, if_neg (by omega), hbefore _ (by omega), hbefore _ (by omega),
      hbefore _ (by omega), hbefore _ (by omega), Sha256.smallSigma0, Sha256.smallSigma1]
    ac_rfl
  · rw [hwords t ht, Sha256.schedule, if_pos ht]

theorem roundStep_eq (w : List U32) (s : Sha256.Hash) (i : ℕ) :
    roundStep w s i = s.round (Sha256.constants.getD i 0) (w.getD i 0) := by
  rw [← roundConstants_eq]
  rfl

theorem rounds_eq {w : List U32} {message : ℕ → U32} (hw : ∀ t < 64, w.getD t 0 = Sha256.schedule message t)
    (s : Sha256.Hash) (n : ℕ) (hn : n ≤ 64) : (List.range n).foldl (roundStep w) s = s.rounds message n := by
  induction n with
  | zero => rfl
  | succ n ih =>
    rw [List.range_succ, List.foldl_append, ih (by omega), List.foldl_cons, List.foldl_nil, roundStep_eq, hw n (by omega)]
    rfl

theorem blockStep_eq (w : List U32) (s : Sha256.Hash) (block : List U8) :
    blockStep (s, w) block =
      (s.add ((List.range 64).foldl (roundStep (extendWords (loadWords w block))) s),
        extendWords (loadWords w block)) := by
  simp only [blockStep]

theorem blockStep_spec {w : List U32} (h : w.length = 64) (s : Sha256.Hash) (block : List U8) :
    (blockStep (s, w) block).1 = Sha256.compress s block ∧ (blockStep (s, w) block).2.length = 64 := by
  obtain ⟨hlength, hwords⟩ := extendWords_spec h block
  simp only [blockStep_eq]
  rw [Sha256.compress, rounds_eq hwords s 64 (Nat.le_refl 64)]
  exact ⟨rfl, hlength⟩

theorem blocks_eq {w : List U32} (h : w.length = 64) (s : Sha256.Hash) (blocks : List (List U8)) :
    (blocks.foldl blockStep (s, w)).1 = blocks.foldl Sha256.compress s := by
  induction blocks generalizing w s with
  | nil => rfl
  | cons block blocks ih =>
    have hturn := blockStep_spec h s block
    rw [List.foldl_cons, List.foldl_cons, ← hturn.1]
    generalize blockStep (s, w) block = next at hturn ⊢
    obtain ⟨s', w'⟩ := next
    exact ih hturn.2 s'

/-- **The loops compute the function of the standard**, for messages of every length. -/
theorem digest_eq_hash (data : List U8) : digest data = Sha256.hash data := by
  rw [Sha256.hash, ← initialState_eq, digest, padMessage_eq, blocks_eq (List.length_replicate ..)]
  rfl

/-! ### Identities -/

/-- `{b:02x}`. -/
def hexByte (byte : U8) : List Char := [Nat.digitChar (byte.toNat / 16), Nat.digitChar (byte.toNat % 16)]

def hex (digest : List U8) : String := String.ofList (digest.flatMap hexByte)

/-- The identity of a URL. -/
def sourceId (url : String) : String := hex (digest (utf8 url.toList))

/-- What `RemoteSource::parse` takes from the URL parser and from its own digest. -/
def sourceUrls (parse : String → Option (String × Bool)) : UrlLibrary := ⟨parse, sourceId⟩

/-- A lowercase SHA-256 text, as the cache and its cleanup expect one. -/
def IsSha256Text (text : List Char) : Prop := text.length = 64 ∧ ∀ c ∈ text, c.isDigit ∨ 'a' ≤ c ∧ c ≤ 'f'

theorem hexByte_injective : Function.Injective hexByte := by
  intro x y h
  obtain ⟨hhigh, htail⟩ := List.cons.inj h
  have hlow := (List.cons.inj htail).1
  have hdigit : ∀ d < 16, Percent.hexDigit (Nat.digitChar d) = some d := by decide
  have hx := x.isLt
  have hy := y.isLt
  have hhigh' : x.toNat / 16 = y.toNat / 16 := by
    rw [← Option.some_inj, ← hdigit _ (by omega), ← hdigit _ (by omega), hhigh]
  have hlow' : x.toNat % 16 = y.toNat % 16 := by
    rw [← Option.some_inj, ← hdigit _ (by omega), ← hdigit _ (by omega), hlow]
  exact BitVec.eq_of_toNat_eq (by omega)

theorem flatMap_injective {α β : Type} {size : ℕ} {encode : α → List β} (hpos : 0 < size)
    (hsize : ∀ x, (encode x).length = size) (hinj : Function.Injective encode) :
    ∀ {l l' : List α}, l.flatMap encode = l'.flatMap encode → l = l'
  | [], [], _ => rfl
  | [], x :: l', h => by
    have hlength := congrArg List.length h
    rw [List.flatMap_nil, List.flatMap_cons, List.length_append, hsize, List.length_nil] at hlength
    omega
  | x :: l, [], h => by
    have hlength := congrArg List.length h
    rw [List.flatMap_nil, List.flatMap_cons, List.length_append, hsize, List.length_nil] at hlength
    omega
  | x :: l, x' :: l', h => by
    obtain ⟨hfirst, hrest⟩ := List.append_inj h ((hsize x).trans (hsize x').symm)
    rw [hinj hfirst, flatMap_injective hpos hsize hinj hrest]

theorem hex_injective : Function.Injective hex := by
  intro x y h
  exact @flatMap_injective _ _ 2 hexByte (by decide) (fun _ => rfl) hexByte_injective _ _ (String.ofList_injective h)

theorem length_hash (data : List U8) : (Sha256.hash data).length = 32 := by
  rw [Sha256.hash, Sha256.Hash.octets, @length_flatMap_const _ 4 _ (fun x => length_octets x)]
  rfl

theorem sourceId_isSha256Text (url : String) : IsSha256Text (sourceId url).toList := by
  have hdigit : ∀ d < 16, (Nat.digitChar d).isDigit ∨ 'a' ≤ Nat.digitChar d ∧ Nat.digitChar d ≤ 'f' := by decide
  rw [sourceId, hex, String.toList_ofList, digest_eq_hash]
  constructor
  · generalize hhash : Sha256.hash (utf8 url.toList) = bytes
    have hlength : bytes.length = 32 := by rw [← hhash, length_hash]
    have htwo : ∀ bytes : List U8, (bytes.flatMap hexByte).length = 2 * bytes.length := by
      intro bytes
      induction bytes with
      | nil => rfl
      | cons byte bytes ih =>
        rw [List.flatMap_cons, List.length_append, ih, List.length_cons]
        show 2 + 2 * bytes.length = 2 * (bytes.length + 1)
        omega
    rw [htwo, hlength]
  · intro c hc
    obtain ⟨byte, -, hbyte⟩ := List.mem_flatMap.mp hc
    have hrange := byte.isLt
    rcases List.mem_cons.mp hbyte with rfl | hbyte
    · exact hdigit _ (by omega)
    · rw [List.mem_singleton.mp hbyte]
      exact hdigit _ (by omega)

theorem sourceId_collides {url url' : String} (h : (utf8 url.toList).length < 2 ^ 61)
    (h' : (utf8 url'.toList).length < 2 ^ 61) (hne : url ≠ url') (hid : sourceId url = sourceId url') :
    Sha256.Collide (utf8 url.toList) (utf8 url'.toList) := by
  refine Sha256.collide_of_hash_eq h h' (fun hbytes => hne ?_) ?_
  · have htext := congrArg TextDecoder.lossy.decode hbytes
    rw [TextDecoder.utf8, TextDecoder.utf8] at htext
    exact String.toList_injective htext
  · rw [← digest_eq_hash, ← digest_eq_hash]
    exact hex_injective hid

section Identities

variable {lib : Libraries} {parse : String → Option (String × Bool)} {readFile : String → Except String (List U8)}
  {policy : NodePolicy} {top : List (String × TomlValue)} {sources : List NodeSource}

/-- **The identities of an accepted document** are lowercase SHA-256 texts; its remote sources have different URLs,
and where two of them share an identity, the hashes of these two URLs collide in a compression. -/
theorem remote_identities (h : parseNodes lib (sourceUrls parse) readFile policy top = .ok sources)
    (hshort : ∀ source ∈ remotes sources, (utf8 source.url.toList).length < 2 ^ 61) :
    (∀ source ∈ remotes sources, IsSha256Text source.id.toList) ∧
      (remotes sources).Pairwise fun source other => source.url ≠ other.url ∧
        (source.id = other.id → Sha256.Collide (utf8 source.url.toList) (utf8 other.url.toList)) := by
  obtain ⟨-, hident, hnodup⟩ := parseNodes_ok h
  have hid : ∀ source ∈ remotes sources, source.id = sourceId source.url := fun source hin =>
    congrArg RemoteSource.id (hident source hin)
  refine ⟨fun source hin => ?_, hnodup.imp_of_mem fun hin hother hne => ?_⟩
  · rw [hid source hin]
    exact sourceId_isSha256Text source.url
  · have hurl : ∀ {source other}, source ∈ remotes sources → other ∈ remotes sources → source ≠ other →
        source.url ≠ other.url := fun hin hother hne hurl =>
      hne (by rw [hident _ hin, hident _ hother, hurl])
    refine ⟨hurl hin hother hne, fun heq => ?_⟩
    refine sourceId_collides (hshort _ hin) (hshort _ hother) (hurl hin hother hne) ?_
    rw [← hid _ hin, ← hid _ hother, heq]

end Identities

def twoListed : List (String × TomlValue) :=
  [("nodes", .table [("sources", .array [.str "https://a.invalid/", .str "https://b.invalid/"])])]

def twoRemotes : List RemoteSource :=
  [⟨"https://a.invalid/", sourceId "https://a.invalid/"⟩, ⟨"https://b.invalid/", sourceId "https://b.invalid/"⟩]

theorem remote_identities_two :
    (∀ source ∈ twoRemotes, IsSha256Text source.id.toList) ∧
      twoRemotes.Pairwise fun source other => source.url ≠ other.url ∧
        (source.id = other.id → Sha256.Collide (utf8 source.url.toList) (utf8 other.url.toList)) := by
  have hparsed : parseNodes twoDocuments (sourceUrls fun _ => some ("https", true)) (fun _ => .error "no file")
      oneRemote.policy twoListed = .ok [
        .remote ⟨"https://a.invalid/", sourceId "https://a.invalid/"⟩ "nodes.sources entry 1",
        .remote ⟨"https://b.invalid/", sourceId "https://b.invalid/"⟩ "nodes.sources entry 2"] := by
    rfl
  have hshort : ∀ url ∈ twoRemotes.map RemoteSource.url, (utf8 url.toList).length < 2 ^ 61 := by
    show ∀ url ∈ ["https://a.invalid/", "https://b.invalid/"], (utf8 url.toList).length < 2 ^ 61
    decide
  exact remote_identities hparsed fun source hin => hshort source.url (List.mem_map_of_mem hin)

end FluxRs.Nodes
