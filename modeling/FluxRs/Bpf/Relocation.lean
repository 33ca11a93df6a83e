import FluxRs.Bpf.Object

/-!
# FluxRs.Bpf.Relocation — what `program` writes into a section

Each entry is tested on a buffer that earlier entries have patched.  The tests come out as on the section of the
file: two targets a slot apart exclude each other, since a second slot is zero and a first slot is not.
-/

namespace FluxRs.Bpf.Elf

open FluxRs.Lib Checked

/-- `size` bytes at `offset`. -/
def window (bytes : List U8) (offset size : ℕ) : List U8 := (bytes.take (offset + size)).drop offset

theorem length_window {bytes : List U8} {offset size : ℕ} (h : offset + size ≤ bytes.length) :
    (window bytes offset size).length = size := by
  rw [window, List.length_drop, List.length_take]
  omega

theorem window_getElem? (bytes : List U8) (offset size j : ℕ) :
    (window bytes offset size)[j]? = if j < size then bytes[offset + j]? else none := by
  rw [window, List.getElem?_drop, List.getElem?_take]
  by_cases h : j < size
  · rw [if_pos h, if_pos (by omega)]
  · rw [if_neg h, if_neg (by omega)]

/-! ### When the readers succeed -/

theorem sliceOf_ok {bytes r : List U8} {offset size : ℕ} {label : String} :
    sliceOf bytes offset size label = .ok r ↔
      offset + size ≤ bytes.length ∧ offset + size < 2 ^ 64 ∧ window bytes offset size = r := by
  unfold sliceOf checkedRange
  simp only [bind_ok, ensure_ok, exists_const, addUsize_ok, slice_ok]
  constructor
  · rintro ⟨hrange, stop, ⟨hlt, rfl⟩, -, hr⟩
    exact ⟨by omega, hlt, hr⟩
  · rintro ⟨hrange, hlt, hr⟩
    exact ⟨by omega, offset + size, ⟨hlt, rfl⟩, ⟨by omega, hrange⟩, hr⟩

theorem toUsize_ok {value n : ℕ} {label : String} : toUsize value label = .ok n ↔ value < 2 ^ 64 ∧ value = n := by
  unfold toUsize
  simp only [bind_ok, ensure_ok, exists_const]
  exact and_congr_right fun _ => ⟨fun h => Except.ok.inj h, fun h => congrArg Except.ok h⟩

/-- A word of an entry. -/
theorem readU64_ok {bytes : List U8} {offset n : ℕ} (h : offset + 8 ≤ bytes.length) (hlt : offset + 8 < 2 ^ 64) :
    readU64 bytes offset = .ok n ↔ ofLe (window bytes offset 8) = n := by
  unfold readU64 readLe
  rw [bind_ok]
  constructor
  · rintro ⟨word, hword, hn⟩
    obtain ⟨-, -, rfl⟩ := sliceOf_ok.mp hword
    rw [if_pos (length_window h)] at hn
    exact Except.ok.inj hn
  · rintro rfl
    refine ⟨window bytes offset 8, sliceOf_ok.mpr ⟨h, hlt, rfl⟩, ?_⟩
    rw [if_pos (length_window h)]
    rfl

/-! ### Entries -/

structure Entry where
  offset : ℕ
  symbolIndex : ℕ
  relocationType : ℕ
  deriving DecidableEq

/-- The entry in sixteen bytes. -/
def entryOf (relocation : List U8) : Entry where
  offset := ofLe (window relocation 0 8)
  symbolIndex := ofLe (window relocation 8 8) / 2 ^ 32
  relocationType := ofLe (window relocation 8 8) % 2 ^ 32

/-- The entries of a relocation section. -/
def chunks (entries : List U8) : List (List U8) :=
  (List.range (entries.length / relSize)).map fun i => window entries (i * relSize) relSize

/-- The map symbol of an entry whose type and offset are those that are supported. -/
structure Selects (o : Object) (e : Entry) (symbol : Symbol) : Prop where
  type : e.relocationType = rBpf6464
  aligned : e.offset % bpfInsnSize = 0
  found : o.symbols[e.symbolIndex]? = some symbol
  global : symbol.binding = stbGlobal
  object : symbol.symbolType = sttObject
  maps : ∃ maps, o.sections[symbol.shndx]? = some maps ∧ maps.name = ".maps"

/-- Sixteen bytes at `offset` that are an LD_IMM64 with an empty second slot. -/
structure Target (bytes : List U8) (offset : ℕ) : Prop where
  opcode : bytes[offset]? = some bpfLdImm64
  second : ∀ j, 8 ≤ j → j < 16 → bytes[offset + j]? = some 0

theorem Target.inside {bytes : List U8} {offset : ℕ} (h : Target bytes offset) : offset + 16 ≤ bytes.length := by
  obtain ⟨hlt, -⟩ := List.getElem?_eq_some_iff.mp (h.second 15 (by omega) (by omega))
  omega

/-- What the loop tests of a target. -/
theorem target_iff {bytes : List U8} {offset : ℕ} :
    offset + 16 ≤ bytes.length ∧ bytes[offset]? = some bpfLdImm64 ∧ window bytes (offset + 8) 8 = List.replicate 8 0 ↔
      Target bytes offset := by
  constructor
  · rintro ⟨hlen, hopcode, hsecond⟩
    refine ⟨hopcode, ?_⟩
    intro j hj hj'
    have hat := congrArg (fun l => l[j - 8]?) hsecond
    simp only [window_getElem?, List.getElem?_replicate] at hat
    rw [if_pos (by omega), if_pos (by omega), show offset + 8 + (j - 8) = offset + j by omega] at hat
    exact hat
  · intro h
    refine ⟨h.inside, h.opcode, ?_⟩
    ext j : 1
    rw [window_getElem?, List.getElem?_replicate]
    by_cases hj : j < 8
    · rw [if_pos hj, if_pos hj, show offset + 8 + j = offset + (j + 8) by omega]
      exact h.second (j + 8) (by omega) (by omega)
    · rw [if_neg hj, if_neg hj]

/-- A target depends on its sixteen bytes. -/
theorem Target.congr {l l' : List U8} {offset : ℕ} (h : Target l offset)
    (hl : ∀ j < 16, l'[offset + j]? = l[offset + j]?) : Target l' offset := by
  refine ⟨(hl 0 (by omega)).trans h.opcode, ?_⟩
  intro j hj hj'
  rw [hl j hj']
  exact h.second j hj hj'

/-- Two targets of one buffer do not overlap: where one has its second slot, the other would have an opcode. -/
theorem Target.apart {l : List U8} {a b : ℕ} (ha : Target l a) (hb : Target l b) (ha8 : a % 8 = 0)
    (hb8 : b % 8 = 0) (hne : a ≠ b) : a + 16 ≤ b ∨ b + 16 ≤ a := by
  have hslot {c d : ℕ} (hc : Target l c) (hd : Target l d) : d ≠ c + 8 := by
    rintro rfl
    have hzero := hc.second 8 (by omega) (by omega)
    rw [hd.opcode] at hzero
    exact absurd (Option.some.inj hzero) (by decide)
  have h1 := hslot ha hb
  have h2 := hslot hb ha
  omega

namespace Object

/-- One entry succeeds exactly where its symbol is a map, its offset is new, its target is an LD_IMM64 of the
buffer and the resolver answers. -/
theorem relocate_ok {o : Object} {resolve : Resolver} {s s' : Patching} {relocation : List U8}
    (hlen : relocation.length = 16) :
    o.relocate resolve s relocation = .ok s' ↔
      ∃ symbol fd, Selects o (entryOf relocation) symbol ∧ (entryOf relocation).offset ∉ s.patched ∧
        Target s.instructions (entryOf relocation).offset ∧ resolve s.asked symbol.name = some fd ∧ 0 ≤ fd ∧
        s' = ⟨patch s.instructions (entryOf relocation).offset fd, (entryOf relocation).offset :: s.patched,
          s.asked ++ [symbol.name]⟩ := by
  have hoff : ofLe (window relocation 0 8) < 2 ^ 64 := by
    refine lt_of_lt_of_le (ofLe_lt _) ?_
    rw [length_window (by omega)]
    decide
  unfold relocate
  simp only [bind_ok, ensure_ok, exists_const, readU64_ok (show 0 + 8 ≤ relocation.length by omega) (by omega),
    readU64_ok (show 8 + 8 ≤ relocation.length by omega) (by omega), toUsize_ok, exists_eq_left', hoff, true_and,
    index_ok, okOr_ok, slice_ok, checkedRange]
  constructor
  · rintro ⟨htype, ⟨-, halign, hnew⟩, hrange, symbol, hfound, ⟨hglobal, hobject, -⟩, maps, hmaps, hname, fd, hfd, hpos,
      opcode, hat, second, ⟨-, hsecond⟩, ⟨rfl, rfl⟩, _, -, hs⟩
    refine ⟨symbol, fd, ⟨htype, halign, hfound, hglobal, hobject, maps, hmaps, hname⟩, hnew, ?_, hfd, hpos,
      (Except.ok.inj hs).symm⟩
    exact target_iff.mp ⟨Nat.add_le_of_le_sub' hrange.1 hrange.2, hat, hsecond⟩
  · rintro ⟨symbol, fd, ⟨htype, halign, hfound, hglobal, hobject, maps, hmaps, hname⟩, hnew, htarget, hfd, hpos, rfl⟩
    obtain ⟨hinside, hat, hsecond⟩ := target_iff.mpr htarget
    obtain ⟨hindex, -⟩ := List.getElem?_eq_some_iff.mp hfound
    obtain ⟨hshndx, -⟩ := List.getElem?_eq_some_iff.mp hmaps
    have hinside : ofLe (window relocation 0 8) + 16 ≤ s.instructions.length := hinside
    refine ⟨htype, ⟨hindex, halign, hnew⟩, ⟨?_, ?_⟩, symbol, hfound, ⟨hglobal, hobject, hshndx⟩, maps, hmaps, hname,
      fd, hfd, hpos, bpfLdImm64, hat, List.replicate 8 0, ⟨⟨?_, hinside⟩, hsecond⟩, ⟨rfl, rfl⟩, (), if_pos hinside, rfl⟩
    · omega
    · unfold bpfInsnSize
      omega
    · unfold bpfInsnSize
      omega

/-! ### The bytes -/

theorem length_fdBytes (fd : ℤ) : (fdBytes fd).length = 4 := length_leBytes 4 _

/-- A range of a list that is written over. -/
theorem splice_getElem? {α : Type} {l new : List α} {a b : ℕ} (hb : b ≤ l.length) (hnew : a + new.length = b) (p : ℕ) :
    (l.take a ++ new ++ l.drop b)[p]? = if a ≤ p ∧ p < b then new[p - a]? else l[p]? := by
  have hlen : (l.take a ++ new).length = b := by
    rw [List.length_append, List.length_take]
    omega
  by_cases hp : p < b
  · rw [List.getElem?_append_left (by omega)]
    by_cases ha : a ≤ p
    · rw [if_pos ⟨ha, hp⟩, List.getElem?_append_right (by rw [List.length_take]; omega), List.length_take]
      congr 1
      omega
    · rw [if_neg (fun h => ha h.1), List.getElem?_append_left (by rw [List.length_take]; omega),
        List.getElem?_take_of_lt (by omega)]
  · rw [if_neg (fun h => hp h.2), List.getElem?_append_right (by omega), List.getElem?_drop, hlen]
    congr 1
    omega

theorem patch_getElem? {l : List U8} {offset : ℕ} (fd : ℤ) (h : offset + 16 ≤ l.length) (p : ℕ) :
    (patch l offset fd)[p]? =
      if offset + 12 ≤ p ∧ p < offset + 16 then some 0
      else if offset + 4 ≤ p ∧ p < offset + 8 then (fdBytes fd)[p - (offset + 4)]?
      else if p = offset + 1 then some (l.getD (offset + 1) 0 &&& 0x0f ||| bpfPseudoMapFd <<< 4)
      else l[p]? := by
  have hfd := length_fdBytes fd
  unfold patch
  rw [splice_getElem? (by simp only [List.length_append, List.length_take, List.length_drop, List.length_set]; omega)
    (by rw [List.length_replicate])]
  by_cases h12 : offset + 12 ≤ p ∧ p < offset + 16
  · rw [if_pos h12, if_pos h12, List.getElem?_replicate, if_pos (by omega)]
  · rw [if_neg h12, if_neg h12, splice_getElem? (by rw [List.length_set]; omega) (by omega)]
    by_cases h4 : offset + 4 ≤ p ∧ p < offset + 8
    · rw [if_pos h4, if_pos h4]
    · rw [if_neg h4, if_neg h4, List.getElem?_set]
      by_cases h1 : p = offset + 1
      · rw [if_pos h1, if_pos h1.symm, if_pos (by omega)]
      · rw [if_neg h1, if_neg (Ne.symm h1)]

theorem patch_outside {l : List U8} {offset : ℕ} (fd : ℤ) (h : offset + 16 ≤ l.length) {p : ℕ}
    (hp : p < offset ∨ offset + 16 ≤ p) : (patch l offset fd)[p]? = l[p]? := by
  rw [patch_getElem? fd h, if_neg (by omega), if_neg (by omega), if_neg (by omega)]

/-- Byte `j` of a target that is bound to `fd`. -/
def boundByte (original : List U8) (offset : ℕ) (fd : ℤ) (j : ℕ) : U8 :=
  if j = 1 then original.getD (offset + 1) 0 &&& 0x0f ||| bpfPseudoMapFd <<< 4
  else if 4 ≤ j ∧ j < 8 then (fdBytes fd).getD (j - 4) 0
  else original.getD (offset + j) 0

theorem patch_target {l : List U8} {offset : ℕ} (fd : ℤ) (h : Target l offset) {j : ℕ} (hj : j < 16) :
    (patch l offset fd)[offset + j]? = some (boundByte l offset fd j) := by
  have hfd := length_fdBytes fd
  have hin := h.inside
  rw [patch_getElem? fd hin, boundByte]
  by_cases h12 : 12 ≤ j
  · rw [if_pos (by omega), if_neg (by omega), if_neg (by omega), List.getD_eq_getElem?_getD,
      h.second j (by omega) hj]
    rfl
  · rw [if_neg (by omega)]
    by_cases h4 : 4 ≤ j ∧ j < 8
    · rw [if_pos (by omega), if_neg (by omega), if_pos h4, show offset + j - (offset + 4) = j - 4 by omega,
        List.getD_eq_getElem?_getD, List.getElem?_eq_getElem (by omega)]
      rfl
    · rw [if_neg (by omega)]
      by_cases h1 : j = 1
      · rw [if_pos (by omega), if_pos h1]
      · rw [if_neg (by omega), if_neg h1, if_neg h4, List.getD_eq_getElem?_getD, List.getElem?_eq_getElem (by omega)]
        rfl

/-! ### Exact relocation -/

/-- The result is the original with each target bound to its descriptor. -/
structure Exact (original result : List U8) (bound : List (ℕ × ℤ)) : Prop where
  length : result.length = original.length
  target : ∀ b ∈ bound, Target original b.1
  aligned : ∀ b ∈ bound, b.1 % 8 = 0
  apart : bound.Pairwise fun b c => b.1 + 16 ≤ c.1 ∨ c.1 + 16 ≤ b.1
  written : ∀ b ∈ bound, ∀ j < 16, result[b.1 + j]? = some (boundByte original b.1 b.2 j)
  rest : ∀ p, (∀ b ∈ bound, p < b.1 ∨ b.1 + 16 ≤ p) → result[p]? = original[p]?

theorem length_patch {l : List U8} {offset : ℕ} (fd : ℤ) (h : offset + 16 ≤ l.length) :
    (patch l offset fd).length = l.length := by
  have hfd := length_fdBytes fd
  unfold patch
  simp only [List.length_append, List.length_take, List.length_drop, List.length_set, List.length_replicate]
  omega

section Step

variable {original result : List U8} {bound : List (ℕ × ℤ)}

theorem exact_nil (original : List U8) : Exact original original [] where
  length := rfl
  target _ hb := absurd hb List.not_mem_nil
  aligned _ hb := absurd hb List.not_mem_nil
  apart := List.Pairwise.nil
  written _ hb := absurd hb List.not_mem_nil
  rest _ _ := rfl

/-- A target that has been patched still looks like one. -/
theorem Exact.still_target (h : Exact original result bound) {b : ℕ × ℤ} (hb : b ∈ bound) : Target result b.1 := by
  have ht := h.target b hb
  have hbyte (j : ℕ) (h1 : j ≠ 1) (h4 : ¬ (4 ≤ j ∧ j < 8)) (hj : j < 16) :
      result[b.1 + j]? = original[b.1 + j]? := by
    have hin := ht.inside
    rw [h.written b hb j hj, boundByte, if_neg h1, if_neg h4, List.getD_eq_getElem?_getD,
      List.getElem?_eq_getElem (by omega)]
    rfl
  refine ⟨(hbyte 0 (by omega) (by omega) (by omega)).trans ht.opcode, ?_⟩
  intro j hj hj'
  rw [hbyte j (by omega) (by omega) hj']
  exact ht.second j hj hj'

variable {offset : ℕ} (h : Exact original result bound) (h8 : offset % 8 = 0) (hnew : offset ∉ bound.map Prod.fst)

include h h8 hnew

/-- A target that is not taken is apart from those that are, in either buffer. -/
theorem Exact.apart_of (l : List U8) (hl : ∀ b ∈ bound, Target l b.1) (ht : Target l offset) :
    ∀ b ∈ bound, offset + 16 ≤ b.1 ∨ b.1 + 16 ≤ offset := by
  intro b hb
  refine Target.apart ht (hl b hb) h8 (h.aligned b hb) ?_
  rintro rfl
  exact hnew (List.mem_map_of_mem hb)

omit h8 hnew in
theorem Exact.same_bytes (hap : ∀ b ∈ bound, offset + 16 ≤ b.1 ∨ b.1 + 16 ≤ offset) :
    ∀ j < 16, result[offset + j]? = original[offset + j]? := by
  intro j hj
  refine h.rest (offset + j) ?_
  intro b hb
  have hb' := hap b hb
  omega

/-- The patched buffer passes the test where the section passes it. -/
theorem Exact.target_iff : Target result offset ↔ Target original offset := by
  constructor
  · intro ht
    have hap := h.apart_of h8 hnew result (fun b hb => h.still_target hb) ht
    exact ht.congr fun j hj => (h.same_bytes hap j hj).symm
  · intro ht
    have hap := h.apart_of h8 hnew original h.target ht
    exact ht.congr (h.same_bytes hap)

theorem Exact.patch (fd : ℤ) (ht : Target original offset) :
    Exact original (Object.patch result offset fd) ((offset, fd) :: bound) := by
  have hap := h.apart_of h8 hnew original h.target ht
  have hsame := h.same_bytes hap
  have htr := (h.target_iff h8 hnew).mpr ht
  have hin := htr.inside
  have hbyte (j : ℕ) (hj : j < 16) : boundByte result offset fd j = boundByte original offset fd j := by
    simp only [boundByte, List.getD_eq_getElem?_getD, hsame j hj, hsame 1 (by omega)]
  refine ⟨(length_patch fd hin).trans h.length, ?_, ?_, ?_, ?_, ?_⟩
  · exact List.forall_mem_cons.mpr ⟨ht, h.target⟩
  · exact List.forall_mem_cons.mpr ⟨h8, h.aligned⟩
  · exact List.pairwise_cons.mpr ⟨hap, h.apart⟩
  · refine List.forall_mem_cons.mpr ⟨?_, ?_⟩
    · intro j hj
      show (Object.patch result offset fd)[offset + j]? = _
      rw [patch_target fd htr hj, hbyte j hj]
    · intro b hb j hj
      have hb' := hap b hb
      rw [patch_outside fd hin (by omega)]
      exact h.written b hb j hj
  · intro p hp
    obtain ⟨hpo, hpb⟩ := List.forall_mem_cons.mp hp
    rw [patch_outside fd hin hpo]
    exact h.rest p hpb

end Step

/-- What has been written is all that the targets and their descriptors say. -/
theorem Exact.unique {original result result' : List U8} {bound bound' : List (ℕ × ℤ)}
    (h : Exact original result bound) (h' : Exact original result' bound') (hb : bound.Perm bound') :
    result = result' := by
  ext p : 1
  by_cases hp : ∃ b ∈ bound, b.1 ≤ p ∧ p < b.1 + 16
  · obtain ⟨b, hmem, hle, hlt⟩ := hp
    have hw := h.written b hmem (p - b.1) (by omega)
    have hw' := h'.written b (hb.mem_iff.mp hmem) (p - b.1) (by omega)
    rw [show b.1 + (p - b.1) = p by omega] at hw hw'
    rw [hw, hw']
  · push Not at hp
    have hout : ∀ b ∈ bound, p < b.1 ∨ b.1 + 16 ≤ p := by
      intro b hmem
      have hb' := hp b hmem
      omega
    rw [h.rest p hout, h'.rest p fun b hmem => hout b (hb.mem_iff.mpr hmem)]

theorem Exact.perm {original result : List U8} {bound bound' : List (ℕ × ℤ)} (h : Exact original result bound)
    (hb : bound.Perm bound') : Exact original result bound' where
  length := h.length
  target b hmem := h.target b (hb.mem_iff.mpr hmem)
  aligned b hmem := h.aligned b (hb.mem_iff.mpr hmem)
  apart := (hb.pairwise_iff fun hr => hr.symm).mp h.apart
  written b hmem := h.written b (hb.mem_iff.mpr hmem)
  rest p hp := h.rest p fun b hmem => hp b (hb.mem_iff.mp hmem)

/-! ### The loop -/

/-- The descriptors that the resolver gives for the entries in order, each asked after those before it. -/
inductive Bound (o : Object) (resolve : Resolver) : List String → List Entry → List (ℕ × ℤ) → Prop
  | nil (asked : List String) : Bound o resolve asked [] []
  | cons {asked : List String} {e : Entry} {es : List Entry} {symbol : Symbol} {fd : ℤ} {bs : List (ℕ × ℤ)}
      (hsel : Selects o e symbol) (hfd : resolve asked symbol.name = some fd) (hpos : 0 ≤ fd)
      (hrest : Bound o resolve (asked ++ [symbol.name]) es bs) :
      Bound o resolve asked (e :: es) ((e.offset, fd) :: bs)

section Loop

variable {o : Object} {resolve : Resolver} {entries original : List U8}

theorem relocateFrom_cons {i : ℕ} {is : List ℕ} {s s' : Patching} (hlt : entries.length < 2 ^ 64)
    (hi : i * relSize + relSize ≤ entries.length) :
    o.relocateFrom resolve entries (i :: is) s = .ok s' ↔
      ∃ s₁, o.relocate resolve s (window entries (i * relSize) relSize) = .ok s₁ ∧
        o.relocateFrom resolve entries is s₁ = .ok s' := by
  have hstart : (mulUsize i relSize : Checked String ℕ) = .ok (i * relSize) := mulUsize_eq (by omega)
  have hchunk : sliceOf entries (i * relSize) relSize "relocation" = .ok (window entries (i * relSize) relSize) :=
    sliceOf_ok.mpr ⟨hi, by omega, rfl⟩
  simp only [relocateFrom, bind_ok, hstart, hchunk, Except.ok.injEq, exists_eq_left']

variable (hlt : entries.length < 2 ^ 64)

include hlt

/-- A run of the loop binds every entry and patches its target, and nothing else. -/
theorem relocateFrom_exact {is : List ℕ} (his : ∀ i ∈ is, i * relSize + relSize ≤ entries.length) {s s' : Patching}
    {bound : List (ℕ × ℤ)} (hs : Exact original s.instructions bound) (hp : s.patched = bound.map Prod.fst)
    (h : o.relocateFrom resolve entries is s = .ok s') :
    ∃ bs, Bound o resolve s.asked (is.map fun i => entryOf (window entries (i * relSize) relSize)) bs ∧
      Exact original s'.instructions (bs.reverse ++ bound) := by
  induction is generalizing s bound with
  | nil =>
    obtain rfl := Except.ok.inj h
    exact ⟨[], Bound.nil _, hs⟩
  | cons i is ih =>
    obtain ⟨hi, his⟩ := List.forall_mem_cons.mp his
    obtain ⟨s₁, hone, hrest⟩ := (relocateFrom_cons hlt hi).mp h
    obtain ⟨symbol, fd, hsel, hnew, htarget, hfd, hpos, rfl⟩ := (relocate_ok (length_window hi)).mp hone
    rw [hp] at hnew
    have hto := (hs.target_iff hsel.aligned hnew).mp htarget
    obtain ⟨bs, hbound, hexact⟩ := ih his (hs.patch hsel.aligned hnew fd hto) (congrArg _ hp) hrest
    refine ⟨_, Bound.cons hsel hfd hpos hbound, ?_⟩
    rw [List.reverse_cons, List.append_assoc]
    exact hexact

/-- And there is a run wherever the targets of the section allow it. -/
theorem relocateFrom_total {is : List ℕ} (his : ∀ i ∈ is, i * relSize + relSize ≤ entries.length) {s : Patching}
    {bound bs : List (ℕ × ℤ)} (hs : Exact original s.instructions bound) (hp : s.patched = bound.map Prod.fst)
    (hbound : Bound o resolve s.asked (is.map fun i => entryOf (window entries (i * relSize) relSize)) bs)
    (htarget : ∀ b ∈ bs, Target original b.1) (hnodup : ((bs.map Prod.fst) ++ s.patched).Nodup) :
    ∃ s', o.relocateFrom resolve entries is s = .ok s' ∧ Exact original s'.instructions (bs.reverse ++ bound) := by
  induction is generalizing s bound bs with
  | nil =>
    cases hbound
    exact ⟨s, rfl, hs⟩
  | cons i is ih =>
    obtain ⟨hi, his⟩ := List.forall_mem_cons.mp his
    rw [List.map_cons] at hbound
    cases hbound with
    | cons hsel hfd hpos hrest =>
      rename_i symbol fd bs
      obtain ⟨hto, htarget⟩ := List.forall_mem_cons.mp htarget
      rw [List.map_cons, List.cons_append, List.nodup_cons, List.mem_append, not_or] at hnodup
      obtain ⟨⟨hnewer, hnew⟩, hnodup⟩ := hnodup
      have hnew' := hnew
      rw [hp] at hnew'
      have hts := (hs.target_iff hsel.aligned hnew').mpr hto
      have hone : o.relocate resolve s (window entries (i * relSize) relSize) = .ok _ :=
        (relocate_ok (length_window hi)).mpr ⟨symbol, fd, hsel, hnew, hts, hfd, hpos, rfl⟩
      have hlater : (bs.map Prod.fst ++ (entryOf (window entries (i * relSize) relSize)).offset :: s.patched).Nodup := by
        rw [List.perm_middle.nodup_iff, List.nodup_cons, List.mem_append, not_or]
        exact ⟨⟨hnewer, hnew⟩, hnodup⟩
      obtain ⟨s', hs', hexact⟩ :=
        ih his (s := ⟨_, _, _⟩) (hs.patch hsel.aligned hnew' fd hto) (congrArg _ hp) hrest htarget hlater
      refine ⟨s', (relocateFrom_cons hlt hi).mpr ⟨_, hone, hs'⟩, ?_⟩
      rw [List.reverse_cons, List.append_assoc]
      exact hexact

end Loop

theorem entries_map (entries : List U8) :
    ((List.range (entries.length / relSize)).map fun i => entryOf (window entries (i * relSize) relSize)) =
      (chunks entries).map entryOf := by
  rw [chunks, List.map_map]
  rfl

theorem entry_inside {entries : List U8} : ∀ i ∈ List.range (entries.length / relSize),
    i * relSize + relSize ≤ entries.length := by
  intro i hi
  have hle := Nat.mul_le_of_le_div relSize (i + 1) entries.length (List.mem_range.mp hi)
  rwa [Nat.succ_mul] at hle

/-- A program, step by step. -/
theorem program_ok {o : Object} {name sec : String} {resolve : Resolver} {image : ProgramImage} :
    o.program name sec resolve = .ok image ↔
      ∃ target i relocations s, o.programSection name sec = .ok (target, i) ∧
        (target.offset + target.size ≤ o.bytes.length ∧ target.offset + target.size < 2 ^ 64) ∧
        o.programRelocations name i = .ok relocations ∧
        (relocations.offset + relocations.size ≤ o.bytes.length ∧ relocations.offset + relocations.size < 2 ^ 64) ∧
        o.relocateFrom resolve (window o.bytes relocations.offset relocations.size)
          (List.range ((window o.bytes relocations.offset relocations.size).length / relSize))
          ⟨window o.bytes target.offset target.size, [], []⟩ = .ok s ∧
        s.instructions.length / bpfInsnSize < 2 ^ 32 ∧ ⟨s.instructions, s.instructions.length / bpfInsnSize⟩ = image := by
  unfold program
  simp only [bind_ok, ensure_ok, exists_const, sliceOf_ok]
  constructor
  · rintro ⟨⟨target, i⟩, hsec, _, ⟨hin, hlt, rfl⟩, relocations, hrel, _, ⟨hin', hlt', rfl⟩, s, hs, hcount, himage⟩
    exact ⟨target, i, relocations, s, hsec, ⟨hin, hlt⟩, hrel, ⟨hin', hlt'⟩, hs, hcount, Except.ok.inj himage⟩
  · rintro ⟨target, i, relocations, s, hsec, ⟨hin, hlt⟩, hrel, ⟨hin', hlt'⟩, hs, hcount, rfl⟩
    exact ⟨⟨target, i⟩, hsec, _, ⟨hin, hlt, rfl⟩, relocations, hrel, _, ⟨hin', hlt', rfl⟩, s, hs, hcount, rfl⟩

/-- How a bound target reads. -/
structure Holds (result : List U8) (b : ℕ × ℤ) : Prop where
  source : ∃ byte, result[b.1 + 1]? = some byte ∧ byte >>> 4 = bpfPseudoMapFd
  immediate : window result (b.1 + 4) 4 = fdBytes b.2
  second : window result (b.1 + 8) 8 = List.replicate 8 0

theorem nibble (x : U8) : (x &&& 0x0f ||| bpfPseudoMapFd <<< 4) >>> 4 = bpfPseudoMapFd := by
  revert x
  decide

theorem Exact.holds {original result : List U8} {bound : List (ℕ × ℤ)} (h : Exact original result bound)
    {b : ℕ × ℤ} (hb : b ∈ bound) : Holds result b := by
  refine ⟨⟨_, h.written b hb 1 (by omega), nibble _⟩, ?_, (Elf.target_iff.mpr (h.still_target hb)).2.2⟩
  have hfd := length_fdBytes b.2
  ext j : 1
  rw [window_getElem?]
  by_cases hj : j < 4
  · rw [if_pos hj, show b.1 + 4 + j = b.1 + (j + 4) by omega, h.written b hb (j + 4) (by omega), boundByte,
      if_neg (by omega), if_pos (by omega), Nat.add_sub_cancel, List.getD_eq_getElem?_getD,
      List.getElem?_eq_getElem (by omega)]
    rfl
  · rw [if_neg hj, List.getElem?_eq_none (by omega)]

/-! ### Other orders of the entries -/

/-- A resolver that answers by the name alone does not care what it has been asked. -/
theorem Bound.of_asked {o : Object} {answer : String → Option ℤ} {es : List Entry} {asked : List String}
    {bs : List (ℕ × ℤ)} (h : Bound o (fun _ => answer) asked es bs) (asked' : List String) :
    Bound o (fun _ => answer) asked' es bs := by
  induction h generalizing asked' with
  | nil => exact Bound.nil asked'
  | cons hsel hfd hpos _ ih => exact Bound.cons hsel hfd hpos (ih _)

theorem Bound.perm {o : Object} {answer : String → Option ℤ} {es es' : List Entry} {asked : List String}
    {bs : List (ℕ × ℤ)} (hes : es.Perm es') (h : Bound o (fun _ => answer) asked es bs) (asked' : List String) :
    ∃ bs', bs.Perm bs' ∧ Bound o (fun _ => answer) asked' es' bs' := by
  induction hes generalizing asked asked' bs with
  | nil =>
    cases h
    exact ⟨[], List.Perm.nil, Bound.nil asked'⟩
  | cons e _ ih =>
    cases h with
    | cons hsel hfd hpos hrest =>
      obtain ⟨bs', hperm, hb⟩ := ih hrest _
      exact ⟨_, hperm.cons _, Bound.cons hsel hfd hpos hb⟩
  | swap e e' es =>
    cases h with
    | cons hsel hfd hpos hrest =>
      cases hrest with
      | cons hsel' hfd' hpos' hrest =>
        exact ⟨_, List.Perm.swap _ _ _, Bound.cons hsel' hfd' hpos' (Bound.cons hsel hfd hpos (hrest.of_asked _))⟩
  | trans _ _ ih ih' =>
    obtain ⟨bs₁, hperm₁, hb₁⟩ := ih h asked
    obtain ⟨bs₂, hperm₂, hb₂⟩ := ih' hb₁ asked'
    exact ⟨bs₂, hperm₁.trans hperm₂, hb₂⟩

/-- Targets that are apart are distinct. -/
theorem Exact.nodup {original result : List U8} {bound : List (ℕ × ℤ)} (h : Exact original result bound) :
    (bound.map Prod.fst).Nodup := by
  rw [List.Nodup, List.pairwise_map]
  refine h.apart.imp ?_
  intro b c hbc
  omega

/-- The same file but for the order of the entries of one program. -/
structure Permuted (o : Object) (bytes' : List U8) (name sec : String) : Prop where
  length : bytes'.length = o.bytes.length
  program : ∀ target i, o.programSection name sec = .ok (target, i) →
    window bytes' target.offset target.size = window o.bytes target.offset target.size
  entries : ∀ target i relocations, o.programSection name sec = .ok (target, i) →
    o.programRelocations name i = .ok relocations →
    (chunks (window o.bytes relocations.offset relocations.size)).Perm
      (chunks (window bytes' relocations.offset relocations.size))

theorem Permuted.symm {o : Object} {bytes' : List U8} {name sec : String} (h : o.Permuted bytes' name sec) :
    ({ o with bytes := bytes' } : Object).Permuted o.bytes name sec where
  length := h.length.symm
  program target i hsec := (h.program target i hsec).symm
  entries target i relocations hsec hrel := (h.entries target i relocations hsec hrel).symm

theorem relocateFrom_bytes (o : Object) (bytes' : List U8) (resolve : Resolver) (entries : List U8) (is : List ℕ)
    (s : Patching) : ({ o with bytes := bytes' } : Object).relocateFrom resolve entries is s =
      o.relocateFrom resolve entries is s := by
  induction is generalizing s with
  | nil => rfl
  | cons i is ih =>
    unfold relocateFrom
    simp only [ih]
    rfl

theorem program_permuted {o : Object} {bytes' : List U8} {name sec : String} (hperm : o.Permuted bytes' name sec)
    {answer : String → Option ℤ} {image : ProgramImage} (h : o.program name sec (fun _ => answer) = .ok image) :
    ({ o with bytes := bytes' } : Object).program name sec (fun _ => answer) = .ok image := by
  obtain ⟨target, i, relocations, s, hsec, hin, hrel, hin', hs, hcount, himage⟩ := program_ok.mp h
  have hlen := length_window hin'.1
  have hlen' : (window bytes' relocations.offset relocations.size).length = relocations.size :=
    length_window (by rw [hperm.length]; exact hin'.1)
  obtain ⟨bs, hbound, hexact⟩ := relocateFrom_exact (by omega) entry_inside (exact_nil _) rfl hs
  rw [entries_map] at hbound
  rw [List.append_nil] at hexact
  obtain ⟨bs', hbs, hbound'⟩ := Bound.perm ((hperm.entries target i relocations hsec hrel).map entryOf) hbound []
  have hexact' := hexact.perm (List.reverse_perm bs)
  rw [← entries_map] at hbound'
  have hnodup : (bs'.map Prod.fst ++ []).Nodup := by
    rw [List.append_nil, ← (hbs.map Prod.fst).nodup_iff]
    exact hexact'.nodup
  obtain ⟨s', hs', hout⟩ := relocateFrom_total (s := ⟨window o.bytes target.offset target.size, [], []⟩) (by omega)
    entry_inside (exact_nil _) rfl hbound' (fun b hb => hexact'.target b (hbs.mem_iff.mpr hb)) hnodup
  have hsame : s'.instructions = s.instructions := by
    rw [List.append_nil] at hout
    exact hout.unique hexact' ((List.reverse_perm bs').trans hbs.symm)
  rw [← hperm.program target i hsec, ← relocateFrom_bytes o bytes'] at hs'
  refine program_ok.mpr ⟨target, i, relocations, s', hsec, ?_, hrel, ?_, hs', ?_, ?_⟩
  · show _ ≤ bytes'.length ∧ _
    rw [hperm.length]
    exact hin
  · show _ ≤ bytes'.length ∧ _
    rw [hperm.length]
    exact hin'
  · rw [hsame]
    exact hcount
  · rw [hsame]
    exact himage

/-- **Relocation is exact**: the program is its section with every entry's target, and nothing else, bound to the
descriptor of its symbol; the targets are LD_IMM64 instructions of the section, apart from each other.  A resolver
that answers by name gives the same for every order of the entries. -/
theorem relocation_exact (o : Object) (name sec : String) :
    (∀ resolve image, o.program name sec resolve = .ok image →
      ∃ target i relocations bound, o.programSection name sec = .ok (target, i) ∧
        o.programRelocations name i = .ok relocations ∧
        Bound o resolve [] ((chunks (window o.bytes relocations.offset relocations.size)).map entryOf) bound ∧
        Exact (window o.bytes target.offset target.size) image.instructions bound ∧
        ∀ b ∈ bound, b.1 + 16 ≤ target.size ∧ Holds image.instructions b) ∧
    ∀ bytes', o.Permuted bytes' name sec → ∀ (answer : String → Option ℤ) image,
      o.program name sec (fun _ => answer) = .ok image ↔
        ({ o with bytes := bytes' } : Object).program name sec (fun _ => answer) = .ok image := by
  constructor
  · intro resolve image h
    obtain ⟨target, i, relocations, s, hsec, hin, hrel, hin', hs, hcount, rfl⟩ := program_ok.mp h
    have hlen := length_window hin'.1
    obtain ⟨bs, hbound, hexact⟩ := relocateFrom_exact (by omega) entry_inside (exact_nil _) rfl hs
    rw [entries_map] at hbound
    rw [List.append_nil] at hexact
    have hexact' := hexact.perm (List.reverse_perm bs)
    refine ⟨target, i, relocations, bs, hsec, hrel, hbound, hexact', ?_⟩
    intro b hb
    have hinside := (hexact'.target b hb).inside
    rw [length_window hin.1] at hinside
    exact ⟨hinside, hexact'.holds hb⟩
  · intro bytes' hperm answer image
    exact ⟨program_permuted hperm, program_permuted hperm.symm⟩

/-! ### A file -/

def textBytes (text : String) : List U8 := text.toList.map fun c => BitVec.ofNat 8 c.toNat

def sampleHeader (shoff : ℕ) : List U8 :=
  [0x7f, 0x45, 0x4c, 0x46, 2, 1, 1] ++ List.replicate 9 0 ++ leBytes 2 etRel ++ leBytes 2 emBpf ++ leBytes 4 1 ++
    leBytes 16 0 ++ leBytes 8 shoff ++ leBytes 4 0 ++ leBytes 2 64 ++ leBytes 4 0 ++ leBytes 2 64 ++ leBytes 2 8 ++
    leBytes 2 1

def sampleSectionHeader (name : ℕ) (s : Section) : List U8 :=
  leBytes 4 name ++ leBytes 4 s.sectionType ++ leBytes 8 s.flags ++ leBytes 8 0 ++ leBytes 8 s.offset ++
    leBytes 8 s.size ++ leBytes 4 s.link ++ leBytes 4 s.info ++ leBytes 8 8 ++ leBytes 8 s.entsize

def sampleSections : List Section :=
  [⟨"", 0, 0, 0, 0, 0, 0, 0⟩, ⟨".shstrtab", shtStrtab, 0, 64, 52, 0, 0, 0⟩,
    ⟨"tc", shtProgbits, shfExecinstr, 120, 32, 0, 0, 0⟩, ⟨".reltc", shtRel, 0, 152, 32, 6, 2, relSize⟩,
    ⟨".maps", shtProgbits, 0, 184, 8, 0, 0, 0⟩, ⟨".strtab", shtStrtab, 0, 192, 19, 0, 0, 0⟩,
    ⟨".symtab", shtSymtab, 0, 216, 72, 5, 0, symbolSize⟩, ⟨"flux_abi", shtProgbits, 0, 288, 4, 0, 0, 0⟩]

def sampleSymbols : List Symbol := [⟨"", 0, 0, 0, 0⟩, ⟨"flx_test", 0x12, 2, 0, 32⟩, ⟨"counters", 0x11, 4, 0, 8⟩]

/-- The file of the tests of `object.rs`, with two instructions that load a map and the entries at `offsets`. -/
def sampleFile (offsets : List ℕ) : List U8 :=
  sampleHeader 296 ++ textBytes "\x00.shstrtab\x00tc\x00.reltc\x00.maps\x00.strtab\x00.symtab\x00flux_abi\x00" ++
    List.replicate 4 0 ++ (bpfLdImm64 :: List.replicate 15 0) ++ (bpfLdImm64 :: List.replicate 15 0) ++
    offsets.flatMap (fun offset => leBytes 8 offset ++ leBytes 8 (2 * 2 ^ 32 + rBpf6464)) ++ List.replicate 8 0 ++
    textBytes "\x00flx_test\x00counters\x00" ++ List.replicate 5 0 ++
    List.replicate 24 0 ++ (leBytes 4 1 ++ [0x12, 0] ++ leBytes 2 2 ++ leBytes 8 0 ++ leBytes 8 32) ++
    (leBytes 4 10 ++ [0x11, 0] ++ leBytes 2 4 ++ leBytes 8 0 ++ leBytes 8 8) ++ leBytes 8 0xF10C0903 ++
    (List.zipWith sampleSectionHeader [0, 1, 11, 14, 21, 27, 35, 43] sampleSections).flatten

def sampleObject (offsets : List ℕ) : Object :=
  ⟨sampleFile offsets, sampleSections, sampleSymbols, 6, 0xF10C0903⟩

/-- The program with two descriptors. -/
def sampleImage (first second : ℤ) : ProgramImage :=
  ⟨([bpfLdImm64, 0x10, 0, 0] ++ fdBytes first ++ List.replicate 8 0) ++
    ([bpfLdImm64, 0x10, 0, 0] ++ fdBytes second ++ List.replicate 8 0), 4⟩

theorem parse_sample : parse (sampleFile [0, 16]) = .ok (sampleObject [0, 16]) := by decide +kernel

theorem relocation_exact_sample :
    ∃ target i relocations bound, (sampleObject [0, 16]).programSection "flx_test" "tc" = .ok (target, i) ∧
      (sampleObject [0, 16]).programRelocations "flx_test" i = .ok relocations ∧
      Bound (sampleObject [0, 16]) (fun _ _ => some 42) []
        ((chunks (window (sampleFile [0, 16]) relocations.offset relocations.size)).map entryOf) bound ∧
      Exact (window (sampleFile [0, 16]) target.offset target.size) (sampleImage 42 42).instructions bound ∧
      ∀ b ∈ bound, b.1 + 16 ≤ target.size ∧ Holds (sampleImage 42 42).instructions b :=
  (relocation_exact (sampleObject [0, 16]) "flx_test" "tc").1 (fun _ _ => some 42) (sampleImage 42 42)
    (by decide +kernel)

theorem sample_permuted : (sampleObject [0, 16]).Permuted (sampleFile [16, 0]) "flx_test" "tc" := by
  have hsec : (sampleObject [0, 16]).programSection "flx_test" "tc" =
      .ok (⟨"tc", shtProgbits, shfExecinstr, 120, 32, 0, 0, 0⟩, 2) := by decide +kernel
  have hrel : (sampleObject [0, 16]).programRelocations "flx_test" 2 =
      .ok ⟨".reltc", shtRel, 0, 152, 32, 6, 2, relSize⟩ := by decide +kernel
  refine ⟨by decide +kernel, ?_, ?_⟩
  · intro target i h
    rw [hsec] at h
    obtain ⟨rfl, rfl⟩ := Prod.mk.inj (Except.ok.inj h)
    decide +kernel
  · intro target i relocations h h'
    rw [hsec] at h
    obtain ⟨rfl, rfl⟩ := Prod.mk.inj (Except.ok.inj h)
    rw [hrel] at h'
    obtain rfl := Except.ok.inj h'
    decide +kernel

/-- A resolver with a memory: the descriptor is the number of the call. -/
theorem resolver_memory_shows :
    ¬ ∀ bytes o bytes' name sec resolve image, parse bytes = .ok o → o.Permuted bytes' name sec →
      (o.program name sec resolve = .ok image ↔
        ({ o with bytes := bytes' } : Object).program name sec resolve = .ok image) := by
  intro h
  have hiff := h (sampleFile [0, 16]) (sampleObject [0, 16]) (sampleFile [16, 0]) "flx_test" "tc"
    (fun asked _ => some asked.length) (sampleImage 0 1) parse_sample sample_permuted
  have hprogram : (sampleObject [0, 16]).program "flx_test" "tc" (fun asked _ => some asked.length) =
      .ok (sampleImage 0 1) := by decide +kernel
  have hother : (sampleObject [16, 0]).program "flx_test" "tc" (fun asked _ => some asked.length) =
      .ok (sampleImage 1 0) := by decide +kernel
  have hsame := hother.symm.trans (hiff.mp hprogram)
  exact absurd (Except.ok.inj hsame) (by decide +kernel)

end Object

end FluxRs.Bpf.Elf
