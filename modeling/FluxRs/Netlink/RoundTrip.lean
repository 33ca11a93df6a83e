import FluxRs.Netlink.Wire

/-!
# FluxRs.Netlink.RoundTrip — what the builder writes, the readers read back

The encoder aligns absolute positions and the decoder relative ones; both agree because every record that
is written ends on a multiple of four.
-/

namespace FluxRs.Netlink

open FluxRs.Lib Checked MessageBuilder

/-- A tree of attributes. -/
inductive Tree where
  | leaf (kind : U16) (payload : List U8)
  | nest (kind : U16) (children : List Tree)

namespace Tree

variable (e : Endian)

/-! ### Writing a tree through the builder, and the bytes it comes to -/

mutual

def write : Tree → MessageBuilder → Option MessageBuilder
  | leaf kind payload, b => some (b.attr e kind payload)
  | nest kind children, b => do
    let b ← writeAll children (b.beginNested e kind)
    b.endNested e

def writeAll : List Tree → MessageBuilder → Option MessageBuilder
  | [], b => some b
  | t :: ts, b => do
    let b ← write t b
    writeAll ts b

end

/-- One attribute with its padding. -/
def record (raw : U16) (payload : List U8) : List U8 :=
  pad (e.bytes 2 (4 + payload.length) ++ e.ofWord raw ++ payload)

mutual

def encode : Tree → List U8
  | leaf kind payload => record e kind payload
  | nest kind children => record e (kind ||| nlaFNested) (encodeAll children)

def encodeAll : List Tree → List U8
  | [] => []
  | t :: ts => encode t ++ encodeAll ts

end

mutual

/-- Kinds below `2 ^ 14`, and attributes whose length fits into 16 bits. -/
def Wf : Tree → Prop
  | leaf kind payload => kind.toNat < 2 ^ 14 ∧ 4 + payload.length < 2 ^ 16
  | nest kind children => kind.toNat < 2 ^ 14 ∧ 4 + (encodeAll e children).length < 2 ^ 16 ∧ WfAll children

def WfAll : List Tree → Prop
  | [] => True
  | t :: ts => Wf t ∧ WfAll ts

end

mutual

/-- What an attribute says is the tree, and so do the attributes in its payload. -/
def Reads : Tree → Attr → Prop
  | leaf kind payload, attr => attr = ⟨kind, false, payload⟩
  | nest kind children, attr =>
    attr.kind = kind ∧ attr.nested = true ∧ ∃ inner, attrs e attr.payload = .ok inner ∧ ReadsAll children inner

def ReadsAll : List Tree → List Attr → Prop
  | [], out => out = []
  | _ :: _, [] => False
  | t :: ts, attr :: out => Reads t attr ∧ ReadsAll ts out

end

end Tree

/-! ### Alignment -/

theorem align4_of_dvd {n : ℕ} (h : n % 4 = 0) : align4 n = n := by
  unfold align4
  omega

theorem align4_mod (n : ℕ) : align4 n % 4 = 0 := by
  unfold align4
  omega

theorem le_align4 (n : ℕ) : n ≤ align4 n := by
  unfold align4
  omega

theorem align4_add {n : ℕ} (h : n % 4 = 0) (m : ℕ) : align4 (n + m) = n + align4 m := by
  unfold align4
  omega

namespace MessageBuilder

theorem length_pad (l : List U8) : (pad l).length = align4 l.length := by
  have h := le_align4 l.length
  rw [pad, List.length_append, List.length_replicate]
  omega

theorem pad_append {l : List U8} (h : l.length % 4 = 0) (m : List U8) : pad (l ++ m) = l ++ pad m := by
  have hpad : align4 (l.length + m.length) - (l.length + m.length) = align4 m.length - m.length := by
    rw [align4_add h]
    omega
  rw [pad, pad, List.length_append, hpad, List.append_assoc]

end MessageBuilder

namespace Tree

variable (e : Endian)

theorem length_record (raw : U16) (payload : List U8) :
    (record e raw payload).length = align4 (4 + payload.length) := by
  rw [record, length_pad, List.length_append, List.length_append, Endian.length_bytes, Endian.length_ofWord]

mutual

theorem encode_mod : (t : Tree) → (encode e t).length % 4 = 0
  | leaf kind payload => by
    rw [encode, length_record]
    exact align4_mod _
  | nest kind children => by
    rw [encode, length_record]
    exact align4_mod _

theorem encodeAll_mod : (ts : List Tree) → (encodeAll e ts).length % 4 = 0
  | [] => rfl
  | t :: ts => by
    have ht := encode_mod t
    have hts := encodeAll_mod ts
    rw [encodeAll, List.length_append]
    omega

end

/-! ### Writing appends the encoding -/

mutual

theorem write_eq : (t : Tree) → (b : MessageBuilder) → b.bytes.length % 4 = 0 →
    write e t b = some { b with bytes := b.bytes ++ encode e t }
  | leaf kind payload, b => by
    intro h
    rw [write, attr, encode, record, ← pad_append h]
    simp only [List.append_assoc]
  | nest kind children, b => by
    intro h
    have hopen : (b.beginNested e kind).bytes.length = b.bytes.length + 4 := by
      rw [beginNested]
      simp only [List.length_append, Endian.length_bytes, Endian.length_ofWord]
    have hinner := writeAll_eq children (b.beginNested e kind) (by omega)
    rw [write, hinner, Option.bind_eq_bind, Option.bind_some]
    -- The two length bytes that were left open are filled in.
    have htake : (b.bytes ++ e.bytes 2 0 ++ e.ofWord (kind ||| nlaFNested) ++ encodeAll e children).take
        b.bytes.length = b.bytes := by
      rw [List.append_assoc, List.append_assoc, List.take_left]
    have hdrop : (b.bytes ++ e.bytes 2 0 ++ e.ofWord (kind ||| nlaFNested) ++ encodeAll e children).drop
        (b.bytes.length + 2) = e.ofWord (kind ||| nlaFNested) ++ encodeAll e children := by
      have hlen : b.bytes.length + 2 = (b.bytes ++ e.bytes 2 0).length := by
        rw [List.length_append, Endian.length_bytes]
      rw [List.append_assoc, hlen, List.drop_left]
    have hlen : (b.bytes ++ e.bytes 2 0 ++ e.ofWord (kind ||| nlaFNested) ++ encodeAll e children).length
        - b.bytes.length = 4 + (encodeAll e children).length := by
      simp only [List.length_append, Endian.length_bytes, Endian.length_ofWord]
      omega
    simp only [beginNested, endNested]
    rw [htake, hdrop, hlen, encode, record, ← pad_append h]
    simp only [List.append_assoc]

theorem writeAll_eq : (ts : List Tree) → (b : MessageBuilder) → b.bytes.length % 4 = 0 →
    writeAll e ts b = some { b with bytes := b.bytes ++ encodeAll e ts }
  | [], b => by
    intro h
    rw [writeAll, encodeAll, List.append_nil]
  | t :: ts, b => by
    intro h
    have ht := encode_mod e t
    rw [writeAll, write_eq t b h, Option.bind_eq_bind, Option.bind_some,
      writeAll_eq ts _ (by rw [List.length_append]; omega), encodeAll, List.append_assoc]

end

/-! ### The kinds -/

theorem kind_mask {kind : U16} (h : kind.toNat < 2 ^ 14) : kind &&& nlaTypeMask = kind := by
  apply BitVec.eq_of_toNat_eq
  have hmask : nlaTypeMask.toNat = 2 ^ 14 - 1 := rfl
  rw [BitVec.toNat_and, hmask, Nat.and_two_pow_sub_one_eq_mod, Nat.mod_eq_of_lt h]

theorem kind_plain {kind : U16} (h : kind.toNat < 2 ^ 14) : kind &&& nlaFNested = 0 := by
  have hbits : nlaTypeMask &&& nlaFNested = 0#16 := rfl
  rw [← kind_mask h, BitVec.and_assoc, hbits, BitVec.and_zero]
  rfl

theorem kind_nested_mask {kind : U16} (h : kind.toNat < 2 ^ 14) :
    (kind ||| nlaFNested) &&& nlaTypeMask = kind := by
  have hbits : nlaFNested &&& nlaTypeMask = 0#16 := rfl
  have hor : (kind ||| nlaFNested) &&& nlaTypeMask = kind &&& nlaTypeMask ||| nlaFNested &&& nlaTypeMask := by
    ext i hi
    simp only [BitVec.getElem_and, BitVec.getElem_or, Bool.and_or_distrib_right]
  rw [hor, hbits, BitVec.or_zero, kind_mask h]

theorem kind_nested (kind : U16) : (kind ||| nlaFNested) &&& nlaFNested = nlaFNested := by
  ext i hi
  simp only [BitVec.getElem_and, BitVec.getElem_or]
  cases kind[i] <;> cases nlaFNested[i] <;> rfl

/-! ### Reading one record -/

theorem readAttr_record {raw : U16} {payload rest : List U8} :
    readAttr e (record e raw payload ++ rest) (4 + payload.length) =
      .ok ⟨raw &&& nlaTypeMask, raw &&& nlaFNested != 0, payload⟩ := by
  obtain ⟨padding, hpadding⟩ : ∃ padding, record e raw payload =
      e.bytes 2 (4 + payload.length) ++ e.ofWord raw ++ payload ++ padding := ⟨_, rfl⟩
  have hlen2 : (e.bytes 2 (4 + payload.length)).length = 2 := e.length_bytes _ _
  have hlen4 : (e.bytes 2 (4 + payload.length) ++ e.ofWord raw).length = 4 := by
    rw [List.length_append, Endian.length_bytes, Endian.length_ofWord]
  rw [hpadding]
  have hlen : (e.bytes 2 (4 + payload.length) ++ e.ofWord raw ++ payload ++ padding ++ rest).length
      = 4 + payload.length + padding.length + rest.length := by
    rw [List.length_append, List.length_append, List.length_append, hlen4]
  have hraw : ((e.bytes 2 (4 + payload.length) ++ e.ofWord raw ++ payload ++ padding ++ rest).take 4).drop 2
      = e.ofWord raw := by
    rw [List.append_assoc, List.append_assoc, List.take_left' hlen4, List.drop_left' hlen2]
  have hpayload : ((e.bytes 2 (4 + payload.length) ++ e.ofWord raw ++ payload ++ padding ++ rest).take
      (4 + payload.length)).drop 4 = payload := by
    rw [List.append_assoc, List.take_left' (by rw [List.length_append, hlen4]), List.drop_left' hlen4]
  rw [readAttr, slice_eq (by omega) (by omega), slice_eq (by omega) (by omega), hraw, hpayload]
  show Except.ok _ = _
  rw [Endian.word16_ofWord]

theorem attrs_record {raw : U16} {payload : List U8} (hlen : 4 + payload.length < 2 ^ 16) (rest : List U8) :
    attrs e (record e raw payload ++ rest) =
      (attrs e rest).map (⟨raw &&& nlaTypeMask, raw &&& nlaFNested != 0, payload⟩ :: ·) := by
  have hrecord := length_record e raw payload
  have hle := le_align4 (4 + payload.length)
  have hattrLen : attrLen e (record e raw payload ++ rest) = 4 + payload.length := by
    rw [attrLen, record, pad, List.append_assoc, List.append_assoc, List.append_assoc,
      List.take_left' (e.length_bytes _ _), e.nat_bytes_of_lt (by omega)]
  have hne : record e raw payload ++ rest ≠ [] := by
    intro h
    have hzero := congrArg List.length h
    rw [List.length_append, hrecord, List.length_nil] at hzero
    omega
  rw [attrs, if_neg hne, hattrLen, List.length_append, hrecord, if_neg (by omega), if_neg (by omega),
    if_neg (by omega), readAttr_record, List.drop_left' hrecord]
  cases attrs e rest with
  | error fault => rfl
  | ok out => rfl

mutual

theorem attrs_encode : (t : Tree) → t.Wf e → ∃ attr, t.Reads e attr ∧
    ∀ rest, attrs e (encode e t ++ rest) = (attrs e rest).map (attr :: ·)
  | leaf kind payload => by
    intro h
    rw [Wf] at h
    refine ⟨⟨kind, false, payload⟩, rfl, fun rest => ?_⟩
    rw [encode, attrs_record e h.2 rest, kind_mask h.1, kind_plain h.1]
    rfl
  | nest kind children => by
    intro h
    rw [Wf] at h
    obtain ⟨inner, hreads, hinner⟩ := attrs_encodeAll children h.2.2
    refine ⟨⟨kind, true, encodeAll e children⟩, ⟨rfl, rfl, inner, hinner, hreads⟩, fun rest => ?_⟩
    rw [encode, attrs_record e h.2.1 rest, kind_nested_mask h.1, kind_nested]
    rfl

theorem attrs_encodeAll : (ts : List Tree) → WfAll e ts → ∃ out, ReadsAll e ts out ∧
    attrs e (encodeAll e ts) = .ok out
  | [] => by
    intro h
    refine ⟨[], rfl, ?_⟩
    rw [encodeAll, attrs, if_pos rfl]
  | t :: ts => by
    intro h
    rw [WfAll] at h
    obtain ⟨attr, hattr, hstep⟩ := attrs_encode t h.1
    obtain ⟨out, hout, hrest⟩ := attrs_encodeAll ts h.2
    refine ⟨attr :: out, ⟨hattr, hout⟩, ?_⟩
    rw [encodeAll, hstep, hrest]
    rfl

end

end Tree

/-! ### Whole messages -/

/-- What is given to the builder for one message. -/
structure Request where
  kind : U16
  flags : U16
  seq : U32
  payload : List U8
  trees : List Tree

namespace Request

variable (e : Endian)

def finished (r : Request) : Option (List U8) := do
  let b ← Tree.writeAll e r.trees (MessageBuilder.new e r.kind r.flags r.seq r.payload)
  b.finish e

def Aligned (r : Request) : Prop := r.payload.length % 4 = 0

/-- The message that `bytes` carry for the request. -/
def message (r : Request) (bytes : List U8) : RawMessage :=
  ⟨r.kind, r.flags, r.seq, 0, bytes.drop headerLen⟩

/-- The fields of the header behind its length. -/
def header (r : Request) : List U8 := e.ofWord r.kind ++ e.ofWord r.flags ++ e.ofWord r.seq ++ e.bytes 4 0

def body (r : Request) : List U8 := r.payload ++ Tree.encodeAll e r.trees

variable {e} {r : Request}

theorem length_header : (r.header e).length = 12 := by
  simp only [header, List.length_append, Endian.length_ofWord, Endian.length_bytes]

theorem finished_eq (h : r.Aligned) :
    r.finished e = some (e.bytes 4 (16 + (r.body e).length) ++ (r.header e ++ r.body e)) := by
  have hnew : (MessageBuilder.new e r.kind r.flags r.seq r.payload).bytes =
      e.bytes 4 0 ++ (r.header e ++ r.payload) := by
    simp only [MessageBuilder.new, header, List.append_assoc]
  have hlen : (MessageBuilder.new e r.kind r.flags r.seq r.payload).bytes.length = 16 + r.payload.length := by
    rw [hnew, List.length_append, List.length_append, length_header, Endian.length_bytes]
    omega
  have hmod : (MessageBuilder.new e r.kind r.flags r.seq r.payload).bytes.length % 4 = 0 := by
    unfold Aligned at h
    omega
  rw [finished, Tree.writeAll_eq e r.trees _ hmod, Option.bind_eq_bind, Option.bind_some]
  simp only [MessageBuilder.finish, MessageBuilder.new, if_true]
  change some (e.bytes 4 ((MessageBuilder.new e r.kind r.flags r.seq r.payload).bytes ++ _).length ++
    ((MessageBuilder.new e r.kind r.flags r.seq r.payload).bytes ++ _).drop 4) = _
  rw [List.length_append, hlen, hnew, List.append_assoc, List.drop_left' (e.length_bytes _ _), body,
    List.append_assoc, List.length_append, Nat.add_assoc]

/-- The bytes of a finished message: its length, its header and its body, all aligned. -/
theorem finished_some {bytes : List U8} (h : r.Aligned) (hb : r.finished e = some bytes) :
    bytes = e.bytes 4 bytes.length ++ (r.header e ++ r.body e) ∧ bytes.length = 16 + (r.body e).length ∧
      bytes.length % 4 = 0 := by
  rw [finished_eq h, Option.some_inj] at hb
  have hlen : bytes.length = 16 + (r.body e).length := by
    rw [← hb, List.length_append, List.length_append, Endian.length_bytes, length_header]
    omega
  refine ⟨by rw [hlen, hb], hlen, ?_⟩
  have htrees := Tree.encodeAll_mod e r.trees
  unfold Aligned at h
  rw [hlen, body, List.length_append]
  omega

theorem drop_header {bytes : List U8} (h : r.Aligned) (hb : r.finished e = some bytes) :
    bytes.drop 16 = r.body e := by
  obtain ⟨heq, -, -⟩ := finished_some h hb
  rw [heq, ← List.append_assoc, List.drop_left' ?_]
  rw [List.length_append, Endian.length_bytes, length_header]

theorem take_header {bytes : List U8} (h : r.Aligned) (hb : r.finished e = some bytes) :
    bytes.take 16 = e.bytes 4 bytes.length ++ r.header e := by
  obtain ⟨heq, -, -⟩ := finished_some h hb
  conv_lhs => rw [heq]
  rw [← List.append_assoc, List.take_left' ?_]
  rw [List.length_append, Endian.length_bytes, length_header]

/-! ### Reading one message, and all of them -/

/-- The header and the payload, wherever the message lies in the datagram. -/
theorem readMessage_finished {bytes : List U8} (h : r.Aligned) (hb : r.finished e = some bytes)
    (pre rest : List U8) :
    readMessage e (pre ++ (bytes ++ rest)) pre.length bytes.length = .ok (r.message bytes) := by
  obtain ⟨-, hlen, -⟩ := finished_some h hb
  have htotal : (pre ++ (bytes ++ rest)).length = pre.length + (bytes.length + rest.length) := by
    rw [List.length_append, List.length_append]
  have hheader : ((pre ++ (bytes ++ rest)).take (pre.length + 16)).drop pre.length =
      e.bytes 4 bytes.length ++ r.header e := by
    rw [List.take_length_add_append, List.drop_left, List.take_append_of_le_length (by omega), take_header h hb]
  have hpayload : ((pre ++ (bytes ++ rest)).take (pre.length + bytes.length)).drop (pre.length + 16) =
      bytes.drop 16 := by
    rw [List.take_length_add_append, List.take_left, List.drop_length_add_append]
  rw [readMessage, headerLen, slice_eq (by omega) (by omega), slice_eq (by omega) (by omega), hheader, hpayload]
  -- The fields lie one behind the other.
  have hkind : ((e.bytes 4 bytes.length ++ r.header e).drop 4).take 2 = e.ofWord r.kind := by
    rw [List.drop_left' (e.length_bytes _ _), header, List.append_assoc, List.append_assoc, e.take_ofWord16]
  have hflags : ((e.bytes 4 bytes.length ++ r.header e).drop 6).take 2 = e.ofWord r.flags := by
    have h6 : (e.bytes 4 bytes.length ++ e.ofWord r.kind).length = 6 := by
      rw [List.length_append, e.length_bytes, e.length_ofWord]
    rw [header, List.append_assoc, List.append_assoc, ← List.append_assoc, List.drop_left' h6,
      e.take_ofWord16]
  have hseq : ((e.bytes 4 bytes.length ++ r.header e).drop 8).take 4 = e.ofWord r.seq := by
    have h8 : (e.bytes 4 bytes.length ++ (e.ofWord r.kind ++ e.ofWord r.flags)).length = 8 := by
      rw [List.length_append, List.length_append, e.length_bytes, e.length_ofWord, e.length_ofWord]
    rw [header, List.append_assoc (_ ++ _), ← List.append_assoc, List.drop_left' h8, e.take_ofWord32]
  have hpid : ((e.bytes 4 bytes.length ++ r.header e).drop 12).take 4 = e.bytes 4 0 := by
    have h12 : (e.bytes 4 bytes.length ++ (e.ofWord r.kind ++ e.ofWord r.flags ++ e.ofWord r.seq)).length = 12 := by
      simp only [List.length_append, e.length_bytes, e.length_ofWord]
    rw [header, ← List.append_assoc, List.drop_left' h12, List.take_of_length_le]
    rw [e.length_bytes]
  show Except.ok (RawMessage.mk _ _ _ _ _) = _
  rw [hkind, hflags, hseq, hpid, e.word16_ofWord, e.word16_ofWord, e.word32_ofWord, Endian.word,
    e.nat_bytes_of_lt (by omega)]
  rfl

theorem parseFrom_finished {bytes : List U8} (h : r.Aligned) (hb : r.finished e = some bytes)
    (hword : bytes.length < 2 ^ 32) (pre rest : List U8) (hfits : (pre ++ (bytes ++ rest)).length < 2 ^ 63) :
    parseFrom e (pre ++ (bytes ++ rest)) pre.length =
      (parseFrom e (pre ++ (bytes ++ rest)) (pre.length + bytes.length)).map (r.message bytes :: ·) := by
  obtain ⟨heq, hlen, hmod⟩ := finished_some h hb
  have htotal : (pre ++ (bytes ++ rest)).length = pre.length + (bytes.length + rest.length) := by
    rw [List.length_append, List.length_append]
  have hmessage : messageLen e (pre ++ (bytes ++ rest)) pre.length = bytes.length := by
    have htake : (bytes ++ rest).take 4 = e.bytes 4 bytes.length := by
      rw [List.take_append_of_le_length (by omega)]
      conv_lhs => rw [heq]
      rw [List.take_left' (e.length_bytes _ _)]
    rw [messageLen, List.drop_left, htake, e.nat_bytes_of_lt (by omega)]
  rw [parseFrom, hmessage, align4_of_dvd hmod, headerLen, if_neg (by omega), if_neg (by omega), if_neg (by omega),
    if_neg (by omega), if_neg (by omega), if_neg (by omega), if_neg (by omega), readMessage_finished h hb]
  cases parseFrom e (pre ++ (bytes ++ rest)) (pre.length + bytes.length) with
  | error fault => rfl
  | ok out => rfl

theorem parseFrom_all {rs : List Request} {parts : List (List U8)}
    (hparts : List.Forall₂ (fun r part => r.Aligned ∧ r.finished e = some part ∧ part.length < 2 ^ 32) rs parts)
    (pre : List U8) (hfits : (pre ++ parts.flatten).length < 2 ^ 63) :
    parseFrom e (pre ++ parts.flatten) pre.length = .ok (List.zipWith message rs parts) := by
  induction hparts generalizing pre with
  | nil => rw [parseFrom, List.flatten_nil, List.append_nil, if_pos (Nat.le_refl _), List.zipWith_nil_left]
  | @cons r part rs parts hpart _ ih =>
    obtain ⟨haligned, hfinished, hword⟩ := hpart
    rw [List.flatten_cons] at hfits ⊢
    have hrest := ih (pre ++ part) (by rwa [List.append_assoc])
    rw [List.append_assoc, List.length_append] at hrest
    rw [parseFrom_finished haligned hfinished hword pre parts.flatten hfits, hrest]
    rfl

end Request

/-! ### Arbitrary input -/

section Safety

variable (e : Endian)

theorem safe_readAttr {bytes : List U8} {len : ℕ} (h4 : 4 ≤ len) (hlen : len ≤ bytes.length) :
    Safe (readAttr e bytes len) := by
  refine Safe.bind (safe_slice (by omega) (by omega)) fun raw _ => ?_
  exact Safe.bind (safe_slice h4 hlen) fun payload _ => safe_ok _

theorem safe_attrs (bytes : List U8) : Safe (attrs e bytes) := by
  fun_induction attrs e bytes with
  | case1 => exact safe_ok _
  | case2 => exact safe_fail _
  | case3 => exact safe_fail _
  | case4 bytes _ _ hlen _ _ => exact (safe_readAttr e (by omega) (by omega)).map
  | case5 => exact safe_fail _
  | case6 bytes _ _ hlen _ ih =>
    refine Safe.bind (safe_readAttr e (by omega) (by omega)) fun attr _ => ?_
    exact Safe.bind ih fun rest _ => safe_ok _

theorem safe_readMessage {bytes : List U8} {offset len : ℕ} (h16 : 16 ≤ len) (hlen : offset + len ≤ bytes.length) :
    Safe (readMessage e bytes offset len) := by
  unfold readMessage headerLen
  refine Safe.bind (safe_slice (by omega) (by omega)) fun header _ => ?_
  exact Safe.bind (safe_slice (by omega) hlen) fun payload _ => safe_ok _

theorem messageLen_lt (bytes : List U8) (offset : ℕ) : messageLen e bytes offset < 2 ^ 32 := by
  have h := e.nat_lt ((bytes.drop offset).take 4)
  have hle : 256 ^ ((bytes.drop offset).take 4).length ≤ 256 ^ 4 :=
    Nat.pow_le_pow_right (by omega) (by rw [List.length_take]; omega)
  unfold messageLen
  omega

/-- A slice is shorter than `2 ^ 63` bytes, so that no sum overflows. -/
theorem safe_parseFrom {bytes : List U8} (h : bytes.length < 2 ^ 63) (offset : ℕ) :
    Safe (parseFrom e bytes offset) := by
  fun_induction parseFrom e bytes offset with
  | case1 => exact safe_ok _
  | case2 => exact safe_fail _
  | case3 => exact safe_fail _
  | case4 offset _ _ _ hover =>
    have hlt := messageLen_lt e bytes offset
    omega
  | case5 => exact safe_fail _
  | case6 offset _ _ _ _ _ hover =>
    unfold align4 at hover
    omega
  | case7 offset _ _ h16 _ hlen _ _ _ =>
    unfold headerLen at h16
    exact (safe_readMessage e (by omega) (by omega)).map
  | case8 => exact safe_fail _
  | case9 offset _ _ h16 _ hlen _ _ ih =>
    unfold headerLen at h16
    refine Safe.bind (safe_readMessage e (by omega) (by omega)) fun message _ => ?_
    exact Safe.bind ih fun rest _ => safe_ok _

end Safety

/-! ### The round trip -/

/-- **The encoding round trip**: the attributes of a finished message are the tree that was written, at every
depth; a datagram of finished messages, each shorter than `2 ^ 32` bytes, is read back message by message; and
no input makes a reader leave it. -/
theorem wire_round_trip (e : Endian) :
    (∀ r : Request, r.Aligned → Tree.WfAll e r.trees → ∃ bytes out, r.finished e = some bytes ∧
      attrs e (bytes.drop (headerLen + r.payload.length)) = .ok out ∧ Tree.ReadsAll e r.trees out) ∧
    (∀ (rs : List Request) (parts : List (List U8)),
      List.Forall₂ (fun r part => r.Aligned ∧ r.finished e = some part ∧ part.length < 2 ^ 32) rs parts →
      parts.flatten.length < 2 ^ 63 →
      parseDatagram e parts.flatten = .ok (List.zipWith Request.message rs parts)) ∧
    (∀ bytes, Safe (attrs e bytes)) ∧
    ∀ bytes, bytes.length < 2 ^ 63 → Safe (parseDatagram e bytes) := by
  refine ⟨?_, ?_, safe_attrs e, fun bytes h => safe_parseFrom e h 0⟩
  · intro r haligned hwf
    obtain ⟨out, hreads, hout⟩ := Tree.attrs_encodeAll e r.trees hwf
    have hfinished := Request.finished_eq (e := e) haligned
    refine ⟨_, out, hfinished, ?_, hreads⟩
    rw [headerLen, ← List.drop_drop, Request.drop_header haligned hfinished, Request.body, List.drop_left, hout]
  · intro rs parts hparts hfits
    exact Request.parseFrom_all hparts [] hfits

/-- A link with a name and a kind, as the veth pair is created. -/
def linkRequest : Request :=
  ⟨16, 1, 7, List.replicate 16 0, [.leaf 3 [102, 108, 120, 0], .nest 18 [.leaf 1 [118, 0]]]⟩

theorem wire_round_trip_link : ∃ bytes out, linkRequest.finished .little = some bytes ∧
    attrs .little (bytes.drop 32) = .ok out ∧ Tree.ReadsAll .little linkRequest.trees out ∧
    parseDatagram .little [bytes, bytes].flatten =
      .ok [linkRequest.message bytes, linkRequest.message bytes] := by
  have hround := wire_round_trip .little
  have hwf : Tree.WfAll .little linkRequest.trees :=
    ⟨⟨by decide, by decide⟩, ⟨by decide, by decide, ⟨by decide, by decide⟩, trivial⟩, trivial⟩
  obtain ⟨bytes, out, hfinished, hout, hreads⟩ := hround.1 linkRequest rfl hwf
  have hlen : bytes.length = 52 := by
    obtain ⟨-, hlen, -⟩ := Request.finished_some (r := linkRequest) rfl hfinished
    rw [hlen]
    simp only [Request.body, linkRequest, Tree.encodeAll, Tree.encode, List.length_append, Tree.length_record,
      List.length_replicate, List.length_cons, List.length_nil, align4]
  refine ⟨bytes, out, hfinished, hout, hreads, hround.2.1 [linkRequest, linkRequest] [bytes, bytes] ?_ ?_⟩
  · exact .cons ⟨rfl, hfinished, by omega⟩ (.cons ⟨rfl, hfinished, by omega⟩ .nil)
  · simp only [List.flatten_cons, List.flatten_nil, List.length_append, List.length_nil, hlen]
    omega

/-- Where the length wraps, the first message that is read is empty. -/
theorem parse_wrapped {e : Endian} {r : Request} {bytes : List U8} (h : r.Aligned) (hb : r.finished e = some bytes)
    (hlen : bytes.length = 2 ^ 32 + 16) {out : List RawMessage} (hout : parseDatagram e bytes = .ok out) :
    ∃ message rest, out = message :: rest ∧ message.payload = [] := by
  obtain ⟨heq, -, -⟩ := Request.finished_some h hb
  have hmessage : messageLen e bytes 0 = 16 := by
    rw [messageLen, List.drop_zero, heq, List.take_left' (e.length_bytes _ _), e.nat_bytes, hlen]
    norm_num
  rw [parseDatagram, parseFrom, hmessage, headerLen, if_neg (by omega), if_neg (by omega), if_neg (by omega),
    if_neg (by omega), if_neg (by omega), if_neg (by unfold align4; omega), if_neg (by unfold align4; omega),
    bind_ok] at hout
  obtain ⟨message, hread, hout⟩ := hout
  obtain ⟨rest, -, hrest⟩ := bind_ok.mp hout
  rw [readMessage, bind_ok] at hread
  obtain ⟨header, -, hread⟩ := hread
  rw [headerLen, slice_eq (by omega) (by omega)] at hread
  obtain ⟨payload, hpayload, hread⟩ := bind_ok.mp hread
  refine ⟨message, rest, (Except.ok.inj hrest).symm, ?_⟩
  obtain rfl := Except.ok.inj hread
  obtain rfl := Except.ok.inj hpayload
  exact List.drop_eq_nil_of_le (by rw [List.length_take]; omega)

/-- A message with a payload of 4 GiB is not read back, whatever the payload is. -/
theorem parse_long {zeros : List U8} (hzeros : zeros.length = 2 ^ 32) : ¬ ∀ (rs : List Request)
    (parts : List (List U8)),
    List.Forall₂ (fun r part => r.Aligned ∧ r.finished .little = some part) rs parts →
    parts.flatten.length < 2 ^ 63 →
    parseDatagram .little parts.flatten = .ok (List.zipWith Request.message rs parts) := by
  intro hround
  have haligned : (Request.mk 16 1 7 zeros []).Aligned := by
    rw [Request.Aligned, hzeros]
    norm_num
  have hfinished := Request.finished_eq (e := .little) haligned
  obtain ⟨-, hlen, -⟩ := Request.finished_some haligned hfinished
  have hbody : (Request.mk 16 1 7 zeros []).body .little = zeros := List.append_nil zeros
  rw [hbody, hzeros] at hlen
  have hread := hround [_] [_] (.cons ⟨haligned, hfinished⟩ .nil)
    (by rw [List.flatten_singleton, hbody, hzeros, hlen]; omega)
  rw [List.flatten_singleton] at hread
  obtain ⟨message, rest, hout, hempty⟩ :=
    parse_wrapped haligned hfinished (by rw [hbody, hzeros, hlen]; omega) hread
  have hdrop := Request.drop_header haligned hfinished
  obtain ⟨rfl, -⟩ := List.cons.inj hout
  have hnil : (Request.mk 16 1 7 zeros []).body .little = [] := hdrop.symm.trans hempty
  rw [hbody] at hnil
  rw [hnil] at hzeros
  cases hzeros

/-- The message of 4 GiB of zeros, whose length is written as 16. -/
theorem long_message_lost : ¬ ∀ (rs : List Request) (parts : List (List U8)),
    List.Forall₂ (fun r part => r.Aligned ∧ r.finished .little = some part) rs parts →
    parts.flatten.length < 2 ^ 63 →
    parseDatagram .little parts.flatten = .ok (List.zipWith Request.message rs parts) :=
  @parse_long (List.replicate (2 ^ 32) 0) List.length_replicate

end FluxRs.Netlink
