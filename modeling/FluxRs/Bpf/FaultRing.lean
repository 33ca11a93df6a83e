import FluxRs.Bpf.Ringbuf

/-!
# FluxRs.Bpf.FaultRing — draining loses nothing and repeats nothing

Record `i` of the producer's ledger lies at position `40 * i`.  A record that is done does not change any more,
and its bytes stay in the ring until the consumer position has passed it.
-/

namespace FluxRs.Bpf.Ringbuf

open FluxRs.Lib Checked Circular

/-- The first `m` records are done, and `events` are their events. -/
structure Returned (records : List Record) (m : ℕ) (events : List FaultEvent) : Prop where
  within : m ≤ records.length
  done : ∀ i < m, ∃ r, records[i]? = some r ∧ r.done
  events : events = eventsOf (records.take m)

/-- A record as it lies in the ring. -/
structure Stored (capacity : ℕ) (memory : ℕ → U8) (i : ℕ) (r : Record) : Prop where
  header : load capacity memory (recordBytes * i) 4 = leBytes 4 r.status.header
  payload : load capacity memory (recordBytes * i + headerBytes) faultEventBytes = r.payload

/-- A drain that has come to `consumer` and may go to `producer`. -/
structure Progress (s : Ring) (consumer producer : ℕ) (events : List FaultEvent) : Prop where
  start : s.consumer ≤ consumer
  limit : consumer ≤ producer
  published : producer ≤ s.producer
  whole : ∃ b, producer = recordBytes * b
  returned : ∃ m, consumer = recordBytes * m ∧ Returned s.records m (s.returned.flatten ++ events)

def Draining (s : Ring) : Prop :=
  match s.drain with
  | .idle => True
  | .check consumer producer events => Progress s consumer producer events
  | .take consumer producer rawLen events =>
    Progress s consumer producer events ∧ consumer < producer ∧
      ∃ m r, consumer = recordBytes * m ∧ s.records[m]? = some r ∧ r.done ∧ rawLen = BitVec.ofNat 32 r.status.header
  | .publish consumer producer events => Progress s consumer producer events

structure Inv (capacity : ℕ) (s : Ring) : Prop where
  produced : s.producer = recordBytes * s.records.length
  room : s.producer ≤ s.consumer + capacity
  failures : s.failures = []
  consumed : ∃ k, s.consumer = recordBytes * k ∧ Returned s.records k s.returned.flatten
  stored : ∀ i r, s.records[i]? = some r → s.consumer ≤ recordBytes * i → Stored capacity s.memory i r
  draining : Draining s

/-! ### Ledgers that grow -/

/-- No record goes away, and what is done stays as it is. -/
structure Extends (records records' : List Record) : Prop where
  length : records.length ≤ records'.length
  kept : ∀ (i : ℕ) (r : Record), records[i]? = some r → r.done → records'[i]? = some r

section Ledger

variable {records records' : List Record}

theorem extends_append (r : Record) : Extends records (records ++ [r]) where
  length := by
    rw [List.length_append]
    omega
  kept i r' h _ := by
    obtain ⟨hi, -⟩ := List.getElem?_eq_some_iff.mp h
    rw [List.getElem?_append_left hi]
    exact h

theorem extends_set {i : ℕ} {r r' : Record} (h : records[i]? = some r) (hbusy : r.status = .busy) :
    Extends records (records.set i r') where
  length := by rw [List.length_set]
  kept j q hq hdone := by
    rw [List.getElem?_set_ne]
    · exact hq
    · rintro rfl
      obtain rfl := Option.some.inj (h.symm.trans hq)
      rw [Record.done, hbusy] at hdone
      exact absurd hdone (by decide)

theorem Returned.extends {m : ℕ} {events : List FaultEvent} (h : Returned records m events)
    (hext : Extends records records') : Returned records' m events := by
  have hsame : records'.take m = records.take m := by
    ext i : 1
    rw [List.getElem?_take, List.getElem?_take]
    by_cases hi : i < m
    · rw [if_pos hi, if_pos hi]
      obtain ⟨r, hr, hdone⟩ := h.done i hi
      rw [hr, hext.kept i r hr hdone]
    · rw [if_neg hi, if_neg hi]
  refine ⟨h.within.trans hext.length, ?_, ?_⟩
  · intro i hi
    obtain ⟨r, hr, hdone⟩ := h.done i hi
    exact ⟨r, hext.kept i r hr hdone, hdone⟩
  · rw [hsame]
    exact h.events

/-- One more record. -/
theorem Returned.next {m : ℕ} {events : List FaultEvent} (h : Returned records m events) {r : Record}
    (hr : records[m]? = some r) (hdone : r.done) : Returned records (m + 1) (events ++ r.event.toList) := by
  obtain ⟨hm, -⟩ := List.getElem?_eq_some_iff.mp hr
  refine ⟨hm, ?_, ?_⟩
  · intro i hi
    rcases Nat.lt_succ_iff_lt_or_eq.mp hi with hlt | rfl
    · exact h.done i hlt
    · exact ⟨r, hr, hdone⟩
  · rw [List.take_add_one, hr, h.events, eventsOf, eventsOf, List.filterMap_append]
    cases hev : r.event with
    | none => simp only [Option.toList_none, Option.toList_some, List.filterMap_cons, hev, List.filterMap_nil]
    | some e => simp only [Option.toList_some, List.filterMap_cons, hev, List.filterMap_nil]

end Ledger

/-! ### Words of the ring -/

theorem ofLe_header (status : Status) : ofLe (leBytes 4 status.header) = status.header := by
  rw [ofLe_leBytes]
  refine Nat.mod_eq_of_lt ?_
  cases status <;> decide

section Consumer

variable {n : ℕ} {memory : ℕ → U8} {m : ℕ} {r : Record} (h : Stored (2 ^ n) memory m r)

include h

theorem rawLenAt_stored : rawLenAt (2 ^ n) memory (recordBytes * m) = BitVec.ofNat 32 r.status.header := by
  rw [rawLenAt, virtual, Nat.and_two_pow_sub_one_eq_mod, load_mod, h.header, ofLe_header]

theorem payload_stored :
    virtual (2 ^ n) memory ((recordBytes * m &&& (2 ^ n - 1)) + headerBytes) faultEventBytes = r.payload := by
  rw [virtual, Nat.and_two_pow_sub_one_eq_mod, ← load_mod, Nat.mod_add_mod, load_mod, h.payload]

/-- A record that is done is taken whole. -/
theorem takeRecord_stored (hdone : r.done) {producer : ℕ} (hcap : recordBytes ≤ 2 ^ n)
    (hp : recordBytes * m + recordBytes ≤ producer) (hlt : producer < 2 ^ 64) :
    takeRecord (2 ^ n) memory (recordBytes * m) producer (BitVec.ofNat 32 r.status.header) =
      .ok (r.event, recordBytes * (m + 1)) := by
  have hlen : ((BitVec.ofNat 32 r.status.header : U32) &&& lengthMask).toNat = faultEventBytes := by
    cases r.status <;> decide
  have halign : align8 (headerBytes + faultEventBytes) = .ok recordBytes := by decide
  have hsum : (okOr (if headerBytes + faultEventBytes < 2 ^ 64 then some (headerBytes + faultEventBytes) else none)
      "record length overflow" : Checked String ℕ) = .ok (headerBytes + faultEventBytes) := by decide
  have hstop : (addUsize (recordBytes * m) recordBytes : Checked String ℕ) = .ok (recordBytes * m + recordBytes) :=
    addUsize_eq (by omega)
  have hnext : (okOr (if recordBytes * m + recordBytes < 2 ^ 64 then some (recordBytes * m + recordBytes) else none)
      "consumer position overflow" : Checked String ℕ) = .ok (recordBytes * (m + 1)) := by
    rw [if_pos (by omega), Nat.mul_succ]
    rfl
  have hfit : ensure (recordBytes ≤ 2 ^ n) "record exceeds published ring range" = .ok () := if_pos hcap
  have hin : ensure (recordBytes * m + recordBytes ≤ producer) "record exceeds published ring range" = .ok () :=
    if_pos hp
  unfold takeRecord
  simp only [hlen, hsum, halign, hstop, hnext, hfit, hin, payload_stored h, bind, Except.bind]
  unfold Record.event
  cases hs : r.status with
  | busy =>
    rw [Record.done, hs] at hdone
    exact absurd hdone (by decide)
  | committed => rfl
  | discarded => rfl

end Consumer

/-! ### Writes of the producer -/

section Writes

variable {capacity : ℕ} {memory : ℕ → U8} {r : Record}

/-- A write to record `i` does not reach record `j`, where both lie in one turn of the ring. -/
theorem Stored.frame {i j base q : ℕ} {as : List U8} (h : Stored capacity memory j r) (hij : i ≠ j)
    (hq : recordBytes * i ≤ q) (hlen : q + as.length ≤ recordBytes * i + recordBytes) (hbi : base ≤ recordBytes * i)
    (hbj : base ≤ recordBytes * j) (hi : recordBytes * i + recordBytes ≤ base + capacity)
    (hj : recordBytes * j + recordBytes ≤ base + capacity) : Stored capacity (store capacity memory q as) j r := by
  simp only [recordBytes, headerBytes, faultEventBytes] at *
  refine ⟨(load_store_of_apart ?_).trans h.header, (load_store_of_apart ?_).trans h.payload⟩
  · simp only [recordBytes, headerBytes, faultEventBytes]
    omega
  · simp only [recordBytes, headerBytes, faultEventBytes]
    omega

theorem stored_reserve {i pgOff : ℕ} (hcap : recordBytes ≤ capacity) :
    Stored capacity (store capacity memory (recordBytes * i) (leBytes 4 Status.busy.header ++ leBytes 4 pgOff)) i
      ⟨load capacity memory (recordBytes * i + headerBytes) faultEventBytes, .busy⟩ := by
  simp only [recordBytes, headerBytes, faultEventBytes] at hcap
  have hlen : (leBytes 4 Status.busy.header ++ leBytes 4 pgOff).length = 8 := by
    rw [List.length_append, length_leBytes, length_leBytes]
  constructor
  · rw [← take_load (n := 8) _ _ (by omega), ← hlen, load_store (by omega)]
    exact List.take_left' (length_leBytes 4 _)
  · refine load_store_of_apart ?_
    simp only [headerBytes, faultEventBytes]
    omega

theorem Stored.fill {i : ℕ} {payload : List U8} (h : Stored capacity memory i r) (hcap : recordBytes ≤ capacity)
    (hlen : payload.length = faultEventBytes) :
    Stored capacity (store capacity memory (recordBytes * i + headerBytes) payload) i { r with payload := payload } := by
  simp only [recordBytes, headerBytes, faultEventBytes] at hcap hlen
  constructor
  · refine (load_store_of_apart ?_).trans h.header
    simp only [headerBytes]
    omega
  · rw [show faultEventBytes = payload.length from hlen.symm]
    exact load_store (by omega)

theorem Stored.release {i : ℕ} {status : Status} (h : Stored capacity memory i r) (hcap : recordBytes ≤ capacity) :
    Stored capacity (store capacity memory (recordBytes * i) (leBytes 4 status.header)) i { r with status := status } := by
  simp only [recordBytes, headerBytes, faultEventBytes] at hcap
  have hlen : (leBytes 4 status.header).length = 4 := length_leBytes 4 _
  constructor
  · have hload : load capacity (store capacity memory (recordBytes * i) (leBytes 4 status.header)) (recordBytes * i)
        (leBytes 4 status.header).length = leBytes 4 status.header := load_store (by omega)
    rwa [hlen] at hload
  · refine (load_store_of_apart ?_).trans h.payload
    simp only [headerBytes, faultEventBytes]
    omega

end Writes

/-! ### The invariant -/

theorem Progress.congr {s s' : Ring} {consumer producer : ℕ} {events : List FaultEvent}
    (h : Progress s consumer producer events) (hc : s'.consumer = s.consumer) (hp : s.producer ≤ s'.producer)
    (hr : s'.returned = s.returned) (hext : Extends s.records s'.records) : Progress s' consumer producer events := by
  obtain ⟨m, hm, hret⟩ := h.returned
  refine ⟨hc.trans_le h.start, h.limit, h.published.trans hp, h.whole, m, hm, ?_⟩
  rw [hr]
  exact hret.extends hext

theorem Draining.congr {s s' : Ring} (h : Draining s) (hd : s'.drain = s.drain) (hc : s'.consumer = s.consumer)
    (hp : s.producer ≤ s'.producer) (hr : s'.returned = s.returned) (hext : Extends s.records s'.records) :
    Draining s' := by
  unfold Draining at *
  rw [hd]
  cases hs : s.drain with
  | idle => trivial
  | check consumer producer events =>
    rw [hs] at h
    exact Progress.congr h hc hp hr hext
  | publish consumer producer events =>
    rw [hs] at h
    exact Progress.congr h hc hp hr hext
  | take consumer producer rawLen events =>
    rw [hs] at h
    obtain ⟨hprog, hlt, m, r, hm, hrec, hdone, hraw⟩ := h
    exact ⟨hprog.congr hc hp hr hext, hlt, m, r, hm, hext.kept m r hrec hdone, hdone, hraw⟩

theorem inv_start (capacity : ℕ) (memory : ℕ → U8) : Inv capacity (start memory) where
  produced := rfl
  room := Nat.zero_le _
  failures := rfl
  consumed := ⟨0, rfl, Nat.zero_le _, fun i hi => absurd hi (Nat.not_lt_zero i), rfl⟩
  stored i r h := by
    rw [start, List.getElem?_nil] at h
    cases h
  draining := trivial

section Producer

variable {capacity : ℕ} {s : Ring} (h : Inv capacity s)

include h

/-- What is busy has not been passed. -/
theorem Inv.live {i : ℕ} {r : Record} (hr : s.records[i]? = some r) (hbusy : r.status = .busy) :
    s.consumer ≤ recordBytes * i := by
  obtain ⟨k, hk, hret⟩ := h.consumed
  rw [hk]
  refine Nat.mul_le_mul_left _ ?_
  by_contra hlt
  obtain ⟨r', hr', hdone⟩ := hret.done i (by omega)
  obtain rfl := Option.some.inj (hr.symm.trans hr')
  rw [Record.done, hbusy] at hdone
  exact absurd hdone (by decide)

theorem Inv.inside {i : ℕ} {r : Record} (hr : s.records[i]? = some r) :
    recordBytes * i + recordBytes ≤ s.consumer + capacity := by
  obtain ⟨hi, -⟩ := List.getElem?_eq_some_iff.mp hr
  have hle := Nat.mul_le_mul_left recordBytes (Nat.succ_le_of_lt hi)
  have hroom := h.room
  rw [h.produced] at hroom
  rw [Nat.mul_succ] at hle
  omega

/-- A busy record is written to. -/
theorem Inv.update {i q : ℕ} {r r' : Record} {as : List U8} (hr : s.records[i]? = some r) (hbusy : r.status = .busy)
    (hq : recordBytes * i ≤ q) (hlen : q + as.length ≤ recordBytes * i + recordBytes)
    (hown : Stored capacity s.memory i r → Stored capacity (store capacity s.memory q as) i r') :
    Inv capacity { s with memory := store capacity s.memory q as, records := s.records.set i r' } := by
  have hext : Extends s.records (s.records.set i r') := extends_set hr hbusy
  have hlive := h.live hr hbusy
  obtain ⟨k, hk, hret⟩ := h.consumed
  refine ⟨?_, h.room, h.failures, ⟨k, hk, hret.extends hext⟩, ?_, h.draining.congr rfl rfl le_rfl rfl hext⟩
  · show s.producer = recordBytes * (s.records.set i r').length
    rw [List.length_set]
    exact h.produced
  · intro j r'' hj hbase
    have hj : (s.records.set i r')[j]? = some r'' := hj
    by_cases hij : i = j
    · subst hij
      obtain ⟨hi, -⟩ := List.getElem?_eq_some_iff.mp hr
      rw [List.getElem?_set_self hi] at hj
      obtain rfl := Option.some.inj hj
      exact hown (h.stored i r hr hlive)
    · rw [List.getElem?_set_ne hij] at hj
      exact (h.stored j r'' hj hbase).frame hij hq hlen hlive hbase (h.inside hr) (h.inside hj)

theorem Inv.fill {i : ℕ} {payload : List U8} {s' : Ring} (hs : produce capacity s (.fill i payload) = some s') :
    Inv capacity s' := by
  rw [produce] at hs
  by_cases hlen : payload.length = faultEventBytes
  · rw [if_pos hlen, Option.map_eq_some_iff] at hs
    obtain ⟨r, hr, rfl⟩ := hs
    obtain ⟨hr, hbusy⟩ := Option.filter_eq_some_iff.mp hr
    have hbusy := of_decide_eq_true hbusy
    have hcap := h.inside hr
    have hlive := h.live hr hbusy
    refine h.update hr hbusy (Nat.le_add_right _ _) ?_ fun hst => hst.fill (by omega) hlen
    rw [hlen, Nat.add_assoc]
    exact le_rfl
  · rw [if_neg hlen] at hs
    cases hs

theorem Inv.release {i : ℕ} {status : Status} {s' : Ring} (hs : release capacity s i status = some s') :
    Inv capacity s' := by
  rw [Ringbuf.release, Option.map_eq_some_iff] at hs
  obtain ⟨r, hr, rfl⟩ := hs
  obtain ⟨hr, hbusy⟩ := Option.filter_eq_some_iff.mp hr
  have hbusy := of_decide_eq_true hbusy
  have hcap := h.inside hr
  have hlive := h.live hr hbusy
  refine h.update hr hbusy le_rfl ?_ fun hst => hst.release (by omega)
  rw [length_leBytes]
  exact Nat.add_le_add_left (by decide) _

theorem Inv.reserve {pgOff : ℕ} {s' : Ring} (hs : produce capacity s (.reserve pgOff) = some s')
    (hsmall : recordBytes * s'.records.length < 2 ^ 64) : Inv capacity s' := by
  rw [produce] at hs
  by_cases hfit : (s.producer + recordBytes + (2 ^ 64 - s.consumer)) % 2 ^ 64 ≤ capacity
  · rw [if_pos hfit] at hs
    obtain rfl := Option.some.inj hs
    obtain ⟨k, hk, hret⟩ := h.consumed
    have hwithin := Nat.mul_le_mul_left recordBytes hret.within
    have hlen : (s.records ++ [(⟨load capacity s.memory (s.producer + headerBytes) faultEventBytes, .busy⟩ : Record)]).length
        = s.records.length + 1 := by rw [List.length_append, List.length_singleton]
    have hsmall : recordBytes * (s.records.length + 1) < 2 ^ 64 := hlen ▸ hsmall
    rw [Nat.mul_succ, ← h.produced] at hsmall
    rw [← hk, ← h.produced] at hwithin
    -- The positions do not wrap, so the difference is the space that is in use.
    have hnowrap : (s.producer + recordBytes) % 2 ^ 64 = s.producer + recordBytes := Nat.mod_eq_of_lt hsmall
    have hroom : s.producer + recordBytes ≤ s.consumer + capacity := by
      rw [show s.producer + recordBytes + (2 ^ 64 - s.consumer) = s.producer + recordBytes - s.consumer + 2 ^ 64 by omega,
        Nat.add_mod_right, Nat.mod_eq_of_lt (by omega)] at hfit
      omega
    refine ⟨?_, ?_, h.failures, ⟨k, hk, hret.extends (extends_append _)⟩, ?_,
      h.draining.congr rfl rfl ?_ rfl (extends_append _)⟩
    · show (s.producer + recordBytes) % 2 ^ 64 = recordBytes * _
      rw [hlen, hnowrap, Nat.mul_succ, h.produced]
    · show (s.producer + recordBytes) % 2 ^ 64 ≤ s.consumer + capacity
      rw [hnowrap]
      exact hroom
    · intro j r hj hbase
      have hbase : s.consumer ≤ recordBytes * j := hbase
      rcases Nat.lt_trichotomy j s.records.length with hlt | rfl | hgt
      · have hj' : s.records[j]? = some r := (List.getElem?_append_left hlt).symm.trans hj
        rw [h.produced] at hroom hwithin ⊢
        refine (h.stored j r hj' hbase).frame (Nat.ne_of_gt hlt) le_rfl ?_ hwithin hbase hroom (h.inside hj')
        rw [List.length_append, length_leBytes, length_leBytes]
        exact Nat.add_le_add_left (by decide) _
      · have hj' := (List.getElem?_concat_length).symm.trans hj
        obtain rfl := Option.some.inj hj'
        rw [h.produced]
        refine stored_reserve ?_
        omega
      · have hnone := List.getElem?_eq_none (l := s.records ++
          [(⟨load capacity s.memory (s.producer + headerBytes) faultEventBytes, .busy⟩ : Record)]) (i := j) (by omega)
        have hj' := hnone.symm.trans hj
        cases hj'
    · show s.producer ≤ (s.producer + recordBytes) % 2 ^ 64
      rw [hnowrap]
      exact Nat.le_add_right _ _
  · rw [if_neg hfit] at hs
    cases hs

theorem Inv.produce {p : Produce} {s' : Ring} (hs : produce capacity s p = some s')
    (hsmall : recordBytes * s'.records.length < 2 ^ 64) : Inv capacity s' := by
  cases p with
  | reserve pgOff => exact h.reserve hs hsmall
  | fill i payload => exact h.fill hs
  | commit i => exact h.release hs
  | discard i => exact h.release hs

end Producer

/-! ### The steps of a drain -/

theorem busyBit_header (status : Status) :
    (BitVec.ofNat 32 status.header : U32) &&& busyBit ≠ 0 ↔ status = .busy := by
  cases status <;> decide

section Consumer

variable {n : ℕ} {s : Ring} (h : Inv (2 ^ n) s)

include h

/-- The record that a drain has come to. -/
theorem Inv.next_record {consumer producer : ℕ} {events : List FaultEvent} (hp : Progress s consumer producer events)
    (hlt : consumer < producer) :
    ∃ m r, consumer = recordBytes * m ∧ s.records[m]? = some r ∧ Stored (2 ^ n) s.memory m r ∧
      recordBytes * m + recordBytes ≤ producer := by
  obtain ⟨m, hm, hret⟩ := hp.returned
  obtain ⟨b, hb⟩ := hp.whole
  have hmb : m < b := by
    rw [hm, hb] at hlt
    exact Nat.lt_of_mul_lt_mul_left hlt
  have hbn : b ≤ s.records.length := by
    have hle := hp.published
    rw [hb, h.produced] at hle
    exact Nat.le_of_mul_le_mul_left hle (by decide)
  have hmn : m < s.records.length := Nat.lt_of_lt_of_le hmb hbn
  have hat : s.records[m]? = some s.records[m] := List.getElem?_eq_getElem hmn
  refine ⟨m, _, hm, hat, h.stored m _ hat (hm ▸ hp.start), ?_⟩
  rw [hb, ← Nat.mul_succ]
  exact Nat.mul_le_mul_left _ hmb

theorem Inv.withDrain {d : Drain} (hd : Draining { s with drain := d }) : Inv (2 ^ n) { s with drain := d } :=
  ⟨h.produced, h.room, h.failures, h.consumed, h.stored, hd⟩

theorem Inv.begin (hd : s.drain = .idle) : Inv (2 ^ n) (drainStep (2 ^ n) s) := by
  rw [drainStep, hd]
  obtain ⟨k, hk, hret⟩ := h.consumed
  refine h.withDrain ⟨le_rfl, ?_, le_rfl, ⟨_, h.produced⟩, k, hk, ?_⟩
  · rw [h.produced, hk]
    exact Nat.mul_le_mul_left _ hret.within
  · rw [List.append_nil]
    exact hret

/-- At the head of the loop a drain stops where it has come to the end of what was published when it began, or to
a record that is busy; else it goes on to take the record. -/
theorem Inv.check {consumer producer : ℕ} {events : List FaultEvent} (hd : s.drain = .check consumer producer events) :
    (drainStep (2 ^ n) s = { s with drain := .publish consumer producer events } ∧
      (consumer = producer ∨ ∃ m r, consumer = recordBytes * m ∧ s.records[m]? = some r ∧ r.status = .busy)) ∨
    ∃ m r, consumer = recordBytes * m ∧ consumer < producer ∧ s.records[m]? = some r ∧ r.done ∧
      drainStep (2 ^ n) s =
        { s with drain := .take consumer producer (BitVec.ofNat 32 r.status.header) events } := by
  have hp := h.draining
  rw [Draining, hd] at hp
  rw [drainStep, hd]
  by_cases hlt : consumer < producer
  · obtain ⟨m, r, rfl, hr, hst, -⟩ := h.next_record hp hlt
    simp only [if_pos hlt, rawLenAt_stored hst]
    by_cases hbusy : r.status = .busy
    · rw [if_pos ((busyBit_header r.status).mpr hbusy)]
      exact .inl ⟨rfl, .inr ⟨m, r, rfl, hr, hbusy⟩⟩
    · rw [if_neg fun hb => hbusy ((busyBit_header r.status).mp hb)]
      exact .inr ⟨m, r, rfl, hlt, hr, bne_iff_ne.mpr hbusy, rfl⟩
  · exact .inl ⟨if_neg hlt, .inl (Nat.le_antisymm hp.limit (Nat.le_of_not_lt hlt))⟩

/-- A record that is taken is that of the ledger. -/
theorem Inv.take (hsmall : recordBytes * s.records.length < 2 ^ 64) {consumer producer : ℕ} {rawLen : U32}
    {events : List FaultEvent} (hd : s.drain = .take consumer producer rawLen events) :
    ∃ m r, consumer = recordBytes * m ∧ s.records[m]? = some r ∧ r.done ∧ recordBytes * (m + 1) ≤ producer ∧
      drainStep (2 ^ n) s =
        { s with drain := .check (recordBytes * (m + 1)) producer (events ++ r.event.toList) } := by
  have hp := h.draining
  rw [Draining, hd] at hp
  obtain ⟨hprog, hlt, m, r, hm, hr, hdone, rfl⟩ := hp
  obtain ⟨m', r', hm', hr', hst, hin⟩ := h.next_record hprog hlt
  obtain rfl : m = m' := Nat.eq_of_mul_eq_mul_left (by decide) (hm.symm.trans hm')
  obtain rfl := Option.some.inj (hr.symm.trans hr')
  have hpub := hprog.published
  rw [h.produced] at hpub
  have hcap : recordBytes ≤ 2 ^ n := by
    have hroom := h.inside hr
    have hstart := hprog.start
    omega
  refine ⟨m, r, hm, hr, hdone, hin, ?_⟩
  rw [drainStep, hd, hm]
  simp only [takeRecord_stored hst hdone hcap hin (lt_of_le_of_lt hpub hsmall)]

theorem Inv.drainStep (hsmall : recordBytes * s.records.length < 2 ^ 64) : Inv (2 ^ n) (drainStep (2 ^ n) s) := by
  have hp := h.draining
  rw [Draining] at hp
  cases hd : s.drain with
  | idle => exact h.begin hd
  | check consumer producer events =>
    rw [hd] at hp
    rcases h.check hd with ⟨heq, -⟩ | ⟨m, r, hm, hlt, hr, hdone, heq⟩
    · rw [heq]
      exact h.withDrain (hp.congr rfl le_rfl rfl ⟨le_rfl, fun _ _ hr _ => hr⟩)
    · rw [heq]
      exact h.withDrain ⟨hp.congr rfl le_rfl rfl ⟨le_rfl, fun _ _ hr _ => hr⟩, hlt, m, r, hm, hr, hdone, rfl⟩
  | take consumer producer rawLen events =>
    rw [hd] at hp
    obtain ⟨m, r, hm, hr, hdone, hin, heq⟩ := h.take hsmall hd
    obtain ⟨hprog, -⟩ := hp
    obtain ⟨m', hm', hret⟩ := hprog.returned
    obtain rfl : m = m' := Nat.eq_of_mul_eq_mul_left (by decide) (hm.symm.trans hm')
    rw [heq]
    refine h.withDrain ⟨?_, hin, hprog.published, hprog.whole, m + 1, rfl, ?_⟩
    · refine hprog.start.trans (hm.trans_le ?_)
      exact Nat.mul_le_mul_left _ (Nat.le_succ m)
    · rw [← List.append_assoc]
      exact hret.next hr hdone
  | publish consumer producer events =>
    rw [hd] at hp
    obtain ⟨m, hm, hret⟩ := hp.returned
    rw [Ringbuf.drainStep, hd]
    refine ⟨h.produced, h.room.trans (Nat.add_le_add_right hp.start _), h.failures, ⟨m, hm, ?_⟩, ?_, trivial⟩
    · rw [List.flatten_append, List.flatten_singleton]
      exact hret
    · intro i r hr hbase
      exact h.stored i r hr (hp.start.trans hbase)

end Consumer

/-! ### Runs -/

theorem drainStep_records (capacity : ℕ) (s : Ring) : (drainStep capacity s).records = s.records := by
  unfold drainStep
  cases s.drain with
  | idle => rfl
  | publish consumer producer events => rfl
  | check consumer producer events =>
    by_cases hlt : consumer < producer
    · by_cases hbusy : rawLenAt capacity s.memory consumer &&& busyBit ≠ 0
      · simp only [if_pos hlt, if_pos hbusy]
      · simp only [if_pos hlt, if_neg hbusy]
    · simp only [if_neg hlt]
  | take consumer producer rawLen events =>
    cases hr : takeRecord capacity s.memory consumer producer rawLen with
    | error fault => simp only [hr]
    | ok r => simp only [hr]

theorem release_length {capacity : ℕ} {s s' : Ring} {i : ℕ} {status : Status}
    (h : release capacity s i status = some s') : s'.records.length = s.records.length := by
  rw [release, Option.map_eq_some_iff] at h
  obtain ⟨r, -, rfl⟩ := h
  exact List.length_set

theorem step_length {capacity : ℕ} {s s' : Ring} {a : Action} (h : step capacity s a = some s') :
    s.records.length ≤ s'.records.length := by
  cases a with
  | drain =>
    obtain rfl := Option.some.inj h
    rw [drainStep_records]
  | produce p =>
    have h : produce capacity s p = some s' := h
    cases p with
    | reserve pgOff =>
      rw [produce, Option.ite_none_right_eq_some] at h
      obtain rfl := Option.some.inj h.2
      rw [List.length_append]
      exact Nat.le_add_right _ _
    | fill i payload =>
      rw [produce, Option.ite_none_right_eq_some, Option.map_eq_some_iff] at h
      obtain ⟨-, r, -, rfl⟩ := h
      exact List.length_set.ge
    | commit i => exact (release_length h).ge
    | discard i => exact (release_length h).ge

/-- The invariant holds in every run that reserves less than `2 ^ 64` bytes. -/
theorem run_keeps {n : ℕ} {memory : ℕ → U8} {as : List Action} {s : Ring}
    (hrun : runOption (step (2 ^ n)) (start memory) as = some s) (hsmall : recordBytes * s.records.length < 2 ^ 64) :
    Inv (2 ^ n) s := by
  have hstep (s : Ring) (a : Action) (s' : Ring) (h : recordBytes * s.records.length < 2 ^ 64 → Inv (2 ^ n) s)
      (_ : True) (hs : step (2 ^ n) s a = some s') (hsmall' : recordBytes * s'.records.length < 2 ^ 64) :
      Inv (2 ^ n) s' := by
    have hsmall := lt_of_le_of_lt (Nat.mul_le_mul_left recordBytes (step_length hs)) hsmall'
    cases a with
    | drain =>
      obtain rfl := Option.some.inj hs
      exact (h hsmall).drainStep hsmall
    | produce p => exact (h hsmall).produce hs hsmall'
  exact runOption_inv (I := fun s => recordBytes * s.records.length < 2 ^ 64 → Inv (2 ^ n) s) (C := fun _ _ => True)
    hstep (fun _ => inv_start _ memory) (allStepsOption_of_mem fun _ _ => trivial) hrun hsmall

/-- A drain that stops has returned what comes before the first busy record. -/
theorem Returned.takeWhile {records : List Record} {m : ℕ} {events : List FaultEvent} (h : Returned records m events)
    (hstop : m = records.length ∨ ∃ r, records[m]? = some r ∧ r.status = .busy) :
    records.takeWhile Record.done = records.take m := by
  have hdone : ∀ r ∈ records.take m, r.done = true := by
    intro r hr
    obtain ⟨i, hi⟩ := List.mem_iff_getElem?.mp hr
    rw [List.getElem?_take] at hi
    by_cases him : i < m
    · rw [if_pos him] at hi
      obtain ⟨r', hr', hdone⟩ := h.done i him
      obtain rfl := Option.some.inj (hi.symm.trans hr')
      exact hdone
    · rw [if_neg him] at hi
      cases hi
  have hrest : (records.drop m).takeWhile Record.done = [] := by
    rcases hstop with rfl | ⟨r, hr, hbusy⟩
    · rw [List.drop_length, List.takeWhile_nil]
    · obtain ⟨hm, hat⟩ := List.getElem?_eq_some_iff.mp hr
      rw [List.drop_eq_getElem_cons hm, hat, List.takeWhile_cons_of_neg]
      rw [Record.done, hbusy]
      decide
  calc records.takeWhile Record.done = (records.take m ++ records.drop m).takeWhile Record.done := by
        rw [List.take_append_drop]
    _ = records.take m ++ (records.drop m).takeWhile Record.done := List.takeWhile_append_of_pos hdone
    _ = records.take m := by rw [hrest, List.append_nil]

/-- A drain without anything in between. -/
structure Whole (capacity : ℕ) (s s' : Ring) : Prop where
  steps : ∃ j, s' = (drainStep capacity)^[j] s
  idle : s'.drain = .idle
  records : s'.records = s.records
  once : s'.returned.length = s.returned.length + 1
  events : s'.returned.flatten = eventsOf (s.records.takeWhile Record.done)
  consumer : s'.consumer = recordBytes * (s.records.takeWhile Record.done).length

theorem Whole.cons {capacity : ℕ} {s s₁ s' : Ring} (h : Whole capacity s₁ s') (hs : s₁ = drainStep capacity s)
    (hrecords : s₁.records = s.records) (hreturned : s₁.returned = s.returned) : Whole capacity s s' := by
  obtain ⟨j, hj⟩ := h.steps
  refine ⟨⟨j + 1, ?_⟩, h.idle, h.records.trans hrecords, ?_, ?_, ?_⟩
  · rw [hj, hs]
    rfl
  · rw [h.once, hreturned]
  · rw [h.events, hrecords]
  · rw [h.consumer, hrecords]

theorem eq_of_position {m m' : ℕ} (h : recordBytes * m = recordBytes * m') : m = m' :=
  Nat.eq_of_mul_eq_mul_left (by decide) h

section Finish

variable {n : ℕ} {s : Ring} (h : Inv (2 ^ n) s) {m : ℕ} {events : List FaultEvent}
  (hd : s.drain = .check (recordBytes * m) s.producer events)

include h hd

theorem Inv.stop (hstop : recordBytes * m = s.producer ∨
      ∃ m' r, recordBytes * m = recordBytes * m' ∧ s.records[m']? = some r ∧ r.status = .busy)
    (heq : Ringbuf.drainStep (2 ^ n) s = { s with drain := .publish (recordBytes * m) s.producer events }) :
    ∃ s', Whole (2 ^ n) s s' := by
  have hp := h.draining
  rw [Draining, hd] at hp
  obtain ⟨m', hm', hret⟩ := hp.returned
  obtain rfl := eq_of_position hm'
  have hfirst : s.records.takeWhile Record.done = s.records.take m := by
    refine hret.takeWhile ?_
    rcases hstop with hall | ⟨m', r, hm', hr, hbusy⟩
    · exact .inl (eq_of_position (hall.trans h.produced))
    · exact .inr ⟨r, eq_of_position hm' ▸ hr, hbusy⟩
  refine ⟨{ s with
    consumer := recordBytes * m, drain := .idle, returned := s.returned ++ [events] }, ⟨2, ?_⟩, rfl, rfl, ?_, ?_, ?_⟩
  · show _ = Ringbuf.drainStep (2 ^ n) (Ringbuf.drainStep (2 ^ n) s)
    rw [heq]
    rfl
  · exact List.length_append
  · show (s.returned ++ [events]).flatten = _
    rw [List.flatten_append, List.flatten_singleton, hret.events, hfirst]
  · show recordBytes * m = _
    rw [hfirst, List.length_take, Nat.min_eq_left hret.within]

/-- The drain comes to its end: each turn leaves one record less. -/
theorem Inv.finish (hsmall : recordBytes * s.records.length < 2 ^ 64) : ∃ s', Whole (2 ^ n) s s' := by
  induction hleft : s.records.length - m using Nat.strong_induction_on generalizing s m events with
  | _ left ih =>
    rcases h.check hd with ⟨heq, hstop⟩ | ⟨m', r, hm', hlt, hr, hdone, heq⟩
    · exact h.stop hd hstop heq
    · obtain rfl := eq_of_position hm'
      have h₁ := h.drainStep hsmall
      rw [heq] at h₁
      obtain ⟨m₂, r₂, hm₂, hr₂, hdone₂, hin, heq₂⟩ := h₁.take hsmall rfl
      obtain rfl := eq_of_position hm₂
      have h₂ := h₁.drainStep hsmall
      rw [heq₂] at h₂
      obtain ⟨hm, -⟩ := List.getElem?_eq_some_iff.mp hr
      obtain ⟨s', hs'⟩ := ih (s.records.length - (m + 1)) (by omega) h₂ rfl hsmall rfl
      exact ⟨s', (hs'.cons heq₂.symm rfl rfl).cons heq.symm rfl rfl⟩

end Finish

theorem Inv.whole {n : ℕ} {s : Ring} (h : Inv (2 ^ n) s) (hsmall : recordBytes * s.records.length < 2 ^ 64)
    (hd : s.drain = .idle) : ∃ s', Whole (2 ^ n) s s' := by
  obtain ⟨k, hk, -⟩ := h.consumed
  have hbegin : Ringbuf.drainStep (2 ^ n) s = { s with drain := .check (recordBytes * k) s.producer [] } := by
    rw [Ringbuf.drainStep, hd, hk]
  have h₁ := h.begin hd
  rw [hbegin] at h₁
  obtain ⟨s', hs'⟩ := h₁.finish rfl hsmall
  exact ⟨s', hs'.cons hbegin.symm rfl rfl⟩

/-- **Draining loses nothing and repeats nothing**, as long as less than `2 ^ 64` bytes have been reserved.
No drain fails; what the drains have returned is the committed records of a list of records that are done, in the
order of reservation, each once; the position stays at or before the first busy record and the producer position.
A drain stops at a busy record or at the end of what was published when it began; one without a step of the
producer in between returns all that comes before the first busy record. -/
theorem drains_exact (n : ℕ) (memory : ℕ → U8) (as : List Action) (s : Ring)
    (hrun : runOption (step (2 ^ n)) (start memory) as = some s)
    (hsmall : recordBytes * s.records.length < 2 ^ 64) :
    s.failures = [] ∧
    (∃ k, s.consumer = recordBytes * k ∧ Returned s.records k s.returned.flatten) ∧
    s.consumer ≤ s.producer ∧
    Draining s ∧
    (∀ consumer producer events events', s.drain = .check consumer producer events →
      (drainStep (2 ^ n) s).drain = .publish consumer producer events' →
      consumer = producer ∨ ∃ m r, consumer = recordBytes * m ∧ s.records[m]? = some r ∧ r.status = .busy) ∧
    (s.drain = .idle → ∃ s', Whole (2 ^ n) s s') := by
  have h := run_keeps hrun hsmall
  obtain ⟨k, hk, hret⟩ := h.consumed
  refine ⟨h.failures, ⟨k, hk, hret⟩, ?_, h.draining, ?_, h.whole hsmall⟩
  · rw [hk, h.produced]
    exact Nat.mul_le_mul_left _ hret.within
  · intro consumer producer events events' hd hpub
    rcases h.check hd with ⟨-, hstop⟩ | ⟨m, r, -, -, -, -, heq⟩
    · exact hstop
    · rw [heq] at hpub
      cases hpub

/-- The bytes of a fault with the given sequence number. -/
def faultNumbered (seq : ℕ) : List U8 := List.replicate 16 0 ++ leBytes 8 seq ++ List.replicate 8 0

/-- The second record is committed first, the third is discarded, and the fourth goes around the end of the ring. -/
def wrappedFaults : List Action :=
  [.produce (.reserve 0), .produce (.reserve 1), .produce (.reserve 2), .produce (.fill 1 (faultNumbered 11)),
    .produce (.commit 1)] ++ List.replicate 3 .drain ++
  [.produce (.fill 0 (faultNumbered 10)), .produce (.commit 0), .produce (.discard 2)] ++ List.replicate 9 .drain ++
  [.produce (.reserve 3), .produce (.fill 3 (faultNumbered 13)), .produce (.commit 3)] ++ List.replicate 5 .drain

theorem wrappedFaults_runs : (runOption (step (2 ^ 7)) (start fun _ => 0) wrappedFaults).isSome := by decide +kernel

theorem drains_exact_wrapped : ∃ s, runOption (step (2 ^ 7)) (start fun _ => 0) wrappedFaults = some s ∧
    s.returned.map (fun events => events.map FaultEvent.seq) = [[], [10, 11], [13]] ∧ s.failures = [] ∧
    (∃ k, s.consumer = recordBytes * k ∧ Returned s.records k s.returned.flatten) ∧ s.consumer ≤ s.producer ∧
    (s.drain = .idle → ∃ s', Whole (2 ^ 7) s s') := by
  have hrun := (Option.some_get wrappedFaults_runs).symm
  obtain ⟨hfail, hret, hle, -, -, hwhole⟩ := drains_exact 7 _ wrappedFaults _ hrun (by decide +kernel)
  exact ⟨_, hrun, by decide +kernel, hfail, hret, hle, hwhole⟩

/-! ### The end of the positions -/

theorem runOption_drains (capacity : ℕ) (s : Ring) (j : ℕ) :
    runOption (step capacity) s (List.replicate j .drain) = some ((drainStep capacity)^[j] s) := by
  induction j generalizing s with
  | zero => rfl
  | succ j ih =>
    rw [List.replicate_succ]
    exact ih (drainStep capacity s)

/-- After `i` faults that were reserved, committed and drained one by one. -/
structure Settled (i : ℕ) (s : Ring) : Prop where
  inv : Inv (2 ^ 6) s
  reached : ∃ as, runOption (step (2 ^ 6)) (start fun _ => 0) as = some s
  idle : s.drain = .idle
  count : s.records.length = i
  committed : ∀ r ∈ s.records, r.status = .committed
  caught : s.consumer = recordBytes * i

/-- One more record is reserved and committed. -/
def oneMore (s : Ring) : Ring :=
  let payload := load (2 ^ 6) s.memory (s.producer + headerBytes) faultEventBytes
  { s with
    memory := store (2 ^ 6) (store (2 ^ 6) s.memory s.producer (leBytes 4 Status.busy.header ++ leBytes 4 0))
      (recordBytes * s.records.length) (leBytes 4 Status.committed.header)
    producer := (s.producer + recordBytes) % 2 ^ 64
    records := s.records ++ [⟨payload, .committed⟩] }

theorem Settled.run_oneMore {i : ℕ} {s : Ring} (h : Settled i s) (hi : recordBytes * i < 2 ^ 64) :
    runOption (step (2 ^ 6)) s [.produce (.reserve 0), .produce (.commit i)] = some (oneMore s) := by
  have hpos : s.producer = s.consumer := by rw [h.inv.produced, h.count, h.caught]
  have hfit : (s.producer + recordBytes + (2 ^ 64 - s.consumer)) % 2 ^ 64 ≤ 2 ^ 6 := by
    rw [hpos, h.caught, show recordBytes * i + recordBytes + (2 ^ 64 - recordBytes * i) = recordBytes + 2 ^ 64 by omega]
    decide
  obtain rfl := h.count
  simp only [runOption, step, produce, if_pos hfit, Option.bind_some, release, busyAt, List.getElem?_concat_length,
    Option.filter_some, decide_true, if_true, Option.map_some]
  rw [List.set_append_right _ _ le_rfl, Nat.sub_self, List.set_cons_zero]
  rfl

theorem oneMore_committed {i : ℕ} {s : Ring} (h : Settled i s) : ∀ r ∈ (oneMore s).records, r.status = .committed := by
  intro r hr
  rcases List.mem_append.mp hr with hr | hr
  · exact h.committed r hr
  · rw [List.mem_singleton.mp hr]

theorem takeWhile_committed {records : List Record} (h : ∀ r ∈ records, r.status = .committed) :
    records.takeWhile Record.done = records := by
  have hdone : ∀ r ∈ records, r.done = true := by
    intro r hr
    rw [Record.done, h r hr]
    rfl
  have happ : (records ++ []).takeWhile Record.done = records ++ [].takeWhile Record.done :=
    List.takeWhile_append_of_pos hdone
  rwa [List.append_nil, List.takeWhile_nil, List.append_nil] at happ

theorem Settled.next {i : ℕ} {s : Ring} (h : Settled i s) (hi : recordBytes * (i + 1) < 2 ^ 64) :
    ∃ s', Settled (i + 1) s' := by
  have hrun := h.run_oneMore (by rw [Nat.mul_succ] at hi; omega)
  have hlen : (oneMore s).records.length = i + 1 := by
    rw [← h.count]
    exact List.length_append
  obtain ⟨as, has⟩ := h.reached
  have hreach : runOption (step (2 ^ 6)) (start fun _ => 0) (as ++ [.produce (.reserve 0), .produce (.commit i)]) =
      some (oneMore s) := by
    rw [runOption_append, has]
    exact hrun
  have hsmall : recordBytes * (oneMore s).records.length < 2 ^ 64 := hlen ▸ hi
  have hinv := run_keeps hreach hsmall
  obtain ⟨s', ⟨j, rfl⟩, hidle, hrecords, -, -, hconsumer⟩ := hinv.whole hsmall h.idle
  have hdrained : runOption (step (2 ^ 6)) (start fun _ => 0)
      ((as ++ [.produce (.reserve 0), .produce (.commit i)]) ++ List.replicate j .drain) =
      some ((drainStep (2 ^ 6))^[j] (oneMore s)) := by
    rw [runOption_append, hreach]
    exact runOption_drains (2 ^ 6) (oneMore s) j
  refine ⟨_, run_keeps hdrained ?_, ⟨_, hdrained⟩, hidle, ?_, ?_, ?_⟩
  · rw [hrecords]
    exact hsmall
  · rw [hrecords, hlen]
  · rw [hrecords]
    exact oneMore_committed h
  · rw [hconsumer, takeWhile_committed (oneMore_committed h), hlen]

theorem exists_settled : ∀ i, recordBytes * i < 2 ^ 64 → ∃ s, Settled i s
  | 0, _ => ⟨start fun _ => 0, inv_start _ _, ⟨[], rfl⟩, rfl, rfl, fun _ hr => absurd hr List.not_mem_nil, rfl⟩
  | i + 1, hi => by
    obtain ⟨s, hs⟩ := exists_settled i (lt_trans (Nat.mul_lt_mul_of_pos_left (Nat.lt_succ_self i) (by decide)) hi)
    exact hs.next hi

/-- Where the producer position wraps, the drain sees nothing to do and a committed record stays behind. -/
theorem wrapped_record_missed :
    ¬ ∀ (n : ℕ) (memory : ℕ → U8) (as : List Action) (s : Ring),
      runOption (step (2 ^ n)) (start memory) as = some s → s.drain = .idle →
      ∀ j, 0 < j → ((drainStep (2 ^ n))^[j] s).drain = .idle →
        ((drainStep (2 ^ n))^[j] s).returned.flatten = eventsOf (s.records.takeWhile Record.done) := by
  intro hclaim
  obtain ⟨s, hs⟩ := exists_settled 461168601842738790 (by decide)
  obtain ⟨as, has⟩ := hs.reached
  have hreach : runOption (step (2 ^ 6)) (start fun _ => 0)
      (as ++ [.produce (.reserve 0), .produce (.commit 461168601842738790)]) = some (oneMore s) := by
    rw [runOption_append, has]
    exact hs.run_oneMore (by decide)
  have hconsumer : s.consumer = 18446744073709551600 := hs.caught
  have hproducer : s.producer = 18446744073709551600 := by rw [hs.inv.produced, hs.count]; rfl
  have hnew : (oneMore s).producer = 24 := by
    show (s.producer + recordBytes) % 2 ^ 64 = 24
    rw [hproducer]
    rfl
  have hbegin : drainStep (2 ^ 6) (oneMore s) =
      { oneMore s with drain := .check (oneMore s).consumer (oneMore s).producer [] } := by
    have hidle : (oneMore s).drain = .idle := hs.idle
    rw [drainStep, hidle]
  -- The loop does not run: the producer position is behind.
  have hbehind : ¬ (oneMore s).consumer < (oneMore s).producer := by
    show ¬ s.consumer < (oneMore s).producer
    rw [hconsumer, hnew]
    decide
  have hend : drainStep (2 ^ 6) { oneMore s with drain := .check (oneMore s).consumer (oneMore s).producer [] } =
      { oneMore s with drain := .publish (oneMore s).consumer (oneMore s).producer [] } := if_neg hbehind
  have hdrain : (drainStep (2 ^ 6))^[3] (oneMore s) =
      { oneMore s with drain := .idle, returned := s.returned ++ [[]] } := by
    show drainStep (2 ^ 6) (drainStep (2 ^ 6) (drainStep (2 ^ 6) (oneMore s))) = _
    rw [hbegin, hend]
    rfl
  have hall := hclaim 6 (fun _ => 0) _ (oneMore s) hreach hs.idle 3 (by decide) (by rw [hdrain])
  rw [hdrain, takeWhile_committed (oneMore_committed hs)] at hall
  have hall : (s.returned ++ [[]]).flatten = eventsOf (oneMore s).records := hall
  obtain ⟨k, hk, hret⟩ := hs.inv.consumed
  obtain rfl := eq_of_position (hs.caught.symm.trans hk)
  rw [List.flatten_append, List.flatten_singleton, List.append_nil, hret.events, ← hs.count, List.take_length] at hall
  have hmore : eventsOf (oneMore s).records = eventsOf s.records ++ [_] := List.filterMap_append
  rw [hmore] at hall
  have hlen := congrArg List.length hall
  rw [List.length_append, List.length_singleton] at hlen
  omega

end FluxRs.Bpf.Ringbuf
