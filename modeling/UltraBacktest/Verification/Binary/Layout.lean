import UltraBacktest.Model.EventLayout

/-! The record format: reading back a written event, and what any record at all is read as. -/

namespace UltraBacktest

open LittleEndian

/-! ## Events that fit into a record -/

/-- The members of the payload are in the range of their types, and a type code outside the
enumeration is one. -/
def EventBody.Representable : EventBody → Prop
  | .marketTick d =>
      Word64.Fits d.bestBid ∧ Word64.Fits d.bestAsk ∧ IsWord d.bidQty ∧ IsWord d.askQty ∧
        Word64.Fits d.lastPrice ∧ IsWord d.lastQty
  | .trade d => Word64.Fits d.price ∧ IsWord d.qty
  | .quote d =>
      Word64.Fits d.bestBid ∧ Word64.Fits d.bestAsk ∧ IsWord d.bidQty ∧ IsWord d.askQty
  | .orderAdd d => IsWord d.orderId ∧ Word64.Fits d.price ∧ IsWord d.qty
  | .orderCancel d => IsWord d.orderId
  | .orderModify d => IsWord d.orderId ∧ Word64.Fits d.newPrice ∧ IsWord d.newQty
  | .orderExecution d =>
      IsWord d.orderId ∧ Word64.Fits d.execPrice ∧ IsWord d.execQty ∧ IsWord d.leavesQty
  | .unknown code => code.toNat ∉ [0, 1, 2, 3, 4, 5, 6, 10, 11, 20, 21, 255]
  | _ => True

def Event.Representable (e : Event) : Prop := Word64.Fits e.timestamp ∧ e.body.Representable

namespace EventLayout

/-! ## Reading a field -/

section Fields

variable {xs ys : List UInt8} {offset : ℕ} {b : UInt8}

theorem u64At_append (h : xs.length ≤ offset) :
    u64At offset (xs ++ ys) = u64At (offset - xs.length) ys := by
  rw [u64At, field_append h, u64At]

theorem i64At_append (h : xs.length ≤ offset) :
    i64At offset (xs ++ ys) = i64At (offset - xs.length) ys := by
  rw [i64At, u64At_append h, i64At]

theorem u32At_append (h : xs.length ≤ offset) :
    u32At offset (xs ++ ys) = u32At (offset - xs.length) ys := by
  rw [u32At, field_append h, u32At]

theorem u8At_append (h : xs.length ≤ offset) :
    u8At offset (xs ++ ys) = u8At (offset - xs.length) ys := by
  rw [u8At, field_append h, u8At]

theorem u64At_zero_bytes {v : ℕ} (h : IsWord v) : u64At 0 (bytes 8 v ++ ys) = v := by
  rw [u64At, field_zero_append (length_bytes _ _), value_bytes_of_isWord h]

theorem i64At_zero_signedBytes {x : ℤ} (h : Word64.Fits x) :
    i64At 0 (signedBytes x ++ ys) = x := by
  rw [i64At, u64At, field_zero_append (length_signedBytes _), wrap_value_signedBytes h]

theorem u32At_zero_bytes (w : UInt32) : u32At 0 (bytes 4 w.toNat ++ ys) = w := by
  have hlt : w.toNat < 256 ^ 4 := w.toNat_lt
  rw [u32At, field_zero_append (length_bytes _ _), value_bytes hlt, UInt32.ofNat_toNat]

theorem u8At_zero_cons : u8At 0 (b :: ys) = b := by
  have hfield : field 0 1 (b :: ys) = [b] := rfl
  rw [u8At, hfield, value, value, Nat.mul_zero, Nat.add_zero, UInt8.ofNat_toNat]

end Fields

/-! ## Writing and reading back -/

theorem length_payload_le (sides : SideCode) (body : EventBody) :
    (payload sides body).length ≤ 48 := by
  cases body <;> simp [payload]

theorem length_recordOf (sides : SideCode) (e : Event) :
    (recordOf sides e).length = recordSize := by
  have hle := length_payload_le sides e.body
  simp only [recordOf, List.length_append, length_signedBytes, length_bytes, List.length_cons,
    List.length_nil, List.length_replicate, recordSize]
  omega

/-- The record behind its header, which holds the type code. -/
theorem recordOf_eq (sides : SideCode) (e : Event) :
    ∃ header rest, header.length = 16 ∧
      recordOf sides e = header ++ (payload sides e.body ++ rest) ∧
      u8At 12 (recordOf sides e) = typeCode e.body := by
  refine ⟨_, _, ?_, rfl, ?_⟩
  · simp
  · simp [recordOf, u8At_append, u8At_zero_cons]

theorem bodyOf_recordOf (sides : SideCode) {e : Event} (h : e.body.Representable) :
    bodyOf sides (recordOf sides e) = e.body := by
  obtain ⟨header, rest, hheader, hrecord, hcode⟩ := recordOf_eq sides e
  rw [bodyOf, hcode, hrecord]
  cases hbody : e.body with
  | marketTick d =>
      rw [hbody] at h
      obtain ⟨hbid, hask, hbidQty, haskQty, hlast, hlastQty⟩ := h
      simp [typeCode, payload, i64At_append, u64At_append, hheader, i64At_zero_signedBytes,
        u64At_zero_bytes, hbid, hask, hbidQty, haskQty, hlast, hlastQty]
  | trade d =>
      rw [hbody] at h
      obtain ⟨hprice, hqty⟩ := h
      simp [typeCode, payload, i64At_append, u64At_append, u8At_append, hheader,
        i64At_zero_signedBytes, u64At_zero_bytes, u8At_zero_cons, sides.side_code, hprice, hqty]
  | quote d =>
      rw [hbody] at h
      obtain ⟨hbid, hask, hbidQty, haskQty⟩ := h
      simp [typeCode, payload, i64At_append, u64At_append, hheader, i64At_zero_signedBytes,
        u64At_zero_bytes, hbid, hask, hbidQty, haskQty]
  | orderAdd d =>
      rw [hbody] at h
      obtain ⟨hid, hprice, hqty⟩ := h
      simp [typeCode, payload, i64At_append, u64At_append, u8At_append, hheader,
        i64At_zero_signedBytes, u64At_zero_bytes, u8At_zero_cons, sides.side_code, hid, hprice,
        hqty]
  | orderCancel d =>
      rw [hbody] at h
      have hid : IsWord d.orderId := h
      simp [typeCode, payload, u64At_append, hheader, u64At_zero_bytes, hid]
  | orderModify d =>
      rw [hbody] at h
      obtain ⟨hid, hprice, hqty⟩ := h
      simp [typeCode, payload, i64At_append, u64At_append, hheader, i64At_zero_signedBytes,
        u64At_zero_bytes, hid, hprice, hqty]
  | orderExecution d =>
      rw [hbody] at h
      obtain ⟨hid, hprice, hqty, hleaves⟩ := h
      simp [typeCode, payload, i64At_append, u64At_append, u8At_append, hheader,
        i64At_zero_signedBytes, u64At_zero_bytes, u8At_zero_cons, sides.side_code, hid, hprice,
        hqty, hleaves]
  | strategyTimer d =>
      simp [typeCode, payload, u32At_append, hheader, u32At_zero_bytes]
  | unknown code =>
      rw [hbody] at h
      simp only [EventBody.Representable, List.mem_cons, List.not_mem_nil, or_false, not_or] at h
      simp only [typeCode]
      split <;> simp_all
  | _ => rfl

/-- What was written is read back. -/
theorem eventOf_recordOf (sides : SideCode) {e : Event} (h : e.Representable) :
    eventOf sides (recordOf sides e) = e := by
  have hts : i64At 0 (recordOf sides e) = e.timestamp := by
    simp [recordOf, i64At_zero_signedBytes, h.1]
  have hsymbol : u32At 8 (recordOf sides e) = e.symbol := by
    simp [recordOf, u32At_append, u32At_zero_bytes]
  rw [eventOf, hts, hsymbol, bodyOf_recordOf sides h.2]

/-! ## Reading any record -/

theorem isWord_u64At (offset : ℕ) (r : List UInt8) : IsWord (u64At offset r) :=
  isWord_value (length_field_le offset 8 r)

theorem fits_i64At (offset : ℕ) (r : List UInt8) : Word64.Fits (i64At offset r) :=
  (Word64.exists_wrap_eq _).1

theorem representable_bodyOf (sides : SideCode) (r : List UInt8) :
    (bodyOf sides r).Representable := by
  rw [bodyOf]
  split
  case h_13 code =>
    simp only [EventBody.Representable, List.mem_cons, List.not_mem_nil, or_false, not_or]
    simp_all
  all_goals simp [EventBody.Representable, isWord_u64At, fits_i64At]

theorem representable_eventOf (sides : SideCode) (r : List UInt8) :
    (eventOf sides r).Representable := by
  rw [Event.Representable, eventOf]
  dsimp only
  exact ⟨fits_i64At 0 r, representable_bodyOf sides r⟩

/-- Every event in range is written as one record and read back, and every record, whatever
its bytes, is read as an event in range, which survives being written again. -/
theorem record_round_trip (sides : SideCode) :
    (∀ e : Event, e.Representable →
        (recordOf sides e).length = recordSize ∧ eventOf sides (recordOf sides e) = e) ∧
      ∀ r : List UInt8, (eventOf sides r).Representable ∧
        eventOf sides (recordOf sides (eventOf sides r)) = eventOf sides r := by
  refine ⟨fun e h => ⟨length_recordOf sides e, eventOf_recordOf sides h⟩, fun r => ?_⟩
  have h := representable_eventOf sides r
  exact ⟨h, eventOf_recordOf sides h⟩

/-- The sides in the order of the enumeration. -/
def twoSides : SideCode where
  code
    | .buy => 0
    | .sell => 1
  side b := if b = 0 then .buy else .sell
  side_code s := by cases s <;> rfl

/-- A sale before the epoch. -/
theorem record_round_trip_trade :
    (recordOf twoSides (Event.makeTrade (-5) 7 100 3 .sell)).length = recordSize ∧
      eventOf twoSides (recordOf twoSides (Event.makeTrade (-5) 7 100 3 .sell)) =
        Event.makeTrade (-5) 7 100 3 .sell :=
  (record_round_trip twoSides).1 (Event.makeTrade (-5) 7 100 3 .sell)
    ⟨by decide, by decide, by decide⟩

/-- The record of the default event is the one that the reader starts with. -/
example (sides : SideCode) : recordOf sides {} = defaultRecord := rfl

end EventLayout

end UltraBacktest
