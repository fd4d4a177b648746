import UsbProxy.Controller.Client
import UsbProxy.Protocol.Canonical

/-!
# The client and the server speak one language

The formats of the client name the fields that the codecs of the server take at fixed offsets.
-/

namespace UsbProxy

open Bits Codec Struct

/-! ### Fields at offsets -/

theorem number_append (l l' : List Byte) :
    number (l ++ l') = number l * 256 ^ l'.length + number l' := by
  induction l' using List.reverseRecOn with
  | nil => simp [number]
  | append_singleton l' b ih =>
    rw [← List.append_assoc, number_concat, number_concat, ih, List.length_append,
      List.length_singleton, Nat.pow_succ]
    ring

section

variable {p : List Byte} {i : ℕ}

theorem number_slice_one (h : i + 1 ≤ p.length) : number (slice p i 1) = byteAt p i := by
  rw [slice_one p (by omega) 0]
  simp [number, byteAt]

theorem number_slice_two (h : i + 2 ≤ p.length) : number (slice p i 2) = get16 p i := by
  rw [← slice_append p i 1 1, number_append, number_slice_one (by omega),
    number_slice_one (by omega), slice_one p (by omega) 0, List.length_singleton]
  rfl

theorem number_slice_four (h : i + 4 ≤ p.length) : number (slice p i 4) = get32 p i := by
  have hlength : (slice p (i + 2) 2).length = 2 := by
    simp only [slice, List.length_take, List.length_drop]
    omega
  rw [← slice_append p i 2 2, number_append, number_slice_two (by omega),
    number_slice_two (by omega), hlength]
  rfl

theorem number_slice_eight (h : i + 8 ≤ p.length) : number (slice p i 8) = get64 p i := by
  have hlength : (slice p (i + 4) 4).length = 4 := by
    simp only [slice, List.length_take, List.length_drop]
    omega
  rw [← slice_append p i 4 4, number_append, number_slice_four (by omega),
    number_slice_four (by omega), hlength]
  rfl

theorem toSigned_get32 (p : List Byte) (i : ℕ) : toSigned 4 (get32 p i) = getI32 p i := by
  have := get32_lt p i
  unfold toSigned half getI32
  split_ifs <;> omega

/-! ### The formats of the client -/

theorem unpack_clickRequest (h : p.length = 40) :
    unpack clickRequestFormat p =
      [.bytes (p.take 4), .int (byteAt p 4), .int (byteAt p 5), .int (byteAt p 6),
        .int (byteAt p 7), .int (get64 p 8), .int (get64 p 16), .int (get32 p 24),
        .int (get32 p 28), .int (get32 p 32), .int (get32 p 36)] := by
  simp only [clickRequestFormat, unpack, List.drop_drop, ← slice.eq_1, Nat.reduceAdd]
  simp (disch := omega) only [number_slice_one, number_slice_four, number_slice_eight]

theorem unpack_clickAck (h : p.length = 48) :
    unpack clickAckFormat p =
      [.bytes (p.take 4), .int (byteAt p 4), .int (byteAt p 5), .int (byteAt p 6),
        .int (byteAt p 7), .int (get64 p 8), .int (get64 p 16), .int (get32 p 24),
        .int (get32 p 28), .int (get64 p 32), .int (get16 p 40), .int (get16 p 42),
        .int (get32 p 44)] := by
  simp only [clickAckFormat, unpack, List.drop_drop, ← slice.eq_1, Nat.reduceAdd]
  simp (disch := omega) only [number_slice_one, number_slice_two, number_slice_four,
    number_slice_eight]

theorem unpack_query (h : p.length = 24) :
    unpack queryFormat p =
      [.bytes (p.take 4), .int (byteAt p 4), .int (get64 p 8), .int (get64 p 16)] := by
  simp only [queryFormat, unpack, List.drop_drop, ← slice.eq_1, Nat.reduceAdd]
  simp (disch := omega) only [number_slice_one, number_slice_eight]

theorem unpack_moveRequest (h : p.length = 80) :
    unpack moveRequestFormat p =
      [.bytes (p.take 4), .int (byteAt p 4), .int (byteAt p 5), .int (byteAt p 6),
        .int (byteAt p 7), .int (get64 p 8), .int (get64 p 16), .int (get64 p 24),
        .int (get64 p 32), .int (getI32 p 40), .int (getI32 p 44), .int (get32 p 48),
        .int (get32 p 52), .int (get32 p 56), .int (get32 p 60), .int (get32 p 64)] := by
  simp only [moveRequestFormat, unpack, List.drop_drop, ← slice.eq_1, Nat.reduceAdd]
  simp (disch := omega) only [number_slice_one, number_slice_four, number_slice_eight,
    toSigned_get32]

theorem unpack_ids (h : 40 ≤ p.length) :
    unpackFrom idsFormat p 8 =
      [.int (get64 p 8), .int (get64 p 16), .int (get64 p 24), .int (get64 p 32)] := by
  simp only [unpackFrom, idsFormat, unpack, List.drop_drop, ← slice.eq_1, Nat.reduceAdd]
  simp (disch := omega) only [number_slice_eight]

theorem unpack_limits (h : 60 ≤ p.length) :
    unpackFrom limitsFormat p 40 =
      [.int (get32 p 40), .int (getI32 p 44), .int (getI32 p 48), .int (getI32 p 52),
        .int (getI32 p 56)] := by
  simp only [unpackFrom, limitsFormat, unpack, List.drop_drop, ← slice.eq_1, Nat.reduceAdd]
  simp (disch := omega) only [number_slice_four, toSigned_get32]

theorem unpack_layout (h : 76 ≤ p.length) :
    unpackFrom layoutFormat p 64 = [.int (get64 p 64), .int (get32 p 72)] := by
  simp only [unpackFrom, layoutFormat, unpack, List.drop_drop, ← slice.eq_1, Nat.reduceAdd]
  simp (disch := omega) only [number_slice_four, number_slice_eight]

theorem unpack_ledger (h : 72 ≤ p.length) :
    unpackFrom ledgerFormat p 40 =
      [.int (getI32 p 40), .int (getI32 p 44), .int (getI32 p 48), .int (getI32 p 52),
        .int (getI32 p 56), .int (getI32 p 60), .int (get64 p 64)] := by
  simp only [unpackFrom, ledgerFormat, unpack, List.drop_drop, ← slice.eq_1, Nat.reduceAdd]
  simp (disch := omega) only [number_slice_four, number_slice_eight, toSigned_get32]

end

/-! ### UPC1 -/

theorem packed_ok {fields : List Field} {values : List Value} {p : List Byte}
    (h : packed fields values = .ok p) : pack fields values = some p := by
  unfold packed at h
  split at h
  · rename_i q hq
    cases h
    exact hq
  · cases h

/-- A UPC1 packet of the client is accepted, with the values it packed. -/
theorem clickRequest_parsed (operation : ClickProtocol.Operation)
    {version op button session command count pressUs intervalUs : ℤ} {p : List Byte}
    (h : packed clickRequestFormat
      [.bytes (ascii "UPC1"), .int version, .int op, .int button, .int 0, .int session,
        .int command, .int count, .int pressUs, .int intervalUs, .int 0] = .ok p)
    (hversion : version = 1 ∨ version = 2) (hsession : session ≠ 0) (hcommand : command ≠ 0)
    (hop : ClickProtocol.operationOf op.toNat = some operation)
    (hrelease : operation = .releaseAll → button = 0 ∧ count = 0 ∧ pressUs = 0 ∧ intervalUs = 0) :
    ∃ r, ClickProtocol.parse p = some r ∧ r.operation = operation ∧ (r.version : ℤ) = version ∧
      (r.button : ℤ) = button ∧ (r.session : ℤ) = session ∧ (r.command : ℤ) = command ∧
      (r.count : ℤ) = count ∧ (r.pressUs : ℤ) = pressUs ∧ (r.intervalUs : ℤ) = intervalUs := by
  have hpack := packed_ok h
  have hlength : p.length = 40 := pack_length hpack
  have hread := unpack_pack hpack ⟨rfl, trivial⟩
  rw [unpack_clickRequest hlength] at hread
  simp only [List.cons.injEq, Value.bytes.injEq, Value.int.injEq, and_true] at hread
  obtain ⟨htag, h4, h5, h6, h7, h8, h16, h24, h28, h32, h36⟩ := hread
  have hop' : ClickProtocol.operationOf (byteAt p 5) = some operation := by
    rw [← hop, ← h5, Int.toNat_natCast]
  refine ⟨{ operation, button := byteAt p 6, session := get64 p 8, command := get64 p 16
            version := byteAt p 4, count := get32 p 24, pressUs := get32 p 28
            intervalUs := get32 p 32 }, ?_, rfl, h4, h6, h8, h16, h24, h28, h32⟩
  unfold ClickProtocol.parse
  rw [if_neg, hop']
  · dsimp only
    rw [if_neg (by omega), if_neg]
    rintro ⟨hrel, hfields⟩
    obtain ⟨hb, hc, hp, hi⟩ := hrelease hrel
    omega
  · simp only [hlength, hasTag, htag, ClickProtocol.requestSize, ClickProtocol.version1,
      ClickProtocol.version2, beq_self_eq_true, Bool.true_eq_false, false_or]
    omega

theorem scheduleClicks_parsed {self self' : MouseProxy} {button count pressMs intervalMs version : ℤ}
    {p : List Byte}
    (h : self.scheduleClicks button count pressMs intervalMs version = (self', .ok p)) :
    ∃ r, ClickProtocol.parse p = some r ∧ r.operation = .schedule ∧ (r.version : ℤ) = version ∧
      (r.button : ℤ) = button ∧ r.session = self.session ∧ r.command = self.command + 1 ∧
      (r.count : ℤ) = count ∧ (r.pressUs : ℤ) = pressMs * 1000 ∧
      (r.intervalUs : ℤ) = intervalMs * 1000 := by
  unfold MouseProxy.scheduleClicks at h
  split at h
  · cases h
  · rename_i hversion
    obtain ⟨rfl, hpacked⟩ := Prod.mk.inj h
    obtain ⟨r, hr, hop, hv, hb, hs, hc, hcount, hp, hi⟩ := clickRequest_parsed .schedule hpacked (by omega)
      (by have := self.session_range; show ((self.session : ℕ) : ℤ) ≠ 0; omega)
      (by show ((self.command + 1 : ℕ) : ℤ) ≠ 0; omega) rfl (by simp)
    exact ⟨r, hr, hop, hv, hb, Int.ofNat_inj.mp hs, Int.ofNat_inj.mp hc, hcount, hp, hi⟩

theorem releaseAll_parsed {self self' : MouseProxy} {version : ℤ} {p : List Byte}
    (h : self.releaseAll version = (self', .ok p)) :
    ∃ r, ClickProtocol.parse p = some r ∧ r.operation = .releaseAll ∧ (r.version : ℤ) = version ∧
      r.button = 0 ∧ r.session = self.session ∧ r.command = self.command + 1 ∧
      r.count = 0 ∧ r.pressUs = 0 ∧ r.intervalUs = 0 := by
  unfold MouseProxy.releaseAll at h
  split at h
  · cases h
  · rename_i hversion
    obtain ⟨rfl, hpacked⟩ := Prod.mk.inj h
    obtain ⟨r, hr, hop, hv, hb, hs, hc, hcount, hp, hi⟩ := clickRequest_parsed .releaseAll hpacked (by omega)
      (by have := self.session_range; show ((self.session : ℕ) : ℤ) ≠ 0; omega)
      (by show ((self.command + 1 : ℕ) : ℤ) ≠ 0; omega) rfl (by simp)
    exact ⟨r, hr, hop, hv, Int.ofNat_inj.mp hb, Int.ofNat_inj.mp hs, Int.ofNat_inj.mp hc,
      Int.ofNat_inj.mp hcount, Int.ofNat_inj.mp hp, Int.ofNat_inj.mp hi⟩

/-! ### UPM1 and UPQ1 -/

section

variable {p : List Byte} {b : Byte} {i j : ℕ}

theorem byteAt_set (h : i ≠ j) : byteAt (p.set j b) i = byteAt p i := by
  rw [byteAt, byteAt, List.getD_eq_getElem?_getD, List.getElem?_set_ne (Ne.symm h),
    ← List.getD_eq_getElem?_getD]

theorem byteAt_set_self (h : j < p.length) : byteAt (p.set j b) j = b.toNat := by
  rw [byteAt, List.getD_eq_getElem?_getD, List.getElem?_set_self h]
  rfl

theorem get32_set (h : j < i) : get32 (p.set j b) i = get32 p i := by
  simp only [get32, get16]
  simp (disch := omega) only [byteAt_set]

theorem get64_set (h : j < i) : get64 (p.set j b) i = get64 p i := by
  simp (disch := omega) only [get64, get32_set]

theorem getI32_set (h : j < i) : getI32 (p.set j b) i = getI32 p i := by
  simp (disch := omega) only [getI32, get32_set]

theorem zeroBytes_set {n : ℕ} (h : j < i) : zeroBytes (p.set j b) i n = zeroBytes p i n := by
  unfold zeroBytes
  congr 1
  funext k
  rw [byteAt_set (by omega)]

end

/-- The UPM1 packet of the client, with any of its operations, is accepted with the values of the
packet. -/
theorem moveRequest_parsed (op : MoveProtocol.Operation) {flags button session command epoch
    generation dx dy settleUs pressUs returnUs : ℤ} {p : List Byte}
    (h : packed moveRequestFormat
      [.bytes (ascii "UPM1"), .int 1, .int 1, .int flags, .int button, .int session,
        .int command, .int epoch, .int generation, .int dx, .int dy, .int settleUs, .int pressUs,
        .int returnUs, .int 5000000, .int 1500000] = .ok p)
    (hflags : flags ≤ 1) (hbutton : button ≤ 8)
    (hids : session ≠ 0 ∧ command ≠ 0 ∧ epoch ≠ 0 ∧ generation ≠ 0)
    (hdx : -32767 ≤ dx ∧ dx ≤ 32767) (hdy : -32767 ≤ dy ∧ dy ≤ 32767)
    (htiming : settleUs ≤ 1000000 ∧ pressUs ≤ 1000000 ∧ returnUs ≤ 1000000) :
    ∃ r, MoveProtocol.parse (p.set 5 (BitVec.ofNat 8 op.code)) = some r ∧ r.operation = op ∧
      (r.flags : ℤ) = flags ∧ (r.button : ℤ) = button ∧ (r.session : ℤ) = session ∧
      (r.command : ℤ) = command ∧ (r.epoch : ℤ) = epoch ∧ (r.generation : ℤ) = generation ∧
      r.dx = dx ∧ r.dy = dy ∧ (r.settleUs : ℤ) = settleUs ∧ (r.pressUs : ℤ) = pressUs ∧
      (r.returnUs : ℤ) = returnUs ∧ r.budgetUs = 5000000 ∧ r.waitUs = 1500000 := by
  have hpack := packed_ok h
  have hlength : p.length = 80 := pack_length hpack
  have hread := unpack_pack hpack ⟨rfl, trivial⟩
  rw [unpack_moveRequest hlength] at hread
  simp only [List.cons.injEq, Value.bytes.injEq, Value.int.injEq, and_true] at hread
  obtain ⟨htag, h4, h5, h6, h7, h8, h16, h24, h32, h40, h44, h48, h52, h56, h60, h64⟩ := hread
  have hzero : zeroBytes p 68 12 = true := by
    have hpad : moveRequestFormat = moveRequestFormat.dropLast ++ [.pad 12] := rfl
    rw [hpad, pack_concat_pad] at hpack
    obtain ⟨q, hq, rfl⟩ := Option.map_eq_some_iff.mp hpack
    refine slice_zeroBytes (slice_append_right ?_ (by simp))
    exact pack_length hq
  set q := p.set 5 (BitVec.ofNat 8 op.code) with hq
  have hqlength : q.length = 80 := by rw [hq, List.length_set, hlength]
  have hqtag : hasTag q "UPM1" = true := by
    rw [hasTag, hq, List.take_set_of_le (by omega), htag, beq_self_eq_true]
  have hqop : MoveProtocol.operationOf (byteAt q 5) = some op := by
    rw [hq, byteAt_set_self (by omega)]
    cases op <;> rfl
  have hqzero : zeroBytes q 68 12 = true := by rw [hq, zeroBytes_set (by omega), hzero]
  refine ⟨{ operation := op, flags := byteAt q 6, button := byteAt q 7, session := get64 q 8
            command := get64 q 16, epoch := get64 q 24, generation := get64 q 32
            dx := getI32 q 40, dy := getI32 q 44, settleUs := get32 q 48, pressUs := get32 q 52
            returnUs := get32 q 56, budgetUs := get32 q 60, waitUs := get32 q 64 }, ?_, rfl, ?_⟩
  · unfold MoveProtocol.parse
    rw [if_neg, hqop]
    · dsimp only
      rw [if_pos]
      simp (disch := omega) only [hq, byteAt_set, get32_set, get64_set, getI32_set]
      rw [h40, h44]
      refine ⟨?_, ?_, ?_, ?_, hdx.1, hdx.2, hdy.1, hdy.2, ?_, ?_, ?_, ?_, ?_, ?_, ?_⟩ <;> omega
    · simp only [hqlength, hqtag, hqzero, MoveProtocol.requestSize, Bool.true_eq_false, false_or,
        or_false]
      simp (disch := omega) only [hq, byteAt_set]
      omega
  · simp (disch := omega) only [hq, byteAt_set, get32_set, get64_set, getI32_set]
    exact ⟨h6, h7, h8, h16, h24, h32, h40, h44, h48, h52, h56, by omega, by omega⟩

/-- The packet as the client first sends it is an Execute. -/
theorem moveRequest_execute {values : List Value} {p : List Byte}
    (h : packed moveRequestFormat (.bytes (ascii "UPM1") :: .int 1 :: .int 1 :: values) = .ok p) :
    p.set 5 (BitVec.ofNat 8 MoveProtocol.Operation.execute.code) = p := by
  obtain ⟨q, hq, rfl⟩ := Option.map_eq_some_iff.mp (packed_ok h)
  obtain ⟨q', hq', rfl⟩ := pack_unsigned hq
  obtain ⟨q'', -, rfl⟩ := pack_unsigned hq'
  rfl

theorem capabilityQuery_parsed {self : MouseProxy} {bits : BitVec 64} {p : List Byte}
    (h : self.capabilityQuery (randomId bits) = .ok p) :
    MoveProtocol.parseQuery p = some (self.session, randomId bits) := by
  have hpack := packed_ok h
  have hlength : p.length = 24 := pack_length hpack
  have hread := unpack_pack hpack ⟨rfl, trivial⟩
  rw [unpack_query hlength] at hread
  simp only [List.cons.injEq, Value.bytes.injEq, Value.int.injEq, and_true] at hread
  obtain ⟨htag, h4, h8, h16⟩ := hread
  have hzero : zeroBytes p 5 3 = true := by
    obtain ⟨q, hq, rfl⟩ := Option.map_eq_some_iff.mp hpack
    obtain ⟨q', hq', rfl⟩ := pack_unsigned hq
    obtain ⟨q'', -, rfl⟩ := Option.map_eq_some_iff.mp hq'
    refine slice_zeroBytes ?_
    rw [← List.append_assoc, ← List.append_assoc, slice_append_left (by simp [ascii])]
    exact slice_append_right (by simp [ascii]) rfl
  have hsession := self.session_range
  have htoken := randomId_range bits
  unfold MoveProtocol.parseQuery
  rw [if_neg, if_pos (by omega), Int.ofNat_inj.mp h8, Int.ofNat_inj.mp h16]
  simp only [hlength, hasTag, htag, hzero, MoveProtocol.querySize, beq_self_eq_true,
    Bool.true_eq_false, false_or, or_false]
  omega

/-- What the client asks for, it gets. -/
structure MoveCarried (client : MouseProxy) (caps : CapabilityReply)
    (dx dy button settleMs pressMs returnMs : ℤ) (onMidpoint : Bool)
    (op : MoveProtocol.Operation) (r : MoveProtocol.Request) : Prop where
  operation : r.operation = op
  flags : r.flags = onMidpoint.toNat
  button : (r.button : ℤ) = button
  session : r.session = client.session
  command : r.command = client.command + 1
  epoch : (r.epoch : ℤ) = caps.epoch
  generation : (r.generation : ℤ) = caps.generation
  displacement : r.dx = dx ∧ r.dy = dy
  settleUs : (r.settleUs : ℤ) = settleMs * 1000
  pressUs : (r.pressUs : ℤ) = max (pressMs * 1000) caps.pollUs
  returnUs : (r.returnUs : ℤ) = returnMs * 1000
  limits : r.budgetUs = 5000000 ∧ r.waitUs = 1500000

theorem capabilityReply_ready {session token : ℤ} {reply : List Byte} {caps : CapabilityReply}
    (h : capabilityReply session token reply = some caps) (hready : caps.ready = true) :
    caps.epoch ≠ 0 ∧ caps.generation ≠ 0 := by
  unfold capabilityReply at h
  dsimp only at h
  split_ifs at h with h1 h2 h3 h4
  cases h
  simp only [bne_iff_ne] at hready
  push Not at h4
  exact ⟨h4.1, (h4.2 hready).1⟩

theorem moveActionReturn_parsed {self self' : MouseProxy} {token : ℤ} {reply : List Byte}
    {caps : CapabilityReply} {dx dy button settleMs pressMs returnMs : ℤ} {onMidpoint : Bool}
    {base : List Byte} (hcaps : capabilityReply self.session token reply = some caps)
    (h : self.moveActionReturn caps dx dy button settleMs pressMs returnMs onMidpoint =
      (self', .ok base)) (op : MoveProtocol.Operation) :
    ∃ r, MoveProtocol.parse (base.set 5 (BitVec.ofNat 8 op.code)) = some r ∧
      MoveCarried self caps dx dy button settleMs pressMs returnMs onMidpoint op r := by
  unfold MouseProxy.moveActionReturn at h
  split at h
  · cases h
  · rename_i hready
    split at h
    · cases h
    · rename_i hrange
      dsimp only at h
      split at h
      · cases h
      · rename_i htiming
        obtain ⟨rfl, hpacked⟩ := Prod.mk.inj h
        have hids := capabilityReply_ready hcaps (by simpa using hready)
        have hsession := self.session_range
        simp only [List.any_cons, List.any_nil, Bool.or_false, Bool.or_eq_true, decide_eq_true_eq,
          not_or, not_lt] at htiming
        have hflag : onMidpoint.toInt ≤ 1 := by cases onMidpoint <;> decide
        obtain ⟨r, hr, hop, hf, hb, hs, hc, he, hg, hx, hy, ht, hp, hret, hbudget, hwait⟩ :=
          moveRequest_parsed op hpacked hflag (by omega)
            ⟨by show ((self.session : ℕ) : ℤ) ≠ 0; omega,
              by show ((self.command + 1 : ℕ) : ℤ) ≠ 0; omega, hids.1, hids.2⟩
            (by omega) (by omega) (by omega)
        refine ⟨r, hr, hop, ?_, hb, Int.ofNat_inj.mp hs, Int.ofNat_inj.mp hc, he, hg, ⟨hx, hy⟩, ht,
          hp, hret, hbudget, hwait⟩
        cases onMidpoint <;> exact Int.ofNat_inj.mp hf

/-! ### Replies -/

theorem clickReply_parsed {p : List Byte} {a : ClickProtocol.Ack}
    (h : ClickProtocol.parseAck p = some a) :
    clickReply p = some {
      version := a.version, status := clickStatusName a.status.code, statusCode := a.status.code
      button := a.button, session := a.session, command := a.command
      acceptedClicks := a.accepted, completedClicks := a.completed, serverEpoch := a.serverEpoch
      queueDepth := a.queueDepth } := by
  unfold ClickProtocol.parseAck at h
  split at h
  · cases h
  · rename_i hpre
    push Not at hpre
    obtain ⟨hlength, htag, hversion, h7, h42, h44⟩ := hpre
    have hlength : p.length = 48 := hlength
    obtain ⟨status, hstatus, rfl⟩ := Option.map_eq_some_iff.mp h
    have hcode := ClickProtocol.statusOf_code hstatus
    rw [Bool.ne_false_iff, hasTag, beq_iff_eq] at htag
    unfold ClickProtocol.version1 ClickProtocol.version2 at hversion
    unfold clickReply
    rw [if_neg (by rw [htag, hlength]; simp [size, clickAckFormat, Field.width]),
      unpack_clickAck hlength]
    simp only [intAt, List.getElem?_cons_succ, List.getElem?_cons_zero, h7, h42, h44, hcode]
    rw [if_neg (by omega)]

/-- The flag byte of a UPR1 packet. -/
theorem flagByte (x : Byte) :
    (x &&& ~~~7#8 ≠ 0 ↔ 7 < x.toNat) ∧ (x &&& 1#8 != 0) = x.toNat.testBit 0 ∧
      (x &&& 2#8 != 0) = x.toNat.testBit 1 ∧ (x &&& 4#8 != 0) = x.toNat.testBit 2 := by
  revert x
  decide

theorem moveReply_parsed {p : List Byte} {a : MoveProtocol.Ack}
    (h : MoveProtocol.parseAck p = some a) :
    moveReply p = some {
      status := MoveProtocol.statusName a.status, statusCode := a.status.code
      stage := a.stage.code, uncertain := a.flags.testBit 0, pressed := a.flags.testBit 1
      released := a.flags.testBit 2, session := a.session, command := a.command
      epoch := a.epoch, generation := a.generation, outward := (a.outX, a.outY)
      returned := (a.returnX, a.returnY), remaining := (a.residualX, a.residualY)
      writtenNs := a.writtenNs } := by
  unfold MoveProtocol.parseAck at h
  split at h
  · cases h
  · rename_i hpre
    push Not at hpre
    obtain ⟨hlength, htag, h4, h7, hzero⟩ := hpre
    have hlength : p.length = 96 := hlength
    split at h
    · rename_i status stage hstatus hstage
      dsimp only at h
      split at h
      · cases h
        have hcode := MoveProtocol.statusOf_code hstatus
        have hstage := MoveProtocol.stageOf_code hstage
        have hcodes : 1 ≤ status.code ∧ status.code ≤ 15 := by cases status <;> decide
        have hstages : stage.code ≤ 9 := by cases stage <;> decide
        have hname : moveStatusNames.getD status.code "" = MoveProtocol.statusName status := by
          cases status <;> rfl
        obtain ⟨hmask, hbit0, hbit1, hbit2⟩ := flagByte (p.getD 7 0)
        rw [Bool.ne_false_iff] at htag hzero
        rw [hasTag, beq_iff_eq] at htag
        unfold moveReply
        dsimp only
        rw [if_neg (by rw [htag, hlength, h4]; simp), if_neg, unpack_ids (by omega),
          unpack_ledger (by omega), ← hcode, hbit0, hbit1, hbit2, hname, hstage]
        · rfl
        · rw [hmask, anyFrom, hlength, hzero]
          unfold byteAt at *
          simp only [Bool.not_true, Bool.false_eq_true, or_false]
          omega
      · cases h
    · cases h

theorem capabilityReply_parsed {p : List Byte} {c : MoveProtocol.Capabilities}
    (h : MoveProtocol.parseCapabilities p = some c) :
    capabilityReply c.session c.token p = some {
      ready := c.ready, buttons := c.buttons, epoch := c.epoch, generation := c.generation
      pollUs := c.pollUs, xmin := c.xmin, xmax := c.xmax, ymin := c.ymin, ymax := c.ymax
      layout := c.layout, maxSegments := c.maxSegments } := by
  obtain ⟨⟨hlength, htag, h4, h5, h7, h60, h76⟩, rfl, husable⟩ :=
    MoveProtocol.parseCapabilities_iff.mp h
  have hlength : p.length = 80 := hlength
  rw [hasTag, beq_iff_eq] at htag
  unfold MoveProtocol.Capabilities.Usable MoveProtocol.readCapabilities at husable
  simp only [bne_iff_ne] at husable
  obtain ⟨-, -, hepoch, hready⟩ := husable
  unfold capabilityReply
  dsimp only
  rw [if_neg (by rw [htag, hlength, h4]; simp), unpack_ids (by omega), unpack_limits (by omega),
    unpack_layout (by omega), if_neg, if_neg, if_neg]
  · rfl
  · simp only [intAt, List.getElem?_cons_succ, List.getElem?_cons_zero]
    rintro (hzero | ⟨hset, hwrong⟩)
    · omega
    · have := hready hset
      omega
  · simp only [anyFrom, hlength, h60, h76, Bool.not_true, Bool.false_eq_true, or_false]
    omega
  · simp [intAt, MoveProtocol.readCapabilities]

/-! ### What the client can build -/

theorem exists_packed_iff {fields : List Field} {values : List Value} :
    (∃ p, packed fields values = .ok p) ↔ Fits fields values := by
  rw [← exists_pack_iff]
  unfold packed
  cases pack fields values <;> simp

theorem scheduleClicks_builds {self : MouseProxy} {button count pressMs intervalMs version : ℤ} :
    (∃ self' p, self.scheduleClicks button count pressMs intervalMs version = (self', .ok p)) ↔
      (version = 1 ∨ version = 2) ∧ (0 ≤ button ∧ button < 2 ^ 8) ∧ self.command + 1 < 2 ^ 64 ∧
        (0 ≤ count ∧ count < 2 ^ 32) ∧ (0 ≤ pressMs * 1000 ∧ pressMs * 1000 < 2 ^ 32) ∧
        0 ≤ intervalMs * 1000 ∧ intervalMs * 1000 < 2 ^ 32 := by
  have hsession := self.session_range
  unfold MouseProxy.scheduleClicks
  by_cases hversion : version ≠ 1 ∧ version ≠ 2
  · rw [if_pos hversion]
    refine iff_of_false (by simp) fun h => ?_
    omega
  · rw [if_neg hversion]
    simp only [Prod.mk.injEq, exists_and_left, exists_eq_left', exists_packed_iff]
    simp only [clickRequestFormat, Fits, MouseProxy.nextCommand]
    norm_num
    omega

theorem releaseAll_builds {self : MouseProxy} {version : ℤ} :
    (∃ self' p, self.releaseAll version = (self', .ok p)) ↔
      (version = 1 ∨ version = 2) ∧ self.command + 1 < 2 ^ 64 := by
  have hsession := self.session_range
  unfold MouseProxy.releaseAll
  by_cases hversion : version ≠ 1 ∧ version ≠ 2
  · rw [if_pos hversion]
    refine iff_of_false (by simp) fun h => ?_
    omega
  · rw [if_neg hversion]
    simp only [Prod.mk.injEq, exists_and_left, exists_eq_left', exists_packed_iff]
    simp only [clickRequestFormat, Fits, MouseProxy.nextCommand]
    norm_num
    omega

theorem capabilityReply_range {session token : ℤ} {reply : List Byte} {caps : CapabilityReply}
    (h : capabilityReply session token reply = some caps) :
    (0 ≤ caps.epoch ∧ caps.epoch < 2 ^ 64) ∧ 0 ≤ caps.generation ∧ caps.generation < 2 ^ 64 := by
  unfold capabilityReply at h
  dsimp only at h
  split_ifs at h with h1 h2 h3 h4
  cases h
  have hlength : reply.length = 80 := by
    by_contra hne
    exact h1 (.inl hne)
  rw [unpack_ids (by omega)]
  have hepoch := get64_lt reply 24
  have hgeneration := get64_lt reply 32
  simp only [intAt, List.getElem?_cons_succ, List.getElem?_cons_zero]
  omega

theorem moveActionReturn_builds {self : MouseProxy} {token : ℤ} {reply : List Byte}
    {caps : CapabilityReply} {dx dy button settleMs pressMs returnMs : ℤ} {onMidpoint : Bool}
    (hcaps : capabilityReply self.session token reply = some caps) :
    (∃ self' base, self.moveActionReturn caps dx dy button settleMs pressMs returnMs onMidpoint =
        (self', .ok base)) ↔
      caps.ready = true ∧ (-32767 ≤ dx ∧ dx ≤ 32767) ∧ (-32767 ≤ dy ∧ dy ≤ 32767) ∧
        (0 ≤ button ∧ button ≤ 8) ∧ (0 ≤ settleMs * 1000 ∧ settleMs * 1000 ≤ 1000000) ∧
        (0 ≤ max (pressMs * 1000) caps.pollUs ∧ max (pressMs * 1000) caps.pollUs ≤ 1000000) ∧
        (0 ≤ returnMs * 1000 ∧ returnMs * 1000 ≤ 1000000) ∧ self.command + 1 < 2 ^ 64 := by
  have hsession := self.session_range
  obtain ⟨hepoch, hgeneration⟩ := capabilityReply_range hcaps
  unfold MouseProxy.moveActionReturn
  by_cases hready : caps.ready = true
  · rw [if_neg (by simp [hready])]
    by_cases hrange : ¬ (-32767 ≤ dx ∧ dx ≤ 32767) ∨ ¬ (-32767 ≤ dy ∧ dy ≤ 32767) ∨
        ¬ (0 ≤ button ∧ button ≤ 8)
    · rw [if_pos hrange]
      refine iff_of_false (by simp) fun h => ?_
      omega
    · rw [if_neg hrange]
      dsimp only
      simp only [List.any_cons, List.any_nil, Bool.or_false, Bool.or_eq_true, decide_eq_true_eq]
      generalize max (pressMs * 1000) caps.pollUs = pressUs
      by_cases htiming : (settleMs * 1000 < 0 ∨ 1000000 < settleMs * 1000) ∨
          (pressUs < 0 ∨ 1000000 < pressUs) ∨ returnMs * 1000 < 0 ∨ 1000000 < returnMs * 1000
      · rw [if_pos htiming]
        refine iff_of_false (by simp) fun h => ?_
        omega
      · have hflag : 0 ≤ onMidpoint.toInt ∧ onMidpoint.toInt < 256 := by
          cases onMidpoint <;> decide
        rw [if_neg htiming]
        simp only [Prod.mk.injEq, exists_and_left, exists_eq_left', exists_packed_iff]
        simp only [moveRequestFormat, Fits, MouseProxy.nextCommand, List.map_cons, List.map_nil,
          List.cons_append, List.nil_append, half, hready]
        norm_num
        omega
  · rw [if_pos (by simpa using hready)]
    exact iff_of_false (by simp) fun h => hready h.1

theorem capabilityQuery_builds (self : MouseProxy) (bits : BitVec 64) :
    ∃ p, self.capabilityQuery (randomId bits) = .ok p := by
  have hsession := self.session_range
  have htoken := randomId_range bits
  unfold MouseProxy.capabilityQuery
  rw [exists_packed_iff]
  simp only [queryFormat, Fits]
  norm_num
  omega

/-- **The client and the server speak one language.**  What the client packs the server's parsers
accept and decode to the values it put in, and the replies that the codecs accept the client decodes
to the same values.  The client builds a packet whenever the arguments pass its checks and fit the
fields. -/
theorem client_speaks :
    (∀ (self self' : MouseProxy) token reply caps dx dy button settleMs pressMs returnMs onMidpoint
        base, capabilityReply self.session token reply = some caps →
      self.moveActionReturn caps dx dy button settleMs pressMs returnMs onMidpoint =
        (self', .ok base) →
      let carried := MoveCarried self caps dx dy button settleMs pressMs returnMs onMidpoint
      (∃ r, MoveProtocol.parse base = some r ∧ carried .execute r) ∧
        (∃ r, MoveProtocol.parse (MouseProxy.midpoint base true) = some r ∧ carried .continue_ r) ∧
        ∃ r, MoveProtocol.parse (MouseProxy.midpoint base false) = some r ∧ carried .cancel r) ∧
    (∀ (self self' : MouseProxy) button count pressMs intervalMs version p,
      self.scheduleClicks button count pressMs intervalMs version = (self', .ok p) →
      ∃ r, ClickProtocol.parse p = some r ∧ r.operation = .schedule ∧ (r.version : ℤ) = version ∧
        (r.button : ℤ) = button ∧ r.session = self.session ∧ r.command = self.command + 1 ∧
        (r.count : ℤ) = count ∧ (r.pressUs : ℤ) = pressMs * 1000 ∧
        (r.intervalUs : ℤ) = intervalMs * 1000) ∧
    (∀ (self self' : MouseProxy) version p, self.releaseAll version = (self', .ok p) →
      ∃ r, ClickProtocol.parse p = some r ∧ r.operation = .releaseAll ∧ (r.version : ℤ) = version ∧
        r.button = 0 ∧ r.session = self.session ∧ r.command = self.command + 1 ∧
        r.count = 0 ∧ r.pressUs = 0 ∧ r.intervalUs = 0) ∧
    (∀ (self : MouseProxy) bits p, self.capabilityQuery (randomId bits) = .ok p →
      MoveProtocol.parseQuery p = some (self.session, randomId bits)) ∧
    (∀ p a, ClickProtocol.parseAck p = some a → clickReply p = some {
      version := a.version, status := clickStatusName a.status.code, statusCode := a.status.code
      button := a.button, session := a.session, command := a.command
      acceptedClicks := a.accepted, completedClicks := a.completed, serverEpoch := a.serverEpoch
      queueDepth := a.queueDepth }) ∧
    (∀ p a, MoveProtocol.parseAck p = some a → moveReply p = some {
      status := MoveProtocol.statusName a.status, statusCode := a.status.code
      stage := a.stage.code, uncertain := a.flags.testBit 0, pressed := a.flags.testBit 1
      released := a.flags.testBit 2, session := a.session, command := a.command
      epoch := a.epoch, generation := a.generation, outward := (a.outX, a.outY)
      returned := (a.returnX, a.returnY), remaining := (a.residualX, a.residualY)
      writtenNs := a.writtenNs }) ∧
    (∀ p c, MoveProtocol.parseCapabilities p = some c → capabilityReply c.session c.token p = some {
      ready := c.ready, buttons := c.buttons, epoch := c.epoch, generation := c.generation
      pollUs := c.pollUs, xmin := c.xmin, xmax := c.xmax, ymin := c.ymin, ymax := c.ymax
      layout := c.layout, maxSegments := c.maxSegments }) ∧
    (∀ (self : MouseProxy) token reply caps dx dy button settleMs pressMs returnMs onMidpoint,
      capabilityReply self.session token reply = some caps →
      ((∃ self' base, self.moveActionReturn caps dx dy button settleMs pressMs returnMs onMidpoint =
          (self', .ok base)) ↔
        caps.ready = true ∧ (-32767 ≤ dx ∧ dx ≤ 32767) ∧ (-32767 ≤ dy ∧ dy ≤ 32767) ∧
          (0 ≤ button ∧ button ≤ 8) ∧ (0 ≤ settleMs * 1000 ∧ settleMs * 1000 ≤ 1000000) ∧
          (0 ≤ max (pressMs * 1000) caps.pollUs ∧ max (pressMs * 1000) caps.pollUs ≤ 1000000) ∧
          (0 ≤ returnMs * 1000 ∧ returnMs * 1000 ≤ 1000000) ∧ self.command + 1 < 2 ^ 64)) ∧
    (∀ (self : MouseProxy) button count pressMs intervalMs version,
      (∃ self' p, self.scheduleClicks button count pressMs intervalMs version = (self', .ok p)) ↔
        (version = 1 ∨ version = 2) ∧ (0 ≤ button ∧ button < 2 ^ 8) ∧ self.command + 1 < 2 ^ 64 ∧
          (0 ≤ count ∧ count < 2 ^ 32) ∧ (0 ≤ pressMs * 1000 ∧ pressMs * 1000 < 2 ^ 32) ∧
          0 ≤ intervalMs * 1000 ∧ intervalMs * 1000 < 2 ^ 32) ∧
    (∀ (self : MouseProxy) version, (∃ self' p, self.releaseAll version = (self', .ok p)) ↔
      (version = 1 ∨ version = 2) ∧ self.command + 1 < 2 ^ 64) ∧
    ∀ (self : MouseProxy) bits, ∃ p, self.capabilityQuery (randomId bits) = .ok p := by
  refine ⟨fun self self' token reply caps dx dy button settleMs pressMs returnMs onMidpoint base
      hcaps h => ?_, fun _ _ _ _ _ _ _ _ => scheduleClicks_parsed, fun _ _ _ _ => releaseAll_parsed,
    fun _ _ _ => capabilityQuery_parsed, fun _ _ => clickReply_parsed, fun _ _ => moveReply_parsed,
    fun _ _ => capabilityReply_parsed,
    fun _ _ _ _ _ _ _ _ _ _ _ hcaps => moveActionReturn_builds hcaps,
    fun _ _ _ _ _ _ => scheduleClicks_builds, fun _ _ => releaseAll_builds,
    capabilityQuery_builds⟩
  have hexecute : base.set 5 (BitVec.ofNat 8 MoveProtocol.Operation.execute.code) = base := by
    unfold MouseProxy.moveActionReturn at h
    dsimp only at h
    split_ifs at h
    · cases h
    · cases h
    · cases h
    · exact moveRequest_execute (Prod.mk.inj h).2
  have hparsed := moveActionReturn_parsed hcaps h
  refine ⟨?_, hparsed .continue_, hparsed .cancel⟩
  rw [← hexecute]
  exact hparsed .execute

/-- The reply of a ready mouse in its first generation. -/
def readyMouse : MoveProtocol.Capabilities :=
  { ready := true, buttons := 7, session := 5, token := 9, epoch := 1, generation := 1, layout := 3
    pollUs := 1000, xmin := -127, xmax := 127, ymin := -127, ymax := 127 }

theorem client_speaks_readyMouse :
    ∃ caps base r, capabilityReply 5 9 readyMouse.packet = some caps ∧
      ((MouseProxy.connect 5).moveActionReturn caps (-300) 20 1 2 10 0 true).2 = .ok base ∧
      MoveProtocol.parse base = some r ∧ r.dx = -300 := by
  have hparse : MoveProtocol.parseCapabilities readyMouse.packet = some readyMouse := by
    decide +kernel
  have hcaps := client_speaks.2.2.2.2.2.2.1 _ _ hparse
  have hpacked : ((MouseProxy.connect 5).moveActionReturn
      { ready := true, buttons := 7, epoch := 1, generation := 1, pollUs := 1000, xmin := -127
        xmax := 127, ymin := -127, ymax := 127, layout := 3, maxSegments := 32 }
      (-300) 20 1 2 10 0 true).2.toBool = true := by decide +kernel
  generalize hmove : MouseProxy.moveActionReturn _ _ _ _ _ _ _ _ _ = result at hpacked
  obtain ⟨self', base | base⟩ := result
  · cases hpacked
  · obtain ⟨r, hr, hcarried⟩ := (client_speaks.1 _ _ _ _ _ _ _ _ _ _ _ _ _ hcaps hmove).1
    exact ⟨_, base, r, hcaps, congrArg Prod.snd hmove, hr, hcarried.displacement.1⟩

end UsbProxy
