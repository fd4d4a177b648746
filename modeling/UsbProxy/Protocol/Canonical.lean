import UsbProxy.Protocol.Click
import UsbProxy.Protocol.Move

/-!
# The control formats are canonical

Each of the six binary formats has one packet per value: what a parser accepts is the encoding of
the value it decodes, and a value whose encoding is accepted is decoded again.
-/

namespace UsbProxy

open Bits Codec

/-! ### The values of the C++ types -/

structure MoveProtocol.Request.Typed (r : MoveProtocol.Request) : Prop where
  flags : r.flags < 2 ^ 8
  button : r.button < 2 ^ 8
  session : r.session < 2 ^ 64
  command : r.command < 2 ^ 64
  epoch : r.epoch < 2 ^ 64
  generation : r.generation < 2 ^ 64
  dx : -2 ^ 31 ≤ r.dx ∧ r.dx < 2 ^ 31
  dy : -2 ^ 31 ≤ r.dy ∧ r.dy < 2 ^ 31
  settleUs : r.settleUs < 2 ^ 32
  pressUs : r.pressUs < 2 ^ 32
  returnUs : r.returnUs < 2 ^ 32
  budgetUs : r.budgetUs < 2 ^ 32
  waitUs : r.waitUs < 2 ^ 32

structure MoveProtocol.Ack.Typed (a : MoveProtocol.Ack) : Prop where
  flags : a.flags < 2 ^ 8
  session : a.session < 2 ^ 64
  command : a.command < 2 ^ 64
  epoch : a.epoch < 2 ^ 64
  generation : a.generation < 2 ^ 64
  writtenNs : a.writtenNs < 2 ^ 64
  outX : -2 ^ 31 ≤ a.outX ∧ a.outX < 2 ^ 31
  outY : -2 ^ 31 ≤ a.outY ∧ a.outY < 2 ^ 31
  returnX : -2 ^ 31 ≤ a.returnX ∧ a.returnX < 2 ^ 31
  returnY : -2 ^ 31 ≤ a.returnY ∧ a.returnY < 2 ^ 31
  residualX : -2 ^ 31 ≤ a.residualX ∧ a.residualX < 2 ^ 31
  residualY : -2 ^ 31 ≤ a.residualY ∧ a.residualY < 2 ^ 31

structure MoveProtocol.Capabilities.Typed (c : MoveProtocol.Capabilities) : Prop where
  buttons : c.buttons < 2 ^ 8
  session : c.session < 2 ^ 64
  token : c.token < 2 ^ 64
  epoch : c.epoch < 2 ^ 64
  generation : c.generation < 2 ^ 64
  layout : c.layout < 2 ^ 64
  pollUs : c.pollUs < 2 ^ 32
  maxSegments : c.maxSegments < 2 ^ 32
  xmin : -2 ^ 31 ≤ c.xmin ∧ c.xmin < 2 ^ 31
  xmax : -2 ^ 31 ≤ c.xmax ∧ c.xmax < 2 ^ 31
  ymin : -2 ^ 31 ≤ c.ymin ∧ c.ymin < 2 ^ 31
  ymax : -2 ^ 31 ≤ c.ymax ∧ c.ymax < 2 ^ 31

structure ClickProtocol.Request.Typed (r : ClickProtocol.Request) : Prop where
  version : r.version < 2 ^ 8
  button : r.button < 2 ^ 8
  session : r.session < 2 ^ 64
  command : r.command < 2 ^ 64
  count : r.count < 2 ^ 32
  pressUs : r.pressUs < 2 ^ 32
  intervalUs : r.intervalUs < 2 ^ 32

structure ClickProtocol.Ack.Typed (a : ClickProtocol.Ack) : Prop where
  version : a.version < 2 ^ 8
  button : a.button < 2 ^ 8
  session : a.session < 2 ^ 64
  command : a.command < 2 ^ 64
  serverEpoch : a.serverEpoch < 2 ^ 64
  accepted : a.accepted < 2 ^ 32
  completed : a.completed < 2 ^ 32
  queueDepth : a.queueDepth < 2 ^ 16

/-- A session and a token. -/
def QueryTyped (q : ℕ × ℕ) : Prop := q.1 < 2 ^ 64 ∧ q.2 < 2 ^ 64

namespace MoveProtocol

theorem operationOf_code {n : ℕ} {op : Operation} (h : operationOf n = some op) : op.code = n := by
  unfold operationOf at h
  split_ifs at h <;> cases h <;> simp_all [Operation.code]

theorem Operation.code_lt (op : Operation) : op.code < 2 ^ 8 := by cases op <;> decide

theorem Operation.code_injective : Function.Injective Operation.code := by
  intro a b h
  cases a <;> cases b <;> simp_all [Operation.code]

theorem statusOf_code {n : ℕ} {s : Status} (h : statusOf n = some s) : s.code = n :=
  beq_iff_eq.mp (List.find?_some (p := fun s : Status => s.code == n) h)

theorem Status.code_lt (s : Status) : s.code < 2 ^ 8 := by cases s <;> decide

theorem Status.code_injective : Function.Injective Status.code := by
  intro a b h
  cases a <;> cases b <;> first | rfl | cases h

theorem stageOf_code {n : ℕ} {s : Stage} (h : stageOf n = some s) : s.code = n :=
  beq_iff_eq.mp (List.find?_some (p := fun s : Stage => s.code == n) h)

theorem Stage.code_lt (s : Stage) : s.code < 2 ^ 8 := by cases s <;> decide

theorem Stage.code_injective : Function.Injective Stage.code := by
  intro a b h
  cases a <;> cases b <;> first | rfl | cases h

/-! ### UPM1 -/

theorem parse_packet {p : List Byte} {r : Request} (h : parse p = some r) : r.packet = p := by
  unfold parse at h
  split at h
  · cases h
  · rename_i hpre
    push Not at hpre
    obtain ⟨hlen, htag, hversion, -, -, hzero⟩ := hpre
    rw [Bool.ne_false_iff] at htag hzero
    have hlen : p.length = 80 := hlen
    split at h
    · cases h
    · rename_i op hop
      dsimp only at h
      split at h
      · cases h
        unfold Request.packet
        rw [hasTag_slice htag, operationOf_code hop, zeroBytes_slice hzero (by omega), ← hversion]
        simp (disch := omega) only [put8_byteAt, put64_get64, putI32_getI32, put32_get32,
          slice_zero_append, Nat.reduceAdd]
        exact slice_all p hlen
      · cases h

theorem parse_typed {p : List Byte} {r : Request} (h : parse p = some r) : r.Typed := by
  unfold parse at h
  split at h
  · cases h
  · split at h
    · cases h
    · dsimp only at h
      split at h
      · cases h
        exact ⟨byteAt_lt .., byteAt_lt .., get64_lt .., get64_lt .., get64_lt .., get64_lt ..,
          getI32_range .., getI32_range .., get32_lt .., get32_lt .., get32_lt .., get32_lt ..,
          get32_lt ..⟩
      · cases h

theorem packet_injective {r s : Request} (hr : r.Typed) (hs : s.Typed)
    (h : r.packet = s.packet) : r = s := by
  unfold Request.packet at h
  simp only [List.append_assoc] at h
  obtain ⟨-, h⟩ := List.append_inj h rfl
  obtain ⟨-, h⟩ := List.append_inj h rfl
  obtain ⟨hop, h⟩ := List.append_inj h rfl
  obtain ⟨hflags, h⟩ := List.append_inj h rfl
  obtain ⟨hbutton, h⟩ := List.append_inj h rfl
  obtain ⟨hsession, h⟩ := List.append_inj h rfl
  obtain ⟨hcommand, h⟩ := List.append_inj h rfl
  obtain ⟨hepoch, h⟩ := List.append_inj h rfl
  obtain ⟨hgeneration, h⟩ := List.append_inj h rfl
  obtain ⟨hdx, h⟩ := List.append_inj h rfl
  obtain ⟨hdy, h⟩ := List.append_inj h rfl
  obtain ⟨hsettle, h⟩ := List.append_inj h rfl
  obtain ⟨hpress, h⟩ := List.append_inj h rfl
  obtain ⟨hreturn, h⟩ := List.append_inj h rfl
  obtain ⟨hbudget, h⟩ := List.append_inj h rfl
  obtain ⟨hwait, -⟩ := List.append_inj h rfl
  have hop := Operation.code_injective (put8_inj r.operation.code_lt s.operation.code_lt hop)
  have hflags := put8_inj hr.flags hs.flags hflags
  have hbutton := put8_inj hr.button hs.button hbutton
  have hsession := put64_inj hr.session hs.session hsession
  have hcommand := put64_inj hr.command hs.command hcommand
  have hepoch := put64_inj hr.epoch hs.epoch hepoch
  have hgeneration := put64_inj hr.generation hs.generation hgeneration
  have hdx := putI32_inj hr.dx hs.dx hdx
  have hdy := putI32_inj hr.dy hs.dy hdy
  have hsettle := put32_inj hr.settleUs hs.settleUs hsettle
  have hpress := put32_inj hr.pressUs hs.pressUs hpress
  have hreturn := put32_inj hr.returnUs hs.returnUs hreturn
  have hbudget := put32_inj hr.budgetUs hs.budgetUs hbudget
  have hwait := put32_inj hr.waitUs hs.waitUs hwait
  cases r
  cases s
  simp_all only

theorem request_canonical : Canonical Request.packet parse Request.Typed :=
  .of_injective (fun _ _ => parse_packet) (fun _ _ => parse_typed)
    fun _ _ => packet_injective

theorem parse_length {p : List Byte} {r : Request} (h : parse p = some r) :
    p.length = requestSize := by
  unfold parse at h
  split at h
  · cases h
  · rename_i hpre
    push Not at hpre
    exact hpre.1

/-- `same` compares everything but the operation byte. -/
theorem same_iff {p q : List Byte} {a b : Request} (hp : parse p = some a) (hq : parse q = some b) :
    same a b = true ↔ ∀ i, i ≠ 5 → p[i]? = q[i]? := by
  have hset (r : Request) : { r with operation := .execute }.packet = r.packet.set 5 1 := by
    unfold Request.packet
    simp only [List.append_assoc]
    rw [List.set_append_right _ _ (show (ascii "UPM1").length ≤ 5 by decide),
      List.set_append_right _ _ (show (put8 1).length ≤ 5 - (ascii "UPM1").length by decide)]
    rfl
  unfold same
  rw [beq_iff_eq, hset, hset, parse_packet hp, parse_packet hq]
  constructor
  · intro h i hi
    have hget := congrArg (·[i]?) h
    rwa [List.getElem?_set_ne hi.symm, List.getElem?_set_ne hi.symm] at hget
  · intro h
    have hlen : p.length = q.length := (parse_length hp).trans (parse_length hq).symm
    refine List.ext_getElem? fun i => ?_
    rw [List.getElem?_set, List.getElem?_set]
    by_cases hi : 5 = i
    · rw [if_pos hi, if_pos hi, hlen]
    · rw [if_neg hi, if_neg hi]
      exact h i (Ne.symm hi)

/-! ### UPR1 -/

theorem parseAck_packet {p : List Byte} {a : Ack} (h : parseAck p = some a) : a.packet = p := by
  unfold parseAck at h
  split at h
  · cases h
  · rename_i hpre
    push Not at hpre
    obtain ⟨hlen, htag, hversion, -, hzero⟩ := hpre
    rw [Bool.ne_false_iff] at htag hzero
    have hlen : p.length = 96 := hlen
    split at h
    · rename_i status stage hstatus hstage
      dsimp only at h
      split at h
      · cases h
        unfold Ack.packet
        rw [hasTag_slice htag, statusOf_code hstatus, stageOf_code hstage,
          zeroBytes_slice hzero (by omega), ← hversion]
        simp (disch := omega) only [put8_byteAt, put64_get64, putI32_getI32, slice_zero_append,
          Nat.reduceAdd]
        exact slice_all p hlen
      · cases h
    · cases h

theorem parseAck_typed {p : List Byte} {a : Ack} (h : parseAck p = some a) : a.Typed := by
  unfold parseAck at h
  split at h
  · cases h
  · split at h
    · dsimp only at h
      split at h
      · cases h
        exact ⟨byteAt_lt .., get64_lt .., get64_lt .., get64_lt .., get64_lt .., get64_lt ..,
          getI32_range .., getI32_range .., getI32_range .., getI32_range .., getI32_range ..,
          getI32_range ..⟩
      · cases h
    · cases h

theorem ackPacket_injective {a b : Ack} (ha : a.Typed) (hb : b.Typed)
    (h : a.packet = b.packet) : a = b := by
  unfold Ack.packet at h
  simp only [List.append_assoc] at h
  obtain ⟨-, h⟩ := List.append_inj h rfl
  obtain ⟨-, h⟩ := List.append_inj h rfl
  obtain ⟨hstatus, h⟩ := List.append_inj h rfl
  obtain ⟨hstage, h⟩ := List.append_inj h rfl
  obtain ⟨hflags, h⟩ := List.append_inj h rfl
  obtain ⟨hsession, h⟩ := List.append_inj h rfl
  obtain ⟨hcommand, h⟩ := List.append_inj h rfl
  obtain ⟨hepoch, h⟩ := List.append_inj h rfl
  obtain ⟨hgeneration, h⟩ := List.append_inj h rfl
  obtain ⟨houtX, h⟩ := List.append_inj h rfl
  obtain ⟨houtY, h⟩ := List.append_inj h rfl
  obtain ⟨hreturnX, h⟩ := List.append_inj h rfl
  obtain ⟨hreturnY, h⟩ := List.append_inj h rfl
  obtain ⟨hresidualX, h⟩ := List.append_inj h rfl
  obtain ⟨hresidualY, h⟩ := List.append_inj h rfl
  obtain ⟨hwritten, -⟩ := List.append_inj h rfl
  have hstatus := Status.code_injective (put8_inj a.status.code_lt b.status.code_lt hstatus)
  have hstage := Stage.code_injective (put8_inj a.stage.code_lt b.stage.code_lt hstage)
  have hflags := put8_inj ha.flags hb.flags hflags
  have hsession := put64_inj ha.session hb.session hsession
  have hcommand := put64_inj ha.command hb.command hcommand
  have hepoch := put64_inj ha.epoch hb.epoch hepoch
  have hgeneration := put64_inj ha.generation hb.generation hgeneration
  have houtX := putI32_inj ha.outX hb.outX houtX
  have houtY := putI32_inj ha.outY hb.outY houtY
  have hreturnX := putI32_inj ha.returnX hb.returnX hreturnX
  have hreturnY := putI32_inj ha.returnY hb.returnY hreturnY
  have hresidualX := putI32_inj ha.residualX hb.residualX hresidualX
  have hresidualY := putI32_inj ha.residualY hb.residualY hresidualY
  have hwritten := put64_inj ha.writtenNs hb.writtenNs hwritten
  cases a
  cases b
  simp_all only

theorem ack_canonical : Canonical Ack.packet parseAck Ack.Typed :=
  .of_injective (fun _ _ => parseAck_packet) (fun _ _ => parseAck_typed)
    fun _ _ => ackPacket_injective

/-! ### UPQ1 -/

theorem parseQuery_packet {p : List Byte} {q : ℕ × ℕ} (h : parseQuery p = some q) :
    query q.1 q.2 = p := by
  unfold parseQuery at h
  split at h
  · cases h
  · rename_i hpre
    push Not at hpre
    obtain ⟨hlen, htag, hversion, hzero⟩ := hpre
    rw [Bool.ne_false_iff] at htag hzero
    have hlen : p.length = 24 := hlen
    split at h
    · cases h
      unfold query
      rw [hasTag_slice htag, zeroBytes_slice hzero (by omega), ← hversion]
      simp (disch := omega) only [put8_byteAt, put64_get64, slice_zero_append, Nat.reduceAdd]
      exact slice_all p hlen
    · cases h

theorem parseQuery_typed {p : List Byte} {q : ℕ × ℕ} (h : parseQuery p = some q) :
    QueryTyped q := by
  unfold parseQuery at h
  split at h
  · cases h
  · split at h
    · cases h
      exact ⟨get64_lt .., get64_lt ..⟩
    · cases h

theorem parseQuery_nonzero {p : List Byte} {q : ℕ × ℕ} (h : parseQuery p = some q) :
    q.1 ≠ 0 ∧ q.2 ≠ 0 := by
  unfold parseQuery at h
  split at h
  · cases h
  · split at h
    · rename_i hne
      cases h
      exact hne
    · cases h

theorem query_injective {a b : ℕ × ℕ} (ha : QueryTyped a) (hb : QueryTyped b)
    (h : query a.1 a.2 = query b.1 b.2) : a = b := by
  unfold query at h
  simp only [List.append_assoc] at h
  obtain ⟨-, h⟩ := List.append_inj h rfl
  obtain ⟨-, h⟩ := List.append_inj h rfl
  obtain ⟨-, h⟩ := List.append_inj h rfl
  obtain ⟨hsession, htoken⟩ := List.append_inj h rfl
  exact Prod.ext (put64_inj ha.1 hb.1 hsession) (put64_inj ha.2 hb.2 htoken)

theorem query_canonical : Canonical (fun q => query q.1 q.2) parseQuery QueryTyped :=
  .of_injective (fun _ _ => parseQuery_packet) (fun _ _ => parseQuery_typed)
    fun _ _ => query_injective

/-! ### UPI1 -/

/-- What `parse_capabilities` checks of the bytes. -/
def CapabilityShape (p : List Byte) : Prop :=
  p.length = capabilitySize ∧ hasTag p "UPI1" = true ∧ byteAt p 4 = 1 ∧ byteAt p 5 ≤ 1 ∧
    byteAt p 7 = 0 ∧ zeroBytes p 60 4 = true ∧ zeroBytes p 76 4 = true

/-- What `parse_capabilities` reads. -/
def readCapabilities (p : List Byte) : Capabilities :=
  { ready := byteAt p 5 != 0, buttons := byteAt p 6, session := get64 p 8, token := get64 p 16
    epoch := get64 p 24, generation := get64 p 32, pollUs := get32 p 40, xmin := getI32 p 44
    xmax := getI32 p 48, ymin := getI32 p 52, ymax := getI32 p 56, layout := get64 p 64
    maxSegments := get32 p 72 }

/-- What `parse_capabilities` checks of the values. -/
def Capabilities.Usable (c : Capabilities) : Prop :=
  c.session ≠ 0 ∧ c.token ≠ 0 ∧ c.epoch ≠ 0 ∧
    (c.ready = true → c.generation ≠ 0 ∧ c.layout ≠ 0 ∧ c.pollUs ≠ 0 ∧ c.xmin < 0 ∧
      0 < c.xmax ∧ c.ymin < 0 ∧ 0 < c.ymax ∧ -32768 ≤ c.xmin ∧ c.xmax ≤ 32767 ∧
      -32768 ≤ c.ymin ∧ c.ymax ≤ 32767 ∧ c.maxSegments = 32)

theorem parseCapabilities_iff {p : List Byte} {c : Capabilities} :
    parseCapabilities p = some c ↔ CapabilityShape p ∧ c = readCapabilities p ∧ c.Usable := by
  unfold parseCapabilities
  constructor
  · intro h
    split at h
    · cases h
    · rename_i hpre
      push Not at hpre
      simp only [Bool.ne_false_iff] at hpre
      dsimp only at h
      split at h
      · rename_i husable
        cases h
        exact ⟨hpre, rfl, husable⟩
      · cases h
  · rintro ⟨⟨h1, h2, h3, h4, h5, h6, h7⟩, rfl, husable⟩
    rw [if_neg (by simp [h1, h2, h3, h5, h6, h7]; omega)]
    exact if_pos husable

theorem readCapabilities_packet {p : List Byte} (h : CapabilityShape p) :
    (readCapabilities p).packet = p := by
  obtain ⟨hlen, htag, hversion, hready, hbyte, hzero, hzero'⟩ := h
  have hlen : p.length = 80 := hlen
  have hbool : (byteAt p 5 != 0).toNat = byteAt p 5 := by
    obtain h | h : byteAt p 5 = 0 ∨ byteAt p 5 = 1 := by omega
    all_goals rw [h]; rfl
  unfold Capabilities.packet readCapabilities
  dsimp only
  rw [hasTag_slice htag, hbool, ← hversion, zeroBytes_slice hzero (by omega)]
  rw [show put8 0 = slice p 7 1 by rw [← hbyte, put8_byteAt (by omega)]]
  simp (disch := omega) only [put8_byteAt, put64_get64, putI32_getI32, put32_get32,
    slice_zero_append, Nat.reduceAdd]
  rw [← zeroBytes_slice hzero (by omega), zeroBytes_slice hzero' (by omega)]
  simp only [slice_zero_append, Nat.reduceAdd]
  exact slice_all p hlen

theorem readCapabilities_typed (p : List Byte) : (readCapabilities p).Typed :=
  ⟨byteAt_lt .., get64_lt .., get64_lt .., get64_lt .., get64_lt .., get64_lt .., get32_lt ..,
    get32_lt .., getI32_range .., getI32_range .., getI32_range .., getI32_range ..⟩

theorem parseCapabilities_packet {p : List Byte} {c : Capabilities}
    (h : parseCapabilities p = some c) : c.packet = p := by
  obtain ⟨hshape, rfl, -⟩ := parseCapabilities_iff.mp h
  exact readCapabilities_packet hshape

theorem parseCapabilities_typed {p : List Byte} {c : Capabilities}
    (h : parseCapabilities p = some c) : c.Typed := by
  obtain ⟨-, rfl, -⟩ := parseCapabilities_iff.mp h
  exact readCapabilities_typed p

theorem capabilitiesPacket_injective {c d : Capabilities} (hc : c.Typed) (hd : d.Typed)
    (h : c.packet = d.packet) : c = d := by
  unfold Capabilities.packet at h
  simp only [List.append_assoc] at h
  obtain ⟨-, h⟩ := List.append_inj h rfl
  obtain ⟨-, h⟩ := List.append_inj h rfl
  obtain ⟨hready, h⟩ := List.append_inj h rfl
  obtain ⟨hbuttons, h⟩ := List.append_inj h rfl
  obtain ⟨-, h⟩ := List.append_inj h rfl
  obtain ⟨hsession, h⟩ := List.append_inj h rfl
  obtain ⟨htoken, h⟩ := List.append_inj h rfl
  obtain ⟨hepoch, h⟩ := List.append_inj h rfl
  obtain ⟨hgeneration, h⟩ := List.append_inj h rfl
  obtain ⟨hpoll, h⟩ := List.append_inj h rfl
  obtain ⟨hxmin, h⟩ := List.append_inj h rfl
  obtain ⟨hxmax, h⟩ := List.append_inj h rfl
  obtain ⟨hymin, h⟩ := List.append_inj h rfl
  obtain ⟨hymax, h⟩ := List.append_inj h rfl
  obtain ⟨-, h⟩ := List.append_inj h rfl
  obtain ⟨hlayout, h⟩ := List.append_inj h rfl
  obtain ⟨hsegments, -⟩ := List.append_inj h rfl
  have hbit (b : Bool) : b.toNat < 2 ^ 8 := by cases b <;> decide
  have hready : c.ready = d.ready := by
    have hready := put8_inj (hbit _) (hbit _) hready
    cases hc : c.ready <;> cases hd : d.ready <;> simp_all
  have hbuttons := put8_inj hc.buttons hd.buttons hbuttons
  have hsession := put64_inj hc.session hd.session hsession
  have htoken := put64_inj hc.token hd.token htoken
  have hepoch := put64_inj hc.epoch hd.epoch hepoch
  have hgeneration := put64_inj hc.generation hd.generation hgeneration
  have hpoll := put32_inj hc.pollUs hd.pollUs hpoll
  have hxmin := putI32_inj hc.xmin hd.xmin hxmin
  have hxmax := putI32_inj hc.xmax hd.xmax hxmax
  have hymin := putI32_inj hc.ymin hd.ymin hymin
  have hymax := putI32_inj hc.ymax hd.ymax hymax
  have hlayout := put64_inj hc.layout hd.layout hlayout
  have hsegments := put32_inj hc.maxSegments hd.maxSegments hsegments
  cases c
  cases d
  simp_all only

theorem capabilities_canonical :
    Canonical Capabilities.packet parseCapabilities Capabilities.Typed :=
  .of_injective (fun _ _ => parseCapabilities_packet) (fun _ _ => parseCapabilities_typed)
    fun _ _ => capabilitiesPacket_injective

theorem capabilitiesPacket_shape (c : Capabilities) : CapabilityShape c.packet := by
  have htag : (ascii "UPI1").length = 4 := rfl
  have hlen : c.packet.length = 80 := by simp [Capabilities.packet, htag]
  have hbit : c.ready.toNat < 2 ^ 8 := by cases c.ready <;> decide
  have hready : byteAt c.packet 5 = c.ready.toNat := by
    refine byteAt_slice ?_ (by omega) hbit
    simp (disch := simp [htag]) only [Capabilities.packet, slice_append_left]
    exact slice_append_right (by simp [htag]) rfl
  refine ⟨hlen, ?_, ?_, ?_, ?_, ?_, ?_⟩
  · rw [hasTag, beq_iff_eq]
    change slice c.packet 0 4 = _
    simp (disch := simp [htag]) only [Capabilities.packet, slice_append_left]
    exact slice_all _ htag
  · refine byteAt_slice ?_ (by omega) (by norm_num)
    simp (disch := simp [htag]) only [Capabilities.packet, slice_append_left]
    exact slice_append_right (by simp [htag]) rfl
  · rw [hready]
    cases c.ready <;> decide
  · refine byteAt_slice ?_ (by omega) (by norm_num)
    simp (disch := simp [htag]) only [Capabilities.packet, slice_append_left]
    exact slice_append_right (by simp [htag]) rfl
  · refine slice_zeroBytes ?_
    simp (disch := simp [htag]) only [Capabilities.packet, slice_append_left]
    exact slice_append_right (by simp [htag]) rfl
  · refine slice_zeroBytes ?_
    exact slice_append_right (by simp [htag]) rfl

/-- A reply is decoded to what was encoded, when its values pass the checks. -/
theorem parseCapabilities_self {c : Capabilities} (hc : c.Typed) :
    parseCapabilities c.packet = some c ↔ c.Usable := by
  have hshape := capabilitiesPacket_shape c
  have hread : readCapabilities c.packet = c :=
    capabilitiesPacket_injective (readCapabilities_typed _) hc (readCapabilities_packet hshape)
  rw [parseCapabilities_iff]
  exact ⟨fun h => h.2.2, fun h => ⟨hshape, hread.symm, h⟩⟩

end MoveProtocol

namespace ClickProtocol

/-- `request` of the fields of a request. -/
def Request.packet (r : Request) : List Byte :=
  request r.operation r.session r.command r.button r.count r.pressUs r.intervalUs r.version

theorem operationOf_some {n : ℕ} {op : Operation} (h : operationOf n = some op) :
    (op = .schedule ∧ n = 1) ∨ (op = .releaseAll ∧ n = 2) := by
  unfold operationOf at h
  split_ifs at h with h1 h2
  · exact .inl ⟨(Option.some.inj h).symm, h1⟩
  · exact .inr ⟨(Option.some.inj h).symm, h2⟩

theorem statusOf_code {n : ℕ} {s : Status} (h : statusOf n = some s) : s.code = n :=
  beq_iff_eq.mp (List.find?_some (p := fun s : Status => s.code == n) h)

theorem Status.code_lt (s : Status) : s.code < 2 ^ 8 := by cases s <;> decide

theorem Status.code_injective : Function.Injective Status.code := by
  intro a b h
  cases a <;> cases b <;> first | rfl | cases h

/-! ### UPC1 -/

theorem parse_packet {p : List Byte} {r : Request} (h : parse p = some r) : r.packet = p := by
  unfold parse at h
  split at h
  · cases h
  · rename_i hpre
    push Not at hpre
    obtain ⟨hlen, htag, -, hbyte, hzero⟩ := hpre
    rw [Bool.ne_false_iff] at htag
    have hlen : p.length = 40 := hlen
    split at h
    · cases h
    · rename_i op hop
      dsimp only at h
      split_ifs at h
      cases h
      have hcode {n : ℕ} (hn : byteAt p 5 = n) : put8 n = slice p 5 1 := by
        rw [← hn, put8_byteAt (by omega)]
      have hrest : put8 0 = slice p 7 1 ∧ put32 0 = slice p 36 4 := by
        rw [← hbyte, put8_byteAt (by omega), hbyte, ← hzero, put32_get32 (by omega)]
        exact ⟨rfl, rfl⟩
      unfold Request.packet request
      rcases operationOf_some hop with ⟨rfl, h5⟩ | ⟨rfl, h5⟩
      all_goals
        dsimp only
        rw [hasTag_slice htag, hcode h5, hrest.1, hrest.2]
        simp (disch := omega) only [put8_byteAt, put64_get64, put32_get32, slice_zero_append,
          Nat.reduceAdd]
        exact slice_all p hlen

theorem parse_typed {p : List Byte} {r : Request} (h : parse p = some r) : r.Typed := by
  unfold parse at h
  split at h
  · cases h
  · split at h
    · cases h
    · dsimp only at h
      split_ifs at h
      cases h
      exact ⟨byteAt_lt .., byteAt_lt .., get64_lt .., get64_lt .., get32_lt .., get32_lt ..,
        get32_lt ..⟩

theorem packet_injective {r s : Request} (hr : r.Typed) (hs : s.Typed)
    (h : r.packet = s.packet) : r = s := by
  unfold Request.packet request at h
  simp only [List.append_assoc] at h
  obtain ⟨-, h⟩ := List.append_inj h rfl
  obtain ⟨hversion, h⟩ := List.append_inj h rfl
  obtain ⟨hop, h⟩ := List.append_inj h rfl
  obtain ⟨hbutton, h⟩ := List.append_inj h rfl
  obtain ⟨-, h⟩ := List.append_inj h rfl
  obtain ⟨hsession, h⟩ := List.append_inj h rfl
  obtain ⟨hcommand, h⟩ := List.append_inj h rfl
  obtain ⟨hcount, h⟩ := List.append_inj h rfl
  obtain ⟨hpress, h⟩ := List.append_inj h rfl
  obtain ⟨hinterval, -⟩ := List.append_inj h rfl
  have hversion := put8_inj hr.version hs.version hversion
  have hop : r.operation = s.operation := by
    cases hop1 : r.operation <;> cases hop2 : s.operation <;> rw [hop1, hop2] at hop <;>
      first | rfl | exact absurd hop (by decide)
  have hbutton := put8_inj hr.button hs.button hbutton
  have hsession := put64_inj hr.session hs.session hsession
  have hcommand := put64_inj hr.command hs.command hcommand
  have hcount := put32_inj hr.count hs.count hcount
  have hpress := put32_inj hr.pressUs hs.pressUs hpress
  have hinterval := put32_inj hr.intervalUs hs.intervalUs hinterval
  cases r
  cases s
  simp_all only

theorem request_canonical : Canonical Request.packet parse Request.Typed :=
  .of_injective (fun _ _ => parse_packet) (fun _ _ => parse_typed) fun _ _ => packet_injective

/-- The fields a request is read back from. -/
theorem Request.Typed.read {r : Request} (h : r.Typed) :
    byteAt r.packet 4 = r.version ∧ byteAt r.packet 6 = r.button ∧
      get64 r.packet 8 = r.session ∧ get64 r.packet 16 = r.command ∧
      get32 r.packet 24 = r.count ∧ get32 r.packet 28 = r.pressUs ∧
      get32 r.packet 32 = r.intervalUs := by
  obtain ⟨hversion, hbutton, hsession, hcommand, hcount, hpress, hinterval⟩ := h
  refine ⟨Nat.mod_eq_of_lt hversion, Nat.mod_eq_of_lt hbutton, ?_, ?_, ?_, ?_, ?_⟩
  all_goals
    simp only [get64, get32, get16, byteAt, packet, request, ascii, put8, put16, put32, put64]
    simp [-BitVec.ofNat_eq_ofNat]
    omega

/-- The fields that are the same in every request. -/
theorem Request.packet_fixed (r : Request) :
    r.packet.length = requestSize ∧ hasTag r.packet "UPC1" = true ∧ byteAt r.packet 7 = 0 ∧
      get32 r.packet 36 = 0 ∧ operationOf (byteAt r.packet 5) = some r.operation := by
  refine ⟨rfl, rfl, rfl, ?_, ?_⟩
  · simp [get32, get16, byteAt, packet, request, ascii, put8, put16, put32, put64]
  · obtain ⟨op, button, session, command, count, pressUs, intervalUs, version⟩ := r
    cases op <;> rfl

/-- A request that passes the checks of `parse` is accepted. -/
theorem parse_self {r : Request} (ht : r.Typed)
    (hversion : r.version = version1 ∨ r.version = version2)
    (hids : r.session ≠ 0 ∧ r.command ≠ 0) (hrelease : r.operation = .releaseAll →
      r.button = 0 ∧ r.count = 0 ∧ r.pressUs = 0 ∧ r.intervalUs = 0) :
    parse r.packet = some r := by
  obtain ⟨hlength, htag, hpad, hend, hop⟩ := r.packet_fixed
  obtain ⟨h1, h2, h3, h4, h5, h6, h7⟩ := ht.read
  generalize r.packet = p at *
  unfold parse
  rw [if_neg, hop]
  · dsimp only
    rw [h1, h2, h3, h4, h5, h6, h7, if_neg, if_neg]
    · rintro ⟨hop, hne⟩
      simp [hrelease hop] at hne
    · simp [hids]
  · rw [hlength, htag, hpad, hend, h1]
    rcases hversion with hv | hv <;> rw [hv] <;> decide

/-! ### UPA1 -/

theorem parseAck_packet {p : List Byte} {a : Ack} (h : parseAck p = some a) : a.packet = p := by
  unfold parseAck at h
  split at h
  · cases h
  · rename_i hpre
    push Not at hpre
    obtain ⟨hlen, htag, -, hbyte, hzero, hzero'⟩ := hpre
    rw [Bool.ne_false_iff] at htag
    have hlen : p.length = 48 := hlen
    obtain ⟨status, hstatus, rfl⟩ := Option.map_eq_some_iff.mp h
    unfold Ack.packet
    rw [hasTag_slice htag, statusOf_code hstatus,
      show put8 0 = slice p 7 1 by rw [← hbyte, put8_byteAt (by omega)],
      show List.replicate 6 (0 : Byte) = slice p 42 6 by
        have h16 : put16 0 = slice p 42 2 := by rw [← hzero, put16_get16 (by omega)]
        have h32 : put32 0 = slice p 44 4 := by rw [← hzero', put32_get32 (by omega)]
        rw [show List.replicate 6 (0 : Byte) = put16 0 ++ put32 0 from rfl, h16, h32,
          slice_append]]
    simp (disch := omega) only [put8_byteAt, put64_get64, put32_get32, put16_get16, slice_zero_append,
      Nat.reduceAdd]
    exact slice_all p hlen

theorem parseAck_typed {p : List Byte} {a : Ack} (h : parseAck p = some a) : a.Typed := by
  unfold parseAck at h
  split at h
  · cases h
  · obtain ⟨status, -, rfl⟩ := Option.map_eq_some_iff.mp h
    exact ⟨byteAt_lt .., byteAt_lt .., get64_lt .., get64_lt .., get64_lt .., get32_lt ..,
      get32_lt .., get16_lt ..⟩

theorem ackPacket_injective {a b : Ack} (ha : a.Typed) (hb : b.Typed)
    (h : a.packet = b.packet) : a = b := by
  unfold Ack.packet at h
  simp only [List.append_assoc] at h
  obtain ⟨-, h⟩ := List.append_inj h rfl
  obtain ⟨hversion, h⟩ := List.append_inj h rfl
  obtain ⟨hstatus, h⟩ := List.append_inj h rfl
  obtain ⟨hbutton, h⟩ := List.append_inj h rfl
  obtain ⟨-, h⟩ := List.append_inj h rfl
  obtain ⟨hsession, h⟩ := List.append_inj h rfl
  obtain ⟨hcommand, h⟩ := List.append_inj h rfl
  obtain ⟨haccepted, h⟩ := List.append_inj h rfl
  obtain ⟨hcompleted, h⟩ := List.append_inj h rfl
  obtain ⟨hepoch, h⟩ := List.append_inj h rfl
  obtain ⟨hdepth, -⟩ := List.append_inj h rfl
  have hversion := put8_inj ha.version hb.version hversion
  have hstatus := Status.code_injective (put8_inj a.status.code_lt b.status.code_lt hstatus)
  have hbutton := put8_inj ha.button hb.button hbutton
  have hsession := put64_inj ha.session hb.session hsession
  have hcommand := put64_inj ha.command hb.command hcommand
  have haccepted := put32_inj ha.accepted hb.accepted haccepted
  have hcompleted := put32_inj ha.completed hb.completed hcompleted
  have hepoch := put64_inj ha.serverEpoch hb.serverEpoch hepoch
  have hdepth := put16_inj ha.queueDepth hb.queueDepth hdepth
  cases a
  cases b
  simp_all only

theorem ack_canonical : Canonical Ack.packet parseAck Ack.Typed :=
  .of_injective (fun _ _ => parseAck_packet) (fun _ _ => parseAck_typed)
    fun _ _ => ackPacket_injective

end ClickProtocol

/-- **The control formats are canonical**, and `same` finds two UPM1 packets that differ in the
operation byte at most. -/
theorem controlFormats_canonical :
    Canonical MoveProtocol.Request.packet MoveProtocol.parse MoveProtocol.Request.Typed ∧
      Canonical MoveProtocol.Ack.packet MoveProtocol.parseAck MoveProtocol.Ack.Typed ∧
      Canonical (fun q => MoveProtocol.query q.1 q.2) MoveProtocol.parseQuery QueryTyped ∧
      Canonical MoveProtocol.Capabilities.packet MoveProtocol.parseCapabilities
        MoveProtocol.Capabilities.Typed ∧
      Canonical ClickProtocol.Request.packet ClickProtocol.parse ClickProtocol.Request.Typed ∧
      Canonical ClickProtocol.Ack.packet ClickProtocol.parseAck ClickProtocol.Ack.Typed ∧
      ∀ p q a b, MoveProtocol.parse p = some a → MoveProtocol.parse q = some b →
        (MoveProtocol.same a b = true ↔ ∀ i, i ≠ 5 → p[i]? = q[i]?) :=
  ⟨MoveProtocol.request_canonical, MoveProtocol.ack_canonical, MoveProtocol.query_canonical,
    MoveProtocol.capabilities_canonical, ClickProtocol.request_canonical,
    ClickProtocol.ack_canonical, fun _ _ _ _ => MoveProtocol.same_iff⟩

end UsbProxy
