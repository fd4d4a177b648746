import UsbProxy.Protocol.Canonical
import UsbProxy.Server.Mixing

/-!
# The capability reply

What the server answers to a UPQ1 query and when `parse_capabilities` accepts it: a layout that
`parse_mouse_descriptor` accepts can have an axis with no values on one side of zero, which the
decoder refuses.
-/

namespace UsbProxy

open Bits

/-! ### The fingerprint -/

theorem hashByte_lt (layout byte : ℕ) : hashByte layout byte < 2 ^ 64 := by
  unfold hashByte
  generalize (layout ^^^ byte) * 1099511628211 = n
  exact Nat.mod_lt n (Nat.two_pow_pos 64)

theorem hashWord_lt (layout n : ℕ) : hashWord layout n < 2 ^ 64 := by
  unfold hashWord
  rw [List.range_succ, List.foldl_append, List.foldl_cons, List.foldl_nil]
  exact hashByte_lt _ _

theorem hashField_lt (layout : ℕ) (f : HidField) : hashField layout f < 2 ^ 64 := hashWord_lt _ _

theorem MouseProfile.fingerprint_range (m : MouseProfile) :
    m.fingerprint ≠ 0 ∧ m.fingerprint < 2 ^ 64 := by
  have hfold (l : List (ℕ × HidField)) (h : ℕ) (hh : h < 2 ^ 64) :
      l.foldl (fun h b => hashField (hashWord h b.1) b.2) h < 2 ^ 64 := by
    induction l generalizing h with
    | nil => exact hh
    | cons b l ih => exact ih _ (hashField_lt _ _)
  have hlt := hfold m.buttons _ (hashField_lt (hashField (hashField (hashField
    (hashWord (hashWord 1469598103934665603 m.id) m.size) m.x) m.y) m.wheel) m.pan)
  unfold fingerprint
  dsimp only
  split
  · exact ⟨one_ne_zero, by norm_num⟩
  · rename_i hne
    exact ⟨hne, hlt⟩

/-! ### The snapshot -/

/-- The range of a field with at most 16 bits. -/
theorem HidField.Wf.range {f : HidField} (h : f.Wf) :
    -32768 ≤ f.minimum ∧ f.minimum ≤ 0 ∧ 0 ≤ f.maximum ∧ f.maximum ≤ 65535 ∧
      (f.minimum < 0 → f.maximum ≤ 32767) := by
  have hbits := h.bits
  have hmin := h.minimum
  rcases lt_or_eq_of_le hmin with hneg | hzero
  · obtain ⟨hpos, hlower, hupper⟩ := h.signed hneg
    have hpow : (2 : ℤ) ^ (f.bits - 1) ≤ 2 ^ 15 :=
      pow_le_pow_right₀ (by norm_num) (by omega)
    exact ⟨by omega, hmin, h.maximum, by omega, fun _ => by omega⟩
  · have hupper := h.unsigned hzero
    have hpow : (2 : ℤ) ^ f.bits ≤ 2 ^ 16 := pow_le_pow_right₀ (by norm_num) hbits
    exact ⟨by omega, hmin, h.maximum, by omega, fun hneg => by omega⟩

/-- The ranges of a snapshot, and what a ready one has. -/
structure EndpointSnapshot.Sound (e : EndpointSnapshot) : Prop where
  xmin : -32768 ≤ e.xmin ∧ e.xmin ≤ 0
  xmax : 0 ≤ e.xmax ∧ e.xmax ≤ 65535
  ymin : -32768 ≤ e.ymin ∧ e.ymin ≤ 0
  ymax : 0 ≤ e.ymax ∧ e.ymax ≤ 65535
  signedX : e.xmin < 0 → e.xmax ≤ 32767
  signedY : e.ymin < 0 → e.ymax ≤ 32767
  layout : e.layout < 2 ^ 64
  ready : e.ready = true → e.generation ≠ 0 ∧ e.layout ≠ 0 ∧ e.pollUs ≠ 0

theorem World.Sound.snapshot {w : World} (hw : w.Sound) : w.endpointSnapshot.Sound := by
  have hunready : EndpointSnapshot.Sound
      { generation := w.nextGeneration, snapshotNs := w.clock } :=
    ⟨by norm_num, by norm_num, by norm_num, by norm_num, by norm_num, by norm_num, by norm_num,
      fun h => by cases h⟩
  unfold endpointSnapshot
  dsimp only
  split
  · exact hunready
  · rename_i a hsel
    split
    · exact hunready
    · rename_i e he
      split
      · exact hunready
      · rename_i hlatest
        have hlatest : e.latest ≠ [] := by simpa using hlatest
        have hm := (hw.layouts e.interfaceNumber).1 _ (hw.known a e he hlatest)
        obtain ⟨hx, hy, -, -⟩ := hm.axis
        obtain ⟨hx1, hx2, hx3, hx4, hx5⟩ := hx.range
        obtain ⟨hy1, hy2, hy3, hy4, hy5⟩ := hy.range
        obtain ⟨hlayout, hlt⟩ := e.profile.fingerprint_range
        refine ⟨⟨hx1, hx2⟩, ⟨hx3, hx4⟩, ⟨hy1, hy2⟩, ⟨hy3, hy4⟩, hx5, hy5, hlt, fun _ => ?_⟩
        have hgeneration := ((hw.site a).sound e he).generation.1
        refine ⟨by dsimp only; omega, hlayout, ?_⟩
        dsimp only
        omega

/-! ### The reply -/

/-- Every axis of a ready endpoint has values on both sides of zero. -/
def EndpointSnapshot.BothWays (e : EndpointSnapshot) : Prop :=
  e.ready = true → e.xmin < 0 ∧ 0 < e.xmax ∧ e.ymin < 0 ∧ 0 < e.ymax

theorem Server.capabilities_typed {s : Server} {e : EndpointSnapshot} {session token : ℕ}
    (he : e.Sound) (hsession : session < 2 ^ 64) (htoken : token < 2 ^ 64)
    (hepoch : s.epoch < 2 ^ 64) (hgeneration : e.generation < 2 ^ 64) (hpoll : e.pollUs < 2 ^ 32) :
    (s.capabilities e session token).Typed := by
  have hx := he.xmin
  have hx' := he.xmax
  have hy := he.ymin
  have hy' := he.ymax
  exact ⟨e.supported.isLt, hsession, htoken, hepoch, hgeneration, he.layout, hpoll,
    by norm_num [capabilities], by dsimp only [capabilities]; omega,
    by dsimp only [capabilities]; omega, by dsimp only [capabilities]; omega,
    by dsimp only [capabilities]; omega⟩

/-- **The capability reply is decoded to what was encoded** exactly when each axis of a ready
endpoint goes both ways.  The bounds are those of the C++ types, and the epoch is never zero. -/
theorem capabilities_accepted_iff {c : Config} (hc : c.Reachable)
    (hepoch : 0 < c.server.epoch ∧ c.server.epoch < 2 ^ 64)
    (hgeneration : c.world.endpointSnapshot.generation < 2 ^ 64)
    (hpoll : c.world.endpointSnapshot.pollUs < 2 ^ 32) {data : List Byte} {session token : ℕ}
    (hquery : MoveProtocol.parseQuery data = some (session, token)) :
    MoveProtocol.parseCapabilities
        (c.server.capabilities c.world.endpointSnapshot session token).packet =
          some (c.server.capabilities c.world.endpointSnapshot session token) ↔
      c.world.endpointSnapshot.BothWays := by
  have he := hc.sound.snapshot
  obtain ⟨hsession, htoken⟩ := MoveProtocol.parseQuery_typed hquery
  obtain ⟨hsession', htoken'⟩ := MoveProtocol.parseQuery_nonzero hquery
  rw [MoveProtocol.parseCapabilities_self
    (Server.capabilities_typed he hsession htoken hepoch.2 hgeneration hpoll)]
  generalize c.world.endpointSnapshot = e at he
  constructor
  · rintro ⟨-, -, -, hready⟩ h
    obtain ⟨-, -, -, h1, h2, h3, h4, -⟩ := hready h
    exact ⟨h1, h2, h3, h4⟩
  · intro hboth
    refine ⟨hsession', htoken', hepoch.1.ne', fun h => ?_⟩
    obtain ⟨h1, h2, h3⟩ := he.ready h
    obtain ⟨hx1, hx2, hy1, hy2⟩ := hboth h
    exact ⟨h1, h2, h3, hx1, hx2, hy1, hy2, he.xmin.1, he.signedX hx1, he.ymin.1, he.signedY hy1,
      rfl⟩

/-- The boot mouse has moved once and rests. -/
def bootMouse : Config := (Config.init 1 none).run Action.mouse

theorem capabilities_accepted_bootMouse :
    MoveProtocol.parseCapabilities
        (bootMouse.server.capabilities bootMouse.world.endpointSnapshot 7 9).packet =
      some (bootMouse.server.capabilities bootMouse.world.endpointSnapshot 7 9) :=
  have hquery : MoveProtocol.parseQuery (MoveProtocol.query 7 9) = some (7, 9) := by decide +kernel
  (capabilities_accepted_iff ⟨1, none, _, rfl⟩ (by decide +kernel) (by decide +kernel)
    (by decide +kernel) hquery).mpr fun _ => by decide +kernel

/-- A mouse whose X and Y count from 0 to 127. -/
def unsignedDescriptor : List Byte :=
  [0x05, 0x01, 0x09, 0x02, 0xa1, 0x01, 0x05, 0x09, 0x19, 0x01, 0x29, 0x01, 0x15, 0x00, 0x25, 0x01,
    0x75, 0x01, 0x95, 0x08, 0x81, 0x02, 0x05, 0x01, 0x09, 0x30, 0x09, 0x31, 0x15, 0x00, 0x25, 0x7f,
    0x75, 0x08, 0x95, 0x02, 0x81, 0x06, 0xc0]

/-- It is plugged in and reports no motion. -/
def unsignedMouse : Config :=
  (Config.init 1 none).run
    [.env (.learn 0 unsignedDescriptor), .env (.register 129 0 1 1000),
      .env (.physical 129 1 [0, 0, 0])]

theorem unsignedMouse_refused :
    unsignedMouse.Reachable ∧ unsignedMouse.world.endpointSnapshot.ready = true ∧
      MoveProtocol.parseQuery (MoveProtocol.query 7 9) = some (7, 9) ∧
      MoveProtocol.parseCapabilities
        (unsignedMouse.server.capabilities unsignedMouse.world.endpointSnapshot 7 9).packet =
          none :=
  ⟨⟨1, none, _, rfl⟩, by decide +kernel, by decide +kernel, by decide +kernel⟩

end UsbProxy
