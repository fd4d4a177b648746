import UsbProxy.Lib.Hex
import UsbProxy.Lib.Longest
import UsbProxy.Protocol.Wire

/-!
# Recording and reloading descriptors (`usb_capture.cpp`, `replay_profile.h`)

A capture is a file of lines, one JSON record a line.  The JSON library is a parameter, and of a
record the model has the fields `ReplayProfile::load` reads.
-/

namespace UsbProxy

open Bits Hex Longest

/-! ### Recording -/

/-- `CaptureSetup`, with the widths of `usb_ctrlrequest`. -/
structure CaptureSetup where
  type : Byte
  request : Byte
  value : BitVec 16
  index : BitVec 16
  length : BitVec 16
deriving DecidableEq

/-- A record of the capture file. -/
inductive Record
  | format (version : ℤ)
  | speed (value : ℤ)
  | event (type : ℕ) (setup : Option CaptureSetup)
  | control (setup : CaptureSetup) (status data : List Byte)
  | mouseReport (endpoint interface : ℕ) (data : List Byte)
deriving DecidableEq

/-- A call of the recorder. -/
inductive Call
  | speed (value : ℤ)
  | event (type : ℕ) (request : Option CaptureSetup)
  | reply (status data : List Byte)
  | report (endpoint interface : ℕ) (data : List Byte)

/-- The records of `capture_speed`, `capture_event`, `capture_reply` and `capture_report`: a reply
is recorded once, with the pending request. -/
def captured : Option CaptureSetup → List Call → List Record
  | _, [] => []
  | pending, .speed value :: rest => .speed value :: captured pending rest
  | _, .event type request :: rest => .event type request :: captured request rest
  | none, .reply _ _ :: rest => captured none rest
  | some setup, .reply status data :: rest => .control setup status (hex data) :: captured none rest
  | pending, .report endpoint interface data :: rest =>
    .mouseReport endpoint interface (hex data) :: captured pending rest

/-- The records of a file from `capture_open` on. -/
def captureFile (calls : List Call) : List Record := .format 1 :: captured none calls

/-! ### Loading -/

/-- `unhex`; `none` when it throws. -/
def unhex (s : List Byte) : Option (List Byte) :=
  if s.length % 2 ≠ 0 ∨ 8192 < s.length then none else ofPairs s

/-- The key of a descriptor: type, value and index. -/
abbrev DescriptorKey := Byte × BitVec 16 × BitVec 16

def CaptureSetup.key (s : CaptureSetup) : DescriptorKey := (s.type, s.value, s.index)

/-- A standard GET_DESCRIPTOR request to the device or to an interface. -/
def CaptureSetup.Standard (s : CaptureSetup) : Prop :=
  (s.type = 0x80#8 ∨ s.type = 0x81#8) ∧ s.request = 6#8

instance (s : CaptureSetup) : Decidable s.Standard := inferInstanceAs (Decidable (_ ∧ _))

/-- What `ReplayProfile::load` has read so far. -/
structure Loading where
  descriptors : DescriptorKey → Option (List Byte) := fun _ => none
  samples : ℕ → Option (List Byte) := fun _ => none
  speed : ℤ := 0
  format : Bool := false
  total : ℕ := 0

/-- One record; `none` when it throws. -/
def loadRecord (p : Loading) : Record → Option Loading
  | .format version => if version ≠ 1 then none else some { p with format := true }
  | .speed speed => some { p with speed }
  | .event _ _ => some p
  | .mouseReport endpoint _ data =>
    (unhex data).map fun bytes => { p with samples := Function.update p.samples endpoint (some bytes) }
  | .control setup status data =>
    if status ≠ ascii "ack" ∨ ¬ setup.Standard then some p
    else
      match unhex data with
      | none => none
      | some bytes =>
        (store p.descriptors setup.key bytes).map fun descriptors => { p with descriptors }

/-- The JSON library: `Json::writeString` and `Json::Reader::parse`. -/
structure Json where
  write : Record → List Byte
  parse : List Byte → Option Record

/-- The library reads back what it wrote. -/
def Json.Reproduces (json : Json) (records : List Record) : Prop :=
  ∀ r ∈ records, json.parse (json.write r) = some r

instance (json : Json) (records : List Record) : Decidable (json.Reproduces records) :=
  inferInstanceAs (Decidable (∀ r ∈ records, _))

def maxCapture : ℕ := 16 * 1024 * 1024
def maxLine : ℕ := 32768

/-- One line of the file. -/
def loadLine (json : Json) (p : Loading) (line : List Byte) : Option Loading :=
  let total := p.total + line.length
  if maxCapture < total ∨ maxLine < line.length then none
  else
    match json.parse line with
    | none => none
    | some r => loadRecord { p with total } r

/-- The loop over the lines. -/
def loadLines (json : Json) : Loading → List (List Byte) → Option Loading
  | p, [] => some p
  | p, line :: rest =>
    match loadLine json p line with
    | none => none
    | some p => loadLines json p rest

/-- The lines of the records are within the limits of the loader. -/
def Fits (json : Json) (records : List Record) : Prop :=
  (records.map fun r => (json.write r).length).sum ≤ maxCapture ∧
    ∀ r ∈ records, (json.write r).length ≤ maxLine

/-! ### The assembly -/

/-- **A byte string of at most 4096 bytes is read back from its text.** -/
theorem unhex_hex {b : List Byte} (h : b.length ≤ 4096) : unhex (hex b) = some b := by
  rw [unhex, hex_length, if_neg (by omega), ofPairs_hex]

theorem unhex_long {b : List Byte} (h : 4096 < b.length) : unhex (hex b) = none := by
  rw [unhex, hex_length, if_pos (by omega)]

/-- The record does not throw by itself. -/
def Record.Readable : Record → Prop
  | .format version => version = 1
  | .speed _ | .event _ _ => True
  | .control _ _ data | .mouseReport _ _ data => ∃ bytes, unhex data = some bytes

/-- The descriptor a record brings. -/
def Record.descriptor : Record → Option (DescriptorKey × List Byte)
  | .control setup status data =>
    if status ≠ ascii "ack" ∨ ¬ setup.Standard then none
    else (unhex data).map fun bytes => (setup.key, bytes)
  | _ => none

section Assembly

variable {json : Json} {p p' : Loading} {r : Record} {records records' : List Record}

theorem loadRecord_total (h : loadRecord p r = some p') : p'.total = p.total := by
  cases r with
  | format version =>
    simp only [loadRecord] at h
    split at h
    · cases h
    · cases h
      rfl
  | speed | event =>
    cases h
    rfl
  | mouseReport endpoint interface data =>
    obtain ⟨_, -, rfl⟩ := Option.map_eq_some_iff.mp h
    rfl
  | control setup status data =>
    simp only [loadRecord] at h
    split at h
    · cases h
      rfl
    · split at h
      · cases h
      · obtain ⟨_, -, rfl⟩ := Option.map_eq_some_iff.mp h
        rfl

/-- What a readable record does to the table. -/
theorem loadRecord_descriptors (p : Loading) (h : r.Readable) :
    (loadRecord p r).map (·.descriptors) =
      storeAll p.descriptors r.descriptor.toList := by
  cases r with
  | format version =>
    have hversion : version = 1 := h
    simp [loadRecord, hversion, Record.descriptor, storeAll]
  | speed => rfl
  | event => rfl
  | mouseReport endpoint interface data =>
    obtain ⟨bytes, hbytes⟩ := h
    simp [loadRecord, hbytes, Record.descriptor, storeAll]
  | control setup status data =>
    obtain ⟨bytes, hbytes⟩ := h
    simp only [loadRecord, Record.descriptor, hbytes]
    split
    · rfl
    · simp only [Option.map_some, Option.toList_some, storeAll]
      cases store p.descriptors setup.key bytes <;> rfl

theorem storeAll_append (table : DescriptorKey → Option (List Byte))
    (l l' : List (DescriptorKey × List Byte)) :
    storeAll table (l ++ l') = (storeAll table l).bind fun table => storeAll table l' := by
  induction l generalizing table with
  | nil => rfl
  | cons x l ih =>
    obtain ⟨key, bytes⟩ := x
    simp only [List.cons_append, storeAll]
    cases store table key bytes with
    | none => rfl
    | some table => exact ih table

/-- The loop over the lines assembles the descriptors of the records. -/
theorem loadLines_descriptors (hjson : json.Reproduces records) (p : Loading)
    (hsum : p.total + (records.map fun r => (json.write r).length).sum ≤ maxCapture)
    (hline : ∀ r ∈ records, (json.write r).length ≤ maxLine) (hread : ∀ r ∈ records, r.Readable) :
    (loadLines json p (records.map json.write)).map (·.descriptors) =
      storeAll p.descriptors (records.flatMap fun r => r.descriptor.toList) := by
  induction records generalizing p with
  | nil => rfl
  | cons r records ih =>
    rw [List.map_cons, List.sum_cons] at hsum
    have hload : loadLine json p (json.write r) =
        loadRecord { p with total := p.total + (json.write r).length } r := by
      have hr := hline r List.mem_cons_self
      unfold loadLine
      dsimp only
      rw [if_neg (by omega), hjson r List.mem_cons_self]
    have hfirst := loadRecord_descriptors { p with total := p.total + (json.write r).length }
      (hread r List.mem_cons_self)
    rw [List.map_cons, loadLines, hload, List.flatMap_cons, storeAll_append, ← hfirst]
    cases hp : loadRecord { p with total := p.total + (json.write r).length } r with
    | none => rfl
    | some p' =>
      have htotal := loadRecord_total hp
      refine ih (fun r hr => hjson r (List.mem_cons_of_mem _ hr)) p' ?_
        (fun r hr => hline r (List.mem_cons_of_mem _ hr))
        fun r hr => hread r (List.mem_cons_of_mem _ hr)
      rw [htotal]
      dsimp only
      omega

/-- A file that is loaded is within the limit. -/
theorem loadLines_total {lines : List (List Byte)} (h : loadLines json p lines = some p')
    (hp : p.total ≤ maxCapture) : p.total + (lines.map List.length).sum ≤ maxCapture := by
  induction lines generalizing p with
  | nil => simpa using hp
  | cons line lines ih =>
    unfold loadLines at h
    cases hline : loadLine json p line with
    | none =>
      rw [hline] at h
      cases h
    | some p1 =>
      rw [hline] at h
      unfold loadLine at hline
      dsimp only at hline
      split at hline
      · cases hline
      · rename_i hfits
        split at hline
        · cases hline
        · have htotal := loadRecord_total hline
          dsimp only at htotal
          have hrest := ih h (by omega)
          rw [List.map_cons, List.sum_cons]
          omega

end Assembly

/-! ### Recorded replies -/

/-- An acknowledged reply. -/
structure Reply where
  setup : CaptureSetup
  data : List Byte
deriving DecidableEq

/-- The calls that record a reply. -/
def Reply.calls (r : Reply) : List Call := [.event 2 (some r.setup), .reply (ascii "ack") r.data]

/-- The file of some replies. -/
def replyFile (rs : List Reply) : List Record := captureFile (rs.flatMap Reply.calls)

def Reply.entry (r : Reply) : DescriptorKey × List Byte := (r.setup.key, r.data)

section Replies

variable {rs : List Reply}

theorem captured_replies (rs : List Reply) : captured none (rs.flatMap Reply.calls) =
    rs.flatMap fun r =>
      [.event 2 (some r.setup), .control r.setup (ascii "ack") (hex r.data)] := by
  induction rs with
  | nil => rfl
  | cons r rs ih =>
    simp only [List.flatMap_cons, Reply.calls, List.cons_append, List.nil_append, captured] at ih ⊢
    rw [ih]

theorem replyFile_readable (hsize : ∀ r ∈ rs, r.data.length ≤ 4096) :
    ∀ r ∈ replyFile rs, r.Readable := by
  intro record hrecord
  rw [replyFile, captureFile, captured_replies] at hrecord
  rcases List.mem_cons.mp hrecord with rfl | hrecord
  · rfl
  · obtain ⟨r, hr, hrecord⟩ := List.mem_flatMap.mp hrecord
    simp only [List.mem_cons, List.not_mem_nil, or_false] at hrecord
    rcases hrecord with rfl | rfl
    · trivial
    · exact ⟨r.data, unhex_hex (hsize r hr)⟩

theorem replyFile_descriptors (hstandard : ∀ r ∈ rs, r.setup.Standard)
    (hsize : ∀ r ∈ rs, r.data.length ≤ 4096) :
    ((replyFile rs).flatMap fun r => r.descriptor.toList) = rs.map Reply.entry := by
  rw [replyFile, captureFile, captured_replies, List.flatMap_cons]
  have hformat : (Record.format 1).descriptor.toList = [] := rfl
  have hevent (type : ℕ) (setup : Option CaptureSetup) :
      (Record.event type setup).descriptor.toList = [] := rfl
  rw [hformat, List.nil_append]
  induction rs with
  | nil => rfl
  | cons r rs ih =>
    have hfirst : (Record.control r.setup (ascii "ack") (hex r.data)).descriptor = some r.entry := by
      have hr := hstandard r List.mem_cons_self
      simp [Record.descriptor, hr, unhex_hex (hsize r List.mem_cons_self), Reply.entry]
    have hrest := ih (fun r hr => hstandard r (List.mem_cons_of_mem _ hr))
      fun r hr => hsize r (List.mem_cons_of_mem _ hr)
    rw [List.flatMap_cons, List.flatMap_append, hrest, List.flatMap_cons, List.flatMap_cons, hevent,
      hfirst]
    rfl

end Replies

/-- **Descriptors are reloaded as they were recorded**, in whatever order, within the limits of the
loader. -/
theorem descriptors_reloaded (json : Json) (rs : List Reply) (records : List Record)
    (hstandard : ∀ r ∈ rs, r.setup.Standard) (hsize : ∀ r ∈ rs, r.data.length ≤ 4096)
    (hperm : records.Perm (replyFile rs)) (hjson : json.Reproduces records)
    (hfits : Fits json records) :
    let assembled (records : List Record) :=
      (loadLines json {} (records.map json.write)).map (·.descriptors)
    (assembled records = none ↔ Conflict (rs.map Reply.entry)) ∧
      (∀ table, assembled records = some table → Holds table (rs.map Reply.entry)) ∧
      assembled records = assembled (replyFile rs) ∧
      ∀ b : List Byte, b.length ≤ 4096 → unhex (hex b) = some b := by
  have hread := replyFile_readable hsize
  have hentries := replyFile_descriptors hstandard hsize
  -- every order assembles what the order of the recording does
  have hany {records : List Record} (hperm : records.Perm (replyFile rs))
      (hjson : json.Reproduces records) (hfits : Fits json records) :
      (loadLines json {} (records.map json.write)).map (·.descriptors) =
        storeAll (fun _ => none) (rs.map Reply.entry) := by
    rw [loadLines_descriptors hjson {} (by simpa using hfits.1) hfits.2
      fun r hr => hread r (hperm.subset hr), ← hentries]
    exact storeAll_perm (hperm.flatMap_right _)
  have hfits' : Fits json (replyFile rs) :=
    ⟨(hperm.map fun r => (json.write r).length).sum_eq ▸ hfits.1,
      fun r hr => hfits.2 r (hperm.symm.subset hr)⟩
  have hjson' : json.Reproduces (replyFile rs) := fun r hr => hjson r (hperm.symm.subset hr)
  dsimp only
  rw [hany hperm hjson hfits, hany (.refl _) hjson' hfits']
  exact ⟨storeAll_none, fun table h => storeAll_some h, rfl, fun b => unhex_hex⟩

/-- The request for the device descriptor. -/
def deviceRequest : CaptureSetup := ⟨0x80#8, 6#8, 0x100#16, 0#16, 18#16⟩

/-- The first bytes of a device descriptor, read twice. -/
def partialReplies : List Reply := [⟨deviceRequest, [18, 1]⟩, ⟨deviceRequest, [18, 1, 0, 2]⟩]

/-- The text of their records. -/
def partialJson : Json where
  write
    | .format _ => ascii "\x7b\"kind\":\"format\",\"us\":0,\"version\":1\x7d"
    | .control _ _ data => ascii "\x7b\"data\":\"" ++ data ++ ascii ("\",\"kind\":\"control\"," ++
        "\"setup\":\x7b\"index\":0,\"length\":18,\"request\":6,\"type\":128,\"value\":256\x7d," ++
        "\"status\":\"ack\",\"us\":9\x7d")
    | _ => ascii ("\x7b\"kind\":\"event\",\"setup\":\x7b\"index\":0,\"length\":18,\"request\":6," ++
        "\"type\":128,\"value\":256\x7d,\"type\":2,\"us\":5\x7d")
  parse line :=
    if line = ascii "\x7b\"kind\":\"format\",\"us\":0,\"version\":1\x7d" then some (.format 1)
    else if line.take 9 = ascii "\x7b\"data\":\"" then
      some (.control deviceRequest (ascii "ack") ((line.drop 9).takeWhile (· ≠ 34)))
    else some (.event 2 (some deviceRequest))

theorem descriptors_reloaded_partial :
    ((loadLines partialJson {} ((replyFile partialReplies).map partialJson.write)).map
        (·.descriptors) = none ↔ Conflict (partialReplies.map Reply.entry)) ∧
      unhex (hex [18, 1]) = some [18, 1] := by
  obtain ⟨hverdict, -, -, htext⟩ := descriptors_reloaded partialJson partialReplies
    (replyFile partialReplies) (by decide) (by decide) (.refl _) (by decide +kernel)
    ⟨by decide +kernel, by decide +kernel⟩
  exact ⟨hverdict, htext _ (by decide)⟩

/-- The loader has limits: a text of more than 4096 bytes is refused, and so is a file of more than
16 MiB without any conflict. -/
theorem reload_limits :
    (¬ ∀ b : List Byte, unhex (hex b) = some b) ∧
      ¬ ∀ (json : Json) (rs : List Reply) (records : List Record), (∀ r ∈ rs, r.setup.Standard) →
        (∀ r ∈ rs, r.data.length ≤ 4096) → records.Perm (replyFile rs) → json.Reproduces records →
        ((loadLines json {} (records.map json.write)).map (·.descriptors) = none ↔
          Conflict (rs.map Reply.entry)) := by
  refine ⟨fun h => ?_, fun h => ?_⟩
  · have hlong := h (List.replicate 4097 0)
    rw [unhex_long (by rw [List.length_replicate]; omega)] at hlong
    cases hlong
  · -- very many empty replies, one byte a line
    let rs : List Reply := List.replicate (2 ^ 24) ⟨deviceRequest, []⟩
    let json : Json := {
      write := fun
        | .format _ => [1]
        | .event _ _ => [2]
        | _ => [3]
      parse := fun line =>
        if line = [1] then some (.format 1)
        else if line = [2] then some (.event 2 (some deviceRequest))
        else some (.control deviceRequest (ascii "ack") []) }
    have hreply : ∀ r ∈ rs, r = ⟨deviceRequest, []⟩ := fun r hr => (List.mem_replicate.mp hr).2
    have hlength (r : Record) : (json.write r).length = 1 := by cases r <;> rfl
    have hrecords : ∀ r ∈ replyFile rs, json.parse (json.write r) = some r := by
      intro record hrecord
      rw [replyFile, captureFile, captured_replies] at hrecord
      rcases List.mem_cons.mp hrecord with rfl | hrecord
      · rfl
      · obtain ⟨r, hr, hrecord⟩ := List.mem_flatMap.mp hrecord
        rw [hreply r hr] at hrecord
        simp only [List.mem_cons, List.not_mem_nil, or_false] at hrecord
        rcases hrecord with rfl | rfl <;> rfl
    have hverdict := h json rs (replyFile rs) (fun r hr => by rw [hreply r hr]; decide)
      (fun r hr => by rw [hreply r hr]; decide) (.refl _) hrecords
    have hconflict : ¬ Conflict (rs.map Reply.entry) := by
      rintro ⟨key, l, l', hl, -, hne, -⟩
      obtain ⟨r, hr, heq⟩ := List.mem_map.mp hl
      rw [hreply r hr] at heq
      cases heq
      exact hne List.nil_prefix
    have hsome := hverdict.not.mpr hconflict
    rw [Option.map_eq_none_iff] at hsome
    obtain ⟨p, hp⟩ := Option.ne_none_iff_exists'.mp hsome
    have htotal := loadLines_total hp (by decide)
    have hcount : (((replyFile rs).map json.write).map List.length).sum =
        (replyFile rs).length := by
      rw [List.map_map]
      have hone : List.length ∘ json.write = fun _ => 1 := funext hlength
      rw [hone, List.map_const', List.sum_replicate, smul_eq_mul, mul_one]
    have hmany : 2 ^ 24 < (replyFile rs).length := by
      rw [replyFile, captureFile, captured_replies, List.length_cons, List.length_flatMap]
      simp only [List.length_cons, List.length_nil, List.map_const', List.sum_replicate, smul_eq_mul]
      rw [List.length_replicate]
      omega
    rw [hcount] at htotal
    have : maxCapture = 2 ^ 24 := by decide
    omega

end UsbProxy
