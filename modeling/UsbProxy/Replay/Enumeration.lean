import UsbProxy.Replay.Runs

/-!
# A recorded enumeration is replayed

From the recorder's calls through the file and the loader to the replayer's answers: a
GET_DESCRIPTOR that the device answered is answered with the same bytes, and one that it never
answered is stalled.
-/

namespace UsbProxy

open Bits Hex Longest

/-! ### From the calls to the table -/

/-- The call records something beside control transfers. -/
def Call.isAside : Call → Bool
  | .speed _ | .report .. => true
  | _ => false

/-- The device acknowledged the request with this data. -/
def Acked (calls : List Call) (setup : CaptureSetup) (data : List Byte) : Prop :=
  ∃ before type during after,
    calls = before ++ .event type (some setup) :: (during ++ .reply (ascii "ack") data :: after) ∧
      ∀ c ∈ during, c.isAside = true

section Recorded

variable {calls : List Call} {setup : CaptureSetup} {data : List Byte}

/-- A reply behind its request is recorded with it. -/
theorem captured_acked (pending : Option CaptureSetup) (h : Acked calls setup data) :
    .control setup (ascii "ack") (hex data) ∈ captured pending calls := by
  obtain ⟨before, type, during, after, rfl, hduring⟩ := h
  -- other records do not disturb the pending request
  have haside : .control setup (ascii "ack") (hex data) ∈
      captured (some setup) (during ++ .reply (ascii "ack") data :: after) := by
    induction during with
    | nil => exact List.mem_cons_self
    | cons c during ih =>
      rw [List.forall_mem_cons] at hduring
      cases c with
      | speed => exact List.mem_cons_of_mem _ (ih hduring.2)
      | report => exact List.mem_cons_of_mem _ (ih hduring.2)
      | event | reply => cases hduring.1
  induction before generalizing pending with
  | nil =>
    cases pending <;> exact List.mem_cons_of_mem _ haside
  | cons c before ih =>
    cases c with
    | speed => cases pending <;> exact List.mem_cons_of_mem _ (ih _)
    | event => cases pending <;> exact List.mem_cons_of_mem _ (ih _)
    | report => cases pending <;> exact List.mem_cons_of_mem _ (ih _)
    | reply =>
      cases pending with
      | none => exact ih _
      | some setup' => exact List.mem_cons_of_mem _ (ih _)

/-- Only such replies are recorded as acknowledged. -/
theorem acked_of_captured {text : List Byte}
    (h : .control setup (ascii "ack") text ∈ captured none calls) :
    ∃ data, text = hex data ∧ Acked calls setup data := by
  -- a pending request was made by an event, and nothing but other records came since
  suffices hpending : ∀ (rest : List Call) (pending : Option CaptureSetup) (done : List Call),
      (∀ s, pending = some s → ∃ before type during,
        done = before ++ .event type (some s) :: during ∧ ∀ c ∈ during, c.isAside = true) →
      .control setup (ascii "ack") text ∈ captured pending rest →
      ∃ data, text = hex data ∧ Acked (done ++ rest) setup data from
    hpending calls none [] (by simp) h
  intro rest
  induction rest with
  | nil =>
    intro pending done _ hmem
    cases pending <;> cases hmem
  | cons c rest ih =>
    intro pending done hdone hmem
    rw [List.append_cons]
    have hkeep (haside : c.isAside = true) : ∀ s, pending = some s → ∃ before type during,
        done ++ [c] = before ++ .event type (some s) :: during ∧
          ∀ c ∈ during, c.isAside = true := by
      intro s hs
      obtain ⟨before, type, during, rfl, hduring⟩ := hdone s hs
      refine ⟨before, type, during ++ [c], by simp, fun c' hc' => ?_⟩
      rcases List.mem_append.mp hc' with hc' | hc'
      · exact hduring c' hc'
      · rw [List.mem_singleton.mp hc']
        exact haside
    cases c with
    | speed value =>
      have hmem : Record.control setup (ascii "ack") text ∈ captured pending rest := by
        cases pending <;> simpa [captured] using hmem
      exact ih pending _ (hkeep rfl) hmem
    | report endpoint interface bytes =>
      have hmem : Record.control setup (ascii "ack") text ∈ captured pending rest := by
        cases pending <;> simpa [captured] using hmem
      exact ih pending _ (hkeep rfl) hmem
    | event type request =>
      have hmem : Record.control setup (ascii "ack") text ∈ captured request rest := by
        cases pending <;> simpa [captured] using hmem
      exact ih request _ (fun s hs => ⟨done, type, [], by rw [hs], by simp⟩) hmem
    | reply status bytes =>
      cases pending with
      | none => exact ih none _ (by simp) (by simpa [captured] using hmem)
      | some s =>
        rcases List.mem_cons.mp hmem with hhere | hmem
        · cases hhere
          obtain ⟨before, type, during, rfl, hduring⟩ := hdone setup rfl
          exact ⟨bytes, rfl, before, type, during, rest, by simp, hduring⟩
        · exact ih none _ (by simp) hmem

end Recorded

/-! ### From the file to the table -/

section Loaded

variable {json : Json} {p p' : Loading} {records : List Record}

/-- A record that is loaded leaves its descriptor in the table. -/
theorem loadRecord_stores {r : Record} (h : loadRecord p r = some p') :
    storeAll p.descriptors r.descriptor.toList = some p'.descriptors := by
  cases r with
  | format version =>
    simp only [loadRecord] at h
    split at h
    · cases h
    · cases h
      rfl
  | speed | event =>
    cases h
    rfl
  | mouseReport endpoint interface data =>
    obtain ⟨_, -, rfl⟩ := Option.map_eq_some_iff.mp h
    rfl
  | control setup status data =>
    simp only [loadRecord] at h
    simp only [Record.descriptor]
    split at h
    · rename_i hother
      cases h
      rw [if_pos hother]
      rfl
    · rename_i hack
      rw [if_neg hack]
      split at h
      · cases h
      · rename_i bytes hbytes
        obtain ⟨descriptors, hstore, rfl⟩ := Option.map_eq_some_iff.mp h
        simp [hbytes, storeAll, hstore]

theorem loadLines_stores (hjson : json.Reproduces records)
    (h : loadLines json p (records.map json.write) = some p') :
    storeAll p.descriptors (records.flatMap fun r => r.descriptor.toList) =
      some p'.descriptors := by
  induction records generalizing p with
  | nil =>
    cases h
    rfl
  | cons r records ih =>
    rw [List.map_cons, loadLines] at h
    split at h
    · cases h
    · rename_i p1 hline
      unfold loadLine at hline
      dsimp only at hline
      rw [hjson r List.mem_cons_self] at hline
      split at hline
      · cases hline
      · have hfirst := loadRecord_stores hline
        have hrest := ih (fun r hr => hjson r (List.mem_cons_of_mem _ hr)) h
        rw [List.flatMap_cons, storeAll_append, hfirst]
        exact hrest

/-- The data of a record that is loaded is readable where it is a standard reply. -/
theorem loadLines_readable (hjson : json.Reproduces records)
    (h : loadLines json p (records.map json.write) = some p') {setup : CaptureSetup}
    {text : List Byte} (hmem : .control setup (ascii "ack") text ∈ records)
    (hstandard : setup.Standard) : ∃ bytes, unhex text = some bytes := by
  induction records generalizing p with
  | nil => cases hmem
  | cons r records ih =>
    rw [List.map_cons, loadLines] at h
    split at h
    · cases h
    · rename_i p1 hline
      rcases List.mem_cons.mp hmem with rfl | hmem
      · unfold loadLine at hline
        dsimp only at hline
        rw [hjson _ List.mem_cons_self] at hline
        split at hline
        · cases hline
        · simp only [loadRecord] at hline
          rw [if_neg (by simpa using hstandard)] at hline
          split at hline
          · cases hline
          · rename_i bytes hbytes
            exact ⟨bytes, hbytes⟩
      · exact ih (fun r hr => hjson r (List.mem_cons_of_mem _ hr)) h hmem

end Loaded

/-- **What the table of a loaded capture holds**, but for the HID descriptors. -/
theorem captured_holds {json : Json} {calls : List Call} {q : Loading}
    (hjson : json.Reproduces (captureFile calls))
    (hload : loadLines json {} ((captureFile calls).map json.write) = some q)
    (key : DescriptorKey) :
    (∀ t, q.descriptors key = some t →
      (∃ setup, setup.Standard ∧ setup.key = key ∧ Acked calls setup t) ∧
        ∀ setup data, setup.Standard → setup.key = key → Acked calls setup data → data <+: t) ∧
      (q.descriptors key = none → ∀ setup data, setup.Standard → setup.key = key →
        ¬ Acked calls setup data) := by
  have hholds := storeAll_some (loadLines_stores hjson hload)
  -- the entries of the file are the acknowledged replies
  have hentry {setup : CaptureSetup} {data : List Byte} (hstandard : setup.Standard)
      (hacked : Acked calls setup data) : (setup.key, data) ∈
        (captureFile calls).flatMap fun r => r.descriptor.toList := by
    have hmem : Record.control setup (ascii "ack") (hex data) ∈ captureFile calls :=
      List.mem_cons_of_mem _ (captured_acked none hacked)
    obtain ⟨bytes, hbytes⟩ := loadLines_readable hjson hload hmem hstandard
    have hsame : unhex (hex data) = some data := by
      by_cases hlong : data.length ≤ 4096
      · exact unhex_hex hlong
      · rw [unhex_long (by omega)] at hbytes
        cases hbytes
    refine List.mem_flatMap.mpr ⟨_, hmem, ?_⟩
    simp [Record.descriptor, hstandard, hsame]
  refine ⟨fun t ht => ⟨?_, fun setup data hstandard hkey hacked => ?_⟩,
    fun hnone setup data hstandard hkey hacked => ?_⟩
  · obtain ⟨r, hr, hdescriptor⟩ := List.mem_flatMap.mp (hholds.kept key t ht).1
    rw [Option.mem_toList] at hdescriptor
    cases r with
    | format | speed | event | mouseReport => cases hdescriptor
    | control setup status text =>
      simp only [Record.descriptor] at hdescriptor
      split at hdescriptor
      · cases hdescriptor
      · rename_i hack
        rw [not_or, not_not, not_not] at hack
        obtain ⟨bytes, hbytes, heq⟩ := Option.map_eq_some_iff.mp hdescriptor
        cases heq
        obtain ⟨rfl, hstandard⟩ := hack
        rcases List.mem_cons.mp hr with hr | hr
        · cases hr
        · obtain ⟨data, rfl, hacked⟩ := acked_of_captured hr
          refine ⟨setup, hstandard, rfl, ?_⟩
          have hsame : data = t := by
            by_cases hlong : data.length ≤ 4096
            · rw [unhex_hex hlong] at hbytes
              exact Option.some.inj hbytes
            · rw [unhex_long (by omega)] at hbytes
              cases hbytes
          rwa [← hsame]
  · exact (hholds.kept key t ht).2 data (hkey ▸ hentry hstandard hacked)
  · exact hholds.absent key hnone data (hkey ▸ hentry hstandard hacked)

/-! ### From the table to the answers -/

namespace ReplayProfile

variable {table : DescriptorKey → Option (List Byte)} {ss : List Section}

theorem override_other {key : DescriptorKey} (h : ∀ x ∈ ss, key ≠ hidKey x.number) :
    override table ss key = table key := by
  refine Blocks.foldl_update_of_not_mem fun hmem => ?_
  obtain ⟨x, hx, heq⟩ := List.mem_map.mp hmem
  exact h x hx heq.symm

theorem hidKey_inj {m n : ℕ} (hm : m < 256) (hn : n < 256) (h : hidKey m = hidKey n) : m = n := by
  have hindex : BitVec.ofNat 16 m = BitVec.ofNat 16 n := congrArg (·.2.2) h
  have hnat := congrArg BitVec.toNat hindex
  rw [BitVec.toNat_ofNat, BitVec.toNat_ofNat, Nat.mod_eq_of_lt (by omega),
    Nat.mod_eq_of_lt (by omega)] at hnat
  exact hnat

theorem override_hid (hnodup : (ss.map Section.number).Nodup) {x : Section} (hx : x ∈ ss) :
    override table ss (hidKey x.number) = some x.hid := by
  have hkeys : ss.map (fun x => hidKey x.number) = (ss.map Section.number).map hidKey := by
    rw [List.map_map]
    rfl
  have hdistinct : (ss.map fun x => hidKey x.number).Nodup := by
    rw [hkeys]
    refine hnodup.map_on fun m hm n hn h => ?_
    obtain ⟨y, -, rfl⟩ := List.mem_map.mp hm
    obtain ⟨z, -, rfl⟩ := List.mem_map.mp hn
    exact hidKey_inj (Replay.byteAt_lt ..) (Replay.byteAt_lt ..) h
  exact Blocks.foldl_update_of_mem hdistinct hx

end ReplayProfile

namespace Replay

open ReplayProfile

/-- A GET_DESCRIPTOR request is looked up. -/
theorem control_descriptor {d : Device} (g : Gadget) (wrote : ℕ → Bool) {s : CaptureSetup}
    (hstandard : s.Standard) (hlength : s.length.toNat ≤ maxTransferSize) :
    control d g wrote s = (g, match d.profile.descriptors s.key with
      | none => .stall
      | some t => .write (t.take s.length.toNat)) := by
  have hin : s.type.getLsbD 7 = true := by
    rcases hstandard.1 with h | h
    · rw [h]
      rfl
    · rw [h]
      rfl
  have hanswer : answer d g wrote s = (d.profile.descriptors s.key).map (g, ·) := if_pos hstandard
  unfold control
  rw [if_neg (by omega), hanswer, hin]
  cases d.profile.descriptors s.key <;> rfl

/-- **A recorded enumeration is replayed**, in every state of the replayer: a GET_DESCRIPTOR gets
the longest reply the device gave to it, cut to the length asked for, or a stall when there was
none; the HID descriptors are those of the configuration. -/
theorem enumeration_replayed {json : Json} {calls : List Call} {p : ReplayProfile}
    (hjson : json.Reproduces (captureFile calls))
    (hload : ReplayProfile.load json ((captureFile calls).map json.write) = some p)
    (epNum : ℕ → ℕ) (g : Gadget) (wrote : ℕ → Bool) (s : CaptureSetup) (hstandard : s.Standard)
    (hlength : s.length.toNat ≤ maxTransferSize) :
    ∃ response, control ⟨p, epNum⟩ g wrote s = (g, response) ∧
      (∀ i ∈ p.interfaces, s.key = hidKey i.number →
        response = .write (i.hid.take s.length.toNat)) ∧
      ((∀ i ∈ p.interfaces, s.key ≠ hidKey i.number) →
        (∀ setup data, setup.Standard → setup.key = s.key → Acked calls setup data →
          s.length.toNat ≤ data.length → response = .write (data.take s.length.toNat)) ∧
        ((response = .stall ∧ ∀ setup data, setup.Standard → setup.key = s.key →
            ¬ Acked calls setup data) ∨
          ∃ setup t, setup.Standard ∧ setup.key = s.key ∧ Acked calls setup t ∧
            (∀ setup data, setup.Standard → setup.key = s.key → Acked calls setup data →
              data <+: t) ∧
            response = .write (t.take s.length.toNat))) := by
  obtain ⟨q, hq, hcomplete⟩ := Option.bind_eq_some_iff.mp hload
  obtain ⟨device, config, bs, haccepts, rfl⟩ : ∃ device config bs, Accepts q device config bs ∧
      p = profileOf q device config bs := by
    cases hresult : complete q with
    | error e =>
      rw [hresult] at hcomplete
      cases hcomplete
    | ok p' =>
      rw [hresult] at hcomplete
      rw [← Option.some.inj hcomplete]
      exact complete_ok.mp hresult
  obtain ⟨hsome, hnone⟩ := captured_holds hjson hq s.key
  refine ⟨_, control_descriptor g wrote hstandard hlength, fun i hi hkey => ?_, fun hother => ?_⟩
  · obtain ⟨x, hx, rfl⟩ := List.mem_map.mp hi
    have hnodup : ((sections bs).map Section.number).Nodup :=
      sections_numbers ▸ haccepts.hidOnly.numbers
    have hhid : (profileOf q device config bs).descriptors s.key = some x.hid := by
      rw [hkey]
      exact override_hid hnodup hx
    rw [hhid]
    rfl
  · have htable : (profileOf q device config bs).descriptors s.key = q.descriptors s.key :=
      override_other fun x hx => hother _ (List.mem_map_of_mem hx)
    rw [htable]
    cases ht : q.descriptors s.key with
    | none =>
      refine ⟨fun setup data h1 h2 h3 => absurd h3 (hnone ht setup data h1 h2), .inl ⟨rfl, ?_⟩⟩
      exact hnone ht
    | some t =>
      obtain ⟨⟨setup, h1, h2, h3⟩, hall⟩ := hsome t ht
      refine ⟨fun setup' data h1' h2' h3' hle => ?_, .inr ⟨setup, t, h1, h2, h3, hall, rfl⟩⟩
      have hprefix := hall setup' data h1' h2' h3'
      rw [List.prefix_iff_eq_take.mp hprefix, List.take_take, min_eq_left hle]

end Replay

end UsbProxy
