import UsbProxy.Proxy.Lifecycle

/-!
# Runs of the proxied device

The host may configure the device, change altsettings and reset it in any order: the endpoints that
are up stay those of the current altsettings, and the mixer has exactly the mouse endpoints among
them.  A change of configuration stops as many altsettings as the new configuration has, those it
is in; it leaves things in order exactly when these are the ones that are up.
-/

namespace UsbProxy.Proxy

open Bits

variable {d : Device} {o : Outside} {g g' : Gadget} {fuel : ℕ}

/-! ### Places -/

theorem mem_places {c c' : ℕ} {p : Place} :
    p ∈ places d g c c' ↔ p.config = c ∧ p.interface < (d.interfaces c').length ∧
      p.altsetting = g.currentAltsetting c' p.interface := by
  unfold places
  rw [List.mem_map]
  constructor
  · rintro ⟨i, hi, rfl⟩
    exact ⟨rfl, List.mem_range.mp hi, rfl⟩
  · rintro ⟨hc, hi, hk⟩
    exact ⟨p.interface, List.mem_range.mpr hi, by rw [← hc, ← hk]⟩

theorem places_apart (c c' : ℕ) :
    (places d g c c').Pairwise fun p q => p.interface ≠ q.interface := by
  unfold places
  rw [List.pairwise_map]
  exact List.nodup_range

theorem places_congr {c c' : ℕ} (h : g'.currentAltsetting = g.currentAltsetting) :
    places d g' c c' = places d g c c' := by
  unfold places
  rw [h]

/-- What the code relies on about the device. -/
structure Device.Wf (d : Device) : Prop where
  interfaces : ∀ c, ∀ alts ∈ d.interfaces c, alts ≠ []
  sound : ∀ p alt, d.altsetting p = some alt → ∀ e ∈ alt.endpoints, e.Sound
  /-- Interfaces of one configuration share no endpoint. -/
  apart : ∀ p q alt alt', d.altsetting p = some alt → d.altsetting q = some alt' →
    p.config = q.config → p.interface ≠ q.interface →
    ∀ e ∈ alt.endpoints, ∀ e' ∈ alt'.endpoints, e'.address ≠ e.address

theorem Device.Wf.first (hd : d.Wf) {c i : ℕ} (hi : i < (d.interfaces c).length) :
    ∃ alt, d.altsetting ⟨c, i, 0⟩ = some alt := by
  have hne := hd.interfaces c _ (List.getElem_mem hi)
  unfold Device.altsetting
  rw [List.getElem?_eq_getElem hi, Option.bind_some]
  cases halts : (d.interfaces c)[i] with
  | nil => exact absurd halts hne
  | cons alt rest => exact ⟨alt, rfl⟩

theorem Device.Wf.unmanaged (hd : d.Wf) {p q : Place} {alt : Altsetting} {a : ℕ}
    (halt : d.altsetting p = some alt) (hconfig : q.config = p.config)
    (hinterface : q.interface ≠ p.interface) (hmanages : d.Manages q a) :
    ∀ e ∈ alt.endpoints, e.address.toNat ≠ a := by
  obtain ⟨alt', halt', e', he', -, rfl⟩ := hmanages
  intro e he haddress
  exact hd.apart q p alt' alt halt' halt hconfig hinterface e' he' e he
    (BitVec.eq_of_toNat_eq haddress)

/-! ### The invariant -/

/-- The altsettings that are up. -/
def Gadget.Current (d : Device) (g : Gadget) (p : Place) : Prop :=
  g.configured = true ∧ p ∈ places d g g.currentConfig g.currentConfig

structure Gadget.Inv (d : Device) (g : Gadget) : Prop where
  covers : Covers d (g.Current d) g
  valid : ∀ c i, i < (d.interfaces c).length →
    ∃ alt, d.altsetting ⟨c, i, g.currentAltsetting c i⟩ = some alt

theorem Gadget.Inv.start (hd : d.Wf) : (start d).Inv d where
  covers := by
    refine ⟨fun p => ?_, fun t ht => ?_, fun a => ?_, fun a _ => rfl, fun p _ => rfl⟩
    · exact ⟨fun h => (Bool.false_ne_true h).elim, fun h => (Bool.false_ne_true h.1).elim⟩
    · exact (Bool.false_ne_true ht).elim
    · exact ⟨fun h => (Bool.false_ne_true h).elim, fun ⟨_, hp, _⟩ => (Bool.false_ne_true hp.1).elim⟩
  valid := fun _ _ hi => hd.first hi

theorem Covers.of_eq {U : Place → Prop} (h : Covers d U g) (hworld : g'.world = g.world)
    (hup : g'.up = g.up) (hlive : g'.live = g.live) (hpipes : g'.pipes = g.pipes) :
    Covers d U g' := by
  refine ⟨fun p => ?_, fun t ht => ?_, fun a => ?_, ?_, ?_⟩
  · rw [hup, h.up]
  · rw [hlive] at ht
    exact h.live t ht
  · rw [hworld, h.registered]
  · rw [hworld]
    exact h.idle
  · rw [hpipes]
    exact h.empty

theorem Gadget.Inv.of_eq (h : g.Inv d) (hworld : g'.world = g.world) (hup : g'.up = g.up)
    (hlive : g'.live = g.live) (hpipes : g'.pipes = g.pipes)
    (hconfig : g'.currentConfig = g.currentConfig)
    (haltsetting : g'.currentAltsetting = g.currentAltsetting)
    (hconfigured : g'.configured = g.configured) : g'.Inv d := by
  refine ⟨(h.covers.of_eq hworld hup hlive hpipes).congr fun p => ?_, fun c i hi => ?_⟩
  · unfold Gadget.Current
    rw [places_congr haltsetting, hconfig, hconfigured]
  · rw [haltsetting]
    exact h.valid c i hi

/-! ### Stopping and starting a configuration -/

/-- Stopping what is up, altsetting by altsetting; `after` does the books of one. -/
theorem stopAll (after : Place → Gadget → Gadget) (hd : d.Wf)
    (hworld : ∀ p g, (after p g).world = g.world) (hup : ∀ p g, (after p g).up = g.up)
    (hlive : ∀ p g, (after p g).live = g.live) (hpipes : ∀ p g, (after p g).pipes = g.pipes) {c : ℕ} {P : Gadget → Prop}
    (hafter : ∀ p g g', P g → p.config = c → p.interface < (d.interfaces c).length → Kept g g' →
      P (after p g')) {l : List Place}
    (hcovers : Covers d (· ∈ l) g) (hapart : l.Pairwise fun p q => p.interface ≠ q.interface)
    (hplace : ∀ p ∈ l, p.config = c ∧ p.interface < (d.interfaces c).length ∧
      ∃ alt, d.altsetting p = some alt) (hP : P g) :
    ∃ g', overPlaces (fun p g => (terminateEps d o p g).map (after p)) l g = some g' ∧
      Covers d (fun _ => False) g' ∧ P g' := by
  obtain ⟨g', hrun, hcovers', -, -, hP'⟩ := overPlaces_rule
    (f := fun p g => (terminateEps d o p g).map (after p))
    (I := fun l g => Covers d (· ∈ l) g ∧ (l.Pairwise fun p q => p.interface ≠ q.interface) ∧
      (∀ p ∈ l, p.config = c ∧ p.interface < (d.interfaces c).length ∧
        ∃ alt, d.altsetting p = some alt) ∧ P g)
    (fun p rest g h => by
      obtain ⟨hcovers, hapart, hplace, hP⟩ := h
      rw [List.pairwise_cons] at hapart
      rw [List.forall_mem_cons] at hplace
      obtain ⟨hc, hi, alt, halt⟩ := hplace.1
      have hothers : ∀ q a, q ∈ p :: rest → q ≠ p → d.Manages q a →
          ∀ e ∈ alt.endpoints, e.address.toNat ≠ a := by
        intro q a hq hne hmanages
        have hq : q ∈ rest := (List.mem_cons.mp hq).resolve_left hne
        have hconfig : q.config = p.config := by rw [(hplace.2 q hq).1, hc]
        exact hd.unmanaged halt hconfig (Ne.symm (hapart.1 q hq)) hmanages
      obtain ⟨g1, h1, hcovers1, hkept⟩ :=
        terminateEps_covers (o := o) hcovers List.mem_cons_self halt hothers
      refine ⟨after p g1, by rw [h1, Option.map_some], ?_, hapart.2, hplace.2,
        hafter p g g1 hP hc hi hkept⟩
      refine (hcovers1.of_eq (hworld p g1) (hup p g1) (hlive p g1) (hpipes p g1)).congr fun q => ?_
      constructor
      · rintro ⟨hq, hne⟩
        exact (List.mem_cons.mp hq).resolve_left hne
      · intro hq
        refine ⟨List.mem_cons_of_mem _ hq, ?_⟩
        rintro rfl
        exact hapart.1 q hq rfl)
    ⟨hcovers, hapart, hplace, hP⟩
  exact ⟨g', hrun, hcovers'.congr fun p => by simp, hP'⟩

/-- What is stopped are the altsettings that are up. -/
def Matched (d : Device) (g : Gadget) (c : ℕ) : Prop :=
  places d g g.currentConfig c = places d g g.currentConfig g.currentConfig

instance (d : Device) (g : Gadget) (c : ℕ) : Decidable (Matched d g c) :=
  inferInstanceAs (Decidable (_ = _))

theorem Gadget.Inv.placed (h : g.Inv d) : ∀ p ∈ places d g g.currentConfig g.currentConfig,
    p.config = g.currentConfig ∧ p.interface < (d.interfaces g.currentConfig).length ∧
      ∃ alt, d.altsetting p = some alt := by
  intro p hp
  unfold places at hp
  obtain ⟨i, hi, rfl⟩ := List.mem_map.mp hp
  rw [List.mem_range] at hi
  exact ⟨rfl, hi, h.valid g.currentConfig i hi⟩

theorem Gadget.Inv.upCovers (h : g.Inv d) (hconfigured : g.configured = true) :
    Covers d (· ∈ places d g g.currentConfig g.currentConfig) g :=
  h.covers.congr fun _ => ⟨fun hp => hp.2, fun hp => ⟨hconfigured, hp⟩⟩

theorem Gadget.Inv.downCovers (h : g.Inv d) (hconfigured : g.configured = false) :
    Covers d (fun _ => False) g :=
  h.covers.congr fun _ =>
    ⟨fun hp => Bool.false_ne_true (hconfigured.symm.trans hp.1), False.elim⟩

/-- Starting the altsettings zero of a configuration. -/
theorem startAll (hd : d.Wf) {c : ℕ} (hcovers : Covers d (fun _ => False) g)
    (hvalid : ∀ c i, i < (d.interfaces c).length →
      ∃ alt, d.altsetting ⟨c, i, g.currentAltsetting c i⟩ = some alt)
    (hconfig : g.currentConfig = c) :
    ∃ g', overPlaces (fun p g => processEps d o p (g.choose c p.interface 0))
        ((List.range (d.interfaces c).length).map (⟨c, ·, 0⟩)) g = some g' ∧
      { g' with configured := true }.Inv d := by
  obtain ⟨g', hrun, done, hdone, hcovers', hvalid', hconfig', hzero⟩ := overPlaces_rule
    (f := fun p g => processEps d o p (g.choose c p.interface 0))
    (I := fun rest g => ∃ done,
      (List.range (d.interfaces c).length).map (fun i => (⟨c, i, 0⟩ : Place)) = done ++ rest ∧
        Covers d (· ∈ done) g ∧
        (∀ c i, i < (d.interfaces c).length →
          ∃ alt, d.altsetting ⟨c, i, g.currentAltsetting c i⟩ = some alt) ∧
        g.currentConfig = c ∧ ∀ p ∈ done, g.currentAltsetting c p.interface = 0)
    (fun p rest g h => by
      obtain ⟨done, hsplit, hcovers, hvalid, hconfig, hzero⟩ := h
      have hp : p ∈ (List.range (d.interfaces c).length).map (fun i => (⟨c, i, 0⟩ : Place)) := by
        rw [hsplit]
        simp
      obtain ⟨i, hi, rfl⟩ := List.mem_map.mp hp
      obtain ⟨alt, halt⟩ := hd.first (List.mem_range.mp hi)
      have hchosen : Covers d (· ∈ done) (g.choose c i 0) := hcovers.of_eq rfl rfl rfl rfl
      obtain ⟨g1, h1, hcovers1, hkept⟩ :=
        processEps_covers (o := o) hchosen halt (hd.sound _ alt halt)
      refine ⟨g1, h1, done ++ [⟨c, i, 0⟩], by rw [hsplit, List.append_cons], ?_, ?_, ?_, ?_⟩
      · refine hcovers1.congr fun q => ?_
        rw [List.mem_append, List.mem_singleton]
      · intro c' i' hi'
        rw [hkept.currentAltsetting]
        show ∃ alt, d.altsetting ⟨c', i', if c' = c ∧ i' = i then 0 else _⟩ = some alt
        by_cases hhere : c' = c ∧ i' = i
        · rw [if_pos hhere]
          exact hd.first hi'
        · rw [if_neg hhere]
          exact hvalid c' i' hi'
      · rw [hkept.currentConfig]
        exact hconfig
      · intro q hq
        rw [hkept.currentAltsetting]
        show (if c = c ∧ q.interface = i then 0 else g.currentAltsetting c q.interface) = 0
        rcases List.mem_append.mp hq with hq | hq
        · rw [hzero q hq, ite_self]
        · rw [List.mem_singleton.mp hq]
          exact if_pos ⟨rfl, rfl⟩)
    ⟨[], rfl, hcovers.congr fun p => by simp, hvalid, hconfig, by simp⟩
  have hconfigured : Covers d (· ∈ done) { g' with configured := true } :=
    hcovers'.of_eq rfl rfl rfl rfl
  refine ⟨g', hrun, hconfigured.congr fun p => ?_, hvalid'⟩
  rw [List.append_nil] at hdone
  rw [← hdone] at hzero ⊢
  unfold Gadget.Current
  rw [mem_places]
  dsimp only
  rw [hconfig', List.mem_map]
  constructor
  · rintro ⟨i, hi, rfl⟩
    exact ⟨rfl, rfl, List.mem_range.mp hi, (hzero _ (List.mem_map_of_mem hi)).symm⟩
  · rintro ⟨-, hc, hi, hk⟩
    refine ⟨p.interface, List.mem_range.mpr hi, ?_⟩
    have hzero := hzero ⟨c, p.interface, 0⟩ (List.mem_map_of_mem (List.mem_range.mpr hi))
    rw [← hc, ← hzero, ← hk]

/-! ### The event loop -/

/-- Books without endpoints. -/
theorem Gadget.Inv.chosen (hd : d.Wf) {c i : ℕ}
    (h : ∀ c i, i < (d.interfaces c).length →
      ∃ alt, d.altsetting ⟨c, i, g.currentAltsetting c i⟩ = some alt) :
    ∀ c' i', i' < (d.interfaces c').length →
      ∃ alt, d.altsetting ⟨c', i', (g.choose c i 0).currentAltsetting c' i'⟩ = some alt := by
  intro c' i' hi'
  show ∃ alt, d.altsetting ⟨c', i', if c' = c ∧ i' = i then 0 else g.currentAltsetting c' i'⟩ =
    some alt
  by_cases hhere : c' = c ∧ i' = i
  · rw [if_pos hhere]
    exact hd.first hi'
  · rw [if_neg hhere]
    exact h c' i' hi'

theorem Gadget.Inv.reset (hd : d.Wf) (h : g.Inv d) :
    ∃ g', Proxy.reset d o g = some g' ∧ g'.Inv d := by
  unfold Proxy.reset
  by_cases hconfigured : g.configured = true
  · rw [if_pos hconfigured]
    obtain ⟨g1, hrun, hcovers, hvalid⟩ := stopAll (o := o) (d := d)
      (fun p g => g.choose p.config p.interface 0)
      (P := fun g => ∀ c i, i < (d.interfaces c).length →
        ∃ alt, d.altsetting ⟨c, i, g.currentAltsetting c i⟩ = some alt)
      hd (fun _ _ => rfl) (fun _ _ => rfl) (fun _ _ => rfl) (fun _ _ => rfl)
      (fun p g g' hvalid _ _ hkept => Gadget.Inv.chosen hd (by rwa [hkept.currentAltsetting]))
      (h.upCovers hconfigured) (places_apart _ _) h.placed h.valid
    rw [hrun]
    have hdown : Covers d (fun _ => False) { g1 with currentConfig := 0, configured := false } :=
      hcovers.of_eq rfl rfl rfl rfl
    refine ⟨_, rfl, ?_, hvalid⟩
    exact hdown.congr fun p => ⟨False.elim, fun hp => Bool.false_ne_true hp.1⟩
  · rw [if_neg hconfigured]
    exact ⟨g, rfl, h⟩

theorem Gadget.Inv.ack (h : g.Inv d) (s : CaptureSetup) : (g.ack o s).Inv d := by
  unfold Gadget.ack
  split
  · exact h
  · exact h.of_eq rfl rfl rfl rfl rfl rfl rfl

theorem Gadget.Inv.stall (h : g.Inv d) (s : CaptureSetup) : (g.stall o s).Inv d := by
  unfold Gadget.stall
  split
  · exact h.of_eq rfl rfl rfl rfl rfl rfl rfl
  · exact h

/-- **A change of configuration that is matched leaves things in order.** -/
theorem Gadget.Inv.setConfiguration (hd : d.Wf) (h : g.Inv d) {s : CaptureSetup}
    (hmatched : ∀ c, d.configs.findIdx? (fun c => c.configurationValue == s.value.toNat) = some c →
      g.configured = true → Matched d g c) :
    ∃ g', Proxy.setConfiguration d o s g = some g' ∧ g'.Inv d := by
  unfold Proxy.setConfiguration
  cases hfind : d.configs.findIdx? fun c => c.configurationValue == s.value.toNat with
  | none => exact ⟨g, rfl, h⟩
  | some c =>
    dsimp only
    have hstopped : ∃ g1, (if g.configured = true then
          overPlaces (terminateEps d o) (places d g g.currentConfig c) g else some g) = some g1 ∧
        Covers d (fun _ => False) g1 ∧ ∀ c i, i < (d.interfaces c).length →
          ∃ alt, d.altsetting ⟨c, i, g1.currentAltsetting c i⟩ = some alt := by
      by_cases hconfigured : g.configured = true
      · rw [if_pos hconfigured, hmatched c hfind hconfigured]
        have hplain : terminateEps d o =
            fun p g => (terminateEps d o p g).map ((fun _ g => g) p) := by
          funext p g
          rw [Option.map_id']
        rw [hplain]
        exact stopAll (o := o) (d := d) (fun _ g => g) hd (fun _ _ => rfl)
          (fun _ _ => rfl) (fun _ _ => rfl) (fun _ _ => rfl)
          (fun p g g' hvalid _ _ hkept => by rwa [hkept.currentAltsetting])
          (h.upCovers hconfigured) (places_apart _ _) h.placed h.valid
      · rw [if_neg hconfigured]
        exact ⟨g, rfl, h.downCovers (by simpa using hconfigured), h.valid⟩
    obtain ⟨g1, h1, hcovers, hvalid⟩ := hstopped
    have hfresh : Covers d (fun _ => False) { g1 with currentConfig := c } :=
      hcovers.of_eq rfl rfl rfl rfl
    obtain ⟨g2, h2, hinv⟩ := startAll (o := o) hd hfresh hvalid rfl
    rw [h1, Option.bind_some, h2, Option.map_some]
    exact ⟨_, rfl, hinv.ack s⟩

theorem Gadget.Inv.setInterface (hd : d.Wf) (h : g.Inv d) {s : CaptureSetup}
    (hconfigured : g.configured = true) :
    ∃ g', Proxy.setInterface d o s g = some g' ∧ g'.Inv d := by
  unfold Proxy.setInterface
  dsimp only
  cases hi : (d.interfaces g.currentConfig).findIdx? fun alts =>
      alts.head?.any fun alt => alt.interfaceNumber == s.index.toNat with
  | none => exact ⟨g, rfl, h⟩
  | some i =>
    dsimp only
    obtain ⟨hlt, -⟩ := List.findIdx?_eq_some_iff_getElem.mp hi
    cases hk : ((d.interfaces g.currentConfig).getD i []).findIdx? fun alt =>
        alt.alternateSetting == s.value.toNat with
    | none => exact ⟨g, rfl, h⟩
    | some k =>
      dsimp only
      by_cases hsame : k = g.currentAltsetting g.currentConfig i
      · rw [if_pos hsame]
        exact ⟨_, rfl, h.ack s⟩
      rw [if_neg hsame]
      obtain ⟨hklt, -⟩ := List.findIdx?_eq_some_iff_getElem.mp hk
      rw [List.getD_eq_getElem _ _ hlt] at hklt
      have hnew : d.altsetting ⟨g.currentConfig, i, k⟩ =
          some ((d.interfaces g.currentConfig)[i][k]) := by
        unfold Device.altsetting
        rw [List.getElem?_eq_getElem hlt, Option.bind_some, List.getElem?_eq_getElem hklt]
      obtain ⟨alt, halt⟩ := h.valid g.currentConfig i hlt
      have hup : (⟨g.currentConfig, i, g.currentAltsetting g.currentConfig i⟩ : Place) ∈
          places d g g.currentConfig g.currentConfig := mem_places.mpr ⟨rfl, hlt, rfl⟩
      -- the others that are up belong to other interfaces
      have hothers : ∀ q a, q ∈ places d g g.currentConfig g.currentConfig →
          q ≠ ⟨g.currentConfig, i, g.currentAltsetting g.currentConfig i⟩ → d.Manages q a →
          ∀ e ∈ alt.endpoints, e.address.toNat ≠ a := by
        intro q a hq hne hmanages
        obtain ⟨hc, -, hcur⟩ := mem_places.mp hq
        refine hd.unmanaged halt hc (fun hinterface => hne ?_) hmanages
        obtain ⟨qc, qi, qk⟩ := q
        dsimp only at hc hcur hinterface
        rw [hc, hcur, hinterface]
      obtain ⟨g1, h1, hcovers1, hkept1⟩ :=
        terminateEps_covers (o := o) (h.upCovers hconfigured) hup halt hothers
      obtain ⟨g2, h2, hcovers2, hkept2⟩ :=
        processEps_covers (o := o) hcovers1 hnew (hd.sound _ _ hnew)
      rw [h1, Option.bind_some, h2, Option.map_some]
      refine ⟨_, rfl, Gadget.Inv.ack ⟨?_, fun c' i' hi' => ?_⟩ s⟩
      · have hchosen : Covers d _ (g2.choose g.currentConfig i k) := hcovers2.of_eq rfl rfl rfl rfl
        refine hchosen.congr fun q => ?_
        unfold Gadget.Current
        rw [mem_places, mem_places]
        show _ ↔ g2.configured = true ∧ q.config = g2.currentConfig ∧
          q.interface < (d.interfaces g2.currentConfig).length ∧ q.altsetting =
            if g2.currentConfig = g.currentConfig ∧ q.interface = i then k
            else g2.currentAltsetting g2.currentConfig q.interface
        rw [hkept2.configured, hkept1.configured, hkept2.currentConfig, hkept1.currentConfig,
          hkept2.currentAltsetting, hkept1.currentAltsetting]
        obtain ⟨qc, qi, qk⟩ := q
        simp only [Place.mk.injEq, true_and, hconfigured]
        by_cases hqi : qi = i
        · subst hqi
          rw [if_pos rfl]
          constructor
          · rintro (⟨⟨rfl, -, rfl⟩, hne⟩ | ⟨rfl, -, rfl⟩)
            · exact absurd rfl hne
            · exact ⟨rfl, hlt, rfl⟩
          · rintro ⟨rfl, -, rfl⟩
            exact .inr ⟨rfl, rfl, rfl⟩
        · rw [if_neg hqi]
          constructor
          · rintro (⟨hq, -⟩ | ⟨-, hqi', -⟩)
            · exact hq
            · exact absurd hqi' hqi
          · intro hq
            exact .inl ⟨hq, fun hsame => hqi (congrArg Place.interface hsame)⟩
      · show ∃ alt, d.altsetting ⟨c', i', if c' = g.currentConfig ∧ i' = i then k else
          g2.currentAltsetting c' i'⟩ = some alt
        by_cases hhere : c' = g.currentConfig ∧ i' = i
        · rw [if_pos hhere, hhere.1, hhere.2]
          exact ⟨_, hnew⟩
        · rw [if_neg hhere, hkept2.currentAltsetting, hkept1.currentAltsetting]
          exact h.valid c' i' hi'

/-! ### The steps, case by case -/

/-- The step belongs to the threads of the endpoint. -/
def threadAt (x : EnvStep) (a : ℕ) : Prop :=
  (∃ n l, x = .physical a n l) ∨ x = .push a ∨ x = .take a ∨ ∃ b, x = .written a b

/-- What the threads of an unmanaged endpoint do to its pipe. -/
inductive PipeMove (fuel : ℕ) (d : Device) (e : EndpointDescriptor) (pipe : Pipe) : Pipe → Prop
  | same : PipeMove fuel d e pipe pipe
  | received {data : List Byte} {io : Io} (hreader : pipe.reader = none)
      (hroom : e.HasRoom pipe.dataQueue) (hdata : e.Accepts data)
      (hio : endpointInjection fuel e.address.toNat (d.rules e)
        { ep := d.epNum e.address.toNat, data } = some io) :
      PipeMove fuel d e pipe { pipe with reader := some io, received := pipe.received ++ [data] }
  | pushed {io : Io} (hreader : pipe.reader = some io) (hroom : e.HasRoom pipe.dataQueue) :
      PipeMove fuel d e pipe { pipe with dataQueue := pipe.dataQueue ++ [io], reader := none }
  | taken {io : Io} {rest : List Io} (hwriter : pipe.writer = none)
      (hqueue : pipe.dataQueue = io :: rest) :
      PipeMove fuel d e pipe { pipe with dataQueue := rest, writer := some io }
  | finished {io : Io} (success : Bool) (hwriter : pipe.writer = some io) :
      PipeMove fuel d e pipe
        { pipe with writer := none, written := pipe.written ++ [(io, e.delivers success)] }

/-- What a step does to the gadget. -/
inductive Stepped (fuel : ℕ) (d : Device) (g : Gadget) : Step → Gadget → Prop
  | control {o : Outside} {s : CaptureSetup} {g' : Gadget}
      (h : control fuel d o s g = some g') : Stepped fuel d g (.control o s) g'
  | reset {o : Outside} {type : ℕ} {g' : Gadget}
      (h : reset d o (g.fetched type none) = some g') : Stepped fuel d g (.event o type) g'
  | fetched (o : Outside) (type : ℕ) : Stepped fuel d g (.event o type) (g.fetched type none)
  | same (x : Step) : Stepped fuel d g x g
  | read {t : Thread} {data : List Byte} {alt : Altsetting} {e : EndpointDescriptor} (io : Io)
      (hserved : served d g t = some (alt, e)) (hmanages : alt.manages e = true) :
      Stepped fuel d g (.read t data) { g with
        world := g.world.env (.physical e.address.toNat io.ep io.data)
        calls := g.calls ++ sampled g.world e.address.toNat io.data }
  | thread {x : Step} {t : Thread} {alt : Altsetting} {e : EndpointDescriptor} {y : EnvStep}
      (hserved : served d g t = some (alt, e)) (hmanages : alt.manages e = true)
      (hy : threadAt y e.address.toNat) : Stepped fuel d g x { g with world := g.world.env y }
  | pipe {x : Step} {t : Thread} {alt : Altsetting} {e : EndpointDescriptor} {pipe : Pipe}
      (hserved : served d g t = some (alt, e)) (hmanages : alt.manages e = false)
      (hmove : PipeMove fuel d e (g.pipes t.place t.endpoint) pipe) :
      Stepped fuel d g x (g.setPipe t pipe)
  | left (t : Thread) :
      Stepped fuel d g (.leave t) { g with live := Function.update g.live t false }
  | server {x : MixerStep} (hx : ∀ y, x ≠ .thread y) :
      Stepped fuel d g (.server x) { g with world := g.world.mix x }
  | elapsed (ns : ℕ) : Stepped fuel d g (.elapse ns) { g with world := g.world.env (.elapse ns) }

theorem push_move (e : EndpointDescriptor) (pipe : Pipe) : PipeMove fuel d e pipe (pipe.push e) := by
  unfold Pipe.push
  split
  · exact .same
  · rename_i io hreader
    by_cases hroom : e.HasRoom pipe.dataQueue
    · rw [if_pos hroom]
      exact .pushed hreader hroom
    · rw [if_neg hroom]
      exact .same

theorem take_move (e : EndpointDescriptor) (pipe : Pipe) : PipeMove fuel d e pipe pipe.take := by
  unfold Pipe.take
  split
  · rename_i io rest hwriter hqueue
    exact .taken hwriter hqueue
  · exact .same

theorem finish_move (e : EndpointDescriptor) (success : Bool) (pipe : Pipe) :
    PipeMove fuel d e pipe (pipe.finish e success) := by
  unfold Pipe.finish
  split
  · exact .same
  · rename_i io hwriter
    exact .finished success hwriter

theorem threadStep_cases {x : Step} {t : Thread} {y : ℕ → EnvStep}
    {f : EndpointDescriptor → Pipe → Pipe} (hy : ∀ a, threadAt (y a) a)
    (hf : ∀ e pipe, PipeMove fuel d e pipe (f e pipe)) :
    Stepped fuel d g x (threadStep d t y f g) := by
  unfold threadStep
  split
  · exact .same x
  · rename_i alt e hserved
    by_cases hmanages : alt.manages e = true
    · rw [if_pos hmanages]
      exact .thread hserved hmanages (hy _)
    · rw [if_neg hmanages]
      exact .pipe hserved (by simpa using hmanages) (hf e _)

theorem readTransfer_cases {t : Thread} {data : List Byte}
    (h : readTransfer fuel d t data g = some g') : Stepped fuel d g (.read t data) g' := by
  unfold readTransfer at h
  split at h
  · exact Option.some.inj h ▸ .same _
  · rename_i alt e hserved
    dsimp only at h
    split at h
    · rename_i hready
      obtain ⟨io, hio, rfl⟩ := Option.map_eq_some_iff.mp h
      by_cases hmanages : alt.manages e = true
      · rw [if_pos hmanages]
        exact .read io hserved hmanages
      · rw [if_neg hmanages]
        have hfree := hready.1
        unfold Gadget.Receives at hfree
        rw [if_neg hmanages] at hfree
        exact .pipe hserved (by simpa using hmanages) (.received hfree.1 hfree.2 hready.2 hio)
    · exact Option.some.inj h ▸ .same _

theorem step_cases {x : Step} (h : step fuel d g x = some g') : Stepped fuel d g x g' := by
  cases x with
  | control o s => exact .control h
  | event o type =>
    rw [step] at h
    split at h
    · exact .reset h
    · exact Option.some.inj h ▸ .fetched o type
  | read t data =>
    rw [step] at h
    split at h
    · exact Option.some.inj h ▸ .same _
    · exact readTransfer_cases h
  | push t =>
    rw [← Option.some.inj h]
    split
    · exact .same _
    · exact threadStep_cases (fun _ => .inr (.inl rfl)) push_move
  | take t =>
    rw [← Option.some.inj h]
    split
    · exact threadStep_cases (fun _ => .inr (.inr (.inl rfl))) take_move
    · exact .same _
  | written t success =>
    rw [← Option.some.inj h]
    split
    · exact threadStep_cases (fun _ => .inr (.inr (.inr ⟨success, rfl⟩)))
        fun e pipe => finish_move e success pipe
    · exact .same _
  | leave t => exact Option.some.inj h ▸ .left t
  | server x =>
    cases x with
    | thread y => exact Option.some.inj h ▸ .same _
    | enqueue | clear | takeEvents | takeOverflow | record =>
      exact Option.some.inj h ▸ .server (by simp)
  | elapse ns => exact Option.some.inj h ▸ .elapsed ns

/-! ### The threads, the server and the other requests -/

/-- A step of the mixer that leaves its endpoints where they are. -/
theorem Gadget.Inv.world (h : g.Inv d) {w : World}
    (hregistered : ∀ a, w.registered a = g.world.registered a)
    (hports : ∀ a, w.registered a = false → w.ports a = g.world.ports a) :
    { g with world := w }.Inv d := by
  refine ⟨⟨h.covers.up, h.covers.live, fun a => ?_, fun a ha => ?_, h.covers.empty⟩, h.valid⟩
  · rw [hregistered]
    exact h.covers.registered a
  · rw [hports a ha]
    exact h.covers.idle a (hregistered a ▸ ha)

theorem served_some {t : Thread} {alt : Altsetting} {e : EndpointDescriptor}
    (h : served d g t = some (alt, e)) : g.live t = true ∧ d.altsetting t.place = some alt ∧
      alt.endpoints[t.endpoint]? = some e := by
  unfold served at h
  split at h
  · rename_i hlive
    obtain ⟨alt', halt, hrest⟩ := Option.bind_eq_some_iff.mp h
    obtain ⟨e', he, hsame⟩ := Option.map_eq_some_iff.mp hrest
    obtain ⟨rfl, rfl⟩ := Prod.mk.inj hsame
    exact ⟨hlive, halt, he⟩
  · cases h

/-- The mixer has an endpoint for a managed one whose thread runs. -/
theorem Gadget.Inv.registered (h : g.Inv d) {t : Thread} {alt : Altsetting}
    {e : EndpointDescriptor} (hserved : served d g t = some (alt, e))
    (hmanages : alt.manages e = true) : g.world.registered e.address.toNat = true := by
  obtain ⟨hlive, halt, he⟩ := served_some hserved
  exact (h.covers.registered _).mpr ⟨t.place, (h.covers.live t hlive).1, alt, halt, e,
    List.mem_of_getElem? he, hmanages, rfl⟩

/-- The pipe of an altsetting that is up is used. -/
theorem Gadget.Inv.setPipe (h : g.Inv d) {t : Thread} {alt : Altsetting} {e : EndpointDescriptor}
    (hserved : served d g t = some (alt, e)) (pipe : Pipe) : (g.setPipe t pipe).Inv d := by
  refine ⟨⟨h.covers.up, h.covers.live, h.covers.registered, h.covers.idle, fun p hp => ?_⟩,
    h.valid⟩
  have hne : p ≠ t.place := by
    rintro rfl
    exact hp (h.covers.live t (served_some hserved).1).1
  unfold Gadget.setPipe
  dsimp only
  rw [Function.update_of_ne hne]
  exact h.covers.empty p hp

theorem Gadget.Inv.thread (h : g.Inv d) {x : EnvStep} {a : ℕ} (hx : threadAt x a)
    (ha : g.world.registered a = true) : { g with world := g.world.env x }.Inv d := by
  have hsame (b : ℕ) : (g.world.env x).registered b = g.world.registered b := by
    refine World.registered_layout ?_ ?_
    · rcases hx with ⟨n, l, rfl⟩ | rfl | rfl | ⟨c, rfl⟩ <;> simp
    · rcases hx with ⟨n, l, rfl⟩ | rfl | rfl | ⟨c, rfl⟩ <;> simp
  refine h.world hsame fun b hb => ?_
  have hne : a ≠ b := by
    rintro rfl
    rw [hsame, ha] at hb
    cases hb
  refine World.ports_other ?_ ?_ ?_ ?_
  all_goals rcases hx with ⟨n, l, rfl⟩ | rfl | rfl | ⟨c, rfl⟩ <;> simp [hne]

theorem Gadget.Inv.server (h : g.Inv d) {x : MixerStep} (hx : ∀ y, x ≠ .thread y) :
    { g with world := g.world.mix x }.Inv d := by
  refine h.world (fun a => World.registered_mix (fun b n e p => hx _) fun b => hx _) fun a _ => ?_
  have hport := g.world.mix_ports x a
  generalize (g.world.mix x).ports a = p at hport
  cases hport with
  | same => rfl
  | read | pushed | taken | written => exact absurd rfl (hx _)

theorem Gadget.Inv.layout (h : g.Inv d) {x : EnvStep} (hx : x.isLayout = true)
    (hregister : ∀ b n e p, x ≠ .register b n e p) (hunregister : ∀ b, x ≠ .unregister b) :
    { g with world := g.world.env x }.Inv d :=
  h.world (fun _ => World.registered_layout hregister hunregister) fun _ _ => World.ports_layout hx

theorem Gadget.Inv.followProtocol (h : g.Inv d) (s : CaptureSetup) :
    (followProtocol d s g).Inv d := by
  unfold Proxy.followProtocol
  split
  · refine List.foldlRecOn (motive := fun w => { g with world := w }.Inv d) _ _ h
      fun w hw p _ => ?_
    split
    · exact hw.layout rfl (by simp) (by simp)
    · exact hw
  · exact h

theorem Gadget.Inv.inRequest (h : g.Inv d) {s : CaptureSetup}
    (hrun : inRequest fuel d o s g = some g') : g'.Inv d := by
  have hasked : (g.ask s []).Inv d := h.of_eq rfl rfl rfl rfl rfl rfl rfl
  unfold Proxy.inRequest at hrun
  dsimp only at hrun
  split at hrun
  · exact Option.some.inj hrun ▸ hasked.stall s
  · split at hrun
    · cases hrun
    · exact Option.some.inj hrun ▸ hasked
    · exact Option.some.inj hrun ▸ hasked.stall s
    · rename_i s' io _
      rw [← Option.some.inj hrun]
      have hheard : { g.ask s [] with world := overhear s' io.data g.world }.Inv d := by
        unfold overhear
        split
        · exact hasked.layout rfl (by simp) (by simp)
        · exact hasked
      exact hheard.of_eq rfl rfl rfl rfl rfl rfl rfl

theorem Gadget.Inv.outRequest (h : g.Inv d) {s : CaptureSetup}
    (hrun : outRequest fuel d o s g = some g') : g'.Inv d := by
  unfold Proxy.outRequest at hrun
  split at hrun
  · cases hrun
  · exact Option.some.inj hrun ▸ h
  · exact Option.some.inj hrun ▸ h.stall s
  · rename_i s' io _
    have hasked (data : List Byte) : (g.ask s' data).Inv d := h.of_eq rfl rfl rfl rfl rfl rfl rfl
    dsimp only at hrun
    split at hrun
    · split at hrun
      · exact Option.some.inj hrun ▸ (hasked []).stall s
      · exact Option.some.inj hrun ▸ ((hasked []).followProtocol s').ack s
    · split at hrun
      · exact Option.some.inj hrun ▸ h
      · split at hrun
        · cases hrun
        · exact Option.some.inj hrun ▸ (h.ack s).of_eq rfl rfl rfl rfl rfl rfl rfl

/-! ### Runs -/

/-- The request is a standard one of the host, of this kind. -/
def Standard (s : CaptureSetup) (request : Byte) : Prop :=
  s.length.toNat ≤ 4096 ∧ s.type.getLsbD 7 = false ∧ s.type.toNat / 32 % 4 = 0 ∧ s.request = request

instance (s : CaptureSetup) (request : Byte) : Decidable (Standard s request) :=
  inferInstanceAs (Decidable (_ ∧ _))

/-- A host that changes configurations only where what is stopped is what is up, and altsettings
only of a configured device. -/
def Orderly (d : Device) (g : Gadget) : Step → Prop
  | .control _ s =>
    (Standard s 9 → ∀ c,
      d.configs.findIdx? (fun c => c.configurationValue == s.value.toNat) = some c →
        g.configured = true → Matched d g c) ∧
    (Standard s 11 → g.configured = true)
  | _ => True

/-- The proxy gets there by steps that are allowed. -/
inductive Reaches (d : Device) (allowed : Gadget → Step → Prop) : Gadget → Prop
  | start : Reaches d allowed (start d)
  | step {g g' : Gadget} {fuel : ℕ} {x : Step} (h : Reaches d allowed g) (hx : allowed g x)
      (hstep : step fuel d g x = some g') : Reaches d allowed g'

theorem run_reaches {steps : List Step} {g : Gadget}
    (h : Reaches d (fun _ _ => True) g) (hrun : run fuel d g steps = some g') :
    Reaches d (fun _ _ => True) g' := by
  induction steps generalizing g with
  | nil => exact Option.some.inj hrun ▸ h
  | cons x rest ih =>
    obtain ⟨g1, h1, h2⟩ := Option.bind_eq_some_iff.mp hrun
    exact ih (.step h trivial h1) h2

theorem Gadget.Inv.fetched (h : g.Inv d) (type : ℕ) (request : Option CaptureSetup) :
    (g.fetched type request).Inv d := h.of_eq rfl rfl rfl rfl rfl rfl rfl

theorem Gadget.Inv.control (hd : d.Wf) (h : g.Inv d) {s : CaptureSetup}
    (horderly : Orderly d g (.control o s)) (hrun : control fuel d o s g = some g') : g'.Inv d := by
  have hfetched := h.fetched 2 (some s)
  unfold Proxy.control at hrun
  dsimp only at hrun
  by_cases hlong : 4096 < s.length.toNat
  · rw [if_pos hlong] at hrun
    exact Option.some.inj hrun ▸ hfetched.stall s
  rw [if_neg hlong] at hrun
  by_cases hin : s.type.getLsbD 7 = true
  · rw [if_pos hin] at hrun
    exact hfetched.inRequest hrun
  rw [if_neg hin] at hrun
  have hout : s.type.getLsbD 7 = false := by simpa using hin
  by_cases h9 : s.type.toNat / 32 % 4 = 0 ∧ s.request = 9#8
  · rw [if_pos h9] at hrun
    obtain ⟨g1, h1, hinv⟩ := hfetched.setConfiguration (o := o) hd
      (horderly.1 ⟨by omega, hout, h9⟩)
    rw [h1] at hrun
    exact Option.some.inj hrun ▸ hinv
  rw [if_neg h9] at hrun
  by_cases h11 : s.type.toNat / 32 % 4 = 0 ∧ s.request = 11#8
  · rw [if_pos h11] at hrun
    obtain ⟨g1, h1, hinv⟩ := hfetched.setInterface (o := o) (s := s) hd
      (horderly.2 ⟨by omega, hout, h11⟩)
    rw [h1] at hrun
    exact Option.some.inj hrun ▸ hinv
  rw [if_neg h11] at hrun
  exact hfetched.outRequest hrun

theorem Gadget.Inv.leave (h : g.Inv d) (t : Thread) :
    { g with live := Function.update g.live t false }.Inv d := by
  refine ⟨⟨h.covers.up, fun t' ht' => ?_, h.covers.registered, h.covers.idle, h.covers.empty⟩,
    h.valid⟩
  dsimp only at ht'
  by_cases hsame : t' = t
  · rw [hsame, Function.update_self] at ht'
    cases ht'
  · rw [Function.update_of_ne hsame] at ht'
    exact h.covers.live t' ht'

/-- **An orderly step keeps the invariant.** -/
theorem Gadget.Inv.step (hd : d.Wf) (h : g.Inv d) {x : Step} (horderly : Orderly d g x)
    (hrun : Proxy.step fuel d g x = some g') : g'.Inv d := by
  cases step_cases hrun with
  | control hcontrol => exact h.control hd horderly hcontrol
  | @reset o type _ hreset =>
    obtain ⟨g1, h1, hinv⟩ := (h.fetched type none).reset (o := o) hd
    rw [h1] at hreset
    exact Option.some.inj hreset ▸ hinv
  | fetched o type => exact h.fetched type none
  | same => exact h
  | read io hserved hmanages =>
    exact (h.thread (.inl ⟨io.ep, io.data, rfl⟩) (h.registered hserved hmanages)).of_eq
      rfl rfl rfl rfl rfl rfl rfl
  | thread hserved hmanages hy => exact h.thread hy (h.registered hserved hmanages)
  | pipe hserved => exact h.setPipe hserved _
  | left t => exact h.leave t
  | server hx => exact h.server hx
  | elapsed ns =>
    refine h.world (fun a => World.registered_layout (by simp) (by simp)) fun a _ => ?_
    exact World.ports_other (by simp) (by simp) (by simp) (by simp)

theorem Reaches.inv (hd : d.Wf) {allowed : Gadget → Step → Prop}
    (hallowed : ∀ g x, allowed g x → Orderly d g x) (h : Reaches d allowed g) : g.Inv d := by
  induction h with
  | start => exact .start hd
  | step _ hx hstep ih => exact ih.step hd (hallowed _ _ hx) hstep

/-- **The endpoints follow the host.**  However the host, the threads and the server take turns, the
altsettings that are up are the current ones of the current configuration, only their endpoints'
threads run, the mixer has exactly the mouse endpoints among these, and no transfer is left of an
endpoint that is not up, neither in the mixer's queues nor in those of the other endpoints. -/
theorem endpoints_follow (hd : d.Wf) (h : Reaches d (Orderly d) g) :
    (∀ p, g.up p = true ↔ g.configured = true ∧ p.config = g.currentConfig ∧
      p.interface < (d.interfaces g.currentConfig).length ∧
      p.altsetting = g.currentAltsetting g.currentConfig p.interface) ∧
    (∀ t, g.live t = true → g.up t.place = true ∧ ∃ alt, d.altsetting t.place = some alt ∧
      t.endpoint < alt.endpoints.length) ∧
    (∀ a, ((g.world.endpoints a).isSome = true ↔ ∃ p alt, g.up p = true ∧
        d.altsetting p = some alt ∧ ∃ e ∈ alt.endpoints,
          alt.manages e = true ∧ e.address.toNat = a) ∧
      (g.world.endpoints a = none → g.world.ports a = {})) ∧
    ∀ p i, g.up p = false → g.pipes p i = {} := by
  have hinv := h.inv hd fun _ _ hx => hx
  refine ⟨fun p => ?_, fun t ht => ?_, fun a => ⟨?_, fun ha => ?_⟩, fun p i hp => ?_⟩
  · rw [hinv.covers.up, ← mem_places]
    exact Iff.rfl
  · rw [hinv.covers.up]
    exact hinv.covers.live t ht
  · rw [← World.registered, hinv.covers.registered]
    constructor
    · rintro ⟨p, hp, alt, halt, he⟩
      exact ⟨p, alt, (hinv.covers.up p).mpr hp, halt, he⟩
    · rintro ⟨p, alt, hp, halt, he⟩
      exact ⟨p, (hinv.covers.up p).mp hp, alt, halt, he⟩
  · refine hinv.covers.idle a ?_
    rw [World.registered, ha]
    rfl
  · have hdown : ¬g.Current d p := by
      rw [← hinv.covers.up, hp]
      exact Bool.false_ne_true
    rw [hinv.covers.empty p hdown]

/-! ### A mouse -/

/-- The altsetting of a boot mouse. -/
def sampleAltsetting : Altsetting where
  interfaceNumber := 0
  alternateSetting := 0
  interfaceClass := 3
  interfaceSubClass := 1
  interfaceProtocol := 2
  extra := [9, 0x21, 0x11, 1, 0, 1, 0x22, 50, 0]
  endpoints := [{ address := 0x81, attributes := 3, interval := 1 }]

def sampleMouse : Device where
  configs := [{ configurationValue := 1, interfaces := [[sampleAltsetting]] }]

/-- SET_CONFIGURATION -/
def sampleSet : CaptureSetup := ⟨0, 9, 1, 0, 0⟩

theorem sampleMouse_interfaces (c : ℕ) :
    sampleMouse.interfaces c = if c = 0 then [[sampleAltsetting]] else [] := by
  cases c <;> rfl

theorem sampleMouse_altsetting {p : Place} {alt : Altsetting}
    (h : sampleMouse.altsetting p = some alt) : p.interface = 0 ∧ alt = sampleAltsetting := by
  obtain ⟨c, i, k⟩ := p
  unfold Device.altsetting at h
  rw [sampleMouse_interfaces] at h
  dsimp only at h
  by_cases hc : c = 0
  · rw [if_pos hc] at h
    cases i with
    | zero =>
      cases k with
      | zero => exact ⟨rfl, (Option.some.inj h).symm⟩
      | succ k => cases h
    | succ i => cases h
  · rw [if_neg hc] at h
    cases h

theorem sampleMouse_wf : sampleMouse.Wf where
  interfaces := by
    intro c alts halts
    rw [sampleMouse_interfaces] at halts
    by_cases hc : c = 0
    · rw [if_pos hc, List.mem_singleton] at halts
      rw [halts]
      exact List.cons_ne_nil _ _
    · rw [if_neg hc] at halts
      cases halts
  sound := by
    intro p alt h
    rw [(sampleMouse_altsetting h).2]
    decide
  apart := by
    intro p q alt alt' h h' _ hne
    exact absurd ((sampleMouse_altsetting h).1.trans (sampleMouse_altsetting h').1.symm) hne

/-- A host may configure a device that is not. -/
theorem orderly_start (d : Device) (o : Outside) : Orderly d (start d) (.control o sampleSet) :=
  ⟨fun _ _ _ h => Bool.noConfusion h, fun h => absurd h (by decide)⟩

theorem sample_configured : (step 0 sampleMouse (start sampleMouse) (.control {} sampleSet)).any
    (fun g => g.configured && g.currentConfig == 0 && g.currentAltsetting 0 0 == 0) = true := by
  decide +kernel

theorem endpoints_follow_sample : ∃ g : Gadget, Reaches sampleMouse (Orderly sampleMouse) g ∧
    (g.world.endpoints 0x81).isSome = true := by
  obtain ⟨g, hstep, hg⟩ := (Option.any_eq_true _ _).mp sample_configured
  simp only [Bool.and_eq_true, beq_iff_eq] at hg
  obtain ⟨⟨hconfigured, hconfig⟩, hcurrent⟩ := hg
  have hreaches : Reaches sampleMouse (Orderly sampleMouse) g :=
    .step .start (orderly_start _ _) hstep
  obtain ⟨hup, -, hmixer, -⟩ := endpoints_follow sampleMouse_wf hreaches
  refine ⟨g, hreaches, (hmixer 0x81).1.mpr ⟨⟨0, 0, 0⟩, sampleAltsetting, (hup _).mpr ?_, rfl, ?_⟩⟩
  · rw [hconfig]
    exact ⟨hconfigured, rfl, by decide, hcurrent.symm⟩
  · exact ⟨_, List.mem_singleton_self _, rfl, rfl⟩

end UsbProxy.Proxy
