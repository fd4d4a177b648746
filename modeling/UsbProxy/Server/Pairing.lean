import UsbProxy.Server.AtMostOnce
import UsbProxy.Server.ReleaseAll

/-!
# Records and work are paired

The open records are those of the work the server still has to do, one for each piece.  A record
that is terminal keeps its answer until it is evicted.  Both need that no command is admitted twice:
`sync_move` writes the last transaction to the record of its key, whatever that is of by then.
-/

namespace UsbProxy

/-! ### What a run admitted -/

/-- The keys of the commands a run admitted, newest first. -/
def admittedKeys (history : List Mark) : List Key :=
  history.filterMap fun
    | .admitted key _ => some key
    | _ => none

section Admitted

variable {l h : List Mark} {key : Key} {movement : Bool}

theorem admittedKeys_append (l h : List Mark) :
    admittedKeys (l ++ h) = admittedKeys l ++ admittedKeys h := List.filterMap_append

theorem mem_admittedKeys (hm : .admitted key movement ∈ h) : key ∈ admittedKeys h :=
  List.mem_filterMap.mpr ⟨_, hm, rfl⟩

theorem admittedKeys_older (hnodup : (admittedKeys (l ++ h)).Nodup) : (admittedKeys h).Nodup := by
  rw [admittedKeys_append] at hnodup
  exact hnodup.of_append_right

theorem admittedKeys_new (hnodup : (admittedKeys (l ++ h)).Nodup)
    (hm : .admitted key movement ∈ l) :
    key ∉ admittedKeys h := by
  rw [admittedKeys_append] at hnodup
  intro hold
  exact (List.nodup_append.mp hnodup).2.2 key (mem_admittedKeys hm) key hold rfl

end Admitted

/-! ### Claims on records -/

/-- The keys of the work the server still has to do, one for each piece. -/
def Server.openKeys (s : Server) (fenced : Option Key) : List Key :=
  (s.work.filter (·.binary)).map (·.key) ++
    ((if s.releaseKey.session = 0 then [] else [s.releaseKey]) ++
      ((if s.mover.active then [s.mover.key] else []) ++ fenced.toList))

/-- The same with the key of the last transaction, even when it is over. -/
def Server.heldKeys (s : Server) (fenced : Option Key) : List Key :=
  (s.work.filter (·.binary)).map (·.key) ++
    ((if s.releaseKey.session = 0 then [] else [s.releaseKey]) ++
      ((if s.mover.ack.session = 0 then [] else [s.mover.key]) ++ fenced.toList))

/-- The cache, the work and the commands admitted so far. -/
structure Server.Paired (s : Server) (fenced : Option Key) (admitted : List Key) : Prop where
  held : (s.heldKeys fenced).Nodup
  admitted : ∀ key ∈ s.heldKeys fenced, key ∈ admitted
  recorded : ∀ key ∈ s.openKeys fenced, ∃ c ∈ s.cache, c.key = key ∧ c.terminal = false
  owed : s.releaseKey.session ≠ 0 → s.releasePending = true
  /-- A click without a record has no key. -/
  plain : ∀ click ∈ s.work, click.binary = false → click.key.session = 0
  /-- The record of the last transaction says what the executor says. -/
  synced : s.mover.ack.session ≠ 0 → ∀ c ∈ s.cache, c.key = s.mover.key →
    c.movement = true ∧ c.moveAck = s.mover.ack

/-! ### Records after edits -/

section Cache

variable {cache : List CachedCommand} {c : CachedCommand} {l : List Edit}

/-- What holds of a record and is kept by the edits of its key, holds of it after the edits. -/
theorem edits_record {P : CachedCommand → Prop} (hkeys : (cacheKeys cache).Nodup) (hc : c ∈ cache)
    (hP : P c)
    (hedit : ∀ e ∈ l, e.key = c.key → ∀ a, a.key = c.key → P a → P (e.apply a)) :
    ∃ c' ∈ edits l cache, c'.key = c.key ∧ P c' := by
  have hall : ∀ a ∈ edits l cache, a.key = c.key → P a := by
    refine edits_forall hkeys (fun a ha hkey => ?_) fun e he a hae hPa hkey => ?_
    · rwa [List.inj_on_of_nodup_map hkeys ha hc hkey]
    · rw [Edit.apply_key] at hkey
      exact hedit e he (hae.symm.trans hkey) a hkey (hPa hkey)
  have hmem : c.key ∈ cacheKeys (edits l cache) := by
    rw [edits_keys]
    exact List.mem_map_of_mem hc
  obtain ⟨c', hc', hkey⟩ := List.mem_map.mp hmem
  exact ⟨c', hc', hkey, hall c' hc' hkey⟩

/-- An open record stays open when no edit closes it. -/
theorem edits_open (hkeys : (cacheKeys cache).Nodup) (hc : c ∈ cache) (hopen : c.terminal = false)
    (hl : ∀ e ∈ l, e.key = c.key → ¬ e.Closes) :
    ∃ c' ∈ edits l cache, c'.key = c.key ∧ c'.terminal = false := by
  refine edits_record hkeys hc hopen fun e he hkey a _ ha => ?_
  have hstays := hl e he hkey
  cases e with
  | finish => exact absurd trivial hstays
  | sync _ ack =>
    show ack.status.terminal = false
    simpa [Edit.Closes] using hstays
  | count | readdress => exact ha

/-- The record of the last transaction, when every edit that syncs writes its acknowledgement. -/
theorem edits_synced {m : MoveExecutor} (hkeys : (cacheKeys cache).Nodup)
    (hl : ∀ key ack, .sync key ack ∈ l → ack = m.ack)
    (hcache : ∀ c ∈ cache, c.key = m.key →
      c.movement = true ∧ (c.moveAck = m.ack ∨ .sync m.key m.ack ∈ l)) :
    ∀ c ∈ edits l cache, c.key = m.key → c.movement = true ∧ c.moveAck = m.ack := by
  induction l generalizing cache with
  | nil =>
    intro c hc hkey
    obtain ⟨hmovement, hack⟩ := hcache c hc hkey
    exact ⟨hmovement, hack.resolve_right (by simp)⟩
  | cons e l ih =>
    refine @ih (updateCache e.key e.apply cache) ?_
      (fun key ack hmem => hl key ack (List.mem_cons_of_mem _ hmem)) fun c hc hkey => ?_
    · rwa [updateCache_keys e.apply_key]
    · rcases mem_updateCache hkeys hc with ⟨hmem, hne⟩ | ⟨c', hmem, hkey', rfl⟩
      · obtain ⟨hmovement, hack⟩ := hcache c hmem hkey
        refine ⟨hmovement, hack.imp_right fun hsync => ?_⟩
        rcases List.mem_cons.mp hsync with rfl | hsync
        · exact absurd hkey hne
        · exact hsync
      · rw [Edit.apply_key] at hkey
        obtain ⟨hmovement, hack⟩ := hcache c' hmem hkey
        cases e with
        | sync _ ack => exact ⟨hmovement, .inl (hl _ ack List.mem_cons_self)⟩
        | finish | count | readdress =>
          refine ⟨hmovement, hack.imp_right fun hsync => ?_⟩
          exact (List.mem_cons.mp hsync).resolve_left (by simp)

end Cache

namespace Server

variable {s s' : Server} {fenced fenced' : Option Key} {admitted admitted' : List Key}
  {l : List Edit} {key : Key}

/-! ### Who claims a key -/

theorem mem_openKeys : key ∈ s.openKeys fenced ↔
    (∃ click ∈ s.work, click.binary = true ∧ click.key = key) ∨
      (s.releaseKey.session ≠ 0 ∧ s.releaseKey = key) ∨
        (s.mover.active = true ∧ s.mover.key = key) ∨ fenced = some key := by
  unfold openKeys
  simp only [List.mem_append, List.mem_map, List.mem_filter, List.mem_ite_nil_left,
    List.mem_ite_nil_right, List.mem_singleton, Option.mem_toList, and_assoc, ne_eq, eq_comm]

theorem mem_heldKeys : key ∈ s.heldKeys fenced ↔
    (∃ click ∈ s.work, click.binary = true ∧ click.key = key) ∨
      (s.releaseKey.session ≠ 0 ∧ s.releaseKey = key) ∨
        (s.mover.ack.session ≠ 0 ∧ s.mover.key = key) ∨ fenced = some key := by
  unfold heldKeys
  simp only [List.mem_append, List.mem_map, List.mem_filter, List.mem_ite_nil_left,
    List.mem_singleton, Option.mem_toList, and_assoc, ne_eq, eq_comm]

theorem Paired.mover_apart (h : s.Paired fenced admitted) (hsession : s.mover.ack.session ≠ 0) :
    (∀ click ∈ s.work, click.binary = true → click.key ≠ s.mover.key) ∧
      (s.releaseKey.session ≠ 0 → s.releaseKey ≠ s.mover.key) ∧ fenced ≠ some s.mover.key := by
  have hheld := h.held
  unfold heldKeys at hheld
  rw [if_neg hsession] at hheld
  obtain ⟨-, hrest, hwork⟩ := List.nodup_append.mp hheld
  obtain ⟨-, hlast, hrelease⟩ := List.nodup_append.mp hrest
  obtain ⟨-, -, hfenced⟩ := List.nodup_append.mp hlast
  refine ⟨fun click hclick hbinary => ?_, fun hne => ?_, fun hsome => ?_⟩
  · exact hwork _ (List.mem_map_of_mem (List.mem_filter.mpr ⟨hclick, hbinary⟩)) _ (by simp)
  · exact hrelease _ (by simp [hne]) _ (by simp)
  · exact hfenced _ List.mem_cons_self _ (by simp [hsome]) rfl

theorem Paired.release_apart (h : s.Paired fenced admitted) (hsession : s.releaseKey.session ≠ 0) :
    (∀ click ∈ s.work, click.binary = true → click.key ≠ s.releaseKey) ∧
      fenced ≠ some s.releaseKey := by
  have hheld := h.held
  unfold heldKeys at hheld
  rw [if_neg hsession] at hheld
  obtain ⟨-, hrest, hwork⟩ := List.nodup_append.mp hheld
  obtain ⟨-, -, hrelease⟩ := List.nodup_append.mp hrest
  refine ⟨fun click hclick hbinary => ?_, fun hsome => ?_⟩
  · exact hwork _ (List.mem_map_of_mem (List.mem_filter.mpr ⟨hclick, hbinary⟩)) _ (by simp)
  · exact hrelease _ List.mem_cons_self _ (by simp [hsome]) rfl

theorem Paired.front_apart (h : s.Paired fenced admitted) {click : ClickWork}
    {rest : List ClickWork} (hw : s.work = click :: rest) (hbinary : click.binary = true) :
    (∀ c ∈ rest, c.binary = true → c.key ≠ click.key) ∧ fenced ≠ some click.key := by
  have hheld := h.held
  unfold heldKeys at hheld
  rw [hw, List.filter_cons_of_pos hbinary, List.map_cons, List.cons_append] at hheld
  have hother := (List.nodup_cons.mp hheld).1
  refine ⟨fun c hc hcbinary heq => hother ?_, fun hsome => hother ?_⟩
  · rw [← heq]
    exact List.mem_append_left _ (List.mem_map_of_mem (List.mem_filter.mpr ⟨hc, hcbinary⟩))
  · simp [hsome]

theorem Paired.fenced_apart (h : s.Paired (some key) admitted) :
    ∀ click ∈ s.work, click.binary = true → click.key ≠ key := by
  intro click hclick hbinary
  have hheld := h.held
  unfold heldKeys at hheld
  obtain ⟨-, -, hwork⟩ := List.nodup_append.mp hheld
  exact hwork _ (List.mem_map_of_mem (List.mem_filter.mpr ⟨hclick, hbinary⟩)) _ (by simp)

/-! ### What keeps the pairing -/

/-- Edits keep the pairing when no claim is new and none of the claimed records is closed. -/
theorem Paired.edits (h : s.Paired fenced admitted) (ha : s.Accounted fenced)
    (hcache : s'.cache = UsbProxy.edits l s.cache) (hheld : (s'.heldKeys fenced').Nodup)
    (hsub : ∀ key ∈ s'.heldKeys fenced', key ∈ s.heldKeys fenced)
    (hopen : ∀ key ∈ s'.openKeys fenced',
      key ∈ s.openKeys fenced ∧ ∀ e ∈ l, e.key = key → ¬ e.Closes)
    (howed : s'.releaseKey.session ≠ 0 → s'.releasePending = true)
    (hplain : ∀ click ∈ s'.work, click.binary = false → click.key.session = 0)
    (hkey : s'.mover.key = s.mover.key) (hl : ∀ key ack, .sync key ack ∈ l → ack = s'.mover.ack)
    (hack : s'.mover.ack = s.mover.ack ∨ s'.mover.ack.session = 0 ∨
      .sync s'.mover.key s'.mover.ack ∈ l) : s'.Paired fenced' admitted where
  held := hheld
  admitted key hmem := h.admitted key (hsub key hmem)
  recorded key hmem := by
    obtain ⟨hbefore, hcloses⟩ := hopen key hmem
    obtain ⟨c, hc, rfl, hlive⟩ := h.recorded key hbefore
    rw [hcache]
    exact edits_open ha.keys hc hlive hcloses
  owed := howed
  plain := hplain
  synced hsession := by
    have hsame : s'.mover.ack.session = s.mover.ack.session := congrArg Key.session hkey
    rw [hcache]
    refine edits_synced ha.keys hl fun c hc hckey => ?_
    obtain ⟨hmovement, hbefore⟩ := h.synced (hsame ▸ hsession) c hc (hckey.trans hkey)
    refine ⟨hmovement, ?_⟩
    rcases hack with heq | hzero | hsync
    · exact .inl (hbefore.trans heq.symm)
    · exact absurd hzero hsession
    · exact .inr hsync

theorem heldKeys_congr (hwork : s'.work = s.work) (hmover : s'.mover.key = s.mover.key)
    (hkey : s'.releaseKey = s.releaseKey) : s'.heldKeys fenced = s.heldKeys fenced := by
  have hsession : s'.mover.ack.session = s.mover.ack.session := congrArg Key.session hmover
  unfold heldKeys
  rw [hwork, hmover, hkey, hsession]

/-- Steps that leave the cache and the work alone keep the pairing. -/
theorem Paired.congr (h : s.Paired fenced admitted) (hcache : s'.cache = s.cache)
    (hwork : s'.work = s.work) (hmover : s'.mover = s.mover)
    (hpending : s'.releasePending = s.releasePending) (hkey : s'.releaseKey = s.releaseKey) :
    s'.Paired fenced admitted := by
  have hopen : s'.openKeys fenced = s.openKeys fenced := by
    unfold openKeys
    rw [hwork, hmover, hkey]
  have hheld : s'.heldKeys fenced = s.heldKeys fenced :=
    heldKeys_congr hwork (congrArg _ hmover) hkey
  refine ⟨hheld ▸ h.held, hheld ▸ h.admitted, ?_, ?_, hwork ▸ h.plain, ?_⟩
  · rw [hopen, hcache]
    exact h.recorded
  · rw [hkey, hpending]
    exact h.owed
  · rw [hmover, hcache]
    exact h.synced

theorem Paired.mono (h : s.Paired fenced admitted) (hsub : admitted ⊆ admitted') :
    s.Paired fenced admitted' :=
  { h with admitted := fun key hmem => hsub (h.admitted key hmem) }

/-- The executor goes on, and `sync_move` follows it. -/
theorem Paired.sync (h : s.Paired fenced admitted) (ha : s.Accounted fenced) {m : MoveExecutor}
    (hm : s.mover.Follows m) : ({ s with mover := m }.syncMove).Paired fenced admitted := by
  have hcache := syncMove_edits { s with mover := m }
  obtain ⟨cache, sent, heq⟩ := syncMove_eq { s with mover := m }
  rw [heq] at hcache ⊢
  dsimp only at hcache
  have hheld : { s with mover := m, cache, sent }.heldKeys fenced = s.heldKeys fenced :=
    heldKeys_congr rfl hm.key rfl
  refine h.edits ha hcache (hheld ▸ h.held) (fun key hmem => hheld ▸ hmem) (fun key hmem => ?_)
    h.owed h.plain hm.key (fun key ack hmem => ?_) ?_
  · rw [mem_openKeys] at hmem ⊢
    dsimp only at hmem
    refine ⟨hmem.imp_right (.imp_right (.imp_left fun hmover => ?_)), fun e he hkey hcloses => ?_⟩
    · exact ⟨hm.active hmover.1, hm.key.symm.trans hmover.2⟩
    · unfold syncEdits at he
      split at he
      · cases he
      · rename_i hsession
        cases List.mem_singleton.mp he
        have hinactive : m.active = false := m.inactive_iff.mpr hcloses
        obtain ⟨hwork, hrelease, hfenced⟩ := h.mover_apart (hm.session ▸ hsession)
        rw [← hm.key] at hwork hrelease hfenced
        rcases hmem with ⟨click, hclick, hbinary, rfl⟩ | ⟨hne, rfl⟩ | ⟨hactive, -⟩ | hsome
        · exact hwork click hclick hbinary hkey.symm
        · exact hrelease hne hkey.symm
        · rw [hinactive] at hactive
          cases hactive
        · exact hfenced (hsome.trans (congrArg some hkey.symm))
  · unfold syncEdits at hmem
    split at hmem
    · cases hmem
    · cases List.mem_singleton.mp hmem
      rfl
  · unfold syncEdits
    split
    · rename_i hzero
      exact .inr (.inl hzero)
    · exact .inr (.inr (List.mem_singleton_self _))

theorem Paired.resync (h : s.Paired fenced admitted) (ha : s.Accounted fenced) :
    s.syncMove.Paired fenced admitted := h.sync ha (.refl _)

theorem syncEdits_mem {m : MoveExecutor} {e : Edit} (he : e ∈ syncEdits m) :
    m.ack.session ≠ 0 ∧ e = .sync m.key m.ack := by
  unfold syncEdits at he
  split at he
  · cases he
  · rename_i hsession
    exact ⟨hsession, List.mem_singleton.mp he⟩

theorem finishEdits_mem {status : ClickProtocol.Status} {work : List ClickWork} {e : Edit}
    (he : e ∈ finishEdits status work) :
    ∃ click ∈ work, click.binary = true ∧ e = .finish click.key status := by
  obtain ⟨click, hclick, rfl⟩ := List.mem_map.mp he
  obtain ⟨hclick, hbinary⟩ := List.mem_filter.mp hclick
  exact ⟨click, hclick, hbinary, rfl⟩

/-- What `begin_reset` leaves: the ReleaseAll owed. -/
theorem Paired.reset (h : s.Paired fenced admitted) (ha : s.Accounted fenced)
    {attachRelease : Bool}
    (hfenced : attachRelease = false ∧ fenced = none ∨ attachRelease = true ∧ fenced = some key)
    (now1 now2 generation : ℕ) :
    (s.reset attachRelease key now1 now2 generation).Paired none admitted := by
  have hcache := s.reset_edits attachRelease key now1 now2 generation
  obtain ⟨cache, sent, heq⟩ := s.reset_eq attachRelease key now1 now2 generation
  rw [heq] at hcache ⊢
  dsimp only at hcache
  have hfollows := s.mover.follows_stop .cancelled now1
  have hinactive : (s.mover.stop .cancelled now1).active = false := MoveExecutor.stop_active _ _ rfl
  unfold resetEdits at hcache
  generalize s.mover.stop .cancelled now1 = m at hcache hfollows hinactive ⊢
  have hsession : m.ack.session ≠ 0 → s.mover.ack.session ≠ 0 := fun hne => hfollows.session ▸ hne
  have hsync : ∀ k ack, .sync k ack ∈ syncEdits m ++ s.replaceEdits attachRelease key ++
      syncEdits m ++ finishEdits .cancelled s.work → ack = m.ack := by
    intro k ack hmem
    simp only [List.mem_append] at hmem
    rcases hmem with ((hmem | hmem) | hmem) | hmem
    · cases (syncEdits_mem hmem).2
      rfl
    · unfold replaceEdits at hmem
      split at hmem
      · cases List.mem_singleton.mp hmem
      · cases hmem
    · cases (syncEdits_mem hmem).2
      rfl
    · obtain ⟨_, -, -, hedit⟩ := finishEdits_mem hmem
      cases hedit
  refine h.edits ha hcache ?_ (fun k hmem => ?_) (fun k hmem => ?_) (fun _ => rfl) (by simp)
    hfollows.key hsync ?_
  · unfold heldKeys
    have hheld := h.held
    unfold heldKeys at hheld
    rw [← hfollows.session, ← hfollows.key] at hheld
    rcases hfenced with ⟨rfl, rfl⟩ | ⟨rfl, rfl⟩
    · exact hheld.of_append_right
    · have hrest := hheld.of_append_right.of_append_right
      rw [List.nodup_append_comm] at hrest
      refine hrest.sublist ?_
      simp only [List.filter_nil, List.map_nil, List.nil_append, Option.toList_none,
        List.append_nil, Option.toList_some, if_true]
      refine List.Sublist.append_right ?_ _
      split
      · exact List.nil_sublist _
      · exact .refl _
  · rw [mem_heldKeys] at hmem ⊢
    dsimp only at hmem
    rcases hmem with ⟨_, hclick, -⟩ | hrelease | hmover | hsome
    · cases hclick
    · rcases hfenced with ⟨rfl, rfl⟩ | ⟨rfl, rfl⟩
      · exact .inr (.inl hrelease)
      · exact .inr (.inr (.inr (congrArg some hrelease.2)))
    · exact .inr (.inr (.inl ⟨hsession hmover.1, hfollows.key.symm.trans hmover.2⟩))
    · cases hsome
  · rw [mem_openKeys] at hmem
    dsimp only at hmem
    rcases hmem with ⟨_, hclick, -⟩ | hrelease | ⟨hactive, -⟩ | hsome
    · cases hclick
    · -- the key is of neither the transaction nor a click, and not replaced
      obtain ⟨hclaim, hmover, hwork, hreplace⟩ : k ∈ s.openKeys fenced ∧
          (s.mover.ack.session ≠ 0 → s.mover.key ≠ k) ∧
          (∀ click ∈ s.work, click.binary = true → click.key ≠ k) ∧
          ∀ e ∈ s.replaceEdits attachRelease key, e.key ≠ k := by
        rcases hfenced with ⟨rfl, rfl⟩ | ⟨rfl, rfl⟩
        · obtain ⟨hne, rfl⟩ := hrelease
          refine ⟨mem_openKeys.mpr (.inr (.inl ⟨hne, rfl⟩)), fun hs => ?_, (h.release_apart hne).1,
            by simp [replaceEdits]⟩
          exact ((h.mover_apart hs).2.1 hne).symm
        · obtain ⟨hne, rfl⟩ := hrelease
          refine ⟨mem_openKeys.mpr (.inr (.inr (.inr rfl))), fun hs heq => ?_, ?_, fun e he => ?_⟩
          · exact (h.mover_apart hs).2.2 (congrArg some heq.symm)
          · exact h.fenced_apart
          · unfold replaceEdits at he
            split at he
            · rename_i hreplaced
              cases List.mem_singleton.mp he
              exact hreplaced.2.2
            · cases he
      refine ⟨hclaim, fun e he hkey _ => ?_⟩
      simp only [List.mem_append] at he
      rcases he with ((he | he) | he) | he
      · obtain ⟨hs, rfl⟩ := syncEdits_mem he
        exact hmover (hsession hs) (hfollows.key.symm.trans hkey)
      · exact hreplace e he hkey
      · obtain ⟨hs, rfl⟩ := syncEdits_mem he
        exact hmover (hsession hs) (hfollows.key.symm.trans hkey)
      · obtain ⟨click, hclick, hbinary, rfl⟩ := finishEdits_mem he
        exact hwork click hclick hbinary hkey
    · rw [hinactive] at hactive
      cases hactive
    · cases hsome
  · by_cases hzero : m.ack.session = 0
    · exact .inr (.inl hzero)
    · refine .inr (.inr ?_)
      refine List.mem_append_left _ (List.mem_append_right _ ?_)
      rw [syncEdits, if_neg hzero]
      exact List.mem_singleton_self _

/-- `begin_reset(false,{})` -/
theorem Paired.drop (h : s.Paired none admitted) (ha : s.Accounted none)
    (now1 now2 generation : ℕ) : (s.reset false {} now1 now2 generation).Paired none admitted :=
  h.reset ha (.inl ⟨rfl, rfl⟩) now1 now2 generation

theorem Paired.disown (h : s.Paired fenced admitted) :
    { s with owned := false }.Paired fenced admitted := h.congr rfl rfl rfl rfl rfl

theorem Paired.dropped (h : s.Paired none admitted) (ha : s.Accounted none)
    (now1 now2 generation : ℕ) : (s.dropped now1 now2 generation).Paired none admitted :=
  (h.drop ha now1 now2 generation).disown

/-- The front click is done. -/
theorem Paired.finishFront (h : s.Paired fenced admitted) (ha : s.Accounted fenced)
    (status : ClickProtocol.Status) : (s.finishFront status).Paired fenced admitted := by
  have hcache := s.finishFront_edits status
  obtain ⟨cache, sent, scheduled, heq⟩ := s.finishFront_eq status
  rw [heq] at hcache ⊢
  dsimp only at hcache
  have htail : ∀ click ∈ s.work.tail, click ∈ s.work := fun _ => List.mem_of_mem_tail
  have hsync : ∀ k ack, .sync k ack ∉ finishEdits status (s.work.take 1) := by
    intro k ack hmem
    obtain ⟨_, -, -, hedit⟩ := finishEdits_mem hmem
    cases hedit
  refine h.edits ha hcache ?_ (fun k hmem => ?_) (fun k hmem => ?_) h.owed
    (fun click hclick => h.plain click (htail click hclick)) rfl
    (fun k ack hmem => absurd hmem (hsync k ack)) (.inl rfl)
  · have hheld := h.held
    unfold heldKeys at hheld ⊢
    dsimp only
    refine hheld.sublist (List.Sublist.append_right ?_ _)
    exact ((List.tail_sublist _).filter _).map _
  · rw [mem_heldKeys] at hmem ⊢
    exact hmem.imp_left fun ⟨click, hclick, hrest⟩ => ⟨click, htail click hclick, hrest⟩
  · rw [mem_openKeys] at hmem ⊢
    dsimp only at hmem
    refine ⟨hmem.imp_left fun ⟨click, hclick, hrest⟩ => ⟨click, htail click hclick, hrest⟩,
      fun e he hkey _ => ?_⟩
    obtain ⟨front, hfront, hbinary, rfl⟩ := finishEdits_mem he
    cases hw : s.work with
    | nil =>
      rw [hw] at hfront
      cases hfront
    | cons click rest =>
      rw [hw] at hfront hmem
      cases List.mem_singleton.mp hfront
      obtain ⟨hrest, hfenced⟩ := h.front_apart hw hbinary
      have hclick : front ∈ s.work := by
        rw [hw]
        exact List.mem_cons_self
      rcases hmem with ⟨c, hc, hcbinary, hckey⟩ | ⟨hne, hrelease⟩ | ⟨hactive, hmover⟩ | hsome
      · exact hrest c hc hcbinary (hckey.trans hkey.symm)
      · exact (h.release_apart hne).1 front hclick hbinary (hkey.trans hrelease.symm)
      · exact (h.mover_apart (ha.mover hactive)).1 front hclick hbinary (hkey.trans hmover.symm)
      · exact hfenced (hsome.trans (congrArg some hkey.symm))

/-- The same work, whose records are neither closed nor synced. -/
theorem Paired.same (h : s.Paired fenced admitted) (ha : s.Accounted fenced)
    (hkeys : (s'.work.filter (·.binary)).map (·.key) = (s.work.filter (·.binary)).map (·.key))
    (hplain : ∀ click ∈ s'.work, click.binary = false → click.key.session = 0)
    (hcache : s'.cache = UsbProxy.edits l s.cache)
    (hl : ∀ e ∈ l, ¬ e.Closes ∧ ∀ k ack, e ≠ .sync k ack) (hmover : s'.mover = s.mover)
    (hpending : s'.releasePending = s.releasePending) (hrelease : s'.releaseKey = s.releaseKey) :
    s'.Paired fenced admitted := by
  have hheld : s'.heldKeys fenced = s.heldKeys fenced := by
    unfold heldKeys
    rw [hkeys, hmover, hrelease]
  have hopen : s'.openKeys fenced = s.openKeys fenced := by
    unfold openKeys
    rw [hkeys, hmover, hrelease]
  refine h.edits ha hcache (hheld ▸ h.held) (fun k hmem => hheld ▸ hmem) (fun k hmem => ?_) ?_
    hplain (by rw [hmover]) (fun k ack hmem => absurd rfl ((hl _ hmem).2 k ack))
    (.inl (by rw [hmover]))
  · rw [hopen] at hmem
    exact ⟨hmem, fun e he _ => (hl e he).1⟩
  · rw [hrelease, hpending]
    exact h.owed

/-- The front click goes on under its key. -/
theorem Paired.front (h : s.Paired fenced admitted) (ha : s.Accounted fenced)
    {click click' : ClickWork} {rest : List ClickWork} (hw : s.work = click :: rest)
    (hwork : s'.work = click' :: rest) (hkey : click'.key = click.key)
    (hbinary : click'.binary = click.binary) (hcache : s'.cache = UsbProxy.edits l s.cache)
    (hl : ∀ e ∈ l, ¬ e.Closes ∧ ∀ k ack, e ≠ .sync k ack) (hmover : s'.mover = s.mover)
    (hpending : s'.releasePending = s.releasePending) (hrelease : s'.releaseKey = s.releaseKey) :
    s'.Paired fenced admitted := by
  refine h.same ha ?_ (fun c hc hplain => ?_) hcache hl hmover hpending hrelease
  · rw [hw, hwork, List.filter_cons, List.filter_cons, hbinary]
    split
    · rw [List.map_cons, List.map_cons, hkey]
    · rfl
  · have hbefore := h.plain
    rw [hw] at hbefore
    rw [hwork] at hc
    rcases List.mem_cons.mp hc with rfl | hc
    · rw [hkey]
      exact hbefore click List.mem_cons_self (hbinary.symm.trans hplain)
    · exact hbefore c (List.mem_cons_of_mem _ hc) hplain

/-- The release obligation is met. -/
theorem Paired.complete (h : s.Paired fenced admitted) (ha : s.Accounted fenced) :
    s.completeRelease.Paired fenced admitted := by
  have hcache := s.completeRelease_edits
  obtain ⟨cache, sent, heq⟩ := s.completeRelease_eq
  rw [heq] at hcache ⊢
  dsimp only at hcache
  have hedit {e : Edit} (he : e ∈ s.completeEdits) :
      s.releaseKey.session ≠ 0 ∧ e = .finish s.releaseKey .completed := by
    unfold completeEdits at he
    split at he
    · rename_i hne
      exact ⟨hne, List.mem_singleton.mp he⟩
    · cases he
  refine h.edits ha hcache ?_ (fun k hmem => ?_) (fun k hmem => ?_) (fun hne => absurd rfl hne)
    h.plain rfl (fun k ack hmem => by cases (hedit hmem).2) (.inl rfl)
  · have hheld := h.held
    unfold heldKeys at hheld ⊢
    dsimp only
    refine hheld.sublist (List.Sublist.append_left ?_ _)
    refine List.Sublist.append_right ?_ _
    rw [if_pos rfl]
    exact List.nil_sublist _
  · rw [mem_heldKeys] at hmem ⊢
    dsimp only at hmem
    rcases hmem with hwork | ⟨hne, -⟩ | hrest
    · exact .inl hwork
    · exact absurd rfl hne
    · exact .inr (.inr hrest)
  · rw [mem_openKeys] at hmem ⊢
    dsimp only at hmem
    have hbefore : (∃ click ∈ s.work, click.binary = true ∧ click.key = k) ∨
        (s.mover.active = true ∧ s.mover.key = k) ∨ fenced = some k := by
      rcases hmem with hwork | ⟨hne, -⟩ | hrest
      · exact .inl hwork
      · exact absurd rfl hne
      · exact .inr hrest
    refine ⟨hbefore.imp_right .inr, fun e he hkey _ => ?_⟩
    obtain ⟨hne, rfl⟩ := hedit he
    obtain ⟨hwork, hfenced⟩ := h.release_apart hne
    rcases hbefore with ⟨click, hclick, hbinary, hckey⟩ | ⟨hactive, hmover⟩ | hsome
    · exact hwork click hclick hbinary (hckey.trans hkey.symm)
    · exact (h.mover_apart (ha.mover hactive)).2.1 hne (hkey.trans hmover.symm)
    · exact hfenced (hsome.trans (congrArg some hkey.symm))

theorem Paired.count (h : s.Paired fenced admitted) (ha : s.Accounted fenced) {click : ClickWork}
    {rest : List ClickWork} (hw : s.work = click :: rest) :
    (s.count click).Paired fenced admitted :=
  h.front ha hw (setFront_work hw _) rfl rfl rfl (by simp [Edit.Closes]) rfl rfl rfl

theorem Paired.clickEvent (h : s.Paired fenced admitted) (ha : s.Accounted fenced)
    (v : WriterEvent) : (s.clickEvent v).Paired fenced admitted := by
  have hspec := s.clickEvent_spec v
  generalize s.clickEvent v = s' at hspec ⊢
  cases hspec with
  | ignored => exact h
  | press click rest hw hexpects hkind hphase =>
    exact h.front ha hw (setFront_work hw _) rfl rfl (UsbProxy.edits_nil _).symm (by simp) rfl
      rfl rfl
  | blocked => exact h.finishFront ha _
  | last click rest hw => exact (h.count ha hw).finishFront (ha.count hw) _
  | next click rest hw =>
    have hcount : (s.count click).work = click.counted :: rest := setFront_work hw _
    exact (h.count ha hw).front (ha.count hw) hcount (setFront_work hcount _) rfl rfl
      (UsbProxy.edits_nil _).symm (by simp) rfl rfl rfl

/-- A control leaves the transaction as it was. -/
theorem Paired.control (h : s.Paired fenced admitted) (ha : s.Accounted fenced) (source : Peer)
    (r : MoveProtocol.Request) (prior : CachedCommand) :
    (s.controlMove source r prior).Paired fenced admitted := by
  have hcache := s.controlMove_edits source r prior
  obtain ⟨m, heq, hm⟩ := s.controlMove_eq source r prior
  rw [heq] at hcache ⊢
  dsimp only at hcache
  have hack : m.ack = s.mover.ack := by
    rcases hm with rfl | rfl | rfl
    · rfl
    · unfold MoveExecutor.proceed
      split <;> rfl
    · unfold MoveExecutor.cancel
      split <;> rfl
  have hactive : m.active = s.mover.active := by
    unfold MoveExecutor.active
    rw [hack]
  have hmkey : m.key = s.mover.key := by
    unfold MoveExecutor.key
    rw [hack]
  have hheld (cache : List CachedCommand) :
      ({ s with mover := m, cache } : Server).heldKeys fenced = s.heldKeys fenced :=
    heldKeys_congr rfl hmkey rfl
  have hopen (cache : List CachedCommand) :
      ({ s with mover := m, cache } : Server).openKeys fenced = s.openKeys fenced := by
    unfold openKeys
    dsimp only
    rw [hactive, hmkey]
  refine h.edits ha hcache (by rw [hheld]; exact h.held) (fun k hmem => hheld _ ▸ hmem)
    (fun k hmem => ⟨hopen _ ▸ hmem, fun e he _ => ?_⟩) h.owed h.plain hmkey
    (fun k ack hmem => ?_) (.inl hack)
  · cases List.mem_singleton.mp he
    exact id
  · cases List.mem_singleton.mp hmem

theorem Paired.evict (h : s.Paired fenced admitted) : s.removeOldCache.Paired fenced admitted where
  held := h.held
  admitted := h.admitted
  recorded key hmem := by
    obtain ⟨c, hc, hkey, hlive⟩ := h.recorded key hmem
    exact ⟨c, evictLoop_keeps hc hlive, hkey, hlive⟩
  owed := h.owed
  plain := h.plain
  synced hsession c hc := h.synced hsession c ((evictLoop_sublist _ _).subset hc)

/-- A record joins the cache with its work. -/
theorem Paired.push (h : s.Paired none admitted) {c : CachedCommand}
    (hcache : s'.cache = s.cache ++ [c]) (hlive : c.terminal = false) (hnew : c.key ∉ admitted)
    (hheld : (s'.heldKeys fenced').Perm (c.key :: s.heldKeys none))
    (hopen : ∀ key ∈ s'.openKeys fenced', key ∈ s.openKeys none ∨ key = c.key)
    (hplain : ∀ click ∈ s'.work, click.binary = false → click.key.session = 0)
    (hmover : s'.mover = s.mover) (hpending : s'.releasePending = s.releasePending)
    (hrelease : s'.releaseKey = s.releaseKey) : s'.Paired fenced' (c.key :: admitted) where
  held := hheld.nodup_iff.mpr
    (List.nodup_cons.mpr ⟨fun hmem => hnew (h.admitted _ hmem), h.held⟩)
  admitted key hmem := by
    rcases List.mem_cons.mp (hheld.subset hmem) with rfl | hmem
    · exact List.mem_cons_self
    · exact List.mem_cons_of_mem _ (h.admitted key hmem)
  recorded key hmem := by
    rw [hcache]
    rcases hopen key hmem with hmem | rfl
    · obtain ⟨c', hc', hrest⟩ := h.recorded key hmem
      exact ⟨c', List.mem_append_left _ hc', hrest⟩
    · exact ⟨c, List.mem_append_right _ List.mem_cons_self, rfl, hlive⟩
  owed := by
    rw [hrelease, hpending]
    exact h.owed
  plain := hplain
  synced hsession c' hc' hkey := by
    rw [hmover] at hsession hkey ⊢
    rw [hcache] at hc'
    rcases List.mem_append.mp hc' with hc' | hc'
    · exact h.synced hsession c' hc' hkey
    · cases List.mem_singleton.mp hc'
      have hmem : s.mover.key ∈ s.heldKeys none :=
        mem_heldKeys.mpr (.inr (.inr (.inl ⟨hsession, rfl⟩)))
      exact absurd (h.admitted _ hmem) (hkey ▸ hnew)

/-- A click joins the queue with its record. -/
theorem Paired.pushWork (h : s.Paired none admitted) {c : CachedCommand} {click : ClickWork}
    (hcache : s'.cache = s.cache ++ [c]) (hlive : c.terminal = false) (hnew : c.key ∉ admitted)
    (hwork : s'.work = s.work ++ [click]) (hbinary : click.binary = true)
    (hkey : click.key = c.key) (hmover : s'.mover = s.mover)
    (hpending : s'.releasePending = s.releasePending) (hrelease : s'.releaseKey = s.releaseKey) :
    s'.Paired none (c.key :: admitted) := by
  refine h.push hcache hlive hnew ?_ (fun key hopen => ?_) (fun click' hclick hplain => ?_) hmover
    hpending hrelease
  · unfold heldKeys
    rw [hwork, hmover, hrelease, List.filter_append, List.filter_cons_of_pos hbinary,
      List.filter_nil, List.map_append, List.map_singleton, hkey, List.append_assoc]
    exact List.perm_middle
  · rw [mem_openKeys, hwork, hmover, hrelease] at hopen
    rw [mem_openKeys]
    rcases hopen with ⟨click', hclick, hrest⟩ | hopen
    · rcases List.mem_append.mp hclick with hclick | hclick
      · exact .inl (.inl ⟨click', hclick, hrest⟩)
      · cases List.mem_singleton.mp hclick
        exact .inr (hrest.2.symm.trans hkey)
    · exact .inl (.inr hopen)
  · rw [hwork] at hclick
    rcases List.mem_append.mp hclick with hclick | hclick
    · exact h.plain click' hclick hplain
    · cases List.mem_singleton.mp hclick
      rw [hbinary] at hplain
      cases hplain

/-- A ReleaseAll is recorded, before its reset. -/
theorem Paired.pushRelease (h : s.Paired none admitted) {c : CachedCommand}
    (hcache : s'.cache = s.cache ++ [c]) (hlive : c.terminal = false) (hnew : c.key ∉ admitted)
    (hwork : s'.work = s.work) (hmover : s'.mover = s.mover)
    (hpending : s'.releasePending = s.releasePending) (hrelease : s'.releaseKey = s.releaseKey) :
    s'.Paired (some c.key) (c.key :: admitted) := by
  refine h.push hcache hlive hnew ?_ (fun key hopen => ?_) (hwork ▸ h.plain) hmover hpending
    hrelease
  · unfold heldKeys
    rw [hwork, hmover, hrelease, Option.toList_some, Option.toList_none, List.append_nil,
      ← List.append_assoc, ← List.append_assoc, List.append_assoc (List.map _ _)]
    exact List.perm_append_singleton _ _
  · rw [mem_openKeys, hwork, hmover, hrelease] at hopen
    rw [mem_openKeys]
    rcases hopen with hopen | hopen | hopen | hopen
    · exact .inl (.inl hopen)
    · exact .inl (.inr (.inl hopen))
    · exact .inl (.inr (.inr (.inl hopen)))
    · exact .inr (Option.some.inj hopen).symm

/-- A transaction starts: it has the server to itself. -/
theorem Paired.start (h : s.Paired none admitted) {c : CachedCommand} {m : MoveExecutor}
    (hcache : s'.cache = s.cache ++ [c]) (hlive : c.terminal = false)
    (hmovement : c.movement = true ∧ c.moveAck = m.ack) (hkey : c.key = m.key)
    (hidle : s.work = []) (hsettled : s.releasePending = false) (hmover : s'.mover = m)
    (hwork : s'.work = s.work) (hrelease : s'.releaseKey = s.releaseKey)
    (hfresh : findCache s.cache c.key = none)
    (hmem : c.key ∈ admitted') : s'.Paired none admitted' := by
  have hzero : s.releaseKey.session = 0 := by
    by_contra hne
    have howed := h.owed hne
    rw [hsettled] at howed
    cases howed
  have hclaim {key : Key} (hclaimed : key ∈ s'.openKeys none ∨ key ∈ s'.heldKeys none) :
      key = c.key := by
    rw [mem_openKeys, mem_heldKeys, hwork, hidle, hrelease, hmover, hkey] at *
    simp only [List.not_mem_nil, false_and, exists_false, hzero, ne_eq, not_true_eq_false, false_or,
      reduceCtorEq, or_false] at hclaimed
    rcases hclaimed with hclaimed | hclaimed
    · exact hclaimed.2.symm
    · exact hclaimed.2.symm
  refine ⟨?_, fun key hclaimed => hclaim (.inr hclaimed) ▸ hmem, fun key hclaimed => ?_,
    fun hne => ?_, by simp [hwork, hidle], fun _ c' hc' hckey => ?_⟩
  · unfold heldKeys
    rw [hwork, hidle, hrelease, if_pos hzero]
    split
    · exact List.nodup_nil
    · exact List.nodup_singleton _
  · rw [hclaim (.inl hclaimed), hcache]
    exact ⟨c, List.mem_append_right _ List.mem_cons_self, rfl, hlive⟩
  · rw [hrelease] at hne
    exact absurd hzero hne
  · rw [hcache] at hc'
    rw [hmover] at hckey ⊢
    rcases List.mem_append.mp hc' with hc' | hc'
    · refine absurd ?_ (findCache_none.mp hfresh)
      rw [hkey, ← hckey]
      exact List.mem_map_of_mem hc'
    · cases List.mem_singleton.mp hc'
      exact hmovement

end Server

/-- **A step keeps the pairing while no command is admitted again.** -/
theorem Step.paired {x y : Sys} (h : Step x y) (ha : x.server.Accounted x.pc.fenced)
    (hx : x.server.Paired x.pc.fenced (admittedKeys x.world.history))
    (honce : (admittedKeys y.world.history).Nodup) :
    y.server.Paired y.pc.fenced (admittedKeys y.world.history) := by
  have hsub : admittedKeys x.world.history ⊆ admittedKeys y.world.history := by
    obtain ⟨l, hl⟩ := h.remembers.extends
    rw [hl, admittedKeys_append]
    exact List.subset_append_right _ _
  cases h with
  | env | differ | recheck | takeEvents | eventsDone | overflowClear | overflowSet | leaseKept
    | scheduleIdle | enqueueRelease | silent | sample =>
    refine Server.Paired.mono ?_ hsub
    exact hx.congr rfl rfl rfl rfl rfl
  | ignore pc s w h | answer pc s w dest p h =>
    refine Server.Paired.mono ?_ hsub
    obtain rfl | ⟨e, rfl⟩ := h <;> exact hx.congr rfl rfl rfl rfl rfl
  | prune pc s w now h =>
    refine Server.Paired.mono ?_ hsub
    exact hx.congr rfl rfl rfl rfl rfl
  | check s w h =>
    refine Server.Paired.mono ?_ hsub
    dsimp only
    unfold Server.track
    split
    · exact hx.congr rfl rfl rfl rfl rfl
    · exact hx
  | resetTop | resetOverflow | resetLease =>
    refine Server.Paired.mono ?_ hsub
    exact hx.dropped ha _ _ _
  | eventFailed v rest s w now1 now2 h =>
    have hevent : (s.moveEvent v).Paired none (admittedKeys w.history) :=
      hx.sync ha (s.mover.follows_event v)
    have haevent : (s.moveEvent v).Accounted none := ha.sync (s.mover.follows_event v)
    refine Server.Paired.mono ?_ hsub
    exact hevent.dropped haevent _ _ _
  | eventRelease v rest s w h hdone =>
    have hevent : (s.moveEvent v).Paired none (admittedKeys w.history) :=
      hx.sync ha (s.mover.follows_event v)
    have haevent : (s.moveEvent v).Accounted none := ha.sync (s.mover.follows_event v)
    refine Server.Paired.mono ?_ hsub
    exact hevent.complete haevent
  | eventClick v rest s w h hdone =>
    have hevent : (s.moveEvent v).Paired none (admittedKeys w.history) :=
      hx.sync ha (s.mover.follows_event v)
    have haevent : (s.moveEvent v).Accounted none := ha.sync (s.mover.follows_event v)
    refine Server.Paired.mono ?_ hsub
    exact hevent.clickEvent haevent v
  | tickDone s w e now htime h =>
    refine Server.Paired.mono ?_ hsub
    exact hx.sync ha (s.mover.follows_tick e now)
  | tickEnqueue s w e now args htime h hres =>
    refine Server.Paired.mono ?_ hsub
    exact hx.sync ha (s.mover.follows_tickEnqueue h (w.result args))
  | tickReset s w e now now1 now2 m h =>
    have hfollows : s.mover.Follows m := by
      rcases h with ⟨-, rfl⟩ | ⟨args, result, htick, -, rfl⟩
      · exact s.mover.follows_tick e now
      · exact s.mover.follows_tickEnqueue htick result
    have hsync : ({ s with mover := m }.syncMove).Paired none (admittedKeys w.history) :=
      hx.sync ha hfollows
    have hasync : ({ s with mover := m }.syncMove).Accounted none := ha.sync hfollows
    refine Server.Paired.mono ?_ hsub
    dsimp only
    exact (hsync.drop hasync now1 now2 w.clearGeneration).resync
      (hasync.reset (.inl rfl) now1 now2 w.clearGeneration)
  | resetSchedule =>
    refine Server.Paired.mono ?_ hsub
    exact hx.drop ha _ _ _
  | fence =>
    refine Server.Paired.mono ?_ hsub
    exact hx.reset ha (.inr ⟨rfl, rfl⟩) _ _ _
  | pressRefused =>
    refine Server.Paired.mono ?_ hsub
    exact hx.finishFront ha _
  | enqueuePress s w click rest e hp hw hphase hdue he hres =>
    refine Server.Paired.mono ?_ hsub
    exact hx.front ha hw (Server.setFront_work hw _) rfl rfl (edits_nil _).symm (by simp) rfl rfl
      rfl
  | enqueueClickRelease s w click rest hp hw hphase hdue hres =>
    refine Server.Paired.mono ?_ hsub
    exact hx.front ha hw (Server.setFront_work hw _) rfl rfl (edits_nil _).symm (by simp) rfl rfl
      rfl
  | releaseWaits s w click rest hp hw hphase =>
    refine Server.Paired.mono ?_ hsub
    exact hx.front ha hw (Server.setFront_work hw _) rfl rfl (edits_nil _).symm (by simp) rfl rfl
      rfl
  | report s w e now =>
    obtain ⟨_, _, _, _, hs⟩ := s.report_eq now (s.telemetry e)
    rw [hs]
    refine Server.Paired.mono ?_ hsub
    exact hx.congr rfl rfl rfl rfl rfl
  | subscribe s w source data now =>
    obtain ⟨_, _, _, hs⟩ := s.subscribe_eq source data now
    rw [hs]
    refine Server.Paired.mono ?_ hsub
    exact hx.congr rfl rfl rfl rfl rfl
  | evict s w e =>
    refine Server.Paired.mono ?_ hsub
    exact hx.evict
  | retryMove s w source r prior now hfind hmove hsame =>
    have hcontrol := hx.control ha source r prior
    obtain ⟨_, hs⟩ := ((s.controlMove source r prior).renew source now).sendCached_eq
      { prior with peer := source } prior.status
    rw [hs]
    refine Server.Paired.mono ?_ hsub
    exact hcontrol.congr rfl rfl rfl rfl rfl
  | startMove s w source r e sessions forgot now t1 t2 t3 hr hfresh hverdict hroom hadmitted =>
    obtain ⟨hidle, hsettled⟩ := Server.moveVerdict_alone hverdict
    obtain ⟨_, hs⟩ := s.startMove_eq source r e sessions t1 t2 t3
    have hmem : r.key ∈ admittedKeys (w.notes (s.moveMarks r e ++ forgot)).history := by
      have hmark : Mark.admitted r.key true ∈ s.moveMarks r e := by
        simp [Server.moveMarks, MoveProtocol.Request.key]
      exact mem_admittedKeys (List.mem_append_left _ (List.mem_append_left _ hmark))
    rw [hs]
    exact hx.start rfl rfl ⟨rfl, rfl⟩ rfl hidle hsettled rfl rfl rfl hfresh.1 hmem
  | retryClick s w source r prior now hfind hmove =>
    refine Server.Paired.mono ?_ hsub
    exact hx.same ha rfl hx.plain ((s.renew source now).repeatClick_edits source prior)
      (by simp [Edit.Closes]) rfl rfl rfl
  | pruneReplay | heartbeat | applySnapshot | refuseReport | asciiReport =>
    refine Server.Paired.mono ?_ hsub
    exact hx.congr rfl rfl rfl rfl rfl
  | asciiReset s w source now1 now2 t =>
    have hreset : (s.reset false {} now1 now2 w.clearGeneration).Paired none
        (admittedKeys w.history) := hx.drop ha now1 now2 w.clearGeneration
    refine Server.Paired.mono ?_ hsub
    dsimp only
    generalize s.reset false {} now1 now2 w.clearGeneration = s' at hreset
    exact hreset.congr rfl rfl rfl rfl rfl
  | asciiClick s w e source button t t' hready hmover hbutton hheld hroom =>
    refine Server.Paired.mono ?_ hsub
    refine hx.same ha ?_ (fun click hclick hplain => ?_) (edits_nil _).symm (by simp) rfl rfl rfl
    · simp [Server.send, Server.renew, Server.asciiClick]
    · rcases List.mem_append.mp hclick with hclick | hclick
      · exact hx.plain click hclick hplain
      · cases List.mem_singleton.mp hclick
        rfl
  | pushClick s w source r e sessions forgot now t1 t2 hr hfresh hverdict hroom hadmitted =>
    obtain ⟨_, hs⟩ := (s.admitted r source r.count sessions).pushClick_eq source r e
      (Server.clickRecord r source r.count) now t1 t2
    have hmark : Mark.admitted r.key false ∈ s.scheduleMarks r ++ forgot := by
      simp [Server.scheduleMarks, ClickProtocol.Request.key]
    refine Server.Paired.mono ?_
      (List.cons_subset.mpr ⟨mem_admittedKeys (List.mem_append_left _ hmark), hsub⟩)
    rw [hs]
    have hnew : (Server.clickRecord r source r.count).key ∉ admittedKeys w.history :=
      admittedKeys_new honce hmark
    exact hx.pushWork (c := Server.clickRecord r source r.count) rfl rfl hnew rfl rfl rfl rfl rfl
      rfl
  | recordRelease s w source r e sessions forgot now t hr hfresh hroom hadmitted =>
    obtain ⟨_, hs⟩ := (s.admitted r source 0 sessions).recordRelease_eq source r
      (Server.clickRecord r source 0) now t
    have hmark : Mark.admitted r.key false ∈ s.releaseMarks r ++ forgot := by
      simp [Server.releaseMarks, ClickProtocol.Request.key]
    refine Server.Paired.mono ?_
      (List.cons_subset.mpr ⟨mem_admittedKeys (List.mem_append_left _ hmark), hsub⟩)
    rw [hs]
    have hnew : (Server.clickRecord r source 0).key ∉ admittedKeys w.history :=
      admittedKeys_new honce hmark
    exact hx.pushRelease (c := Server.clickRecord r source 0) rfl rfl hnew rfl rfl rfl rfl

/-! ### Terminal records -/

/-- The same record, whose answers may go to another port. -/
def CachedCommand.Alike (c c' : CachedCommand) : Prop := c' = { c with peer := c'.peer }

theorem CachedCommand.Alike.refl (c : CachedCommand) : c.Alike c := rfl

theorem CachedCommand.Alike.trans {c c' c'' : CachedCommand} (h : c.Alike c') (h' : c'.Alike c'') :
    c.Alike c'' := by
  unfold Alike at h h' ⊢
  rw [h', h]

/-- Every terminal record is still there. -/
def Server.Keeps (s s' : Server) : Prop :=
  ∀ c ∈ s.cache, c.terminal = true → ∃ c' ∈ s'.cache, c.Alike c'

namespace Server

variable {s s' s'' : Server} {fenced fenced' : Option Key} {admitted : List Key} {l : List Edit}

theorem Keeps.of_eq (hcache : s'.cache = s.cache) : s.Keeps s' :=
  fun c hc _ => ⟨c, hcache ▸ hc, .refl c⟩

theorem Keeps.trans (h : s.Keeps s') (h' : s'.Keeps s'') : s.Keeps s'' := by
  intro c hc hterminal
  obtain ⟨c', hc', halike⟩ := h c hc hterminal
  have hstill : c'.terminal = true := by rw [halike]; exact hterminal
  obtain ⟨c'', hc'', halike'⟩ := h' c' hc' hstill
  exact ⟨c'', hc'', halike.trans halike'⟩

/-- The record of open work is not terminal. -/
theorem Paired.not_open (h : s.Paired fenced admitted) (ha : s.Accounted fenced)
    {c : CachedCommand} (hc : c ∈ s.cache) (hterminal : c.terminal = true) :
    c.key ∉ s.openKeys fenced := by
  intro hopen
  obtain ⟨c', hc', hkey, hlive⟩ := h.recorded c.key hopen
  cases List.inj_on_of_nodup_map ha.keys hc' hc hkey
  rw [hlive] at hterminal
  cases hterminal

/-- Edits keep the terminal records when each is of open work, or only redirects the answers. -/
theorem Paired.keeps_edits (h : s.Paired fenced admitted) (ha : s.Accounted fenced)
    (hcache : s'.cache = UsbProxy.edits l s.cache)
    (hl : ∀ e ∈ l, e.key ∈ s.openKeys fenced ∨ e.key.session = 0 ∨
      ∀ c ∈ s.cache, c.terminal = true → c.key = e.key → ∀ a, c.Alike a → c.Alike (e.apply a)) :
    s.Keeps s' := by
  intro c hc hterminal
  have hedit : ∀ e ∈ l, e.key = c.key → ∀ a, a.key = c.key → c.Alike a → c.Alike (e.apply a) := by
    intro e he hkey a _ halike
    rcases hl e he with hopen | hzero | hredirects
    · exact absurd (hkey ▸ hopen) (h.not_open ha hc hterminal)
    · exact absurd (hkey ▸ hzero) (ha.session c hc)
    · exact hredirects c hc hterminal hkey.symm a halike
  obtain ⟨c', hc', -, halike⟩ := edits_record ha.keys hc (.refl c) hedit
  exact ⟨c', hcache ▸ hc', halike⟩

/-- An acknowledgement written to the record of its own transaction. -/
theorem Paired.sync_alike (h : s.Paired fenced admitted) {m : MoveExecutor}
    (hm : s.mover.Follows m) {e : Edit} (he : e ∈ syncEdits m) :
    e.key ∈ s.openKeys fenced ∨ e.key.session = 0 ∨ ∀ c ∈ s.cache, c.terminal = true →
      c.key = e.key → ∀ a, c.Alike a → c.Alike (e.apply a) := by
  obtain ⟨hsession, rfl⟩ := syncEdits_mem he
  by_cases hactive : s.mover.active = true
  · exact .inl (mem_openKeys.mpr (.inr (.inr (.inl ⟨hactive, hm.key.symm⟩))))
  · have hinactive : s.mover.active = false := by simpa using hactive
    cases hm.inactive hinactive
    refine .inr (.inr fun c hc hterminal hkey a halike => ?_)
    have hack := (h.synced hsession c hc hkey).2
    have hclosed := s.mover.inactive_iff.mp hinactive
    show ({ a with moveAck := _, terminal := _ } : CachedCommand) = _
    rw [hclosed, ← hack, ← hterminal]
    unfold CachedCommand.Alike at halike
    rw [halike]
    rfl

theorem Paired.keeps_sync (h : s.Paired fenced admitted) (ha : s.Accounted fenced)
    {m : MoveExecutor} (hm : s.mover.Follows m) : s.Keeps { s with mover := m }.syncMove :=
  h.keeps_edits ha (syncMove_edits { s with mover := m }) fun _ he => h.sync_alike hm he

theorem Paired.keeps_resync (h : s.Paired fenced admitted) (ha : s.Accounted fenced) :
    s.Keeps s.syncMove := h.keeps_sync ha (.refl _)

/-- The edits of finished clicks are of open work. -/
theorem finishEdits_open {status : ClickProtocol.Status} {work : List ClickWork}
    (hsub : ∀ click ∈ work, click ∈ s.work) {e : Edit} (he : e ∈ finishEdits status work) :
    e.key ∈ s.openKeys fenced := by
  obtain ⟨click, hclick, hbinary, rfl⟩ := finishEdits_mem he
  exact mem_openKeys.mpr (.inl ⟨click, hsub click hclick, hbinary, rfl⟩)

theorem Paired.keeps_resetEdits (h : s.Paired fenced admitted) (ha : s.Accounted fenced)
    {attachRelease : Bool} {key : Key} {now : ℕ}
    (hcache : s'.cache = UsbProxy.edits (s.resetEdits attachRelease key now) s.cache) :
    s.Keeps s' := by
  have hm := s.mover.follows_stop .cancelled now
  refine h.keeps_edits ha hcache fun e he => ?_
  unfold resetEdits at he
  simp only [List.mem_append] at he
  rcases he with ((he | he) | he) | he
  · exact h.sync_alike hm he
  · unfold replaceEdits at he
    split at he
    · rename_i hreplaced
      cases List.mem_singleton.mp he
      exact .inl (mem_openKeys.mpr (.inr (.inl ⟨hreplaced.2.1, rfl⟩)))
    · cases he
  · exact h.sync_alike hm he
  · exact .inl (finishEdits_open (fun _ => id) he)

theorem Paired.keeps_reset (h : s.Paired fenced admitted) (ha : s.Accounted fenced)
    (attachRelease : Bool) (key : Key) (now1 now2 generation : ℕ) :
    s.Keeps (s.reset attachRelease key now1 now2 generation) :=
  h.keeps_resetEdits ha (s.reset_edits attachRelease key now1 now2 generation)

theorem Paired.keeps_dropped (h : s.Paired fenced admitted) (ha : s.Accounted fenced)
    (now1 now2 generation : ℕ) : s.Keeps (s.dropped now1 now2 generation) :=
  h.keeps_resetEdits ha (s.dropped_edits now1 now2 generation)

theorem Paired.keeps_finishFront (h : s.Paired fenced admitted) (ha : s.Accounted fenced)
    (status : ClickProtocol.Status) : s.Keeps (s.finishFront status) :=
  h.keeps_edits ha (s.finishFront_edits status) fun _ he =>
    .inl (finishEdits_open (fun _ => List.mem_of_mem_take) he)

theorem Paired.keeps_complete (h : s.Paired fenced admitted) (ha : s.Accounted fenced) :
    s.Keeps s.completeRelease := by
  refine h.keeps_edits ha s.completeRelease_edits fun e he => ?_
  unfold completeEdits at he
  split at he
  · rename_i hne
    cases List.mem_singleton.mp he
    exact .inl (mem_openKeys.mpr (.inr (.inl ⟨hne, rfl⟩)))
  · cases he

theorem Paired.keeps_count (h : s.Paired fenced admitted) (ha : s.Accounted fenced)
    {click : ClickWork} {rest : List ClickWork} (hw : s.work = click :: rest) :
    s.Keeps (s.count click) := by
  have hclick : click ∈ s.work := by
    rw [hw]
    exact List.mem_cons_self
  have hcache : (s.count click).cache =
      UsbProxy.edits [.count click.key click.counted.index] s.cache := rfl
  refine h.keeps_edits ha hcache fun e he => ?_
  cases List.mem_singleton.mp he
  by_cases hbinary : click.binary = true
  · exact .inl (mem_openKeys.mpr (.inl ⟨click, hclick, hbinary, rfl⟩))
  · exact .inr (.inl (h.plain click hclick (by simpa using hbinary)))

theorem Paired.keeps_clickEvent (h : s.Paired fenced admitted) (ha : s.Accounted fenced)
    (v : WriterEvent) : s.Keeps (s.clickEvent v) := by
  have hspec := s.clickEvent_spec v
  generalize s.clickEvent v = s' at hspec ⊢
  cases hspec with
  | ignored | press => exact .of_eq rfl
  | blocked => exact h.keeps_finishFront ha _
  | last click rest hw =>
    exact (h.keeps_count ha hw).trans ((h.count ha hw).keeps_finishFront (ha.count hw) _)
  | next click rest hw => exact (h.keeps_count ha hw).trans (.of_eq rfl)

theorem Paired.keeps_readdress (h : s.Paired fenced admitted) (ha : s.Accounted fenced) {key : Key}
    {source : Peer} (hcache : s'.cache = UsbProxy.edits [.readdress key source] s.cache) :
    s.Keeps s' := by
  refine h.keeps_edits ha hcache fun e he => .inr (.inr fun c _ _ _ a halike => ?_)
  cases List.mem_singleton.mp he
  unfold CachedCommand.Alike at halike
  rw [halike]
  exact .refl _

theorem Keeps.append {c : CachedCommand} (hcache : s'.cache = s.cache ++ [c]) : s.Keeps s' :=
  fun c' hc' _ => ⟨c', hcache ▸ List.mem_append_left _ hc', .refl c'⟩

end Server

/-- **A terminal record stays as it is until it is evicted.** -/
theorem Step.keeps {x y : Sys} (h : Step x y) (ha : x.server.Accounted x.pc.fenced)
    (hx : x.server.Paired x.pc.fenced (admittedKeys x.world.history)) {c : CachedCommand}
    (hc : c ∈ x.server.cache) (hterminal : c.terminal = true) :
    (∃ c' ∈ y.server.cache, c.Alike c') ∨
      ∃ l, y.world.history = l ++ x.world.history ∧ .evicted c.key ∈ l := by
  have hkept (hkeeps : x.server.Keeps y.server) :
      (∃ c' ∈ y.server.cache, c.Alike c') ∨
        ∃ l, y.world.history = l ++ x.world.history ∧ .evicted c.key ∈ l :=
    .inl (hkeeps c hc hterminal)
  cases h with
  | env | differ | recheck | takeEvents | eventsDone | overflowClear | overflowSet | leaseKept
    | scheduleIdle | enqueueRelease | silent | sample | ignore | answer | prune | enqueuePress
    | enqueueClickRelease | releaseWaits | pruneReplay | heartbeat | applySnapshot | refuseReport
    | asciiReport | asciiClick => exact hkept (.of_eq rfl)
  | check s w h =>
    refine hkept (.of_eq ?_)
    dsimp only
    unfold Server.track
    split <;> rfl
  | resetTop | resetOverflow | resetLease =>
    exact hkept (hx.keeps_dropped ha _ _ _)
  | eventFailed v rest s w now1 now2 h =>
    have hevent : (s.moveEvent v).Paired none (admittedKeys w.history) :=
      hx.sync ha (s.mover.follows_event v)
    have haevent : (s.moveEvent v).Accounted none := ha.sync (s.mover.follows_event v)
    have hsync : s.Keeps (s.moveEvent v) := hx.keeps_sync ha (s.mover.follows_event v)
    exact hkept (hsync.trans (hevent.keeps_dropped haevent now1 now2 _))
  | eventRelease v rest s w h hdone =>
    have hevent : (s.moveEvent v).Paired none (admittedKeys w.history) :=
      hx.sync ha (s.mover.follows_event v)
    have haevent : (s.moveEvent v).Accounted none := ha.sync (s.mover.follows_event v)
    have hsync : s.Keeps (s.moveEvent v) := hx.keeps_sync ha (s.mover.follows_event v)
    exact hkept (hsync.trans (hevent.keeps_complete haevent))
  | eventClick v rest s w h hdone =>
    have hevent : (s.moveEvent v).Paired none (admittedKeys w.history) :=
      hx.sync ha (s.mover.follows_event v)
    have haevent : (s.moveEvent v).Accounted none := ha.sync (s.mover.follows_event v)
    have hsync : s.Keeps (s.moveEvent v) := hx.keeps_sync ha (s.mover.follows_event v)
    exact hkept (hsync.trans (hevent.keeps_clickEvent haevent v))
  | tickDone s w e now htime h => exact hkept (hx.keeps_sync ha (s.mover.follows_tick e now))
  | tickEnqueue s w e now args htime h hres =>
    exact hkept (hx.keeps_sync ha (s.mover.follows_tickEnqueue h (w.result args)))
  | tickReset s w e now now1 now2 m h =>
    have hfollows : s.mover.Follows m := by
      rcases h with ⟨-, rfl⟩ | ⟨args, result, htick, -, rfl⟩
      · exact s.mover.follows_tick e now
      · exact s.mover.follows_tickEnqueue htick result
    have hsync : ({ s with mover := m }.syncMove).Paired none (admittedKeys w.history) :=
      hx.sync ha hfollows
    have hasync : ({ s with mover := m }.syncMove).Accounted none := ha.sync hfollows
    have hkeeps : s.Keeps { s with mover := m }.syncMove := hx.keeps_sync ha hfollows
    refine hkept (hkeeps.trans ?_)
    dsimp only
    generalize { s with mover := m }.syncMove = s' at hsync hasync
    have hreset := hsync.drop hasync now1 now2 w.clearGeneration
    have hareset : (s'.reset false {} now1 now2 w.clearGeneration).Accounted none :=
      hasync.reset (.inl rfl) now1 now2 w.clearGeneration
    have hkeeps' := hsync.keeps_reset hasync false {} now1 now2 w.clearGeneration
    exact hkeeps'.trans (hreset.keeps_resync hareset)
  | resetSchedule | fence => exact hkept (hx.keeps_reset ha _ _ _ _ _)
  | pressRefused => exact hkept (hx.keeps_finishFront ha _)
  | report s w e now =>
    obtain ⟨_, _, _, _, hs⟩ := s.report_eq now (s.telemetry e)
    rw [hs] at hkept ⊢
    exact hkept (.of_eq rfl)
  | subscribe s w source data now =>
    obtain ⟨_, _, _, hs⟩ := s.subscribe_eq source data now
    rw [hs] at hkept ⊢
    exact hkept (.of_eq rfl)
  | evict s w e =>
    rcases evictLoop_keys s.cache.length s.cache c.key (List.mem_map_of_mem hc) with hkey | hgone
    · obtain ⟨c', hc', hkey⟩ := List.mem_map.mp hkey
      have hbefore : c' ∈ s.cache := (evictLoop_sublist _ _).subset hc'
      cases List.inj_on_of_nodup_map ha.keys hbefore hc hkey
      exact .inl ⟨c, hc', .refl c⟩
    · exact .inr ⟨_, rfl, List.mem_map_of_mem hgone⟩
  | retryMove s w source r prior now hfind hmove hsame =>
    obtain ⟨_, hs⟩ := ((s.controlMove source r prior).renew source now).sendCached_eq
      { prior with peer := source } prior.status
    have hcache : (((s.controlMove source r prior).renew source now).sendCached
        { prior with peer := source } prior.status).cache =
          UsbProxy.edits [.readdress prior.key source] s.cache := by
      rw [hs]
      exact s.controlMove_edits source r prior
    exact hkept (hx.keeps_readdress ha hcache)
  | retryClick s w source r prior now hfind hmove =>
    have hcache : ((s.renew source now).repeatClick source prior).cache =
        UsbProxy.edits [.readdress prior.key source] s.cache :=
      (s.renew source now).repeatClick_edits source prior
    exact hkept (hx.keeps_readdress ha hcache)
  | startMove s w source r e sessions forgot now t1 t2 t3 =>
    obtain ⟨_, hs⟩ := s.startMove_eq source r e sessions t1 t2 t3
    rw [hs] at hkept ⊢
    exact hkept (.append rfl)
  | asciiReset s w source now1 now2 t =>
    have hreset : s.Keeps (s.reset false {} now1 now2 w.clearGeneration) :=
      hx.keeps_reset ha false {} now1 now2 w.clearGeneration
    refine hkept (?_ : s.Keeps _)
    dsimp only
    generalize s.reset false {} now1 now2 w.clearGeneration = s' at hreset
    exact hreset.trans (.of_eq rfl)
  | pushClick s w source r e sessions forgot now t1 t2 =>
    obtain ⟨_, hs⟩ := (s.admitted r source r.count sessions).pushClick_eq source r e
      (Server.clickRecord r source r.count) now t1 t2
    rw [hs] at hkept ⊢
    exact hkept (.append rfl)
  | recordRelease s w source r e sessions forgot now t =>
    obtain ⟨_, hs⟩ := (s.admitted r source 0 sessions).recordRelease_eq source r
      (Server.clickRecord r source 0) now t
    rw [hs] at hkept ⊢
    exact hkept (.append rfl)

/-! ### Runs -/

theorem Server.Paired.init (epoch : ℕ) (peerFilter : Option ℕ) :
    (Config.init epoch peerFilter).server.Paired none [] where
  held := List.nodup_nil
  admitted _ h := h
  recorded _ h := by cases h
  owed h := absurd rfl h
  plain := by simp [Config.init]
  synced h := absurd rfl h

/-- What a run of atomic steps keeps, with the accounts. -/
theorem Steps.paired {x y : Sys} (h : Steps x y) (ha : x.server.Accounted x.pc.fenced)
    (hx : x.server.Paired x.pc.fenced (admittedKeys x.world.history))
    (honce : (admittedKeys y.world.history).Nodup) :
    y.server.Accounted y.pc.fenced ∧
      y.server.Paired y.pc.fenced (admittedKeys y.world.history) := by
  induction h with
  | refl => exact ⟨ha, hx⟩
  | tail _ hlast ih =>
    obtain ⟨l, hl⟩ := hlast.remembers.extends
    have hbefore := honce
    rw [hl] at hbefore
    obtain ⟨hacc, hpaired⟩ := ih (admittedKeys_older hbefore)
    exact ⟨hlast.accounted hacc, hlast.paired hacc hpaired honce⟩

theorem Steps.keeps {x y : Sys} (h : Steps x y) (ha : x.server.Accounted x.pc.fenced)
    (hx : x.server.Paired x.pc.fenced (admittedKeys x.world.history))
    (honce : (admittedKeys y.world.history).Nodup) {c : CachedCommand} (hc : c ∈ x.server.cache)
    (hterminal : c.terminal = true) :
    (∃ c' ∈ y.server.cache, c.Alike c') ∨
      ∃ l, y.world.history = l ++ x.world.history ∧ .evicted c.key ∈ l := by
  induction h with
  | refl => exact .inl ⟨c, hc, .refl c⟩
  | @tail z y hsteps hlast ih =>
    obtain ⟨l, hl⟩ := hlast.remembers.extends
    have hbefore := honce
    rw [hl] at hbefore
    have hbefore := admittedKeys_older hbefore
    obtain ⟨hacc, hpaired⟩ := Steps.paired hsteps ha hx hbefore
    rcases ih hbefore with ⟨c', hc', halike⟩ | ⟨l', hl', hevicted⟩
    · have hstill : c'.terminal = true := by rw [halike]; exact hterminal
      have hkey : c'.key = c.key := by rw [halike]
      rcases hlast.keeps hacc hpaired hc' hstill with ⟨c'', hc'', halike'⟩ | ⟨l', hl', hevicted⟩
      · exact .inl ⟨c'', hc'', halike.trans halike'⟩
      · obtain ⟨l₀, hl₀⟩ := Steps.extends hsteps
        rw [hkey] at hevicted
        exact .inr ⟨l' ++ l₀, by rw [hl', hl₀, List.append_assoc], List.mem_append_left _ hevicted⟩
    · exact .inr ⟨l ++ l', by rw [hl, hl', List.append_assoc], List.mem_append_right _ hevicted⟩

theorem Stage.pc_fenced (stage : Stage) : stage.pc.fenced = none := by
  cases stage <;> rfl

theorem Config.Reachable.paired {c : Config} (hc : c.Reachable)
    (honce : (admittedKeys c.world.history).Nodup) :
    c.server.Accounted none ∧ c.server.Paired none (admittedKeys c.world.history) := by
  obtain ⟨epoch, peerFilter, actions, rfl⟩ := hc
  have hsteps := (Config.init epoch peerFilter).run_steps actions .empty
  have hpaired := hsteps.paired (Server.accounted_start epoch peerFilter)
    (Server.Paired.init epoch peerFilter) honce
  unfold Config.sys at hpaired
  rwa [Stage.pc_fenced] at hpaired

theorem Server.Paired.nodup_openKeys {s : Server} {fenced : Option Key} {admitted : List Key}
    (h : s.Paired fenced admitted) (ha : s.Accounted fenced) : (s.openKeys fenced).Nodup := by
  refine h.held.sublist (List.Sublist.append_left (List.Sublist.append_left ?_ _) _)
  refine List.Sublist.append_right ?_ _
  by_cases hactive : s.mover.active = true
  · rw [if_pos hactive, if_neg (ha.mover hactive)]
  · rw [if_neg hactive]
    exact List.nil_sublist _

/-- **Records and work are paired.**  While no command was admitted twice, the open records are
exactly those of the queued clicks, the owed ReleaseAll and the running transaction, one for each,
and no two records have the same key. -/
theorem records_paired {c : Config} (hc : c.Reachable)
    (honce : (admittedKeys c.world.history).Nodup) :
    (c.server.cache.map (·.key)).Nodup ∧
      ((c.server.cache.filter fun r => !r.terminal).map (·.key)).Perm
        ((c.server.work.filter (·.binary)).map (·.key) ++
          (if c.server.releaseKey.session = 0 then [] else [c.server.releaseKey]) ++
          (if c.server.mover.active then [c.server.mover.key] else [])) := by
  obtain ⟨ha, hpaired⟩ := hc.paired honce
  have hopen : c.server.openKeys none = (c.server.work.filter (·.binary)).map (·.key) ++
      (if c.server.releaseKey.session = 0 then [] else [c.server.releaseKey]) ++
      (if c.server.mover.active then [c.server.mover.key] else []) := by
    unfold Server.openKeys
    rw [Option.toList_none, List.append_nil, List.append_assoc]
  rw [← hopen]
  refine ⟨ha.keys, (List.perm_ext_iff_of_nodup ?_ (hpaired.nodup_openKeys ha)).mpr fun key => ?_⟩
  · exact ha.keys.sublist (List.filter_sublist.map _)
  constructor
  · intro hmem
    obtain ⟨r, hr, rfl⟩ := List.mem_map.mp hmem
    obtain ⟨hr, hlive⟩ := List.mem_filter.mp hr
    have hpending := (ha.live r hr (by simpa using hlive)).resolve_right (by simp)
    rw [Server.mem_openKeys]
    rcases hpending with hwork | ⟨-, hrelease⟩ | hmover
    · exact .inl hwork
    · exact .inr (.inl ⟨hrelease ▸ ha.session r hr, hrelease⟩)
    · exact .inr (.inr (.inl hmover))
  · intro hmem
    obtain ⟨r, hr, rfl, hlive⟩ := hpaired.recorded key hmem
    exact List.mem_map_of_mem (List.mem_filter.mpr ⟨hr, by simp [hlive]⟩)

theorem records_paired_clicking :
    clicking.server.work.map (·.key) = [⟨7, 1⟩] ∧ (clicking.server.cache.map (·.key)).Nodup ∧
      ((clicking.server.cache.filter fun r => !r.terminal).map (·.key)).Perm
        ((clicking.server.work.filter (·.binary)).map (·.key) ++
          (if clicking.server.releaseKey.session = 0 then [] else [clicking.server.releaseKey]) ++
          (if clicking.server.mover.active then [clicking.server.mover.key] else [])) := by
  have hreachable : clicking.Reachable := ⟨1, none, _, rfl⟩
  have honce : (admittedKeys clicking.world.history).Nodup := by decide +kernel
  exact ⟨by decide +kernel, records_paired hreachable honce⟩

/-- **An answer is final.**  While no command is admitted twice, a terminal record stays as it is in
every later state, but for the port it is sent to, unless it is evicted. -/
theorem answer_final {c : Config} (hc : c.Reachable) (actions : List Action)
    (honce : (admittedKeys (c.run actions).world.history).Nodup) {r : CachedCommand}
    (hr : r ∈ c.server.cache) (hterminal : r.terminal = true) :
    (∃ r' ∈ (c.run actions).server.cache, r' = { r with peer := r'.peer }) ∨
      ∃ since, (c.run actions).world.history = since ++ c.world.history ∧
        .evicted r.key ∈ since := by
  have hdistinct : c.server.sessions.Distinct := hc.remembers.distinct
  have hsteps := c.run_steps actions hdistinct
  obtain ⟨l, hl⟩ := Steps.extends hsteps
  have hl : (c.run actions).world.history = l ++ c.world.history := hl
  have hbefore := honce
  rw [hl] at hbefore
  obtain ⟨ha, hpaired⟩ := hc.paired (admittedKeys_older hbefore)
  rw [← Stage.pc_fenced c.stage] at ha hpaired
  exact hsteps.keeps ha hpaired honce hr hterminal

/-- A ReleaseAll cancels the click. -/
def cancelling : Config :=
  (Config.init 1 none).run (Action.mouse ++
    Action.iteration (some ⟨⟨1, 1⟩, ClickProtocol.request .schedule 7 1 1 3 1000 10000 1⟩) ++
      Action.iteration (some ⟨⟨1, 1⟩, ClickProtocol.request .releaseAll 7 2 0 0 0 0 1⟩))

theorem answer_final_cancelling : ∃ r ∈ cancelling.server.cache, r.status = .cancelled ∧
    ((∃ r' ∈ (cancelling.run (Action.iteration none)).server.cache,
        r' = { r with peer := r'.peer }) ∨
      ∃ since, (cancelling.run (Action.iteration none)).world.history =
        since ++ cancelling.world.history ∧ .evicted r.key ∈ since) := by
  have hreachable : cancelling.Reachable := ⟨1, none, _, rfl⟩
  have hcancelled : cancelling.server.cache.any
      (fun r => r.status == .cancelled && r.terminal) = true := by decide +kernel
  obtain ⟨r, hr, hstatus⟩ := List.any_eq_true.mp hcancelled
  rw [Bool.and_eq_true, beq_iff_eq] at hstatus
  exact ⟨r, hr, hstatus.1, answer_final hreachable _ (by decide +kernel) hr hstatus.2⟩

end UsbProxy
