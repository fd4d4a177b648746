import UsbProxy.Server.Accounts
import UsbProxy.Server.Mixing

/-!
# The record of a transaction

The cache holds a transaction only once it was executed, a running transaction has an open record,
and only its record is open among those of transactions: no click and no ReleaseAll claims one.
-/

namespace UsbProxy

/-- What the cache, the work and the history say of transactions. -/
structure Server.Recorded (s : Server) (fenced : Option Key) (h : List Mark) : Prop where
  executed : ∀ c ∈ s.cache, c.movement = true → ∃ r, .executed r ∈ h ∧ r.key = c.key
  clicks : ∀ c ∈ s.cache, c.movement = true → ∀ click ∈ s.work, click.binary = true →
    click.key ≠ c.key
  release : ∀ c ∈ s.cache, c.movement = true → s.releaseKey ≠ c.key ∧ fenced ≠ some c.key
  running : s.mover.active = true → ∀ c ∈ s.cache, c.key = s.mover.key → c.terminal = false
  alone : s.mover.active = true → s.work = [] ∧ s.releasePending = false
  inflight : s.releaseInflight = true → s.releasePending = true
  released : s.releasePending = false → s.releaseKey = {}
  keyed : s.mover.request.key = s.mover.key

@[simp] theorem Edit.apply_movement (e : Edit) (c : CachedCommand) :
    (e.apply c).movement = c.movement := by
  cases e <;> rfl

namespace Server

variable {s s' : Server} {fenced fenced' : Option Key} {h h' : List Mark} {l : List Edit}

/-- An open record of a transaction is of the one that runs. -/
theorem Recorded.open_running (hx : s.Recorded fenced h) (ha : s.Accounted fenced)
    {c : CachedCommand} (hc : c ∈ s.cache) (hmove : c.movement = true) (hopen : c.terminal = false) :
    s.mover.active = true ∧ s.mover.key = c.key := by
  rcases ha.live c hc hopen with (⟨click, hclick, hbinary, hkey⟩ | ⟨-, hkey⟩ | hrunning) | hfenced
  · exact absurd hkey (hx.clicks c hc hmove click hclick hbinary)
  · exact absurd hkey (hx.release c hc hmove).1
  · exact hrunning
  · exact absurd hfenced (hx.release c hc hmove).2

/-- Edits of the records, while work is done and the transaction runs on or ends. -/
theorem Recorded.edits (hx : s.Recorded fenced h) (ha : s.Accounted fenced)
    (hcache : s'.cache = edits l s.cache) (hh : ∀ m ∈ h, m ∈ h')
    (hwork : ∀ click ∈ s'.work, click.binary = true →
      ∃ click' ∈ s.work, click'.binary = true ∧ click'.key = click.key)
    (hkey : s'.releaseKey = s.releaseKey ∨ s'.releaseKey = {} ∨ fenced = some s'.releaseKey)
    (hfenced : fenced' = none ∨ fenced' = fenced)
    (hrunning : s'.mover.active = true → s.mover.active = true ∧ s'.mover.key = s.mover.key ∧
      s'.work = [] ∧ s'.releasePending = false ∧ ∀ e ∈ l, e.key = s.mover.key → ¬ e.Closes)
    (hinflight : s'.releaseInflight = true → s'.releasePending = true)
    (hreleased : s'.releasePending = false → s'.releaseKey = {})
    (hkeyed : s'.mover.request.key = s'.mover.key) : s'.Recorded fenced' h' := by
  have hall : ∀ c ∈ s'.cache, c.movement = true →
      ∃ c0 ∈ s.cache, c0.movement = true ∧ c0.key = c.key := by
    rw [hcache]
    refine edits_forall (P := fun c => c.movement = true →
      ∃ c0 ∈ s.cache, c0.movement = true ∧ c0.key = c.key) ha.keys
      (fun c hc hmove => ⟨c, hc, hmove, rfl⟩) fun e _ c _ hc => ?_
    rwa [Edit.apply_movement, Edit.apply_key]
  exact {
    executed := fun c hc hmove => by
      obtain ⟨c0, hc0, hmove0, hkey0⟩ := hall c hc hmove
      obtain ⟨r, hr, hrkey⟩ := hx.executed c0 hc0 hmove0
      exact ⟨r, hh _ hr, hrkey.trans hkey0⟩
    clicks := fun c hc hmove click hclick hbinary => by
      obtain ⟨c0, hc0, hmove0, hkey0⟩ := hall c hc hmove
      obtain ⟨click', hclick', hbinary', hsame⟩ := hwork click hclick hbinary
      rw [← hkey0, ← hsame]
      exact hx.clicks c0 hc0 hmove0 click' hclick' hbinary'
    release := fun c hc hmove => by
      obtain ⟨c0, hc0, hmove0, hkey0⟩ := hall c hc hmove
      obtain ⟨h1, h2⟩ := hx.release c0 hc0 hmove0
      rw [← hkey0]
      refine ⟨?_, ?_⟩
      · rcases hkey with hkey | hkey | hkey
        · rwa [hkey]
        · rw [hkey]
          intro hzero
          exact ha.session c0 hc0 (by rw [← hzero])
        · intro hsame
          exact h2 (hkey.trans (congrArg some hsame))
      · rcases hfenced with rfl | rfl
        · simp
        · exact h2
    running := fun hactive c hc hckey => by
      obtain ⟨hactive0, hsame, -, -, hl⟩ := hrunning hactive
      rw [hcache] at hc
      have hkept := edits_forall (P := fun c => c.key = s.mover.key → c.terminal = false) ha.keys
        (hx.running hactive0) (fun e he c hcke hc hkey' => by
          rw [Edit.apply_key] at hkey'
          have hopen := hl e he (hcke.symm.trans hkey')
          have hold := hc hkey'
          cases e with
          | finish => exact absurd trivial hopen
          | sync key ack => exact Bool.eq_false_iff.mpr hopen
          | count | readdress => exact hold)
      exact hkept c hc (hckey.trans hsame)
    alone := fun hactive => by
      obtain ⟨-, -, hw, hr, -⟩ := hrunning hactive
      exact ⟨hw, hr⟩
    inflight := hinflight
    released := hreleased
    keyed := hkeyed }

/-- What has no part in transactions changes nothing. -/
theorem Recorded.congr (hx : s.Recorded fenced h) (ha : s.Accounted fenced)
    (hcache : s'.cache = s.cache) (hwork : s'.work = s.work)
    (hpending : s'.releasePending = s.releasePending)
    (hinflight : s'.releaseInflight = s.releaseInflight) (hkey : s'.releaseKey = s.releaseKey)
    (hmover : s'.mover = s.mover) (hh : ∀ m ∈ h, m ∈ h') : s'.Recorded fenced h' :=
  hx.edits ha (l := []) hcache hh (fun click hclick hbinary => ⟨click, hwork ▸ hclick, hbinary, rfl⟩)
    (.inl hkey) (.inr rfl)
    (fun hactive => by
      rw [hmover] at hactive ⊢
      obtain ⟨h1, h2⟩ := hx.alone hactive
      exact ⟨hactive, rfl, hwork.trans h1, hpending.trans h2, by simp⟩)
    (fun hi => by rw [hpending]; exact hx.inflight (hinflight ▸ hi))
    (fun hp => by rw [hkey]; exact hx.released (hpending ▸ hp))
    (hmover ▸ hx.keyed)

/-! ### Verdicts -/

/-- A transaction is admitted when nothing else is to be done. -/
theorem scheduleVerdict_idle {e : EndpointSnapshot} {r : ClickProtocol.Request}
    (h : s.scheduleVerdict e r = none) : s.mover.active = false := by
  unfold scheduleVerdict at h
  split_ifs at h with hactive
  simpa using hactive

/-! ### The functions of the server -/

/-- With work or an owed release no transaction runs. -/
theorem Recorded.idle_of_work (hx : s.Recorded fenced h) (hw : s.work ≠ []) :
    s.mover.active = false :=
  Bool.eq_false_iff.mpr fun hactive => hw (hx.alone hactive).1

theorem Recorded.idle_of_pending (hx : s.Recorded fenced h) (hp : s.releasePending = true) :
    s.mover.active = false :=
  Bool.eq_false_iff.mpr fun hactive => by
    rw [(hx.alone hactive).2] at hp
    cases hp

/-- The executor went on, and `sync_move` follows. -/
theorem Recorded.sync (hx : s.Recorded fenced h) (ha : s.Accounted fenced) {m : MoveExecutor}
    (hm : s.mover.Follows m) : ({ s with mover := m }.syncMove).Recorded fenced h := by
  have hcache := syncMove_edits { s with mover := m }
  obtain ⟨cache, sent, heq⟩ := syncMove_eq { s with mover := m }
  rw [heq] at hcache ⊢
  refine hx.edits ha hcache (fun _ hm => hm) (fun click hc hb => ⟨click, hc, hb, rfl⟩) (.inl rfl)
    (.inr rfl) (fun hactive => ?_) hx.inflight hx.released ?_
  · have hactive0 := hm.active hactive
    obtain ⟨h1, h2⟩ := hx.alone hactive0
    refine ⟨hactive0, hm.key, h1, h2, fun e he _ hcloses => ?_⟩
    unfold syncEdits at he
    split at he
    · cases he
    · cases List.mem_singleton.mp he
      have hopen := (MoveExecutor.active_iff m).mp hactive
      change m.ack.status.terminal = true at hcloses
      rw [hopen] at hcloses
      cases hcloses
  · change m.request.key = m.key
    rw [hm.request, hm.key]
    exact hx.keyed

theorem Recorded.resync (hx : s.Recorded fenced h) (ha : s.Accounted fenced) :
    s.syncMove.Recorded fenced h := hx.sync ha (.refl _)

/-- `begin_reset` ends the transaction. -/
theorem Recorded.reset (hx : s.Recorded fenced h) (ha : s.Accounted fenced) {attachRelease : Bool}
    {key : Key} (hfenced : attachRelease = true → fenced = some key) (hh : ∀ m ∈ h, m ∈ h')
    (now1 now2 generation : ℕ) :
    (s.reset attachRelease key now1 now2 generation).Recorded none h' := by
  have hcache := s.reset_edits attachRelease key now1 now2 generation
  obtain ⟨cache, sent, heq⟩ := s.reset_eq attachRelease key now1 now2 generation
  rw [heq] at hcache ⊢
  have hfollows := s.mover.follows_stop .cancelled now1
  refine hx.edits ha hcache hh (by simp) ?_ (.inl rfl) (fun hactive => ?_) (fun hi => by cases hi)
    (fun hp => by cases hp) ?_
  · dsimp only
    cases attachRelease with
    | false => exact .inl rfl
    | true => exact .inr (.inr (hfenced rfl))
  · change (s.mover.stop .cancelled now1).active = true at hactive
    rw [MoveExecutor.stop_active _ _ rfl] at hactive
    cases hactive
  · change (s.mover.stop .cancelled now1).request.key = (s.mover.stop .cancelled now1).key
    rw [hfollows.request, hfollows.key]
    exact hx.keyed

theorem Recorded.disown (hx : s.Recorded fenced h) (ha : s.Accounted fenced) :
    { s with owned := false }.Recorded fenced h :=
  hx.congr ha rfl rfl rfl rfl rfl rfl fun _ hm => hm

theorem Recorded.dropped (hx : s.Recorded none h) (ha : s.Accounted none) (hh : ∀ m ∈ h, m ∈ h')
    (now1 now2 generation : ℕ) : (s.dropped now1 now2 generation).Recorded none h' := by
  have hreset : (s.reset false {} now1 now2 generation).Recorded none h' :=
    hx.reset ha (fun h => by cases h) hh now1 now2 generation
  exact hreset.disown (ha.reset (.inl rfl) now1 now2 generation)

/-- The work in front goes on or is done; no transaction runs. -/
theorem Recorded.front (hx : s.Recorded fenced h) (ha : s.Accounted fenced) (hw : s.work ≠ [])
    (hcache : s'.cache = UsbProxy.edits l s.cache)
    (hwork : ∀ click ∈ s'.work, click.binary = true →
      ∃ click' ∈ s.work, click'.binary = true ∧ click'.key = click.key)
    (hpending : s'.releasePending = s.releasePending)
    (hinflight : s'.releaseInflight = s.releaseInflight) (hkey : s'.releaseKey = s.releaseKey)
    (hmover : s'.mover = s.mover) (hh : ∀ m ∈ h, m ∈ h') : s'.Recorded fenced h' := by
  have hidle := hx.idle_of_work hw
  refine hx.edits ha hcache hh hwork (.inl hkey) (.inr rfl) (fun hactive => ?_)
    (fun hi => by rw [hpending]; exact hx.inflight (hinflight ▸ hi))
    (fun hp => by rw [hkey]; exact hx.released (hpending ▸ hp)) (hmover ▸ hx.keyed)
  rw [hmover, hidle] at hactive
  cases hactive

/-- A front click that keeps its key. -/
theorem Recorded.setFront (hx : s.Recorded fenced h) (ha : s.Accounted fenced) {click click' : ClickWork}
    {rest : List ClickWork} (hw : s.work = click :: rest) (hwork : s'.work = click' :: rest)
    (hclick : click'.key = click.key ∧ click'.binary = click.binary)
    (hcache : s'.cache = UsbProxy.edits l s.cache) (hpending : s'.releasePending = s.releasePending)
    (hinflight : s'.releaseInflight = s.releaseInflight) (hkey : s'.releaseKey = s.releaseKey)
    (hmover : s'.mover = s.mover) (hh : ∀ m ∈ h, m ∈ h') : s'.Recorded fenced h' := by
  refine hx.front ha (by simp [hw]) hcache (fun c hc hbinary => ?_) hpending hinflight hkey hmover hh
  rw [hwork] at hc
  rw [hw]
  rcases List.mem_cons.mp hc with rfl | hc
  · exact ⟨click, List.mem_cons_self, hclick.2.symm.trans hbinary, hclick.1.symm⟩
  · exact ⟨c, List.mem_cons_of_mem _ hc, hbinary, rfl⟩

theorem Recorded.finishFront (hx : s.Recorded fenced h) (ha : s.Accounted fenced) (hw : s.work ≠ [])
    (status : ClickProtocol.Status) : (s.finishFront status).Recorded fenced h := by
  have hcache := s.finishFront_edits status
  obtain ⟨cache, sent, scheduled, heq⟩ := s.finishFront_eq status
  rw [heq] at hcache ⊢
  exact hx.front ha hw hcache (fun c hc hb => ⟨c, List.mem_of_mem_tail hc, hb, rfl⟩) rfl rfl rfl rfl
    fun _ hm => hm

theorem Recorded.count (hx : s.Recorded fenced h) (ha : s.Accounted fenced) {click : ClickWork}
    {rest : List ClickWork} (hw : s.work = click :: rest) : (s.count click).Recorded fenced h := by
  have hwork : (s.count click).work = click.counted :: rest :=
    setFront_work hw _
  exact hx.setFront ha hw hwork ⟨rfl, rfl⟩ rfl rfl rfl rfl rfl fun _ hm => hm

theorem Recorded.clickEvent (hx : s.Recorded fenced h) (ha : s.Accounted fenced) (v : WriterEvent) :
    (s.clickEvent v).Recorded fenced h := by
  have hspec := s.clickEvent_spec v
  generalize s.clickEvent v = s' at hspec
  cases hspec with
  | ignored => exact hx
  | press click rest hw =>
    exact hx.setFront ha hw (setFront_work hw _) ⟨rfl, rfl⟩ (edits_nil _).symm rfl rfl rfl rfl
      fun _ hm => hm
  | blocked click rest hw => exact hx.finishFront ha (by simp [hw]) _
  | last click rest hw =>
    have hcount : (s.count click).work = click.counted :: rest := setFront_work hw _
    exact (hx.count ha hw).finishFront (ha.count hw) (by simp [hcount]) _
  | next click rest hw =>
    have hcount : (s.count click).work = click.counted :: rest := setFront_work hw _
    exact (hx.count ha hw).setFront (ha.count hw) hcount (setFront_work hcount _) ⟨rfl, rfl⟩
      (UsbProxy.edits_nil _).symm rfl rfl rfl rfl fun _ hm => hm

/-- The release that was owed is written. -/
theorem Recorded.complete (hx : s.Recorded fenced h) (ha : s.Accounted fenced)
    (hinflight : s.releaseInflight = true) (hh : ∀ m ∈ h, m ∈ h') :
    s.completeRelease.Recorded fenced h' := by
  have hcache := s.completeRelease_edits
  obtain ⟨cache, sent, heq⟩ := s.completeRelease_eq
  rw [heq] at hcache ⊢
  refine hx.edits ha hcache hh (fun click hc hb => ⟨click, hc, hb, rfl⟩) (.inr (.inl rfl)) (.inr rfl)
    (fun hactive => ?_) (fun hi => by cases hi) (fun _ => rfl) hx.keyed
  have hidle := hx.idle_of_pending (hx.inflight hinflight)
  change s.mover.active = true at hactive
  rw [hidle] at hactive
  cases hactive

/-- A control leaves the executor as active as it was. -/
theorem Recorded.control (hx : s.Recorded fenced h) (ha : s.Accounted fenced) (source : Peer)
    (r : MoveProtocol.Request) (prior : CachedCommand) (hh : ∀ m ∈ h, m ∈ h') :
    (s.controlMove source r prior).Recorded fenced h' := by
  have hcache := s.controlMove_edits source r prior
  obtain ⟨m, heq, hm⟩ := s.controlMove_eq source r prior
  rw [heq] at hcache ⊢
  have hfollows : s.mover.Follows m := by
    rcases hm with rfl | rfl | rfl
    · exact .refl _
    · exact s.mover.follows_proceed
    · exact s.mover.follows_cancel
  refine hx.edits ha hcache hh (fun click hc hb => ⟨click, hc, hb, rfl⟩) (.inl rfl) (.inr rfl)
    (fun hactive => ?_) hx.inflight hx.released ?_
  · have hactive0 := hfollows.active hactive
    obtain ⟨h1, h2⟩ := hx.alone hactive0
    refine ⟨hactive0, hfollows.key, h1, h2, fun e he _ hcloses => ?_⟩
    cases List.mem_singleton.mp he
    exact hcloses
  · change m.request.key = m.key
    rw [hfollows.request, hfollows.key]
    exact hx.keyed

theorem Recorded.evict (hx : s.Recorded fenced h) (hh : ∀ m ∈ h, m ∈ h') :
    s.removeOldCache.Recorded fenced h' := by
  have hsub := (evictLoop_sublist s.cache.length s.cache).subset
  exact {
    executed := fun c hc hmove => by
      obtain ⟨r, hr, hkey⟩ := hx.executed c (hsub hc) hmove
      exact ⟨r, hh _ hr, hkey⟩
    clicks := fun c hc => hx.clicks c (hsub hc)
    release := fun c hc => hx.release c (hsub hc)
    running := fun hactive c hc => hx.running hactive c (hsub hc)
    alone := hx.alone
    inflight := hx.inflight
    released := hx.released
    keyed := hx.keyed }

/-- The record of clicks or of a ReleaseAll joins the cache. -/
theorem Recorded.push (hx : s.Recorded none h) {c : CachedCommand}
    (hcache : s'.cache = s.cache ++ [c]) (hfresh : findCache s.cache c.key = none)
    (hmove : c.movement = false) (hopen : c.terminal = false)
    (hwork : ∀ click ∈ s'.work, click.binary = true → click ∈ s.work ∨ click.key = c.key)
    (hfenced : fenced' = none ∨ fenced' = some c.key)
    (halone : s.mover.active = true → s'.work = s.work)
    (hpending : s'.releasePending = s.releasePending)
    (hinflight : s'.releaseInflight = s.releaseInflight) (hkey : s'.releaseKey = s.releaseKey)
    (hmover : s'.mover = s.mover) (hh : ∀ m ∈ h, m ∈ h') : s'.Recorded fenced' h' := by
  have hnew : ∀ c' ∈ s.cache, c'.key ≠ c.key := fun c' hc' heq =>
    findCache_none.mp hfresh (heq ▸ List.mem_map_of_mem hc')
  have hold {c' : CachedCommand} (hc' : c' ∈ s'.cache) (hmove' : c'.movement = true) :
      c' ∈ s.cache := by
    rw [hcache] at hc'
    rcases List.mem_append.mp hc' with hc' | hc'
    · exact hc'
    · rw [List.mem_singleton.mp hc', hmove] at hmove'
      cases hmove'
  exact {
    executed := fun c' hc' hmove' => by
      obtain ⟨r, hr, hrkey⟩ := hx.executed c' (hold hc' hmove') hmove'
      exact ⟨r, hh _ hr, hrkey⟩
    clicks := fun c' hc' hmove' click hclick hbinary => by
      rcases hwork click hclick hbinary with hclick | hclick
      · exact hx.clicks c' (hold hc' hmove') hmove' click hclick hbinary
      · rw [hclick]
        exact (hnew c' (hold hc' hmove')).symm
    release := fun c' hc' hmove' => by
      rw [hkey]
      refine ⟨(hx.release c' (hold hc' hmove') hmove').1, ?_⟩
      rcases hfenced with rfl | rfl
      · simp
      · exact fun heq => hnew c' (hold hc' hmove') (Option.some.inj heq).symm
    running := fun hactive c' hc' hckey => by
      rw [hmover] at hactive hckey
      rw [hcache] at hc'
      rcases List.mem_append.mp hc' with hc' | hc'
      · exact hx.running hactive c' hc' hckey
      · rw [List.mem_singleton.mp hc']
        exact hopen
    alone := fun hactive => by
      rw [hmover] at hactive
      rw [halone hactive, hpending]
      exact hx.alone hactive
    inflight := fun hi => by rw [hpending]; exact hx.inflight (hinflight ▸ hi)
    released := fun hp => by rw [hkey]; exact hx.released (hpending ▸ hp)
    keyed := hmover ▸ hx.keyed }

end Server

/-- **A step keeps what is recorded of transactions.** -/
theorem Step.recorded {x y : Sys} (h : Step x y)
    (hx : x.server.Recorded x.pc.fenced x.world.history) (ha : x.server.Accounted x.pc.fenced)
    (hsound : x.world.Sound) : y.server.Recorded y.pc.fenced y.world.history := by
  have hh : ∀ m ∈ x.world.history, m ∈ y.world.history := by
    obtain ⟨marks, hmarks⟩ := h.history hsound
    rw [hmarks]
    exact fun m hm => List.mem_append_right _ hm
  have hevent {s : Server} {v : WriterEvent} {hist : List Mark} (hs : s.Recorded none hist)
      (hs' : s.Accounted none) :
      (s.moveEvent v).Recorded none hist ∧ (s.moveEvent v).Accounted none :=
    ⟨hs.sync hs' (s.mover.follows_event v), hs'.sync (s.mover.follows_event v)⟩
  cases h with
  | env | differ | recheck | takeEvents | eventsDone | overflowClear | overflowSet | leaseKept
    | scheduleIdle | silent | sample => exact hx.congr ha rfl rfl rfl rfl rfl rfl hh
  | ignore pc s w h | answer pc s w dest p h =>
    obtain rfl | ⟨e, rfl⟩ := h <;> exact hx.congr ha rfl rfl rfl rfl rfl rfl hh
  | prune pc s w now h => exact hx.congr ha rfl rfl rfl rfl rfl rfl hh
  | check s w h =>
    dsimp only at hx ha hh ⊢
    unfold Server.track
    split
    · exact hx.congr ha rfl rfl rfl rfl rfl rfl hh
    · exact hx.congr ha rfl rfl rfl rfl rfl rfl hh
  | resetTop | resetOverflow | resetLease => exact hx.dropped ha hh _ _ _
  | eventFailed v rest s w now1 now2 h =>
    obtain ⟨hs, hs'⟩ := hevent (v := v) hx ha
    exact hs.dropped hs' hh _ _ _
  | eventRelease v rest s w h hdone =>
    obtain ⟨hs, hs'⟩ := hevent (v := v) hx ha
    refine hs.complete hs' ?_ hh
    unfold Server.releaseDone at hdone
    simp only [Bool.and_eq_true] at hdone
    exact hdone.1.1.2
  | eventClick v rest s w h hdone =>
    obtain ⟨hs, hs'⟩ := hevent (v := v) hx ha
    exact hs.clickEvent hs' v
  | tickDone s w e now htime h =>
    have hsync := hx.sync ha (s.mover.follows_tick e now)
    dsimp only
    exact hsync
  | tickEnqueue s w e now args htime h hres =>
    have hsync := hx.sync ha (s.mover.follows_tickEnqueue h (w.result args))
    have hasync := ha.sync (s.mover.follows_tickEnqueue h (w.result args))
    dsimp only
    exact hsync.congr hasync rfl rfl rfl rfl rfl rfl hh
  | tickReset s w e now now1 now2 m h =>
    have hfollows : s.mover.Follows m := by
      rcases h with ⟨-, rfl⟩ | ⟨args, result, htick, -, rfl⟩
      · exact s.mover.follows_tick e now
      · exact s.mover.follows_tickEnqueue htick result
    dsimp only at hx ha hh ⊢
    have hreset : ({ s with mover := m }.syncMove.reset false {} now1 now2
        w.clearGeneration).Recorded none w.cleared.history :=
      (hx.sync ha hfollows).reset (ha.sync hfollows) (fun h => by cases h) hh now1 now2
        w.clearGeneration
    have hareset : ({ s with mover := m }.syncMove.reset false {} now1 now2
        w.clearGeneration).Accounted none :=
      (ha.sync hfollows).reset (.inl rfl) now1 now2 w.clearGeneration
    exact hreset.resync hareset
  | resetSchedule =>
    exact hx.reset ha (fun h => by cases h) hh _ _ _
  | fence => exact hx.reset ha (fun _ => rfl) hh _ _ _
  | enqueueRelease s w hp hi hres =>
    have hidle := hx.idle_of_pending hp
    refine hx.edits ha (edits_nil _).symm hh (fun click hc hb => ⟨click, hc, hb, rfl⟩) (.inl rfl)
      (.inr rfl) (fun hactive => ?_) (fun _ => hp) hx.released hx.keyed
    change s.mover.active = true at hactive
    rw [hidle] at hactive
    cases hactive
  | pressRefused s w click rest hp hw hphase =>
    exact hx.finishFront ha (by simp [hw]) _
  | enqueuePress s w click rest e hp hw hphase hdue he hres =>
    exact hx.setFront ha hw (Server.setFront_work hw _) ⟨rfl, rfl⟩ (edits_nil _).symm rfl rfl rfl rfl
      hh
  | enqueueClickRelease s w click rest hp hw hphase hdue hres =>
    exact hx.setFront ha hw (Server.setFront_work hw _) ⟨rfl, rfl⟩ (edits_nil _).symm rfl rfl rfl rfl
      hh
  | releaseWaits s w click rest hp hw hphase =>
    exact hx.setFront ha hw (Server.setFront_work hw _) ⟨rfl, rfl⟩ (edits_nil _).symm rfl rfl rfl rfl
      hh
  | report s w e now =>
    obtain ⟨_, _, _, _, hs⟩ := s.report_eq now (s.telemetry e)
    rw [hs]
    exact hx.congr ha rfl rfl rfl rfl rfl rfl hh
  | subscribe s w source data now =>
    obtain ⟨_, _, _, hs⟩ := s.subscribe_eq source data now
    rw [hs]
    exact hx.congr ha rfl rfl rfl rfl rfl rfl hh
  | evict s w e => exact hx.evict hh
  | retryMove s w source r prior now hfind hmove hsame =>
    have hcontrol := hx.control ha source r prior hh
    have hacontrol := ha.control source r prior
    obtain ⟨_, hs⟩ := ((s.controlMove source r prior).renew source now).sendCached_eq
      { prior with peer := source } prior.status
    rw [hs]
    exact hcontrol.congr hacontrol rfl rfl rfl rfl rfl rfl fun _ hm => hm
  | startMove s w source r e sessions forgot now t1 t2 t3 hr hfresh hverdict hroom hadmitted =>
    obtain ⟨hwork, hpending⟩ := Server.moveVerdict_alone hverdict
    obtain ⟨_, hs⟩ := s.startMove_eq source r e sessions t1 t2 t3
    rw [hs]
    dsimp only at hx hh ⊢
    have hnew : ∀ c ∈ s.cache, c.key ≠ r.key := fun c hc heq =>
      findCache_none.mp hfresh.1 (heq ▸ List.mem_map_of_mem hc)
    obtain ⟨data, hparse⟩ := hr
    have hsession := (MoveProtocol.parse_some hparse).1
    exact {
      executed := fun c hc hmove => by
        rcases List.mem_append.mp hc with hc | hc
        · obtain ⟨r', hr', hkey⟩ := hx.executed c hc hmove
          exact ⟨r', hh _ hr', hkey⟩
        · rw [List.mem_singleton.mp hc]
          refine ⟨r, ?_, rfl⟩
          exact List.mem_append_left _ (List.mem_append_left _ (by simp [Server.moveMarks]))
      clicks := fun c hc hmove click hclick => by
        rw [hwork] at hclick
        cases hclick
      release := fun c hc hmove => by
        refine ⟨?_, by simp [Pc.fenced]⟩
        rcases List.mem_append.mp hc with hc | hc
        · exact (hx.release c hc hmove).1
        · rw [List.mem_singleton.mp hc, hx.released hpending]
          intro hzero
          exact hsession (congrArg Key.session hzero).symm
      running := fun hactive c hc hkey => by
        rcases List.mem_append.mp hc with hc | hc
        · exact absurd hkey (hnew c hc)
        · rw [List.mem_singleton.mp hc]
      alone := fun _ => ⟨hwork, hpending⟩
      inflight := hx.inflight
      released := hx.released
      keyed := rfl }
  | retryClick s w source r prior now hfind hmove =>
    have hcache := (s.renew source now).repeatClick_edits source prior
    refine hx.edits ha hcache hh (fun click hc hb => ⟨click, hc, hb, rfl⟩) (.inl rfl) (.inr rfl)
      (fun hactive => ?_) hx.inflight hx.released hx.keyed
    obtain ⟨h1, h2⟩ := hx.alone hactive
    refine ⟨hactive, rfl, h1, h2, fun e he _ hcloses => ?_⟩
    cases List.mem_singleton.mp he
    exact hcloses
  | pruneReplay | heartbeat | applySnapshot | refuseReport | asciiReport =>
    exact hx.congr ha rfl rfl rfl rfl rfl rfl hh
  | asciiReset s w source now1 now2 t =>
    have hreset : (s.reset false {} now1 now2 w.clearGeneration).Recorded none w.cleared.history :=
      hx.reset ha (fun h => by cases h) hh now1 now2 w.clearGeneration
    have hareset : (s.reset false {} now1 now2 w.clearGeneration).Accounted none :=
      ha.reset (.inl rfl) now1 now2 w.clearGeneration
    dsimp only
    generalize s.reset false {} now1 now2 w.clearGeneration = s' at hreset hareset
    exact hreset.congr hareset rfl rfl rfl rfl rfl rfl fun _ hm => hm
  | asciiClick s w e source button t t' hready hmover hbutton hheld hroom =>
    refine hx.edits ha (edits_nil _).symm hh (fun click hc hb => ?_) (.inl rfl) (.inr rfl)
      (fun hactive => ?_) hx.inflight hx.released hx.keyed
    · rcases List.mem_append.mp hc with hc | hc
      · exact ⟨click, hc, hb, rfl⟩
      · rw [List.mem_singleton.mp hc] at hb
        cases hb
    · change s.mover.active = true at hactive
      rw [hmover] at hactive
      cases hactive
  | pushClick s w source r e sessions forgot now t1 t2 hr hfresh hverdict hroom hadmitted =>
    obtain ⟨_, hs⟩ := (s.admitted r source r.count sessions).pushClick_eq source r e
      (Server.clickRecord r source r.count) now t1 t2
    rw [hs]
    refine hx.push rfl hfresh.1 rfl rfl (fun click hclick _ => ?_) (.inl rfl) (fun hactive => ?_) rfl
      rfl rfl rfl hh
    · rcases List.mem_append.mp hclick with hclick | hclick
      · exact .inl hclick
      · rw [List.mem_singleton.mp hclick]
        exact .inr rfl
    · rw [Server.scheduleVerdict_idle hverdict] at hactive
      cases hactive
  | recordRelease s w source r e sessions forgot now t hr hfresh hroom hadmitted =>
    obtain ⟨_, hs⟩ := (s.admitted r source 0 sessions).recordRelease_eq source r
      (Server.clickRecord r source 0) now t
    rw [hs]
    exact hx.push rfl hfresh.1 rfl rfl (fun click hclick _ => .inl hclick) (.inr rfl) (fun _ => rfl)
      rfl rfl rfl rfl hh

theorem Server.recorded_start (epoch : ℕ) (peerFilter : Option ℕ) :
    (Config.init epoch peerFilter).server.Recorded none [] where
  executed := by simp [Config.init]
  clicks := by simp [Config.init]
  release := by simp [Config.init]
  running h := by cases h
  alone h := by cases h
  inflight h := by cases h
  released _ := rfl
  keyed := rfl

theorem Config.Reachable.recorded {c : Config} (hc : c.Reachable) :
    c.server.Recorded c.stage.pc.fenced c.world.history ∧ c.server.Accounted c.stage.pc.fenced := by
  have hinv := hc.invariant
    (P := fun x => x.world.Sound ∧ x.server.Recorded x.pc.fenced x.world.history ∧
      x.server.Accounted x.pc.fenced)
    (fun _ _ => ⟨World.Sound.start, Server.recorded_start _ _, Server.accounted_start _ _⟩)
    fun _ _ hstep ⟨hsound, hx, ha⟩ =>
      ⟨(hstep.mixes hsound).sound hsound, hstep.recorded hx ha hsound, hstep.accounted ha⟩
  exact hinv.2

/-- **The records of transactions.**  Each is of a request that was executed, an open one is of the
transaction that runs, and while that runs its record is open and nothing else is to be done. -/
theorem transactions_recorded {c : Config} (hc : c.Reachable) :
    (∀ r ∈ c.server.cache, r.movement = true →
      (∃ request, .executed request ∈ c.world.history ∧ request.key = r.key) ∧
        (r.terminal = false → c.server.mover.active = true ∧ c.server.mover.key = r.key)) ∧
    (c.server.mover.active = true → c.server.work = [] ∧ c.server.releasePending = false ∧
      ∀ r ∈ c.server.cache, r.key = c.server.mover.key → r.terminal = false) := by
  obtain ⟨hx, ha⟩ := hc.recorded
  refine ⟨fun r hr hmove => ⟨hx.executed r hr hmove, hx.open_running ha hr hmove⟩, fun hactive => ?_⟩
  obtain ⟨hwork, hrelease⟩ := hx.alone hactive
  exact ⟨hwork, hrelease, hx.running hactive⟩

/-- A transaction was admitted. -/
def executing : Config := (Config.init 1 none).run
  (Action.mouse ++ Action.iteration (some (.upm ⟨1, 5000⟩
    { session := 1, command := 1, epoch := 1, generation := 1, dx := 5 })))

theorem transactions_recorded_executing :
    executing.server.mover.active = true ∧ executing.server.work = [] ∧
      (∃ r ∈ executing.server.cache, r.movement = true ∧ r.terminal = false) ∧
      ∀ r ∈ executing.server.cache, r.key = ⟨1, 1⟩ → r.terminal = false := by
  have hactive : executing.server.mover.active = true := by decide +kernel
  have hopen : executing.server.cache.any (fun r => r.movement && !r.terminal) = true := by
    decide +kernel
  have hkey : executing.server.mover.key = ⟨1, 1⟩ := by decide +kernel
  obtain ⟨r, hr, hrecord⟩ := List.any_eq_true.mp hopen
  rw [Bool.and_eq_true, Bool.not_eq_true'] at hrecord
  obtain ⟨hwork, -, hrunning⟩ := (transactions_recorded ⟨1, none, _, rfl⟩).2 hactive
  exact ⟨hactive, hwork, ⟨r, hr, hrecord⟩, fun r hr h => hrunning r hr (h.trans hkey.symm)⟩

end UsbProxy
