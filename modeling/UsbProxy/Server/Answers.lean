import UsbProxy.Server.Accounts

/-!
# What a retry is answered

A record in the cache never answers like a refusal: a transaction has left its idle stage, and a
click or a ReleaseAll that accepted no clicks is accepted, completed or cancelled.
-/

namespace UsbProxy

open ClickProtocol (Status)

/-- The status of a command that did not fail. -/
def ClickProtocol.Status.Fair (s : Status) : Prop := s = .accepted ∨ s = .completed ∨ s = .cancelled

/-- The record is of a transaction or of clicks. -/
def CachedCommand.Counts (c : CachedCommand) : Prop := c.movement = true ∨ c.accepted ≠ 0

/-- The answers of a record. -/
structure CachedCommand.Answers (c : CachedCommand) : Prop where
  stage : c.movement = true → c.moveAck.stage ≠ .idle
  status : c.Counts ∨ c.status.Fair

structure Server.Answers (s : Server) (fenced : Option Key) : Prop where
  mover : s.mover.ack.session ≠ 0 → s.mover.ack.stage ≠ .idle
  cache : ∀ c ∈ s.cache, c.Answers
  work : fenced = none → ∀ click ∈ s.work, click.binary = true →
    ∀ c ∈ s.cache, c.key = click.key → c.Counts

/-- An edit that keeps the answers of the records it is for: a click that failed is of a record
that counts. -/
def Edit.Fair (counts : Key → Prop) : Edit → Prop
  | .finish key status => status.Fair ∨ counts key
  | .sync _ ack => ack.stage ≠ .idle
  | .count _ _ | .readdress _ _ => True

namespace Server

variable {s s' : Server} {fenced fenced' : Option Key} {l : List Edit}

theorem Answers.edits (h : s.Answers fenced) (hkeys : (cacheKeys s.cache).Nodup)
    (hcache : s'.cache = edits l s.cache)
    (hmover : s'.mover.ack.session ≠ 0 → s'.mover.ack.stage ≠ .idle)
    (hl : ∀ e ∈ l, e.Fair fun key => ∀ c ∈ s.cache, c.key = key → c.Counts)
    (hwork : fenced' = none → ∀ click ∈ s'.work, click.binary = true →
      ∀ c ∈ s.cache, c.key = click.key → c.Counts) : s'.Answers fenced' := by
  -- the edits keep what a record counts, so a failed click finds a record that counts
  have hall : ∀ c ∈ s'.cache, c.Answers ∧ ∃ c0 ∈ s.cache, c0.key = c.key ∧
      (c0.Counts → c.Counts) ∧ (c.Counts → c0.Counts) := by
    rw [hcache]
    refine edits_forall (P := fun c => c.Answers ∧ ∃ c0 ∈ s.cache, c0.key = c.key ∧
      (c0.Counts → c.Counts) ∧ (c.Counts → c0.Counts)) hkeys
      (fun c hc => ⟨h.cache c hc, c, hc, rfl, id, id⟩) fun e he c hkey hc => ?_
    obtain ⟨⟨hstage, hstatus⟩, c0, hc0, hkey0, hcounts, hcounts'⟩ := hc
    have hfair := hl e he
    refine ⟨?_, c0, hc0, hkey0.trans (e.apply_key c).symm, ?_⟩
    · cases e with
      | finish key status =>
        refine ⟨hstage, ?_⟩
        rcases hfair with hfair | hfair
        · exact .inr hfair
        · exact .inl (hcounts (hfair c0 hc0 (hkey0.trans hkey)))
      | sync key ack => exact ⟨fun _ => hfair, hstatus⟩
      | count | readdress => exact ⟨hstage, hstatus⟩
    · cases e <;> exact ⟨hcounts, hcounts'⟩
  refine ⟨hmover, fun c hc => (hall c hc).1, fun hf click hclick hbinary c hc hkey => ?_⟩
  obtain ⟨-, c0, hc0, hkey0, hcounts, -⟩ := hall c hc
  exact hcounts (hwork hf click hclick hbinary c0 hc0 (hkey0.trans hkey))

theorem Answers.congr (h : s.Answers fenced) (hcache : s'.cache = s.cache)
    (hwork : s'.work = s.work) (hmover : s'.mover = s.mover) : s'.Answers fenced :=
  ⟨hmover ▸ h.mover, hcache ▸ h.cache, by rw [hcache, hwork]; exact h.work⟩

theorem syncEdits_fair {m : MoveExecutor} (hm : m.ack.session ≠ 0 → m.ack.stage ≠ .idle)
    {counts : Key → Prop} : ∀ e ∈ syncEdits m, e.Fair counts := by
  intro e he
  unfold syncEdits at he
  split at he
  · cases he
  · rename_i hsession
    cases List.mem_singleton.mp he
    exact hm hsession

theorem finishEdits_fair {status : Status} {work : List ClickWork} {counts : Key → Prop}
    (h : status.Fair ∨ ∀ click ∈ work, click.binary = true → counts click.key) :
    ∀ e ∈ finishEdits status work, e.Fair counts := by
  intro e he
  obtain ⟨click, hclick, rfl⟩ := List.mem_map.mp he
  obtain ⟨hmem, hbinary⟩ := List.mem_filter.mp hclick
  exact h.imp_right fun h => h click hmem hbinary

theorem Answers.staged (h : s.Answers fenced) {m : MoveExecutor} (hm : s.mover.Follows m) :
    m.ack.session ≠ 0 → m.ack.stage ≠ .idle := fun hsession =>
  hm.stage (h.mover (hm.session ▸ hsession))

theorem Answers.sync (h : s.Answers fenced) (hkeys : (cacheKeys s.cache).Nodup) {m : MoveExecutor}
    (hm : s.mover.Follows m) : ({ s with mover := m }.syncMove).Answers fenced := by
  have hcache := syncMove_edits { s with mover := m }
  obtain ⟨cache, sent, heq⟩ := syncMove_eq { s with mover := m }
  rw [heq] at hcache ⊢
  exact h.edits hkeys hcache (h.staged hm) (syncEdits_fair (h.staged hm)) h.work

theorem Answers.resync (h : s.Answers fenced) (hkeys : (cacheKeys s.cache).Nodup) :
    s.syncMove.Answers fenced := h.sync hkeys (.refl _)

theorem Answers.reset (h : s.Answers fenced) (hkeys : (cacheKeys s.cache).Nodup)
    (attachRelease : Bool) (key : Key) (now1 now2 generation : ℕ) :
    (s.reset attachRelease key now1 now2 generation).Answers none := by
  have hcache := s.reset_edits attachRelease key now1 now2 generation
  obtain ⟨cache, sent, heq⟩ := s.reset_eq attachRelease key now1 now2 generation
  rw [heq] at hcache ⊢
  have hstaged := h.staged (s.mover.follows_stop .cancelled now1)
  refine h.edits hkeys hcache hstaged (fun e he => ?_) fun _ click hclick => by cases hclick
  unfold resetEdits at he
  simp only [List.mem_append] at he
  rcases he with ((he | he) | he) | he
  · exact syncEdits_fair hstaged e he
  · unfold replaceEdits at he
    split at he
    · cases List.mem_singleton.mp he
      exact .inl (.inr (.inr rfl))
    · cases he
  · exact syncEdits_fair hstaged e he
  · exact finishEdits_fair (.inl (.inr (.inr rfl))) e he

theorem Answers.disown (h : s.Answers fenced) : { s with owned := false }.Answers fenced :=
  h.congr rfl rfl rfl

theorem Answers.dropped (h : s.Answers fenced) (hkeys : (cacheKeys s.cache).Nodup)
    (now1 now2 generation : ℕ) : (s.dropped now1 now2 generation).Answers none :=
  (h.reset hkeys false {} now1 now2 generation).disown

theorem Answers.complete (h : s.Answers fenced) (hkeys : (cacheKeys s.cache).Nodup) :
    s.completeRelease.Answers fenced := by
  have hcache := s.completeRelease_edits
  obtain ⟨cache, sent, heq⟩ := s.completeRelease_eq
  rw [heq] at hcache ⊢
  refine h.edits hkeys hcache h.mover (fun e he => ?_) h.work
  unfold completeEdits at he
  split at he
  · cases List.mem_singleton.mp he
    exact .inl (.inr (.inl rfl))
  · cases he

theorem Answers.finishFront (h : s.Answers none) (hkeys : (cacheKeys s.cache).Nodup)
    (status : Status) : (s.finishFront status).Answers none := by
  have hcache := s.finishFront_edits status
  obtain ⟨cache, sent, scheduled, heq⟩ := s.finishFront_eq status
  rw [heq] at hcache ⊢
  refine h.edits hkeys hcache h.mover (finishEdits_fair (.inr fun click hclick hbinary => ?_))
    fun hf click hclick => h.work hf click (List.mem_of_mem_tail hclick)
  exact h.work rfl click (List.mem_of_mem_take hclick) hbinary

/-- The front click goes on under its key. -/
theorem Answers.front (h : s.Answers fenced) (hkeys : (cacheKeys s.cache).Nodup)
    {click click' : ClickWork} {rest : List ClickWork} (hw : s.work = click :: rest)
    (hwork : s'.work = click' :: rest) (hkey : click'.key = click.key)
    (hbinary : click'.binary = click.binary) (hcache : s'.cache = UsbProxy.edits l s.cache)
    (hl : ∀ e ∈ l, e.Fair fun _ => False) (hmover : s'.mover = s.mover) : s'.Answers fenced := by
  refine h.edits hkeys hcache (hmover ▸ h.mover) (fun e he => ?_) fun hf c hc hcbinary => ?_
  · have hfair := hl e he
    cases e with
    | finish key status => exact .inl (hfair.resolve_right id)
    | sync | count | readdress => exact hfair
  · have hold := h.work hf
    rw [hw] at hold
    rw [hwork] at hc
    rcases List.mem_cons.mp hc with rfl | hc
    · rw [hkey]
      exact hold click List.mem_cons_self (hbinary ▸ hcbinary)
    · exact hold c (List.mem_cons_of_mem _ hc) hcbinary

theorem Answers.count (h : s.Answers fenced) (hkeys : (cacheKeys s.cache).Nodup) {click : ClickWork}
    {rest : List ClickWork} (hw : s.work = click :: rest) : (s.count click).Answers fenced :=
  h.front hkeys hw (setFront_work hw _) rfl rfl rfl (by simp [Edit.Fair]) rfl

theorem Answers.clickEvent (h : s.Answers none) (hkeys : (cacheKeys s.cache).Nodup)
    (v : WriterEvent) : (s.clickEvent v).Answers none := by
  have hspec := s.clickEvent_spec v
  generalize s.clickEvent v = s' at hspec ⊢
  have hcounted (click : ClickWork) : (cacheKeys (s.count click).cache).Nodup :=
    (edits_keys [.count click.key click.counted.index] s.cache).symm ▸ hkeys
  cases hspec with
  | ignored => exact h
  | press click rest hw hexpects hkind hphase =>
    exact h.front hkeys hw (setFront_work hw _) rfl rfl (UsbProxy.edits_nil _).symm (by simp) rfl
  | blocked => exact h.finishFront hkeys _
  | last click rest hw => exact (h.count hkeys hw).finishFront (hcounted click) _
  | next click rest hw =>
    have hcount : (s.count click).work = click.counted :: rest := setFront_work hw _
    exact (h.count hkeys hw).front (hcounted click) hcount (setFront_work hcount _) rfl rfl
      (UsbProxy.edits_nil _).symm (by simp) rfl

theorem Answers.control (h : s.Answers fenced) (hkeys : (cacheKeys s.cache).Nodup) (source : Peer)
    (r : MoveProtocol.Request) (prior : CachedCommand) :
    (s.controlMove source r prior).Answers fenced := by
  have hcache := s.controlMove_edits source r prior
  obtain ⟨m, heq, hm⟩ := s.controlMove_eq source r prior
  rw [heq] at hcache ⊢
  have hfollows : s.mover.Follows m := by
    rcases hm with rfl | rfl | rfl
    · exact .refl _
    · exact s.mover.follows_proceed
    · exact s.mover.follows_cancel
  exact h.edits hkeys hcache (h.staged hfollows) (by simp [Edit.Fair]) h.work

/-- A record joins the cache. -/
theorem Answers.push (h : s.Answers none) {c : CachedCommand} (hcache : s'.cache = s.cache ++ [c])
    (hmover : s'.mover.ack.session ≠ 0 → s'.mover.ack.stage ≠ .idle) (hc : c.Answers)
    (hwork : fenced' = none → c.Counts ∧ ∀ click ∈ s'.work, click.binary = true →
      click ∈ s.work ∨ findCache s.cache click.key = none) : s'.Answers fenced' where
  mover := hmover
  cache c' hc' := by
    rw [hcache] at hc'
    rcases List.mem_append.mp hc' with hc' | hc'
    · exact h.cache c' hc'
    · rwa [List.mem_singleton.mp hc']
  work hf click hclick hbinary c' hc' hkey := by
    obtain ⟨hcounts, hnew⟩ := hwork hf
    rw [hcache] at hc'
    rcases List.mem_append.mp hc' with hc' | hc'
    · rcases hnew click hclick hbinary with hold | hfresh
      · exact h.work rfl click hold hbinary c' hc' hkey
      · exact absurd (hkey ▸ List.mem_map_of_mem hc') (findCache_none.mp hfresh)
    · rwa [List.mem_singleton.mp hc']

theorem Answers.evict (h : s.Answers fenced) : s.removeOldCache.Answers fenced := by
  have hsub := (evictLoop_sublist s.cache.length s.cache).subset
  exact ⟨h.mover, fun c hc => h.cache c (hsub hc), fun hf click hclick hbinary c hc =>
    h.work hf click hclick hbinary c (hsub hc)⟩

/-! ### Verdicts -/

theorem scheduleVerdict_count {e : EndpointSnapshot} {r : ClickProtocol.Request}
    (h : s.scheduleVerdict e r = none) : r.count ≠ 0 := by
  unfold scheduleVerdict at h
  split_ifs at h with _ _ _ hinvalid
  rw [not_or] at hinvalid
  exact hinvalid.1

end Server

/-- **A step keeps the answers.** -/
theorem Step.answers {x y : Sys} (h : Step x y) (hx : x.server.Answers x.pc.fenced)
    (hkeys : (cacheKeys x.server.cache).Nodup) : y.server.Answers y.pc.fenced := by
  have hevent {s : Server} {v : WriterEvent} (hs : s.Answers none)
      (hkeys : (cacheKeys s.cache).Nodup) :
      (s.moveEvent v).Answers none ∧ (cacheKeys (s.moveEvent v).cache).Nodup := by
    refine ⟨hs.sync hkeys (s.mover.follows_event v), ?_⟩
    rw [Server.moveEvent_edits, edits_keys]
    exact hkeys
  cases h with
  | env | differ | recheck | takeEvents | eventsDone | overflowClear | overflowSet | leaseKept
    | scheduleIdle | enqueueRelease | silent | sample => exact hx.congr rfl rfl rfl
  | ignore pc s w h | answer pc s w dest p h =>
    obtain rfl | ⟨e, rfl⟩ := h <;> exact hx.congr rfl rfl rfl
  | prune pc s w now h => exact hx.congr rfl rfl rfl
  | check s w h =>
    dsimp only at hx ⊢
    unfold Server.track
    split
    · exact hx.congr rfl rfl rfl
    · exact hx
  | resetTop | resetOverflow | resetLease => exact hx.dropped hkeys _ _ _
  | eventFailed v rest s w now1 now2 h =>
    obtain ⟨hs, hk⟩ := hevent (v := v) hx hkeys
    exact hs.dropped hk _ _ _
  | eventRelease v rest s w h hdone =>
    obtain ⟨hs, hk⟩ := hevent (v := v) hx hkeys
    exact hs.complete hk
  | eventClick v rest s w h hdone =>
    obtain ⟨hs, hk⟩ := hevent (v := v) hx hkeys
    exact hs.clickEvent hk v
  | tickDone s w e now htime h =>
    have hsync := hx.sync hkeys (s.mover.follows_tick e now)
    dsimp only
    exact hsync
  | tickEnqueue s w e now args htime h hres =>
    have hsync := hx.sync hkeys (s.mover.follows_tickEnqueue h (w.result args))
    dsimp only
    exact hsync
  | tickReset s w e now now1 now2 m h =>
    have hfollows : s.mover.Follows m := by
      rcases h with ⟨-, rfl⟩ | ⟨args, result, htick, -, rfl⟩
      · exact s.mover.follows_tick e now
      · exact s.mover.follows_tickEnqueue htick result
    dsimp only at hx hkeys ⊢
    have hsync := hx.sync hkeys hfollows
    have hk : (cacheKeys ({ s with mover := m }.syncMove).cache).Nodup := by
      rw [Server.syncMove_edits, edits_keys]
      exact hkeys
    have hk' : (cacheKeys (({ s with mover := m }.syncMove).reset false {} now1 now2
        w.clearGeneration).cache).Nodup := by
      rw [Server.reset_edits, edits_keys]
      exact hk
    exact (hsync.reset hk false {} now1 now2 w.clearGeneration).resync hk'
  | resetSchedule => exact hx.reset hkeys _ _ _ _ _
  | fence => exact hx.reset hkeys _ _ _ _ _
  | pressRefused => exact hx.finishFront hkeys _
  | enqueuePress s w click rest e hp hw hphase hdue he hres =>
    exact hx.front hkeys hw (Server.setFront_work hw _) rfl rfl (edits_nil _).symm (by simp) rfl
  | enqueueClickRelease s w click rest hp hw hphase hdue hres =>
    exact hx.front hkeys hw (Server.setFront_work hw _) rfl rfl (edits_nil _).symm (by simp) rfl
  | releaseWaits s w click rest hp hw hphase =>
    exact hx.front hkeys hw (Server.setFront_work hw _) rfl rfl (edits_nil _).symm (by simp) rfl
  | report s w e now =>
    obtain ⟨_, _, _, _, hs⟩ := s.report_eq now (s.telemetry e)
    rw [hs]
    exact hx.congr rfl rfl rfl
  | subscribe s w source data now =>
    obtain ⟨_, _, _, hs⟩ := s.subscribe_eq source data now
    rw [hs]
    exact hx.congr rfl rfl rfl
  | evict s w e => exact hx.evict
  | retryMove s w source r prior now hfind hmove hsame =>
    have hcontrol := hx.control hkeys source r prior
    obtain ⟨_, hs⟩ := ((s.controlMove source r prior).renew source now).sendCached_eq
      { prior with peer := source } prior.status
    rw [hs]
    exact hcontrol.congr rfl rfl rfl
  | startMove s w source r e sessions forgot now t1 t2 t3 hr hfresh hverdict hroom hadmitted =>
    obtain ⟨_, hs⟩ := s.startMove_eq source r e sessions t1 t2 t3
    rw [hs]
    refine hx.push rfl (fun _ => by simp [MoveExecutor.start])
      ⟨fun _ => by simp [MoveExecutor.start], .inl (.inl rfl)⟩ fun _ =>
        ⟨.inl rfl, fun click hclick _ => .inl hclick⟩
  | retryClick s w source r prior now hfind hmove =>
    have hcache := (s.renew source now).repeatClick_edits source prior
    exact hx.edits hkeys hcache hx.mover (by simp [Edit.Fair]) hx.work
  | pruneReplay | heartbeat | applySnapshot | refuseReport | asciiReport =>
    exact hx.congr rfl rfl rfl
  | asciiReset s w source now1 now2 t =>
    have hreset : (s.reset false {} now1 now2 w.clearGeneration).Answers none :=
      hx.reset hkeys false {} now1 now2 w.clearGeneration
    dsimp only
    generalize s.reset false {} now1 now2 w.clearGeneration = s' at hreset
    exact hreset.congr rfl rfl rfl
  | asciiClick s w e source button t t' hready hmover hbutton hheld hroom =>
    refine hx.edits hkeys (edits_nil _).symm hx.mover (by simp) fun hf click hclick hbinary => ?_
    rcases List.mem_append.mp hclick with hclick | hclick
    · exact hx.work hf click hclick hbinary
    · rw [List.mem_singleton.mp hclick] at hbinary
      cases hbinary
  | pushClick s w source r e sessions forgot now t1 t2 hr hfresh hverdict hroom hadmitted =>
    obtain ⟨_, hs⟩ := (s.admitted r source r.count sessions).pushClick_eq source r e
      (Server.clickRecord r source r.count) now t1 t2
    rw [hs]
    have hcounts : (Server.clickRecord r source r.count).Counts :=
      .inr (Server.scheduleVerdict_count hverdict)
    refine hx.push rfl hx.mover ⟨fun h => (by cases h), .inl hcounts⟩ fun _ =>
      ⟨hcounts, fun click hclick _ => ?_⟩
    rcases List.mem_append.mp hclick with hclick | hclick
    · exact .inl hclick
    · rw [List.mem_singleton.mp hclick]
      exact .inr hfresh.1
  | recordRelease s w source r e sessions forgot now t hr hfresh hroom hadmitted =>
    obtain ⟨_, hs⟩ := (s.admitted r source 0 sessions).recordRelease_eq source r
      (Server.clickRecord r source 0) now t
    rw [hs]
    exact hx.push rfl hx.mover ⟨fun h => (by cases h), .inr (.inl rfl)⟩ fun h => by cases h

theorem Config.Reachable.answers {c : Config} (hc : c.Reachable) :
    c.server.Answers c.stage.pc.fenced := by
  have hinv := hc.invariant
    (P := fun x => x.server.Answers x.pc.fenced ∧ x.server.Accounted x.pc.fenced)
    (fun _ _ => ⟨⟨fun h => absurd rfl h, by simp [Config.init, Config.sys],
      by simp [Config.init, Config.sys]⟩, Server.accounted_start _ _⟩)
    fun _ _ hstep hx => ⟨hstep.answers hx.1 hx.2.keys, hstep.accounted hx.2⟩
  exact hinv.1

/-- **A retry is not answered like a refusal.**  A refused UPM1 is answered in the idle stage and a
refused UPC1 with no clicks and the reason it failed for; a record gives no such answer. -/
theorem retries_told {c : Config} (hc : c.Reachable) (source : Peer) : ∀ r ∈ c.server.cache,
    (r.movement = true → ∃ ack : MoveProtocol.Ack, ack.stage ≠ .idle ∧
      (c.server.sendCached { r with peer := source } r.status).sent =
        (source, .upr ack) :: c.server.sent) ∧
    (r.movement = false → ∃ ack : ClickProtocol.Ack,
      (ack.accepted ≠ 0 ∨ ack.status.Fair ∨ ack.status = .duplicate) ∧
        (c.server.repeatClick source r).sent = (source, .upa ack) :: c.server.sent) := by
  intro r hr
  obtain ⟨hstage, hstatus⟩ := hc.answers.cache r hr
  refine ⟨fun hmove => ⟨r.moveAck, hstage hmove, ?_⟩, fun hclick => ⟨_, ?_, rfl⟩⟩
  · unfold Server.sendCached
    rw [if_pos hmove]
    rfl
  · dsimp only
    rcases hstatus with (hmove | hcount) | hfair
    · rw [hclick] at hmove
      cases hmove
    · exact .inl hcount
    · by_cases hterminal : r.terminal = true
      · rw [if_pos hterminal]
        exact .inr (.inl hfair)
      · rw [if_neg hterminal]
        exact .inr (.inr rfl)

/-- A click was scheduled while the mouse was at rest. -/
def scheduled : Config := (Config.init 1 none).run
  (Action.mouse ++ Action.iteration
    (some ⟨⟨1, 1⟩, ClickProtocol.request .schedule 7 1 1 3 1000 10000 1⟩))

theorem retries_told_scheduled : ∃ ack : ClickProtocol.Ack,
    (ack.accepted ≠ 0 ∨ ack.status.Fair ∨ ack.status = .duplicate) ∧
      ∃ r ∈ scheduled.server.cache, r.key = ⟨7, 1⟩ ∧
        (scheduled.server.repeatClick ⟨1, 1⟩ r).sent = (⟨1, 1⟩, .upa ack) :: scheduled.server.sent := by
  have hrecord : scheduled.server.cache.any
      (fun r => r.key == ⟨7, 1⟩ && !r.movement) = true := by decide +kernel
  obtain ⟨r, hr, hsame⟩ := List.any_eq_true.mp hrecord
  rw [Bool.and_eq_true, Bool.not_eq_true'] at hsame
  obtain ⟨ack, hack, hsent⟩ := (retries_told ⟨1, none, _, rfl⟩ ⟨1, 1⟩ r hr).2 hsame.2
  exact ⟨ack, hack, r, hr, eq_of_beq hsame.1, hsent⟩

end UsbProxy
