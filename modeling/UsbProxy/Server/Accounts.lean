import UsbProxy.Server.Records
import UsbProxy.Server.Transaction

/-!
# Open records

A record is open until it is terminal.  Every open record is of a click in the queue, of the
ReleaseAll still owed or of the running transaction, so at most 66 are open at once and
`remove_old_cache` always makes room.
-/

namespace UsbProxy

/-- The key is of work the server still has to do. -/
def Server.Pending (s : Server) (key : Key) : Prop :=
  (∃ click ∈ s.work, click.binary = true ∧ click.key = key) ∨
    (s.releasePending = true ∧ s.releaseKey = key) ∨ (s.mover.active = true ∧ s.mover.key = key)

/-- The key of an accepted ReleaseAll before its reset. -/
def Pc.fenced : Pc → Option Key
  | .fencing key => some key
  | _ => none

/-- The cache and the work of the server, with the key of a ReleaseAll between its record and its
reset. -/
structure Server.Accounted (s : Server) (fenced : Option Key) : Prop where
  keys : (cacheKeys s.cache).Nodup
  session : ∀ c ∈ s.cache, c.key.session ≠ 0
  room : s.cache.length ≤ maxCacheRecords
  work : s.work.length ≤ maxClickCommands
  mover : s.mover.active = true → s.mover.ack.session ≠ 0
  live : ∀ c ∈ s.cache, c.terminal = false → s.Pending c.key ∨ fenced = some c.key

namespace Server

variable {s s' : Server} {fenced fenced' : Option Key} {l : List Edit}

/-! ### Edits of the executor -/

theorem syncEdits_opens {m : MoveExecutor} {e : Edit} (he : e ∈ syncEdits m) (hopens : e.Opens) :
    m.active = true ∧ e.key = m.key := by
  unfold syncEdits at he
  split at he
  · cases he
  · cases List.mem_singleton.mp he
    exact ⟨m.active_iff.mpr hopens, rfl⟩

theorem syncEdits_closes {m : MoveExecutor} (hsession : m.ack.session ≠ 0)
    (hinactive : m.active = false) : ∃ e ∈ syncEdits m, e.key = m.key ∧ e.Closes := by
  refine ⟨.sync m.key m.ack, ?_, rfl, m.inactive_iff.mp hinactive⟩
  rw [syncEdits, if_neg hsession]
  exact List.mem_singleton_self _

theorem finishEdits_closes (status : ClickProtocol.Status) {work : List ClickWork}
    {click : ClickWork} (h : click ∈ work) (hbinary : click.binary = true) :
    ∃ e ∈ finishEdits status work, e.key = click.key ∧ e.Closes :=
  ⟨_, List.mem_map_of_mem (List.mem_filter.mpr ⟨h, hbinary⟩), rfl, trivial⟩

theorem finishEdits_opens {status : ClickProtocol.Status} {work : List ClickWork} {e : Edit}
    (h : e ∈ finishEdits status work) : ¬ e.Opens := by
  obtain ⟨_, -, rfl⟩ := List.mem_map.mp h
  exact id

/-! ### Verdicts -/

theorem moveVerdict_inactive {e : EndpointSnapshot} {r : MoveProtocol.Request}
    (h : s.moveVerdict e r = none) : s.mover.active = false := by
  rw [← Bool.not_eq_true]
  intro hactive
  unfold moveVerdict at h
  split at h
  · cases h
  · split at h
    · cases h
    · rw [if_pos (.inl hactive)] at h
      cases h

theorem moveVerdict_alone {e : EndpointSnapshot} {r : MoveProtocol.Request}
    (h : s.moveVerdict e r = none) : s.work = [] ∧ s.releasePending = false := by
  unfold moveVerdict at h
  generalize (if r.button ≠ 0 then e.physical &&& buttonBit r.button else e.physical) = held at h
  split_ifs at h with _ _ hbusy
  simp only [not_or, not_not, Bool.not_eq_true] at hbusy
  exact ⟨hbusy.2.1, hbusy.2.2.1⟩

theorem scheduleVerdict_room {e : EndpointSnapshot} {r : ClickProtocol.Request}
    (h : s.scheduleVerdict e r = none) : s.work.length < maxClickCommands := by
  unfold scheduleVerdict at h
  split_ifs at h with _ _ _ _ _ hroom
  exact Nat.not_le.mp hroom

theorem setFront_work {click : ClickWork} {rest : List ClickWork} (hw : s.work = click :: rest)
    (click' : ClickWork) : (s.setFront click').work = click' :: rest := by
  rw [setFront, hw]
  rfl

/-! ### What keeps the accounts -/

/-- Edits keep the accounts when every open key they do not close stays pending. -/
theorem Accounted.edits (h : s.Accounted fenced) (hcache : s'.cache = edits l s.cache)
    (hwork : s'.work.length ≤ maxClickCommands)
    (hmover : s'.mover.active = true → s'.mover.ack.session ≠ 0)
    (hopens : ∀ e ∈ l, e.Opens → s'.Pending e.key ∨ fenced' = some e.key)
    (hlive : ∀ key : Key, key.session ≠ 0 → (s.Pending key ∨ fenced = some key) →
      (∀ e ∈ l, e.key = key → ¬ e.Closes) → s'.Pending key ∨ fenced' = some key) :
    s'.Accounted fenced' where
  keys := by rw [hcache, edits_keys]; exact h.keys
  session c hc := by
    rw [hcache] at hc
    have hmem : c.key ∈ cacheKeys (UsbProxy.edits l s.cache) := List.mem_map_of_mem hc
    rw [edits_keys] at hmem
    obtain ⟨c', hc', heq⟩ := List.mem_map.mp hmem
    exact heq ▸ h.session c' hc'
  room := by rw [hcache, edits_length]; exact h.room
  work := hwork
  mover := hmover
  live c hc hclive := by
    by_cases hopen : ∃ e ∈ l, e.key = c.key ∧ e.Opens
    · obtain ⟨e, he, hkey, heopens⟩ := hopen
      exact hkey ▸ hopens e he heopens
    · have hnone : ∀ e ∈ l, e.key = c.key → ¬ e.Opens := fun e he hkey heopens =>
        hopen ⟨e, he, hkey, heopens⟩
      rw [hcache] at hc
      obtain ⟨⟨c', hc', hkey, hlive'⟩, hcloses⟩ := edits_live h.keys hc hclive hnone
      have hsession := h.session c' hc'
      have hpending := h.live c' hc' hlive'
      rw [hkey] at hsession hpending
      exact hlive c.key hsession hpending hcloses

/-- Steps that leave the cache and the work alone keep the accounts. -/
theorem Accounted.congr (h : s.Accounted fenced) (hcache : s'.cache = s.cache)
    (hwork : s'.work = s.work) (hmover : s'.mover = s.mover)
    (hpending : s'.releasePending = s.releasePending) (hkey : s'.releaseKey = s.releaseKey) :
    s'.Accounted fenced :=
  h.edits (l := []) hcache (hwork ▸ h.work) (hmover ▸ h.mover) (by simp) fun key _ hp _ => by
    unfold Pending at hp ⊢
    rwa [hwork, hmover, hpending, hkey]

/-- The executor goes on, and `sync_move` follows it. -/
theorem Accounted.sync (h : s.Accounted fenced) {m : MoveExecutor} (hm : s.mover.Follows m) :
    ({ s with mover := m }.syncMove).Accounted fenced := by
  have hcache := syncMove_edits { s with mover := m }
  obtain ⟨cache, sent, heq⟩ := syncMove_eq { s with mover := m }
  rw [heq] at hcache ⊢
  have hsession : m.active = true → m.ack.session ≠ 0 := fun hactive =>
    hm.session ▸ h.mover (hm.active hactive)
  refine h.edits hcache h.work hsession (fun e he hopens => ?_) fun key _ hp hcloses => ?_
  · obtain ⟨hactive, hkey⟩ := syncEdits_opens he hopens
    exact .inl (.inr (.inr ⟨hactive, hkey.symm⟩))
  · rcases hp with (hwork | hrelease | ⟨hactive, hkey⟩) | hfenced
    · exact .inl (.inl hwork)
    · exact .inl (.inr (.inl hrelease))
    · cases hm' : m.active with
      | true => exact .inl (.inr (.inr ⟨hm', hm.key.trans hkey⟩))
      | false =>
        have hne : m.ack.session ≠ 0 := hm.session ▸ h.mover hactive
        obtain ⟨e, he, hekey, heclosed⟩ := syncEdits_closes hne hm'
        exact absurd heclosed (hcloses e he (hekey.trans (hm.key.trans hkey)))
    · exact .inr hfenced

theorem Accounted.resync (h : s.Accounted fenced) : s.syncMove.Accounted fenced :=
  h.sync (.refl _)

/-- What `begin_reset` leaves open: the ReleaseAll owed. -/
theorem Accounted.reset (h : s.Accounted fenced) {attachRelease : Bool} {key : Key}
    (hfenced : fenced = none ∨ attachRelease = true ∧ fenced = some key)
    (now1 now2 generation : ℕ) :
    (s.reset attachRelease key now1 now2 generation).Accounted none := by
  have hcache := s.reset_edits attachRelease key now1 now2 generation
  obtain ⟨cache, sent, heq⟩ := s.reset_eq attachRelease key now1 now2 generation
  rw [heq] at hcache ⊢
  have hstopped : (s.mover.stop .cancelled now1).active = false :=
    MoveExecutor.stop_active _ _ rfl
  have hsync : ∀ e ∈ syncEdits (s.mover.stop .cancelled now1), ¬ e.Opens := fun e he hopens => by
    have hactive := (syncEdits_opens he hopens).1
    rw [hstopped] at hactive
    cases hactive
  refine h.edits hcache (Nat.zero_le _) (fun hactive => ?_) (fun e he hopens => ?_)
    fun k _ hp hcloses => ?_
  · rw [hstopped] at hactive
    cases hactive
  · unfold resetEdits at he
    simp only [List.mem_append] at he
    rcases he with ((he | he) | he) | he
    · exact absurd hopens (hsync e he)
    · unfold replaceEdits at he
      split at he
      · cases List.mem_singleton.mp he
        exact absurd hopens id
      · cases he
    · exact absurd hopens (hsync e he)
    · exact absurd hopens (finishEdits_opens he)
  · rcases hp with (⟨click, hclick, hbinary, hkey⟩ | ⟨-, hkey⟩ | ⟨hactive, hkey⟩) | hf
    · obtain ⟨e, he, hekey, heclosed⟩ := finishEdits_closes .cancelled hclick hbinary
      refine absurd heclosed (hcloses e ?_ (hekey.trans hkey))
      exact List.mem_append_right _ he
    · refine .inl (.inr (.inl ⟨rfl, ?_⟩))
      cases attachRelease with
      | false => exact hkey
      | true =>
        by_contra hne
        have hreplace : Edit.finish s.releaseKey .cancelled ∈ s.replaceEdits true key := by
          have hne' : s.releaseKey ≠ key := fun heq' => hne (heq'.symm.trans hkey)
          have hsession : s.releaseKey.session ≠ 0 := by rw [hkey]; assumption
          rw [replaceEdits, if_pos ⟨rfl, hsession, hne'⟩]
          exact List.mem_singleton_self _
        refine hcloses (.finish s.releaseKey .cancelled) ?_ hkey trivial
        exact List.mem_append_left _ (List.mem_append_left _ (List.mem_append_right _ hreplace))
    · have hfollows := s.mover.follows_stop .cancelled now1
      have hsession : (s.mover.stop .cancelled now1).ack.session ≠ 0 :=
        hfollows.session ▸ h.mover hactive
      obtain ⟨e, he, hekey, heclosed⟩ := syncEdits_closes hsession hstopped
      refine absurd heclosed (hcloses e ?_ (hekey.trans (hfollows.key.trans hkey)))
      exact List.mem_append_left _ (List.mem_append_right _ he)
    · rcases hfenced with hnone | ⟨rfl, hsome⟩
      · rw [hnone] at hf
        cases hf
      · rw [hsome] at hf
        cases hf
        exact .inl (.inr (.inl ⟨rfl, rfl⟩))

theorem Accounted.disown (h : s.Accounted fenced) : { s with owned := false }.Accounted fenced :=
  h.congr rfl rfl rfl rfl rfl

theorem Accounted.dropped (h : s.Accounted none) (now1 now2 generation : ℕ) :
    (s.dropped now1 now2 generation).Accounted none :=
  (h.reset (.inl rfl) now1 now2 generation).disown

/-- The front click is done. -/
theorem Accounted.finishFront (h : s.Accounted fenced) (status : ClickProtocol.Status) :
    (s.finishFront status).Accounted fenced := by
  have hcache := s.finishFront_edits status
  obtain ⟨cache, sent, scheduled, heq⟩ := s.finishFront_eq status
  rw [heq] at hcache ⊢
  refine h.edits hcache ?_ h.mover (fun e he hopens => absurd hopens (finishEdits_opens he))
    fun key _ hp hcloses => ?_
  · dsimp only
    rw [List.length_tail]
    exact (Nat.sub_le _ _).trans h.work
  · rcases hp with (⟨click, hclick, hbinary, hkey⟩ | hrest) | hf
    · cases hw : s.work with
      | nil => rw [hw] at hclick; cases hclick
      | cons front rest =>
        rw [hw] at hclick hcloses
        rcases List.mem_cons.mp hclick with rfl | hclick
        · have hfront : click ∈ List.take 1 (click :: rest) := List.mem_cons_self
          obtain ⟨e, he, hekey, heclosed⟩ := finishEdits_closes status hfront hbinary
          exact absurd heclosed (hcloses e he (hekey.trans hkey))
        · refine .inl (.inl ⟨click, ?_, hbinary, hkey⟩)
          simpa [hw] using hclick
    · exact .inl (.inr hrest)
    · exact .inr hf

/-- The front click goes on under its key. -/
theorem Accounted.front (h : s.Accounted fenced) {click click' : ClickWork} {rest : List ClickWork}
    (hw : s.work = click :: rest) (hwork : s'.work = click' :: rest)
    (hkey : click'.key = click.key) (hbinary : click'.binary = click.binary)
    (hcache : s'.cache = UsbProxy.edits l s.cache) (hl : ∀ e ∈ l, ¬ e.Opens) (hmover : s'.mover = s.mover)
    (hpending : s'.releasePending = s.releasePending) (hrelease : s'.releaseKey = s.releaseKey) :
    s'.Accounted fenced := by
  refine h.edits hcache ?_ (hmover ▸ h.mover) (fun e he hopens => absurd hopens (hl e he))
    fun key _ hp _ => ?_
  · rw [hwork]
    have := h.work
    rwa [hw] at this
  · unfold Pending at hp ⊢
    rw [hwork, hmover, hpending, hrelease]
    rw [hw] at hp
    rcases hp with (⟨c, hc, hcbinary, hckey⟩ | hrest) | hf
    · rcases List.mem_cons.mp hc with rfl | hc
      · exact .inl (.inl ⟨click', List.mem_cons_self, hbinary.trans hcbinary, hkey.trans hckey⟩)
      · exact .inl (.inl ⟨c, List.mem_cons_of_mem _ hc, hcbinary, hckey⟩)
    · exact .inl (.inr hrest)
    · exact .inr hf

/-- A record joins the cache with its work. -/
theorem Accounted.push (h : s.Accounted none) {c : CachedCommand}
    (hcache : s'.cache = s.cache ++ [c]) (hfresh : findCache s.cache c.key = none)
    (hsession : c.key.session ≠ 0) (hroom : s.cache.length < maxCacheRecords)
    (hwork : s'.work.length ≤ maxClickCommands)
    (hmover : s'.mover.active = true → s'.mover.ack.session ≠ 0)
    (hpending : ∀ key, s.Pending key → s'.Pending key)
    (hnew : s'.Pending c.key ∨ fenced' = some c.key) : s'.Accounted fenced' where
  keys := by
    rw [hcache, cacheKeys, List.map_append, List.map_singleton]
    refine List.nodup_append.mpr ⟨h.keys, List.nodup_singleton _, fun a ha b hb => ?_⟩
    rw [List.mem_singleton.mp hb]
    exact fun heq => findCache_none.mp hfresh (heq ▸ ha)
  session c' hc' := by
    rw [hcache] at hc'
    rcases List.mem_append.mp hc' with hc' | hc'
    · exact h.session c' hc'
    · rw [List.mem_singleton.mp hc']
      exact hsession
  room := by
    rw [hcache, List.length_append, List.length_singleton]
    exact hroom
  work := hwork
  mover := hmover
  live c' hc' hlive := by
    rw [hcache] at hc'
    rcases List.mem_append.mp hc' with hc' | hc'
    · rcases h.live c' hc' hlive with hp | hf
      · exact .inl (hpending _ hp)
      · cases hf
    · rw [List.mem_singleton.mp hc']
      exact hnew

theorem Accounted.evict (h : s.Accounted fenced) : s.removeOldCache.Accounted fenced := by
  have hsub := evictLoop_sublist s.cache.length s.cache
  exact {
    keys := h.keys.sublist (hsub.map _)
    session := fun c hc => h.session c (hsub.subset hc)
    room := hsub.length_le.trans h.room
    work := h.work
    mover := h.mover
    live := fun c hc => h.live c (hsub.subset hc) }

/-- The release obligation is met. -/
theorem Accounted.complete (h : s.Accounted fenced) : s.completeRelease.Accounted fenced := by
  have hcache := s.completeRelease_edits
  obtain ⟨cache, sent, heq⟩ := s.completeRelease_eq
  rw [heq] at hcache ⊢
  refine h.edits hcache h.work h.mover (fun e he hopens => ?_) fun key hsession hp hcloses => ?_
  · unfold completeEdits at he
    split at he
    · cases List.mem_singleton.mp he
      exact absurd hopens id
    · cases he
  · rcases hp with (hwork | ⟨-, hkey⟩ | hmover) | hf
    · exact .inl (.inl hwork)
    · have hcomplete : Edit.finish s.releaseKey .completed ∈ s.completeEdits := by
        rw [completeEdits, if_pos (hkey ▸ hsession)]
        exact List.mem_singleton_self _
      exact absurd trivial (hcloses _ hcomplete hkey)
    · exact .inl (.inr (.inr hmover))
    · exact .inr hf

theorem Accounted.count (h : s.Accounted fenced) {click : ClickWork} {rest : List ClickWork}
    (hw : s.work = click :: rest) : (s.count click).Accounted fenced :=
  h.front hw (setFront_work hw _) rfl rfl rfl (by simp [Edit.Opens]) rfl rfl rfl

theorem Accounted.clickEvent (h : s.Accounted fenced) (v : WriterEvent) :
    (s.clickEvent v).Accounted fenced := by
  have hspec := s.clickEvent_spec v
  generalize s.clickEvent v = s' at hspec ⊢
  cases hspec with
  | ignored => exact h
  | press click rest hw hexpects hkind hphase =>
    exact h.front hw (setFront_work hw _) rfl rfl (UsbProxy.edits_nil _).symm (by simp) rfl rfl rfl
  | blocked => exact h.finishFront _
  | last click rest hw => exact (h.count hw).finishFront _
  | next click rest hw =>
    have hcount : (s.count click).work = click.counted :: rest := setFront_work hw _
    exact (h.count hw).front hcount (setFront_work hcount _) rfl rfl (UsbProxy.edits_nil _).symm
      (by simp) rfl rfl rfl

/-- A control leaves the executor as active as it was. -/
theorem Accounted.control (h : s.Accounted fenced) (source : Peer) (r : MoveProtocol.Request)
    (prior : CachedCommand) : (s.controlMove source r prior).Accounted fenced := by
  have hcache := s.controlMove_edits source r prior
  obtain ⟨m, heq, hm⟩ := s.controlMove_eq source r prior
  rw [heq] at hcache ⊢
  have hfollows : s.mover.Follows m := by
    rcases hm with rfl | rfl | rfl
    · exact .refl _
    · exact s.mover.follows_proceed
    · exact s.mover.follows_cancel
  have hactive : m.active = s.mover.active := by
    rcases hm with rfl | rfl | rfl
    · rfl
    · exact s.mover.proceed_active
    · exact s.mover.cancel_active
  refine h.edits hcache h.work (fun ha => hfollows.session ▸ h.mover (hactive ▸ ha))
    (fun e he hopens => ?_) fun key _ hp _ => ?_
  · cases List.mem_singleton.mp he
    exact absurd hopens id
  · unfold Pending at hp ⊢
    dsimp only
    rwa [hactive, hfollows.key]

end Server

/-- **A step keeps the accounts.** -/
theorem Step.accounted {x y : Sys} (h : Step x y) (hx : x.server.Accounted x.pc.fenced) :
    y.server.Accounted y.pc.fenced := by
  cases h with
  | env | differ | recheck | takeEvents | eventsDone | overflowClear | overflowSet | leaseKept
    | scheduleIdle | enqueueRelease | silent | sample => exact hx.congr rfl rfl rfl rfl rfl
  | ignore pc s w h | answer pc s w dest p h =>
    obtain rfl | ⟨e, rfl⟩ := h <;> exact hx.congr rfl rfl rfl rfl rfl
  | prune pc s w now h => exact hx.congr rfl rfl rfl rfl rfl
  | check s w h =>
    dsimp only at hx ⊢
    unfold Server.track
    split
    · exact hx.congr rfl rfl rfl rfl rfl
    · exact hx
  | resetTop | resetOverflow | resetLease =>
    exact hx.dropped _ _ _
  | eventFailed v rest s w now1 now2 h =>
    have hevent : (s.moveEvent v).Accounted none := hx.sync (s.mover.follows_event v)
    exact hevent.dropped _ _ _
  | eventRelease v rest s w h hdone =>
    have hevent : (s.moveEvent v).Accounted none := hx.sync (s.mover.follows_event v)
    exact hevent.complete
  | eventClick v rest s w h hdone =>
    have hevent : (s.moveEvent v).Accounted none := hx.sync (s.mover.follows_event v)
    exact hevent.clickEvent v
  | tickDone s w e now htime h =>
    have hsync := hx.sync (s.mover.follows_tick e now)
    dsimp only
    exact hsync
  | tickEnqueue s w e now args htime h hres =>
    have hsync := hx.sync (s.mover.follows_tickEnqueue h (w.result args))
    dsimp only
    exact hsync
  | tickReset s w e now now1 now2 m h =>
    have hfollows : s.mover.Follows m := by
      rcases h with ⟨-, rfl⟩ | ⟨args, result, htick, -, rfl⟩
      · exact s.mover.follows_tick e now
      · exact s.mover.follows_tickEnqueue htick result
    dsimp only at hx ⊢
    exact ((hx.sync hfollows).reset (.inl rfl) now1 now2 w.clearGeneration).resync
  | resetSchedule => exact hx.reset (.inl rfl) _ _ _
  | fence => exact hx.reset (.inr ⟨rfl, rfl⟩) _ _ _
  | pressRefused => exact hx.finishFront _
  | enqueuePress s w click rest e hp hw hphase hdue he hres =>
    exact hx.front hw (Server.setFront_work hw _) rfl rfl (edits_nil _).symm (by simp) rfl rfl rfl
  | enqueueClickRelease s w click rest hp hw hphase hdue hres =>
    exact hx.front hw (Server.setFront_work hw _) rfl rfl (edits_nil _).symm (by simp) rfl rfl rfl
  | releaseWaits s w click rest hp hw hphase =>
    exact hx.front hw (Server.setFront_work hw _) rfl rfl (edits_nil _).symm (by simp) rfl rfl rfl
  | report s w e now =>
    obtain ⟨_, _, _, _, hs⟩ := s.report_eq now (s.telemetry e)
    rw [hs]
    exact hx.congr rfl rfl rfl rfl rfl
  | subscribe s w source data now =>
    obtain ⟨_, _, _, hs⟩ := s.subscribe_eq source data now
    rw [hs]
    exact hx.congr rfl rfl rfl rfl rfl
  | evict s w e => exact hx.evict
  | retryMove s w source r prior now hfind hmove hsame =>
    have hcontrol := hx.control source r prior
    obtain ⟨_, hs⟩ := ((s.controlMove source r prior).renew source now).sendCached_eq
      { prior with peer := source } prior.status
    rw [hs]
    exact hcontrol.congr rfl rfl rfl rfl rfl
  | startMove s w source r e sessions forgot now t1 t2 t3 hr hfresh hverdict hroom hadmitted =>
    obtain ⟨data, hparse⟩ := hr
    have hsession := (MoveProtocol.parse_some hparse).1
    have hinactive := Server.moveVerdict_inactive hverdict
    obtain ⟨_, hs⟩ := s.startMove_eq source r e sessions t1 t2 t3
    rw [hs]
    refine hx.push rfl hfresh.1 hsession hroom hx.work (fun _ => hsession) (fun key hp => ?_)
      (.inl (.inr (.inr ⟨rfl, rfl⟩)))
    rcases hp with hwork | hrelease | ⟨hactive, -⟩
    · exact .inl hwork
    · exact .inr (.inl hrelease)
    · rw [hinactive] at hactive
      cases hactive
  | retryClick s w source r prior now hfind hmove =>
    have hcache := (s.renew source now).repeatClick_edits source prior
    exact hx.edits hcache hx.work hx.mover (by simp [Edit.Opens]) fun key _ hp _ => hp
  | pruneReplay | heartbeat | applySnapshot | refuseReport | asciiReport =>
    exact hx.congr rfl rfl rfl rfl rfl
  | asciiReset s w source now1 now2 t =>
    have hreset : (s.reset false {} now1 now2 w.clearGeneration).Accounted none :=
      hx.reset (.inl rfl) now1 now2 w.clearGeneration
    dsimp only
    generalize s.reset false {} now1 now2 w.clearGeneration = s' at hreset
    exact hreset.congr rfl rfl rfl rfl rfl
  | asciiClick s w e source button t t' hready hmover hbutton hheld hroom =>
    refine hx.edits (edits_nil _).symm ?_ hx.mover (by simp) fun key _ hp _ => ?_
    · simpa [Server.send, Server.renew] using hroom
    · rcases hp with (⟨click, hclick, hbinary⟩ | hrest) | hf
      · exact .inl (.inl ⟨click, List.mem_append_left _ hclick, hbinary⟩)
      · exact .inl (.inr hrest)
      · exact .inr hf
  | pushClick s w source r e sessions forgot now t1 t2 hr hfresh hverdict hroom hadmitted =>
    obtain ⟨data, hparse⟩ := hr
    obtain ⟨hsession, -⟩ := ClickProtocol.parse_ids hparse
    obtain ⟨_, hs⟩ := (s.admitted r source r.count sessions).pushClick_eq source r e
      (Server.clickRecord r source r.count) now t1 t2
    rw [hs]
    refine hx.push rfl hfresh.1 hsession hroom ?_ hx.mover (fun key hp => ?_)
      (.inl (.inl ⟨_, List.mem_append_right _ List.mem_cons_self, rfl, rfl⟩))
    · simpa [Server.admitted] using Server.scheduleVerdict_room hverdict
    · rcases hp with ⟨click, hclick, hbinary⟩ | hrest
      · exact .inl ⟨click, List.mem_append_left _ hclick, hbinary⟩
      · exact .inr hrest
  | recordRelease s w source r e sessions forgot now t hr hfresh hroom hadmitted =>
    obtain ⟨data, hparse⟩ := hr
    obtain ⟨hsession, -⟩ := ClickProtocol.parse_ids hparse
    obtain ⟨_, hs⟩ := (s.admitted r source 0 sessions).recordRelease_eq source r
      (Server.clickRecord r source 0) now t
    rw [hs]
    exact hx.push rfl hfresh.1 hsession hroom hx.work hx.mover (fun key hp => hp) (.inr rfl)

theorem Server.accounted_start (epoch : ℕ) (peerFilter : Option ℕ) :
    (Config.init epoch peerFilter).server.Accounted none where
  keys := List.nodup_nil
  session := by simp [Config.init]
  room := Nat.zero_le _
  work := Nat.zero_le _
  mover h := by cases h
  live := by simp [Config.init]

theorem Config.Reachable.accounted {c : Config} (hc : c.Reachable) :
    c.server.Accounted c.stage.pc.fenced :=
  hc.invariant (P := fun x => x.server.Accounted x.pc.fenced)
    (fun epoch peerFilter => Server.accounted_start epoch peerFilter)
    fun _ _ hstep hx => hstep.accounted hx

end UsbProxy
