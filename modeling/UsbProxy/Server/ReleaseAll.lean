import UsbProxy.Server.Accounts

/-!
# The safety ReleaseAll

Whatever the tables hold, a fresh ReleaseAll of the controller is accepted: at most 66 records are
open, so eviction makes room, and `admit` retires a protected session when it must.
-/

namespace UsbProxy

open Client

/-! ### Room in the cache -/

theorem evictLoop_keeps {fuel : ℕ} {cache : List CachedCommand} {c : CachedCommand}
    (h : c ∈ cache) (hlive : c.terminal = false) : c ∈ (evictLoop fuel cache).1 := by
  induction fuel generalizing cache with
  | zero => exact h
  | succ fuel ih =>
    unfold evictLoop
    split
    · exact h
    · split
      · exact h
      · refine ih ((List.mem_eraseP_of_neg ?_).mpr h)
        simp [hlive]

/-- One terminal record gives a full cache room. -/
theorem evictLoop_makesRoom {cache : List CachedCommand} (hlength : cache.length ≤ maxCacheRecords)
    (hterminal : ∃ c ∈ cache, c.terminal = true) :
    (evictLoop cache.length cache).1.length < maxCacheRecords := by
  obtain ⟨c, hc, hclosed⟩ := hterminal
  have hpos : 0 < cache.length := List.length_pos_of_mem hc
  obtain ⟨fuel, hfuel⟩ : ∃ fuel, cache.length = fuel + 1 := ⟨cache.length - 1, by omega⟩
  rw [hfuel]
  unfold evictLoop
  split
  · assumption
  · split
    · rename_i hnone
      rw [List.find?_eq_none] at hnone
      exact absurd hclosed (hnone c hc)
    · have herase : (cache.eraseP (·.terminal)).length = cache.length - 1 :=
        List.length_eraseP_of_mem hc hclosed
      exact lt_of_le_of_lt (evictLoop_sublist _ _).length_le (by omega)

namespace Server

variable {s : Server} {fenced : Option Key}

/-- At most one record is open for each queued click, the ReleaseAll owed and the transaction. -/
theorem Accounted.open_length (h : s.Accounted none) :
    (s.cache.filter fun c => !c.terminal).length ≤ s.work.length + 2 := by
  have hnodup : (cacheKeys (s.cache.filter fun c => !c.terminal)).Nodup :=
    h.keys.sublist (List.filter_sublist.map _)
  have hsubset : cacheKeys (s.cache.filter fun c => !c.terminal) ⊆
      s.work.map (·.key) ++ [s.releaseKey, s.mover.key] := by
    intro key hkey
    obtain ⟨c, hc, rfl⟩ := List.mem_map.mp hkey
    obtain ⟨hmem, hlive⟩ := List.mem_filter.mp hc
    rcases h.live c hmem (by simpa using hlive) with hp | hf
    · rcases hp with ⟨click, hclick, -, hkey⟩ | ⟨-, hkey⟩ | ⟨-, hkey⟩
      · exact List.mem_append_left _ (List.mem_map.mpr ⟨click, hclick, hkey⟩)
      · simp [hkey]
      · simp [hkey]
    · cases hf
  have hle := (List.subperm_of_subset hnodup hsubset).length_le
  simpa [cacheKeys] using hle

/-- **`remove_old_cache` always makes room.** -/
theorem Accounted.makesRoom (h : s.Accounted none) :
    s.removeOldCache.cache.length < maxCacheRecords := by
  have hroom := h.room
  rcases Nat.lt_or_ge s.cache.length maxCacheRecords with hlt | hge
  · exact lt_of_le_of_lt (evictLoop_sublist _ _).length_le hlt
  · refine evictLoop_makesRoom hroom ?_
    by_contra hnone
    have hall : (s.cache.filter fun c => !c.terminal) = s.cache := by
      refine List.filter_eq_self.mpr fun c hc => ?_
      cases hc' : c.terminal with
      | false => rfl
      | true => exact absurd ⟨c, hc, hc'⟩ hnone
    have hopen := h.open_length
    have hwork := h.work
    rw [hall] at hopen
    unfold maxCacheRecords at hge
    unfold maxClickCommands at hwork
    omega

end Server

/-! ### Room in the session table -/

theorem ClickSessions.Tracker.admitPruned_force (t : ClickSessions.Tracker) (session now : ℕ)
    (protectedSession : ℕ → Bool) :
    ∃ t' forgot, t.admitPruned session now true protectedSession = some (t', forgot) := by
  have hvictim : t.victim true protectedSession ≠ none := by
    unfold victim
    split
    · simp
    · split <;> simp
  unfold admitPruned
  split
  · exact ⟨_, _, rfl⟩
  · split
    · rename_i hnone
      exact absurd hnone hvictim
    · exact ⟨_, _, rfl⟩

/-! ### Packets sent -/

/-- The server sent something, or nothing. -/
def Server.Sends (s s' : Server) : Prop := ∃ l, s'.sent = l ++ s.sent

namespace Server.Sends

variable {s s' s'' : Server}

theorem of_eq (h : s'.sent = s.sent) : s.Sends s' := ⟨[], h⟩

theorem trans (h : s.Sends s') (h' : s'.Sends s'') : s.Sends s'' := by
  obtain ⟨l, hl⟩ := h
  obtain ⟨l', hl'⟩ := h'
  exact ⟨l' ++ l, by rw [hl', hl, List.append_assoc]⟩

theorem sendCached (s : Server) (c : CachedCommand) (status : ClickProtocol.Status) :
    s.Sends (s.sendCached c status) := by
  unfold Server.sendCached
  split
  · exact ⟨[_], rfl⟩
  · exact ⟨[_], rfl⟩

theorem terminal (s : Server) (key : Key) (status : ClickProtocol.Status) :
    s.Sends (s.terminal key status) := by
  unfold Server.terminal
  split
  · exact of_eq rfl
  · exact (of_eq rfl).trans (sendCached _ _ _)

theorem syncMove (s : Server) : s.Sends s.syncMove := by
  unfold Server.syncMove
  dsimp only
  split
  · exact of_eq rfl
  · split
    · exact of_eq rfl
    · split
      · exact (of_eq rfl).trans (sendCached _ _ _)
      · exact of_eq rfl

theorem cancelLoop (work : List ClickWork) (s : Server) : s.Sends (cancelLoop work s) := by
  induction work generalizing s with
  | nil => exact of_eq rfl
  | cons click rest ih =>
    rw [Server.cancelLoop]
    split
    · have hdequeued : s.Sends { s with work := rest } := of_eq rfl
      exact (hdequeued.trans (terminal _ _ _)).trans (ih _)
    · exact (of_eq rfl).trans (ih _)

theorem replaceRelease (s : Server) (attachRelease : Bool) (key : Key) :
    s.Sends (s.replaceRelease attachRelease key) := by
  unfold Server.replaceRelease
  split
  · exact terminal _ _ _
  · exact of_eq rfl

theorem reset (s : Server) (attachRelease : Bool) (key : Key) (now1 now2 generation : ℕ) :
    s.Sends (s.reset attachRelease key now1 now2 generation) := by
  have h1 : s.Sends (s.stopMover .cancelled now1).syncMove := (of_eq rfl).trans (syncMove _)
  have h2 := h1.trans (replaceRelease _ attachRelease key)
  have h3 := h2.trans ((of_eq rfl).trans (syncMove (Server.stopMover _ .cancelled now2)))
  exact (h3.trans (cancelLoop _ _)).trans (of_eq rfl)

end Server.Sends

/-! ### The handler -/

/-- What an accepted ReleaseAll leaves: it is answered and recorded, every other record is
terminal, and the release is owed under its key. -/
structure Server.ReleaseEntered (s s' : Server) (source : Peer) (r : ClickProtocol.Request) :
    Prop where
  answered : ∃ l ack, s'.sent = l ++ (source, .upa ack) :: s.sent ∧ ack.status = .accepted ∧
    ack.session = r.session ∧ ack.command = r.command
  recorded : ∃ c ∈ s'.cache, c.key = r.key ∧ c.request = r
  closed : ∀ c ∈ s.cache, c.terminal = false → ∃ c' ∈ s'.cache, c'.key = c.key ∧ c'.terminal = true
  others : ∀ c ∈ s'.cache, c.key ≠ r.key → c.terminal = true
  owed : s'.releasePending = true ∧ s'.releaseKey = r.key

namespace Server

variable {s : Server} {source : Peer} {r : ClickProtocol.Request}

/-- The record of a ReleaseAll and its reset. -/
theorem Accounted.releaseEntered (h : s.Accounted none) (hfresh : findCache s.cache r.key = none)
    (hsession : r.session ≠ 0) (sessions : ClickSessions.Tracker)
    (now t now1 now2 generation : ℕ) :
    s.ReleaseEntered (((s.removeOldCache.admitted r source 0 sessions).recordRelease source r
      (clickRecord r source 0) now t).reset true r.key now1 now2 generation) source r := by
  have hroom := h.makesRoom
  have hevicted := h.evict
  have hfresh' := findCache_removeOldCache hfresh
  obtain ⟨sent, hrecord⟩ := (s.removeOldCache.admitted r source 0 sessions).recordRelease_eq source r
    (clickRecord r source 0) now t
  have hsent : ((s.removeOldCache.admitted r source 0 sessions).recordRelease source r
      (clickRecord r source 0) now t).sent = (source, .upa {
        status := .accepted, button := r.button, session := r.session, command := r.command
        serverEpoch := s.epoch, accepted := 0, completed := 0
        queueDepth := s.depth, version := r.version }) :: s.sent := rfl
  generalize hs' : (s.removeOldCache.admitted r source 0 sessions).recordRelease source r
    (clickRecord r source 0) now t = s' at hrecord hsent ⊢
  have hcache : s'.cache = s.removeOldCache.cache ++ [clickRecord r source 0] := by
    rw [hrecord]
    rfl
  have haccounted : s'.Accounted (some r.key) := by
    rw [hrecord]
    exact hevicted.push rfl hfresh' hsession hroom h.work h.mover (fun key hp => hp) (.inr rfl)
  have hreset := haccounted.reset (.inr ⟨rfl, rfl⟩) now1 now2 generation
  have hedits := s'.reset_edits true r.key now1 now2 generation
  have hsends := Sends.reset s' true r.key now1 now2 generation
  obtain ⟨_, _, heq⟩ := s'.reset_eq true r.key now1 now2 generation
  generalize s'.reset true r.key now1 now2 generation = s'' at hreset hedits hsends heq ⊢
  have hothers : ∀ c ∈ s''.cache, c.key ≠ r.key → c.terminal = true := by
    intro c hc hne
    by_contra hlive
    rcases hreset.live c hc (by simpa using hlive) with hp | hf
    · rw [heq] at hp
      rcases hp with ⟨click, hclick, -⟩ | ⟨-, hkey⟩ | ⟨hactive, -⟩
      · cases hclick
      · exact hne hkey.symm
      · rw [MoveExecutor.stop_active _ _ rfl] at hactive
        cases hactive
    · cases hf
  -- the reset keeps the keys, so every record before it has one after
  have hafter : ∀ c ∈ s'.cache, ∃ c' ∈ s''.cache, c'.key = c.key := by
    intro c hc
    have hmem : c.key ∈ cacheKeys s''.cache := by
      rw [hedits, edits_keys]
      exact List.mem_map_of_mem hc
    exact List.mem_map.mp hmem
  refine ⟨?_, ?_, fun c hc hlive => ?_, hothers, ?_⟩
  · obtain ⟨l, hl⟩ := hsends
    exact ⟨l, _, by rw [hl, hsent], rfl, rfl, rfl⟩
  · obtain ⟨c, hc, hkey⟩ := hafter (clickRecord r source 0) (by simp [hcache])
    refine ⟨c, hc, hkey, ?_⟩
    rw [hedits] at hc
    refine edits_forall (P := fun c => c.key = r.key → c.request = r) haccounted.keys
      (fun c hc hkey => ?_) (fun e _ c _ h => ?_) c hc hkey
    · rw [hcache] at hc
      rcases List.mem_append.mp hc with hc | hc
      · exact absurd (hkey ▸ List.mem_map_of_mem hc) (findCache_none.mp hfresh')
      · rw [List.mem_singleton.mp hc]
        rfl
    · cases e <;> exact h
  · have hkept : c ∈ s'.cache := by
      rw [hcache]
      exact List.mem_append_left _ (evictLoop_keeps hc hlive)
    obtain ⟨c', hc', hkey⟩ := hafter c hkept
    refine ⟨c', hc', hkey, hothers c' hc' fun heq' => ?_⟩
    exact findCache_none.mp hfresh (heq' ▸ hkey ▸ List.mem_map_of_mem hc)
  · rw [heq]
    exact ⟨rfl, rfl⟩

end Server

theorem Server.ReleaseEntered.of_pruned {s s' : Server} {source : Peer} {r : ClickProtocol.Request}
    {now : ℕ} (h : (s.pruneSessions now).ReleaseEntered s' source r) : s.ReleaseEntered s' source r :=
  ⟨h.answered, h.recorded, h.closed, h.others, h.owed⟩

section Handler

variable {s : Server} {w : World} {d : Datagram} {r : ClickProtocol.Request}

theorem releaseAll_enters {now : ℕ} (h : s.Accounted none)
    (hfresh : findCache s.cache r.key = none) (hsession : r.session ≠ 0) :
    Wp (Srv.releaseAll d r now) (fun _ s' _ => s.ReleaseEntered s' d.source r) s w := by
  have hroom := h.makesRoom
  refine Wp.bind <| Srv.wp_get <| Wp.seq <| Srv.wp_mark <| Wp.seq <| Srv.wp_modify <|
    Wp.ite (fun hfull => absurd hroom (Nat.not_lt.mpr hfull)) fun _ => Wp.seq <| Srv.wp_mark <|
      Wp.seq <| Srv.wp_modify ?_
  split
  · rename_i hnone
    obtain ⟨t', forgot, hsome⟩ := ClickSessions.Tracker.admitPruned_force
      (s.removeOldCache.sessions.prune now) r.session now s.removeOldCache.sessionProtected
    rw [hsome] at hnone
    cases hnone
  · rename_i sessions forgot hadmitted
    have hrecord := acceptRecord_room sessions r d.source 0 hroom
    rw [hrecord]
    exact Wp.bind <| Srv.wp_now fun t _ => Wp.seq <| Srv.wp_mark <| Wp.seq <| Srv.wp_modify <|
      Srv.wp_beginReset fun now1 now2 u _ =>
        h.releaseEntered hfresh hsession sessions now t.clock now1 now2 u.clearGeneration

/-- The clock a handler reads first. -/
def Config.firstClock (c : Config) (sched : List (List EnvStep)) : ℕ :=
  (envRun World.env c.world (sched.headD [])).clock

theorem handleClick_enters {sched : List (List EnvStep)} (h : s.Accounted none)
    (hparse : ClickProtocol.parse d.data = some r) (hop : r.operation = .releaseAll)
    (howner : s.owned = true → s.owner = d.source) (hfresh : findCache s.cache r.key = none)
    (hstale : (s.sessions.prune (envRun World.env w (sched.headD [])).clock).isStale r.session
      r.command = false) :
    Post (Srv.handleClick d) (fun _ c => s.ReleaseEntered c.priv d.source r) ⟨s, w, sched⟩ := by
  unfold Srv.handleClick
  rw [hparse]
  refine Post.bind <| Srv.post_get <| Post.ite
    (fun hother => absurd (howner hother.1) hother.2) fun _ => ?_
  have hnone : findCache s.cache ⟨r.session, r.command⟩ = none := hfresh
  dsimp only
  rw [hnone]
  refine Post.bind <| Srv.post_now <| Post.seq <| Srv.post_mark <| Post.seq <| Srv.post_modify <|
    Post.ite (fun hold => ?_) fun _ => Post.bind <| Srv.post_snapshot <| Post.seq <|
      Srv.post_mark ?_
  · dsimp only at hold
    rw [hstale] at hold
    cases hold
  · rw [hop]
    have hpruned : (s.pruneSessions (envRun World.env w (sched.headD [])).clock).Accounted none :=
      h.congr rfl rfl rfl rfl rfl
    have henters {u : World} : Wp (Srv.releaseAll d r (envRun World.env w (sched.headD [])).clock)
        (fun _ s' _ => s.ReleaseEntered s' d.source r)
        (s.pruneSessions (envRun World.env w (sched.headD [])).clock) u :=
      (releaseAll_enters hpruned hfresh (ClickProtocol.parse_ids hparse).1).mono
        fun _ _ _ hentered => hentered.of_pruned
    exact henters _

end Handler

/-- A UPC1 packet that parses is dispatched to its handler. -/
theorem handle_click {d : Datagram} {r : ClickProtocol.Request}
    (hparse : ClickProtocol.parse d.data = some r) :
    d.data.length = 40 ∧ Srv.handle d = Srv.handleClick d := by
  unfold ClickProtocol.parse at hparse
  split at hparse
  · cases hparse
  · rename_i hshape
    rw [not_or, not_or] at hshape
    have hlength := not_not.mp hshape.1
    have htag := (Bool.not_eq_false _).mp hshape.2.1
    refine ⟨hlength, ?_⟩
    have hother (tag : String) (hne : ascii "UPC1" ≠ ascii tag) : hasTag d.data tag = false := by
      rw [hasTag, beq_iff_eq] at htag
      rw [hasTag, htag]
      exact beq_false_of_ne hne
    unfold Srv.handle
    rw [hother "UPS1" (by decide), hother "UPS2" (by decide),
      hother "UPS3" (by decide), hother "UPQ1" (by decide),
      hother "UPM1" (by decide), htag]
    simp

/-- **The safety ReleaseAll can always get in**, from every reachable state and under every
schedule of the other threads. -/
theorem releaseAll_admitted {c : Config} (hc : c.Reachable) (hstage : c.stage = .receive)
    {d : Datagram} {r : ClickProtocol.Request} (hparse : ClickProtocol.parse d.data = some r)
    (hop : r.operation = .releaseAll)
    (hpeer : c.server.peerFilter.any (· != d.source.address) = false)
    (howner : c.server.owned = true → c.server.owner = d.source)
    (hfresh : findCache c.server.cache r.key = none) (sched : List (List EnvStep))
    (hstale : (c.server.sessions.prune (c.firstClock sched)).isStale r.session r.command = false) :
    c.server.ReleaseEntered (c.step (.server sched (some d))).server d.source r := by
  have haccounted := hc.accounted
  rw [hstage] at haccounted
  obtain ⟨hlength, hhandle⟩ := handle_click hparse
  have hpost := handleClick_enters haccounted hparse hop howner hfresh hstale
  simp only [Config.step, hstage]
  have hreceive : Post (Srv.receive (some d))
      (fun _ ctx => c.server.ReleaseEntered ctx.priv d.source r) ⟨c.server, c.world, sched⟩ := by
    refine Post.bind <| Post.getPriv <| Post.ite (fun hsize => ?_) fun _ =>
      Post.ite (fun hfiltered => ?_) fun _ => ?_
    · omega
    · rw [hpeer] at hfiltered
      cases hfiltered
    · rw [hhandle]
      exact hpost
  exact hreceive

/-- The controller's click is on its way, and the loop waits for the next datagram. -/
def clicking : Config :=
  (Config.init 1 none).run (Action.mouse ++
    Action.iteration (some ⟨⟨1, 1⟩, ClickProtocol.request .schedule 7 1 1 3 1000 10000 1⟩) ++
      List.replicate 7 (.server [] none))

theorem releaseAll_admitted_clicking :
    clicking.server.ReleaseEntered
      (clicking.step (.server []
        (some ⟨⟨1, 1⟩, ClickProtocol.request .releaseAll 7 2 0 0 0 0 1⟩))).server ⟨1, 1⟩
      { operation := .releaseAll, session := 7, command := 2 } :=
  releaseAll_admitted ⟨1, none, _, rfl⟩ (by decide +kernel)
    (d := ⟨⟨1, 1⟩, ClickProtocol.request .releaseAll 7 2 0 0 0 0 1⟩) (by decide +kernel) rfl
    (by decide +kernel) (by decide +kernel) (by decide +kernel) [] (by decide +kernel)

end UsbProxy
