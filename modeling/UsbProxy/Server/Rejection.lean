import UsbProxy.Protocol.Canonical
import UsbProxy.Server.Alone
import UsbProxy.Server.Mixing

/-!
# Rejected commands

A datagram that is dropped or answered with a rejection leaves the server as it was, but for expired
entries of the trackers.  The exception is a Schedule that finds the cache and the session table
full: `remove_old_cache` has dropped a record by the time `admit` fails.
-/

namespace UsbProxy

open Bits Client

/-! ### What a rejection is -/

/-- The statuses of a UPC1 answer without admission. -/
def ClickProtocol.Status.Rejects : ClickProtocol.Status → Bool
  | .busy | .invalid | .staleCommand | .notReady | .unsupportedButton | .buttonActive
  | .queueFull => true
  | _ => false

/-- The statuses of `reject` in the UPM1 handler. -/
def MoveProtocol.Status.Rejects : MoveProtocol.Status → Bool
  | .busy | .endpointChanged | .invalid | .stale | .notReady | .buttonActive | .range
  | .queueFull => true
  | _ => false

def Packet.Rejects : Packet → Bool
  | .upa ack => ack.status.Rejects
  | .upr ack => ack.status.Rejects
  | .text reply => "busy".toList == reply.toList || "error".toList.isPrefixOf reply.toList
  | _ => false

namespace Server

/-- The datagram asks again for a command in the cache, and gets the answer of its record. -/
def Repeats (s : Server) (d : Datagram) : Prop :=
  s.Hears d ∧ (s.owned = true → s.owner = d.source) ∧
    ((∃ r prior, MoveProtocol.parse d.data = some r ∧ r.epoch = s.epoch ∧
        findCache s.cache r.key = some prior ∧ prior.movement = true ∧
        MoveProtocol.same prior.moveRequest r = true) ∨
      ∃ r prior, ClickProtocol.parse d.data = some r ∧ findCache s.cache r.key = some prior ∧
        prior.movement = false ∧ ClickProtocol.sameRequest prior.request r = true)

/-- The datagram of a step is rejected, or dropped: then nothing is sent, and no UPX1 packet is
honoured. -/
def Rejected (s : Server) (w : World) (d : Datagram) (s' : Server) (w' : World) : Prop :=
  ¬ s.Repeats d ∧
    ((∃ p : Packet, s'.sent = (d.source, p) :: s.sent ∧ p.Rejects = true) ∨
      s'.sent = s.sent ∧ ∃ l, w'.history = l ++ w.history ∧
        ∀ peer sequence transaction, .honoured peer sequence transaction ∉ l)

end Server

/-! ### What a rejection leaves -/

/-- A tracker as it was, or without what had expired by some time until now. -/
def PrunedBy {τ : Type} (prune : τ → ℕ → τ) (now : ℕ) (t t' : τ) : Prop :=
  t' = t ∨ ∃ time, time ≤ now ∧ t' = prune t time

theorem PrunedBy.mono {τ : Type} {prune : τ → ℕ → τ} {now now' : ℕ} {t t' : τ}
    (h : PrunedBy prune now t t') (hle : now ≤ now') : PrunedBy prune now' t t' := by
  rcases h with rfl | ⟨time, htime, rfl⟩
  · exact .inl rfl
  · exact .inr ⟨time, htime.trans hle, rfl⟩

/-- Only the other threads moved the world; the moments that are recorded change nothing. -/
def World.LeftTo (w w' : World) : Prop :=
  Relation.ReflTransGen (fun w w' => (∃ x, w' = w.env x) ∨ ∃ m, w' = w.note m) w w'

namespace World.LeftTo

variable {w w' : World}

protected theorem refl (w : World) : w.LeftTo w := Relation.ReflTransGen.refl

theorem env (h : w.LeftTo w') {t : World} (ht : EnvReach World.env w' t) : w.LeftTo t :=
  ht.preserves (P := fun t => w.LeftTo t) (fun _ x h => h.tail (.inl ⟨x, rfl⟩)) h

theorem notes (h : w.LeftTo w') (l : List Mark) : w.LeftTo (w'.notes l) := by
  induction l with
  | nil => exact h
  | cons m l ih => exact ih.tail (.inr ⟨m, rfl⟩)

theorem grows (h : w.LeftTo w') :
    w.clock ≤ w'.clock ∧ ∃ l, w'.history = l ++ w.history := by
  induction h with
  | refl => exact ⟨le_rfl, [], rfl⟩
  | @tail u v _ hstep ih =>
    obtain ⟨hclock, l, hl⟩ := ih
    rcases hstep with ⟨x, rfl⟩ | ⟨m, rfl⟩
    · obtain ⟨l', hl', -⟩ := u.env_extends x
      exact ⟨hclock.trans (u.env_clock x), l' ++ l, by rw [hl', hl, List.append_assoc]⟩
    · exact ⟨hclock, m :: l, by rw [World.note_history, hl, List.cons_append]⟩

theorem sound (h : w.LeftTo w') (hw : w.Sound) : w'.Sound := by
  induction h with
  | refl => exact hw
  | tail _ hstep ih =>
    rcases hstep with ⟨x, rfl⟩ | ⟨m, rfl⟩
    · exact (World.mixes_env _ x).sound ih
    · exact (World.mixes_notes _ [m]).sound ih

end World.LeftTo

namespace Server

/-- What a rejection leaves as it was: the trackers but for what has expired, everything else of the
server but for what it sent and its subscriber, and the mixer. -/
structure Unchanged (s : Server) (w : World) (s' : Server) (w' : World) : Prop where
  sessions : PrunedBy ClickSessions.Tracker.prune w'.clock s.sessions s'.sessions
  replay : PrunedBy UpxReplay.Tracker.prune w'.clock s.movementReplay s'.movementReplay
  rest : s' = { s with
    sessions := s'.sessions, movementReplay := s'.movementReplay, sent := s'.sent
    subscription := s'.subscription, subscriber := s'.subscriber, lastTelemetry := s'.lastTelemetry }
  mixer : w.LeftTo w'

theorem Unchanged.cache {s s' : Server} {w w' : World} (h : s.Unchanged w s' w') :
    s'.cache = s.cache := by
  rw [h.rest]

/-- A handler on its way to a rejection: nothing is changed, and nothing sent. -/
structure Undecided (s : Server) (w : World) (s' : Server) (w' : World) : Prop extends
    s.Unchanged w s' w' where
  sent : s'.sent = s.sent

namespace Undecided

variable {s s' : Server} {w w' : World}

theorem refl (s : Server) (w : World) : s.Undecided w s w :=
  ⟨⟨.inl rfl, .inl rfl, rfl, .refl w⟩, rfl⟩

theorem env (h : s.Undecided w s' w') {t : World} (ht : EnvReach World.env w' t) :
    s.Undecided w s' t :=
  ⟨⟨h.sessions.mono (reach_clock ht), h.replay.mono (reach_clock ht), h.rest, h.mixer.env ht⟩,
    h.sent⟩

theorem notes (h : s.Undecided w s' w') (l : List Mark) : s.Undecided w s' (w'.notes l) :=
  ⟨⟨h.sessions, h.replay, h.rest, h.mixer.notes l⟩, h.sent⟩

theorem pruneSessions (h : s.Undecided w s' w') (now : ℕ)
    (hsessions : PrunedBy ClickSessions.Tracker.prune w'.clock s.sessions (s'.sessions.prune now)) :
    s.Undecided w (s'.pruneSessions now) w' := by
  refine ⟨⟨hsessions, h.replay, ?_, h.mixer⟩, h.sent⟩
  rw [Server.pruneSessions, h.rest]

theorem pruneReplay (h : s.Undecided w s' w') {now : ℕ} (hnow : now ≤ w'.clock)
    (hreplay : s'.movementReplay = s.movementReplay) :
    s.Undecided w (s'.pruneReplay now) w' := by
  refine ⟨⟨h.sessions, .inr ⟨now, hnow, ?_⟩, ?_, h.mixer⟩, h.sent⟩
  · rw [← hreplay]
    rfl
  · rw [Server.pruneReplay, h.rest]

/-- An answer changes nothing. -/
theorem send (h : s.Undecided w s' w') (dest : Peer) (p : Packet) :
    s.Unchanged w (s'.send dest p) w' := by
  refine ⟨h.sessions, h.replay, ?_, h.mixer⟩
  rw [Server.send, h.rest]

end Undecided

/-- A rejected datagram changes nothing. -/
def Faithful (s : Server) (w : World) (d : Datagram) (s' : Server) (w' : World) : Prop :=
  s.Rejected w d s' w' → s.Unchanged w s' w'

namespace Faithful

variable {s s' : Server} {w w' : World} {d : Datagram}

theorem repeats (h : s.Repeats d) : s.Faithful w d s' w' := fun hrejected => absurd h hrejected.1

/-- A datagram with an answer that is none of the rejections. -/
theorem answered (l₁ l₂ : List (Peer × Packet)) {dest : Peer} {p : Packet}
    (hsent : s'.sent = l₁ ++ (dest, p) :: (l₂ ++ s.sent)) (hp : p.Rejects = false) :
    s.Faithful w d s' w' := by
  rintro ⟨-, ⟨q, hq, hrejects⟩ | ⟨hsame, -⟩⟩
  · have hlength := congrArg List.length (hsent.symm.trans hq)
    simp only [List.length_append, List.length_cons] at hlength
    have h₁ : l₁ = [] := List.length_eq_zero_iff.mp (by omega)
    have h₂ : l₂ = [] := List.length_eq_zero_iff.mp (by omega)
    subst h₁ h₂
    rw [hsent] at hq
    simp only [List.nil_append, List.cons.injEq, Prod.mk.injEq, and_true] at hq
    rw [← hq.2, hp] at hrejects
    cases hrejects
  · have hlength := congrArg List.length (hsent.symm.trans hsame)
    simp only [List.length_append, List.length_cons] at hlength
    omega

/-- A UPX1 packet that is honoured. -/
theorem honoured {peer : Peer} {sequence : BitVec 32} {transaction : Bool} {l : List Mark}
    (hsent : s'.sent = s.sent) (hhistory : w'.history = l ++ w.history)
    (hmem : .honoured peer sequence transaction ∈ l) : s.Faithful w d s' w' := by
  rintro ⟨-, ⟨q, hq, -⟩ | ⟨-, l', hl', hnone⟩⟩
  · have hlength := congrArg List.length (hsent.symm.trans hq)
    simp only [List.length_cons] at hlength
    omega
  · rw [hhistory] at hl'
    obtain rfl := List.append_cancel_right hl'
    exact absurd hmem (hnone peer sequence transaction)

end Faithful

end Server

/-! ### The handlers -/

section Handlers

variable {s s' : Server} {w w' : World} {d : Datagram}

/-- A handler at the server state `s'` and the world `w'` changes nothing if it rejects. -/
abbrev Rejects (s : Server) (w : World) (d : Datagram) (x : Srv Unit) (s' : Server) (w' : World) :
    Prop :=
  Wp x (fun _ s' w' => s.Faithful w d s' w') s' w'

theorem ignore_rejects (h : s.Undecided w s' w') : Rejects s w d (pure ()) s' w' :=
  Wp.pure fun _ => h.toUnchanged

theorem answer_rejects {f : Server → Server} {dest : Peer} {p : Packet}
    (h : s.Undecided w s' w') (hf : f s' = s'.send dest p := by rfl) :
    Rejects s w d (Srv.modify f) s' w' := by
  refine Srv.wp_modify fun _ => ?_
  rw [hf]
  exact h.send dest p

theorem handleSubscribe_rejects : Rejects s w d (Srv.handleSubscribe d) s w := by
  refine Wp.bind <| Srv.wp_now fun t ht => Wp.bind <| Srv.wp_get <|
    Wp.ite (fun _ => answer_rejects ((Server.Undecided.refl s w).env ht)) fun _ =>
      Wp.bind <| Srv.wp_now fun t' ht' => Srv.wp_modify fun _ => ?_
  have h := ((Server.Undecided.refl s w).env ht).env ht'
  unfold Server.subscribe
  split
  · exact h.toUnchanged
  · exact ⟨h.sessions, h.replay, rfl, h.mixer⟩

theorem handleQuery_rejects : Rejects s w d (Srv.handleQuery d) s w := by
  have h := Server.Undecided.refl s w
  unfold Srv.handleQuery
  split
  · exact ignore_rejects h
  · exact Wp.bind <| Srv.wp_snapshot fun t ht => answer_rejects (h.env ht)

/-! #### Transactions -/

theorem rejectMove_rejects {r : MoveProtocol.Request} {status : MoveProtocol.Status}
    (h : s.Undecided w s' w') : Rejects s w d (Srv.rejectMove d r status) s' w' :=
  Wp.bind <| Srv.wp_snapshot fun t ht => answer_rejects (h.env ht)

theorem retryMove_rejects {r : MoveProtocol.Request} {prior : CachedCommand} (hheard : s.Hears d)
    (howner : s.owned = true → s.owner = d.source) (hparse : MoveProtocol.parse d.data = some r)
    (hepoch : r.epoch = s.epoch) (hfind : findCache s.cache r.key = some prior) :
    Rejects s w d (Srv.retryMove d r prior) s w := by
  refine Wp.ite (fun _ => rejectMove_rejects (Server.Undecided.refl s w)) fun hsame => ?_
  simp only [not_or, Bool.not_eq_true', Bool.not_eq_false] at hsame
  have hrepeats : s.Repeats d :=
    ⟨hheard, howner, .inl ⟨r, prior, hparse, hepoch, hfind, hsame.1, hsame.2⟩⟩
  exact Wp.bind <| Srv.wp_get <| Wp.seq <| Srv.wp_mark <| Wp.seq <| Srv.wp_modify <| Wp.seq <|
    Srv.wp_renew fun t _ => Srv.wp_modify (Server.Faithful.repeats hrepeats)

/-- While nothing is pending, every record is terminal. -/
theorem Server.Accounted.closed (h : s.Accounted none) (hwork : s.work = [])
    (hrelease : s.releasePending = false) (hmover : s.mover.active = false) :
    ∀ c ∈ s.cache, c.terminal = true := by
  intro c hc
  by_contra hlive
  rcases h.live c hc (by simpa using hlive) with hp | hf
  · rcases hp with ⟨click, hclick, -⟩ | ⟨howed, -⟩ | ⟨hactive, -⟩
    · rw [hwork] at hclick
      cases hclick
    · rw [hrelease] at howed
      cases howed
    · rw [hmover] at hactive
      cases hactive
  · cases hf

/-- A session that is not protected makes way for another. -/
theorem ClickSessions.Tracker.admitPruned_free (t : ClickSessions.Tracker) (session now : ℕ)
    (force : Bool) {protectedSession : ℕ → Bool} (hfree : ∀ id, protectedSession id = false) :
    t.admitPruned session now force protectedSession ≠ none := by
  have hvictim : t.victim force protectedSession ≠ none := by
    unfold victim
    split
    · simp
    · rename_i hfull
      split
      · simp
      · rename_i hnone
        rw [List.find?_eq_none] at hnone
        have hempty : t.active = [] :=
          List.eq_nil_iff_forall_not_mem.mpr fun e he => hnone e he (by simp [hfree])
        rw [hempty] at hfull
        exact absurd (by decide : [].length < maxActive) hfull
  unfold admitPruned
  split
  · simp
  · split
    · rename_i hnone
      exact absurd hnone hvictim
    · simp

theorem executeMove_rejects {r : MoveProtocol.Request} {e : EndpointSnapshot}
    (ha : s'.Accounted none) (hverdict : s'.moveVerdict e r = none) (hsent : s'.sent = s.sent) :
    Rejects s w d (Srv.executeMove d r e) s' w' := by
  have hroom := ha.makesRoom
  obtain ⟨hwork, hrelease⟩ := Server.moveVerdict_alone hverdict
  have hclosed := ha.evict.closed hwork hrelease (Server.moveVerdict_inactive hverdict)
  have hfree : ∀ id, s'.removeOldCache.sessionProtected id = false := by
    intro id
    rw [Server.sessionProtected, List.any_eq_false]
    intro c hc
    simp [hclosed c hc]
  refine Wp.bind <| Srv.wp_get <| Wp.seq <| Srv.wp_mark <| Wp.seq <| Srv.wp_modify <|
    Wp.ite (fun hfull => absurd hroom (Nat.not_lt.mpr hfull)) fun _ => Wp.bind <|
      Srv.wp_now fun t _ => Wp.seq <| Srv.wp_mark <| Wp.seq <| Srv.wp_modify ?_
  split
  · rename_i hnone
    exact absurd hnone (ClickSessions.Tracker.admitPruned_free _ _ _ _ hfree)
  · refine Wp.bind <| Srv.wp_now fun t1 _ => Wp.bind <| Srv.wp_now fun t2 _ => Wp.bind <|
      Srv.wp_now fun t3 _ => Wp.seq <| Srv.wp_mark <| Srv.wp_modify ?_
    refine Server.Faithful.answered [] [] (congrArg (_ :: ·) hsent) ?_
    rfl

theorem handleMove_rejects (ha : s.Accounted none) (hheard : s.Hears d) :
    Rejects s w d (Srv.handleMove d) s w := by
  have h := Server.Undecided.refl s w
  unfold Srv.handleMove
  split
  · exact ignore_rejects h
  rename_i r hparse
  refine Wp.bind <| Srv.wp_get <| Wp.ite (fun _ => rejectMove_rejects h) fun howner =>
    Wp.ite (fun _ => rejectMove_rejects h) fun hepoch => ?_
  split
  · rename_i prior hfind
    refine retryMove_rejects hheard (fun howned => ?_) hparse (not_not.mp hepoch) hfind
    by_contra hother
    exact howner ⟨howned, hother⟩
  refine Wp.ite (fun _ => rejectMove_rejects h) fun _ => Wp.bind <| Srv.wp_now fun t ht =>
    Wp.seq <| Srv.wp_mark <| Wp.seq <| Srv.wp_modify ?_
  have h1 := ((h.env ht).notes (s.sessions.pruneMarks t.clock)).pruneSessions
    t.clock (.inr ⟨t.clock, le_rfl, rfl⟩)
  refine Wp.ite (fun _ => rejectMove_rejects h1) fun _ => Wp.bind <| Srv.wp_snapshot
    fun u hu => Wp.seq <| Srv.wp_mark ?_
  have h2 := (h1.env hu).notes [.sampled]
  split
  · exact rejectMove_rejects h2
  · rename_i hverdict
    exact executeMove_rejects (ha.congr rfl rfl rfl rfl rfl) hverdict h2.sent

/-! #### Clicks -/

theorem retryClick_rejects {r : ClickProtocol.Request} {prior : CachedCommand} (hheard : s.Hears d)
    (howner : s.owned = true → s.owner = d.source) (hparse : ClickProtocol.parse d.data = some r)
    (hfind : findCache s.cache r.key = some prior) :
    Rejects s w d (Srv.retryClick d r prior) s w := by
  refine Wp.ite (fun _ => answer_rejects (Server.Undecided.refl s w)) fun hsame => ?_
  simp only [not_or, Bool.not_eq_true, Bool.not_eq_true', Bool.not_eq_false] at hsame
  have hrepeats : s.Repeats d :=
    ⟨hheard, howner, .inr ⟨r, prior, hparse, hfind, hsame.1, hsame.2⟩⟩
  exact Wp.seq <| Srv.wp_renew fun t _ => Srv.wp_modify (Server.Faithful.repeats hrepeats)

/-- While the cache has room or `admit` lets the session in. -/
theorem scheduleClick_rejects {r : ClickProtocol.Request} {e : EndpointSnapshot} {now : ℕ}
    (ha : s'.Accounted none) (h : s.Undecided w s' w')
    (hsessions : s'.sessions = s.sessions.prune now) (hnow : now ≤ w'.clock)
    (hcrowd : maxCacheRecords ≤ s'.cache.length → s'.sessions.admitPruned r.session now false
      s'.removeOldCache.sessionProtected ≠ none) :
    Rejects s w d (Srv.scheduleClick d r e now) s' w' := by
  have hroom := ha.makesRoom
  have hpruned : s'.sessions.prune now = s'.sessions := by
    rw [hsessions, ClickSessions.Tracker.prune_idem]
  refine Wp.bind <| Srv.wp_get <| Wp.seq <| Srv.wp_mark <| Wp.seq <| Srv.wp_modify <|
    Wp.ite (fun hfull => absurd hroom (Nat.not_lt.mpr hfull)) fun _ => Wp.seq <|
      Srv.wp_mark <| Wp.seq <| Srv.wp_modify ?_
  split
  · rename_i hnone
    have hnone' : s'.sessions.admitPruned r.session now false
        s'.removeOldCache.sessionProtected = none := by
      rw [← hpruned]
      exact hnone
    have hspare : s'.cache.length < maxCacheRecords := by
      by_contra hfull
      exact hcrowd (Nat.not_lt.mp hfull) hnone'
    rw [removeOldCache_room hspare]
    exact answer_rejects (((h.notes _).notes _).pruneSessions now
      (.inr ⟨now, hnow, by rw [hpruned, hsessions]⟩))
  · rename_i sessions forgot hadmitted
    rw [acceptRecord_room sessions r d.source r.count hroom]
    refine Wp.bind <| Srv.wp_now fun t1 _ => Wp.bind <| Srv.wp_now fun t2 _ => Wp.seq <|
      Srv.wp_mark <| Srv.wp_modify ?_
    exact Server.Faithful.answered [] [] (congrArg (_ :: ·) h.sent) rfl

theorem releaseAll_rejects {r : ClickProtocol.Request} {now : ℕ} (ha : s'.Accounted none)
    (hsent : s'.sent = s.sent) : Rejects s w d (Srv.releaseAll d r now) s' w' := by
  have hroom := ha.makesRoom
  refine Wp.bind <| Srv.wp_get <| Wp.seq <| Srv.wp_mark <| Wp.seq <| Srv.wp_modify <|
    Wp.ite (fun hfull => absurd hroom (Nat.not_lt.mpr hfull)) fun _ => Wp.seq <|
      Srv.wp_mark <| Wp.seq <| Srv.wp_modify ?_
  split
  · rename_i hnone
    obtain ⟨_, _, hsome⟩ := ClickSessions.Tracker.admitPruned_force
      (s'.removeOldCache.sessions.prune now) r.session now s'.removeOldCache.sessionProtected
    rw [hsome] at hnone
    cases hnone
  · rename_i sessions forgot hadmitted
    rw [acceptRecord_room sessions r d.source 0 hroom]
    refine Wp.bind <| Srv.wp_now fun t _ => Wp.seq <| Srv.wp_mark <| Wp.seq <| Srv.wp_modify <|
      Srv.wp_beginReset fun now1 now2 u _ => ?_
    have hrecord : ∃ ack, ((s'.removeOldCache.admitted r d.source 0 sessions).recordRelease d.source
        r (Server.clickRecord r d.source 0) now t.clock).sent = (d.source, .upa ack) :: s.sent ∧
        ack.status = .accepted := ⟨_, congrArg (_ :: ·) hsent, rfl⟩
    obtain ⟨ack, hack, hstatus⟩ := hrecord
    obtain ⟨l, hl⟩ := Server.Sends.reset
      ((s'.removeOldCache.admitted r d.source 0 sessions).recordRelease d.source r
        (Server.clickRecord r d.source 0) now t.clock) true ⟨r.session, r.command⟩ now1 now2
      u.clearGeneration
    have hanswer := hl.trans (congrArg (l ++ ·) hack)
    refine Server.Faithful.answered l [] hanswer ?_
    rw [Packet.Rejects, hstatus]
    rfl

/-! #### UPX1 and ASCII -/

theorem acceptSnapshot_rejects {sequence : BitVec 32} {e : EndpointSnapshot} {now : ℕ}
    (hsent : s'.sent = s.sent) (hhistory : ∃ l, w'.history = l ++ w.history) :
    Rejects s w d (Srv.acceptSnapshot d sequence e now) s' w' := by
  obtain ⟨l, hl⟩ := hhistory
  refine Wp.bind <| Srv.wp_get <| Wp.seq <| Srv.wp_mark <| Wp.seq <| Srv.wp_modify <| Wp.seq <|
    Srv.wp_renew fun t ht => Srv.wp_modify ?_
  obtain ⟨-, l', hl'⟩ := ((World.LeftTo.refl _).env ht).grows
  have hmem : .honoured d.source sequence false ∈
      l' ++ (s'.snapshotMarks d.source sequence (Server.snapshotButtons d.data) now ++ l) := by
    simp [Server.snapshotMarks]
  refine Server.Faithful.honoured hsent ?_ hmem
  rw [hl', World.notes_history, hl]
  simp

theorem applySnapshot_rejects {sequence : BitVec 32} {now : ℕ} (hw : w.Sound)
    (h : s.Undecided w s' w') :
    Rejects s w d (Srv.applySnapshot d sequence now) s' w' := by
  refine Wp.bind <| Srv.wp_snapshot fun t ht => Wp.seq <| Srv.wp_mark <| Wp.bind <| Srv.wp_get ?_
  have h1 := (h.env ht).notes [.sampled]
  refine Wp.ite (fun _ => ignore_rejects h1) fun _ =>
    Wp.ite (fun _ => Wp.ite (fun _ => ?_) fun _ => ignore_rejects h1) fun _ => ?_
  · refine Wp.seq <| Srv.wp_renew fun u hu => Srv.wp_mark ?_
    obtain ⟨-, l, hl⟩ := (h1.env hu).mixer.grows
    exact Server.Faithful.honoured (l := .honoured d.source sequence true :: l) h1.sent
      (congrArg (_ :: ·) hl) List.mem_cons_self
  split
  · exact acceptSnapshot_rejects h1.sent h1.mixer.grows.2
  · rename_i args _
    refine Wp.bind <| Srv.wp_mixer fun u hu => ?_
    have h2 := h1.env hu
    refine Wp.ite (fun _ => ?_) fun hres => ?_
    · obtain ⟨-, l, hl⟩ := h2.mixer.grows
      obtain ⟨l', hl', -⟩ := u.after_history args
      exact acceptSnapshot_rejects h2.sent ⟨l' ++ l, by rw [List.append_assoc, ← hl]; exact hl'⟩
    · have hsame : u.after args = u := (h2.mixer.sound hw).after_refused hres
      have hkept : s.Undecided w s' (u.after args) := by
        rw [hsame]
        exact h2
      exact ignore_rejects hkept

theorem handleSnapshot_rejects (hw : w.Sound) : Rejects s w d (Srv.handleSnapshot d) s w := by
  have h := Server.Undecided.refl s w
  refine Wp.bind <| Srv.wp_now fun t ht => Wp.ite (fun _ => ignore_rejects (h.env ht)) fun _ =>
    Wp.bind <| Srv.wp_get <| Wp.seq <| Srv.wp_mark <| Wp.seq <| Srv.wp_modify ?_
  have h1 := ((h.env ht).notes (s.movementReplay.pruneMarks t.clock)).pruneReplay
    (le_refl t.clock) rfl
  exact Wp.ite (fun _ => ignore_rejects h1) fun _ => applySnapshot_rejects hw h1

theorem performAscii_rejects {c : Ascii.Command} (hw : w.Sound) :
    Rejects s w d (Srv.performAscii d c) s w := by
  refine Wp.bind <| Srv.wp_snapshot fun t ht => Wp.seq <| Srv.wp_mark <| Wp.bind <| Srv.wp_get ?_
  have h := ((Server.Undecided.refl s w).env ht).notes [.sampled]
  refine Wp.ite (fun _ => answer_rejects h) fun _ => Wp.ite (fun _ => answer_rejects h) fun _ =>
    Wp.ite (fun _ => Wp.ite (fun _ => answer_rejects h) fun _ =>
      Wp.ite (fun _ => answer_rejects h) fun _ => ?_) fun _ => ?_
  · refine Wp.bind <| Srv.wp_now fun u _ => Wp.seq <| Srv.wp_mark <| Wp.seq <| Srv.wp_modify <|
      Wp.seq <| Srv.wp_renew fun v _ => Wp.seq <| Srv.wp_modify <| Srv.wp_modify ?_
    exact Server.Faithful.answered [] [] rfl (by decide)
  · refine Wp.bind <| Srv.wp_mixer fun u hu => Wp.ite (fun hres => ?_) fun _ => Wp.seq <|
      Srv.wp_mark <| Wp.seq <| Srv.wp_modify <| Wp.seq <| Srv.wp_renew fun v _ => Wp.seq <|
        Srv.wp_modify <| Srv.wp_modify ?_
    · have h1 := h.env hu
      have hsame : u.after (s.asciiArgs c.command c.next) = u :=
        (h1.mixer.sound hw).after_refused hres
      have hkept : s.Undecided w s (u.after (s.asciiArgs c.command c.next)) := by
        rw [hsame]
        exact h1
      exact answer_rejects hkept
    · exact Server.Faithful.answered [] [] rfl (by decide)

theorem handleAscii_rejects {text : List Char} (hw : w.Sound) :
    Rejects s w d (Srv.handleAscii d text) s w := by
  have h := Server.Undecided.refl s w
  unfold Srv.handleAscii
  split
  · exact answer_rejects h
  refine Wp.bind <| Srv.wp_get <| Wp.ite (fun _ => Wp.ite (fun _ => answer_rejects h) fun _ => ?_)
    fun _ => Wp.ite (fun _ => answer_rejects h) fun _ => ?_
  · refine Wp.seq <| Srv.wp_beginReset fun now1 now2 t _ => Wp.seq <| Srv.wp_renew fun u _ =>
      Srv.wp_modify ?_
    obtain ⟨l, hl⟩ := Server.Sends.reset s false {} now1 now2 t.clearGeneration
    exact Server.Faithful.answered [] l (congrArg (_ :: ·) hl) (by decide)
  · split
    · exact answer_rejects h
    · exact performAscii_rejects hw

theorem handleText_rejects (hw : w.Sound) : Rejects s w d (Srv.handleText d) s w := by
  have h := Server.Undecided.refl s w
  exact Wp.bind <| Srv.wp_get <| Wp.ite (fun _ => Wp.bind <| Srv.wp_snapshot fun t ht =>
    answer_rejects (h.env ht)) fun _ => Wp.ite (fun _ => answer_rejects h) fun _ =>
      Wp.ite (fun _ => handleSnapshot_rejects hw) fun _ => handleAscii_rejects hw

end Handlers

/-! ### The exception -/

/-- `admit` without `force` fails on a full table of protected sessions only. -/
theorem ClickSessions.Tracker.admitPruned_none {t : ClickSessions.Tracker} {session now : ℕ}
    {protectedSession : ℕ → Bool} :
    t.admitPruned session now false protectedSession = none ↔
      find t.active session = none ∧ maxActive ≤ t.active.length ∧
        ∀ e ∈ t.active, protectedSession e.session = true := by
  have hvictim : t.victim false protectedSession = none ↔
      maxActive ≤ t.active.length ∧ ∀ e ∈ t.active, protectedSession e.session = true := by
    unfold victim
    split
    · rename_i hroom
      simp [Nat.not_le.mpr hroom]
    · rename_i hfull
      split
      · rename_i e hfind
        have hfree := List.find?_some hfind
        have hmem := List.mem_of_find?_eq_some hfind
        simp only [Bool.not_eq_true'] at hfree
        simp only [reduceCtorEq, false_iff, not_and, not_forall]
        exact fun _ => ⟨e, hmem, by simp [hfree]⟩
      · rename_i hnone
        simpa [Nat.not_lt.mp hfull] using List.find?_eq_none.mp hnone
  rw [← hvictim]
  unfold admitPruned
  split
  · rename_i e hfind
    simp [hfind]
  · rename_i hfind
    split
    · rename_i hnone
      simp [hfind, hnone]
    · rename_i victim hsome
      simp [hsome]

/-- Eviction takes terminal records only, so it ends no protection. -/
theorem Server.sessionProtected_removeOldCache (s : Server) (session : ℕ) :
    s.removeOldCache.sessionProtected session = s.sessionProtected session := by
  rw [Bool.eq_iff_iff]
  simp only [Server.sessionProtected, List.any_eq_true, Bool.and_eq_true, Bool.not_eq_true']
  constructor
  · rintro ⟨c, hc, hprotected⟩
    exact ⟨c, (evictLoop_sublist _ _).subset hc, hprotected⟩
  · rintro ⟨c, hc, hkey, hlive⟩
    exact ⟨c, evictLoop_keeps hc hlive, hkey, hlive⟩

/-- The shared state a UPC1 handler samples after its reading of the clock. -/
def Server.clickWorld (s : Server) (w : World) (sched : List (List EnvStep)) : World :=
  let t := envRun World.env w (sched.headD [])
  envRun World.env (t.notes (s.sessions.pruneMarks t.clock)) (sched.tail.headD [])

/-- A Schedule that passes every check of its own finds a full cache, and a session table whose
sessions all have open commands and are not its own. -/
structure Server.Crowded (s : Server) (w : World) (sched : List (List EnvStep)) (d : Datagram)
    (r : ClickProtocol.Request) : Prop where
  heard : s.Hears d
  parses : ClickProtocol.parse d.data = some r
  schedules : r.operation = .schedule
  owner : s.owned = true → s.owner = d.source
  fresh : findCache s.cache r.key = none
  current : (s.sessions.prune (envRun World.env w (sched.headD [])).clock).isStale r.session
    r.command = false
  passes : s.scheduleVerdict (s.clickWorld w sched).endpointSnapshot r = none
  cache : maxCacheRecords ≤ s.cache.length
  sessions : ClickSessions.maxActive ≤ s.sessions.active.length
  stranger : ClickSessions.find s.sessions.active r.session = none
  busy : ∀ e ∈ s.sessions.active, s.sessionProtected e.session = true

section Exception

variable {s s' : Server} {w w' : World} {d : Datagram} {r : ClickProtocol.Request}
  {sched : List (List EnvStep)}

theorem handleClick_rejects (ha : s.Accounted none) (hheard : s.Hears d)
    (hcrowd : ∀ r, ¬ s.Crowded w sched d r) :
    Post (Srv.handleClick d) (fun _ c => s.Faithful w d c.priv c.shared) ⟨s, w, sched⟩ := by
  have h := Server.Undecided.refl s w
  have hpost {x : Srv Unit} {s' : Server} {w' : World} {sched' : List (List EnvStep)}
      (hx : Rejects s w d x s' w') :
      Post x (fun _ c => s.Faithful w d c.priv c.shared) ⟨s', w', sched'⟩ := hx sched'
  unfold Srv.handleClick
  cases hparse : ClickProtocol.parse d.data with
  | none => exact hpost (answer_rejects h)
  | some r =>
    refine Post.bind <| Srv.post_get <| Post.ite (fun _ => hpost (answer_rejects h))
      fun howner => ?_
    have howner : s.owned = true → s.owner = d.source := by
      intro howned
      by_contra hother
      exact howner ⟨howned, hother⟩
    dsimp only
    split
    · rename_i prior hfind
      exact hpost (retryClick_rejects hheard howner hparse hfind)
    rename_i hfresh
    refine Post.bind <| Srv.post_now <| Post.seq <| Srv.post_mark <| Post.seq <|
      Srv.post_modify ?_
    have h1 := ((h.env ⟨sched.headD [], rfl⟩).notes (s.sessions.pruneMarks
      (envRun World.env w (sched.headD [])).clock)).pruneSessions _
      (.inr ⟨(envRun World.env w (sched.headD [])).clock, le_rfl, rfl⟩)
    refine Post.ite (fun _ => hpost (answer_rejects h1)) fun hcurrent => Post.bind <|
      Srv.post_snapshot <| Post.seq <| Srv.post_mark ?_
    have h2 := (h1.env ⟨sched.tail.headD [], rfl⟩).notes [.sampled]
    have ha2 : (s.pruneSessions (envRun World.env w (sched.headD [])).clock).Accounted none :=
      ha.congr rfl rfl rfl rfl rfl
    cases hop : r.operation with
    | releaseAll => exact hpost (releaseAll_rejects ha2 rfl)
    | schedule =>
      dsimp only
      split
      · exact hpost (answer_rejects h2)
      · rename_i hpasses
        refine hpost (scheduleClick_rejects ha2 h2 rfl ?_ fun hfull hnone => ?_)
        · exact reach_clock (w := (envRun World.env w (sched.headD [])).notes
            (s.sessions.pruneMarks _)) (t := envRun World.env _ (sched.tail.headD [])) ⟨_, rfl⟩
        · obtain ⟨hstranger, hsessions, hbusy⟩ :=
            ClickSessions.Tracker.admitPruned_none.mp hnone
          refine hcrowd r ⟨hheard, hparse, hop, howner, hfresh, by simpa using hcurrent, hpasses,
            hfull, hsessions, hstranger, fun e he => ?_⟩
          rw [← Server.sessionProtected_removeOldCache]
          exact hbusy e he

/-- The answer to a Schedule that `admit` refuses, after an eviction. -/
theorem scheduleClick_crowded {e : EndpointSnapshot} {now : ℕ} (ha : s'.Accounted none)
    (hsent : s'.sent = s.sent) (hnone : (s'.sessions.prune now).admitPruned r.session now false
      s'.removeOldCache.sessionProtected = none) :
    Wp (Srv.scheduleClick d r e now) (fun _ s' _ => s'.cache.length < maxCacheRecords ∧
      ∃ p : Packet, s'.sent = (d.source, p) :: s.sent ∧ p.Rejects = true) s' w' := by
  have hroom := ha.makesRoom
  refine Wp.bind <| Srv.wp_get <| Wp.seq <| Srv.wp_mark <| Wp.seq <| Srv.wp_modify <|
    Wp.ite (fun hfull => absurd hroom (Nat.not_lt.mpr hfull)) fun _ => Wp.seq <|
      Srv.wp_mark <| Wp.seq <| Srv.wp_modify ?_
  have hnone' : (s'.removeOldCache.sessions.prune now).admitPruned r.session now false
      s'.removeOldCache.sessionProtected = none := hnone
  rw [hnone']
  exact Srv.wp_modify ⟨hroom, _, congrArg (_ :: ·) hsent, rfl⟩

theorem handleClick_crowded (ha : s.Accounted none) (h : s.Crowded w sched d r) :
    Post (Srv.handleClick d) (fun _ c => c.priv.cache.length < maxCacheRecords ∧
      ∃ p : Packet, c.priv.sent = (d.source, p) :: s.sent ∧ p.Rejects = true) ⟨s, w, sched⟩ := by
  unfold Srv.handleClick
  rw [h.parses]
  refine Post.bind <| Srv.post_get <| Post.ite
    (fun hother => absurd (h.owner hother.1) hother.2) fun _ => ?_
  have hfresh : findCache s.cache ⟨r.session, r.command⟩ = none := h.fresh
  rw [hfresh]
  refine Post.bind <| Srv.post_now <| Post.seq <| Srv.post_mark <| Post.seq <| Srv.post_modify <|
    Post.ite (fun hold => ?_) fun _ => Post.bind <| Srv.post_snapshot <| Post.seq <|
      Srv.post_mark ?_
  · dsimp only at hold
    rw [h.current] at hold
    cases hold
  · rw [h.schedules]
    have hpasses := h.passes
    unfold Server.clickWorld at hpasses
    dsimp only at hpasses ⊢
    rw [hpasses]
    have ha2 : (s.pruneSessions (envRun World.env w (sched.headD [])).clock).Accounted none :=
      ha.congr rfl rfl rfl rfl rfl
    refine scheduleClick_crowded ha2 rfl ?_ _
    refine ClickSessions.Tracker.admitPruned_none.mpr ⟨h.stranger, h.sessions, fun e he => ?_⟩
    rw [Server.sessionProtected_removeOldCache]
    exact h.busy e he

/-- A datagram that is heard is answered faithfully, but for the exception. -/
theorem handle_rejects (ha : s.Accounted none) (hw : w.Sound) (hheard : s.Hears d)
    (hcrowd : ∀ r, ¬ s.Crowded w sched d r) :
    Post (Srv.handle d) (fun _ c => s.Faithful w d c.priv c.shared) ⟨s, w, sched⟩ := by
  refine Post.ite (fun _ => handleSubscribe_rejects sched) fun _ =>
    Post.ite (fun _ => handleQuery_rejects sched) fun _ =>
    Post.ite (fun _ => handleMove_rejects ha hheard sched) fun _ =>
    Post.ite (fun _ => handleClick_rejects ha hheard hcrowd) fun _ => handleText_rejects hw sched

theorem receive_rejects (ha : s.Accounted none) (hw : w.Sound)
    (hcrowd : ∀ r, ¬ s.Crowded w sched d r) :
    Post (Srv.receive (some d)) (fun _ c => s.Faithful w d c.priv c.shared) ⟨s, w, sched⟩ := by
  have h : Rejects s w d (pure ()) s w := ignore_rejects (Server.Undecided.refl s w)
  refine Post.bind <| Srv.post_get <| Post.ite (fun _ => h sched) fun hsize =>
    Post.ite (fun _ => h sched) fun hpeer => ?_
  rw [not_or, Nat.not_lt] at hsize
  exact handle_rejects ha hw ⟨hsize.1, hsize.2, by simpa using hpeer⟩ hcrowd

theorem receive_crowded (ha : s.Accounted none) (h : s.Crowded w sched d r) :
    Post (Srv.receive (some d)) (fun _ c => c.priv.cache.length < maxCacheRecords ∧
      ∃ p : Packet, c.priv.sent = (d.source, p) :: s.sent ∧ p.Rejects = true) ⟨s, w, sched⟩ := by
  refine Post.bind <| Srv.post_get <| Post.ite (fun hsize => ?_) fun _ =>
    Post.ite (fun hpeer => ?_) fun _ => ?_
  · rcases hsize with hempty | hlong
    · exact absurd hempty h.heard.1
    · exact absurd h.heard.2.1 (Nat.not_le.mpr hlong)
  · rw [h.heard.2.2] at hpeer
    cases hpeer
  · rw [(handle_click h.parses).2]
    exact handleClick_crowded ha h

/-- The exception is no retry. -/
theorem Server.Crowded.not_repeats (h : s.Crowded w sched d r) : ¬ s.Repeats d := by
  rintro ⟨-, -, ⟨r', prior, hparse, -⟩ | ⟨r', prior, hparse, hfind, -⟩⟩
  · have hlength := (handle_click h.parses).1
    rw [MoveProtocol.parse, if_pos (.inl (by rw [hlength]; decide))] at hparse
    cases hparse
  · rw [h.parses] at hparse
    cases hparse
    rw [h.fresh] at hfind
    cases hfind

end Exception

/-- The exception is a rejection, and a record is gone after it. -/
theorem Config.crowded_changes {c : Config} (hc : c.Reachable) (hstage : c.stage = .receive)
    {sched : List (List EnvStep)} {d : Datagram} {r : ClickProtocol.Request}
    (h : c.server.Crowded c.world sched d r) :
    c.server.Rejected c.world d (c.step (.server sched (some d))).server
        (c.step (.server sched (some d))).world ∧
      ¬ c.server.Unchanged c.world (c.step (.server sched (some d))).server
        (c.step (.server sched (some d))).world := by
  have haccounted := hc.accounted
  rw [hstage] at haccounted
  simp only [Config.step, hstage]
  obtain ⟨hroom, hsent⟩ := receive_crowded haccounted h
  refine ⟨⟨h.not_repeats, .inl hsent⟩, fun hkept => ?_⟩
  have hfull := h.cache
  rw [← hkept.cache] at hfull
  exact Nat.not_lt.mpr hfull hroom

/-- **A rejected datagram changes nothing**, from every reachable state and under every schedule of
the other threads, unless it is a Schedule that finds the cache and the session table full. -/
theorem rejected_unchanged {c : Config} (hc : c.Reachable) (hstage : c.stage = .receive)
    (sched : List (List EnvStep)) (d : Datagram) :
    (c.server.Rejected c.world d (c.step (.server sched (some d))).server
        (c.step (.server sched (some d))).world →
      c.server.Unchanged c.world (c.step (.server sched (some d))).server
        (c.step (.server sched (some d))).world) ↔
      ∀ r, ¬ c.server.Crowded c.world sched d r := by
  constructor
  · intro h r hcrowded
    obtain ⟨hrejected, hchanged⟩ := Config.crowded_changes hc hstage hcrowded
    exact hchanged (h hrejected)
  · intro hcrowd
    have haccounted := hc.accounted
    rw [hstage] at haccounted
    simp only [Config.step, hstage]
    exact receive_rejects haccounted hc.sound hcrowd

/-- Another controller's click is refused while one is on its way. -/
theorem rejected_unchanged_clicking :
    clicking.server.Unchanged clicking.world
      (clicking.step (.server []
        (some ⟨⟨2, 2⟩, ClickProtocol.request .schedule 8 1 1 3 1000 10000 1⟩))).server
      (clicking.step (.server []
        (some ⟨⟨2, 2⟩, ClickProtocol.request .schedule 8 1 1 3 1000 10000 1⟩))).world := by
  refine (rejected_unchanged ⟨1, none, _, rfl⟩ (by decide +kernel) []
    ⟨⟨2, 2⟩, ClickProtocol.request .schedule 8 1 1 3 1000 10000 1⟩).mpr (fun r h => ?_) ⟨?_, ?_⟩
  · exact absurd h.cache (by decide +kernel)
  · exact fun h => absurd (h.2.1 (by decide +kernel)) (by decide +kernel)
  · exact .inl ⟨.upa {
      status := .busy, button := 1, session := 8, command := 1, serverEpoch := 1, queueDepth := 1 },
      by decide +kernel⟩

/-! ### A run into the exception -/

def Datagram.upc (r : ClickProtocol.Request) : Datagram := ⟨⟨1, 1⟩, r.packet⟩

/-- The `n`th ReleaseAll of session 1. -/
def fence (n : ℕ) : ClickProtocol.Request := { operation := .releaseAll, session := 1, command := n }

/-- The only Schedule of a session. -/
def tap (session : ℕ) : ClickProtocol.Request :=
  { session, command := 1, button := 1, count := 1, pressUs := 1000, intervalUs := 10000 }

theorem fence_parses {n : ℕ} (hn : n < 2 ^ 64) (hpos : n ≠ 0) :
    ClickProtocol.parse (fence n).packet = some (fence n) :=
  ClickProtocol.parse_self (by
    constructor <;> (simp [fence, ClickProtocol.version1]; try omega))
    (.inl rfl) ⟨one_ne_zero, hpos⟩ fun _ => ⟨rfl, rfl, rfl, rfl⟩

theorem tap_parses {k : ℕ} (hk : k < 2 ^ 64) (hpos : k ≠ 0) :
    ClickProtocol.parse (tap k).packet = some (tap k) :=
  ClickProtocol.parse_self (by
    constructor <;> (simp [tap, ClickProtocol.version1]; try omega))
    (.inl rfl) ⟨hpos, one_ne_zero⟩ nofun

/-- Every record and session so far is of a session up to `k`, and each of the `k` sessions has an
open record. -/
structure Server.Filled (s : Server) (n k : ℕ) : Prop where
  owner : s.owner = ⟨1, 1⟩
  filter : s.peerFilter = none
  mover : s.mover = {}
  subscription : s.subscription = {}
  held : s.persistentButtons = 0
  owes : s.releasePending = true
  records : s.cache.length = n
  keys : ∀ c ∈ s.cache, c.key.session ≤ k
  retired : s.sessions.retired = []
  table : s.sessions.active.length = k
  sessions : ∀ e ∈ s.sessions.active, e.session ≤ k
  busy : ∀ e ∈ s.sessions.active, s.sessionProtected e.session = true
  work : s.work.length + 1 = k

/-- Before the mouse is there: `n` ReleaseAlls of session 1, the last still owed. -/
structure Config.Fenced (c : Config) (n : ℕ) : Prop where
  stage : c.stage = .top
  world : ∃ h, c.world = { history := h }
  filled : c.server.Filled n 1
  untracked : c.server.trackedGeneration = 0
  idle : c.server.releaseInflight = false
  key : c.server.releaseKey = ⟨1, n⟩
  active : c.server.sessions.active = [⟨1, n, 0⟩]
  commands : ∀ record ∈ c.server.cache, record.key.command ≤ n

theorem upc_heard {s : Server} (h : s.peerFilter = none) (r : ClickProtocol.Request) :
    s.Hears (.upc r) := by
  refine ⟨?_, ?_, by rw [h]; rfl⟩
  · exact (by decide : 40 ≠ 0)
  · exact (by decide : 40 ≤ 1024)

theorem Config.Fenced.next {c : Config} {n : ℕ} (h : c.Fenced n) (hn : n < 255) :
    (c.run (Action.iteration (some (.upc (fence (n + 1)))))).Fenced (n + 1) := by
  obtain ⟨stage, s, w⟩ := c
  obtain ⟨hstage, ⟨hist, hworld⟩, hfilled, huntracked, hidle, hkey, hactive, hcommands⟩ := h
  dsimp only at hstage hworld hfilled huntracked hidle hkey hactive hcommands
  subst hstage hworld
  have htrack : s.track (World.endpointSnapshot { history := hist }) = s :=
    if_neg fun h => by simp [World.endpointSnapshot] at h
  have hwaits : s.Waits { history := hist } :=
    ⟨hfilled.mover, hfilled.subscription, hfilled.owes, rfl, rfl, by simp, by
      rw [htrack, huntracked]
      exact fun h => absurd rfl h⟩
  have hrun := hwaits.run_release hidle
  rw [htrack] at hrun
  have hfailed : World.enqueueFinalRelease (World.note { history := hist } .checked)
      s.trackedGeneration s.releaseKey = ({ history := .checked :: hist }, .notReady) := rfl
  rw [hfailed] at hrun
  have hsame : { s with releaseInflight := (EnqueueResult.notReady = .ok : Bool) } = s := by
    rw [show (EnqueueResult.notReady = .ok : Bool) = false from rfl, ← hidle]
  rw [hsame] at hrun
  have htakes : s.Takes { history := .checked :: hist } (.upc (fence (n + 1))) (fence (n + 1)) := by
    refine ⟨upc_heard hfilled.filter _, fence_parses (by omega) (by omega), fun _ => hfilled.owner,
      ?_, ?_, ?_⟩
    · refine findCache_none.mpr fun hmem => ?_
      obtain ⟨record, hrecord, heq⟩ := List.mem_map.mp hmem
      have hle := hcommands record hrecord
      rw [heq] at hle
      exact Nat.not_succ_le_self n hle
    · simp [ClickSessions.Tracker.isStale, ClickSessions.Tracker.prune, hactive, ClickSessions.find,
        fence]
    · rw [hfilled.records]
      exact (by omega : n < 256)
  have hsessions : s.sessions = ⟨[⟨1, n, 0⟩], []⟩ := by
    rw [← hactive, ← hfilled.retired]
  have hadmitted : (s.sessions.prune 0).admitPruned (fence (n + 1)).session 0 true
      s.sessionProtected = some (⟨[⟨1, n, 0⟩], []⟩, []) := by
    rw [hsessions]
    rfl
  have hwork : s.work = [] := List.length_eq_zero_iff.mp (Nat.succ.inj hfilled.work)
  obtain ⟨l, edits', sent, hedits, hstep⟩ := step_fence htakes rfl hadmitted hfilled.mover hwork
  rw [run_iteration, hrun, hstep]
  have hkeys := edits_keys edits' (s.cache ++ [Server.clickRecord (fence (n + 1)) ⟨1, 1⟩ 0])
  have hmem {P : Key → Prop} (hold : ∀ c ∈ s.cache, P c.key) (hnew : P ⟨1, n + 1⟩) :
      ∀ c ∈ edits edits' (s.cache ++ [Server.clickRecord (fence (n + 1)) ⟨1, 1⟩ 0]), P c.key := by
    intro c hc
    have hkey : c.key ∈ cacheKeys (s.cache ++ [Server.clickRecord (fence (n + 1)) ⟨1, 1⟩ 0]) := by
      rw [← hkeys]
      exact List.mem_map_of_mem hc
    obtain ⟨c', hc', heq⟩ := List.mem_map.mp hkey
    rw [← heq]
    rcases List.mem_append.mp hc' with hc' | hc'
    · exact hold c' hc'
    · rw [List.mem_singleton.mp hc']
      exact hnew
  have hlive : Server.clickRecord (fence (n + 1)) ⟨1, 1⟩ 0 ∈
      edits edits' (s.cache ++ [Server.clickRecord (fence (n + 1)) ⟨1, 1⟩ 0]) :=
    edits_keep (by simp) hedits
  have hmarks : (ClickSessions.Tracker.mk [⟨1, n, 0⟩] []).accept 1 (n + 1) 0 =
      ⟨[⟨1, n + 1, 0⟩], []⟩ := by
    simp [ClickSessions.Tracker.accept, ClickSessions.find, ClickSessions.remove]
  refine ⟨rfl, ⟨_, rfl⟩, ?_, rfl, rfl, rfl, hmarks ▸ rfl, ?_⟩
  · refine ⟨rfl, hfilled.filter, rfl, hfilled.subscription, rfl, rfl, ?_,
      hmem (P := fun key => key.session ≤ 1) hfilled.keys le_rfl, hmarks ▸ rfl, hmarks ▸ rfl, ?_, ?_,
      rfl⟩
    · simp [hfilled.records]
    · intro e he
      have he : e ∈ ((ClickSessions.Tracker.mk [⟨1, n, 0⟩] []).accept 1 (n + 1) 0).active := he
      rw [hmarks] at he
      rw [List.mem_singleton.mp he]
    · intro e he
      have he : e ∈ ((ClickSessions.Tracker.mk [⟨1, n, 0⟩] []).accept 1 (n + 1) 0).active := he
      rw [hmarks] at he
      rw [List.mem_singleton.mp he]
      exact List.any_eq_true.mpr ⟨_, hlive, rfl⟩
  · exact hmem (P := fun key => key.command ≤ n + 1) (fun c hc => (hcommands c hc).trans (by omega))
      le_rfl

/-- With the mouse, before the next datagram: every session but the first has its Schedule queued
behind the release. -/
structure Config.Ready (c : Config) (k : ℕ) : Prop where
  stage : c.stage = .receive
  filled : c.server.Filled (224 + k) k
  inflight : c.server.releaseInflight = true
  events : c.world.writerEvents = []
  overflow : c.world.writerOverflow = false
  lease : c.world.clock - c.server.last ≤ 250000000
  ready : c.world.endpointSnapshot.ready = true
  supported : c.world.endpointSnapshot.supported &&& buttonBit 1 ≠ 0
  physical : c.world.endpointSnapshot.physical = 0
  pollUs : c.world.endpointSnapshot.pollUs = 1000
  generation : c.world.endpointSnapshot.generation = c.server.trackedGeneration

theorem Config.Ready.verdict {c : Config} {k : ℕ} (h : c.Ready k) (hk : k ≤ 32) (session : ℕ) :
    c.server.scheduleVerdict c.world.endpointSnapshot (tap session) = none := by
  have hwork := h.filled.work
  have hroom : ¬ maxClickCommands ≤ c.server.work.length := by
    unfold maxClickCommands
    omega
  unfold Server.scheduleVerdict
  rw [h.filled.mover, h.ready, h.physical, h.filled.held, h.pollUs, if_neg (by decide),
    if_neg (by decide), if_neg, if_neg, if_neg (by simp), if_neg hroom]
  · simp [tap, ClickProtocol.version1]
  · rintro (hlow | hhigh | hunsupported)
    · exact absurd hlow (by simp [tap])
    · exact absurd hhigh (by simp [tap])
    · exact h.supported hunsupported

/-- An iteration up to its datagram changes nothing then. -/
theorem Config.Ready.of_top {s : Server} {w : World} {k : ℕ} (h : Config.Ready ⟨.receive, s, w⟩ k) :
    (Config.run ⟨.top, s, w⟩ (List.replicate 7 (.server [] none))).Ready k := by
  obtain ⟨-, hfilled, hinflight, hevents, hoverflow, hlease, hready, hsupported, hphysical, hpoll,
    hgeneration⟩ := h
  dsimp only at hfilled hinflight hevents hoverflow hlease hgeneration
  have htrack : s.track w.endpointSnapshot = s := by
    unfold Server.track
    rw [hgeneration]
    split <;> rfl
  have hwaits : s.Waits w := by
    refine ⟨hfilled.mover, hfilled.subscription, hfilled.owes, hevents, hoverflow, hlease, ?_⟩
    rw [htrack]
    exact fun _ => hgeneration
  rw [hwaits.run_inflight hinflight, htrack]
  exact ⟨rfl, hfilled, hinflight, hevents, hoverflow, hlease, hready, hsupported, hphysical, hpoll,
    hgeneration⟩

/-- One more session with a Schedule. -/
theorem Server.Filled.push {s : Server} {n k : ℕ} (h : s.Filled n k) (click : ClickWork)
    (stamp total last generation : ℕ) (sent : List (Peer × Packet)) :
    Server.Filled { s with
      sessions := ⟨s.sessions.active ++ [⟨k + 1, 1, stamp⟩], []⟩
      cache := s.cache ++ [Server.clickRecord (tap (k + 1)) ⟨1, 1⟩ 1], work := s.work ++ [click]
      acceptedTotal := total, owner := ⟨1, 1⟩, owned := true, last
      trackedGeneration := generation, sent } (n + 1) (k + 1) := by
  refine ⟨rfl, h.filter, h.mover, h.subscription, h.held, h.owes, ?_, fun c hc => ?_, rfl, ?_,
    fun e he => ?_, fun e he => ?_, ?_⟩
  · simp [h.records]
  · rcases List.mem_append.mp hc with hc | hc
    · exact (h.keys c hc).trans (Nat.le_succ k)
    · rw [List.mem_singleton.mp hc]
      exact le_rfl
  · simp [h.table]
  · rcases List.mem_append.mp he with he | he
    · exact (h.sessions e he).trans (Nat.le_succ k)
    · rw [List.mem_singleton.mp he]
  · rw [Server.sessionProtected, List.any_append, Bool.or_eq_true]
    rcases List.mem_append.mp he with he | he
    · exact .inl (h.busy e he)
    · rw [List.mem_singleton.mp he]
      exact .inr (by simp [Server.clickRecord, tap])
  · simp [h.work]

theorem Config.Ready.next {c : Config} {k : ℕ} (h : c.Ready k) (hk : k < 32) :
    (c.run (.server [] (some (.upc (tap (k + 1)))) :: List.replicate 7 (.server [] none))).Ready
      (k + 1) := by
  have hverdict := h.verdict hk.le (k + 1)
  obtain ⟨stage, s, w⟩ := c
  obtain ⟨hstage, hfilled, hinflight, hevents, hoverflow, hlease, hready, hsupported, hphysical,
    hpoll, hgeneration⟩ := h
  dsimp only at hverdict hstage hfilled hinflight hevents hoverflow hlease
  dsimp only at hready hsupported hphysical hpoll hgeneration
  subst hstage
  have hstranger : ∀ e ∈ s.sessions.active, (e.session == k + 1) = false := by
    intro e he
    have hle := hfilled.sessions e he
    exact beq_false_of_ne (by omega)
  have hfind : ClickSessions.find s.sessions.active (k + 1) = none :=
    List.find?_eq_none.mpr fun e he => by simp [hstranger e he]
  have htakes : s.Takes w (.upc (tap (k + 1))) (tap (k + 1)) := by
    refine ⟨upc_heard hfilled.filter _, tap_parses (by omega) (by omega), fun _ => hfilled.owner,
      ?_, ?_, ?_⟩
    · refine findCache_none.mpr fun hmem => ?_
      obtain ⟨record, hrecord, heq⟩ := List.mem_map.mp hmem
      have hle := hfilled.keys record hrecord
      rw [heq] at hle
      exact Nat.not_succ_le_self k hle
    · unfold ClickSessions.Tracker.isStale
      rw [show ClickSessions.find (s.sessions.prune w.clock).active (tap (k + 1)).session = none
        from hfind]
      simp [ClickSessions.Tracker.prune, hfilled.retired, ClickSessions.find]
    · rw [hfilled.records]
      exact (by omega : 224 + k < 256)
  have hadmitted : (s.sessions.prune w.clock).admitPruned (tap (k + 1)).session w.clock false
      s.sessionProtected = some (⟨s.sessions.active ++ [⟨k + 1, 0, w.clock⟩], []⟩, []) := by
    have hvictim : (s.sessions.prune w.clock).victim false s.sessionProtected = some none :=
      if_pos (hfilled.table ▸ hk)
    unfold ClickSessions.Tracker.admitPruned
    rw [show ClickSessions.find (s.sessions.prune w.clock).active (tap (k + 1)).session = none
      from hfind, hvictim]
    simp [ClickSessions.Tracker.prune, hfilled.retired, ClickSessions.find, ClickSessions.remove, tap]
  have hmarks : (ClickSessions.Tracker.mk (s.sessions.active ++ [⟨k + 1, 0, w.clock⟩]) []).accept
      (tap (k + 1)).session (tap (k + 1)).command w.clock = ⟨s.sessions.active ++ [⟨k + 1, 1, w.clock⟩], []⟩ := by
    have hfound : ClickSessions.find (s.sessions.active ++ [⟨k + 1, 0, w.clock⟩]) (k + 1) =
        some ⟨k + 1, 0, w.clock⟩ := by
      rw [ClickSessions.find, List.find?_append, show List.find? _ s.sessions.active = none from hfind]
      simp
    have hremoved : ClickSessions.remove (s.sessions.active ++ [⟨k + 1, 0, w.clock⟩]) (k + 1) =
        s.sessions.active := by
      rw [ClickSessions.remove, List.eraseP_append_right]
      · simp
      · simpa using hstranger
    rw [ClickSessions.Tracker.accept, show (tap (k + 1)).session = k + 1 from rfl, hfound, hremoved]
    rfl
  obtain ⟨l, sent, hstep⟩ := step_pushClick htakes rfl hverdict hadmitted
  have hfilled' := hfilled.push {
    key := (tap (k + 1)).key, button := 1, count := 1, pressUs := 1000, intervalUs := 10000
    dueNs := w.clock, binary := true } w.clock (s.acceptedTotal + 1) w.clock
      w.endpointSnapshot.generation sent
  rw [hmarks] at hstep
  have hnow : w.clock - w.clock ≤ 250000000 := by omega
  rw [run_cons, hstep]
  exact Config.Ready.of_top ⟨rfl, hfilled', hinflight, hevents, hoverflow, hnow, hready, hsupported,
    hphysical, hpoll, rfl⟩

/-- The ReleaseAlls of the run. -/
def fences (n : ℕ) : List Action :=
  (List.range n).flatMap fun i => Action.iteration (some (.upc (fence (i + 1))))

theorem run_fences {n : ℕ} (hn : n < 255) :
    ((Config.init 1 none).run (fences (n + 1))).Fenced (n + 1) := by
  induction n with
  | zero =>
    refine ⟨rfl, ⟨((Config.init 1 none).run (fences 1)).world.history, rfl⟩, ?_, by decide +kernel, by decide +kernel, by decide +kernel, by decide +kernel, by decide +kernel⟩
    constructor <;> decide +kernel
  | succ n ih =>
    rw [fences, List.range_succ, List.flatMap_append, List.flatMap_singleton, Config.run,
      List.foldl_append]
    exact (ih (by omega)).next (by omega)

/-- The shared state once the mouse is there. -/
def plug (history : List Mark) : World :=
  envRun World.env { history } [.setProtocol 0 true, .register 129 0 1 1000,
    .physical 129 1 [0, 0, 0], .push 129, .take 129, .written 129 true]

theorem run_mouse {c : Config} {history : List Mark} (hstage : c.stage = .top)
    (hworld : c.world = { history }) :
    c.run Action.mouse = ⟨.top, c.server, plug history⟩ := by
  obtain ⟨stage, s, w⟩ := c
  dsimp only at hstage hworld
  rw [hstage, hworld]
  simp only [Config.run, Action.mouse, List.foldl, Config.step, plug, envRun]

/-- The mouse is selected and idle. -/
def Plugged (w : World) : Prop :=
  w.writerEvents = [] ∧ w.writerOverflow = false ∧ w.clock = 0 ∧
    w.endpointSnapshot.ready = true ∧ w.endpointSnapshot.supported &&& buttonBit 1 ≠ 0 ∧
    w.endpointSnapshot.physical = 0 ∧ w.endpointSnapshot.pollUs = 1000 ∧
    w.endpointSnapshot.generation = 1

/-- The mouse comes, and the release is enqueued. -/
theorem Config.Fenced.wakes {c : Config} {history : List Mark} (h : c.Fenced 225)
    (hworld : c.world = { history }) (hplug : Plugged (plug history))
    (hok : (((plug history).note .checked).enqueueFinalRelease 1 ⟨1, 225⟩).2 = .ok)
    (hplug' : Plugged (((plug history).note .checked).enqueueFinalRelease 1 ⟨1, 225⟩).1) :
    (c.run (Action.mouse ++ List.replicate 7 (.server [] none))).Ready 1 := by
  have hmouse := run_mouse h.stage hworld
  obtain ⟨hevents, hoverflow, hclock, hready, -, -, -, hgeneration⟩ := hplug
  obtain ⟨hevents', hoverflow', hclock', hready', hsupported, hphysical, hpoll, hgeneration'⟩ :=
    hplug'
  obtain ⟨-, -, hfilled, huntracked, hidle, hkey, -, -⟩ := h
  generalize c.server = s at *
  generalize plug history = w at *
  have htrack : s.track w.endpointSnapshot = { s with trackedGeneration := 1 } := by
    rw [Server.track, if_pos ⟨huntracked, hready⟩, hgeneration]
  have hwaits : s.Waits w := by
    refine ⟨hfilled.mover, hfilled.subscription, hfilled.owes, hevents, hoverflow, ?_, ?_⟩
    · rw [hclock]
      omega
    · rw [htrack, hgeneration]
      exact fun _ => rfl
  have hrun := hwaits.run_release hidle
  rw [htrack, hkey, hok] at hrun
  rw [run_append, hmouse, hrun]
  refine ⟨rfl, ?_, rfl, hevents', hoverflow', ?_, hready', hsupported, hphysical, hpoll, hgeneration'⟩
  · exact ⟨hfilled.owner, hfilled.filter, hfilled.mover, hfilled.subscription, hfilled.held,
      hfilled.owes, hfilled.records, hfilled.keys, hfilled.retired, hfilled.table, hfilled.sessions,
      hfilled.busy, hfilled.work⟩
  · dsimp only
    rw [hclock']
    omega

/-- The Schedules of the run, with the iterations that receive them. -/
def taps (n : ℕ) : List Action :=
  (List.range n).flatMap fun i =>
    .server [] (some (.upc (tap (i + 2)))) :: List.replicate 7 (.server [] none)

theorem Config.Ready.run_taps {c : Config} (h : c.Ready 1) {n : ℕ} (hn : n < 32) :
    (c.run (taps n)).Ready (n + 1) := by
  induction n with
  | zero => exact h
  | succ n ih =>
    rw [taps, List.range_succ, List.flatMap_append, List.flatMap_singleton, run_append]
    exact (ih (by omega)).next (by omega)

/-- The run up to the exception: 225 ReleaseAlls of session 1, the mouse, and a Schedule of each of
31 more sessions. -/
def crowded : Config :=
  (Config.init 1 none).run
    (fences 225 ++ (Action.mouse ++ List.replicate 7 (.server [] none)) ++ taps 31)

theorem crowded_ready : crowded.Ready 32 := by
  have hfenced : ((Config.init 1 none).run (fences 225)).Fenced 225 := run_fences (by decide)
  rw [crowded, run_append, run_append]
  refine Config.Ready.run_taps ?_ (by decide)
  have hworld : ((Config.init 1 none).run (fences 225)).world =
      { history := ((Config.init 1 none).run (fences 225)).world.history } := by
    obtain ⟨h, hh⟩ := hfenced.world
    rw [hh]
  exact hfenced.wakes hworld (by unfold Plugged; decide +kernel) (by decide +kernel)
    (by unfold Plugged; decide +kernel)

/-- The session table of 32 is full, and so is the cache: a Schedule of one more session. -/
theorem Config.Ready.crowded {c : Config} (h : c.Ready 32) :
    c.server.Crowded c.world [] (.upc (tap 33)) (tap 33) := by
  have hverdict := h.verdict le_rfl 33
  obtain ⟨-, hfilled, -⟩ := h
  have hstranger : ∀ e ∈ c.server.sessions.active, (e.session == 33) = false := by
    intro e he
    have hle := hfilled.sessions e he
    exact beq_false_of_ne (by omega)
  have hfind : ClickSessions.find c.server.sessions.active 33 = none :=
    List.find?_eq_none.mpr fun e he => by simp [hstranger e he]
  refine ⟨upc_heard hfilled.filter _, tap_parses (by omega) (by omega), rfl, fun _ => hfilled.owner,
    ?_, ?_, hverdict, hfilled.records.ge, hfilled.table.ge, hfind, hfilled.busy⟩
  · refine findCache_none.mpr fun hmem => ?_
    obtain ⟨record, hrecord, heq⟩ := List.mem_map.mp hmem
    have hle := hfilled.keys record hrecord
    rw [heq] at hle
    exact absurd hle (by decide)
  · unfold ClickSessions.Tracker.isStale
    rw [show ClickSessions.find (c.server.sessions.prune _).active (tap 33).session = none from hfind]
    simp [ClickSessions.Tracker.prune, hfilled.retired, ClickSessions.find]

/-- After this run a Schedule is refused, and a record is gone. -/
theorem crowded_evicts :
    crowded.Reachable ∧ crowded.stage = .receive ∧
      crowded.server.Rejected crowded.world (.upc (tap 33))
        (crowded.step (.server [] (some (.upc (tap 33))))).server
        (crowded.step (.server [] (some (.upc (tap 33))))).world ∧
      ¬ crowded.server.Unchanged crowded.world
        (crowded.step (.server [] (some (.upc (tap 33))))).server
        (crowded.step (.server [] (some (.upc (tap 33))))).world := by
  have hreachable : crowded.Reachable := ⟨1, none, _, rfl⟩
  have hready := crowded_ready
  exact ⟨hreachable, hready.stage, Config.crowded_changes hreachable hready.stage hready.crowded⟩

end UsbProxy
