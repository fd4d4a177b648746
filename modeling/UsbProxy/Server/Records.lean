import UsbProxy.Server.Frame

/-!
# What happens to the cached records

Every function of the server changes the cache by `edits`: each edit changes the record of one key
and keeps the key.  Records join at the end of the cache and leave it through `remove_old_cache`.
-/

namespace UsbProxy

open ClickProtocol (Status)

/-! ### Edits -/

/-- A change of the record of one key. -/
inductive Edit
  /-- `terminal` -/
  | finish (key : Key) (status : Status)
  /-- `sync_move` -/
  | sync (key : Key) (ack : MoveProtocol.Ack)
  /-- Another click is completed. -/
  | count (key : Key) (completed : ℕ)
  /-- The answers go to another port. -/
  | readdress (key : Key) (source : Peer)
deriving DecidableEq, Repr

namespace Edit

def key : Edit → Key
  | finish key _ | sync key _ | count key _ | readdress key _ => key

def apply : Edit → CachedCommand → CachedCommand
  | finish _ status, c => { c with status, terminal := true }
  | sync _ ack, c => { c with moveAck := ack, terminal := ack.status.terminal }
  | count _ completed, c => { c with completed }
  | readdress _ peer, c => { c with peer }

/-- The record is terminal after the edit. -/
def Closes : Edit → Prop
  | finish _ _ => True
  | sync _ ack => ack.status.terminal = true
  | count _ _ | readdress _ _ => False

/-- The record is not terminal after the edit, whatever it was. -/
def Opens : Edit → Prop
  | sync _ ack => ack.status.terminal = false
  | finish _ _ | count _ _ | readdress _ _ => False

@[simp] theorem apply_key (e : Edit) (c : CachedCommand) : (e.apply c).key = c.key := by
  cases e <;> rfl

theorem apply_live {e : Edit} {c : CachedCommand} (hopens : ¬ e.Opens)
    (h : (e.apply c).terminal = false) : c.terminal = false ∧ ¬ e.Closes := by
  cases e with
  | finish => cases h
  | sync => exact absurd h hopens
  | count | readdress => exact ⟨h, id⟩

end Edit

def edits (l : List Edit) (cache : List CachedCommand) : List CachedCommand :=
  l.foldl (fun cache e => updateCache e.key e.apply cache) cache

/-- The keys of the records. -/
def cacheKeys (cache : List CachedCommand) : List Key := cache.map (·.key)

section Cache

variable {cache : List CachedCommand} {key : Key} {f g : CachedCommand → CachedCommand}
  {c : CachedCommand} {l : List Edit}

@[simp] theorem edits_nil (cache : List CachedCommand) : edits [] cache = cache := rfl

theorem edits_append (l l' : List Edit) (cache : List CachedCommand) :
    edits (l ++ l') cache = edits l' (edits l cache) := List.foldl_append

theorem edits_singleton (e : Edit) (cache : List CachedCommand) :
    edits [e] cache = updateCache e.key e.apply cache := rfl

theorem findCache_mem (h : findCache cache key = some c) : c ∈ cache ∧ c.key = key :=
  ⟨List.mem_of_find?_eq_some h, by simpa using List.find?_some h⟩

theorem findCache_none : findCache cache key = none ↔ key ∉ cacheKeys cache := by
  simp [findCache, cacheKeys]

theorem updateCache_none (h : findCache cache key = none) : updateCache key f cache = cache := by
  induction cache with
  | nil => rfl
  | cons a rest ih =>
    rw [findCache_none, cacheKeys, List.map_cons, List.mem_cons, not_or] at h
    rw [updateCache, if_neg (Ne.symm h.1), ih (findCache_none.mpr h.2)]

/-- Only the first record of the key is changed, the one `find_cache` finds. -/
theorem updateCache_found (h : findCache cache key = some c) (hfg : f c = g c) :
    updateCache key f cache = updateCache key g cache := by
  induction cache with
  | nil => rfl
  | cons a rest ih =>
    unfold findCache at h ih
    rw [List.find?_cons] at h
    rw [updateCache, updateCache]
    by_cases ha : a.key = key
    · rw [decide_eq_true ha] at h
      cases h
      rw [if_pos ha, if_pos ha, hfg]
    · rw [decide_eq_false ha] at h
      rw [if_neg ha, if_neg ha, ih h]

theorem updateCache_keys (hf : ∀ c, (f c).key = c.key) (cache : List CachedCommand) :
    cacheKeys (updateCache key f cache) = cacheKeys cache := by
  induction cache with
  | nil => rfl
  | cons a rest ih =>
    unfold cacheKeys at ih ⊢
    rw [updateCache]
    split
    · rw [List.map_cons, List.map_cons, hf]
    · rw [List.map_cons, List.map_cons, ih]

theorem mem_updateCache (hkeys : (cacheKeys cache).Nodup) (h : c ∈ updateCache key f cache) :
    (c ∈ cache ∧ c.key ≠ key) ∨ ∃ c' ∈ cache, c'.key = key ∧ c = f c' := by
  induction cache with
  | nil => cases h
  | cons a rest ih =>
    rw [cacheKeys, List.map_cons, List.nodup_cons] at hkeys
    rw [updateCache] at h
    by_cases ha : a.key = key
    · rw [if_pos ha] at h
      rcases List.mem_cons.mp h with rfl | hc
      · exact .inr ⟨a, List.mem_cons_self, ha, rfl⟩
      · refine .inl ⟨List.mem_cons_of_mem _ hc, fun heq => hkeys.1 ?_⟩
        rw [ha, ← heq]
        exact List.mem_map_of_mem hc
    · rw [if_neg ha] at h
      rcases List.mem_cons.mp h with rfl | hc
      · exact .inl ⟨List.mem_cons_self, ha⟩
      · rcases ih hkeys.2 hc with ⟨hmem, hne⟩ | ⟨c', hmem, hkey, heq⟩
        · exact .inl ⟨List.mem_cons_of_mem _ hmem, hne⟩
        · exact .inr ⟨c', List.mem_cons_of_mem _ hmem, hkey, heq⟩

@[simp] theorem edits_keys (l : List Edit) (cache : List CachedCommand) :
    cacheKeys (edits l cache) = cacheKeys cache := by
  induction l generalizing cache with
  | nil => rfl
  | cons e l ih => exact (ih _).trans (updateCache_keys e.apply_key cache)

@[simp] theorem edits_length (l : List Edit) (cache : List CachedCommand) :
    (edits l cache).length = cache.length := by
  have h := congrArg List.length (edits_keys l cache)
  simpa [cacheKeys] using h

/-- **What holds of every record and is kept by the edits of its key, holds after the edits.** -/
theorem edits_forall {P : CachedCommand → Prop} (hkeys : (cacheKeys cache).Nodup)
    (hP : ∀ c ∈ cache, P c) (hedit : ∀ e ∈ l, ∀ c, c.key = e.key → P c → P (e.apply c)) :
    ∀ c ∈ edits l cache, P c := by
  induction l generalizing cache with
  | nil => exact hP
  | cons e l ih =>
    refine @ih (updateCache e.key e.apply cache) ?_ (fun c hc => ?_)
      fun e' he' => hedit e' (List.mem_cons_of_mem _ he')
    · rwa [updateCache_keys e.apply_key]
    · rcases mem_updateCache hkeys hc with ⟨hmem, -⟩ | ⟨c', hmem, hkey, rfl⟩
      · exact hP c hmem
      · exact hedit e List.mem_cons_self c' hkey (hP c' hmem)

/-- A record is as before when no edit is of its key. -/
theorem edits_keep (h : c ∈ cache)
    (hl : ∀ e ∈ l, e.key ≠ c.key) : c ∈ edits l cache := by
  induction l generalizing cache with
  | nil => exact h
  | cons e l ih =>
    refine @ih (updateCache e.key e.apply cache) ?_ fun e' he' => hl e' (List.mem_cons_of_mem _ he')
    have hne := hl e List.mem_cons_self
    clear ih hl
    induction cache with
    | nil => cases h
    | cons a rest ih =>
      rw [updateCache]
      split
      · rename_i hkey
        rcases List.mem_cons.mp h with rfl | h
        · exact absurd hkey.symm hne
        · exact List.mem_cons_of_mem _ h
      · rcases List.mem_cons.mp h with rfl | h
        · exact List.mem_cons_self
        · exact List.mem_cons_of_mem _ (ih h)

/-- A record that is live after the edits, none of which opened it, was live before and none
closed it. -/
theorem edits_live (hkeys : (cacheKeys cache).Nodup) (hc : c ∈ edits l cache)
    (hlive : c.terminal = false) (hopens : ∀ e ∈ l, e.key = c.key → ¬ e.Opens) :
    (∃ c' ∈ cache, c'.key = c.key ∧ c'.terminal = false) ∧
      ∀ e ∈ l, e.key = c.key → ¬ e.Closes := by
  induction l generalizing cache with
  | nil => exact ⟨⟨c, hc, rfl, hlive⟩, by simp⟩
  | cons e l ih =>
    obtain ⟨⟨c', hc', hkey, hlive'⟩, hcloses⟩ :=
      @ih (updateCache e.key e.apply cache) (by rwa [updateCache_keys e.apply_key]) hc
        fun e' he' => hopens e' (List.mem_cons_of_mem _ he')
    rcases mem_updateCache hkeys hc' with ⟨hmem, hne⟩ | ⟨c0, hmem, hkey0, rfl⟩
    · refine ⟨⟨c', hmem, hkey, hlive'⟩, fun e' he' hke => ?_⟩
      rcases List.mem_cons.mp he' with rfl | he'
      · exact absurd (hkey.trans hke.symm) hne
      · exact hcloses e' he' hke
    · rw [Edit.apply_key] at hkey
      have hself := Edit.apply_live (hopens e List.mem_cons_self (hkey0.symm.trans hkey)) hlive'
      refine ⟨⟨c0, hmem, hkey, hself.1⟩, fun e' he' hke => ?_⟩
      rcases List.mem_cons.mp he' with rfl | he'
      · exact hself.2
      · exact hcloses e' he' hke

end Cache

/-! ### The functions of the server -/

namespace Server

variable (s : Server)

@[simp] theorem send_cache (dest : Peer) (p : Packet) : (s.send dest p).cache = s.cache := rfl

@[simp] theorem sendCached_cache (c : CachedCommand) (status : Status) :
    (s.sendCached c status).cache = s.cache := by
  obtain ⟨_, h⟩ := s.sendCached_eq c status
  rw [h]

theorem terminal_edits (key : Key) (status : Status) :
    (s.terminal key status).cache = edits [.finish key status] s.cache := by
  rw [edits_singleton]
  unfold terminal
  split
  · rename_i hnone
    exact (updateCache_none hnone).symm
  · rename_i c hsome
    rw [sendCached_cache]
    exact updateCache_found hsome rfl

/-- The edit of `sync_move`. -/
def syncEdits (m : MoveExecutor) : List Edit :=
  if m.ack.session = 0 then [] else [.sync m.key m.ack]

theorem syncMove_edits : s.syncMove.cache = edits (syncEdits s.mover) s.cache := by
  unfold syncMove syncEdits
  dsimp only
  split
  · rfl
  · rw [edits_singleton]
    split
    · rename_i hnone
      exact (updateCache_none hnone).symm
    · rename_i c hsome
      have hfound : updateCache s.mover.key
          (fun _ => { c with moveAck := s.mover.ack, terminal := s.mover.ack.status.terminal })
          s.cache = updateCache s.mover.key (Edit.sync s.mover.key s.mover.ack).apply s.cache :=
        updateCache_found hsome rfl
      split
      · rw [sendCached_cache]
        exact hfound
      · exact hfound

/-- The edits of `finish_front` and of `cancel_work`. -/
def finishEdits (status : Status) (work : List ClickWork) : List Edit :=
  (work.filter (·.binary)).map fun click => .finish click.key status

theorem finishFront_edits (status : Status) :
    (s.finishFront status).cache = edits (finishEdits status (s.work.take 1)) s.cache := by
  unfold finishFront finishEdits
  split
  · rename_i hw
    rw [hw]
    rfl
  · rename_i click rest hw
    rw [hw]
    dsimp only
    split
    · rename_i hbinary
      rw [terminal_edits]
      simp [hbinary]
    · rename_i hbinary
      simp [hbinary]

theorem cancelLoop_edits (work : List ClickWork) :
    (cancelLoop work s).cache = edits (finishEdits .cancelled work) s.cache := by
  induction work generalizing s with
  | nil => rfl
  | cons click rest ih =>
    rw [cancelLoop, ih]
    unfold finishEdits
    cases hbinary : click.binary with
    | true =>
      rw [List.filter_cons_of_pos hbinary, List.map_cons, ← List.singleton_append, edits_append]
      simp only [if_true, terminal_edits]
    | false => simp [hbinary]

theorem cancelWork_edits :
    s.cancelWork.cache = edits (finishEdits .cancelled s.work) s.cache := s.cancelLoop_edits s.work

/-- The edit of a ReleaseAll that takes the place of the one still owed. -/
def replaceEdits (attachRelease : Bool) (key : Key) : List Edit :=
  if attachRelease ∧ s.releaseKey.session ≠ 0 ∧ s.releaseKey ≠ key then
    [.finish s.releaseKey .cancelled]
  else []

theorem replaceRelease_edits (attachRelease : Bool) (key : Key) :
    (s.replaceRelease attachRelease key).cache = edits (s.replaceEdits attachRelease key) s.cache := by
  unfold replaceRelease replaceEdits
  split
  · exact s.terminal_edits _ _
  · rfl

/-- The edits of `begin_reset`, with its first reading of the clock. -/
def resetEdits (attachRelease : Bool) (key : Key) (now : ℕ) : List Edit :=
  syncEdits (s.mover.stop .cancelled now) ++ s.replaceEdits attachRelease key ++
    syncEdits (s.mover.stop .cancelled now) ++ finishEdits .cancelled s.work

theorem reset_edits (attachRelease : Bool) (key : Key) (now1 now2 generation : ℕ) :
    (s.reset attachRelease key now1 now2 generation).cache =
      edits (s.resetEdits attachRelease key now1) s.cache := by
  have hstop : (s.mover.stop .cancelled now1).stop .cancelled now2 =
      s.mover.stop .cancelled now1 :=
    MoveExecutor.stop_inactive (MoveExecutor.stop_active _ _ rfl) _ _
  have hdrop : (s.reset attachRelease key now1 now2 generation).cache =
      (((((s.stopMover .cancelled now1).syncMove).replaceRelease attachRelease key).stopMover
        .cancelled now2).syncMove).cancelWork.cache := rfl
  obtain ⟨c1, p1, h1⟩ := syncMove_eq (s.stopMover .cancelled now1)
  obtain ⟨c2, p2, h2⟩ := replaceRelease_eq ((s.stopMover .cancelled now1).syncMove) attachRelease key
  have h3 : (((s.stopMover .cancelled now1).syncMove).replaceRelease attachRelease key).stopMover
      .cancelled now2 =
        ((s.stopMover .cancelled now1).syncMove).replaceRelease attachRelease key := by
    rw [h2, h1]
    simp only [stopMover, hstop]
  obtain ⟨c4, p4, h4⟩ :=
    syncMove_eq (((s.stopMover .cancelled now1).syncMove).replaceRelease attachRelease key)
  rw [hdrop, h3, cancelWork_edits, syncMove_edits, replaceRelease_edits, syncMove_edits, resetEdits,
    edits_append, edits_append, edits_append]
  rw [h4, h2, h1]
  rfl

theorem dropped_edits (now1 now2 generation : ℕ) :
    (s.dropped now1 now2 generation).cache = edits (s.resetEdits false {} now1) s.cache :=
  s.reset_edits false {} now1 now2 generation

theorem moveEvent_edits (v : WriterEvent) :
    (s.moveEvent v).cache = edits (syncEdits (s.mover.event v)) s.cache :=
  syncMove_edits { s with mover := s.mover.event v }

/-- The edit of a met release obligation. -/
def completeEdits : List Edit :=
  if s.releaseKey.session ≠ 0 then [.finish s.releaseKey .completed] else []

theorem completeRelease_edits : s.completeRelease.cache = edits s.completeEdits s.cache := by
  unfold completeRelease completeEdits
  dsimp only
  split
  · exact terminal_edits _ _ _
  · rfl

theorem controlMove_edits (source : Peer) (r : MoveProtocol.Request) (prior : CachedCommand) :
    (s.controlMove source r prior).cache = edits [.readdress prior.key source] s.cache := by
  obtain ⟨_, h, -⟩ := s.controlMove_eq source r prior
  rw [h]
  rfl

theorem repeatClick_edits (source : Peer) (prior : CachedCommand) :
    (s.repeatClick source prior).cache = edits [.readdress prior.key source] s.cache := rfl

end Server

/-! ### A writer event for the click in front -/

namespace ClickWork

/-- The event is of the current press or release of the click. -/
def Expects (click : ClickWork) (v : WriterEvent) : Prop :=
  v.session = click.key.session ∧ v.command = click.key.command ∧ v.index = click.index

/-- The click after its press was written. -/
def afterPress (click : ClickWork) (v : WriterEvent) : ClickWork :=
  { click with
    pressWrittenNs := v.writtenNs, blocked := v.blocked
    dueNs := Server.dueAt v.writtenNs (if v.blocked then 0 else click.pressUs * 1000)
    phase := if v.blocked then .awaitRelease else .holding }

/-- The click after one more release was counted. -/
def counted (click : ClickWork) : ClickWork := { click with index := click.index + 1 }

/-- The click before its next press. -/
def afterRelease (click : ClickWork) (v : WriterEvent) : ClickWork :=
  { click.counted with
    phase := .awaitPress, blocked := false
    dueNs := Server.dueAt
      (if click.version = ClickProtocol.version2 then v.writtenNs else click.pressWrittenNs)
      (click.intervalUs * 1000) }

end ClickWork

namespace Server

/-- The server after a release of the front click was counted. -/
def count (s : Server) (click : ClickWork) : Server :=
  { s.setFront click.counted with
    completedTotal := s.completedTotal + 1
    cache := edits [.count click.key click.counted.index] s.cache }

/-- What `process_writer_events` does with a successful event for the front click. -/
inductive ClickSpec (s : Server) (v : WriterEvent) : Server → Prop
  | ignored : ClickSpec s v s
  | press (click : ClickWork) (rest : List ClickWork) (hw : s.work = click :: rest)
      (h : click.Expects v) (hkind : v.kind = .clickPress) (hphase : click.phase = .pressInflight) :
      ClickSpec s v (s.setFront (click.afterPress v))
  | blocked (click : ClickWork) (rest : List ClickWork) (hw : s.work = click :: rest)
      (h : click.Expects v) (hkind : v.kind = .clickRelease)
      (hphase : click.phase = .releaseInflight)
      (hblocked : click.blocked = true ∨ v.finalButtons &&& buttonBit click.button ≠ 0) :
      ClickSpec s v (s.finishFront .buttonActive)
  | last (click : ClickWork) (rest : List ClickWork) (hw : s.work = click :: rest)
      (h : click.Expects v) (hkind : v.kind = .clickRelease)
      (hphase : click.phase = .releaseInflight) (hblocked : click.blocked = false)
      (hbit : v.finalButtons &&& buttonBit click.button = 0)
      (hcount : click.count ≤ click.counted.index) :
      ClickSpec s v ((s.count click).finishFront .completed)
  | next (click : ClickWork) (rest : List ClickWork) (hw : s.work = click :: rest)
      (h : click.Expects v) (hkind : v.kind = .clickRelease)
      (hphase : click.phase = .releaseInflight) (hblocked : click.blocked = false)
      (hbit : v.finalButtons &&& buttonBit click.button = 0)
      (hcount : click.counted.index < click.count) :
      ClickSpec s v ((s.count click).setFront (click.afterRelease v))

theorem clickEvent_spec (s : Server) (v : WriterEvent) : s.ClickSpec v (s.clickEvent v) := by
  unfold clickEvent
  split
  · exact .ignored
  · rename_i click rest hw
    split
    · exact .ignored
    · rename_i hother
      have hexpects : click.Expects v := by
        simp only [not_or, not_not] at hother
        exact hother
      split
      · rename_i hpress
        exact .press click rest hw hexpects hpress.1 hpress.2
      · split
        · rename_i hrelease
          split
          · rename_i hblocked
            exact .blocked click rest hw hexpects hrelease.1 hrelease.2 hblocked
          · rename_i hfree
            rw [not_or, not_not, Bool.not_eq_true] at hfree
            dsimp only
            split
            · rename_i hcount
              exact .last click rest hw hexpects hrelease.1 hrelease.2 hfree.1 hfree.2 hcount
            · rename_i hcount
              exact .next click rest hw hexpects hrelease.1 hrelease.2 hfree.1 hfree.2
                (Nat.not_le.mp hcount)
        · exact .ignored

end Server

end UsbProxy
