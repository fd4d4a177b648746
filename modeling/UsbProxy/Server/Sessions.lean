import UsbProxy.Server.Records
import UsbProxy.Server.SessionTables

/-!
# What a step remembers of sessions and commands

Every atomic step of the loop leaves the keys of the cache and the session tracker alone, drops
expired tombstones, evicts records, or admits one command that neither of the two knows.
-/

namespace UsbProxy

open ClickSessions

/-! ### The commands a tracker covers -/

namespace ClickSessions

variable {t t' : Tracker} {session command now : ℕ}

/-- The high-water mark of the session has reached the command. -/
def Tracker.Covers (t : Tracker) (session command : ℕ) : Prop :=
  ∃ e ∈ t.active ++ t.retired, e.session = session ∧ command ≤ e.highest

theorem Tracker.Distinct.isStale_iff (h : t.Distinct) :
    t.isStale session command = true ↔ t.Covers session command := by
  unfold Tracker.isStale Tracker.Covers
  cases hactive : find t.active session with
  | some e =>
    obtain ⟨he, rfl⟩ := (Recency.find?_eq_some h.active).mp hactive
    constructor
    · intro hle
      exact ⟨e, List.mem_append_left _ he, rfl, by simpa using hle⟩
    · rintro ⟨x, hx, hsame, hle⟩
      rcases List.mem_append.mp hx with hx | hx
      · rw [List.inj_on_of_nodup_map h.active hx he hsame] at hle
        simpa using hle
      · exact absurd hsame.symm (h.apart e he x hx)
  | none =>
    have hidle := Recency.find?_eq_none.mp hactive
    constructor
    · intro hany
      obtain ⟨e, hfind, hle⟩ := (Option.any_eq_true _ _).mp hany
      obtain ⟨he, hsession⟩ := (Recency.find?_eq_some h.retired).mp hfind
      exact ⟨e, List.mem_append_right _ he, hsession, by simpa using hle⟩
    · rintro ⟨x, hx, hsame, hle⟩
      have hx := (List.mem_append.mp hx).resolve_left fun hx => hidle x hx hsame
      show (find t.retired session).any _ = true
      rw [show find t.retired session = some x from
        (Recency.find?_eq_some h.retired).mpr ⟨hx, hsame⟩]
      simpa using hle

theorem Tracker.Covers.of_prune (h : (t.prune now).Covers session command) :
    t.Covers session command := by
  obtain ⟨e, he, hcovers⟩ := h
  refine ⟨e, ?_, hcovers⟩
  rcases List.mem_append.mp he with he | he
  · exact List.mem_append_left _ he
  · exact List.mem_append_right _ (List.mem_of_mem_filter he)

/-- A covered command stays covered, or its session is recorded as forgotten. -/
theorem Tracker.Covers.prune (h : t.Covers session command) (now : ℕ) :
    (t.prune now).Covers session command ∨
      .sessionForgot session (.expired now) ∈ t.pruneMarks now := by
  obtain ⟨e, he, rfl, hle⟩ := h
  rcases List.mem_append.mp he with he | he
  · exact .inl ⟨e, List.mem_append_left _ he, rfl, hle⟩
  · cases hexpired : e.expired now with
    | false =>
      have hkept : e ∈ (t.prune now).retired := List.mem_filter.mpr ⟨he, by simp [hexpired]⟩
      exact .inl ⟨e, List.mem_append_right _ hkept, rfl, hle⟩
    | true => exact .inr (List.mem_map.mpr ⟨e, List.mem_filter.mpr ⟨he, hexpired⟩, rfl⟩)

theorem Tracker.Covers.admits {forgot : List Mark} {s : ℕ} (h : t.Covers s command)
    (ht : t.Distinct) (hadmits : Admits t session now t' forgot) :
    t'.Covers s command ∨ .sessionForgot s .pushedOut ∈ forgot := by
  obtain ⟨e, he, rfl, hle⟩ := h
  -- the mark of the admitted session is its tombstone's
  have hrestored {highest : ℕ} (he : e ∈ t.retired) (hsession : e.session = session)
      (hrestores : Restores t session highest) : command ≤ highest := by
    rcases hrestores with ⟨x, hx, hsame, rfl⟩ | ⟨hgone, -⟩
    · rwa [List.inj_on_of_nodup_map ht.retired hx he (hsame.trans hsession.symm)]
    · exact absurd hsession (hgone e he)
  cases hadmits with
  | kept x hx hsession =>
    left
    rcases List.mem_append.mp he with he | he
    · by_cases heq : e.session = session
      · have hsame : e = x := List.inj_on_of_nodup_map ht.active he hx (heq.trans hsession.symm)
        subst hsame
        exact ⟨{ e with stamp := now }, by simp, rfl, hle⟩
      · exact ⟨e, by simp [mem_without, he, heq], rfl, hle⟩
    · exact ⟨e, by simp [he], rfl, hle⟩
  | entered highest hnew hroom hrestores =>
    left
    rcases List.mem_append.mp he with he | he
    · exact ⟨e, by simp [he], rfl, hle⟩
    · by_cases heq : e.session = session
      · exact ⟨⟨session, highest, now⟩, by simp, heq.symm, hrestored he heq hrestores⟩
      · exact ⟨e, by simp [mem_without, he, heq], rfl, hle⟩
  | buries highest victim hnew hvictim hrestores =>
    -- an entry among the tombstones is one of the newest, or recorded
    have hburied {x : Entry} (hx : x ∈ without t.retired session ++ [{ victim with stamp := now }])
        (hsession : x.session = e.session) (hcovers : command ≤ x.highest) :
        Tracker.Covers ⟨without t.active victim.session ++ [⟨session, highest, now⟩],
            newest maxRetired (without t.retired session ++ [{ victim with stamp := now }])⟩
            e.session command ∨
          .sessionForgot e.session .pushedOut ∈ (oldest maxRetired (without t.retired session ++
            [{ victim with stamp := now }])).reverse.map
              (fun e => Mark.sessionForgot e.session .pushedOut) ++
                [.retired victim.session now] := by
      rw [← oldest_append_newest maxRetired (without _ _ ++ _)] at hx
      rcases List.mem_append.mp hx with hx | hx
      · right
        refine List.mem_append_left _ (List.mem_map.mpr ⟨x, List.mem_reverse.mpr hx, ?_⟩)
        rw [hsession]
      · exact .inl ⟨x, List.mem_append_right _ hx, hsession, hcovers⟩
    rcases List.mem_append.mp he with he | he
    · by_cases heq : e.session = victim.session
      · have hsame : e = victim := List.inj_on_of_nodup_map ht.active he hvictim heq
        subst hsame
        exact hburied (List.mem_append_right _ List.mem_cons_self) rfl hle
      · exact .inl ⟨e, by simp [mem_without, he, heq], rfl, hle⟩
    · by_cases heq : e.session = session
      · exact .inl ⟨⟨session, highest, now⟩, by simp, heq.symm, hrestored he heq hrestores⟩
      · exact hburied (by simp [mem_without, he, heq]) rfl hle

theorem Tracker.Covers.accept {s c : ℕ} (h : t.Covers s c) (ht : t.Distinct)
    (haccepted : Accepted t session command now t') : t'.Covers s c := by
  obtain ⟨e, he, rfl, hle⟩ := h
  cases haccepted with
  | ignored => exact ⟨e, he, rfl, hle⟩
  | raised x hx hsession =>
    rcases List.mem_append.mp he with he | he
    · by_cases heq : e.session = session
      · have hsame : e = x := List.inj_on_of_nodup_map ht.active he hx (heq.trans hsession.symm)
        subst hsame
        exact ⟨{ e with highest := max e.highest command, stamp := now }, by simp, rfl,
          hle.trans (le_max_left _ _)⟩
      · exact ⟨e, by simp [mem_without, he, heq], rfl, hle⟩
    · exact ⟨e, by simp [he], rfl, hle⟩

/-- An accepted command of an active session is covered. -/
theorem Accepted.covers (h : Accepted t session command now t')
    (hactive : ∃ e ∈ t.active, e.session = session) : t'.Covers session command := by
  cases h with
  | ignored hidle =>
    obtain ⟨e, he, heq⟩ := hactive
    exact absurd heq (hidle e he)
  | raised e he hsession =>
    exact ⟨{ e with highest := max e.highest command, stamp := now }, by simp, hsession,
      le_max_right _ _⟩

theorem Admits.active {forgot : List Mark} (h : Admits t session now t' forgot) :
    ∃ e ∈ t'.active, e.session = session := by
  cases h with
  | kept e he hsession =>
    exact ⟨{ e with stamp := now }, List.mem_append_right _ List.mem_cons_self, hsession⟩
  | entered highest | buries highest =>
    exact ⟨⟨session, highest, now⟩, List.mem_append_right _ List.mem_cons_self, rfl⟩

/-- The tombstones of `accept` are those before it. -/
theorem Accepted.retired (h : Accepted t session command now t') : t'.retired = t.retired := by
  cases h <;> rfl

end ClickSessions

/-- Neither the cache nor the tracker knows a fresh command. -/
theorem Server.Fresh.unknown {s : Server} {key : Key} (h : s.Fresh key) :
    key ∉ cacheKeys s.cache ∧ ¬ s.sessions.Covers key.session key.command := by
  obtain ⟨hnone, t, now, hprune, hdistinct, hstale⟩ := h
  refine ⟨findCache_none.mp hnone, fun hcovers => ?_⟩
  rw [hprune] at hcovers
  exact absurd (hdistinct.isStale_iff.mpr hcovers.of_prune) (by simp [hstale])

/-! ### The keys of the cache -/

/-- Erasing the first entry a test finds keeps every other one. -/
theorem mem_eraseP_or_find {α : Type*} {p : α → Bool} {l : List α} {a : α} (h : a ∈ l) :
    a ∈ l.eraseP p ∨ l.find? p = some a := by
  induction l with
  | nil => cases h
  | cons b l ih =>
    by_cases hb : p b = true
    · rw [List.eraseP_cons_of_pos hb, List.find?_cons_of_pos hb]
      rcases List.mem_cons.mp h with rfl | h
      · exact .inr rfl
      · exact .inl h
    · rw [List.eraseP_cons_of_neg hb, List.find?_cons_of_neg hb]
      rcases List.mem_cons.mp h with rfl | h
      · exact .inl List.mem_cons_self
      · exact (ih h).imp_left (List.mem_cons_of_mem b)

/-- Eviction removes only the records whose keys it lists. -/
theorem evictLoop_keys (fuel : ℕ) (cache : List CachedCommand) :
    ∀ k ∈ cacheKeys cache,
      k ∈ cacheKeys (evictLoop fuel cache).1 ∨ k ∈ (evictLoop fuel cache).2 := by
  induction fuel generalizing cache with
  | zero => exact fun k hk => .inl hk
  | succ fuel ih =>
    intro k hk
    unfold evictLoop
    split
    · exact .inl hk
    · split
      · exact .inl hk
      · rename_i victim hfind
        obtain ⟨c, hc, rfl⟩ := List.mem_map.mp hk
        rcases mem_eraseP_or_find hc with hc | hc
        · exact (ih _ _ (List.mem_map_of_mem hc)).imp_right (List.mem_append_left _)
        · rw [hfind] at hc
          cases hc
          exact .inr (List.mem_append_right _ List.mem_cons_self)

namespace Server

variable (s : Server)

@[simp] theorem track_keys (e : EndpointSnapshot) :
    cacheKeys (s.track e).cache = cacheKeys s.cache := by
  unfold track
  split <;> rfl

@[simp] theorem renew_keys (source : Peer) (now : ℕ) :
    cacheKeys (s.renew source now).cache = cacheKeys s.cache := rfl

@[simp] theorem dropped_keys (now1 now2 generation : ℕ) :
    cacheKeys (s.dropped now1 now2 generation).cache = cacheKeys s.cache := by
  rw [dropped_edits, edits_keys]

@[simp] theorem reset_keys (attachRelease : Bool) (key : Key) (now1 now2 generation : ℕ) :
    cacheKeys (s.reset attachRelease key now1 now2 generation).cache = cacheKeys s.cache := by
  rw [reset_edits, edits_keys]

@[simp] theorem syncMove_keys : cacheKeys s.syncMove.cache = cacheKeys s.cache := by
  rw [syncMove_edits, edits_keys]

@[simp] theorem moveEvent_keys (v : WriterEvent) :
    cacheKeys (s.moveEvent v).cache = cacheKeys s.cache := by
  rw [moveEvent_edits, edits_keys]

@[simp] theorem completeRelease_keys :
    cacheKeys s.completeRelease.cache = cacheKeys s.cache := by
  rw [completeRelease_edits, edits_keys]

@[simp] theorem finishFront_keys (status : ClickProtocol.Status) :
    cacheKeys (s.finishFront status).cache = cacheKeys s.cache := by
  rw [finishFront_edits, edits_keys]

@[simp] theorem count_keys (click : ClickWork) :
    cacheKeys (s.count click).cache = cacheKeys s.cache :=
  edits_keys _ _

@[simp] theorem clickEvent_keys (v : WriterEvent) :
    cacheKeys (s.clickEvent v).cache = cacheKeys s.cache := by
  have hspec := s.clickEvent_spec v
  generalize s.clickEvent v = s' at hspec ⊢
  cases hspec with
  | ignored => rfl
  | press => rfl
  | blocked => exact s.finishFront_keys _
  | last click => rw [finishFront_keys, count_keys]
  | next click => exact s.count_keys click

@[simp] theorem report_keys (now : ℕ) (t : Telemetry) :
    cacheKeys (s.report now t).cache = cacheKeys s.cache := by
  obtain ⟨_, _, _, _, h⟩ := s.report_eq now t
  rw [h]

@[simp] theorem subscribe_keys (source : Peer) (data : List Bits.Byte) (now : ℕ) :
    cacheKeys (s.subscribe source data now).cache = cacheKeys s.cache := by
  obtain ⟨_, _, _, h⟩ := s.subscribe_eq source data now
  rw [h]

@[simp] theorem controlMove_keys (source : Peer) (r : MoveProtocol.Request)
    (prior : CachedCommand) :
    cacheKeys (s.controlMove source r prior).cache = cacheKeys s.cache := by
  rw [controlMove_edits, edits_keys]

@[simp] theorem repeatClick_keys (source : Peer) (prior : CachedCommand) :
    cacheKeys (s.repeatClick source prior).cache = cacheKeys s.cache := by
  rw [repeatClick_edits, edits_keys]

end Server

/-! ### Steps -/

/-- A moment that neither admits a command nor forgets one. -/
def Mark.keepsCommands : Mark → Bool
  | .admitted .. | .evicted _ | .retired .. | .sessionForgot .. => false
  | _ => true

/-- What a step does to the keys of the cache, to the session tracker and to the record of a
run. -/
inductive MemoryStep (keys : List Key) (t : Tracker) (h : List Mark) :
    List Key → Tracker → List Mark → Prop
  | keep (l : List Mark) (hl : ∀ m ∈ l, m.keepsCommands = true) :
      MemoryStep keys t h keys t (l ++ h)
  | prune (now : ℕ) : MemoryStep keys t h keys (t.prune now) (t.pruneMarks now ++ h)
  | evict (keys' evicted : List Key) (hkeys : ∀ k ∈ keys, k ∈ keys' ∨ k ∈ evicted) :
      MemoryStep keys t h keys' t (evicted.map .evicted ++ h)
  | admits (key : Key) (movement force : Bool) (protectedSession : ℕ → Bool) (t' : Tracker)
      (forgot l : List Mark) (now now' : ℕ) (hl : ∀ m ∈ l, m.keepsCommands = true)
      (hnew : key ∉ keys) (hfresh : ¬ t.Covers key.session key.command)
      (hadmitted : t.admitPruned key.session now force protectedSession = some (t', forgot)) :
      MemoryStep keys t h (keys ++ [key]) (t'.accept key.session key.command now')
        (l ++ .admitted key movement :: (forgot ++ h))

/-- What the server of a system remembers, with the record of its run. -/
abbrev Sys.Remembers (x y : Sys) : Prop :=
  MemoryStep (cacheKeys x.server.cache) x.server.sessions x.world.history
    (cacheKeys y.server.cache) y.server.sessions y.world.history

namespace MemoryStep

variable {s s' : Server} {h h' : List Mark}

theorem of_eq (l : List Mark) (hmemory : s'.memory = s.memory)
    (hkeys : cacheKeys s'.cache = cacheKeys s.cache) (hh : h' = l ++ h)
    (hl : ∀ m ∈ l, m.keepsCommands = true) :
    MemoryStep (cacheKeys s.cache) s.sessions h (cacheKeys s'.cache) s'.sessions h' := by
  have hsessions : s'.sessions = s.sessions := congrArg Prod.snd hmemory
  rw [hkeys, hsessions, hh]
  exact .keep l hl

theorem of_after {w : World} {a : EnqueueArgs} (hmemory : s'.memory = s.memory)
    (hkeys : cacheKeys s'.cache = cacheKeys s.cache) :
    MemoryStep (cacheKeys s.cache) s.sessions w.history (cacheKeys s'.cache) s'.sessions
      (w.after a).history := by
  obtain ⟨l, hl, hm⟩ := w.after_history a
  refine .of_eq l hmemory hkeys hl fun m hmem => ?_
  obtain ⟨item, rfl⟩ := hm m hmem
  rfl

theorem of_cleared {w : World} (hmemory : s'.memory = s.memory)
    (hkeys : cacheKeys s'.cache = cacheKeys s.cache) :
    MemoryStep (cacheKeys s.cache) s.sessions w.history (cacheKeys s'.cache) s'.sessions
      w.cleared.history :=
  .of_eq [_] hmemory hkeys w.cleared_history (by simp [Mark.keepsCommands])

/-- An admission, whose own moments `l` end with that of the command. -/
theorem of_admits {w : World} {key : Key} {movement force : Bool} {sessions : Tracker}
    {forgot : List Mark} {now now' : ℕ} (l : List Mark) (hfresh : s.Fresh key)
    (hadmitted : s.sessions.admitPruned key.session now force s.sessionProtected =
      some (sessions, forgot))
    (hkeys : cacheKeys s'.cache = cacheKeys s.cache ++ [key])
    (hsessions : s'.sessions = sessions.accept key.session key.command now')
    (hl : ∀ m ∈ l, m.keepsCommands = true) :
    MemoryStep (cacheKeys s.cache) s.sessions w.history (cacheKeys s'.cache) s'.sessions
      (w.notes ((l ++ [.admitted key movement]) ++ forgot)).history := by
  have hhistory : (w.notes ((l ++ [.admitted key movement]) ++ forgot)).history =
      l ++ .admitted key movement :: (forgot ++ w.history) := by
    simp
  rw [hkeys, hsessions, hhistory]
  exact .admits key movement force s.sessionProtected sessions forgot l now now' hl hfresh.unknown.1
    hfresh.unknown.2 hadmitted

end MemoryStep

/-- **What a step does to the memory of the server.** -/
theorem Step.remembers {x y : Sys} (h : Step x y) : x.Remembers y := by
  cases h with
  | env pc s w x =>
    obtain ⟨l, hl, hm, -⟩ := w.env_extends x
    refine .of_eq l rfl rfl hl fun m hmem => ?_
    have := hm m hmem
    cases m <;> first | rfl | cases this
  | check s w h => exact .of_eq [_] (by simp) (by simp) rfl (by simp [Mark.keepsCommands])
  | differ | recheck | sample | heartbeat =>
    exact .of_eq [_] rfl rfl rfl (by simp [Mark.keepsCommands])
  | resetTop | eventFailed | resetOverflow | resetLease | tickReset | resetSchedule | fence
    | asciiReset => exact .of_cleared (by simp) (by simp)
  | eventRelease v rest s w h hdone =>
    exact .of_eq [_] (by simp) (by simp) rfl (by simp [Mark.keepsCommands])
  | eventClick | pressRefused | report | subscribe =>
    exact .of_eq [] (by simp) (by simp) rfl (by simp)
  | takeEvents | eventsDone | overflowClear | overflowSet | leaseKept | scheduleIdle | silent
    | ignore | answer | releaseWaits => exact .of_eq [] rfl rfl rfl (by simp)
  | tickDone => exact .of_eq [] (by simp) (by simp) rfl (by simp)
  | tickEnqueue => exact .of_after (by simp) (by simp)
  | enqueueRelease s w hp hi hres =>
    obtain ⟨l, hl, hm⟩ := w.enqueueFinalRelease_history s.trackedGeneration s.releaseKey
    refine .of_eq l rfl rfl hl fun m hmem => ?_
    rcases hm m hmem with rfl | ⟨item, rfl⟩ <;> rfl
  | enqueuePress | enqueueClickRelease | refuseReport => exact .of_after rfl rfl
  | prune pc s w now h => exact .prune now
  | evict s w e => exact .evict _ _ (evictLoop_keys _ _)
  | retryMove s =>
    refine .of_eq _ (by simp) (by simp) rfl fun m hm => ?_
    obtain ⟨rfl, -⟩ | rfl := s.controlMarks_mem hm <;> rfl
  | retryClick => exact .of_eq [] rfl (by simp) rfl (by simp)
  | startMove s w source r e sessions forgot now t1 t2 t3 hr hfresh hverdict hroom hadmitted =>
    obtain ⟨_, hs⟩ := s.startMove_eq source r e sessions t1 t2 t3
    refine .of_admits [_, _, _, _] hfresh hadmitted ?_ (by rw [hs])
      (by simp [Mark.keepsCommands])
    rw [hs]
    exact List.map_append
  | pushClick s w source r e sessions forgot now t1 t2 hr hfresh hverdict hroom hadmitted =>
    obtain ⟨_, hs⟩ := (s.admitted r source r.count sessions).pushClick_eq source r e
      (Server.clickRecord r source r.count) now t1 t2
    refine .of_admits [_, _, _] hfresh hadmitted ?_ (by rw [hs]; rfl) (by simp [Mark.keepsCommands])
    rw [hs]
    exact List.map_append
  | recordRelease s w source r e sessions forgot now t hr hfresh hroom hadmitted =>
    obtain ⟨_, hs⟩ := (s.admitted r source 0 sessions).recordRelease_eq source r
      (Server.clickRecord r source 0) now t
    refine .of_admits [_] hfresh hadmitted ?_ (by rw [hs]; rfl) (by simp [Mark.keepsCommands])
    rw [hs]
    exact List.map_append
  | pruneReplay s w now =>
    refine MemoryStep.keep _ fun m hm => ?_
    obtain ⟨_, _, rfl⟩ := UpxReplay.Tracker.pruneMarks_mem hm
    rfl
  | applySnapshot s w w' e source sequence command next packetNow t hready hmover hnew hargs =>
    have hworld : ∃ l, w'.history = l ++ w.history ∧ ∀ m ∈ l, ∃ item, m = .enqueued item := by
      split at hargs
      · exact ⟨[], by rw [hargs]; rfl, by simp⟩
      · obtain ⟨-, rfl⟩ := hargs
        exact w.after_history _
    obtain ⟨l, hl, hm⟩ := hworld
    have hkeep : ∀ m ∈ s.snapshotMarks source sequence next packetNow ++ l,
        m.keepsCommands = true := by
      intro m hmem
      rcases List.mem_append.mp hmem with hmem | hmem
      · obtain rfl | rfl | rfl | ⟨_, _, rfl⟩ := s.snapshotMarks_mem hmem <;> rfl
      · obtain ⟨item, rfl⟩ := hm m hmem
        rfl
    have hstep : MemoryStep (cacheKeys s.cache) s.sessions w.history _ _ _ := .keep _ hkeep
    rwa [List.append_assoc, ← hl] at hstep
  | asciiClick => exact .of_eq [_, _] rfl rfl rfl (by simp [Mark.keepsCommands])
  | asciiReport s w e source command next t hready hmover hres =>
    obtain ⟨l, hl, hm⟩ := w.after_history (s.asciiArgs command next)
    refine .of_eq ([.adopted, .accepted next] ++ l) rfl rfl (by simp [hl]) fun m hmem => ?_
    rcases List.mem_append.mp hmem with hmem | hmem
    · obtain rfl | rfl : m = .adopted ∨ m = .accepted next := by simpa using hmem
      · rfl
      · rfl
    · obtain ⟨item, rfl⟩ := hm m hmem
      rfl

theorem MemoryStep.distinct {keys keys' : List Key} {t t' : Tracker} {h h' : List Mark}
    (hstep : MemoryStep keys t h keys' t' h') (ht : t.Distinct) : t'.Distinct := by
  cases hstep with
  | keep => exact ht
  | prune now => exact ht.prune now
  | evict => exact ht
  | admits key movement force protectedSession t₁ forgot l now now' hl hnew hfresh hadmitted =>
    have ht₁ := (ht.admitPruned hadmitted).distinct ht
    exact (ht₁.accept key.session key.command now').distinct ht₁

end UsbProxy
