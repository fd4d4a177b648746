import UsbProxy.Mixer.Threads
import UsbProxy.Server.Refine

/-!
# The order of UPX1 packets

Per peer, the sequences the server honours go forward as long as the peer's replay entry lives.
The entry follows every packet honoured while no transaction is active; a heartbeat honoured during
a transaction leaves it behind.
-/

namespace UsbProxy

open UpxReplay

/-- The sequences honoured from a peer since its replay entry was last forgotten, newest first. -/
def honouredSince (p : Peer) : List Mark → List (BitVec 32)
  | [] => []
  | .honoured q sequence _ :: h =>
    if q = p then sequence :: honouredSince p h else honouredSince p h
  | .replayForgot q _ :: h => if q = p then [] else honouredSince p h
  | _ :: h => honouredSince p h

/-- How far a list of sequences, newest first, advances in total. -/
def travel : List (BitVec 32) → ℕ
  | newer :: older :: rest => (newer - older).toNat + travel (older :: rest)
  | _ => 0

/-- No packet is honoured after one of the same peer that it is not newer than, while the peer's
entry is retained. -/
def UpxOrdered (history : List Mark) : Prop :=
  ∀ l₁ l₂ l₃ p s s' t t', history = l₁ ++ .honoured p s' t' :: l₂ ++ .honoured p s t :: l₃ →
    (∀ why, .replayForgot p why ∉ l₂) → sequenceNewer s' s = true

/-- No heartbeat is honoured while a transaction is active. -/
def NoTransactionHeartbeat (history : List Mark) : Prop :=
  ∀ p s, .honoured p s true ∉ history

/-- The sequences honoured from a peer advance by less than half their range while its entry is
retained. -/
def WithinHalfRange (history : List Mark) : Prop :=
  ∀ h p, h <:+ history → travel (honouredSince p h) < 2 ^ 31

/-! ### Sequence arithmetic -/

theorem sequenceNewer_iff {a b : BitVec 32} :
    sequenceNewer a b = true ↔ 0 < (a - b).toNat ∧ (a - b).toNat < 2 ^ 31 := by
  simp only [sequenceNewer, Bool.and_eq_true, bne_iff_ne, ne_eq, decide_eq_true_eq,
    BitVec.lt_def]
  have hzero : a - b = 0 ↔ (a - b).toNat = 0 := by simp [BitVec.toNat_eq]
  rw [hzero]
  constructor
  · rintro ⟨h1, h2⟩
    exact ⟨by omega, h2⟩
  · rintro ⟨h1, h2⟩
    exact ⟨by omega, h2⟩

theorem sub_toNat_add {a b c : BitVec 32} (h : (a - b).toNat + (b - c).toNat < 2 ^ 32) :
    (a - c).toNat = (a - b).toNat + (b - c).toNat := by
  have hsplit : a - c = (a - b) + (b - c) := by
    apply BitVec.eq_of_toNat_eq
    simp only [BitVec.toNat_sub, BitVec.toNat_add]
    omega
  rw [hsplit, BitVec.toNat_add, Nat.mod_eq_of_lt h]

/-- In a chain that stays within half the range the first sequence is newer than all others. -/
theorem newer_of_chain {a b : BitVec 32} {l : List (BitVec 32)}
    (hchain : (a :: l).IsChain fun x y => sequenceNewer x y = true)
    (hhalf : travel (a :: l) < 2 ^ 31) (hb : b ∈ l) :
    0 < (a - b).toNat ∧ (a - b).toNat ≤ travel (a :: l) := by
  induction l generalizing a with
  | nil => cases hb
  | cons c l ih =>
    rw [List.isChain_cons_cons] at hchain
    obtain ⟨hac, hchain⟩ := hchain
    rw [sequenceNewer_iff] at hac
    simp only [travel] at hhalf ⊢
    rcases List.mem_cons.mp hb with rfl | hb
    · omega
    · obtain ⟨hpos, hle⟩ := ih hchain (by omega) hb
      rw [sub_toNat_add (a := a) (b := c) (c := b) (by omega)]
      omega

/-! ### The entry follows the honoured packets -/

/-- A moment that honours no packet. -/
def Mark.honoursNone : Mark → Bool
  | .honoured .. => false
  | _ => true

/-- A moment that forgets the entry of a peer. -/
def Mark.forgets (p : Peer) : Mark → Bool
  | .replayForgot q _ => q == p
  | _ => false

theorem Mark.forgets_iff {p : Peer} {m : Mark} :
    m.forgets p = true ↔ ∃ why, m = .replayForgot p why := by
  cases m with
  | replayForgot q why =>
    simp only [forgets, beq_iff_eq]
    constructor
    · rintro rfl
      exact ⟨why, rfl⟩
    · rintro ⟨why', h⟩
      cases h
      rfl
  | _ => simp [forgets]

theorem honouredSince_cons {m : Mark} (hm : m.honoursNone = true) (p : Peer) (h : List Mark) :
    honouredSince p (m :: h) = if m.forgets p then [] else honouredSince p h := by
  cases m with
  | honoured => cases hm
  | replayForgot q why => simp [honouredSince, Mark.forgets]
  | _ => simp [honouredSince, Mark.forgets]

theorem honouredSince_append {l : List Mark} (hl : ∀ m ∈ l, m.honoursNone = true) (p : Peer)
    (h : List Mark) :
    honouredSince p (l ++ h) = if l.any (·.forgets p) then [] else honouredSince p h := by
  induction l with
  | nil => simp
  | cons m l ih =>
    rw [List.cons_append, honouredSince_cons (hl m List.mem_cons_self),
      ih fun x hx => hl x (List.mem_cons_of_mem m hx)]
    cases hm : m.forgets p <;> simp [hm]

/-- At every moment the sequences honoured from each peer form a chain. -/
def Chained (history : List Mark) : Prop :=
  ∀ h p, h <:+ history → (honouredSince p h).IsChain fun x y => sequenceNewer x y = true

theorem Chained.append {h l : List Mark} (hchain : Chained h)
    (hl : ∀ m ∈ l, m.honoursNone = true) : Chained (l ++ h) := by
  induction l with
  | nil => exact hchain
  | cons m l ih =>
    have ih := ih fun x hx => hl x (List.mem_cons_of_mem m hx)
    rw [List.cons_append]
    intro h' p hsuffix
    rcases List.suffix_cons_iff.mp hsuffix with rfl | hsuffix
    · rw [honouredSince_cons (hl m List.mem_cons_self)]
      split
      · exact .nil
      · exact ih _ p (List.suffix_refl _)
    · exact ih h' p hsuffix

theorem Chained.honoured {h : List Mark} {p : Peer} {sequence : BitVec 32} {transaction : Bool}
    (hchain : Chained h)
    (hnew : ∀ last rest, honouredSince p h = last :: rest → sequenceNewer sequence last = true) :
    Chained (.honoured p sequence transaction :: h) := by
  intro h' q hsuffix
  rcases List.suffix_cons_iff.mp hsuffix with rfl | hsuffix
  · simp only [honouredSince]
    split
    · rename_i heq
      subst heq
      have hrest := hchain h p (List.suffix_refl h)
      cases hs : honouredSince p h with
      | nil => exact .singleton sequence
      | cons last rest =>
        rw [hs] at hrest
        exact List.isChain_cons_cons.mpr ⟨hnew last rest hs, hrest⟩
    · exact hchain h q (List.suffix_refl h)
  · exact hchain h' q hsuffix

/-- The replay history holds the last sequence honoured from each peer. -/
def Followed (tracker : Tracker) (history : List Mark) : Prop :=
  ∀ p sequence rest, honouredSince p history = sequence :: rest →
    ∃ e, tracker.find p = some e ∧ e.sequence = sequence

/-- Moments that honour nothing keep the entries followed, if those they do not forget stay. -/
theorem Followed.append {t t' : Tracker} {h l : List Mark} (hfollowed : Followed t h)
    (hl : ∀ m ∈ l, m.honoursNone = true)
    (hfind : ∀ p e, t.find p = some e →
      (∃ why, .replayForgot p why ∈ l) ∨ t'.find p = some e) : Followed t' (l ++ h) := by
  intro p sequence rest heq
  rw [honouredSince_append hl] at heq
  split at heq
  · cases heq
  · rename_i hforgot
    obtain ⟨e, he, hsequence⟩ := hfollowed p sequence rest heq
    rcases hfind p e he with ⟨why, hwhy⟩ | he'
    · exact absurd (List.any_eq_true.mpr ⟨_, hwhy, Mark.forgets_iff.mpr ⟨why, rfl⟩⟩) hforgot
    · exact ⟨e, he', hsequence⟩

/-! ### Steps -/

/-- What a step does to the replay history and to the record of honoured packets. -/
inductive ReplayStep (t : Tracker) (h : List Mark) : Tracker → List Mark → Prop
  | keep (l : List Mark) (hl : ∀ m ∈ l, m.honoursNone = true) : ReplayStep t h t (l ++ h)
  | prune (now : ℕ) : ReplayStep t h (t.prune now) (t.pruneMarks now ++ h)
  | heartbeat (p : Peer) (sequence : BitVec 32) : ReplayStep t h t (.honoured p sequence true :: h)
  | accept (p : Peer) (sequence : BitVec 32) (now : ℕ) (l l' : List Mark)
      (hl : ∀ m ∈ l, m.honoursNone = true) (hl' : ∀ m ∈ l', m.honoursNone = true)
      (hnew : t.isStale p sequence = false) :
      ReplayStep t h (t.accept p sequence now)
        (l ++ .honoured p sequence false ::
          (((t.prune now).acceptMarks p ++ t.pruneMarks now) ++ (l' ++ h)))

theorem ReplayStep.of_eq {t t' : Tracker} {h h' : List Mark} (l : List Mark) (ht : t' = t)
    (hh : h' = l ++ h) (hl : ∀ m ∈ l, m.honoursNone = true) : ReplayStep t h t' h' := by
  subst ht hh
  exact .keep l hl

theorem ReplayStep.of_after {t t' : Tracker} {w : World} {a : EnqueueArgs} (ht : t' = t) :
    ReplayStep t w.history t' (w.after a).history := by
  obtain ⟨l, hl, hm⟩ := w.after_history a
  refine .of_eq l ht hl fun m hmem => ?_
  obtain ⟨item, rfl⟩ := hm m hmem
  rfl

theorem ReplayStep.of_cleared {t t' : Tracker} {w : World} (ht : t' = t) :
    ReplayStep t w.history t' w.cleared.history :=
  .of_eq [_] ht w.cleared_history (by simp [Mark.honoursNone])

theorem admitPruned_honoursNone {t t' : ClickSessions.Tracker} {session now : ℕ} {force : Bool}
    {protectedSession : ℕ → Bool} {forgot : List Mark}
    (h : t.admitPruned session now force protectedSession = some (t', forgot)) :
    ∀ m ∈ forgot, m.honoursNone = true := by
  intro m hm
  rcases ClickSessions.Tracker.admitPruned_mem h hm with ⟨_, _, rfl⟩ | ⟨_, _, rfl⟩ <;> rfl

/-- The moments of an acceptance, with the sessions it forgot. -/
theorem honoursNone_append {l forgot : List Mark} (hl : ∀ m ∈ l, m.honoursNone = true)
    (hforgot : ∀ m ∈ forgot, m.honoursNone = true) :
    ∀ m ∈ l ++ forgot, m.honoursNone = true := by
  intro m hm
  rcases List.mem_append.mp hm with hm | hm
  · exact hl m hm
  · exact hforgot m hm

/-- **What a step does to the replay history.** -/
theorem Step.replay {x y : Sys} (h : Step x y) :
    ReplayStep x.server.movementReplay x.world.history y.server.movementReplay y.world.history := by
  have fst {s s' : Server} (h : s'.memory = s.memory) : s'.movementReplay = s.movementReplay :=
    congrArg Prod.fst h
  cases h with
  | env pc s w x =>
    obtain ⟨l, hl, hm, -⟩ := w.env_extends x
    refine .of_eq l rfl hl fun m hmem => ?_
    have := hm m hmem
    cases m <;> first | rfl | cases this
  | check s w h => exact .of_eq [_] (fst (by simp)) rfl (by simp [Mark.honoursNone])
  | differ s w h => exact .of_eq [_] rfl rfl (by simp [Mark.honoursNone])
  | recheck s w => exact .of_eq [_] rfl rfl (by simp [Mark.honoursNone])
  | sample s w => exact .of_eq [_] rfl rfl (by simp [Mark.honoursNone])
  | resetTop | eventFailed | resetOverflow | resetLease | tickReset | resetSchedule | fence
    | asciiReset => exact .of_cleared (fst (by simp))
  | eventRelease v rest s w h hdone =>
    exact .of_eq [_] (fst (by simp)) rfl (by simp [Mark.honoursNone])
  | eventClick | pressRefused | report | subscribe => exact .of_eq [] (fst (by simp)) rfl (by simp)
  | takeEvents | eventsDone | overflowClear | overflowSet | leaseKept | scheduleIdle | silent
    | ignore | answer | releaseWaits => exact .of_eq [] rfl rfl (by simp)
  | tickDone => exact .of_eq [] (fst (by simp)) rfl (by simp)
  | tickEnqueue => exact .of_after (fst (by simp))
  | enqueueRelease s w hp hi hres =>
    obtain ⟨l, hl, hm⟩ := w.enqueueFinalRelease_history s.trackedGeneration s.releaseKey
    refine .of_eq l rfl hl fun m hmem => ?_
    rcases hm m hmem with rfl | ⟨item, rfl⟩ <;> rfl
  | enqueuePress | enqueueClickRelease | refuseReport => exact .of_after rfl
  | prune pc s w now h =>
    refine .of_eq _ rfl rfl fun m hm => ?_
    obtain ⟨_, _, rfl⟩ := ClickSessions.Tracker.pruneMarks_mem hm
    rfl
  | evict s w e => exact .of_eq _ rfl rfl (by simp [Server.evictMarks, Mark.honoursNone])
  | retryMove s =>
    refine .of_eq _ (fst (by simp)) rfl fun m hm => ?_
    obtain ⟨rfl, -⟩ | rfl := s.controlMarks_mem hm <;> rfl
  | retryClick => exact .of_eq [] rfl rfl (by simp)
  | startMove s w source r e sessions forgot now t1 t2 t3 hr hfresh hverdict hroom hadmitted =>
    obtain ⟨_, hs⟩ := s.startMove_eq source r e sessions t1 t2 t3
    exact .of_eq _ (by rw [hs]) rfl (honoursNone_append
      (by simp [Server.moveMarks, Mark.honoursNone]) (admitPruned_honoursNone hadmitted))
  | pushClick s w source r e sessions forgot now t1 t2 hr hfresh hverdict hroom hadmitted =>
    obtain ⟨_, hs⟩ := (s.admitted r source r.count sessions).pushClick_eq source r e
      (Server.clickRecord r source r.count) now t1 t2
    exact .of_eq _ (by rw [hs]; rfl) rfl (honoursNone_append
      (by simp [Server.scheduleMarks, Mark.honoursNone]) (admitPruned_honoursNone hadmitted))
  | recordRelease s w source r e sessions forgot now t hr hfresh hroom hadmitted =>
    obtain ⟨_, hs⟩ := (s.admitted r source 0 sessions).recordRelease_eq source r
      (Server.clickRecord r source 0) now t
    exact .of_eq _ (by rw [hs]; rfl) rfl (honoursNone_append
      (by simp [Server.releaseMarks, Mark.honoursNone]) (admitPruned_honoursNone hadmitted))
  | pruneReplay s w now => exact .prune now
  | heartbeat s w e source sequence now hactive hnew => exact .heartbeat source sequence
  | applySnapshot s w w' e source sequence command next packetNow t hready hmover hnew hargs =>
    have hworld : ∃ l, w'.history = l ++ w.history ∧ ∀ m ∈ l, m.honoursNone = true := by
      split at hargs
      · exact ⟨[], by rw [hargs]; rfl, by simp⟩
      · obtain ⟨-, rfl⟩ := hargs
        obtain ⟨l, hl, hm⟩ := w.after_history ‹EnqueueArgs›
        refine ⟨l, hl, fun m hmem => ?_⟩
        obtain ⟨item, rfl⟩ := hm m hmem
        rfl
    obtain ⟨l, hl, hm⟩ := hworld
    have hstep : ReplayStep s.movementReplay w.history _ _ :=
      .accept source sequence packetNow [.adopted, .accepted next] l (by simp [Mark.honoursNone])
        hm hnew
    rw [← hl] at hstep
    simpa [Server.snapshotMarks, Server.applySnapshot, Server.renew] using hstep
  | asciiClick => exact .of_eq [_, _] rfl rfl (by simp [Mark.honoursNone])
  | asciiReport s w e source command next t hready hmover hres =>
    obtain ⟨l, hl, hm⟩ := w.after_history (s.asciiArgs command next)
    refine .of_eq ([.adopted, .accepted next] ++ l) rfl (by simp [hl]) ?_
    refine honoursNone_append (by simp [Mark.honoursNone]) fun m hmem => ?_
    obtain ⟨item, rfl⟩ := hm m hmem
    rfl

/-! ### Runs -/

theorem pruneMarks_replay_honoursNone (t : Tracker) (now : ℕ) :
    ∀ m ∈ t.pruneMarks now, m.honoursNone = true := by
  intro m hm
  obtain ⟨_, _, rfl⟩ := Tracker.pruneMarks_mem hm
  rfl

theorem acceptMarks_honoursNone (t : Tracker) (p : Peer) :
    ∀ m ∈ t.acceptMarks p, m.honoursNone = true := by
  intro m hm
  obtain ⟨_, _, rfl⟩ := Tracker.acceptMarks_mem hm
  rfl

theorem isStale_false {t : Tracker} {p : Peer} {sequence : BitVec 32} {e : Entry}
    (h : t.isStale p sequence = false) (he : t.find p = some e) :
    sequenceNewer sequence e.sequence = true := by
  simpa [Tracker.isStale, he] using h

/-- A step keeps the chains and the entries that follow them, unless it honours a heartbeat during
a transaction. -/
theorem ReplayStep.keeps {t t' : Tracker} {h h' : List Mark} (hstep : ReplayStep t h t' h')
    (hidle : NoTransactionHeartbeat h') (hchain : Chained h) (hfollowed : Followed t h) :
    Chained h' ∧ Followed t' h' := by
  cases hstep with
  | keep l hl => exact ⟨hchain.append hl, hfollowed.append hl fun p e he => .inr he⟩
  | prune now =>
    exact ⟨hchain.append (pruneMarks_replay_honoursNone t now),
      hfollowed.append (pruneMarks_replay_honoursNone t now) fun p e he =>
        Tracker.find_prune now he⟩
  | heartbeat p sequence => exact absurd List.mem_cons_self (hidle p sequence)
  | accept p sequence now l l' hl hl' hnew =>
    have hforgot : ∀ m ∈ (t.prune now).acceptMarks p ++ t.pruneMarks now, m.honoursNone = true :=
      honoursNone_append (acceptMarks_honoursNone _ p) (pruneMarks_replay_honoursNone t now)
    have hchain1 := hchain.append hl'
    have hfollowed1 : Followed t (l' ++ h) := hfollowed.append hl' fun p e he => .inr he
    -- a retained entry of the peer is older than the packet
    have hnewer : ∀ last rest,
        honouredSince p (((t.prune now).acceptMarks p ++ t.pruneMarks now) ++ (l' ++ h)) =
          last :: rest → sequenceNewer sequence last = true := by
      intro last rest heq
      rw [honouredSince_append hforgot] at heq
      split at heq
      · cases heq
      · obtain ⟨e, he, rfl⟩ := hfollowed1 p last rest heq
        exact isStale_false hnew he
    refine ⟨((hchain1.append hforgot).honoured hnewer).append hl, ?_⟩
    refine Followed.append ?_ hl fun q e he => .inr he
    intro q last rest heq
    simp only [honouredSince] at heq
    split at heq
    · rename_i hpq
      cases heq
      subst hpq
      exact ⟨_, Tracker.find_acceptPruned_self _ now, rfl⟩
    · rename_i hpq
      rw [honouredSince_append hforgot] at heq
      split at heq
      · cases heq
      · rename_i hkept
        obtain ⟨e, he, hlast⟩ := hfollowed1 q last rest heq
        have hkept {why : Forgotten} (hwhy : .replayForgot q why ∈
            (t.prune now).acceptMarks p ++ t.pruneMarks now) : False :=
          hkept (List.any_eq_true.mpr ⟨_, hwhy, Mark.forgets_iff.mpr ⟨why, rfl⟩⟩)
        rcases Tracker.find_prune now he with ⟨why, hwhy⟩ | he
        · exact (hkept (List.mem_append_right _ hwhy)).elim
        · rcases Tracker.find_acceptPruned sequence now (Ne.symm hpq) he with ⟨why, hwhy⟩ | he
          · exact (hkept (List.mem_append_left _ hwhy)).elim
          · exact ⟨e, he, hlast⟩

theorem honouredSince_mem {l h : List Mark} {p : Peer} {sequence : BitVec 32} {transaction : Bool}
    (hl : ∀ why, .replayForgot p why ∉ l) :
    sequence ∈ honouredSince p (l ++ .honoured p sequence transaction :: h) := by
  induction l with
  | nil => simp [honouredSince]
  | cons m l ih =>
    have ih := ih fun why hmem => hl why (List.mem_cons_of_mem m hmem)
    rw [List.cons_append]
    cases m with
    | honoured q =>
      simp only [honouredSince]
      split
      · exact List.mem_cons_of_mem _ ih
      · exact ih
    | replayForgot q why =>
      simp only [honouredSince]
      split
      · rename_i hq
        exact absurd (hq ▸ List.mem_cons_self) (hl why)
      · exact ih
    | _ => exact ih

theorem NoTransactionHeartbeat.suffix {h h' : List Mark} (hidle : NoTransactionHeartbeat h')
    (hsuffix : h <:+ h') : NoTransactionHeartbeat h :=
  fun p s hmem => hidle p s (hsuffix.subset hmem)

/-- A step only adds to the history. -/
theorem ReplayStep.suffix {t t' : Tracker} {h h' : List Mark} (hstep : ReplayStep t h t' h') :
    h <:+ h' := by
  cases hstep with
  | keep l hl => exact List.suffix_append l h
  | prune now => exact List.suffix_append _ h
  | heartbeat p sequence => exact List.suffix_cons _ h
  | accept p sequence now l l' hl hl' hnew =>
    exact ((((List.suffix_append l' h).trans (List.suffix_append _ _)).trans
      (List.suffix_cons _ _)).trans (List.suffix_append l _))

theorem Config.Reachable.chained {c : Config} (hc : c.Reachable)
    (hidle : NoTransactionHeartbeat c.world.history) :
    Chained c.world.history ∧ Followed c.server.movementReplay c.world.history := by
  have hinv := hc.invariant
    (P := fun x => NoTransactionHeartbeat x.world.history →
      Chained x.world.history ∧ Followed x.server.movementReplay x.world.history)
    (fun epoch peerFilter _ => ⟨fun h p hsuffix => by
      rw [List.suffix_nil.mp hsuffix]
      exact .nil, fun p sequence rest heq => by cases heq⟩)
    (fun x y hstep hx hy => by
      obtain ⟨hchain, hfollowed⟩ := hx (hy.suffix hstep.replay.suffix)
      exact hstep.replay.keeps hy hchain hfollowed)
  exact hinv hidle

/-- **UPX1 packets of a peer are honoured in order**, as long as no heartbeat is honoured during a
transaction and the peer's sequences stay within half their range. -/
theorem upx_ordered {c : Config} (hc : c.Reachable)
    (hidle : NoTransactionHeartbeat c.world.history) (hhalf : WithinHalfRange c.world.history) :
    UpxOrdered c.world.history := by
  intro l₁ l₂ l₃ p s s' t t' hsplit hkept
  have hsuffix : .honoured p s' t' :: l₂ ++ .honoured p s t :: l₃ <:+ c.world.history :=
    ⟨l₁, by simpa using hsplit.symm⟩
  have hchain := (hc.chained hidle).1 _ p hsuffix
  have htravel := hhalf _ p hsuffix
  have hmem : s ∈ honouredSince p (l₂ ++ .honoured p s t :: l₃) := honouredSince_mem hkept
  simp only [List.cons_append, honouredSince, if_true] at hchain htravel
  have hnewer := newer_of_chain hchain htravel hmem
  exact sequenceNewer_iff.mpr ⟨hnewer.1, by omega⟩

/-! ### Runs with one peer -/

/-- The sequence a moment honours. -/
def Mark.sequence? : Mark → Option (BitVec 32)
  | .honoured _ sequence _ => some sequence
  | _ => none

theorem honouredSince_sublist (p : Peer) (h : List Mark) :
    (honouredSince p h).Sublist (h.filterMap Mark.sequence?) := by
  induction h with
  | nil => exact .slnil
  | cons m h ih =>
    cases m with
    | honoured q sequence transaction =>
      simp only [honouredSince, List.filterMap_cons, Mark.sequence?]
      split
      · exact ih.cons_cons sequence
      · exact ih.cons sequence
    | replayForgot q why =>
      simp only [honouredSince, List.filterMap_cons, Mark.sequence?]
      split
      · exact List.nil_sublist _
      · exact ih
    | _ => exact ih

/-- The range condition, read off the sequences of all peers. -/
theorem withinHalfRange_of_sublists {h : List Mark}
    (hall : ∀ l ∈ (h.filterMap Mark.sequence?).sublists, travel l < 2 ^ 31) : WithinHalfRange h :=
  fun h' p hsuffix => hall _ (List.mem_sublists.mpr
    ((honouredSince_sublist p h').trans (hsuffix.sublist.filterMap Mark.sequence?)))

/-- Two UPX1 packets without a transaction. -/
def twoHeartbeats : Config :=
  (Config.init 1 none).run (Action.mouse ++ Action.iteration (some (.upx ⟨1, 5000⟩ 5 0)) ++
    Action.iteration (some (.upx ⟨1, 5000⟩ 6 0)))

theorem upx_ordered_twoHeartbeats :
    UpxOrdered twoHeartbeats.world.history ∧
      twoHeartbeats.world.history.filterMap Mark.sequence? = [6, 5] := by
  have hsequences : twoHeartbeats.world.history.filterMap Mark.sequence? = [6, 5] := by
    decide +kernel
  have hnone : twoHeartbeats.world.history.all (fun m =>
      match m with | .honoured _ _ t => !t | _ => true) = true := by decide +kernel
  refine ⟨upx_ordered ⟨1, none, _, rfl⟩ (fun p s hmem => ?_)
    (withinHalfRange_of_sublists ?_), hsequences⟩
  · exact absurd (List.all_eq_true.mp hnone _ hmem) (by simp)
  · rw [hsequences]
    decide

/-- During a transaction a heartbeat with sequence 5 renews the lease; after `+release` the delayed
packet with sequence 4 applies its button hold. -/
def delayedHold : Config :=
  (Config.init 1 none).run (Action.mouse ++
    Action.iteration (some (.upm ⟨1, 5000⟩
      { session := 7, command := 1, epoch := 1, generation := 1, dx := 10 })) ++
    Action.iteration (some (.upx ⟨1, 5000⟩ 5 0)) ++
    Action.iteration (some (.text ⟨1, 5000⟩ "+release")) ++
    Action.iteration (some (.upx ⟨1, 5000⟩ 4 1)))

theorem delayedHold_unordered :
    delayedHold.Reachable ∧ delayedHold.server.persistentButtons = 1 ∧
      ¬ UpxOrdered delayedHold.world.history := by
  refine ⟨⟨1, none, _, rfl⟩, by decide +kernel, fun hordered => ?_⟩
  have hsplit : delayedHold.world.history =
      delayedHold.world.history.take 2 ++ .honoured ⟨1, 5000⟩ 4 false ::
        (delayedHold.world.history.drop 3).take 6 ++ .honoured ⟨1, 5000⟩ 5 true ::
          delayedHold.world.history.drop 10 := by decide +kernel
  have hkept : ((delayedHold.world.history.drop 3).take 6).any
      (Mark.forgets ⟨1, 5000⟩) = false := by decide +kernel
  have hnewer := hordered _ _ _ _ _ _ _ _ hsplit fun why hmem =>
    absurd (List.any_eq_true.mpr ⟨_, hmem, Mark.forgets_iff.mpr ⟨why, rfl⟩⟩) (by simp [hkept])
  exact absurd hnewer (by decide)

end UsbProxy
