import UsbProxy.Lib.Recency
import UsbProxy.Server.UpxOrder

/-!
# The UPX1 replay history as a map

A run of `stale` and `accept` calls leaves in the tracker the last acceptance of each peer, of 256
peers at most and no older than the retention time.
-/

namespace UsbProxy.UpxReplay

/-- A call of the tracker. -/
inductive Call
  | stale (peer : Peer) (sequence : BitVec 32) (now : ℕ)
  | accept (peer : Peer) (sequence : BitVec 32) (now : ℕ)
deriving DecidableEq, Repr

def Call.time : Call → ℕ
  | .stale _ _ now => now
  | .accept _ _ now => now

/-- The entry a call leaves. -/
def Call.entry : Call → Option Entry
  | .stale .. => none
  | .accept peer sequence now => some ⟨peer, sequence, now⟩

theorem Call.entry_stamp {c : Call} {e : Entry} (h : c.entry = some e) : e.stamp = c.time := by
  cases c with
  | stale => cases h
  | accept =>
    cases h
    rfl

namespace Tracker

def after (t : Tracker) : Call → Tracker
  | .stale _ _ now => t.prune now
  | .accept peer sequence now => t.accept peer sequence now

/-- The history after a run of calls, from the empty one. -/
def run (calls : List Call) : Tracker := calls.foldl after []

@[simp] theorem run_nil : run [] = [] := rfl

@[simp] theorem run_concat (calls : List Call) (c : Call) :
    run (calls ++ [c]) = (run calls).after c := by
  simp [run]

end Tracker

/-- The acceptances of a run, oldest first. -/
def accepts (calls : List Call) : List Entry := calls.filterMap Call.entry

/-- The times of a run do not go back. -/
def Timed (calls : List Call) : Prop := calls.Pairwise fun c d => c.time ≤ d.time

/-! ### The table -/

variable {calls : List Call} {c : Call} {t : Tracker} {now : ℕ}

/-- The acceptances that are not expired. -/
def fresh (now : ℕ) (e : Entry) : Bool := !e.expired now

theorem fresh_iff {e : Entry} : fresh now e = true ↔ now - e.stamp ≤ retentionNs := by
  simp only [fresh, Entry.expired, Bool.not_eq_true', Bool.and_eq_false_iff, decide_eq_false_iff_not]
  omega

theorem fresh_earlier {e : Entry} {earlier : ℕ} (hle : earlier ≤ now) (h : fresh now e = true) :
    fresh earlier e = true := by
  rw [fresh_iff] at h ⊢
  omega

/-- Entries from the oldest to the newest. -/
def Ordered (t : Tracker) : Prop := t.Pairwise fun a b => a.stamp ≤ b.stamp

/-- **Pruning from the front removes the expired entries.** -/
theorem Ordered.prune (h : Ordered t) (now : ℕ) : t.prune now = t.filter (fresh now) := by
  refine Recency.dropWhile_eq_filter (h.imp fun {a b} hab hb => ?_)
  have hb' : fresh now b ≠ true := by simp [fresh, hb]
  have ha' : fresh now a ≠ true := fun ha => hb' (by rw [fresh_iff] at ha ⊢; omega)
  simpa [fresh] using ha'

/-- The tracker's table: the last acceptances of 256 peers that are fresh, newest first. -/
def recentPeers (now : ℕ) (calls : List Call) : List Entry :=
  Recency.table Entry.peer maxPeers (fresh now) (accepts calls).reverse

theorem accepts_concat (calls : List Call) (c : Call) :
    (accepts (calls ++ [c])).reverse = c.entry.toList ++ (accepts calls).reverse := by
  cases c <;> simp [accepts, Call.entry]

theorem Timed.stamps (h : Timed calls) :
    (accepts calls).reverse.Pairwise fun a b => b.stamp ≤ a.stamp := by
  rw [List.pairwise_reverse]
  refine List.Pairwise.filterMap Call.entry (fun c d hcd e he f hf => ?_) h
  rw [Call.entry_stamp he, Call.entry_stamp hf]
  exact hcd

theorem Timed.freshness (h : Timed calls) (now : ℕ) :
    (accepts calls).reverse.Pairwise
      fun a b => fresh now b = true → fresh now a = true := by
  refine h.stamps.imp fun {a b} hab hb => ?_
  rw [fresh_iff] at hb ⊢
  omega

theorem recentPeers_nodup (now : ℕ) (calls : List Call) :
    ((recentPeers now calls).map Entry.peer).Nodup :=
  Recency.table_nodup _ _ _

theorem Timed.table (h : Timed calls) (now : ℕ) : Ordered (recentPeers now calls).reverse := by
  rw [Ordered, List.pairwise_reverse]
  exact h.stamps.sublist (Recency.table_sublist _ _ _)

/-- `accept`, on the pruned history, is a use of its peer. -/
theorem acceptPruned_reverse (hnodup : (t.map Entry.peer).Nodup) (peer : Peer)
    (sequence : BitVec 32) (now : ℕ) :
    (t.acceptPruned peer sequence now).reverse =
      Recency.touch Entry.peer maxPeers t.reverse ⟨peer, sequence, now⟩ := by
  have hreverse : (t.reverse.map Entry.peer).Nodup := by simpa using hnodup
  unfold Tracker.acceptPruned Recency.touch
  cases hfind : t.find peer with
  | some e =>
    have hany : (t.reverse.any fun x => x.peer == peer) = true :=
      List.any_eq_true.mpr ⟨e, by simpa using Tracker.find_mem hfind,
        by simpa using Tracker.find_peer hfind⟩
    rw [if_pos hany]
    simp [Tracker.remove, Recency.eraseP_eq_filter hreverse]
  | none =>
    have hany : ¬ (t.reverse.any fun x => x.peer == peer) = true := by
      simpa [Tracker.find] using hfind
    rw [if_neg hany]
    simp only [List.reverse_append, List.reverse_singleton, List.singleton_append,
      List.length_reverse]
    split <;> simp

/-- A tracker holds the table of its run, as of a moment no later than the next call. -/
def Holds (calls : List Call) (t : Tracker) : Prop :=
  ∃ asOf, (∀ now, (∀ c ∈ calls, c.time ≤ now) → asOf ≤ now) ∧ t.reverse = recentPeers asOf calls

theorem Holds.nodup (h : Holds calls t) : (t.map Entry.peer).Nodup := by
  obtain ⟨asOf, -, ht⟩ := h
  have := recentPeers_nodup asOf calls
  rw [← ht] at this
  simpa using this

theorem Holds.length (h : Holds calls t) : t.length ≤ maxPeers := by
  obtain ⟨asOf, -, ht⟩ := h
  rw [← List.length_reverse, ht]
  exact Recency.table_length maxPeers (fresh asOf) (accepts calls).reverse

theorem Holds.ordered (h : Holds calls t) (htimed : Timed calls) : Ordered t := by
  obtain ⟨asOf, -, ht⟩ := h
  have := htimed.table asOf
  rwa [← ht, List.reverse_reverse] at this

/-- **The pruned tracker is the table as of now.** -/
theorem Holds.prune (h : Holds calls t) (htimed : Timed calls)
    (hnow : ∀ c ∈ calls, c.time ≤ now) : (t.prune now).reverse = recentPeers now calls := by
  obtain ⟨asOf, hasOf, ht⟩ := id h
  rw [(h.ordered htimed).prune now, ← List.filter_reverse, ht]
  exact Recency.filter_table (fun e he => fresh_earlier (hasOf now hnow) he) _ _

theorem Holds.after (h : Holds calls t) (htimed : Timed (calls ++ [c])) :
    Holds (calls ++ [c]) (t.after c) := by
  have hcalls : Timed calls := (List.pairwise_append.mp htimed).1
  have hlast := (List.pairwise_append.mp htimed).2.2
  have hnow : ∀ d ∈ calls, d.time ≤ c.time := fun d hd => hlast d hd c (List.mem_singleton.mpr rfl)
  have hprune := h.prune hcalls hnow
  refine ⟨c.time, fun now hall => hall c (by simp), ?_⟩
  rw [recentPeers, accepts_concat]
  cases c with
  | stale peer sequence now => exact hprune
  | accept peer sequence now =>
    have hnodup : ((t.prune now).map Entry.peer).Nodup :=
      h.nodup.sublist ((List.dropWhile_sublist _).map _)
    show ((t.prune now).acceptPruned peer sequence now).reverse = _
    rw [acceptPruned_reverse hnodup, show (t.prune now).reverse = recentPeers now calls from hprune]
    exact Recency.touch_table (by decide) (hcalls.freshness now)
      (by rw [fresh_iff]; simp)

theorem Timed.holds (h : Timed calls) : Holds calls (Tracker.run calls) := by
  induction calls using List.reverseRecOn with
  | nil => exact ⟨0, fun _ _ => Nat.zero_le _, rfl⟩
  | append_singleton calls c ih =>
    rw [Tracker.run_concat]
    exact (ih (List.pairwise_append.mp h).1).after h

/-! ### Answers -/

/-- `a` is ahead of `b` by less than half the range. -/
def Newer (a b : BitVec 32) : Prop := 0 < (a - b).toNat ∧ (a - b).toNat < 2 ^ 31

/-- A peer's last acceptance of a run, with the acceptances of other peers after it. -/
def LastAccepted (calls : List Call) (last : Entry) (newer : List Entry) : Prop :=
  ∃ older, accepts calls = older ++ last :: newer ∧ ∀ e ∈ newer, e.peer ≠ last.peer

theorem find_iff {t : Tracker} {e : Entry} (h : (t.map Entry.peer).Nodup) (peer : Peer) :
    t.find peer = some e ↔ e ∈ t ∧ e.peer = peer := by
  rw [Tracker.find, Recency.find?_reverse h, Recency.find?_eq_some h]

/-- **What the tracker knows of a peer** is its last acceptance, if it is no older than the
retention time and fewer than 256 other peers were accepted after it. -/
theorem Timed.find (h : Timed calls) (hnow : ∀ c ∈ calls, c.time ≤ now) {last : Entry} :
    ((Tracker.run calls).prune now).find last.peer = some last ↔
      ∃ newer, LastAccepted calls last newer ∧ now - last.stamp ≤ retentionNs ∧
        (newer.map Entry.peer).toFinset.card < maxPeers := by
  have hprune := h.holds.prune h hnow
  have hnodup : (((Tracker.run calls).prune now).map Entry.peer).Nodup :=
    h.holds.nodup.sublist ((List.dropWhile_sublist _).map _)
  rw [find_iff hnodup, ← List.mem_reverse, hprune, recentPeers, Recency.table, List.mem_filter,
    Recency.mem_take_recent, fresh_iff]
  constructor
  · rintro ⟨⟨⟨newer, older, hsplit, hfirst, hcard⟩, hfresh⟩, -⟩
    refine ⟨newer.reverse, ⟨older.reverse, ?_, fun e he heq => ?_⟩, hfresh, ?_⟩
    · rw [← List.reverse_reverse (accepts calls), hsplit]
      simp
    · exact hfirst (heq ▸ List.mem_map_of_mem (List.mem_reverse.mp he))
    · rwa [List.map_reverse, List.toFinset_reverse]
  · rintro ⟨newer, ⟨older, hsplit, hfirst⟩, hfresh, hcard⟩
    refine ⟨⟨⟨newer.reverse, older.reverse, ?_, fun hmem => ?_, ?_⟩, hfresh⟩, rfl⟩
    · rw [hsplit]
      simp
    · obtain ⟨e, he, heq⟩ := List.mem_map.mp hmem
      exact hfirst e (List.mem_reverse.mp he) heq
    · rwa [List.map_reverse, List.toFinset_reverse]

/-! ### Accepting a sequence again -/

/-- The sequences accepted from a peer, newest first. -/
def acceptedFrom (peer : Peer) : List Call → List (BitVec 32)
  | [] => []
  | .stale .. :: calls => acceptedFrom peer calls
  | .accept p sequence _ :: calls =>
    if p = peer then acceptedFrom peer calls ++ [sequence] else acceptedFrom peer calls

/-- Every sequence accepted from the peer was not stale. -/
def OnlyFresh (peer : Peer) (calls : List Call) : Prop :=
  ∀ before sequence now later, calls = before ++ .accept peer sequence now :: later →
    ((Tracker.run before).prune now).isStale peer sequence = false

/-- The peer's entry is gone when one of the later calls is made. -/
def Dropped (peer : Peer) (before later : List Call) : Prop :=
  ∃ between c rest, later = between ++ c :: rest ∧
    ((Tracker.run (before ++ between)).prune c.time).find peer = none

variable {peer : Peer} {sequence : BitVec 32} {before between : List Call}

theorem acceptedFrom_concat (peer : Peer) (calls : List Call) (c : Call) :
    acceptedFrom peer (calls ++ [c]) = acceptedFrom peer [c] ++ acceptedFrom peer calls := by
  induction calls with
  | nil => simp [acceptedFrom]
  | cons d calls ih =>
    cases d with
    | stale => simpa [acceptedFrom] using ih
    | accept p s now =>
      by_cases hp : p = peer
      · rw [List.cons_append, acceptedFrom, acceptedFrom, if_pos hp, if_pos hp, ih,
          List.append_assoc]
      · rw [List.cons_append, acceptedFrom, acceptedFrom, if_neg hp, if_neg hp, ih]

theorem find_sublist {u : Tracker} {e : Entry} (hsub : u.Sublist t)
    (hnodup : (t.map Entry.peer).Nodup) (h : u.find peer = some e) : t.find peer = some e := by
  rw [find_iff (hnodup.sublist (hsub.map _))] at h
  exact (find_iff hnodup peer).mpr ⟨hsub.subset h.1, h.2⟩

/-- Another peer's entry comes from before. -/
theorem find_acceptPruned_other {q : Peer} {e : Entry} (hnodup : (t.map Entry.peer).Nodup)
    (hne : q ≠ peer) (h : (t.acceptPruned q sequence now).find peer = some e) :
    t.find peer = some e := by
  have hlast (l : Tracker) : Tracker.find (l ++ [⟨q, sequence, now⟩]) peer = l.find peer := by
    simp [Tracker.find, hne]
  unfold Tracker.acceptPruned at h
  split at h
  · rw [hlast, Tracker.find_remove hne.symm] at h
    exact h
  · rw [hlast] at h
    split at h
    · exact find_sublist (List.tail_sublist t) hnodup h
    · exact h

theorem OnlyFresh.concat (h : OnlyFresh peer (calls ++ [c])) : OnlyFresh peer calls := by
  rintro before sequence now later rfl
  exact h before sequence now (later ++ [c]) (by simp)

theorem Dropped.concat (h : Dropped peer before between) (c : Call) :
    Dropped peer before (between ++ [c]) := by
  obtain ⟨u, d, v, rfl, hfind⟩ := h
  exact ⟨u, d, v ++ [c], by simp, hfind⟩

/-- A chain of sequences from a peer that ends in the one its entry carries. -/
def EndsIn (sequences : List (BitVec 32)) (e : Entry) : Prop :=
  ∃ rest, sequences = e.sequence :: rest ∧
    (e.sequence :: rest).IsChain fun x y => sequenceNewer x y = true

/-- **While its entry is kept, a peer's fresh acceptances form a chain that ends in the entry.** -/
theorem Timed.chain (h : Timed ((before ++ [.accept peer sequence now]) ++ between))
    (honly : OnlyFresh peer ((before ++ [.accept peer sequence now]) ++ between)) :
    Dropped peer (before ++ [.accept peer sequence now]) between ∨
      ∀ e, (Tracker.run ((before ++ [.accept peer sequence now]) ++ between)).find peer = some e →
        EndsIn (acceptedFrom peer between ++ [sequence]) e := by
  induction between using List.reverseRecOn with
  | nil =>
    refine .inr fun e he => ⟨[], ?_, .singleton _⟩
    rw [List.append_nil, Tracker.run_concat, Tracker.after, Tracker.accept,
      Tracker.find_acceptPruned_self] at he
    cases he
    rfl
  | append_singleton between c ih =>
    rw [← List.append_assoc] at h honly
    have hcalls : Timed ((before ++ [.accept peer sequence now]) ++ between) :=
      (List.pairwise_append.mp h).1
    rcases ih hcalls honly.concat with hdropped | hchain
    · exact .inl (hdropped.concat c)
    rw [acceptedFrom_concat, List.append_assoc (acceptedFrom peer [c])]
    generalize hbase : (before ++ [.accept peer sequence now]) ++ between = base at *
    have hrun : Tracker.run ((before ++ [.accept peer sequence now]) ++ (between ++ [c])) =
        (Tracker.run base).after c := by
      rw [← List.append_assoc, hbase, Tracker.run_concat]
    rw [hrun]
    have hnodup := hcalls.holds.nodup
    have hpruned : (((Tracker.run base).prune c.time).map Entry.peer).Nodup :=
      hnodup.sublist ((List.dropWhile_sublist _).map _)
    -- the entry the call finds, if any
    cases hfind : ((Tracker.run base).prune c.time).find peer with
    | none => exact .inl ⟨between, c, [], rfl, by rw [hbase]; exact hfind⟩
    | some kept =>
      have hkept := hchain kept (find_sublist (List.dropWhile_sublist _) hnodup hfind)
      refine .inr fun e he => ?_
      cases c with
      | stale p s t =>
        rw [show (Tracker.run base).after (.stale p s t) = (Tracker.run base).prune t from rfl,
          show ((Tracker.run base).prune t).find peer = some kept from hfind] at he
        cases he
        exact hkept
      | accept p s t =>
        rw [Tracker.after, Tracker.accept] at he
        by_cases hp : p = peer
        · subst hp
          rw [Tracker.find_acceptPruned_self] at he
          cases he
          obtain ⟨rest, hsequences, hlinks⟩ := hkept
          have hnewer : sequenceNewer s kept.sequence = true :=
            isStale_false (honly base s t [] rfl) hfind
          refine ⟨kept.sequence :: rest, ?_, List.isChain_cons_cons.mpr ⟨hnewer, hlinks⟩⟩
          simp [acceptedFrom, hsequences]
        · have hsame := find_acceptPruned_other hpruned hp he
          rw [hfind] at hsame
          cases hsame
          simpa [acceptedFrom, hp] using hkept

/-- **A sequence is not accepted again** from a peer whose entry is kept before the accepted
sequences have advanced by half their range. -/
theorem Timed.accepted_again {later : List Call} {again : ℕ}
    (h : Timed (before ++ .accept peer sequence now ::
      (between ++ .accept peer sequence again :: later)))
    (honly : OnlyFresh peer (before ++ .accept peer sequence now ::
      (between ++ .accept peer sequence again :: later))) :
    Dropped peer (before ++ [.accept peer sequence now])
        (between ++ [.accept peer sequence again]) ∨
      2 ^ 31 ≤ travel (acceptedFrom peer between ++ [sequence]) := by
  let base := (before ++ [.accept peer sequence now]) ++ between
  have hsplit : before ++ .accept peer sequence now :: (between ++ .accept peer sequence again ::
      later) = base ++ .accept peer sequence again :: later := by
    simp [base]
  rw [hsplit] at h honly
  have hbase : Timed base := (List.pairwise_append.mp h).1
  have hfresh := honly base sequence again later rfl
  have honly : OnlyFresh peer base := by
    rintro b s t l hb
    exact honly b s t (l ++ .accept peer sequence again :: later) (by rw [hb]; simp)
  rcases hbase.chain honly with hdropped | hchain
  · exact .inl (hdropped.concat _)
  cases hfind : ((Tracker.run base).prune again).find peer with
  | none => exact .inl ⟨between, .accept peer sequence again, [], rfl, hfind⟩
  | some kept =>
    obtain ⟨rest, hsequences, hlinks⟩ :=
      hchain kept (find_sublist (List.dropWhile_sublist _) hbase.holds.nodup hfind)
    have hnewer := sequenceNewer_iff.mp (isStale_false hfresh hfind)
    rw [hsequences]
    refine .inr ?_
    by_contra hhalf
    rw [Nat.not_le] at hhalf
    -- the sequence itself is the last of the chain
    have hlast : sequence ∈ kept.sequence :: rest := by
      rw [← hsequences]
      exact List.mem_append_right _ (List.mem_singleton.mpr rfl)
    rcases List.mem_cons.mp hlast with heq | hmem
    · rw [heq] at hnewer
      simp at hnewer
    · obtain ⟨hpos, hle⟩ := newer_of_chain hlinks hhalf hmem
      have hround : (sequence - kept.sequence).toNat + (kept.sequence - sequence).toNat = 2 ^ 32 := by
        simp only [BitVec.toNat_sub] at hpos hnewer ⊢
        omega
      omega

/-! ### The tracker refines the map -/

/-- What the tracker is after a run of calls, and what it will answer. -/
structure Refines (calls : List Call) (t : Tracker) : Prop where
  distinct : (t.map Entry.peer).Nodup
  bounded : t.length ≤ 256
  ordered : (t.map Entry.stamp).Pairwise (· ≤ ·)
  pruned : ∀ now, t.prune now = t.filter fun e => decide (now - e.stamp ≤ retentionNs)
  stale : ∀ now, (∀ c ∈ calls, c.time ≤ now) → ∀ peer sequence,
    (t.prune now).isStale peer sequence = true ↔
      ∃ last newer, LastAccepted calls last newer ∧ last.peer = peer ∧
        now - last.stamp ≤ retentionNs ∧ (newer.map Entry.peer).toFinset.card < 256 ∧
        ¬ Newer sequence last.sequence
  again : ∀ before peer sequence now between again later,
    calls = before ++ .accept peer sequence now ::
      (between ++ .accept peer sequence again :: later) →
    OnlyFresh peer calls →
    Dropped peer (before ++ [.accept peer sequence now])
        (between ++ [.accept peer sequence again]) ∨
      2 ^ 31 ≤ travel (acceptedFrom peer between ++ [sequence])

/-- **The replay tracker is a map of the peers used last.**  After every run of calls whose times do
not go back it holds distinct peers, 256 at most, from the oldest to the newest; a sequence is stale
exactly when it is not newer than the last one accepted from its peer, within the retention time and
before 256 other peers. -/
theorem replay_refines (calls : List Call) (h : Timed calls) :
    Refines calls (Tracker.run calls) := by
  have hholds := h.holds
  have hordered := hholds.ordered h
  refine ⟨hholds.nodup, hholds.length, List.pairwise_map.mpr hordered, fun now => ?_,
    fun now hnow peer sequence => ?_, ?_⟩
  · rw [hordered.prune]
    refine List.filter_congr fun e _ => ?_
    rw [Bool.eq_iff_iff, fresh_iff, decide_eq_true_iff]
  · have hstale : ((Tracker.run calls).prune now).isStale peer sequence = true ↔
        ∃ last, ((Tracker.run calls).prune now).find peer = some last ∧
          ¬ Newer sequence last.sequence := by
      rw [Tracker.isStale, Option.any_eq_true]
      refine exists_congr fun last => and_congr Iff.rfl ?_
      rw [Newer, ← sequenceNewer_iff, Bool.not_eq_true', Bool.not_eq_true]
    rw [hstale]
    constructor
    · rintro ⟨last, hfind, hnewer⟩
      have hpeer := Tracker.find_peer hfind
      subst hpeer
      obtain ⟨newer, hlast, hfresh, hcard⟩ := (h.find hnow).mp hfind
      exact ⟨last, newer, hlast, rfl, hfresh, hcard, hnewer⟩
    · rintro ⟨last, newer, hlast, rfl, hfresh, hcard, hnewer⟩
      exact ⟨last, (h.find hnow).mpr ⟨newer, hlast, hfresh, hcard⟩, hnewer⟩
  · rintro before peer sequence now between again later rfl honly
    exact h.accepted_again honly

/-- Of a wrapping run of one peer, and of another peer's call. -/
theorem replay_refines_wrap :
    Refines [.accept ⟨1, 1⟩ 0xffffffff 1, .stale ⟨2, 1⟩ 0 1, .accept ⟨1, 1⟩ 5 2]
      (Tracker.run [.accept ⟨1, 1⟩ 0xffffffff 1, .stale ⟨2, 1⟩ 0 1, .accept ⟨1, 1⟩ 5 2]) :=
  replay_refines _ (by simp [Timed, Call.time])

end UsbProxy.UpxReplay
