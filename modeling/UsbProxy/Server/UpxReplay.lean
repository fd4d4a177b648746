import UsbProxy.Mixer.Registry

/-!
# The UPX1 replay history (`upx_replay.h`)

Entries run from the least to the most recently accepted peer.
-/

namespace UsbProxy.UpxReplay

/-- `sequence_newer` -/
def sequenceNewer (a b : BitVec 32) : Bool := a - b != 0 && decide (a - b < 0x80000000#32)

structure Entry where
  peer : Peer := {}
  sequence : BitVec 32 := 0
  stamp : ℕ := 0
deriving DecidableEq, Repr

abbrev Tracker := List Entry

def maxPeers : ℕ := 256
def retentionNs : ℕ := 10 * 60 * 1000 * 1000 * 1000

def Entry.expired (e : Entry) (now : ℕ) : Bool :=
  decide (e.stamp ≤ now) && decide (retentionNs < now - e.stamp)

namespace Tracker

/-- `prune`: expired entries leave from the front, up to the first that stays. -/
def prune (t : Tracker) (now : ℕ) : Tracker := t.dropWhile fun e => e.expired now

def pruneMarks (t : Tracker) (now : ℕ) : List Mark :=
  (t.takeWhile fun e => e.expired now).map fun e => .replayForgot e.peer (.expired now)

/-- `find`, from the back. -/
def find (t : Tracker) (peer : Peer) : Option Entry := t.reverse.find? fun e => e.peer == peer

/-- `stale`, on the pruned history. -/
def isStale (t : Tracker) (peer : Peer) (sequence : BitVec 32) : Bool :=
  (t.find peer).any fun e => !sequenceNewer sequence e.sequence

/-- The history without the last entry of a peer. -/
def remove (t : Tracker) (peer : Peer) : Tracker :=
  (t.reverse.eraseP fun e => e.peer == peer).reverse

/-- `accept`, on the pruned history. -/
def acceptPruned (t : Tracker) (peer : Peer) (sequence : BitVec 32) (now : ℕ) : Tracker :=
  match t.find peer with
  | some _ => t.remove peer ++ [⟨peer, sequence, now⟩]
  | none => (if maxPeers ≤ t.length then t.tail else t) ++ [⟨peer, sequence, now⟩]

def acceptMarks (t : Tracker) (peer : Peer) : List Mark :=
  match t.find peer with
  | some _ => []
  | none =>
    if maxPeers ≤ t.length then
      t.head?.toList.map fun e => .replayForgot e.peer .pushedOut
    else []

/-- `accept` -/
def accept (t : Tracker) (peer : Peer) (sequence : BitVec 32) (now : ℕ) : Tracker :=
  (t.prune now).acceptPruned peer sequence now

/-! ### The moments -/

theorem pruneMarks_mem {t : Tracker} {now : ℕ} {m : Mark} (h : m ∈ t.pruneMarks now) :
    ∃ peer why, m = .replayForgot peer why := by
  obtain ⟨e, -, rfl⟩ := List.mem_map.mp h
  exact ⟨_, _, rfl⟩

theorem acceptMarks_mem {t : Tracker} {peer : Peer} {m : Mark} (h : m ∈ t.acceptMarks peer) :
    ∃ peer why, m = .replayForgot peer why := by
  unfold acceptMarks at h
  split at h
  · cases h
  · split at h
    · obtain ⟨e, -, rfl⟩ := List.mem_map.mp h
      exact ⟨_, _, rfl⟩
    · cases h

/-! ### What becomes of an entry -/

variable {t : Tracker} {p q : Peer} {e : Entry}

theorem find_append (l r : Tracker) (p : Peer) :
    find (l ++ r) p = (find r p <|> find l p) := by
  rw [find, List.reverse_append, List.find?_append]
  cases h : List.find? (fun e => e.peer == p) r.reverse <;> simp [find, h]

theorem find_peer (h : t.find p = some e) : e.peer = p := by
  simpa using List.find?_some h

theorem find_mem (h : t.find p = some e) : e ∈ t := by
  simpa using List.mem_of_find?_eq_some h

/-- An entry `prune` drops is recorded as forgotten; the others are still found. -/
theorem find_prune (now : ℕ) (h : t.find p = some e) :
    (∃ why, .replayForgot p why ∈ t.pruneMarks now) ∨ (t.prune now).find p = some e := by
  have hsplit : t.takeWhile (fun e => e.expired now) ++ t.prune now = t :=
    List.takeWhile_append_dropWhile
  rw [← hsplit, find_append] at h
  cases hkept : (t.prune now).find p with
  | some e' => exact .inr (by simpa [hkept] using h)
  | none =>
    rw [hkept] at h
    have hdropped : find (t.takeWhile fun e => e.expired now) p = some e := by simpa using h
    refine .inl ⟨.expired now, List.mem_map.mpr ⟨e, find_mem hdropped, ?_⟩⟩
    rw [find_peer hdropped]

theorem find_remove (hne : p ≠ q) : (t.remove q).find p = t.find p := by
  have hdisjoint (l : List Entry) :
      (l.eraseP fun e => e.peer == q).find? (fun e => e.peer == p) =
        l.find? fun e => e.peer == p := by
    induction l with
    | nil => rfl
    | cons a l ih =>
      by_cases haq : a.peer = q
      · have hap : (a.peer == p) = false := by simpa [haq] using hne.symm
        simp [haq, hne.symm]
      · simp [haq, List.find?_cons, ih]
  simp [find, remove, hdisjoint]

/-- After `accept` the peer's entry carries the accepted sequence. -/
theorem find_acceptPruned_self (sequence : BitVec 32) (now : ℕ) :
    (t.acceptPruned p sequence now).find p = some ⟨p, sequence, now⟩ := by
  unfold acceptPruned
  split <;> simp [find]

/-- Another peer's entry stays, or is recorded as pushed out. -/
theorem find_acceptPruned (sequence : BitVec 32) (now : ℕ) (hne : p ≠ q)
    (h : t.find p = some e) :
    (∃ why, .replayForgot p why ∈ t.acceptMarks q) ∨
      (t.acceptPruned q sequence now).find p = some e := by
  have hlast (l : Tracker) : find (l ++ [⟨q, sequence, now⟩]) p = l.find p := by
    simp [find, hne.symm]
  unfold acceptMarks acceptPruned
  cases hq : t.find q with
  | some eq => exact .inr (by simp only [hlast]; rw [find_remove hne, h])
  | none =>
    dsimp only
    split
    · cases t with
      | nil => cases h
      | cons a t =>
        rw [← List.singleton_append, find_append] at h
        cases htail : find t p with
        | some e' => exact .inr (by simpa [hlast, htail] using h)
        | none =>
          rw [htail] at h
          have ha : find [a] p = some e := by simpa using h
          have hpeer : a.peer = p := by
            have := find_mem ha
            rw [List.mem_singleton] at this
            rw [← this, find_peer ha]
          exact .inl ⟨.pushedOut, by simp [hpeer]⟩
    · exact .inr (by rw [hlast, h])

end Tracker

end UsbProxy.UpxReplay
