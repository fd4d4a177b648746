import UsbProxy.Mixer.Registry

/-!
# Session high-water marks (`session_tracker.h`)

Both lists run from the oldest entry to the newest, as in the source.  The `…Marks` functions say
what an operation forgets; they are the record of a run and decide nothing.
-/

namespace UsbProxy.ClickSessions

structure Entry where
  session : ℕ := 0
  highest : ℕ := 0
  stamp : ℕ := 0
deriving DecidableEq, Repr

structure Tracker where
  active : List Entry := []
  retired : List Entry := []
deriving DecidableEq, Repr

def maxActive : ℕ := 32
def maxRetired : ℕ := 256
def retentionNs : ℕ := 10 * 60 * 1000 * 1000 * 1000

/-- The first entry of a session (`find`). -/
def find (entries : List Entry) (session : ℕ) : Option Entry :=
  entries.find? fun e => e.session == session

/-- The list without the first entry of a session. -/
def remove (entries : List Entry) (session : ℕ) : List Entry :=
  entries.eraseP fun e => e.session == session

def Entry.expired (e : Entry) (now : ℕ) : Bool :=
  decide (e.stamp ≤ now) && decide (retentionNs < now - e.stamp)

namespace Tracker

def prune (t : Tracker) (now : ℕ) : Tracker :=
  { t with retired := t.retired.filter fun e => !e.expired now }

theorem prune_idem (t : Tracker) (now : ℕ) : (t.prune now).prune now = t.prune now := by
  simp [prune]

def pruneMarks (t : Tracker) (now : ℕ) : List Mark :=
  (t.retired.filter fun e => e.expired now).map fun e => .sessionForgot e.session (.expired now)

/-- `stale`, on the pruned tracker. -/
def isStale (t : Tracker) (session command : ℕ) : Bool :=
  match find t.active session with
  | some e => decide (command ≤ e.highest)
  | none => (find t.retired session).any fun e => decide (command ≤ e.highest)

/-- Move an entry to the retired list, which keeps its newest 256. -/
def retire (t : Tracker) (victim : Entry) (now : ℕ) : Tracker :=
  let retired := remove t.retired victim.session ++ [{ victim with stamp := now }]
  { active := remove t.active victim.session, retired := retired.drop (retired.length - maxRetired) }

def retireMarks (t : Tracker) (victim : Entry) (now : ℕ) : List Mark :=
  let retired := remove t.retired victim.session ++ [{ victim with stamp := now }]
  (retired.take (retired.length - maxRetired)).reverse.map
      (fun e => .sessionForgot e.session .pushedOut) ++ [.retired victim.session now]

/-- The entry a new session takes the place of: none while there is room, else the least recently
used one that is not protected, else with `force` the least recently used. -/
def victim (t : Tracker) (force : Bool) (protectedSession : ℕ → Bool) : Option (Option Entry) :=
  if t.active.length < maxActive then some none
  else
    match t.active.find? fun e => !protectedSession e.session with
    | some e => some (some e)
    | none => if force then some t.active.head? else none

/-- `admit`, on the pruned tracker; `none` when every session is protected. -/
def admitPruned (t : Tracker) (session now : ℕ) (force : Bool) (protectedSession : ℕ → Bool) :
    Option (Tracker × List Mark) :=
  match find t.active session with
  | some e => some ({ t with active := remove t.active session ++ [{ e with stamp := now }] }, [])
  | none =>
    match t.victim force protectedSession with
    | none => none
    | some victim =>
      let highest := ((find t.retired session).map (·.highest)).getD 0
      let t := { t with retired := remove t.retired session }
      let r := match victim with
        | none => (t, [])
        | some e => (t.retire e now, t.retireMarks e now)
      some ({ r.1 with active := r.1.active ++ [⟨session, highest, now⟩] }, r.2)

/-- `accept` -/
def accept (t : Tracker) (session command now : ℕ) : Tracker :=
  match find t.active session with
  | none => t
  | some e =>
    { t with active := remove t.active session ++
        [{ e with highest := max e.highest command, stamp := now }] }

/-! ### The moments -/

theorem pruneMarks_mem {t : Tracker} {now : ℕ} {m : Mark} (h : m ∈ t.pruneMarks now) :
    ∃ session why, m = .sessionForgot session why := by
  obtain ⟨e, -, rfl⟩ := List.mem_map.mp h
  exact ⟨_, _, rfl⟩

theorem retireMarks_mem {t : Tracker} {victim : Entry} {now : ℕ} {m : Mark}
    (h : m ∈ t.retireMarks victim now) :
    (∃ session why, m = .sessionForgot session why) ∨ ∃ session stamp, m = .retired session stamp := by
  rcases List.mem_append.mp h with h | h
  · obtain ⟨e, -, rfl⟩ := List.mem_map.mp h
    exact .inl ⟨_, _, rfl⟩
  · exact .inr ⟨_, _, List.mem_singleton.mp h⟩

theorem admitPruned_mem {t t' : Tracker} {session now : ℕ} {force : Bool}
    {protectedSession : ℕ → Bool} {forgot : List Mark} {m : Mark}
    (h : t.admitPruned session now force protectedSession = some (t', forgot)) (hm : m ∈ forgot) :
    (∃ session why, m = .sessionForgot session why) ∨ ∃ session stamp, m = .retired session stamp := by
  unfold admitPruned at h
  split at h
  · cases h
    cases hm
  · split at h
    · cases h
    · split at h <;> cases h
      · cases hm
      · exact retireMarks_mem hm

end Tracker

end UsbProxy.ClickSessions
