import UsbProxy.Lib.Recency
import UsbProxy.Server.SessionTracker

/-!
# The tables of the session tracker

What `stale`, `admit` and `accept` do to the active sessions and the tombstones: over a run of calls
no session occurs twice, the tables stay bounded and the tombstones in order.
-/

namespace UsbProxy.ClickSessions

/-- A call of the tracker. -/
inductive Call
  | stale (session command now : ℕ)
  | admits (session now : ℕ) (force : Bool) (protectedSession : ℕ → Bool)
  | accept (session command now : ℕ)

def Call.time : Call → ℕ
  | .stale _ _ now => now
  | .admits _ now _ _ => now
  | .accept _ _ now => now

namespace Tracker

/-- `stale` -/
def stale (t : Tracker) (session command now : ℕ) : Tracker × Bool :=
  (t.prune now, (t.prune now).isStale session command)

/-- `admit` -/
def admits (t : Tracker) (session now : ℕ) (force : Bool) (protectedSession : ℕ → Bool) :
    Tracker × Bool :=
  match (t.prune now).admitPruned session now force protectedSession with
  | some (t, _) => (t, true)
  | none => (t.prune now, false)

/-- The tracker a call starts from: `stale` and `admit` drop the expired tombstones first. -/
def start (t : Tracker) : Call → Tracker
  | .stale _ _ now => t.prune now
  | .admits _ now _ _ => t.prune now
  | .accept .. => t

def after (t : Tracker) : Call → Tracker
  | .stale session command now => (t.stale session command now).1
  | .admits session now force protectedSession => (t.admits session now force protectedSession).1
  | .accept session command now => t.accept session command now

/-- The tracker after a run of calls, newest first. -/
def run : List Call → Tracker
  | [] => {}
  | c :: calls => (run calls).after c

def isActive (t : Tracker) (session : ℕ) : Prop := session ∈ t.active.map Entry.session

/-- The session is active, or its tombstone is kept. -/
def knows (t : Tracker) (session : ℕ) : Prop :=
  session ∈ t.active.map Entry.session ∨ session ∈ t.retired.map Entry.session

instance (t : Tracker) (session : ℕ) : Decidable (t.isActive session) :=
  inferInstanceAs (Decidable (_ ∈ _))

instance (t : Tracker) (session : ℕ) : Decidable (t.knows session) :=
  inferInstanceAs (Decidable (_ ∨ _))

end Tracker

open Tracker

/-- The times of a run, newest first, do not go back. -/
def Timed (calls : List Call) : Prop := calls.Pairwise fun c d => d.time ≤ c.time

/-! ### The tables -/

variable {t t' : Tracker} {calls : List Call} {session now : ℕ}

/-- No session occurs twice. -/
structure Tracker.Distinct (t : Tracker) : Prop where
  active : (t.active.map Entry.session).Nodup
  retired : (t.retired.map Entry.session).Nodup
  apart : ∀ a ∈ t.active, ∀ r ∈ t.retired, a.session ≠ r.session

theorem Tracker.Distinct.empty : Tracker.Distinct {} :=
  ⟨List.nodup_nil, List.nodup_nil, fun _ h => absurd h List.not_mem_nil⟩

/-- The entries of the other sessions. -/
def without (entries : List Entry) (session : ℕ) : List Entry :=
  entries.filter fun e => e.session != session

theorem mem_without {entries : List Entry} {session : ℕ} {e : Entry} :
    e ∈ without entries session ↔ e ∈ entries ∧ e.session ≠ session := by
  simp [without]

theorem without_sublist (entries : List Entry) (session : ℕ) :
    (without entries session).Sublist entries :=
  List.filter_sublist

theorem remove_eq_without {entries : List Entry} (h : (entries.map Entry.session).Nodup)
    (session : ℕ) : remove entries session = without entries session :=
  Recency.eraseP_eq_filter h session

theorem without_eq_self {entries : List Entry} {session : ℕ}
    (h : ∀ e ∈ entries, e.session ≠ session) : without entries session = entries :=
  List.filter_eq_self.mpr fun e he => by simpa using h e he

/-- The newest `n` of the entries. -/
@[irreducible] def newest (n : ℕ) (entries : List Entry) : List Entry :=
  entries.drop (entries.length - n)

/-- The entries before the newest `n`. -/
@[irreducible] def oldest (n : ℕ) (entries : List Entry) : List Entry :=
  entries.take (entries.length - n)

theorem oldest_append_newest (n : ℕ) (entries : List Entry) :
    oldest n entries ++ newest n entries = entries := by
  unfold oldest newest
  exact List.take_append_drop _ _

theorem Tracker.Distinct.prune (h : t.Distinct) (now : ℕ) : (t.prune now).Distinct :=
  ⟨h.active, h.retired.sublist (List.filter_sublist.map _),
    fun a ha r hr => h.apart a ha r (List.mem_of_mem_filter hr)⟩

/-- The mark an admitted session starts from: its tombstone's, or 0. -/
def Restores (t : Tracker) (session highest : ℕ) : Prop :=
  (∃ e ∈ t.retired, e.session = session ∧ e.highest = highest) ∨
    (∀ e ∈ t.retired, e.session ≠ session) ∧ highest = 0

/-- What `admit` does to the pruned tracker. -/
inductive Admitted (t : Tracker) (session now : ℕ) : Tracker → Prop
  | kept (e : Entry) (he : e ∈ t.active) (hsession : e.session = session) :
      Admitted t session now ⟨without t.active session ++ [{ e with stamp := now }], t.retired⟩
  | entered (highest : ℕ) (hnew : ∀ e ∈ t.active, e.session ≠ session)
      (hroom : t.active.length < maxActive) (hrestores : Restores t session highest) :
      Admitted t session now
        ⟨t.active ++ [⟨session, highest, now⟩], without t.retired session⟩
  | replaced (highest : ℕ) (victim : Entry) (hnew : ∀ e ∈ t.active, e.session ≠ session)
      (hvictim : victim ∈ t.active) (hrestores : Restores t session highest) :
      Admitted t session now
        ⟨without t.active victim.session ++ [⟨session, highest, now⟩],
          newest maxRetired (without t.retired session ++ [{ victim with stamp := now }])⟩

theorem Tracker.Distinct.restores (h : t.Distinct) (session : ℕ) :
    Restores t session (((find t.retired session).map (·.highest)).getD 0) := by
  cases hfind : find t.retired session with
  | none => exact .inr ⟨Recency.find?_eq_none.mp hfind, rfl⟩
  | some e =>
    obtain ⟨he, hsession⟩ := (Recency.find?_eq_some h.retired).mp hfind
    exact .inl ⟨e, he, hsession, rfl⟩

theorem Tracker.victim_mem {force : Bool} {protectedSession : ℕ → Bool} {e : Entry}
    (h : t.victim force protectedSession = some (some e)) : e ∈ t.active := by
  unfold Tracker.victim at h
  split at h
  · cases h
  · split at h
    · rename_i hfind
      cases h
      exact List.mem_of_find?_eq_some hfind
    · split at h
      · exact List.mem_of_head? (Option.some.inj h)
      · cases h

theorem Tracker.victim_none {force : Bool} {protectedSession : ℕ → Bool}
    (h : t.victim force protectedSession = some none) : t.active.length < maxActive := by
  unfold Tracker.victim at h
  split at h
  · assumption
  · rename_i hfull
    split at h
    · cases h
    · split at h
      · have hempty := List.head?_eq_none_iff.mp (Option.some.inj h)
        rw [hempty]
        decide
      · cases h

/-- What `admit` does to the pruned tracker, with the moments at which it forgets sessions. -/
inductive Admits (t : Tracker) (session now : ℕ) : Tracker → List Mark → Prop
  | kept (e : Entry) (he : e ∈ t.active) (hsession : e.session = session) :
      Admits t session now ⟨without t.active session ++ [{ e with stamp := now }], t.retired⟩ []
  | entered (highest : ℕ) (hnew : ∀ e ∈ t.active, e.session ≠ session)
      (hroom : t.active.length < maxActive) (hrestores : Restores t session highest) :
      Admits t session now ⟨t.active ++ [⟨session, highest, now⟩], without t.retired session⟩ []
  | buries (highest : ℕ) (victim : Entry) (hnew : ∀ e ∈ t.active, e.session ≠ session)
      (hvictim : victim ∈ t.active) (hrestores : Restores t session highest) :
      Admits t session now
        ⟨without t.active victim.session ++ [⟨session, highest, now⟩],
          newest maxRetired (without t.retired session ++ [{ victim with stamp := now }])⟩
        ((oldest maxRetired
              (without t.retired session ++ [{ victim with stamp := now }])).reverse.map
            (fun e => .sessionForgot e.session .pushedOut) ++ [.retired victim.session now])

theorem Admits.admitted {forgot : List Mark} (h : Admits t session now t' forgot) :
    Admitted t session now t' := by
  cases h with
  | kept e he hsession => exact .kept e he hsession
  | entered highest hnew hroom hrestores => exact .entered highest hnew hroom hrestores
  | buries highest victim hnew hvictim hrestores =>
    exact .replaced highest victim hnew hvictim hrestores

theorem Tracker.Distinct.admits (h : t.Distinct) {force : Bool}
    {protectedSession : ℕ → Bool} {forgot : List Mark}
    (hadmitted : t.admitPruned session now force protectedSession = some (t', forgot)) :
    Admits t session now t' forgot := by
  unfold Tracker.admitPruned at hadmitted
  split at hadmitted
  · rename_i e hfind
    obtain ⟨he, hsession⟩ := (Recency.find?_eq_some h.active).mp hfind
    cases hadmitted
    rw [remove_eq_without h.active]
    exact .kept e he hsession
  · rename_i hfind
    have hnew := Recency.find?_eq_none.mp hfind
    split at hadmitted
    · cases hadmitted
    · rename_i victim hvictim
      cases victim with
      | none =>
        cases hadmitted
        dsimp only
        rw [remove_eq_without h.retired]
        exact .entered _ hnew (victim_none hvictim) (h.restores session)
      | some victim =>
        have hmem := victim_mem hvictim
        have hretired : ((without t.retired session).map Entry.session).Nodup :=
          h.retired.sublist ((without_sublist _ _).map _)
        -- the victim has no tombstone yet
        have hapart : ∀ e ∈ without t.retired session, e.session ≠ victim.session :=
          fun e he => (h.apart victim hmem e (mem_without.mp he).1).symm
        cases hadmitted
        dsimp only [Tracker.retire, Tracker.retireMarks]
        rw [remove_eq_without h.retired, remove_eq_without h.active, remove_eq_without hretired,
          without_eq_self hapart, ← newest, ← oldest]
        exact .buries _ victim hnew hmem (h.restores session)

theorem Tracker.Distinct.admitPruned (h : t.Distinct) {force : Bool}
    {protectedSession : ℕ → Bool} {forgot : List Mark}
    (hadmitted : t.admitPruned session now force protectedSession = some (t', forgot)) :
    Admitted t session now t' :=
  (h.admits hadmitted).admitted

/-- What `accept` does. -/
inductive Accepted (t : Tracker) (session command now : ℕ) : Tracker → Prop
  | ignored (hidle : ∀ e ∈ t.active, e.session ≠ session) : Accepted t session command now t
  | raised (e : Entry) (he : e ∈ t.active) (hsession : e.session = session) :
      Accepted t session command now ⟨without t.active session ++
        [{ e with highest := max e.highest command, stamp := now }], t.retired⟩

theorem Tracker.Distinct.accept (h : t.Distinct) (session command now : ℕ) :
    Accepted t session command now (t.accept session command now) := by
  unfold Tracker.accept
  split
  · rename_i hfind
    exact .ignored (Recency.find?_eq_none.mp hfind)
  · rename_i e hfind
    obtain ⟨he, hsession⟩ := (Recency.find?_eq_some h.active).mp hfind
    rw [remove_eq_without h.active]
    exact .raised e he hsession

/-- **What a call does to the tracker it starts from.** -/
inductive Moved (t : Tracker) : Call → Tracker → Prop
  | stale (session command now : ℕ) : Moved t (.stale session command now) t
  | refused (session now : ℕ) (force : Bool) (protectedSession : ℕ → Bool) :
      Moved t (.admits session now force protectedSession) t
  | admitted (session now : ℕ) (force : Bool) (protectedSession : ℕ → Bool) {t' : Tracker}
      (h : Admitted t session now t') : Moved t (.admits session now force protectedSession) t'
  | accepted (session command now : ℕ) {t' : Tracker} (h : Accepted t session command now t') :
      Moved t (.accept session command now) t'

theorem Tracker.Distinct.start (h : t.Distinct) (c : Call) : (t.start c).Distinct := by
  cases c with
  | stale session command now => exact h.prune now
  | admits session now force protectedSession => exact h.prune now
  | accept => exact h

theorem Tracker.Distinct.moved (h : t.Distinct) (c : Call) : Moved (t.start c) c (t.after c) := by
  cases c with
  | stale session command now => exact .stale session command now
  | admits session now force protectedSession =>
    rw [Tracker.start, Tracker.after, Tracker.admits]
    split
    · rename_i t' forgot hadmitted
      exact .admitted session now force protectedSession ((h.prune now).admitPruned hadmitted)
    · exact .refused session now force protectedSession
  | accept session command now => exact .accepted session command now (h.accept ..)

/-! ### Distinct sessions and bounded tables -/

theorem newest_sublist (n : ℕ) (entries : List Entry) : (newest n entries).Sublist entries := by
  unfold newest
  exact List.drop_sublist _ _

theorem mem_newest {n : ℕ} {entries : List Entry} {e : Entry} (h : e ∈ newest n entries) :
    e ∈ entries :=
  (newest_sublist n entries).subset h

theorem newest_nodup {n : ℕ} {entries : List Entry} (h : (entries.map Entry.session).Nodup) :
    ((newest n entries).map Entry.session).Nodup :=
  h.sublist ((newest_sublist n entries).map Entry.session)

theorem newest_length (n : ℕ) (entries : List Entry) : (newest n entries).length ≤ n := by
  unfold newest
  rw [List.length_drop]
  omega

theorem nodup_concat {entries : List Entry} {e : Entry}
    (h : (entries.map Entry.session).Nodup) (hnew : ∀ x ∈ entries, x.session ≠ e.session) :
    ((entries ++ [e]).map Entry.session).Nodup := by
  rw [List.map_append, List.nodup_append]
  refine ⟨h, List.nodup_singleton _, fun a ha b hb => ?_⟩
  obtain ⟨x, hx, rfl⟩ := List.mem_map.mp ha
  rw [List.map_singleton, List.mem_singleton] at hb
  exact hb ▸ hnew x hx

theorem Admitted.distinct (h : Admitted t session now t') (ht : t.Distinct) : t'.Distinct := by
  have hactive (s : ℕ) : ((without t.active s).map Entry.session).Nodup :=
    ht.active.sublist ((without_sublist _ _).map _)
  have hretired (s : ℕ) : ((without t.retired s).map Entry.session).Nodup :=
    ht.retired.sublist ((without_sublist _ _).map _)
  cases h with
  | kept e he hsession =>
    refine ⟨nodup_concat (hactive session) fun x hx => ?_, ht.retired, fun a ha r hr => ?_⟩
    · exact hsession ▸ (mem_without.mp hx).2
    · rcases List.mem_append.mp ha with ha | ha
      · exact ht.apart a (mem_without.mp ha).1 r hr
      · rw [List.mem_singleton.mp ha]
        exact ht.apart e he r hr
  | entered highest hnew hroom hrestores =>
    refine ⟨nodup_concat ht.active hnew, hretired session, fun a ha r hr => ?_⟩
    obtain ⟨hr, hne⟩ := mem_without.mp hr
    rcases List.mem_append.mp ha with ha | ha
    · exact ht.apart a ha r hr
    · rw [List.mem_singleton.mp ha]
      exact hne.symm
  | replaced highest victim hnew hvictim hrestores =>
    refine ⟨nodup_concat (hactive victim.session) fun x hx => hnew x (mem_without.mp hx).1,
      newest_nodup (nodup_concat (hretired session) fun x hx => ?_), fun a ha r hr => ?_⟩
    · exact (ht.apart victim hvictim x (mem_without.mp hx).1).symm
    · have hr := mem_newest hr
      rcases List.mem_append.mp ha with ha | ha <;> rcases List.mem_append.mp hr with hr | hr
      · exact ht.apart a (mem_without.mp ha).1 r (mem_without.mp hr).1
      · rw [List.mem_singleton.mp hr]
        exact (mem_without.mp ha).2
      · rw [List.mem_singleton.mp ha]
        exact (mem_without.mp hr).2.symm
      · rw [List.mem_singleton.mp ha, List.mem_singleton.mp hr]
        exact (hnew victim hvictim).symm

theorem Accepted.distinct {command : ℕ} (h : Accepted t session command now t')
    (ht : t.Distinct) : t'.Distinct := by
  cases h with
  | ignored => exact ht
  | raised e he hsession =>
    refine ⟨nodup_concat (ht.active.sublist ((without_sublist _ _).map _)) fun x hx => ?_,
      ht.retired, fun a ha r hr => ?_⟩
    · exact hsession ▸ (mem_without.mp hx).2
    · rcases List.mem_append.mp ha with ha | ha
      · exact ht.apart a (mem_without.mp ha).1 r hr
      · rw [List.mem_singleton.mp ha]
        exact ht.apart e he r hr

theorem Moved.distinct {c : Call} (h : Moved t c t') (ht : t.Distinct) : t'.Distinct := by
  cases h with
  | stale => exact ht
  | refused => exact ht
  | admitted session now force protectedSession h => exact h.distinct ht
  | accepted session command now h => exact h.distinct ht

theorem run_distinct (calls : List Call) : (run calls).Distinct := by
  induction calls with
  | nil => exact .empty
  | cons c calls ih => exact (ih.moved c).distinct (ih.start c)

/-- The sizes of the tables. -/
structure Tracker.Bounded (t : Tracker) : Prop where
  active : t.active.length ≤ maxActive
  retired : t.retired.length ≤ maxRetired

theorem length_without_lt {entries : List Entry} {e : Entry} (he : e ∈ entries) :
    (without entries e.session).length < entries.length := by
  refine List.length_filter_lt_length_iff_exists.mpr ⟨e, he, ?_⟩
  simp

theorem Moved.bounded {c : Call} (h : Moved t c t') (ht : t.Bounded) : t'.Bounded := by
  have hretired (s : ℕ) : (without t.retired s).length ≤ maxRetired :=
    ((without_sublist _ _).length_le).trans ht.retired
  have hactive := ht.active
  cases h with
  | stale => exact ht
  | refused => exact ht
  | admitted session now force protectedSession h =>
    cases h with
    | kept e he hsession =>
      have := length_without_lt he
      refine ⟨?_, ht.retired⟩
      rw [← hsession, List.length_append, List.length_singleton]
      omega
    | entered highest hnew hroom hrestores =>
      refine ⟨?_, hretired session⟩
      rw [List.length_append, List.length_singleton]
      omega
    | replaced highest victim hnew hvictim hrestores =>
      have := length_without_lt hvictim
      refine ⟨?_, newest_length _ _⟩
      rw [List.length_append, List.length_singleton]
      omega
  | accepted session command now h =>
    cases h with
    | ignored => exact ht
    | raised e he hsession =>
      have := length_without_lt he
      refine ⟨?_, ht.retired⟩
      rw [← hsession, List.length_append, List.length_singleton]
      omega

theorem run_bounded (calls : List Call) : (run calls).Bounded := by
  induction calls with
  | nil => exact ⟨Nat.zero_le _, Nat.zero_le _⟩
  | cons c calls ih =>
    have hstart : ((run calls).start c).Bounded := by
      cases c with
      | accept => exact ih
      | _ => exact ⟨ih.active, (List.length_filter_le _ _).trans ih.retired⟩
    exact ((run_distinct calls).moved c).bounded hstart

/-! ### The stamps of the tombstones -/

/-- The tombstones run from the oldest to the newest, none from after `now`. -/
def Tracker.Ordered (t : Tracker) (now : ℕ) : Prop :=
  t.retired.Pairwise (fun a b => a.stamp ≤ b.stamp) ∧ ∀ e ∈ t.retired, e.stamp ≤ now

theorem Tracker.Ordered.start (h : t.Ordered now) (c : Call) : (t.start c).Ordered now := by
  cases c with
  | accept => exact h
  | _ => exact ⟨h.1.filter _, fun e he => h.2 e (List.mem_of_mem_filter he)⟩

theorem Moved.ordered {c : Call} (h : Moved t c t') (ht : t.Ordered c.time) :
    t'.Ordered c.time := by
  cases h with
  | stale => exact ht
  | refused => exact ht
  | admitted session now force protectedSession h =>
    have hwithout : (without t.retired session).Pairwise fun a b => a.stamp ≤ b.stamp :=
      ht.1.sublist (without_sublist _ _)
    cases h with
    | kept e he hsession => exact ht
    | entered highest hnew hroom hrestores =>
      exact ⟨hwithout, fun e he => ht.2 e (mem_without.mp he).1⟩
    | replaced highest victim hnew hvictim hrestores =>
      refine ⟨(List.pairwise_append.mpr ⟨hwithout, List.pairwise_singleton _ _,
        fun a ha b hb => ?_⟩).sublist (newest_sublist _ _), fun e he => ?_⟩
      · rw [List.mem_singleton.mp hb]
        exact ht.2 a (mem_without.mp ha).1
      · rcases List.mem_append.mp (mem_newest he) with he | he
        · exact ht.2 e (mem_without.mp he).1
        · rw [List.mem_singleton.mp he]
          exact le_rfl
  | accepted session command now h =>
    cases h with
    | ignored => exact ht
    | raised => exact ht

theorem run_ordered (htimed : Timed calls) (hnow : ∀ c ∈ calls, c.time ≤ now) :
    (run calls).Ordered now := by
  induction calls generalizing now with
  | nil => exact ⟨List.Pairwise.nil, fun _ h => absurd h List.not_mem_nil⟩
  | cons c calls ih =>
    obtain ⟨hfirst, htimed⟩ := List.pairwise_cons.mp htimed
    have hmoved := ((run_distinct calls).moved c).ordered ((ih htimed hfirst).start c)
    exact ⟨hmoved.1, fun e he => (hmoved.2 e he).trans (hnow c List.mem_cons_self)⟩

end UsbProxy.ClickSessions
