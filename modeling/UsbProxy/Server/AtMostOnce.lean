import UsbProxy.Server.Alone

/-!
# A command is admitted at most once

A command the server has admitted is in the cache until its record is evicted, and its session's
high-water mark covers it until the session is forgotten.  A session is forgotten only after it was
retired, when its tombstone expires or newer ones push it out.
-/

namespace UsbProxy

open Client ClickSessions

/-! ### The record of a run -/

namespace Mark

def evicts (key : Key) : Mark → Bool
  | .evicted k => k == key
  | _ => false

def forgetsSession (session : ℕ) : Mark → Bool
  | .sessionForgot s _ => s == session
  | _ => false

def retires : Mark → Bool
  | .retired .. => true
  | _ => false

/-- A session is active after this moment, or newly retired. -/
def moves (session : ℕ) : Mark → Bool
  | .admitted key _ => key.session == session
  | .retired s _ => s == session
  | _ => false

theorem evicts_iff {key : Key} {m : Mark} : m.evicts key = true ↔ m = .evicted key := by
  cases m with
  | evicted k => simp [evicts]
  | _ => simp [evicts]

theorem forgetsSession_iff {session : ℕ} {m : Mark} :
    m.forgetsSession session = true ↔ ∃ why, m = .sessionForgot session why := by
  cases m with
  | sessionForgot s why => simp [forgetsSession]
  | _ => simp [forgetsSession]

end Mark

/-- Why the tombstone of a session retired at `stamp` is lost: it expired, or 256 of the retirements
since pushed it out. -/
def Lost (stamp : ℕ) (since : List Mark) : Forgotten → Prop
  | .expired now => retentionNs < now - stamp
  | .pushedOut => maxRetired ≤ since.countP (·.retires)

/-- The session was retired, and later forgotten because its tombstone was lost. -/
def Forgot (session : ℕ) (l : List Mark) : Prop :=
  ∃ later why since stamp earlier,
    l = later ++ .sessionForgot session why :: (since ++ .retired session stamp :: earlier) ∧
      Lost stamp since why

/-- Between two admissions of one command its record is evicted and its session forgotten. -/
def AtMostOnce (history : List Mark) : Prop :=
  ∀ later between earlier key movement movement',
    history = later ++ .admitted key movement' :: (between ++ .admitted key movement :: earlier) →
      .evicted key ∈ between ∧ Forgot key.session between

/-- The command was admitted, and nothing since is a moment that `forgets` it. -/
def AdmittedSince (forgets : Mark → Bool) (key : Key) (history : List Mark) : Prop :=
  ∃ since movement earlier,
    history = since ++ .admitted key movement :: earlier ∧ ∀ m ∈ since, forgets m = false

/-- The record of the command was not evicted since its admission. -/
def Cached (key : Key) : List Mark → Prop := AdmittedSince (·.evicts key) key

/-- The session of the command was not forgotten since its admission. -/
def Known (key : Key) : List Mark → Prop := AdmittedSince (·.forgetsSession key.session) key

section AdmittedSince

variable {forgets : Mark → Bool} {key : Key} {l h : List Mark}

/-- Moments that do not admit the command again only take it away. -/
theorem AdmittedSince.older (hkey : AdmittedSince forgets key (l ++ h))
    (hl : ∀ movement, .admitted key movement ∉ l) :
    AdmittedSince forgets key h ∧ ∀ m ∈ l, forgets m = false := by
  obtain ⟨since, movement, earlier, heq, hsince⟩ := hkey
  rcases List.append_eq_append_iff.mp heq with ⟨middle, rfl, rfl⟩ | ⟨middle, rfl, hrest⟩
  · exact ⟨⟨middle, movement, earlier, rfl, fun m hm => hsince m (List.mem_append_right _ hm)⟩,
      fun m hm => hsince m (List.mem_append_left _ hm)⟩
  · cases middle with
    | nil => exact ⟨⟨[], movement, earlier, hrest.symm, by simp⟩, by simpa using hsince⟩
    | cons m middle =>
      cases hrest
      exact absurd (List.mem_append_right since List.mem_cons_self) (hl movement)

theorem AdmittedSince.of_mem {movement : Bool} (hmem : .admitted key movement ∈ h)
    (hh : ∀ m ∈ h, forgets m = false) : AdmittedSince forgets key h := by
  obtain ⟨since, earlier, rfl⟩ := List.append_of_mem hmem
  exact ⟨since, movement, earlier, rfl, fun m hm => hh m (List.mem_append_left _ hm)⟩

end AdmittedSince

/-! ### Tombstones -/

/-- The session was retired at `stamp` and has not moved since, with `n` or more retirements
since. -/
def Buried (session stamp n : ℕ) (history : List Mark) : Prop :=
  ∃ since earlier, history = since ++ .retired session stamp :: earlier ∧
    (∀ m ∈ since, m.moves session = false) ∧ n ≤ since.countP (·.retires)

section Buried

variable {session stamp n : ℕ} {h : List Mark} {m : Mark}

theorem Buried.cons (hb : Buried session stamp n h) (hm : m.moves session = false) :
    Buried session stamp n (m :: h) := by
  obtain ⟨since, earlier, rfl, hsince, hn⟩ := hb
  refine ⟨m :: since, earlier, rfl, fun x hx => ?_, ?_⟩
  · rcases List.mem_cons.mp hx with rfl | hx
    · exact hm
    · exact hsince x hx
  · rw [List.countP_cons]
    omega

/-- One more session is retired. -/
theorem Buried.retired (hb : Buried session stamp n h) {other now : ℕ} (hne : session ≠ other) :
    Buried session stamp (n + 1) (.retired other now :: h) := by
  obtain ⟨since, earlier, rfl, hsince, hn⟩ := hb
  refine ⟨.retired other now :: since, earlier, rfl, fun x hx => ?_, ?_⟩
  · rcases List.mem_cons.mp hx with rfl | hx
    · exact beq_false_of_ne hne.symm
    · exact hsince x hx
  · rw [List.countP_cons_of_pos rfl]
    omega

theorem Buried.new (session stamp : ℕ) (h : List Mark) :
    Buried session stamp 0 (.retired session stamp :: h) :=
  ⟨[], h, rfl, by simp, Nat.zero_le _⟩

theorem Buried.mono {k : ℕ} (hb : Buried session stamp n h) (hk : k ≤ n) :
    Buried session stamp k h := by
  obtain ⟨since, earlier, heq, hsince, hn⟩ := hb
  exact ⟨since, earlier, heq, hsince, hk.trans hn⟩

/-- A retirement since an admission of the session lies after it. -/
theorem Buried.after {key : Key} {movement : Bool} {l : List Mark}
    (hb : Buried key.session stamp n (l ++ .admitted key movement :: h)) :
    ∃ since earlier, l = since ++ .retired key.session stamp :: earlier ∧
      n ≤ since.countP (·.retires) := by
  obtain ⟨since, earlier, heq, hsince, hn⟩ := hb
  have hnot : .admitted key movement ∉ since := fun hmem => by
    simpa [Mark.moves] using hsince _ hmem
  rcases List.append_eq_append_iff.mp heq with ⟨middle, rfl, hrest⟩ | ⟨middle, rfl, hrest⟩
  · cases middle with
    | nil => cases hrest
    | cons m middle =>
      cases hrest
      exact absurd (List.mem_append_right l List.mem_cons_self) hnot
  · cases middle with
    | nil => cases hrest
    | cons m middle =>
      cases hrest
      exact ⟨since, middle, rfl, hn⟩

end Buried

/-- Every tombstone is that of its session's last retirement, and those after it are of newer
ones. -/
def Tombs : List Entry → List Mark → Prop
  | [], _ => True
  | e :: rest, h => Buried e.session e.stamp rest.length h ∧ Tombs rest h

section Tombs

variable {entries kept : List Entry} {e : Entry} {h : List Mark} {m : Mark}

theorem Tombs.cons (ht : Tombs entries h) (hm : ∀ e ∈ entries, m.moves e.session = false) :
    Tombs entries (m :: h) := by
  induction entries with
  | nil => exact trivial
  | cons a rest ih =>
    exact ⟨ht.1.cons (hm a List.mem_cons_self),
      ih ht.2 fun e he => hm e (List.mem_cons_of_mem a he)⟩

theorem Tombs.append {l : List Mark} (ht : Tombs entries h)
    (hl : ∀ m ∈ l, ∀ session, m.moves session = false) : Tombs entries (l ++ h) := by
  induction l with
  | nil => exact ht
  | cons m l ih =>
    exact (ih fun x hx => hl x (List.mem_cons_of_mem m hx)).cons fun e _ =>
      hl m List.mem_cons_self e.session

theorem Tombs.sublist (ht : Tombs entries h) (hsub : kept.Sublist entries) : Tombs kept h := by
  induction hsub with
  | slnil => exact trivial
  | cons a _ ih => exact ih ht.2
  | cons_cons a hsub ih => exact ⟨ht.1.mono hsub.length_le, ih ht.2⟩

/-- One more session is retired, and its tombstone joins at the end. -/
theorem Tombs.bury (ht : Tombs entries h) (hapart : ∀ x ∈ entries, x.session ≠ e.session) :
    Tombs (entries ++ [e]) (.retired e.session e.stamp :: h) := by
  induction entries with
  | nil => exact ⟨.new _ _ _, trivial⟩
  | cons a rest ih =>
    have hlast := ih ht.2 fun x hx => hapart x (List.mem_cons_of_mem a hx)
    refine ⟨?_, hlast⟩
    show Buried a.session a.stamp (rest ++ [e]).length _
    rw [List.length_append, List.length_singleton]
    exact ht.1.retired (hapart a List.mem_cons_self)

/-- A tombstone with those after it. -/
theorem Tombs.split {l r : List Entry} (ht : Tombs (l ++ e :: r) h) :
    Buried e.session e.stamp r.length h := by
  induction l with
  | nil => exact ht.1
  | cons a l ih => exact ih ht.2

end Tombs

/-! ### What the record says at every moment -/

/-- A command is admitted only when its record was evicted and its session forgotten since the last
time, and a session is forgotten only when its tombstone is lost. -/
def Mark.Founded : Mark → List Mark → Prop
  | .admitted key _, h => ¬ Cached key h ∧ ¬ Known key h
  | .sessionForgot session why, h =>
    ∃ stamp n, Buried session stamp n h ∧
      match why with
      | .expired now => retentionNs < now - stamp
      | .pushedOut => maxRetired ≤ n
  | _, _ => True

def Founded : List Mark → Prop
  | [] => True
  | m :: h => m.Founded h ∧ Founded h

section Founded

variable {l h : List Mark}

theorem Founded.older (hf : Founded (l ++ h)) : Founded h := by
  induction l with
  | nil => exact hf
  | cons m l ih => exact ih hf.2

theorem Founded.append (hf : Founded h)
    (hl : ∀ m ∈ l, m.keepsCommands = true ∨ ∃ k, m = .evicted k) : Founded (l ++ h) := by
  induction l with
  | nil => exact hf
  | cons m l ih =>
    refine ⟨?_, ih fun x hx => hl x (List.mem_cons_of_mem m hx)⟩
    rcases hl m List.mem_cons_self with hm | ⟨k, rfl⟩
    · cases m <;> trivial
    · trivial

/-- Several sessions are forgotten at once. -/
theorem Founded.forget {entries : List Entry} {why : Forgotten} (hf : Founded h)
    (hforgot : ∀ e ∈ entries, (Mark.sessionForgot e.session why).Founded h) :
    Founded (entries.map (fun e => .sessionForgot e.session why) ++ h) := by
  have hextend (e : Entry) (l : List Entry) (he : (Mark.sessionForgot e.session why).Founded h) :
      (Mark.sessionForgot e.session why).Founded
        (l.map (fun e => .sessionForgot e.session why) ++ h) := by
    induction l with
    | nil => exact he
    | cons a l ih =>
      obtain ⟨stamp, n, hb, hwhy⟩ := ih
      exact ⟨stamp, n, hb.cons rfl, hwhy⟩
  induction entries with
  | nil => exact hf
  | cons e rest ih =>
    exact ⟨hextend e rest (hforgot e List.mem_cons_self),
      ih fun x hx => hforgot x (List.mem_cons_of_mem e hx)⟩

/-- **Founded records admit every command at most once.** -/
theorem Founded.atMostOnce (hf : Founded h) : AtMostOnce h := by
  rintro later between earlier key movement movement' rfl
  obtain ⟨⟨hcached, hknown⟩, hrest⟩ := hf.older
  have hagain (forgets : Mark → Bool)
      (hnot : ¬ AdmittedSince forgets key (between ++ .admitted key movement :: earlier)) :
      ∃ m ∈ between, forgets m = true := by
    by_contra hnone
    refine hnot ⟨between, movement, earlier, rfl, fun m hm => ?_⟩
    exact (Bool.not_eq_true _).mp fun h => hnone ⟨m, hm, h⟩
  obtain ⟨m, hm, hevicts⟩ := hagain _ hcached
  refine ⟨Mark.evicts_iff.mp hevicts ▸ hm, ?_⟩
  obtain ⟨m, hm, hforgets⟩ := hagain _ hknown
  obtain ⟨why, rfl⟩ := Mark.forgetsSession_iff.mp hforgets
  obtain ⟨later', middle, rfl⟩ := List.append_of_mem hm
  rw [List.append_assoc, List.cons_append] at hrest
  obtain ⟨⟨stamp, n, hb, hwhy⟩, -⟩ := hrest.older
  obtain ⟨since, earlier', rfl, hn⟩ := hb.after
  refine ⟨later', why, since, stamp, earlier', rfl, ?_⟩
  cases why with
  | expired now => exact hwhy
  | pushedOut => exact hwhy.trans hn

end Founded

/-! ### The server remembers -/

/-- What the cache and the session tracker hold of the record of a run. -/
structure Remembers (keys : List Key) (t : Tracker) (h : List Mark) : Prop where
  distinct : t.Distinct
  cached : ∀ key, Cached key h → key ∈ keys
  known : ∀ key, Known key h → t.Covers key.session key.command
  tombs : Tombs t.retired h
  founded : Founded h

section Remembers

variable {keys keys' : List Key} {t t' : Tracker} {h h' : List Mark}

theorem Mark.keepsCommands.moves {m : Mark} (hm : m.keepsCommands = true) (session : ℕ) :
    m.moves session = false := by
  cases m <;> trivial

theorem Mark.keepsCommands.not_admitted {l : List Mark} (hl : ∀ m ∈ l, m.keepsCommands = true)
    (key : Key) (movement : Bool) : .admitted key movement ∉ l :=
  fun hmem => absurd (hl _ hmem) (by simp [Mark.keepsCommands])

theorem Remembers.keep (hr : Remembers keys t h) {l : List Mark}
    (hl : ∀ m ∈ l, m.keepsCommands = true) : Remembers keys t (l ++ h) := by
  refine ⟨hr.distinct, fun key hkey => ?_, fun key hkey => ?_, ?_, ?_⟩
  · exact hr.cached key (hkey.older (Mark.keepsCommands.not_admitted hl key)).1
  · exact hr.known key (hkey.older (Mark.keepsCommands.not_admitted hl key)).1
  · exact hr.tombs.append fun m hm session => Mark.keepsCommands.moves (hl m hm) session
  · exact hr.founded.append fun m hm => .inl (hl m hm)

theorem Tombs.founded {e : Entry} {entries : List Entry} (ht : Tombs entries h) (he : e ∈ entries)
    {now : ℕ} (hexpired : e.expired now = true) :
    (Mark.sessionForgot e.session (.expired now)).Founded h := by
  obtain ⟨l, r, rfl⟩ := List.append_of_mem he
  rw [Entry.expired, Bool.and_eq_true, decide_eq_true_iff, decide_eq_true_iff] at hexpired
  exact ⟨e.stamp, _, ht.split, hexpired.2⟩

theorem Remembers.prune (hr : Remembers keys t h) (now : ℕ) :
    Remembers keys (t.prune now) (t.pruneMarks now ++ h) := by
  have hnot (key : Key) (movement : Bool) : .admitted key movement ∉ t.pruneMarks now := by
    intro hmem
    obtain ⟨_, _, heq⟩ := Tracker.pruneMarks_mem hmem
    cases heq
  refine ⟨hr.distinct.prune now, fun key hkey => hr.cached key (hkey.older (hnot key)).1,
    fun key hkey => ?_, ?_, ?_⟩
  · obtain ⟨hkey, hkept⟩ := hkey.older (hnot key)
    refine ((hr.known key hkey).prune now).resolve_right fun hmem => ?_
    have hforgets := hkept _ hmem
    simp [Mark.forgetsSession] at hforgets
  · refine (hr.tombs.append fun m hm session => ?_).sublist List.filter_sublist
    obtain ⟨_, _, rfl⟩ := Tracker.pruneMarks_mem hm
    rfl
  · refine hr.founded.forget fun e he => ?_
    obtain ⟨he, hexpired⟩ := List.mem_filter.mp he
    exact hr.tombs.founded he hexpired

theorem Remembers.evict (hr : Remembers keys t h) {evicted : List Key}
    (hkeys : ∀ k ∈ keys, k ∈ keys' ∨ k ∈ evicted) :
    Remembers keys' t (evicted.map .evicted ++ h) := by
  have hnot (key : Key) (movement : Bool) :
      Mark.admitted key movement ∉ evicted.map Mark.evicted := by
    simp
  refine ⟨hr.distinct, fun key hkey => ?_,
    fun key hkey => hr.known key (hkey.older (hnot key)).1, ?_, ?_⟩
  · obtain ⟨hkey, hkept⟩ := hkey.older (hnot key)
    refine (hkeys key (hr.cached key hkey)).resolve_right fun hmem => ?_
    have hevicts := hkept _ (List.mem_map_of_mem hmem)
    simp [Mark.evicts] at hevicts
  · refine hr.tombs.append fun m hm session => ?_
    obtain ⟨_, -, rfl⟩ := List.mem_map.mp hm
    rfl
  · refine hr.founded.append fun m hm => ?_
    obtain ⟨k, -, rfl⟩ := List.mem_map.mp hm
    exact .inr ⟨k, rfl⟩

/-- At least `n` tombstones are after one that is not among the newest `n`. -/
theorem mem_oldest {n : ℕ} {entries : List Entry} {e : Entry} (he : e ∈ oldest n entries) :
    ∃ l r, entries = l ++ e :: r ∧ n ≤ r.length := by
  have hsplit := oldest_append_newest n entries
  have hpos := List.length_pos_of_mem he
  have hlength : n ≤ (newest n entries).length := by
    unfold oldest at hpos
    unfold newest
    rw [List.length_take] at hpos
    rw [List.length_drop]
    omega
  obtain ⟨l, m, hm⟩ := List.append_of_mem he
  refine ⟨l, m ++ newest n entries, ?_, ?_⟩
  · calc entries = oldest n entries ++ newest n entries := hsplit.symm
      _ = l ++ e :: (m ++ newest n entries) := by rw [hm, List.append_assoc, List.cons_append]
  · rw [List.length_append]
    omega

/-- `admit` retires at most one session, and forgets those its tombstone pushes out. -/
theorem ClickSessions.Admits.remembers {session now : ℕ} {forgot : List Mark}
    (hadmits : Admits t session now t' forgot) (ht : t.Distinct) (htombs : Tombs t.retired h)
    (hf : Founded h) : Tombs t'.retired (forgot ++ h) ∧ Founded (forgot ++ h) := by
  cases hadmits with
  | kept => exact ⟨htombs, hf⟩
  | entered => exact ⟨htombs.sublist (without_sublist _ _), hf⟩
  | buries highest victim hnew hvictim hrestores =>
    have hburied := (htombs.sublist (without_sublist _ session)).bury
      (e := { victim with stamp := now })
      fun x hx => (ht.apart victim hvictim x (mem_without.mp hx).1).symm
    rw [List.append_assoc]
    constructor
    · refine (hburied.append fun m hm _ => ?_).sublist (newest_sublist _ _)
      obtain ⟨_, -, rfl⟩ := List.mem_map.mp hm
      rfl
    · refine Founded.forget ⟨trivial, hf⟩ fun e he => ?_
      obtain ⟨l, r, hsplit, hlength⟩ := mem_oldest (List.mem_reverse.mp he)
      rw [hsplit] at hburied
      exact ⟨e.stamp, r.length, hburied.split, hlength⟩

theorem Remembers.admits (hr : Remembers keys t h) {key : Key} {movement force : Bool}
    {protectedSession : ℕ → Bool} {forgot l : List Mark} {now now' : ℕ}
    (hl : ∀ m ∈ l, m.keepsCommands = true) (hnew : key ∉ keys)
    (hfresh : ¬ t.Covers key.session key.command)
    (hadmitted : t.admitPruned key.session now force protectedSession = some (t', forgot)) :
    Remembers (keys ++ [key]) (t'.accept key.session key.command now')
      (l ++ .admitted key movement :: (forgot ++ h)) := by
  have hadmits := hr.distinct.admits hadmitted
  have hdistinct := hadmits.admitted.distinct hr.distinct
  have haccepts := hdistinct.accept key.session key.command now'
  obtain ⟨htombs, hfounded⟩ := hadmits.remembers hr.distinct hr.tombs hr.founded
  have hforgot (k : Key) (b : Bool) : .admitted k b ∉ forgot := by
    intro hmem
    rcases Tracker.admitPruned_mem hadmitted hmem with ⟨_, _, heq⟩ | ⟨_, _, heq⟩ <;> cases heq
  -- another command was admitted before
  have hother {forgets : Mark → Bool} {k : Key} (hne : k ≠ key)
      (hk : AdmittedSince forgets k (l ++ .admitted key movement :: (forgot ++ h))) :
      AdmittedSince forgets k h ∧ ∀ m ∈ forgot, forgets m = false := by
    refine AdmittedSince.older (AdmittedSince.older
      (l := l ++ [.admitted key movement]) (by simpa using hk) fun b hmem => ?_).1 (hforgot k)
    rcases List.mem_append.mp hmem with hmem | hmem
    · exact Mark.keepsCommands.not_admitted hl k b hmem
    · cases List.mem_singleton.mp hmem
      exact hne rfl
  refine ⟨haccepts.distinct hdistinct, fun k hk => ?_, fun k hk => ?_, ?_, ?_⟩
  · by_cases heq : k = key
    · exact List.mem_append_right _ (List.mem_singleton.mpr heq)
    · exact List.mem_append_left _ (hr.cached k (hother heq hk).1)
  · by_cases heq : k = key
    · subst heq
      exact haccepts.covers hadmits.active
    · obtain ⟨hk, hkept⟩ := hother heq hk
      refine (((hr.known k hk).admits hr.distinct hadmits).resolve_right fun hmem => ?_).accept
        hdistinct haccepts
      have hforgets := hkept _ hmem
      simp [Mark.forgetsSession] at hforgets
  · rw [haccepts.retired]
    refine (htombs.cons fun e he => ?_).append fun m hm => Mark.keepsCommands.moves (hl m hm)
    obtain ⟨a, ha, hsession⟩ := hadmits.active
    exact beq_false_of_ne (hsession ▸ hdistinct.apart a ha e he)
  · refine Founded.append ⟨⟨fun hk => ?_, fun hk => ?_⟩, hfounded⟩ fun m hm => .inl (hl m hm)
    · exact hnew (hr.cached key (hk.older (hforgot key)).1)
    · exact hfresh (hr.known key (hk.older (hforgot key)).1)

theorem Remembers.step (hr : Remembers keys t h) (hstep : MemoryStep keys t h keys' t' h') :
    Remembers keys' t' h' := by
  cases hstep with
  | keep l hl => exact hr.keep hl
  | prune now => exact hr.prune now
  | evict keys' evicted hkeys => exact hr.evict hkeys
  | admits key movement force protectedSession t₁ forgot l now now' hl hnew hfresh hadmitted =>
    exact hr.admits hl hnew hfresh hadmitted

end Remembers

theorem not_admittedSince_nil {forgets : Mark → Bool} {key : Key} :
    ¬ AdmittedSince forgets key [] := by
  rintro ⟨since, movement, earlier, heq, -⟩
  simp at heq

/-- **In every state a run reaches the server remembers the commands it admitted.** -/
theorem Config.Reachable.remembers {c : Config} (hc : c.Reachable) :
    Remembers (cacheKeys c.server.cache) c.server.sessions c.world.history :=
  hc.invariant
    (P := fun x => Remembers (cacheKeys x.server.cache) x.server.sessions x.world.history)
    (fun _ _ => ⟨.empty, fun _ h => absurd h not_admittedSince_nil,
      fun _ h => absurd h not_admittedSince_nil, trivial, trivial⟩)
    fun _ _ hstep hr => hr.step hstep.remembers

/-! ### A later arrival -/

/-- The session is forgotten on the way from one record of a run to a later one. -/
def ForgetsOn (session : ℕ) (h h' : List Mark) : Prop :=
  ∃ l why, h' = l ++ h ∧ .sessionForgot session why ∈ l

/-- The answers to a UPC1 command that is not new: Invalid, stale, or the cached result, which is
Duplicate until the record is terminal. -/
def Server.AnswersClick (s : Server) (r : ClickProtocol.Request) : Packet → Prop
  | .upa ack =>
    ack.session = r.session ∧ ack.command = r.command ∧
      (ack.status = .invalid ∨ ack.status = .staleCommand ∨
        ∃ c, findCache s.cache r.key = some c ∧
          ack.status = (if c.terminal then c.status else .duplicate) ∧
          ack.accepted = c.accepted ∧ ack.completed = c.completed)
  | _ => False

/-- The answers to a transaction that is not new: Invalid, stale, or the cached result. -/
def Server.AnswersMove (s : Server) (r : MoveProtocol.Request) : Packet → Prop
  | .upr ack =>
    (ack.session = r.session ∧ ack.command = r.command ∧
        (ack.status = .invalid ∨ ack.status = .stale)) ∨
      ∃ c, findCache s.cache r.key = some c ∧ c.movement = true ∧ ack = c.moveAck
  | _ => False

/-- A UPM1 packet that parses is dispatched to its handler. -/
theorem handle_move {d : Datagram} {r : MoveProtocol.Request}
    (hparse : MoveProtocol.parse d.data = some r) : Srv.handle d = Srv.handleMove d := by
  unfold MoveProtocol.parse at hparse
  split at hparse
  · cases hparse
  · rename_i hshape
    rw [not_or, not_or] at hshape
    have htag := (Bool.not_eq_false _).mp hshape.2.1
    have hother (tag : String) (hne : ascii "UPM1" ≠ ascii tag) : hasTag d.data tag = false := by
      rw [hasTag, beq_iff_eq] at htag
      rw [hasTag, htag]
      exact beq_false_of_ne hne
    unfold Srv.handle
    rw [hother "UPS1" (by decide), hother "UPS2" (by decide),
      hother "UPS3" (by decide), hother "UPQ1" (by decide), htag]
    simp

theorem MemoryStep.extends {keys keys' : List Key} {t t' : Tracker} {h h' : List Mark}
    (hstep : MemoryStep keys t h keys' t' h') : ∃ l, h' = l ++ h := by
  cases hstep with
  | keep l | prune | evict => exact ⟨_, rfl⟩
  | admits key movement force protectedSession t₁ forgot l =>
    exact ⟨l ++ .admitted key movement :: forgot, by simp⟩

theorem Steps.extends {x y : Sys} (h : Steps x y) :
    ∃ l, y.world.history = l ++ x.world.history := by
  induction h with
  | refl => exact ⟨[], rfl⟩
  | tail _ hlast ih =>
    obtain ⟨l, hl⟩ := ih
    obtain ⟨l', hl'⟩ := hlast.remembers.extends
    exact ⟨l' ++ l, by rw [hl', hl, List.append_assoc]⟩

theorem reach_extends {w t : World} (h : EnvReach World.env w t) :
    ∃ l, t.history = l ++ w.history := by
  have hsteps : Steps ⟨.top, {}, w⟩ ⟨.top, {}, t⟩ := Steps.env .refl h
  exact hsteps.extends

section Arrival

variable {s : Server} {w : World} {d : Datagram} {session : ℕ}

theorem ForgetsOn.later {h h' : List Mark} (hf : ForgetsOn session h h') {l h'' : List Mark}
    (hl : h'' = l ++ h') : ForgetsOn session h h'' := by
  obtain ⟨l', why, rfl, hmem⟩ := hf
  exact ⟨l ++ l', why, by rw [hl, List.append_assoc], List.mem_append_right _ hmem⟩

/-- A known command is stale after `prune`, or its session was forgotten by it. -/
theorem Known.stale {keys : List Key} {t : World} {key : Key}
    (hr : Remembers keys s.sessions w.history) (hknown : Known key w.history)
    (ht : EnvReach World.env w t) :
    (s.sessions.prune t.clock).isStale key.session key.command = true ∨
      ForgetsOn key.session w.history (t.notes (s.sessions.pruneMarks t.clock)).history := by
  rcases (hr.known key hknown).prune t.clock with hcovers | hmem
  · exact .inl ((hr.distinct.prune t.clock).isStale_iff.mpr hcovers)
  · obtain ⟨l, hl⟩ := reach_extends ht
    refine .inr ⟨s.sessions.pruneMarks t.clock ++ l, _, ?_, List.mem_append_left _ hmem⟩
    rw [World.notes_history, hl, List.append_assoc]

/-- Unless the session is forgotten, a run of the handler `x` sends one answer, of a kind. -/
abbrev AnswersIn (s : Server) (w : World) (d : Datagram) (session : ℕ) (answer : Packet → Prop)
    (x : Srv Unit) (s' : Server) (w' : World) : Prop :=
  Wp x (fun _ s' w' => ¬ ForgetsOn session w.history w'.history →
    ∃ p, s'.sent = (d.source, p) :: s.sent ∧ answer p) s' w'

variable {answer : Packet → Prop} {x : Srv Unit} {s' : Server} {w' : World}

/-- Once the session is forgotten nothing is promised. -/
theorem answersIn_forgotten {pc pc' : Pc} (hforgot : ForgetsOn session w.history w'.history)
    (h : Wp x (fun _ s'' w'' => Steps ⟨pc, s', w'⟩ ⟨pc', s'', w''⟩) s' w') :
    AnswersIn s w d session answer x s' w' := by
  refine h.mono fun _ _ _ hsteps hkept => ?_
  obtain ⟨l, hl⟩ := hsteps.extends
  exact absurd (hforgot.later hl) hkept

theorem rejectMove_answers {r : MoveProtocol.Request} {status : MoveProtocol.Status}
    (hsent : s'.sent = s.sent) (hstatus : status = .invalid ∨ status = .stale) :
    AnswersIn s w d session (s.AnswersMove r) (Srv.rejectMove d r status) s' w' :=
  Wp.bind <| Srv.wp_snapshot fun _ _ => Srv.wp_modify fun _ =>
    ⟨_, congrArg (_ :: ·) hsent, .inl ⟨rfl, rfl, hstatus⟩⟩

theorem retryMove_answers {r : MoveProtocol.Request} {prior : CachedCommand}
    (hfind : findCache s.cache r.key = some prior) :
    AnswersIn s w d session (s.AnswersMove r) (Srv.retryMove d r prior) s w := by
  refine Wp.ite (fun _ => rejectMove_answers rfl (.inl rfl)) fun hsame => ?_
  simp only [not_or, Bool.not_eq_true', Bool.not_eq_false] at hsame
  refine Wp.bind <| Srv.wp_get <| Wp.seq <| Srv.wp_mark <| Wp.seq <| Srv.wp_modify <| Wp.seq <|
    Srv.wp_renew fun t _ => Srv.wp_modify fun _ => ⟨.upr prior.moveAck, ?_, ?_⟩
  · obtain ⟨_, hs, -⟩ := s.controlMove_eq d.source r prior
    rw [hs, Server.sendCached, if_pos hsame.1]
    rfl
  · exact .inr ⟨prior, hfind, hsame.1, rfl⟩

theorem handleMove_answers {r : MoveProtocol.Request} {keys : List Key}
    (hr : Remembers keys s.sessions w.history) (hknown : Known r.key w.history)
    (hparse : MoveProtocol.parse d.data = some r) (howner : s.owned = true → s.owner = d.source)
    (hepoch : r.epoch = s.epoch) :
    AnswersIn s w d r.session (s.AnswersMove r) (Srv.handleMove d) s w := by
  unfold Srv.handleMove
  rw [hparse]
  refine Wp.bind <| Srv.wp_get <| Wp.ite (fun hother => absurd (howner hother.1) hother.2)
    fun _ => Wp.ite (fun hother => absurd hepoch hother) fun _ => ?_
  split
  · rename_i prior hfind
    exact retryMove_answers hfind
  rename_i hnone
  refine Wp.ite (fun _ => rejectMove_answers rfl (.inr rfl)) fun _ => Wp.bind <|
    Srv.wp_now fun t ht => Wp.seq <| Srv.wp_mark <| Wp.seq <| Srv.wp_modify ?_
  refine Wp.ite (fun _ => rejectMove_answers rfl (.inr rfl)) fun hstale => ?_
  have hforgot : ForgetsOn r.session w.history _ := (hknown.stale hr ht).resolve_left hstale
  refine Wp.bind <| Srv.wp_snapshot fun u hu => Wp.seq <| Srv.wp_mark ?_
  obtain ⟨l, hl⟩ := reach_extends hu
  have hforgot : ForgetsOn r.session w.history (u.notes [.sampled]).history :=
    (hforgot.later hl).later (l := [.sampled]) (World.notes_history _ _)
  split
  · exact answersIn_forgotten hforgot
      (rejectMove_steps (Pc.answers_deciding u.endpointSnapshot) .refl)
  · rename_i hverdict
    exact answersIn_forgotten hforgot (executeMove_steps ⟨d.data, hparse⟩ hnone
      (hr.distinct.prune _) ((Bool.not_eq_true _).mp hstale) hverdict .refl)

theorem retryClick_answers {r : ClickProtocol.Request} {prior : CachedCommand}
    (hfind : findCache s.cache r.key = some prior) :
    AnswersIn s w d session (s.AnswersClick r) (Srv.retryClick d r prior) s w := by
  refine Wp.ite (fun _ => Srv.wp_modify fun _ => ⟨_, rfl, rfl, rfl, .inl rfl⟩) fun _ => ?_
  have hkey := (findCache_mem hfind).2
  exact Wp.seq <| Srv.wp_renew fun t _ => Srv.wp_modify fun _ =>
    ⟨_, rfl, congrArg Key.session hkey, congrArg Key.command hkey,
      .inr (.inr ⟨prior, hfind, rfl, rfl, rfl⟩)⟩

theorem handleClick_answers {r : ClickProtocol.Request} {keys : List Key}
    (hr : Remembers keys s.sessions w.history) (hknown : Known r.key w.history)
    (hparse : ClickProtocol.parse d.data = some r)
    (howner : s.owned = true → s.owner = d.source) :
    AnswersIn s w d r.session (s.AnswersClick r) (Srv.handleClick d) s w := by
  unfold Srv.handleClick
  rw [hparse]
  refine Wp.bind <| Srv.wp_get <| Wp.ite (fun hother => absurd (howner hother.1) hother.2)
    fun _ => ?_
  split
  · rename_i prior hfind
    exact retryClick_answers hfind
  rename_i hnone
  refine Wp.bind <| Srv.wp_now fun t ht => Wp.seq <| Srv.wp_mark <| Wp.seq <| Srv.wp_modify ?_
  refine Wp.ite (fun _ => Srv.wp_modify fun _ => ⟨_, rfl, rfl, rfl, .inr (.inl rfl)⟩)
    fun hstale => ?_
  have hforgot : ForgetsOn r.session w.history _ := (hknown.stale hr ht).resolve_left hstale
  refine Wp.bind <| Srv.wp_snapshot fun u hu => Wp.seq <| Srv.wp_mark ?_
  obtain ⟨l, hl⟩ := reach_extends hu
  have hforgot : ForgetsOn r.session w.history (u.notes [.sampled]).history :=
    (hforgot.later hl).later (l := [.sampled]) (World.notes_history _ _)
  have hstale : (s.sessions.prune t.clock).isStale r.session r.command = false := by
    simpa using hstale
  split
  · split
    · exact answersIn_forgotten hforgot
        (answered (Pc.answers_deciding u.endpointSnapshot) .refl)
    · rename_i hverdict
      exact answersIn_forgotten hforgot (scheduleClick_steps ⟨d.data, hparse⟩ hnone
        (hr.distinct.prune _) hstale hverdict .refl)
  · exact answersIn_forgotten hforgot (releaseAll_steps (e := u.endpointSnapshot) ⟨d.data, hparse⟩
      hnone (hr.distinct.prune _) hstale .refl)

/-- A datagram that is heard reaches the dispatch. -/
theorem receive_answers (hheard : s.Hears d)
    (h : AnswersIn s w d session answer (Srv.handle d) s w) :
    AnswersIn s w d session answer (Srv.receive (some d)) s w := by
  refine Wp.bind <| Srv.wp_get <| Wp.ite (fun hsize => ?_) fun _ => Wp.ite (fun hpeer => ?_)
    fun _ => h
  · have hempty := hheard.1
    have hlong := hheard.2.1
    omega
  · rw [hheard.2.2] at hpeer
    cases hpeer

end Arrival

/-- A datagram that is heard passes the ownership check. -/
def Config.Hears (c : Config) (d : Datagram) : Prop :=
  c.stage = .receive ∧ c.server.Hears d ∧ (c.server.owned = true → c.server.owner = d.source)

/-- Every arrival of the command that passes the checks is answered as one that is not new, unless
its session is forgotten on the way. -/
def Config.AnswersKnown (c : Config) (key : Key) : Prop :=
  ∀ (sched : List (List EnvStep)) (d : Datagram), c.Hears d →
    ¬ ForgetsOn key.session c.world.history (c.step (.server sched (some d))).world.history →
    (∀ r, ClickProtocol.parse d.data = some r → r.key = key →
      ∃ p, (c.step (.server sched (some d))).server.sent = (d.source, p) :: c.server.sent ∧
        c.server.AnswersClick r p) ∧
    ∀ r, MoveProtocol.parse d.data = some r → r.key = key → r.epoch = c.server.epoch →
      ∃ p, (c.step (.server sched (some d))).server.sent = (d.source, p) :: c.server.sent ∧
        c.server.AnswersMove r p

/-- **A command is admitted at most once while its session stays known**, over every run: between
two admissions its record is evicted and its session retired and forgotten; a later arrival is
answered with the cached result, Invalid or a stale status. -/
theorem admitted_at_most_once {c : Config} (hc : c.Reachable) :
    AtMostOnce c.world.history ∧ ∀ key, Known key c.world.history → c.AnswersKnown key := by
  have hr := hc.remembers
  refine ⟨hr.founded.atMostOnce, fun key hknown sched d hheard hkept => ⟨?_, ?_⟩⟩
  · rintro r hparse rfl
    obtain ⟨hstage, hheard, howner⟩ := hheard
    simp only [Config.step, hstage] at hkept ⊢
    have hanswers := handleClick_answers hr hknown hparse howner
    rw [← (handle_click hparse).2] at hanswers
    exact receive_answers hheard hanswers sched hkept
  · rintro r hparse rfl hepoch
    obtain ⟨hstage, hheard, howner⟩ := hheard
    simp only [Config.step, hstage] at hkept ⊢
    have hanswers := handleMove_answers hr hknown hparse howner hepoch
    rw [← handle_move hparse] at hanswers
    exact receive_answers hheard hanswers sched hkept

/-- Of the run that admits a controller's click. -/
theorem admitted_at_most_once_clicking :
    .admitted ⟨7, 1⟩ false ∈ clicking.world.history ∧ AtMostOnce clicking.world.history ∧
      clicking.AnswersKnown ⟨7, 1⟩ := by
  have hadmitted : .admitted ⟨7, 1⟩ false ∈ clicking.world.history := by decide +kernel
  have hkept : ∀ m ∈ clicking.world.history, m.forgetsSession 7 = false := by decide +kernel
  obtain ⟨honce, hanswers⟩ := admitted_at_most_once (c := clicking) ⟨1, none, _, rfl⟩
  exact ⟨hadmitted, honce, hanswers ⟨7, 1⟩ (.of_mem hadmitted hkept)⟩

end UsbProxy
