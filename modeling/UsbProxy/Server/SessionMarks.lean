import UsbProxy.Server.SessionTables

/-!
# The session tracker as high-water marks

The record of a run of calls, newest first, says which sessions were retired and what each session's
mark is; the tracker answers as the record does.
-/

namespace UsbProxy.ClickSessions

open Tracker

/-- A call forgets a session: it is unknown without the expired tombstones, or after the call. -/
def Forgets (t : Tracker) (c : Call) (session : ℕ) : Prop :=
  ¬ (t.start c).knows session ∨ ¬ (t.after c).knows session

instance (t : Tracker) (c : Call) (session : ℕ) : Decidable (Forgets t c session) :=
  inferInstanceAs (Decidable (_ ∨ _))

/-- A mark after a call that does not forget the session. -/
def Call.raise (t : Tracker) (mark : ℕ → ℕ) (c : Call) (session : ℕ) : ℕ :=
  match c with
  | .accept s command _ =>
    if s = session ∧ t.isActive session then max (mark session) command else mark session
  | _ => mark session

/-- The largest command accepted from a session, while it was active, since it was forgotten. -/
def mark : List Call → ℕ → ℕ
  | [], _ => 0
  | c :: calls, session =>
    if Forgets (run calls) c session then 0 else c.raise (run calls) (mark calls) session

/-- The sessions a call retires, with its time: those active before it and not after. -/
def retiredBy (t : Tracker) (c : Call) : List (ℕ × ℕ) :=
  (t.active.filter fun e => ¬ (t.after c).isActive e.session).map fun e => (e.session, c.time)

/-- The sessions retired, each with the time of its retirement, newest first. -/
def retirements : List Call → List (ℕ × ℕ)
  | [] => []
  | c :: calls => retiredBy (run calls) c ++ retirements calls

/-- A session's last retirement. -/
def lastRetirement (session : ℕ) (retired : List (ℕ × ℕ)) : Option (ℕ × ℕ) :=
  retired.find? fun r => r.1 == session

/-- The retirements newer than a session's last. -/
def newerRetirements (session : ℕ) (retired : List (ℕ × ℕ)) : List (ℕ × ℕ) :=
  retired.takeWhile fun r => r.1 != session

variable {t t' : Tracker} {calls : List Call} {session now : ℕ}

/-! ### The marks -/

/-- Every entry carries the mark of its session. -/
def Tracker.Marked (t : Tracker) (mark : ℕ → ℕ) : Prop :=
  (∀ e ∈ t.active, e.highest = mark e.session) ∧ ∀ e ∈ t.retired, e.highest = mark e.session

theorem mark_unknown (h : ¬ (run calls).knows session) : mark calls session = 0 := by
  cases calls with
  | nil => rfl
  | cons c calls => exact if_pos (.inr h)

theorem Restores.highest {highest : ℕ} {mark : ℕ → ℕ} (h : Restores t session highest)
    (hmarked : t.Marked mark) (hunknown : ∀ s, ¬ t.knows s → mark s = 0)
    (hnew : ∀ e ∈ t.active, e.session ≠ session) : highest = mark session := by
  rcases h with ⟨e, he, rfl, rfl⟩ | ⟨hgone, rfl⟩
  · exact hmarked.2 e he
  · refine (hunknown session ?_).symm
    rintro (hmem | hmem)
    · obtain ⟨e, he, heq⟩ := List.mem_map.mp hmem
      exact hnew e he heq
    · obtain ⟨e, he, heq⟩ := List.mem_map.mp hmem
      exact hgone e he heq

theorem Admitted.marked {mark : ℕ → ℕ} (h : Admitted t session now t') (hmarked : t.Marked mark)
    (hunknown : ∀ s, ¬ t.knows s → mark s = 0) : t'.Marked mark := by
  cases h with
  | kept e he hsession =>
    refine ⟨fun x hx => ?_, hmarked.2⟩
    rcases List.mem_append.mp hx with hx | hx
    · exact hmarked.1 x (mem_without.mp hx).1
    · rw [List.mem_singleton.mp hx]
      exact hmarked.1 e he
  | entered highest hnew hroom hrestores =>
    refine ⟨fun x hx => ?_, fun x hx => hmarked.2 x (mem_without.mp hx).1⟩
    rcases List.mem_append.mp hx with hx | hx
    · exact hmarked.1 x hx
    · rw [List.mem_singleton.mp hx]
      exact hrestores.highest hmarked hunknown hnew
  | replaced highest victim hnew hvictim hrestores =>
    refine ⟨fun x hx => ?_, fun x hx => ?_⟩
    · rcases List.mem_append.mp hx with hx | hx
      · exact hmarked.1 x (mem_without.mp hx).1
      · rw [List.mem_singleton.mp hx]
        exact hrestores.highest hmarked hunknown hnew
    · rcases List.mem_append.mp (mem_newest hx) with hx | hx
      · exact hmarked.2 x (mem_without.mp hx).1
      · rw [List.mem_singleton.mp hx]
        exact hmarked.1 victim hvictim

theorem Accepted.marked {mark : ℕ → ℕ} {command : ℕ} (h : Accepted t session command now t')
    (ht : t.Distinct) (hmarked : t.Marked mark) :
    t'.Marked ((Call.accept session command now).raise t mark) := by
  have hother {x : Entry} (hx : x.session ≠ session) :
      (Call.accept session command now).raise t mark x.session = mark x.session :=
    if_neg fun h => hx h.1.symm
  cases h with
  | ignored hidle =>
    have hsame (s : ℕ) : (Call.accept session command now).raise t mark s = mark s := by
      refine if_neg fun h => ?_
      obtain ⟨e, he, heq⟩ := List.mem_map.mp h.2
      exact hidle e he (heq.trans h.1.symm)
    exact ⟨fun x hx => by rw [hsame]; exact hmarked.1 x hx,
      fun x hx => by rw [hsame]; exact hmarked.2 x hx⟩
  | raised e he hsession =>
    subst hsession
    refine ⟨fun x hx => ?_, fun x hx => ?_⟩
    · rcases List.mem_append.mp hx with hx | hx
      · rw [hother (mem_without.mp hx).2]
        exact hmarked.1 x (mem_without.mp hx).1
      · rw [List.mem_singleton.mp hx]
        have hactive : t.isActive e.session := List.mem_map_of_mem he
        show max e.highest command = _
        rw [hmarked.1 e he]
        exact (if_pos (And.intro rfl hactive)).symm
    · rw [hother (ht.apart e he x hx).symm]
      exact hmarked.2 x hx

theorem Moved.marked {mark : ℕ → ℕ} {c : Call} (h : Moved t c t') (ht : t.Distinct)
    (hmarked : t.Marked mark) (hunknown : ∀ s, ¬ t.knows s → mark s = 0) :
    t'.Marked (c.raise t mark) := by
  cases h with
  | stale => exact hmarked
  | refused => exact hmarked
  | admitted session now force protectedSession h => exact h.marked hmarked hunknown
  | accepted session command now h => exact h.marked ht hmarked

@[simp] theorem start_active (t : Tracker) (c : Call) : (t.start c).active = t.active := by
  cases c <;> rfl

theorem start_retired (t : Tracker) (c : Call) : (t.start c).retired.Sublist t.retired := by
  cases c with
  | accept => exact List.Sublist.refl _
  | _ => exact List.filter_sublist

/-- **Every entry carries the mark the record gives its session.** -/
theorem run_marked (calls : List Call) : (run calls).Marked (mark calls) := by
  induction calls with
  | nil => exact ⟨fun _ h => absurd h List.not_mem_nil, fun _ h => absurd h List.not_mem_nil⟩
  | cons c calls ih =>
    -- the marks once the expired tombstones are dropped
    let kept (s : ℕ) : ℕ := if ((run calls).start c).knows s then mark calls s else 0
    have hkept {s : ℕ} (h : ((run calls).start c).knows s) : kept s = mark calls s := if_pos h
    have hstart : ((run calls).start c).Marked kept := by
      refine ⟨fun e he => ?_, fun e he => ?_⟩
      · rw [hkept (.inl (List.mem_map_of_mem he))]
        exact ih.1 e (by simpa using he)
      · rw [hkept (.inr (List.mem_map_of_mem he))]
        exact ih.2 e ((start_retired _ c).subset he)
    have hmoved := ((run_distinct calls).moved c).marked ((run_distinct calls).start c) hstart
      fun s hs => if_neg hs
    have hmark {s : ℕ} (h : (run (c :: calls)).knows s) :
        mark (c :: calls) s = c.raise ((run calls).start c) kept s := by
      by_cases hs : ((run calls).start c).knows s
      · have hkeeps : ¬ Forgets (run calls) c s := not_or.mpr ⟨not_not.mpr hs, not_not.mpr h⟩
        rw [mark, if_neg hkeeps]
        cases c <;> simp [Call.raise, Tracker.isActive, hkept hs]
      · have hidle : ¬ ((run calls).start c).isActive s := fun h => hs (.inl h)
        rw [mark, if_pos (show Forgets (run calls) c s from .inl hs)]
        cases c <;> simp [Call.raise, hidle, show kept s = 0 from if_neg hs]
    refine ⟨fun e he => ?_, fun e he => ?_⟩
    · rw [hmark (.inl (List.mem_map_of_mem he))]
      exact hmoved.1 e he
    · rw [hmark (.inr (List.mem_map_of_mem he))]
      exact hmoved.2 e he

/-- **A command is stale exactly when the session's mark has reached it.** -/
theorem stale_iff (calls : List Call) {session command now : ℕ} (hcommand : 1 ≤ command) :
    ((run calls).stale session command now).2 = true ↔
      command ≤ mark (.stale session command now :: calls) session := by
  have hdistinct := run_distinct (.stale session command now :: calls)
  have hmarked := run_marked (.stale session command now :: calls)
  show ((run (.stale session command now :: calls)).isStale session command) = true ↔ _
  generalize hrun : run (.stale session command now :: calls) = t at *
  unfold Tracker.isStale
  cases hactive : find t.active session with
  | some e =>
    obtain ⟨he, rfl⟩ := (Recency.find?_eq_some hdistinct.active).mp hactive
    rw [← hmarked.1 e he]
    exact decide_eq_true_iff
  | none =>
    cases hretired : find t.retired session with
    | some e =>
      obtain ⟨he, rfl⟩ := (Recency.find?_eq_some hdistinct.retired).mp hretired
      rw [← hmarked.2 e he]
      exact decide_eq_true_iff
    | none =>
      have hunknown : ¬ t.knows session := by
        rintro (hmem | hmem)
        · obtain ⟨e, he, heq⟩ := List.mem_map.mp hmem
          exact Recency.find?_eq_none.mp hactive e he heq
        · obtain ⟨e, he, heq⟩ := List.mem_map.mp hmem
          exact Recency.find?_eq_none.mp hretired e he heq
      rw [mark_unknown (by rw [hrun]; exact hunknown)]
      simp only [Option.any_none, Bool.false_eq_true, false_iff]
      omega

/-! ### The tombstones -/

/-- The only entry of a session among distinct ones. -/
theorem filter_session {entries : List Entry} {e : Entry}
    (h : (entries.map Entry.session).Nodup) (he : e ∈ entries) :
    (entries.filter fun x => x.session == e.session) = [e] := by
  obtain ⟨before, after, rfl⟩ := List.append_of_mem he
  rw [List.map_append, List.map_cons, List.nodup_append] at h
  obtain ⟨-, hafter, hdisjoint⟩ := h
  have hbefore : before.filter (fun x => x.session == e.session) = [] := by
    rw [List.filter_eq_nil_iff]
    intro x hx heq
    exact hdisjoint _ (List.mem_map_of_mem hx) _ List.mem_cons_self (by simpa using heq)
  have hafter : after.filter (fun x => x.session == e.session) = [] := by
    rw [List.filter_eq_nil_iff]
    intro x hx heq
    have heq : x.session = e.session := by simpa using heq
    exact (List.nodup_cons.mp hafter).1 (heq ▸ List.mem_map_of_mem hx)
  rw [List.filter_append, hbefore, List.filter_cons_of_pos (by simp), hafter]
  rfl

/-- What a call does to the tombstones, of what is left of them once the expired are dropped: it
adds none, or that of the one session it retires. -/
inductive Buried (t : Tracker) (c : Call) : Prop
  | none (hnone : retiredBy t c = []) (hretired : (t.after c).retired.Sublist (t.start c).retired)
      (hknown : ∀ s, (t.start c).knows s → (t.after c).knows s)
  | one (victim : Entry) (kept : List Entry) (hone : retiredBy t c = [(victim.session, c.time)])
      (hkept : kept.Sublist (t.start c).retired)
      (hapart : ∀ e ∈ kept, e.session ≠ victim.session)
      (hretired : (t.after c).retired =
        newest maxRetired (kept ++ [{ victim with stamp := c.time }]))
      (hknown : ∀ s, (t.start c).knows s →
        (t.after c).isActive s ∨ s = victim.session ∨ s ∈ kept.map Entry.session)

theorem retiredBy_nil {c : Call} (h : ∀ e ∈ t.active, (t.after c).isActive e.session) :
    retiredBy t c = [] := by
  have hnone : (t.active.filter fun e => ¬ (t.after c).isActive e.session) = [] := by
    rw [List.filter_eq_nil_iff]
    intro e he hgone
    exact of_decide_eq_true hgone (h e he)
  rw [retiredBy, hnone]
  rfl

/-- A call that retires no session. -/
theorem Buried.of_active {c : Call} (hactive : ∀ e ∈ t.active, (t.after c).isActive e.session)
    (hretired : (t.after c).retired.Sublist (t.start c).retired)
    (hknown : ∀ e ∈ (t.start c).retired, (t.after c).knows e.session) : Buried t c := by
  refine .none (retiredBy_nil hactive) hretired fun s hs => ?_
  rcases hs with hs | hs
  · rw [start_active] at hs
    obtain ⟨e, he, rfl⟩ := List.mem_map.mp hs
    exact .inl (hactive e he)
  · obtain ⟨e, he, rfl⟩ := List.mem_map.mp hs
    exact hknown e he

theorem isActive_concat {entries : List Entry} {e x : Entry} {retired : List Entry}
    (hx : x ∈ entries) (hsame : x.session = session → e.session = session) :
    Tracker.isActive ⟨without entries session ++ [e], retired⟩ x.session := by
  by_cases hsession : x.session = session
  · exact List.mem_map.mpr ⟨e, by simp, (hsame hsession).trans hsession.symm⟩
  · exact List.mem_map_of_mem (List.mem_append_left _ (mem_without.mpr ⟨hx, hsession⟩))

theorem Tracker.Distinct.buried (h : t.Distinct) (c : Call) : Buried t c := by
  have hmoved := h.moved c
  cases c with
  | stale session command now =>
    exact .of_active (fun e he => List.mem_map_of_mem he) (List.Sublist.refl _)
      fun e he => .inr (List.mem_map_of_mem he)
  | accept session command now =>
    generalize ha : t.after (.accept session command now) = t' at hmoved
    cases hmoved with
    | accepted _ _ _ hmoved =>
      cases hmoved with
      | ignored =>
        exact .of_active (fun e he => ha ▸ List.mem_map_of_mem he) (ha ▸ List.Sublist.refl _)
          fun e he => ha ▸ .inr (List.mem_map_of_mem he)
      | raised e he hsession =>
        exact .of_active (fun x hx => ha ▸ isActive_concat hx fun _ => hsession)
          (ha ▸ List.Sublist.refl _) fun x hx => ha ▸ .inr (List.mem_map_of_mem hx)
  | admits session now force protectedSession =>
    generalize ha : t.after (.admits session now force protectedSession) = t' at hmoved
    cases hmoved with
    | refused =>
      exact .of_active (fun e he => ha ▸ List.mem_map_of_mem he) (ha ▸ List.Sublist.refl _)
        fun e he => ha ▸ .inr (List.mem_map_of_mem he)
    | admitted _ _ _ _ hmoved =>
      cases hmoved with
      | kept e he hsession =>
        exact .of_active (fun x hx => ha ▸ isActive_concat hx fun _ => hsession)
          (ha ▸ List.Sublist.refl _) fun x hx => ha ▸ .inr (List.mem_map_of_mem hx)
      | entered highest hnew hroom hrestores =>
        refine .of_active (fun x hx => ha ▸ ?_) (ha ▸ without_sublist _ _) fun x hx => ha ▸ ?_
        · exact List.mem_map_of_mem (List.mem_append_left _ hx)
        · by_cases hsession : x.session = session
          · exact .inl (List.mem_map.mpr ⟨_, List.mem_append_right _ List.mem_cons_self,
              hsession.symm⟩)
          · exact .inr (List.mem_map_of_mem (mem_without.mpr ⟨hx, hsession⟩))
      | replaced highest victim hnew hvictim hrestores =>
        rw [start_active] at hnew hvictim
        have hactive (s : ℕ) : (t.after (.admits session now force protectedSession)).isActive s ↔
            (∃ e ∈ t.active, e.session = s ∧ s ≠ victim.session) ∨ s = session := by
          rw [ha, Tracker.isActive, List.map_append, List.mem_append, List.mem_map]
          simp only [start_active, mem_without, List.map_singleton, List.mem_singleton]
          refine or_congr (exists_congr fun e => ⟨?_, ?_⟩) Iff.rfl
          · rintro ⟨⟨he, hne⟩, rfl⟩
            exact ⟨he, rfl, hne⟩
          · rintro ⟨he, rfl, hne⟩
            exact ⟨⟨he, hne⟩, rfl⟩
        refine .one victim (without (t.prune now).retired session) ?_ (without_sublist _ _)
          (fun e he => ?_) (by rw [ha]; rfl) fun s hs => ?_
        · -- only the victim is no longer active
          have hgone : (t.active.filter fun e =>
                ¬ (t.after (.admits session now force protectedSession)).isActive e.session) =
              t.active.filter fun e => e.session == victim.session := by
            refine List.filter_congr fun e he => ?_
            rw [Bool.eq_iff_iff, decide_eq_true_iff, beq_iff_eq, hactive, not_or]
            constructor
            · rintro ⟨hgone, -⟩
              by_contra hne
              exact hgone ⟨e, he, rfl, hne⟩
            · intro heq
              exact ⟨fun ⟨_, _, _, hne⟩ => hne heq, hnew e he⟩
          rw [retiredBy, hgone, filter_session h.active hvictim]
          rfl
        · exact (h.apart victim hvictim e
            ((start_retired t (.stale 0 0 now)).subset (mem_without.mp he).1)).symm
        · rw [hactive]
          rcases hs with hs | hs
          · rw [start_active] at hs
            obtain ⟨e, he, rfl⟩ := List.mem_map.mp hs
            by_cases hv : e.session = victim.session
            · exact .inr (.inl hv)
            · exact .inl (.inl ⟨e, he, rfl, hv⟩)
          · obtain ⟨e, he, rfl⟩ := List.mem_map.mp hs
            by_cases hsession : e.session = session
            · exact .inl (.inr hsession)
            · exact .inr (.inr (List.mem_map_of_mem (mem_without.mpr ⟨he, hsession⟩)))

/-- Every tombstone is that of its session's last retirement, and those after it are of newer
ones. -/
structure Tracker.Placed (t : Tracker) (retired : List (ℕ × ℕ)) : Prop where
  last : ∀ e ∈ t.retired, lastRetirement e.session retired = some (e.session, e.stamp)
  order : t.retired.Pairwise fun a b => (b.session, b.stamp) ∈ newerRetirements a.session retired

theorem lastRetirement_cons {r : ℕ × ℕ} {retired : List (ℕ × ℕ)} (h : session ≠ r.1) :
    lastRetirement session (r :: retired) = lastRetirement session retired := by
  simp [lastRetirement, h.symm]

theorem newerRetirements_cons {r : ℕ × ℕ} {retired : List (ℕ × ℕ)} (h : session ≠ r.1) :
    newerRetirements session (r :: retired) = r :: newerRetirements session retired := by
  simp [newerRetirements, h.symm]

theorem Tracker.Placed.sublist {retired : List (ℕ × ℕ)} (h : t.Placed retired)
    (hsub : t'.retired.Sublist t.retired) : t'.Placed retired :=
  ⟨fun e he => h.last e (hsub.subset he), h.order.sublist hsub⟩

/-- A new tombstone after those of other sessions. -/
theorem Tracker.Placed.concat {retired : List (ℕ × ℕ)} {kept : List Entry} {e : Entry}
    (h : Tracker.Placed ⟨[], kept⟩ retired) (hapart : ∀ x ∈ kept, x.session ≠ e.session) :
    Tracker.Placed ⟨[], kept ++ [e]⟩ ((e.session, e.stamp) :: retired) := by
  refine ⟨fun x hx => ?_, List.pairwise_append.mpr ⟨?_, List.pairwise_singleton _ _, ?_⟩⟩
  · rcases List.mem_append.mp hx with hx | hx
    · rw [lastRetirement_cons (hapart x hx)]
      exact h.last x hx
    · rw [List.mem_singleton.mp hx]
      simp [lastRetirement]
  · refine h.order.imp_of_mem fun {a b} ha hb hab => ?_
    rw [newerRetirements_cons (hapart a ha)]
    exact List.mem_cons_of_mem _ hab
  · intro a ha b hb
    rw [List.mem_singleton.mp hb, newerRetirements_cons (hapart a ha)]
    exact List.mem_cons_self

/-- A call that retires a session places its tombstone last. -/
theorem Buried.placed {c : Call} {victim : Entry} {kept : List Entry}
    {retired : List (ℕ × ℕ)} (h : t.Placed retired) (hkept : kept.Sublist (t.start c).retired)
    (hapart : ∀ e ∈ kept, e.session ≠ victim.session) :
    Tracker.Placed ⟨[], kept ++ [{ victim with stamp := c.time }]⟩
      ((victim.session, c.time) :: retired) :=
  Tracker.Placed.concat (h.sublist (hkept.trans (start_retired t c))) hapart

theorem run_placed (calls : List Call) : (run calls).Placed (retirements calls) := by
  induction calls with
  | nil => exact ⟨fun _ h => absurd h List.not_mem_nil, List.Pairwise.nil⟩
  | cons c calls ih =>
    have hstart := ih.sublist (start_retired _ c)
    rcases (run_distinct calls).buried c with ⟨hnone, hretired, -⟩ |
      ⟨victim, kept, hone, hkept, hapart, hretired, -⟩
    · rw [retirements, hnone]
      exact hstart.sublist hretired
    · rw [retirements, hone]
      refine (Buried.placed ih hkept hapart).sublist ?_
      show ((run calls).after c).retired.Sublist _
      rw [hretired]
      exact newest_sublist _ _

/-! ### What is forgotten -/

theorem mem_newest_last {n : ℕ} (hn : 0 < n) (entries : List Entry) (e : Entry) :
    e ∈ newest n (entries ++ [e]) := by
  unfold newest
  rw [List.drop_append_of_le_length (by rw [List.length_append, List.length_singleton]; omega)]
  exact List.mem_append_right _ (List.mem_singleton.mpr rfl)

/-- An entry that is not among the newest has all of these after it. -/
theorem not_mem_newest {n : ℕ} {entries : List Entry} {e : Entry} {r : Entry → Entry → Prop}
    (hr : entries.Pairwise r) (he : e ∈ entries) (hgone : e ∉ newest n entries) :
    (newest n entries).length = n ∧ ∀ x ∈ newest n entries, r e x := by
  unfold newest at hgone ⊢
  have hsplit := List.take_append_drop (entries.length - n) entries
  have htaken : e ∈ entries.take (entries.length - n) := by
    rw [← hsplit] at he
    exact (List.mem_append.mp he).resolve_right hgone
  have hlength : 0 < (entries.take (entries.length - n)).length := List.length_pos_of_mem htaken
  rw [List.length_take] at hlength
  rw [← hsplit, List.pairwise_append] at hr
  rw [List.length_drop]
  exact ⟨by omega, hr.2.2 e htaken⟩

theorem lastRetirement_retiredBy {c : Call} {retired : List (ℕ × ℕ)}
    (h : ¬ t.isActive session) :
    lastRetirement session (retiredBy t c ++ retired) = lastRetirement session retired := by
  have hnone : (retiredBy t c).find? (fun r => r.1 == session) = none := by
    rw [List.find?_eq_none]
    intro r hr heq
    obtain ⟨e, he, rfl⟩ := List.mem_map.mp hr
    have heq : e.session = session := by simpa using heq
    exact h (heq ▸ List.mem_map_of_mem (List.mem_of_mem_filter he))
  rw [lastRetirement, List.find?_append, hnone]
  rfl

theorem start_expired {c : Call} {e : Entry} (he : e ∈ t.retired)
    (hgone : e ∉ (t.start c).retired) : retentionNs < c.time - e.stamp := by
  have hexpired {now : ℕ} (h : e ∉ (t.prune now).retired) : retentionNs < now - e.stamp := by
    rw [Tracker.prune, List.mem_filter, not_and, Bool.not_eq_true', Bool.not_eq_false] at h
    have := h he
    simp only [Entry.expired, Bool.and_eq_true, decide_eq_true_eq] at this
    exact this.2
  cases c with
  | stale => exact hexpired hgone
  | admits => exact hexpired hgone
  | accept => exact absurd he hgone

/-- A session's tombstone is past its retention, or the table is full of newer ones. -/
def Outlived (calls : List Call) (session now : ℕ) : Prop :=
  ∃ stamp, lastRetirement session (retirements calls) = some (session, stamp) ∧
    (retentionNs < now - stamp ∨
      (run calls).retired.length = maxRetired ∧
        ∀ e ∈ (run calls).retired,
          (e.session, e.stamp) ∈ newerRetirements session (retirements calls))

/-- **A session is forgotten only when its tombstone expired or 256 newer ones pushed it out.** -/
theorem forgotten {c : Call} (hknown : (run calls).knows session)
    (hforgets : Forgets (run calls) c session) : Outlived (c :: calls) session c.time := by
  have hdistinct := run_distinct calls
  have hplaced := run_placed calls
  by_cases hstart : ((run calls).start c).knows session
  · have hgone : ¬ ((run calls).after c).knows session :=
      hforgets.resolve_left (not_not.mpr hstart)
    rcases hdistinct.buried c with ⟨-, -, hkeeps⟩ |
      ⟨victim, kept, hone, hkept, hapart, hretired, hkeeps⟩
    · exact absurd (hkeeps session hstart) hgone
    · have hlast := Buried.placed (c := c) hplaced hkept hapart
      have hout {e : Entry} (he : e ∈ kept ++ [{ victim with stamp := c.time }])
          (hsession : e.session = session) :
          e ∉ newest maxRetired (kept ++ [{ victim with stamp := c.time }]) := by
        intro hin
        rw [← hretired] at hin
        exact hgone (.inr (hsession ▸ List.mem_map_of_mem hin))
      rcases hkeeps session hstart with hactive | rfl | hmem
      · exact absurd (.inl hactive) hgone
      · exact absurd (mem_newest_last (by decide) kept { victim with stamp := c.time })
          (hout (List.mem_append_right _ List.mem_cons_self) rfl)
      · obtain ⟨e, he, rfl⟩ := List.mem_map.mp hmem
        have he := List.mem_append_left [{ victim with stamp := c.time }] he
        obtain ⟨hlength, hnewer⟩ := not_mem_newest hlast.order he (hout he rfl)
        have hrun : (run (c :: calls)).retired = _ := hretired
        refine ⟨e.stamp, ?_, .inr ⟨?_, fun x hx => ?_⟩⟩
        · rw [retirements, hone]
          exact hlast.last e he
        · rw [hrun, hlength]
        · rw [hrun] at hx
          rw [retirements, hone]
          exact hnewer x hx
  · -- the tombstone was dropped before the call
    have hidle : ¬ (run calls).isActive session := fun h =>
      hstart (.inl (by rw [start_active]; exact h))
    obtain ⟨e, he, rfl⟩ := List.mem_map.mp (hknown.resolve_left hidle)
    have hgone : e ∉ ((run calls).start c).retired := fun h =>
      hstart (.inr (List.mem_map_of_mem h))
    refine ⟨e.stamp, ?_, .inl (start_expired he hgone)⟩
    rw [retirements, lastRetirement_retiredBy hidle]
    exact hplaced.last e he

/-! ### The tracker refines the marks -/

/-- What the tracker is after a run of calls, newest first, and what it does at the next. -/
structure Refines (calls : List Call) (t : Tracker) : Prop where
  distinct : (t.active.map Entry.session ++ t.retired.map Entry.session).Nodup
  active : t.active.length ≤ 32
  retired : t.retired.length ≤ 256
  ordered : (t.retired.map Entry.stamp).Pairwise (· ≤ ·)
  stale : ∀ session command now, (∀ c ∈ calls, c.time ≤ now) → 1 ≤ command →
    ((t.stale session command now).2 = true ↔
      command ≤ mark (.stale session command now :: calls) session)
  forgotten : ∀ c, (∀ d ∈ calls, d.time ≤ c.time) → ∀ session, t.knows session →
    Forgets t c session → Outlived (c :: calls) session c.time
  refused : ∀ session now force protectedSession, (∀ c ∈ calls, c.time ≤ now) →
    (t.admits session now force protectedSession).2 = false →
      let t' := (t.admits session now force protectedSession).1
      t'.active = t.active ∧
        (t'.retired = t.retired.filter fun e => decide (now - e.stamp ≤ retentionNs)) ∧
        ∀ s, t'.knows s →
          mark (.admits session now force protectedSession :: calls) s = mark calls s
  restored : ∀ session now force protectedSession, (∀ c ∈ calls, c.time ≤ now) →
    (t.admits session now force protectedSession).2 = true →
      ∀ e ∈ (t.prune now).retired, e.session = session →
        ∃ e' ∈ (t.admits session now force protectedSession).1.active,
          e'.session = session ∧ e'.highest = e.highest

theorem prune_retired (t : Tracker) (now : ℕ) :
    (t.prune now).retired = t.retired.filter fun e => decide (now - e.stamp ≤ retentionNs) := by
  refine List.filter_congr fun e _ => ?_
  rw [Bool.eq_iff_iff]
  simp only [Entry.expired, Bool.not_eq_true', Bool.and_eq_false_iff, decide_eq_false_iff_not,
    decide_eq_true_iff]
  omega

/-- **The session tracker keeps high-water marks.**  After every run of calls whose times do not go
back, no session occurs twice, the tables are bounded and the tombstones in order; a command is
stale exactly when the session's mark has reached it, and a mark is lost only with a tombstone that
expired or was pushed out. -/
theorem tracker_refines (calls : List Call) (h : Timed calls) : Refines calls (run calls) := by
  have hdistinct := run_distinct calls
  have hbounded := run_bounded calls
  obtain ⟨now, hnow⟩ : ∃ now, ∀ c ∈ calls, c.time ≤ now := by
    cases calls with
    | nil => exact ⟨0, by simp⟩
    | cons c calls => exact ⟨c.time, by simpa using (List.pairwise_cons.mp h).1⟩
  refine ⟨?_, hbounded.active, hbounded.retired, List.pairwise_map.mpr (run_ordered h hnow).1,
    fun session command now _ hcommand => stale_iff calls hcommand,
    fun c _ session hknown hforgets => forgotten hknown hforgets,
    fun session now force protectedSession _ hrefused => ?_,
    fun session now force protectedSession _ hadmitted e he hsession => ?_⟩
  · rw [List.nodup_append]
    refine ⟨hdistinct.active, hdistinct.retired, fun a ha b hb => ?_⟩
    obtain ⟨x, hx, rfl⟩ := List.mem_map.mp ha
    obtain ⟨y, hy, rfl⟩ := List.mem_map.mp hb
    exact hdistinct.apart x hx y hy
  · have hpruned : ((run calls).admits session now force protectedSession).1 =
        (run calls).prune now := by
      unfold Tracker.admits at hrefused ⊢
      split at hrefused
      · cases hrefused
      · rfl
    dsimp only
    rw [hpruned]
    refine ⟨rfl, prune_retired _ now, fun s hs => ?_⟩
    have hkept : ¬ Forgets (run calls) (.admits session now force protectedSession) s := by
      refine not_or.mpr ⟨not_not.mpr hs, not_not.mpr ?_⟩
      show ((run calls).admits session now force protectedSession).1.knows s
      rw [hpruned]
      exact hs
    rw [mark, if_neg hkept]
    rfl
  · unfold Tracker.admits at hadmitted ⊢
    split at hadmitted
    · rename_i t' forgot hpruned
      have hdistinct := hdistinct.prune now
      have hrestored {highest : ℕ} (hr : Restores ((run calls).prune now) session highest) :
          highest = e.highest := by
        rcases hr with ⟨x, hx, hsame, rfl⟩ | ⟨hnone, -⟩
        · rw [List.inj_on_of_nodup_map hdistinct.retired hx he (hsame.trans hsession.symm)]
        · exact absurd hsession (hnone e he)
      cases hdistinct.admitPruned hpruned with
      | kept x hx hsame => exact absurd (hsame.trans hsession.symm) (hdistinct.apart x hx e he)
      | entered highest hnew hroom hrestores =>
        exact ⟨_, List.mem_append_right _ List.mem_cons_self, rfl, hrestored hrestores⟩
      | replaced highest victim hnew hvictim hrestores =>
        exact ⟨_, List.mem_append_right _ List.mem_cons_self, rfl, hrestored hrestores⟩
    · cases hadmitted

/-- Of a run that accepts a command and asks for it again. -/
theorem tracker_refines_again :
    Refines [.stale 1 10 4, .accept 1 10 3, .admits 1 2 false fun _ => false]
      (run [.stale 1 10 4, .accept 1 10 3, .admits 1 2 false fun _ => false]) :=
  tracker_refines _ (by simp [Timed, Call.time])

end UsbProxy.ClickSessions
