import Mathlib.Logic.Relation
import Mathlib.Tactic

/-!
# Clients of a shared state

A client has a private state `τ` and reaches a shared state `σ` only through atomic calls.  Before
each call other threads may take any number of environment steps `ε`; which ones is read from a
schedule, so a client is a function and its behaviours are its runs under all schedules.

`wp` is the weakest precondition of a client and `EnvReach` what the environment can do; the rules
below reduce a statement about a client to statements about the states between its calls.
`Passive` is the same for clients that only read the shared state.
-/

namespace Client

variable {τ σ ε α β : Type}

/-- The states of a run: private, shared, and the environment steps before the coming calls. -/
structure Ctx (τ σ ε : Type) where
  priv : τ
  shared : σ
  sched : List (List ε) := []

/-- A client program. -/
abbrev Prog (τ σ ε : Type) := StateM (Ctx τ σ ε)

/-- The shared state after some environment steps. -/
def envRun (env : σ → ε → σ) (s : σ) (steps : List ε) : σ := steps.foldl env s

/-- An atomic access: the environment moves, then `f` runs. -/
def call (env : σ → ε → σ) (f : σ → σ × α) : Prog τ σ ε α := fun c =>
  let r := f (envRun env c.shared (c.sched.headD []))
  (r.2, { c with shared := r.1, sched := c.sched.tail })

/-- Read the private state. -/
def getPriv : Prog τ σ ε τ := fun c => (c.priv, c)

/-- Update the private state. -/
def update (f : τ → τ) : Prog τ σ ε Unit := fun c => ((), { c with priv := f c.priv })

/-- Change the shared state without giving the environment a turn. -/
def mark (f : σ → σ) : Prog τ σ ε Unit := fun c => ((), { c with shared := f c.shared })

/-- `t` is reachable from `s` by environment steps. -/
def EnvReach (env : σ → ε → σ) (s t : σ) : Prop := ∃ steps, t = envRun env s steps

variable {env : σ → ε → σ}

theorem EnvReach.trans {s t u : σ} (h1 : EnvReach env s t) (h2 : EnvReach env t u) :
    EnvReach env s u := by
  obtain ⟨l1, rfl⟩ := h1
  obtain ⟨l2, rfl⟩ := h2
  exact ⟨l1 ++ l2, by simp [envRun]⟩

/-- What every environment step preserves, the environment preserves. -/
theorem EnvReach.preserves {P : σ → Prop} (hstep : ∀ s x, P s → P (env s x)) {s t : σ}
    (h : EnvReach env s t) (hs : P s) : P t := by
  obtain ⟨steps, rfl⟩ := h
  induction steps generalizing s with
  | nil => exact hs
  | cons x rest ih => exact ih (hstep s x hs)

/-- What holds across one environment step and composes, holds across many. -/
theorem EnvReach.relates {R : σ → σ → Prop} (hrefl : ∀ s, R s s)
    (htrans : ∀ s t u, R s t → R t u → R s u) (hstep : ∀ s x, R s (env s x)) {s t : σ}
    (h : EnvReach env s t) : R s t := by
  obtain ⟨steps, rfl⟩ := h
  induction steps generalizing s with
  | nil => exact hrefl s
  | cons x rest ih => exact htrans _ _ _ (hstep s x) (ih (s := env s x))

/-! ### Weakest preconditions -/

/-- After `x` run from `c`, `Q` holds of the result and the final states. -/
def wp (x : Prog τ σ ε α) (Q : α → τ → σ → Prop) (c : Ctx τ σ ε) : Prop :=
  Q (x c).1 (x c).2.priv (x c).2.shared

/-- `x` from private state `p` and shared state `s`, under every schedule. -/
def Wp (x : Prog τ σ ε α) (Q : α → τ → σ → Prop) (p : τ) (s : σ) : Prop :=
  ∀ sched, wp x Q ⟨p, s, sched⟩

theorem Wp.mono {x : Prog τ σ ε α} {Q Q' : α → τ → σ → Prop} {p : τ} {s : σ} (h : Wp x Q p s)
    (hQ : ∀ a p s, Q a p s → Q' a p s) : Wp x Q' p s :=
  fun sched => hQ _ _ _ (h sched)

theorem Wp.pure {a : α} {Q : α → τ → σ → Prop} {p : τ} {s : σ} (h : Q a p s) :
    Wp (Pure.pure a : Prog τ σ ε α) Q p s := fun _ => h

theorem Wp.bind {x : Prog τ σ ε α} {f : α → Prog τ σ ε β} {Q : β → τ → σ → Prop} {p : τ} {s : σ}
    (h : Wp x (fun a p s => Wp (f a) Q p s) p s) : Wp (x >>= f) Q p s :=
  fun sched => h sched (x ⟨p, s, sched⟩).2.sched

theorem Wp.seq {x : Prog τ σ ε Unit} {y : Prog τ σ ε β} {Q : β → τ → σ → Prop} {p : τ} {s : σ}
    (h : Wp x (fun _ p s => Wp y Q p s) p s) : Wp (x >>= fun _ => y) Q p s := Wp.bind h

theorem Wp.getPriv {Q : τ → τ → σ → Prop} {p : τ} {s : σ} (h : Q p p s) :
    Wp (Client.getPriv : Prog τ σ ε τ) Q p s := fun _ => h

theorem Wp.update {f : τ → τ} {Q : Unit → τ → σ → Prop} {p : τ} {s : σ} (h : Q () (f p) s) :
    Wp (Client.update f : Prog τ σ ε Unit) Q p s := fun _ => h

theorem Wp.mark {f : σ → σ} {Q : Unit → τ → σ → Prop} {p : τ} {s : σ} (h : Q () p (f s)) :
    Wp (Client.mark f : Prog τ σ ε Unit) Q p s := fun _ => h

theorem Wp.call {f : σ → σ × α} {Q : α → τ → σ → Prop} {p : τ} {s : σ}
    (h : ∀ t, EnvReach env s t → Q (f t).2 p (f t).1) :
    Wp (Client.call env f : Prog τ σ ε α) Q p s :=
  fun sched => h _ ⟨sched.headD [], rfl⟩

theorem Wp.ite {b : Prop} [Decidable b] {x y : Prog τ σ ε α} {Q : α → τ → σ → Prop} {p : τ} {s : σ}
    (ht : b → Wp x Q p s) (hf : ¬ b → Wp y Q p s) : Wp (if b then x else y) Q p s := by
  split
  · exact ht ‹_›
  · exact hf ‹_›

/-! ### Single runs -/

/-- After `x` run from `c`, `Q` holds of the result and of all that is left, the schedule included. -/
def Post (x : Prog τ σ ε α) (Q : α → Ctx τ σ ε → Prop) (c : Ctx τ σ ε) : Prop := Q (x c).1 (x c).2

section Post

variable {x : Prog τ σ ε α} {f : α → Prog τ σ ε β} {Q : α → Ctx τ σ ε → Prop}
  {R : β → Ctx τ σ ε → Prop} {c : Ctx τ σ ε}

theorem Post.bind (h : Post x (fun a c => Post (f a) R c) c) : Post (x >>= f) R c := h

theorem Post.seq {x : Prog τ σ ε Unit} {y : Prog τ σ ε β}
    (h : Post x (fun _ c => Post y R c) c) : Post (x >>= fun _ => y) R c := h

theorem Post.pure {a : α} (h : Q a c) : Post (Pure.pure a : Prog τ σ ε α) Q c := h

theorem Post.getPriv {Q : τ → Ctx τ σ ε → Prop} (h : Q c.priv c) :
    Post (Client.getPriv : Prog τ σ ε τ) Q c := h

theorem Post.update {f : τ → τ} {Q : Unit → Ctx τ σ ε → Prop}
    (h : Q () { c with priv := f c.priv }) : Post (Client.update f : Prog τ σ ε Unit) Q c := h

theorem Post.mark {f : σ → σ} {Q : Unit → Ctx τ σ ε → Prop}
    (h : Q () { c with shared := f c.shared }) : Post (Client.mark f : Prog τ σ ε Unit) Q c := h

/-- A call sees the shared state after the first steps of the schedule. -/
theorem Post.call {f : σ → σ × α}
    (h : Q (f (envRun env c.shared (c.sched.headD []))).2
      { c with
        shared := (f (envRun env c.shared (c.sched.headD []))).1, sched := c.sched.tail }) :
    Post (Client.call env f : Prog τ σ ε α) Q c := h

theorem Post.ite {b : Prop} [Decidable b] {y : Prog τ σ ε α} (ht : b → Post x Q c)
    (hf : ¬ b → Post y Q c) : Post (if b then x else y) Q c := by
  split
  · exact ht ‹_›
  · exact hf ‹_›

end Post

/-! ### Passive runs -/

/-- `x` leaves the shared state to the scheduled steps, whatever it reads there, and ends with `Q`
of its result and the private state. -/
def Passive (env : σ → ε → σ) (x : Prog τ σ ε α) (Q : α → τ → Prop) (p : τ) : Prop :=
  ∀ s sched, ∃ n, (x ⟨p, s, sched⟩).2.shared = envRun env s (sched.take n).flatten ∧
    (x ⟨p, s, sched⟩).2.sched = sched.drop n ∧ Q (x ⟨p, s, sched⟩).1 (x ⟨p, s, sched⟩).2.priv

theorem Passive.pure {a : α} {Q : α → τ → Prop} {p : τ} (h : Q a p) :
    Passive env (Pure.pure a : Prog τ σ ε α) Q p := fun _ _ => ⟨0, rfl, rfl, h⟩

theorem Passive.bind {x : Prog τ σ ε α} {f : α → Prog τ σ ε β} {Q : β → τ → Prop} {p : τ}
    (h : Passive env x (fun a p => Passive env (f a) Q p) p) : Passive env (x >>= f) Q p := by
  intro s sched
  obtain ⟨n, hshared, hsched, hf⟩ := h s sched
  obtain ⟨m, hshared', hsched', hQ⟩ := hf (x ⟨p, s, sched⟩).2.shared (x ⟨p, s, sched⟩).2.sched
  refine ⟨n + m, hshared'.trans ?_, hsched'.trans ?_, hQ⟩
  · rw [hshared, hsched, List.take_add, List.flatten_append]
    exact List.foldl_append.symm
  · rw [hsched, List.drop_drop]

theorem Passive.getPriv {Q : τ → τ → Prop} {p : τ} (h : Q p p) :
    Passive env (Client.getPriv : Prog τ σ ε τ) Q p := fun _ _ => ⟨0, rfl, rfl, h⟩

theorem Passive.update {f : τ → τ} {Q : Unit → τ → Prop} {p : τ} (h : Q () (f p)) :
    Passive env (Client.update f : Prog τ σ ε Unit) Q p := fun _ _ => ⟨0, rfl, rfl, h⟩

/-- A call that only reads. -/
theorem Passive.read {f : σ → α} {Q : α → τ → Prop} {p : τ} (h : ∀ a, Q a p) :
    Passive env (Client.call env (fun s => (s, f s)) : Prog τ σ ε α) Q p := by
  intro s sched
  refine ⟨1, ?_, (List.drop_one).symm, h _⟩
  cases sched with
  | nil => rfl
  | cons l rest => simp [Client.call, envRun]

theorem Passive.ite {b : Prop} [Decidable b] {x y : Prog τ σ ε α} {Q : α → τ → Prop} {p : τ}
    (ht : b → Passive env x Q p) (hf : ¬ b → Passive env y Q p) :
    Passive env (if b then x else y) Q p := by
  split
  · exact ht ‹_›
  · exact hf ‹_›

end Client
