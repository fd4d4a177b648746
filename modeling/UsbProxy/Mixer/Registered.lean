import UsbProxy.Mixer.Detached
import UsbProxy.Mixer.Intact

/-!
# Where the mixer has endpoints

Which addresses the mixer has an endpoint at, and for which a writer holds a report; and the
properties of the mixer that bringing endpoints up and down keeps, or every step without a physical
report.
-/

namespace UsbProxy

open Bits

/-- The step is one of bringing an endpoint up or down. -/
def EnvStep.isSetUp : EnvStep → Bool
  | .learn .. | .setProtocol .. | .register .. | .unregister .. | .seed .. | .written .. => true
  | _ => false

/-- A property of the mixer that these steps keep. -/
def World.Steady (P : World → Prop) : Prop := ∀ w x, x.isSetUp = true → P w → P (w.env x)

/-- A property of the mixer that steps without a physical report keep. -/
def World.Lasting (P : World → Prop) : Prop :=
  ∀ w x, x.isPhysical = false → P w → P (w.mix x)

theorem World.Lasting.steady {P : World → Prop} (hP : World.Lasting P) : World.Steady P := by
  intro w x hx h
  refine hP w (.thread x) ?_ h
  cases x with
  | learn | setProtocol | register | unregister | seed | written => rfl
  | physical | push | take | elapse => cases hx

theorem World.lasting_mixed : World.Lasting World.Mixed := fun _ x _ h => h.mix x

theorem World.lasting_detached : World.Lasting World.Detached := fun _ _ hx h => h.mix hx

/-- The mixer has an endpoint at the address. -/
def World.registered (w : World) (a : ℕ) : Bool := (w.endpoints a).isSome

/-- A writer holds a report for the address. -/
def World.busy (w : World) (a : ℕ) : Bool := (w.ports a).writer.isSome

namespace World

variable {w : World} {a : ℕ}

theorem noteChange_endpoints (w : World) (a : ℕ) (e : Endpoint) (g : ℕ) :
    (w.noteChange a e g).endpoints = w.endpoints := by
  obtain ⟨history, hnote⟩ := noteChange_fields w a e g
  rw [hnote]

theorem registered_setEndpoint (b : ℕ) (e : Endpoint) :
    (w.setEndpoint b e).registered a = (a == b || w.registered a) := by
  rw [registered, setEndpoint_endpoints]
  by_cases h : a = b
  · rw [if_pos h, h]
    simp
  · rw [if_neg h, registered, beq_false_of_ne h, Bool.false_or]

theorem registered_invalidateInterface (w : World) (number : ℕ) :
    (w.invalidateInterface number).registered a = w.registered a := by
  unfold invalidateInterface
  generalize List.range 256 = l
  induction l generalizing w with
  | nil => rfl
  | cons b l ih =>
    rw [List.foldl_cons, ih]
    unfold invalidateAt
    split
    · rfl
    · rename_i e he
      split
      · dsimp only
        rw [registered, noteChange_endpoints, ← registered, registered_setEndpoint]
        by_cases h : a = b
        · rw [h]
          simp [registered, he]
        · rw [beq_false_of_ne h, Bool.false_or]
          rfl
      · rfl

/-- Only registering and unregistering change where the endpoints are. -/
theorem registered_mix {x : MixerStep} (hregister : ∀ b n e p, x ≠ .thread (.register b n e p))
    (hunregister : ∀ b, x ≠ .thread (.unregister b)) : (w.mix x).registered a = w.registered a := by
  by_cases hx : x.isLayout = true
  · cases x with
    | enqueue | clear | takeEvents | takeOverflow | record => cases hx
    | thread x =>
      cases x with
      | learn number data =>
        simp only [mix, env, learnMouseDescriptor]
        split
        · rfl
        · rw [registered_invalidateInterface]
          rfl
      | setProtocol number boot =>
        simp only [mix, env, setMouseProtocol]
        rw [registered_invalidateInterface]
        rfl
      | register b n e p => exact absurd rfl (hregister b n e p)
      | unregister b => exact absurd rfl (hunregister b)
      | elapse | seed | physical | push | take | written => cases hx
  · rw [Bool.not_eq_true] at hx
    unfold registered
    cases he : w.endpoints a with
    | none => rw [mix_unregistered he hx]
    | some e =>
      obtain ⟨e', he', -⟩ := mix_local he hx
      rw [he']
      rfl

theorem registered_register {b number epNum pollUs : ℕ} (hb : b < 256) :
    (w.env (.register b number epNum pollUs)).registered a = (a == b || w.registered a) := by
  simp only [env, registerMouseEndpoint, if_pos hb]
  split
  · exact registered_setEndpoint b _
  · rw [registered, noteChange_endpoints]
    exact registered_setEndpoint b _

theorem registered_unregister (b : ℕ) :
    (w.env (.unregister b)).registered a = (a != b && w.registered a) := by
  simp only [env, unregisterMouseEndpoint]
  split
  · rename_i hb
    by_cases h : a = b
    · simp [registered, h, hb]
    · rw [registered, bne_iff_ne.mpr h, Bool.true_and]
      rfl
  · rename_i e he
    by_cases h : a = b
    · simp [registered, h]
    · rw [bne_iff_ne.mpr h, Bool.true_and]
      show (Function.update w.endpoints b none a).isSome = w.registered a
      rw [Function.update_of_ne h]
      rfl

/-- A writer gets a report only by taking one. -/
theorem busy_mix {x : MixerStep} (hx : x ≠ .thread (.take a)) (h : (w.mix x).busy a = true) :
    w.busy a = true := by
  have hport := w.mix_ports x a
  unfold busy at h ⊢
  generalize (w.mix x).ports a = p at hport h
  cases hport with
  | same => exact h
  | read => exact h
  | pushed => exact h
  | taken => exact absurd rfl hx
  | written => cases h

theorem busy_written (success : Bool) : (w.env (.written a success)).busy a = false := by
  by_contra hbusy
  rw [Bool.not_eq_false] at hbusy
  have hport := w.mix_ports (.thread (.written a success)) a
  have hbusy : ((w.mix (.thread (.written a success))).ports a).writer.isSome = true := hbusy
  generalize (w.mix (.thread (.written a success))).ports a = p at hport hbusy
  cases hport with
  | same _ hwritten =>
    rw [hwritten success rfl] at hbusy
    cases hbusy
  | written => cases hbusy

end World

end UsbProxy
