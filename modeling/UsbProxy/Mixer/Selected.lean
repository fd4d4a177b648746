import UsbProxy.Mixer.Masks

/-!
# The selected endpoint

As long as no layout change reaches it, the selected endpoint stays selected and goes through local
steps.  The tail of its queue, the masks of the newest item or else the committed ones, is what the
host will see once the queue is drained: only the server changes it.
-/

namespace UsbProxy

namespace Endpoint

/-- The masks of the newest item of a queue, or those of the last write. -/
def tailOf (masks : Mask × Mask) (queue : List SyntheticItem) : Mask × Mask :=
  (queue.getLast?.map fun item => (item.persistent, item.scheduled)).getD masks

def tail (e : Endpoint) : Mask × Mask := tailOf e.masks e.synthetic

variable {masks : Mask × Mask} {queue : List SyntheticItem} {item : SyntheticItem}

@[simp] theorem tailOf_nil : tailOf masks [] = masks := rfl

@[simp] theorem tailOf_append (item : SyntheticItem) :
    tailOf masks (queue ++ [item]) = (item.persistent, item.scheduled) := by
  simp [tailOf]

@[simp] theorem tailOf_cons_cons (i j : SyntheticItem) :
    tailOf masks (i :: j :: queue) = tailOf masks (j :: queue) := by
  simp [tailOf]

/-- Only the masks of the items matter. -/
theorem tailOf_front {item' : SyntheticItem}
    (h : (item'.persistent, item'.scheduled) = (item.persistent, item.scheduled)) :
    tailOf masks (item' :: queue) = tailOf masks (item :: queue) := by
  cases queue with
  | nil => simpa [tailOf] using h
  | cons => simp

theorem tailOf_of_ne_nil (h : queue ≠ []) (masks' : Mask × Mask) :
    tailOf masks queue = tailOf masks' queue := by
  unfold tailOf
  cases hlast : queue.getLast? with
  | none => exact absurd (List.getLast?_eq_none_iff.mp hlast) h
  | some item => rfl

/-- What stays at the back decides. -/
theorem tailOf_suffix {dropped rest : List SyntheticItem} (hrest : rest ≠ []) :
    tailOf masks (dropped ++ rest) = tailOf masks rest := by
  unfold tailOf
  cases hlast : rest.getLast? with
  | none => exact absurd (List.getLast?_eq_none_iff.mp hlast) hrest
  | some item => simp [List.getLast?_append, hlast]

/-- Items with the committed masks make no difference. -/
theorem tailOf_same (h : ∀ i ∈ queue, (i.persistent, i.scheduled) = masks) :
    tailOf masks queue = masks := by
  unfold tailOf
  cases hlast : queue.getLast? with
  | none => rfl
  | some item => exact h item (List.mem_of_getLast? hlast)

/-- An item `expire_front` drops has the committed masks. -/
theorem droppable_masks {generation next now : ℕ} (h : InOrder generation next masks queue)
    (hi : item ∈ queue) (hdrop : droppable masks.1 masks.2 now item = true) :
    (item.persistent, item.scheduled) = masks := by
  have hboth := item.expire_masks now
  unfold droppable SyntheticItem.needsButtons at hdrop
  simp only [SyntheticItem.expire_buttonsCommitted, Bool.and_eq_true, Bool.not_eq_true',
    Bool.and_eq_false_iff, Bool.or_eq_false_iff, bne_eq_false_iff_eq,
    Bool.not_eq_false'] at hdrop
  rcases hdrop.2 with hcommitted | hsame
  · exact (h.settled item hi hcommitted).symm
  · rw [← hboth, hsame.1.1.1, hsame.1.1.2]

theorem dropExpired_tail {generation next : ℕ} (h : InOrder generation next masks queue)
    (now : ℕ) : tailOf masks (dropExpired masks.1 masks.2 now queue) = tailOf masks queue := by
  obtain ⟨dropped, rest, rfl, hdrop, hrest⟩ := dropExpired_spec masks.1 masks.2 now queue
  rcases hrest with ⟨rfl, hnil⟩ | ⟨item, tail, rfl, hfront⟩
  · rw [hnil, List.append_nil, tailOf_nil]
    rw [List.append_nil] at h
    exact (tailOf_same fun i hi => droppable_masks h hi (hdrop i hi)).symm
  · rw [hfront, tailOf_suffix (List.cons_ne_nil _ _)]
    exact tailOf_front (item.expire_masks now)

/-- Once the front is written its masks are the committed ones. -/
theorem dropFinished_tail {rest : List SyntheticItem} (hfresh : ∀ i ∈ rest, i.buttonsCommitted = false)
    (hmasks : masks = (item.persistent, item.scheduled)) (masks' : Mask × Mask) :
    tailOf masks (dropFinished (item :: rest)) = tailOf masks' (item :: rest) := by
  have hstop : dropFinished rest = rest := by
    cases rest with
    | nil => rfl
    | cons j rest =>
      have hj := hfresh j List.mem_cons_self
      simp [dropFinished, SyntheticItem.finished, hj]
  unfold dropFinished
  split
  · rw [hstop]
    cases rest with
    | nil => simp [tailOf, hmasks]
    | cons j rest =>
      rw [tailOf_cons_cons]
      exact tailOf_of_ne_nil (List.cons_ne_nil _ _) _
  · exact tailOf_of_ne_nil (List.cons_ne_nil _ _) _

end Endpoint

namespace World

variable {w : World} {a : ℕ} {e e' : Endpoint}

/-- A step of another thread leaves the tail of a queue as it is, and an empty queue empty. -/
theorem LocalStep.tail {x : EnvStep} {writer : Option Taken} (hw : w.Sound)
    (he : w.endpoints a = some e) (h : LocalStep w a e (.thread x) e' writer) :
    e'.tail = e.tail ∧ (e.synthetic = [] → e'.synthetic = []) := by
  have hsound := (hw.site a).sound e he
  generalize hx : MixerStep.thread x = y at h
  cases h with
  | enqueue | clear => cases hx
  | quiet y e' hcore =>
    obtain ⟨hmasks, -, -, hqueue⟩ := masks_of_core hcore
    exact ⟨by rw [Endpoint.tail, hmasks, hqueue, Endpoint.tail], fun h => hqueue.trans h⟩
  | take hnone =>
    have hspec := Endpoint.take_spec w.clock (w.ports a).dataQueue (hsound.idle hnone)
    have hqueue : (e.take w.clock (w.ports a).dataQueue).1.synthetic =
        Endpoint.dropExpired e.masks.1 e.masks.2 w.clock e.synthetic := by
      generalize e.take w.clock (w.ports a).dataQueue = r at hspec
      generalize (w.ports a).dataQueue = queue at hspec
      cases hspec <;> rfl
    refine ⟨?_, fun hnil => ?_⟩
    · rw [Endpoint.tail, take_masks, hqueue, Endpoint.dropExpired_tail hsound.order, Endpoint.tail]
    · rw [hqueue, hnil, Endpoint.dropExpired]
  | written taken success hwriter =>
    have hlink := hsound.link
    rw [hwriter] at hlink
    have hphysical (b : Bool) : (e.notePhysical taken.io b).tail = e.tail ∧
        (e.notePhysical taken.io b).synthetic = e.synthetic := by
      obtain ⟨hmasks, -, -, hqueue⟩ := masks_of_core (Endpoint.notePhysical_core e taken.io b).1
      exact ⟨by rw [Endpoint.tail, hmasks, hqueue, Endpoint.tail], hqueue⟩
    have hspec := e.notify_spec taken.io w.clock success
    generalize e.notify taken.io w.clock success = r at hspec
    cases hspec with
    | foreign => exact ⟨rfl, id⟩
    | kept => exact ⟨(hphysical success).1, fun h => (hphysical success).2.trans h⟩
    | failed => exact ⟨(hphysical false).1, fun h => (hphysical false).2.trans h⟩
    | written item rest hqueue hcommits =>
      rw [Endpoint.notePhysical_commits] at hcommits
      obtain ⟨-, item', rest', hqueue', hcarries⟩ := hlink.of_commits hcommits
      rw [hqueue] at hqueue'
      cases hqueue'
      have hmasks : (taken.io.persistentButtons, taken.io.scheduledButtons) =
          (item.persistent, item.scheduled) :=
        congrArg (fun l : Label => (l.persistent, l.scheduled)) hcarries.label
      have hfresh : ∀ i ∈ rest, i.buttonsCommitted = false := by
        have := hsound.order.fresh
        rwa [hqueue] at this
      refine ⟨?_, fun hnil => by rw [hnil] at hqueue; cases hqueue⟩
      have hitem : (taken.io.persistentButtons, taken.io.scheduledButtons) =
          ((Endpoint.writtenItem item taken.io).persistent,
            (Endpoint.writtenItem item taken.io).scheduled) := hmasks
      have hwritten := Endpoint.dropFinished_tail hfresh hitem e.masks
      rw [Endpoint.tail, Endpoint.tail, hqueue]
      refine Eq.trans ?_ (hwritten.trans (Endpoint.tailOf_front rfl))
      simp [Endpoint.masks, Endpoint.updatePending, hcarries.applies]

/-- A change of the selected endpoint is noted. -/
theorem noteChange_relaid (hsel : w.selected = some a) (e : Endpoint) (generation : ℕ) :
    .relaid ∈ (w.noteChange a e generation).history := by
  unfold noteChange
  rw [if_pos hsel]
  split <;> simp

theorem invalidateAt_relaid {number b : ℕ} (hsel : w.selected = some a)
    (he : w.endpoints a = some e) (h : .relaid ∉ (invalidateAt number w b).history) :
    (invalidateAt number w b).selected = some a ∧ (invalidateAt number w b).endpoints a = some e := by
  unfold invalidateAt at h ⊢
  split
  · exact ⟨hsel, he⟩
  · rename_i f hf
    rw [hf] at h
    dsimp only at h
    split
    · rename_i hnumber
      rw [if_pos hnumber] at h
      obtain ⟨history, hnote⟩ := noteChange_fields
        ({ w with nextGeneration := w.nextGeneration + 1 }.setEndpoint b
          (f.invalidate (w.nextGeneration + 1))) b f (w.nextGeneration + 1)
      by_cases hab : a = b
      · subst hab
        exact absurd (noteChange_relaid (by exact hsel) f _) h
      · rw [hnote]
        exact ⟨hsel, (Function.update_of_ne hab _ _).trans he⟩
    · exact ⟨hsel, he⟩

theorem invalidateInterface_relaid {number : ℕ} (hsel : w.selected = some a)
    (he : w.endpoints a = some e) (h : .relaid ∉ (w.invalidateInterface number).history) :
    (w.invalidateInterface number).selected = some a ∧
      (w.invalidateInterface number).endpoints a = some e := by
  unfold invalidateInterface at h ⊢
  generalize List.range 256 = l at h ⊢
  induction l generalizing w with
  | nil => exact ⟨hsel, he⟩
  | cons b l ih =>
    rw [List.foldl_cons] at h ⊢
    obtain ⟨marks, hmarks, -⟩ := foldl_invalidateAt_extends number l (invalidateAt number w b)
    have hfirst : .relaid ∉ (invalidateAt number w b).history := fun hmem =>
      h (hmarks ▸ List.mem_append_right marks hmem)
    obtain ⟨hsel', he'⟩ := invalidateAt_relaid hsel he hfirst
    exact ih hsel' he' h

/-- A layout change that does not reach the selected endpoint leaves it selected and as it is. -/
theorem layout_selected (hsel : w.selected = some a) (he : w.endpoints a = some e) {x : EnvStep}
    (hx : x.isLayout = true) (hquiet : .relaid ∉ (w.env x).history) :
    (w.env x).selected = some a ∧ (w.env x).endpoints a = some e := by
  cases x with
  | elapse | seed | physical | push | take | written => cases hx
  | learn number data =>
    rw [env, learnMouseDescriptor] at hquiet ⊢
    dsimp only at hquiet ⊢
    split
    · exact ⟨hsel, he⟩
    · rename_i hboot
      rw [if_neg hboot] at hquiet
      exact invalidateInterface_relaid (by exact hsel) (by exact he) hquiet
  | setProtocol number boot =>
    rw [env, setMouseProtocol] at hquiet ⊢
    generalize hu : World.mk _ _ _ _ _ _ _ _ _ _ _ _ = u at hquiet ⊢
    exact invalidateInterface_relaid (hu ▸ hsel) (hu ▸ he) hquiet
  | register b number epNum pollUs =>
    rw [env] at hquiet ⊢
    split
    · rename_i hb
      rw [if_pos hb, registerMouseEndpoint] at hquiet
      rw [registerMouseEndpoint]
      by_cases hab : a = b
      · subst hab
        rw [he] at hquiet
        exact absurd (noteChange_relaid (by exact hsel) e _) hquiet
      · split
        · exact ⟨hsel, (Function.update_of_ne hab _ _).trans he⟩
        · rename_i old hold
          obtain ⟨history, hnote⟩ := noteChange_fields ({ w with
            nextGeneration := w.nextGeneration + 1
            nextEndpointInstance := w.nextEndpointInstance + 1 }.setEndpoint b {
              info := { epNum, mousePollIntervalUs := if pollUs = 0 then 1000 else pollUs }
              interfaceNumber := number, generation := w.nextGeneration + 1
              inst := w.nextEndpointInstance + 1 }) b old (w.nextGeneration + 1)
          rw [hnote]
          exact ⟨hsel, (Function.update_of_ne hab _ _).trans he⟩
    · exact ⟨hsel, he⟩
  | unregister b =>
    rw [env, unregisterMouseEndpoint] at hquiet ⊢
    by_cases hab : a = b
    · subst hab
      rw [he] at hquiet
      exact absurd (noteChange_relaid hsel e _) hquiet
    · have hother : (if w.selected = some b then none else w.selected) = some a := by
        rw [hsel, if_neg (fun h => hab (Option.some.inj h))]
      dsimp only
      split
      · exact ⟨hother, he⟩
      · exact ⟨hother, (Function.update_of_ne hab _ _).trans he⟩

/-- **Without a layout change of the selected endpoint** a step of another thread is a local step
at it. -/
theorem env_selected (hw : w.Sound) (hsel : w.selected = some a) (he : w.endpoints a = some e)
    {x : EnvStep} (hquiet : .relaid ∉ (w.env x).history) :
    (w.env x).selected = some a ∧ ∃ e', (w.env x).endpoints a = some e' ∧
      LocalStep w a e (.thread x) e' ((w.env x).ports a).writer := by
  by_cases hx : x.isLayout = true
  · obtain ⟨hsel', he'⟩ := layout_selected hsel he hx hquiet
    refine ⟨hsel', e, he', ?_⟩
    rw [(env_layout hw hx).1]
    exact .thread rfl (fun h => by rw [h] at hx; cases hx) fun _ h => by rw [h] at hx; cases hx
  · obtain ⟨e', he', hlocal, hsel', -⟩ := env_local he (Bool.not_eq_true _ ▸ hx)
    exact ⟨hsel' hsel, e', he', hlocal⟩

/-- As long as no endpoint is selected none has anything synthetic. -/
theorem env_unselected (hw : w.Sound) (hsel : w.selected = none) {x : EnvStep}
    (he' : (w.env x).endpoints a = some e') : e'.synthetic = [] ∧ e'.masks = (0, 0) := by
  have hempty {e : Endpoint} (he : w.endpoints a = some e) :
      e.synthetic = [] ∧ e.masks = (0, 0) :=
    ((hw.site a).sound e he).bare (by simp [hsel])
  by_cases hx : x.isLayout = true
  · rcases (env_layout hw hx).2 a e' he' with he | hlatest
    · exact hempty he
    · exact (env_sound hw x).empty he' hlatest
  · obtain ⟨e, he, hlocal⟩ := mix_endpoint (x := .thread x) he' (Bool.not_eq_true _ ▸ hx)
    obtain ⟨hqueue, hmasks⟩ := hempty he
    obtain ⟨htail, hnil⟩ := hlocal.tail hw he
    refine ⟨hnil hqueue, ?_⟩
    rwa [Endpoint.tail, hnil hqueue, Endpoint.tailOf_nil, Endpoint.tail, hqueue,
      Endpoint.tailOf_nil, hmasks] at htail

end World

end UsbProxy
