import Srsenb.Base.Run
import Srsenb.Base.StdMap

/-! # What an observer sees

States look the same to an observer, or not. An event that does not concern it changes nothing for
it, and one that does leaves what looked the same looking the same. A run is then for the observer
what it is without the events that do not concern it. -/

namespace Srsenb.Run

variable {σ ε : Type*}

/-- What makes a machine opaque to an observer: `I` holds in the states, `C` of the events. -/
structure Unwinds (step : σ → ε → σ) (I : σ → Prop) (C : σ → ε → Prop) (same : σ → σ → Prop)
    (concerns : ε → Bool) : Prop where
  equiv : Equivalence same
  keeps : ∀ s e, I s → C s e → I (step s e)
  hidden : ∀ s e, I s → C s e → concerns e = false → same (step s e) s
  seen : ∀ s t e, I s → I t → C s e → concerns e = true → same s t →
    C t e ∧ same (step s e) (step t e)

variable {step : σ → ε → σ} {I : σ → Prop} {C : σ → ε → Prop} {same : σ → σ → Prop}
  {concerns : ε → Bool}

/-- The events that do not concern the observer can be left out. -/
theorem Unwinds.purge (h : Unwinds step I C same concerns) {es : List ε} :
    ∀ {s t : σ}, I s → I t → same s t → AllSteps step C s es →
      same (exec step s es) (exec step t (es.filter concerns)) := by
  induction es with
  | nil => exact fun _ _ hst _ => hst
  | cons e es ih =>
    intro s t hs ht hst ⟨hC, hrest⟩
    rw [exec_cons]
    cases he : concerns e with
    | false =>
      rw [List.filter_cons_of_neg (by simp [he])]
      exact ih (h.keeps s e hs hC) ht (h.equiv.trans (h.hidden s e hs hC he) hst) hrest
    | true =>
      obtain ⟨hCt, hnext⟩ := h.seen s t e hs ht hC he hst
      rw [List.filter_cons_of_pos he, exec_cons]
      exact ih (h.keeps s e hs hC) (h.keeps t e ht hCt) hnext hrest

/-- Two runs with the same events of concern look the same. -/
theorem Unwinds.same_of_filter (h : Unwinds step I C same concerns) {es es' : List ε} {s t : σ}
    (hs : I s) (ht : I t) (hst : same s t) (hC : AllSteps step C s es)
    (hC' : AllSteps step C t es') (heq : es.filter concerns = es'.filter concerns) :
    same (exec step s es) (exec step t es') := by
  have hpurge := h.purge hs ht hst hC
  rw [heq] at hpurge
  exact h.equiv.trans hpurge (h.equiv.symm (h.purge ht ht (h.equiv.refl t) hC'))

end Srsenb.Run

/-! ## Tables -/

namespace Srsenb.StdMap

variable {β : Type}

/-- A change of the entry of `k`, by what this entry was. -/
structure WorksOn (k : Nat) (f : StdMap β → StdMap β) : Prop where
  other : ∀ m a, a ≠ k → (f m)[a]? = m[a]?
  own : ∀ m m' : StdMap β, m[k]? = m'[k]? → (f m)[k]? = (f m')[k]?

variable {k : Nat}

/-- The table stays, or the entry of `k` is written, by what was there. -/
theorem worksOn_of_get {f : StdMap β → StdMap β}
    (hf : ∀ o : Option β, (∀ m : StdMap β, m[k]? = o → f m = m) ∨
      ∃ v, ∀ m : StdMap β, m[k]? = o → f m = m.insert k v) : WorksOn k f where
  other m a ha := by
    obtain hsame | ⟨v, hv⟩ := hf m[k]?
    · rw [hsame m rfl]
    · rw [hv m rfl, getElem?_insert, if_neg (Ne.symm ha)]
  own m m' h := by
    obtain hsame | ⟨v, hv⟩ := hf m[k]?
    · rw [hsame m rfl, hsame m' h.symm, h]
    · rw [hv m rfl, hv m' h.symm, getElem?_insert, getElem?_insert, if_pos rfl, if_pos rfl]

theorem worksOn_erase (k : Nat) : WorksOn k fun m : StdMap β => m.erase k where
  other m a ha := by simp [Ne.symm ha]
  own m m' h := by simp

theorem worksOn_modify (k : Nat) (f : β → β) : WorksOn k fun m => m.modify k f where
  other m a ha := by simp [Ne.symm ha]
  own m m' h := by simp [h]

theorem worksOn_touch [Inhabited β] (k : Nat) : WorksOn k fun m : StdMap β => m.touch k where
  other m a ha := by rw [getElem?_touch, if_neg (Ne.symm ha)]
  own m m' h := by
    rw [getElem?_touch, getElem?_touch, if_pos rfl, if_pos rfl, sub_eq, sub_eq, h]

theorem worksOn_update [Inhabited β] (k : Nat) (f : β → β) :
    WorksOn k fun m => StdMap.update m k f where
  other m a ha := by rw [getElem?_update, if_neg (Ne.symm ha)]
  own m m' h := by
    rw [getElem?_update, getElem?_update, if_pos rfl, if_pos rfl, sub_eq, sub_eq, h]

theorem WorksOn.comp {f g : StdMap β → StdMap β} (hg : WorksOn k g) (hf : WorksOn k f) :
    WorksOn k fun m => g (f m) where
  other m a ha := by rw [hg.other _ a ha, hf.other m a ha]
  own m m' h := hg.own _ _ (hf.own m m' h)

/-- One of two changes, by the entry. -/
theorem WorksOn.ite {f g : StdMap β → StdMap β} (p : Option β → Bool) (hf : WorksOn k f)
    (hg : WorksOn k g) : WorksOn k fun m => if p m[k]? then f m else g m where
  other m a ha := by
    split_ifs
    · exact hf.other m a ha
    · exact hg.other m a ha
  own m m' h := by
    simp only [h]
    split_ifs
    · exact hf.own m m' h
    · exact hg.own m m' h

theorem worksOn_id (k : Nat) : WorksOn k fun m : StdMap β => m := ⟨fun _ _ _ => rfl, fun _ _ h => h⟩

theorem WorksOn.congr {f : StdMap β → StdMap β} (h : WorksOn k f) {a : Nat} {m m' : StdMap β}
    (ha : m[a]? = m'[a]?) : (f m)[a]? = (f m')[a]? := by
  by_cases heq : a = k
  · subst heq
    exact h.own m m' ha
  · rw [h.other m a heq, h.other m' a heq, ha]

end Srsenb.StdMap
