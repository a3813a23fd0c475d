import Mathlib.Data.List.Rotate
import Mathlib.Data.Nat.ModEq
import Srsenb.Base.StdMap

/-! # Round robin over a map

A loop that starts at some entry and goes on at the first one after the last. -/

namespace Srsenb.StdMap

variable {β σ : Type} {f : σ → Nat → β → σ × β}

/-- The keys that an iterator comes to in `left` rounds, from place `iter` on; the place after the
last one is `end()`. -/
def iterKeys (keys : List Nat) : Nat → Nat → List Nat
  | 0, _ => []
  | left + 1, iter =>
    let iter := if iter = keys.length then 0 else iter
    keys[iter]?.toList ++ iterKeys keys left (iter + 1)

/-- The loop with such an iterator; each round changes a state and its entry. -/
def roundRobin (f : σ → Nat → β → σ × β) (keys : List Nat) : Nat → Nat → σ → StdMap β →
    σ × StdMap β
  | 0, _, s, m => (s, m)
  | left + 1, iter, s, m =>
    let iter := if iter = keys.length then 0 else iter
    let (s, m) := m.visit f keys[iter]?.toList s
    roundRobin f keys left (iter + 1) s m

theorem roundRobin_eq_visit {keys : List Nat} : ∀ (left iter : Nat) (s : σ) (m : StdMap β),
    roundRobin f keys left iter s m = m.visit f (iterKeys keys left iter) s
  | 0, _, _, _ => rfl
  | left + 1, iter, s, m => by
    rw [roundRobin, iterKeys, visit_append]
    exact roundRobin_eq_visit left _ _ _

theorem iterKeys_inside {keys : List Nat} : ∀ {left iter : Nat}, iter + left ≤ keys.length →
    iterKeys keys left iter = (keys.drop iter).take left
  | 0, _, _ => by
    rw [List.take_zero]
    rfl
  | left + 1, iter, h => by
    have hlt : iter < keys.length := by omega
    rw [iterKeys]
    simp only [if_neg hlt.ne]
    rw [iterKeys_inside (by omega), List.getElem?_eq_getElem hlt, List.drop_eq_getElem_cons hlt,
      List.take_succ_cons]
    rfl

theorem iterKeys_wrap {keys : List Nat} {left : Nat} :
    iterKeys keys left keys.length = iterKeys keys left 0 := by
  cases left with
  | zero => rfl
  | succ left =>
    rw [iterKeys, iterKeys]
    simp only [if_true, ite_self]

theorem iterKeys_append {keys : List Nat} {left : Nat} : ∀ {rest iter : Nat},
    iter + rest = keys.length →
    iterKeys keys (rest + left) iter = keys.drop iter ++ iterKeys keys left keys.length
  | 0, iter, h => by
    obtain rfl : iter = keys.length := by omega
    rw [List.drop_length, Nat.zero_add, List.nil_append]
  | rest + 1, iter, h => by
    have hlt : iter < keys.length := by omega
    rw [Nat.add_right_comm, iterKeys]
    simp only [if_neg hlt.ne]
    rw [iterKeys_append (by omega), List.getElem?_eq_getElem hlt, List.drop_eq_getElem_cons hlt]
    rfl

/-- As many rounds as there are entries come to each of them. -/
theorem iterKeys_eq_rotate {keys : List Nat} {iter : Nat} (h : iter ≤ keys.length) :
    iterKeys keys keys.length iter = keys.rotate iter := by
  have hsplit : keys.length - iter + iter = keys.length := by omega
  conv_lhs => rw [← hsplit]
  rw [iterKeys_append (by omega), iterKeys_wrap, iterKeys_inside (by omega), List.drop_zero,
    List.rotate_eq_drop_append_take h]

theorem size_eq_length_keys (m : StdMap β) : m.size = m.keys.length :=
  Std.ExtTreeMap.length_keys.symm

/-! ## What a loop calls -/

/-- The round `f` with a record of the entries that it calls a function for. -/
def logged (f : σ → Nat → β → σ × β) (calls : β → Bool) :
    σ × List Nat → Nat → β → (σ × List Nat) × β :=
  fun (s, log) k b => (((f s k b).1, if calls b then log ++ [k] else log), (f s k b).2)

/-- The record changes nothing else, and has each entry of the list with `calls` once. -/
theorem visit_logged {calls : β → Bool} : ∀ {ks : List Nat}, ks.Nodup →
    ∀ (s : σ) (log : List Nat) (m : StdMap β),
    m.visit (logged f calls) ks (s, log) =
      (((m.visit f ks s).1, log ++ ks.filter fun k => m[k]?.any calls), (m.visit f ks s).2)
  | [], _, s, log, m => by simp [visit]
  | k :: ks, hnd, s, log, m => by
    obtain ⟨hk, hnd'⟩ := List.nodup_cons.mp hnd
    cases hm : m[k]? with
    | none =>
      rw [visit, hm, visit, hm]
      simp only
      rw [visit_logged hnd', List.filter_cons_of_neg (by simp [hm])]
    | some b =>
      have hrest : (ks.filter fun l => (m.insert k (f s k b).2)[l]?.any calls) =
          ks.filter fun l => m[l]?.any calls := by
        refine List.filter_congr fun l hl => ?_
        rw [getElem?_insert, if_neg]
        rintro rfl
        exact hk hl
      rw [visit_cons hm, visit_cons hm]
      simp only [logged]
      rw [visit_logged hnd', hrest, List.filter_cons]
      cases hc : calls b <;> simp [hm, hc]

/-! ## Fairness -/

/-- Of `n` starts in a row, just one is at place `j`. -/
theorem existsUnique_start {n j : Nat} (hj : j < n) (c : Nat) : ∃! i, i < n ∧ (c + i) % n = j := by
  have hc := Nat.mod_lt c (Nat.zero_lt_of_lt hj)
  have hstart : (c + (j + n - c % n) % n) % n = j := by
    have hdiv := Nat.div_add_mod c n
    have hsum : c + (j + n - c % n) = j + n * (c / n + 1) := by
      rw [Nat.mul_add_one]
      omega
    rw [Nat.add_mod_mod, hsum, Nat.add_mul_mod_self_left, Nat.mod_eq_of_lt hj]
  refine ⟨(j + n - c % n) % n, ⟨Nat.mod_lt _ (by omega), hstart⟩, ?_⟩
  rintro i ⟨hi, hij⟩
  have hmod : c + i ≡ c + (j + n - c % n) % n [MOD n] := hij.trans hstart.symm
  exact (Nat.ModEq.add_left_cancel' c hmod).eq_of_lt_of_lt hi (Nat.mod_lt _ (by omega))

end Srsenb.StdMap
