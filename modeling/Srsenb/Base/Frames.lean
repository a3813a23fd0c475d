import Mathlib.Data.List.Chain
import Srsenb.Base.Run

/-! # Items in frames of rows

Items come with a time that wraps at a period. Those of one time share a row, and the next time is
as many rows further on as it is later. A frame has a fixed number of rows, and the time that does
not fit in it starts the next one. -/

namespace Srsenb.Frames

/-- A row of a frame. Frames count from 0, and rows from 1. -/
@[ext] structure Place where
  frame : Nat
  row : Nat
  deriving DecidableEq

def Place.Before (p q : Place) : Prop := p.frame < q.frame ∨ p.frame = q.frame ∧ p.row < q.row

/-- The place `d` rows further on, in a frame of `n` rows. -/
def Place.forward (n d : Nat) (p : Place) : Place :=
  if p.row + d ≤ n then ⟨p.frame, p.row + d⟩ else ⟨p.frame + 1, 1⟩

/-- How items are put in frames. -/
structure Clock (α : Type*) where
  rows : Nat
  period : Nat
  time : α → Int

variable {α : Type*} (c : Clock α)

namespace Clock

def gap (x y : α) : Nat := ((c.time y - c.time x) % c.period).toNat

/-- The place of `x` after the items that have theirs. -/
def next (done : List (Place × α)) (x : α) : Place :=
  match done.getLast? with
  | none => ⟨0, 1⟩
  | some (p, y) => if c.time y = c.time x then p else p.forward c.rows (c.gap y x)

/-- Each item with its place. -/
def placed (xs : List α) : List (Place × α) :=
  xs.foldl (fun done x => done ++ [(c.next done x, x)]) []

/-- A longest run of neighbours of one time. -/
def IsRun (xs run : List α) : Prop :=
  ∃ before after t, xs = before ++ run ++ after ∧ run ≠ [] ∧ (∀ x ∈ run, c.time x = t) ∧
    (∀ x ∈ before.getLast?, c.time x ≠ t) ∧ (∀ x ∈ after.head?, c.time x ≠ t)

/-- All times are inside of the period. -/
def Timed (xs : List α) : Prop := ∀ x ∈ xs, 0 ≤ c.time x ∧ c.time x < c.period

end Clock

/-- The items of a row. -/
def itemsAt (done : List (Place × α)) (p : Place) : List α :=
  (done.filter (·.1 = p)).map (·.2)

/-- The first item of a frame. -/
def first (done : List (Place × α)) (frame : Nat) : Option α := (itemsAt done ⟨frame, 1⟩).head?

variable {c} {xs : List α} {x y : α} {p q r : Place} {done more : List (Place × α)}

theorem Place.Before.trans (h : p.Before q) (h' : q.Before r) : p.Before r := by
  unfold Place.Before at *
  omega

theorem Place.Before.ne (h : p.Before q) : p ≠ q := by
  rintro rfl
  unfold Place.Before at h
  omega

theorem Place.Before.asymm (h : p.Before q) : ¬ q.Before p := by
  unfold Place.Before at *
  omega

theorem Place.eq_or_before (h : ¬ q.Before p) : q = p ∨ p.Before q := by
  rw [Place.ext_iff]
  unfold Place.Before at *
  omega

theorem Place.before_forward {n d : Nat} (hd : 0 < d) : p.Before (p.forward n d) := by
  unfold Place.forward Place.Before
  split_ifs
  · right
    exact ⟨rfl, by simp; omega⟩
  · left
    exact Nat.lt_succ_self p.frame

theorem itemsAt_append : itemsAt (done ++ more) p = itemsAt done p ++ itemsAt more p := by
  simp [itemsAt]

theorem itemsAt_eq_nil (h : ∀ z ∈ done, z.1 ≠ p) : itemsAt done p = [] := by
  rw [itemsAt, List.map_eq_nil_iff, List.filter_eq_nil_iff]
  intro z hz
  simpa using h z hz

theorem mem_itemsAt : x ∈ itemsAt done p ↔ (p, x) ∈ done := by
  simp [itemsAt]

/-- A frame keeps its first item. -/
theorem first_append {j : Nat} (h : first done j = some x) : first (done ++ more) j = some x := by
  unfold first at *
  rw [itemsAt_append, List.head?_append, h, Option.some_or]

namespace Clock

@[simp] theorem placed_nil : c.placed [] = [] := rfl

theorem placed_snoc (xs : List α) (x : α) :
    c.placed (xs ++ [x]) = c.placed xs ++ [(c.next (c.placed xs) x, x)] := by
  simp [placed]

theorem placed_append (xs ys : List α) : ∃ more, c.placed (xs ++ ys) = c.placed xs ++ more := by
  induction ys using List.reverseRecOn with
  | nil => exact ⟨[], by simp⟩
  | append_singleton ys y ih =>
    obtain ⟨more, h⟩ := ih
    refine ⟨more ++ [(c.next (c.placed (xs ++ ys)) y, y)], ?_⟩
    rw [← List.append_assoc, placed_snoc, h, List.append_assoc]

@[simp] theorem map_snd_placed (xs : List α) : (c.placed xs).map (·.2) = xs := by
  induction xs using List.reverseRecOn with
  | nil => rfl
  | append_singleton xs x ih => simp [placed_snoc, ih]

@[simp] theorem length_placed (xs : List α) : (c.placed xs).length = xs.length := by
  have := congrArg List.length (map_snd_placed (c := c) xs)
  rwa [List.length_map] at this

theorem placed_take (xs : List α) (k : Nat) : c.placed (xs.take k) = (c.placed xs).take k := by
  obtain ⟨more, h⟩ := placed_append (c := c) (xs.take k) (xs.drop k)
  rw [List.take_append_drop] at h
  rcases Nat.le_total k xs.length with hk | hk
  · have hlen : (c.placed (xs.take k)).length = k := by
      rw [length_placed, List.length_take, Nat.min_eq_left hk]
    rw [h, List.take_append_of_le_length hlen.ge, List.take_of_length_le hlen.le]
  · rw [List.take_of_length_le hk, List.take_of_length_le (by rwa [length_placed])]

theorem gap_pos (hx : 0 ≤ c.time x ∧ c.time x < c.period) (hy : 0 ≤ c.time y ∧ c.time y < c.period)
    (h : c.time x ≠ c.time y) : 0 < c.gap x y := by
  have hP : (0 : Int) < c.period := by omega
  have hne : (c.time y - c.time x) % c.period ≠ 0 := by
    intro h0
    obtain ⟨k, hk⟩ := Int.dvd_of_emod_eq_zero h0
    have h1 : c.period * k < c.period * 1 := by omega
    have h2 : (c.period : Int) * (-1) < c.period * k := by omega
    have := lt_of_mul_lt_mul_left h1 (by omega)
    have := lt_of_mul_lt_mul_left h2 (by omega)
    have hk0 : k = 0 := by omega
    rw [hk0, Int.mul_zero] at hk
    omega
  have := Int.emod_nonneg (c.time y - c.time x) (by omega : (c.period : Int) ≠ 0)
  unfold gap
  omega

theorem next_snoc (done : List (Place × α)) (p : Place) (y x : α) :
    c.next (done ++ [(p, y)]) x =
      if c.time y = c.time x then p else p.forward c.rows (c.gap y x) := by
  simp [next]

/-- Neighbours share a place, or the second has a later one. -/
def Step (c : Clock α) (a b : Place × α) : Prop :=
  (c.time a.2 = c.time b.2 ∧ a.1 = b.1) ∨ (c.time a.2 ≠ c.time b.2 ∧ a.1.Before b.1)

theorem Timed.left {ys : List α} (h : c.Timed (xs ++ ys)) : c.Timed xs :=
  fun x hx => h x (List.mem_append_left ys hx)

theorem Timed.last (h : c.Timed (xs ++ [x])) : 0 ≤ c.time x ∧ c.time x < c.period :=
  h x (by simp)

theorem placed_chain (h : c.Timed xs) : (c.placed xs).IsChain c.Step := by
  induction xs using List.reverseRecOn with
  | nil => exact .nil
  | append_singleton xs x ih =>
    rw [placed_snoc, List.isChain_append]
    refine ⟨ih h.left, .singleton _, ?_⟩
    rintro ⟨p, y⟩ ha b hb
    rw [Option.mem_def, List.getLast?_eq_some_iff] at ha
    obtain ⟨pre, hpre⟩ := ha
    obtain rfl : (c.next (c.placed xs) x, x) = b := by simpa using hb
    rw [hpre, next_snoc]
    have hy : y ∈ xs := by
      rw [← map_snd_placed (c := c) xs, hpre]
      simp
    unfold Step
    dsimp only
    split_ifs with heq
    · exact .inl ⟨heq, rfl⟩
    · exact .inr ⟨heq, Place.before_forward (gap_pos (h.left y hy) h.last heq)⟩

/-- The later of two items has the same place or a later one. -/
def Upto (a b : Place × α) : Prop := a.1 = b.1 ∨ a.1.Before b.1

instance : Trans (Upto (α := α)) Upto Upto where
  trans := by
    rintro a b d (h | h) (h' | h')
    · exact .inl (h.trans h')
    · exact .inr (h ▸ h')
    · exact .inr (h' ▸ h)
    · exact .inr (h.trans h')

theorem placed_pairwise (h : c.Timed xs) : (c.placed xs).Pairwise Upto := by
  apply List.IsChain.pairwise
  apply (placed_chain h).imp
  rintro a b (⟨-, h⟩ | ⟨-, h⟩)
  · exact .inl h
  · exact .inr h

/-- Items in the order of their places: what comes before a row, the row, and the rest. -/
theorem exists_split (h : done.Pairwise Upto) (p : Place) :
    ∃ before after, done = before ++ done.filter (·.1 = p) ++ after ∧
      (∀ z ∈ before, z.1.Before p) ∧ (∀ z ∈ after, p.Before z.1) := by
  induction done with
  | nil => exact ⟨[], [], by simp⟩
  | cons z done ih =>
    rw [List.pairwise_cons] at h
    obtain ⟨hz, hdone⟩ := h
    obtain ⟨before, after, heq, hbefore, hafter⟩ := ih hdone
    by_cases hp : z.1.Before p
    · refine ⟨z :: before, after, ?_, ?_, hafter⟩
      · rw [List.filter_cons_of_neg (by simpa using hp.ne)]
        simpa using heq
      · exact List.forall_mem_cons.mpr ⟨hp, hbefore⟩
    · -- nothing from `z` on comes before `p`
      have hpz : z.1 = p ∨ p.Before z.1 := Place.eq_or_before hp
      by_cases hzp : z.1 = p
      · have hnil : before = [] := by
          rw [List.eq_nil_iff_forall_not_mem]
          intro w hw
          have hmem : w ∈ done := heq ▸ by simp [hw]
          rcases hz w hmem with h | h
          · exact hp (h ▸ hbefore w hw)
          · exact hp (h.trans (hbefore w hw))
        refine ⟨[], after, ?_, by simp, hafter⟩
        rw [List.filter_cons_of_pos (by simpa using hzp)]
        rw [hnil] at heq
        simpa using heq
      · have hall : ∀ w ∈ z :: done, p.Before w.1 := by
          rw [List.forall_mem_cons]
          refine ⟨hpz.resolve_left hzp, fun w hw => ?_⟩
          rcases hz w hw with h | h
          · exact h ▸ hpz.resolve_left hzp
          · exact (hpz.resolve_left hzp).trans h
        refine ⟨[], z :: done, ?_, by simp, hall⟩
        have : (z :: done).filter (·.1 = p) = [] := by
          rw [List.filter_eq_nil_iff]
          intro w hw
          simpa using (hall w hw).ne.symm
        rw [this]
        rfl

theorem time_of_chain {a : Place × α} (h : (a :: done).IsChain c.Step)
    (hp : ∀ z ∈ a :: done, z.1 = p) : ∀ z ∈ a :: done, c.time z.2 = c.time a.2 := by
  induction done generalizing a with
  | nil => simp
  | cons b done ih =>
    rw [List.isChain_cons_cons] at h
    have hb : c.time b.2 = c.time a.2 := by
      rcases h.1 with h | h
      · exact h.1.symm
      · exact absurd ((hp a (by simp)).trans (hp b (by simp)).symm) h.2.ne
    intro z hz
    rcases List.mem_cons.mp hz with rfl | hz
    · rfl
    · exact (ih h.2 (fun z hz => hp z (List.mem_cons_of_mem a hz)) z hz).trans hb

theorem Step.time_ne {a b : Place × α} (h : c.Step a b) (hne : a.1 ≠ b.1) :
    c.time a.2 ≠ c.time b.2 :=
  h.elim (fun h => absurd h.2 hne) (·.1)

/-- The items of a row are neighbours, and their neighbours have other times. -/
theorem itemsAt_isRun (h : c.Timed xs) (hne : itemsAt (c.placed xs) p ≠ []) :
    c.IsRun xs (itemsAt (c.placed xs) p) := by
  obtain ⟨before, after, heq, hbefore, hafter⟩ := exists_split (placed_pairwise h) p
  have hp : ∀ z ∈ (c.placed xs).filter (·.1 = p), z.1 = p := by simp
  have hxs := map_snd_placed (c := c) xs
  have hchain := placed_chain h
  unfold itemsAt at hne ⊢
  generalize (c.placed xs).filter (·.1 = p) = row at heq hp hne
  rw [heq] at hxs hchain
  rw [List.isChain_append, List.isChain_append] at hchain
  obtain ⟨⟨-, hrow, hfst⟩, -, hlst⟩ := hchain
  obtain ⟨a, row, rfl⟩ := List.exists_cons_of_ne_nil (mt List.map_eq_nil_iff.mpr hne)
  have htime := time_of_chain hrow hp
  refine ⟨before.map (·.2), after.map (·.2), c.time a.2, ?_, hne, ?_, ?_, ?_⟩
  · simpa using hxs.symm
  · rw [List.forall_mem_map]
    exact htime
  · intro x hx
    rw [List.getLast?_map, Option.mem_map] at hx
    obtain ⟨b, hb, rfl⟩ := hx
    have hbp := hbefore b (List.mem_of_getLast? hb)
    exact (hfst b hb a rfl).time_ne (hp a (by simp) ▸ hbp.ne)
  · intro x hx
    rw [List.head?_map, Option.mem_map] at hx
    obtain ⟨b, hb, rfl⟩ := hx
    have hbp := hafter b (List.mem_of_head? hb)
    have hw : (a :: row).getLast (by simp) ∈ a :: row := List.getLast_mem _
    rw [← htime _ hw]
    refine ((hlst _ ?_ b hb).time_ne (hp _ hw ▸ hbp.ne)).symm
    rw [List.getLast?_append_of_ne_nil _ (by simp), List.getLast?_eq_getLast_of_ne_nil]
    rfl

/-- What the places of a list of items are like. The times of a frame count on from its first
item. -/
structure WellPlaced (c : Clock α) (done : List (Place × α)) : Prop where
  row : ∀ z ∈ done, 1 ≤ z.1.row ∧ z.1.row ≤ c.rows
  first : ∀ z ∈ done, ∀ j ≤ z.1.frame, ∃ x, first done j = some x
  time : ∀ z ∈ done, ∀ x, Frames.first done z.1.frame = some x →
    c.time z.2 = (c.time x + ((z.1.row : Int) - 1)) % c.period

theorem WellPlaced.snoc (h : c.WellPlaced done) {z : Place × α}
    (hrow : 1 ≤ z.1.row ∧ z.1.row ≤ c.rows)
    (hfirst : ∀ j ≤ z.1.frame, ∃ x, Frames.first (done ++ [z]) j = some x)
    (htime : ∀ x, Frames.first (done ++ [z]) z.1.frame = some x →
      c.time z.2 = (c.time x + ((z.1.row : Int) - 1)) % c.period) :
    c.WellPlaced (done ++ [z]) := by
  have hmem : ∀ w ∈ done ++ [z], w ∈ done ∨ w = z := by simp
  constructor
  · intro w hw
    rcases hmem w hw with hw | rfl
    · exact h.row w hw
    · exact hrow
  · intro w hw j hj
    rcases hmem w hw with hw | rfl
    · obtain ⟨x, hx⟩ := h.first w hw j hj
      exact ⟨x, first_append hx⟩
    · exact hfirst j hj
  · intro w hw x hx
    rcases hmem w hw with hw | rfl
    · obtain ⟨x', hx'⟩ := h.first w hw _ le_rfl
      rw [first_append hx', Option.some_inj] at hx
      exact hx ▸ h.time w hw x' hx'
    · exact htime x hx

theorem time_forward (hx : 0 ≤ c.time x ∧ c.time x < c.period) {t : Int}
    (hy : c.time y = t % c.period) : c.time x = (t + c.gap y x) % c.period := by
  have hgap : (c.gap y x : Int) = (c.time x - c.time y) % c.period :=
    Int.toNat_of_nonneg (Int.emod_nonneg _ (by omega))
  calc c.time x = (c.time y + (c.time x - c.time y)) % c.period := by
        rw [add_sub_cancel, Int.emod_eq_of_lt hx.1 hx.2]
    _ = (c.time y + c.gap y x) % c.period := by rw [hgap, Int.add_emod_emod]
    _ = (t + c.gap y x) % c.period := by rw [hy, Int.emod_add_emod]

/-- The last place is not before any other. -/
theorem placed_last (h : c.Timed xs) (hdone : c.placed xs = done ++ [(p, y)]) :
    ∀ z ∈ c.placed xs, z.1 = p ∨ z.1.Before p := by
  have hpair := placed_pairwise h
  rw [hdone] at hpair ⊢
  rw [List.pairwise_append] at hpair
  intro z hz
  rcases List.mem_append.mp hz with hz | hz
  · exact hpair.2.2 z hz _ (List.mem_singleton_self _)
  · rw [List.mem_singleton.mp hz]
    exact .inl rfl

/-- The place of the next item: the first row of all, the one of its time, a later one of the
frame, or the first of the next frame. -/
theorem next_cases (h : c.Timed (xs ++ [x])) :
    (c.placed xs = [] ∧ c.next (c.placed xs) x = ⟨0, 1⟩) ∨
    ∃ done p y, c.placed xs = done ++ [(p, y)] ∧ y ∈ xs ∧
      ((c.time y = c.time x ∧ c.next (c.placed xs) x = p) ∨
       (c.time y ≠ c.time x ∧ 0 < c.gap y x ∧
        c.next (c.placed xs) x = p.forward c.rows (c.gap y x))) := by
  rcases List.eq_nil_or_concat (c.placed xs) with hnil | ⟨done, ⟨p, y⟩, hdone⟩
  · left
    rw [hnil]
    exact ⟨rfl, rfl⟩
  · right
    rw [List.concat_eq_append] at hdone
    have hy : y ∈ xs := by
      rw [← map_snd_placed (c := c) xs, hdone]
      simp
    refine ⟨done, p, y, hdone, hy, ?_⟩
    rw [hdone, next_snoc]
    split_ifs with heq
    · exact .inl ⟨heq, rfl⟩
    · exact .inr ⟨heq, gap_pos (h.left y hy) h.last heq, rfl⟩

/-- The first item of a new frame. -/
theorem WellPlaced.newFrame (h : c.WellPlaced done) (hrows : 0 < c.rows) {j : Nat}
    (hfirst : ∀ i < j, ∃ y, Frames.first done i = some y) (hnew : ∀ z ∈ done, z.1 ≠ ⟨j, 1⟩)
    (hx : 0 ≤ c.time x ∧ c.time x < c.period) : c.WellPlaced (done ++ [(⟨j, 1⟩, x)]) := by
  have hj : Frames.first (done ++ [(⟨j, 1⟩, x)]) j = some x := by
    unfold Frames.first
    rw [itemsAt_append, itemsAt_eq_nil hnew]
    simp [itemsAt]
  apply h.snoc
  · exact ⟨le_rfl, hrows⟩
  · intro i hi
    rcases Nat.lt_or_eq_of_le hi with hi | rfl
    · obtain ⟨y, hy⟩ := hfirst i hi
      exact ⟨y, first_append hy⟩
    · exact ⟨x, hj⟩
  · intro y hy
    rw [hj, Option.some_inj] at hy
    simp [← hy, Int.emod_eq_of_lt hx.1 hx.2]

theorem placed_wellPlaced (hrows : 0 < c.rows) (h : c.Timed xs) : c.WellPlaced (c.placed xs) := by
  induction xs using List.reverseRecOn with
  | nil => exact ⟨by simp, by simp, by simp⟩
  | append_singleton xs x ih =>
    have ih := ih h.left
    rw [placed_snoc]
    rcases next_cases h with ⟨hnil, hnext⟩ | ⟨done, p, y, hdone, hy, hnext⟩
    · rw [hnext]
      refine ih.newFrame hrows ?_ ?_ h.last
      · simp
      · simp [hnil]
    have hlast : (p, y) ∈ c.placed xs := by
      rw [hdone]
      simp
    have hfirst : ∀ j ≤ p.frame, ∃ w, Frames.first (c.placed xs) j = some w := ih.first _ hlast
    have hrow : 1 ≤ p.row ∧ p.row ≤ c.rows := ih.row _ hlast
    -- in the frame of the last item, the time is what its first item says
    have hframe : ∀ q, q.frame = p.frame → 1 ≤ q.row ∧ q.row ≤ c.rows →
        (∀ w, Frames.first (c.placed xs) p.frame = some w →
          c.time x = (c.time w + ((q.row : Int) - 1)) % c.period) →
        c.WellPlaced (c.placed xs ++ [(q, x)]) := by
      intro q hq hqrow htime
      refine ih.snoc hqrow (fun j hj => ?_) (fun w hw => ?_)
      · obtain ⟨w, hw⟩ := hfirst j (hq ▸ hj)
        exact ⟨w, first_append hw⟩
      · obtain ⟨w', hw'⟩ := hfirst p.frame le_rfl
        rw [hq, first_append hw', Option.some_inj] at hw
        exact htime w (hw ▸ hw')
    rcases hnext with ⟨heq, hnext⟩ | ⟨-, -, hnext⟩
    · rw [hnext]
      exact hframe p rfl hrow fun w hw => heq ▸ ih.time _ hlast w hw
    · rw [hnext]
      unfold Place.forward
      split_ifs with hfit
      · refine hframe _ rfl ⟨?_, hfit⟩ fun w hw => ?_
        · exact hrow.1.trans (Nat.le_add_right _ _)
        · have := time_forward h.last (ih.time _ hlast w hw)
          rw [this]
          congr 1
          push_cast
          omega
      · refine ih.newFrame hrows (fun i hi => hfirst i (Nat.lt_succ_iff.mp hi)) ?_ h.last
        intro z hz heq
        have hframe : z.1.frame = p.frame + 1 := by rw [heq]
        rcases placed_last h.left hdone z hz with hzp | hzp
        · rw [hzp] at hframe
          omega
        · unfold Place.Before at hzp
          omega

end Clock

end Srsenb.Frames
