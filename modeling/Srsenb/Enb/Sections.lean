import Srsenb.Enb.ListFields

/-! # What `section::parse` makes of a configuration file

A setting is seen through libconfig only, so the trees of settings are as they come. -/

namespace Srsenb.Enb

variable {S D V : Type} (lib : LibConfig S)

/-- The induction over a tree of sections. -/
@[elab_as_elim, induction_eliminator]
theorem Section.ind {motive : Section S D → Prop}
    (mk : ∀ name enabled fields subs, (∀ sub ∈ subs, motive sub) →
      motive (.mk name enabled fields subs)) (sec : Section S D) : motive sec :=
  @Section.rec S D motive (fun subs => ∀ sub ∈ subs, motive sub) mk
    (List.forall_mem_nil motive) (fun _ _ h hs => List.forall_mem_cons.2 ⟨h, hs⟩) sec

/-! ## What the file says -/

/-- Present and valid, or optional and absent. -/
def Field.Ok : Field S D → S → Prop
  | .std name enabled read, root =>
    if lib.has root name then (read root).isSome = true else enabled.isSome = true
  | .custom f, root => f.outcome root = .ok ()

/-- As `Field.Ok`, and every field and section below a present section is so too. -/
def Section.Ok : Section S D → S → Prop
  | .mk name enabled fields subs, root =>
    match lib.member root name with
    | .ok s => (∀ f ∈ fields, f.Ok lib s) ∧ ∀ sub ∈ subs, sub.Ok s
    | .error _ => enabled.isSome = true

/-- Each section of the tree has a field or a subsection. -/
def Section.NonEmpty : Section S D → Prop
  | .mk _ _ fields subs => (fields ≠ [] ∨ subs ≠ []) ∧ ∀ sub ∈ subs, sub.NonEmpty

/-- The optional setting whose flag is at `p`: whether it is there, or `none` below an absent
section. -/
def Field.HasFlag : Field S D → Option S → Nat → Option Bool → Prop
  | .std name enabled _, ctx, p, b => enabled = some p ∧ b = ctx.map (lib.has · name)
  | .custom _, _, _, _ => False

@[inherit_doc Field.HasFlag]
def Section.HasFlag : Section S D → Option S → Nat → Option Bool → Prop
  | .mk name enabled fields subs, ctx, p, b =>
    (enabled = some p ∧ b = ctx.map (lib.has · name)) ∨
      (∃ f ∈ fields, f.HasFlag lib (ctx.bind fun root => (lib.member root name).toOption) p b) ∨
      ∃ (sub : Section S D) (_ : sub ∈ subs),
        sub.HasFlag (ctx.bind fun root => (lib.member root name).toOption) p b

/-! ## What may hide it -/

/-- No section is looked up in a setting that is not a group. -/
def Section.Grouped : Section S D → S → Prop
  | .mk name _ _ subs, root =>
    lib.member root name ≠ .error .wrongType ∧
      ∀ s, lib.member root name = .ok s → ∀ sub ∈ subs, sub.Grouped s

/-- The first bad field is a custom one that throws `SettingNotFoundException`. -/
def Misses (fields : List (Field S D)) (s : S) : Prop :=
  ∃ pre f post, fields = pre ++ .custom f :: post ∧ (∀ g ∈ pre, g.Ok lib s) ∧
    f.outcome s = .error (.thrown .notFound)

/-- Something is wrong outside of the optional sections that a custom field ends so. -/
def Section.Exposed : Section S D → S → Prop
  | .mk name enabled fields subs, root =>
    match lib.member root name with
    | .ok s => ¬(enabled.isSome = true ∧ Misses lib fields s) ∧
        ((∃ f ∈ fields, ¬f.Ok lib s) ∨ ∃ (sub : Section S D) (_ : sub ∈ subs), sub.Exposed s)
    | .error .notFound => enabled = none
    | .error .wrongType => True

/-- Settings that share a flag are all there or all absent, and where no flag is written it was
false. -/
def Settled (H : Nat → Option Bool → Prop) (flags : Nat → Bool) : Prop :=
  (∀ p b c, H p b → H p c → b.getD false = c.getD false) ∧
    ∀ p, H p none → (∀ b, ¬H p (some b)) → flags p = false

/-! ## Fields -/

variable {lib} {name : String} {root s : S} {st st' : Store D}

theorem Field.parse_ok_iff (f : Field S D) (st : Store D) :
    (f.parse lib s st).2 = .ok () ↔ f.Ok lib s := by
  cases f with
  | std name enabled read =>
    simp only [Field.parse, Field.Ok]
    split_ifs with hhas
    · cases hread : read s <;> simp
    · cases enabled <;> simp
  | custom f =>
    simp only [Field.parse, Field.Ok, ← f.parse_outcome s st.data]
    cases f.parse s st.data <;> simp [Except.map]

theorem Field.parse_notFound_iff (f : Field S D) :
    (f.parse lib s st).2 = .error (.thrown .notFound) ↔
      ∃ c, f = .custom c ∧ c.outcome s = .error (.thrown .notFound) := by
  cases f with
  | std name enabled read =>
    simp only [Field.parse]
    split_ifs with hhas
    · cases hread : read s <;> simp
    · cases enabled <;> simp
  | custom f =>
    simp only [Field.parse, Field.custom.injEq, exists_eq_left', ← f.parse_outcome s st.data]
    cases f.parse s st.data <;> simp [Except.map]

theorem LibConfig.get_ok (h : lib.member root name = .ok s) : lib.get root name = .ok s := by
  rw [get, h]
  rfl

theorem LibConfig.get_error {e : Exn} (h : lib.member root name = .error e) :
    lib.get root name = .error (.thrown e) := by
  rw [get, h]
  rfl

theorem andThen_ok_iff (r : Store D × Except Stop Unit)
    (next : Store D → Store D × Except Stop Unit) :
    (andThen r next).2 = .ok () ↔ r.2 = .ok () ∧ (next r.1).2 = .ok () := by
  rcases r with ⟨st, _ | _⟩ <;> simp [andThen]

theorem andThen_error_iff {e : Stop} (r : Store D × Except Stop Unit)
    (next : Store D → Store D × Except Stop Unit) :
    (andThen r next).2 = .error e ↔
      r.2 = .error e ∨ r.2 = .ok () ∧ (next r.1).2 = .error e := by
  rcases r with ⟨st, _ | _⟩ <;> simp [andThen]

theorem parseFields_cons (f : Field S D) (fs : List (Field S D))
    (hs : lib.member root name = .ok s) : parseFields lib name root (f :: fs) st =
      andThen (f.parse lib s st) (parseFields lib name root fs) := by
  simp only [parseFields, LibConfig.get_ok hs]

theorem parseFields_ok_iff (fs : List (Field S D)) (st : Store D)
    (hs : lib.member root name = .ok s) :
    (parseFields lib name root fs st).2 = .ok () ↔ ∀ f ∈ fs, f.Ok lib s := by
  induction fs generalizing st with
  | nil => simp [parseFields]
  | cons f fs ih =>
    rw [parseFields_cons f fs hs, andThen_ok_iff, f.parse_ok_iff, ih, List.forall_mem_cons]

theorem misses_cons_iff (f : Field S D) (fs : List (Field S D)) :
    Misses lib (f :: fs) s ↔
      (∃ c, f = .custom c ∧ c.outcome s = .error (.thrown .notFound)) ∨
        f.Ok lib s ∧ Misses lib fs s := by
  constructor
  · rintro ⟨_ | ⟨g, pre⟩, c, post, heq, hpre, hc⟩
    · exact .inl ⟨c, (List.cons.inj heq).1, hc⟩
    · rw [List.cons_append] at heq
      obtain ⟨rfl, htail⟩ := List.cons.inj heq
      obtain ⟨hg, hpre⟩ := List.forall_mem_cons.1 hpre
      exact .inr ⟨hg, pre, c, post, htail, hpre, hc⟩
  · rintro (⟨c, rfl, hc⟩ | ⟨hf, pre, c, post, rfl, hpre, hc⟩)
    · exact ⟨[], c, fs, rfl, List.forall_mem_nil _, hc⟩
    · exact ⟨f :: pre, c, post, rfl, List.forall_mem_cons.2 ⟨hf, hpre⟩, hc⟩

theorem parseFields_notFound_iff (fs : List (Field S D)) (hs : lib.member root name = .ok s) :
    (parseFields lib name root fs st).2 = .error (.thrown .notFound) ↔ Misses lib fs s := by
  induction fs generalizing st with
  | nil => simp [parseFields, Misses]
  | cons f fs ih =>
    rw [parseFields_cons f fs hs, andThen_error_iff, f.parse_notFound_iff, f.parse_ok_iff, ih,
      misses_cons_iff]

theorem parseFields_absent {e : Exn} {fs : List (Field S D)} (hfs : fs ≠ [])
    (he : lib.member root name = .error e) :
    parseFields lib name root fs st = (st, .error (.thrown e)) := by
  cases fs with
  | nil => exact absurd rfl hfs
  | cons f fs => simp only [parseFields, LibConfig.get_error he]

/-! ## Sections -/

theorem catchNotFound_ok_iff (enabled : Option Nat) (r : Store D × Except Stop Unit) :
    (catchNotFound enabled r).2 = .ok () ↔
      r.2 = .ok () ∨ enabled.isSome = true ∧ r.2 = .error (.thrown .notFound) := by
  obtain ⟨st, ((_ | _ | _) | _)⟩ := r <;> cases enabled <;> simp [catchNotFound]

theorem catchNotFound_ne_notFound (enabled : Option Nat) (r : Store D × Except Stop Unit) :
    (catchNotFound enabled r).2 ≠ .error (.thrown .notFound) := by
  obtain ⟨st, ((_ | _ | _) | _)⟩ := r <;> cases enabled <;> simp [catchNotFound]

theorem parseSections_cons (sec : Section S D) (ss : List (Section S D))
    (hs : lib.member root name = .ok s) : parseSections lib name root (sec :: ss) st =
      andThen (sec.parse lib s st) (parseSections lib name root ss) := by
  simp only [parseSections, LibConfig.get_ok hs]

theorem parseSections_ok_iff {ss : List (Section S D)} (st : Store D)
    (hs : lib.member root name = .ok s)
    (ih : ∀ sec ∈ ss, ∀ st : Store D, (sec.parse lib s st).2 = .ok () ↔ ¬sec.Exposed lib s) :
    (parseSections lib name root ss st).2 = .ok () ↔ ∀ sec ∈ ss, ¬sec.Exposed lib s := by
  induction ss generalizing st with
  | nil => simp [parseSections]
  | cons sec ss ih' =>
    obtain ⟨hsec, hss⟩ := List.forall_mem_cons.1 ih
    rw [parseSections_cons sec ss hs, andThen_ok_iff, hsec, ih' _ hss, List.forall_mem_cons]

/-- The exception of an absent setting does not leave a section. -/
theorem parseSections_ne_notFound (ss : List (Section S D)) (hs : lib.member root name = .ok s) :
    (parseSections lib name root ss st).2 ≠ .error (.thrown .notFound) := by
  induction ss generalizing st with
  | nil => simp [parseSections]
  | cons sec ss ih =>
    obtain ⟨name, enabled, fields, subs⟩ := sec
    rw [parseSections_cons _ ss hs, Ne, andThen_error_iff, Section.parse]
    rintro (h | ⟨-, h⟩)
    · exact catchNotFound_ne_notFound _ _ h
    · exact ih h

theorem parseSections_absent {e : Exn} {ss : List (Section S D)} (hss : ss ≠ [])
    (he : lib.member root name = .error e) :
    parseSections lib name root ss st = (st, .error (.thrown e)) := by
  cases ss with
  | nil => exact absurd rfl hss
  | cons sec ss => simp only [parseSections, LibConfig.get_error he]

theorem body_absent {e : Exn} {fields : List (Field S D)} {subs : List (Section S D)}
    (hne : fields ≠ [] ∨ subs ≠ []) (he : lib.member root name = .error e) :
    andThen (parseFields lib name root fields st) (parseSections lib name root subs) =
      (st, .error (.thrown e)) := by
  by_cases hfs : fields = []
  · subst hfs
    exact parseSections_absent (hne.resolve_left (by simp)) he
  · rw [parseFields_absent hfs he]
    rfl

/-- `section::parse` returns 0 unless something wrong is in the open. -/
theorem Section.parse_ok_iff {sec : Section S D} (hne : sec.NonEmpty) :
    (sec.parse lib root st).2 = .ok () ↔ ¬sec.Exposed lib root := by
  induction sec generalizing root st with
  | mk name enabled fields subs ih =>
    rw [NonEmpty] at hne
    obtain ⟨hbody, hsubs⟩ := hne
    rw [Section.parse, catchNotFound_ok_iff, Exposed]
    cases hm : lib.member root name with
    | error e => rw [body_absent hbody hm]; cases e <;> cases enabled <;> simp
    | ok s =>
      rw [andThen_ok_iff, andThen_error_iff, parseFields_ok_iff _ _ hm,
        parseSections_ok_iff _ hm fun sub hsub st => ih sub hsub (hsubs sub hsub),
        parseFields_notFound_iff _ hm]
      simp only [parseSections_ne_notFound _ hm, and_false, or_false, exists_prop, not_and_or,
        not_or, not_not, not_exists]
      grind

theorem not_misses {fields : List (Field S D)} (h : ∀ f ∈ fields, f.Ok lib s) :
    ¬Misses lib fields s := by
  rintro ⟨pre, f, post, rfl, -, hf⟩
  have hok : f.outcome s = .ok () := h (.custom f) (by simp)
  rw [hok] at hf
  cases hf

theorem Section.Ok.not_exposed_iff {sec : Section S D} (hok : sec.Ok lib root) :
    ¬sec.Exposed lib root ↔ sec.Grouped lib root := by
  induction sec generalizing root with
  | mk name enabled fields subs ih =>
    rw [Section.Ok] at hok
    rw [Exposed, Grouped]
    cases hm : lib.member root name with
    | error e =>
      simp only [hm] at hok
      cases e <;> simp [Option.isSome_iff_ne_none.1 hok]
    | ok s =>
      simp only [hm] at hok
      obtain ⟨hfields, hsubs⟩ := hok
      have hbad : ¬∃ f ∈ fields, ¬f.Ok lib s := by
        rintro ⟨f, hf, hnot⟩
        exact hnot (hfields f hf)
      simp only [not_misses hfields, hbad, and_false, not_false_eq_true, true_and, false_or,
        not_exists, ne_eq, reduceCtorEq, Except.ok.injEq, forall_eq']
      exact forall₂_congr fun sub hsub => ih sub hsub (hsubs sub hsub)

/-! ## Flags -/

/-- A flag is as the last of the settings in `H` left it, or as it was. -/
def Written (H : Nat → Option Bool → Prop) (flags flags' : Nat → Bool) : Prop :=
  ∀ p, H p (some (flags' p)) ∨ (∀ b, ¬H p (some b)) ∧ flags' p = flags p

theorem Written.refl {H : Nat → Option Bool → Prop} {flags : Nat → Bool}
    (hnone : ∀ p b, ¬H p (some b)) : Written H flags flags :=
  fun p => .inr ⟨hnone p, rfl⟩

theorem Written.update (flags : Nat → Bool) (p : Nat) (b : Bool) :
    Written (fun q c => some p = some q ∧ c = some b) flags (Function.update flags p b) := by
  intro q
  by_cases hq : q = p
  · subst hq
    exact .inl ⟨rfl, by rw [Function.update_self]⟩
  · exact .inr ⟨fun c h => hq (Option.some.inj h.1).symm, Function.update_of_ne hq _ _⟩

theorem Written.trans {H K : Nat → Option Bool → Prop} {f f' f'' : Nat → Bool}
    (h : Written H f f') (h' : Written K f' f'') : Written (fun p b => H p b ∨ K p b) f f'' := by
  intro p
  rcases h' p with hk | ⟨hk, heq⟩
  · exact .inl (.inr hk)
  · rcases h p with hh | ⟨hh, heq'⟩
    · exact .inl (.inl (heq ▸ hh))
    · exact .inr ⟨fun b => not_or.2 ⟨hh b, hk b⟩, heq.trans heq'⟩

theorem Written.congr {H K : Nat → Option Bool → Prop} {f f' : Nat → Bool} (h : Written H f f')
    (hiff : ∀ p b, H p (some b) ↔ K p (some b)) : Written K f f' := by
  intro p
  rcases h p with hh | ⟨hh, heq⟩
  · exact .inl ((hiff p _).1 hh)
  · exact .inr ⟨fun b hk => hh b ((hiff p b).2 hk), heq⟩

theorem Written.settled_iff {H : Nat → Option Bool → Prop} {flags flags' : Nat → Bool}
    (h : Written H flags flags') :
    (∀ p b, H p b → flags' p = b.getD false) ↔ Settled H flags := by
  constructor
  · intro hright
    refine ⟨fun p b c hb hc => (hright p b hb).symm.trans (hright p c hc), fun p hnone hno => ?_⟩
    rcases h p with hsome | ⟨-, heq⟩
    · exact absurd hsome (hno _)
    · exact heq.symm.trans (hright p none hnone)
  · rintro ⟨hagree, hfalse⟩ p b hb
    rcases h p with hsome | ⟨hno, heq⟩
    · exact hagree p _ b hsome hb
    · cases b with
      | none => exact heq.trans (hfalse p hb hno)
      | some b => exact absurd hb (hno b)

theorem Field.written (f : Field S D) (hok : (f.parse lib s st).2 = .ok ()) :
    Written (f.HasFlag lib (some s)) st.flags (f.parse lib s st).1.flags := by
  cases f with
  | std name enabled read =>
    simp only [Field.parse] at hok ⊢
    split_ifs at hok ⊢ with hhas
    · cases hread : read s with
      | none => simp [hread] at hok
      | some set =>
        cases enabled with
        | none => exact Written.refl fun p b h => nomatch h.1
        | some p =>
          exact (Written.update st.flags p true).congr fun q b => by simp [HasFlag, hhas]
    · cases enabled with
      | none => cases hok
      | some p =>
        exact (Written.update st.flags p false).congr fun q b => by simp [HasFlag, hhas]
  | custom f =>
    simp only [Field.parse]
    cases f.parse s st.data with
    | error e => exact Written.refl fun _ _ h => h
    | ok d => exact Written.refl fun _ _ h => h

theorem andThen_ok {r : Store D × Except Stop Unit}
    (next : Store D → Store D × Except Stop Unit) (h : r.2 = .ok ()) :
    andThen r next = next r.1 := by
  rcases r with ⟨st, _ | _⟩
  · cases h
  · rfl

theorem parseFields_written {fs : List (Field S D)} (st : Store D)
    (hs : lib.member root name = .ok s) (hok : ∀ f ∈ fs, f.Ok lib s) :
    Written (fun p b => ∃ f ∈ fs, f.HasFlag lib (some s) p b) st.flags
      (parseFields lib name root fs st).1.flags := by
  induction fs generalizing st with
  | nil => exact Written.refl fun p b ⟨f, hf, _⟩ => nomatch hf
  | cons f fs ih =>
    obtain ⟨hf, hfs⟩ := List.forall_mem_cons.1 hok
    have hparse := (f.parse_ok_iff st).2 hf
    rw [parseFields_cons f fs hs, andThen_ok _ hparse]
    exact ((f.written hparse).trans (ih _ hfs)).congr fun p b => by simp

theorem parseSections_written {ss : List (Section S D)} (hs : lib.member root name = .ok s)
    (hok : ∀ sec ∈ ss, ∀ st : Store D, (sec.parse lib s st).2 = .ok ())
    (ih : ∀ sec ∈ ss, ∀ st : Store D,
      Written (sec.HasFlag lib (some s)) st.flags (sec.parse lib s st).1.flags) :
    Written (fun p b => ∃ sec ∈ ss, sec.HasFlag lib (some s) p b) st.flags
      (parseSections lib name root ss st).1.flags := by
  induction ss generalizing st with
  | nil => exact Written.refl fun p b ⟨f, hf, _⟩ => nomatch hf
  | cons sec ss ih' =>
    obtain ⟨hsec, hss⟩ := List.forall_mem_cons.1 hok
    obtain ⟨hw, hws⟩ := List.forall_mem_cons.1 ih
    rw [parseSections_cons sec ss hs, andThen_ok _ (hsec st)]
    exact ((hw st).trans (ih' hss hws)).congr fun p b => by simp

theorem Field.hasFlag_none {f : Field S D} {p : Nat} {b : Option Bool}
    (h : f.HasFlag lib none p b) : b = none := by
  cases f with
  | std name enabled read => exact h.2
  | custom f => exact h.elim

/-- Below an absent section no flag is written. -/
theorem Section.hasFlag_none {sec : Section S D} {p : Nat} {b : Option Bool}
    (h : sec.HasFlag lib none p b) : b = none := by
  induction sec with
  | mk name enabled fields subs ih =>
    rw [HasFlag] at h
    rcases h with ⟨-, rfl⟩ | ⟨f, -, hf⟩ | ⟨sub, hsub, h⟩
    · rfl
    · exact Field.hasFlag_none hf
    · exact ih sub hsub h

theorem catchNotFound_written (enabled : Option Nat) {r : Store D × Except Stop Unit}
    (hr : r.2 = .ok ()) : Written (fun p b => enabled = some p ∧ b = some true) r.1.flags
      (catchNotFound enabled r).1.flags := by
  obtain ⟨st, _ | _⟩ := r
  · cases hr
  · cases enabled with
    | none => exact Written.refl fun p b h => nomatch h.1
    | some p => exact Written.update st.flags p true

theorem LibConfig.has_eq_false {e : Exn} (h : lib.member root name = .error e) :
    lib.has root name = false := by
  rw [Bool.eq_false_iff, Ne, lib.has_iff]
  rintro ⟨t, ht⟩
  rw [h] at ht
  cases ht

theorem Section.written {sec : Section S D} (hne : sec.NonEmpty) (hok : sec.Ok lib root)
    (hgrouped : sec.Grouped lib root) :
    Written (sec.HasFlag lib (some root)) st.flags (sec.parse lib root st).1.flags := by
  induction sec generalizing root st with
  | mk name enabled fields subs ih =>
    rw [NonEmpty] at hne
    rw [Section.Ok] at hok
    rw [Grouped] at hgrouped
    obtain ⟨hbody, hsubs⟩ := hne
    rw [Section.parse]
    cases hm : lib.member root name with
    | error e =>
      rw [body_absent hbody hm]
      cases e with
      | wrongType => exact absurd hm hgrouped.1
      | notFound =>
        simp only [hm] at hok
        obtain ⟨p, rfl⟩ := Option.isSome_iff_exists.1 hok
        refine (Written.update st.flags p false).congr fun q b => ?_
        simp only [HasFlag, LibConfig.has_eq_false hm, hm, Option.map_some, Option.bind_some,
          Except.toOption]
        constructor
        · exact fun h => .inl h
        · rintro (h | ⟨f, -, hf⟩ | ⟨sub, hsub, h⟩)
          · exact h
          · exact absurd (Field.hasFlag_none hf) (Option.some_ne_none b)
          · exact absurd (hasFlag_none h) (Option.some_ne_none b)
    | ok s =>
      simp only [hm] at hok
      obtain ⟨hfok, hsok⟩ := hok
      have hgroups := hgrouped.2 s hm
      have hparse : ∀ sec ∈ subs, ∀ st : Store D, (sec.parse lib s st).2 = .ok () := fun sec h st =>
        (Section.parse_ok_iff (hsubs sec h)).2 ((hsok sec h).not_exposed_iff.2 (hgroups sec h))
      have hwritten := (parseFields_written st hm hfok).trans
        (parseSections_written hm hparse fun sec h st => ih sec h (hsubs sec h) (hsok sec h)
          (hgroups sec h))
      have hfields := (parseFields_ok_iff fields st hm).2 hfok
      rw [andThen_ok _ hfields]
      have hrest := (parseSections_ok_iff (parseFields lib name root fields st).1 hm
        fun sec h st => Section.parse_ok_iff (hsubs sec h)).2 fun sec h =>
          (hsok sec h).not_exposed_iff.2 (hgroups sec h)
      refine (hwritten.trans (catchNotFound_written enabled hrest)).congr fun p b => ?_
      simp only [HasFlag, hm, Option.map_some, Option.bind_some, Except.toOption, exists_prop,
        (lib.has_iff root name).2 ⟨s, hm⟩]
      exact or_comm

/-! ## The meaning of a section -/

/-- `section::parse` returns 0 on a file that is as the tree asks, and on no other, and has then set
every flag. -/
def Section.Meets (lib : LibConfig S) (sec : Section S D) (root : S) (st : Store D) : Prop :=
  ((sec.parse lib root st).2 = .ok () ↔ sec.Ok lib root) ∧
    ((sec.parse lib root st).2 = .ok () → ∀ p b, sec.HasFlag lib (some root) p b →
      (sec.parse lib root st).1.flags p = b.getD false)

/-- Exceptions that the `catch` takes for an absent section hide what is wrong, those that it does
not know refuse what is right, and flags below an absent section stay as they were. -/
theorem Section.meets_iff {sec : Section S D} (hne : sec.NonEmpty) :
    sec.Meets lib root st ↔
      (sec.Ok lib root ∧ sec.Grouped lib root ∧
        Settled (sec.HasFlag lib (some root)) st.flags) ∨
      (¬sec.Ok lib root ∧ sec.Exposed lib root) := by
  rw [Meets, Section.parse_ok_iff hne]
  by_cases hok : sec.Ok lib root
  · rw [hok.not_exposed_iff]
    simp only [hok, iff_true, true_and, not_true_eq_false, false_and, or_false]
    constructor
    · rintro ⟨hgrouped, hflags⟩
      exact ⟨hgrouped, (written hne hok hgrouped).settled_iff.1 (hflags hgrouped)⟩
    · rintro ⟨hgrouped, hsettled⟩
      exact ⟨hgrouped, fun _ => (written hne hok hgrouped).settled_iff.2 hsettled⟩
  · simp only [hok, iff_false, not_not, false_and, not_false_eq_true, true_and, false_or]
    exact ⟨fun h => h.1, fun h => ⟨h, fun hnot => absurd h hnot⟩⟩

/-- A number of `parse_rr` that is stored by its name. -/
def rrNum [BEq V] (lookup : S → String → Option V) (name : String) (table : List V)
    (enabled : Option Nat) : Field S (String → Option Nat) :=
  fieldEnumNum lookup name (fun k d => Function.update d name (some k)) table enabled

/-- The section `mac_cnfg` of `parse_rr`, with `setup_present`, `max_harq_tx_present` and
`periodic_bsr_timer_present` at 0, 1 and 2. -/
def macCnfg (lib : LibConfig S) (lte : Liblte) : Section S (String → Option Nat) :=
  .mk "mac_cnfg" (some 0)
    [rrNum lib.lookupInt "time_alignment_timer" (lte.num "time_alignment_timer") none]
    [.mk "phr_cnfg" none
      [fieldEnumStr lib "dl_pathloss_change"
          (fun k d => Function.update d "dl_pathloss_change" (some k))
          (lte.text "dl_pathloss_change") none,
        rrNum lib.lookupInt "periodic_phr_timer" (lte.num "periodic_phr_timer") none,
        rrNum lib.lookupInt "prohibit_phr_timer" (lte.num "prohibit_phr_timer") none] [],
      .mk "ulsch_cnfg" none
        [rrNum lib.lookupInt8 "max_harq_tx" (lte.num "max_harq_tx") (some 1),
          rrNum lib.lookupInt "periodic_bsr_timer" (lte.num "periodic_bsr_timer") (some 2),
          rrNum lib.lookupInt "retx_bsr_timer" (lte.num "retransmission_bsr_timer") none] []]

/-- Sizes of srsLTE, and one number in each table. -/
def exampleLte : Liblte := ⟨32, 32, 16, 16, fun _ => [5], fun _ => ["dB3"]⟩

/-- A file with `mac_cnfg`, with `max_harq_tx` and without `periodic_bsr_timer`. -/
def exampleRr : Conf :=
  .group [("mac_cnfg", .group [("time_alignment_timer", .num 5),
    ("phr_cnfg", .group [("dl_pathloss_change", .text "dB3"), ("periodic_phr_timer", .num 5),
      ("prohibit_phr_timer", .num 5)]),
    ("ulsch_cnfg", .group [("max_harq_tx", .num 5), ("retx_bsr_timer", .num 5)])])]

theorem macCnfg_nonEmpty (lib : LibConfig S) (lte : Liblte) : (macCnfg lib lte).NonEmpty := by
  simp [macCnfg, Section.NonEmpty]

theorem exampleRr_hasFlag_iff {p : Nat} {b : Option Bool} :
    (macCnfg Conf.lib exampleLte).HasFlag Conf.lib (some exampleRr) p b ↔
      p = 0 ∧ b = some true ∨ p = 1 ∧ b = some true ∨ p = 2 ∧ b = some false := by
  simp [macCnfg, rrNum, fieldEnumNum, fieldEnumStr, Section.HasFlag, Field.HasFlag, exampleRr,
    Conf.lib, Conf.member, List.lookup_cons, Except.toOption, eq_comm]

theorem meets_exampleRr : (macCnfg Conf.lib exampleLte).Meets Conf.lib exampleRr
    ⟨fun _ => true, fun _ => none⟩ := by
  refine (Section.meets_iff (macCnfg_nonEmpty _ _)).2 (.inl ⟨?_, ?_, ?_, ?_⟩)
  · simp [macCnfg, rrNum, fieldEnumNum, fieldEnumStr, Section.Ok, Field.Ok, exampleRr, Conf.lib,
      Conf.member, Conf.look, List.lookup_cons, exampleLte, Except.toOption, LibConfig.lookupInt8,
      Int.bmod]
  · simp [macCnfg, Section.Grouped, exampleRr, Conf.lib, Conf.member, List.lookup_cons]
  · intro p b c hb hc
    rw [exampleRr_hasFlag_iff] at hb hc
    grind
  · intro p hp
    rw [exampleRr_hasFlag_iff] at hp
    grind

/-- Without `mac_cnfg` the flags below it keep what the stack held. An optional section with a map
but without its `subframe` is taken for absent. A subsection of a number ends the parser. -/
theorem not_section_meets :
    ¬(macCnfg Conf.lib exampleLte).Meets Conf.lib (.group []) ⟨fun p => p == 1, fun _ => none⟩ ∧
      ¬(Section.mk "sched_request_cnfg" (some 0)
        [.custom (sfMapping Conf.lib id fun l _ => l)] []).Meets Conf.lib
        (.group [("sched_request_cnfg", .group [])]) ⟨fun _ => false, {}⟩ ∧
      ¬(Section.mk "ac_barring" none [] [.mk "ac_barring_for_mo_data" (some 0)
        [field (D := Unit) Conf.lib.lookupBool "enabled" (fun _ d => d) none] []]).Meets Conf.lib
        (.group [("ac_barring", .num 5)]) ⟨fun _ => false, ()⟩ := by
  refine ⟨fun h => ?_, fun h => ?_, fun h => ?_⟩
  · have hbelow : (macCnfg Conf.lib exampleLte).HasFlag Conf.lib (some (.group [])) 1 none := by
      simp [macCnfg, rrNum, fieldEnumNum, Section.HasFlag, Field.HasFlag, Conf.lib, Conf.member,
        Except.toOption]
    have hflag := h.2 (by decide) 1 none hbelow
    revert hflag
    decide
  · have hok := h.1.1 (by decide)
    simp [Section.Ok, Field.Ok, Conf.lib, Conf.member, sfMapping, fieldSfMapping, LibConfig.get,
      Except.mapError, bind, Except.bind, Except.map] at hok
  · have hok : (Section.mk "ac_barring" none [] [.mk "ac_barring_for_mo_data" (some 0)
        [field (D := Unit) Conf.lib.lookupBool "enabled" (fun _ d => d) none] []]).Ok Conf.lib
        (.group [("ac_barring", .num 5)]) := by
      simp [Section.Ok, Conf.lib, Conf.member]
    have hparse := h.1.2 hok
    revert hparse
    decide

end Srsenb.Enb
