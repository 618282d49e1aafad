/-!
# Lists

General facts about lists that several modules use: where a member stands, where a list is cut, what
is left of a list when its members are changed or taken out, and lists made by something that may
fail.
-/

namespace HtmlLint

variable {α β ε : Type}

/-! ## Members -/

/-- If a list has one member of a kind, any two members of that kind are the same. -/
theorem eq_of_countP_eq_one {p : α → Bool} {l : List α} (h : l.countP p = 1) {a b : α} (ha : a ∈ l)
    (hpa : p a = true) (hb : b ∈ l) (hpb : p b = true) : a = b := by
  rw [List.countP_eq_length_filter, List.length_eq_one_iff] at h
  obtain ⟨x, hx⟩ := h
  have hax : a ∈ l.filter p := List.mem_filter.mpr ⟨ha, hpa⟩
  have hbx : b ∈ l.filter p := List.mem_filter.mpr ⟨hb, hpb⟩
  rw [hx, List.mem_singleton] at hax hbx
  rw [hax, hbx]

/-- Every member of a list but the last one comes before the last one. -/
theorem eq_or_exists_of_append_singleton {ms before after : List α} {m last : α}
    (h : ms ++ [last] = before ++ m :: after) :
    m = last ∨ ∃ after', after = after' ++ [last] ∧ ms = before ++ m :: after' := by
  obtain rfl | ⟨after', x, rfl⟩ := List.eq_nil_or_concat after
  · left
    simpa using (congrArg List.getLast? h).symm
  · right
    have hsplit : ms ++ [last] = (before ++ m :: after') ++ [x] := by simpa using h
    obtain ⟨hms, hlast⟩ := List.append_inj' hsplit rfl
    cases hlast
    exact ⟨after', List.concat_eq_append, hms⟩

/-! ## Places where a list is cut -/

/-- A list that is cut in two where a property begins to hold is cut at one place only. -/
theorem append_inj_of_cut {p : α → Bool} {a b a' b' : List α} (h : a ++ b = a' ++ b')
    (ha : ∀ x ∈ a, p x = false) (hb : ∀ x ∈ b, p x = true) (ha' : ∀ x ∈ a', p x = false)
    (hb' : ∀ x ∈ b', p x = true) : a = a' ∧ b = b' := by
  have hfirst : ∀ {a b : List α}, (∀ x ∈ a, p x = false) → (∀ x ∈ b, p x = true) →
      (a ++ b).filter p = b ∧ (a ++ b).filter (!p ·) = a := by
    intro a b ha hb
    have hnone : a.filter p = [] := List.filter_eq_nil_iff.mpr fun x hx => by simp [ha x hx]
    have hnone' : b.filter (!p ·) = [] := List.filter_eq_nil_iff.mpr fun x hx => by simp [hb x hx]
    have hall : a.filter (!p ·) = a := List.filter_eq_self.mpr fun x hx => by simp [ha x hx]
    rw [List.filter_append, List.filter_append, hnone, hnone', hall, List.filter_eq_self.mpr hb]
    exact ⟨List.nil_append b, List.append_nil a⟩
  obtain ⟨hb₁, ha₁⟩ := hfirst ha hb
  obtain ⟨hb₂, ha₂⟩ := hfirst ha' hb'
  rw [h] at hb₁ ha₁
  exact ⟨ha₁.symm.trans ha₂, hb₁.symm.trans hb₂⟩

/-- A list can be divided at the first place of a member in one way only. -/
theorem append_cons_inj [BEq α] [LawfulBEq α] {c : α} {a b x y : List α} (ha : c ∉ a) (hb : c ∉ b)
    (h : a ++ c :: x = b ++ c :: y) : a = b ∧ x = y := by
  have hbefore : ∀ {a x : List α}, c ∉ a → (a ++ c :: x).takeWhile (· != c) = a := by
    intro a x ha
    have hne : ∀ d ∈ a, (d != c) = true := fun d hd => bne_iff_ne.mpr fun heq => ha (heq ▸ hd)
    rw [List.takeWhile_append_of_pos hne, List.takeWhile_cons_of_neg (by simp), List.append_nil]
  have hab : a = b := by rw [← hbefore ha, h, hbefore hb]
  subst hab
  exact ⟨rfl, (List.cons.inj (List.append_cancel_left h)).2⟩

/-- Where the first member is taken, something is. -/
theorem takeWhile_ne_nil {p : α → Bool} {c : α} {cs : List α} (h : p c = true) :
    (c :: cs).takeWhile p ≠ [] := by
  rw [List.takeWhile_cons_of_pos h]
  exact List.cons_ne_nil _ _

/-- What comes before a member does not hold it. -/
theorem not_mem_takeWhile_ne [BEq α] [LawfulBEq α] (c : α) (cs : List α) :
    c ∉ cs.takeWhile (· != c) := by
  intro hmem
  have hne := List.all_eq_true.mp List.all_takeWhile c hmem
  simp at hne

/-- A list up to a member, that member, and what comes after it. -/
theorem eq_of_dropWhile_ne [BEq α] [LawfulBEq α] {c x : α} {cs after : List α}
    (h : cs.dropWhile (· != c) = x :: after) : cs = cs.takeWhile (· != c) ++ c :: after := by
  have hstop := List.head?_dropWhile_not (· != c) cs
  rw [h] at hstop
  obtain rfl : x = c := by simpa using hstop
  rw [← h, List.takeWhile_append_dropWhile]

/-- Where a member is not to be dropped, something is left. -/
theorem dropWhile_ne_nil {p : α → Bool} {c : α} {cs : List α} (hc : c ∈ cs) (hp : p c = false) :
    cs.dropWhile p ≠ [] := by
  intro hnil
  have hsplit := List.takeWhile_append_dropWhile (p := p) (l := cs)
  rw [hnil, List.append_nil] at hsplit
  rw [← hsplit] at hc
  have hall := List.all_eq_true.mp List.all_takeWhile c hc
  rw [hp] at hall
  cases hall

/-- Then nothing of what is added at the end is dropped either. -/
theorem dropWhile_append_of_mem {p : α → Bool} {c : α} {cs : List α} (hc : c ∈ cs)
    (hp : p c = false) (later : List α) : (cs ++ later).dropWhile p = cs.dropWhile p ++ later := by
  rw [List.dropWhile_append, if_neg (by simpa using dropWhile_ne_nil hc hp)]

/-- Whether a list begins with given members is known once a member has been seen that is none of
them. -/
theorem isPrefixOf_append_congr [BEq α] [LawfulBEq α] {c : α} {a lead : List α} (hc : c ∈ a)
    (hlead : c ∉ lead) (x y : List α) :
    lead.isPrefixOf (a ++ x) = lead.isPrefixOf (a ++ y) := by
  induction lead generalizing a with
  | nil => simp
  | cons l lead ih =>
    cases a with
    | nil => cases hc
    | cons d a =>
      simp only [List.mem_cons, not_or] at hc hlead
      simp only [List.cons_append, List.isPrefixOf]
      obtain rfl | hc := hc
      · -- the comparison fails here
        rw [beq_false_of_ne (Ne.symm hlead.1), Bool.false_and, Bool.false_and]
      · rw [ih hc hlead.2]

/-! ## Changing members and leaving some out -/

/-- What is told of the members of a list stays the same if these change only in what is not looked
at. -/
theorem map_congr_of_map {l l' : List α} {f : α → α} {g : α → β} (h : l.map f = l'.map f)
    (hg : ∀ x, g (f x) = g x) : l.map g = l'.map g := by
  have hgf : g ∘ f = g := funext hg
  rw [← hgf, ← List.map_map, h, List.map_map]

/-- The same holds of some of the members, if these are chosen by what is looked at. -/
theorem map_filter_congr {l l' : List α} {f : α → α} {p : α → Bool} {g : α → β}
    (h : l.map f = l'.map f) (hp : ∀ x, p (f x) = p x) (hg : ∀ x, g (f x) = g x) :
    (l.filter p).map g = (l'.filter p).map g := by
  have hpf : p ∘ f = p := funext hp
  have hfilter : (l.filter p).map f = (l'.filter p).map f := by
    rw [← hpf, ← List.filter_map, h, List.filter_map]
  exact map_congr_of_map hfilter hg

/-! ## Results that may fail -/

/-- What is made of a list, if it can be, is made of its first member and of the others. -/
private theorem exists_of_mapM_cons {f : α → Except ε β} {x : α} {xs : List α} {ys : List β}
    (h : (x :: xs).mapM f = .ok ys) :
    ∃ y rest, f x = .ok y ∧ xs.mapM f = .ok rest ∧ ys = y :: rest := by
  rw [List.mapM_cons] at h
  cases hx : f x with
  | error e => rw [hx] at h; cases h
  | ok y =>
    cases hrest : xs.mapM f with
    | error e => rw [hx, hrest] at h; cases h
    | ok rest =>
      rw [hx, hrest] at h
      cases h
      exact ⟨y, rest, rfl, rfl, rfl⟩

/-- What is made of a list, if it can be, is made of its members. -/
theorem exists_of_mem_mapM {f : α → Except ε β} {xs : List α} {ys : List β}
    (h : xs.mapM f = .ok ys) {y : β} (hy : y ∈ ys) : ∃ x ∈ xs, f x = .ok y := by
  induction xs generalizing ys with
  | nil =>
    cases h
    cases hy
  | cons x xs ih =>
    obtain ⟨first, rest, hx, hrest, rfl⟩ := exists_of_mapM_cons h
    cases List.mem_cons.mp hy with
    | inl hy => exact ⟨x, List.mem_cons_self .., hy ▸ hx⟩
    | inr hy =>
      obtain ⟨x', hx', hfx⟩ := ih hrest hy
      exact ⟨x', List.mem_cons_of_mem _ hx', hfx⟩

/-- Where only some members of a list are wanted, what is made of them is what is wanted of the
whole. -/
theorem mapM_filter {f : α → Except ε β} {p : α → Bool} {q : β → Bool}
    (hf : ∀ x y, f x = .ok y → q y = p x) {xs : List α} {ys : List β} (h : xs.mapM f = .ok ys) :
    (xs.filter p).mapM f = .ok (ys.filter q) := by
  induction xs generalizing ys with
  | nil =>
    cases h
    rfl
  | cons x xs ih =>
    obtain ⟨y, rest, hx, hrest, rfl⟩ := exists_of_mapM_cons h
    rw [List.filter_cons, List.filter_cons, hf x y hx]
    split
    · rw [List.mapM_cons, hx, ih hrest]
      rfl
    · exact ih hrest

/-- A result that is found after a change was found before it. -/
theorem exists_of_map_toOption {x : Except ε α} {f : α → β} {y : β}
    (h : x.toOption.map f = some y) : ∃ a, x = .ok a ∧ f a = y := by
  cases x with
  | error e => cases h
  | ok a => exact ⟨a, rfl, Option.some.inj h⟩

end HtmlLint
