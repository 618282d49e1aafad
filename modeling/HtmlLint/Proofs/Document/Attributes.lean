import HtmlLint.Document
import Mathlib.Data.List.Induction

/-!
# Attributes given more than once

An element may be given several attributes of one name, where names are compared up to case.  Of
each name the last one is kept, in the place of the first one: `Attribute.kept` stores attributes
one after the other, and `AreKeptOf` says what that leaves, without following the storing.  Those
given again are `Attribute.repeated`, and with the kept ones they make up all that are given
(`length_repeated`).
-/

namespace HtmlLint

namespace Attribute

/-- The name of an attribute, for which the case of letters does not matter. -/
def name (a : Attribute) : String :=
  Text.foldCase a.key

/-- What an element keeps of the attributes that it is given one after the other. -/
def kept (given : List Attribute) : List Attribute :=
  given.foldl (fun l a => Node.storeAttribute a l) []

/-- Those attributes of a list whose name was given before, be it in the list or in `earlier`. -/
def repeatedAfter (earlier : List Attribute) : List Attribute → List Attribute
  | [] => []
  | a :: later =>
    (if earlier.any fun b => Text.sameName b.key a.key then [a] else []) ++ repeatedAfter
      (earlier ++ [a]) later

/-- The attributes whose name was given before. -/
def repeated (given : List Attribute) : List Attribute :=
  repeatedAfter [] given

/-- Of each name the last attribute is kept, in the place of the first one. -/
structure AreKeptOf (given kept : List Attribute) : Prop where
  distinct : kept.Pairwise fun a b => Text.sameName a.key b.key = false
  names_eq : kept.map name = (given.map name).eraseDups
  latest : ∀ a ∈ kept, ∃ earlier later, given = earlier ++ a :: later ∧
    ∀ b ∈ later, Text.sameName b.key a.key = false

/-- Two attributes have the same name exactly if their names in small letters are equal. -/
private theorem sameName_iff {a b : Attribute} :
    Text.sameName a.key b.key = true ↔ a.name = b.name := by
  simp [Text.sameName, name]

/-- And different ones exactly if these differ. -/
private theorem sameName_eq_false_iff {a b : Attribute} :
    Text.sameName a.key b.key = false ↔ a.name ≠ b.name := by
  rw [← Bool.not_eq_true, sameName_iff]

/-- One of several attributes has the name of another one. -/
private theorem any_sameName_iff {l : List Attribute} {a : Attribute} :
    (l.any fun b => Text.sameName b.key a.key) = true ↔ a.name ∈ l.map name := by
  simp only [List.any_eq_true, sameName_iff, List.mem_map]

/-! ## Storing one attribute -/

section Store

variable {a b : Attribute} {l : List Attribute}

/-- A new name comes last, and one that is there stays in its place. -/
private theorem names_storeAttribute (a : Attribute) (l : List Attribute) :
    (Node.storeAttribute a l).map name =
      if a.name ∈ l.map name then l.map name else l.map name ++ [a.name] := by
  induction l with
  | nil => rfl
  | cons b l ih =>
    rw [Node.storeAttribute]
    by_cases hb : b.name = a.name
    · rw [if_pos (sameName_iff.mpr hb), List.map_cons, List.map_cons, hb,
        if_pos (List.mem_cons_self ..)]
    · rw [if_neg (mt sameName_iff.mp hb), List.map_cons, ih, List.map_cons]
      simp only [List.mem_cons, Ne.symm hb, false_or]
      split <;> rfl

/-- Where no name occurs twice, storing an attribute takes away the one of its name and nothing
else. -/
private theorem of_mem_storeAttribute (hl : (l.map name).Nodup) (h : b ∈ Node.storeAttribute a l) :
    b = a ∨ b ∈ l ∧ b.name ≠ a.name := by
  induction l with
  | nil => exact .inl (List.mem_singleton.mp h)
  | cons c l ih =>
    rw [List.map_cons, List.nodup_cons] at hl
    rw [Node.storeAttribute] at h
    by_cases hc : c.name = a.name
    · rw [if_pos (sameName_iff.mpr hc)] at h
      cases List.mem_cons.mp h with
      | inl h => exact .inl h
      | inr h =>
        -- the name of the attribute taken away does not come again
        refine .inr ⟨List.mem_cons_of_mem _ h, fun heq => hl.1 ?_⟩
        rw [hc, ← heq]
        exact List.mem_map_of_mem h
    · rw [if_neg (mt sameName_iff.mp hc)] at h
      cases List.mem_cons.mp h with
      | inl h =>
        rw [h]
        exact .inr ⟨List.mem_cons_self .., hc⟩
      | inr h => exact (ih hl.2 h).imp_right fun h => ⟨List.mem_cons_of_mem _ h.1, h.2⟩

end Store

/-! ## Storing all attributes -/

/-- What is kept of one more attribute is what storing it makes of the others. -/
theorem kept_concat (given : List Attribute) (a : Attribute) :
    kept (given ++ [a]) = Node.storeAttribute a (kept given) := by
  rw [kept, List.foldl_append]
  rfl

/-- Of each name the first place is kept. -/
private theorem names_kept (given : List Attribute) :
    (kept given).map name = (given.map name).eraseDups := by
  induction given using List.reverseRecOn with
  | nil => rfl
  | append_singleton given a ih =>
    rw [kept_concat, names_storeAttribute, ih, List.map_append, List.eraseDups_append]
    by_cases ha : a.name ∈ given.map name
    · have hnone : [a.name].removeAll (given.map name) = [] := by simpa [List.removeAll] using ha
      rw [if_pos (List.mem_eraseDups.mpr ha)]
      simp [hnone]
    · have hone : [a.name].removeAll (given.map name) = [a.name] :=
        by simpa [List.removeAll] using ha
      rw [if_neg (mt List.mem_eraseDups.mp ha)]
      simp [hone, List.eraseDups_cons]

/-- Each name is kept once. -/
private theorem nodup_names_kept (given : List Attribute) : ((kept given).map name).Nodup := by
  induction given using List.reverseRecOn with
  | nil => exact .nil
  | append_singleton given a ih =>
    rw [kept_concat, names_storeAttribute]
    split
    · exact ih
    · rename_i ha
      rw [List.nodup_append]
      refine ⟨ih, by simp, ?_⟩
      rintro x hx y hy rfl
      exact ha (List.mem_singleton.mp hy ▸ hx)

/-- What is kept was given last of its name. -/
private theorem latest_of_mem_kept {given : List Attribute} {a : Attribute} (h : a ∈ kept given) :
    ∃ earlier later, given = earlier ++ a :: later ∧ ∀ b ∈ later, b.name ≠ a.name := by
  induction given using List.reverseRecOn with
  | nil => cases h
  | append_singleton given x ih =>
    rw [kept_concat] at h
    obtain rfl | ⟨hmem, hne⟩ := of_mem_storeAttribute (nodup_names_kept given) h
    · exact ⟨given, [], rfl, fun b hb => nomatch hb⟩
    · obtain ⟨earlier, later, rfl, hlater⟩ := ih hmem
      refine ⟨earlier, later ++ [x], by simp, ?_⟩
      intro b hb
      cases List.mem_append.mp hb with
      | inl hb => exact hlater b hb
      | inr hb =>
        rw [List.mem_singleton.mp hb]
        exact Ne.symm hne

/-- The attributes that are kept are those that should be. -/
theorem areKeptOf_kept (given : List Attribute) : AreKeptOf given (kept given) where
  distinct := by
    have hnodup := nodup_names_kept given
    rw [List.Nodup, List.pairwise_map] at hnodup
    exact hnodup.imp sameName_eq_false_iff.mpr
  names_eq := names_kept given
  latest a ha := by
    obtain ⟨earlier, later, hgiven, hlater⟩ := latest_of_mem_kept ha
    exact ⟨earlier, later, hgiven, fun b hb => sameName_eq_false_iff.mpr (hlater b hb)⟩

/-! ## Attributes given again -/

/-- One more attribute is repeated if one before it has its name. -/
private theorem repeatedAfter_concat (earlier given : List Attribute) (a : Attribute) :
    repeatedAfter earlier (given ++ [a]) =
      repeatedAfter earlier given ++
        if (earlier ++ given).any fun b => Text.sameName b.key a.key then [a] else [] := by
  induction given generalizing earlier with
  | nil => simp [repeatedAfter]
  | cons b given ih =>
    simp only [List.cons_append, repeatedAfter, ih, List.append_assoc, List.nil_append]

/-- An attribute is given again if one of its name is kept already. -/
theorem repeated_concat (given : List Attribute) (a : Attribute) :
    repeated (given ++ [a]) =
      repeated given ++ if a.name ∈ (kept given).map name then [a] else [] := by
  rw [repeated, repeatedAfter_concat, List.nil_append, names_kept]
  simp only [any_sameName_iff, List.mem_eraseDups]
  rfl

/-- All attributes are kept in a place of their own or given again. -/
theorem length_repeated (given : List Attribute) :
    (repeated given).length + (kept given).length = given.length := by
  have hlength : ∀ l : List Attribute, l.length = (l.map name).length :=
    fun l => by rw [List.length_map]
  induction given using List.reverseRecOn with
  | nil => rfl
  | append_singleton given a ih =>
    rw [hlength (kept given)] at ih
    rw [repeated_concat, kept_concat, hlength (Node.storeAttribute _ _), names_storeAttribute]
    split <;> simp only [List.length_append, List.length_nil, List.length_singleton] <;> omega

end Attribute

/-- An element has an attribute if one of this name is among those it has. -/
theorem Node.hasAttribute_iff {n : Node} {a : Attribute} :
    n.hasAttribute a.key = true ↔ a.name ∈ n.attributes.map Attribute.name := by
  rw [hasAttribute, attribute?, List.find?_isSome, ← Attribute.any_sameName_iff, List.any_eq_true]

end HtmlLint
