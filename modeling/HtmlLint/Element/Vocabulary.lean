import HtmlLint.Document
import HtmlLint.Element.Definition
import HtmlLint.Text.Listing

/-! # Vocabularies

A vocabulary holds the models of all known elements.  It is made from definitions by following what
each one inherits: from definition to definition until one inherits nothing.  That fails where the
way leads to an undefined name or comes back to a name it has passed. -/

namespace HtmlLint

/-- Definitions by tag. -/
abbrev Definitions := NameMap ElementDefinition

/-- Why definitions give no vocabulary. -/
inductive InheritanceError where
  /-- `element` inherits from `base`, which is not defined -/
  | unknownBase (element base : String)
  /-- the names passed, of which the last one occurs twice -/
  | cycle (chain : List String)
  deriving DecidableEq, Inhabited

/-- The wording of an inheritance error. -/
def InheritanceError.message : InheritanceError → String
  | unknownBase element base =>
    "element '" ++ element ++ "' inherits unknown element '" ++ base ++ "'"
  | cycle chain => "element inheritance cycle: " ++ Text.joinWith " -> " chain

namespace Definitions

/-- The number of definitions whose names have not been passed. -/
def unvisited (defs : Definitions) (chain : List String) : Nat :=
  (defs.entries.filter fun e => !chain.contains e.1).length

/-- A name that is defined has an entry. -/
theorem mem_of_get? {defs : Definitions} {name : String} {d : ElementDefinition}
    (h : defs.get? name = some d) : ∃ e ∈ defs.entries, e.1 = name := by
  simp only [NameMap.get?] at h
  generalize defs.entries = entries at h
  induction entries with
  | nil => simp at h
  | cons e l ih =>
    rw [NameMap.lookup_cons_ite] at h
    split at h
    · exact ⟨e, by simp, by simp_all⟩
    · obtain ⟨e', he', hn⟩ := ih h
      exact ⟨e', by simp [he'], hn⟩

/-- Passing a defined name leaves fewer definitions unvisited. -/
theorem unvisited_lt {defs : Definitions} {chain : List String} {name : String}
    {d : ElementDefinition} (h : defs.get? name = some d) (hc : ¬chain.contains name) :
    defs.unvisited (chain ++ [name]) < defs.unvisited chain := by
  obtain ⟨e, he, hn⟩ := mem_of_get? h
  simp only [unvisited]
  have hsplit : (defs.entries.filter fun e => !(chain ++ [name]).contains e.1)
      = (defs.entries.filter fun e => !chain.contains e.1).filter fun e => e.1 != name := by
    rw [List.filter_filter]
    congr 1
    funext x
    by_cases hx : x.1 = name <;> simp [hx]
  rw [hsplit]
  apply List.length_filter_lt_length_iff_exists.mpr
  exact ⟨e, by simp_all, by simp [hn]⟩

/-- The definition of a name with everything it inherits.  `chain` holds the names passed on the
way, and `done` the definitions that are known with everything they inherit.  What is found out on
the way is known from then on. -/
def resolveInto (defs : Definitions) (chain : List String) (name : String) (done : Definitions) :
    Except InheritanceError (ElementDefinition × Definitions) :=
  match done.get? name with
  | some d => .ok (d, done)
  | none =>
    if _hc : chain.contains name then .error (.cycle (chain ++ [name]))
    else
      match _h : defs.get? name with
      | none => .error (.unknownBase (chain.getLast?.getD "") name)
      | some d =>
        match d.inherits with
        | none => .ok (d, done.insert name d)
        | some base =>
          (resolveInto defs (chain ++ [name]) base done).map fun r =>
            (d.layeredOn r.1, r.2.insert name (d.layeredOn r.1))
termination_by defs.unvisited chain
decreasing_by exact unvisited_lt _h _hc

/-- The definitions of some names with everything they inherit, one name after the other. -/
def resolveAll (defs : Definitions) (names : List String) : Except InheritanceError Definitions :=
  names.foldlM (fun done name => (defs.resolveInto [] name done).map Prod.snd) .empty

end Definitions

/-- The models of the known elements, by tag. -/
structure Vocabulary where
  models : NameMap ElementModel
  deriving DecidableEq, Inhabited

namespace Vocabulary

/-- The models of definitions that inherit nothing more. -/
def ofResolved (done : Definitions) : Vocabulary :=
  ⟨done.mapValues fun tag d => d.toModel tag⟩

/-- The models of all definitions, or what is wrong with the first that has none. -/
def ofDefinitions (defs : Definitions) : Except InheritanceError Vocabulary :=
  (defs.resolveAll defs.keys).map ofResolved

/-- The number of known elements. -/
def size (v : Vocabulary) : Nat :=
  v.models.size

/-- The tags of the known elements in ascending order. -/
def tags (v : Vocabulary) : List String :=
  v.models.keys

/-- The model of a tag, as written or else in small letters. -/
def find? (v : Vocabulary) (tag : String) : Option ElementModel :=
  (v.models.get? tag).or (v.models.get? (Text.foldCase tag))

/-- The tag is known. -/
def contains (v : Vocabulary) (tag : String) : Bool :=
  (v.find? tag).isSome

/-- The model of a node: that of its tag, if the node is an element and, inside foreign content, if
the model is one of a foreign element. -/
def modelOf? (v : Vocabulary) (n : Node) : Option ElementModel :=
  if n.isElement then
    (v.find? n.tag).bind fun m => if n.foreign && !m.foreign then none else some m
  else none

end Vocabulary

end HtmlLint
