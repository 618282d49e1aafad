import HtmlLint.ContentModel
import HtmlLint.Rule

/-! # The standard rules

Sixteen rules about the structure of a document, its elements and their attributes.  Four of them
have options; a table of options may leave out any of them and may hold no others. -/

namespace HtmlLint

open Toml (Value Table)

/-- A rule without options; what is given as options does not matter. -/
def Rule.plain (r : Rule) : RuleMaker :=
  fun _ => some r

/-- A rule made from options, which have usual values and are read field by field. -/
def Rule.withOptions {α : Type} (read : α → String → Value → Option α) (usual : α)
    (make : α → Rule) :
    RuleMaker :=
  fun options =>
    match options with
    | none => some (make usual)
    | some t => (Toml.readFields read usual t).map make

namespace Rule

/-! ## Structure -/

/-- Which structural errors are reported. -/
structure CloseOrderOptions where
  strayEndTags : Bool := true
  unclosed : Bool := true
  mismatched : Bool := true
  deriving DecidableEq, Inhabited

/-- Read one option. -/
def CloseOrderOptions.read (o : CloseOrderOptions) (key : String) (v : Value) :
    Option CloseOrderOptions :=
  match key with
  | "stray_end_tags" => v.boolean?.map fun b => { o with strayEndTags := b }
  | "unclosed" => v.boolean?.map fun b => { o with unclosed := b }
  | "mismatched" => v.boolean?.map fun b => { o with mismatched := b }
  | _ => none

/-- Whether a structural error is reported, and what it is called. -/
def CloseOrderOptions.kindOf (o : CloseOrderOptions) : StructuralError → Bool × String
  | .strayEndTag _ => (o.strayEndTags, "stray-end-tag")
  | .mismatchedClose _ _ => (o.mismatched, "mismatched-close")
  | .unclosedElement _ => (o.unclosed, "unclosed-element")

/-- Start tags and end tags belong together. -/
def closeOrder (o : CloseOrderOptions) : Rule where
  subscriptions := [.parseError]
  findings _ _ m :=
    match m.event with
    | .parseError error target _ =>
      let (reported, kind) := o.kindOf error
      if reported then
        [{ node := target, text := error.message, context := some (.obj [("kind", .str kind)]) }]
      else []
    | _ => []

/-- Which uses of `/>` are reported. -/
structure NoSelfClosingOptions where
  ignoreForeign : Bool := true
  void : Bool := false
  deriving DecidableEq, Inhabited

/-- Read one option. -/
def NoSelfClosingOptions.read (o : NoSelfClosingOptions) (key : String) (v : Value) :
    Option NoSelfClosingOptions :=
  match key with
  | "ignore_foreign" => v.boolean?.map fun b => { o with ignoreForeign := b }
  | "void" => v.boolean?.map fun b => { o with void := b }
  | _ => none

/-- Elements are not written with `/>`. -/
def noSelfClosing (o : NoSelfClosingOptions) : Rule where
  subscriptions := [.tagClose]
  findings _ _ m :=
    match m.event with
    | .tagClose target _ kind _ =>
      let n := m.document.node target
      let reported :=
        match kind with
        | .selfClosed => !(n.foreign && o.ignoreForeign)
        | .void => n.selfClosed && o.void
        | _ => false
      if reported then
        [{ node := some target, text := n.displayName ++ " must not be self-closed"
           location := some n.location }]
      else []
    | _ => []

/-- A document declares its type. -/
def missingDoctype : Rule where
  subscriptions := [.doctype, .domReady]
  findings _ history m :=
    if m.event == .domReady && !history.any fun e => e.kind == .doctype then
      [{ node := none, text := "Document is missing doctype" }]
    else []

/-- Suppressions are of use; they are watched over where they are resolved, and the rule itself
finds nothing. -/
def unusedSuppressions : Rule where
  subscriptions := []
  findings _ _ _ := []

/-! ## The content model -/

/-- A completed element passes a check of the content model. -/
def contentModel (check : ContentCheck) : Rule where
  subscriptions := [.elementReady]
  findings v _ m :=
    match m.event with
    | .elementReady target _ =>
      (check.violations v m.document target).map fun x =>
        { node := some x.node, text := x.text, location := some (m.document.node x.node).location
          context := some x.context }
    | _ => []

/-! ## Elements -/

/-- Elements are not deprecated. -/
def deprecated : Rule where
  subscriptions := [.tagOpen]
  findings v _ m :=
    match m.event with
    | .tagOpen target _ =>
      let n := m.document.node target
      match (v.modelOf? n).bind ElementModel.deprecated with
      | none => []
      | some d =>
        let reason := match d.message with
          | some text => ": " ++ text
          | none => ""
        [{ node := some target, text := n.displayName ++ " is deprecated" ++ reason
           context := some (.obj [("documentation", .ofOption d.documentation),
             ("source", .ofOption d.source), ("tagName", .str n.tag)]) }]
    | _ => []

/-- Which unknown elements are let pass. -/
structure NoUnknownElementsOptions where
  allow : List String := []
  allowCustomElements : Bool := false
  deriving DecidableEq, Inhabited

/-- Read one option. -/
def NoUnknownElementsOptions.read (o : NoUnknownElementsOptions) (key : String) (v : Value) :
    Option NoUnknownElementsOptions :=
  match key with
  | "allow" =>
    (v.array?.bind fun items => items.mapM Value.text?).map fun l => { o with allow := l }
  | "allow_custom_elements" => v.boolean?.map fun b => { o with allowCustomElements := b }
  | _ => none

/-- A tag that is let pass without being known. -/
def NoUnknownElementsOptions.permits (o : NoUnknownElementsOptions) (tag : String) : Bool :=
  (o.allowCustomElements && tag.toList.contains '-') || o.allow.any fun a => Text.sameName a tag

/-- Elements outside foreign content are known. -/
def noUnknownElements (o : NoUnknownElementsOptions) : Rule where
  subscriptions := [.tagOpen]
  findings v _ m :=
    match m.event with
    | .tagOpen target _ =>
      let n := m.document.node target
      if n.foreign || v.contains n.tag || o.permits n.tag then []
      else [{ node := some target, text := "Unknown element " ++ n.displayName }]
    | _ => []

/-! ## Attributes -/

/-- An element has each attribute once.  At the moment of an attribute the element still has only
those before it. -/
def noDupAttr : Rule where
  subscriptions := [.attr]
  findings _ _ m :=
    match m.event with
    | .attr target a =>
      if (m.document.node target).hasAttribute a.key then
        [{ node := some target, text := "Attribute \"" ++ Text.foldCase a.key ++ "\" duplicated" }]
      else []
    | _ => []

/-- The quotes that values should have. -/
inductive QuoteStyle where
  | double
  | single
  | any
  deriving DecidableEq, Inhabited

/-- The style of a name. -/
def QuoteStyle.ofName? : String → Option QuoteStyle
  | "double" => some double
  | "single" => some single
  | "any" => some any
  | _ => none

/-- A style is given by its name, or by a table with the name as its only key and nothing under
it. -/
def QuoteStyle.ofValue? : Value → Option QuoteStyle
  | .string s => ofName? s
  | .table [(name, .table [])] => ofName? name
  | .table [(name, .array [])] => ofName? name
  | _ => none

/-- How values should be quoted. -/
structure AttrQuotesOptions where
  style : QuoteStyle := .double
  /-- a value without quotes is let pass -/
  unquoted : Bool := false
  deriving DecidableEq, Inhabited

/-- Read one option. -/
def AttrQuotesOptions.read (o : AttrQuotesOptions) (key : String) (v : Value) :
    Option AttrQuotesOptions :=
  match key with
  | "style" => (QuoteStyle.ofValue? v).map fun s => { o with style := s }
  | "unquoted" => v.boolean?.map fun b => { o with unquoted := b }
  | _ => none

/-- What is wrong with the quotes of a value. -/
def AttrQuotesOptions.problem? (o : AttrQuotesOptions) (key : String) (quote : Quote) :
    Option String :=
  match quote, o.style with
  | .unquoted, _ =>
    if o.unquoted then none else some ("Attribute \"" ++ key ++ "\" using unquoted value")
  | .single, .double => some ("Attribute \"" ++ key ++ "\" used ' instead of expected \"")
  | .double, .single => some ("Attribute \"" ++ key ++ "\" used \" instead of expected '")
  | _, _ => none

/-- The values of attributes are quoted alike. -/
def attrQuotes (o : AttrQuotesOptions) : Rule where
  subscriptions := [.attr]
  findings _ _ m :=
    match m.event with
    | .attr target a =>
      match a.value with
      | none => []
      | some value =>
        (o.problem? a.key value.quote).toList.map fun text =>
          { node := some target, text, location := some value.location }
    | _ => []

/-- Elements have no `style` attribute. -/
def noInlineStyle : Rule where
  subscriptions := [.attr]
  findings _ _ m :=
    match m.event with
    | .attr target a =>
      if Text.sameName a.key "style" then
        [{ node := some target, text := "Inline style is not allowed" }]
      else []
    | _ => []

end Rule

/-- The standard rules by name. -/
def Registry.standard : Registry :=
  NameMap.ofList [
    ("attr-quotes", Rule.withOptions Rule.AttrQuotesOptions.read {} Rule.attrQuotes),
    ("close-order", Rule.withOptions Rule.CloseOrderOptions.read {} Rule.closeOrder),
    ("deprecated", Rule.deprecated.plain),
    ("element-permitted-content", (Rule.contentModel .permittedContent).plain),
    ("element-permitted-occurrences", (Rule.contentModel .permittedOccurrences).plain),
    ("element-permitted-order", (Rule.contentModel .permittedOrder).plain),
    ("element-permitted-parent", (Rule.contentModel .permittedParent).plain),
    ("element-required-ancestor", (Rule.contentModel .requiredAncestors).plain),
    ("element-required-attributes", (Rule.contentModel .requiredAttributes).plain),
    ("element-required-content", (Rule.contentModel .requiredContent).plain),
    ("missing-doctype", Rule.missingDoctype.plain),
    ("no-dup-attr", Rule.noDupAttr.plain),
    ("no-inline-style", Rule.noInlineStyle.plain),
    ("no-self-closing", Rule.withOptions Rule.NoSelfClosingOptions.read {} Rule.noSelfClosing),
    ("no-unknown-elements",
      Rule.withOptions Rule.NoUnknownElementsOptions.read {} Rule.noUnknownElements),
    (noUnusedDisable, Rule.unusedSuppressions.plain)]

/-- The severities that the standard rules have unless something else is said. -/
def recommendedSeverities : List (String × Severity) :=
  Registry.standard.keys.map fun id =>
    (id, if id == "missing-doctype" || id == "no-inline-style" then .warning else .error)

end HtmlLint
