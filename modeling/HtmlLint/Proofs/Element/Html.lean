import HtmlLint.Element.Html
import HtmlLint.Proofs.Element.Inheritance

/-!
# The vocabulary of HTML

All definitions of HTML come to something, so that they give a vocabulary:
`Vocabulary.htmlWith_empty`.  Its models are those of the definitions, each with everything that it
inherits, and are found one by one.
-/

namespace HtmlLint

/-- The models of the elements of HTML. -/
def htmlVocabulary : Vocabulary :=
  .ofResolved htmlDefinitions.resolved

/-- No way from a definition of HTML leads into a cycle or to an undefined name. -/
private theorem isSome_resolve_htmlDefinitions :
    ∀ name ∈ htmlDefinitions.keys, (htmlDefinitions.resolve [] name).toOption.isSome = true := by
  decide +kernel

/-- Without other definitions the vocabulary is that of HTML. -/
theorem Vocabulary.htmlWith_empty : htmlWith .empty = .ok htmlVocabulary :=
  ofDefinitions_eq_ok isSome_resolve_htmlDefinitions

end HtmlLint
