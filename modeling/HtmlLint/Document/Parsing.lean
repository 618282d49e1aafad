import HtmlLint.Document.Construction
import HtmlLint.Token.Scan

/-! # Parsing

A source becomes a document by cutting it into tokens and building with them.  Observers see every
moment of the construction, also those before a fault that stops it. -/

namespace HtmlLint

/-- Parse a source and show every moment to an observer.  The document is there unless the source
cannot be cut into tokens. -/
def observeParsing {σ : Type} (v : Vocabulary) (observe : σ → Moment → σ) (s : σ)
    (source : String) :
    Except ScanError Document × σ :=
  let scan := tokenize source
  let built := Construction.pushAll v observe scan.tokens (.ofLength (byteLength source.toList)) s
  match scan.failure with
  | some e => (.error e, built.2)
  | none =>
    let final := built.1.finish v
    (.ok final.1, final.2.foldl observe built.2)

/-- The document of a source and the events of building it. -/
def parse (v : Vocabulary) (source : String) : Except ScanError (Document × List Event) :=
  let (result, events) := observeParsing v (fun seen m => m.event :: seen) [] source
  result.map fun d => (d, events.reverse)

end HtmlLint
