import HtmlLint.Rule

/-! # Sessions

A session watches the making of one document.  At every moment the suppressions come first, and then
every rule that subscribes to the kind of the event, in the order of the rules.  A rule that lists a
kind more than once gets its events more than once. -/

namespace HtmlLint

/-- What has been seen and said about a document so far. -/
structure Session where
  vocabulary : Vocabulary
  rules : List ActiveRule
  suppressions : Suppressions
  /-- the events so far, the latest first -/
  history : List Event
  /-- what the rules said so far -/
  messages : List Message
  deriving Inhabited

namespace Session

/-- The session before a document begins. -/
def start (v : Vocabulary) (rules : List ActiveRule) (s : Suppressions) : Session :=
  ⟨v, rules, s, [], []⟩

/-- How often an event of a kind is given to rules. -/
def listeners (s : Session) (kind : EventKind) : Nat :=
  s.rules.foldr (fun r n => (r.rule.subscriptionsTo kind).length + n) 0

/-- The session after one more moment. -/
def observe (s : Session) (m : Moment) : Session :=
  { s with
    suppressions := s.suppressions.observe m
    history := m.event :: s.history
    messages := s.messages ++ s.rules.flatMap fun r => r.messages s.vocabulary s.history m }

/-- The messages that remain once the suppressions have done their work. -/
def resolve (s : Session) : List Message :=
  s.suppressions.resolve s.messages

end Session

end HtmlLint
