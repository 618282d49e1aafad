import HtmlLint.Element.Vocabulary

/-! # The elements of HTML

The definitions that every vocabulary starts from, in ascending order of their tags, and the
vocabulary of these definitions with others put over them. -/

namespace HtmlLint

/-- An entry that permits what a pattern describes. -/
def allow (pattern : String) : Permission :=
  .inclusion (.ofString pattern)

/-- An entry that rules out what a pattern describes. -/
def forbid (pattern : String) : Permission :=
  .exclusion (.ofString pattern)

/-- The definitions of the elements of HTML. -/
def htmlDefinitions : Definitions :=
  ⟨[
    ("a", {
      categories := some ["flow", "phrasing", "interactive"],
      permittedContent := some [forbid "@interactive"] }),
    ("abbr", { inherits := some "span" }),
    ("acronym", {
      inherits := some "span",
      deprecated := some (.detailed ⟨some "use <abbr> instead",
        some "`<abbr>` can be used as a replacement.", some "html5"⟩) }),
    ("address", {
      categories := some ["flow"],
      permittedContent :=
        some [allow "@flow", forbid "@heading", forbid "@sectioning", forbid "header",
        forbid "footer", forbid "address"] }),
    ("applet", {
      categories := some ["flow", "phrasing", "embedded"],
      deprecated := some (.detailed ⟨none, none, some "html5"⟩) }),
    ("area", {
      categories := some ["flow", "phrasing"], void := some true,
      requiredAncestors := some ["map"] }),
    ("article", {
      categories := some ["flow", "sectioning"], permittedContent := some [allow "@flow"] }),
    ("aside", { inherits := some "article" }),
    ("audio", { inherits := some "video" }),
    ("b", { inherits := some "span" }),
    ("base", {
      categories := some ["metadata"], void := some true, permittedParent := some [allow "head"] }),
    ("basefont", {
      void := some true,
      deprecated := some (.detailed ⟨some "use CSS instead", none, some "html5"⟩) }),
    ("bdi", { inherits := some "span" }),
    ("bdo", { inherits := some "span", requiredAttributes := some ["dir"] }),
    ("big", {
      inherits := some "span",
      deprecated := some (.detailed ⟨some "use CSS instead", none, some "html5"⟩) }),
    ("blink", {
      inherits := some "span",
      deprecated := some (.detailed ⟨none,
        some "`<blink>` has no direct replacement and blinking text is frowned upon by accessibility standards.",
        some "non-standard"⟩) }),
    ("blockquote", { categories := some ["flow"], permittedContent := some [allow "@flow"] }),
    ("body", {
      optionalEnd := some true, permittedContent := some [allow "@flow"],
      permittedParent := some [allow "html"] }),
    ("br", { categories := some ["flow", "phrasing"], void := some true }),
    ("button", {
      categories := some ["flow", "phrasing", "interactive"],
      permittedContent := some [allow "@phrasing", forbid "@interactive"] }),
    ("canvas", { categories := some ["flow", "phrasing", "embedded"] }),
    ("caption", {
      permittedContent := some [allow "@flow", forbid "table"],
      permittedParent := some [allow "table"] }),
    ("center", {
      categories := some ["flow"], permittedContent := some [allow "@flow"],
      deprecated := some (.detailed ⟨some "use CSS instead", none, some "html4"⟩) }),
    ("cite", { inherits := some "span" }),
    ("code", { inherits := some "span" }),
    ("col", { void := some true, permittedParent := some [allow "colgroup"] }),
    ("colgroup", {
      optionalEnd := some true,
      implicitClosed := some ["colgroup", "thead", "tbody", "tfoot", "tr"],
      permittedContent := some [allow "col", allow "template"],
      permittedParent := some [allow "table"] }),
    ("data", { inherits := some "span" }),
    ("datalist", {
      categories := some ["flow", "phrasing"],
      permittedContent := some [allow "@phrasing", allow "option"] }),
    ("dd", {
      optionalEnd := some true, implicitClosed := some ["dt", "dd"],
      permittedContent := some [allow "@flow"], requiredAncestors := some ["dl"] }),
    ("del", { categories := some ["flow", "phrasing"] }),
    ("details", {
      categories := some ["flow", "interactive"],
      permittedContent := some [allow "summary", allow "@flow"],
      permittedOrder := some ["summary", "@flow"],
      permittedOccurrences := some (.ofList [("summary", 1)]),
      requiredContent := some ["summary"] }),
    ("dfn", { inherits := some "span" }),
    ("dialog", { categories := some ["flow"], permittedContent := some [allow "@flow"] }),
    ("dir", {
      inherits := some "ol",
      deprecated := some (.detailed ⟨some "use <ul> instead", none, some "html4"⟩) }),
    ("div", {
      categories := some ["flow"],
      permittedContent := some [allow "@flow", allow "dt", allow "dd"] }),
    ("dl", {
      categories := some ["flow"],
      permittedContent :=
        some [allow "dt", allow "dd", allow "div", allow "script", allow "template"] }),
    ("dt", {
      optionalEnd := some true, implicitClosed := some ["dt", "dd"],
      permittedContent :=
        some [allow "@flow", forbid "@heading", forbid "@sectioning", forbid "header",
        forbid "footer"], requiredAncestors := some ["dl"] }),
    ("em", { inherits := some "span" }),
    ("embed", {
      categories := some ["flow", "phrasing", "embedded", "interactive"], void := some true }),
    ("fieldset", {
      categories := some ["flow"], permittedContent := some [allow "@flow", allow "legend"],
      permittedOrder := some ["legend", "@flow"],
      permittedOccurrences := some (.ofList [("legend", 1)]) }),
    ("figcaption", {
      permittedContent := some [allow "@flow"], permittedParent := some [allow "figure"] }),
    ("figure", {
      categories := some ["flow"], permittedContent := some [allow "@flow", allow "figcaption"],
      permittedOccurrences := some (.ofList [("figcaption", 1)]) }),
    ("font", {
      inherits := some "span",
      deprecated := some (.detailed ⟨some "use CSS instead", none, some "html4"⟩) }),
    ("footer", { inherits := some "header" }),
    ("form", {
      categories := some ["flow"], permittedContent := some [allow "@flow", forbid "form"] }),
    ("frame", { void := some true, deprecated := some (.detailed ⟨none, none, some "html5"⟩) }),
    ("frameset", { deprecated := some (.detailed ⟨none, none, some "html5"⟩) }),
    ("h1", {
      categories := some ["flow", "heading"], permittedContent := some [allow "@phrasing"] }),
    ("h2", { inherits := some "h1" }),
    ("h3", { inherits := some "h1" }),
    ("h4", { inherits := some "h1" }),
    ("h5", { inherits := some "h1" }),
    ("h6", { inherits := some "h1" }),
    ("head", {
      optionalEnd := some true, implicitClosed := some ["body"],
      permittedContent := some [allow "@metadata"], permittedParent := some [allow "html"],
      permittedOccurrences := some (.ofList [("base", 1), ("title", 1)]),
      requiredContent := some ["title"] }),
    ("header", {
      categories := some ["flow"],
      permittedContent := some [allow "@flow", forbid "header", forbid "footer", forbid "main"] }),
    ("hgroup", {
      categories := some ["flow", "heading"],
      permittedContent := some [allow "p", allow "@heading", allow "script", allow "template"] }),
    ("hr", { categories := some ["flow"], void := some true }),
    ("html", {
      optionalEnd := some true, permittedContent := some [allow "head", allow "body"],
      permittedOrder := some ["head", "body"],
      permittedOccurrences := some (.ofList [("body", 1), ("head", 1)]),
      requiredContent := some ["head", "body"] }),
    ("i", { inherits := some "span" }),
    ("iframe", { categories := some ["flow", "phrasing", "embedded", "interactive"] }),
    ("img", {
      categories := some ["flow", "phrasing", "embedded"], void := some true,
      requiredAttributes := some ["src"] }),
    ("input", { categories := some ["flow", "phrasing", "interactive"], void := some true }),
    ("ins", { categories := some ["flow", "phrasing"] }),
    ("kbd", { inherits := some "span" }),
    ("keygen", {
      categories := some ["flow", "phrasing", "interactive"], void := some true,
      deprecated := some (.detailed ⟨none, none, some "html5.2"⟩) }),
    ("label", {
      categories := some ["flow", "phrasing", "interactive"],
      permittedContent := some [allow "@phrasing", forbid "label"] }),
    ("legend", {
      permittedContent := some [allow "@phrasing", allow "@heading"],
      permittedParent := some [allow "fieldset"] }),
    ("li", {
      optionalEnd := some true, implicitClosed := some ["li"],
      permittedContent := some [allow "@flow"],
      permittedParent := some [allow "ul", allow "ol", allow "menu", allow "template"] }),
    ("link", { categories := some ["metadata"], void := some true }),
    ("main", { categories := some ["flow"], permittedContent := some [allow "@flow"] }),
    ("map", { categories := some ["flow", "phrasing"], requiredAttributes := some ["name"] }),
    ("mark", { inherits := some "span" }),
    ("marquee", {
      inherits := some "span", deprecated := some (.detailed ⟨none, none, some "html5"⟩) }),
    ("math", { categories := some ["flow", "phrasing", "embedded"], foreign := some true }),
    ("menu", { inherits := some "ol" }),
    ("meta", { categories := some ["metadata"], void := some true }),
    ("meter", {
      categories := some ["flow", "phrasing"],
      permittedContent := some [allow "@phrasing", forbid "meter"] }),
    ("nav", { inherits := some "article" }),
    ("noframes", { deprecated := some (.detailed ⟨none, none, some "html5"⟩) }),
    ("noscript", { categories := some ["metadata", "flow", "phrasing"] }),
    ("object", { categories := some ["flow", "phrasing", "embedded"] }),
    ("ol", {
      categories := some ["flow"],
      permittedContent := some [allow "li", allow "script", allow "template"] }),
    ("optgroup", {
      optionalEnd := some true, implicitClosed := some ["optgroup"],
      permittedContent := some [allow "option", allow "script", allow "template"],
      permittedParent := some [allow "select"], requiredAttributes := some ["label"] }),
    ("option", {
      optionalEnd := some true, implicitClosed := some ["option", "optgroup"],
      permittedParent := some [allow "select", allow "datalist", allow "optgroup"] }),
    ("output", { inherits := some "span" }),
    ("p", {
      categories := some ["flow"], optionalEnd := some true,
      permittedContent := some [allow "@phrasing"],
      implicitClosed := some ["address", "article", "aside", "blockquote", "details", "div", "dl",
        "fieldset", "figcaption", "figure", "footer", "form", "h1", "h2", "h3", "h4", "h5", "h6",
        "header", "hgroup", "hr", "main", "menu", "nav", "ol", "p", "pre", "section",
        "table", "ul"] }),
    ("picture", {
      categories := some ["flow", "phrasing", "embedded"],
      permittedContent := some [allow "source", allow "img", allow "script", allow "template"],
      permittedOrder := some ["source", "img"], permittedOccurrences := some (.ofList [("img", 1)]),
      requiredContent := some ["img"] }),
    ("pre", { categories := some ["flow"], permittedContent := some [allow "@phrasing"] }),
    ("progress", {
      categories := some ["flow", "phrasing"],
      permittedContent := some [allow "@phrasing", forbid "progress"] }),
    ("q", { inherits := some "span" }),
    ("s", { inherits := some "span" }),
    ("samp", { inherits := some "span" }),
    ("script", { categories := some ["metadata", "flow", "phrasing", "script-supporting"] }),
    ("section", { inherits := some "article" }),
    ("select", {
      categories := some ["flow", "phrasing", "interactive"],
      permittedContent :=
        some [allow "option", allow "optgroup", allow "script", allow "template"] }),
    ("small", { inherits := some "span" }),
    ("source", {
      void := some true, permittedParent := some [allow "picture", allow "video", allow "audio"] }),
    ("span", {
      categories := some ["flow", "phrasing"], permittedContent := some [allow "@phrasing"] }),
    ("strike", {
      inherits := some "span",
      deprecated := some (.detailed ⟨some "use <del> or <s> instead", none, some "html5"⟩) }),
    ("strong", { inherits := some "span" }),
    ("style", { categories := some ["metadata"] }),
    ("sub", { inherits := some "span" }),
    ("summary", {
      permittedContent := some [allow "@phrasing", allow "@heading"],
      permittedParent := some [allow "details"] }),
    ("sup", { inherits := some "span" }),
    ("svg", { categories := some ["flow", "phrasing", "embedded"], foreign := some true }),
    ("table", {
      categories := some ["flow"],
      permittedContent := some [allow "caption", allow "colgroup", allow "thead", allow "tbody",
        allow "tr", allow "tfoot", allow "script", allow "template"],
      permittedOrder := some ["caption", "colgroup", "thead", "tbody, tr", "tfoot"],
      permittedOccurrences := some (.ofList [("caption", 1), ("tfoot", 1), ("thead", 1)]) }),
    ("tbody", { inherits := some "thead" }),
    ("td", {
      optionalEnd := some true, implicitClosed := some ["td", "th", "tr", "tbody", "tfoot"],
      permittedContent := some [allow "@flow"], permittedParent := some [allow "tr"] }),
    ("template", { categories := some ["metadata", "flow", "phrasing", "script-supporting"] }),
    ("textarea", { categories := some ["flow", "phrasing", "interactive"] }),
    ("tfoot", { inherits := some "thead", implicitClosed := some ["tbody"] }),
    ("th", {
      inherits := some "td",
      permittedContent :=
        some [allow "@flow", forbid "header", forbid "footer", forbid "@sectioning",
        forbid "@heading"] }),
    ("thead", {
      optionalEnd := some true, implicitClosed := some ["tbody", "tfoot"],
      permittedContent := some [allow "tr", allow "script", allow "template"],
      permittedParent := some [allow "table"] }),
    ("time", { inherits := some "span" }),
    ("title", { categories := some ["metadata"], permittedParent := some [allow "head"] }),
    ("tr", {
      optionalEnd := some true, implicitClosed := some ["tr", "tbody", "tfoot"],
      permittedContent := some [allow "td", allow "th", allow "script", allow "template"],
      permittedParent := some [allow "table", allow "thead", allow "tbody", allow "tfoot"] }),
    ("track", { void := some true, permittedParent := some [allow "video", allow "audio"] }),
    ("tt", {
      inherits := some "span",
      deprecated := some (.detailed ⟨some "use <code> instead", none, some "html5"⟩) }),
    ("u", { inherits := some "span" }),
    ("ul", { inherits := some "ol" }),
    ("var", { inherits := some "span" }),
    ("video", {
      categories := some ["flow", "phrasing", "embedded", "interactive"],
      permittedContent := some [allow "@flow", allow "source", allow "track", forbid "audio",
        forbid "video"], permittedOrder := some ["source", "track"] }),
    ("wbr", { inherits := some "br" }) ], NameMap.pairwise_of_areAscending (by decide +kernel)⟩

/-- Put a definition over the one of the same tag in small letters, if there is one and the new
definition does not say what it inherits. -/
def Definitions.customize (defs : Definitions) (tag : String) (d : ElementDefinition) :
    Definitions :=
  let tag := Text.foldCase tag
  match defs.get? tag, d.inherits with
  | some known, none => defs.insert tag (d.layeredOn known)
  | _, _ => defs.insert tag d

/-- The elements of HTML with some definitions put over theirs. -/
def Vocabulary.htmlWith (custom : Definitions) : Except InheritanceError Vocabulary :=
  Vocabulary.ofDefinitions (custom.entries.foldl (fun defs e => defs.customize e.1 e.2)
    htmlDefinitions)

end HtmlLint
